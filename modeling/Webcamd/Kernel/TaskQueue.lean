import Webcamd.Kernel.Task

/-!
# The work queue is a first-come-first-served queue

Every history of the machine of `Webcamd.Kernel.Task`, read as moves of a
`Ledger`, is accepted, and the links of `work_head` hold exactly the requests the
ledger has waiting (`run_refines`).  Whether an item is queued is one pointer in the
code — `entry.tqe_prev` — that `schedule_work`, three kinds of cancellation and the
worker read and write; the ledger is what those accesses amount to.

The argument has three layers.

* **What a move can do**, said once: `SectionEffect` for the lock sections of calls
  (whatever the call, the work queue is left alone, gets one new item at its end,
  or loses one item), and `workExec_eq_some` for the worker.
* **One step**: `WorkInv`, which ties the links and `work_curr` to a ledger, is kept,
  and the ledger accepts the step's events (`WorkInv.step`).
* **Runs**: `run_refines`, from the invariant rule.

`work_queue_conservation` reads the ledger's laws back as statements about calls
and executions.
-/

namespace Webcamd.Kernel

open Webcamd.Library

variable {W T C : Type} [DecidableEq W] [DecidableEq T] [DecidableEq C]

/-! ### Histories as moves of a ledger -/

/-- What an event means for the work queue. -/
def Event.workOp : Event W T C → Option (Ledger.Op W)
  | .scheduled work value => if value = 1 then some (.issue work) else none
  | .cancelled work => some (.drop work)
  | .started work => some (.start work)
  | .finished work => some (.finish work)
  | _ => none

/-- The moves of the work queue in a history. -/
def workOps (history : List (Event W T C)) : List (Ledger.Op W) :=
  history.filterMap Event.workOp

omit [DecidableEq W] [DecidableEq T] [DecidableEq C] in
@[simp] theorem workOps_nil : workOps ([] : List (Event W T C)) = [] := rfl

omit [DecidableEq W] [DecidableEq T] [DecidableEq C] in
@[simp] theorem workOps_append (early late : List (Event W T C)) :
    workOps (early ++ late) = workOps early ++ workOps late :=
  List.filterMap_append

omit [DecidableEq W] [DecidableEq T] [DecidableEq C] in
@[simp] theorem workOps_ret (thread : Thread C) (call : Call W T) (value : Int) :
    workOps [(.ret thread call value : Event W T C)] = [] := rfl

/-! ### What a lock section of a call can do -/

/-- **Everything a lock section of a call can do**, whatever the call: to the work
queue, to the timer list, to the flush flag; the two service threads and the calls
of other threads are left alone. -/
structure SectionEffect (dwork : T → Option W) (thread : Thread C)
    (state next : State W T C) (events : List (Event W T C)) : Prop where
  work : (next.workHead = state.workHead ∧ workOps events = []) ∨
    (∃ call work, state.calls thread = .entry call ∧ call.schedules dwork = some work ∧
      state.queued work = false ∧
      next.workHead = state.workHead.insertTail work ∧
      workOps events = [.issue work]) ∨
    (∃ work, state.queued work = true ∧
      next.workHead = (state.workHead.takeOut work).1 ∧ workOps events = [.drop work])
  workCurr : next.workCurr = state.workCurr
  workThread : next.workThread = state.workThread
  flushWorkVar : next.flushWorkVar = state.flushWorkVar ∨ next.flushWorkVar = true
  timerHead : next.timerHead = state.timerHead ∨
    (∃ timer, next.timerHead = (state.timerHead.takeOut timer).1) ∨
    (∃ call timer, state.calls thread = .linkTimer call timer ∧
      next.timerHead = state.timerHead.insertTail timer)
  timerThread : next.timerThread = state.timerThread
  others : ∀ other, other ≠ thread → next.calls other = state.calls other

namespace SectionEffect

variable {dwork : T → Option W} {thread : Thread C} {state next last : State W T C}
variable {events produced : List (Event W T C)}

omit [DecidableEq C] in
/-- A section that touches nothing but the expiry times. -/
theorem quiet (thread : Thread C) (state : State W T C) (expires : T → BitVec 64) :
    SectionEffect dwork thread state { state with expires := expires } [] :=
  ⟨Or.inl ⟨rfl, rfl⟩, rfl, rfl, Or.inl rfl, Or.inl rfl, rfl, fun _ _ => rfl⟩

omit [DecidableEq C] in
theorem scheduleWork {call : Call W T} {work : W} (hpc : state.calls thread = .entry call)
    (hcall : call.schedules dwork = some work) :
    SectionEffect dwork thread state (state.scheduleWork work).1
      (state.scheduleWork work).2.2 := by
  by_cases hqueued : state.queued work
  · rw [show state.scheduleWork work = (state, 0, [.scheduled work 0]) by
      simp [State.scheduleWork, hqueued]]
    exact ⟨Or.inl ⟨rfl, rfl⟩, rfl, rfl, Or.inl rfl, Or.inl rfl, rfl, fun _ _ => rfl⟩
  · rw [show state.scheduleWork work =
        ({ state with workHead := state.workHead.insertTail work }, 1,
          [.scheduled work 1]) by simp [State.scheduleWork, hqueued]]
    exact ⟨Or.inr (Or.inl ⟨call, work, hpc, hcall, by simpa using hqueued, rfl, rfl⟩), rfl, rfl,
      Or.inl rfl, Or.inl rfl, rfl, fun _ _ => rfl⟩

omit [DecidableEq C] in
theorem cancelWork (thread : Thread C) (state : State W T C) (work : W) :
    SectionEffect dwork thread state (state.cancelWork work).1 (state.cancelWork work).2 := by
  refine ⟨?_, rfl, rfl, Or.inl rfl, Or.inl rfl, rfl, fun _ _ => rfl⟩
  cases hprev : state.workHead.prev work with
  | none =>
      left
      simp [State.cancelWork, TailQueue.takeOut, TailQueue.remove, hprev]
  | some cell =>
      refine Or.inr (Or.inr ⟨work, by simp [State.queued, hprev], rfl, ?_⟩)
      simp [State.cancelWork, TailQueue.takeOut, TailQueue.remove, hprev, workOps,
        Event.workOp]

omit [DecidableEq C] in
theorem delTimer (thread : Thread C) (state : State W T C) (timer : T) :
    SectionEffect dwork thread state (state.delTimer timer).1 (state.delTimer timer).2.2 := by
  refine ⟨Or.inl ⟨rfl, ?_⟩, rfl, rfl, Or.inl rfl, Or.inr (Or.inl ⟨timer, rfl⟩), rfl,
    fun _ _ => rfl⟩
  by_cases htaken : (state.timerHead.takeOut timer).2 <;>
    simp [State.delTimer, htaken, workOps, Event.workOp]

/-- What the section did before the call moved on is all it did. -/
theorem goto (h : SectionEffect dwork thread state next events) {pc : CallPc W T}
    (hgoto : next.goto thread pc events = some (last, produced)) :
    SectionEffect dwork thread state last produced := by
  obtain ⟨rfl, rfl⟩ := Prod.mk.inj (Option.some.inj hgoto)
  exact ⟨h.work, h.workCurr, h.workThread, h.flushWorkVar, h.timerHead, h.timerThread,
    fun other hne => by simp [hne, h.others other hne]⟩

/-- What the section did before the call returned is all it did. -/
theorem returnWith (h : SectionEffect dwork thread state next events) {call : Call W T}
    {value : Int} (hreturn : next.returnWith thread call value events
      = some (last, produced)) :
    SectionEffect dwork thread state last produced := by
  obtain ⟨rfl, rfl⟩ := Prod.mk.inj (Option.some.inj hreturn)
  refine ⟨?_, h.workCurr, h.workThread, h.flushWorkVar, h.timerHead, h.timerThread,
    fun other hne => by simp [hne, h.others other hne]⟩
  simpa using h.work

theorem pollCurr (h : SectionEffect dwork thread state next events) {call : Call W T}
    {work : W} (hpoll : next.pollCurr thread call work events = some (last, produced)) :
    SectionEffect dwork thread state last produced := by
  rw [State.pollCurr] at hpoll
  split at hpoll
  · exact h.goto hpoll
  · exact h.returnWith hpoll

theorem pollFlushWork {work : W} {retval : Int}
    (hpoll : state.pollFlushWork thread work retval = some (last, produced)) :
    SectionEffect dwork thread state last produced := by
  rw [State.pollFlushWork] at hpoll
  split at hpoll
  · exact (quiet thread state state.expires).goto hpoll
  · exact (quiet thread state state.expires).returnWith hpoll

theorem pollFlushVar (h : SectionEffect dwork thread state next [])
    (hpoll : next.pollFlushVar thread = some (last, produced)) :
    SectionEffect dwork thread state last produced := by
  rw [State.pollFlushVar] at hpoll
  split at hpoll
  · exact h.goto hpoll
  · exact h.returnWith hpoll

/-- The first section of any call. -/
theorem enter {call : Call W T} (hpc : state.calls thread = .entry call)
    (henter : state.enter dwork thread call = some (last, produced)) :
    SectionEffect dwork thread state last produced := by
  cases call with
  | scheduleWork work => exact (scheduleWork hpc rfl).returnWith henter
  | scheduleDelayedWork timer delay =>
      obtain ⟨work, hwork, henter⟩ := Option.bind_eq_some_iff.mp henter
      split at henter
      · rename_i hdelay
        have hcall : (Call.scheduleDelayedWork timer delay).schedules dwork = some work := by
          simp [Call.schedules, hdelay, hwork]
        exact (scheduleWork hpc hcall).returnWith henter
      · split at henter
        · exact (quiet thread state state.expires).returnWith henter
        · exact (quiet thread state state.expires).goto henter
  | cancelWork work => exact (cancelWork thread state work).returnWith henter
  | cancelWorkSync work => exact (cancelWork thread state work).pollCurr henter
  | cancelDelayedWork timer =>
      obtain ⟨work, -, henter⟩ := Option.bind_eq_some_iff.mp henter
      exact (cancelWork thread state work).returnWith henter
  | cancelDelayedWorkSync timer =>
      obtain ⟨work, -, henter⟩ := Option.bind_eq_some_iff.mp henter
      exact (cancelWork thread state work).goto henter
  | cancelRearmingDelayedWork timer =>
      obtain ⟨work, -, henter⟩ := Option.bind_eq_some_iff.mp henter
      exact (cancelWork thread state work).returnWith henter
  | flushWork work => exact pollFlushWork henter
  | flushScheduledWork =>
      refine pollFlushVar ?_ henter
      exact ⟨Or.inl ⟨rfl, rfl⟩, rfl, rfl, Or.inr rfl, Or.inl rfl, rfl, fun _ _ => rfl⟩
  | taskletSchedule work => exact (scheduleWork hpc rfl).returnWith henter
  | taskletKill work => exact (cancelWork thread state work).returnWith henter
  | timerPending timer => exact (quiet thread state state.expires).returnWith henter
  | addTimer timer => exact (delTimer thread state timer).goto henter
  | delTimer timer => exact (delTimer thread state timer).returnWith henter
  | delTimerSync timer => exact (delTimer thread state timer).returnWith henter
  | modTimer timer expires => exact (quiet thread state _).returnWith henter

/-- **Any section of any call.** -/
theorem advance {now : BitVec 64}
    (hadvance : state.advance dwork thread now = some (last, produced)) :
    SectionEffect dwork thread state last produced := by
  rw [State.advance] at hadvance
  split at hadvance
  · cases hadvance
  · rename_i call hpc
    exact enter hpc hadvance
  · exact (quiet thread state _).goto hadvance
  · exact (delTimer thread state _).goto hadvance
  · rename_i call timer hpc
    refine SectionEffect.returnWith ?_ hadvance
    exact ⟨Or.inl ⟨rfl, rfl⟩, rfl, rfl, Or.inl rfl,
      Or.inr (Or.inr ⟨call, timer, hpc, rfl⟩), rfl, fun _ _ => rfl⟩
  · exact (cancelWork thread state _).pollCurr hadvance
  · exact (quiet thread state state.expires).pollCurr hadvance
  · exact pollFlushWork hadvance
  · exact pollFlushVar (quiet thread state state.expires) hadvance

end SectionEffect

/-! ### What the service threads can do -/

omit [DecidableEq T] [DecidableEq C] in
/-- The top of the worker's loop: it takes the oldest item, or clears the flush flag
and sleeps. -/
theorem takeWork_eq_some {state next : State W T C} {events : List (Event W T C)}
    (h : state.takeWork = some (next, events)) :
    (∃ work removed, state.workHead.first = some work ∧
      state.workHead.remove work = some removed ∧ events = [.started work] ∧
      next = { state with
        workHead := removed.clearPrev work
        workCurr := some work
        workThread := .running work }) ∨
    (state.workHead.first = none ∧ events = [] ∧
      next = { state with flushWorkVar := false, workThread := .idle }) := by
  rw [State.takeWork] at h
  split at h
  · rename_i work hfirst
    rw [Option.map_eq_some_iff] at h
    obtain ⟨removed, hremove, heq⟩ := h
    obtain ⟨rfl, rfl⟩ := Prod.mk.inj heq
    exact Or.inl ⟨work, removed, hfirst, hremove, rfl, rfl⟩
  · rename_i hfirst
    obtain ⟨rfl, rfl⟩ := Prod.mk.inj (Option.some.inj h)
    exact Or.inr ⟨hfirst, rfl, rfl⟩

omit [DecidableEq C] in
/-- A step of the worker finishes the function it is in, if any, and then goes
through the top of the loop. -/
theorem workExec_eq_some {state next : State W T C} {events : List (Event W T C)}
    (h : state.workExec = some (next, events)) :
    state.calls .worker = .idle ∧
    ((state.workThread = .idle ∧ state.takeWork = some (next, events)) ∨
    ∃ work rest, state.workThread = .running work ∧
      State.takeWork { state with workCurr := none } = some (next, rest) ∧
      events = .finished work :: rest) := by
  rw [State.workExec] at h
  split at h
  · rename_i hidle
    refine ⟨hidle, ?_⟩
    split at h
    · rename_i hthread
      exact Or.inl ⟨hthread, h⟩
    · rename_i work hthread
      rw [Option.map_eq_some_iff] at h
      obtain ⟨⟨after, rest⟩, htake, heq⟩ := h
      obtain ⟨rfl, rfl⟩ := Prod.mk.inj heq
      exact Or.inr ⟨work, rest, hthread, htake, rfl⟩
  · cases h

omit [DecidableEq W] in
/-- A scan ends at the end of the list, or takes an expired timer off it and calls
its function. -/
theorem scanTimers_eq_some {dwork : T → Option W} {state next : State W T C}
    {lastJiffies : BitVec 64} {fuel : ℕ} {events : List (Event W T C)}
    (h : state.scanTimers dwork lastJiffies fuel = some (next, events)) :
    (next = { state with timerThread := .idle } ∧ events = []) ∨
    ∃ timer removed, state.timerHead.remove timer = some removed ∧
      next = { state with
        timerHead := removed.clearPrev timer
        timerThread := .running timer lastJiffies
        calls := match dwork timer with
          | some work => Function.update state.calls .timer (.entry (.scheduleWork work))
          | none => state.calls } ∧
      events = .fired timer :: (match dwork timer with
        | some work => [.call .timer (.scheduleWork work)]
        | none => []) := by
  rw [State.scanTimers] at h
  split at h
  · cases h
  · obtain ⟨rfl, rfl⟩ := Prod.mk.inj (Option.some.inj h)
    exact Or.inl ⟨rfl, rfl⟩
  · rename_i timer hfind
    rw [Option.map_eq_some_iff] at h
    obtain ⟨removed, hremove, heq⟩ := h
    refine Or.inr ⟨timer, removed, hremove, ?_⟩
    cases hwork : dwork timer with
    | none =>
        simp only [hwork] at heq
        obtain ⟨rfl, rfl⟩ := Prod.mk.inj heq
        exact ⟨rfl, rfl⟩
    | some work =>
        simp only [hwork] at heq
        obtain ⟨rfl, rfl⟩ := Prod.mk.inj heq
        exact ⟨rfl, rfl⟩

/-- A step of the timer thread is a scan. -/
theorem timerExec_eq_some {dwork : T → Option W} {state next : State W T C}
    {now : BitVec 64} {fuel : ℕ} {events : List (Event W T C)}
    (h : state.timerExec dwork now fuel = some (next, events)) :
    state.calls .timer = .idle ∧
      ∃ lastJiffies, state.scanTimers dwork lastJiffies fuel = some (next, events) := by
  rw [State.timerExec] at h
  split at h
  · rename_i hidle
    refine ⟨hidle, ?_⟩
    split at h
    · exact ⟨now, h⟩
    · rename_i timer lastJiffies hthread
      exact ⟨lastJiffies, h⟩
  · cases h

/-! ### The links refine a ledger -/

/-- The state agrees with a ledger of requests: `work_head` holds what is waiting,
`work_curr` and the worker's program counter what is active. -/
structure WorkInv (state : State W T C) (ledger : Ledger W) : Prop where
  links : state.workHead.Represents (ledger.waiting.map Ticket.item)
  active : state.workCurr.toList = ledger.active.map Ticket.item
  thread : state.workThread = match state.workCurr with
    | none => .idle
    | some work => .running work

namespace WorkInv

variable {state next : State W T C} {ledger : Ledger W} {events : List (Event W T C)}

omit [DecidableEq W] [DecidableEq T] [DecidableEq C] in
theorem init : WorkInv (State.init : State W T C) .empty :=
  ⟨TailQueue.Represents.empty, rfl, rfl⟩

omit [DecidableEq W] [DecidableEq T] [DecidableEq C] in
/-- `work->entry.tqe_prev != NULL` means that a request for the item is waiting. -/
theorem queued_iff (h : WorkInv state ledger) (work : W) :
    state.queued work = true ↔ work ∈ ledger.waiting.map Ticket.item :=
  h.links.prev_isSome_iff work

omit [DecidableEq W] [DecidableEq T] [DecidableEq C] in
/-- A worker that is in no function has no current item. -/
theorem workCurr_of_idle (h : WorkInv state ledger) (hthread : state.workThread = .idle) :
    state.workCurr = none := by
  cases hcurr : state.workCurr with
  | none => rfl
  | some work =>
      have hrunning := h.thread
      rw [hthread, hcurr] at hrunning
      cases hrunning

omit [DecidableEq W] [DecidableEq T] [DecidableEq C] in
/-- The current item is the one whose function the worker is in. -/
theorem workCurr_of_running (h : WorkInv state ledger) {work : W}
    (hthread : state.workThread = .running work) : state.workCurr = some work := by
  cases hcurr : state.workCurr with
  | none =>
      have hrunning := h.thread
      rw [hthread, hcurr] at hrunning
      cases hrunning
  | some other =>
      have hrunning := h.thread
      rw [hthread, hcurr] at hrunning
      cases hrunning
      rfl

omit [DecidableEq W] [DecidableEq T] [DecidableEq C] in
/-- Only the queue, `work_curr` and the worker matter. -/
theorem congr (h : WorkInv state ledger) (hhead : next.workHead = state.workHead)
    (hcurr : next.workCurr = state.workCurr)
    (hthread : next.workThread = state.workThread) : WorkInv next ledger :=
  ⟨hhead ▸ h.links, hcurr ▸ h.active, by rw [hthread, hcurr]; exact h.thread⟩

omit [DecidableEq C] in
/-- The lock sections of calls. -/
theorem section_ {dwork : T → Option W} {thread : Thread C} (h : WorkInv state ledger)
    (heffect : SectionEffect dwork thread state next events) :
    ∃ after, ledger.replayFrom (workOps events) = some after ∧ WorkInv next after := by
  rcases heffect.work with ⟨hhead, hops⟩ |
    ⟨call, work, -, -, hqueued, hhead, hops⟩ | ⟨work, hqueued, hhead, hops⟩
  · rw [hops]
    exact ⟨ledger, rfl, h.congr hhead heffect.workCurr heffect.workThread⟩
  · have hfresh : work ∉ ledger.waiting.map Ticket.item := fun hmem => by
      rw [(h.queued_iff work).mpr hmem] at hqueued
      cases hqueued
    rw [hops, Ledger.replayFrom_singleton]
    refine ⟨_, rfl, ?_, ?_, ?_⟩
    · rw [hhead, List.map_append]
      exact h.links.insertTail hfresh
    · rw [heffect.workCurr]
      exact h.active
    · rw [heffect.workThread, heffect.workCurr]
      exact h.thread
  · obtain ⟨after, hdrop, hactive, hwaiting⟩ :=
      Ledger.apply_drop_of_mem ((h.queued_iff work).mp hqueued)
    rw [hops, Ledger.replayFrom_singleton]
    refine ⟨after, hdrop, ?_, ?_, ?_⟩
    · rw [hhead, hwaiting]
      exact h.links.takeOut work
    · rw [heffect.workCurr, hactive]
      exact h.active
    · rw [heffect.workThread, heffect.workCurr]
      exact h.thread

omit [DecidableEq T] [DecidableEq C] in
/-- The top of the worker's loop, when no function is running. -/
theorem takeWork (htake : state.takeWork = some (next, events))
    (hlinks : state.workHead.Represents (ledger.waiting.map Ticket.item))
    (hcurr : state.workCurr = none) (hactive : ledger.active = []) :
    ∃ after, ledger.replayFrom (workOps events) = some after ∧ WorkInv next after := by
  rcases takeWork_eq_some htake with ⟨work, removed, hfirst, hremove, rfl, rfl⟩ |
    ⟨hfirst, rfl, rfl⟩
  · -- the first item is the oldest request waiting
    rw [hlinks.first_eq] at hfirst
    cases hitems : ledger.waiting.map Ticket.item with
    | nil => simp [hitems] at hfirst
    | cons oldest rest =>
        obtain rfl : oldest = work := by simpa [hitems] using hfirst
        obtain ⟨after, hstart, hwaiting, hafter⟩ := Ledger.apply_start_of_head hitems
        rw [hitems] at hlinks
        obtain ⟨removed', hremove', hrep⟩ := hlinks.remove List.mem_cons_self
        obtain rfl : removed' = removed := Option.some.inj (hremove'.symm.trans hremove)
        refine ⟨after, by simpa [workOps, Event.workOp] using hstart, ?_, ?_, rfl⟩
        · rw [hwaiting]
          simpa using hrep
        · rw [hafter, hactive]
          rfl
  · exact ⟨ledger, rfl, hlinks, by simp [hcurr, hactive], by simp [hcurr]⟩

omit [DecidableEq C] in
/-- The worker. -/
theorem workExec (h : WorkInv state ledger)
    (hexec : state.workExec = some (next, events)) :
    ∃ after, ledger.replayFrom (workOps events) = some after ∧ WorkInv next after := by
  obtain ⟨-, ⟨hthread, htake⟩ | ⟨work, rest, hthread, htake, rfl⟩⟩ :=
    workExec_eq_some hexec
  · have hcurr := h.workCurr_of_idle hthread
    have hactive : ledger.active = [] := by
      have hnil := h.active
      rw [hcurr] at hnil
      exact List.map_eq_nil_iff.mp hnil.symm
    exact takeWork htake h.links hcurr hactive
  · have hcurr := h.workCurr_of_running hthread
    have hitems : ledger.active.map Ticket.item = [work] := by
      rw [← h.active, hcurr]
      rfl
    have hmem : work ∈ ledger.active.map Ticket.item := by simp [hitems]
    obtain ⟨middle, hfinish, hwaiting, hactive⟩ := Ledger.apply_finish_of_mem hmem
    have hempty : middle.active = [] := by
      rw [hitems, List.erase_cons_head] at hactive
      exact List.map_eq_nil_iff.mp hactive
    have hlinks : state.workHead.Represents (middle.waiting.map Ticket.item) := by
      rw [hwaiting]
      exact h.links
    obtain ⟨after, hrest, hinv⟩ := takeWork htake hlinks rfl hempty
    refine ⟨after, ?_, hinv⟩
    have hops : workOps (.finished work :: rest) = .finish work :: workOps rest := rfl
    rw [hops, Ledger.replayFrom, hfinish, Option.bind_some, hrest]

/-- The timer thread does not touch the work queue. -/
theorem timerExec {dwork : T → Option W} {now : BitVec 64} {fuel : ℕ}
    (h : WorkInv state ledger)
    (hexec : state.timerExec dwork now fuel = some (next, events)) :
    ∃ after, ledger.replayFrom (workOps events) = some after ∧ WorkInv next after := by
  obtain ⟨-, lastJiffies, hscan⟩ := timerExec_eq_some hexec
  rcases scanTimers_eq_some hscan with ⟨rfl, rfl⟩ | ⟨timer, removed, -, rfl, rfl⟩
  · exact ⟨ledger, rfl, h.congr rfl rfl rfl⟩
  · refine ⟨ledger, ?_, h.congr rfl rfl rfl⟩
    cases dwork timer <;> rfl

/-- **One step**: the ledger accepts what happened, and still agrees with the
state. -/
theorem step {dwork : T → Option W} {action : Action W T C} (h : WorkInv state ledger)
    (hstep : (taskMachine dwork).step state action = some (next, events)) :
    ∃ after, ledger.replayFrom (workOps events) = some after ∧ WorkInv next after := by
  cases action with
  | invoke thread call =>
      simp only [taskMachine, State.invoke] at hstep
      split at hstep
      · obtain ⟨rfl, rfl⟩ := Prod.mk.inj (Option.some.inj hstep)
        exact ⟨ledger, rfl, h.congr rfl rfl rfl⟩
      · cases hstep
  | advance thread now => exact h.section_ (SectionEffect.advance hstep)
  | workExec => exact h.workExec hstep
  | timerExec now fuel => exact h.timerExec hstep

end WorkInv

/-- **Every run refines a ledger**, from any state that agrees with one. -/
theorem run_refines_from {dwork : T → Option W} {start state : State W T C}
    {ledger : Ledger W} {schedule : List (Action W T C)} {history : List (Event W T C)}
    (hstart : WorkInv start ledger)
    (hrun : (taskMachine dwork).run start schedule = some (state, history)) :
    ∃ after, ledger.replayFrom (workOps history) = some after ∧ WorkInv state after := by
  have hfirst : ∃ after, ledger.replayFrom (workOps ([] : List (Event W T C))) = some after ∧
      WorkInv start after := ⟨ledger, rfl, hstart⟩
  have key := (taskMachine dwork).run_invariant
    (P := fun state past => ∃ after, ledger.replayFrom (workOps past) = some after ∧
      WorkInv state after)
    (fun {state past action next events} hinv hstep => by
      obtain ⟨middle, hpast, hinv⟩ := hinv
      obtain ⟨after, hevents, hinv⟩ := hinv.step hstep
      exact ⟨after, by rw [workOps_append, Ledger.replayFrom_append, hpast,
        Option.bind_some, hevents], hinv⟩)
    hfirst hrun
  simpa using key

/-- **Every run from the start refines the empty ledger.** -/
theorem run_refines {dwork : T → Option W} {state : State W T C}
    {schedule : List (Action W T C)} {history : List (Event W T C)}
    (hrun : (taskMachine dwork).run .init schedule = some (state, history)) :
    ∃ ledger, Ledger.replay (workOps history) = some ledger ∧ WorkInv state ledger :=
  run_refines_from WorkInv.init hrun

/-! ### Conservation and order -/

/-- The item a successful `schedule_work` put on the queue. -/
def Event.scheduledItem : Event W T C → Option W
  | .scheduled work value => if value = 1 then some work else none
  | _ => none

/-- The item whose function was started. -/
def Event.startedItem : Event W T C → Option W
  | .started work => some work
  | _ => none

/-- The item a cancellation removed. -/
def Event.cancelledItem : Event W T C → Option W
  | .cancelled work => some work
  | _ => none

omit [DecidableEq W] [DecidableEq T] [DecidableEq C] in
theorem Event.workOp_bind_issueItem (event : Event W T C) :
    event.workOp.bind Ledger.Op.issueItem = event.scheduledItem := by
  cases event with
  | scheduled work value =>
      by_cases hvalue : value = 1 <;>
        simp [Event.workOp, Event.scheduledItem, Ledger.Op.issueItem, hvalue]
  | _ => rfl

omit [DecidableEq W] [DecidableEq T] [DecidableEq C] in
theorem Event.workOp_bind_startItem (event : Event W T C) :
    event.workOp.bind Ledger.Op.startItem = event.startedItem := by
  cases event with
  | scheduled work value =>
      by_cases hvalue : value = 1 <;>
        simp [Event.workOp, Event.startedItem, Ledger.Op.startItem, hvalue]
  | _ => rfl

omit [DecidableEq W] [DecidableEq T] [DecidableEq C] in
theorem Event.workOp_bind_dropItem (event : Event W T C) :
    event.workOp.bind Ledger.Op.dropItem = event.cancelledItem := by
  cases event with
  | scheduled work value =>
      by_cases hvalue : value = 1 <;>
        simp [Event.workOp, Event.cancelledItem, Ledger.Op.dropItem, hvalue]
  | _ => rfl

/-- A move of the work queue is counted by the event that stands for it. -/
theorem count_workOps {op : Ledger.Op W} {event : Event W T C}
    (hop : ∀ other : Event W T C, other.workOp = some op ↔ other = event)
    (history : List (Event W T C)) : (workOps history).count op = history.count event := by
  rw [workOps, List.count]
  refine Ledger.count_filterMap (fun other => ?_) history
  rw [hop other, beq_iff_eq]

omit [DecidableEq W] [DecidableEq T] [DecidableEq C] in
theorem workOp_eq_issue_iff (work : W) (event : Event W T C) :
    event.workOp = some (.issue work) ↔ event = .scheduled work 1 := by
  cases event with
  | scheduled other value =>
      by_cases hvalue : value = 1 <;> simp [Event.workOp, hvalue]
  | _ => simp [Event.workOp]

omit [DecidableEq W] [DecidableEq T] [DecidableEq C] in
theorem workOp_eq_start_iff (work : W) (event : Event W T C) :
    event.workOp = some (.start work) ↔ event = .started work := by
  cases event with
  | scheduled other value =>
      by_cases hvalue : value = 1 <;> simp [Event.workOp, hvalue]
  | _ => simp [Event.workOp]

omit [DecidableEq W] [DecidableEq T] [DecidableEq C] in
theorem workOp_eq_drop_iff (work : W) (event : Event W T C) :
    event.workOp = some (.drop work) ↔ event = .cancelled work := by
  cases event with
  | scheduled other value =>
      by_cases hvalue : value = 1 <;> simp [Event.workOp, hvalue]
  | _ => simp [Event.workOp]

omit [DecidableEq T] [DecidableEq C] in
/-- An item waits at most once, and exactly when it is queued. -/
theorem WorkInv.countItem_waiting {state : State W T C} {ledger : Ledger W}
    (h : WorkInv state ledger) (work : W) :
    Ledger.countItem ledger.waiting work = if state.queued work then 1 else 0 := by
  by_cases hmem : work ∈ ledger.waiting.map Ticket.item
  · rw [if_pos ((h.queued_iff work).mpr hmem)]
    exact List.count_eq_one_of_mem h.links.nodup hmem
  · have hnot : ¬ state.queued work = true := fun hqueued =>
      hmem ((h.queued_iff work).mp hqueued)
    rw [if_neg hnot]
    exact List.count_eq_zero_of_not_mem hmem

/-- **Conservation and order of the work queue.**  After every run:

* the links of `work_head` hold a list without repetition, and an item is marked as
  queued exactly if it is on it;
* per item, executions started are the successful `schedule_work` calls minus the
  cancellations that removed it, minus one if it is queued;
* number the successful calls in the order in which they took effect.  Then what has
  started, followed by what is still on the queue, is what was scheduled without what
  was cancelled, **in that order**. -/
theorem work_queue_conservation {dwork : T → Option W} {state : State W T C}
    {schedule : List (Action W T C)} {history : List (Event W T C)}
    (hrun : (taskMachine dwork).run .init schedule = some (state, history)) :
    (∃ items, state.workHead.Represents items ∧
      ∀ work, state.queued work = true ↔ work ∈ items) ∧
    (∀ work, (history.count (.started work) : ℤ) =
      history.count (.scheduled work 1) - history.count (.cancelled work) -
        if state.queued work then 1 else 0) ∧
    ∃ ledger : Ledger W, Ledger.replay (workOps history) = some ledger ∧
      ledger.issued.map Ticket.item = history.filterMap Event.scheduledItem ∧
      ledger.issued.map Ticket.number = List.range ledger.issued.length ∧
      ledger.started.map Ticket.item = history.filterMap Event.startedItem ∧
      ledger.dropped.map Ticket.item = history.filterMap Event.cancelledItem ∧
      state.workHead.Represents (ledger.waiting.map Ticket.item) ∧
      ledger.started ++ ledger.waiting =
        ledger.issued.filter fun ticket => ticket ∉ ledger.dropped := by
  obtain ⟨ledger, hreplay, hinv⟩ := run_refines hrun
  have hbalanced := Ledger.balanced_of_replay hreplay
  obtain ⟨hissued, hstarted, hdropped⟩ := Ledger.items_replayFrom hreplay
  refine ⟨⟨_, hinv.links, hinv.queued_iff⟩, fun work => ?_, ledger, hreplay, ?_,
    hbalanced.numbered, ?_, ?_, hinv.links, hbalanced.fifo⟩
  · have hcount := Ledger.count_issue_replayFrom hreplay work
    rw [count_workOps (workOp_eq_issue_iff work), count_workOps (workOp_eq_start_iff work),
      count_workOps (workOp_eq_drop_iff work), hinv.countItem_waiting work] at hcount
    simp only [Ledger.empty, Ledger.countItem_nil, add_zero] at hcount
    by_cases hqueued : state.queued work = true
    · rw [if_pos hqueued] at hcount ⊢
      omega
    · rw [if_neg hqueued] at hcount ⊢
      omega
  · rw [hissued, workOps, List.filterMap_filterMap]
    simp [Ledger.empty, Event.workOp_bind_issueItem]
  · rw [hstarted, workOps, List.filterMap_filterMap]
    simp [Ledger.empty, Event.workOp_bind_startItem]
  · rw [hdropped, workOps, List.filterMap_filterMap]
    simp [Ledger.empty, Event.workOp_bind_dropItem]

/-- Two items are scheduled; while the worker runs the first, it is scheduled again
and the second is cancelled. -/
def requeueSchedule : List (Action Bool Empty Unit) :=
  [.invoke (.client ()) (.scheduleWork true), .advance (.client ()) 0,
    .invoke (.client ()) (.scheduleWork false), .advance (.client ()) 0, .workExec,
    .invoke .worker (.scheduleWork true), .advance .worker 0,
    .invoke (.client ()) (.cancelWork false), .advance (.client ()) 0]

def requeueHistory : List (Event Bool Empty Unit) :=
  [.call (.client ()) (.scheduleWork true), .scheduled true 1,
    .ret (.client ()) (.scheduleWork true) 1,
    .call (.client ()) (.scheduleWork false), .scheduled false 1,
    .ret (.client ()) (.scheduleWork false) 1, .started true,
    .call .worker (.scheduleWork true), .scheduled true 1,
    .ret .worker (.scheduleWork true) 1,
    .call (.client ()) (.cancelWork false), .cancelled false,
    .ret (.client ()) (.cancelWork false) 0]

theorem work_queue_conservation_requeue :
    ∃ state, (taskMachine fun timer : Empty => timer.elim).run .init requeueSchedule =
        some (state, requeueHistory) ∧
      (requeueHistory.count (.started true) : ℤ) =
        requeueHistory.count (.scheduled true 1) -
          requeueHistory.count (.cancelled true) - if state.queued true then 1 else 0 := by
  have hrun := Machine.run_eq_after (taskMachine fun timer : Empty => timer.elim)
    (rfl : ((taskMachine _).run .init requeueSchedule).isSome = true)
    (rfl : _ = some requeueHistory)
  exact ⟨_, hrun, (work_queue_conservation hrun).2.1 true⟩

end Webcamd.Kernel
