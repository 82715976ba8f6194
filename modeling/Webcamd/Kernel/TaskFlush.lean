import Webcamd.Kernel.TaskQueue

/-!
# Flushing waits for everything that was there

`flush_scheduled_work` sets a flag that all flushers share and polls until the
worker has cleared it; `flush_work` polls the links of one item and `work_curr`.
Both drop the lock between two polls, so anything may happen in the meantime: items
are queued and cancelled, other threads start flushes of their own.

What makes `flush_scheduled_work` right is a fact about the flag alone: **it only
ever changes from set to clear at a moment when nothing is queued and nothing runs**
(`flushWorkVar_step`).  Requests that existed when the call began have retired at
such a moment, and a retired request stays retired, however often another flusher
sets the flag again.  `Flushing` carries that through a call in progress;
`flush_retires` is the guarantee at its return.
-/

namespace Webcamd.Kernel

open Webcamd.Library

variable {W T C : Type} [DecidableEq W] [DecidableEq T] [DecidableEq C]
variable {dwork : T → Option W} {thread : Thread C} {state next : State W T C}
variable {action : Action W T C} {events : List (Event W T C)} {ledger : Ledger W}

/-! ### A call in progress -/

omit [DecidableEq C] in
/-- The worker touches neither the timers nor anybody's call. -/
theorem workExec_frame (h : state.workExec = some (next, events)) :
    next.timerHead = state.timerHead ∧ next.timerThread = state.timerThread ∧
      next.calls = state.calls := by
  obtain ⟨-, ⟨-, htake⟩ | ⟨work, rest, -, htake, -⟩⟩ := workExec_eq_some h
  · rcases takeWork_eq_some htake with ⟨item, removed, -, -, -, rfl⟩ | ⟨-, -, rfl⟩ <;>
      exact ⟨rfl, rfl, rfl⟩
  · rcases takeWork_eq_some htake with ⟨item, removed, -, -, -, rfl⟩ | ⟨-, -, rfl⟩ <;>
      exact ⟨rfl, rfl, rfl⟩

/-- **A thread that is in a call is moved only by its own lock sections.** -/
theorem calls_step_of_busy (hstep : (taskMachine dwork).step state action = some (next, events))
    (hbusy : state.calls thread ≠ .idle) (hother : ∀ now, action ≠ .advance thread now) :
    next.calls thread = state.calls thread := by
  cases action with
  | invoke other call =>
      simp only [taskMachine, State.invoke] at hstep
      split at hstep
      · rename_i hmay
        obtain ⟨rfl, -⟩ := Prod.mk.inj (Option.some.inj hstep)
        have hidle : state.calls other = .idle := by
          simp only [State.mayCall, Bool.and_eq_true, decide_eq_true_eq] at hmay
          exact hmay.1
        have hne : thread ≠ other := fun heq => hbusy (heq ▸ hidle)
        exact State.setCall_calls_of_ne state _ hne
      · cases hstep
  | advance other now =>
      have hne : thread ≠ other := fun heq => hother now (by rw [heq])
      exact (SectionEffect.advance hstep).others thread hne
  | workExec => rw [(workExec_frame hstep).2.2]
  | timerExec now fuel =>
      obtain ⟨hidle, lastJiffies, hscan⟩ := timerExec_eq_some hstep
      rcases scanTimers_eq_some hscan with ⟨rfl, -⟩ | ⟨timer, removed, -, rfl, -⟩
      · rfl
      · have hne : thread ≠ .timer := fun heq => hbusy (heq ▸ hidle)
        cases dwork timer with
        | none => rfl
        | some work => exact Function.update_of_ne hne _ _

/-- The beginning of a call. -/
theorem invoke_eq_some {call : Call W T}
    (h : (taskMachine dwork).step state (.invoke thread call) = some (next, events)) :
    next = state.setCall thread (.entry call) ∧ events = [.call thread call] := by
  simp only [taskMachine, State.invoke] at h
  split at h
  · obtain ⟨rfl, rfl⟩ := Prod.mk.inj (Option.some.inj h)
    exact ⟨rfl, rfl⟩
  · cases h

/-- **A call that has returned**, in a run from the start: how the state it was made in
was reached, what happened while it was in progress, and the lock section in which it
returned. -/
structure CompletedCall (dwork : T → Option W) (thread : Thread C) (call : Call W T) where
  before : List (Action W T C)
  past : List (Event W T C)
  atCall : State W T C
  reach : (taskMachine dwork).run .init before = some (atCall, past)
  /-- The call is made … -/
  entered : State W T C
  called : List (Event W T C)
  invoked : (taskMachine dwork).step atCall (.invoke thread call) = some (entered, called)
  /-- … all threads move, without the call returning … -/
  during : List (Action W T C)
  meanwhile : List (Event W T C)
  polling : State W T C
  runs : (taskMachine dwork).run entered during = some (polling, meanwhile)
  unreturned : ∀ value, .ret thread call value ∉ meanwhile
  /-- … and it returns. -/
  now : BitVec 64
  value : Int
  last : List (Event W T C)
  returned : State W T C
  returns : (taskMachine dwork).step polling (.advance thread now) = some (returned, last)
  ret_mem : .ret thread call value ∈ last

namespace CompletedCall

variable {call : Call W T}

/-- Everything that has happened up to the return. -/
def history (completed : CompletedCall dwork thread call) : List (Event W T C) :=
  completed.past ++ completed.called ++ completed.meanwhile ++ completed.last

/-- The steps from the call to its return, with the states they are taken in. -/
def steps (completed : CompletedCall dwork thread call) :
    List (State W T C × Action W T C) :=
  (taskMachine dwork).visited completed.entered completed.during ++
    [(completed.polling, .advance thread completed.now)]

/-- **The invariant rule for a call in progress**: what holds when the call is made,
and is kept by every step that does not return from it, holds when it is about to
return. -/
theorem invariant (completed : CompletedCall dwork thread call)
    {P : State W T C → List (Event W T C) → Prop}
    {Condition : State W T C → Action W T C → Prop}
    (hstep : ∀ {state past action next events}, P state past → Condition state action →
      (taskMachine dwork).step state action = some (next, events) →
      (∀ value, .ret thread call value ∉ events) → P next (past ++ events))
    (hstart : P completed.entered [])
    (hcondition : ∀ pair ∈ completed.steps, Condition pair.1 pair.2) :
    P completed.polling completed.meanwhile := by
  have hfirst : (∀ value, Event.ret thread call value ∉ ([] : List (Event W T C))) →
      P completed.entered [] := fun _ => hstart
  have key := (taskMachine dwork).run_invariant_of_visited
    (P := fun state past => (∀ value, .ret thread call value ∉ past) → P state past)
    (fun hprevious hcondition hnext hopen => by
      refine hstep (hprevious fun value hmem => ?_) hcondition hnext fun value hmem => ?_
      · exact hopen value (List.mem_append_left _ hmem)
      · exact hopen value (List.mem_append_right _ hmem))
    hfirst completed.runs
    (fun pair hmem => hcondition pair (List.mem_append_left _ hmem))
  exact key completed.unreturned

end CompletedCall

omit [DecidableEq T] in
theorem pollFlushWork_eq_some {work : W} {retval : Int}
    (h : state.pollFlushWork thread work retval = some (next, events)) :
    ((state.queued work = true ∨ state.workCurr = some work) ∧
      next = state.setCall thread (.waitFlushWork work retval) ∧ events = []) ∨
    (state.queued work = false ∧ state.workCurr ≠ some work ∧
      next = state.setCall thread .idle ∧
      events = [.ret thread (.flushWork work) retval]) := by
  rw [State.pollFlushWork] at h
  split at h
  · rename_i hbusy
    obtain ⟨rfl, rfl⟩ := Prod.mk.inj (Option.some.inj h)
    exact Or.inl ⟨hbusy, rfl, rfl⟩
  · rename_i hfree
    obtain ⟨rfl, rfl⟩ := Prod.mk.inj (Option.some.inj h)
    obtain ⟨hqueued, hcurr⟩ := not_or.mp hfree
    exact Or.inr ⟨by simpa using hqueued, hcurr, rfl, rfl⟩

omit [DecidableEq T] in
theorem workOps_pollFlushWork {work : W} {retval : Int}
    (h : state.pollFlushWork thread work retval = some (next, events)) :
    workOps events = [] := by
  rcases pollFlushWork_eq_some h with ⟨-, -, rfl⟩ | ⟨-, -, -, rfl⟩ <;> rfl

omit [DecidableEq W] [DecidableEq T] in
theorem pollFlushVar_eq_some (h : state.pollFlushVar thread = some (next, events)) :
    (state.flushWorkVar = true ∧ next = state.setCall thread .waitFlushVar ∧
      events = []) ∨
    (state.flushWorkVar = false ∧ next = state.setCall thread .idle ∧
      events = [.ret thread .flushScheduledWork 0]) := by
  rw [State.pollFlushVar] at h
  split at h
  · rename_i hflag
    obtain ⟨rfl, rfl⟩ := Prod.mk.inj (Option.some.inj h)
    exact Or.inl ⟨hflag, rfl, rfl⟩
  · rename_i hflag
    obtain ⟨rfl, rfl⟩ := Prod.mk.inj (Option.some.inj h)
    exact Or.inr ⟨by simpa using hflag, rfl, rfl⟩

/-! ### The flag -/

omit [DecidableEq T] [DecidableEq C] in
theorem takeWork_flushWorkVar (h : state.takeWork = some (next, events))
    (hcurr : state.workCurr = none) (hflag : next.flushWorkVar = false) :
    state.flushWorkVar = false ∨ (next.workHead.first = none ∧ next.workCurr = none) := by
  rcases takeWork_eq_some h with ⟨work, removed, -, -, -, rfl⟩ | ⟨hfirst, -, rfl⟩
  · exact Or.inl hflag
  · exact Or.inr ⟨hfirst, hcurr⟩

/-- **The flag is cleared only when nothing is queued and nothing runs.** -/
theorem flushWorkVar_step (hinv : WorkInv state ledger)
    (hstep : (taskMachine dwork).step state action = some (next, events))
    (hflag : next.flushWorkVar = false) :
    state.flushWorkVar = false ∨ (next.workHead.first = none ∧ next.workCurr = none) := by
  cases action with
  | invoke other call =>
      simp only [taskMachine, State.invoke] at hstep
      split at hstep
      · obtain ⟨rfl, -⟩ := Prod.mk.inj (Option.some.inj hstep)
        exact Or.inl hflag
      · cases hstep
  | advance other now =>
      rcases (SectionEffect.advance hstep).flushWorkVar with hsame | hset
      · exact Or.inl (hsame ▸ hflag)
      · exact absurd (hset.symm.trans hflag) (by simp)
  | workExec =>
      obtain ⟨-, ⟨hthread, htake⟩ | ⟨work, rest, -, htake, -⟩⟩ := workExec_eq_some hstep
      · exact takeWork_flushWorkVar htake (hinv.workCurr_of_idle hthread) hflag
      · have hcleared := takeWork_flushWorkVar htake rfl hflag
        exact hcleared
  | timerExec now fuel =>
      obtain ⟨-, lastJiffies, hscan⟩ := timerExec_eq_some hstep
      rcases scanTimers_eq_some hscan with ⟨rfl, -⟩ | ⟨timer, removed, -, rfl, -⟩
      · exact Or.inl hflag
      · exact Or.inl hflag

/-! ### Requests that are no longer there have retired -/

omit [DecidableEq T] [DecidableEq C] in
/-- A request for an item that is neither queued nor running has retired. -/
theorem WorkInv.retired_of_absent (hinv : WorkInv state ledger)
    (hbalanced : ledger.Balanced) {ticket : Ticket W} (hissued : ticket ∈ ledger.issued)
    (hqueued : state.queued ticket.item = false)
    (hcurr : state.workCurr ≠ some ticket.item) : ledger.Retired ticket := by
  rcases hbalanced.issued_cases hissued with (hwaiting | hactive) | hretired
  · have hmem := (hinv.queued_iff ticket.item).mpr (List.mem_map_of_mem hwaiting)
    exact absurd (hmem.symm.trans hqueued) (by simp)
  · have hmem : ticket.item ∈ state.workCurr.toList := by
      rw [hinv.active]
      exact List.mem_map_of_mem hactive
    exact absurd (Option.mem_toList.mp hmem) hcurr
  · exact hretired

omit [DecidableEq T] [DecidableEq C] in
/-- When nothing is queued and nothing runs, everything has retired. -/
theorem WorkInv.retired_of_empty (hinv : WorkInv state ledger)
    (hbalanced : ledger.Balanced) (hfirst : state.workHead.first = none)
    (hcurr : state.workCurr = none) {ticket : Ticket W}
    (hissued : ticket ∈ ledger.issued) : ledger.Retired ticket := by
  refine hinv.retired_of_absent hbalanced hissued ?_ (by simp [hcurr])
  have hempty : ledger.waiting.map Ticket.item = [] := by
    rw [hinv.links.first_eq, List.head?_eq_none_iff] at hfirst
    exact hfirst
  cases hqueued : state.queued ticket.item with
  | false => rfl
  | true =>
      have hmem := (hinv.queued_iff ticket.item).mp hqueued
      rw [hempty] at hmem
      cases hmem

/-! ### A flush in progress -/

/-- The items whose requests the call waits for. -/
def Call.flushes : Call W T → W → Prop
  | .flushScheduledWork, _ => True
  | .flushWork work, other => other = work
  | _, _ => False

/-- `thread` is in a flush that began when the requests were those of `before`. -/
structure Flushing (thread : Thread C) (call : Call W T) (before : Ledger W)
    (state : State W T C) (ledger : Ledger W) : Prop where
  inv : WorkInv state ledger
  balanced : ledger.Balanced
  issued : ∀ ticket, before.Outstanding ticket → ticket ∈ ledger.issued
  kind : call = .flushScheduledWork ∨ ∃ work, call = .flushWork work
  place : state.calls thread = .entry call ∨
    (call = .flushScheduledWork ∧ state.calls thread = .waitFlushVar ∧
      (state.flushWorkVar = false →
        ∀ ticket, before.Outstanding ticket → ledger.Retired ticket)) ∨
    ∃ work retval, call = .flushWork work ∧
      state.calls thread = .waitFlushWork work retval

namespace Flushing

variable {call : Call W T} {before : Ledger W}

omit [DecidableEq T] [DecidableEq C] in
theorem busy (h : Flushing thread call before state ledger) :
    state.calls thread ≠ .idle := by
  rcases h.place with hpc | ⟨-, hpc, -⟩ | ⟨work, retval, -, hpc⟩ <;> simp [hpc]

/-- Steps that are not a lock section of the flush. -/
theorem step_other (h : Flushing thread call before state ledger)
    (hstep : (taskMachine dwork).step state action = some (next, events))
    (hother : ∀ now, action ≠ .advance thread now) :
    ∃ after, ledger.replayFrom (workOps events) = some after ∧
      Flushing thread call before next after := by
  obtain ⟨after, hreplay, hinv⟩ := h.inv.step hstep
  obtain ⟨hmono, hretired⟩ := Ledger.mono_replayFrom hreplay
  have hbalanced := h.balanced.replayFrom hreplay
  have hissued : ∀ ticket, before.Outstanding ticket → ticket ∈ after.issued :=
    fun ticket hout => hmono ticket (h.issued ticket hout)
  refine ⟨after, hreplay, hinv, hbalanced, hissued, h.kind, ?_⟩
  rw [calls_step_of_busy hstep h.busy hother]
  rcases h.place with hpc | ⟨hcall, hpc, hflag⟩ | hwait
  · exact Or.inl hpc
  · refine Or.inr (Or.inl ⟨hcall, hpc, fun hclear ticket hout => ?_⟩)
    rcases flushWorkVar_step h.inv hstep hclear with hbefore | ⟨hfirst, hcurr⟩
    · exact hretired ticket (hflag hbefore ticket hout)
    · exact hinv.retired_of_empty hbalanced hfirst hcurr (hissued ticket hout)
  · exact Or.inr (Or.inr hwait)

/-- What a lock section of the flush comes to: it goes on polling, or returns with its
requests retired. -/
def Polled (thread : Thread C) (call : Call W T) (before : Ledger W)
    (next : State W T C) (events : List (Event W T C)) (after : Ledger W) : Prop :=
  (events = [] ∧ Flushing thread call before next after) ∨
    (∃ value, events = [.ret thread call value]) ∧
      ∀ ticket, call.flushes ticket.item → before.Outstanding ticket →
        after.Retired ticket

omit [DecidableEq T] in
/-- The polls of `flush_work`, at its entry and later. -/
theorem pollFlushWork {work : W} {retval : Int}
    (h : Flushing thread (.flushWork work) before state ledger)
    (hpoll : state.pollFlushWork thread work retval = some (next, events)) :
    Polled thread (.flushWork work) before next events ledger := by
  rcases pollFlushWork_eq_some hpoll with ⟨-, rfl, rfl⟩ | ⟨hqueued, hcurr, rfl, rfl⟩
  · exact Or.inl ⟨rfl, h.inv.congr rfl rfl rfl, h.balanced, h.issued, h.kind,
      Or.inr (Or.inr ⟨work, retval, rfl, by simp⟩)⟩
  · refine Or.inr ⟨⟨retval, rfl⟩, fun ticket hitem hout => ?_⟩
    obtain rfl : ticket.item = work := hitem
    exact h.inv.retired_of_absent h.balanced (h.issued ticket hout) hqueued hcurr

/-- The lock sections of the flush. -/
theorem step_self {now : BitVec 64} (h : Flushing thread call before state ledger)
    (hstep : (taskMachine dwork).step state (.advance thread now) = some (next, events)) :
    workOps events = [] ∧ Polled thread call before next events ledger := by
  rcases h.place with hpc | ⟨rfl, hpc, hflag⟩ | ⟨work, retval, rfl, hpc⟩
  · rcases h.kind with rfl | ⟨work, rfl⟩
    · simp only [taskMachine, State.advance, hpc, State.enter] at hstep
      rcases pollFlushVar_eq_some hstep with ⟨-, rfl, rfl⟩ | ⟨hclear, -, -⟩
      · refine ⟨rfl, Or.inl ⟨rfl, h.inv.congr rfl rfl rfl, h.balanced, h.issued, h.kind,
          Or.inr (Or.inl ⟨rfl, by simp, fun hclear => ?_⟩)⟩⟩
        cases hclear
      · cases hclear
    · simp only [taskMachine, State.advance, hpc, State.enter] at hstep
      exact ⟨workOps_pollFlushWork hstep, h.pollFlushWork hstep⟩
  · simp only [taskMachine, State.advance, hpc] at hstep
    rcases pollFlushVar_eq_some hstep with ⟨hset, rfl, rfl⟩ | ⟨hclear, rfl, rfl⟩
    · refine ⟨rfl, Or.inl ⟨rfl, h.inv.congr rfl rfl rfl, h.balanced, h.issued, h.kind,
        Or.inr (Or.inl ⟨rfl, by simp, fun hclear => ?_⟩)⟩⟩
      exact absurd (hset.symm.trans hclear) (by simp)
    · exact ⟨rfl, Or.inr ⟨⟨0, rfl⟩, fun ticket _ hout => hflag hclear ticket hout⟩⟩
  · simp only [taskMachine, State.advance, hpc] at hstep
    exact ⟨workOps_pollFlushWork hstep, h.pollFlushWork hstep⟩

/-- **One step** while the call has not returned. -/
theorem step (h : Flushing thread call before state ledger)
    (hstep : (taskMachine dwork).step state action = some (next, events))
    (hopen : ∀ value, .ret thread call value ∉ events) :
    ∃ after, ledger.replayFrom (workOps events) = some after ∧
      Flushing thread call before next after := by
  by_cases hself : ∃ now, action = .advance thread now
  · obtain ⟨now, rfl⟩ := hself
    obtain ⟨hops, ⟨-, hflushing⟩ | ⟨⟨value, rfl⟩, -⟩⟩ := h.step_self hstep
    · exact ⟨ledger, by rw [hops, Ledger.replayFrom_nil], hflushing⟩
    · exact absurd List.mem_cons_self (hopen value)
  · exact h.step_other hstep fun now heq => hself ⟨now, heq⟩

end Flushing

/-! ### The guarantee -/

/-- **When a flush returns, what was there when it began is gone.**  A thread calls
`flush_scheduled_work` or `flush_work`; other threads do whatever they like; the call
returns.  Let `before` be the requests at the call — those waiting are what
`work_head` holds, those active what `work_curr` names — and `after` those at the
return.  Every request outstanding in `before` that the call flushes (for
`flush_work`, those for its item) has been dropped or has finished in `after`. -/
theorem flush_retires {call : Call W T} (completed : CompletedCall dwork thread call)
    (hflush : call = .flushScheduledWork ∨ ∃ work, call = .flushWork work) :
    ∃ before after, Ledger.replay (workOps completed.past) = some before ∧
      completed.atCall.workHead.Represents (before.waiting.map Ticket.item) ∧
      completed.atCall.workCurr.toList = before.active.map Ticket.item ∧
      Ledger.replay (workOps completed.history) = some after ∧
      ∀ ticket, call.flushes ticket.item → before.Outstanding ticket →
        after.Retired ticket := by
  obtain ⟨before, hreplay, hinv⟩ := run_refines completed.reach
  obtain ⟨hentered, hcalled⟩ := invoke_eq_some completed.invoked
  have hbalanced := Ledger.balanced_of_replay hreplay
  have hstart : Flushing thread call before completed.entered before := by
    rw [hentered]
    exact ⟨hinv.congr rfl rfl rfl, hbalanced,
      fun ticket hout => hbalanced.issued_of_outstanding hout, hflush, Or.inl (by simp)⟩
  obtain ⟨after, hmeanwhile, hflushing⟩ := completed.invariant
    (P := fun state past => ∃ after, before.replayFrom (workOps past) = some after ∧
      Flushing thread call before state after)
    (fun ⟨middle, hpast, hflushing⟩ (_ : True) hstep hopen => by
      obtain ⟨after, hevents, hflushing⟩ := hflushing.step hstep hopen
      exact ⟨after, by rw [workOps_append, Ledger.replayFrom_append, hpast,
        Option.bind_some, hevents], hflushing⟩)
    ⟨before, rfl, hstart⟩ (fun _ _ => trivial)
  obtain ⟨hops, hpolled⟩ := hflushing.step_self completed.returns
  refine ⟨before, after, hreplay, hinv.links, hinv.active, ?_, ?_⟩
  · have hquiet : workOps completed.called = [] := by
      rw [hcalled]
      rfl
    rw [CompletedCall.history, workOps_append, workOps_append, workOps_append, hops, hquiet,
      List.append_nil, List.append_nil]
    exact Ledger.replay_append hreplay hmeanwhile
  · rcases hpolled with ⟨hnone, -⟩ | ⟨-, hretired⟩
    · have hmem := completed.ret_mem
      rw [hnone] at hmem
      cases hmem
    · exact hretired

/-- There are no delayed works. -/
def noDelayed (W : Type) : Empty → Option W := fun timer => timer.elim

/-- An item has been scheduled and the worker is in its function. -/
def runningSchedule : List (Action Unit Empty Unit) :=
  [.invoke (.client ()) (.scheduleWork ()), .advance (.client ()) 0, .workExec]

def runningState : State Unit Empty Unit :=
  (taskMachine (noDelayed Unit)).after .init runningSchedule rfl

def runningHistory : List (Event Unit Empty Unit) :=
  [.call (.client ()) (.scheduleWork ()), .scheduled () 1,
    .ret (.client ()) (.scheduleWork ()) 1, .started ()]

theorem runningState_run : (taskMachine (noDelayed Unit)).run .init runningSchedule =
    some (runningState, runningHistory) :=
  Machine.run_eq_after _ rfl rfl

/-- A flush polls once, then the item finishes, and then the flush returns. -/
def runningFlush : CompletedCall (noDelayed Unit) (.client ()) .flushScheduledWork where
  before := runningSchedule
  past := runningHistory
  atCall := runningState
  reach := runningState_run
  entered := runningState.setCall (.client ()) (.entry .flushScheduledWork)
  called := [.call (.client ()) .flushScheduledWork]
  invoked := rfl
  during := [.advance (.client ()) 0, .workExec]
  meanwhile := [.finished ()]
  polling := _
  runs := Machine.run_eq_after _ rfl rfl
  unreturned := by simp
  now := 0
  value := 0
  last := [.ret (.client ()) .flushScheduledWork 0]
  returned := _
  returns := rfl
  ret_mem := List.mem_cons_self

theorem flush_retires_running : ∃ before after,
    Ledger.replay (workOps runningFlush.past) = some before ∧
      before.Outstanding ⟨0, ()⟩ ∧
      Ledger.replay (workOps runningFlush.history) = some after ∧
      after.Retired ⟨0, ()⟩ := by
  obtain ⟨before, after, hbefore, -, -, hafter, hretired⟩ :=
    flush_retires runningFlush (Or.inl rfl)
  have hout : before.Outstanding ⟨0, ()⟩ := by
    obtain rfl := Option.some.inj (hbefore.symm.trans
      (rfl : _ = some (Ledger.mk [⟨0, ()⟩] [] [⟨0, ()⟩] [⟨0, ()⟩] [] [])))
    exact Or.inr List.mem_cons_self
  exact ⟨before, after, hbefore, hout, hafter, hretired _ trivial hout⟩

end Webcamd.Kernel
