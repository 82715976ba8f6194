import Webcamd.Kernel.TaskFlush

/-!
# Cancelling and waiting

What is left of an item when a cancelling call returns.  An item can be in three
places — on the timer list, on the work queue, in the worker — and moves between them
in lock sections of different threads, so a call that looks at the places one after
the other can miss it.

* `cancel_work_sync` takes the item off the queue once and then waits for the running
  function.  A function that queues its own item again while the call waits is only
  seen if the worker takes that item next (`cancelWorkSync_stops`); otherwise the
  call returns with the item queued (`cancelWorkSync_misses_requeue`).
* `cancel_delayed_work_sync` does the same and never looks at the timer:
  `cancelDelayedWorkSync_stops` needs a timer that is neither pending nor being
  handed over.
* `del_timer_sync` and `tasklet_kill` do not wait at all: what they promise at their
  return was already true of the callback before (`sync_teardown_iff`).

The conditions of these theorems are predicates on a step and the state it is taken
in, such as `queuesWork`; they are computable, so the runs that break the promises are
checked by evaluation.
-/

namespace Webcamd.Kernel

open Webcamd.Library

variable {W T C : Type} [DecidableEq W] [DecidableEq T] [DecidableEq C]

/-! ### Who queues an item and who arms its timer -/

/-- The step is a lock section whose `schedule_work` puts `work` on the queue. -/
def queuesWork (dwork : T → Option W) (work : W) (state : State W T C)
    (action : Action W T C) : Bool :=
  match action with
  | .advance thread _ =>
      match state.calls thread with
      | .entry call => decide (call.schedules dwork = some work) && !state.queued work
      | _ => false
  | _ => false

/-- The timer thread has taken a timer of `work` off its list and is in
`delayed_work_timer_fn`, before the `schedule_work` there. -/
def handsOver (dwork : T → Option W) (work : W) (state : State W T C) : Bool :=
  match state.timerThread with
  | .idle => false
  | .running timer _ => decide (dwork timer = some work) && decide (state.calls .timer ≠ .idle)

/-- `queuesWork`, by anybody but `delayed_work_timer_fn`. -/
def driverQueues (dwork : T → Option W) (work : W) (state : State W T C)
    (action : Action W T C) : Bool :=
  queuesWork dwork work state action &&
    match action with
    | .advance .timer _ => !handsOver dwork work state
    | _ => true

/-- The step is the insertion of `add_timer`, of a timer of `work`. -/
def armsTimer (dwork : T → Option W) (work : W) (state : State W T C)
    (action : Action W T C) : Bool :=
  match action with
  | .advance thread _ =>
      match state.calls thread with
      | .linkTimer _ timer => decide (dwork timer = some work)
      | _ => false
  | _ => false

/-- If the step is the insertion of `add_timer`, the timer is not on the list: nobody
has put it there since the call's own `del_timer`. -/
def linksUnlinked (state : State W T C) (action : Action W T C) : Bool :=
  match action with
  | .advance thread _ =>
      match state.calls thread with
      | .linkTimer _ timer => !state.pending timer
      | _ => true
  | _ => true

variable {dwork : T → Option W} {thread : Thread C} {state next : State W T C}
variable {action : Action W T C} {events : List (Event W T C)} {ledger : Ledger W}
variable {work : W}

/-! ### What a step can do to the work queue -/

/-- **Everything a step can do to the work queue.** -/
inductive WorkMove (dwork : T → Option W) (state : State W T C) (action : Action W T C)
    (next : State W T C) (events : List (Event W T C)) : Prop where
  | kept (head : next.workHead = state.workHead) (curr : next.workCurr = state.workCurr)
      (quiet : ∀ work, .started work ∉ events)
  | queued (item : W) (queues : queuesWork dwork item state action = true)
      (head : next.workHead = state.workHead.insertTail item)
      (curr : next.workCurr = state.workCurr) (quiet : ∀ work, .started work ∉ events)
  | removed (item : W) (head : next.workHead = (state.workHead.takeOut item).1)
      (curr : next.workCurr = state.workCurr) (quiet : ∀ work, .started work ∉ events)
  | taken (item : W) (first : state.workHead.first = some item)
      (head : next.workHead = (state.workHead.takeOut item).1)
      (curr : next.workCurr = some item)
      (only : ∀ work, .started work ∈ events → work = item)
  | slept (first : state.workHead.first = none) (head : next.workHead = state.workHead)
      (curr : next.workCurr = none) (quiet : ∀ work, .started work ∉ events)

omit [DecidableEq W] [DecidableEq T] [DecidableEq C] in
theorem started_notMem_of_workOps (h : .start work ∉ workOps events) :
    .started work ∉ events := fun hmem =>
  h (List.mem_filterMap.mpr ⟨_, hmem, rfl⟩)

omit [DecidableEq C] in
theorem WorkMove.of_section (heffect : SectionEffect dwork thread state next events)
    (now : BitVec 64) : WorkMove dwork state (.advance thread now) next events := by
  rcases heffect.work with ⟨hhead, hops⟩ | ⟨call, item, hpc, hcall, hqueued, hhead, hops⟩ |
    ⟨item, -, hhead, hops⟩
  · exact .kept hhead heffect.workCurr fun work =>
      started_notMem_of_workOps (by simp [hops])
  · refine .queued item ?_ hhead heffect.workCurr fun work =>
      started_notMem_of_workOps (by simp [hops])
    simp [queuesWork, hpc, hcall, hqueued]
  · exact .removed item hhead heffect.workCurr fun work =>
      started_notMem_of_workOps (by simp [hops])

omit [DecidableEq T] [DecidableEq C] in
/-- The top of the worker's loop, after what the worker did before it. -/
theorem WorkMove.of_takeWork {idle : State W T C} {earlier : List (Event W T C)}
    (htake : idle.takeWork = some (next, events)) (hhead : idle.workHead = state.workHead)
    (hcurr : idle.workCurr = none) (hearlier : ∀ work, .started work ∉ earlier) :
    WorkMove dwork state .workExec next (earlier ++ events) := by
  rcases takeWork_eq_some htake with ⟨item, removed, hfirst, hremove, rfl, rfl⟩ |
    ⟨hfirst, rfl, rfl⟩
  · rw [hhead] at hfirst hremove
    refine .taken item hfirst ?_ rfl fun work hmem => ?_
    · simp [TailQueue.takeOut, hremove]
    · rcases List.mem_append.mp hmem with hin | hin
      · exact absurd hin (hearlier work)
      · simpa using hin
  · exact .slept (hhead ▸ hfirst) hhead hcurr (by simpa using hearlier)

theorem WorkMove.of_step (hinv : WorkInv state ledger)
    (hstep : (taskMachine dwork).step state action = some (next, events)) :
    WorkMove dwork state action next events := by
  cases action with
  | invoke other call =>
      obtain ⟨rfl, rfl⟩ := invoke_eq_some hstep
      exact .kept rfl rfl fun work => by simp
  | advance other now => exact WorkMove.of_section (SectionEffect.advance hstep) now
  | workExec =>
      obtain ⟨-, ⟨hthread, htake⟩ | ⟨work, rest, -, htake, rfl⟩⟩ := workExec_eq_some hstep
      · have hnone : ∀ work, Event.started work ∉ ([] : List (Event W T C)) := by simp
        exact WorkMove.of_takeWork htake rfl (hinv.workCurr_of_idle hthread) hnone
      · have hnone : ∀ other, Event.started other ∉ [(.finished work : Event W T C)] := by
          simp
        have hhead : State.workHead { state with workCurr := none } = state.workHead := rfl
        exact WorkMove.of_takeWork htake hhead rfl hnone
  | timerExec now fuel =>
      obtain ⟨-, lastJiffies, hscan⟩ := timerExec_eq_some hstep
      rcases scanTimers_eq_some hscan with ⟨rfl, rfl⟩ | ⟨timer, removed, -, rfl, rfl⟩
      · exact .kept rfl rfl fun work => by simp
      · refine .kept rfl rfl fun work => ?_
        cases dwork timer <;> simp

/-! ### Staying stopped -/

/-- The item is neither queued nor running. -/
structure Stopped (work : W) (state : State W T C) : Prop where
  queued : state.queued work = false
  curr : state.workCurr ≠ some work

omit [DecidableEq W] [DecidableEq T] [DecidableEq C] in
theorem WorkInv.queued_eq_false_iff (hinv : WorkInv state ledger) (work : W) :
    state.queued work = false ↔ work ∉ ledger.waiting.map Ticket.item := by
  rw [← hinv.queued_iff work, Bool.not_eq_true]

omit [DecidableEq W] [DecidableEq T] [DecidableEq C] in
theorem queued_eq_false_of_represents {items : List W}
    (h : state.workHead.Represents items) (hnot : work ∉ items) :
    state.queued work = false := by
  rw [State.queued, h.unlinked work hnot]
  rfl

omit [DecidableEq W] [DecidableEq T] [DecidableEq C] in
theorem mem_of_queued {items : List W} (h : state.workHead.Represents items)
    (hqueued : state.queued work = true) : work ∈ items :=
  (h.prev_isSome_iff work).mp hqueued

omit [DecidableEq T] [DecidableEq C] in
/-- What is on the queue after an item was put on it. -/
theorem WorkInv.represents_insertTail (hinv : WorkInv state ledger) {item : W}
    (hqueues : queuesWork dwork item state action = true)
    (hhead : next.workHead = state.workHead.insertTail item) :
    next.workHead.Represents (ledger.waiting.map Ticket.item ++ [item]) := by
  rw [hhead]
  refine hinv.links.insertTail ((hinv.queued_eq_false_iff item).mp ?_)
  unfold queuesWork at hqueues
  split at hqueues
  · split at hqueues
    · simp only [Bool.and_eq_true, Bool.not_eq_true'] at hqueues
      exact hqueues.2
    · cases hqueues
  · cases hqueues

omit [DecidableEq T] [DecidableEq C] in
/-- **A stopped item stays stopped** until somebody queues it, and is not started. -/
theorem Stopped.step (h : Stopped work state) (hinv : WorkInv state ledger)
    (hmove : WorkMove dwork state action next events)
    (hquiet : queuesWork dwork work state action = false) :
    Stopped work next ∧ .started work ∉ events := by
  have hnot := (hinv.queued_eq_false_iff work).mp h.queued
  cases hmove with
  | kept hhead hcurr hnone =>
      refine ⟨⟨?_, hcurr ▸ h.curr⟩, hnone work⟩
      exact queued_eq_false_of_represents (hhead ▸ hinv.links) hnot
  | queued item hqueues hhead hcurr hnone =>
      refine ⟨⟨?_, hcurr ▸ h.curr⟩, hnone work⟩
      refine queued_eq_false_of_represents (hinv.represents_insertTail hqueues hhead) ?_
      have hne : work ≠ item := by
        rintro rfl
        rw [hqueues] at hquiet
        cases hquiet
      simp only [List.mem_append, List.mem_singleton]
      exact fun hor => hor.elim hnot hne
  | removed item hhead hcurr hnone =>
      refine ⟨⟨?_, hcurr ▸ h.curr⟩, hnone work⟩
      exact queued_eq_false_of_represents (hhead ▸ hinv.links.takeOut item) fun hmem =>
        hnot (List.mem_of_mem_erase hmem)
  | taken item hfirst hhead hcurr honly =>
      have hmem : item ∈ ledger.waiting.map Ticket.item :=
        List.mem_of_mem_head? (hinv.links.first_eq ▸ hfirst)
      have hne : work ≠ item := fun heq => hnot (heq ▸ hmem)
      refine ⟨⟨?_, ?_⟩, fun hin => hne (honly work hin)⟩
      · exact queued_eq_false_of_represents (hhead ▸ hinv.links.takeOut item) fun hin =>
          hnot (List.mem_of_mem_erase hin)
      · rw [hcurr]
        exact fun heq => hne (Option.some.inj heq).symm
  | slept hfirst hhead hcurr hnone =>
      refine ⟨⟨?_, by simp [hcurr]⟩, hnone work⟩
      exact queued_eq_false_of_represents (hhead ▸ hinv.links) hnot

/-! ### Waiting for an item that may queue itself -/

/-- If the item is queued, it is the next one the worker takes, and it is running: a
wait for `work_curr` to change does not end before it has been taken. -/
def Stopping (work : W) (state : State W T C) : Prop :=
  state.queued work = true → state.workHead.first = some work ∧ state.workCurr = some work

omit [DecidableEq W] [DecidableEq T] [DecidableEq C] in
theorem Stopping.stopped (h : Stopping work state) (hcurr : state.workCurr ≠ some work) :
    Stopped work state := by
  refine ⟨?_, hcurr⟩
  cases hqueued : state.queued work with
  | false => rfl
  | true => exact absurd (h hqueued).2 hcurr

omit [DecidableEq T] [DecidableEq C] in
theorem Stopping.step (h : Stopping work state) (hinv : WorkInv state ledger)
    (hmove : WorkMove dwork state action next events)
    (hrequeue : queuesWork dwork work state action = true →
      state.workCurr = some work ∧ state.workHead.first = none) :
    Stopping work next := by
  have hlinks := hinv.links
  -- on the list the links hold: the item is its head, if it is there
  have hhead : work ∈ ledger.waiting.map Ticket.item →
      (ledger.waiting.map Ticket.item).head? = some work ∧ state.workCurr = some work := by
    intro hmem
    rw [← hlinks.first_eq]
    exact h ((hinv.queued_iff work).mpr hmem)
  intro hqueued
  cases hmove with
  | kept hsame hcurr =>
      rw [State.queued, hsame] at hqueued
      rw [hsame, hcurr]
      exact h hqueued
  | queued item hqueues hnext hcurr =>
      have hrep := hinv.represents_insertTail hqueues hnext
      rw [hrep.first_eq, hcurr]
      by_cases heq : item = work
      · obtain ⟨hrunning, hfirst⟩ := hrequeue (heq ▸ hqueues)
        rw [hlinks.first_eq, List.head?_eq_none_iff] at hfirst
        simp [hfirst, heq, hrunning]
      · have hmem : work ∈ ledger.waiting.map Ticket.item := by
          have hin := mem_of_queued hrep hqueued
          simp only [List.mem_append, List.mem_singleton] at hin
          exact hin.resolve_right fun h => heq h.symm
        obtain ⟨hfirst, hrunning⟩ := hhead hmem
        rw [List.head?_append, hfirst]
        exact ⟨rfl, hrunning⟩
  | removed item hnext hcurr =>
      have hrep := hlinks.takeOut item
      rw [← hnext] at hrep
      have hin := mem_of_queued hrep hqueued
      obtain ⟨hfirst, hrunning⟩ := hhead (List.mem_of_mem_erase hin)
      have hne : item ≠ work := fun heq =>
        hlinks.nodup.not_mem_erase (heq ▸ hin)
      rw [hrep.first_eq, hcurr]
      refine ⟨?_, hrunning⟩
      obtain ⟨rest, hitems⟩ := List.head?_eq_some_iff.mp hfirst
      rw [hitems, List.erase_cons_tail (by simpa using hne.symm), List.head?_cons]
  | taken item hfirst hnext hcurr =>
      have hrep := hlinks.takeOut item
      rw [← hnext] at hrep
      have hin := mem_of_queued hrep hqueued
      obtain ⟨hfirst', -⟩ := hhead (List.mem_of_mem_erase hin)
      rw [hlinks.first_eq, hfirst'] at hfirst
      obtain rfl := Option.some.inj hfirst
      exact absurd hin hlinks.nodup.not_mem_erase
  | slept hfirst hsame hcurr =>
      rw [hlinks.first_eq, List.head?_eq_none_iff] at hfirst
      rw [State.queued, hsame] at hqueued
      have hmem := (hinv.queued_iff work).mp hqueued
      rw [hfirst] at hmem
      cases hmem

/-! ### The call in progress -/

/-- The call's `cancel_work_sync` is for this item. -/
def Call.cancelsSync (dwork : T → Option W) (call : Call W T) (work : W) : Prop :=
  call = .cancelWorkSync work ∨
    ∃ timer, call = .cancelDelayedWorkSync timer ∧ dwork timer = some work

/-- `thread` is in a call of `cancel_work_sync` or `cancel_delayed_work_sync`, and once
it waits, the item is `Stopping`. -/
structure Cancelling (thread : Thread C) (call : Call W T) (work : W)
    (state : State W T C) (ledger : Ledger W) : Prop where
  inv : WorkInv state ledger
  place : state.calls thread = .entry call ∨ state.calls thread = .cancelSync call work ∨
    (state.calls thread = .waitCurr call work ∧ Stopping work state)

omit [DecidableEq T] in
theorem pollCurr_eq_some {call : Call W T} {earlier : List (Event W T C)}
    (h : state.pollCurr thread call work earlier = some (next, events)) :
    (state.workCurr = some work ∧ next = state.setCall thread (.waitCurr call work) ∧
      events = earlier) ∨
    (state.workCurr ≠ some work ∧ next = state.setCall thread .idle ∧
      .ret thread call 0 ∈ events) := by
  rw [State.pollCurr] at h
  split at h
  · rename_i hcurr
    obtain ⟨rfl, rfl⟩ := Prod.mk.inj (Option.some.inj h)
    exact Or.inl ⟨hcurr, rfl, rfl⟩
  · rename_i hcurr
    obtain ⟨rfl, rfl⟩ := Prod.mk.inj (Option.some.inj h)
    exact Or.inr ⟨hcurr, rfl, by simp⟩

omit [DecidableEq T] [DecidableEq C] in
theorem ret_notMem_cancelWork (state : State W T C) (work : W) (thread : Thread C)
    (call : Call W T) (value : Int) :
    .ret thread call value ∉ (state.cancelWork work).2 := by
  by_cases htaken : (state.workHead.takeOut work).2 <;> simp [State.cancelWork, htaken]

namespace Cancelling

variable {call : Call W T}

omit [DecidableEq W] [DecidableEq T] [DecidableEq C] in
theorem busy (h : Cancelling thread call work state ledger) :
    state.calls thread ≠ .idle := by
  rcases h.place with hpc | hpc | ⟨hpc, -⟩ <;> simp [hpc]

/-- What a lock section of the call comes to: it goes on, or returns with the item
stopped. -/
def Outcome (thread : Thread C) (call : Call W T) (work : W) (next : State W T C)
    (events : List (Event W T C)) : Prop :=
  ((∀ value, .ret thread call value ∉ events) ∧
    (next.calls thread = .cancelSync call work ∨
      (next.calls thread = .waitCurr call work ∧ Stopping work next))) ∨
    (Stopped work next ∧ .ret thread call 0 ∈ events)

omit [DecidableEq T] in
/-- A poll of `work_curr`, when the item is `Stopping`. -/
theorem pollCurr {earlier : List (Event W T C)} (hstopping : Stopping work state)
    (hearlier : ∀ value, .ret thread call value ∉ earlier)
    (hpoll : state.pollCurr thread call work earlier = some (next, events)) :
    Outcome thread call work next events := by
  rcases pollCurr_eq_some hpoll with ⟨-, rfl, rfl⟩ | ⟨hcurr, rfl, hret⟩
  · exact Or.inl ⟨hearlier, Or.inr ⟨by simp, hstopping⟩⟩
  · obtain ⟨hqueued, hcurr⟩ := hstopping.stopped hcurr
    exact Or.inr ⟨⟨hqueued, hcurr⟩, hret⟩

omit [DecidableEq T] in
/-- The lock section that takes the item off the queue. -/
theorem cancelWorkSync (hsection : state.cancelWorkSync thread call work =
      some (next, events)) : Outcome thread call work next events := by
  refine pollCurr (fun hqueued => ?_) (ret_notMem_cancelWork state work thread call) hsection
  simp [State.queued, State.cancelWork] at hqueued

/-- The lock sections of the call. -/
theorem step_self {now : BitVec 64} (h : Cancelling thread call work state ledger)
    (hkind : call.cancelsSync dwork work)
    (hstep : (taskMachine dwork).step state (.advance thread now) = some (next, events)) :
    Outcome thread call work next events := by
  rcases h.place with hpc | hpc | ⟨hpc, hstopping⟩
  · rcases hkind with rfl | ⟨timer, rfl, hwork⟩
    · simp only [taskMachine, State.advance, hpc, State.enter] at hstep
      exact cancelWorkSync hstep
    · simp only [taskMachine, State.advance, hpc, State.enter, hwork, Option.bind_some] at hstep
      obtain ⟨rfl, rfl⟩ := Prod.mk.inj (Option.some.inj hstep)
      exact Or.inl ⟨ret_notMem_cancelWork state work thread _, Or.inl (by simp)⟩
  · simp only [taskMachine, State.advance, hpc] at hstep
    exact cancelWorkSync hstep
  · simp only [taskMachine, State.advance, hpc] at hstep
    exact pollCurr hstopping (by simp) hstep

/-- **One step** while the call has not returned: the item must be queued only by its
own function, and only on an empty queue. -/
theorem step (h : Cancelling thread call work state ledger)
    (hkind : call.cancelsSync dwork work)
    (hstep : (taskMachine dwork).step state action = some (next, events))
    (hopen : ∀ value, .ret thread call value ∉ events)
    (hrequeue : state.calls thread = .waitCurr call work →
      queuesWork dwork work state action = true →
        state.workCurr = some work ∧ state.workHead.first = none) :
    ∃ after, ledger.replayFrom (workOps events) = some after ∧
      Cancelling thread call work next after := by
  obtain ⟨after, hreplay, hinv⟩ := h.inv.step hstep
  refine ⟨after, hreplay, hinv, ?_⟩
  by_cases hself : ∃ now, action = .advance thread now
  · obtain ⟨now, rfl⟩ := hself
    rcases h.step_self hkind hstep with ⟨-, hplace⟩ | ⟨-, hret⟩
    · exact Or.inr hplace
    · exact absurd hret (hopen 0)
  · rw [calls_step_of_busy hstep h.busy fun now heq => hself ⟨now, heq⟩]
    rcases h.place with hpc | hpc | ⟨hpc, hstopping⟩
    · exact Or.inl hpc
    · exact Or.inr (Or.inl hpc)
    · exact Or.inr (Or.inr ⟨hpc, hstopping.step h.inv (WorkMove.of_step h.inv hstep)
        (hrequeue hpc)⟩)

end Cancelling

/-- A run in which nobody queues a stopped item. -/
theorem Stopped.run {start final : State W T C} {later : List (Action W T C)}
    {future : List (Event W T C)} (h : Stopped work start) (hinv : WorkInv start ledger)
    (hrun : (taskMachine dwork).run start later = some (final, future))
    (hquiet : ∀ pair ∈ (taskMachine dwork).visited start later,
      queuesWork dwork work pair.1 pair.2 = false) :
    Stopped work final ∧ .started work ∉ future ∧ ∃ after, WorkInv final after := by
  have key := (taskMachine dwork).run_invariant_of_visited
    (P := fun state past => Stopped work state ∧ .started work ∉ past ∧
      ∃ after, WorkInv state after)
    (fun {state past action next events} ⟨hstopped, hpast, middle, hinv⟩ hquiet hstep => by
      obtain ⟨hnext, hevents⟩ := hstopped.step hinv (WorkMove.of_step hinv hstep) hquiet
      obtain ⟨after, -, hafter⟩ := hinv.step hstep
      exact ⟨hnext, by simp [hpast, hevents], after, hafter⟩)
    ⟨h, List.not_mem_nil, ledger, hinv⟩ hrun hquiet
  simpa using key

omit [DecidableEq W] [DecidableEq T] [DecidableEq C] in
/-- A stopped item's function is not running. -/
theorem Stopped.workThread_ne (h : Stopped work state) (hinv : WorkInv state ledger) :
    state.workThread ≠ .running work := fun hthread =>
  h.curr (hinv.workCurr_of_running hthread)

/-! ### `cancel_work_sync` -/

/-- **After `cancel_work_sync`.**  Suppose that, while the call waits, the item is put
on the queue only from inside its own function and only when the queue is empty.
Then from its return on, until somebody queues the item again, the item is not queued,
its function is not running, and it is not started. -/
theorem cancelWorkSync_stops (completed : CompletedCall dwork thread (.cancelWorkSync work))
    (hrequeue : ∀ pair ∈ completed.steps,
      pair.1.calls thread = .waitCurr (.cancelWorkSync work) work →
      queuesWork dwork work pair.1 pair.2 = true →
        pair.1.workCurr = some work ∧ pair.1.workHead.first = none)
    {later : List (Action W T C)} {final : State W T C} {future : List (Event W T C)}
    (hlater : (taskMachine dwork).run completed.returned later = some (final, future))
    (hquiet : ∀ pair ∈ (taskMachine dwork).visited completed.returned later,
      queuesWork dwork work pair.1 pair.2 = false) :
    final.queued work = false ∧ final.workThread ≠ .running work ∧
      .started work ∉ future := by
  obtain ⟨before, hreplay, hinv⟩ := run_refines completed.reach
  obtain ⟨hentered, -⟩ := invoke_eq_some completed.invoked
  have hstart : Cancelling thread (.cancelWorkSync work) work completed.entered before := by
    rw [hentered]
    exact ⟨hinv.congr rfl rfl rfl, Or.inl (by simp)⟩
  obtain ⟨atReturn, hcancelling⟩ := completed.invariant
    (P := fun state _ => ∃ ledger, Cancelling thread (.cancelWorkSync work) work state ledger)
    (fun ⟨ledger, h⟩ hcondition hstep hopen => by
      obtain ⟨after, -, hafter⟩ := h.step (Or.inl rfl) hstep hopen hcondition
      exact ⟨after, hafter⟩)
    ⟨before, hstart⟩ hrequeue
  rcases hcancelling.step_self (Or.inl rfl) completed.returns with ⟨hopen, -⟩ | ⟨hstopped, -⟩
  · exact absurd completed.ret_mem (hopen completed.value)
  · obtain ⟨after, -, hreturned⟩ := hcancelling.inv.step completed.returns
    obtain ⟨hfinal, hfuture, last, hlast⟩ := hstopped.run hreturned hlater hquiet
    exact ⟨hfinal.queued, hfinal.workThread_ne hlast, hfuture⟩

/-- The running function queues its item again, on an empty queue, while
`cancel_work_sync` waits for it. -/
def requeueCancel : CompletedCall (noDelayed Unit) (.client ()) (.cancelWorkSync ()) where
  before := runningSchedule
  past := runningHistory
  atCall := runningState
  reach := runningState_run
  entered := runningState.setCall (.client ()) (.entry (.cancelWorkSync ()))
  called := [.call (.client ()) (.cancelWorkSync ())]
  invoked := rfl
  during := [.advance (.client ()) 0, .invoke .worker (.scheduleWork ()), .advance .worker 0,
    .workExec, .advance (.client ()) 0, .workExec]
  meanwhile := [.call .worker (.scheduleWork ()), .scheduled () 1,
    .ret .worker (.scheduleWork ()) 1, .finished (), .started (), .finished ()]
  polling := _
  runs := Machine.run_eq_after _ rfl rfl
  unreturned := by simp
  now := 0
  value := 0
  last := [.ret (.client ()) (.cancelWorkSync ()) 0]
  returned := _
  returns := rfl
  ret_mem := List.mem_cons_self

theorem cancelWorkSync_stops_requeue : requeueCancel.returned.queued () = false ∧
    requeueCancel.returned.workThread ≠ .running () := by
  have hsteps : requeueCancel.steps.all (fun pair =>
      !queuesWork (noDelayed Unit) () pair.1 pair.2 ||
        (decide (pair.1.workCurr = some ()) && decide (pair.1.workHead.first = none))) =
      true := rfl
  obtain ⟨hqueued, hthread, -⟩ := cancelWorkSync_stops requeueCancel
    (fun pair hmem _ hqueues => by
      have hpair := List.all_eq_true.mp hsteps pair hmem
      simpa [hqueues] using hpair)
    (Machine.run_nil _ _) (by simp [Machine.visited])
  exact ⟨hqueued, hthread⟩

/-- If the step puts the item on the queue, it is the item's own function that does. -/
def selfQueues (dwork : T → Option W) (work : W) (state : State W T C)
    (action : Action W T C) : Bool :=
  !queuesWork dwork work state action ||
    match action with
    | .advance .worker _ => decide (state.workCurr = some work)
    | _ => false

/-- One item is running and another is queued. -/
def twoItemsSchedule : List (Action Bool Empty Unit) :=
  [.invoke (.client ()) (.scheduleWork true), .advance (.client ()) 0, .workExec,
    .invoke (.client ()) (.scheduleWork false), .advance (.client ()) 0]

def twoItemsState : State Bool Empty Unit :=
  (taskMachine (noDelayed Bool)).after .init twoItemsSchedule rfl

/-- The running function queues its item again, behind the other one, while
`cancel_work_sync` waits; the call returns when the other one runs. -/
def requeueBehind : CompletedCall (noDelayed Bool) (.client ()) (.cancelWorkSync true) where
  before := twoItemsSchedule
  past := [.call (.client ()) (.scheduleWork true), .scheduled true 1,
    .ret (.client ()) (.scheduleWork true) 1, .started true,
    .call (.client ()) (.scheduleWork false), .scheduled false 1,
    .ret (.client ()) (.scheduleWork false) 1]
  atCall := twoItemsState
  reach := Machine.run_eq_after _ rfl rfl
  entered := twoItemsState.setCall (.client ()) (.entry (.cancelWorkSync true))
  called := [.call (.client ()) (.cancelWorkSync true)]
  invoked := rfl
  during := [.advance (.client ()) 0, .invoke .worker (.scheduleWork true),
    .advance .worker 0, .workExec]
  meanwhile := [.call .worker (.scheduleWork true), .scheduled true 1,
    .ret .worker (.scheduleWork true) 1, .finished true, .started false]
  polling := _
  runs := Machine.run_eq_after _ rfl rfl
  unreturned := by simp
  now := 0
  value := 0
  last := [.ret (.client ()) (.cancelWorkSync true) 0]
  returned := _
  returns := rfl
  ret_mem := List.mem_cons_self

/-- **`cancel_work_sync` can return with the item queued**, although nobody but the
item's own function queued it; the next step of the worker after the other item
starts it. -/
theorem cancelWorkSync_misses_requeue :
    (∀ pair ∈ requeueBehind.steps, selfQueues (noDelayed Bool) true pair.1 pair.2 = true) ∧
      requeueBehind.returned.queued true = true ∧
      ∃ final, (taskMachine (noDelayed Bool)).run requeueBehind.returned [.workExec] =
        some (final, [.finished false, .started true]) :=
  ⟨List.all_eq_true.mp rfl, rfl, _, Machine.run_eq_after _ rfl rfl⟩

/-! ### The timers of a delayed work -/

/-- **Everything a step can do to the timer list**: a timer is taken out, by a call or
by the timer thread, or put in by `add_timer`. -/
theorem timerHead_step
    (hstep : (taskMachine dwork).step state action = some (next, events)) :
    next.timerHead = state.timerHead ∨
      (∃ timer, next.timerHead = (state.timerHead.takeOut timer).1) ∨
      ∃ thread now call timer, action = .advance thread now ∧
        state.calls thread = .linkTimer call timer ∧
        next.timerHead = state.timerHead.insertTail timer := by
  cases action with
  | invoke other call =>
      obtain ⟨rfl, -⟩ := invoke_eq_some hstep
      exact Or.inl rfl
  | advance other now =>
      rcases (SectionEffect.advance hstep).timerHead with hsame | hout | ⟨call, timer, hpc, hin⟩
      · exact Or.inl hsame
      · exact Or.inr (Or.inl hout)
      · exact Or.inr (Or.inr ⟨other, now, call, timer, rfl, hpc, hin⟩)
  | workExec => exact Or.inl (workExec_frame hstep).1
  | timerExec now fuel =>
      obtain ⟨-, lastJiffies, hscan⟩ := timerExec_eq_some hstep
      rcases scanTimers_eq_some hscan with ⟨rfl, -⟩ | ⟨timer, removed, hremove, rfl, -⟩
      · exact Or.inl rfl
      · exact Or.inr (Or.inl ⟨timer, by simp [TailQueue.takeOut, hremove]⟩)

/-- The links of the timer list are in order. -/
def TimersLinked (state : State W T C) : Prop :=
  ∃ items, state.timerHead.Represents items

omit [DecidableEq W] [DecidableEq T] [DecidableEq C] in
theorem TimersLinked.init : TimersLinked (State.init : State W T C) :=
  ⟨[], TailQueue.Represents.empty⟩

omit [DecidableEq W] [DecidableEq T] [DecidableEq C] in
/-- The insertion of `add_timer` finds its timer unlinked. -/
theorem pending_of_linksUnlinked {now : BitVec 64} {call : Call W T} {timer : T}
    (hpc : state.calls thread = .linkTimer call timer)
    (hlinks : linksUnlinked state (.advance thread now) = true) :
    state.pending timer = false := by
  simpa [linksUnlinked, hpc] using hlinks

theorem TimersLinked.step (h : TimersLinked state)
    (hlinks : linksUnlinked state action = true)
    (hstep : (taskMachine dwork).step state action = some (next, events)) :
    TimersLinked next := by
  obtain ⟨items, hrep⟩ := h
  rcases timerHead_step hstep with hsame | ⟨timer, hout⟩ |
    ⟨thread, now, call, timer, rfl, hpc, hin⟩
  · exact ⟨items, hsame ▸ hrep⟩
  · exact ⟨_, hout ▸ hrep.takeOut timer⟩
  · have hpending := pending_of_linksUnlinked hpc hlinks
    have hfresh : timer ∉ items := fun hmem => by
      rw [State.pending, (hrep.prev_isSome_iff timer).mpr hmem] at hpending
      cases hpending
    exact ⟨_, hin ▸ hrep.insertTail hfresh⟩

/-- The timers of the item are neither pending nor being handed over. -/
structure TimersIdle (dwork : T → Option W) (work : W) (state : State W T C) : Prop where
  pending : ∀ timer, dwork timer = some work → state.pending timer = false
  handsOver : handsOver dwork work state = false

/-- A timer is put on the list only by the insertion of `add_timer`. -/
theorem pending_step_of_not_link (hlinked : TimersLinked state)
    (hlinks : linksUnlinked state action = true)
    (hstep : (taskMachine dwork).step state action = some (next, events)) {timer : T}
    (hnot : ∀ thread now call, action = .advance thread now →
      state.calls thread ≠ .linkTimer call timer)
    (hpending : state.pending timer = false) : next.pending timer = false := by
  obtain ⟨items, hrep⟩ := hlinked
  have hmem_iff : ∀ other, state.pending other = false ↔ other ∉ items := by
    intro other
    rw [← hrep.prev_isSome_iff other, State.pending, Bool.not_eq_true]
  have hout := (hmem_iff timer).mp hpending
  suffices hafter : ∃ after, next.timerHead.Represents after ∧ timer ∉ after by
    obtain ⟨after, hrep, hnot⟩ := hafter
    rw [State.pending, hrep.unlinked timer hnot]
    rfl
  rcases timerHead_step hstep with hsame | ⟨other, htaken⟩ |
    ⟨thread, now, call, other, rfl, hpc, hin⟩
  · exact ⟨items, hsame ▸ hrep, hout⟩
  · exact ⟨_, htaken ▸ hrep.takeOut other, fun hmem => hout (List.mem_of_mem_erase hmem)⟩
  · have hfresh := (hmem_iff other).mp (pending_of_linksUnlinked hpc hlinks)
    have hne : timer ≠ other := by
      rintro rfl
      exact hnot thread now call rfl hpc
    refine ⟨_, hin ▸ hrep.insertTail hfresh, ?_⟩
    simp only [List.mem_append, List.mem_singleton]
    exact fun hor => hor.elim hout hne

/-- If no timer of the item is put on the list, they stay off it. -/
theorem pending_step (hlinked : TimersLinked state)
    (hlinks : linksUnlinked state action = true)
    (harms : armsTimer dwork work state action = false)
    (hstep : (taskMachine dwork).step state action = some (next, events)) {timer : T}
    (htimer : dwork timer = some work) (hpending : state.pending timer = false) :
    next.pending timer = false := by
  refine pending_step_of_not_link hlinked hlinks hstep ?_ hpending
  rintro thread now call rfl hpc
  simp [armsTimer, hpc, htimer] at harms

omit [DecidableEq C] in
/-- If the timer thread and its call are as before, so is the hand-over. -/
theorem handsOver_of_timerThread (h : handsOver dwork work state = false)
    (hthread : next.timerThread = state.timerThread)
    (hcalls : state.calls .timer = .idle → next.calls .timer = .idle ∨
      ∀ timer lastJiffies, state.timerThread = .running timer lastJiffies →
        dwork timer = none) : handsOver dwork work next = false := by
  unfold handsOver at h ⊢
  rw [hthread]
  cases htimer : state.timerThread with
  | idle => rfl
  | running timer lastJiffies =>
      by_cases hwork : dwork timer = some work
      · have hidle : state.calls .timer = .idle := by simpa [htimer, hwork] using h
        rcases hcalls hidle with hnext | hnone
        · simp [hnext]
        · rw [hnone timer lastJiffies htimer] at hwork
          cases hwork
      · simp [hwork]

/-- A hand-over begins when a pending timer is taken off the list. -/
theorem handsOver_step (h : TimersIdle dwork work state)
    (hstep : (taskMachine dwork).step state action = some (next, events)) :
    handsOver dwork work next = false := by
  cases action with
  | invoke other call =>
      have hnext := (invoke_eq_some hstep).1
      subst hnext
      refine handsOver_of_timerThread h.handsOver rfl fun hidle => ?_
      by_cases heq : other = .timer
      · -- the timer thread makes calls only from functions drivers gave it
        subst heq
        right
        intro timer lastJiffies hthread
        simp only [taskMachine, State.invoke, State.mayCall, hthread] at hstep
        split at hstep
        · rename_i hmay
          simp only [Bool.and_eq_true, Option.isNone_iff_eq_none] at hmay
          exact hmay.2
        · cases hstep
      · left
        rw [State.setCall_calls_of_ne _ _ (Ne.symm heq), hidle]
  | advance other now =>
      have heffect := SectionEffect.advance hstep
      refine handsOver_of_timerThread h.handsOver heffect.timerThread fun hidle =>
        Or.inl ?_
      have hne : (.timer : Thread C) ≠ other := by
        rintro rfl
        simp [taskMachine, State.advance, hidle] at hstep
      rw [heffect.others .timer hne, hidle]
  | workExec =>
      obtain ⟨-, hthread, hcalls⟩ := workExec_frame hstep
      exact handsOver_of_timerThread h.handsOver hthread fun hidle =>
        Or.inl (by rw [hcalls, hidle])
  | timerExec now fuel =>
      obtain ⟨-, lastJiffies, hscan⟩ := timerExec_eq_some hstep
      rcases scanTimers_eq_some hscan with ⟨rfl, -⟩ | ⟨timer, removed, hremove, rfl, -⟩
      · rfl
      · have hlinked : state.pending timer = true := by
          rw [TailQueue.remove, Option.map_eq_some_iff] at hremove
          obtain ⟨cell, hcell, -⟩ := hremove
          simp [State.pending, hcell]
        have hother : dwork timer ≠ some work := fun hwork => by
          rw [h.pending timer hwork] at hlinked
          cases hlinked
        simp [Kernel.handsOver, hother]

theorem TimersIdle.step (h : TimersIdle dwork work state) (hlinked : TimersLinked state)
    (hlinks : linksUnlinked state action = true)
    (harms : armsTimer dwork work state action = false)
    (hstep : (taskMachine dwork).step state action = some (next, events)) :
    TimersIdle dwork work next :=
  ⟨fun _ htimer => pending_step hlinked hlinks harms hstep htimer (h.pending _ htimer),
    handsOver_step h hstep⟩

omit [DecidableEq C] in
/-- While the timers are idle, only drivers queue the item. -/
theorem TimersIdle.driverQueues_eq (h : TimersIdle dwork work state) :
    driverQueues dwork work state action = queuesWork dwork work state action := by
  unfold driverQueues
  split
  · simp [h.handsOver]
  · simp

/-! ### `cancel_delayed_work_sync` -/

/-- Nobody schedules the item: no driver call queues it or arms its timers.  (And no
`add_timer` links a timer twice.) -/
structure Unscheduled (dwork : T → Option W) (work : W) (state : State W T C)
    (action : Action W T C) : Prop where
  links : linksUnlinked state action = true
  arms : armsTimer dwork work state action = false
  queues : driverQueues dwork work state action = false

/-- The item is stopped, and so are its timers. -/
structure DelayedStopped (dwork : T → Option W) (work : W) (state : State W T C) :
    Prop where
  stopped : Stopped work state
  timers : TimersIdle dwork work state
  linked : TimersLinked state
  inv : ∃ ledger, WorkInv state ledger

theorem DelayedStopped.step (h : DelayedStopped dwork work state)
    (hquiet : Unscheduled dwork work state action)
    (hstep : (taskMachine dwork).step state action = some (next, events)) :
    DelayedStopped dwork work next ∧ .started work ∉ events := by
  obtain ⟨ledger, hinv⟩ := h.inv
  obtain ⟨after, -, hafter⟩ := hinv.step hstep
  have hqueues : queuesWork dwork work state action = false := by
    rw [← h.timers.driverQueues_eq]
    exact hquiet.queues
  obtain ⟨hstopped, hstarted⟩ := h.stopped.step hinv (WorkMove.of_step hinv hstep) hqueues
  exact ⟨⟨hstopped, h.timers.step h.linked hquiet.links hquiet.arms hstep,
    h.linked.step hquiet.links hstep, after, hafter⟩, hstarted⟩

theorem DelayedStopped.run {start final : State W T C} {later : List (Action W T C)}
    {future : List (Event W T C)} (h : DelayedStopped dwork work start)
    (hrun : (taskMachine dwork).run start later = some (final, future))
    (hquiet : ∀ pair ∈ (taskMachine dwork).visited start later,
      Unscheduled dwork work pair.1 pair.2) :
    DelayedStopped dwork work final ∧ .started work ∉ future := by
  have key := (taskMachine dwork).run_invariant_of_visited
    (P := fun state past => DelayedStopped dwork work state ∧ .started work ∉ past)
    (fun {state past action next events} ⟨hstopped, hpast⟩ hquiet hstep => by
      obtain ⟨hnext, hevents⟩ := hstopped.step hquiet hstep
      exact ⟨hnext, by simp [hpast, hevents]⟩)
    ⟨h, List.not_mem_nil⟩ hrun hquiet
  simpa using key

/-- What `cancel_delayed_work_sync` relies on, at each step until it returns: when it
takes the item off the queue and starts to wait, the timers are neither pending nor
being handed over, and while it waits nobody arms them, and nobody queues the item
except its own function on an empty queue. -/
structure CancelSafe (dwork : T → Option W) (thread : Thread C) (call : Call W T) (work : W)
    (state : State W T C) (action : Action W T C) : Prop where
  links : linksUnlinked state action = true
  timers : state.calls thread = .cancelSync call work →
    (∃ now, action = .advance thread now) → TimersIdle dwork work state
  arms : state.calls thread = .waitCurr call work →
    armsTimer dwork work state action = false
  queues : state.calls thread = .waitCurr call work →
    driverQueues dwork work state action = true →
      state.workCurr = some work ∧ state.workHead.first = none

/-- `cancel_delayed_work_sync` in progress. -/
structure DelayedCancelling (dwork : T → Option W) (thread : Thread C) (call : Call W T)
    (work : W) (state : State W T C) (ledger : Ledger W) : Prop where
  cancelling : Cancelling thread call work state ledger
  linked : TimersLinked state
  timers : state.calls thread = .waitCurr call work → TimersIdle dwork work state

namespace DelayedCancelling

variable {timer : T}

/-- The first lock section of the call only takes the item off the queue. -/
theorem entry_eq_some {now : BitVec 64} (hwork : dwork timer = some work)
    (hpc : state.calls thread = .entry (.cancelDelayedWorkSync timer))
    (hstep : (taskMachine dwork).step state (.advance thread now) = some (next, events)) :
    next.calls thread = .cancelSync (.cancelDelayedWorkSync timer) work ∧
      ∀ value, .ret thread (.cancelDelayedWorkSync timer) value ∉ events := by
  simp only [taskMachine, State.advance, hpc, State.enter, hwork, Option.bind_some] at hstep
  obtain ⟨rfl, rfl⟩ := Prod.mk.inj (Option.some.inj hstep)
  exact ⟨by simp, ret_notMem_cancelWork state work thread _⟩

/-- From the second lock section on, the call's own sections find the timers idle, and
leave them so. -/
theorem timers_self {now : BitVec 64} {call : Call W T}
    (h : DelayedCancelling dwork thread call work state ledger)
    (hsafe : CancelSafe dwork thread call work state (.advance thread now))
    (hlate : state.calls thread ≠ .entry call)
    (hstep : (taskMachine dwork).step state (.advance thread now) = some (next, events)) :
    TimersIdle dwork work next := by
  have hplace : state.calls thread = .cancelSync call work ∨
      state.calls thread = .waitCurr call work := by
    rcases h.cancelling.place with hpc | hpc | ⟨hpc, -⟩
    · exact absurd hpc hlate
    · exact Or.inl hpc
    · exact Or.inr hpc
  have harms : armsTimer dwork work state (.advance thread now) = false := by
    rcases hplace with hpc | hpc <;> simp [armsTimer, hpc]
  refine TimersIdle.step ?_ h.linked hsafe.links harms hstep
  rcases hplace with hpc | hpc
  · exact hsafe.timers hpc ⟨now, rfl⟩
  · exact h.timers hpc

theorem step (h : DelayedCancelling dwork thread (.cancelDelayedWorkSync timer) work state
      ledger) (hwork : dwork timer = some work)
    (hsafe : CancelSafe dwork thread (.cancelDelayedWorkSync timer) work state action)
    (hstep : (taskMachine dwork).step state action = some (next, events))
    (hopen : ∀ value, .ret thread (.cancelDelayedWorkSync timer) value ∉ events) :
    ∃ after, DelayedCancelling dwork thread (.cancelDelayedWorkSync timer) work next after := by
  obtain ⟨after, -, hcancelling⟩ := h.cancelling.step (Or.inr ⟨timer, rfl, hwork⟩) hstep hopen
    (fun hpc hqueues => hsafe.queues hpc (by rw [(h.timers hpc).driverQueues_eq, hqueues]))
  refine ⟨after, hcancelling, h.linked.step hsafe.links hstep, fun hwaits => ?_⟩
  by_cases hself : ∃ now, action = .advance thread now
  · obtain ⟨now, rfl⟩ := hself
    refine h.timers_self hsafe (fun hpc => ?_) hstep
    rw [(entry_eq_some hwork hpc hstep).1] at hwaits
    cases hwaits
  · rw [calls_step_of_busy hstep h.cancelling.busy fun now heq => hself ⟨now, heq⟩] at hwaits
    exact (h.timers hwaits).step h.linked hsafe.links (hsafe.arms hwaits) hstep

end DelayedCancelling

/-- **After `cancel_delayed_work_sync`.**  Suppose that no `add_timer` links a timer
that is already linked, and that the steps until the return are `CancelSafe`.  Then
from the return on, as long as nobody schedules the item again, its timers are not
pending, it is not queued, its function is not running, and it is not started. -/
theorem cancelDelayedWorkSync_stops {timer : T} (hwork : dwork timer = some work)
    (completed : CompletedCall dwork thread (.cancelDelayedWorkSync timer))
    (hbefore : ∀ pair ∈ (taskMachine dwork).visited .init completed.before,
      linksUnlinked pair.1 pair.2 = true)
    (hsafe : ∀ pair ∈ completed.steps,
      CancelSafe dwork thread (.cancelDelayedWorkSync timer) work pair.1 pair.2)
    {later : List (Action W T C)} {final : State W T C} {future : List (Event W T C)}
    (hlater : (taskMachine dwork).run completed.returned later = some (final, future))
    (hquiet : ∀ pair ∈ (taskMachine dwork).visited completed.returned later,
      Unscheduled dwork work pair.1 pair.2) :
    (∀ other, dwork other = some work → final.pending other = false) ∧
      final.queued work = false ∧ final.workThread ≠ .running work ∧
      .started work ∉ future := by
  obtain ⟨before, hreplay, hinv⟩ := run_refines completed.reach
  obtain ⟨hentered, -⟩ := invoke_eq_some completed.invoked
  have hlinked : TimersLinked completed.atCall :=
    (taskMachine dwork).run_state_of_visited
      (fun hprevious hlinks hstep => hprevious.step hlinks hstep)
      TimersLinked.init completed.reach hbefore
  have hstart : DelayedCancelling dwork thread (.cancelDelayedWorkSync timer) work
      completed.entered before := by
    rw [hentered]
    exact ⟨⟨hinv.congr rfl rfl rfl, Or.inl (by simp)⟩, hlinked, fun hpc => by simp at hpc⟩
  obtain ⟨atReturn, hcancelling⟩ := completed.invariant
    (P := fun state _ => ∃ ledger, DelayedCancelling dwork thread
      (.cancelDelayedWorkSync timer) work state ledger)
    (fun ⟨ledger, h⟩ hcondition hstep hopen => h.step hwork hcondition hstep hopen)
    ⟨before, hstart⟩ hsafe
  have hlast := hsafe (completed.polling, .advance thread completed.now) (by
    simp [CompletedCall.steps])
  have hlate : completed.polling.calls thread ≠ .entry (.cancelDelayedWorkSync timer) :=
    fun hpc => (DelayedCancelling.entry_eq_some hwork hpc completed.returns).2
      completed.value completed.ret_mem
  rcases hcancelling.cancelling.step_self (Or.inr ⟨timer, rfl, hwork⟩) completed.returns with
    ⟨hopen, -⟩ | ⟨hstopped, -⟩
  · exact absurd completed.ret_mem (hopen completed.value)
  · obtain ⟨after, -, hreturned⟩ := hcancelling.cancelling.inv.step completed.returns
    have hdelayed : DelayedStopped dwork work completed.returned :=
      ⟨hstopped, hcancelling.timers_self hlast hlate completed.returns,
        hcancelling.linked.step hlast.links completed.returns, after, hreturned⟩
    obtain ⟨hfinal, hfuture⟩ := hdelayed.run hlater hquiet
    obtain ⟨last, hinv⟩ := hfinal.inv
    exact ⟨hfinal.timers.pending, hfinal.stopped.queued, hfinal.stopped.workThread_ne hinv,
      hfuture⟩

/-- One delayed work, with its timer. -/
def oneDelayed : Unit → Option Unit := fun _ => some ()

/-- The item is queued, without a timer, when `cancel_delayed_work_sync` is called. -/
def queuedDelayed : State Unit Unit Unit :=
  (taskMachine oneDelayed).after .init
    [.invoke (.client ()) (.scheduleDelayedWork () 0), .advance (.client ()) 0] rfl

def queuedCancel : CompletedCall oneDelayed (.client ()) (.cancelDelayedWorkSync ()) where
  before := [.invoke (.client ()) (.scheduleDelayedWork () 0), .advance (.client ()) 0]
  past := [.call (.client ()) (.scheduleDelayedWork () 0), .scheduled () 1,
    .ret (.client ()) (.scheduleDelayedWork () 0) 1]
  atCall := queuedDelayed
  reach := Machine.run_eq_after _ rfl rfl
  entered := queuedDelayed.setCall (.client ()) (.entry (.cancelDelayedWorkSync ()))
  called := [.call (.client ()) (.cancelDelayedWorkSync ())]
  invoked := rfl
  during := [.advance (.client ()) 0]
  meanwhile := [.cancelled ()]
  polling := _
  runs := Machine.run_eq_after _ rfl rfl
  unreturned := by simp
  now := 0
  value := 0
  last := [.ret (.client ()) (.cancelDelayedWorkSync ()) 0]
  returned := _
  returns := rfl
  ret_mem := List.mem_cons_self

theorem cancelDelayedWorkSync_stops_queued : queuedCancel.returned.pending () = false ∧
    queuedCancel.returned.queued () = false ∧
    queuedCancel.returned.workThread ≠ .running () := by
  have hbefore : ((taskMachine oneDelayed).visited .init queuedCancel.before).all
      (fun pair => linksUnlinked pair.1 pair.2) = true := rfl
  have hsteps : queuedCancel.steps.all (fun pair => linksUnlinked pair.1 pair.2 &&
      !pair.1.pending () && !handsOver oneDelayed () pair.1 &&
      !armsTimer oneDelayed () pair.1 pair.2 && !driverQueues oneDelayed () pair.1 pair.2) =
      true := rfl
  obtain ⟨hpending, hqueued, hthread, -⟩ := cancelDelayedWorkSync_stops rfl queuedCancel
    (List.all_eq_true.mp hbefore)
    (fun pair hmem => by
      have hpair := List.all_eq_true.mp hsteps pair hmem
      simp only [Bool.and_eq_true, Bool.not_eq_true'] at hpair
      obtain ⟨⟨⟨⟨hlinks, hpending⟩, hhands⟩, harms⟩, hqueues⟩ := hpair
      exact ⟨hlinks, fun _ _ => ⟨fun _ _ => hpending, hhands⟩, fun _ => harms,
        fun _ hqueued => absurd (hqueued.symm.trans hqueues) (by simp)⟩)
    (Machine.run_nil _ _) (by simp [Machine.visited])
  exact ⟨hpending () rfl, hqueued, hthread⟩

/-- The timer of the item has been armed. -/
def armedSchedule : List (Action Unit Unit Unit) :=
  [.invoke (.client ()) (.scheduleDelayedWork () 1), .advance (.client ()) 0,
    .advance (.client ()) 0, .advance (.client ()) 0, .advance (.client ()) 0]

def armedState : State Unit Unit Unit :=
  (taskMachine oneDelayed).after .init armedSchedule rfl

/-- `cancel_delayed_work_sync` while the timer is pending. -/
def armedCancel : CompletedCall oneDelayed (.client ()) (.cancelDelayedWorkSync ()) where
  before := armedSchedule
  past := [.call (.client ()) (.scheduleDelayedWork () 1), .armed (),
    .ret (.client ()) (.scheduleDelayedWork () 1) 1]
  atCall := armedState
  reach := Machine.run_eq_after _ rfl rfl
  entered := armedState.setCall (.client ()) (.entry (.cancelDelayedWorkSync ()))
  called := [.call (.client ()) (.cancelDelayedWorkSync ())]
  invoked := rfl
  during := [.advance (.client ()) 0]
  meanwhile := []
  polling := _
  runs := Machine.run_eq_after _ rfl rfl
  unreturned := by simp
  now := 0
  value := 0
  last := [.ret (.client ()) (.cancelDelayedWorkSync ()) 0]
  returned := _
  returns := rfl
  ret_mem := List.mem_cons_self

/-- **`cancel_delayed_work_sync` can return with the timer pending.**  Nobody schedules
the item afterwards, the timer expires all the same, and the item is started. -/
theorem cancelDelayedWorkSync_misses_timer :
    armedCancel.returned.pending () = true ∧
      (∀ pair ∈ (taskMachine oneDelayed).visited armedCancel.returned
          [.timerExec 5 1, .advance .timer 0, .workExec],
        Unscheduled oneDelayed () pair.1 pair.2) ∧
      ∃ final, (taskMachine oneDelayed).run armedCancel.returned
          [.timerExec 5 1, .advance .timer 0, .workExec] =
        some (final, [.fired (), .call .timer (.scheduleWork ()), .scheduled () 1,
          .ret .timer (.scheduleWork ()) 1, .started ()]) := by
  have hsteps : ((taskMachine oneDelayed).visited armedCancel.returned
      [.timerExec 5 1, .advance .timer 0, .workExec]).all (fun pair =>
        linksUnlinked pair.1 pair.2 && !armsTimer oneDelayed () pair.1 pair.2 &&
          !driverQueues oneDelayed () pair.1 pair.2) = true := rfl
  refine ⟨rfl, fun pair hmem => ?_, _, Machine.run_eq_after _ rfl rfl⟩
  have hpair := List.all_eq_true.mp hsteps pair hmem
  simp only [Bool.and_eq_true, Bool.not_eq_true'] at hpair
  obtain ⟨⟨hlinks, harms⟩, hqueues⟩ := hpair
  exact ⟨hlinks, harms, hqueues⟩

/-! ### `del_timer_sync` and `tasklet_kill` -/

/-- The timer thread is in the function of this timer, or on its way back to the
lock. -/
def timerRunning (timer : T) (state : State W T C) : Bool :=
  match state.timerThread with
  | .idle => false
  | .running other _ => decide (other = timer)

/-- A call of one lock section is at its entry until it returns. -/
theorem CompletedCall.polling_entry {call : Call W T}
    (completed : CompletedCall dwork thread call)
    (hone : ∀ {state next : State W T C} {events now}, state.calls thread = .entry call →
      (taskMachine dwork).step state (.advance thread now) = some (next, events) →
        ∃ value, .ret thread call value ∈ events) :
    completed.polling.calls thread = .entry call := by
  have hstart : completed.entered.calls thread = .entry call := by
    rw [(invoke_eq_some completed.invoked).1]
    simp
  exact completed.invariant (P := fun state _ => state.calls thread = .entry call)
    (fun {state past action next events} hpc (_ : True) hstep hopen => by
      by_cases hself : ∃ now, action = .advance thread now
      · obtain ⟨now, rfl⟩ := hself
        obtain ⟨value, hret⟩ := hone hpc hstep
        exact absurd hret (hopen value)
      · rw [calls_step_of_busy hstep (by simp [hpc]) fun now heq => hself ⟨now, heq⟩, hpc])
    hstart (fun _ _ => trivial)

theorem delTimerSync_eq_some {timer : T} {now : BitVec 64}
    (hpc : state.calls thread = .entry (.delTimerSync timer))
    (hstep : (taskMachine dwork).step state (.advance thread now) = some (next, events)) :
    (next.pending timer = false ∧ next.timerThread = state.timerThread) ∧
      ∃ value, .ret thread (.delTimerSync timer) value ∈ events := by
  simp only [taskMachine, State.advance, hpc, State.enter] at hstep
  obtain ⟨rfl, rfl⟩ := Prod.mk.inj (Option.some.inj hstep)
  refine ⟨⟨?_, rfl⟩, _, List.mem_append_right _ List.mem_cons_self⟩
  simp [State.pending, State.delTimer]

theorem taskletKill_eq_some {now : BitVec 64}
    (hpc : state.calls thread = .entry (.taskletKill work))
    (hstep : (taskMachine dwork).step state (.advance thread now) = some (next, events)) :
    (next.queued work = false ∧ next.workThread = state.workThread) ∧
      ∃ value, .ret thread (.taskletKill work) value ∈ events := by
  simp only [taskMachine, State.advance, hpc, State.enter] at hstep
  obtain ⟨rfl, rfl⟩ := Prod.mk.inj (Option.some.inj hstep)
  refine ⟨⟨?_, rfl⟩, _, List.mem_append_right _ List.mem_cons_self⟩
  simp [State.queued, State.cancelWork]

/-- **Teardown that does not wait.**  When `del_timer_sync` or `tasklet_kill` returns,
the timer is not pending, the tasklet not queued; and its function is not executing
exactly if it was not executing when the call took the lock. -/
theorem sync_teardown_iff (dwork : T → Option W) (thread : Thread C) :
    (∀ timer, ∀ completed : CompletedCall dwork thread (.delTimerSync timer),
      (completed.returned.pending timer = false ∧
        timerRunning timer completed.returned = false) ↔
          timerRunning timer completed.polling = false) ∧
    ∀ work, ∀ completed : CompletedCall dwork thread (.taskletKill work),
      (completed.returned.queued work = false ∧
        completed.returned.workThread ≠ .running work) ↔
          completed.polling.workThread ≠ .running work := by
  constructor
  · intro timer completed
    have hpc := completed.polling_entry fun hpc hstep => (delTimerSync_eq_some hpc hstep).2
    obtain ⟨⟨hpending, hthread⟩, -⟩ := delTimerSync_eq_some hpc completed.returns
    simp only [timerRunning, hthread, hpending, true_and]
  · intro work completed
    have hpc := completed.polling_entry fun hpc hstep => (taskletKill_eq_some hpc hstep).2
    obtain ⟨⟨hqueued, hthread⟩, -⟩ := taskletKill_eq_some hpc completed.returns
    simp only [hthread, hqueued, true_and]

/-- The timers of no delayed work. -/
def plainTimer : Unit → Option Unit := fun _ => none

/-- A timer has been armed and the timer thread is in its function. -/
def firedSchedule : List (Action Unit Unit Unit) :=
  [.invoke (.client ()) (.addTimer ()), .advance (.client ()) 0, .advance (.client ()) 0,
    .timerExec 5 1]

def firedState : State Unit Unit Unit := (taskMachine plainTimer).after .init firedSchedule rfl

/-- `del_timer_sync` while the timer's function is executing. -/
def firedDelete : CompletedCall plainTimer (.client ()) (.delTimerSync ()) where
  before := firedSchedule
  past := [.call (.client ()) (.addTimer ()), .armed (), .ret (.client ()) (.addTimer ()) 0,
    .fired ()]
  atCall := firedState
  reach := Machine.run_eq_after _ rfl rfl
  entered := firedState.setCall (.client ()) (.entry (.delTimerSync ()))
  called := [.call (.client ()) (.delTimerSync ())]
  invoked := rfl
  during := []
  meanwhile := []
  polling := _
  runs := Machine.run_nil _ _
  unreturned := by simp
  now := 0
  value := 0
  last := [.ret (.client ()) (.delTimerSync ()) 0]
  returned := _
  returns := rfl
  ret_mem := List.mem_cons_self

/-- `tasklet_kill` while the tasklet's function is executing. -/
def runningKill : CompletedCall (noDelayed Unit) (.client ()) (.taskletKill ()) where
  before := runningSchedule
  past := runningHistory
  atCall := runningState
  reach := runningState_run
  entered := runningState.setCall (.client ()) (.entry (.taskletKill ()))
  called := [.call (.client ()) (.taskletKill ())]
  invoked := rfl
  during := []
  meanwhile := []
  polling := _
  runs := Machine.run_nil _ _
  unreturned := by simp
  now := 0
  value := 0
  last := [.ret (.client ()) (.taskletKill ()) 0]
  returned := _
  returns := rfl
  ret_mem := List.mem_cons_self

/-- **Both can return with the function executing.** -/
theorem sync_teardown_misses_callback : timerRunning () firedDelete.returned = true ∧
    runningKill.returned.workThread = .running () :=
  ⟨rfl, rfl⟩

end Webcamd.Kernel
