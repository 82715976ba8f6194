import Webcamd.Kernel.TimerList

/-!
# Delayed work

Where a `struct delayed_work` is pending, and what `schedule_delayed_work` returns, in every
run of the machine of `Webcamd.Kernel.Task`.

The item is pending if its timer is on the timer list, or if its work is on the work queue.
`schedule_delayed_work` looks at one of the two places: with a zero delay it is
`schedule_work`, which looks at the queue; otherwise it looks at the timer, and it does so in a
lock section of its own, before the two of `add_timer`.

* `PendingOnce` — both lists are in order, and no delayed work is on both.
* `ReturnsRight` — a `schedule_delayed_work` that returns in this step returns one exactly if
  the item is pending in neither place.
* `PutsUnpending` — what a step that puts an item in one of the places must find: that it is in
  neither.  `delayed_work_pending_iff`: the two properties hold throughout a run exactly if every
  step of it finds that.

`dwork` is the work of each timer that belongs to a delayed work.
-/

namespace Webcamd.Kernel

open Webcamd.Library

variable {W T C : Type} [DecidableEq W] [DecidableEq T] [DecidableEq C]
variable {dwork : T → Option W} {thread : Thread C} {state next : State W T C}
variable {action : Action W T C} {events : List (Event W T C)} {timer : T} {work : W}

/-- Both lists are in order, and no delayed work is on both. -/
structure PendingOnce (dwork : T → Option W) (state : State W T C) : Prop where
  timers : ∃ items, state.timerHead.Represents items
  works : ∃ items, state.workHead.Represents items
  once : ∀ timer work, dwork timer = some work →
    ¬ (state.pending timer = true ∧ state.queued work = true)

/-- A `schedule_delayed_work` that returns in the step returns one exactly if its item was
pending in neither place. -/
def ReturnsRight (dwork : T → Option W) (state : State W T C) (action : Action W T C) : Prop :=
  ∀ next events thread timer delay value,
    (taskMachine dwork).step state action = some (next, events) →
      .ret thread (.scheduleDelayedWork timer delay) value ∈ events →
        (value = 1 ↔ state.pending timer = false ∧
          ∀ work, dwork timer = some work → state.queued work = false)

/-- If the step is the insertion of `add_timer`, the timer and its work are pending in neither
place. -/
def linksUnpending (dwork : T → Option W) (state : State W T C) (action : Action W T C) : Bool :=
  match action with
  | .advance thread _ =>
      match state.calls thread with
      | .linkTimer _ timer =>
          !state.pending timer && (dwork timer).all fun work => !state.queued work
      | _ => true
  | _ => true

/-- What the step puts in one of the places is pending in neither. -/
structure PutsUnpending (dwork : T → Option W) (state : State W T C) (action : Action W T C) :
    Prop where
  timer : linksUnpending dwork state action = true
  work : ∀ timer work, queuesWork dwork work state action = true → dwork timer = some work →
    state.pending timer = false

omit [DecidableEq W] [DecidableEq T] [DecidableEq C] in
theorem linksUnpending_of_link {now : BitVec 64} {call : Call W T}
    (hpc : state.calls thread = .linkTimer call timer) :
    linksUnpending dwork state (.advance thread now) = true ↔
      state.pending timer = false ∧
        ∀ work, dwork timer = some work → state.queued work = false := by
  simp only [linksUnpending, hpc, Bool.and_eq_true, Bool.not_eq_true', Option.all_eq_true]

omit [DecidableEq T] [DecidableEq C] in
theorem PutsUnpending.linksUnlinked (h : PutsUnpending dwork state action) :
    linksUnlinked state action = true := by
  unfold Kernel.linksUnlinked
  split
  · split
    · rename_i call timer hpc
      simp [((linksUnpending_of_link hpc).mp h.timer).1]
    · rfl
  · rfl

/-! ### One step -/

/-- A step that puts a work on the queue does nothing else to the two lists. -/
theorem queuesWork_step (hqueues : queuesWork dwork work state action = true)
    (hstep : (taskMachine dwork).step state action = some (next, events)) :
    next.workHead = state.workHead.insertTail work ∧ next.timerHead = state.timerHead := by
  unfold queuesWork at hqueues
  split at hqueues
  · rename_i thread now
    split at hqueues
    · rename_i call hpc
      simp only [Bool.and_eq_true, decide_eq_true_eq, Bool.not_eq_true'] at hqueues
      obtain ⟨hcall, hqueued⟩ := hqueues
      replace hstep : state.enter dwork thread call = some (next, events) := by
        simpa [taskMachine, State.advance, hpc] using hstep
      -- the three calls that are a `schedule_work`
      have hdone : ∀ {made : Call W T} {value : Int} {earlier : List (Event W T C)},
          (state.scheduleWork work).1.returnWith thread made value earlier =
            some (next, events) →
          next.workHead = state.workHead.insertTail work ∧
            next.timerHead = state.timerHead := by
        intro made value earlier hreturn
        obtain ⟨rfl, -⟩ := Prod.mk.inj (Option.some.inj hreturn)
        simp [State.scheduleWork, hqueued]
      cases call with
      | scheduleWork other =>
          obtain rfl : other = work := by simpa [Call.schedules] using hcall
          exact hdone hstep
      | taskletSchedule other =>
          obtain rfl : other = work := by simpa [Call.schedules] using hcall
          exact hdone hstep
      | scheduleDelayedWork timer delay =>
          unfold Call.schedules at hcall
          dsimp only at hcall
          split at hcall
          · rename_i hdelay
            simp only [State.enter, hcall, Option.bind_some, if_pos hdelay] at hstep
            exact hdone hstep
          · cases hcall
      | _ => cases hcall
    · cases hqueues
  · cases hqueues

/-- A work comes to be on the queue only by such a step. -/
theorem queued_step (hinv : WorkInv state ledger)
    (hstep : (taskMachine dwork).step state action = some (next, events))
    (hqueued : next.queued work = true) :
    state.queued work = true ∨ queuesWork dwork work state action = true := by
  have hmem := hinv.queued_iff work
  cases WorkMove.of_step hinv hstep with
  | kept head curr quiet => exact Or.inl (by rwa [State.queued, head] at hqueued)
  | slept first head curr quiet => exact Or.inl (by rwa [State.queued, head] at hqueued)
  | queued item queues head curr quiet =>
      have hin := mem_of_queued (hinv.represents_insertTail queues head) hqueued
      rcases List.mem_append.mp hin with hold | hnew
      · exact Or.inl (hmem.mpr hold)
      · rw [List.mem_singleton.mp hnew]
        exact Or.inr queues
  | removed item head curr quiet =>
      have hrep := hinv.links.takeOut item
      rw [← head] at hrep
      exact Or.inl (hmem.mpr (List.mem_of_mem_erase (mem_of_queued hrep hqueued)))
  | taken item first head curr only =>
      have hrep := hinv.links.takeOut item
      rw [← head] at hrep
      exact Or.inl (hmem.mpr (List.mem_of_mem_erase (mem_of_queued hrep hqueued)))

/-- **One step keeps the places apart exactly if what it puts in one is in neither.** -/
theorem PendingOnce.step_iff (h : PendingOnce dwork state) (hinv : WorkInv state ledger)
    (hstep : (taskMachine dwork).step state action = some (next, events)) :
    PendingOnce dwork next ↔ PutsUnpending dwork state action := by
  have hlinked : TimersLinked state := h.timers
  constructor
  · intro hnext
    have hlinks := (hlinked.step_iff hstep).mp hnext.timers
    refine ⟨?_, ?_⟩
    · have hlink : ∀ thread now call timer, action = .advance thread now →
          state.calls thread = .linkTimer call timer →
          linksUnpending dwork state action = true := by
        rintro thread now call timer rfl hpc
        rw [linksUnpending_of_link hpc]
        refine ⟨pending_of_linksUnlinked hpc hlinks, fun work hwork => ?_⟩
        obtain ⟨htimers, hworks⟩ := linkTimer_step hpc hstep
        by_contra hqueued
        refine hnext.once timer work hwork ⟨?_, ?_⟩
        · simp [State.pending, htimers, TailQueue.insertTail]
        · rw [State.queued, hworks]
          exact Bool.not_eq_false _ ▸ hqueued
      unfold linksUnpending at hlink ⊢
      split
      · rename_i thread now
        split
        · rename_i call timer hpc
          simpa only [hpc] using hlink thread now call timer rfl hpc
        · rfl
      · rfl
    · intro timer work hqueues hwork
      obtain ⟨hworks, htimers⟩ := queuesWork_step hqueues hstep
      by_contra hpending
      refine hnext.once timer work hwork ⟨?_, ?_⟩
      · rw [State.pending, htimers]
        exact Bool.not_eq_false _ ▸ hpending
      · simp [State.queued, hworks, TailQueue.insertTail]
  · intro hputs
    obtain ⟨ledger', -, hinv'⟩ := hinv.step hstep
    refine ⟨hlinked.step hputs.linksUnlinked hstep, ⟨_, hinv'.links⟩, ?_⟩
    rintro timer work hwork ⟨hpending, hqueued⟩
    have hbefore : state.pending timer = true ∨ ∃ thread now call,
        action = .advance thread now ∧ state.calls thread = .linkTimer call timer := by
      by_contra hnot
      push Not at hnot
      have hoff := pending_step_of_not_link hlinked hputs.linksUnlinked hstep hnot.2
        (by simpa using hnot.1)
      rw [hoff] at hpending
      cases hpending
    rcases queued_step hinv hstep hqueued with hold | hnew
    · rcases hbefore with hold' | ⟨thread, now, call, rfl, hpc⟩
      · exact h.once timer work hwork ⟨hold', hold⟩
      · rw [((linksUnpending_of_link hpc).mp hputs.timer).2 work hwork] at hold
        cases hold
    · rcases hbefore with hold' | ⟨thread, now, call, rfl, hpc⟩
      · rw [hputs.work timer work hnew hwork] at hold'
        cases hold'
      · simp [queuesWork, hpc] at hnew

/-! ### What `schedule_delayed_work` returns -/

/-- A program counter names the call it belongs to as the code does. -/
def CallPc.Proper : CallPc W T → Prop
  | .unlinkTimer call timer | .linkTimer call timer =>
      ∀ other delay, call = .scheduleDelayedWork other delay → other = timer
  | .cancelSync call _ | .waitCurr call _ =>
      ∀ timer delay, call ≠ .scheduleDelayedWork timer delay
  | _ => True

omit [DecidableEq W] [DecidableEq T] in
theorem CallPc.Follows.proper {pc pc' : CallPc W T} (h : pc.Follows pc') (hpc : pc.Proper) :
    pc'.Proper := by
  cases h with
  | linkTimer call timer => exact hpc
  | waitCurr call work => exact hpc
  | again pc => exact hpc
  | unlinkTimer timer delay =>
      exact fun other delay' heq => (Call.scheduleDelayedWork.inj heq).1.symm
  | addTimer timer => exact fun other delay heq => by cases heq
  | cancelSync timer work => exact fun other delay heq => by cases heq
  | cancelWorkSync work => exact fun other delay heq => by cases heq
  | _ => trivial

/-- Every thread is where its call goes. -/
def CallsProper (state : State W T C) : Prop :=
  ∀ thread, (state.calls thread).Proper

theorem CallsProper.step (h : CallsProper state)
    (hstep : (taskMachine dwork).step state action = some (next, events)) :
    CallsProper next := by
  intro thread
  cases action with
  | invoke other made =>
      obtain ⟨rfl, -⟩ := invoke_eq_some hstep
      by_cases heq : thread = other
      · subst heq
        rw [State.setCall_calls_same]
        trivial
      · rw [State.setCall_calls_of_ne _ _ heq]
        exact h thread
  | advance other now =>
      by_cases heq : thread = other
      · subst heq
        exact (SectionTrace.advance hstep).follows.proper (h thread)
      · rw [(SectionEffect.advance hstep).others thread heq]
        exact h thread
  | workExec =>
      rw [(workExec_frame hstep).2.2]
      exact h thread
  | timerExec now fuel =>
      obtain ⟨-, lastJiffies, hscan⟩ := timerExec_eq_some hstep
      rcases scanTimers_eq_some hscan with ⟨rfl, -⟩ | ⟨other, removed, -, rfl, -⟩
      · exact h thread
      · cases hwork : dwork other with
        | none => simpa [hwork] using h thread
        | some work =>
            simp only
            by_cases heq : thread = .timer
            · subst heq
              rw [Function.update_self]
              trivial
            · rw [Function.update_of_ne heq]
              exact h thread

/-- Only the thread that makes a call returns from it. -/
theorem ret_step (hstep : (taskMachine dwork).step state action = some (next, events))
    {call : Call W T} {value : Int} (hret : .ret thread call value ∈ events) :
    (∃ now, action = .advance thread now) ∧ (state.calls thread).call = some call := by
  cases action with
  | invoke other made =>
      obtain ⟨-, rfl⟩ := invoke_eq_some hstep
      simp at hret
  | advance other now =>
      obtain ⟨rfl, hcall⟩ := (SectionTrace.advance hstep).ret thread call value hret
      exact ⟨⟨now, rfl⟩, hcall⟩
  | workExec => exact absurd hret ((silent_workExec hstep).2 thread call value)
  | timerExec now fuel =>
      obtain ⟨-, lastJiffies, hscan⟩ := timerExec_eq_some hstep
      rcases scanTimers_eq_some hscan with ⟨-, rfl⟩ | ⟨other, removed, -, -, rfl⟩
      · cases hret
      · cases hwork : dwork other <;> simp [hwork] at hret

omit [DecidableEq T] [DecidableEq C] in
theorem scheduleWork_retval (state : State W T C) (work : W) :
    (state.scheduleWork work).2.1 = if state.queued work then 0 else 1 := by
  unfold State.scheduleWork
  split <;> rfl

/-- **The two sections in which a `schedule_delayed_work` returns**: the first one, where it has
found the item pending or has put it on the queue, and the insertion of `add_timer`. -/
theorem scheduleDelayedWork_returns (hproper : CallsProper state)
    (hstep : (taskMachine dwork).step state action = some (next, events))
    {delay : BitVec 64} {value : Int}
    (hret : .ret thread (.scheduleDelayedWork timer delay) value ∈ events) :
    (∃ now, action = .advance thread now ∧
      state.calls thread = .linkTimer (.scheduleDelayedWork timer delay) timer ∧ value = 1) ∨
    ∃ now work, action = .advance thread now ∧
      state.calls thread = .entry (.scheduleDelayedWork timer delay) ∧ dwork timer = some work ∧
        (delay = 0 ∧ value = (if state.queued work then 0 else 1) ∨
          delay ≠ 0 ∧ state.pending timer = true ∧ value = 0) := by
  obtain ⟨⟨now, rfl⟩, hcall⟩ := ret_step hstep hret
  have hpc := hproper thread
  replace hstep : state.advance dwork thread now = some (next, events) := hstep
  have hvalue : ∀ {made : Call W T} {result : Int} {earlier : List (Event W T C)}
      {other : State W T C}, Silent earlier →
      other.returnWith thread made result earlier = some (next, events) → value = result := by
    intro made result earlier other hearlier hreturn
    obtain ⟨-, rfl⟩ := Prod.mk.inj (Option.some.inj hreturn)
    rcases List.mem_append.mp hret with hold | hnew
    · exact absurd hold (hearlier.2 _ _ _)
    · exact (by simpa using hnew : _ ∧ value = result).2
  have hgo : ∀ {pc : CallPc W T} {other : State W T C}, other.goto thread pc [] ≠
      some (next, events) := by
    intro pc other hgoto
    obtain ⟨-, rfl⟩ := Prod.mk.inj (Option.some.inj hgoto)
    cases hret
  cases hhere : state.calls thread with
  | idle => rw [hhere] at hcall; cases hcall
  | entry call =>
      rw [hhere] at hcall
      obtain rfl := Option.some.inj hcall
      simp only [State.advance, hhere] at hstep
      obtain ⟨work, hwork, hstep⟩ := Option.bind_eq_some_iff.mp hstep
      refine Or.inr ⟨now, work, rfl, rfl, hwork, ?_⟩
      split at hstep
      · rename_i hdelay
        refine Or.inl ⟨hdelay, ?_⟩
        exact (hvalue (silent_scheduleWork state work) hstep).trans (scheduleWork_retval state work)
      · rename_i hdelay
        split at hstep
        · rename_i hpending
          exact Or.inr ⟨hdelay, hpending, hvalue .nil hstep⟩
        · exact absurd hstep hgo
  | setExpires other delay' =>
      simp only [State.advance, hhere] at hstep
      exact absurd hstep hgo
  | unlinkTimer call other =>
      simp only [State.advance, hhere] at hstep
      obtain ⟨-, rfl⟩ := Prod.mk.inj (Option.some.inj hstep)
      exact absurd hret ((silent_delTimer state other).2 _ _ _)
  | linkTimer call other =>
      rw [hhere] at hcall hpc
      obtain rfl := Option.some.inj hcall
      obtain rfl := hpc timer delay rfl
      simp only [State.advance, hhere] at hstep
      exact Or.inl ⟨now, rfl, rfl, hvalue (by simp [Silent]) hstep⟩
  | cancelSync call work =>
      rw [hhere] at hcall hpc
      exact absurd (Option.some.inj hcall) (hpc timer delay)
  | waitCurr call work =>
      rw [hhere] at hcall hpc
      exact absurd (Option.some.inj hcall) (hpc timer delay)
  | waitFlushWork work retval => rw [hhere] at hcall; cases hcall
  | waitFlushVar => rw [hhere] at hcall; cases hcall

/-- A step that finds what it puts somewhere pending nowhere returns what it should. -/
theorem PutsUnpending.returnsRight (h : PutsUnpending dwork state action)
    (hproper : CallsProper state) : ReturnsRight dwork state action := by
  intro next events thread timer delay value hstep hret
  rcases scheduleDelayedWork_returns hproper hstep hret with ⟨now, rfl, hpc, rfl⟩ |
    ⟨now, work, rfl, hpc, hwork, ⟨rfl, rfl⟩ | ⟨hdelay, hpending, rfl⟩⟩
  · exact iff_of_true rfl ((linksUnpending_of_link hpc).mp h.timer)
  · cases hqueued : state.queued work with
    | true =>
        refine iff_of_false (by simp) fun hneither => ?_
        rw [hneither.2 work hwork] at hqueued
        cases hqueued
    | false =>
        have hqueues : queuesWork dwork work state (.advance thread now) = true := by
          simp [queuesWork, hpc, Call.schedules, hwork, hqueued]
        refine iff_of_true rfl ⟨h.work timer work hqueues hwork, fun other hother => ?_⟩
        rw [← Option.some.inj (hwork.symm.trans hother)]
        exact hqueued
  · refine iff_of_false (by simp) fun hneither => ?_
    rw [hneither.1] at hpending
    cases hpending

/-! ### Runs -/

/-- **Pending once.**  In every run, whatever the interleaving: the lists are in order, no
delayed work is pending in two places and every `schedule_delayed_work` returns one exactly if
its item was pending in neither, if and only if every step of the run that puts a timer or a
work in its place finds the item pending in neither place. -/
theorem delayed_work_pending_iff {schedule : List (Action W T C)} {last : State W T C}
    {history : List (Event W T C)}
    (hrun : (taskMachine dwork).run .init schedule = some (last, history)) :
    ((∀ pair ∈ (taskMachine dwork).visited .init schedule,
        PendingOnce dwork pair.1 ∧ ReturnsRight dwork pair.1 pair.2) ∧ PendingOnce dwork last) ↔
      ∀ pair ∈ (taskMachine dwork).visited .init schedule,
        PutsUnpending dwork pair.1 pair.2 := by
  have hinv : ∀ {state : State W T C} {action next events},
      ((∃ ledger, WorkInv state ledger) ∧ CallsProper state) →
      (taskMachine dwork).step state action = some (next, events) →
      (∃ ledger, WorkInv next ledger) ∧ CallsProper next := by
    rintro state action next events ⟨⟨ledger, hwork⟩, hproper⟩ hstep
    obtain ⟨ledger', -, hwork'⟩ := hwork.step hstep
    exact ⟨⟨ledger', hwork'⟩, hproper.step hstep⟩
  have hstart : (∃ ledger, WorkInv (State.init : State W T C) ledger) ∧
      CallsProper (State.init : State W T C) := ⟨⟨.empty, .init⟩, fun _ => trivial⟩
  have honce : PendingOnce dwork (State.init : State W T C) :=
    ⟨TimersLinked.init, ⟨_, TailQueue.Represents.empty⟩, by
      rintro timer work - ⟨hpending, -⟩
      cases hpending⟩
  have hstates := @Machine.run_states_iff _ _ _ (taskMachine dwork)
    (fun state : State W T C => (∃ ledger, WorkInv state ledger) ∧ CallsProper state)
    (PendingOnce dwork)
    (PutsUnpending dwork) hinv
    (fun hgood hbefore hstep => by
      obtain ⟨⟨ledger, hwork⟩, -⟩ := hgood
      exact hbefore.step_iff hwork hstep)
    .init last history schedule hstart honce hrun
  constructor
  · rintro ⟨hvisited, hlast⟩
    exact hstates.mp ⟨fun pair hpair => (hvisited pair hpair).1, hlast⟩
  · intro hputs
    obtain ⟨hvisited, hlast⟩ := hstates.mpr hputs
    have hgood := ((taskMachine dwork).run_states hinv hstart hrun).1
    exact ⟨fun pair hpair => ⟨hvisited pair hpair,
      (hputs pair hpair).returnsRight (hgood pair hpair).2⟩, hlast⟩

/-- An item is scheduled with a delay, expires, is queued and taken by the worker; then it is
scheduled again, without a delay. -/
def delayThenNow : List (Action Unit Unit Unit) :=
  [.invoke (.client ()) (.scheduleDelayedWork () 10), .advance (.client ()) 0,
    .advance (.client ()) 0, .advance (.client ()) 0, .advance (.client ()) 0, .timerExec 11 1,
    .advance .timer 0, .workExec, .invoke (.client ()) (.scheduleDelayedWork () 0),
    .advance (.client ()) 0]

theorem delayThenNow_isSome : ((taskMachine oneDelayed).run .init delayThenNow).isSome = true := by
  decide

theorem delayed_work_pending_delayThenNow :
    PendingOnce oneDelayed ((taskMachine oneDelayed).after .init delayThenNow
      delayThenNow_isSome) := by
  obtain ⟨⟨last, history⟩, hrun⟩ := Option.isSome_iff_exists.mp delayThenNow_isSome
  have hlast : (taskMachine oneDelayed).after .init delayThenNow delayThenNow_isSome = last := by
    simp [Machine.after, hrun]
  have hlinks : ∀ pair ∈ (taskMachine oneDelayed).visited .init delayThenNow,
      linksUnpending oneDelayed pair.1 pair.2 = true := by
    decide
  have hqueues : ∀ pair ∈ (taskMachine oneDelayed).visited .init delayThenNow,
      ∀ timer work, queuesWork oneDelayed work pair.1 pair.2 = true →
        oneDelayed timer = some work → pair.1.pending timer = false := by
    decide
  rw [hlast]
  exact ((delayed_work_pending_iff hrun).mpr fun pair hpair =>
    ⟨hlinks pair hpair, hqueues pair hpair⟩).2

/-- An item is scheduled with a delay and, before that is over, without one. -/
def nowWhileDelayed : List (Action Unit Unit Unit) :=
  [.invoke (.client ()) (.scheduleDelayedWork () 10), .advance (.client ()) 0,
    .advance (.client ()) 0, .advance (.client ()) 0, .advance (.client ()) 0,
    .invoke (.client ()) (.scheduleDelayedWork () 0), .advance (.client ()) 0]

/-- What the two calls return. -/
def nowWhileDelayedHistory : List (Event Unit Unit Unit) :=
  [.call (.client ()) (.scheduleDelayedWork () 10), .armed (),
    .ret (.client ()) (.scheduleDelayedWork () 10) 1,
    .call (.client ()) (.scheduleDelayedWork () 0), .scheduled () 1,
    .ret (.client ()) (.scheduleDelayedWork () 0) 1]

theorem delayed_work_pending_twice : ∃ last,
    (taskMachine oneDelayed).run .init nowWhileDelayed = some (last, nowWhileDelayedHistory) ∧
      last.pending () = true ∧ last.queued () = true ∧ ¬ PendingOnce oneDelayed last := by
  have hrun := (taskMachine oneDelayed).run_eq_after
    (by decide : ((taskMachine oneDelayed).run .init nowWhileDelayed).isSome = true)
    (by decide : _ = some nowWhileDelayedHistory)
  have hboth : ∀ (last : State Unit Unit Unit), last.pending () = true ∧ last.queued () = true →
      ¬ PendingOnce oneDelayed last := fun last hboth honce => honce.once () () rfl hboth
  exact ⟨_, hrun, by decide, by decide, hboth _ ⟨by decide, by decide⟩⟩

end Webcamd.Kernel
