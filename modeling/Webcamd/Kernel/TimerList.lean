import Webcamd.Kernel.TaskCancel

/-!
# The timer list

What `add_timer`, `del_timer`, `mod_timer` and the timer thread make of `timer_head`, in every
run of the machine of `Webcamd.Kernel.Task`.

`add_timer` is a `del_timer` and an insertion, in two lock sections, and the second one does
not look at what has happened since the first.  Two things can: another `add_timer` can put
the timer on the list, and then the insertion breaks the list; and the timer can be put on the
list and expire, and then the insertion arms it again although nobody has asked for it since.

* `TimerListOk` — the links of the list are in order, and a timer's back link says whether it
  is on the list.  It holds throughout a run exactly if no insertion finds its timer on the list.
* `ExpirationsSeparated` — between two expirations of a timer an `add_timer` on it begins, that
  is, takes its first lock section.  It holds if moreover no timer expires while it is in the
  middle of an `add_timer` (`timer_list_integrity`).
-/

namespace Webcamd.Kernel

open Webcamd.Library

variable {W T C : Type} [DecidableEq W] [DecidableEq T] [DecidableEq C]
variable {dwork : T → Option W} {thread : Thread C} {state next : State W T C}
variable {action : Action W T C} {events : List (Event W T C)} {timer : T}

/-! ### The list -/

/-- The timer list is well-formed, every timer is on it at most once, and `timer_pending` says
whether it is. -/
def TimerListOk (state : State W T C) : Prop :=
  ∃ items, state.timerHead.Represents items ∧ ∀ timer, state.pending timer = true ↔ timer ∈ items

omit [DecidableEq W] [DecidableEq T] [DecidableEq C] in
theorem timerListOk_iff : TimerListOk state ↔ TimersLinked state := by
  constructor
  · rintro ⟨items, hrep, -⟩
    exact ⟨items, hrep⟩
  · rintro ⟨items, hrep⟩
    exact ⟨items, hrep, hrep.prev_isSome_iff⟩

/-- The insertion of `add_timer`, which leaves the work queue alone. -/
theorem linkTimer_step {now : BitVec 64} {call : Call W T}
    (hpc : state.calls thread = .linkTimer call timer)
    (hstep : (taskMachine dwork).step state (.advance thread now) = some (next, events)) :
    next.timerHead = state.timerHead.insertTail timer ∧ next.workHead = state.workHead := by
  replace hstep : state.advance dwork thread now = some (next, events) := hstep
  simp only [State.advance, hpc] at hstep
  obtain ⟨rfl, -⟩ := Prod.mk.inj (Option.some.inj hstep)
  exact ⟨rfl, rfl⟩

/-- **One step keeps the list in order exactly if it does not insert a timer that is on it.** -/
theorem TimersLinked.step_iff (h : TimersLinked state)
    (hstep : (taskMachine dwork).step state action = some (next, events)) :
    TimersLinked next ↔ linksUnlinked state action = true := by
  refine ⟨fun hnext => ?_, fun hlinks => h.step hlinks hstep⟩
  obtain ⟨items, hrep⟩ := h
  by_contra hlinks
  cases action with
  | invoke thread call => exact hlinks rfl
  | workExec => exact hlinks rfl
  | timerExec now fuel => exact hlinks rfl
  | advance thread now =>
      unfold linksUnlinked at hlinks
      dsimp only at hlinks
      split at hlinks
      · rename_i call timer hpc
        have hmem : timer ∈ items := by
          rw [← hrep.prev_isSome_iff]
          simpa [State.pending, Option.isSome_iff_ne_none] using hlinks
        obtain ⟨after, hafter⟩ := hnext
        exact hrep.not_represents_insertTail hmem after ((linkTimer_step hpc hstep).1 ▸ hafter)
      · exact hlinks rfl

/-! ### Expirations -/

/-- The step begins an `add_timer` on the timer: it is the `del_timer` in it. -/
def beginsAddTimer (timer : T) (state : State W T C) (action : Action W T C) : Bool :=
  match action with
  | .advance thread _ =>
      match state.calls thread with
      | .entry (.addTimer other) => decide (other = timer)
      | .unlinkTimer _ other => decide (other = timer)
      | _ => false
  | _ => false

/-- Some thread is between the two sections of an `add_timer` on the timer. -/
def State.Adding (state : State W T C) (timer : T) : Prop :=
  ∃ thread call, state.calls thread = .linkTimer call timer

/-- The timer that a step of the timer thread finds expired. -/
def firesNext (state : State W T C) : Action W T C → Option T
  | .timerExec now fuel =>
      match state.timerThread with
      | .idle => (state.findExpired now fuel state.timerHead.first).join
      | .running _ lastJiffies =>
          (state.findExpired lastJiffies fuel state.timerHead.first).join
  | _ => none

/-- If the step expires a timer, nobody is in the middle of an `add_timer` on it. -/
def FiresUnadded (state : State W T C) (action : Action W T C) : Prop :=
  ∀ timer, firesNext state action = some timer → ¬ state.Adding timer

/-- The step expires the timer. -/
def Fires (dwork : T → Option W) (timer : T) (pair : State W T C × Action W T C) : Prop :=
  ∃ next events, (taskMachine dwork).step pair.1 pair.2 = some (next, events) ∧
    .fired timer ∈ events

/-- Between two expirations of a timer an `add_timer` on it begins. -/
def ExpirationsSeparated (dwork : T → Option W) (visited : List (State W T C × Action W T C)) :
    Prop :=
  ∀ timer front first middle second back, visited = front ++ first :: middle ++ second :: back →
    Fires dwork timer first → Fires dwork timer second →
      ∃ pair ∈ middle, beginsAddTimer timer pair.1 pair.2 = true

/-! ### What a section of a call shows -/

/-- The call a thread is in. -/
def CallPc.call : CallPc W T → Option (Call W T)
  | .idle => none
  | .entry call | .unlinkTimer call _ | .linkTimer call _ | .cancelSync call _
  | .waitCurr call _ => some call
  | .setExpires timer delay => some (.scheduleDelayedWork timer delay)
  | .waitFlushWork work _ => some (.flushWork work)
  | .waitFlushVar => some .flushScheduledWork

/-- Where a call goes from one section to the next. -/
inductive CallPc.Follows : CallPc W T → CallPc W T → Prop where
  | back (pc : CallPc W T) : Follows pc .idle
  | setExpires (timer : T) (delay : BitVec 64) :
      Follows (.entry (.scheduleDelayedWork timer delay)) (.setExpires timer delay)
  | unlinkTimer (timer : T) (delay : BitVec 64) :
      Follows (.setExpires timer delay) (.unlinkTimer (.scheduleDelayedWork timer delay) timer)
  | addTimer (timer : T) : Follows (.entry (.addTimer timer)) (.linkTimer (.addTimer timer) timer)
  | linkTimer (call : Call W T) (timer : T) :
      Follows (.unlinkTimer call timer) (.linkTimer call timer)
  | cancelSync (timer : T) (work : W) :
      Follows (.entry (.cancelDelayedWorkSync timer))
        (.cancelSync (.cancelDelayedWorkSync timer) work)
  | cancelWorkSync (work : W) :
      Follows (.entry (.cancelWorkSync work)) (.waitCurr (.cancelWorkSync work) work)
  | waitCurr (call : Call W T) (work : W) : Follows (.cancelSync call work) (.waitCurr call work)
  | flushWork (work : W) (retval : Int) :
      Follows (.entry (.flushWork work)) (.waitFlushWork work retval)
  | flushScheduledWork : Follows (.entry .flushScheduledWork) .waitFlushVar
  | again (pc : CallPc W T) : Follows pc pc

/-- What a section of a call shows: no expiration, only the return of its own call, and where
the call goes. -/
structure SectionTrace (thread : Thread C) (state next : State W T C)
    (events : List (Event W T C)) : Prop where
  fired : ∀ timer, .fired timer ∉ events
  ret : ∀ other call value, .ret other call value ∈ events →
    other = thread ∧ (state.calls thread).call = some call
  follows : (state.calls thread).Follows (next.calls thread)

/-- What a section has shown before the call returns or goes on. -/
def Silent (events : List (Event W T C)) : Prop :=
  (∀ timer, .fired timer ∉ events) ∧ ∀ other call value, .ret other call value ∉ events

omit [DecidableEq W] [DecidableEq T] [DecidableEq C] in
theorem Silent.nil : Silent ([] : List (Event W T C)) := by
  simp [Silent]

omit [DecidableEq T] [DecidableEq C] in
theorem silent_scheduleWork (state : State W T C) (work : W) :
    Silent (state.scheduleWork work).2.2 := by
  unfold State.scheduleWork
  split <;> simp [Silent]

omit [DecidableEq T] [DecidableEq C] in
theorem silent_cancelWork (state : State W T C) (work : W) :
    Silent (state.cancelWork work).2 := by
  unfold State.cancelWork
  dsimp only
  split <;> simp [Silent]

omit [DecidableEq W] [DecidableEq C] in
theorem silent_delTimer (state : State W T C) (timer : T) :
    Silent (state.delTimer timer).2.2 := by
  unfold State.delTimer
  dsimp only
  split <;> simp [Silent]

omit [DecidableEq C] in
/-- The worker neither expires a timer nor returns from a call. -/
theorem silent_workExec (h : state.workExec = some (next, events)) : Silent events := by
  have htake : ∀ (start : State W T C) {rest : List (Event W T C)},
      start.takeWork = some (next, rest) → Silent rest := by
    intro start rest h
    rcases takeWork_eq_some h with ⟨item, removed, -, -, rfl, -⟩ | ⟨-, rfl, -⟩ <;> simp [Silent]
  obtain ⟨-, ⟨-, htaken⟩ | ⟨work, rest, -, htaken, rfl⟩⟩ := workExec_eq_some h
  · exact htake _ htaken
  · exact ⟨by simpa using (htake _ htaken).1, by simpa using (htake _ htaken).2⟩

namespace SectionTrace

variable {last : State W T C} {produced : List (Event W T C)}

omit [DecidableEq W] [DecidableEq T] in
theorem returnWith {call : Call W T} {value : Int} (hevents : Silent events)
    (hcall : (state.calls thread).call = some call)
    (hreturn : next.returnWith thread call value events = some (last, produced)) :
    SectionTrace thread state last produced := by
  obtain ⟨rfl, rfl⟩ := Prod.mk.inj (Option.some.inj hreturn)
  refine ⟨fun timer => by simpa using hevents.1 timer, fun other call' value' hmem => ?_, ?_⟩
  · rcases List.mem_append.mp hmem with hearlier | hret
    · exact absurd hearlier (hevents.2 _ _ _)
    · obtain ⟨rfl, rfl, -⟩ : other = thread ∧ call' = call ∧ value' = value := by
        simpa using hret
      exact ⟨rfl, hcall⟩
  · rw [State.setCall_calls_same]
    exact .back _

omit [DecidableEq W] [DecidableEq T] in
theorem goto {pc : CallPc W T} (hevents : Silent events)
    (hpc : (state.calls thread).Follows pc)
    (hgoto : next.goto thread pc events = some (last, produced)) :
    SectionTrace thread state last produced := by
  obtain ⟨rfl, rfl⟩ := Prod.mk.inj (Option.some.inj hgoto)
  refine ⟨hevents.1, fun other call value hmem => absurd hmem (hevents.2 _ _ _), ?_⟩
  rwa [State.setCall_calls_same]

omit [DecidableEq T] in
theorem pollCurr {call : Call W T} {work : W} (hevents : Silent events)
    (hcall : (state.calls thread).call = some call)
    (hpc : (state.calls thread).Follows (.waitCurr call work))
    (hpoll : next.pollCurr thread call work events = some (last, produced)) :
    SectionTrace thread state last produced := by
  unfold State.pollCurr at hpoll
  split at hpoll
  · exact goto hevents hpc hpoll
  · exact returnWith hevents hcall hpoll

omit [DecidableEq T] in
theorem pollFlushWork {work : W} {retval : Int}
    (hcall : (state.calls thread).call = some (.flushWork work))
    (hpc : (state.calls thread).Follows (.waitFlushWork work retval))
    (hpoll : next.pollFlushWork thread work retval = some (last, produced)) :
    SectionTrace thread state last produced := by
  unfold State.pollFlushWork at hpoll
  split at hpoll
  · exact goto .nil hpc hpoll
  · exact returnWith .nil hcall hpoll

omit [DecidableEq W] [DecidableEq T] in
theorem pollFlushVar (hcall : (state.calls thread).call = some .flushScheduledWork)
    (hpc : (state.calls thread).Follows .waitFlushVar)
    (hpoll : next.pollFlushVar thread = some (last, produced)) :
    SectionTrace thread state last produced := by
  unfold State.pollFlushVar at hpoll
  split at hpoll
  · exact goto .nil hpc hpoll
  · exact returnWith .nil hcall hpoll

/-- The first section of any call. -/
theorem enter {call : Call W T} (hpc : state.calls thread = .entry call)
    (henter : state.enter dwork thread call = some (last, produced)) :
    SectionTrace thread state last produced := by
  have hcall : (state.calls thread).call = some call := by rw [hpc]; rfl
  have hfollows : ∀ {pc : CallPc W T}, (CallPc.entry call).Follows pc →
      (state.calls thread).Follows pc := by
    intro pc h
    rwa [hpc]
  cases call with
  | scheduleWork work => exact returnWith (silent_scheduleWork state work) hcall henter
  | scheduleDelayedWork timer delay =>
      obtain ⟨work, -, henter⟩ := Option.bind_eq_some_iff.mp henter
      split at henter
      · exact returnWith (silent_scheduleWork state work) hcall henter
      · split at henter
        · exact returnWith .nil hcall henter
        · exact goto .nil (hfollows (.setExpires timer delay)) henter
  | cancelWork work => exact returnWith (silent_cancelWork state work) hcall henter
  | cancelWorkSync work =>
      exact pollCurr (silent_cancelWork state work) hcall (hfollows (.cancelWorkSync work)) henter
  | cancelDelayedWork timer =>
      obtain ⟨work, -, henter⟩ := Option.bind_eq_some_iff.mp henter
      exact returnWith (silent_cancelWork state work) hcall henter
  | cancelDelayedWorkSync timer =>
      obtain ⟨work, -, henter⟩ := Option.bind_eq_some_iff.mp henter
      exact goto (silent_cancelWork state work) (hfollows (.cancelSync timer work)) henter
  | cancelRearmingDelayedWork timer =>
      obtain ⟨work, -, henter⟩ := Option.bind_eq_some_iff.mp henter
      exact returnWith (silent_cancelWork state work) hcall henter
  | flushWork work => exact pollFlushWork hcall (hfollows (.flushWork work _)) henter
  | flushScheduledWork => exact pollFlushVar hcall (hfollows .flushScheduledWork) henter
  | taskletSchedule work => exact returnWith (silent_scheduleWork state work) hcall henter
  | taskletKill work => exact returnWith (silent_cancelWork state work) hcall henter
  | timerPending timer => exact returnWith .nil hcall henter
  | addTimer timer =>
      exact goto (silent_delTimer state timer) (hfollows (.addTimer timer)) henter
  | delTimer timer => exact returnWith (silent_delTimer state timer) hcall henter
  | delTimerSync timer => exact returnWith (silent_delTimer state timer) hcall henter
  | modTimer timer expires => exact returnWith .nil hcall henter

/-- **Any section of any call.** -/
theorem advance {now : BitVec 64}
    (hadvance : state.advance dwork thread now = some (last, produced)) :
    SectionTrace thread state last produced := by
  unfold State.advance at hadvance
  split at hadvance
  · cases hadvance
  · rename_i call hpc
    exact enter hpc hadvance
  · rename_i timer delay hpc
    exact goto .nil (hpc ▸ .unlinkTimer timer delay) hadvance
  · rename_i call timer hpc
    exact goto (silent_delTimer state timer) (hpc ▸ .linkTimer call timer) hadvance
  · rename_i call timer hpc
    refine returnWith (by simp [Silent]) (by rw [hpc]; rfl) hadvance
  · rename_i call work hpc
    exact pollCurr (silent_cancelWork state _) (by rw [hpc]; rfl) (hpc ▸ .waitCurr call work)
      hadvance
  · rename_i call work hpc
    exact pollCurr .nil (by rw [hpc]; rfl) (hpc ▸ .again _) hadvance
  · rename_i work retval hpc
    exact pollFlushWork (by rw [hpc]; rfl) (hpc ▸ .again _) hadvance
  · rename_i hpc
    exact pollFlushVar (by rw [hpc]; rfl) (hpc ▸ .again _) hadvance

end SectionTrace

/-! ### What a step of the machine does to an `add_timer` in progress -/

omit [DecidableEq W] [DecidableEq T] in
/-- A call gets to the insertion of `add_timer` from the `del_timer` in it. -/
theorem CallPc.Follows.linkTimer_cases {pc : CallPc W T} {call : Call W T}
    (h : pc.Follows (.linkTimer call timer)) :
    pc = .linkTimer call timer ∨ pc = .entry (.addTimer timer) ∨ pc = .unlinkTimer call timer := by
  cases h with
  | addTimer timer => exact Or.inr (Or.inl rfl)
  | linkTimer call timer => exact Or.inr (Or.inr rfl)
  | again pc => exact Or.inl rfl

/-- A thread gets into the middle of an `add_timer` only by beginning one. -/
theorem adding_step (hstep : (taskMachine dwork).step state action = some (next, events))
    (hadding : next.Adding timer) :
    state.Adding timer ∨ beginsAddTimer timer state action = true := by
  obtain ⟨thread, call, hpc⟩ := hadding
  cases action with
  | invoke other made =>
      obtain ⟨rfl, -⟩ := invoke_eq_some hstep
      by_cases heq : thread = other
      · subst heq
        simp at hpc
      · rw [State.setCall_calls_of_ne _ _ heq] at hpc
        exact Or.inl ⟨thread, call, hpc⟩
  | advance other now =>
      by_cases heq : thread = other
      · subst heq
        have hfollows := (SectionTrace.advance hstep).follows
        rw [hpc] at hfollows
        rcases hfollows.linkTimer_cases with hlink | hentry | hunlink
        · exact Or.inl ⟨thread, call, hlink⟩
        · exact Or.inr (by simp [beginsAddTimer, hentry])
        · exact Or.inr (by simp [beginsAddTimer, hunlink])
      · rw [(SectionEffect.advance hstep).others thread heq] at hpc
        exact Or.inl ⟨thread, call, hpc⟩
  | workExec =>
      rw [(workExec_frame hstep).2.2] at hpc
      exact Or.inl ⟨thread, call, hpc⟩
  | timerExec now fuel =>
      obtain ⟨-, lastJiffies, hscan⟩ := timerExec_eq_some hstep
      rcases scanTimers_eq_some hscan with ⟨rfl, -⟩ | ⟨other, removed, -, rfl, -⟩
      · exact Or.inl ⟨thread, call, hpc⟩
      · refine Or.inl ⟨thread, call, ?_⟩
        cases hwork : dwork other with
        | none => simpa [hwork] using hpc
        | some work =>
            simp only [hwork] at hpc
            by_cases heq : thread = .timer
            · subst heq
              simp at hpc
            · rwa [Function.update_of_ne heq] at hpc

omit [DecidableEq W] in
/-- The timer a scan finds is the one it expires. -/
theorem scanTimers_fired {lastJiffies : BitVec 64} {fuel : ℕ}
    (h : state.scanTimers dwork lastJiffies fuel = some (next, events))
    (hfired : .fired timer ∈ events) :
    state.findExpired lastJiffies fuel state.timerHead.first = some (some timer) ∧
      state.pending timer = true ∧ next.timerHead = (state.timerHead.takeOut timer).1 := by
  unfold State.scanTimers at h
  split at h
  · cases h
  · obtain ⟨rfl, rfl⟩ := Prod.mk.inj (Option.some.inj h)
    cases hfired
  · rename_i found hfind
    obtain ⟨removed, hremove, heq⟩ := Option.map_eq_some_iff.mp h
    obtain ⟨cell, hprev, -⟩ := Option.map_eq_some_iff.mp hremove
    have hhead : next.timerHead = removed.clearPrev found ∧ found = timer := by
      cases hwork : dwork found with
      | none =>
          simp only [hwork] at heq
          obtain ⟨rfl, rfl⟩ := Prod.mk.inj heq
          exact ⟨rfl, by simpa [eq_comm] using hfired⟩
      | some work =>
          simp only [hwork] at heq
          obtain ⟨rfl, rfl⟩ := Prod.mk.inj heq
          exact ⟨rfl, by simpa [eq_comm] using hfired⟩
    obtain ⟨hhead, rfl⟩ := hhead
    exact ⟨hfind, by simp [State.pending, hprev], by simp [hhead, TailQueue.takeOut, hremove]⟩

/-- **What an expiration does**: the timer was on the list, and is taken off it. -/
theorem fired_step (hstep : (taskMachine dwork).step state action = some (next, events))
    (hfired : .fired timer ∈ events) :
    firesNext state action = some timer ∧ state.pending timer = true ∧
      next.timerHead = (state.timerHead.takeOut timer).1 := by
  cases action with
  | invoke other made =>
      obtain ⟨-, rfl⟩ := invoke_eq_some hstep
      simp at hfired
  | advance other now => exact absurd hfired ((SectionTrace.advance hstep).fired timer)
  | workExec => exact absurd hfired ((silent_workExec hstep).1 timer)
  | timerExec now fuel =>
      replace hstep : state.timerExec dwork now fuel = some (next, events) := hstep
      unfold State.timerExec at hstep
      split at hstep
      · split at hstep
        · rename_i hthread
          obtain ⟨hfind, hpending, hhead⟩ := scanTimers_fired hstep hfired
          exact ⟨by simp [firesNext, hthread, hfind], hpending, hhead⟩
        · rename_i running lastJiffies hthread
          obtain ⟨hfind, hpending, hhead⟩ := scanTimers_fired hstep hfired
          exact ⟨by simp [firesNext, hthread, hfind], hpending, hhead⟩
      · cases hstep

/-! ### Runs -/

/-- The timer is off the list, and no insertion of it is on its way. -/
structure Unarmed (timer : T) (state : State W T C) : Prop where
  linked : TimersLinked state
  pending : state.pending timer = false
  adding : ¬ state.Adding timer

/-- It stays so until an `add_timer` on it begins. -/
theorem Unarmed.step (h : Unarmed timer state) (hlinks : linksUnlinked state action = true)
    (hbegins : beginsAddTimer timer state action = false)
    (hstep : (taskMachine dwork).step state action = some (next, events)) :
    Unarmed timer next where
  linked := h.linked.step hlinks hstep
  pending := by
    refine pending_step_of_not_link h.linked hlinks hstep ?_ h.pending
    rintro thread now call rfl hpc
    exact h.adding ⟨thread, call, hpc⟩
  adding hnext := by
    rcases adding_step hstep hnext with hbefore | hnow
    · exact h.adding hbefore
    · rw [hbegins] at hnow
      cases hnow

/-- An expiration leaves its timer so. -/
theorem Unarmed.of_fired (hlinked : TimersLinked state)
    (hlinks : linksUnlinked state action = true) (hunadded : FiresUnadded state action)
    (hstep : (taskMachine dwork).step state action = some (next, events))
    (hfired : .fired timer ∈ events) : Unarmed timer next := by
  obtain ⟨hfires, -, hhead⟩ := fired_step hstep hfired
  refine ⟨hlinked.step hlinks hstep, ?_, fun hadding => ?_⟩
  · rw [State.pending, hhead, TailQueue.takeOut_prev_self]
    rfl
  · rcases adding_step hstep hadding with hbefore | hbegins
    · exact hunadded timer hfires hbefore
    · cases action with
      | timerExec now fuel => cases hbegins
      | advance thread now => cases hfires
      | invoke thread call => cases hfires
      | workExec => cases hfires

/-- The list is in order throughout a run exactly if no insertion breaks it. -/
theorem timersLinked_run_iff {schedule : List (Action W T C)} {last : State W T C}
    {history : List (Event W T C)}
    (hrun : (taskMachine dwork).run .init schedule = some (last, history)) :
    ((∀ pair ∈ (taskMachine dwork).visited .init schedule, TimersLinked pair.1) ∧
        TimersLinked last) ↔
      ∀ pair ∈ (taskMachine dwork).visited .init schedule,
        linksUnlinked pair.1 pair.2 = true :=
  @Machine.run_states_iff _ _ _ (taskMachine dwork) (fun _ => True) TimersLinked
    (fun state action => linksUnlinked state action = true) (fun _ _ => trivial)
    (fun _ hlinked hstep => hlinked.step_iff hstep) .init last history schedule trivial
    TimersLinked.init hrun

/-- **The timer list.**  In every run, whatever the interleaving: the list is in order
throughout if and only if every insertion of `add_timer` finds its timer off the list.  If
moreover no timer expires while a thread is between the two sections of an `add_timer` on it,
then an `add_timer` on a timer begins between any two of its expirations. -/
theorem timer_list_integrity {schedule : List (Action W T C)} {last : State W T C}
    {history : List (Event W T C)}
    (hrun : (taskMachine dwork).run .init schedule = some (last, history)) :
    (((∀ pair ∈ (taskMachine dwork).visited .init schedule, TimerListOk pair.1) ∧
        TimerListOk last) ↔
      ∀ pair ∈ (taskMachine dwork).visited .init schedule,
        linksUnlinked pair.1 pair.2 = true) ∧
    ((∀ pair ∈ (taskMachine dwork).visited .init schedule,
        linksUnlinked pair.1 pair.2 = true ∧ FiresUnadded pair.1 pair.2) →
      ExpirationsSeparated dwork ((taskMachine dwork).visited .init schedule)) := by
  have hlist := timersLinked_run_iff hrun
  simp only [timerListOk_iff]
  refine ⟨hlist, fun hsafe timer front first middle second back hvisited hfirst hsecond => ?_⟩
  by_contra hnone
  push Not at hnone
  rw [hvisited] at hsafe hlist
  -- from the first expiration on, the timer is unarmed, so that it cannot be expired again
  have hmem : first ∈ front ++ first :: middle ++ second :: back := by simp
  obtain ⟨next, events, hstep, hfired⟩ := hfirst
  have hlinked := (hlist.mpr fun pair hpair => (hsafe pair hpair).1).1 first hmem
  have hunarmed : Unarmed timer next :=
    .of_fired hlinked (hsafe first hmem).1 (hsafe first hmem).2 hstep hfired
  rw [List.append_assoc, List.cons_append] at hvisited
  obtain ⟨next', events', rest, hstep', hrest⟩ :=
    (taskMachine dwork).visited_eq_append hvisited
  obtain ⟨rfl, -⟩ := Prod.mk.inj (Option.some.inj (hstep.symm.trans hstep'))
  have hlater : Unarmed timer second.1 :=
    @Machine.of_visited_append _ _ _ (taskMachine dwork) (Unarmed timer)
      (fun state action => linksUnlinked state action = true ∧
        beginsAddTimer timer state action = false)
      (fun hbefore hcondition hnext => hbefore.step hcondition.1 hcondition.2 hnext)
      next rest middle back second hunarmed hrest.symm fun pair hpair =>
        ⟨(hsafe pair (by simp [hpair])).1, Bool.not_eq_true _ ▸ hnone pair hpair⟩
  obtain ⟨last', events'', hstep'', hfired'⟩ := hsecond
  have hpending := (fired_step hstep'' hfired').2.1
  rw [hlater.pending] at hpending
  cases hpending

omit [DecidableEq W] [DecidableEq T] [DecidableEq C] in
/-- With no call in progress, nobody is in the middle of an `add_timer`. -/
theorem FiresUnadded.of_idle (hidle : ∀ thread, state.calls thread = .idle) :
    FiresUnadded state action := by
  rintro timer - ⟨thread, call, hpc⟩
  rw [hidle thread] at hpc
  cases hpc

/-- A timer is added and expires, twice. -/
def addedTwice : List (Action Unit Unit Unit) :=
  [.invoke (.client ()) (.addTimer ()), .advance (.client ()) 0, .advance (.client ()) 0,
    .timerExec 1 1, .invoke .timer (.addTimer ()), .advance .timer 0, .advance .timer 0,
    .timerExec 1 1]

theorem addedTwice_isSome : ((taskMachine plainTimer).run .init addedTwice).isSome = true := by
  decide

theorem timer_list_integrity_addedTwice :
    TimerListOk ((taskMachine plainTimer).after .init addedTwice addedTwice_isSome) ∧
      ExpirationsSeparated plainTimer ((taskMachine plainTimer).visited .init addedTwice) := by
  obtain ⟨⟨last, history⟩, hrun⟩ := Option.isSome_iff_exists.mp addedTwice_isSome
  have hlast : (taskMachine plainTimer).after .init addedTwice addedTwice_isSome = last := by
    simp [Machine.after, hrun]
  have hlinks : ∀ pair ∈ (taskMachine plainTimer).visited .init addedTwice,
      linksUnlinked pair.1 pair.2 = true := by
    decide
  have hidle : ∀ pair ∈ (taskMachine plainTimer).visited .init addedTwice,
      (firesNext pair.1 pair.2).isSome = true → ∀ thread ∈ [.worker, .timer, .client ()],
        pair.1.calls thread = .idle := by
    decide
  have hintegrity := timer_list_integrity hrun
  rw [hlast]
  refine ⟨(hintegrity.1.mpr hlinks).2, hintegrity.2 fun pair hpair => ⟨hlinks pair hpair, ?_⟩⟩
  intro timer hfires
  refine FiresUnadded.of_idle (fun thread => ?_) timer hfires
  refine hidle pair hpair (by simp [hfires]) thread ?_
  cases thread <;> simp

/-- Two threads add the same timer at the same time. -/
def doubleAdd : List (Action Unit Unit Bool) :=
  [.invoke (.client true) (.addTimer ()), .invoke (.client false) (.addTimer ()),
    .advance (.client true) 0, .advance (.client false) 0, .advance (.client true) 0,
    .advance (.client false) 0]

theorem timer_list_doubleAdd : ∃ last history,
    (taskMachine plainTimer).run .init doubleAdd = some (last, history) ∧
      ¬ ((∀ pair ∈ (taskMachine plainTimer).visited .init doubleAdd, TimerListOk pair.1) ∧
        TimerListOk last) := by
  obtain ⟨⟨last, history⟩, hrun⟩ := Option.isSome_iff_exists.mp
    (by decide : ((taskMachine plainTimer).run .init doubleAdd).isSome = true)
  refine ⟨last, history, hrun, ?_⟩
  simp only [timerListOk_iff, timersLinked_run_iff hrun]
  decide

end Webcamd.Kernel
