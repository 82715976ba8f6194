import Webcamd.Library.Machine

/-!
# Semaphores

A model of `up`, `down`, `down_trylock` and `down_read_trylock` of `kernel/linux_thread.c`, for
any number of threads and of semaphores.  All the semaphores share one condition variable,
`mutex_cond`, and an `up` only broadcasts it when its semaphore goes to exactly one.

The calls run under `atomic_lock`, which a sleeping `down` gives up completely and has again
when `pthread_cond_wait` returns (`Webcamd.Kernel.AtomicLock`).  So a call is one step, except
that `down` is interrupted where it sleeps.  A sleeping thread may be woken at any time, with
or without a broadcast, and then tests the value again.

* `State` — the values of the semaphores and where every thread is.  Who has been sent a
  broadcast is not part of it: that is read off the history.
* `AsleepSince` — a thread went to sleep on a semaphore, and what has happened since.
* `SemaphoreInv` — the value is what the history adds up to, and a thread that sleeps while
  the value is positive has been sent a broadcast.  `semaphore_conservation` concludes.

The value is an `int32_t`.  An `up` that would overflow it is undefined in C, and is not
enabled here; a `down` cannot overflow it.
-/

namespace Webcamd.Kernel.Semaphore

open Webcamd.Library

/-- The calls that take a semaphore. -/
inductive Call where
  | down
  | downTrylock
  | downReadTrylock
  deriving DecidableEq

/-- What a call returns when it has the semaphore; `down` returns nothing. -/
def Call.success : Call → Option ℤ
  | .down => none
  | .downTrylock => some 0
  | .downReadTrylock => some 1

/-- What a call returns when it gives up. -/
def Call.congested : Call → Option ℤ
  | .down => none
  | .downTrylock => some 1
  | .downReadTrylock => some 0

/-- Where a thread is. -/
inductive Pc (S : Type) where
  | idle
  /-- In `pthread_cond_wait`, in the `down` of this call. -/
  | sleeping (call : Call) (sem : S)
  deriving DecidableEq

structure State (S T : Type) where
  /-- `sem->value` -/
  value : S → ℤ
  threads : T → Pc S

inductive Action (S T : Type) where
  | up (thread : T) (sem : S)
  | down (thread : T) (sem : S)
  | downTrylock (thread : T) (sem : S)
  | downReadTrylock (thread : T) (sem : S)
  /-- `pthread_cond_wait` returns. -/
  | wakeup (thread : T)

inductive Event (S T : Type) where
  /-- An `up` of the semaphore completes. -/
  | upped (thread : T) (sem : S)
  /-- `pthread_cond_broadcast(&mutex_cond)` -/
  | broadcast
  /-- A call took the semaphore. -/
  | downed (thread : T) (sem : S)
  /-- The thread went to sleep in `down`. -/
  | slept (thread : T) (sem : S)
  /-- A trylock returns. -/
  | returned (thread : T) (ret : ℤ)
  deriving DecidableEq

/-- What is seen of a call that returns. -/
def returns {S T : Type} (thread : T) (ret : Option ℤ) : List (Event S T) :=
  ret.toList.map (.returned thread)

namespace State

variable {S T : Type} [DecidableEq S] [DecidableEq T]

/-- After `sema_init` of every semaphore. -/
def init (initial : S → ℤ) : State S T where
  value := initial
  threads := fun _ => .idle

def setValue (state : State S T) (sem : S) (value : ℤ) : State S T :=
  { state with value := Function.update state.value sem value }

def setThread (state : State S T) (thread : T) (pc : Pc S) : State S T :=
  { state with threads := Function.update state.threads thread pc }

omit [DecidableEq T] in
@[simp] theorem setValue_same (state : State S T) (sem : S) (value : ℤ) :
    (state.setValue sem value).value sem = value :=
  Function.update_self ..

omit [DecidableEq T] in
theorem setValue_of_ne {sem other : S} (hne : other ≠ sem) (state : State S T) (value : ℤ) :
    (state.setValue sem value).value other = state.value other :=
  Function.update_of_ne hne ..

omit [DecidableEq T] in
@[simp] theorem setValue_threads (state : State S T) (sem : S) (value : ℤ) :
    (state.setValue sem value).threads = state.threads := rfl

omit [DecidableEq S] in
@[simp] theorem setThread_value (state : State S T) (thread : T) (pc : Pc S) :
    (state.setThread thread pc).value = state.value := rfl

omit [DecidableEq S] in
@[simp] theorem setThread_same (state : State S T) (thread : T) (pc : Pc S) :
    (state.setThread thread pc).threads thread = pc :=
  Function.update_self ..

omit [DecidableEq S] in
theorem setThread_of_ne {thread other : T} (hne : other ≠ thread) (state : State S T)
    (pc : Pc S) : (state.setThread thread pc).threads other = state.threads other :=
  Function.update_of_ne hne ..

/-- `sem->value++`, unless it overflows. -/
def increment (state : State S T) (sem : S) : Option (State S T) :=
  if state.value sem < 2 ^ 31 - 1 then
    some (state.setValue sem (state.value sem + 1))
  else none

/-- `up` -/
def up (state : State S T) (thread : T) (sem : S) :
    Option (State S T × List (Event S T)) :=
  if state.threads thread = .idle then
    (state.increment sem).map fun upped =>
      (upped, .upped thread sem :: if upped.value sem = 1 then [.broadcast] else [])
  else none

/-- `down`, from the test `sem->value <= 0` on. -/
def down (state : State S T) (thread : T) (call : Call) (sem : S) :
    State S T × List (Event S T) :=
  if state.value sem ≤ 0 then
    (state.setThread thread (.sleeping call sem), [.slept thread sem])
  else
    ((state.setValue sem (state.value sem - 1)).setThread thread .idle,
      .downed thread sem :: returns thread call.success)

/-- `down_trylock` and `down_read_trylock`, which differ in what they return. -/
def tryDown (state : State S T) (thread : T) (call : Call) (sem : S) :
    Option (State S T × List (Event S T)) :=
  if state.threads thread = .idle then
    if 0 < state.value sem then some (state.down thread call sem)
    else some (state, returns thread call.congested)
  else none

/-- `down_trylock` -/
def downTrylock (state : State S T) (thread : T) (sem : S) :
    Option (State S T × List (Event S T)) :=
  state.tryDown thread .downTrylock sem

/-- `down_read_trylock` -/
def downReadTrylock (state : State S T) (thread : T) (sem : S) :
    Option (State S T × List (Event S T)) :=
  state.tryDown thread .downReadTrylock sem

/-- A sleeping thread is back at the test of `down`. -/
def wakeup (state : State S T) (thread : T) : Option (State S T × List (Event S T)) :=
  match state.threads thread with
  | .idle => none
  | .sleeping call sem => some (state.down thread call sem)

end State

variable {S T : Type} [DecidableEq S] [DecidableEq T]

/-- **The machine**, for any number of semaphores and threads. -/
def semaphoreMachine (S T : Type) [DecidableEq S] [DecidableEq T] :
    Machine (State S T) (Action S T) (Event S T) where
  step state
    | .up thread sem => state.up thread sem
    | .down thread sem =>
        if state.threads thread = .idle then some (state.down thread .down sem) else none
    | .downTrylock thread sem => state.downTrylock thread sem
    | .downReadTrylock thread sem => state.downReadTrylock thread sem
    | .wakeup thread => state.wakeup thread

/-! ### What a step does -/

/-- The four ways a step can go. -/
inductive Move (state : State S T) : State S T → List (Event S T) → Prop where
  | up (thread : T) (sem : S) (hidle : state.threads thread = .idle) :
      Move state (state.setValue sem (state.value sem + 1))
        (.upped thread sem :: if state.value sem + 1 = 1 then [.broadcast] else [])
  | take (thread : T) (call : Call) (sem : S) (hvalue : 0 < state.value sem) :
      Move state ((state.setValue sem (state.value sem - 1)).setThread thread .idle)
        (.downed thread sem :: returns thread call.success)
  | sleep (thread : T) (call : Call) (sem : S) (hvalue : state.value sem ≤ 0) :
      Move state (state.setThread thread (.sleeping call sem)) [.slept thread sem]
  | giveUp (thread : T) (call : Call) : Move state state (returns thread call.congested)

variable {state next : State S T} {action : Action S T} {events history : List (Event S T)}

theorem Move.of_down (thread : T) (call : Call) (sem : S) :
    Move state (state.down thread call sem).1 (state.down thread call sem).2 := by
  unfold State.down
  split
  · rename_i hvalue
    exact .sleep thread call sem hvalue
  · rename_i hvalue
    exact .take thread call sem (not_le.mp hvalue)

theorem Move.of_tryDown {thread : T} {call : Call} {sem : S}
    (h : state.tryDown thread call sem = some (next, events)) : Move state next events := by
  unfold State.tryDown at h
  split at h
  · split at h
    · obtain ⟨rfl, rfl⟩ := Prod.mk.inj (Option.some.inj h)
      exact .of_down thread call sem
    · obtain ⟨rfl, rfl⟩ := Prod.mk.inj (Option.some.inj h)
      exact .giveUp thread call
  · cases h

theorem move_of_step (hstep : (semaphoreMachine S T).step state action = some (next, events)) :
    Move state next events := by
  cases action with
  | up thread sem =>
      replace hstep : state.up thread sem = some (next, events) := hstep
      unfold State.up at hstep
      split at hstep
      · rename_i hidle
        unfold State.increment at hstep
        split at hstep
        · obtain ⟨rfl, rfl⟩ := Prod.mk.inj (Option.some.inj hstep)
          simpa using Move.up thread sem hidle
        · cases hstep
      · cases hstep
  | down thread sem =>
      replace hstep : (if state.threads thread = .idle then
        some (state.down thread .down sem) else none) = some (next, events) := hstep
      split at hstep
      · obtain ⟨rfl, rfl⟩ := Prod.mk.inj (Option.some.inj hstep)
        exact .of_down thread .down sem
      · cases hstep
  | downTrylock thread sem => exact .of_tryDown hstep
  | downReadTrylock thread sem => exact .of_tryDown hstep
  | wakeup thread =>
      replace hstep : state.wakeup thread = some (next, events) := hstep
      unfold State.wakeup at hstep
      split at hstep
      · cases hstep
      · obtain ⟨rfl, rfl⟩ := Prod.mk.inj (Option.some.inj hstep)
        exact .of_down thread _ _

/-! ### The value -/

/-- How often the semaphore has been given back … -/
def ups (sem : S) (history : List (Event S T)) : ℕ :=
  history.countP fun
    | .upped _ other => other = sem
    | _ => false

/-- … and how often it has been taken. -/
def downs (sem : S) (history : List (Event S T)) : ℕ :=
  history.countP fun
    | .downed _ other => other = sem
    | _ => false

omit [DecidableEq T] in
theorem ups_append (sem : S) (past events : List (Event S T)) :
    ups sem (past ++ events) = ups sem past + ups sem events :=
  List.countP_append

omit [DecidableEq T] in
theorem downs_append (sem : S) (past events : List (Event S T)) :
    downs sem (past ++ events) = downs sem past + downs sem events :=
  List.countP_append

omit [DecidableEq T] in
@[simp] theorem ups_returns (sem : S) (thread : T) (ret : Option ℤ) :
    ups sem (returns thread ret) = 0 := by
  cases ret <;> simp [ups, returns]

omit [DecidableEq T] in
@[simp] theorem downs_returns (sem : S) (thread : T) (ret : Option ℤ) :
    downs sem (returns thread ret) = 0 := by
  cases ret <;> simp [downs, returns]

omit [DecidableEq T] in
theorem ups_upped (sem other : S) (thread : T) (woken : Prop) [Decidable woken] :
    ups sem (.upped thread other :: if woken then [.broadcast] else []) =
      if other = sem then 1 else 0 := by
  split <;> simp [ups, List.countP_cons]

omit [DecidableEq T] in
theorem downs_upped (sem other : S) (thread : T) (woken : Prop) [Decidable woken] :
    downs sem (.upped thread other :: if woken then [.broadcast] else []) = 0 := by
  split <;> simp [downs]

omit [DecidableEq T] in
theorem ups_downed (sem other : S) (thread : T) (ret : Option ℤ) :
    ups sem (.downed thread other :: returns thread ret) = 0 := by
  cases ret <;> simp [ups, returns]

omit [DecidableEq T] in
theorem downs_downed (sem other : S) (thread : T) (ret : Option ℤ) :
    downs sem (.downed thread other :: returns thread ret) = if other = sem then 1 else 0 := by
  cases ret <;> simp [downs, returns, List.countP_cons]

/-- A step changes the value by what it adds to the history. -/
theorem Move.value (h : Move state next events) (sem : S) :
    next.value sem = state.value sem + ups sem events - downs sem events := by
  cases h with
  | up thread other hidle =>
      rw [ups_upped, downs_upped]
      by_cases heq : other = sem
      · subst heq
        simp
      · simp [heq, State.setValue_of_ne (Ne.symm heq)]
  | take thread call other hvalue =>
      rw [ups_downed, downs_downed]
      by_cases heq : other = sem
      · subst heq
        simp
      · simp [heq, State.setValue_of_ne (Ne.symm heq)]
  | sleep thread call other hvalue => simp [ups, downs]
  | giveUp thread call => simp

/-- A semaphore is taken only while its value is positive. -/
theorem Move.pos_of_downed (h : Move state next events) {thread : T} {sem : S}
    (hdowned : .downed thread sem ∈ events) : 0 < state.value sem := by
  cases h with
  | up other sem' hidle =>
      split at hdowned <;> simp at hdowned
  | take other call sem' hvalue =>
      obtain ⟨-, rfl⟩ : thread = other ∧ sem = sem' := by
        simpa [returns] using hdowned
      exact hvalue
  | sleep other call sem' hvalue => simp at hdowned
  | giveUp other call => simp [returns] at hdowned

/-! ### Sleepers -/

/-- The thread went to sleep on the semaphore, has not done so again since, and `after` is what
has happened since. -/
def AsleepSince (thread : T) (sem : S) (after history : List (Event S T)) : Prop :=
  ∃ before, history = before ++ .slept thread sem :: after ∧
    ∀ other, .slept thread other ∉ after

omit [DecidableEq S] [DecidableEq T] in
/-- A thread that does not go to sleep again is asleep since the same moment. -/
theorem AsleepSince.append {thread : T} {sem : S} {after : List (Event S T)}
    (h : AsleepSince thread sem after history) (hnot : ∀ other, .slept thread other ∉ events) :
    AsleepSince thread sem (after ++ events) (history ++ events) := by
  obtain ⟨before, rfl, hafter⟩ := h
  refine ⟨before, by simp, fun other hmem => ?_⟩
  rcases List.mem_append.mp hmem with hold | hnew
  · exact hafter other hold
  · exact hnot other hnew

/-- The invariant: the history adds up to the value, and a sleeper has been sent a broadcast,
unless it still has to wait. -/
structure SemaphoreInv (initial : S → ℤ) (state : State S T) (history : List (Event S T)) :
    Prop where
  value : ∀ sem, state.value sem = initial sem + ups sem history - downs sem history
  asleep : ∀ thread call sem, state.threads thread = .sleeping call sem →
    ∃ after, AsleepSince thread sem after history ∧
      (0 < state.value sem → .broadcast ∈ after)

omit [DecidableEq T] in
theorem SemaphoreInv.init (initial : S → ℤ) :
    SemaphoreInv (T := T) initial (.init initial) [] where
  value sem := by simp [State.init, ups, downs]
  asleep thread call sem hsleeping := by cases hsleeping

omit [DecidableEq T] in
/-- A thread that this step does not send to sleep was asleep before, if it is after. -/
theorem SemaphoreInv.keep {initial : S → ℤ} (h : SemaphoreInv initial state history)
    {thread : T} {call : Call} {sem : S}
    (hsleeping : state.threads thread = .sleeping call sem)
    (hnot : ∀ other, .slept thread other ∉ events)
    (hwake : 0 < next.value sem → 0 < state.value sem ∨ .broadcast ∈ events) :
    ∃ after, AsleepSince thread sem after (history ++ events) ∧
      (0 < next.value sem → .broadcast ∈ after) := by
  obtain ⟨after, hsince, hbroadcast⟩ := h.asleep thread call sem hsleeping
  refine ⟨after ++ events, hsince.append hnot, fun hpos => ?_⟩
  rcases hwake hpos with hbefore | hnow
  · exact List.mem_append_left _ (hbroadcast hbefore)
  · exact List.mem_append_right _ hnow

theorem SemaphoreInv.step {initial : S → ℤ} (h : SemaphoreInv initial state history)
    (hmove : Move state next events) : SemaphoreInv initial next (history ++ events) where
  value sem := by
    have hbefore := h.value sem
    have hchange := hmove.value sem
    rw [ups_append, downs_append]
    push_cast
    linarith
  asleep thread call sem hsleeping := by
    cases hmove with
    | up other sem' hidle =>
        refine h.keep hsleeping (by split <;> simp) fun hpos => ?_
        by_cases hsem : sem = sem'
        · -- the one step that makes a value positive, which makes it one
          subst hsem
          rw [State.setValue_same] at hpos
          by_cases hone : state.value sem + 1 = 1
          · exact Or.inr (by simp [hone])
          · exact Or.inl (by omega)
        · rw [State.setValue_of_ne hsem] at hpos
          exact Or.inl hpos
    | take other call' sem' hvalue =>
        have hne : thread ≠ other := by
          rintro rfl
          simp at hsleeping
        rw [State.setThread_of_ne hne] at hsleeping
        refine h.keep hsleeping (by simp [returns]) fun hpos => Or.inl ?_
        by_cases hsem : sem = sem'
        · exact hsem ▸ hvalue
        · rwa [State.setThread_value, State.setValue_of_ne hsem] at hpos
    | sleep other call' sem' hvalue =>
        by_cases heq : thread = other
        · subst heq
          obtain ⟨rfl, rfl⟩ : call' = call ∧ sem' = sem := by simpa using hsleeping
          refine ⟨[], ⟨history, rfl, by simp⟩, fun hpos => ?_⟩
          exact absurd hpos (not_lt.mpr hvalue)
        · rw [State.setThread_of_ne heq] at hsleeping
          exact h.keep hsleeping (by simp [heq]) Or.inl
    | giveUp other call' => exact h.keep hsleeping (by simp [returns]) Or.inl

/-- **Semaphores count, and forget no sleeper.**  In every run, whatever the interleaving and
the other semaphores: the value of a semaphore is its initial value and its ups less its
downs; a call takes it only while its value is positive; and while its value is positive,
every thread that is asleep in `down` on it has been sent a broadcast since it fell asleep. -/
theorem semaphore_conservation {initial : S → ℤ} {schedule : List (Action S T)}
    {last : State S T} {history : List (Event S T)}
    (hrun : (semaphoreMachine S T).run (.init initial) schedule = some (last, history))
    (sem : S) :
    last.value sem = initial sem + ups sem history - downs sem history ∧
    (∀ action next events thread,
      (semaphoreMachine S T).step last action = some (next, events) →
        .downed thread sem ∈ events → 0 < last.value sem) ∧
    (0 < last.value sem → ∀ thread call, last.threads thread = .sleeping call sem →
      ∃ after, AsleepSince thread sem after history ∧ .broadcast ∈ after) := by
  have hinv : SemaphoreInv initial last ([] ++ history) :=
    (semaphoreMachine S T).run_invariant
      (fun hprevious hstep => hprevious.step (move_of_step hstep)) (.init initial) hrun
  rw [List.nil_append] at hinv
  refine ⟨hinv.value sem, fun action next events thread hstep hdowned => ?_, ?_⟩
  · exact (move_of_step hstep).pos_of_downed hdowned
  · intro hpos thread call hsleeping
    obtain ⟨after, hsince, hbroadcast⟩ := hinv.asleep thread call sem hsleeping
    exact ⟨after, hsince, hbroadcast hpos⟩

/-- Two threads sleep on the first semaphore, which starts at minus one; it takes two ups to
make it positive, and the second semaphore is taken in between. -/
def crowded : List (Action Bool (Fin 3)) :=
  [.down 0 true, .down 1 true, .up 2 true, .downTrylock 2 false, .wakeup 0, .up 2 true]

def crowdedHistory : List (Event Bool (Fin 3)) :=
  [.slept 0 true, .slept 1 true, .upped 2 true, .downed 2 false, .returned 2 0, .slept 0 true,
    .upped 2 true, .broadcast]

theorem semaphore_conservation_crowded : ∃ last,
    (semaphoreMachine Bool (Fin 3)).run (.init fun sem => if sem then -1 else 1) crowded =
      some (last, crowdedHistory) ∧
    last.value true = 1 ∧
    ∃ after, AsleepSince 0 true after crowdedHistory ∧ .broadcast ∈ after := by
  have hrun := (semaphoreMachine Bool (Fin 3)).run_eq_after
    (by decide : ((semaphoreMachine Bool (Fin 3)).run
      (.init fun sem => if sem then -1 else 1) crowded).isSome = true)
    (by decide : _ = some crowdedHistory)
  refine ⟨_, hrun, by decide, ?_⟩
  exact (semaphore_conservation hrun true).2.2 (by decide) 0 .down (by decide)

end Webcamd.Kernel.Semaphore
