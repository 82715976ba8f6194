import Webcamd.Library.Machine

/-!
# Completions and wait queues

All waits on a completion and on a wait queue are one loop: with the lock held, test; if the
test fails, give the lock away and sleep on the one condition variable that there is; when woken
up and holding the lock again, test again.  A wait on a completion takes one from `x->done`
before it returns.  A wait may have a deadline: woken up by it, the loop is left at once.

* `Wait` — what is waited for, until when, and whether a signal ends the wait.
* `completionMachine` — any number of threads, each in a wait or not, together with `complete`
  and `wake_up`, the deadlines, and whatever else changes what the conditions are about.
* `Advances` — what a section of a wait can do, from one lock to the next sleep or the return.
* `completeAll_releases_iff` — `complete_all`, which is `complete`, releases those who wait as
  long as none of them takes the last of `x->done` from under another one.
-/

namespace Webcamd.Kernel.Completion

open Webcamd.Library

/-! ### The machine -/

/-- What the threads share: `done` of all completions, and the rest, which conditions are about. -/
structure Shared (X E : Type) where
  done : X → BitVec 32
  rest : E

/-- What is waited for: `x->done != 0`, or a condition. -/
inductive Target (X K : Type) where
  | done (x : X)
  | condition (k : K)
  deriving DecidableEq

/-- A wait.  Timeouts are in jiffies. -/
structure Wait (X K : Type) where
  target : Target X K
  timeout : Option (BitVec 64)
  interruptible : Bool
  deriving DecidableEq

section Waits

variable {X K : Type}

/-- `wait_for_completion` -/
def waitForCompletion (x : X) : Wait X K := ⟨.done x, none, false⟩

/-- `wait_for_completion_interruptible` -/
def waitForCompletionInterruptible (x : X) : Wait X K := ⟨.done x, none, true⟩

/-- `wait_for_completion_timeout` -/
def waitForCompletionTimeout (x : X) (timeout : BitVec 64) : Wait X K :=
  ⟨.done x, some timeout, false⟩

/-- `wait_for_completion_interruptible_timeout` -/
def waitForCompletionInterruptibleTimeout (x : X) (timeout : BitVec 64) : Wait X K :=
  ⟨.done x, some timeout, true⟩

/-- `wait_event` -/
def waitEvent (k : K) : Wait X K := ⟨.condition k, none, false⟩

/-- `wait_event_interruptible` -/
def waitEventInterruptible (k : K) : Wait X K := ⟨.condition k, none, true⟩

/-- `wait_event_timeout` -/
def waitEventTimeout (k : K) (timeout : BitVec 64) : Wait X K :=
  ⟨.condition k, some timeout, false⟩

/-- `wait_event_interruptible_timeout` -/
def waitEventInterruptibleTimeout (k : K) (timeout : BitVec 64) : Wait X K :=
  ⟨.condition k, some timeout, true⟩

end Waits

/-- Where a thread is: before the `atomic_lock` of a wait, asleep in it, or back from the sleep,
because of the deadline or not, and about to get the lock again. -/
inductive ThreadPc (X K : Type) where
  | idle
  | entry (wait : Wait X K)
  | asleep (wait : Wait X K)
  | woken (wait : Wait X K) (timedOut : Bool)
  deriving DecidableEq

/-- What a broadcast does to a thread. -/
def ThreadPc.awaken {X K : Type} : ThreadPc X K → ThreadPc X K
  | .asleep wait => .woken wait false
  | pc => pc

structure State (T X K E : Type) where
  shared : Shared X E
  threads : T → ThreadPc X K

/-- Nobody waits, and all completions are as `init_completion` leaves them. -/
def State.init {T X K E : Type} (rest : E) : State T X K E :=
  ⟨⟨fun _ => 0, rest⟩, fun _ => .idle⟩

inductive Action (T X K E : Type) where
  | call (thread : T) (wait : Wait X K)
  /-- the thread gets the lock; `signalled` is what `check_signal` would say -/
  | advance (thread : T) (signalled : Bool)
  /-- the deadline of a sleeping thread passes -/
  | expire (thread : T)
  /-- a sleeping thread wakes up for no reason -/
  | spurious (thread : T)
  | complete (x : X)
  | initCompletion (x : X)
  | wakeUp
  | change (rest : E)

/-- `returned` tells with which value a wait ends, and what was shared when it left its loop. -/
inductive Event (T X K E : Type) where
  | entered (thread : T) (wait : Wait X K)
  | tested (thread : T) (passed : Bool)
  | took (thread : T) (x : X)
  | slept (thread : T)
  | returned (thread : T) (wait : Wait X K) (value : BitVec 64) (shared : Shared X E)

section Machine

variable {T X K E : Type} [DecidableEq T] [DecidableEq X]
variable (condition : K → Shared X E → Bool)

/-- The test of the loop. -/
def Target.test (shared : Shared X E) : Target X K → Bool
  | .done x => decide (shared.done x ≠ 0)
  | .condition k => condition k shared

/-- `x->done--` -/
def Target.consume (shared : Shared X E) : Target X K → Shared X E
  | .done x => { shared with done := Function.update shared.done x (shared.done x - 1) }
  | .condition _ => shared

def Target.took (thread : T) : Target X K → List (Event T X K E)
  | .done x => [.took thread x]
  | .condition _ => []

namespace State

def setThread (state : State T X K E) (thread : T) (pc : ThreadPc X K) : State T X K E :=
  { state with threads := Function.update state.threads thread pc }

/-- The loop, from a test to the next sleep or the return.  `-ERESTARTSYS` is -512. -/
def loop (state : State T X K E) (thread : T) (wait : Wait X K) (signalled : Bool) :
    State T X K E × List (Event T X K E) :=
  if wait.target.test condition state.shared then
    ({ (state.setThread thread .idle) with shared := wait.target.consume state.shared },
      .tested thread true :: (wait.target.took thread ++
        [.returned thread wait (wait.timeout.getD 0) state.shared]))
  else if wait.interruptible && signalled then
    (state.setThread thread .idle,
      [.tested thread false, .returned thread wait (-512) state.shared])
  else
    (state.setThread thread (.asleep wait), [.tested thread false, .slept thread])

/-- A thread gets the lock.  One whose deadline has passed returns 0. -/
def advance (state : State T X K E) (thread : T) (signalled : Bool) :
    Option (State T X K E × List (Event T X K E)) :=
  match state.threads thread with
  | .idle | .asleep _ => none
  | .entry wait | .woken wait false => some (state.loop condition thread wait signalled)
  | .woken wait true => some (state.setThread thread .idle, [.returned thread wait 0 state.shared])

/-- `pthread_cond_broadcast(&sema_cond)` -/
def broadcast (state : State T X K E) : State T X K E :=
  { state with threads := fun thread => (state.threads thread).awaken }

/-- `complete` -/
def complete (state : State T X K E) (x : X) : State T X K E :=
  { state with shared := { state.shared with
      done := Function.update state.shared.done x (state.shared.done x + 1) } }.broadcast

/-- `complete_all` -/
def completeAll (state : State T X K E) (x : X) : State T X K E :=
  state.complete x

/-- `init_completion` -/
def initCompletion (state : State T X K E) (x : X) : State T X K E :=
  { state with shared := { state.shared with done := Function.update state.shared.done x 0 } }

/-- A sleeping thread wakes up. -/
def wake (state : State T X K E) (thread : T) (timedOut : Bool) :
    Option (State T X K E × List (Event T X K E)) :=
  match state.threads thread with
  | .asleep wait =>
      if timedOut = true ∧ wait.timeout = none then none
      else some (state.setThread thread (.woken wait timedOut), [])
  | _ => none

end State

/-- **The machine**, for any number of threads, completions and conditions. -/
def completionMachine : Machine (State T X K E) (Action T X K E) (Event T X K E) where
  step state
    | .call thread wait =>
        if state.threads thread matches .idle then
          some (state.setThread thread (.entry wait), [.entered thread wait])
        else none
    | .advance thread signalled => state.advance condition thread signalled
    | .expire thread => state.wake thread true
    | .spurious thread => state.wake thread false
    | .complete x => some (state.complete x, [])
    | .initCompletion x => some (state.initCompletion x, [])
    | .wakeUp => some (state.broadcast, [])
    | .change rest => some ({ state with shared := { state.shared with rest := rest } }, [])

/-! ### What a step does -/

/-- The wait whose test the thread makes when it gets the lock. -/
def State.testing (state : State T X K E) (thread : T) : Option (Wait X K) :=
  match state.threads thread with
  | .entry wait | .woken wait false => some wait
  | _ => none

/-- The four ways a section of a wait can go. -/
inductive Advances (state : State T X K E) (thread : T) :
    State T X K E → List (Event T X K E) → Prop where
  | take (wait : Wait X K) (htesting : state.testing thread = some wait)
      (htest : wait.target.test condition state.shared = true) :
      Advances state thread
        { (state.setThread thread .idle) with shared := wait.target.consume state.shared }
        (.tested thread true :: (wait.target.took thread ++
          [.returned thread wait (wait.timeout.getD 0) state.shared]))
  | interrupted (wait : Wait X K) (htesting : state.testing thread = some wait)
      (htest : wait.target.test condition state.shared = false)
      (hinterruptible : wait.interruptible = true) :
      Advances state thread (state.setThread thread .idle)
        [.tested thread false, .returned thread wait (-512) state.shared]
  | sleep (wait : Wait X K) (htesting : state.testing thread = some wait)
      (htest : wait.target.test condition state.shared = false) :
      Advances state thread (state.setThread thread (.asleep wait))
        [.tested thread false, .slept thread]
  | giveUp (wait : Wait X K) (hpc : state.threads thread = .woken wait true) :
      Advances state thread (state.setThread thread .idle)
        [.returned thread wait 0 state.shared]

variable {condition} {state next : State T X K E} {events : List (Event T X K E)} {thread : T}

theorem Advances.of_advance {signalled : Bool}
    (h : state.advance condition thread signalled = some (next, events)) :
    Advances condition state thread next events := by
  have hloop : ∀ wait, state.testing thread = some wait →
      state.loop condition thread wait signalled = (next, events) →
        Advances condition state thread next events := by
    intro wait htesting hloop
    unfold State.loop at hloop
    split at hloop
    · rename_i htest
      obtain ⟨rfl, rfl⟩ := Prod.mk.inj hloop
      exact .take wait htesting htest
    · rename_i htest
      replace htest := Bool.eq_false_of_not_eq_true htest
      split at hloop
      · rename_i hsignalled
        obtain ⟨rfl, rfl⟩ := Prod.mk.inj hloop
        exact .interrupted wait htesting htest (Bool.and_eq_true_iff.mp hsignalled).1
      · obtain ⟨rfl, rfl⟩ := Prod.mk.inj hloop
        exact .sleep wait htesting htest
  unfold State.advance at h
  split at h
  · cases h
  · cases h
  · rename_i wait hpc
    exact hloop wait (by rw [State.testing, hpc]) (Option.some.inj h)
  · rename_i wait hpc
    exact hloop wait (by rw [State.testing, hpc]) (Option.some.inj h)
  · rename_i wait hpc
    obtain ⟨rfl, rfl⟩ := Prod.mk.inj (Option.some.inj h)
    exact .giveUp wait hpc

omit [DecidableEq X] in
/-- What wakes a thread up, which has been asleep. -/
theorem wake_eq_some {timedOut : Bool} (h : state.wake thread timedOut = some (next, events)) :
    ∃ wait, state.threads thread = .asleep wait ∧ (timedOut = true → wait.timeout ≠ none) ∧
      next = state.setThread thread (.woken wait timedOut) ∧ events = [] := by
  unfold State.wake at h
  split at h
  · rename_i wait hpc
    split at h
    · cases h
    · rename_i htimed
      obtain ⟨rfl, rfl⟩ := Prod.mk.inj (Option.some.inj h)
      exact ⟨wait, hpc, fun hout hnone => htimed ⟨hout, hnone⟩, rfl, rfl⟩
  · cases h

/-- What a call begins, which a thread does that is in none. -/
theorem call_eq_some {wait : Wait X K}
    (h : (completionMachine condition).step state (.call thread wait) = some (next, events)) :
    state.threads thread = .idle ∧ next = state.setThread thread (.entry wait) ∧
      events = [.entered thread wait] := by
  replace h : (if state.threads thread matches .idle then
      some (state.setThread thread (.entry wait), [.entered thread wait]) else none) =
        some (next, events) := h
  cases hpc : state.threads thread with
  | idle =>
      rw [hpc] at h
      obtain ⟨rfl, rfl⟩ := Prod.mk.inj (Option.some.inj h)
      exact ⟨rfl, rfl, rfl⟩
  | entry wait => rw [hpc] at h; cases h
  | asleep wait => rw [hpc] at h; cases h
  | woken wait timedOut => rw [hpc] at h; cases h

omit [DecidableEq X] in
@[simp] theorem State.setThread_same (state : State T X K E) (thread : T) (pc : ThreadPc X K) :
    (state.setThread thread pc).threads thread = pc := by
  simp [State.setThread]

omit [DecidableEq X] in
theorem State.setThread_of_ne {other : T} (h : other ≠ thread) (pc : ThreadPc X K) :
    (state.setThread thread pc).threads other = state.threads other := by
  simp [State.setThread, h]

omit [DecidableEq T] [DecidableEq X] in
theorem State.broadcast_threads (state : State T X K E) (thread : T) :
    state.broadcast.threads thread = (state.threads thread).awaken := rfl

/-! ### `complete_all` -/

/-- The thread sleeps in a `wait_for_completion`, or does not have the lock yet after that. -/
def State.Blocked (state : State T X K E) (x : X) (thread : T) : Prop :=
  state.threads thread = .asleep (waitForCompletion x) ∨
    ∃ timedOut, state.threads thread = .woken (waitForCompletion x) timedOut

/-- **Nobody is blocked** with `x->done == 0`. -/
def NobodyBlocked (x : X) (state : State T X K E) : Prop :=
  ∀ thread, state.Blocked x thread → state.shared.done x ≠ 0

/-- **Who waits is not left alone**: nobody takes the last of `x->done` from under a thread that
is blocked, or begins to wait when there is none, and `x->done` does not wrap around. -/
def LeavesNobody (x : X) (state : State T X K E) : Action T X K E → Prop
  | .advance thread _ => ∀ wait, state.testing thread = some wait →
      (wait = waitForCompletion x → state.shared.done x ≠ 0) ∧
      (wait.target = .done x → state.shared.done x = 1 →
        ∀ other, other ≠ thread → ¬ state.Blocked x other)
  | .complete y => y = x → state.shared.done x + 1 = 0 → ∀ thread, ¬ state.Blocked x thread
  | _ => True

variable {x : X} {action : Action T X K E}

omit [DecidableEq X] in
/-- Another thread is blocked as before, … -/
theorem blocked_setThread_of_ne {other : T} (h : other ≠ thread) (pc : ThreadPc X K) :
    (state.setThread thread pc).Blocked x other ↔ state.Blocked x other := by
  unfold State.Blocked
  rw [State.setThread_of_ne h]

omit [DecidableEq T] [DecidableEq X] in
/-- … and so is everybody after a broadcast. -/
theorem blocked_broadcast : state.broadcast.Blocked x thread ↔ state.Blocked x thread := by
  unfold State.Blocked
  rw [State.broadcast_threads]
  cases state.threads thread with
  | idle => simp [ThreadPc.awaken]
  | entry wait => simp [ThreadPc.awaken]
  | asleep wait => simp [ThreadPc.awaken]
  | woken wait timedOut => simp [ThreadPc.awaken]

omit [DecidableEq T] [DecidableEq X] in
/-- A step that blocks nobody and leaves `x->done` alone leaves nobody blocked. -/
theorem NobodyBlocked.keep (h : NobodyBlocked x state)
    (hdone : next.shared.done x = state.shared.done x)
    (hblocked : ∀ thread, next.Blocked x thread → state.Blocked x thread) :
    NobodyBlocked x next := by
  intro thread hnext
  rw [hdone]
  exact h thread (hblocked thread hnext)

omit [DecidableEq X] in
/-- Whoever is blocked after a step that takes one thread out of its wait was so before. -/
theorem NobodyBlocked.keep_setThread (h : NobodyBlocked x state) {pc : ThreadPc X K}
    (hpc : (state.setThread thread pc).Blocked x thread → state.Blocked x thread) :
    NobodyBlocked x (state.setThread thread pc) := by
  refine h.keep rfl fun other hother => ?_
  by_cases heq : other = thread
  · subst heq
    exact hpc hother
  · exact (blocked_setThread_of_ne heq pc).mp hother

omit [DecidableEq X] in
/-- A thread that is not in a sleep is not blocked. -/
theorem not_blocked_idle : ¬ (state.setThread thread .idle).Blocked x thread := by
  simp [State.Blocked]

omit [DecidableEq X] in
/-- Who is blocked when a thread has left its wait, whatever it has taken. -/
theorem blocked_leave_iff {other : T} (shared : Shared X E) :
    ({ (state.setThread thread .idle) with shared := shared } : State T X K E).Blocked x other ↔
      other ≠ thread ∧ state.Blocked x other := by
  constructor
  · intro hblocked
    have hne : other ≠ thread := by
      rintro rfl
      exact not_blocked_idle hblocked
    exact ⟨hne, (blocked_setThread_of_ne hne .idle).mp hblocked⟩
  · rintro ⟨hne, hblocked⟩
    exact (blocked_setThread_of_ne hne .idle).mpr hblocked

@[simp] theorem consume_done_same (shared : Shared X E) :
    ((Target.done x : Target X K).consume shared).done x = shared.done x - 1 := by
  simp [Target.consume]

theorem consume_done_of_ne {target : Target X K} (h : target ≠ .done x) (shared : Shared X E) :
    (target.consume shared).done x = shared.done x := by
  cases target with
  | done y =>
      have hne : x ≠ y := by
        rintro rfl
        exact h rfl
      simp [Target.consume, hne]
  | condition k => rfl

/-- **A section of a wait.** -/
theorem Advances.nobodyBlocked_iff (hadvances : Advances condition state thread next events)
    (h : NobodyBlocked x state) (signalled : Bool) :
    NobodyBlocked x next ↔ LeavesNobody x state (.advance thread signalled) := by
  -- the condition is about the wait that the section tests
  have hcondition : ∀ wait, state.testing thread = some wait →
      (LeavesNobody x state (.advance thread signalled) ↔
        (wait = waitForCompletion x → state.shared.done x ≠ 0) ∧
        (wait.target = .done x → state.shared.done x = 1 →
          ∀ other, other ≠ thread → ¬ state.Blocked x other)) := by
    intro wait htesting
    refine ⟨fun h => h wait htesting, fun h other hother => ?_⟩
    obtain rfl := Option.some.inj (htesting.symm.trans hother)
    exact h
  cases hadvances with
  | take wait htesting htest =>
      rw [hcondition wait htesting]
      by_cases htarget : wait.target = .done x
      · have hdone : state.shared.done x ≠ 0 := by simpa [htarget, Target.test] using htest
        constructor
        · refine fun hnext => ⟨fun _ => hdone, fun _ hone other hne hother => ?_⟩
          have hleft := hnext other ((blocked_leave_iff _).mpr ⟨hne, hother⟩)
          dsimp only at hleft
          rw [htarget, consume_done_same, hone] at hleft
          exact hleft (by decide)
        · rintro ⟨-, hlast⟩ other hother hzero
          obtain ⟨hne, hother⟩ := (blocked_leave_iff _).mp hother
          dsimp only at hzero
          rw [htarget, consume_done_same] at hzero
          exact hlast htarget (sub_eq_zero.mp hzero) other hne hother
      · refine iff_of_true ?_ ⟨?_, fun h => absurd h htarget⟩
        · exact h.keep (consume_done_of_ne htarget state.shared)
            fun other hother => ((blocked_leave_iff _).mp hother).2
        · rintro rfl
          exact absurd rfl htarget
  | interrupted wait htesting htest hinterruptible =>
      rw [hcondition wait htesting]
      refine iff_of_true (h.keep_setThread fun hidle => absurd hidle not_blocked_idle) ⟨?_, ?_⟩
      · rintro rfl
        cases hinterruptible
      · intro htarget hone
        simp [htarget, Target.test, hone] at htest
  | sleep wait htesting htest =>
      rw [hcondition wait htesting]
      by_cases hwait : wait = waitForCompletion x
      · subst hwait
        have hdone : state.shared.done x = 0 := by
          simpa [waitForCompletion, Target.test] using htest
        refine iff_of_false (fun hnext => ?_) fun hleaves => hleaves.1 rfl hdone
        exact hnext thread (.inl (State.setThread_same state thread _)) hdone
      · refine iff_of_true (h.keep_setThread fun hasleep => ?_)
          ⟨fun heq => absurd heq hwait, fun htarget hone => ?_⟩
        · rcases hasleep with hasleep | ⟨timedOut, hwoken⟩
          · rw [State.setThread_same] at hasleep
            exact absurd (ThreadPc.asleep.inj hasleep) hwait
          · rw [State.setThread_same] at hwoken
            cases hwoken
        · simp [htarget, Target.test, hone] at htest
  | giveUp wait hpc =>
      refine iff_of_true (h.keep_setThread fun hidle => absurd hidle not_blocked_idle) ?_
      intro other htesting
      rw [State.testing, hpc] at htesting
      cases htesting

omit [DecidableEq X] in
/-- Nobody becomes blocked who sleeps already. -/
theorem nobodyBlocked_wake {timedOut : Bool} (h : NobodyBlocked x state)
    (hwake : state.wake thread timedOut = some (next, events)) : NobodyBlocked x next := by
  obtain ⟨wait, hpc, -, rfl, -⟩ := wake_eq_some hwake
  refine h.keep_setThread fun hwoken => .inl ?_
  rcases hwoken with hasleep | ⟨other, hwoken⟩
  · rw [State.setThread_same] at hasleep
    cases hasleep
  · rw [State.setThread_same] at hwoken
    rw [hpc, (ThreadPc.woken.inj hwoken).1]

omit [DecidableEq T] in
/-- A `complete` blocks nobody, if `x->done` does not become zero. -/
theorem nobodyBlocked_complete_iff :
    NobodyBlocked x (state.complete x) ↔
      (state.shared.done x + 1 = 0 → ∀ thread, ¬ state.Blocked x thread) := by
  have hdone : (state.complete x).shared.done x = state.shared.done x + 1 := by
    simp [State.complete, State.broadcast]
  have hblocked : ∀ thread, (state.complete x).Blocked x thread ↔ state.Blocked x thread :=
    fun thread => blocked_broadcast
  unfold NobodyBlocked
  rw [hdone]
  constructor
  · exact fun h hzero thread hthread => h thread ((hblocked thread).mpr hthread) hzero
  · exact fun h thread hthread hzero => h hzero thread ((hblocked thread).mp hthread)

/-- **One step leaves nobody blocked** exactly if it leaves nobody of those who wait. -/
theorem nobodyBlocked_step_iff (h : NobodyBlocked x state) (hinit : action ≠ .initCompletion x)
    (hstep : (completionMachine condition).step state action = some (next, events)) :
    NobodyBlocked x next ↔ LeavesNobody x state action := by
  cases action with
  | call thread wait =>
      obtain ⟨-, rfl, -⟩ := call_eq_some hstep
      refine iff_of_true (h.keep_setThread fun hentry => ?_) trivial
      simp [State.Blocked] at hentry
  | advance thread signalled =>
      exact (Advances.of_advance hstep).nobodyBlocked_iff h signalled
  | expire thread => exact iff_of_true (nobodyBlocked_wake h hstep) trivial
  | spurious thread => exact iff_of_true (nobodyBlocked_wake h hstep) trivial
  | complete y =>
      obtain ⟨rfl, -⟩ := Prod.mk.inj (Option.some.inj hstep)
      by_cases heq : y = x
      · subst heq
        rw [nobodyBlocked_complete_iff]
        exact ⟨fun hleaves _ => hleaves, fun hleaves => hleaves rfl⟩
      · refine iff_of_true (h.keep ?_ fun _ => blocked_broadcast.mp) fun hsame => absurd hsame heq
        simp [State.complete, State.broadcast, Ne.symm heq]
  | initCompletion y =>
      obtain ⟨rfl, -⟩ := Prod.mk.inj (Option.some.inj hstep)
      have hne : x ≠ y := by
        rintro rfl
        exact hinit rfl
      refine iff_of_true (h.keep ?_ fun _ hblocked => hblocked) trivial
      simp [State.initCompletion, hne]
  | wakeUp =>
      obtain ⟨rfl, -⟩ := Prod.mk.inj (Option.some.inj hstep)
      exact iff_of_true (h.keep rfl fun _ => blocked_broadcast.mp) trivial
  | change rest =>
      obtain ⟨rfl, -⟩ := Prod.mk.inj (Option.some.inj hstep)
      exact iff_of_true (h.keep rfl fun _ hblocked => hblocked) trivial

/-- **`complete_all` releases those who wait**, now and later, until the completion is
initialised again, exactly if each step leaves nobody of them: a waiter that takes the last of
`x->done` must be the last to wait. -/
theorem completeAll_releases_iff {schedule : List (Action T X K E)} {last : State T X K E}
    {history : List (Event T X K E)}
    (hinit : ∀ action ∈ schedule, action ≠ .initCompletion x)
    (hrun : (completionMachine condition).run (state.completeAll x) schedule =
      some (last, history)) :
    ((∀ pair ∈ (completionMachine condition).visited (state.completeAll x) schedule,
        NobodyBlocked x pair.1) ∧ NobodyBlocked x last) ↔
      LeavesNobody x state (.complete x) ∧
        ∀ pair ∈ (completionMachine condition).visited (state.completeAll x) schedule,
          LeavesNobody x pair.1 pair.2 := by
  have hstart : NobodyBlocked x (state.completeAll x) ↔ LeavesNobody x state (.complete x) :=
    nobodyBlocked_complete_iff.trans ⟨fun hleaves _ => hleaves, fun hleaves => hleaves rfl⟩
  -- the rule wants a condition on all actions, also on those that the schedule does not have
  have hrule := fun hreleased => @Machine.run_states_iff _ _ _ (completionMachine condition)
    (fun _ => True) (NobodyBlocked x)
    (fun state action => (action ≠ .initCompletion x → LeavesNobody x state action) ∧
      (action = .initCompletion x → NobodyBlocked x (state.initCompletion x)))
    (fun _ _ => trivial)
    (fun {state action next events} _ h hstep => by
      by_cases heq : action = .initCompletion x
      · subst heq
        obtain ⟨rfl, -⟩ := Prod.mk.inj (Option.some.inj hstep)
        simp
      · rw [nobodyBlocked_step_iff h heq hstep]
        simp [heq])
    (state.completeAll x) last history schedule trivial hreleased hrun
  have hcondition : (∀ pair ∈ (completionMachine condition).visited (state.completeAll x) schedule,
      (pair.2 ≠ .initCompletion x → LeavesNobody x pair.1 pair.2) ∧
        (pair.2 = .initCompletion x → NobodyBlocked x (pair.1.initCompletion x))) ↔
      ∀ pair ∈ (completionMachine condition).visited (state.completeAll x) schedule,
        LeavesNobody x pair.1 pair.2 := by
    refine forall₂_congr fun pair hpair => ?_
    have hne := hinit pair.2 ((completionMachine condition).action_mem_of_visited hpair)
    simp [hne]
  constructor
  · rintro ⟨hvisited, hlast⟩
    have hreleased := (completionMachine condition).of_visited hrun hvisited hlast
    exact ⟨hstart.mp hreleased,
      hcondition.mp ((hrule hreleased).mp ⟨hvisited, hlast⟩)⟩
  · rintro ⟨hleaves, hsteps⟩
    exact (hrule (hstart.mpr hleaves)).mpr (hcondition.mpr hsteps)

end Machine

/-- The machine of the two runs below: two threads, one completion, no condition. -/
def pairMachine : Machine (State Bool Unit Empty Unit) (Action Bool Unit Empty Unit)
    (Event Bool Unit Empty Unit) :=
  completionMachine Empty.elim

/-- One thread sleeps in `wait_for_completion`. -/
def oneWaits : State Bool Unit Empty Unit :=
  (State.init ()).setThread true (.asleep (waitForCompletion ()))

/-- `complete_all` releases it. -/
theorem completeAll_releases_iff_one : ∃ last history,
    pairMachine.run (oneWaits.completeAll ()) [.advance true false] = some (last, history) ∧
      NobodyBlocked () last := by
  have hinit : ∀ action ∈ ([.advance true false] : List (Action Bool Unit Empty Unit)),
      action ≠ .initCompletion () := by
    rintro action hmem rfl
    cases List.mem_singleton.mp hmem
  have hrun : pairMachine.run (oneWaits.completeAll ()) [.advance true false] = some (_, _) := rfl
  refine ⟨_, _, hrun, ((completeAll_releases_iff hinit hrun).mpr ⟨?_, fun pair hpair => ?_⟩).2⟩
  · exact fun _ hzero => absurd hzero (by decide)
  · obtain rfl := List.mem_singleton.mp hpair
    refine fun wait htesting => ⟨fun _ => by decide, fun _ _ other hne hblocked => ?_⟩
    cases other with
    | false =>
        have hidle : (oneWaits.completeAll ()).threads false = .idle := rfl
        simp [State.Blocked, hidle] at hblocked
    | true => exact hne rfl

/-- Two threads wait, and `complete_all` releases one of them. -/
theorem completeAll_blocks : ∃ waiting before last after,
    pairMachine.run (.init ()) [.call false (waitForCompletion ()),
      .call true (waitForCompletion ()), .advance false false, .advance true false] =
        some (waiting, before) ∧
    pairMachine.run (waiting.completeAll ()) [.advance false false] = some (last, after) ∧
    ¬ NobodyBlocked () last := by
  refine ⟨_, _, _, _, rfl, rfl, fun hnobody => ?_⟩
  exact hnobody true (.inr ⟨false, rfl⟩) rfl

end Webcamd.Kernel.Completion
