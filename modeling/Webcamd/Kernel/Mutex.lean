import Webcamd.Library.Machine

/-!
# Mutexes

A model of `mutex_lock`, `mutex_trylock` and `mutex_unlock` of `kernel/linux_thread.c`, and
of the `down` and `up` they are made of.  A mutex is a semaphore that starts at one, with an
owner; a thread that owns it may take it again, and then the semaphore counts below zero.

All of it runs under the recursive lock `atomic_lock`, which a thread may already hold, to
any depth, when it makes a call.  `down` gives the lock up completely while it sleeps
(`atomic_drop`, `atomic_pickup`) and has it again when `pthread_cond_wait` returns.  So a
call is one step, except that it is interrupted where `down` sleeps; a sleeping thread may
be woken at any time, which covers every broadcast and every spurious wakeup.

* `State` — the semaphore, where every thread is, and how often every thread has taken the
  mutex without giving it back (which is the drivers' business, not a field of the mutex).
* `Lock` — what a mutex is for: it is free, or one thread has it, to some depth.
* `MutexRep` — the semaphore as a lock; `mutex_state_machine` draws the conclusions.

The count is an `int32_t`.  A step that would overflow it is undefined in C, and is not
enabled here.
-/

namespace Webcamd.Kernel.Mutex

open Webcamd.Library

/-- The calls that may sleep. -/
inductive Call where
  | lock
  | trylock
  deriving DecidableEq

/-- Where a thread is. -/
inductive Pc where
  | idle
  /-- In `pthread_cond_wait`, in the `down` of this call. -/
  | sleeping (call : Call)
  deriving DecidableEq

structure State (T : Type) where
  /-- `sem.value` -/
  value : ℤ
  /-- `sem.owner`; `none` is `MUTEX_NO_OWNER` -/
  owner : Option T
  threads : T → Pc
  /-- how often the thread has taken the mutex and not yet given it back -/
  held : T → ℕ

inductive Action (T : Type) where
  | mutexLock (thread : T)
  | mutexTrylock (thread : T)
  | mutexUnlock (thread : T)
  /-- `pthread_cond_wait` returns. -/
  | wakeup (thread : T)

inductive Event (T : Type) where
  /-- A call gave the mutex to the thread … -/
  | acquired (thread : T)
  /-- … or the thread gave it back. -/
  | released (thread : T)
  /-- The thread went to sleep in `down`. -/
  | slept (thread : T)
  /-- `mutex_trylock` returns. -/
  | tryReturned (thread : T) (retval : ℤ)
  deriving DecidableEq

/-- What is seen of a call that returns with the mutex. -/
def Call.acquired {T : Type} (thread : T) : Call → List (Event T)
  | .lock => [.acquired thread]
  | .trylock => [.acquired thread, .tryReturned thread 1]

namespace State

variable {T : Type} [DecidableEq T]

/-- `DEFINE_MUTEX` -/
def init : State T where
  value := 1
  owner := none
  threads := fun _ => .idle
  held := fun _ => 0

/-- `sem->value--`, unless it overflows. -/
def decrement (state : State T) : Option (State T) :=
  if -2 ^ 31 < state.value then some { state with value := state.value - 1 } else none

/-- `sem->value++`, unless it overflows. -/
def increment (state : State T) : Option (State T) :=
  if state.value < 2 ^ 31 - 1 then some { state with value := state.value + 1 } else none

/-- The call returns, and the thread has the mutex. -/
def acquire (state : State T) (thread : T) (call : Call) : State T × List (Event T) :=
  ({ state with
      threads := Function.update state.threads thread .idle
      held := Function.update state.held thread (state.held thread + 1) },
    call.acquired thread)

/-- `down(&m->sem); m->sem.owner = self;`, from the test `sem->value <= 0` on. -/
def down (state : State T) (thread : T) (call : Call) :
    Option (State T × List (Event T)) :=
  if state.value ≤ 0 then
    some ({ state with threads := Function.update state.threads thread (.sleeping call) },
      [.slept thread])
  else state.decrement.map fun taken => { taken with owner := some thread }.acquire thread call

/-- `mutex_lock` -/
def mutexLock (state : State T) (thread : T) : Option (State T × List (Event T)) :=
  if state.threads thread = .idle then
    if state.owner = some thread then
      state.decrement.map fun taken => taken.acquire thread .lock
    else state.down thread .lock
  else none

/-- `mutex_trylock` -/
def mutexTrylock (state : State T) (thread : T) : Option (State T × List (Event T)) :=
  if state.threads thread = .idle then
    if state.owner = some thread then
      state.decrement.map fun taken => taken.acquire thread .trylock
    else if state.owner = none then state.down thread .trylock
    else some (state, [.tryReturned thread 0])
  else none

/-- `mutex_unlock`, by a thread that has the mutex. -/
def mutexUnlock (state : State T) (thread : T) : Option (State T × List (Event T)) :=
  if state.threads thread = .idle ∧ 0 < state.held thread then
    state.increment.map fun up =>
      let given : State T := { up with
        held := Function.update state.held thread (state.held thread - 1) }
      (if 0 < given.value then { given with owner := none, value := 1 } else given,
        [.released thread])
  else none

/-- A sleeping thread is back at the test of `down`. -/
def wakeup (state : State T) (thread : T) : Option (State T × List (Event T)) :=
  match state.threads thread with
  | .idle => none
  | .sleeping call => state.down thread call

end State

variable {T : Type} [DecidableEq T]

/-- **The machine**, for any number of threads. -/
def mutexMachine (T : Type) [DecidableEq T] : Machine (State T) (Action T) (Event T) where
  step state
    | .mutexLock thread => state.mutexLock thread
    | .mutexTrylock thread => state.mutexTrylock thread
    | .mutexUnlock thread => state.mutexUnlock thread
    | .wakeup thread => state.wakeup thread

/-! ### Locks -/

/-- What a mutex is for. -/
inductive Lock (T : Type) where
  | free
  /-- The thread has it, and has taken it this many times more. -/
  | held (thread : T) (more : ℕ)

namespace Lock

/-- Who has the lock. -/
def owner : Lock T → Option T
  | .free => none
  | .held thread _ => some thread

/-- How often a thread has the lock. -/
def depth : Lock T → T → ℕ
  | .free => fun _ => 0
  | .held thread more => Function.update (fun _ => 0) thread (more + 1)

/-- The semaphore that counts it. -/
def value : Lock T → ℤ
  | .free => 1
  | .held _ more => -more

theorem depth_held_self (thread : T) (more : ℕ) :
    (held thread more).depth thread = more + 1 := by
  simp [depth]

theorem depth_held_of_ne {thread other : T} (hne : other ≠ thread) (more : ℕ) :
    (held thread more).depth other = 0 := by
  simp [depth, hne]

/-- A thread has the lock exactly if it is its owner. -/
theorem depth_pos_iff (lock : Lock T) (thread : T) :
    0 < lock.depth thread ↔ lock.owner = some thread := by
  cases lock with
  | free => simp [depth, owner]
  | held other more =>
      by_cases heq : thread = other
      · simp [heq, depth, owner]
      · simp [depth_held_of_ne heq, owner, Ne.symm heq]

/-- The count and the depth. -/
theorem value_of_owner {lock : Lock T} {thread : T} (h : lock.owner = some thread) :
    lock.value = 1 - lock.depth thread := by
  cases lock with
  | free => cases h
  | held other more =>
      obtain rfl : other = thread := Option.some.inj h
      rw [depth_held_self, value]
      push_cast
      ring

end Lock

/-- **The semaphore is that of a lock.** -/
structure MutexRep (state : State T) (lock : Lock T) : Prop where
  value : state.value = lock.value
  owner : state.owner = lock.owner
  held : state.held = lock.depth

namespace MutexRep

variable {state next : State T} {lock : Lock T} {events : List (Event T)} {thread : T}
variable {call : Call}

theorem init : MutexRep (State.init : State T) .free := ⟨rfl, rfl, rfl⟩

end MutexRep

/-- **Everything a step can do to the lock.** -/
inductive LockStep (action : Action T) (lock : Lock T) (events : List (Event T)) :
    Lock T → Prop where
  /-- The thread goes to sleep, since another one has the lock … -/
  | sleep (thread : T) (hnot : ∀ other, action ≠ .mutexTrylock other)
      (hevents : events = [.slept thread]) : LockStep action lock events lock
  /-- … or does not try to have it; … -/
  | refuse (thread : T) (howner : lock ≠ .free ∧ lock.owner ≠ some thread)
      (haction : action = .mutexTrylock thread) (hevents : events = [.tryReturned thread 0]) :
      LockStep action lock events lock
  /-- … it takes a free lock … -/
  | take (thread : T) (call : Call) (hfree : lock = .free)
      (haction : ∀ other, action = .mutexTrylock other → other = thread ∧ call = .trylock)
      (hevents : events = call.acquired thread) : LockStep action lock events (.held thread 0)
  /-- … or its own lock again; … -/
  | again (thread : T) (call : Call) (more : ℕ) (hheld : lock = .held thread more)
      (haction : ∀ other, action = .mutexTrylock other → other = thread ∧ call = .trylock)
      (hevents : events = call.acquired thread) :
      LockStep action lock events (.held thread (more + 1))
  /-- … it gives it back once … -/
  | giveOne (thread : T) (more : ℕ) (hheld : lock = .held thread (more + 1))
      (haction : action = .mutexUnlock thread) (hevents : events = [.released thread]) :
      LockStep action lock events (.held thread more)
  /-- … or for good. -/
  | give (thread : T) (hheld : lock = .held thread 0) (haction : action = .mutexUnlock thread)
      (hevents : events = [.released thread]) : LockStep action lock events .free

namespace MutexRep

variable {state next : State T} {lock : Lock T} {events : List (Event T)} {thread : T}
variable {call : Call} {action : Action T}

/-- The semaphore is at most zero exactly if the lock is not free. -/
theorem value_nonpos_iff (h : MutexRep state lock) : state.value ≤ 0 ↔ lock ≠ .free := by
  rw [h.value]
  cases lock with
  | free => simp [Lock.value]
  | held other more => simp [Lock.value]

/-- Taking a free lock. -/
theorem take (h : MutexRep state .free) (call : Call) {taken : State T}
    (htaken : state.decrement = some taken) :
    MutexRep ({ taken with owner := some thread }.acquire thread call).1 (.held thread 0) := by
  have hheld := h.held
  simp only [State.decrement] at htaken
  split at htaken
  · obtain rfl := Option.some.inj htaken
    refine ⟨?_, rfl, ?_⟩
    · simp [State.acquire, h.value, Lock.value]
    · funext other
      by_cases heq : other = thread
      · simp [State.acquire, hheld, heq, Lock.depth]
      · simp [State.acquire, hheld, heq, Lock.depth]
  · cases htaken

/-- Taking one's own lock again. -/
theorem again {more : ℕ} (h : MutexRep state (.held thread more)) (call : Call)
    {taken : State T} (htaken : state.decrement = some taken) :
    MutexRep (taken.acquire thread call).1 (.held thread (more + 1)) := by
  have hheld := h.held
  simp only [State.decrement] at htaken
  split at htaken
  · obtain rfl := Option.some.inj htaken
    refine ⟨?_, h.owner, ?_⟩
    · simp only [State.acquire, h.value, Lock.value]
      push_cast
      ring
    · funext other
      by_cases heq : other = thread
      · simp [State.acquire, hheld, heq, Lock.depth]
      · simp [State.acquire, hheld, heq, Lock.depth]
  · cases htaken

/-- `down`, by a thread that does not own the mutex. -/
theorem down (h : MutexRep state lock) (hdown : state.down thread call = some (next, events))
    (hcall : ∀ other, action = .mutexTrylock other → other = thread ∧ call = .trylock)
    (hfree : ∀ other, action = .mutexTrylock other → lock = .free) :
    ∃ lock', MutexRep next lock' ∧ LockStep action lock events lock' := by
  rw [State.down] at hdown
  split at hdown
  · rename_i hvalue
    obtain ⟨rfl, rfl⟩ := Prod.mk.inj (Option.some.inj hdown)
    have hheld := h.value_nonpos_iff.mp hvalue
    exact ⟨lock, ⟨h.value, h.owner, h.held⟩,
      .sleep thread (fun other heq => hheld (hfree other heq)) rfl⟩
  · rename_i hvalue
    have hlock : lock = .free := by
      by_contra hne
      exact hvalue (h.value_nonpos_iff.mpr hne)
    subst hlock
    obtain ⟨taken, htaken, heq⟩ := Option.map_eq_some_iff.mp hdown
    obtain ⟨rfl, rfl⟩ := Prod.mk.inj heq
    exact ⟨_, h.take call htaken, .take thread call rfl hcall rfl⟩

/-- A thread that owns the mutex takes it again. -/
theorem own (h : MutexRep state lock) (howner : state.owner = some thread)
    (hstep : (state.decrement.map fun taken => taken.acquire thread call) =
      some (next, events))
    (hcall : ∀ other, action = .mutexTrylock other → other = thread ∧ call = .trylock) :
    ∃ lock', MutexRep next lock' ∧ LockStep action lock events lock' := by
  obtain ⟨taken, htaken, heq⟩ := Option.map_eq_some_iff.mp hstep
  obtain ⟨rfl, rfl⟩ := Prod.mk.inj heq
  cases lock with
  | free =>
      rw [h.owner] at howner
      cases howner
  | held other more =>
      obtain rfl : other = thread := by
        rw [h.owner] at howner
        exact Option.some.inj howner
      exact ⟨_, h.again call htaken, .again other call more rfl hcall rfl⟩

/-- `mutex_unlock`, by a thread that has the mutex. -/
theorem unlock (h : MutexRep state lock)
    (hstep : state.mutexUnlock thread = some (next, events)) :
    ∃ lock', MutexRep next lock' ∧ LockStep (.mutexUnlock thread) lock events lock' := by
  rw [State.mutexUnlock] at hstep
  split at hstep
  · rename_i hidle
    obtain ⟨up, hup, heq⟩ := Option.map_eq_some_iff.mp hstep
    obtain ⟨rfl, rfl⟩ := Prod.mk.inj heq
    have hpos := hidle.2
    rw [h.held, Lock.depth_pos_iff] at hpos
    simp only [State.increment] at hup
    split at hup
    · obtain rfl := Option.some.inj hup
      cases lock with
      | free => cases hpos
      | held other more =>
          obtain rfl : other = thread := Option.some.inj hpos
          have hheld := h.held
          have hvalue : state.value = -(more : ℤ) := h.value
          cases more with
          | zero =>
              have hone : (0 : ℤ) < state.value + 1 := by
                rw [hvalue]
                decide
              refine ⟨.free, ⟨?_, ?_, ?_⟩, .give other rfl rfl rfl⟩
              · simp only [if_pos hone]
                rfl
              · simp only [if_pos hone]
                rfl
              · simp only [if_pos hone]
                funext thread
                by_cases hother : thread = other
                · simp [hheld, hother, Lock.depth]
                · simp [hheld, hother, Lock.depth]
          | succ more =>
              have hmore : ¬ (0 : ℤ) < state.value + 1 := by
                rw [hvalue]
                push_cast
                omega
              refine ⟨.held other more, ⟨?_, ?_, ?_⟩, .giveOne other more rfl rfl rfl⟩
              · simp only [if_neg hmore]
                show state.value + 1 = -(more : ℤ)
                rw [hvalue]
                push_cast
                ring
              · simp only [if_neg hmore]
                exact h.owner
              · simp only [if_neg hmore]
                funext thread
                by_cases hother : thread = other
                · simp [hheld, hother, Lock.depth]
                · simp [hheld, hother, Lock.depth]
    · cases hup
  · cases hstep

/-- **Every step is a step of the lock.** -/
theorem step (h : MutexRep state lock)
    (hstep : (mutexMachine T).step state action = some (next, events)) :
    ∃ lock', MutexRep next lock' ∧ LockStep action lock events lock' := by
  cases action with
  | mutexLock thread =>
      replace hstep : state.mutexLock thread = some (next, events) := hstep
      rw [State.mutexLock] at hstep
      split at hstep
      · split at hstep
        · rename_i howner
          exact h.own howner hstep (by simp)
        · exact h.down hstep (by simp) (by simp)
      · cases hstep
  | mutexTrylock thread =>
      replace hstep : state.mutexTrylock thread = some (next, events) := hstep
      have hcall : ∀ other, Action.mutexTrylock thread = .mutexTrylock other →
          other = thread ∧ Call.trylock = .trylock := by simp [eq_comm]
      rw [State.mutexTrylock] at hstep
      split at hstep
      · split at hstep
        · rename_i howner
          exact h.own howner hstep hcall
        · rename_i hother
          split at hstep
          · -- the owner field alone says that the mutex is free
            rename_i hnone
            have hfree : lock = .free := by
              cases lock with
              | free => rfl
              | held owner more =>
                  rw [h.owner] at hnone
                  cases hnone
            exact h.down hstep hcall fun _ _ => hfree
          · rename_i hsome
            obtain ⟨rfl, rfl⟩ := Prod.mk.inj (Option.some.inj hstep)
            rw [h.owner] at hother hsome
            refine ⟨lock, h, .refuse thread ⟨?_, hother⟩ rfl rfl⟩
            rintro rfl
            exact hsome rfl
      · cases hstep
  | mutexUnlock thread => exact h.unlock hstep
  | wakeup thread =>
      replace hstep : state.wakeup thread = some (next, events) := hstep
      rw [State.wakeup] at hstep
      split at hstep
      · cases hstep
      · exact h.down hstep (by simp) (by simp)

end MutexRep

/-! ### Runs -/

/-- The lock's depth is what the history adds up to. -/
theorem LockStep.count {action : Action T} {lock lock' : Lock T} {events : List (Event T)}
    (h : LockStep action lock events lock') (thread : T) :
    lock'.depth thread + events.count (.released thread) =
      lock.depth thread + events.count (.acquired thread) := by
  have hcall : ∀ (call : Call) (other : T),
      (call.acquired other).count (.released thread) = 0 ∧
        (call.acquired other).count (.acquired thread) = if thread = other then 1 else 0 := by
    intro call other
    by_cases heq : thread = other
    · cases call <;> simp [Call.acquired, heq]
    · cases call <;> simp [Call.acquired, heq, Ne.symm heq]
  cases h with
  | sleep other hnot hevents => simp [hevents]
  | refuse other howner haction hevents => simp [hevents]
  | take other call hfree haction hevents =>
      rw [hevents, (hcall call other).1, (hcall call other).2, hfree]
      by_cases heq : thread = other
      · simp [Lock.depth, heq]
      · simp [Lock.depth, heq]
  | again other call more hheld haction hevents =>
      rw [hevents, (hcall call other).1, (hcall call other).2, hheld]
      by_cases heq : thread = other
      · simp [Lock.depth, heq]
      · simp [Lock.depth, heq]
  | giveOne other more hheld haction hevents =>
      rw [hevents, hheld]
      by_cases heq : thread = other
      · simp [Lock.depth, heq]
      · simp [Lock.depth, heq, Ne.symm heq]
  | give other hheld haction hevents =>
      rw [hevents, hheld]
      by_cases heq : thread = other
      · simp [Lock.depth, heq]
      · simp [Lock.depth, heq, Ne.symm heq]

/-- **In every run the semaphore is that of a lock**, whose depth is the number of
acquisitions less the number of releases. -/
theorem run_rep {schedule : List (Action T)} {last : State T} {history : List (Event T)}
    (hrun : (mutexMachine T).run .init schedule = some (last, history)) :
    ∃ lock, MutexRep last lock ∧ ∀ thread,
      lock.depth thread + history.count (.released thread) =
        history.count (.acquired thread) := by
  have hstart : ∃ lock, MutexRep (State.init : State T) lock ∧ ∀ thread,
      lock.depth thread + ([] : List (Event T)).count (.released thread) =
        ([] : List (Event T)).count (.acquired thread) :=
    ⟨.free, MutexRep.init, fun _ => rfl⟩
  have hinv := (mutexMachine T).run_invariant
    (P := fun state past => ∃ lock, MutexRep state lock ∧ ∀ thread,
      lock.depth thread + past.count (.released thread) = past.count (.acquired thread))
    (fun {state past action next events} ⟨lock, hrep, hpast⟩ hstep => by
      obtain ⟨lock', hrep', hlock⟩ := hrep.step hstep
      refine ⟨lock', hrep', fun thread => ?_⟩
      have hevents := hlock.count thread
      have hbefore := hpast thread
      rw [List.count_append, List.count_append]
      omega)
    hstart hrun
  simpa using hinv

omit [DecidableEq T] in
/-- What a `mutex_trylock` does when it is made in a state of a lock: it returns, it does
not sleep, and it returns one exactly if the lock is free or the caller's. -/
theorem LockStep.trylock {lock lock' : Lock T} {events : List (Event T)} {thread : T}
    (h : LockStep (.mutexTrylock thread) lock events lock') :
    (∀ other, .slept other ∉ events) ∧
      ((lock = .free ∨ lock.owner = some thread) ∧ .tryReturned thread 1 ∈ events ∨
        ¬ (lock = .free ∨ lock.owner = some thread) ∧ events = [.tryReturned thread 0]) := by
  cases h with
  | sleep other hnot => exact absurd rfl (hnot thread)
  | refuse other howner haction hevents =>
      obtain rfl : thread = other := by simpa using haction
      refine ⟨by simp [hevents], Or.inr ⟨?_, hevents⟩⟩
      rintro (hfree | hown)
      · exact howner.1 hfree
      · exact howner.2 hown
  | take other call hfree haction hevents =>
      obtain ⟨rfl, rfl⟩ := haction thread rfl
      exact ⟨by simp [hevents, Call.acquired],
        Or.inl ⟨Or.inl hfree, by simp [hevents, Call.acquired]⟩⟩
  | again other call more hheld haction hevents =>
      obtain ⟨rfl, rfl⟩ := haction thread rfl
      exact ⟨by simp [hevents, Call.acquired],
        Or.inl ⟨Or.inr (by rw [hheld]; rfl), by simp [hevents, Call.acquired]⟩⟩
  | giveOne other more hheld haction => cases haction
  | give other hheld haction => cases haction

/-- A thread that is not in a call can make one. -/
theorem State.mutexTrylock_isSome {thread : T} (state : State T)
    (hidle : state.threads thread = .idle) (hvalue : -2 ^ 31 < state.value) :
    (state.mutexTrylock thread).isSome = true := by
  have hdecrement : state.decrement.isSome = true := by
    rw [State.decrement, if_pos hvalue]
    rfl
  rw [State.mutexTrylock, if_pos hidle]
  split
  · simpa using hdecrement
  · split
    · rw [State.down]
      split
      · rfl
      · simpa using hdecrement
    · rfl

/-- **The mutex as a state machine.**  In every run, whatever the interleaving: at most one
thread has the mutex; if a thread has it, to some depth, it is the owner and the count is one
less the depth; if nobody has it, it has no owner and the count is one.  The depth of a thread
is the number of its acquisitions less the number of its releases.  A `mutex_trylock` made in
such a state goes through (unless the count overflows), never sleeps, and returns one exactly
if the mutex is free or the caller's, and zero otherwise. -/
theorem mutex_state_machine {schedule : List (Action T)} {last : State T}
    {history : List (Event T)}
    (hrun : (mutexMachine T).run .init schedule = some (last, history)) :
    (∀ thread other, 0 < last.held thread → 0 < last.held other → thread = other) ∧
    (∀ thread, 0 < last.held thread →
      last.owner = some thread ∧ last.value = 1 - last.held thread) ∧
    ((∀ thread, last.held thread = 0) → last.owner = none ∧ last.value = 1) ∧
    (∀ thread, last.held thread + history.count (.released thread) =
      history.count (.acquired thread)) ∧
    ∀ thread, last.threads thread = .idle →
      (-2 ^ 31 < last.value → ∃ next events,
        (mutexMachine T).step last (.mutexTrylock thread) = some (next, events)) ∧
      ∀ next events, (mutexMachine T).step last (.mutexTrylock thread) = some (next, events) →
        (∀ other, .slept other ∉ events) ∧
        (((∀ other, last.held other = 0) ∨ 0 < last.held thread) ∧
            .tryReturned thread 1 ∈ events ∨
          ¬ ((∀ other, last.held other = 0) ∨ 0 < last.held thread) ∧
            events = [.tryReturned thread 0]) := by
  obtain ⟨lock, hrep, hcount⟩ := run_rep hrun
  have howner : ∀ thread, 0 < last.held thread → lock.owner = some thread := by
    intro thread hpos
    rwa [hrep.held, Lock.depth_pos_iff] at hpos
  have hfree : (∀ thread, last.held thread = 0) ↔ lock = .free := by
    rw [hrep.held]
    cases lock with
    | free => simp [Lock.depth]
    | held owner more =>
        refine iff_of_false (fun hnone => ?_) (by simp)
        have hself := hnone owner
        rw [Lock.depth_held_self] at hself
        omega
  refine ⟨fun thread other hthread hother => ?_, fun thread hpos => ?_, fun hnone => ?_, ?_, ?_⟩
  · exact Option.some.inj ((howner thread hthread).symm.trans (howner other hother))
  · rw [hrep.owner, hrep.value, hrep.held]
    exact ⟨howner thread hpos, Lock.value_of_owner (howner thread hpos)⟩
  · rw [hrep.owner, hrep.value, hfree.mp hnone]
    exact ⟨rfl, rfl⟩
  · rw [hrep.held]
    exact hcount
  · intro thread hidle
    refine ⟨fun hvalue => ?_, fun next events hstep => ?_⟩
    · obtain ⟨⟨next, events⟩, hstep⟩ :=
        Option.isSome_iff_exists.mp (last.mutexTrylock_isSome hidle hvalue)
      exact ⟨next, events, hstep⟩
    · obtain ⟨lock', -, hlock⟩ := hrep.step hstep
      have hmine : 0 < last.held thread ↔ lock.owner = some thread := by
        rw [hrep.held, Lock.depth_pos_iff]
      rw [hfree, hmine]
      exact hlock.trylock

/-- One thread takes the mutex twice and gives it back once; the other one tries to take it,
and then sleeps for it. -/
def contended : List (Action Bool) :=
  [.mutexLock true, .mutexLock true, .mutexTrylock false, .mutexLock false,
    .mutexUnlock true, .wakeup false]

def contendedHistory : List (Event Bool) :=
  [.acquired true, .acquired true, .tryReturned false 0, .slept false, .released true,
    .slept false]

theorem mutex_state_machine_contended : ∃ last,
    (mutexMachine Bool).run .init contended = some (last, contendedHistory) ∧
      last.owner = some true ∧ last.value = 1 - last.held true := by
  have hrun := (mutexMachine Bool).run_eq_after
    (by decide : ((mutexMachine Bool).run .init contended).isSome = true)
    (by decide : _ = some contendedHistory)
  exact ⟨_, hrun, (mutex_state_machine hrun).2.1 true (by decide)⟩

end Webcamd.Kernel.Mutex
