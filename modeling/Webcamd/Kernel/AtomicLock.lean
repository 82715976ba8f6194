import Webcamd.Library.Machine

/-!
# The global lock

`atomic_lock` and `atomic_unlock` of `kernel/linux_thread.c`, and everything that sleeps on
the lock they take: `__wait_event`, `__wait_event_timed`, `down`, `schedule_timeout`,
`flush_scheduled_work` and the wait of `work_exec` (the last two in `kernel/linux_task.c`).

The lock is a recursive mutex, and beside it the program counts, in one variable
`atomic_recurse`, how often it is held.  A call that sleeps first unlocks down to one hold
(`atomic_drop`), gives up the last hold, and takes all of them again afterwards
(`atomic_pickup`).  One step of the model is one operation on the mutex, with the code up to
the next one, so calls are interleaved wherever the lock is free.

* `GlobalLock` — the mutex as POSIX has it, and `atomic_recurse`.
* `Call`, `Pc` — the calls, and where a thread is in one.
* `State` — the lock, what the calls test, and where every thread is; `nest` is how often a
  thread has locked and not yet unlocked, outside the calls.
* `Pc.Stands` — how often a thread holds the mutex, at each point of a call.
* `LockInv` — the lock is consistent and every thread stands where its program counter says;
  `atomic_lock_depth` concludes.

A recursive mutex has a largest count, `limit`; what `pthread_mutex_lock` does beyond it (an
error that `atomic_lock` does not look at) is not enabled here.  To wait for a condition with a
mutex that is not held exactly once is undefined, and a state of its own.
-/

namespace Webcamd.Kernel.AtomicLock

open Webcamd.Library

/-! ### The lock -/

/-- `atomic_mutex` and `atomic_recurse`. -/
structure GlobalLock (T : Type) where
  owner : Option T
  /-- how often the owner has locked the mutex -/
  count : ℕ
  /-- `atomic_recurse` -/
  recurse : BitVec 32

namespace GlobalLock

variable {T : Type} [DecidableEq T]

def free : GlobalLock T where
  owner := none
  count := 0
  recurse := 0

/-- How often the thread holds the mutex. -/
def held (lock : GlobalLock T) (thread : T) : ℕ :=
  if lock.owner = some thread then lock.count else 0

/-- `pthread_mutex_lock` -/
def mutexLock (lock : GlobalLock T) (limit : ℕ) (thread : T) : Option (GlobalLock T) :=
  if (lock.owner = none ∨ lock.owner = some thread) ∧ lock.count < limit then
    some { lock with owner := some thread, count := lock.count + 1 }
  else none

/-- `pthread_mutex_unlock`; only the owner can. -/
def mutexUnlock (lock : GlobalLock T) (thread : T) : GlobalLock T :=
  if lock.owner = some thread then
    { lock with
      owner := if lock.count = 1 then none else some thread
      count := lock.count - 1 }
  else lock

/-- `atomic_pre_sleep` -/
def preSleep (lock : GlobalLock T) : GlobalLock T :=
  { lock with recurse := lock.recurse - 1 }

/-- `atomic_post_sleep` -/
def postSleep (lock : GlobalLock T) : GlobalLock T :=
  { lock with recurse := lock.recurse + 1 }

/-- `atomic_lock` -/
def atomicLock (lock : GlobalLock T) (limit : ℕ) (thread : T) : Option (GlobalLock T) :=
  (lock.mutexLock limit thread).map fun locked => { locked with recurse := locked.recurse + 1 }

/-- `atomic_unlock` -/
def atomicUnlock (lock : GlobalLock T) (thread : T) : GlobalLock T :=
  ({ lock with recurse := lock.recurse - 1 } : GlobalLock T).mutexUnlock thread

/-- `pthread_cond_wait` until it blocks: `none` where it is undefined. -/
def condWait (lock : GlobalLock T) (thread : T) : Option (GlobalLock T) :=
  if lock.owner = some thread ∧ lock.count = 1 then some (lock.mutexUnlock thread) else none

/-- The counter counts the holds, and the mutex has an owner while there are any. -/
structure Ok (lock : GlobalLock T) (limit : ℕ) : Prop where
  recurse : lock.recurse.toNat = lock.count
  owner : lock.owner = none ↔ lock.count = 0
  count : lock.count ≤ limit

/-- A thread now has this many holds, and nothing else changed. -/
structure Shifts (lock lock' : GlobalLock T) (limit : ℕ) (thread : T) (holds : ℕ) : Prop where
  ok : lock'.Ok limit
  held : lock'.held thread = holds
  others : ∀ other, other ≠ thread → lock'.held other = lock.held other

variable {lock lock' : GlobalLock T} {limit : ℕ} {thread : T}

omit [DecidableEq T] in
theorem Ok.free : (free : GlobalLock T).Ok limit where
  recurse := rfl
  owner := by simp [GlobalLock.free]
  count := Nat.zero_le limit

theorem held_of_owner (howner : lock.owner = some thread) : lock.held thread = lock.count :=
  if_pos howner

theorem held_of_ne (howner : lock.owner ≠ some thread) : lock.held thread = 0 :=
  if_neg howner

/-- A thread that holds the mutex is its owner. -/
theorem owner_of_held (hheld : 0 < lock.held thread) : lock.owner = some thread := by
  by_contra howner
  rw [held_of_ne howner] at hheld
  exact absurd hheld (lt_irrefl 0)

/-- No other thread holds a mutex that has an owner. -/
theorem held_eq_zero {other : T} (howner : lock.owner = some thread) (hne : other ≠ thread) :
    lock.held other = 0 := by
  refine held_of_ne fun hother => hne ?_
  exact (Option.some.inj (howner.symm.trans hother)).symm

/-- A thread that can lock holds all there is to hold. -/
theorem Ok.count_eq (h : lock.Ok limit) (howner : lock.owner = none ∨ lock.owner = some thread) :
    lock.count = lock.held thread := by
  rcases howner with hnone | hself
  · rw [held_of_ne (by simp [hnone])]
    exact h.owner.mp hnone
  · exact (held_of_owner hself).symm

theorem Ok.atomicLock (h : lock.Ok limit) (hlimit : limit < 2 ^ 32)
    (hlock : lock.atomicLock limit thread = some lock') :
    Shifts lock lock' limit thread (lock.held thread + 1) := by
  unfold GlobalLock.atomicLock GlobalLock.mutexLock at hlock
  split at hlock
  · rename_i hcan
    have hcount := h.count_eq hcan.1
    have hrecurse := h.recurse
    obtain rfl := Option.some.inj hlock
    refine ⟨⟨?_, by simp, hcan.2⟩, ?_, fun other hne => ?_⟩
    · show (lock.recurse + 1).toNat = lock.count + 1
      rw [BitVec.toNat_add, hrecurse]
      exact Nat.mod_eq_of_lt (show lock.count + 1 < 2 ^ 32 by omega)
    · rw [held_of_owner rfl, ← hcount]
    · rw [held_eq_zero rfl hne]
      rcases hcan.1 with hnone | hself
      · exact (held_of_ne (by simp [hnone])).symm
      · exact (held_eq_zero hself hne).symm
  · cases hlock

theorem Ok.atomicUnlock (h : lock.Ok limit) (hheld : 0 < lock.held thread) :
    Shifts lock (lock.atomicUnlock thread) limit thread (lock.held thread - 1) := by
  have howner := owner_of_held hheld
  have hcount := h.recurse
  have hmax := h.count
  rw [held_of_owner howner] at hheld ⊢
  have hrecurse : (lock.recurse - 1).toNat = lock.count - 1 := by
    rw [BitVec.toNat_sub, hcount]
    show (2 ^ 32 - 1 + lock.count) % 2 ^ 32 = lock.count - 1
    omega
  by_cases hone : lock.count = 1
  · have heq : lock.atomicUnlock thread = ⟨none, lock.count - 1, lock.recurse - 1⟩ := by
      simp [GlobalLock.atomicUnlock, mutexUnlock, howner, hone]
    rw [heq]
    refine ⟨⟨hrecurse, by simp [hone], (Nat.sub_le _ _).trans hmax⟩, ?_, fun other hne => ?_⟩
    · rw [held_of_ne (by simp), hone]
    · rw [held_of_ne (by simp), held_eq_zero howner hne]
  · have heq : lock.atomicUnlock thread =
        ⟨some thread, lock.count - 1, lock.recurse - 1⟩ := by
      simp [GlobalLock.atomicUnlock, mutexUnlock, howner, hone]
    rw [heq]
    refine ⟨⟨hrecurse, ?_, (Nat.sub_le _ _).trans hmax⟩, held_of_owner rfl, fun other hne => ?_⟩
    · simp only [reduceCtorEq, false_iff]
      omega
    · rw [held_eq_zero rfl hne, held_eq_zero howner hne]

/-- With one hold, waiting for a condition is defined, and gives it up as unlocking does. -/
theorem condWait_preSleep (hheld : lock.held thread = 1) :
    lock.preSleep.condWait thread = some (lock.atomicUnlock thread) := by
  have howner := owner_of_held (show 0 < lock.held thread by omega)
  rw [held_of_owner howner] at hheld
  exact if_pos ⟨howner, hheld⟩

/-- Leaving `pthread_cond_wait` takes the mutex as locking does. -/
theorem map_postSleep_mutexLock :
    (lock.mutexLock limit thread).map postSleep = lock.atomicLock limit thread := rfl

/-- A thread that holds the lock once sees a count of one. -/
theorem Ok.recurse_of_held (h : lock.Ok limit) (hheld : 0 < lock.held thread) :
    lock.recurse.toNat = lock.held thread := by
  rw [held_of_owner (owner_of_held hheld)]
  exact h.recurse

end GlobalLock

/-! ### Calls -/

/-- The calls that sleep, and `up`, which lets a `down` end.  `workWait` is the wait of
`work_exec`; `__wait_event` may have no queue. -/
inductive Call (S Q : Type) where
  | waitEvent (q : Option Q)
  | waitEventTimed (q : Q)
  | down (sem : S)
  | up (sem : S)
  | scheduleTimeout
  | flushScheduledWork
  | workWait
  deriving DecidableEq

namespace Call

variable {S Q : Type}

/-- The call itself locks around everything it does. -/
def locks : Call S Q → Bool
  | .waitEvent _ | .waitEventTimed _ | .workWait => false
  | .down _ | .up _ | .scheduleTimeout | .flushScheduledWork => true

/-- The call is a loop that tests something before it sleeps, or an `up`. -/
def tests : Call S Q → Bool
  | .down _ | .up _ | .flushScheduledWork => true
  | .waitEvent _ | .waitEventTimed _ | .scheduleTimeout | .workWait => false

/-- The call sleeps in `pthread_cond_wait`, not in `usleep`. -/
def onCondition : Call S Q → Bool
  | .waitEvent _ | .waitEventTimed _ | .down _ | .workWait => true
  | .up _ | .scheduleTimeout | .flushScheduledWork => false

/-- The wait queue that counts its sleepers. -/
def queue : Call S Q → Option Q
  | .waitEvent q => q
  | .waitEventTimed q => some q
  | .down _ | .up _ | .scheduleTimeout | .flushScheduledWork | .workWait => none

/-- How often the lock is held in the call, before anything is dropped. -/
def base (call : Call S Q) (nest : ℕ) : ℕ :=
  if call.locks then nest + 1 else nest

end Call

/-- Where a thread is. -/
inductive Pc (S Q : Type) where
  /-- Not in a call. -/
  | ready
  /-- Before the `atomic_lock` the call starts with. -/
  | entry (call : Call S Q)
  /-- At the test of the call's loop. -/
  | test (call : Call S Q)
  /-- In `atomic_drop`, after this many drops. -/
  | drop (call : Call S Q) (drops : ℕ)
  /-- About to give up the last hold. -/
  | release (call : Call S Q) (drops : ℕ)
  /-- In `pthread_cond_wait` or `usleep`. -/
  | asleep (call : Call S Q) (drops : ℕ)
  /-- In `atomic_pickup`, with this many holds to take. -/
  | pickup (call : Call S Q) (drops : ℕ)
  /-- Before the `atomic_unlock` the call ends with. -/
  | leave (call : Call S Q)
  /-- Waiting for a condition with a mutex that was not held exactly once. -/
  | undefined
  deriving DecidableEq

/-- The call a thread is in. -/
def Pc.call {S Q : Type} : Pc S Q → Option (Call S Q)
  | .ready | .undefined => none
  | .entry call | .test call | .drop call _ | .release call _ | .asleep call _ | .pickup call _
  | .leave call => some call

/-- Where `work_exec` is. -/
inductive WorkPc where
  /-- Before its `atomic_lock`. -/
  | start
  /-- In its loop, with the lock held. -/
  | loop
  /-- In a work function. -/
  | running
  deriving DecidableEq

structure State (S Q T : Type) where
  lock : GlobalLock T
  threads : T → Pc S Q
  /-- how often the thread has locked and not yet unlocked, outside the calls -/
  nest : T → ℕ
  work : WorkPc
  /-- `sem->value` -/
  value : S → ℤ
  /-- `q->sleep_count` -/
  sleepCount : Q → ℤ
  flushWorkVar : ℤ

inductive Action (S Q T : Type) where
  /-- `atomic_lock` and `atomic_unlock`, outside the calls -/
  | atomicLock (thread : T)
  | atomicUnlock (thread : T)
  | invoke (thread : T) (call : Call S Q)
  /-- The next step of the call the thread is in. -/
  | advance (thread : T)
  /-- The next step of `work_exec`, which in its loop finds some work or none. -/
  | workExec (found : Bool)

inductive Event (S Q T : Type) where
  /-- The thread makes a call, or returns from it, with the lock held to this depth. -/
  | called (thread : T) (call : Call S Q) (depth : ℕ)
  | returned (thread : T) (call : Call S Q) (depth : ℕ)
  deriving DecidableEq

/-! ### Steps -/

/-- Where a call starts. -/
def Call.first {S Q : Type} (call : Call S Q) : Pc S Q :=
  if call.locks then .entry call else .drop call 0

/-- Where a call is when it has taken the lock. -/
def Call.locked {S Q : Type} (call : Call S Q) : Pc S Q :=
  if call.tests then .test call else .drop call 0

/-- Where a call is when it has slept and taken all its holds again. -/
def Call.awake {S Q : Type} (call : Call S Q) : Pc S Q :=
  if call.tests then .test call else if call.locks then .leave call else .ready

namespace State

variable {S Q T : Type} [DecidableEq S] [DecidableEq Q] [DecidableEq T]

def init (initial : S → ℤ) : State S Q T where
  lock := .free
  threads := fun _ => .ready
  nest := fun _ => 0
  work := .start
  value := initial
  sleepCount := fun _ => 0
  flushWorkVar := 0

def setLock (state : State S Q T) (lock : GlobalLock T) : State S Q T :=
  { state with lock := lock }

def goto (state : State S Q T) (thread : T) (pc : Pc S Q) : State S Q T :=
  { state with threads := Function.update state.threads thread pc }

def setNest (state : State S Q T) (thread : T) (nest : ℕ) : State S Q T :=
  { state with nest := Function.update state.nest thread nest }

def setValue (state : State S Q T) (sem : S) (value : ℤ) : State S Q T :=
  { state with value := Function.update state.value sem value }

/-- `if (q != NULL) q->sleep_count += change;` -/
def addSleepers (state : State S Q T) (q : Option Q) (change : ℤ) : State S Q T :=
  match q with
  | none => state
  | some q =>
      { state with
        sleepCount := Function.update state.sleepCount q (state.sleepCount q + change) }

/-- The thread is in code of its own: in no call, and if it is the worker, in a work
function. -/
def Free (state : State S Q T) (worker thread : T) : Prop :=
  state.threads thread = .ready ∧ (thread = worker → state.work = .running)

instance (state : State S Q T) (worker thread : T) : Decidable (state.Free worker thread) :=
  inferInstanceAs (Decidable (_ ∧ _))

/-- A thread locks, outside the calls. -/
def atomicLock (state : State S Q T) (limit : ℕ) (thread : T) : Option (State S Q T) :=
  (state.lock.atomicLock limit thread).map fun lock =>
    (state.setLock lock).setNest thread (state.nest thread + 1)

/-- A thread unlocks, outside the calls. -/
def atomicUnlock (state : State S Q T) (thread : T) : State S Q T :=
  (state.setLock (state.lock.atomicUnlock thread)).setNest thread (state.nest thread - 1)

/-- The test in the loop of `down` and `flush_scheduled_work`, and what `up` does. -/
def test (state : State S Q T) (thread : T) : Call S Q → Option (State S Q T)
  | .down sem =>
      if state.value sem ≤ 0 then some (state.goto thread (.drop (.down sem) 0))
      else some ((state.setValue sem (state.value sem - 1)).goto thread (.leave (.down sem)))
  | .up sem => some ((state.setValue sem (state.value sem + 1)).goto thread (.leave (.up sem)))
  | .flushScheduledWork =>
      if state.flushWorkVar = 0 then some (state.goto thread (.leave .flushScheduledWork))
      else some (state.goto thread (.drop .flushScheduledWork 0))
  | .waitEvent _ | .waitEventTimed _ | .scheduleTimeout | .workWait => none

/-- Give up the last hold: in `pthread_cond_wait`, after `atomic_pre_sleep` and
`q->sleep_count++`, or by unlocking. -/
def release (state : State S Q T) (thread : T) (call : Call S Q) (drops : ℕ) :
    State S Q T :=
  if call.onCondition then
    match state.lock.preSleep.condWait thread with
    | some lock =>
        ((state.setLock lock).addSleepers call.queue 1).goto thread (.asleep call drops)
    | none => state.goto thread .undefined
  else (state.setLock (state.lock.atomicUnlock thread)).goto thread (.asleep call drops)

/-- Take the first hold again: on return from `pthread_cond_wait`, with `q->sleep_count--`
and `atomic_post_sleep`, or by locking. -/
def wake (state : State S Q T) (limit : ℕ) (thread : T) (call : Call S Q) (drops : ℕ) :
    Option (State S Q T) :=
  if call.onCondition then
    (state.lock.mutexLock limit thread).map fun lock =>
      ((state.setLock lock.postSleep).addSleepers call.queue (-1)).goto thread
        (.pickup call drops)
  else
    (state.lock.atomicLock limit thread).map fun lock =>
      (state.setLock lock).goto thread (.pickup call drops)

/-- What is seen when a call ends, with the lock as it leaves it. -/
def returned (lock : GlobalLock T) (thread : T) (call : Call S Q) : List (Event S Q T) :=
  [.returned thread call (lock.held thread)]

/-- A step of the call a thread is in. -/
def advance (state : State S Q T) (limit : ℕ) (thread : T) :
    Option (State S Q T × List (Event S Q T)) :=
  match state.threads thread with
  | .ready | .undefined => none
  | .entry call =>
      (state.lock.atomicLock limit thread).map fun lock =>
        let locked := (state.setLock lock).goto thread call.locked
        (if call = .flushScheduledWork then { locked with flushWorkVar := 1 } else locked, [])
  | .test call => (state.test thread call).map fun tested => (tested, [])
  | .drop call drops =>
      if 1 < state.lock.recurse.toNat then
        some ((state.setLock (state.lock.atomicUnlock thread)).goto thread
          (.drop call (drops + 1)), [])
      else some (state.goto thread (.release call drops), [])
  | .release call drops => some (state.release thread call drops, [])
  | .asleep call drops => (state.wake limit thread call drops).map fun woken => (woken, [])
  | .pickup call 0 =>
      some (state.goto thread call.awake,
        if call.awake = .ready then returned state.lock thread call else [])
  | .pickup call (drops + 1) =>
      (state.lock.atomicLock limit thread).map fun lock =>
        ((state.setLock lock).goto thread (.pickup call drops), [])
  | .leave call =>
      some ((state.setLock (state.lock.atomicUnlock thread)).goto thread .ready,
        returned (state.lock.atomicUnlock thread) thread call)

/-- A thread makes a call. -/
def invoke (state : State S Q T) (worker thread : T) (call : Call S Q) :
    Option (State S Q T × List (Event S Q T)) :=
  -- `__wait_event` is called with the lock held, and `workWait` by `work_exec` alone
  if state.Free worker thread ∧ call ≠ .workWait ∧
      (call.locks = true ∨ 0 < state.nest thread) then
    some (state.goto thread call.first, [.called thread call (state.lock.held thread)])
  else none

/-- A step of `work_exec`. -/
def workExec (state : State S Q T) (limit : ℕ) (worker : T) (found : Bool) :
    Option (State S Q T × List (Event S Q T)) :=
  if state.threads worker = .ready then
    match state.work with
    | .start =>
        (state.atomicLock limit worker).map fun locked => ({ locked with work := .loop }, [])
    | .loop =>
        if found then some ({ state.atomicUnlock worker with work := .running }, [])
        else
          some ({ state with flushWorkVar := 0 }.goto worker (.release .workWait 0),
            [.called worker .workWait (state.lock.held worker)])
    | .running =>
        -- a work function leaves the lock as it found it
        if state.nest worker = 0 then
          (state.atomicLock limit worker).map fun locked => ({ locked with work := .loop }, [])
        else none
  else none

end State

variable {S Q T : Type} [DecidableEq S] [DecidableEq Q] [DecidableEq T]

/-- **The machine**: any number of threads, one of which runs `work_exec`. -/
def lockMachine (S Q : Type) {T : Type} [DecidableEq S] [DecidableEq Q] [DecidableEq T]
    (worker : T) (limit : ℕ) :
    Machine (State S Q T) (Action S Q T) (Event S Q T) where
  step state
    | .atomicLock thread =>
        if state.Free worker thread then
          (state.atomicLock limit thread).map fun locked => (locked, [])
        else none
    | .atomicUnlock thread =>
        if state.Free worker thread ∧ 0 < state.nest thread then
          some (state.atomicUnlock thread, [])
        else none
    | .invoke thread call => state.invoke worker thread call
    | .advance thread => state.advance limit thread
    | .workExec found => state.workExec limit worker found

/-! ### What a step does to its thread -/

/-- The ways a thread can go on: from a program counter, with the lock and its nesting depth,
to another one. -/
inductive ThreadStep (limit : ℕ) (thread : T) (lock : GlobalLock T) (nest : ℕ) :
    Pc S Q → GlobalLock T → ℕ → Pc S Q → List (Event S Q T) → Prop where
  | lock (lock' : GlobalLock T) (hlock : lock.atomicLock limit thread = some lock') :
      ThreadStep limit thread lock nest .ready lock' (nest + 1) .ready []
  | unlock (hnest : 0 < nest) :
      ThreadStep limit thread lock nest .ready (lock.atomicUnlock thread) (nest - 1) .ready []
  | invoke (call : Call S Q) (hdepth : call.locks = true ∨ 0 < nest) :
      ThreadStep limit thread lock nest .ready lock nest call.first
        [.called thread call (lock.held thread)]
  | workWait (hnest : nest = 1) :
      ThreadStep limit thread lock nest .ready lock nest (.release .workWait 0)
        [.called thread .workWait (lock.held thread)]
  | entry (call : Call S Q) (lock' : GlobalLock T)
      (hlock : lock.atomicLock limit thread = some lock') :
      ThreadStep limit thread lock nest (.entry call) lock' nest call.locked []
  | again (call : Call S Q) :
      ThreadStep limit thread lock nest (.test call) lock nest (.drop call 0) []
  | done (call : Call S Q) :
      ThreadStep limit thread lock nest (.test call) lock nest (.leave call) []
  | drop (call : Call S Q) (drops : ℕ) (hmore : 1 < lock.recurse.toNat) :
      ThreadStep limit thread lock nest (.drop call drops) (lock.atomicUnlock thread) nest
        (.drop call (drops + 1)) []
  | dropped (call : Call S Q) (drops : ℕ) (hlast : ¬ 1 < lock.recurse.toNat) :
      ThreadStep limit thread lock nest (.drop call drops) lock nest (.release call drops) []
  | sleep (call : Call S Q) (drops : ℕ) :
      ThreadStep limit thread lock nest (.release call drops) (lock.atomicUnlock thread) nest
        (.asleep call drops) []
  | undefined (call : Call S Q) (drops : ℕ) (hheld : lock.held thread ≠ 1) :
      ThreadStep limit thread lock nest (.release call drops) lock nest .undefined []
  | wake (call : Call S Q) (drops : ℕ) (lock' : GlobalLock T)
      (hlock : lock.atomicLock limit thread = some lock') :
      ThreadStep limit thread lock nest (.asleep call drops) lock' nest (.pickup call drops) []
  | pickup (call : Call S Q) (drops : ℕ) (lock' : GlobalLock T)
      (hlock : lock.atomicLock limit thread = some lock') :
      ThreadStep limit thread lock nest (.pickup call (drops + 1)) lock' nest
        (.pickup call drops) []
  | awake (call : Call S Q) (hmore : call.awake ≠ .ready) :
      ThreadStep limit thread lock nest (.pickup call 0) lock nest call.awake []
  | back (call : Call S Q) (hready : call.awake = .ready) :
      ThreadStep limit thread lock nest (.pickup call 0) lock nest .ready
        (State.returned lock thread call)
  | leave (call : Call S Q) :
      ThreadStep limit thread lock nest (.leave call) (lock.atomicUnlock thread) nest .ready
        (State.returned (lock.atomicUnlock thread) thread call)

/-- A step of the machine is a step of one thread; the other threads stay where they are. -/
structure Moves (limit : ℕ) (thread : T) (state next : State S Q T)
    (events : List (Event S Q T)) : Prop where
  step : ThreadStep limit thread state.lock (state.nest thread) (state.threads thread)
    next.lock (next.nest thread) (next.threads thread) events
  threads : ∀ other, other ≠ thread → next.threads other = state.threads other
  nest : ∀ other, other ≠ thread → next.nest other = state.nest other

variable {limit : ℕ} {worker thread : T} {state next : State S Q T} {action : Action S Q T}
  {events history : List (Event S Q T)}

section Moves

omit [DecidableEq S] [DecidableEq T] in
@[simp] theorem State.addSleepers_lock (q : Option Q) (change : ℤ) :
    (state.addSleepers q change).lock = state.lock := by
  cases q <;> rfl

omit [DecidableEq S] [DecidableEq T] in
@[simp] theorem State.addSleepers_threads (q : Option Q) (change : ℤ) :
    (state.addSleepers q change).threads = state.threads := by
  cases q <;> rfl

omit [DecidableEq S] [DecidableEq T] in
@[simp] theorem State.addSleepers_nest (q : Option Q) (change : ℤ) :
    (state.addSleepers q change).nest = state.nest := by
  cases q <;> rfl

omit [DecidableEq S] [DecidableEq T] in
@[simp] theorem State.addSleepers_work (q : Option Q) (change : ℤ) :
    (state.addSleepers q change).work = state.work := by
  cases q <;> rfl

omit [DecidableEq S] [DecidableEq Q] in
/-- A step that moves the thread in its call and leaves its nesting depth. -/
theorem Moves.goto {pc : Pc S Q} (hnest : next.nest = state.nest)
    (hthreads : next.threads = Function.update state.threads thread pc)
    (hstep : ThreadStep limit thread state.lock (state.nest thread) (state.threads thread)
      next.lock (state.nest thread) pc events) : Moves limit thread state next events where
  step := by rwa [hnest, hthreads, Function.update_self]
  threads other hne := by rw [hthreads, Function.update_of_ne hne]
  nest other hne := by rw [hnest]

omit [DecidableEq S] [DecidableEq Q] in
/-- A step of a thread's own code, which locks or unlocks. -/
theorem Moves.own {nest : ℕ} (hthreads : next.threads = state.threads)
    (hnest : next.nest = Function.update state.nest thread nest)
    (hstep : ThreadStep limit thread state.lock (state.nest thread) (state.threads thread)
      next.lock nest (state.threads thread) events) : Moves limit thread state next events where
  step := by rwa [hthreads, hnest, Function.update_self]
  threads other hne := by rw [hthreads]
  nest other hne := by rw [hnest, Function.update_of_ne hne]

omit [DecidableEq S] [DecidableEq Q] in
theorem Moves.of_atomicLock (hready : state.threads thread = .ready)
    (hlock : state.atomicLock limit thread = some next) (work : WorkPc) :
    Moves limit thread state { next with work := work } [] := by
  obtain ⟨lock', hlock', rfl⟩ := Option.map_eq_some_iff.mp hlock
  refine .own rfl rfl ?_
  rw [hready]
  exact .lock lock' hlock'

omit [DecidableEq S] [DecidableEq Q] in
theorem Moves.of_atomicUnlock (hready : state.threads thread = .ready)
    (hnest : 0 < state.nest thread) (work : WorkPc) :
    Moves limit thread state { state.atomicUnlock thread with work := work } [] := by
  refine .own rfl rfl ?_
  rw [hready]
  exact .unlock hnest

omit [DecidableEq Q] in
theorem Moves.of_test {call : Call S Q} (hpc : state.threads thread = .test call)
    (htest : state.test thread call = some next) : Moves limit thread state next [] := by
  -- the tested value may change, but not the lock nor where the other threads are
  have hgo : ∀ (base : State S Q T) {pc : Pc S Q}, base.lock = state.lock →
      base.threads = state.threads → base.nest = state.nest →
      pc = .drop call 0 ∨ pc = .leave call → some (base.goto thread pc) = some next →
      Moves limit thread state next [] := by
    intro base pc hlock hthreads hnest hcases hnext
    obtain rfl := Option.some.inj hnext
    refine .goto hnest (by rw [← hthreads]; rfl) ?_
    rw [hpc, show (base.goto thread pc).lock = state.lock from hlock]
    rcases hcases with rfl | rfl
    · exact .again call
    · exact .done call
  cases call with
  | down sem =>
      simp only [State.test] at htest
      split at htest
      · exact hgo state rfl rfl rfl (Or.inl rfl) htest
      · exact hgo (state.setValue sem _) rfl rfl rfl (Or.inr rfl) htest
  | up sem => exact hgo (state.setValue sem _) rfl rfl rfl (Or.inr rfl) htest
  | flushScheduledWork =>
      simp only [State.test] at htest
      split at htest
      · exact hgo state rfl rfl rfl (Or.inr rfl) htest
      · exact hgo state rfl rfl rfl (Or.inl rfl) htest
  | waitEvent q => cases htest
  | waitEventTimed q => cases htest
  | scheduleTimeout => cases htest
  | workWait => cases htest

omit [DecidableEq S] in
theorem Moves.of_release {call : Call S Q} {drops : ℕ}
    (hpc : state.threads thread = .release call drops) :
    Moves limit thread state (state.release thread call drops) [] := by
  unfold State.release
  split
  · by_cases hheld : state.lock.held thread = 1
    · rw [GlobalLock.condWait_preSleep hheld]
      refine .goto (by simp [State.goto, State.setLock])
        (by simp [State.goto, State.setLock]; rfl) ?_
      rw [hpc]
      simpa [State.goto, State.setLock] using ThreadStep.sleep call drops
    · have hundefined : state.lock.preSleep.condWait thread = none := by
        refine if_neg fun hone => hheld ?_
        have howner : state.lock.owner = some thread := hone.1
        rw [GlobalLock.held_of_owner howner]
        exact hone.2
      rw [hundefined]
      refine .goto rfl rfl ?_
      rw [hpc]
      exact .undefined call drops hheld
  · refine .goto rfl rfl ?_
    rw [hpc]
    exact .sleep call drops

omit [DecidableEq S] in
theorem Moves.of_wake {call : Call S Q} {drops : ℕ}
    (hpc : state.threads thread = .asleep call drops)
    (hwake : state.wake limit thread call drops = some next) :
    Moves limit thread state next [] := by
  unfold State.wake at hwake
  split at hwake
  · obtain ⟨lock', hlock, rfl⟩ := Option.map_eq_some_iff.mp hwake
    have hlocked : state.lock.atomicLock limit thread = some lock'.postSleep := by
      rw [← GlobalLock.map_postSleep_mutexLock, hlock]
      rfl
    refine .goto (by simp [State.goto, State.setLock])
      (by simp [State.goto, State.setLock]; rfl) ?_
    rw [hpc]
    simpa [State.goto, State.setLock] using ThreadStep.wake call drops _ hlocked
  · obtain ⟨lock', hlock, rfl⟩ := Option.map_eq_some_iff.mp hwake
    refine .goto rfl rfl ?_
    rw [hpc]
    exact .wake call drops lock' hlock

theorem Moves.of_advance (hadvance : state.advance limit thread = some (next, events)) :
    Moves limit thread state next events := by
  unfold State.advance at hadvance
  split at hadvance
  · cases hadvance
  · cases hadvance
  · rename_i call hpc
    obtain ⟨lock', hlock, heq⟩ := Option.map_eq_some_iff.mp hadvance
    obtain ⟨rfl, rfl⟩ := Prod.mk.inj heq
    have hstep : ThreadStep limit thread state.lock (state.nest thread) (.entry call) lock'
        (state.nest thread) call.locked [] := .entry call lock' hlock
    rw [← hpc] at hstep
    split
    · exact .goto rfl rfl hstep
    · exact .goto rfl rfl hstep
  · rename_i call hpc
    obtain ⟨tested, htest, heq⟩ := Option.map_eq_some_iff.mp hadvance
    obtain ⟨rfl, rfl⟩ := Prod.mk.inj heq
    exact .of_test hpc htest
  · rename_i call drops hpc
    split at hadvance
    · rename_i hmore
      obtain ⟨rfl, rfl⟩ := Prod.mk.inj (Option.some.inj hadvance)
      refine .goto rfl rfl ?_
      rw [hpc]
      exact .drop call drops hmore
    · rename_i hlast
      obtain ⟨rfl, rfl⟩ := Prod.mk.inj (Option.some.inj hadvance)
      refine .goto rfl rfl ?_
      rw [hpc]
      exact .dropped call drops hlast
  · rename_i call drops hpc
    obtain ⟨rfl, rfl⟩ := Prod.mk.inj (Option.some.inj hadvance)
    exact .of_release hpc
  · rename_i call drops hpc
    obtain ⟨woken, hwake, heq⟩ := Option.map_eq_some_iff.mp hadvance
    obtain ⟨rfl, rfl⟩ := Prod.mk.inj heq
    exact .of_wake hpc hwake
  · rename_i call hpc
    obtain ⟨rfl, rfl⟩ := Prod.mk.inj (Option.some.inj hadvance)
    refine .goto rfl rfl ?_
    rw [hpc]
    split
    · rename_i hready
      rw [hready]
      exact .back call hready
    · rename_i hmore
      exact .awake call hmore
  · rename_i call drops hpc
    obtain ⟨lock', hlock, heq⟩ := Option.map_eq_some_iff.mp hadvance
    obtain ⟨rfl, rfl⟩ := Prod.mk.inj heq
    refine .goto rfl rfl ?_
    rw [hpc]
    exact .pickup call drops lock' hlock
  · rename_i call hpc
    obtain ⟨rfl, rfl⟩ := Prod.mk.inj (Option.some.inj hadvance)
    refine .goto rfl rfl ?_
    rw [hpc]
    exact .leave call

end Moves

/-! ### The worker -/

/-- `work_exec` holds the lock once in its loop, and not at all before. -/
structure WorkerInv (worker : T) (state : State S Q T) : Prop where
  start : state.work = .start → state.nest worker = 0
  loop : state.work = .loop → state.nest worker = 1

omit [DecidableEq S] [DecidableEq Q] [DecidableEq T] in
theorem WorkerInv.init (initial : S → ℤ) : WorkerInv worker (.init initial : State S Q T) where
  start _ := rfl
  loop hloop := by cases hloop

omit [DecidableEq S] [DecidableEq Q] [DecidableEq T] in
theorem WorkerInv.congr (h : WorkerInv worker state) (hwork : next.work = state.work)
    (hnest : next.nest worker = state.nest worker) : WorkerInv worker next where
  start hstart := by
    rw [hnest]
    exact h.start (hwork ▸ hstart)
  loop hloop := by
    rw [hnest]
    exact h.loop (hwork ▸ hloop)

omit [DecidableEq S] [DecidableEq Q] [DecidableEq T] in
/-- In a work function there is nothing to keep. -/
theorem WorkerInv.of_running (hwork : next.work = .running) : WorkerInv worker next where
  start hstart := by rw [hwork] at hstart; cases hstart
  loop hloop := by rw [hwork] at hloop; cases hloop

omit [DecidableEq Q] in
theorem State.test_work {call : Call S Q} (htest : state.test thread call = some next) :
    next.work = state.work := by
  unfold State.test at htest
  split at htest
  · split at htest <;> obtain rfl := Option.some.inj htest <;> rfl
  · obtain rfl := Option.some.inj htest
    rfl
  · split at htest <;> obtain rfl := Option.some.inj htest <;> rfl
  all_goals cases htest

omit [DecidableEq S] in
theorem State.release_work (call : Call S Q) (drops : ℕ) :
    (state.release thread call drops).work = state.work := by
  unfold State.release
  split
  · split
    · simp [State.goto, State.setLock]
    · rfl
  · rfl

omit [DecidableEq S] in
theorem State.wake_work {call : Call S Q} {drops : ℕ}
    (hwake : state.wake limit thread call drops = some next) : next.work = state.work := by
  unfold State.wake at hwake
  split at hwake
  · obtain ⟨lock', -, rfl⟩ := Option.map_eq_some_iff.mp hwake
    simp [State.goto, State.setLock]
  · obtain ⟨lock', -, rfl⟩ := Option.map_eq_some_iff.mp hwake
    rfl

/-- A step of a call does not move `work_exec` to another place. -/
theorem State.advance_work (hadvance : state.advance limit thread = some (next, events)) :
    next.work = state.work := by
  unfold State.advance at hadvance
  split at hadvance
  · cases hadvance
  · cases hadvance
  · obtain ⟨lock', -, heq⟩ := Option.map_eq_some_iff.mp hadvance
    obtain ⟨rfl, -⟩ := Prod.mk.inj heq
    split <;> rfl
  · obtain ⟨tested, htest, heq⟩ := Option.map_eq_some_iff.mp hadvance
    obtain ⟨rfl, -⟩ := Prod.mk.inj heq
    exact State.test_work htest
  · split at hadvance <;> obtain ⟨rfl, -⟩ := Prod.mk.inj (Option.some.inj hadvance) <;> rfl
  · obtain ⟨rfl, -⟩ := Prod.mk.inj (Option.some.inj hadvance)
    exact State.release_work _ _
  · obtain ⟨woken, hwake, heq⟩ := Option.map_eq_some_iff.mp hadvance
    obtain ⟨rfl, -⟩ := Prod.mk.inj heq
    exact State.wake_work hwake
  · obtain ⟨rfl, -⟩ := Prod.mk.inj (Option.some.inj hadvance)
    rfl
  · obtain ⟨lock', -, heq⟩ := Option.map_eq_some_iff.mp hadvance
    obtain ⟨rfl, -⟩ := Prod.mk.inj heq
    rfl
  · obtain ⟨rfl, -⟩ := Prod.mk.inj (Option.some.inj hadvance)
    rfl

omit [DecidableEq S] [DecidableEq Q] in
/-- A thread nests deeper or less deep only between its calls. -/
theorem ThreadStep.nest_eq {lock lock' : GlobalLock T} {nest nest' : ℕ} {pc pc' : Pc S Q}
    (h : ThreadStep limit thread lock nest pc lock' nest' pc' events) (hpc : pc ≠ .ready) :
    nest' = nest := by
  cases h with
  | lock lock' hlock => exact absurd rfl hpc
  | unlock hnest => exact absurd rfl hpc
  | _ => rfl

theorem State.advance_nest (hadvance : state.advance limit thread = some (next, events))
    (other : T) : next.nest other = state.nest other := by
  have hmoves := Moves.of_advance hadvance
  by_cases heq : other = thread
  · subst heq
    refine hmoves.step.nest_eq fun hready => ?_
    rw [State.advance, hready] at hadvance
    cases hadvance
  · exact hmoves.nest other heq

/-- **Every step keeps the worker's promise**, and is a step of one thread. -/
theorem WorkerInv.step (h : WorkerInv worker state)
    (hstep : (lockMachine S Q worker limit).step state action = some (next, events)) :
    WorkerInv worker next ∧ ∃ thread, Moves limit thread state next events := by
  cases action with
  | atomicLock thread =>
      replace hstep : (if state.Free worker thread then
        (state.atomicLock limit thread).map fun locked => (locked, [])
        else none) = some (next, events) := hstep
      split at hstep
      · rename_i hfree
        obtain ⟨locked, hlock, heq⟩ := Option.map_eq_some_iff.mp hstep
        obtain ⟨rfl, rfl⟩ := Prod.mk.inj heq
        have hmoves : Moves limit thread state locked [] :=
          .of_atomicLock hfree.1 hlock locked.work
        obtain ⟨lock', -, rfl⟩ := Option.map_eq_some_iff.mp hlock
        refine ⟨?_, thread, hmoves⟩
        by_cases heq : worker = thread
        · exact .of_running (hfree.2 heq.symm)
        · exact h.congr rfl (hmoves.nest worker heq)
      · cases hstep
  | atomicUnlock thread =>
      replace hstep : (if state.Free worker thread ∧ 0 < state.nest thread then
        some (state.atomicUnlock thread, []) else none) = some (next, events) := hstep
      split at hstep
      · rename_i hfree
        obtain ⟨rfl, rfl⟩ := Prod.mk.inj (Option.some.inj hstep)
        have hmoves : Moves limit thread state (state.atomicUnlock thread) [] :=
          .of_atomicUnlock hfree.1.1 hfree.2 state.work
        refine ⟨?_, thread, hmoves⟩
        by_cases heq : worker = thread
        · exact .of_running (hfree.1.2 heq.symm)
        · exact h.congr rfl (hmoves.nest worker heq)
      · cases hstep
  | invoke thread call =>
      replace hstep : state.invoke worker thread call = some (next, events) := hstep
      unfold State.invoke at hstep
      split at hstep
      · rename_i hcan
        obtain ⟨rfl, rfl⟩ := Prod.mk.inj (Option.some.inj hstep)
        refine ⟨h.congr rfl rfl, thread, .goto rfl rfl ?_⟩
        rw [hcan.1.1]
        exact .invoke call hcan.2.2
      · cases hstep
  | advance thread =>
      replace hstep : state.advance limit thread = some (next, events) := hstep
      exact ⟨h.congr (State.advance_work hstep) (State.advance_nest hstep worker), thread,
        .of_advance hstep⟩
  | workExec found =>
      replace hstep : state.workExec limit worker found = some (next, events) := hstep
      unfold State.workExec at hstep
      split at hstep
      · rename_i hready
        -- `atomic_lock` at depth zero, on the way into the loop
        have henter : state.nest worker = 0 →
            ((state.atomicLock limit worker).map fun locked =>
              ({ locked with work := .loop }, [])) = some (next, events) →
            WorkerInv worker next ∧ ∃ thread, Moves limit thread state next events := by
          intro hnest henter
          obtain ⟨locked, hlock, heq⟩ := Option.map_eq_some_iff.mp henter
          obtain ⟨rfl, rfl⟩ := Prod.mk.inj heq
          refine ⟨⟨fun hstart => ?_, fun _ => ?_⟩, worker, .of_atomicLock hready hlock .loop⟩
          · cases hstart
          · obtain ⟨lock', -, rfl⟩ := Option.map_eq_some_iff.mp hlock
            simp [State.setNest, State.setLock, hnest]
        split at hstep
        · rename_i hstart
          exact henter (h.start hstart) hstep
        · rename_i hloop
          split at hstep
          · obtain ⟨rfl, rfl⟩ := Prod.mk.inj (Option.some.inj hstep)
            refine ⟨.of_running rfl, worker, .of_atomicUnlock hready ?_ .running⟩
            rw [h.loop hloop]
            exact Nat.one_pos
          · obtain ⟨rfl, rfl⟩ := Prod.mk.inj (Option.some.inj hstep)
            refine ⟨h.congr rfl rfl, worker, .goto rfl rfl ?_⟩
            rw [hready]
            exact .workWait (h.loop hloop)
        · split at hstep
          · rename_i hnest
            exact henter hnest hstep
          · cases hstep
      · cases hstep

/-! ### Depths -/

/-- How often a thread holds the mutex, at each point of a call. -/
def Pc.Stands (nest held : ℕ) : Pc S Q → Prop
  | .ready => held = nest
  | .entry call => call.locks = true ∧ held = nest
  | .test call => call.locks = true ∧ held = call.base nest
  | .drop call drops => 0 < held ∧ held + drops = call.base nest
  | .release call drops => held = 1 ∧ 1 + drops = call.base nest
  | .asleep call drops => held = 0 ∧ 1 + drops = call.base nest
  | .pickup call drops => 0 < held ∧ held + drops = call.base nest
  | .leave call => call.locks = true ∧ held = call.base nest
  | .undefined => False

omit [DecidableEq S] [DecidableEq Q] in
theorem Call.locks_of_tests {call : Call S Q} (htests : call.tests = true) :
    call.locks = true := by
  cases call <;> first | rfl | cases htests

omit [DecidableEq S] [DecidableEq Q] in
theorem Call.base_of_locks {call : Call S Q} (hlocks : call.locks = true) (nest : ℕ) :
    call.base nest = nest + 1 :=
  if_pos hlocks

omit [DecidableEq S] [DecidableEq Q] in
theorem Call.stands_first {call : Call S Q} {nest : ℕ}
    (hdepth : call.locks = true ∨ 0 < nest) : call.first.Stands nest nest := by
  unfold Call.first
  split
  · rename_i hlocks
    exact ⟨hlocks, rfl⟩
  · rename_i hnot
    exact ⟨hdepth.resolve_left hnot, (if_neg hnot).symm⟩

omit [DecidableEq S] [DecidableEq Q] in
theorem Call.stands_locked {call : Call S Q} {nest : ℕ} (hlocks : call.locks = true) :
    call.locked.Stands nest (nest + 1) := by
  unfold Call.locked
  split
  · exact ⟨hlocks, (call.base_of_locks hlocks nest).symm⟩
  · exact ⟨Nat.succ_pos nest, (call.base_of_locks hlocks nest).symm⟩

omit [DecidableEq S] [DecidableEq Q] in
theorem Call.stands_awake {call : Call S Q} {nest held : ℕ} (hheld : held = call.base nest) :
    call.awake.Stands nest held := by
  unfold Call.awake
  split
  · rename_i htests
    exact ⟨Call.locks_of_tests htests, hheld⟩
  · split
    · rename_i hlocks
      exact ⟨hlocks, hheld⟩
    · rename_i hnot
      exact hheld.trans (if_neg hnot)

omit [DecidableEq S] [DecidableEq Q] in
/-- **What one step of a thread does to its holds**: it arrives where its new program counter
says, and the other threads' holds are the same. -/
theorem ThreadStep.stands {lock lock' : GlobalLock T} {nest nest' : ℕ} {pc pc' : Pc S Q}
    (h : ThreadStep limit thread lock nest pc lock' nest' pc' events)
    (hlimit : limit < 2 ^ 32) (hok : lock.Ok limit)
    (hstands : pc.Stands nest (lock.held thread)) :
    ∃ holds, lock.Shifts lock' limit thread holds ∧ pc'.Stands nest' holds := by
  have hsame : lock.Shifts lock limit thread (lock.held thread) :=
    ⟨hok, rfl, fun _ _ => rfl⟩
  cases h with
  | lock lock' hlock =>
      exact ⟨_, hok.atomicLock hlimit hlock, congrArg (· + 1) hstands⟩
  | unlock hnest =>
      replace hstands : lock.held thread = nest := hstands
      refine ⟨_, hok.atomicUnlock (by omega), ?_⟩
      exact congrArg (· - 1) hstands
  | invoke call hdepth =>
      replace hstands : lock.held thread = nest := hstands
      refine ⟨_, hsame, ?_⟩
      rw [hstands]
      exact Call.stands_first hdepth
  | workWait hnest =>
      replace hstands : lock.held thread = nest := hstands
      exact ⟨_, hsame, hstands.trans hnest, hnest.symm⟩
  | entry call lock' hlock =>
      obtain ⟨hlocks, hheld⟩ := hstands
      exact ⟨_, hok.atomicLock hlimit hlock, hheld ▸ Call.stands_locked hlocks⟩
  | again call =>
      obtain ⟨hlocks, hheld⟩ := hstands
      refine ⟨_, hsame, ?_, hheld⟩
      rw [hheld, Call.base_of_locks hlocks]
      exact Nat.succ_pos _
  | done call => exact ⟨_, hsame, hstands⟩
  | drop call drops hmore =>
      obtain ⟨hpos, hheld⟩ := hstands
      rw [hok.recurse_of_held hpos] at hmore
      refine ⟨_, hok.atomicUnlock hpos, ?_, ?_⟩
      · omega
      · omega
  | dropped call drops hlast =>
      -- the loop of `atomic_drop` ends with exactly one hold
      obtain ⟨hpos, hheld⟩ := hstands
      rw [hok.recurse_of_held hpos] at hlast
      have hone : lock.held thread = 1 := by omega
      exact ⟨_, hsame, hone, hone ▸ hheld⟩
  | sleep call drops =>
      obtain ⟨hone, hdrops⟩ := hstands
      refine ⟨_, hok.atomicUnlock (by omega), ?_, hdrops⟩
      rw [hone]
  | undefined call drops hheld => exact absurd hstands.1 hheld
  | wake call drops lock' hlock =>
      obtain ⟨hzero, hdrops⟩ := hstands
      refine ⟨_, hok.atomicLock hlimit hlock, Nat.succ_pos _, ?_⟩
      rw [hzero]
      exact hdrops
  | pickup call drops lock' hlock =>
      obtain ⟨hpos, hheld⟩ := hstands
      refine ⟨_, hok.atomicLock hlimit hlock, Nat.succ_pos _, ?_⟩
      omega
  | awake call hmore =>
      obtain ⟨hpos, hheld⟩ := hstands
      exact ⟨_, hsame, Call.stands_awake hheld⟩
  | back call hready =>
      obtain ⟨hpos, hheld⟩ := hstands
      have hawake : call.awake.Stands nest (lock.held thread) := Call.stands_awake hheld
      rw [hready] at hawake
      exact ⟨_, hsame, hawake⟩
  | leave call =>
      obtain ⟨hlocks, hheld⟩ := hstands
      rw [Call.base_of_locks hlocks] at hheld
      refine ⟨_, hok.atomicUnlock (by omega), ?_⟩
      show lock.held thread - 1 = nest
      omega

/-- The lock is consistent, and every thread holds it as often as its program counter says. -/
structure LockInv (limit : ℕ) (worker : T) (state : State S Q T) : Prop where
  ok : state.lock.Ok limit
  stands : ∀ thread, (state.threads thread).Stands (state.nest thread) (state.lock.held thread)
  worker : WorkerInv worker state

omit [DecidableEq S] [DecidableEq Q] in
theorem LockInv.init (initial : S → ℤ) :
    LockInv limit worker (.init initial : State S Q T) where
  ok := .free
  stands thread := GlobalLock.held_of_ne (by simp [State.init, GlobalLock.free])
  worker := .init initial

theorem LockInv.step (h : LockInv limit worker state) (hlimit : limit < 2 ^ 32)
    (hstep : (lockMachine S Q worker limit).step state action = some (next, events)) :
    LockInv limit worker next := by
  obtain ⟨hworker, thread, hmoves⟩ := h.worker.step hstep
  obtain ⟨holds, hshifts, hstands⟩ := hmoves.step.stands hlimit h.ok (h.stands thread)
  refine ⟨hshifts.ok, fun other => ?_, hworker⟩
  by_cases heq : other = thread
  · subst heq
    rw [hshifts.held]
    exact hstands
  · rw [hmoves.threads other heq, hmoves.nest other heq, hshifts.others other heq]
    exact h.stands other

/-! ### Calls and their depths -/

/-- The thread's last call is this one, made at this depth. -/
def LastCall (thread : T) (call : Call S Q) (depth : ℕ) (history : List (Event S Q T)) : Prop :=
  ∃ before after, history = before ++ .called thread call depth :: after ∧
    ∀ other depth', .called thread other depth' ∉ after

omit [DecidableEq S] [DecidableEq Q] [DecidableEq T] in
theorem LastCall.append {call : Call S Q} {depth : ℕ} (h : LastCall thread call depth history)
    (hnot : ∀ other depth', .called thread other depth' ∉ events) :
    LastCall thread call depth (history ++ events) := by
  obtain ⟨before, after, rfl, hafter⟩ := h
  refine ⟨before, after ++ events, by simp, fun other depth' hmem => ?_⟩
  rcases List.mem_append.mp hmem with hold | hnew
  · exact hafter other depth' hold
  · exact hnot other depth' hnew

/-- A thread in a call has made it at the depth it is nested to outside. -/
def CalledInv (state : State S Q T) (history : List (Event S Q T)) : Prop :=
  ∀ thread call, (state.threads thread).call = some call →
    LastCall thread call (state.nest thread) history

omit [DecidableEq S] [DecidableEq Q] in
theorem Call.call_first (call : Call S Q) : call.first.call = some call := by
  unfold Call.first
  split <;> rfl

omit [DecidableEq S] [DecidableEq Q] in
theorem Call.call_locked (call : Call S Q) : call.locked.call = some call := by
  unfold Call.locked
  split <;> rfl

omit [DecidableEq S] [DecidableEq Q] in
theorem Call.call_awake {call : Call S Q} (hmore : call.awake ≠ .ready) :
    call.awake.call = some call := by
  unfold Call.awake at hmore ⊢
  split
  · rfl
  · split
    · rfl
    · rename_i htests hlocks
      exact absurd (by simp [htests, hlocks]) hmore

omit [DecidableEq S] [DecidableEq Q] in
/-- A thread that is in a call after a step has just made it, at its depth, or was in it. -/
theorem ThreadStep.called {lock lock' : GlobalLock T} {nest nest' : ℕ} {pc pc' : Pc S Q}
    (h : ThreadStep limit thread lock nest pc lock' nest' pc' events)
    (hstands : pc.Stands nest (lock.held thread)) {call : Call S Q}
    (hcall : pc'.call = some call) :
    nest' = nest ∧
      (events = [.called thread call nest] ∨ pc.call = some call ∧ events = []) := by
  have hmade : ∀ other : Call S Q, pc = .ready → pc'.call = some other →
      [.called thread other (lock.held thread)] = [Event.called thread call nest] := by
    rintro other rfl hother
    rw [show lock.held thread = nest from hstands, Option.some.inj (hother.symm.trans hcall)]
  cases h with
  | lock lock' hlock => cases hcall
  | unlock hnest => cases hcall
  | invoke other hdepth => exact ⟨rfl, Or.inl (hmade other rfl other.call_first)⟩
  | workWait hnest => exact ⟨rfl, Or.inl (hmade .workWait rfl rfl)⟩
  | entry other lock' hlock =>
      exact ⟨rfl, Or.inr ⟨other.call_locked.symm.trans hcall, rfl⟩⟩
  | awake other hmore => exact ⟨rfl, Or.inr ⟨(Call.call_awake hmore).symm.trans hcall, rfl⟩⟩
  | back other hready => cases hcall
  | leave other => cases hcall
  | undefined other drops hheld => cases hcall
  | _ => exact ⟨rfl, Or.inr ⟨hcall, rfl⟩⟩

omit [DecidableEq S] [DecidableEq Q] in
/-- A step of a thread shows no call of another one, and none of a thread that is in a call. -/
theorem ThreadStep.called_notMem {lock lock' : GlobalLock T} {nest nest' : ℕ} {pc pc' : Pc S Q}
    (h : ThreadStep limit thread lock nest pc lock' nest' pc' events) {other : T}
    (hne : other ≠ thread) (call : Call S Q) (depth : ℕ) :
    .called other call depth ∉ events := by
  cases h with
  | invoke call' hdepth => simp [hne]
  | workWait hnest => simp [hne]
  | back call' hready => simp [State.returned]
  | leave call' => simp [State.returned]
  | _ => simp

omit [DecidableEq S] [DecidableEq Q] in
/-- A call that returns is the one its thread was in, at the depth it is nested to. -/
theorem ThreadStep.returned {lock lock' : GlobalLock T} {nest nest' : ℕ} {pc pc' : Pc S Q}
    (h : ThreadStep limit thread lock nest pc lock' nest' pc' events)
    (hstands : pc'.Stands nest' (lock'.held thread)) {other : T} {call : Call S Q} {depth : ℕ}
    (hreturned : .returned other call depth ∈ events) :
    other = thread ∧ pc.call = some call ∧ depth = nest ∧ lock'.held thread = depth := by
  cases h with
  | back call' hready =>
      obtain ⟨rfl, rfl, rfl⟩ : other = thread ∧ call = call' ∧ depth = lock.held thread := by
        simpa [State.returned] using hreturned
      exact ⟨rfl, rfl, hstands, rfl⟩
  | leave call' =>
      obtain ⟨rfl, rfl, rfl⟩ : other = thread ∧ call = call' ∧
          depth = (lock.atomicUnlock thread).held thread := by
        simpa [State.returned] using hreturned
      exact ⟨rfl, rfl, hstands, rfl⟩
  | invoke call' hdepth => simp at hreturned
  | workWait hnest => simp at hreturned
  | _ => cases hreturned

omit [DecidableEq S] [DecidableEq Q] [DecidableEq T] in
theorem CalledInv.init (initial : S → ℤ) : CalledInv (.init initial : State S Q T) [] := by
  intro thread call hcall
  cases hcall

theorem CalledInv.step (h : CalledInv state history) (hinv : LockInv limit worker state)
    (hstep : (lockMachine S Q worker limit).step state action = some (next, events)) :
    CalledInv next (history ++ events) := by
  intro other call hcall
  obtain ⟨-, thread, hmoves⟩ := hinv.worker.step hstep
  by_cases heq : other = thread
  · subst heq
    obtain ⟨hnest, hevents | ⟨hbefore, hevents⟩⟩ := hmoves.step.called (hinv.stands other) hcall
    · rw [hnest, hevents]
      exact ⟨history, [], rfl, by simp⟩
    · rw [hnest, hevents, List.append_nil]
      exact h other call hbefore
  · rw [hmoves.threads other heq] at hcall
    rw [hmoves.nest other heq]
    exact (h other call hcall).append (hmoves.step.called_notMem heq)

/-! ### Runs -/

theorem run_inv (hlimit : limit < 2 ^ 32) {initial : S → ℤ} {schedule : List (Action S Q T)}
    {last : State S Q T}
    (hrun : (lockMachine S Q worker limit).run (.init initial) schedule = some (last, history)) :
    LockInv limit worker last ∧ CalledInv last history := by
  have hinv := (lockMachine S Q worker limit).run_invariant
    (P := fun state past => LockInv limit worker state ∧ CalledInv state past)
    (fun hprevious hstep =>
      ⟨hprevious.1.step hlimit hstep, hprevious.2.step hprevious.1 hstep⟩)
    ⟨LockInv.init initial, CalledInv.init initial⟩ hrun
  simpa using hinv

/-- **The lock's depth.**  In every run, whatever the interleaving: the counter is how often
the owner holds the mutex, and zero when there is no owner; a thread that is asleep in a call
does not hold it at all; no thread waits for a condition with a mutex it does not hold exactly
once; a thread that is in no call holds it as often as it has locked and not yet unlocked; and
a call returns with the lock at the depth it was made at. -/
theorem atomic_lock_depth (hlimit : limit < 2 ^ 32) {initial : S → ℤ}
    {schedule : List (Action S Q T)} {last : State S Q T}
    (hrun : (lockMachine S Q worker limit).run (.init initial) schedule = some (last, history)) :
    (∀ thread, last.lock.owner = some thread →
      last.lock.recurse.toNat = last.lock.held thread ∧ 0 < last.lock.held thread) ∧
    (last.lock.owner = none → last.lock.recurse = 0) ∧
    (∀ thread call drops, last.threads thread = .asleep call drops →
      last.lock.owner ≠ some thread) ∧
    (∀ thread, last.threads thread ≠ .undefined) ∧
    (∀ thread, last.threads thread = .ready → last.lock.held thread = last.nest thread) ∧
    ∀ action next events thread call depth,
      (lockMachine S Q worker limit).step last action = some (next, events) →
        .returned thread call depth ∈ events →
          next.lock.held thread = depth ∧ LastCall thread call depth history := by
  obtain ⟨hinv, hcalled⟩ := run_inv hlimit hrun
  have hpos : ∀ thread, last.lock.owner = some thread → 0 < last.lock.held thread := by
    intro thread howner
    rw [GlobalLock.held_of_owner howner, Nat.pos_iff_ne_zero]
    intro hzero
    rw [hinv.ok.owner.mpr hzero] at howner
    cases howner
  refine ⟨fun thread howner => ?_, fun hnone => ?_, fun thread call drops hasleep howner => ?_,
    fun thread hundefined => ?_, fun thread hready => ?_, ?_⟩
  · exact ⟨hinv.ok.recurse_of_held (hpos thread howner), hpos thread howner⟩
  · have hzero := hinv.ok.recurse.trans (hinv.ok.owner.mp hnone)
    exact BitVec.eq_of_toNat_eq hzero
  · have hstands := hinv.stands thread
    rw [hasleep] at hstands
    have := hpos thread howner
    rw [hstands.1] at this
    exact absurd this (lt_irrefl 0)
  · have hstands := hinv.stands thread
    rw [hundefined] at hstands
    exact hstands
  · have hstands := hinv.stands thread
    rw [hready] at hstands
    exact hstands
  · intro action next events thread call depth hstep hreturned
    obtain ⟨-, mover, hmoves⟩ := hinv.worker.step hstep
    have hnext := (hinv.step hlimit hstep).stands mover
    obtain ⟨rfl, hcall, rfl, hheld⟩ := hmoves.step.returned hnext hreturned
    exact ⟨hheld, hcalled thread call hcall⟩

/-- A thread sleeps in `down` from depth two, while the worker goes to its wait and a third
thread does the `up`. -/
def nested : List (Action Unit Unit (Fin 3)) :=
  [.atomicLock 1, .atomicLock 1, .invoke 1 (.down ()), .advance 1, .advance 1, .advance 1,
    .advance 1, .advance 1, .advance 1, .workExec true, .workExec false, .advance 0,
    .invoke 2 (.up ()), .advance 2, .advance 2, .advance 2, .advance 1, .advance 1, .advance 1,
    .advance 1, .advance 1]

def nestedHistory : List (Event Unit Unit (Fin 3)) :=
  [.called 1 (.down ()) 2, .called 0 .workWait 1, .called 2 (.up ()) 0, .returned 2 (.up ()) 0]

/-- The machine of the example: the largest count is that of an `int`. -/
def nestedMachine : Machine (State Unit Unit (Fin 3)) (Action Unit Unit (Fin 3))
    (Event Unit Unit (Fin 3)) :=
  lockMachine Unit Unit 0 (2 ^ 31 - 1)

theorem nested_isSome : (nestedMachine.run (.init fun _ => 0) nested).isSome = true := by
  decide

/-- The `down` is about to return, and does so at depth two. -/
theorem atomic_lock_depth_nested : ∃ last next,
    nestedMachine.run (.init fun _ => 0) nested = some (last, nestedHistory) ∧
    nestedMachine.step last (.advance 1) = some (next, [.returned 1 (.down ()) 2]) ∧
    last.lock.recurse.toNat = last.lock.held 1 ∧ next.lock.held 1 = 2 := by
  have hrun := nestedMachine.run_eq_after nested_isSome (by decide : _ = some nestedHistory)
  obtain ⟨⟨next, events⟩, hstep, rfl⟩ := Option.map_eq_some_iff.mp
    (by decide : (nestedMachine.step (nestedMachine.after (.init fun _ => 0) nested nested_isSome)
      (.advance 1)).map Prod.snd = some [.returned 1 (.down ()) 2])
  have hdepth := atomic_lock_depth (by decide : 2 ^ 31 - 1 < 2 ^ 32) hrun
  exact ⟨_, next, hrun, hstep, (hdepth.1 1 (by decide)).1,
    (hdepth.2.2.2.2.2 (.advance 1) next _ 1 (.down ()) 2 hstep (by simp)).1⟩

end Webcamd.Kernel.AtomicLock
