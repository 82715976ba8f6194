import Webcamd.Library.Ledger

/-!
# The work queue, the timer list and their threads

A model of `kernel/linux_task.c` and `kernel/linux_timer.c`: the work queue
`work_head` with the thread that runs it (`work_exec`), the timer list
`timer_head` with its thread (`timer_exec`), and the calls drivers make on them.

Everything shared is protected by one recursive lock (`atomic_lock`), which every
function takes in short sections and gives up completely while it sleeps
(`schedule()` drops it to any depth).  So the unit of interleaving is the **lock
section**: a call that is made of several sections — because it polls, or because
it is written as two calls in a row — is a program counter, `CallPc`, and between
two sections any other thread may move.  The callbacks `t->func(t)` and
`t->function(t)` run with the lock dropped; while the worker or the timer thread is
in one, that thread may itself make any call.

* `State` — the two queues at the level of their links, `work_curr`,
  `flush_work_var`, the expiry times, and where every thread is.
* `Action` — whose turn it is, and what the environment chooses (the clock).
* `step` — the machine; its `Event`s record calls, returns and what happened to the
  queues.

`pthread_cond_signal` is not modelled: the worker may leave `pthread_cond_wait` at
any moment, which POSIX allows and which covers every wakeup.
-/

namespace Webcamd.Kernel

open Webcamd.Library

/-- The threads: the two this code starts, and any number of others. -/
inductive Thread (C : Type) where
  | worker
  | timer
  | client (id : C)
  deriving DecidableEq

/-- The calls drivers make.  A `struct delayed_work` is named by its timer; a
`struct tasklet_struct` by its work item.  `queue_work`, `queue_delayed_work` and
`flush_workqueue` are the calls they forward to. -/
inductive Call (W T : Type) where
  | scheduleWork (work : W)
  | scheduleDelayedWork (timer : T) (delay : BitVec 64)
  | cancelWork (work : W)
  | cancelWorkSync (work : W)
  | cancelDelayedWork (timer : T)
  | cancelDelayedWorkSync (timer : T)
  | cancelRearmingDelayedWork (timer : T)
  | flushWork (work : W)
  | flushScheduledWork
  | taskletSchedule (work : W)
  | taskletKill (work : W)
  | timerPending (timer : T)
  | addTimer (timer : T)
  | delTimer (timer : T)
  | delTimerSync (timer : T)
  | modTimer (timer : T) (expires : BitVec 64)
  deriving DecidableEq

/-- The item on which the call, in its first lock section, makes a `schedule_work`
call.  `dwork` gives the work item of every timer that belongs to a delayed work. -/
def Call.schedules {W T : Type} (dwork : T → Option W) : Call W T → Option W
  | .scheduleWork work => some work
  | .taskletSchedule work => some work
  | .scheduleDelayedWork timer delay => if delay = 0 then dwork timer else none
  | _ => none

/-- Where a thread is in the call it is making. -/
inductive CallPc (W T : Type) where
  /-- Not in a call. -/
  | idle
  /-- Before the first lock section. -/
  | entry (call : Call W T)
  /-- `schedule_delayed_work`: the timer was not pending. -/
  | setExpires (timer : T) (delay : BitVec 64)
  /-- In `add_timer`, before its `del_timer`. -/
  | unlinkTimer (call : Call W T) (timer : T)
  /-- In `add_timer`, before the insertion. -/
  | linkTimer (call : Call W T) (timer : T)
  /-- `cancel_delayed_work_sync`: before its `cancel_work_sync`. -/
  | cancelSync (call : Call W T) (work : W)
  /-- `cancel_work_sync`: polling `work == work_curr`. -/
  | waitCurr (call : Call W T) (work : W)
  /-- `flush_work`: polling, with the value it will return. -/
  | waitFlushWork (work : W) (retval : Int)
  /-- `flush_scheduled_work`: polling `flush_work_var`. -/
  | waitFlushVar
  deriving DecidableEq

/-- Where `work_exec` is: about to look at the queue, or in a work function. -/
inductive WorkPc (W : Type) where
  | idle
  | running (work : W)
  deriving DecidableEq

/-- Where `timer_exec` is: between two scans, or in a timer function, with the
`last_jiffies` of the scan it belongs to. -/
inductive TimerPc (T : Type) where
  | idle
  | running (timer : T) (lastJiffies : BitVec 64)
  deriving DecidableEq

/-- The shared state, and the program counter of every thread. -/
structure State (W T C : Type) where
  /-- `work_head`, with the links of all work items -/
  workHead : TailQueue W
  /-- `work_curr` -/
  workCurr : Option W
  /-- `flush_work_var` -/
  flushWorkVar : Bool
  /-- `work_thread` -/
  workThread : WorkPc W
  /-- `timer_head`, with the links of all timers -/
  timerHead : TailQueue T
  /-- `expires` of every timer -/
  expires : T → BitVec 64
  /-- `timer_thread` -/
  timerThread : TimerPc T
  /-- the call each thread is in -/
  calls : Thread C → CallPc W T

/-- What an outside observer can record. -/
inductive Event (W T C : Type) where
  /-- A call begins … -/
  | call (thread : Thread C) (call : Call W T)
  /-- … and returns. -/
  | ret (thread : Thread C) (call : Call W T) (value : Int)
  /-- `schedule_work` took effect and returns this value. -/
  | scheduled (work : W) (value : Int)
  /-- A cancellation removed the item from the queue. -/
  | cancelled (work : W)
  /-- The worker took the item off the queue and calls its function … -/
  | started (work : W)
  /-- … which has returned. -/
  | finished (work : W)
  /-- The timer was put on the timer list. -/
  | armed (timer : T)
  /-- The timer was taken off the timer list by a call. -/
  | disarmed (timer : T)
  /-- The timer thread took the timer off the list and calls its function. -/
  | fired (timer : T)
  deriving DecidableEq

/-- Whose turn it is.  `now` is what `get_jiffies_64` returns if it is called in
this move; `fuel` bounds the walk over the timer list, which the move performs
only if it suffices. -/
inductive Action (W T C : Type) where
  | invoke (thread : Thread C) (call : Call W T)
  | advance (thread : Thread C) (now : BitVec 64)
  | workExec
  | timerExec (now : BitVec 64) (fuel : ℕ)

namespace State

variable {W T C : Type} [DecidableEq W] [DecidableEq T] [DecidableEq C]

/-- The state before the threads are created. -/
def init : State W T C where
  workHead := .empty
  workCurr := none
  flushWorkVar := false
  workThread := .idle
  timerHead := .empty
  expires := fun _ => 0
  timerThread := .idle
  calls := fun _ => .idle

/-- `work->entry.tqe_prev != NULL` -/
def queued (state : State W T C) (work : W) : Bool := (state.workHead.prev work).isSome

/-- `timer->entry.tqe_prev != NULL` -/
def pending (state : State W T C) (timer : T) : Bool :=
  (state.timerHead.prev timer).isSome

def setCall (state : State W T C) (thread : Thread C) (pc : CallPc W T) :
    State W T C :=
  { state with calls := Function.update state.calls thread pc }

omit [DecidableEq W] [DecidableEq T] in
@[simp] theorem setCall_workHead (state : State W T C) (thread : Thread C)
    (pc : CallPc W T) : (state.setCall thread pc).workHead = state.workHead := rfl

omit [DecidableEq W] [DecidableEq T] in
@[simp] theorem setCall_workCurr (state : State W T C) (thread : Thread C)
    (pc : CallPc W T) : (state.setCall thread pc).workCurr = state.workCurr := rfl

omit [DecidableEq W] [DecidableEq T] in
@[simp] theorem setCall_workThread (state : State W T C) (thread : Thread C)
    (pc : CallPc W T) : (state.setCall thread pc).workThread = state.workThread := rfl

omit [DecidableEq W] [DecidableEq T] in
@[simp] theorem setCall_timerHead (state : State W T C) (thread : Thread C)
    (pc : CallPc W T) : (state.setCall thread pc).timerHead = state.timerHead := rfl

omit [DecidableEq W] [DecidableEq T] in
@[simp] theorem setCall_timerThread (state : State W T C) (thread : Thread C)
    (pc : CallPc W T) : (state.setCall thread pc).timerThread = state.timerThread := rfl

omit [DecidableEq W] [DecidableEq T] in
@[simp] theorem setCall_calls_same (state : State W T C) (thread : Thread C)
    (pc : CallPc W T) : (state.setCall thread pc).calls thread = pc := by
  simp [setCall]

omit [DecidableEq W] [DecidableEq T] in
@[simp] theorem setCall_calls_of_ne (state : State W T C) {thread other : Thread C}
    (pc : CallPc W T) (hne : other ≠ thread) :
    (state.setCall thread pc).calls other = state.calls other := by
  simp [setCall, hne]

/-! ### Lock sections -/

/-- The body of `schedule_work`. -/
def scheduleWork (state : State W T C) (work : W) :
    State W T C × Int × List (Event W T C) :=
  if state.queued work then (state, 0, [.scheduled work 0])
  else ({ state with workHead := state.workHead.insertTail work }, 1,
    [.scheduled work 1])

/-- The removal that `cancel_work`, `cancel_work_sync` and `tasklet_kill` share. -/
def cancelWork (state : State W T C) (work : W) :
    State W T C × List (Event W T C) :=
  let taken := state.workHead.takeOut work
  ({ state with workHead := taken.1 }, if taken.2 then [.cancelled work] else [])

/-- The body of `del_timer`. -/
def delTimer (state : State W T C) (timer : T) :
    State W T C × Int × List (Event W T C) :=
  let taken := state.timerHead.takeOut timer
  ({ state with timerHead := taken.1 }, if taken.2 then 1 else 0,
    if taken.2 then [.disarmed timer] else [])

/-- The insertion of `add_timer`.  The code does not test whether the timer has
been linked since its own `del_timer`. -/
def linkTimer (state : State W T C) (timer : T) : State W T C :=
  { state with timerHead := state.timerHead.insertTail timer }

/-! ### The worker thread -/

/-- The top of `work_exec`'s loop, up to the call of the function or the sleep. -/
def takeWork (state : State W T C) : Option (State W T C × List (Event W T C)) :=
  match state.workHead.first with
  | some work => (state.workHead.remove work).map fun removed =>
      ({ state with
          workHead := removed.clearPrev work
          workCurr := some work
          workThread := .running work }, [.started work])
  | none => some ({ state with flushWorkVar := false, workThread := .idle }, [])

/-- `work_exec`: a work function that has returned is followed, in the same lock
section, by the top of the loop.  It cannot return in the middle of a call. -/
def workExec (state : State W T C) : Option (State W T C × List (Event W T C)) :=
  if state.calls .worker = .idle then
    match state.workThread with
    | .idle => state.takeWork
    | .running work =>
        (takeWork { state with workCurr := none }).map fun next =>
          (next.1, .finished work :: next.2)
  else none

/-! ### The timer thread -/

/-- `(int64_t)(t->expires - last_jiffies) < 0` -/
def expired (state : State W T C) (lastJiffies : BitVec 64) (timer : T) : Bool :=
  (state.expires timer - lastJiffies).msb

/-- `TAILQ_FOREACH`, up to the first timer that has expired. -/
def findExpired (state : State W T C) (lastJiffies : BitVec 64) :
    ℕ → Option T → Option (Option T)
  | _, none => some none
  | 0, some _ => none
  | fuel + 1, some timer =>
      if state.expired lastJiffies timer then some (some timer)
      else findExpired state lastJiffies fuel (state.timerHead.next timer)

variable (dwork : T → Option W)

/-- One scan of `timer_exec`, up to the call of a timer function or the end of the
list.  `dwork` says which timers belong to a delayed work: their function is
`delayed_work_timer_fn`, whose body is a call of `schedule_work`. -/
def scanTimers (state : State W T C) (lastJiffies : BitVec 64) (fuel : ℕ) :
    Option (State W T C × List (Event W T C)) :=
  match state.findExpired lastJiffies fuel state.timerHead.first with
  | none => none
  | some none => some ({ state with timerThread := .idle }, [])
  | some (some timer) => (state.timerHead.remove timer).map fun removed =>
      let fired := { state with
        timerHead := removed.clearPrev timer
        timerThread := .running timer lastJiffies }
      match dwork timer with
      | some work => (fired.setCall .timer (.entry (.scheduleWork work)),
          [.fired timer, .call .timer (.scheduleWork work)])
      | none => (fired, [.fired timer])

/-- `timer_exec`: a new scan with a new time, or the `goto restart` after a timer
function has returned, with the old one. -/
def timerExec (state : State W T C) (now : BitVec 64) (fuel : ℕ) :
    Option (State W T C × List (Event W T C)) :=
  if state.calls .timer = .idle then
    match state.timerThread with
    | .idle => state.scanTimers dwork now fuel
    | .running _ lastJiffies => state.scanTimers dwork lastJiffies fuel
  else none

/-! ### Calls -/

/-- A thread may start a call if it is not in one; the worker and the timer thread
only from inside the functions drivers gave them. -/
def mayCall (state : State W T C) (thread : Thread C) : Bool :=
  decide (state.calls thread = .idle) &&
    match thread with
    | .client _ => true
    | .worker => decide (state.workThread ≠ .idle)
    | .timer => match state.timerThread with
        | .idle => false
        | .running timer _ => (dwork timer).isNone

def invoke (state : State W T C) (thread : Thread C) (call : Call W T) :
    Option (State W T C × List (Event W T C)) :=
  if state.mayCall dwork thread then
    some (state.setCall thread (.entry call), [.call thread call])
  else none

/-- The call returns. -/
def returnWith (state : State W T C) (thread : Thread C) (call : Call W T)
    (value : Int) (events : List (Event W T C)) :
    Option (State W T C × List (Event W T C)) :=
  some (state.setCall thread .idle, events ++ [.ret thread call value])

/-- The call goes on to a later lock section. -/
def goto (state : State W T C) (thread : Thread C) (pc : CallPc W T)
    (events : List (Event W T C)) : Option (State W T C × List (Event W T C)) :=
  some (state.setCall thread pc, events)

/-- `while (work == work_curr) schedule();` and the return. -/
def pollCurr (state : State W T C) (thread : Thread C) (call : Call W T) (work : W)
    (events : List (Event W T C)) : Option (State W T C × List (Event W T C)) :=
  if state.workCurr = some work then state.goto thread (.waitCurr call work) events
  else state.returnWith thread call 0 events

/-- `cancel_work_sync` -/
def cancelWorkSync (state : State W T C) (thread : Thread C) (call : Call W T)
    (work : W) : Option (State W T C × List (Event W T C)) :=
  (state.cancelWork work).1.pollCurr thread call work (state.cancelWork work).2

/-- The loop of `flush_work` and its return. -/
def pollFlushWork (state : State W T C) (thread : Thread C) (work : W) (retval : Int) :
    Option (State W T C × List (Event W T C)) :=
  if state.queued work ∨ state.workCurr = some work then
    state.goto thread (.waitFlushWork work retval) []
  else state.returnWith thread (.flushWork work) retval []

/-- The loop of `flush_scheduled_work` and its return. -/
def pollFlushVar (state : State W T C) (thread : Thread C) :
    Option (State W T C × List (Event W T C)) :=
  if state.flushWorkVar then state.goto thread .waitFlushVar []
  else state.returnWith thread .flushScheduledWork 0 []

/-- The first lock section of a call. -/
def enter (state : State W T C) (thread : Thread C) :
    Call W T → Option (State W T C × List (Event W T C))
  | .scheduleWork work =>
      let (next, retval, events) := state.scheduleWork work
      next.returnWith thread (.scheduleWork work) retval events
  | .scheduleDelayedWork timer delay =>
      (dwork timer).bind fun work =>
        if delay = 0 then
          let (next, retval, events) := state.scheduleWork work
          next.returnWith thread (.scheduleDelayedWork timer delay) retval events
        else if state.pending timer then
          state.returnWith thread (.scheduleDelayedWork timer delay) 0 []
        else state.goto thread (.setExpires timer delay) []
  | .cancelWork work =>
      let (next, events) := state.cancelWork work
      next.returnWith thread (.cancelWork work) 0 events
  | .cancelWorkSync work => state.cancelWorkSync thread (.cancelWorkSync work) work
  | .cancelDelayedWork timer =>
      (dwork timer).bind fun work =>
        let (next, events) := state.cancelWork work
        next.returnWith thread (.cancelDelayedWork timer) 0 events
  | .cancelDelayedWorkSync timer =>
      (dwork timer).bind fun work =>
        let (next, events) := state.cancelWork work
        next.goto thread (.cancelSync (.cancelDelayedWorkSync timer) work) events
  | .cancelRearmingDelayedWork timer =>
      (dwork timer).bind fun work =>
        let (next, events) := state.cancelWork work
        next.returnWith thread (.cancelRearmingDelayedWork timer) 0 events
  | .flushWork work =>
      state.pollFlushWork thread work (if state.queued work then 1 else 0)
  | .flushScheduledWork => ({ state with flushWorkVar := true }).pollFlushVar thread
  | .taskletSchedule work =>
      let (next, _, events) := state.scheduleWork work
      next.returnWith thread (.taskletSchedule work) 0 events
  | .taskletKill work =>
      let (next, events) := state.cancelWork work
      next.returnWith thread (.taskletKill work) 0 events
  | .timerPending timer =>
      state.returnWith thread (.timerPending timer) (if state.pending timer then 1 else 0) []
  | .addTimer timer =>
      let (next, _, events) := state.delTimer timer
      next.goto thread (.linkTimer (.addTimer timer) timer) events
  | .delTimer timer =>
      let (next, retval, events) := state.delTimer timer
      next.returnWith thread (.delTimer timer) retval events
  | .delTimerSync timer =>
      let (next, retval, events) := state.delTimer timer
      next.returnWith thread (.delTimerSync timer) retval events
  | .modTimer timer expires =>
      ({ state with expires := Function.update state.expires timer expires }).returnWith
        thread (.modTimer timer expires) (if state.pending timer then 1 else 0) []

/-- The next lock section of the call a thread is in. -/
def advance (state : State W T C) (thread : Thread C) (now : BitVec 64) :
    Option (State W T C × List (Event W T C)) :=
  match state.calls thread with
  | .idle => none
  | .entry call => state.enter dwork thread call
  | .setExpires timer delay =>
      ({ state with
          expires := Function.update state.expires timer (now + delay) }).goto thread
        (.unlinkTimer (.scheduleDelayedWork timer delay) timer) []
  | .unlinkTimer call timer =>
      let (next, _, events) := state.delTimer timer
      next.goto thread (.linkTimer call timer) events
  | .linkTimer call timer =>
      (state.linkTimer timer).returnWith thread call
        (match call with | .scheduleDelayedWork _ _ => 1 | _ => 0) [.armed timer]
  | .cancelSync call work => state.cancelWorkSync thread call work
  | .waitCurr call work => state.pollCurr thread call work []
  | .waitFlushWork work retval => state.pollFlushWork thread work retval
  | .waitFlushVar => state.pollFlushVar thread

end State

/-- The machine: one action is one lock section, or the beginning of a call. -/
def taskMachine {W T C : Type} [DecidableEq W] [DecidableEq T] [DecidableEq C]
    (dwork : T → Option W) : Machine (State W T C) (Action W T C) (Event W T C) where
  step state
    | .invoke thread call => state.invoke dwork thread call
    | .advance thread now => state.advance dwork thread now
    | .workExec => state.workExec
    | .timerExec now fuel => state.timerExec dwork now fuel

end Webcamd.Kernel
