import Webcamd.Library.Machine

/-!
# Kernel threads

A model of `kthread_run`, `kthread_wrapper`, `kthread_stop` and `kthread_should_stop` of
`kernel/linux_thread.c`, for any number of threads, whose steps come in any order.

The caller of `kthread_run` passes the function and its argument in allocated memory, waits until
the new thread has set the function in there to `NULL`, and frees the memory.  `kthread_stop` sends
a signal, the handler of which sets a flag of the thread, and waits for the thread to end.  Two
things can go wrong in such code: the memory can be used after it is free, and a signal that comes
before the handler is there is lost.  `KThreadRun.lean` shows that neither happens.

* `Job` — one thread: its caller, the thread itself, and who stops it.
* `kthreadMachine` — all of them, with the one mutex and the one condition variable.
* `JobOk` — the invariant; `JobOk.callerTurn`, `JobOk.threadTurn` and so on: every step keeps it.
-/

namespace Webcamd.Kernel.KThread

open Webcamd.Library

/-! ### The machine -/

/-- Where the caller of `kthread_run` is. -/
inductive CallerPc where
  | notCalled
  /-- the memory is allocated and filled in -/
  | filled
  /-- `pthread_create` was successful -/
  | created
  /-- with the mutex, about to look whether `fd->func` is `NULL` -/
  | testing
  | sleeping
  /-- woken up, and wants the mutex again -/
  | woken
  /-- with the mutex, after the loop -/
  | leaving
  /-- `free(fd)` comes next -/
  | left
  | returned
  | failed
  deriving DecidableEq

/-- Where the thread is, in the order of `kthread_wrapper`. -/
inductive ThreadPc where
  | absent
  /-- `*arg` is about to be copied -/
  | fresh
  | copied
  /-- `wrapper_key` is set -/
  | keyed
  /-- the signal handler is installed -/
  | handling
  | locked
  /-- `func` in the memory of the caller is `NULL` -/
  | cleared
  /-- all sleepers have been woken up -/
  | signalled
  /-- the function is about to be called -/
  | calling
  | running
  | done
  /-- `wrapper_key` is `NULL` again -/
  | unkeyed
  | exited
  deriving DecidableEq

/-- Where the caller of `kthread_stop` is. -/
inductive StopPc where
  | notCalled
  | called
  /-- the signal is sent -/
  | joining
  | returned
  deriving DecidableEq

/-- One thread, and what there is about it. -/
structure Job (F D : Type) where
  caller : CallerPc
  thread : ThreadPc
  /-- `*fd`, as long as it is allocated -/
  fd : Option (Option F × D)
  /-- the copy of it on the stack of the thread -/
  copy : Option (Option F × D)
  /-- `wrapper_key` of the thread is set -/
  key : Bool
  /-- `wrapper.stopping` -/
  stopping : Bool
  /-- the signal is sent, and not delivered -/
  pending : Bool
  stop : StopPc

/-- Nothing has happened. -/
def Job.init {F D : Type} : Job F D :=
  ⟨.notCalled, .absent, none, none, false, false, false, .notCalled⟩

/-- A broadcast wakes the caller up. -/
def Job.awaken {F D : Type} (job : Job F D) : Job F D :=
  if job.caller = .sleeping then { job with caller := .woken } else job

/-- What is seen of a thread. -/
inductive Tell (F D : Type) where
  /-- `kthread_run` is called -/
  | ran (func : F) (data : D)
  /-- the function is called -/
  | called (func : F) (data : D)
  /-- what `kthread_should_stop` says -/
  | asked (answer : Bool)
  /-- freed memory is used, or `NULL` is called -/
  | fault
  deriving DecidableEq

/-- What a step does to `atomic_mutex`. -/
inductive LockChange where
  | keep
  | take
  | give
  deriving DecidableEq

/-- What one step does. -/
structure Turn (F D : Type) where
  job : Job F D
  lock : LockChange
  broadcast : Bool
  /-- the handler is installed, for all threads -/
  install : Bool
  tells : List (Tell F D)

/-- A step that only concerns the thread itself. -/
def Turn.of {F D : Type} (job : Job F D) : Turn F D := ⟨job, .keep, false, false, []⟩

section Turns

variable {F D : Type} (job : Job F D)

/-- `kthread_run` up to `pthread_create`; `malloc` may fail. -/
def Job.runTurn (func : F) (data : D) (allocated : Bool) : Option (Turn F D) :=
  if job.caller = .notCalled then
    if allocated then some ⟨{ job with caller := .filled, fd := some (some func, data) },
      .keep, false, false, [.ran func data]⟩
    else some (.of { job with caller := .failed })
  else none

/-- `pthread_create`, which may fail -/
def Job.createTurn (created : Bool) : Option (Turn F D) :=
  if job.caller = .filled then
    if created then some (.of { job with caller := .created, thread := .fresh })
    else some (.of { job with caller := .failed, fd := none })
  else none

/-- The rest of `kthread_run`; `free` tells if the mutex is free. -/
def Job.callerTurn (free : Bool) : Option (Turn F D) :=
  match job.caller with
  | .created | .woken =>
      if free then some ⟨{ job with caller := .testing }, .take, false, false, []⟩ else none
  | .testing =>
      match job.fd with
      | none => some ⟨job, .keep, false, false, [.fault]⟩
      | some (some _, _) => some ⟨{ job with caller := .sleeping }, .give, false, false, []⟩
      | some (none, _) => some (.of { job with caller := .leaving })
  | .leaving => some ⟨{ job with caller := .left }, .give, false, false, []⟩
  | .left =>
      if job.fd.isSome then some (.of { job with caller := .returned, fd := none })
      else some ⟨job, .keep, false, false, [.fault]⟩
  | _ => none

/-- `kthread_wrapper`, without the function that it calls -/
def Job.threadTurn (free : Bool) : Option (Turn F D) :=
  match job.thread with
  | .fresh =>
      if job.fd.isSome then some (.of { job with thread := .copied, copy := job.fd })
      else some ⟨job, .keep, false, false, [.fault]⟩
  | .copied => some (.of { job with thread := .keyed, key := true })
  | .keyed => some ⟨{ job with thread := .handling }, .keep, false, true, []⟩
  | .handling =>
      if free then some ⟨{ job with thread := .locked }, .take, false, false, []⟩ else none
  | .locked =>
      match job.fd with
      | some (_, data) => some (.of { job with thread := .cleared, fd := some (none, data) })
      | none => some ⟨job, .keep, false, false, [.fault]⟩
  | .cleared => some ⟨{ job with thread := .signalled }, .keep, true, false, []⟩
  | .signalled => some ⟨{ job with thread := .calling }, .give, false, false, []⟩
  | .calling =>
      match job.copy with
      | some (some func, data) =>
          some ⟨{ job with thread := .running }, .keep, false, false, [.called func data]⟩
      | _ => some ⟨job, .keep, false, false, [.fault]⟩
  | .done => some (.of { job with thread := .unkeyed, key := false })
  | .unkeyed => some (.of { job with thread := .exited })
  | _ => none

/-- The function asks `kthread_should_stop`, or returns. -/
def Job.functionTurn (returns : Bool) : Option (Turn F D) :=
  if job.thread = .running then
    if returns then some (.of { job with thread := .done })
    else some ⟨job, .keep, false, false, [.asked (job.key && job.stopping)]⟩
  else none

/-- `kthread_stop`, by one who has got the thread from `kthread_run` -/
def Job.stopTurn : Option (Turn F D) :=
  match job.stop with
  | .notCalled =>
      if job.caller = .returned then some (.of { job with stop := .called }) else none
  | .called => some (.of { job with stop := .joining, pending := true })
  | .joining => if job.thread = .exited then some (.of { job with stop := .returned }) else none
  | .returned => none

/-- `SIGURG` is delivered: `thread_urg`, if it is installed. -/
def Job.deliverTurn (handler : Bool) : Option (Turn F D) :=
  if job.pending = true ∧ job.thread ≠ .absent ∧ job.thread ≠ .exited then
    some (.of { job with pending := false, stopping := job.stopping || (handler && job.key) })
  else none

/-- `pthread_cond_wait` returns for no reason. -/
def Job.spuriousTurn : Option (Turn F D) :=
  if job.caller = .sleeping then some (.of { job with caller := .woken }) else none

end Turns

/-- Who holds `atomic_mutex`. -/
inductive Owner (J : Type) where
  | caller (job : J)
  | thread (job : J)
  | other
  deriving DecidableEq

structure State (J F D : Type) where
  /-- the handler is installed -/
  handler : Bool
  owner : Option (Owner J)
  jobs : J → Job F D

def State.init {J F D : Type} : State J F D := ⟨false, none, fun _ => .init⟩

inductive Action (J F D : Type) where
  | run (job : J) (func : F) (data : D) (allocated : Bool)
  | create (job : J) (created : Bool)
  | caller (job : J)
  | thread (job : J)
  | function (job : J) (returns : Bool)
  | stop (job : J)
  | deliver (job : J)
  | spurious (job : J)
  /-- the mutex, for something else -/
  | lock
  | unlock (broadcast : Bool)

section Machine

variable {J F D : Type} [DecidableEq J]

/-- The thread after its step. -/
def Turn.after (turn : Turn F D) : Job F D :=
  bif turn.broadcast then turn.job.awaken else turn.job

/-- Who has the mutex after a step. -/
def LockChange.owner (owner : Option (Owner J)) (who : Owner J) : LockChange → Option (Owner J)
  | keep => owner
  | take => some who
  | give => none

/-- A step of one thread is a step of all. -/
def State.take (state : State J F D) (job : J) (who : Owner J) (turn : Turn F D) :
    State J F D × List (J × Tell F D) :=
  (⟨state.handler || turn.install,
    turn.lock.owner state.owner who,
    fun other =>
      let after := if other = job then turn.job else state.jobs other
      bif turn.broadcast then after.awaken else after⟩,
    turn.tells.map (job, ·))

/-- **All threads**, and whatever else uses the mutex. -/
def kthreadMachine : Machine (State J F D) (Action J F D) (J × Tell F D) where
  step state
    | .run job func data allocated =>
        ((state.jobs job).runTurn func data allocated).map (state.take job (.caller job))
    | .create job created =>
        ((state.jobs job).createTurn created).map (state.take job (.caller job))
    | .caller job =>
        ((state.jobs job).callerTurn state.owner.isNone).map (state.take job (.caller job))
    | .thread job =>
        ((state.jobs job).threadTurn state.owner.isNone).map (state.take job (.thread job))
    | .function job returns =>
        ((state.jobs job).functionTurn returns).map (state.take job (.thread job))
    | .stop job => (state.jobs job).stopTurn.map (state.take job (.caller job))
    | .deliver job =>
        ((state.jobs job).deliverTurn state.handler).map (state.take job (.thread job))
    | .spurious job => (state.jobs job).spuriousTurn.map (state.take job (.caller job))
    | .lock => if state.owner = none then some ({ state with owner := some .other }, []) else none
    | .unlock broadcast =>
        if state.owner = some .other then
          some ({ state with
            owner := none
            jobs := fun job => if broadcast then (state.jobs job).awaken else state.jobs job }, [])
        else none

end Machine

/-! ### The invariant -/

/-- Where the caller has the mutex. -/
def CallerPc.holds : CallerPc → Bool
  | testing | leaving => true
  | _ => false

/-- Where there is no thread. -/
def CallerPc.early : CallerPc → Bool
  | notCalled | filled | failed => true
  | _ => false

/-- Where the memory is not allocated. -/
def CallerPc.bare : CallerPc → Bool
  | notCalled | failed | returned => true
  | _ => false

/-- After the loop. -/
def CallerPc.late : CallerPc → Bool
  | leaving | left | returned => true
  | _ => false

/-- Where the thread has the mutex. -/
def ThreadPc.holds : ThreadPc → Bool
  | locked | cleared | signalled => true
  | _ => false

/-- How far the thread has come. -/
def ThreadPc.rank : ThreadPc → ℕ
  | absent => 0
  | fresh => 1
  | copied => 2
  | keyed => 3
  | handling => 4
  | locked => 5
  | cleared => 6
  | signalled => 7
  | calling => 8
  | running => 9
  | done => 10
  | unkeyed => 11
  | exited => 12

/-- A request to stop has been sent. -/
def StopPc.sent : StopPc → Bool
  | joining | returned => true
  | _ => false

variable {J F D : Type}

/-- **The invariant** of one thread.  The memory lives as long as the thread may use it, since the
caller leaves its loop only after it has had the mutex, and so after the thread has gone on. -/
structure JobOk (handler callerOwns threadOwns : Prop) (job : Job F D) : Prop where
  callerOwns : callerOwns ↔ job.caller.holds = true
  threadOwns : threadOwns ↔ job.thread.holds = true
  absent : job.thread.rank = 0 ↔ job.caller.early = true
  allocated : job.fd = none ↔ job.caller.bare = true
  /-- the function is `NULL` from a certain point on, and only then -/
  cleared : ∀ fd, job.fd = some fd → (fd.1 = none ↔ 6 ≤ job.thread.rank)
  copied : 2 ≤ job.thread.rank → ∃ func data, job.copy = some (some func, data)
  key : job.key = true ↔ 3 ≤ job.thread.rank ∧ job.thread.rank ≤ 10
  handler : 4 ≤ job.thread.rank → handler
  late : job.caller.late = true → 8 ≤ job.thread.rank
  /-- the broadcast is still to come -/
  asleep : job.caller = .sleeping → job.thread.rank ≤ 6
  handle : job.stop ≠ .notCalled → job.caller = .returned
  requested : job.pending = true ∨ job.stopping = true → job.stop.sent = true
  /-- a request is under way or has arrived -/
  kept : job.stop.sent = true → job.thread.rank ≤ 10 → job.pending = true ∨ job.stopping = true
  joined : job.stop = .returned → job.thread = .exited

variable {handler callerOwns threadOwns : Prop} {job : Job F D} {turn : Turn F D}

theorem JobOk.init (handler : Prop) : JobOk handler False False (.init : Job F D) where
  callerOwns := by simp [Job.init, CallerPc.holds]
  threadOwns := by simp [Job.init, ThreadPc.holds]
  absent := by simp [Job.init, ThreadPc.rank, CallerPc.early]
  allocated := by simp [Job.init, CallerPc.bare]
  cleared := fun fd hfd => by cases hfd
  copied := fun h => absurd h (show ¬ 2 ≤ 0 by decide)
  key := by simp [Job.init, ThreadPc.rank]
  handler := fun h => absurd h (show ¬ 4 ≤ 0 by decide)
  late := fun h => by cases h
  asleep := fun h => by cases h
  handle := fun h => absurd rfl h
  requested := by simp [Job.init]
  kept := fun h => by cases h
  joined := fun h => by cases h

/-- What the others do. -/
theorem JobOk.mono {handler' callerOwns' threadOwns' : Prop}
    (h : JobOk handler callerOwns threadOwns job)
    (hhandler : handler → handler') (hcaller : callerOwns' ↔ callerOwns)
    (hthread : threadOwns' ↔ threadOwns) : JobOk handler' callerOwns' threadOwns' job :=
  { h with
    callerOwns := hcaller.trans h.callerOwns
    threadOwns := hthread.trans h.threadOwns
    handler := fun hrank => hhandler (h.handler hrank) }

theorem JobOk.awaken (h : JobOk handler callerOwns threadOwns job) :
    JobOk handler callerOwns threadOwns job.awaken := by
  unfold Job.awaken
  split
  · rename_i hasleep
    exact { h with
      callerOwns := by simpa [hasleep, CallerPc.holds] using h.callerOwns
      absent := by simpa [hasleep, CallerPc.early] using h.absent
      allocated := by simpa [hasleep, CallerPc.bare] using h.allocated
      late := fun hlate => by cases hlate
      asleep := fun hasleep => by cases hasleep
      handle := fun hstop => by simpa [hasleep] using h.handle hstop }
  · exact h

/-- What a step does to who has the mutex. -/
def LockChange.owns (mine : Prop) : LockChange → Prop
  | keep => mine
  | take => True
  | give => False

/-! ### The steps -/

theorem JobOk.runTurn {func : F} {data : D} {allocated : Bool}
    (h : JobOk handler callerOwns threadOwns job)
    (hturn : job.runTurn func data allocated = some turn) :
    JobOk (handler ∨ turn.install = true) (turn.lock.owns callerOwns) threadOwns turn.after := by
  obtain ⟨caller, thread, fd, copy, key, stopping, pending, stop⟩ := job
  unfold Job.runTurn at hturn
  split_ifs at hturn with hcaller hallocated
  · obtain rfl := Option.some.inj hturn
    obtain rfl : caller = .notCalled := hcaller
    have hrank : thread.rank = 0 := h.absent.mpr rfl
    exact { h with
      callerOwns := h.callerOwns
      absent := h.absent
      allocated := by simp [Turn.after, CallerPc.bare]
      cleared := fun fd hfd => by
        obtain rfl := Option.some.inj hfd
        simp [Turn.after, hrank]
      handler := fun hrank => .inl (h.handler hrank)
      late := fun hlate => by cases hlate
      asleep := fun hasleep => by cases hasleep
      handle := fun hstop => by cases h.handle hstop }
  · obtain rfl := Option.some.inj hturn
    obtain rfl : caller = .notCalled := hcaller
    exact { h with
      callerOwns := h.callerOwns
      absent := h.absent
      allocated := h.allocated
      handler := fun hrank => .inl (h.handler hrank)
      late := fun hlate => by cases hlate
      asleep := fun hasleep => by cases hasleep
      handle := fun hstop => by cases h.handle hstop }

theorem JobOk.createTurn {created : Bool} (h : JobOk handler callerOwns threadOwns job)
    (hturn : job.createTurn created = some turn) :
    JobOk (handler ∨ turn.install = true) (turn.lock.owns callerOwns) threadOwns turn.after := by
  obtain ⟨caller, thread, fd, copy, key, stopping, pending, stop⟩ := job
  unfold Job.createTurn at hturn
  split_ifs at hturn with hcaller hcreated
  · obtain rfl := Option.some.inj hturn
    obtain rfl : caller = .filled := hcaller
    have hrank : thread.rank = 0 := h.absent.mpr rfl
    obtain rfl : thread = .absent := by cases thread <;> first | rfl | cases hrank
    exact { h with
      callerOwns := h.callerOwns
      threadOwns := h.threadOwns
      absent := by simp [Turn.after, Turn.of, ThreadPc.rank, CallerPc.early]
      allocated := h.allocated
      cleared := fun fd hfd => (h.cleared fd hfd).trans
        (by simp [Turn.after, Turn.of, ThreadPc.rank])
      copied := fun h => absurd h (show ¬ 2 ≤ 1 by decide)
      key := h.key.trans (by simp [Turn.after, Turn.of, ThreadPc.rank])
      handler := fun h => absurd h (show ¬ 4 ≤ 1 by decide)
      late := fun hlate => by cases hlate
      asleep := fun hasleep => by cases hasleep
      handle := fun hstop => by cases h.handle hstop
      kept := fun hsent _ => h.kept hsent (Nat.zero_le 10)
      joined := fun hstop => by cases h.joined hstop }
  · obtain rfl := Option.some.inj hturn
    obtain rfl : caller = .filled := hcaller
    exact { h with
      callerOwns := h.callerOwns
      absent := h.absent
      allocated := by simp [Turn.after, Turn.of, CallerPc.bare]
      cleared := fun fd hfd => by cases hfd
      handler := fun hrank => .inl (h.handler hrank)
      late := fun hlate => by cases hlate
      asleep := fun hasleep => by cases hasleep
      handle := fun hstop => by cases h.handle hstop }

/-- The caller never finds the memory gone. -/
theorem JobOk.fd_isSome (h : JobOk handler callerOwns threadOwns job)
    (hbare : job.caller.bare = false) : job.fd ≠ none := by
  intro hfd
  rw [h.allocated, hbare] at hfd
  cases hfd

theorem JobOk.callerTurn {free : Bool} (h : JobOk handler callerOwns threadOwns job)
    (hfree : free = true → ¬ threadOwns) (hexclusive : callerOwns → ¬ threadOwns)
    (hturn : job.callerTurn free = some turn) :
    JobOk (handler ∨ turn.install = true) (turn.lock.owns callerOwns) threadOwns turn.after ∧
      turn.tells = [] := by
  obtain ⟨caller, thread, fd, copy, key, stopping, pending, stop⟩ := job
  have hmine := h.callerOwns
  have hthread := h.threadOwns
  have handler' : 4 ≤ thread.rank → handler ∨ turn.install = true :=
    fun hrank => .inl (h.handler hrank)
  unfold Job.callerTurn at hturn
  cases caller with
  | notCalled | filled | sleeping | returned | failed => cases hturn
  | created | woken =>
      cases free with
      | false => cases hturn
      | true =>
          obtain rfl := Option.some.inj hturn
          exact ⟨{ h with
            callerOwns := by simp [Turn.after, LockChange.owns, CallerPc.holds]
            absent := h.absent
            allocated := h.allocated
            handler := handler'
            late := fun hlate => by cases hlate
            asleep := fun hasleep => by cases hasleep
            handle := fun hstop => by cases h.handle hstop }, rfl⟩
  | testing =>
      have hfd := h.fd_isSome rfl
      have hholds : ¬ thread.holds = true := fun hholds =>
        hexclusive (hmine.mpr rfl) (hthread.mpr hholds)
      obtain _ | ⟨_ | func, data⟩ := fd
      · exact absurd rfl hfd
      · obtain rfl := Option.some.inj hturn
        have hrank : 6 ≤ thread.rank := (h.cleared _ rfl).mp rfl
        refine ⟨{ h with
          callerOwns := h.callerOwns
          absent := h.absent
          allocated := h.allocated
          handler := handler'
          late := fun _ => ?_
          asleep := fun hasleep => by cases hasleep
          handle := fun hstop => by cases h.handle hstop }, rfl⟩
        cases thread <;> simp_all [ThreadPc.rank, ThreadPc.holds, Turn.after, Turn.of]
      · obtain rfl := Option.some.inj hturn
        have hrank : ¬ 6 ≤ thread.rank := fun hrank => by cases (h.cleared _ rfl).mpr hrank
        exact ⟨{ h with
          callerOwns := by simp [Turn.after, LockChange.owns, CallerPc.holds]
          absent := h.absent
          allocated := h.allocated
          handler := handler'
          late := fun hlate => by cases hlate
          asleep := fun _ => by show thread.rank ≤ 6; omega
          handle := fun hstop => by cases h.handle hstop }, rfl⟩
  | leaving =>
      obtain rfl := Option.some.inj hturn
      exact ⟨{ h with
        callerOwns := by simp [Turn.after, LockChange.owns, CallerPc.holds]
        absent := h.absent
        allocated := h.allocated
        handler := handler'
        late := fun _ => h.late rfl
        asleep := fun hasleep => by cases hasleep
        handle := fun hstop => by cases h.handle hstop }, rfl⟩
  | left =>
      have hfd := h.fd_isSome rfl
      dsimp only at hturn
      rw [if_pos (Option.isSome_iff_ne_none.mpr hfd)] at hturn
      obtain rfl := Option.some.inj hturn
      exact ⟨{ h with
        callerOwns := h.callerOwns
        absent := h.absent
        allocated := by simp [Turn.after, Turn.of, CallerPc.bare]
        cleared := fun fd hfd => by cases hfd
        handler := handler'
        late := fun _ => h.late rfl
        asleep := fun hasleep => by cases hasleep
        handle := fun _ => rfl }, rfl⟩

theorem ThreadPc.rank_le (thread : ThreadPc) : thread.rank ≤ 12 := by
  cases thread <;> decide

/-- The thread goes on, where nothing else changes with it. -/
theorem JobOk.advance {threadOwns' : Prop} (thread : ThreadPc)
    (h : JobOk handler callerOwns threadOwns job) (hstart : job.thread.rank ≠ 0)
    (hrank : thread.rank = job.thread.rank + 1) (hlock : threadOwns' ↔ thread.holds = true)
    (hquiet : thread.rank ∉ [2, 3, 4, 6, 11]) (hasleep : thread.rank = 7 → job.caller ≠ .sleeping) :
    JobOk handler callerOwns threadOwns' { job with thread := thread } := by
  simp only [List.mem_cons, List.not_mem_nil, or_false, not_or] at hquiet
  have hmost := thread.rank_le
  exact { h with
    threadOwns := hlock
    absent := (iff_of_false (by show thread.rank ≠ 0; omega) hstart).trans h.absent
    cleared := fun fd hfd => (h.cleared fd hfd).trans (by show _ ↔ 6 ≤ thread.rank; omega)
    copied := fun _ => h.copied (by omega)
    key := h.key.trans (by show _ ↔ 3 ≤ thread.rank ∧ thread.rank ≤ 10; omega)
    handler := fun _ => h.handler (by omega)
    late := fun hlate => (h.late hlate).trans (by show _ ≤ thread.rank; omega)
    asleep := fun hcaller => by
      have hbefore := h.asleep hcaller
      show thread.rank ≤ 6
      by_contra hafter
      exact hasleep (by omega) hcaller
    kept := fun hsent hrank' => h.kept hsent (by
      replace hrank' : thread.rank ≤ 10 := hrank'
      omega)
    joined := fun hstop => by
      have hexited : job.thread = .exited := h.joined hstop
      rw [hexited, ThreadPc.rank] at hrank
      omega }

/-- The memory is there until the mutex is given back. -/
theorem JobOk.fd_of_rank (h : JobOk handler callerOwns threadOwns job)
    (hrank : job.thread.rank ≠ 0) (hbefore : job.thread.rank < 8) :
    ∃ func data, job.fd = some (func, data) ∧ (func = none ↔ 6 ≤ job.thread.rank) := by
  cases hfd : job.fd with
  | some fd => exact ⟨fd.1, fd.2, rfl, h.cleared fd hfd⟩
  | none =>
      have hbare := h.allocated.mp hfd
      have habsent := h.absent
      have hlate := h.late
      cases hcaller : job.caller <;>
        simp_all [CallerPc.bare, CallerPc.early, CallerPc.late]
      omega

theorem JobOk.threadTurn {free : Bool} (h : JobOk handler callerOwns threadOwns job)
    (hturn : job.threadTurn free = some turn) :
    JobOk (handler ∨ turn.install = true) callerOwns (turn.lock.owns threadOwns) turn.after ∧
      .fault ∉ turn.tells := by
  obtain ⟨caller, thread, fd, copy, key, stopping, pending, stop⟩ := job
  have hnext : JobOk (handler ∨ false = true) callerOwns threadOwns _ := h.mono .inl Iff.rfl Iff.rfl
  unfold Job.threadTurn at hturn
  cases thread with
  | absent | running | exited => cases hturn
  | fresh =>
      obtain ⟨func, data, hfd, hfunc⟩ := h.fd_of_rank (by simp [ThreadPc.rank])
        (by simp [ThreadPc.rank])
      obtain rfl : fd = some (func, data) := hfd
      obtain rfl := Option.some.inj hturn
      obtain ⟨func, rfl⟩ := Option.ne_none_iff_exists'.mp fun hnone =>
        absurd (hfunc.mp hnone) (by simp [ThreadPc.rank])
      exact ⟨{ h with
        threadOwns := h.threadOwns
        absent := by simpa [Turn.after, Turn.of, ThreadPc.rank] using h.absent
        cleared := fun fd hfd => (h.cleared fd hfd).trans
          (by simp [Turn.after, Turn.of, ThreadPc.rank])
        copied := fun _ => ⟨func, data, rfl⟩
        key := by simpa [Turn.after, Turn.of, ThreadPc.rank] using h.key
        handler := fun h => absurd h (by simp [Turn.after, Turn.of, ThreadPc.rank])
        late := fun hlate => absurd (h.late hlate) (by simp [ThreadPc.rank])
        asleep := fun _ => by simp [Turn.after, Turn.of, ThreadPc.rank]
        kept := fun hsent _ => h.kept hsent (by simp [ThreadPc.rank])
        joined := fun hstop => by cases h.joined hstop }, by simp [Turn.of]⟩
  | copied =>
      obtain rfl := Option.some.inj hturn
      exact ⟨{ h with
        threadOwns := h.threadOwns
        absent := by simpa [Turn.after, Turn.of, ThreadPc.rank] using h.absent
        cleared := fun fd hfd => (h.cleared fd hfd).trans
          (by simp [Turn.after, Turn.of, ThreadPc.rank])
        copied := fun _ => h.copied (by simp [ThreadPc.rank])
        key := by simp [Turn.after, Turn.of, ThreadPc.rank]
        handler := fun h => absurd h (by simp [Turn.after, Turn.of, ThreadPc.rank])
        late := fun hlate => absurd (h.late hlate) (by simp [ThreadPc.rank])
        asleep := fun _ => by simp [Turn.after, Turn.of, ThreadPc.rank]
        kept := fun hsent _ => h.kept hsent (by simp [ThreadPc.rank])
        joined := fun hstop => by cases h.joined hstop }, by simp [Turn.of]⟩
  | keyed =>
      obtain rfl := Option.some.inj hturn
      exact ⟨{ h with
        threadOwns := h.threadOwns
        absent := by simpa [Turn.after, ThreadPc.rank] using h.absent
        cleared := fun fd hfd => (h.cleared fd hfd).trans (by simp [Turn.after, ThreadPc.rank])
        copied := fun _ => h.copied (by simp [ThreadPc.rank])
        key := by simpa [Turn.after, ThreadPc.rank] using h.key
        handler := fun _ => .inr rfl
        late := fun hlate => absurd (h.late hlate) (by simp [ThreadPc.rank])
        asleep := fun _ => by simp [Turn.after, ThreadPc.rank]
        kept := fun hsent _ => h.kept hsent (by simp [ThreadPc.rank])
        joined := fun hstop => by cases h.joined hstop }, by simp⟩
  | handling =>
      cases free with
      | false => cases hturn
      | true =>
          obtain rfl := Option.some.inj hturn
          exact ⟨hnext.advance .locked (by simp [ThreadPc.rank]) rfl
            (by simp [LockChange.owns, ThreadPc.holds]) (by simp [ThreadPc.rank])
            (by simp [ThreadPc.rank]), by simp⟩
  | locked =>
      obtain ⟨func, data, hfd, -⟩ := h.fd_of_rank (by simp [ThreadPc.rank])
        (by simp [ThreadPc.rank])
      obtain rfl : fd = some (func, data) := hfd
      obtain rfl := Option.some.inj hturn
      exact ⟨{ h with
        threadOwns := h.threadOwns
        absent := by simpa [Turn.after, Turn.of, ThreadPc.rank] using h.absent
        cleared := fun fd hfd => by
          obtain rfl := Option.some.inj hfd
          simp [Turn.after, Turn.of, ThreadPc.rank]
        copied := fun _ => h.copied (by simp [ThreadPc.rank])
        key := by simpa [Turn.after, Turn.of, ThreadPc.rank] using h.key
        handler := fun _ => .inl (h.handler (by simp [ThreadPc.rank]))
        late := fun hlate => absurd (h.late hlate) (by simp [ThreadPc.rank])
        asleep := fun _ => by simp [Turn.after, Turn.of, ThreadPc.rank]
        kept := fun hsent _ => h.kept hsent (by simp [ThreadPc.rank])
        joined := fun hstop => by cases h.joined hstop
        allocated := ⟨fun hfd => (by cases hfd), fun hbare => (by cases h.allocated.mpr hbare)⟩ },
        by simp [Turn.of]⟩
  | cleared =>
      obtain rfl := Option.some.inj hturn
      refine ⟨?_, by simp⟩
      -- the broadcast comes after the function is `NULL`, so whoever sleeps is woken up
      show JobOk _ _ _ (Job.awaken _)
      by_cases hasleep : caller = .sleeping
      · subst hasleep
        exact hnext.awaken.advance .signalled (by simp [Job.awaken, ThreadPc.rank]) rfl
          hnext.threadOwns (by simp [ThreadPc.rank]) (by simp [Job.awaken])
      · rw [Job.awaken, if_neg hasleep]
        exact hnext.advance .signalled (by simp [ThreadPc.rank]) rfl hnext.threadOwns
          (by simp [ThreadPc.rank]) fun _ => hasleep
  | signalled =>
      obtain rfl := Option.some.inj hturn
      exact ⟨hnext.advance .calling (by simp [ThreadPc.rank]) rfl
        (by simp [LockChange.owns, ThreadPc.holds]) (by simp [ThreadPc.rank])
        (by simp [ThreadPc.rank]), by simp⟩
  | calling =>
      obtain ⟨func, data, hcopy⟩ := h.copied (by simp [ThreadPc.rank])
      obtain rfl : copy = some (some func, data) := hcopy
      obtain rfl := Option.some.inj hturn
      exact ⟨hnext.advance .running (by simp [ThreadPc.rank]) rfl hnext.threadOwns
        (by simp [ThreadPc.rank]) (by simp [ThreadPc.rank]), by simp⟩
  | done =>
      obtain rfl := Option.some.inj hturn
      exact ⟨{ h with
        threadOwns := h.threadOwns
        absent := by simpa [Turn.after, Turn.of, ThreadPc.rank] using h.absent
        cleared := fun fd hfd => (h.cleared fd hfd).trans
          (by simp [Turn.after, Turn.of, ThreadPc.rank])
        copied := fun _ => h.copied (by simp [ThreadPc.rank])
        key := by simp [Turn.after, Turn.of, ThreadPc.rank]
        handler := fun _ => .inl (h.handler (by simp [ThreadPc.rank]))
        late := fun _ => by simp [Turn.after, Turn.of, ThreadPc.rank]
        asleep := fun hasleep => absurd (h.asleep hasleep) (by simp [ThreadPc.rank])
        kept := fun _ h => absurd h (by simp [Turn.after, Turn.of, ThreadPc.rank])
        joined := fun hstop => by cases h.joined hstop }, by simp [Turn.of]⟩
  | unkeyed =>
      obtain rfl := Option.some.inj hturn
      exact ⟨hnext.advance .exited (by simp [ThreadPc.rank]) rfl hnext.threadOwns
        (by simp [ThreadPc.rank]) (by simp [ThreadPc.rank]), by simp [Turn.of]⟩

theorem JobOk.functionTurn {returns : Bool} (h : JobOk handler callerOwns threadOwns job)
    (hturn : job.functionTurn returns = some turn) :
    JobOk (handler ∨ turn.install = true) callerOwns (turn.lock.owns threadOwns) turn.after ∧
      .fault ∉ turn.tells := by
  have hnext : JobOk (handler ∨ false = true) callerOwns threadOwns _ := h.mono .inl Iff.rfl Iff.rfl
  unfold Job.functionTurn at hturn
  split_ifs at hturn with hthread hreturns
  · obtain rfl := Option.some.inj hturn
    refine ⟨hnext.advance .done ?_ ?_ ?_ (by simp [ThreadPc.rank]) (by simp [ThreadPc.rank]),
      by simp [Turn.of]⟩
    · simp [hthread, ThreadPc.rank]
    · simp [hthread, ThreadPc.rank]
    · have hlock := h.threadOwns
      rw [hthread] at hlock
      exact hlock
  · obtain rfl := Option.some.inj hturn
    exact ⟨h.mono .inl Iff.rfl Iff.rfl, by simp⟩

theorem JobOk.stopTurn (h : JobOk handler callerOwns threadOwns job)
    (hturn : job.stopTurn = some turn) :
    JobOk (handler ∨ turn.install = true) callerOwns threadOwns turn.after := by
  obtain ⟨caller, thread, fd, copy, key, stopping, pending, stop⟩ := job
  have hnext : JobOk (handler ∨ false = true) callerOwns threadOwns _ := h.mono .inl Iff.rfl Iff.rfl
  unfold Job.stopTurn at hturn
  cases stop with
  | notCalled =>
      dsimp only at hturn
      split_ifs at hturn with hcaller
      obtain rfl := Option.some.inj hturn
      exact { hnext with
        handle := fun _ => hcaller
        requested := fun hsignal => by cases h.requested hsignal
        kept := fun hsent => by cases hsent
        joined := fun hstop => by cases hstop }
  | called =>
      obtain rfl := Option.some.inj hturn
      exact { hnext with
        handle := fun _ => h.handle (by simp)
        requested := fun _ => rfl
        kept := fun _ _ => .inl rfl
        joined := fun hstop => by cases hstop }
  | joining =>
      dsimp only at hturn
      split_ifs at hturn with hthread
      obtain rfl := Option.some.inj hturn
      exact { hnext with
        handle := fun _ => h.handle (by simp)
        requested := fun _ => rfl
        kept := fun _ => h.kept rfl
        joined := fun _ => hthread }
  | returned => cases hturn

/-- **A request that is delivered is not lost**: the thread is past the point where the handler and
the key are there. -/
theorem JobOk.deliverTurn {installed : Bool} (h : JobOk handler callerOwns threadOwns job)
    (hinstalled : handler ↔ installed = true) (hturn : job.deliverTurn installed = some turn) :
    JobOk (handler ∨ turn.install = true) callerOwns (turn.lock.owns threadOwns) turn.after := by
  have hnext : JobOk (handler ∨ false = true) callerOwns threadOwns _ := h.mono .inl Iff.rfl Iff.rfl
  unfold Job.deliverTurn at hturn
  split_ifs at hturn with hpending
  obtain rfl := Option.some.inj hturn
  have hsent := h.requested (.inl hpending.1)
  exact { hnext with
    requested := fun _ => hsent
    kept := fun _ hrank => by
      have hcaller := h.handle fun hstop => by simp [hstop, StopPc.sent] at hsent
      have hlate := h.late (by rw [hcaller]; rfl)
      have hkey := h.key.mpr ⟨by omega, hrank⟩
      have hhandler := hinstalled.mp (h.handler (by omega))
      right
      show (job.stopping || (installed && job.key)) = true
      rw [hkey, hhandler, Bool.and_self, Bool.or_true] }

theorem JobOk.spuriousTurn (h : JobOk handler callerOwns threadOwns job)
    (hturn : job.spuriousTurn = some turn) :
    JobOk (handler ∨ turn.install = true) (turn.lock.owns callerOwns) threadOwns turn.after := by
  unfold Job.spuriousTurn at hturn
  split_ifs at hturn with hasleep
  obtain rfl := Option.some.inj hturn
  have hawake := h.awaken
  rw [Job.awaken, if_pos hasleep] at hawake
  exact hawake.mono .inl Iff.rfl Iff.rfl

end Webcamd.Kernel.KThread
