import Webcamd.Kernel.Completion

/-!
# Timed waits

`wait_for_completion_timeout` and `wait_event_timeout` take a timeout in milliseconds, which
`__wait_get_timeout` makes into a deadline, and return it again if they were not too late.

* `waitGetTimeout_iff` — the deadline is not early, and grows with the timeout, exactly for the
  timeouts whose nanoseconds fit into 64 bits.
* `TellsTruth` — what the value that a timed wait returns should say about what it has done.
* `returns_truthful_iff` — it says so in a run exactly if no wait with timeout zero passes its
  test, and none that its deadline wakes up could have passed it by then.
-/

namespace Webcamd.Kernel.Completion

open Webcamd.Library

/-! ### The deadline -/

/-- `struct timespec`.  No sum below leaves the 64 bits of `time_t` and `long`. -/
structure Timespec where
  tvSec : ℤ
  tvNsec : ℤ

/-- `__wait_get_timeout`, where `clock_gettime` gives `now`; `HZ` is 1000. -/
def waitGetTimeout (timeout : BitVec 64) (now : Timespec) : Timespec :=
  let timeout := timeout + 1
  let timeout := 1000000000 / 1000 * timeout
  let ts : Timespec :=
    ⟨(timeout / 1000000000).toNat + now.tvSec, (timeout % 1000000000).toNat + now.tvNsec⟩
  if 1000000000 ≤ ts.tvNsec then ⟨ts.tvSec + 1, ts.tvNsec - 1000000000⟩ else ts

/-- The nanoseconds are below a second. -/
def Timespec.Normalised (ts : Timespec) : Prop :=
  0 ≤ ts.tvNsec ∧ ts.tvNsec < 1000000000

/-- The time in nanoseconds. -/
def Timespec.nsec (ts : Timespec) : ℤ :=
  ts.tvSec * 1000000000 + ts.tvNsec

/-- **A deadline is right**: it is normalised, not before the timeout is over, or later than any
time that can be reached, and no shorter timeout has a later one. -/
structure DeadlineOk (timeout : BitVec 64) (now : Timespec) : Prop where
  normalised : (waitGetTimeout timeout now).Normalised
  late : now.nsec + timeout.toNat * 1000000 ≤ (waitGetTimeout timeout now).nsec ∨
    2 ^ 40 ≤ (waitGetTimeout timeout now).tvSec
  monotone : ∀ shorter, shorter ≤ timeout →
    (waitGetTimeout shorter now).nsec ≤ (waitGetTimeout timeout now).nsec

section Deadline

variable {timeout : BitVec 64} {now : Timespec}

/-- The nanoseconds of the timeout, as `__wait_get_timeout` has them. -/
def timeoutNanos (timeout : BitVec 64) : ℕ :=
  1000000 * ((timeout.toNat + 1) % 2 ^ 64) % 2 ^ 64

/-- The sum of the two times, with the carry. -/
theorem waitGetTimeout_eq (timeout : BitVec 64) (now : Timespec) :
    waitGetTimeout timeout now =
      if 1000000000 ≤ (timeoutNanos timeout : ℤ) % 1000000000 + now.tvNsec then
        ⟨(timeoutNanos timeout : ℤ) / 1000000000 + now.tvSec + 1,
          (timeoutNanos timeout : ℤ) % 1000000000 + now.tvNsec - 1000000000⟩
      else
        ⟨(timeoutNanos timeout : ℤ) / 1000000000 + now.tvSec,
          (timeoutNanos timeout : ℤ) % 1000000000 + now.tvNsec⟩ := by
  have hnanos : (1000000000 / 1000 * (timeout + 1)).toNat = timeoutNanos timeout := by
    rw [BitVec.toNat_mul, BitVec.toNat_add]
    rfl
  simp only [waitGetTimeout, BitVec.toNat_udiv, BitVec.toNat_umod, hnanos]
  rfl

/-- What the deadline is, in nanoseconds, … -/
theorem waitGetTimeout_nsec (timeout : BitVec 64) (now : Timespec) :
    (waitGetTimeout timeout now).nsec = now.nsec + timeoutNanos timeout := by
  rw [waitGetTimeout_eq, Timespec.nsec, Timespec.nsec]
  split <;> dsimp only <;> omega

/-- … and that it is normalised. -/
theorem waitGetTimeout_normalised (timeout : BitVec 64) (h : now.Normalised) :
    (waitGetTimeout timeout now).Normalised := by
  obtain ⟨hlow, hhigh⟩ := h
  rw [waitGetTimeout_eq, Timespec.Normalised]
  split <;> dsimp only <;> omega

/-- Without an overflow the nanoseconds are those of the timeout, and of one millisecond. -/
theorem timeoutNanos_eq (h : timeout.toNat < 18446744073709) :
    timeoutNanos timeout = 1000000 * (timeout.toNat + 1) := by
  unfold timeoutNanos
  omega

/-- **The deadline is right**, at whatever time, exactly if the timeout and the millisecond that
is added to it, in nanoseconds, do not overflow. -/
theorem waitGetTimeout_iff (timeout : BitVec 64) :
    (∀ now : Timespec, now.Normalised → now.tvSec < 2 ^ 40 → DeadlineOk timeout now) ↔
      timeout.toNat < 18446744073709 := by
  constructor
  · intro h
    have hzero : (⟨0, 0⟩ : Timespec).Normalised := ⟨le_rfl, by decide⟩
    obtain ⟨⟨hlow, hhigh⟩, hlate, -⟩ := h ⟨0, 0⟩ hzero (by decide)
    -- at time zero the deadline is what is left of the nanoseconds
    have hnsec := waitGetTimeout_nsec timeout ⟨0, 0⟩
    unfold Timespec.nsec at hnsec hlate
    unfold timeoutNanos at hnsec
    dsimp only at hnsec hlate
    have hlt := timeout.isLt
    omega
  · intro hsmall now hnow hsec
    refine ⟨waitGetTimeout_normalised timeout hnow, .inl ?_, fun shorter hle => ?_⟩
    · rw [waitGetTimeout_nsec, timeoutNanos_eq hsmall]
      omega
    · have hbound : shorter.toNat ≤ timeout.toNat := BitVec.le_def.mp hle
      rw [waitGetTimeout_nsec, waitGetTimeout_nsec, timeoutNanos_eq hsmall,
        timeoutNanos_eq (lt_of_le_of_lt hbound hsmall)]
      omega

end Deadline

/-- The deadline for `MAX_SCHEDULE_TIMEOUT`, which is 2^63 - 1, is now. -/
theorem waitGetTimeout_early :
    ¬ ∀ now : Timespec, now.Normalised → now.tvSec < 2 ^ 40 →
      DeadlineOk 9223372036854775807 now := by
  intro h
  have hzero : (⟨0, 0⟩ : Timespec).Normalised := ⟨le_rfl, by decide⟩
  obtain ⟨-, hlate, -⟩ := h ⟨0, 0⟩ hzero (by decide)
  revert hlate
  decide

/-! ### The value -/

section Value

variable {T X K E : Type} [DecidableEq T] [DecidableEq X]

/-- How many completions of `x` the thread has taken since it entered its wait. -/
def consumed (thread : T) (x : X) (history : List (Event T X K E)) : ℕ :=
  history.foldl (fun count event =>
    match event with
    | .entered other _ => if other = thread then 0 else count
    | .took other y => if other = thread ∧ y = x then count + 1 else count
    | _ => count) 0

/-- What a thread does in a wait. -/
inductive Look where
  | tested (passed : Bool)
  | slept
  deriving DecidableEq

/-- What the thread has done last since it entered its wait. -/
def lastLook (thread : T) (history : List (Event T X K E)) : Option Look :=
  history.foldl (fun look event =>
    match event with
    | .entered other _ => if other = thread then none else look
    | .tested other passed => if other = thread then some (.tested passed) else look
    | .slept other => if other = thread then some .slept else look
    | _ => look) none

/-- **The value tells the truth** about a wait with a timeout: `past` is what has happened when
it returns, and `shared` what was shared when it left its loop. -/
structure TellsTruth (past : List (Event T X K E)) (thread : T) (wait : Wait X K)
    (value : BitVec 64) (shared : Shared X E) : Prop where
  /-- It is zero, or a completion has been taken. -/
  consumed : ∀ x timeout, wait = waitForCompletionTimeout x timeout →
    consumed thread x past = if value = 0 then 0 else 1
  /-- If it is zero, there was none to be taken. -/
  gaveUp : ∀ x timeout, wait = waitForCompletionTimeout x timeout →
    value = 0 → shared.done x = 0
  /-- It is what the last test of the condition has said, and there was no sleep after that. -/
  looked : ∀ k timeout, wait = waitEventTimeout k timeout →
    lastLook thread past = some (.tested (decide (value ≠ 0)))

/-- All values tell the truth that have been returned in a history, after a past. -/
def Truthful : List (Event T X K E) → List (Event T X K E) → Prop
  | _, [] => True
  | past, event :: rest =>
      (∀ thread wait value shared, event = .returned thread wait value shared →
        TellsTruth past thread wait value shared) ∧ Truthful (past ++ [event]) rest

variable (condition : K → Shared X E → Bool)

/-- **Waits are in time**: one with timeout zero does not pass its test, and one that its
deadline has woken up is on a completion that there is none of. -/
def InTime (state : State T X K E) : Action T X K E → Prop
  | .advance thread _ => ∀ target timeout,
      (state.testing thread = some ⟨target, some timeout, false⟩ → timeout = 0 →
        target.test condition state.shared = false) ∧
      (state.threads thread = .woken ⟨target, some timeout, false⟩ true →
        ∃ x, target = .done x ∧ state.shared.done x = 0)
  | _ => True

variable {condition} {state next : State T X K E} {action : Action T X K E}
variable {past events history : List (Event T X K E)} {thread other : T} {x : X}
variable {wait : Wait X K} {value : BitVec 64} {shared : Shared X E}

theorem truthful_append :
    Truthful past (history ++ events) ↔
      Truthful past history ∧ Truthful (past ++ history) events := by
  induction history generalizing past with
  | nil => simp [Truthful]
  | cons event history ih =>
      rw [List.cons_append, Truthful, Truthful, ih, and_assoc, List.append_assoc,
        List.singleton_append]

@[simp] theorem truthful_nil : Truthful past [] := trivial

@[simp] theorem truthful_entered :
    Truthful past (.entered thread wait :: events) ↔
      Truthful (past ++ [.entered thread wait]) events := by
  simp [Truthful]

@[simp] theorem truthful_tested (passed : Bool) :
    Truthful past (.tested thread passed :: events) ↔
      Truthful (past ++ [.tested thread passed]) events := by
  simp [Truthful]

@[simp] theorem truthful_took :
    Truthful past (.took thread x :: events) ↔
      Truthful (past ++ [.took thread x]) events := by
  simp [Truthful]

@[simp] theorem truthful_slept :
    Truthful past (.slept thread :: events) ↔ Truthful (past ++ [.slept thread]) events := by
  simp [Truthful]

/-- At the end of a section stands its return. -/
theorem truthful_returned :
    Truthful past [.returned thread wait value shared] ↔
      TellsTruth past thread wait value shared := by
  simp only [Truthful, and_true]
  constructor
  · exact fun h => h _ _ _ _ rfl
  · rintro h _ _ _ _ heq
    cases heq
    exact h

/-- Of other waits nothing is said. -/
theorem tellsTruth_of_other (h : ∀ target timeout, wait ≠ ⟨target, some timeout, false⟩) :
    TellsTruth past thread wait value shared where
  consumed _ _ heq := absurd heq (h _ _)
  gaveUp _ _ heq := absurd heq (h _ _)
  looked _ _ heq := absurd heq (h _ _)

/-- What is to be said of `wait_for_completion_timeout`, … -/
theorem tellsTruth_completion {timeout : BitVec 64} :
    TellsTruth past thread (waitForCompletionTimeout x timeout : Wait X K) value shared ↔
      consumed thread x past = (if value = 0 then 0 else 1) ∧
        (value = 0 → shared.done x = 0) := by
  refine ⟨fun h => ⟨h.consumed x timeout rfl, h.gaveUp x timeout rfl⟩, ?_⟩
  rintro ⟨hconsumed, hgaveUp⟩
  refine ⟨fun y _ heq => ?_, fun y _ heq => ?_, fun k _ heq => (by cases heq)⟩
  · cases heq
    exact hconsumed
  · cases heq
    exact hgaveUp

/-- … and of `wait_event_timeout`. -/
theorem tellsTruth_event {k : K} {timeout : BitVec 64} :
    TellsTruth past thread (waitEventTimeout k timeout : Wait X K) value shared ↔
      lastLook thread past = some (.tested (decide (value ≠ 0))) := by
  refine ⟨fun h => h.looked k timeout rfl, fun hlook => ?_⟩
  refine ⟨fun y _ heq => (by cases heq), fun y _ heq => (by cases heq), fun _ _ heq => ?_⟩
  cases heq
  exact hlook

/-! ### What is known of a thread in a wait -/

/-- A thread in a wait has taken nothing yet, and if it sleeps or has been woken up, it has made
no test since. -/
structure ThreadTraced (pc : ThreadPc X K) (thread : T) (history : List (Event T X K E)) :
    Prop where
  consumed : pc ≠ .idle → ∀ x, consumed thread x history = 0
  slept : ∀ wait, pc = .asleep wait ∨ (∃ timedOut, pc = .woken wait timedOut) →
    lastLook thread history = some .slept

/-- So it is for all threads. -/
def CallsTraced (state : State T X K E) (history : List (Event T X K E)) : Prop :=
  ∀ thread, ThreadTraced (state.threads thread) thread history

/-- The thread that an event is about. -/
def Event.actor : Event T X K E → T
  | .entered thread _ | .tested thread _ | .took thread _ | .slept thread
  | .returned thread _ _ _ => thread

/-- What other threads do does not matter. -/
theorem consumed_append_of_ne (h : ∀ event ∈ events, event.actor ≠ thread) :
    consumed thread x (history ++ events) = consumed thread x history := by
  rw [consumed, List.foldl_append]
  refine List.foldlRecOn (motive := fun count => count = consumed thread x history) events _ rfl
    fun count hcount event hmem => ?_
  have hne := h event hmem
  cases event with
  | entered other wait => exact (if_neg hne).trans hcount
  | tested other passed => exact hcount
  | took other y => exact (if_neg fun heq => hne heq.1).trans hcount
  | slept other => exact hcount
  | returned other wait value shared => exact hcount

omit [DecidableEq X] in
theorem lastLook_append_of_ne (h : ∀ event ∈ events, event.actor ≠ thread) :
    lastLook thread (history ++ events) = lastLook thread history := by
  rw [lastLook, List.foldl_append]
  refine List.foldlRecOn (motive := fun look => look = lastLook thread history) events _ rfl
    fun look hlook event hmem => ?_
  have hne := h event hmem
  cases event with
  | entered other wait => exact (if_neg hne).trans hlook
  | tested other passed => exact (if_neg hne).trans hlook
  | took other y => exact hlook
  | slept other => exact (if_neg hne).trans hlook
  | returned other wait value shared => exact hlook

theorem ThreadTraced.append {pc : ThreadPc X K} (h : ThreadTraced pc thread history)
    (hother : ∀ event ∈ events, event.actor ≠ thread) :
    ThreadTraced pc thread (history ++ events) where
  consumed hbusy x := (consumed_append_of_ne hother).trans (h.consumed hbusy x)
  slept wait hasleep := (lastLook_append_of_ne hother).trans (h.slept wait hasleep)

/-- Of a thread that is in no wait nothing is known. -/
theorem threadTraced_idle : ThreadTraced (.idle : ThreadPc X K) thread history where
  consumed hbusy := absurd rfl hbusy
  slept wait hasleep := by
    rcases hasleep with hasleep | ⟨timedOut, hwoken⟩
    · cases hasleep
    · cases hwoken

/-- A thread that sleeps may wake up. -/
theorem ThreadTraced.woken {timedOut : Bool} (h : ThreadTraced (.asleep wait) thread history) :
    ThreadTraced (.woken wait timedOut) thread history where
  consumed _ := h.consumed (fun hidle => by cases hidle)
  slept _ _ := h.slept wait (.inl rfl)

theorem ThreadTraced.awaken {pc : ThreadPc X K} (h : ThreadTraced pc thread history) :
    ThreadTraced pc.awaken thread history := by
  cases pc with
  | idle => exact h
  | entry wait => exact h
  | asleep wait => exact h.woken
  | woken wait timedOut => exact h

/-- A step of one thread, which leaves the others alone. -/
theorem CallsTraced.setThread (h : CallsTraced state history) {pc : ThreadPc X K}
    (hevents : ∀ event ∈ events, event.actor = thread)
    (hpc : ThreadTraced pc thread (history ++ events)) :
    CallsTraced (state.setThread thread pc) (history ++ events) := by
  intro other
  by_cases heq : other = thread
  · subst heq
    rwa [State.setThread_same]
  · rw [State.setThread_of_ne heq]
    refine (h other).append fun event hmem => ?_
    rw [hevents event hmem]
    exact Ne.symm heq

/-- All that a section shows is about its own thread. -/
theorem Advances.actor (hadvances : Advances condition state thread next events) :
    ∀ event ∈ events, event.actor = thread := by
  cases hadvances with
  | take wait htesting htest =>
      cases wait.target with
      | done x => simp [Target.took, Event.actor]
      | condition k => simp [Target.took, Event.actor]
  | interrupted wait htesting htest hinterruptible => simp [Event.actor]
  | sleep wait htesting htest => simp [Event.actor]
  | giveUp wait hpc => simp [Event.actor]

omit [DecidableEq T] [DecidableEq X] in
/-- A thread that tests is in a wait. -/
theorem busy_of_testing (h : state.testing thread = some wait) :
    state.threads thread ≠ .idle := by
  intro hidle
  rw [State.testing, hidle] at h
  cases h

/-- **One section of a wait.** -/
theorem Advances.callsTraced (hadvances : Advances condition state thread next events)
    (h : CallsTraced state history) : CallsTraced next (history ++ events) := by
  have hactor := hadvances.actor
  cases hadvances with
  | take wait htesting htest => exact fun other => h.setThread hactor threadTraced_idle other
  | interrupted wait htesting htest hinterruptible => exact h.setThread hactor threadTraced_idle
  | sleep wait htesting htest =>
      refine h.setThread hactor ⟨fun _ x => ?_, fun _ _ => ?_⟩
      · have hnone := (h thread).consumed (busy_of_testing htesting) x
        simpa [consumed] using hnone
      · simp [lastLook]
  | giveUp wait hpc => exact h.setThread hactor threadTraced_idle

/-- **One step of the machine.** -/
theorem CallsTraced.step (h : CallsTraced state history)
    (hstep : (completionMachine condition).step state action = some (next, events)) :
    CallsTraced next (history ++ events) := by
  have hwake : ∀ {thread timedOut}, state.wake thread timedOut = some (next, events) →
      CallsTraced next (history ++ events) := by
    intro thread timedOut hwake
    obtain ⟨wait, hpc, -, rfl, rfl⟩ := wake_eq_some hwake
    refine h.setThread (by simp) ?_
    rw [List.append_nil]
    exact ThreadTraced.woken (hpc ▸ h thread)
  cases action with
  | call thread wait =>
      obtain ⟨hidle, rfl, rfl⟩ := call_eq_some hstep
      refine h.setThread (by simp [Event.actor]) ⟨fun _ x => ?_, fun other hasleep => ?_⟩
      · simp [consumed]
      · simp at hasleep
  | advance thread signalled => exact (Advances.of_advance hstep).callsTraced h
  | expire thread => exact hwake hstep
  | spurious thread => exact hwake hstep
  | complete y =>
      obtain ⟨rfl, rfl⟩ := Prod.mk.inj (Option.some.inj hstep)
      rw [List.append_nil]
      exact fun thread => (h thread).awaken
  | initCompletion y =>
      obtain ⟨rfl, rfl⟩ := Prod.mk.inj (Option.some.inj hstep)
      rw [List.append_nil]
      exact h
  | wakeUp =>
      obtain ⟨rfl, rfl⟩ := Prod.mk.inj (Option.some.inj hstep)
      rw [List.append_nil]
      exact fun thread => (h thread).awaken
  | change rest =>
      obtain ⟨rfl, rfl⟩ := Prod.mk.inj (Option.some.inj hstep)
      rw [List.append_nil]
      exact h

/-! ### What is returned -/

omit [DecidableEq T] [DecidableEq X] in
/-- The condition on a section that begins with a test, … -/
theorem inTime_testing (htesting : state.testing thread = some wait) (signalled : Bool) :
    InTime condition state (.advance thread signalled) ↔
      ∀ target timeout, wait = ⟨target, some timeout, false⟩ → timeout = 0 →
        target.test condition state.shared = false := by
  constructor
  · rintro h target timeout rfl
    exact (h target timeout).1 htesting
  · refine fun h target timeout => ⟨fun hother => ?_, fun hpc => ?_⟩
    · exact h target timeout (Option.some.inj (htesting.symm.trans hother))
    · rw [State.testing, hpc] at htesting
      cases htesting

omit [DecidableEq T] [DecidableEq X] in
/-- … and on one that comes too late for one. -/
theorem inTime_late (hpc : state.threads thread = .woken wait true) (signalled : Bool) :
    InTime condition state (.advance thread signalled) ↔
      ∀ target timeout, wait = ⟨target, some timeout, false⟩ →
        ∃ x, target = .done x ∧ state.shared.done x = 0 := by
  constructor
  · rintro h target timeout rfl
    exact (h target timeout).2 hpc
  · refine fun h target timeout => ⟨fun htesting => ?_, fun hother => ?_⟩
    · rw [State.testing, hpc] at htesting
      cases htesting
    · exact h target timeout (ThreadPc.woken.inj (hpc.symm.trans hother)).1

/-- **A test that is passed**: the value is the timeout, which has to be another than zero. -/
theorem truthful_take (hbusy : ∀ x, consumed thread x history = 0) {target : Target X K}
    {timeout : BitVec 64} (htest : target.test condition shared = true) :
    Truthful history (.tested thread true :: (target.took thread ++
        [.returned thread ⟨target, some timeout, false⟩ timeout shared])) ↔ timeout ≠ 0 := by
  rw [truthful_tested]
  cases target with
  | done x =>
      have htook : consumed thread x (history ++ [.tested thread true] ++ [.took thread x]) =
          1 := by
        have hnone := hbusy x
        unfold consumed at hnone ⊢
        rw [List.foldl_append, List.foldl_append, hnone]
        simp
      rw [Target.took, List.singleton_append, truthful_took, truthful_returned]
      refine tellsTruth_completion.trans ?_
      rw [htook]
      have hdone : shared.done x ≠ 0 := of_decide_eq_true htest
      constructor
      · rintro ⟨-, hgaveUp⟩ hzero
        exact hdone (hgaveUp hzero)
      · intro hne
        exact ⟨(if_neg hne).symm, fun hzero => absurd hzero hne⟩
  | condition k =>
      have hlook : lastLook thread (history ++ [.tested thread true]) = some (.tested true) := by
        unfold lastLook
        rw [List.foldl_append]
        simp
      rw [Target.took, List.nil_append, truthful_returned]
      refine tellsTruth_event.trans ?_
      rw [hlook]
      simp

/-- **A test that comes too late**: the value is zero, and the thread has slept last. -/
theorem tellsTruth_late {target : Target X K} {timeout : BitVec 64}
    (htraced : ThreadTraced (.woken ⟨target, some timeout, false⟩ true) thread history) :
    TellsTruth history thread ⟨target, some timeout, false⟩ 0 shared ↔
      ∃ x, target = .done x ∧ shared.done x = 0 := by
  cases target with
  | done x =>
      refine tellsTruth_completion.trans ?_
      rw [htraced.consumed (fun hidle => by cases hidle) x]
      constructor
      · rintro ⟨-, hgaveUp⟩
        exact ⟨x, rfl, hgaveUp rfl⟩
      · rintro ⟨_, heq, hzero⟩
        cases heq
        exact ⟨rfl, fun _ => hzero⟩
  | condition k =>
      refine iff_of_false (fun htruth => ?_) fun ⟨_, heq, _⟩ => (by cases heq)
      have hlook := tellsTruth_event.mp htruth
      rw [htraced.slept _ (.inr ⟨true, rfl⟩)] at hlook
      cases hlook

omit [DecidableEq X] in
/-- The waits that something is said of, and the others. -/
theorem timed_or_other (wait : Wait X K) :
    (∃ target timeout, wait = ⟨target, some timeout, false⟩) ∨
      ∀ target timeout, wait ≠ ⟨target, some timeout, false⟩ := by
  by_cases htimed : ∃ target timeout, wait = ⟨target, some timeout, false⟩
  · exact .inl htimed
  · exact .inr fun target timeout heq => htimed ⟨target, timeout, heq⟩

/-- **What a section returns is true** exactly if it is in time. -/
theorem Advances.truthful_iff (hadvances : Advances condition state thread next events)
    (h : CallsTraced state history) (signalled : Bool) :
    Truthful history events ↔ InTime condition state (.advance thread signalled) := by
  cases hadvances with
  | take wait htesting htest =>
      rw [inTime_testing htesting]
      rcases timed_or_other wait with ⟨target, timeout, rfl⟩ | hother
      · refine (truthful_take ((h thread).consumed (busy_of_testing htesting)) htest).trans ?_
        constructor
        · rintro hne _ _ heq hzero
          cases heq
          exact absurd hzero hne
        · intro hlate hzero
          exact Bool.false_ne_true ((hlate target timeout rfl hzero).symm.trans htest)
      · refine iff_of_true ?_ fun target timeout heq => absurd heq (hother target timeout)
        rw [truthful_tested, truthful_append]
        refine ⟨?_, truthful_returned.mpr (tellsTruth_of_other hother)⟩
        cases wait.target with
        | done x => simp [Target.took]
        | condition k => exact truthful_nil
  | interrupted wait htesting htest hinterruptible =>
      rw [inTime_testing htesting, truthful_tested, truthful_returned]
      have hother : ∀ target timeout, wait ≠ ⟨target, some timeout, false⟩ := by
        rintro target timeout rfl
        cases hinterruptible
      exact iff_of_true (tellsTruth_of_other hother)
        fun target timeout heq => absurd heq (hother target timeout)
  | sleep wait htesting htest =>
      rw [inTime_testing htesting]
      refine iff_of_true (by simp) ?_
      rintro target timeout rfl -
      exact htest
  | giveUp wait hpc =>
      rw [inTime_late hpc, truthful_returned]
      have htraced := h thread
      rw [hpc] at htraced
      rcases timed_or_other wait with ⟨target, timeout, rfl⟩ | hother
      · refine (tellsTruth_late htraced).trans ⟨?_, fun hlate => hlate target timeout rfl⟩
        rintro hnone _ _ heq
        cases heq
        exact hnone
      · exact iff_of_true (tellsTruth_of_other hother)
          fun target timeout heq => absurd heq (hother target timeout)

/-- **One step of the machine** keeps what is returned true exactly if it is in time. -/
theorem truthful_step_iff (h : CallsTraced state history) (htruth : Truthful [] history)
    (hstep : (completionMachine condition).step state action = some (next, events)) :
    Truthful [] (history ++ events) ↔ InTime condition state action := by
  rw [truthful_append, and_iff_right htruth, List.nil_append]
  have hwake : ∀ {thread timedOut}, state.wake thread timedOut = some (next, events) →
      Truthful history events := by
    intro thread timedOut hwake
    obtain ⟨-, -, -, -, rfl⟩ := wake_eq_some hwake
    exact truthful_nil
  cases action with
  | call thread wait =>
      obtain ⟨-, -, rfl⟩ := call_eq_some hstep
      exact iff_of_true (by simp) trivial
  | advance thread signalled => exact (Advances.of_advance hstep).truthful_iff h signalled
  | expire thread => exact iff_of_true (hwake hstep) trivial
  | spurious thread => exact iff_of_true (hwake hstep) trivial
  | complete y =>
      obtain ⟨-, rfl⟩ := Prod.mk.inj (Option.some.inj hstep)
      exact iff_of_true truthful_nil trivial
  | initCompletion y =>
      obtain ⟨-, rfl⟩ := Prod.mk.inj (Option.some.inj hstep)
      exact iff_of_true truthful_nil trivial
  | wakeUp =>
      obtain ⟨-, rfl⟩ := Prod.mk.inj (Option.some.inj hstep)
      exact iff_of_true truthful_nil trivial
  | change rest =>
      obtain ⟨-, rfl⟩ := Prod.mk.inj (Option.some.inj hstep)
      exact iff_of_true truthful_nil trivial

/-- **Timed waits tell the truth** in a run, whatever the interleaving, exactly if all its steps
are in time. -/
theorem returns_truthful_iff {rest : E} {schedule : List (Action T X K E)} {last : State T X K E}
    (hrun : (completionMachine condition).run (.init rest) schedule = some (last, history)) :
    Truthful [] history ↔
      ∀ pair ∈ (completionMachine condition).visited (.init rest) schedule,
        InTime condition pair.1 pair.2 :=
  @Machine.run_history_iff _ _ _ (completionMachine condition) CallsTraced (Truthful [])
    (InTime condition) (fun h => (truthful_append.mp h).1) (fun h hstep => h.step hstep)
    (fun h htruth hstep => truthful_step_iff h htruth hstep) _ last [] history schedule
    (fun _ => threadTraced_idle) truthful_nil hrun

end Value

/-- One thread, one completion, and one condition, which is whatever it has been changed to. -/
def timedMachine : Machine (State Unit Unit Unit Bool) (Action Unit Unit Unit Bool)
    (Event Unit Unit Unit Bool) :=
  completionMachine fun _ shared => shared.rest

/-- A wait of five jiffies, for a completion that comes while the thread sleeps. -/
theorem returns_truthful_iff_completed : ∃ last history,
    timedMachine.run (.init false) [.call () (waitForCompletionTimeout () 5), .advance () false,
      .complete (), .advance () false] = some (last, history) ∧ Truthful [] history := by
  have hrun : timedMachine.run (.init false) [.call () (waitForCompletionTimeout () 5),
      .advance () false, .complete (), .advance () false] = some (_, _) := rfl
  -- where the thread tests, it is in this wait, and its deadline has not come
  have hfive : ∀ (state : State Unit Unit Unit Bool) (signalled : Bool),
      state.testing () = some (waitForCompletionTimeout () 5) →
        InTime (fun _ shared => shared.rest) state (.advance () signalled) := by
    intro state signalled htesting
    refine (inTime_testing htesting signalled).mpr fun target timeout heq hzero => ?_
    cases heq
    exact absurd hzero (by decide)
  refine ⟨_, _, hrun, (returns_truthful_iff hrun).mpr fun pair hpair => ?_⟩
  rcases List.mem_cons.mp hpair with rfl | hpair
  · exact trivial
  rcases List.mem_cons.mp hpair with rfl | hpair
  · exact hfive _ _ rfl
  rcases List.mem_cons.mp hpair with rfl | hpair
  · exact trivial
  obtain rfl := List.mem_singleton.mp hpair
  exact hfive _ _ rfl

/-- A wait with timeout zero returns zero though it has taken a completion; one that its deadline
wakes up returns zero though there is a completion by then; and one for a condition does not look
at it after the sleep. -/
theorem returns_not_truthful :
    (∃ last history, timedMachine.run (.init false) [.complete (),
      .call () (waitForCompletionTimeout () 0), .advance () false] = some (last, history) ∧
        ¬ Truthful [] history) ∧
    (∃ last history, timedMachine.run (.init false) [.call () (waitForCompletionTimeout () 5),
      .advance () false, .expire (), .complete (), .advance () false] = some (last, history) ∧
        ¬ Truthful [] history) ∧
    ∃ last history, timedMachine.run (.init false) [.call () (waitEventTimeout () 5),
      .advance () false, .expire (), .change true, .advance () false] = some (last, history) ∧
        ¬ Truthful [] history := by
  refine ⟨⟨_, _, rfl, ?_⟩, ⟨_, _, rfl, ?_⟩, _, _, rfl, ?_⟩
  · rintro ⟨-, -, -, hreturned, -⟩
    have hdone := (hreturned _ _ _ _ rfl).gaveUp () 0 rfl rfl
    exact absurd hdone (by decide)
  · rintro ⟨-, -, -, hreturned, -⟩
    have hdone := (hreturned _ _ _ _ rfl).gaveUp () 5 rfl rfl
    exact absurd hdone (by decide)
  · rintro ⟨-, -, -, hreturned, -⟩
    have hlook := (hreturned _ _ _ _ rfl).looked () 5 rfl
    exact absurd hlook (by decide)

end Webcamd.Kernel.Completion
