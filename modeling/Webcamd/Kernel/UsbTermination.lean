import Webcamd.Kernel.UsbQueue
import Webcamd.Library.RoundRobin

/-!
# Whether a callback returns

`usb_linux_bulk_intr_callback` gives URBs that are too big for its transfer back to their
drivers, with `-EFBIG`, and goes on with the next one.  A completion handler may submit its URB
again; it is then at the tail of the queue that the callback is working on.

* `Handlers` — what the completion handlers do: each time a handler is called it leaves its URB
  alone, or fills it in and submits it once.
* `Returns` — the callback returns, after a number of handler calls.  Nobody else moves between
  its steps.
* `Job` — an URB as the callback sees it: how long it is now and each time it comes back.
* `bulkIntr_returns_iff` — the callback returns exactly when it is cancelled, or some URB that
  it comes to fits into the transfer at some time, or every one of them is left alone by its
  handler at some time.
-/

namespace Webcamd.Kernel.Usb

open Webcamd.Library

variable {U E T : Type} [DecidableEq U] [DecidableEq E] [DecidableEq T]

/-! ### One invocation -/

/-- What the completion handler of an URB does when it is called for the `k`-th time during the
invocation: nothing, or fill in these fields and submit the URB. -/
abbrev Handlers (U : Type) := U → ℕ → Option UrbIn

/-- An invocation of a callback under way, with how often every handler has been called. -/
structure Invocation (U E T : Type) where
  state : State U E T
  calls : U → ℕ

/-- A call of a completion handler, up to its return. -/
def handlerActions (uhe : E) (index : Fin 2) (urb : U) : Option UrbIn → List (Action U E T)
  | none => [.handlerReturn uhe index]
  | some fields => [.fill urb fields, .submitUrb urb true, .handlerReturn uhe index]

/-- **The callback returns** after this many calls of completion handlers.  It cannot get stuck
(`Working.round`, `Working.called`): if it does not return, it goes on for ever. -/
inductive Returns (device : Device U E) (handlers : Handlers U) (uhe : E) (index : Fin 2) :
    ℕ → Invocation U E T → Prop where
  | idle {inv : Invocation U E T} (pc : (inv.state.bsdXfer uhe index).callback = .idle) :
      Returns device handlers uhe index 0 inv
  | trSetup {n : ℕ} {inv : Invocation U E T} {next : State U E T} {events : List (Event U E)}
      (pc : (inv.state.bsdXfer uhe index).callback = .trSetup)
      (step : (usbMachine device).step inv.state (.trSetup uhe index) = some (next, events))
      (rest : Returns device handlers uhe index n ⟨next, inv.calls⟩) :
      Returns device handlers uhe index n inv
  | handler {n : ℕ} {inv : Invocation U E T} {urb : U} {cancelled : Bool} {next : State U E T}
      {events : List (Event U E)}
      (pc : (inv.state.bsdXfer uhe index).callback = .handler urb cancelled)
      (run : (usbMachine device).run inv.state
        (handlerActions uhe index urb (handlers urb (inv.calls urb))) = some (next, events))
      (rest : Returns device handlers uhe index n
        ⟨next, Function.update inv.calls urb (inv.calls urb + 1)⟩) :
      Returns device handlers uhe index (n + 1) inv

/-! ### What becomes of an URB -/

/-- An URB on the queue, seen from the callback. -/
@[ext]
structure Job where
  /-- `transfer_buffer_length` -/
  length : ℕ
  /-- It has a completion handler, and `usb_submit_urb` does not reject it. -/
  live : Bool
  /-- What the handler's next calls submit it with, in place of that length. -/
  submits : ℕ → Option ℕ

namespace Job

/-- The job after a call of the handler. -/
def called (job : Job) : Job :=
  ⟨(job.submits 0).getD job.length, job.live, fun k => job.submits (k + 1)⟩

/-- The handler submits the URB when it is called for the `k`-th time. -/
def ComesBack (job : Job) (k : ℕ) : Prop := job.live = true ∧ (job.submits k).isSome = true

/-- How long the URB is when it is taken from the queue, after `k` calls of its handler. -/
def lengthAt (job : Job) : ℕ → ℕ
  | 0 => job.length
  | k + 1 => (job.submits k).getD 0

/-- The transfer takes the URB at some time, if its turn comes often enough. -/
def Fits (maxBulk : ℕ) (job : Job) : Prop :=
  ∃ k, (∀ j < k, job.ComesBack j) ∧ job.lengthAt k ≤ maxBulk

instance (job : Job) (k : ℕ) : Decidable (job.ComesBack k) :=
  inferInstanceAs (Decidable (_ ∧ _))

open RoundRobin

/-- A round at the label `tr_setup`, with the handler's call. -/
def fate (maxBulk : ℕ) (job : Job) : Fate Job :=
  if job.length ≤ maxBulk then .stop
  else if job.live = true ∧ (job.submits 0).isSome = true then .again job.called
  else .leave

variable {maxBulk : ℕ} {job : Job}

theorem fate_stop (h : job.length ≤ maxBulk) : job.fate maxBulk = .stop := if_pos h

theorem fate_again (h : ¬ job.length ≤ maxBulk) (hback : job.ComesBack 0) :
    job.fate maxBulk = .again job.called := by
  rw [fate, if_neg h]
  exact if_pos hback

theorem fate_leave (h : ¬ job.length ≤ maxBulk) (hback : ¬ job.ComesBack 0) :
    job.fate maxBulk = .leave := by
  rw [fate, if_neg h]
  exact if_neg hback

theorem comesBack_called (job : Job) (k : ℕ) :
    job.called.ComesBack k ↔ job.ComesBack (k + 1) := Iff.rfl

theorem lengthAt_called (hback : job.ComesBack 0) (k : ℕ) :
    job.called.lengthAt k = job.lengthAt (k + 1) := by
  cases k with
  | zero =>
      obtain ⟨length, hlength⟩ := Option.isSome_iff_exists.mp hback.2
      simp [lengthAt, called, hlength]
  | succ k => rfl

/-- **An URB stops the callback** when it fits. -/
theorem stops_iff : Stops (fate maxBulk) job ↔ job.Fits maxBulk := by
  constructor
  · intro h
    induction h with
    | @now job h =>
        by_cases hlength : job.length ≤ maxBulk
        · exact ⟨0, fun j hj => absurd hj (Nat.not_lt_zero j), hlength⟩
        · by_cases hback : job.ComesBack 0
          · rw [fate_again hlength hback] at h
            cases h
          · rw [fate_leave hlength hback] at h
            cases h
    | @later job next h rest ih =>
        have hback : job.ComesBack 0 := by
          by_contra hback
          by_cases hlength : job.length ≤ maxBulk
          · rw [fate_stop hlength] at h
            cases h
          · rw [fate_leave hlength hback] at h
            cases h
        have hlength : ¬ job.length ≤ maxBulk := by
          intro hlength
          rw [fate_stop hlength] at h
          cases h
        rw [fate_again hlength hback] at h
        cases h
        obtain ⟨k, hbefore, hfits⟩ := ih
        refine ⟨k + 1, fun j hj => ?_, (lengthAt_called hback k) ▸ hfits⟩
        cases j with
        | zero => exact hback
        | succ j => exact (comesBack_called job j).mp (hbefore j (Nat.lt_of_succ_lt_succ hj))
  · rintro ⟨k, hbefore, hfits⟩
    induction k generalizing job with
    | zero => exact .now (fate_stop hfits)
    | succ k ih =>
        by_cases hlength : job.length ≤ maxBulk
        · exact .now (fate_stop hlength)
        · have hback := hbefore 0 (Nat.succ_pos k)
          refine .later (fate_again hlength hback) (ih (fun j hj => ?_) ?_)
          · exact (comesBack_called job j).mpr (hbefore (j + 1) (Nat.succ_lt_succ hj))
          · rw [lengthAt_called hback]
            exact hfits

/-- An URB that leaves the queue has been left alone by its handler. -/
theorem exists_not_comesBack {n : ℕ} (h : Leaves (fate maxBulk) n job) :
    ∃ k, ¬ job.ComesBack k := by
  induction h with
  | @now job h =>
      refine ⟨0, fun hback => ?_⟩
      by_cases hlength : job.length ≤ maxBulk
      · rw [fate_stop hlength] at h
        cases h
      · rw [fate_again hlength hback] at h
        cases h
  | @later n job next h rest ih =>
      by_cases hlength : job.length ≤ maxBulk
      · rw [fate_stop hlength] at h
        cases h
      · by_cases hback : job.ComesBack 0
        · rw [fate_again hlength hback] at h
          cases h
          obtain ⟨k, hk⟩ := ih
          exact ⟨k + 1, mt (comesBack_called job k).mpr hk⟩
        · rw [fate_leave hlength hback] at h
          cases h

/-- An URB that never fits leaves the queue when it is left alone. -/
theorem exists_leaves {k : ℕ} (hfits : ¬ job.Fits maxBulk) (hback : ¬ job.ComesBack k) :
    ∃ n, Leaves (fate maxBulk) n job := by
  induction k generalizing job with
  | zero =>
      refine ⟨0, .now (fate_leave (fun hlength => hfits ?_) hback)⟩
      exact stops_iff.mp (.now (fate_stop hlength))
  | succ k ih =>
      have hlength : ¬ job.length ≤ maxBulk := fun hlength =>
        hfits (stops_iff.mp (.now (fate_stop hlength)))
      by_cases hfirst : job.ComesBack 0
      · have hagain := fate_again hlength hfirst
        obtain ⟨n, hn⟩ := @ih job.called
          (fun hcalled => hfits (stops_iff.mp (.later hagain (stops_iff.mpr hcalled))))
          (mt (comesBack_called job k).mp hback)
        exact ⟨n + 1, .later hagain hn⟩
      · exact ⟨0, .now (fate_leave hlength hfirst)⟩

/-- **Serving these URBs comes to an end** exactly when one of them fits at some time, or all of
them are left alone at some time. -/
theorem ends_iff (jobs : List Job) : Ends (fate maxBulk) jobs ↔
    (∃ job ∈ jobs, job.Fits maxBulk) ∨ ∀ job ∈ jobs, ∃ k, ¬ job.ComesBack k := by
  rw [RoundRobin.ends_iff]
  simp only [stops_iff]
  by_cases hfits : ∃ job ∈ jobs, job.Fits maxBulk
  · simp only [hfits, true_or]
  · simp only [hfits, false_or]
    constructor
    · intro hall job hmem
      obtain ⟨n, hn⟩ := hall job hmem
      exact exists_not_comesBack hn
    · intro hall job hmem
      obtain ⟨k, hk⟩ := hall job hmem
      exact exists_leaves (fun hjob => hfits ⟨job, hmem, hjob⟩) hk

end Job

/-! ### The steps of an invocation -/

/-- The job that an URB is during an invocation. -/
def Invocation.job (device : Device U E) (handlers : Handlers U) (inv : Invocation U E T)
    (urb : U) : Job where
  length := (inv.state.urbs urb).transferBufferLength
  live := device.complete urb && decide ((inv.state.urbs urb).reject = 0)
  submits k := (handlers urb (inv.calls urb + k)).map UrbIn.transferBufferLength

/-- The callback is at a place, and the queue of its endpoint has these URBs. -/
structure Working (device : Device U E) (uhe : E) (index : Fin 2) (inv : Invocation U E T)
    (place : CallbackPc U) (items : List U) : Prop where
  pc : (inv.state.bsdXfer uhe index).callback = place
  list : (inv.state.bsdUrbList uhe).Represents items
  owner : ∀ urb ∈ items, device.findHostEndpoint urb = some uhe
  opened : inv.state.opened uhe = true
  /-- A handler that is called belongs to an URB of the endpoint. -/
  calling : ∀ urb cancelled, place = .handler urb cancelled →
    device.findHostEndpoint urb = some uhe ∧ device.complete urb = true

/-- The queue after a call of the handler. -/
def Invocation.afterHandler (device : Device U E) (handlers : Handlers U)
    (inv : Invocation U E T) (urb : U) (items : List U) : List U :=
  if (inv.job device handlers urb).ComesBack 0 ∧ urb ∉ items then items ++ [urb] else items

/-- The jobs that the callback has before it. -/
def Invocation.remaining (device : Device U E) (handlers : Handlers U)
    (inv : Invocation U E T) (items : List U) : CallbackPc U → List Job
  | .idle => []
  | .trSetup => items.map (inv.job device handlers)
  | .handler urb cancelled =>
      if cancelled then []
      else (inv.afterHandler device handlers urb items).map
        (Function.update (inv.job device handlers) urb (inv.job device handlers urb).called)

/-- No URB has changed as far as the queueing goes. -/
def Keeps (state next : State U E T) : Prop :=
  ∀ urb, (next.urbs urb).transferBufferLength = (state.urbs urb).transferBufferLength ∧
    (next.urbs urb).reject = (state.urbs urb).reject

omit [DecidableEq U] [DecidableEq E] [DecidableEq T] in
theorem Keeps.refl (state : State U E T) : Keeps state state := fun _ => ⟨rfl, rfl⟩

omit [DecidableEq U] [DecidableEq E] [DecidableEq T] in
theorem Keeps.trans {state middle next : State U E T} (h : Keeps state middle)
    (h' : Keeps middle next) : Keeps state next := fun urb =>
  ⟨(h' urb).1.trans (h urb).1, (h' urb).2.trans (h urb).2⟩

omit [DecidableEq E] [DecidableEq T] in
/-- Other fields of an URB are written. -/
theorem Keeps.of_write {state next : State U E T} {urb : U} {written : Urb}
    (hnext : next.urbs = Function.update state.urbs urb written)
    (hlength : written.transferBufferLength = (state.urbs urb).transferBufferLength)
    (hreject : written.reject = (state.urbs urb).reject) : Keeps state next := by
  intro other
  rw [hnext]
  by_cases hother : other = urb
  · rw [hother, Function.update_self]
    exact ⟨hlength, hreject⟩
  · rw [Function.update_of_ne hother]
    exact ⟨rfl, rfl⟩

section Steps

variable {device : Device U E} {handlers : Handlers U} {uhe : E} {index : Fin 2}
  {inv : Invocation U E T} {urb : U} {cancelled : Bool} {items rest : List U}

omit [DecidableEq U] [DecidableEq E] [DecidableEq T] in
theorem Keeps.job {next : State U E T} (h : Keeps inv.state next) :
    (⟨next, inv.calls⟩ : Invocation U E T).job device handlers = inv.job device handlers := by
  funext other
  simp only [Invocation.job, (h other).1, (h other).2]

/-- The return of a completion handler. -/
theorem handlerReturn_step {state : State U E T}
    (hpc : (state.bsdXfer uhe index).callback = .handler urb cancelled) :
    (usbMachine device).step state (.handlerReturn uhe index) =
      some (state.resume uhe index urb cancelled, []) := by
  simp [usbMachine, State.handlerReturn, hpc]

omit [DecidableEq T] in
theorem resume_pc (state : State U E T) :
    ((state.resume uhe index urb cancelled).bsdXfer uhe index).callback =
      if cancelled then .idle else .trSetup := by
  simp [State.resume, State.setCallback]

omit [DecidableEq T] in
theorem resume_keeps (state : State U E T) :
    Keeps state (state.resume uhe index urb cancelled) := Keeps.of_write rfl rfl rfl

omit [DecidableEq T] in
/-- A submission that is rejected. -/
theorem submitUrb_rejected {state : State U E T} (hreject : (state.urbs urb).reject ≠ 0) :
    state.submitUrb device urb true = (state, [.submitted urb .enxio]) := if_pos hreject

omit [DecidableEq T] in
/-- The URB goes to the tail of the queue, if it is not on it. -/
theorem linkUrb_represents {state : State U E T}
    (hlist : (state.bsdUrbList uhe).Represents items) :
    (state.linkUrb uhe urb).1.bsdXfer = state.bsdXfer ∧
      (state.linkUrb uhe urb).1.opened = state.opened ∧
      Keeps state (state.linkUrb uhe urb).1 ∧
      ((state.linkUrb uhe urb).1.bsdUrbList uhe).Represents
        (if urb ∈ items then items else items ++ [urb]) := by
  by_cases hmem : urb ∈ items
  · rw [State.linkUrb, if_pos ((hlist.prev_isSome_iff urb).mpr hmem), if_pos hmem]
    exact ⟨rfl, rfl, Keeps.refl state, hlist⟩
  · rw [State.linkUrb, if_neg (mt (hlist.prev_isSome_iff urb).mp hmem), if_neg hmem]
    refine ⟨rfl, rfl, Keeps.of_write rfl rfl rfl, ?_⟩
    show (Function.update state.bsdUrbList uhe _ uhe).Represents _
    rw [Function.update_self]
    exact hlist.insertTail hmem

omit [DecidableEq T] in
/-- **A submission that is not rejected** links the URB. -/
theorem submitUrb_accepted {state : State U E T} (hreject : (state.urbs urb).reject = 0)
    (hown : device.findHostEndpoint urb = some uhe) (hopened : state.opened uhe = true)
    (hlist : (state.bsdUrbList uhe).Represents items) :
    (state.submitUrb device urb true).1.bsdXfer = state.bsdXfer ∧
      (state.submitUrb device urb true).1.opened = state.opened ∧
      Keeps state (state.submitUrb device urb true).1 ∧
      ((state.submitUrb device urb true).1.bsdUrbList uhe).Represents
        (if urb ∈ items then items else items ++ [urb]) := by
  have hsubmit : (state.submitUrb device urb true).1 =
      ((state.setUrb urb fun fields => { fields with hcpriv := true }).linkUrb uhe urb).1 := by
    rw [State.submitUrb, if_neg (not_not.mpr hreject), hown]
    simp only [State.setupEndpoint, if_pos hopened, State.enqueue]
  have hqueued : Keeps state
      (state.setUrb urb fun fields => { fields with hcpriv := true }) :=
    Keeps.of_write rfl rfl rfl
  obtain ⟨hxfer, hstays, hkeeps, hrep⟩ := @linkUrb_represents _ _ _ _ _ uhe urb items
    (state.setUrb urb fun fields => { fields with hcpriv := true }) hlist
  rw [hsubmit]
  exact ⟨hxfer, hstays, hqueued.trans hkeeps, hrep⟩

/-- What the handler has done when it returns. -/
structure Handled (device : Device U E) (handlers : Handlers U) (uhe : E)
    (inv : Invocation U E T) (urb : U) (items : List U) (state : State U E T) : Prop where
  xfers : state.bsdXfer = inv.state.bsdXfer
  opened : state.opened = inv.state.opened
  list : (state.bsdUrbList uhe).Represents (inv.afterHandler device handlers urb items)
  reject : ∀ other, (state.urbs other).reject = (inv.state.urbs other).reject
  others : ∀ other, other ≠ urb → (state.urbs other).transferBufferLength =
    (inv.state.urbs other).transferBufferLength
  length : (state.urbs urb).transferBufferLength =
    ((handlers urb (inv.calls urb)).map UrbIn.transferBufferLength).getD
      (inv.state.urbs urb).transferBufferLength

/-- The invocation after the return of the handler. -/
def Invocation.resumed (inv : Invocation U E T) (state : State U E T) (uhe : E)
    (index : Fin 2) (urb : U) (cancelled : Bool) : Invocation U E T where
  state := state.resume uhe index urb cancelled
  calls := Function.update inv.calls urb (inv.calls urb + 1)

omit [DecidableEq T] in
/-- What the handler does to the job of its URB. -/
theorem Handled.job {state : State U E T}
    (h : Handled device handlers uhe inv urb items state) :
    (inv.resumed state uhe index urb cancelled).job device handlers =
      Function.update (inv.job device handlers) urb (inv.job device handlers urb).called := by
  have hkeeps : Keeps state (state.resume uhe index urb cancelled) := resume_keeps state
  funext other
  have hreject := (hkeeps other).2.trans (h.reject other)
  by_cases hother : other = urb
  · subst hother
    have hlength := (hkeeps other).1.trans h.length
    rw [Function.update_self]
    ext1
    · simp only [Invocation.job, Invocation.resumed, Job.called, hlength, Nat.add_zero]
    · simp only [Invocation.job, Invocation.resumed, Job.called, hreject]
    · funext k
      simp only [Invocation.job, Invocation.resumed, Function.update_self, Job.called,
        Nat.add_assoc, Nat.add_comm 1 k]
  · have hlength := (hkeeps other).1.trans (h.others other hother)
    simp only [Invocation.job, Invocation.resumed, Function.update_of_ne hother, hlength, hreject]

omit [DecidableEq T] in
/-- The handler of an URB of the endpoint returns into the callback. -/
theorem Handled.working {state : State U E T}
    (h : Handled device handlers uhe inv urb items state)
    (hbefore : Working device uhe index inv (.handler urb cancelled) items) :
    Working device uhe index (inv.resumed state uhe index urb cancelled)
      (if cancelled then .idle else .trSetup) (inv.afterHandler device handlers urb items) where
  pc := resume_pc state
  list := h.list
  owner := by
    intro other hmem
    unfold Invocation.afterHandler at hmem
    split at hmem
    · rcases List.mem_append.mp hmem with hmem | hmem
      · exact hbefore.owner other hmem
      · rw [List.mem_singleton.mp hmem]
        exact (hbefore.calling urb cancelled rfl).1
    · exact hbefore.owner other hmem
  opened := (congrFun h.opened uhe).trans hbefore.opened
  calling := by
    intro other cancelled' hpc
    cases cancelled <;> cases hpc

/-- The handler has filled in the URB. -/
def Invocation.filled (inv : Invocation U E T) (urb : U) (fields : UrbIn) : State U E T :=
  inv.state.setUrb urb fun old => { old with toUrbIn := fields }

omit [DecidableEq E] [DecidableEq T] in
theorem filled_of_ne {fields : UrbIn} {other : U} (hother : other ≠ urb) :
    (inv.filled urb fields).urbs other = inv.state.urbs other :=
  Function.update_of_ne hother _ _

omit [DecidableEq E] [DecidableEq T] in
theorem filled_length (fields : UrbIn) :
    ((inv.filled urb fields).urbs urb).transferBufferLength = fields.transferBufferLength := by
  simp [Invocation.filled, State.setUrb]

omit [DecidableEq E] [DecidableEq T] in
theorem filled_reject (fields : UrbIn) (other : U) :
    ((inv.filled urb fields).urbs other).reject = (inv.state.urbs other).reject := by
  by_cases hother : other = urb
  · subst hother
    simp [Invocation.filled, State.setUrb]
  · rw [filled_of_ne hother]

/-- A handler that submits its URB runs up to its return. -/
theorem run_submits {fields : UrbIn} {state : State U E T} {events : List (Event U E)}
    (hpc : (inv.state.bsdXfer uhe index).callback = .handler urb cancelled)
    (hsubmit : (inv.filled urb fields).submitUrb device urb true = (state, events))
    (hxfers : state.bsdXfer = inv.state.bsdXfer) :
    (usbMachine device).run inv.state (handlerActions uhe index urb (some fields)) =
      some (state.resume uhe index urb cancelled, events) := by
  have hfill : (usbMachine device).step inv.state (.fill urb fields) =
      some (inv.filled urb fields, []) := rfl
  have hsubmits : (usbMachine device).step (inv.filled urb fields) (.submitUrb urb true) =
      some (state, events) := congrArg some hsubmit
  have hreturn : (usbMachine device).step state (.handlerReturn uhe index) =
      some (state.resume uhe index urb cancelled, []) := by
    apply handlerReturn_step
    rw [hxfers]
    exact hpc
  simp only [handlerActions, Machine.run_cons, hfill, hsubmits, hreturn, Option.bind_some,
    Machine.run_nil, Option.map_some, List.append_nil, List.nil_append]

omit [DecidableEq E] [DecidableEq T] in
/-- The queue after a handler that does not submit the URB, or in vain. -/
theorem afterHandler_stays (hstays : ¬ (inv.job device handlers urb).ComesBack 0) :
    inv.afterHandler device handlers urb items = items :=
  if_neg fun hback => hstays hback.1

omit [DecidableEq E] [DecidableEq T] in
theorem afterHandler_back (hback : (inv.job device handlers urb).ComesBack 0) :
    inv.afterHandler device handlers urb items =
      if urb ∈ items then items else items ++ [urb] := by
  by_cases hmem : urb ∈ items
  · rw [Invocation.afterHandler, if_neg fun hnot => hnot.2 hmem, if_pos hmem]
  · rw [Invocation.afterHandler, if_pos ⟨hback, hmem⟩, if_neg hmem]

omit [DecidableEq E] [DecidableEq T] in
theorem mem_afterHandler {other : U} : other ∈ inv.afterHandler device handlers urb items ↔
    other ∈ items ∨ other = urb ∧ (inv.job device handlers urb).ComesBack 0 := by
  by_cases hback : (inv.job device handlers urb).ComesBack 0
  · rw [afterHandler_back hback]
    by_cases hmem : urb ∈ items
    · rw [if_pos hmem]
      refine (or_iff_left_of_imp ?_).symm
      rintro ⟨rfl, -⟩
      exact hmem
    · simp [if_neg hmem, hback]
  · simp [afterHandler_stays hback, hback]

/-- **A call of the handler** runs up to its return. -/
theorem Working.handled (handlers : Handlers U)
    (h : Working device uhe index inv (.handler urb cancelled) items) :
    ∃ state events, Handled device handlers uhe inv urb items state ∧
      (usbMachine device).run inv.state
          (handlerActions uhe index urb (handlers urb (inv.calls urb))) =
        some (state.resume uhe index urb cancelled, events) := by
  obtain ⟨hown, hcomplete⟩ := h.calling urb cancelled rfl
  cases hfields : handlers urb (inv.calls urb) with
  | none =>
      have hstays : ¬ (inv.job device handlers urb).ComesBack 0 := by
        rintro ⟨-, hsubmits⟩
        simp [Invocation.job, hfields] at hsubmits
      refine ⟨inv.state, [], ⟨rfl, rfl, ?_, fun _ => rfl, fun _ _ => rfl, ?_⟩, ?_⟩
      · rw [afterHandler_stays hstays]
        exact h.list
      · simp [hfields]
      · rw [handlerActions, Machine.run_cons, handlerReturn_step h.pc]
        rfl
  | some fields =>
      by_cases hreject : (inv.state.urbs urb).reject = 0
      · have hback : (inv.job device handlers urb).ComesBack 0 := by
          simp [Invocation.job, Job.ComesBack, hfields, hcomplete, hreject]
        obtain ⟨hxfers, hopened, hkeeps, hlist⟩ :=
          @submitUrb_accepted _ _ _ _ _ device uhe urb items (inv.filled urb fields)
            ((filled_reject fields urb).trans hreject) hown h.opened h.list
        refine ⟨_, _, ⟨hxfers, hopened, ?_, fun other => ?_, fun other hother => ?_, ?_⟩,
          run_submits h.pc rfl hxfers⟩
        · rw [afterHandler_back hback]
          exact hlist
        · exact (hkeeps other).2.trans (filled_reject fields other)
        · rw [(hkeeps other).1, filled_of_ne hother]
        · rw [(hkeeps urb).1, filled_length, hfields]
          rfl
      · -- the answer is `-ENXIO`, and the fields are filled in all the same
        have hstays : ¬ (inv.job device handlers urb).ComesBack 0 := by
          rintro ⟨hlive, -⟩
          simp only [Invocation.job, hreject, decide_false, Bool.and_false] at hlive
          cases hlive
        have hrejected : ((inv.filled urb fields).urbs urb).reject ≠ 0 := by
          rw [filled_reject]
          exact hreject
        refine ⟨inv.filled urb fields, _, ⟨rfl, rfl, ?_, filled_reject fields,
          fun other hother => ?_, ?_⟩, run_submits h.pc (submitUrb_rejected hrejected) rfl⟩
        · rw [afterHandler_stays hstays]
          exact h.list
        · rw [filled_of_ne hother]
        · rw [filled_length, hfields]
          rfl

/-- Where a callback is when it has given back an URB. -/
def Device.completing (device : Device U E) (urb : U) (cancelled : Bool) : CallbackPc U :=
  if device.complete urb then .handler urb cancelled
  else if cancelled then .idle else .trSetup

omit [DecidableEq U] [DecidableEq E] in
/-- Only the handler of the URB can be called. -/
theorem completing_calling (hown : device.findHostEndpoint urb = some uhe) (other : U)
    (cancelled' : Bool) (hplace : device.completing urb cancelled = .handler other cancelled') :
    device.findHostEndpoint other = some uhe ∧ device.complete other = true := by
  rw [Device.completing] at hplace
  split at hplace
  · cases hplace
    exact ⟨hown, ‹_›⟩
  · split at hplace <;> cases hplace

omit [DecidableEq T] in
/-- The URB of the transfer is given back. -/
theorem usbLinuxComplete_spec {state : State U E T}
    (hpriv : (state.bsdXfer uhe index).privSc1 = some urb) :
    ∃ next events, state.usbLinuxComplete device uhe index cancelled = some (next, events) ∧
      (next.bsdXfer uhe index).callback = device.completing urb cancelled ∧
      next.bsdUrbList = state.bsdUrbList ∧ next.opened = state.opened ∧ Keeps state next := by
  rw [State.usbLinuxComplete, hpriv, Device.completing]
  have hreleased : Keeps state ((state.setUrb urb fun fields =>
      { fields with bsdNoResubmit := true }).setPriv uhe index none) :=
    Keeps.of_write rfl rfl rfl
  by_cases hcomplete : device.complete urb = true
  · simp only [if_pos hcomplete]
    refine ⟨_, _, rfl, ?_, rfl, rfl, hreleased.trans (Keeps.of_write rfl rfl rfl)⟩
    simp [State.setCallback]
  · simp only [if_neg hcomplete]
    exact ⟨_, _, rfl, resume_pc _, rfl, rfl, hreleased.trans (resume_keeps _)⟩

/-- A round at `tr_setup` that finds the queue empty. -/
theorem Working.empty (h : Working device uhe index inv .trSetup []) :
    ∃ next events, (usbMachine device).step inv.state (.trSetup uhe index) =
        some (next, events) ∧ (next.bsdXfer uhe index).callback = .idle := by
  have hfirst : (inv.state.bsdUrbList uhe).first = none := h.list.first_eq
  refine ⟨inv.state.setCallback uhe index .idle, [], ?_, by simp [State.setCallback]⟩
  show inv.state.trSetup device uhe index = _
  rw [State.trSetup, if_pos h.pc, hfirst]

omit [DecidableEq E] [DecidableEq T] in
/-- The first URB is taken from the queue. -/
theorem Working.remove (h : Working device uhe index inv .trSetup (urb :: rest)) :
    (inv.state.bsdUrbList uhe).first = some urb ∧
      ∃ removed, (inv.state.bsdUrbList uhe).remove urb = some removed ∧
        (removed.clearPrev urb).Represents rest := by
  obtain ⟨removed, hremove, hrest⟩ := h.list.remove List.mem_cons_self
  rw [List.erase_cons_head] at hrest
  exact ⟨h.list.first_eq, removed, hremove, hrest⟩

/-- The state in which the round makes the test for `-EFBIG`. -/
def State.taken (device : Device U E) (state : State U E T) (uhe : E) (index : Fin 2) (urb : U)
    (removed : TailQueue U) : State U E T :=
  ((state.setList uhe (removed.clearPrev urb)).setUrb urb
    ((device.xferType uhe).callback.setup (device.maxFrames uhe))).setPriv uhe index (some urb)

omit [DecidableEq T] in
/-- The test for `-EFBIG` is about the length that the URB had on the queue. -/
theorem taken_tooBig (hbulk : (device.xferType uhe).callback = usbLinuxBulkIntrCallback)
    (state : State U E T) (index : Fin 2) (urb : U) (removed : TailQueue U) :
    (device.xferType uhe).callback.tooBig (device.maxTotalLength uhe)
        ((state.taken device uhe index urb removed).urbs urb) =
      decide (device.maxTotalLength uhe < (state.urbs urb).transferBufferLength) := by
  simp [State.taken, State.setPriv, State.setXfer, State.setUrb, State.setList, hbulk,
    usbLinuxBulkIntrCallback]

/-- A round at `tr_setup` that submits the transfer. -/
theorem Working.submit (h : Working device uhe index inv .trSetup (urb :: rest))
    (hbulk : (device.xferType uhe).callback = usbLinuxBulkIntrCallback)
    (hfits : (inv.state.urbs urb).transferBufferLength ≤ device.maxTotalLength uhe) :
    ∃ next events, (usbMachine device).step inv.state (.trSetup uhe index) =
        some (next, events) ∧ (next.bsdXfer uhe index).callback = .idle := by
  obtain ⟨hfirst, removed, hremove, -⟩ := h.remove
  have hnot := taken_tooBig hbulk inv.state index urb removed
  rw [decide_eq_false (Nat.not_lt.mpr hfits)] at hnot
  refine ⟨(inv.state.taken device uhe index urb removed).setXfer uhe index fun xfer =>
    { xfer with pending := true, callback := .idle },
    [.trSubmit uhe index urb, .trStart uhe (1 - index)], ?_, by simp⟩
  show inv.state.trSetup device uhe index = _
  rw [State.trSetup, if_pos h.pc, hfirst]
  simp only [hremove, Option.bind_some]
  exact if_neg (Bool.eq_false_iff.mp hnot)

/-- **A round at `tr_setup` that refuses the URB.** -/
theorem Working.refuse (h : Working device uhe index inv .trSetup (urb :: rest))
    (hbulk : (device.xferType uhe).callback = usbLinuxBulkIntrCallback)
    (hbig : ¬ (inv.state.urbs urb).transferBufferLength ≤ device.maxTotalLength uhe) :
    ∃ next events, (usbMachine device).step inv.state (.trSetup uhe index) =
        some (next, events) ∧ Keeps inv.state next ∧
      Working device uhe index ⟨next, inv.calls⟩ (device.completing urb false) rest := by
  obtain ⟨hfirst, removed, hremove, hrest⟩ := h.remove
  have htoo := taken_tooBig hbulk inv.state index urb removed
  rw [decide_eq_true (Nat.lt_of_not_le hbig)] at htoo
  let refused := (inv.state.taken device uhe index urb removed).setUrb urb fun fields =>
    { fields with status := .efbig }
  have htaken : Keeps inv.state (inv.state.taken device uhe index urb removed) := by
    refine Keeps.of_write rfl ?_ ?_
    · rw [hbulk]
      rfl
    · rw [hbulk]
      rfl
  have hrefused : Keeps inv.state refused := htaken.trans (Keeps.of_write rfl rfl rfl)
  have hpriv : (refused.bsdXfer uhe index).privSc1 = some urb := by
    simp [refused, State.taken, State.setPriv]
  obtain ⟨next, events, hcomplete, hpc, hlist, hopened, hkeeps⟩ :=
    @usbLinuxComplete_spec _ _ _ _ _ device uhe index urb false refused hpriv
  refine ⟨next, .refused uhe index urb :: events, ?_, hrefused.trans hkeeps, hpc, ?_,
    fun other hmem => h.owner other (List.mem_cons_of_mem urb hmem),
    (congrFun hopened uhe).trans h.opened,
    completing_calling (h.owner urb List.mem_cons_self)⟩
  · show inv.state.trSetup device uhe index = _
    rw [State.trSetup, if_pos h.pc, hfirst]
    simp only [hremove, Option.bind_some]
    refine (if_pos htoo).trans ?_
    show (refused.usbLinuxComplete device uhe index false).map _ = _
    rw [hcomplete]
    rfl
  · rw [hlist]
    show (Function.update inv.state.bsdUrbList uhe _ uhe).Represents rest
    rw [Function.update_self]
    exact hrest

omit [DecidableEq E] [DecidableEq T] in
/-- The jobs left when the handler of an URB that is not on the queue is about to be called. -/
theorem remaining_handler (hmem : urb ∉ items) :
    inv.remaining device handlers items (.handler urb false) =
      items.map (inv.job device handlers) ++
        if (inv.job device handlers urb).ComesBack 0 then [(inv.job device handlers urb).called]
        else [] := by
  have hitems : items.map (Function.update (inv.job device handlers) urb
      (inv.job device handlers urb).called) = items.map (inv.job device handlers) :=
    List.map_congr_left fun other hother =>
      Function.update_of_ne (ne_of_mem_of_not_mem hother hmem) _ _
  rw [Invocation.remaining, if_neg Bool.false_ne_true]
  by_cases hback : (inv.job device handlers urb).ComesBack 0
  · rw [afterHandler_back hback, if_neg hmem, if_pos hback, List.map_append, hitems,
      List.map_singleton, Function.update_self]
  · rw [afterHandler_stays hback, if_neg hback, hitems, List.append_nil]

open RoundRobin in
/-- **A round at `tr_setup`** serves the first job. -/
theorem Working.round (handlers : Handlers U)
    (h : Working device uhe index inv .trSetup items)
    (hbulk : (device.xferType uhe).callback = usbLinuxBulkIntrCallback) :
    ∃ next events, (usbMachine device).step inv.state (.trSetup uhe index) =
        some (next, events) ∧
      ((turn (Job.fate (device.maxTotalLength uhe)) (items.map (inv.job device handlers)) = none ∧
          (next.bsdXfer uhe index).callback = .idle) ∨
        ∃ place rest, Working device uhe index ⟨next, inv.calls⟩ place rest ∧
          turn (Job.fate (device.maxTotalLength uhe)) (items.map (inv.job device handlers)) =
            some (Invocation.remaining device handlers ⟨next, inv.calls⟩ rest place)) := by
  cases items with
  | nil =>
      obtain ⟨next, events, hstep, hidle⟩ := h.empty
      exact ⟨next, events, hstep, Or.inl ⟨rfl, hidle⟩⟩
  | cons urb rest =>
      rw [List.map_cons]
      by_cases hfits : (inv.state.urbs urb).transferBufferLength ≤ device.maxTotalLength uhe
      · obtain ⟨next, events, hstep, hidle⟩ := h.submit hbulk hfits
        exact ⟨next, events, hstep, Or.inl ⟨turn_stop (Job.fate_stop hfits), hidle⟩⟩
      · obtain ⟨next, events, hstep, hkeeps, hnext⟩ := h.refuse hbulk hfits
        refine ⟨next, events, hstep, Or.inr ⟨_, rest, hnext, ?_⟩⟩
        -- the URB is off the queue, so the handler puts it at the tail
        have hmem : urb ∉ rest := (List.nodup_cons.mp h.list.nodup).1
        have hfits' : ¬ (inv.job device handlers urb).length ≤ device.maxTotalLength uhe := hfits
        rw [Device.completing]
        by_cases hcomplete : device.complete urb = true
        · rw [if_pos hcomplete, remaining_handler hmem, hkeeps.job]
          by_cases hback : (inv.job device handlers urb).ComesBack 0
          · rw [turn_again (Job.fate_again hfits' hback), if_pos hback]
          · rw [turn_leave (Job.fate_leave hfits' hback), if_neg hback, List.append_nil]
        · have hstays : ¬ (inv.job device handlers urb).ComesBack 0 := by
            rintro ⟨hlive, -⟩
            simp only [Invocation.job, Bool.and_eq_true] at hlive
            exact hcomplete hlive.1
          rw [if_neg hcomplete, turn_leave (Job.fate_leave hfits' hstays),
            if_neg Bool.false_ne_true, Invocation.remaining, hkeeps.job]

/-- A call of the handler leaves the same jobs. -/
theorem Working.called (handlers : Handlers U)
    (h : Working device uhe index inv (.handler urb cancelled) items) :
    ∃ state events, (usbMachine device).run inv.state
        (handlerActions uhe index urb (handlers urb (inv.calls urb))) =
          some (state.resume uhe index urb cancelled, events) ∧
      Working device uhe index (inv.resumed state uhe index urb cancelled)
        (if cancelled then .idle else .trSetup) (inv.afterHandler device handlers urb items) ∧
      (inv.resumed state uhe index urb cancelled).remaining device handlers
          (inv.afterHandler device handlers urb items) (if cancelled then .idle else .trSetup) =
        inv.remaining device handlers items (.handler urb cancelled) := by
  obtain ⟨state, events, hhandled, hrun⟩ := h.handled handlers
  refine ⟨state, events, hrun, hhandled.working h, ?_⟩
  cases cancelled with
  | true => rfl
  | false => rw [if_neg Bool.false_ne_true, Invocation.remaining, hhandled.job,
      Invocation.remaining, if_neg Bool.false_ne_true]

open RoundRobin in
/-- **A callback that returns** has come to an end with its jobs. -/
theorem Returns.ends {n : ℕ} (hreturns : Returns device handlers uhe index n inv)
    (hbulk : (device.xferType uhe).callback = usbLinuxBulkIntrCallback) {place : CallbackPc U}
    (h : Working device uhe index inv place items) :
    Ends (Job.fate (device.maxTotalLength uhe)) (inv.remaining device handlers items place) := by
  induction hreturns generalizing place items with
  | idle pc =>
      obtain rfl : place = .idle := h.pc.symm.trans pc
      exact .done rfl
  | trSetup pc step rest ih =>
      obtain rfl : place = .trSetup := h.pc.symm.trans pc
      obtain ⟨next, events, hstep, hround⟩ := h.round handlers hbulk
      -- the state of the invocation and that of the round are the same
      cases step.symm.trans hstep
      rcases hround with ⟨hstop, -⟩ | ⟨place, items', hnext, hturn⟩
      · exact .done hstop
      · exact .more hturn (ih hnext)
  | handler pc run rest ih =>
      obtain rfl := h.pc.symm.trans pc
      obtain ⟨state, events, hrun, hnext, hremaining⟩ := h.called handlers
      cases run.symm.trans hrun
      rw [← hremaining]
      exact ih hnext

/-- From any place the callback comes back to `tr_setup`, or returns. -/
theorem Working.returns_of_trSetup {queue : List Job} {place : CallbackPc U}
    (hset : ∀ {inv : Invocation U E T} {items : List U},
      Working device uhe index inv .trSetup items →
      inv.remaining device handlers items .trSetup = queue →
      ∃ n, Returns device handlers uhe index n inv)
    (h : Working device uhe index inv place items)
    (hqueue : inv.remaining device handlers items place = queue) :
    ∃ n, Returns device handlers uhe index n inv := by
  cases place with
  | idle => exact ⟨0, .idle h.pc⟩
  | trSetup => exact hset h hqueue
  | handler urb cancelled =>
      obtain ⟨state, events, hrun, hnext, hremaining⟩ := h.called handlers
      cases cancelled with
      | true => exact ⟨1, .handler h.pc hrun (.idle hnext.pc)⟩
      | false =>
          obtain ⟨n, hreturns⟩ := hset hnext (hremaining.trans hqueue)
          exact ⟨n + 1, .handler h.pc hrun hreturns⟩

open RoundRobin in
/-- **When the jobs come to an end, the callback returns.** -/
theorem Working.returns {queue : List Job}
    (hends : Ends (Job.fate (device.maxTotalLength uhe)) queue)
    (hbulk : (device.xferType uhe).callback = usbLinuxBulkIntrCallback) {place : CallbackPc U}
    (h : Working device uhe index inv place items)
    (hstart : inv.remaining device handlers items place = queue) :
    ∃ n, Returns device handlers uhe index n inv := by
  refine h.returns_of_trSetup (fun {inv items} hset hqueue => ?_) hstart
  clear h hstart
  -- on the service of the jobs; a round and the handler it calls serve one of them
  induction hends generalizing inv items with
  | done hstop =>
      obtain ⟨next, events, hstep, ⟨-, hidle⟩ | ⟨place, rest, -, hturn⟩⟩ :=
        hset.round handlers hbulk
      · exact ⟨0, .trSetup hset.pc hstep (.idle hidle)⟩
      · cases hturn.symm.trans ((congrArg _ hqueue).trans hstop)
  | more hmore rest ih =>
      obtain ⟨next, events, hstep, ⟨hstop, -⟩ | ⟨place, items', hnext, hturn⟩⟩ :=
        hset.round handlers hbulk
      · cases hstop.symm.trans ((congrArg _ hqueue).trans hmore)
      · obtain ⟨n, hreturns⟩ := hnext.returns_of_trSetup (fun h hqueue => ih h hqueue)
          (Option.some.inj (hturn.symm.trans ((congrArg _ hqueue).trans hmore)))
        exact ⟨n, .trSetup hset.pc hstep hreturns⟩

end Steps

/-! ### Which invocations return -/

section Entry

variable (device : Device U E) (handlers : Handlers U) (state : State U E T) (uhe : E)
  (index : Fin 2) (status : Status)

/-- The callback begins with a call of the handler of this URB. -/
def Completes (urb : U) : Prop :=
  status ≠ .start ∧ state.priv uhe index = some urb ∧ device.complete urb = true

instance (urb : U) : Decidable (Completes device state uhe index status urb) :=
  inferInstanceAs (Decidable (_ ∧ _ ∧ _))

/-- The callback is about to be called. -/
def State.invocation : Invocation U E T := ⟨state, fun _ => 0⟩

/-- The callback comes to this URB, unless it stops before. -/
def ComesTo (urb : U) : Prop :=
  ((state.bsdUrbList uhe).prev urb).isSome = true ∨
    Completes device state uhe index status urb ∧
      (state.invocation.job device handlers urb).ComesBack 0

/-- The URB when it comes to `tr_setup`. -/
def State.jobAtSetup (urb : U) : Job :=
  if Completes device state uhe index status urb then
    (state.invocation.job device handlers urb).called
  else state.invocation.job device handlers urb

/-- **The callback is bounded**: it is cancelled, or one of the URBs fits into the transfer at
some time, or every one of them is left alone by its handler at some time. -/
def Bounded : Prop :=
  status = .cancelled ∨
    (∃ urb, ComesTo device handlers state uhe index status urb ∧
      (state.jobAtSetup device handlers uhe index status urb).Fits (device.maxTotalLength uhe)) ∨
    ∀ urb, ComesTo device handlers state uhe index status urb →
      ∃ k, ¬ (state.jobAtSetup device handlers uhe index status urb).ComesBack k

end Entry

section Entered

variable {device : Device U E} {handlers : Handlers U} {state entered : State U E T} {uhe : E}
  {index : Fin 2} {status : Status} {report : Report} {events : List (Event U E)}
  {ledgers : E → Ledger U}

omit [DecidableEq U] [DecidableEq E] [DecidableEq T] in
theorem UsbInv.entered_working {place : CallbackPc U} (hinv : UsbInv device state ledgers)
    (hopens : state.opened uhe = true)
    (hpc : (entered.bsdXfer uhe index).callback = place)
    (hlist : entered.bsdUrbList = state.bsdUrbList) (hopened : entered.opened = state.opened)
    (hcalling : ∀ urb cancelled, place = .handler urb cancelled →
      device.findHostEndpoint urb = some uhe ∧ device.complete urb = true) :
    Working device uhe index entered.invocation place
      ((ledgers uhe).waiting.map Ticket.item) where
  pc := hpc
  list := by
    rw [State.invocation, hlist]
    exact (hinv.endpoints uhe).links
  owner := by
    intro urb hmem
    obtain ⟨ticket, hticket, rfl⟩ := List.mem_map.mp hmem
    exact (hinv.endpoints uhe).owner ticket (List.mem_append_left _ hticket)
  opened := (congrFun hopened uhe).trans hopens
  calling := hcalling

/-- The URB of the transfer has its result. -/
def State.finished (device : Device U E) (state : State U E T) (uhe : E) (index : Fin 2)
    (status : Status) (report : Report) (urb : U) : State U E T :=
  (state.setXfer uhe index fun xfer => { xfer with pending := false }).setUrb urb
    (if status = .completed then (device.xferType uhe).callback.completed report
      else (device.xferType uhe).callback.failed status)

omit [DecidableEq T] in
theorem finished_keeps (hbulk : (device.xferType uhe).callback = usbLinuxBulkIntrCallback)
    (state : State U E T) {urb : U} :
    Keeps state (state.finished device uhe index status report urb) := by
  refine Keeps.of_write rfl ?_ ?_
  all_goals
    rw [hbulk]
    split <;> rfl

/-- **The first part of the callback** leads to `tr_setup`, or gives back the URB of the
transfer. -/
theorem callback_working (hinv : UsbInv device state ledgers)
    (hbulk : (device.xferType uhe).callback = usbLinuxBulkIntrCallback)
    (hstep : (usbMachine device).step state (.callback uhe index status report) =
      some (entered, events)) :
    Keeps state entered ∧
      ((status = .start ∧ Working device uhe index entered.invocation .trSetup
          ((ledgers uhe).waiting.map Ticket.item)) ∨
        status ≠ .start ∧ ∃ urb, state.priv uhe index = some urb ∧
          Working device uhe index entered.invocation
            (device.completing urb (decide (status = .cancelled)))
            ((ledgers uhe).waiting.map Ticket.item)) := by
  replace hstep : state.callback device uhe index status report = some (entered, events) := hstep
  rw [State.callback] at hstep
  split at hstep
  · rename_i henabled
    by_cases hstart : status = .start
    · rw [if_pos hstart] at hstep
      cases hstep
      refine ⟨Keeps.refl state, Or.inl ⟨hstart, ?_⟩⟩
      exact hinv.entered_working henabled.1 (by simp [State.setCallback]) rfl rfl (by simp)
    · rw [if_neg hstart] at hstep
      cases hpriv : (state.bsdXfer uhe index).privSc1 with
      | none => simp [hpriv] at hstep
      | some urb =>
          simp only [hpriv, Option.map_eq_some_iff] at hstep
          obtain ⟨⟨next, rest⟩, hcomplete, heq⟩ := hstep
          cases heq
          have hpriv' : ((state.finished device uhe index status report urb).bsdXfer
              uhe index).privSc1 = some urb := by
            simpa [State.finished] using hpriv
          obtain ⟨after, events, hspec, hpc, hlist, hopened, hkeeps⟩ :=
            @usbLinuxComplete_spec _ _ _ _ _ device uhe index urb
              (decide (status = .cancelled)) _ hpriv'
          cases hcomplete.symm.trans hspec
          refine ⟨(finished_keeps hbulk state).trans hkeeps,
            Or.inr ⟨hstart, urb, hpriv, ?_⟩⟩
          exact hinv.entered_working henabled.1 hpc hlist hopened
            (completing_calling ((hinv.endpoints uhe).owner_of_inFlight
              (State.mem_inFlight.mpr ⟨index, hpriv⟩)))
  · cases hstep

omit [DecidableEq E] [DecidableEq T] in
/-- The condition, for a list of the URBs that the callback comes to. -/
theorem ends_iff_bounded {urbs : List U} (hnot : status ≠ .cancelled)
    (hmem : ∀ urb, urb ∈ urbs ↔ ComesTo device handlers state uhe index status urb) :
    RoundRobin.Ends (Job.fate (device.maxTotalLength uhe))
        (urbs.map (state.jobAtSetup device handlers uhe index status)) ↔
      Bounded device handlers state uhe index status := by
  rw [Job.ends_iff, Bounded]
  simp only [hnot, false_or, List.mem_map, exists_exists_and_eq_and, forall_exists_index,
    and_imp, forall_apply_eq_imp_iff₂, hmem]

omit [DecidableEq E] [DecidableEq T] in
theorem jobAtSetup_of_not (hnot : ∀ urb, ¬ Completes device state uhe index status urb) :
    state.jobAtSetup device handlers uhe index status =
      state.invocation.job device handlers := by
  funext urb
  rw [State.jobAtSetup, if_neg (hnot urb)]

omit [DecidableEq E] [DecidableEq T] in
theorem jobAtSetup_of_completes {urb : U}
    (hurb : Completes device state uhe index status urb) :
    state.jobAtSetup device handlers uhe index status =
      Function.update (state.invocation.job device handlers) urb
        (state.invocation.job device handlers urb).called := by
  funext other
  by_cases hother : other = urb
  · subst hother
    rw [Function.update_self, State.jobAtSetup, if_pos hurb]
  · rw [Function.update_of_ne hother, State.jobAtSetup, if_neg]
    rintro ⟨-, hpriv, -⟩
    exact hother (Option.some.inj (hpriv.symm.trans hurb.2.1))

/-- **The jobs of an invocation come to an end** exactly when it is bounded. -/
theorem entered_ends_iff (hinv : UsbInv device state ledgers)
    (hbulk : (device.xferType uhe).callback = usbLinuxBulkIntrCallback)
    (hstep : (usbMachine device).step state (.callback uhe index status report) =
      some (entered, events)) (handlers : Handlers U) :
    ∃ place items, Working device uhe index entered.invocation place items ∧
      (RoundRobin.Ends (Job.fate (device.maxTotalLength uhe))
          (entered.invocation.remaining device handlers items place) ↔
        Bounded device handlers state uhe index status) := by
  obtain ⟨hkeeps, hplace⟩ := callback_working hinv hbulk hstep
  have hjob : entered.invocation.job device handlers = state.invocation.job device handlers :=
    @Keeps.job _ _ _ device handlers state.invocation entered hkeeps
  have hqueued : ∀ urb, urb ∈ (ledgers uhe).waiting.map Ticket.item ↔
      ((state.bsdUrbList uhe).prev urb).isSome = true := fun urb =>
    ((hinv.endpoints uhe).links.prev_isSome_iff urb).symm
  -- no handler is called first: the callback comes to the URBs on the queue
  have hsetup : status ≠ .cancelled →
      (∀ urb, ¬ Completes device state uhe index status urb) →
      (RoundRobin.Ends (Job.fate (device.maxTotalLength uhe))
          (entered.invocation.remaining device handlers
            ((ledgers uhe).waiting.map Ticket.item) .trSetup) ↔
        Bounded device handlers state uhe index status) := by
    intro hnot hcompletes
    rw [Invocation.remaining, hjob, ← jobAtSetup_of_not hcompletes]
    refine ends_iff_bounded hnot fun urb => (hqueued urb).trans ?_
    simp only [ComesTo, hcompletes, false_and, or_false]
  rcases hplace with ⟨hstart, hworking⟩ | ⟨hstart, urb, hpriv, hworking⟩
  · refine ⟨_, _, hworking, hsetup ?_ fun urb hcompletes => hcompletes.1 hstart⟩
    rw [hstart]
    nofun
  · refine ⟨_, _, hworking, ?_⟩
    by_cases hcancel : status = .cancelled
    · -- the callback returns after the handler
      rw [decide_eq_true hcancel]
      refine iff_of_true ?_ (Or.inl hcancel)
      rw [Device.completing]
      split <;> exact .done rfl
    · rw [decide_eq_false hcancel]
      by_cases hcomplete : device.complete urb = true
      · have hcompletes : Completes device state uhe index status urb :=
          ⟨hstart, hpriv, hcomplete⟩
        rw [Device.completing, if_pos hcomplete, Invocation.remaining,
          if_neg Bool.false_ne_true, hjob, ← jobAtSetup_of_completes hcompletes]
        refine ends_iff_bounded hcancel fun other => ?_
        rw [mem_afterHandler, hqueued, hjob]
        refine or_congr Iff.rfl ⟨?_, ?_⟩
        · rintro ⟨rfl, hback⟩
          exact ⟨hcompletes, hback⟩
        · rintro ⟨hother, hback⟩
          obtain rfl := Option.some.inj (hother.2.1.symm.trans hpriv)
          exact ⟨rfl, hback⟩
      · rw [Device.completing, if_neg hcomplete, if_neg Bool.false_ne_true]
        refine hsetup hcancel fun other hcompletes => ?_
        obtain rfl := Option.some.inj (hpriv.symm.trans hcompletes.2.1)
        exact hcomplete hcompletes.2.2

/-- From a state that agrees with its ledgers, the callback returns exactly when it is bounded. -/
theorem UsbInv.returns_iff (hinv : UsbInv device state ledgers)
    (hbulk : (device.xferType uhe).callback = usbLinuxBulkIntrCallback)
    (hstep : (usbMachine device).step state (.callback uhe index status report) =
      some (entered, events)) (handlers : Handlers U) :
    (∃ n, Returns device handlers uhe index n entered.invocation) ↔
      Bounded device handlers state uhe index status := by
  obtain ⟨place, items, hworking, hends⟩ := entered_ends_iff hinv hbulk hstep handlers
  rw [← hends]
  constructor
  · rintro ⟨n, hreturns⟩
    exact hreturns.ends hbulk hworking
  · intro h
    exact hworking.returns h hbulk rfl

end Entered

/-- **When a callback returns.**  In every run, a bulk or interrupt callback that begins comes
to its end after finitely many calls of handlers exactly when it is bounded. -/
theorem bulkIntr_returns_iff {device : Device U E} {state entered : State U E T}
    {schedule : List (Action U E T)} {history events : List (Event U E)} {uhe : E}
    {index : Fin 2} {status : Status} {report : Report}
    (hrun : (usbMachine device).run .init schedule = some (state, history))
    (htype : device.xferType uhe = .bulk ∨ device.xferType uhe = .int)
    (hstep : (usbMachine device).step state (.callback uhe index status report) =
      some (entered, events)) (handlers : Handlers U) :
    (∃ n, Returns device handlers uhe index n entered.invocation) ↔
      Bounded device handlers state uhe index status := by
  obtain ⟨ledgers, -, hinv⟩ := run_refines hrun
  refine hinv.returns_iff ?_ hstep handlers
  rcases htype with htype | htype <;> rw [htype] <;> rfl

/-! ### An URB that is too big for its transfer -/

/-- `libusb20_dev_get_speed`, as far as it is told apart. -/
inductive Speed where
  | low
  | full
  | faster
  deriving DecidableEq

/-- `if (bufsize < bound) bufsize = bound` -/
def atLeast (bound bufsize : ℤ) : ℤ := if bufsize < bound then bound else bufsize

/-- The size with which `usb_setup_endpoint` opens the transfers of a bulk or interrupt
endpoint, for the first submission; `minBufsize` is a parameter of the module. -/
def setupBufsize (minBufsize : ℤ) (speed : Speed) (type : XferType)
    (transferBufferLength : BitVec 32) : ℤ :=
  let bufsize := atLeast minBufsize (atLeast 0 transferBufferLength.toInt)
  if speed = .low then atLeast 256 bufsize
  else if type = .int ∨ speed = .full then atLeast 4096 bufsize
  else atLeast 131072 bufsize

theorem le_atLeast (bound bufsize : ℤ) : bufsize ≤ atLeast bound bufsize := by
  unfold atLeast
  split
  · exact le_of_lt ‹_›
  · exact le_rfl

/-- The transfers are big enough for the first URB of the endpoint. -/
theorem le_setupBufsize (minBufsize : ℤ) (speed : Speed) (type : XferType)
    (transferBufferLength : BitVec 32) :
    transferBufferLength.toInt ≤ setupBufsize minBufsize speed type transferBufferLength := by
  have hmin : transferBufferLength.toInt ≤
      atLeast minBufsize (atLeast 0 transferBufferLength.toInt) :=
    (le_atLeast 0 _).trans (le_atLeast minBufsize _)
  unfold setupBufsize
  split_ifs
  · exact hmin.trans (le_atLeast 256 _)
  · exact hmin.trans (le_atLeast 4096 _)
  · exact hmin.trans (le_atLeast 131072 _)

/-- Two URBs for a fast bulk endpoint that was opened for the first of them, which is short. -/
def shortFirstDevice : Device Bool Unit where
  findHostEndpoint _ := some ()
  complete _ := true
  xferType _ := .bulk
  maxTotalLength _ := (setupBufsize 0 .faster .bulk 512).toNat
  maxFrames _ := 1

/-- The fields of an URB of this length. -/
def urbOfLength (transferBufferLength : ℕ) : UrbIn where
  transferBufferLength := transferBufferLength
  shortNotOk := false
  numberOfPackets := 0
  packetLength _ := 0

/-- One transfer has the short URB, the other one is about to look at the long one. -/
def longQueuedSchedule : List (Action Bool Unit Unit) :=
  [.fill false (urbOfLength 512), .submitUrb false true,
    .fill true (urbOfLength 200000), .submitUrb true true,
    .callback () 0 .start ⟨0, fun _ => 0⟩, .trSetup () 0]

/-- A handler that submits its URB once is called twice. -/
theorem bulkIntr_returns_iff_once : ∃ state history entered events,
    (usbMachine shortFirstDevice).run .init longQueuedSchedule = some (state, history) ∧
      (usbMachine shortFirstDevice).step state (.callback () 1 .start ⟨0, fun _ => 0⟩) =
        some (entered, events) ∧
      ∃ n, Returns shortFirstDevice
        (fun _ k => if k = 0 then some (urbOfLength 200000) else none) () 1 n
        entered.invocation := by
  have hrun := Machine.run_eq_after (usbMachine shortFirstDevice)
    (rfl : ((usbMachine shortFirstDevice).run .init longQueuedSchedule).isSome = true) rfl
  have hstep : (usbMachine shortFirstDevice).step
      (Machine.after (usbMachine shortFirstDevice) .init longQueuedSchedule rfl)
      (.callback () 1 .start ⟨0, fun _ => 0⟩) = some (_, []) := rfl
  refine ⟨_, _, _, _, hrun, hstep,
    (bulkIntr_returns_iff hrun (Or.inl rfl) hstep _).mpr (Or.inr (Or.inr fun urb hurb => ?_))⟩
  refine ⟨1, ?_⟩
  rintro ⟨-, hsubmits⟩
  cases hsubmits

/-- A handler that submits the long URB whenever it is called. -/
theorem bulkIntr_never_returns : ∃ state history entered events,
    (usbMachine shortFirstDevice).run .init longQueuedSchedule = some (state, history) ∧
      (usbMachine shortFirstDevice).step state (.callback () 1 .start ⟨0, fun _ => 0⟩) =
        some (entered, events) ∧
      ∀ n, ¬ Returns shortFirstDevice (fun _ _ => some (urbOfLength 200000)) () 1 n
        entered.invocation := by
  have hrun := Machine.run_eq_after (usbMachine shortFirstDevice)
    (rfl : ((usbMachine shortFirstDevice).run .init longQueuedSchedule).isSome = true) rfl
  have hstep : (usbMachine shortFirstDevice).step
      (Machine.after (usbMachine shortFirstDevice) .init longQueuedSchedule rfl)
      (.callback () 1 .start ⟨0, fun _ => 0⟩) = some (_, []) := rfl
  refine ⟨_, _, _, _, hrun, hstep, fun n hreturns => ?_⟩
  obtain ⟨ledgers, -, hinv⟩ := run_refines hrun
  rcases (hinv.returns_iff rfl hstep _).mp ⟨n, hreturns⟩ with
    hcancel | ⟨urb, hcomes, k, -, hfits⟩ | hall
  · cases hcancel
  · cases urb with
    | false =>
        -- the short URB is in the other transfer
        rcases hcomes with hqueued | ⟨hcompletes, -⟩
        · exact Bool.false_ne_true hqueued
        · exact hcompletes.1 rfl
    | true =>
        have hlong : ¬ 200000 ≤ shortFirstDevice.maxTotalLength () := by decide
        cases k with
        | zero => exact hlong hfits
        | succ k => exact hlong hfits
  · obtain ⟨k, hleft⟩ := hall true (Or.inl rfl)
    exact hleft ⟨rfl, rfl⟩

end Webcamd.Kernel.Usb
