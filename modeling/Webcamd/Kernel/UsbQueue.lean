import Webcamd.Kernel.Usb

/-!
# What a step does to the queues and the transfers

Of a step of the USB machine only four things matter for where an URB is: it can be
linked into the queue of its endpoint, be withdrawn from it, go from the head of the
queue into a transfer that is free, or leave the transfer that has finished with it.
`Outcome` lists these, with the events each of them leaves, and `Outcome.of_step` says
that there is nothing else.  Everything after it is about outcomes and not about code.

The history of one endpoint, read as moves of a request ledger (`endpointOps`), is
accepted by the ledger in **every** run (`run_refines`): the queue holds the requests
that wait, the private data of the two transfers are the requests that are active.

This says that no URB gets lost.  It does not say that an URB is in one place: the same
URB may be two requests.

A consequence of the same invariant is that no step goes wrong (`run_step_isSome`): no
callback meets a transfer without private data, and no queue operation is applied to an
URB that is not linked.
-/

namespace Webcamd.Kernel.Usb

open Webcamd.Library

variable {U E T : Type} [DecidableEq U] [DecidableEq E] [DecidableEq T]

namespace State

/-- The private data of the transfers. -/
def priv (state : State U E T) (uhe : E) (index : Fin 2) : Option U :=
  (state.bsdXfer uhe index).privSc1

/-- The URBs the two transfers of an endpoint work on. -/
def inFlight (state : State U E T) (uhe : E) : List U :=
  (state.priv uhe 0).toList ++ (state.priv uhe 1).toList

omit [DecidableEq U] [DecidableEq E] [DecidableEq T] in
theorem mem_inFlight {state : State U E T} {uhe : E} {urb : U} :
    urb ∈ state.inFlight uhe ↔ ∃ index, state.priv uhe index = some urb := by
  simp [inFlight, Fin.exists_fin_two, Option.mem_toList, eq_comm]

omit [DecidableEq U] [DecidableEq E] [DecidableEq T] in
theorem inFlight_congr {state next : State U E T} {uhe : E}
    (h : next.priv uhe = state.priv uhe) : next.inFlight uhe = state.inFlight uhe := by
  rw [inFlight, inFlight, h]

omit [DecidableEq U] [DecidableEq E] [DecidableEq T] in
/-- A free transfer takes an URB. -/
theorem inFlight_update {state next : State U E T} {uhe : E} {index : Fin 2} {urb : U}
    (hfree : state.priv uhe index = none)
    (h : next.priv uhe = Function.update (state.priv uhe) index (some urb)) :
    (next.inFlight uhe).Perm (urb :: state.inFlight uhe) := by
  rw [inFlight, inFlight, h]
  match index with
  | 0 => simp [hfree]
  | 1 =>
      simp only [Function.update_self, Option.toList_some, hfree, Option.toList_none,
        List.append_nil]
      exact List.perm_append_singleton urb _

omit [DecidableEq E] [DecidableEq T] in
theorem holds_iff {state : State U E T} {uhe : E} {index : Fin 2} {urb : U} :
    state.holds uhe index urb = true ↔ state.priv uhe index = some urb := by
  rw [holds, decide_eq_true_iff, priv]

/-! ### Single writes -/

omit [DecidableEq E] [DecidableEq T] in
@[simp] theorem setUrb_bsdUrbList (state : State U E T) (urb : U) (write : Urb → Urb) :
    (state.setUrb urb write).bsdUrbList = state.bsdUrbList := rfl

omit [DecidableEq E] [DecidableEq T] in
@[simp] theorem setUrb_bsdXfer (state : State U E T) (urb : U) (write : Urb → Urb) :
    (state.setUrb urb write).bsdXfer = state.bsdXfer := rfl

omit [DecidableEq U] [DecidableEq E] in
@[simp] theorem setKill_bsdUrbList (state : State U E T) (thread : T) (pc : KillPc U E) :
    (state.setKill thread pc).bsdUrbList = state.bsdUrbList := rfl

omit [DecidableEq U] [DecidableEq E] in
@[simp] theorem setKill_bsdXfer (state : State U E T) (thread : T) (pc : KillPc U E) :
    (state.setKill thread pc).bsdXfer = state.bsdXfer := rfl

omit [DecidableEq U] [DecidableEq T] in
@[simp] theorem setXfer_bsdUrbList (state : State U E T) (uhe : E) (index : Fin 2)
    (write : Xfer U → Xfer U) :
    (state.setXfer uhe index write).bsdUrbList = state.bsdUrbList := rfl

omit [DecidableEq U] [DecidableEq T] in
@[simp] theorem setXfer_bsdXfer_same (state : State U E T) (uhe : E) (index : Fin 2)
    (write : Xfer U → Xfer U) :
    (state.setXfer uhe index write).bsdXfer uhe index = write (state.bsdXfer uhe index) := by
  simp [setXfer]

omit [DecidableEq U] [DecidableEq T] in
@[simp] theorem setList_bsdUrbList (state : State U E T) (uhe : E) (list : TailQueue U) :
    (state.setList uhe list).bsdUrbList = Function.update state.bsdUrbList uhe list := rfl

omit [DecidableEq U] [DecidableEq T] in
@[simp] theorem setList_bsdXfer (state : State U E T) (uhe : E) (list : TailQueue U) :
    (state.setList uhe list).bsdXfer = state.bsdXfer := rfl

omit [DecidableEq U] [DecidableEq T] in
/-- Other transfers keep what they have. -/
theorem setXfer_bsdXfer_of_ne (state : State U E T) {uhe other : E} {index index' : Fin 2}
    (write : Xfer U → Xfer U) (hne : (other, index') ≠ (uhe, index)) :
    (state.setXfer uhe index write).bsdXfer other index' = state.bsdXfer other index' := by
  by_cases huhe : other = uhe
  · subst huhe
    have hindex : index' ≠ index := fun heq => hne (heq ▸ rfl)
    simp [setXfer, hindex]
  · simp [setXfer, huhe]

omit [DecidableEq U] [DecidableEq T] in
/-- A write that leaves the private data alone. -/
theorem priv_setXfer_eq (state : State U E T) (uhe : E) (index : Fin 2)
    {write : Xfer U → Xfer U}
    (hwrite : (write (state.bsdXfer uhe index)).privSc1 = state.priv uhe index) :
    (state.setXfer uhe index write).priv = state.priv := by
  funext other index'
  by_cases hhere : (other, index') = (uhe, index)
  · obtain ⟨rfl, rfl⟩ := Prod.mk.inj hhere
    rw [priv, setXfer_bsdXfer_same, hwrite]
  · rw [priv, setXfer_bsdXfer_of_ne state write hhere, priv]

omit [DecidableEq U] [DecidableEq T] in
/-- A write that changes the private data. -/
theorem priv_setXfer (state : State U E T) (uhe : E) (index : Fin 2)
    (write : Xfer U → Xfer U) :
    (state.setXfer uhe index write).priv = Function.update state.priv uhe
      (Function.update (state.priv uhe) index (write (state.bsdXfer uhe index)).privSc1) := by
  funext other index'
  by_cases huhe : other = uhe
  · subst huhe
    by_cases hindex : index' = index
    · subst hindex
      simp [priv]
    · rw [priv, setXfer_bsdXfer_of_ne state write fun heq => hindex (Prod.mk.inj heq).2]
      simp [hindex, priv]
  · rw [priv, setXfer_bsdXfer_of_ne state write fun heq => huhe (Prod.mk.inj heq).1]
    simp [huhe, priv]

omit [DecidableEq U] [DecidableEq T] in
/-- Of the state a write to a transfer only looks at the transfers. -/
theorem setXfer_bsdXfer_congr {state other : State U E T} (uhe : E) (index : Fin 2)
    (write : Xfer U → Xfer U) (h : other.bsdXfer = state.bsdXfer) :
    (other.setXfer uhe index write).bsdXfer = (state.setXfer uhe index write).bsdXfer := by
  simp [setXfer, h]

omit [DecidableEq U] [DecidableEq T] in
/-- Two writes to one transfer. -/
theorem setXfer_setXfer_bsdXfer (state : State U E T) (uhe : E) (index : Fin 2)
    (first second : Xfer U → Xfer U) :
    ((state.setXfer uhe index first).setXfer uhe index second).bsdXfer =
      (state.setXfer uhe index fun xfer => second (first xfer)).bsdXfer := by
  simp [setXfer]

omit [DecidableEq U] [DecidableEq E] [DecidableEq T] in
theorem priv_eq_of_bsdXfer {state other : State U E T} (h : other.bsdXfer = state.bsdXfer) :
    other.priv = state.priv := by
  funext uhe index
  rw [priv, priv, h]

end State

/-! ### The protocol of a transfer -/

/-- A transfer has private data exactly while it is pending, and it is not pending
while it is in its callback. -/
structure Xfer.Ok (xfer : Xfer U) : Prop where
  pending_iff : xfer.pending = xfer.privSc1.isSome
  callback : xfer.callback ≠ .idle → xfer.pending = false

omit [DecidableEq U] in
theorem Xfer.Ok.privSc1_of_callback {xfer : Xfer U} (h : xfer.Ok)
    (hcallback : xfer.callback ≠ .idle) : xfer.privSc1 = none := by
  have hpending := h.callback hcallback
  rw [h.pending_iff] at hpending
  simpa using hpending

/-- All transfers follow the protocol. -/
def State.XfersOk (state : State U E T) : Prop := ∀ uhe index, (state.bsdXfer uhe index).Ok

omit [DecidableEq U] [DecidableEq T] in
/-- A step that writes to one transfer, in accordance with the protocol. -/
theorem State.XfersOk.write {state next : State U E T} (h : state.XfersOk) {uhe : E}
    {index : Fin 2} {write : Xfer U → Xfer U}
    (hnext : next.bsdXfer = (state.setXfer uhe index write).bsdXfer)
    (hwrite : (write (state.bsdXfer uhe index)).Ok) : next.XfersOk := by
  intro other index'
  rw [hnext]
  by_cases hhere : (other, index') = (uhe, index)
  · obtain ⟨rfl, rfl⟩ := Prod.mk.inj hhere
    rw [State.setXfer_bsdXfer_same]
    exact hwrite
  · rw [State.setXfer_bsdXfer_of_ne state write hhere]
    exact h other index'

/-! ### Outcomes -/

/-- An event that says nothing about where an URB is. -/
def Event.Quiet : Event U E → Prop
  | .trStart _ _ | .trStop _ _ | .unlinkReturned _ _ | .killReturned _ => True
  | _ => False

/-- The calls of completion handlers that giving back an URB makes. -/
def Device.completion (device : Device U E) (urb : U) (status : Code) : List (Event U E) :=
  if device.complete urb then [.handler urb status] else []

/-- `usb_submit_urb` gets past its tests. -/
def Accepts (device : Device U E) (state : State U E T) (urb : U) (opens : Bool) : Prop :=
  (state.urbs urb).reject = 0 ∧ ∃ uhe, device.findHostEndpoint urb = some uhe ∧
    (state.opened uhe = true ∨ opens = true)

/-- The action is not a call of `usb_submit_urb`. -/
def Action.NotSubmit (action : Action U E T) : Prop :=
  ∀ urb opens, action ≠ .submitUrb urb opens

/-- **What a step can do.** -/
inductive Outcome (device : Device U E) (state : State U E T) (action : Action U E T)
    (next : State U E T) : List (Event U E) → Prop where
  /-- Nothing happens to queues and transfers. -/
  | quiet {events : List (Event U E)} (hcall : action.NotSubmit)
      (hlist : next.bsdUrbList = state.bsdUrbList) (hpriv : next.priv = state.priv)
      (hquiet : ∀ event ∈ events, event.Quiet) : Outcome device state action next events
  /-- `usb_submit_urb` returns an error. -/
  | decline (urb : U) (opens : Bool) (value : Code)
      (hcall : action = .submitUrb urb opens) (hvalue : value ≠ .success)
      (hdeclines : ¬ Accepts device state urb opens)
      (hlist : next.bsdUrbList = state.bsdUrbList) (hpriv : next.priv = state.priv) :
      Outcome device state action next [.submitted urb value]
  /-- `usb_submit_urb` finds the URB on the queue. -/
  | again {rest : List (Event U E)} (uhe : E) (urb : U) (opens : Bool)
      (hcall : action = .submitUrb urb opens) (haccepts : Accepts device state urb opens)
      (howner : device.findHostEndpoint urb = some uhe)
      (hqueued : ((state.bsdUrbList uhe).prev urb).isSome = true)
      (hlist : next.bsdUrbList = state.bsdUrbList) (hpriv : next.priv = state.priv)
      (hquiet : ∀ event ∈ rest, event.Quiet) :
      Outcome device state action next (.submitted urb .success :: rest)
  /-- `usb_submit_urb` links the URB. -/
  | link {rest : List (Event U E)} (uhe : E) (urb : U) (opens : Bool)
      (hcall : action = .submitUrb urb opens) (haccepts : Accepts device state urb opens)
      (howner : device.findHostEndpoint urb = some uhe)
      (hfresh : (state.bsdUrbList uhe).prev urb = none)
      (hlist : next.bsdUrbList =
        Function.update state.bsdUrbList uhe ((state.bsdUrbList uhe).insertTail urb))
      (hpriv : next.priv = state.priv) (hquiet : ∀ event ∈ rest, event.Quiet) :
      Outcome device state action next (.linked urb :: .submitted urb .success :: rest)
  /-- An URB is taken off its queue and given back. -/
  | withdraw {rest : List (Event U E)} (hcall : action.NotSubmit) (uhe : E) (urb : U)
      (removed : TailQueue U) (event : Event U E) (status : Code)
      (hevent : (event = .unlinked urb ∧ device.findHostEndpoint urb = some uhe) ∨
        ∃ index, event = .refused uhe index urb)
      (hremove : (state.bsdUrbList uhe).remove urb = some removed)
      (hlist : next.bsdUrbList =
        Function.update state.bsdUrbList uhe (removed.clearPrev urb))
      (hpriv : next.priv = state.priv) (hquiet : ∀ event ∈ rest, event.Quiet) :
      Outcome device state action next (event :: device.completion urb status ++ rest)
  /-- A free transfer takes the first URB of the queue. -/
  | start (hcall : action.NotSubmit) (uhe : E) (index : Fin 2) (urb : U)
      (removed : TailQueue U) (hfirst : (state.bsdUrbList uhe).first = some urb)
      (hremove : (state.bsdUrbList uhe).remove urb = some removed)
      (hlist : next.bsdUrbList =
        Function.update state.bsdUrbList uhe (removed.clearPrev urb))
      (hfree : state.priv uhe index = none)
      (hpriv : next.priv = Function.update state.priv uhe
        (Function.update (state.priv uhe) index (some urb))) :
      Outcome device state action next [.trSubmit uhe index urb, .trStart uhe (1 - index)]
  /-- A transfer has finished with its URB and gives it back. -/
  | finish (hcall : action.NotSubmit) (uhe : E) (index : Fin 2) (status : Status) (urb : U)
      (code : Code) (hlist : next.bsdUrbList = state.bsdUrbList)
      (hheld : state.priv uhe index = some urb)
      (hpriv : next.priv = Function.update state.priv uhe
        (Function.update (state.priv uhe) index none)) :
      Outcome device state action next
        (.terminal uhe index status urb :: device.completion urb code)

section Steps

variable {device : Device U E} {state next : State U E T} {events : List (Event U E)}

omit [DecidableEq U] [DecidableEq T] in
/-- The first half of `usb_submit_urb` leaves the queues and the transfers alone. -/
theorem State.setupEndpoint_eq_some {uhe : E} {opens : Bool}
    (h : state.setupEndpoint uhe opens = some next) :
    next.bsdUrbList = state.bsdUrbList ∧ next.bsdXfer = state.bsdXfer ∧
      next.opened uhe = true := by
  rw [setupEndpoint] at h
  split at h
  · rename_i hopened
    obtain rfl := Option.some.inj h
    exact ⟨rfl, rfl, hopened⟩
  · split at h
    · obtain rfl := Option.some.inj h
      exact ⟨rfl, rfl, by simp⟩
    · cases h

omit [DecidableEq U] [DecidableEq E] in
/-- The events of a call that starts transfers are quiet. -/
theorem quiet_starts (uhe : E) (noResubmit : Bool) :
    ∀ event ∈ (if noResubmit then [] else
      [.trStart uhe 0, .trStart uhe 1] : List (Event U E)), event.Quiet := by
  cases noResubmit <;> simp [Event.Quiet]

omit [DecidableEq T] in
/-- The URB is linked unless it is on the queue. -/
theorem State.linkUrb_eq {uhe : E} {urb : U} (h : state.linkUrb uhe urb = (next, events)) :
    next.bsdXfer = state.bsdXfer ∧
      ((((state.bsdUrbList uhe).prev urb).isSome = true ∧
          next.bsdUrbList = state.bsdUrbList ∧ events = []) ∨
        ((state.bsdUrbList uhe).prev urb = none ∧
          next.bsdUrbList = Function.update state.bsdUrbList uhe
            ((state.bsdUrbList uhe).insertTail urb) ∧ events = [.linked urb])) := by
  rw [linkUrb] at h
  split at h
  · rename_i hqueued
    obtain ⟨rfl, rfl⟩ := Prod.mk.inj h
    exact ⟨rfl, Or.inl ⟨hqueued, rfl, rfl⟩⟩
  · rename_i hqueued
    obtain ⟨rfl, rfl⟩ := Prod.mk.inj h
    exact ⟨rfl, Or.inr ⟨by simpa using hqueued, rfl, rfl⟩⟩

omit [DecidableEq T] in
/-- Where the URB goes once its endpoint is set up. -/
theorem State.enqueue_eq {uhe : E} {urb : U} (hopened : state.opened uhe = true)
    (h : state.enqueue uhe urb = (next, events)) :
    next.bsdXfer = state.bsdXfer ∧ ∃ rest, (∀ event ∈ rest, event.Quiet) ∧
      ((((state.bsdUrbList uhe).prev urb).isSome = true ∧
          next.bsdUrbList = state.bsdUrbList ∧ events = .submitted urb .success :: rest) ∨
        ((state.bsdUrbList uhe).prev urb = none ∧
          next.bsdUrbList = Function.update state.bsdUrbList uhe
            ((state.bsdUrbList uhe).insertTail urb) ∧
          events = .linked urb :: .submitted urb .success :: rest)) := by
  rcases hlink : (state.setUrb urb fun fields =>
    { fields with hcpriv := true }).linkUrb uhe urb with ⟨linked, early⟩
  simp only [enqueue, hopened, hlink, if_true] at h
  obtain ⟨rfl, rfl⟩ := Prod.mk.inj h
  obtain ⟨hxfer, hcases⟩ := linkUrb_eq hlink
  refine ⟨hxfer, _, quiet_starts uhe (linked.urbs urb).bsdNoResubmit, ?_⟩
  rcases hcases with ⟨hqueued, hlist, rfl⟩ | ⟨hfresh, hlist, rfl⟩
  · exact Or.inl ⟨hqueued, hlist, rfl⟩
  · exact Or.inr ⟨hfresh, hlist, rfl⟩

omit [DecidableEq T] in
/-- **`usb_submit_urb`** is refused, finds the URB queued already, or links it. -/
theorem State.submitUrb_eq {urb : U} {opens : Bool}
    (h : state.submitUrb device urb opens = (next, events)) :
    next.bsdXfer = state.bsdXfer ∧
      ((∃ value, value ≠ .success ∧ next.bsdUrbList = state.bsdUrbList ∧
          ¬ Accepts device state urb opens ∧ events = [.submitted urb value]) ∨
        ∃ uhe rest, device.findHostEndpoint urb = some uhe ∧
          Accepts device state urb opens ∧ (∀ event ∈ rest, event.Quiet) ∧
          ((((state.bsdUrbList uhe).prev urb).isSome = true ∧
              next.bsdUrbList = state.bsdUrbList ∧
              events = .submitted urb .success :: rest) ∨
            ((state.bsdUrbList uhe).prev urb = none ∧
              next.bsdUrbList = Function.update state.bsdUrbList uhe
                ((state.bsdUrbList uhe).insertTail urb) ∧
              events = .linked urb :: .submitted urb .success :: rest))) := by
  rw [submitUrb] at h
  split at h
  · rename_i hreject
    obtain ⟨rfl, rfl⟩ := Prod.mk.inj h
    exact ⟨rfl, Or.inl ⟨.enxio, by simp, rfl, fun haccepts => hreject haccepts.1, rfl⟩⟩
  · rename_i hreject
    split at h
    · rename_i hfind
      obtain ⟨rfl, rfl⟩ := Prod.mk.inj h
      refine ⟨rfl, Or.inl ⟨.einval, by simp, rfl, ?_, rfl⟩⟩
      rintro ⟨-, uhe, huhe, -⟩
      rw [hfind] at huhe
      cases huhe
    · rename_i uhe hfind
      split at h
      · rename_i hsetup
        obtain ⟨rfl, rfl⟩ := Prod.mk.inj h
        refine ⟨rfl, Or.inl ⟨.epipe, by simp, rfl, ?_, rfl⟩⟩
        rintro ⟨-, other, hother, hopens⟩
        obtain rfl : uhe = other := Option.some.inj (hfind.symm.trans hother)
        cases hopened : state.opened uhe <;> simp_all [setupEndpoint]
      · rename_i ready hsetup
        obtain ⟨hlist, hxfer, hopened⟩ := setupEndpoint_eq_some hsetup
        have haccepts : Accepts device state urb opens := by
          refine ⟨by simpa using hreject, uhe, hfind, ?_⟩
          by_contra hneither
          rw [not_or, Bool.not_eq_true, Bool.not_eq_true] at hneither
          simp [setupEndpoint, hneither.1, hneither.2] at hsetup
        obtain ⟨hnextXfer, rest, hquiet, hcases⟩ := enqueue_eq hopened h
        rw [hlist] at hcases
        exact ⟨hnextXfer.trans hxfer, Or.inr ⟨uhe, rest, hfind, haccepts, hquiet, hcases⟩⟩

omit [DecidableEq T] in
/-- The branch for URBs that have not started yet. -/
theorem State.unlinkQueued_eq_some {uhe : E} {urb : U}
    (h : state.unlinkQueued device uhe urb = some (next, events)) :
    ∃ removed, (state.bsdUrbList uhe).remove urb = some removed ∧
      next.bsdUrbList = Function.update state.bsdUrbList uhe (removed.clearPrev urb) ∧
      next.bsdXfer = state.bsdXfer ∧
      events = .unlinked urb :: device.completion urb .econnreset := by
  rw [unlinkQueued, Option.map_eq_some_iff] at h
  obtain ⟨removed, hremove, h⟩ := h
  refine ⟨removed, hremove, ?_⟩
  rw [Device.completion]
  split at h
  · rename_i hcomplete
    obtain ⟨rfl, rfl⟩ := Prod.mk.inj h
    exact ⟨rfl, rfl, by rw [if_pos hcomplete]⟩
  · rename_i hcomplete
    obtain ⟨rfl, rfl⟩ := Prod.mk.inj h
    exact ⟨rfl, rfl, by rw [if_neg hcomplete]⟩

omit [DecidableEq E] [DecidableEq T] in
theorem quiet_restart {uhe : E} {urb : U} {index : Fin 2} :
    ∀ event ∈ state.restart uhe urb index, event.Quiet := by
  rw [State.restart]
  split <;> simp [Event.Quiet]

omit [DecidableEq T] in
/-- `usb_linux_complete` clears the private data and calls the handler, if there is
one. -/
theorem State.usbLinuxComplete_eq_some {uhe : E} {index : Fin 2} {cancelled : Bool}
    (h : state.usbLinuxComplete device uhe index cancelled = some (next, events)) :
    ∃ urb code pc, state.priv uhe index = some urb ∧
      next.bsdUrbList = state.bsdUrbList ∧
      next.bsdXfer = (state.setXfer uhe index fun xfer =>
        { xfer with privSc1 := none, callback := pc }).bsdXfer ∧
      events = device.completion urb code := by
  rw [usbLinuxComplete] at h
  split at h
  · cases h
  · rename_i urb hpriv
    split at h
    · rename_i hcomplete
      obtain ⟨rfl, rfl⟩ := Prod.mk.inj (Option.some.inj h)
      refine ⟨urb, _, .handler urb cancelled, hpriv, rfl, ?_,
        by rw [Device.completion, if_pos hcomplete]⟩
      simp [setCallback, setPriv, setXfer]
    · rename_i hcomplete
      obtain ⟨rfl, rfl⟩ := Prod.mk.inj (Option.some.inj h)
      refine ⟨urb, .success, if cancelled then .idle else .trSetup, hpriv, rfl, ?_,
        by rw [Device.completion, if_neg hcomplete]⟩
      simp only [resume, setCallback, setPriv, setXfer, setUrb, Function.update_self,
        Function.update_idem]

omit [DecidableEq T] in
/-- A step that leaves the queues and the transfers' private data alone. -/
theorem Outcome.of_eq {action : Action U E T} (hcall : action.NotSubmit)
    (hlist : next.bsdUrbList = state.bsdUrbList) (hxfer : next.bsdXfer = state.bsdXfer)
    (hquiet : ∀ event ∈ events, event.Quiet) : Outcome device state action next events :=
  .quiet hcall hlist (State.priv_eq_of_bsdXfer hxfer) hquiet

omit [DecidableEq T] in
/-- Taking an URB off its queue on behalf of a driver. -/
theorem Outcome.unlinkQueued {action : Action U E T} {uhe : E} {urb : U}
    {rest : List (Event U E)} (hcall : action.NotSubmit)
    (howner : device.findHostEndpoint urb = some uhe)
    (h : state.unlinkQueued device uhe urb = some (next, events))
    (hquiet : ∀ event ∈ rest, event.Quiet) :
    Outcome device state action next (events ++ rest) ∧ next.bsdXfer = state.bsdXfer := by
  obtain ⟨removed, hremove, hlist, hxfer, rfl⟩ := State.unlinkQueued_eq_some h
  exact ⟨.withdraw hcall uhe urb removed _ _ (Or.inl ⟨rfl, howner⟩) hremove hlist
    (State.priv_eq_of_bsdXfer hxfer) hquiet, hxfer⟩

omit [DecidableEq T] in
theorem Outcome.submitUrb {urb : U} {opens : Bool}
    (h : state.submitUrb device urb opens = (next, events)) :
    Outcome device state (.submitUrb urb opens) next events ∧
      next.bsdXfer = state.bsdXfer := by
  obtain ⟨hxfer, ⟨value, hvalue, hlist, hdeclines, rfl⟩ |
    ⟨uhe, rest, howner, haccepts, hquiet, hcases⟩⟩ := State.submitUrb_eq h
  · exact ⟨.decline urb opens value rfl hvalue hdeclines hlist
      (State.priv_eq_of_bsdXfer hxfer), hxfer⟩
  · rcases hcases with ⟨hqueued, hlist, rfl⟩ | ⟨hfresh, hlist, rfl⟩
    · exact ⟨.again uhe urb opens rfl haccepts howner hqueued hlist
        (State.priv_eq_of_bsdXfer hxfer) hquiet, hxfer⟩
    · exact ⟨.link uhe urb opens rfl haccepts howner hfresh hlist
        (State.priv_eq_of_bsdXfer hxfer) hquiet, hxfer⟩

omit [DecidableEq T] in
/-- **What `usb_unlink_urb` does**: nothing with an URB of no endpoint, the unlinking of one that is
queued, and with any other at most a restart of the transfers that work on it. -/
theorem State.unlinkUrb_cases {urb : U} (h : state.unlinkUrb device urb = some (next, events)) :
    (device.findHostEndpoint urb = none ∧ next = state ∧
      events = [.unlinkReturned urb .einval]) ∨
    ∃ uhe, device.findHostEndpoint urb = some uhe ∧
      ((((state.bsdUrbList uhe).prev urb).isSome = true ∧
          ∃ early, state.unlinkQueued device uhe urb = some (next, early) ∧
            events = early ++ [.unlinkReturned urb .success]) ∨
        (¬ ((state.bsdUrbList uhe).prev urb).isSome = true ∧ next = state ∧
          events = state.restart uhe urb 0 ++ state.restart uhe urb 1 ++
            [.unlinkReturned urb .success])) := by
  rw [unlinkUrb] at h
  split at h
  · rename_i hnowhere
    obtain ⟨rfl, rfl⟩ := Prod.mk.inj (Option.some.inj h)
    exact Or.inl ⟨hnowhere, rfl, rfl⟩
  · rename_i uhe howner
    refine Or.inr ⟨uhe, howner, ?_⟩
    split at h
    · rename_i hqueued
      obtain ⟨⟨middle, early⟩, hunlink, h⟩ := Option.map_eq_some_iff.mp h
      obtain ⟨rfl, rfl⟩ := Prod.mk.inj h
      exact Or.inl ⟨hqueued, early, hunlink, rfl⟩
    · rename_i hqueued
      obtain ⟨rfl, rfl⟩ := Prod.mk.inj (Option.some.inj h)
      exact Or.inr ⟨hqueued, rfl, rfl⟩

/-- **What `usb_kill_urb` does** up to its first look at a transfer: it returns at once from an URB
of no endpoint and from one that it unlinks, and else waits for the transfers. -/
theorem State.killUrb_cases {thread : T} {urb : U}
    (h : state.killUrb device thread urb = some (next, events)) :
    state.kills thread = .idle ∧
    ((device.findHostEndpoint urb = none ∧ next = state ∧ events = [.killReturned urb]) ∨
      ∃ uhe, device.findHostEndpoint urb = some uhe ∧
        ((((state.bsdUrbList uhe).prev urb).isSome = true ∧
            ∃ early, state.unlinkQueued device uhe urb = some (next, early) ∧
              events = early ++ [.killReturned urb]) ∨
          (¬ ((state.bsdUrbList uhe).prev urb).isSome = true ∧
            next = state.setKill thread (.drain urb uhe 0) ∧ events = []))) := by
  rw [killUrb] at h
  split at h
  · rename_i hidle
    refine ⟨hidle, ?_⟩
    split at h
    · rename_i hnowhere
      obtain ⟨rfl, rfl⟩ := Prod.mk.inj (Option.some.inj h)
      exact Or.inl ⟨hnowhere, rfl, rfl⟩
    · rename_i uhe howner
      refine Or.inr ⟨uhe, howner, ?_⟩
      split at h
      · rename_i hqueued
        obtain ⟨⟨middle, early⟩, hunlink, h⟩ := Option.map_eq_some_iff.mp h
        obtain ⟨rfl, rfl⟩ := Prod.mk.inj h
        exact Or.inl ⟨hqueued, early, hunlink, rfl⟩
      · rename_i hqueued
        obtain ⟨rfl, rfl⟩ := Prod.mk.inj (Option.some.inj h)
        exact Or.inr ⟨hqueued, rfl, rfl⟩
  · cases h

omit [DecidableEq T] in
theorem Outcome.unlinkUrb {urb : U} (h : state.unlinkUrb device urb = some (next, events)) :
    Outcome device state (.unlinkUrb urb) next events ∧
      next.bsdXfer = state.bsdXfer := by
  obtain ⟨-, rfl, rfl⟩ | ⟨uhe, howner, ⟨-, early, hunlink, rfl⟩ | ⟨-, rfl, rfl⟩⟩ :=
    State.unlinkUrb_cases h
  · exact ⟨.of_eq nofun rfl rfl (by simp [Event.Quiet]), rfl⟩
  · exact Outcome.unlinkQueued nofun howner hunlink (by simp [Event.Quiet])
  · refine ⟨.of_eq nofun rfl rfl ?_, rfl⟩
    intro event hmem
    simp only [List.append_assoc, List.mem_append, List.mem_singleton] at hmem
    rcases hmem with hmem | hmem | hmem
    · exact quiet_restart event hmem
    · exact quiet_restart event hmem
    · subst hmem
      trivial

theorem Outcome.killUrb {thread : T} {urb : U}
    (h : state.killUrb device thread urb = some (next, events)) :
    Outcome device state (.killUrb thread urb) next events ∧
      next.bsdXfer = state.bsdXfer := by
  obtain ⟨-, ⟨-, rfl, rfl⟩ | ⟨uhe, howner, ⟨-, early, hunlink, rfl⟩ | ⟨-, rfl, rfl⟩⟩⟩ :=
    State.killUrb_cases h
  · exact ⟨.of_eq nofun rfl rfl (by simp [Event.Quiet]), rfl⟩
  · exact Outcome.unlinkQueued nofun howner hunlink (by simp [Event.Quiet])
  · exact ⟨.of_eq nofun rfl rfl (by simp), rfl⟩

theorem Outcome.killPoll {thread : T} (h : state.killPoll thread = some (next, events)) :
    Outcome device state (.killPoll thread) next events ∧
      next.bsdXfer = state.bsdXfer := by
  rw [State.killPoll] at h
  split at h
  · cases h
  · split at h
    · obtain ⟨rfl, rfl⟩ := Prod.mk.inj (Option.some.inj h)
      exact ⟨.of_eq nofun rfl rfl quiet_restart, rfl⟩
    · split at h
      · obtain ⟨rfl, rfl⟩ := Prod.mk.inj (Option.some.inj h)
        exact ⟨.of_eq nofun rfl rfl (by simp), rfl⟩
      · obtain ⟨rfl, rfl⟩ := Prod.mk.inj (Option.some.inj h)
        exact ⟨.of_eq nofun rfl rfl (by simp [Event.Quiet]), rfl⟩

omit [DecidableEq T] in
/-- **The callback**: `START` only gets to the label `tr_setup`; a terminal status ends
the transfer's work on its URB. -/
theorem Outcome.callback {uhe : E} {index : Fin 2} {status : Status} {report : Report}
    (hxfers : state.XfersOk)
    (h : state.callback device uhe index status report = some (next, events)) :
    Outcome device state (.callback uhe index status report) next events ∧ next.XfersOk := by
  simp only [State.callback] at h
  split at h
  · rename_i hguard
    obtain ⟨-, -, hpending⟩ := hguard
    split at h
    · rename_i hstart
      obtain ⟨rfl, rfl⟩ := Prod.mk.inj (Option.some.inj h)
      refine ⟨.quiet nofun rfl (State.priv_setXfer_eq _ _ _ rfl) (by simp), hxfers.write rfl ?_⟩
      exact ⟨(hxfers uhe index).pending_iff, fun _ => by simp [hpending, hstart]⟩
    · split at h
      · cases h
      · rename_i urb hpriv
        obtain ⟨⟨middle, early⟩, hcomplete, h⟩ := Option.map_eq_some_iff.mp h
        obtain ⟨rfl, rfl⟩ := Prod.mk.inj h
        obtain ⟨urb', code, pc, hpriv', hlist, hxfer, rfl⟩ :=
          State.usbLinuxComplete_eq_some hcomplete
        obtain rfl : urb = urb' := by
          simpa [State.priv, hpriv] using hpriv'
        have hwrite : middle.bsdXfer = (state.setXfer uhe index fun _ =>
            ⟨none, false, pc⟩).bsdXfer := by
          rw [hxfer, State.setXfer_bsdXfer_congr uhe index _ (State.setUrb_bsdXfer _ _ _),
            State.setXfer_setXfer_bsdXfer]
        refine ⟨.finish nofun uhe index status urb code hlist hpriv ?_,
          hxfers.write hwrite ⟨rfl, fun _ => rfl⟩⟩
        rw [State.priv_eq_of_bsdXfer hwrite, State.priv_setXfer]
  · cases h

omit [DecidableEq T] in
theorem Outcome.handlerReturn {uhe : E} {index : Fin 2} (hxfers : state.XfersOk)
    (h : state.handlerReturn uhe index = some (next, events)) :
    Outcome device state (.handlerReturn uhe index) next events ∧ next.XfersOk := by
  rw [State.handlerReturn] at h
  split at h
  · rename_i urb cancelled hcallback
    obtain ⟨rfl, rfl⟩ := Prod.mk.inj (Option.some.inj h)
    have hwrite : (state.resume uhe index urb cancelled).bsdXfer =
        (state.setXfer uhe index fun xfer =>
          { xfer with callback := if cancelled then .idle else .trSetup }).bsdXfer := rfl
    refine ⟨.quiet nofun rfl ?_ (by simp), hxfers.write hwrite ?_⟩
    · rw [State.priv_eq_of_bsdXfer hwrite, State.priv_setXfer_eq _ _ _ rfl]
    · exact ⟨(hxfers uhe index).pending_iff,
        fun _ => (hxfers uhe index).callback (by simp [hcallback])⟩
  · cases h

omit [DecidableEq T] in
/-- **At the label `tr_setup`** the transfer is free, takes the first URB of the queue,
and either keeps it or gives it back at once. -/
theorem Outcome.trSetup {uhe : E} {index : Fin 2} (hxfers : state.XfersOk)
    (h : state.trSetup device uhe index = some (next, events)) :
    Outcome device state (.trSetup uhe index) next events ∧ next.XfersOk := by
  rw [State.trSetup] at h
  split at h
  · rename_i hcallback
    have hbusy : (state.bsdXfer uhe index).callback ≠ .idle := by simp [hcallback]
    have hfree : state.priv uhe index = none := (hxfers uhe index).privSc1_of_callback hbusy
    have hpending := (hxfers uhe index).callback hbusy
    split at h
    · obtain ⟨rfl, rfl⟩ := Prod.mk.inj (Option.some.inj h)
      refine ⟨.quiet nofun rfl (State.priv_setXfer_eq _ _ _ rfl) (by simp), hxfers.write rfl ?_⟩
      exact ⟨(hxfers uhe index).pending_iff, fun _ => hpending⟩
    · rename_i urb hfirst
      obtain ⟨removed, hremove, h⟩ := Option.bind_eq_some_iff.mp h
      simp only at h
      split at h
      · obtain ⟨⟨middle, early⟩, hcomplete, h⟩ := Option.map_eq_some_iff.mp h
        obtain ⟨rfl, rfl⟩ := Prod.mk.inj h
        obtain ⟨urb', code, pc, hpriv', hlist, hxfer, rfl⟩ :=
          State.usbLinuxComplete_eq_some hcomplete
        obtain rfl : urb = urb' := by
          simpa [State.priv, State.setPriv] using hpriv'
        have hwrite : middle.bsdXfer = (state.setXfer uhe index fun xfer =>
            ⟨none, xfer.pending, pc⟩).bsdXfer := by
          rw [hxfer, State.setXfer_bsdXfer_congr uhe index _ (State.setUrb_bsdXfer _ _ _),
            State.setPriv, State.setXfer_setXfer_bsdXfer]
          rfl
        refine ⟨?_, hxfers.write hwrite ⟨hpending, fun _ => hpending⟩⟩
        have hpriv : middle.priv = state.priv := by
          rw [State.priv_eq_of_bsdXfer hwrite, State.priv_setXfer_eq _ _ _ hfree.symm]
        simpa using Outcome.withdraw (by nofun) uhe urb removed (.refused uhe index urb) code
          (Or.inr ⟨index, rfl⟩) hremove hlist hpriv
          (List.forall_mem_nil fun event : Event U E => event.Quiet)
      · obtain ⟨rfl, rfl⟩ := Prod.mk.inj (Option.some.inj h)
        have hwrite : (state.setXfer uhe index fun _ => ⟨some urb, true, .idle⟩).bsdXfer =
            (((state.setList uhe (removed.clearPrev urb)).setUrb urb
              ((device.xferType uhe).callback.setup (device.maxFrames uhe))).setPriv uhe index
                (some urb) |>.setXfer uhe index fun xfer =>
                  { xfer with pending := true, callback := .idle }).bsdXfer := by
          rw [State.setPriv, State.setXfer_setXfer_bsdXfer]
          rfl
        refine ⟨.start nofun uhe index urb removed hfirst hremove rfl hfree ?_,
          hxfers.write hwrite.symm ⟨rfl, fun hnot => absurd rfl hnot⟩⟩
        rw [State.priv_eq_of_bsdXfer hwrite.symm, State.priv_setXfer]
  · cases h

/-- **Every step has one of the outcomes**, and keeps the protocol of the transfers. -/
theorem Outcome.of_step {action : Action U E T} (hxfers : state.XfersOk)
    (h : (usbMachine device).step state action = some (next, events)) :
    Outcome device state action next events ∧ next.XfersOk := by
  -- driver calls do not touch the transfers
  have hcall : Outcome device state action next events ∧ next.bsdXfer = state.bsdXfer →
      Outcome device state action next events ∧ next.XfersOk :=
    fun hnext => ⟨hnext.1, fun uhe index => hnext.2 ▸ hxfers uhe index⟩
  cases action with
  | fill urb fields =>
      obtain ⟨rfl, rfl⟩ := Prod.mk.inj (Option.some.inj h)
      exact hcall ⟨.of_eq nofun rfl rfl (by simp), rfl⟩
  | blockUrb urb =>
      obtain ⟨rfl, rfl⟩ := Prod.mk.inj (Option.some.inj h)
      exact hcall ⟨.of_eq nofun rfl rfl (by simp), rfl⟩
  | unblockUrb urb =>
      obtain ⟨rfl, rfl⟩ := Prod.mk.inj (Option.some.inj h)
      exact hcall ⟨.of_eq nofun rfl rfl (by simp), rfl⟩
  | submitUrb urb opens => exact hcall (Outcome.submitUrb (Option.some.inj h))
  | unlinkUrb urb => exact hcall (Outcome.unlinkUrb h)
  | killUrb thread urb => exact hcall (Outcome.killUrb h)
  | killPoll thread => exact hcall (Outcome.killPoll h)
  | callback uhe index status report => exact Outcome.callback hxfers h
  | handlerReturn uhe index => exact Outcome.handlerReturn hxfers h
  | trSetup uhe index => exact Outcome.trSetup hxfers h

end Steps

/-! ### The ledger of an endpoint -/

/-- What an event means for the requests on one endpoint. -/
def Event.op (device : Device U E) (uhe : E) : Event U E → Option (Ledger.Op U)
  | .linked urb => if device.findHostEndpoint urb = some uhe then some (.issue urb) else none
  | .unlinked urb => if device.findHostEndpoint urb = some uhe then some (.drop urb) else none
  | .refused other _ urb => if other = uhe then some (.drop urb) else none
  | .trSubmit other _ urb => if other = uhe then some (.start urb) else none
  | .terminal other _ _ urb => if other = uhe then some (.finish urb) else none
  | _ => none

/-- A history as moves of the endpoint's ledger. -/
def endpointOps (device : Device U E) (uhe : E) (history : List (Event U E)) :
    List (Ledger.Op U) :=
  history.filterMap (Event.op device uhe)

omit [DecidableEq U] in
@[simp] theorem endpointOps_append (device : Device U E) (uhe : E)
    (past events : List (Event U E)) :
    endpointOps device uhe (past ++ events) =
      endpointOps device uhe past ++ endpointOps device uhe events :=
  List.filterMap_append

omit [DecidableEq U] in
theorem endpointOps_cons (device : Device U E) (uhe : E) (event : Event U E)
    (rest : List (Event U E)) :
    endpointOps device uhe (event :: rest) =
      (event.op device uhe).toList ++ endpointOps device uhe rest := by
  rw [endpointOps, List.filterMap_cons]
  cases event.op device uhe <;> rfl

omit [DecidableEq U] in
theorem endpointOps_quiet (device : Device U E) (uhe : E) {events : List (Event U E)}
    (hquiet : ∀ event ∈ events, event.Quiet) : endpointOps device uhe events = [] := by
  rw [endpointOps, List.filterMap_eq_nil_iff]
  intro event hmem
  have hevent := hquiet event hmem
  cases event <;> first | rfl | exact hevent.elim

omit [DecidableEq U] in
theorem endpointOps_completion (device : Device U E) (uhe : E) (urb : U) (status : Code) :
    endpointOps device uhe (device.completion urb status) = [] := by
  rw [Device.completion]
  split <;> rfl

omit [DecidableEq U] in
theorem endpointOps_link (device : Device U E) (uhe : E) {here : E} {urb : U}
    {rest : List (Event U E)} (howner : device.findHostEndpoint urb = some here)
    (hquiet : ∀ event ∈ rest, event.Quiet) :
    endpointOps device uhe (.linked urb :: .submitted urb .success :: rest) =
      if here = uhe then [.issue urb] else [] := by
  rw [endpointOps_cons, endpointOps_cons, endpointOps_quiet device uhe hquiet]
  by_cases hhere : here = uhe <;> simp [Event.op, howner, hhere]

omit [DecidableEq U] in
theorem endpointOps_withdraw (device : Device U E) (uhe : E) {here : E} {urb : U}
    {event : Event U E} {status : Code} {rest : List (Event U E)}
    (hevent : (event = .unlinked urb ∧ device.findHostEndpoint urb = some here) ∨
      ∃ index, event = .refused here index urb) (hquiet : ∀ event ∈ rest, event.Quiet) :
    endpointOps device uhe (event :: device.completion urb status ++ rest) =
      if here = uhe then [.drop urb] else [] := by
  rw [endpointOps_append, endpointOps_quiet device uhe hquiet, List.append_nil,
    endpointOps_cons, endpointOps_completion]
  rcases hevent with ⟨rfl, howner⟩ | ⟨index, rfl⟩
  · by_cases hhere : here = uhe <;> simp [Event.op, howner, hhere]
  · by_cases hhere : here = uhe <;> simp [Event.op, hhere]

omit [DecidableEq U] in
theorem endpointOps_start (device : Device U E) (uhe here : E) (index : Fin 2) (urb : U) :
    endpointOps device uhe [.trSubmit here index urb, .trStart here (1 - index)] =
      if here = uhe then [.start urb] else [] := by
  by_cases hhere : here = uhe <;> simp [endpointOps, Event.op, hhere]

omit [DecidableEq U] in
theorem endpointOps_finish (device : Device U E) (uhe here : E) (index : Fin 2)
    (status : Status) (urb : U) (code : Code) :
    endpointOps device uhe
        (.terminal here index status urb :: device.completion urb code) =
      if here = uhe then [.finish urb] else [] := by
  rw [endpointOps_cons, endpointOps_completion]
  by_cases hhere : here = uhe <;> simp [Event.op, hhere]

/-- The queue holds what waits, and the transfers work on what is active. -/
structure EndpointRep (state : State U E T) (uhe : E) (ledger : Ledger U) : Prop where
  links : (state.bsdUrbList uhe).Represents (ledger.waiting.map Ticket.item)
  active : (ledger.active.map Ticket.item).Perm (state.inFlight uhe)

namespace EndpointRep

variable {device : Device U E} {state next : State U E T} {uhe : E} {ledger : Ledger U}
  {events : List (Event U E)}

omit [DecidableEq U] [DecidableEq E] [DecidableEq T] in
theorem init : EndpointRep (State.init : State U E T) uhe .empty where
  links := TailQueue.Represents.empty
  active := List.Perm.refl _

omit [DecidableEq U] [DecidableEq E] [DecidableEq T] in
/-- Only the endpoint's own queue and transfers matter. -/
theorem congr (h : EndpointRep state uhe ledger)
    (hlist : next.bsdUrbList uhe = state.bsdUrbList uhe)
    (hpriv : next.priv uhe = state.priv uhe) : EndpointRep next uhe ledger :=
  ⟨hlist ▸ h.links, State.inFlight_congr hpriv ▸ h.active⟩

omit [DecidableEq E] [DecidableEq T] in
/-- A step that concerns another endpoint. -/
theorem other (h : EndpointRep state uhe ledger)
    (hlist : next.bsdUrbList uhe = state.bsdUrbList uhe)
    (hpriv : next.priv uhe = state.priv uhe) :
    ∃ after, ledger.replayFrom [] = some after ∧ EndpointRep next uhe after :=
  ⟨ledger, rfl, h.congr hlist hpriv⟩

omit [DecidableEq E] [DecidableEq T] in
theorem link (h : EndpointRep state uhe ledger) {urb : U}
    (hfresh : (state.bsdUrbList uhe).prev urb = none)
    (hlist : next.bsdUrbList uhe = (state.bsdUrbList uhe).insertTail urb)
    (hpriv : next.priv = state.priv) :
    ∃ after, ledger.apply (.issue urb) = some after ∧ EndpointRep next uhe after := by
  have hnotMem : urb ∉ ledger.waiting.map Ticket.item := by
    rw [← h.links.prev_isSome_iff urb, hfresh]
    simp
  refine ⟨_, rfl, ?_, ?_⟩
  · rw [hlist, List.map_append]
    exact h.links.insertTail hnotMem
  · rw [State.inFlight_congr (congrFun hpriv uhe)]
    exact h.active

omit [DecidableEq E] [DecidableEq T] in
theorem withdraw (h : EndpointRep state uhe ledger) {urb : U}
    {removed : TailQueue U} (hremove : (state.bsdUrbList uhe).remove urb = some removed)
    (hlist : next.bsdUrbList uhe = removed.clearPrev urb) (hpriv : next.priv = state.priv) :
    ∃ after, ledger.apply (.drop urb) = some after ∧ EndpointRep next uhe after := by
  have hmem : urb ∈ ledger.waiting.map Ticket.item := by
    by_contra hnot
    rw [h.links.remove_eq_none_of_notMem hnot] at hremove
    cases hremove
  obtain ⟨removed', hremove', hrep⟩ := h.links.remove hmem
  obtain rfl : removed = removed' := Option.some.inj (hremove.symm.trans hremove')
  obtain ⟨after, hdrop, hactive, hwaiting⟩ := Ledger.apply_drop_of_mem hmem
  refine ⟨after, hdrop, ?_, ?_⟩
  · rw [hlist, hwaiting]
    exact hrep
  · rw [hactive, State.inFlight_congr (congrFun hpriv uhe)]
    exact h.active

omit [DecidableEq E] [DecidableEq T] in
theorem start (h : EndpointRep state uhe ledger) {urb : U} {index : Fin 2}
    {removed : TailQueue U} (hfirst : (state.bsdUrbList uhe).first = some urb)
    (hremove : (state.bsdUrbList uhe).remove urb = some removed)
    (hlist : next.bsdUrbList uhe = removed.clearPrev urb)
    (hfree : state.priv uhe index = none)
    (hpriv : next.priv uhe = Function.update (state.priv uhe) index (some urb)) :
    ∃ after, ledger.apply (.start urb) = some after ∧ EndpointRep next uhe after := by
  rw [h.links.first_eq] at hfirst
  cases hitems : ledger.waiting.map Ticket.item with
  | nil => simp [hitems] at hfirst
  | cons oldest rest =>
      obtain rfl : oldest = urb := by simpa [hitems] using hfirst
      have hlinks := h.links
      rw [hitems] at hlinks
      obtain ⟨removed', hremove', hrep⟩ := hlinks.remove List.mem_cons_self
      obtain rfl : removed = removed' := Option.some.inj (hremove.symm.trans hremove')
      obtain ⟨after, hstart, hwaiting, hactive⟩ := Ledger.apply_start_of_head hitems
      refine ⟨after, hstart, ?_, ?_⟩
      · rw [hlist, hwaiting]
        simpa using hrep
      · rw [hactive]
        refine (List.perm_append_singleton oldest _).trans ?_
        exact (h.active.cons oldest).trans (State.inFlight_update hfree hpriv).symm

omit [DecidableEq E] [DecidableEq T] in
theorem finish (h : EndpointRep state uhe ledger) {urb : U} {index : Fin 2}
    (hlist : next.bsdUrbList = state.bsdUrbList) (hheld : state.priv uhe index = some urb)
    (hpriv : next.priv uhe = Function.update (state.priv uhe) index none) :
    ∃ after, ledger.apply (.finish urb) = some after ∧ EndpointRep next uhe after := by
  -- read backwards, the transfer takes the URB
  have hfree : next.priv uhe index = none := by rw [hpriv, Function.update_self]
  have hback : state.priv uhe = Function.update (next.priv uhe) index (some urb) := by
    rw [hpriv, Function.update_idem, ← hheld, Function.update_eq_self]
  have hperm := State.inFlight_update hfree hback
  have hmem : urb ∈ ledger.active.map Ticket.item :=
    (h.active.trans hperm).mem_iff.mpr List.mem_cons_self
  obtain ⟨after, hfinish, hwaiting, hactive⟩ := Ledger.apply_finish_of_mem hmem
  refine ⟨after, hfinish, ?_, ?_⟩
  · rw [hlist, hwaiting]
    exact h.links
  · rw [hactive]
    have herase := (h.active.trans hperm).erase urb
    rwa [List.erase_cons_head] at herase

omit [DecidableEq T] in
/-- **One step**: the ledger accepts what happened, and still agrees with the state. -/
theorem outcome {action : Action U E T} (h : EndpointRep state uhe ledger)
    (houtcome : Outcome device state action next events) :
    ∃ after, ledger.replayFrom (endpointOps device uhe events) = some after ∧
      EndpointRep next uhe after := by
  cases houtcome with
  | quiet hcall hlist hpriv hquiet =>
      rw [endpointOps_quiet device uhe hquiet]
      exact h.other (congrFun hlist uhe) (congrFun hpriv uhe)
  | decline urb opens value hcall hvalue hdeclines hlist hpriv =>
      exact h.other (congrFun hlist uhe) (congrFun hpriv uhe)
  | again here urb opens hcall haccepts howner hqueued hlist hpriv hquiet =>
      rw [endpointOps_cons, endpointOps_quiet device uhe hquiet]
      exact h.other (congrFun hlist uhe) (congrFun hpriv uhe)
  | link here urb opens hcall haccepts howner hfresh hlist hpriv hquiet =>
      rw [endpointOps_link device uhe howner hquiet]
      by_cases hhere : here = uhe
      · subst hhere
        rw [if_pos rfl, Ledger.replayFrom_singleton]
        exact h.link hfresh (by rw [hlist, Function.update_self]) hpriv
      · rw [if_neg hhere]
        exact h.other (by rw [hlist, Function.update_of_ne (Ne.symm hhere)])
          (congrFun hpriv uhe)
  | withdraw hcall here urb removed event status hevent hremove hlist hpriv hquiet =>
      rw [endpointOps_withdraw device uhe hevent hquiet]
      by_cases hhere : here = uhe
      · subst hhere
        rw [if_pos rfl, Ledger.replayFrom_singleton]
        exact h.withdraw hremove (by rw [hlist, Function.update_self]) hpriv
      · rw [if_neg hhere]
        exact h.other (by rw [hlist, Function.update_of_ne (Ne.symm hhere)])
          (congrFun hpriv uhe)
  | start hcall here index urb removed hfirst hremove hlist hfree hpriv =>
      rw [endpointOps_start]
      by_cases hhere : here = uhe
      · subst hhere
        rw [if_pos rfl, Ledger.replayFrom_singleton]
        exact h.start hfirst hremove (by rw [hlist, Function.update_self]) hfree
          (by rw [hpriv, Function.update_self])
      · rw [if_neg hhere]
        exact h.other (by rw [hlist, Function.update_of_ne (Ne.symm hhere)])
          (by rw [hpriv, Function.update_of_ne (Ne.symm hhere)])
  | finish hcall here index status urb code hlist hheld hpriv =>
      rw [endpointOps_finish]
      by_cases hhere : here = uhe
      · subst hhere
        rw [if_pos rfl, Ledger.replayFrom_singleton]
        exact h.finish hlist hheld (by rw [hpriv, Function.update_self])
      · rw [if_neg hhere]
        exact h.other (congrFun hlist uhe)
          (by rw [hpriv, Function.update_of_ne (Ne.symm hhere)])

end EndpointRep

/-- The queue and the transfers of an endpoint agree with a ledger. -/
structure EndpointInv (device : Device U E) (state : State U E T) (uhe : E)
    (ledger : Ledger U) : Prop where
  /-- The queue holds what waits. -/
  links : (state.bsdUrbList uhe).Represents (ledger.waiting.map Ticket.item)
  /-- The transfers work on what is active. -/
  active : (ledger.active.map Ticket.item).Perm (state.inFlight uhe)
  /-- Only URBs of the endpoint are here. -/
  owner : ∀ ticket ∈ ledger.waiting ++ ledger.active,
    device.findHostEndpoint ticket.item = some uhe

namespace EndpointInv

variable {device : Device U E} {state next : State U E T} {uhe : E} {ledger : Ledger U}
  {events : List (Event U E)}

omit [DecidableEq U] [DecidableEq E] [DecidableEq T] in
theorem init : EndpointInv device (State.init : State U E T) uhe .empty where
  links := TailQueue.Represents.empty
  active := List.Perm.refl _
  owner := by simp [Ledger.empty]

omit [DecidableEq U] [DecidableEq E] [DecidableEq T] in
theorem rep (h : EndpointInv device state uhe ledger) : EndpointRep state uhe ledger :=
  ⟨h.links, h.active⟩

omit [DecidableEq U] [DecidableEq E] [DecidableEq T] in
/-- The transfers of an endpoint work on URBs of the endpoint. -/
theorem owner_of_inFlight (h : EndpointInv device state uhe ledger) {urb : U}
    (hmem : urb ∈ state.inFlight uhe) : device.findHostEndpoint urb = some uhe := by
  obtain ⟨ticket, hticket, rfl⟩ := List.mem_map.mp (h.active.mem_iff.mpr hmem)
  exact h.owner ticket (List.mem_append_right _ hticket)

omit [DecidableEq U] [DecidableEq E] [DecidableEq T] in
/-- So does its queue. -/
theorem owner_of_queued (h : EndpointInv device state uhe ledger) {urb : U}
    (hqueued : ((state.bsdUrbList uhe).prev urb).isSome = true) :
    device.findHostEndpoint urb = some uhe := by
  obtain ⟨ticket, hticket, rfl⟩ := List.mem_map.mp ((h.links.prev_isSome_iff urb).mp hqueued)
  exact h.owner ticket (List.mem_append_left _ hticket)

omit [DecidableEq U] in
/-- Only URBs of the endpoint are issued to its ledger. -/
theorem owner_of_issue {urb : U} (hmem : .issue urb ∈ endpointOps device uhe events) :
    device.findHostEndpoint urb = some uhe := by
  obtain ⟨event, -, hop⟩ := List.mem_filterMap.mp hmem
  cases event with
  | linked other =>
      simp only [Event.op, Option.ite_none_right_eq_some, Option.some.injEq,
        Ledger.Op.issue.injEq] at hop
      exact hop.2 ▸ hop.1
  | _ => simp [Event.op] at hop

omit [DecidableEq T] in
/-- **One step**: the ledger accepts what happened, and still agrees with the state. -/
theorem outcome {action : Action U E T} (h : EndpointInv device state uhe ledger)
    (houtcome : Outcome device state action next events) :
    ∃ after, ledger.replayFrom (endpointOps device uhe events) = some after ∧
      EndpointInv device next uhe after := by
  obtain ⟨after, hreplay, hrep⟩ := h.rep.outcome houtcome
  refine ⟨after, hreplay, hrep.links, hrep.active, fun ticket hmem => ?_⟩
  rcases Ledger.outstanding_replayFrom hreplay hmem with hbefore | hissued
  · exact h.owner ticket hbefore
  · exact owner_of_issue hissued

end EndpointInv

/-- The whole state agrees with the ledgers of its endpoints. -/
structure UsbInv (device : Device U E) (state : State U E T) (ledgers : E → Ledger U) :
    Prop where
  xfers : state.XfersOk
  endpoints : ∀ uhe, EndpointInv device state uhe (ledgers uhe)

omit [DecidableEq U] [DecidableEq E] [DecidableEq T] in
theorem UsbInv.init {device : Device U E} :
    UsbInv device (State.init : State U E T) fun _ => .empty where
  xfers := fun _ _ => ⟨rfl, fun _ => rfl⟩
  endpoints := fun _ => .init

theorem UsbInv.step {device : Device U E} {state next : State U E T}
    {ledgers : E → Ledger U} {action : Action U E T} {events : List (Event U E)}
    (h : UsbInv device state ledgers)
    (hstep : (usbMachine device).step state action = some (next, events)) :
    ∃ after : E → Ledger U,
      (∀ uhe, (ledgers uhe).replayFrom (endpointOps device uhe events) = some (after uhe)) ∧
      UsbInv device next after := by
  obtain ⟨houtcome, hxfers⟩ := Outcome.of_step h.xfers hstep
  choose after hops hinv using fun uhe => (h.endpoints uhe).outcome houtcome
  exact ⟨after, hops, hxfers, hinv⟩

/-- **Every run refines a ledger per endpoint.** -/
theorem run_refines {device : Device U E} {state : State U E T}
    {schedule : List (Action U E T)} {history : List (Event U E)}
    (hrun : (usbMachine device).run .init schedule = some (state, history)) :
    ∃ ledgers : E → Ledger U,
      (∀ uhe, Ledger.replay (endpointOps device uhe history) = some (ledgers uhe)) ∧
      UsbInv device state ledgers := by
  have hstart : ∃ ledgers : E → Ledger U,
      (∀ uhe, Ledger.replay (endpointOps device uhe []) = some (ledgers uhe)) ∧
      UsbInv device (State.init : State U E T) ledgers :=
    ⟨fun _ => .empty, fun _ => rfl, .init⟩
  have key := (usbMachine device).run_invariant
    (P := fun state past => ∃ ledgers : E → Ledger U,
      (∀ uhe, Ledger.replay (endpointOps device uhe past) = some (ledgers uhe)) ∧
      UsbInv device state ledgers)
    (fun {state past action next events} hpast hstep => by
      obtain ⟨ledgers, hreplay, hinv⟩ := hpast
      obtain ⟨after, hevents, hnext⟩ := hinv.step hstep
      refine ⟨after, fun uhe => ?_, hnext⟩
      rw [endpointOps_append]
      exact Ledger.replay_append (hreplay uhe) (hevents uhe))
    hstart hrun
  simpa using key

/-! ### No step goes wrong

A step of the machine is missing where it is nobody's turn, and where the code would
dereference `NULL` or write through an empty back link.  In a state that can be reached
only the first happens. -/

/-- It is the party's turn. -/
def Enabled (state : State U E T) : Action U E T → Prop
  | .killUrb thread _ => state.kills thread = .idle
  | .killPoll thread => state.kills thread ≠ .idle
  | .callback uhe index status _ => state.opened uhe = true ∧
      (state.bsdXfer uhe index).callback = .idle ∧
      (state.bsdXfer uhe index).pending = decide (status ≠ .start)
  | .handlerReturn uhe index =>
      ∃ urb cancelled, (state.bsdXfer uhe index).callback = .handler urb cancelled
  | .trSetup uhe index => (state.bsdXfer uhe index).callback = .trSetup
  | _ => True

section Enabled

variable {device : Device U E} {state : State U E T} {ledgers : E → Ledger U}

omit [DecidableEq T] in
theorem State.usbLinuxComplete_isSome {uhe : E} {index : Fin 2} {cancelled : Bool} (urb : U)
    (hpriv : (state.bsdXfer uhe index).privSc1 = some urb) :
    (state.usbLinuxComplete device uhe index cancelled).isSome = true := by
  rw [usbLinuxComplete, hpriv]
  by_cases hcomplete : device.complete urb = true <;> simp [hcomplete]

omit [DecidableEq E] [DecidableEq T] in
theorem UsbInv.remove_isSome (h : UsbInv device state ledgers) {uhe : E} {urb : U}
    (hmem : urb ∈ (ledgers uhe).waiting.map Ticket.item) :
    ((state.bsdUrbList uhe).remove urb).isSome = true := by
  obtain ⟨removed, hremove, -⟩ := (h.endpoints uhe).links.remove hmem
  rw [hremove]
  rfl

omit [DecidableEq T] in
theorem UsbInv.unlinkQueued_isSome (h : UsbInv device state ledgers) {uhe : E} {urb : U}
    (hqueued : ((state.bsdUrbList uhe).prev urb).isSome = true) :
    (state.unlinkQueued device uhe urb).isSome = true := by
  rw [State.unlinkQueued, Option.isSome_map]
  exact h.remove_isSome (((h.endpoints uhe).links.prev_isSome_iff urb).mp hqueued)

omit [DecidableEq T] in
theorem UsbInv.callback_isSome (h : UsbInv device state ledgers) {uhe : E} {index : Fin 2}
    {status : Status} {report : Report}
    (henabled : Enabled state (.callback uhe index status report)) :
    (state.callback device uhe index status report).isSome = true := by
  unfold Enabled at henabled
  simp only [State.callback]
  rw [if_pos henabled]
  split
  · rfl
  · rename_i hstart
    -- a pending transfer has private data
    have hpriv := (h.xfers uhe index).pending_iff
    rw [henabled.2.2, decide_eq_true hstart] at hpriv
    obtain ⟨urb, hurb⟩ := Option.isSome_iff_exists.mp hpriv.symm
    rw [hurb]
    simp only [Option.isSome_map]
    refine State.usbLinuxComplete_isSome urb ?_
    simpa using hurb

omit [DecidableEq T] in
theorem UsbInv.trSetup_isSome (h : UsbInv device state ledgers) {uhe : E} {index : Fin 2}
    (henabled : Enabled state (.trSetup uhe index)) :
    (state.trSetup device uhe index).isSome = true := by
  unfold Enabled at henabled
  rw [State.trSetup, if_pos henabled]
  cases hfirst : (state.bsdUrbList uhe).first with
  | none => rfl
  | some urb =>
      have hmem : urb ∈ (ledgers uhe).waiting.map Ticket.item := by
        rw [(h.endpoints uhe).links.first_eq] at hfirst
        exact List.mem_of_mem_head? hfirst
      obtain ⟨removed, hremove⟩ := Option.isSome_iff_exists.mp (h.remove_isSome hmem)
      simp only [hremove, Option.bind_some]
      split
      · rw [Option.isSome_map]
        refine State.usbLinuxComplete_isSome urb ?_
        simp [State.setPriv]
      · rfl

/-- **Whoever's turn it is can move**: no callback meets a transfer without private
data, and no queue operation an element that is not linked. -/
theorem UsbInv.step_isSome (h : UsbInv device state ledgers) {action : Action U E T}
    (henabled : Enabled state action) :
    ((usbMachine device).step state action).isSome = true := by
  cases action with
  | fill urb fields => rfl
  | blockUrb urb => rfl
  | unblockUrb urb => rfl
  | submitUrb urb opens => rfl
  | unlinkUrb urb =>
      simp only [usbMachine, State.unlinkUrb]
      split
      · rfl
      · split
        · rename_i hqueued
          rw [Option.isSome_map]
          exact h.unlinkQueued_isSome hqueued
        · rfl
  | killUrb thread urb =>
      unfold Enabled at henabled
      simp only [usbMachine, State.killUrb]
      rw [if_pos henabled]
      split
      · rfl
      · split
        · rename_i hqueued
          rw [Option.isSome_map]
          exact h.unlinkQueued_isSome hqueued
        · rfl
  | killPoll thread =>
      simp only [usbMachine, State.killPoll]
      split
      · exact absurd ‹_› henabled
      · split_ifs <;> rfl
  | callback uhe index status report => exact h.callback_isSome henabled
  | handlerReturn uhe index =>
      obtain ⟨urb, cancelled, hcallback⟩ := henabled
      simp [usbMachine, State.handlerReturn, hcallback]
  | trSetup uhe index => exact h.trSetup_isSome henabled

/-- The same along every run. -/
theorem run_step_isSome {schedule : List (Action U E T)} {history : List (Event U E)}
    {action : Action U E T}
    (hrun : (usbMachine device).run .init schedule = some (state, history))
    (henabled : Enabled state action) :
    ((usbMachine device).step state action).isSome = true := by
  obtain ⟨ledgers, -, hinv⟩ := run_refines hrun
  exact hinv.step_isSome henabled

end Enabled

end Webcamd.Kernel.Usb
