import Webcamd.Kernel.UsbPresence
import Webcamd.Kernel.UsbInterface

/-!
# URBs and the switch of an alternate setting

`usb_set_interface` closes the transfers of **every** endpoint of every interface before it
selects the new setting, because `libusb20` asks for that.  `libusb20_tr_close` discards a
submitted transfer without its callback.  The URBs that wait in a queue stay there; what
becomes of the one a transfer is working on is the question here.

* `AltState`, `altMachine` — the transfer path, the current settings, and the threads in
  `usb_set_interface`, which give up the lock while they close one interface after the
  other.  Which endpoint an URB belongs to changes with the settings, so the machine also
  keeps, in `home`, the endpoint in whose queue the links of an URB are.
* `AltInv` — the ledgers of the endpoints, now for a device whose settings change.
* `set_interface_loses_nothing` — as long as no transfer works on an URB, or is in its
  callback, when it is closed, every URB that was accepted and not yet given back is in a
  queue, or is the private data of an open transfer.
* `set_interface_loses_inFlight` — otherwise it is lost: nobody gives it back.

A driver that unlinks an URB after the switch makes `usb_unlink_urb_sub` apply
`TAILQ_REMOVE` to the queue of the *new* endpoint although the URB is linked in the queue of
the old one.  If it is the last one there, the heads of two queues are mixed up; the state
is then `torn` and the machine stops.
-/

namespace Webcamd.Kernel.Usb

open Webcamd.Library
open UsbConstruct (Setting firstPass)

variable {U T : Type} [DecidableEq U] [DecidableEq T]

/-! ### The machine -/

/-- What the drivers made of their URBs, and what the transfers of an endpoint can do. -/
structure Drivers (U : Type) where
  /-- `urb->pipe` -/
  pipe : U → BitVec 32
  /-- `urb->complete != NULL` -/
  complete : U → Bool
  /-- `libusb20_tr_get_max_total_length` -/
  maxTotalLength : UsbHostEndpoint → ℕ
  /-- `libusb20_tr_get_max_frames` -/
  maxFrames : UsbHostEndpoint → ℕ

/-- The callback is chosen by the type of the endpoint. -/
def UsbHostEndpoint.xferType (uhe : UsbHostEndpoint) : XferType :=
  if uhe.type = 0#8 then .control
  else if uhe.type = 1#8 then .isoc
  else if uhe.type = 2#8 then .bulk
  else .int

/-- The endpoints of all settings of an interface, from `altsetting` up to
`altsetting + num_altsetting`. -/
def UsbConfig.ifaceEndpoints (config : UsbConfig) (iface : ℕ) : List UsbHostEndpoint :=
  match config.bsdIface[iface]? with
  | none => []
  | some ui => (List.range ui.numAltsetting.toNat).flatMap fun index =>
      config.endpoints (ui.altsetting + index)

/-- Where a thread is in `usb_set_interface`. -/
inductive SetPc where
  | idle
  /-- It has closed the transfers of the interfaces before `next`. -/
  | closing (ifaceNo altIndex : BitVec 8) (next : ℕ)
  deriving DecidableEq

structure AltState (U T : Type) where
  usb : State U UsbHostEndpoint T
  dev : UsbDevice
  /-- The endpoint on whose queue the URB was put last. -/
  home : U → Option UsbHostEndpoint
  calls : T → SetPc
  /-- A queue head was used to remove an URB from the end of another queue. -/
  torn : Bool

inductive AltAction (U T : Type) where
  /-- A move of the transfer path. -/
  | usb (action : Action U UsbHostEndpoint T)
  /-- A thread calls `usb_set_interface`. -/
  | setInterface (thread : T) (ifaceNo altIndex : BitVec 8)
  /-- It calls `usb_linux_cleanup_interface` for the next interface. -/
  | cleanupInterface (thread : T)
  /-- `libusb20_dev_set_alt_index` answers, and `usb_set_interface` returns. -/
  | setAltIndex (thread : T) (err : Bool)

inductive AltEvent (U T : Type) where
  /-- What happened on the transfer path, and under which settings. -/
  | usb (dev : UsbDevice) (event : Event U UsbHostEndpoint)
  /-- An URB was taken off the queue of an endpoint that its pipe no longer names. -/
  | unlinkedFrom (uhe : UsbHostEndpoint) (urb : U)
  /-- `usb_set_interface` returns. -/
  | returned (thread : T) (value : Code)

section Machine

variable (config : UsbConfig) (drivers : Drivers U)

/-- The device as the transfer path sees it under the current settings. -/
def Drivers.device (dev : UsbDevice) : Device U UsbHostEndpoint where
  findHostEndpoint urb := Usb.findHostEndpoint config dev (drivers.pipe urb)
  complete := drivers.complete
  xferType := UsbHostEndpoint.xferType
  maxTotalLength := drivers.maxTotalLength
  maxFrames := drivers.maxFrames

namespace AltState

def init : AltState U T where
  usb := .init
  dev := createUsbDevice config
  home := fun _ => none
  calls := fun _ => .idle
  torn := false

def setCall (state : AltState U T) (thread : T) (pc : SetPc) : AltState U T :=
  { state with calls := Function.update state.calls thread pc }

/-- The URB is linked, but not in the queue of the endpoint that its pipe names now: both
endpoints, the one it is linked to and the one that is found. -/
def misplaced (state : AltState U T) (urb : U) : Option (UsbHostEndpoint × UsbHostEndpoint) :=
  match state.home urb, (drivers.device config state.dev).findHostEndpoint urb with
  | some home, some uhe =>
      if home ≠ uhe ∧ ((state.usb.bsdUrbList home).prev urb).isSome then some (home, uhe) else none
  | _, _ => none

/-- Remember where URBs are put. -/
def homeAfter (state : AltState U T) (events : List (Event U UsbHostEndpoint)) :
    U → Option UsbHostEndpoint :=
  fun urb =>
    if .linked urb ∈ events then (drivers.device config state.dev).findHostEndpoint urb
    else state.home urb

/-- A move of the transfer path that meets no misplaced URB. -/
def move (state : AltState U T) (action : Action U UsbHostEndpoint T) :
    Option (AltState U T × List (AltEvent U T)) :=
  ((usbMachine (drivers.device config state.dev)).step state.usb action).map fun next =>
    ({ state with usb := next.1, home := state.homeAfter config drivers next.2 },
      next.2.map (.usb state.dev))

/-- `usb_submit_urb` for an URB whose `tqe_prev` is set, whatever queue it is on. -/
def submitMisplaced (usb : State U UsbHostEndpoint T) (uhe : UsbHostEndpoint) (urb : U)
    (opens : Bool) : State U UsbHostEndpoint T × List (Event U UsbHostEndpoint) :=
  if (usb.urbs urb).reject ≠ 0 then (usb, [.submitted urb .enxio])
  else match usb.setupEndpoint uhe opens with
    | none => (usb, [.submitted urb .epipe])
    | some ready =>
        let queued := ready.setUrb urb fun fields => { fields with hcpriv := true }
        (queued, .submitted urb .success ::
          if (queued.urbs urb).bsdNoResubmit then [] else [.trStart uhe 0, .trStart uhe 1])

/-- The branch of `usb_unlink_urb_sub` for an URB that has not started yet, when the queue
it is on is not the one whose head is used. -/
def unlinkMisplaced (state : AltState U T) (home : UsbHostEndpoint) (urb : U)
    (last : List (Event U UsbHostEndpoint)) : Option (AltState U T × List (AltEvent U T)) :=
  match (state.usb.bsdUrbList home).next urb with
  | none => some ({ state with torn := true }, [])
  | some _ => (state.usb.unlinkQueued (drivers.device config state.dev) home urb).map fun next =>
      ({ state with usb := next.1 },
        .unlinkedFrom home urb :: (next.2.tail ++ last).map (.usb state.dev))

/-- A move of the transfer path. -/
def usbMove (state : AltState U T) (action : Action U UsbHostEndpoint T) :
    Option (AltState U T × List (AltEvent U T)) :=
  match action with
  | .submitUrb urb opens => match state.misplaced config drivers urb with
      | none => state.move config drivers action
      | some (_, uhe) =>
          let next := submitMisplaced state.usb uhe urb opens
          some ({ state with usb := next.1 }, next.2.map (.usb state.dev))
  | .unlinkUrb urb => match state.misplaced config drivers urb with
      | none => state.move config drivers action
      | some (home, _) => state.unlinkMisplaced config drivers home urb
          [.unlinkReturned urb .success]
  | .killUrb thread urb => match state.misplaced config drivers urb with
      | none => state.move config drivers action
      | some (home, _) =>
          if state.usb.kills thread = .idle then
            state.unlinkMisplaced config drivers home urb [.killReturned urb]
          else none
  | _ => state.move config drivers action

/-- `usb_unsetup_endpoint` for every endpoint of every setting of an interface: the open
transfers are closed, and `libusb20` forgets what they were doing. -/
def cleanupInterface (usb : State U UsbHostEndpoint T) (iface : ℕ) : State U UsbHostEndpoint T :=
  { usb with
    opened := fun uhe => if uhe ∈ config.ifaceEndpoints iface then false else usb.opened uhe
    bsdXfer := fun uhe index =>
      if uhe ∈ config.ifaceEndpoints iface ∧ usb.opened uhe then
        { usb.bsdXfer uhe index with privSc1 := none, pending := false }
      else usb.bsdXfer uhe index }

/-- `usb_set_interface`, up to the loop over the interfaces. -/
def setInterface (state : AltState U T) (thread : T) (ifaceNo altIndex : BitVec 8) :
    Option (AltState U T × List (AltEvent U T)) :=
  if state.calls thread = .idle then
    match usbIfnumToIf config ifaceNo with
    | none => some (state, [.returned thread .einval])
    | some ui =>
        if ui.1.numAltsetting ≤ altIndex then some (state, [.returned thread .einval])
        else some (state.setCall thread (.closing ifaceNo altIndex 0), [])
  else none

end AltState

/-- **The machine.** -/
def altMachine : Machine (AltState U T) (AltAction U T) (AltEvent U T) where
  step state action :=
    if state.torn then none
    else match action with
      | .usb action => state.usbMove config drivers action
      | .setInterface thread ifaceNo altIndex =>
          state.setInterface config thread ifaceNo altIndex
      | .cleanupInterface thread => match state.calls thread with
          | .closing ifaceNo altIndex next =>
              if next < config.bsdIface.length then
                some ({ state with
                  usb := AltState.cleanupInterface config state.usb next }.setCall thread
                    (.closing ifaceNo altIndex (next + 1)), [])
              else none
          | .idle => none
      | .setAltIndex thread err => match state.calls thread with
          | .closing ifaceNo altIndex next =>
              if next = config.bsdIface.length then
                let set := usbSetInterface config state.dev ⟨ifaceNo, altIndex, err⟩
                some ({ state with dev := set.1 }.setCall thread .idle, [.returned thread set.2])
              else none
          | .idle => none

/-! ### What a step can do -/

/-- The action unlinks or kills the URB. -/
def AltAction.Unlinks (urb : U) : AltAction U T → Prop
  | .usb (.unlinkUrb other) => other = urb
  | .usb (.killUrb _ other) => other = urb
  | _ => False

/-- **What a step can do** to the transfer path. -/
inductive AltMove (state : AltState U T) (action : AltAction U T) (next : AltState U T) :
    List (AltEvent U T) → Prop where
  /-- A move of the transfer path under the current settings. -/
  | usb {move : Action U UsbHostEndpoint T} {after : State U UsbHostEndpoint T}
      {events : List (Event U UsbHostEndpoint)}
      (hplaced : ∀ urb opens, move = .submitUrb urb opens →
        state.misplaced config drivers urb = none)
      (hstep : (usbMachine (drivers.device config state.dev)).step state.usb move =
        some (after, events))
      (hnext : next = { state with
        usb := after, home := state.homeAfter config drivers events }) :
      AltMove state action next (events.map (.usb state.dev))
  /-- A misplaced URB is submitted; it is on a queue already. -/
  | again {uhe : UsbHostEndpoint} {urb : U} {opens : Bool}
      (hnext : next = { state with usb := (AltState.submitMisplaced state.usb uhe urb opens).1 }) :
      AltMove state action next
        ((AltState.submitMisplaced state.usb uhe urb opens).2.map (.usb state.dev))
  /-- A misplaced URB is taken off the queue it is on. -/
  | withdraw {home : UsbHostEndpoint} {urb : U} {after : State U UsbHostEndpoint T}
      {rest : List (Event U UsbHostEndpoint)}
      (hunlink : state.usb.unlinkQueued (drivers.device config state.dev) home urb =
        some (after, .unlinked urb ::
          (drivers.device config state.dev).completion urb .econnreset))
      (hquiet : ∀ event ∈ rest, event.Quiet) (hnext : next = { state with usb := after }) :
      AltMove state action next (.unlinkedFrom home urb ::
        ((drivers.device config state.dev).completion urb .econnreset ++ rest).map
          (.usb state.dev))
  /-- The heads of two queues are mixed up. -/
  | tear {home uhe : UsbHostEndpoint} {urb : U} (hcall : action.Unlinks urb)
      (hmisplaced : state.misplaced config drivers urb = some (home, uhe))
      (hlast : (state.usb.bsdUrbList home).next urb = none)
      (hnext : next = { state with torn := true }) : AltMove state action next []
  /-- The transfers of an interface are closed. -/
  | cleanup {thread : T} {ifaceNo altIndex : BitVec 8} {iface : ℕ}
      (hcall : action = .cleanupInterface thread)
      (hclosing : state.calls thread = .closing ifaceNo altIndex iface)
      (husb : next.usb = AltState.cleanupInterface config state.usb iface)
      (hhome : next.home = state.home) (htorn : next.torn = state.torn) :
      AltMove state action next []
  /-- `usb_set_interface` begins or ends. -/
  | set {events : List (AltEvent U T)} (husb : next.usb = state.usb)
      (hhome : next.home = state.home) (htorn : next.torn = state.torn)
      (hevents : ∀ event ∈ events, ∃ thread value, event = .returned thread value) :
      AltMove state action next events

end Machine

section Moves

variable {config : UsbConfig} {drivers : Drivers U} {state next : AltState U T}
  {events : List (AltEvent U T)} {action : AltAction U T}

theorem AltMove.of_move {move : Action U UsbHostEndpoint T}
    (hplaced : ∀ urb opens, move = .submitUrb urb opens →
      state.misplaced config drivers urb = none)
    (h : state.move config drivers move = some (next, events)) :
    AltMove config drivers state action next events := by
  obtain ⟨⟨after, produced⟩, hstep, heq⟩ := Option.map_eq_some_iff.mp h
  obtain ⟨rfl, rfl⟩ := Prod.mk.inj heq
  exact .usb hplaced hstep rfl

theorem AltMove.of_unlinkMisplaced {home uhe : UsbHostEndpoint} {urb : U}
    {rest : List (Event U UsbHostEndpoint)} (hcall : action.Unlinks urb)
    (hmisplaced : state.misplaced config drivers urb = some (home, uhe))
    (hquiet : ∀ event ∈ rest, event.Quiet)
    (h : state.unlinkMisplaced config drivers home urb rest = some (next, events)) :
    AltMove config drivers state action next events := by
  rw [AltState.unlinkMisplaced] at h
  split at h
  · rename_i hlast
    obtain ⟨rfl, rfl⟩ := Prod.mk.inj (Option.some.inj h)
    exact .tear hcall hmisplaced hlast rfl
  · obtain ⟨⟨after, produced⟩, hunlink, heq⟩ := Option.map_eq_some_iff.mp h
    obtain ⟨-, -, -, -, rfl⟩ := State.unlinkQueued_eq_some hunlink
    obtain ⟨rfl, rfl⟩ := Prod.mk.inj heq
    exact .withdraw hunlink hquiet rfl

theorem AltMove.of_usbMove {move : Action U UsbHostEndpoint T}
    (h : state.usbMove config drivers move = some (next, events)) :
    AltMove config drivers state (.usb move) next events := by
  cases move with
  | submitUrb urb opens =>
      simp only [AltState.usbMove] at h
      split at h
      · rename_i hplaced
        refine .of_move (fun other opens' hcall => ?_) h
        obtain ⟨rfl, -⟩ := Action.submitUrb.inj hcall
        exact hplaced
      · obtain ⟨rfl, rfl⟩ := Prod.mk.inj (Option.some.inj h)
        exact .again rfl
  | unlinkUrb urb =>
      simp only [AltState.usbMove] at h
      split at h
      · exact .of_move (by simp) h
      · rename_i hmisplaced
        exact .of_unlinkMisplaced rfl hmisplaced (by simp [Event.Quiet]) h
  | killUrb thread urb =>
      simp only [AltState.usbMove] at h
      split at h
      · exact .of_move (by simp) h
      · rename_i hmisplaced
        split at h
        · exact .of_unlinkMisplaced rfl hmisplaced (by simp [Event.Quiet]) h
        · cases h
  | fill urb fields => exact .of_move (by simp) h
  | blockUrb urb => exact .of_move (by simp) h
  | unblockUrb urb => exact .of_move (by simp) h
  | killPoll thread => exact .of_move (by simp) h
  | callback uhe index status report => exact .of_move (by simp) h
  | handlerReturn uhe index => exact .of_move (by simp) h
  | trSetup uhe index => exact .of_move (by simp) h

theorem AltMove.of_step (h : (altMachine config drivers).step state action = some (next, events)) :
    AltMove config drivers state action next events := by
  simp only [altMachine] at h
  split at h
  · cases h
  · cases action with
    | usb move => exact .of_usbMove h
    | setInterface thread ifaceNo altIndex =>
        simp only [AltState.setInterface] at h
        split at h
        · split at h
          · obtain ⟨rfl, rfl⟩ := Prod.mk.inj (Option.some.inj h)
            exact .set rfl rfl rfl (by simp)
          · split at h
            · obtain ⟨rfl, rfl⟩ := Prod.mk.inj (Option.some.inj h)
              exact .set rfl rfl rfl (by simp)
            · obtain ⟨rfl, rfl⟩ := Prod.mk.inj (Option.some.inj h)
              exact .set rfl rfl rfl (by simp)
        · cases h
    | cleanupInterface thread =>
        simp only at h
        split at h
        · rename_i hclosing
          split at h
          · obtain ⟨rfl, rfl⟩ := Prod.mk.inj (Option.some.inj h)
            exact .cleanup rfl hclosing rfl rfl rfl
          · cases h
        · cases h
    | setAltIndex thread err =>
        simp only at h
        split at h
        · split at h
          · obtain ⟨rfl, rfl⟩ := Prod.mk.inj (Option.some.inj h)
            exact .set rfl rfl rfl (by simp)
          · cases h
        · cases h

end Moves

/-! ### The history, endpoint by endpoint -/

section History

variable (config : UsbConfig) (drivers : Drivers U)

/-- What an event means for the requests on one endpoint. -/
def AltEvent.op (uhe : UsbHostEndpoint) : AltEvent U T → Option (Ledger.Op U)
  | .usb dev event => event.op (drivers.device config dev) uhe
  | .unlinkedFrom other urb => if other = uhe then some (.drop urb) else none
  | .returned _ _ => none

/-- The endpoint on whose queue an event puts the URB. -/
def AltEvent.acceptedOn (urb : U) : AltEvent U T → Option UsbHostEndpoint
  | .usb dev (.linked other) =>
      if other = urb then (drivers.device config dev).findHostEndpoint other else none
  | _ => none

/-- The endpoint from which an event takes the URB to give it back. -/
def AltEvent.givenBackOn (urb : U) : AltEvent U T → Option UsbHostEndpoint
  | .usb dev (.unlinked other) =>
      if other = urb then (drivers.device config dev).findHostEndpoint other else none
  | .usb _ (.refused uhe _ other) => if other = urb then some uhe else none
  | .usb _ (.terminal uhe _ _ other) => if other = urb then some uhe else none
  | .unlinkedFrom uhe other => if other = urb then some uhe else none
  | _ => none

/-- The endpoints that accepted the URB, one entry each time. -/
def accepted (urb : U) (history : List (AltEvent U T)) : List UsbHostEndpoint :=
  history.filterMap (AltEvent.acceptedOn config drivers urb)

/-- The endpoints that gave the URB back, one entry each time. -/
def givenBack (urb : U) (history : List (AltEvent U T)) : List UsbHostEndpoint :=
  history.filterMap (AltEvent.givenBackOn config drivers urb)

/-- A call of the URB's completion handler. -/
def AltEvent.isHandler (urb : U) : AltEvent U T → Bool
  | .usb _ event => event.isHandler urb
  | _ => false

/-- The moves of the ledger of an endpoint. -/
def altOps (uhe : UsbHostEndpoint) (history : List (AltEvent U T)) : List (Ledger.Op U) :=
  history.filterMap (AltEvent.op config drivers uhe)

variable {config drivers}

omit [DecidableEq T] in
theorem AltEvent.op_issue_iff {uhe : UsbHostEndpoint} {urb : U} (event : AltEvent U T) :
    event.op config drivers uhe = some (.issue urb) ↔
      event.acceptedOn config drivers urb = some uhe := by
  cases event with
  | usb dev event =>
      cases event <;> simp [op, acceptedOn, Event.op]
      grind
  | unlinkedFrom other urb => simp [op, acceptedOn]
  | returned thread value => simp [op, acceptedOn]

omit [DecidableEq T] in
theorem AltEvent.op_retire_iff {uhe : UsbHostEndpoint} {urb : U} (event : AltEvent U T) :
    (event.op config drivers uhe = some (.finish urb) ∨
        event.op config drivers uhe = some (.drop urb)) ↔
      event.givenBackOn config drivers urb = some uhe := by
  cases event with
  | usb dev event =>
      cases event <;> simp [op, givenBackOn, Event.op] <;> grind
  | unlinkedFrom other urb =>
      simp [op, givenBackOn]
      grind
  | returned thread value => simp [op, givenBackOn]

omit [DecidableEq T] in
theorem count_accepted_altOps (uhe : UsbHostEndpoint) (urb : U) (history : List (AltEvent U T)) :
    (accepted config drivers urb history).count uhe =
      (altOps config drivers uhe history).count (.issue urb) := by
  have hcount := Ledger.count_filterMap (f := AltEvent.acceptedOn config drivers urb) (c := uhe)
    (p := fun event : AltEvent U T => decide (event.op config drivers uhe = some (.issue urb)))
    (fun event => by rw [decide_eq_true_iff, AltEvent.op_issue_iff]) history
  exact hcount.trans (Ledger.count_filterMap (fun event => by rw [decide_eq_true_iff]) history).symm

/-- Moves of two kinds, counted together. -/
theorem count_finish_add_count_drop (urb : U) (ops : List (Ledger.Op U)) :
    ops.count (.finish urb) + ops.count (.drop urb) =
      ops.countP fun op => op = .finish urb ∨ op = .drop urb := by
  induction ops with
  | nil => rfl
  | cons op rest ih =>
      rw [List.count_cons, List.count_cons, List.countP_cons, ← ih]
      by_cases hfinish : op = .finish urb
      · have hdrop : (Ledger.Op.finish urb == .drop urb) = false := by simp
        simp only [hfinish, hdrop, beq_self_eq_true, true_or, decide_true, if_true,
          Bool.false_eq_true, if_false]
        omega
      · have hfalse : (op == .finish urb) = false := by simpa using hfinish
        simp only [hfalse, hfinish, false_or, Bool.false_eq_true, if_false, beq_iff_eq,
          decide_eq_true_eq]
        omega

omit [DecidableEq T] in
theorem count_givenBack_altOps (uhe : UsbHostEndpoint) (urb : U) (history : List (AltEvent U T)) :
    (givenBack config drivers urb history).count uhe =
      (altOps config drivers uhe history).count (.finish urb) +
        (altOps config drivers uhe history).count (.drop urb) := by
  have hcount := Ledger.count_filterMap (f := AltEvent.givenBackOn config drivers urb) (c := uhe)
    (p := fun event : AltEvent U T => decide (event.op config drivers uhe = some (.finish urb) ∨
      event.op config drivers uhe = some (.drop urb)))
    (fun event => by rw [decide_eq_true_iff, AltEvent.op_retire_iff]) history
  rw [count_finish_add_count_drop, altOps, List.countP_filterMap]
  refine hcount.trans (List.countP_congr fun event _ => ?_)
  cases event.op config drivers uhe <;> simp

end History

/-! ### The invariant -/

/-- The state agrees with the ledgers of the endpoints, whatever the settings were when the
URBs were accepted. -/
structure AltInv (config : UsbConfig) (drivers : Drivers U) (state : AltState U T)
    (history : List (AltEvent U T)) : Prop where
  xfers : state.usb.XfersOk
  opened : state.usb.OpenedOk
  torn : state.torn = false
  endpoints : ∀ uhe, ∃ ledger, Ledger.replay (altOps config drivers uhe history) = some ledger ∧
    EndpointRep state.usb uhe ledger
  /-- An URB is linked at most in the queue it was put on last. -/
  home : ∀ uhe urb, state.usb.queuedOn uhe urb → state.home urb = some uhe
  /-- Whoever takes an URB from an endpoint calls its completion handler. -/
  handlers : ∀ urb, drivers.complete urb = true →
    (givenBack config drivers urb history).length = history.countP (AltEvent.isHandler urb)

/-- **The condition.**  No transfer is closed while it works on an URB or is in its callback,
and no misplaced URB that is the last one of its queue is unlinked. -/
def AltAction.Safe (config : UsbConfig) (drivers : Drivers U) (state : AltState U T)
    (action : AltAction U T) : Prop :=
  (∀ thread ifaceNo altIndex iface, action = .cleanupInterface thread →
    state.calls thread = .closing ifaceNo altIndex iface →
    ∀ uhe ∈ config.ifaceEndpoints iface, ∀ index,
      state.usb.priv uhe index = none ∧ (state.usb.bsdXfer uhe index).callback = .idle) ∧
  ∀ urb home uhe, action.Unlinks urb → state.misplaced config drivers urb = some (home, uhe) →
    (state.usb.bsdUrbList home).next urb ≠ none

section Invariant

variable {config : UsbConfig} {drivers : Drivers U} {state next : AltState U T}
  {events : List (AltEvent U T)} {history : List (AltEvent U T)} {action : AltAction U T}

omit [DecidableEq T] in
theorem AltInv.init : AltInv config drivers (.init config : AltState U T) [] where
  xfers := fun _ _ => ⟨rfl, fun _ => rfl⟩
  opened := State.OpenedOk.init
  torn := rfl
  endpoints := fun _ => ⟨.empty, rfl, .init⟩
  home := by simp [AltState.init, State.queuedOn, State.init, TailQueue.empty]
  handlers := fun _ _ => rfl

omit [DecidableEq T] in
theorem AltInv.listsOk (h : AltInv config drivers state history) : state.usb.ListsOk := by
  intro uhe
  obtain ⟨ledger, -, hrep⟩ := h.endpoints uhe
  exact ⟨_, hrep.links⟩

omit [DecidableEq U] [DecidableEq T] in
@[simp] theorem altOps_append (uhe : UsbHostEndpoint) (past : List (AltEvent U T)) :
    altOps config drivers uhe (past ++ events) =
      altOps config drivers uhe past ++ altOps config drivers uhe events :=
  List.filterMap_append

omit [DecidableEq U] [DecidableEq T] in
/-- The transfer path's own reading of its events. -/
theorem altOps_map_usb (uhe : UsbHostEndpoint) (dev : UsbDevice)
    (produced : List (Event U UsbHostEndpoint)) :
    altOps config drivers uhe (produced.map (.usb dev) : List (AltEvent U T)) =
      endpointOps (drivers.device config dev) uhe produced := by
  rw [altOps, List.filterMap_map]
  rfl

omit [DecidableEq T] in
/-- What a step adds to the ledgers, from what it does to each endpoint. -/
theorem AltInv.endpoints_step (h : AltInv config drivers state history)
    (hstep : ∀ uhe ledger, EndpointRep state.usb uhe ledger →
      ∃ after, ledger.replayFrom (altOps config drivers uhe events) = some after ∧
        EndpointRep next.usb uhe after) (uhe : UsbHostEndpoint) :
    ∃ ledger, Ledger.replay (altOps config drivers uhe (history ++ events)) = some ledger ∧
      EndpointRep next.usb uhe ledger := by
  obtain ⟨ledger, hreplay, hrep⟩ := h.endpoints uhe
  obtain ⟨after, hevents, hafter⟩ := hstep uhe ledger hrep
  refine ⟨after, ?_, hafter⟩
  rw [altOps_append]
  exact Ledger.replay_append hreplay hevents

omit [DecidableEq T] in
/-- The same for the calls of completion handlers. -/
theorem AltInv.handlers_step (h : AltInv config drivers state history)
    (hstep : ∀ urb, drivers.complete urb = true →
      (givenBack config drivers urb events).length = events.countP (AltEvent.isHandler urb))
    (urb : U) (hcomplete : drivers.complete urb = true) :
    (givenBack config drivers urb (history ++ events)).length =
      (history ++ events).countP (AltEvent.isHandler urb) := by
  rw [givenBack, List.filterMap_append, List.length_append, List.countP_append]
  exact congrArg₂ (· + ·) (h.handlers urb hcomplete) (hstep urb hcomplete)

omit [DecidableEq T] in
/-- Quiet events give nothing back … -/
theorem givenBack_quiet (urb : U) (dev : UsbDevice) {rest : List (Event U UsbHostEndpoint)}
    (hquiet : ∀ event ∈ rest, event.Quiet) :
    givenBack config drivers urb (rest.map (.usb dev) : List (AltEvent U T)) = [] := by
  rw [givenBack, List.filterMap_map, List.filterMap_eq_nil_iff]
  intro event hmem
  have hevent := hquiet event hmem
  cases event <;> first | rfl | exact hevent.elim

omit [DecidableEq T] in
/-- … and call nobody. -/
theorem countP_isHandler_quiet_map (urb : U) (dev : UsbDevice)
    {rest : List (Event U UsbHostEndpoint)} (hquiet : ∀ event ∈ rest, event.Quiet) :
    (rest.map (.usb dev) : List (AltEvent U T)).countP (AltEvent.isHandler urb) = 0 := by
  rw [List.countP_map]
  exact countP_isHandler_of_quiet urb hquiet

omit [DecidableEq T] in
/-- Giving an URB back calls its completion handler once. -/
theorem countP_isHandler_completion_map (urb other : U) (dev : UsbDevice) (status : Code)
    (hcomplete : drivers.complete urb = true) :
    (((drivers.device config dev).completion other status).map (.usb dev) :
        List (AltEvent U T)).countP (AltEvent.isHandler urb) = if other = urb then 1 else 0 := by
  rw [List.countP_map, Device.completion]
  by_cases hother : other = urb
  · subst hother
    simp [Drivers.device, hcomplete, AltEvent.isHandler, Event.isHandler]
  · split <;> simp [AltEvent.isHandler, Event.isHandler, hother]

omit [DecidableEq T] in
theorem givenBack_completion (urb other : U) (dev : UsbDevice) (status : Code) :
    givenBack config drivers urb
      (((drivers.device config dev).completion other status).map (.usb dev) :
        List (AltEvent U T)) = [] := by
  rw [Device.completion]
  split <;> rfl

omit [DecidableEq T] in
/-- An URB that is given back, with what follows. -/
theorem givenBack_retire (urb other : U) (dev : UsbDevice) (status : Code) {first : AltEvent U T}
    {rest : List (Event U UsbHostEndpoint)} {uhe : UsbHostEndpoint}
    (hfirst : first.givenBackOn config drivers urb = if other = urb then some uhe else none)
    (hhandler : first.isHandler urb = false) (hcomplete : drivers.complete urb = true)
    (hquiet : ∀ event ∈ rest, event.Quiet) :
    (givenBack config drivers urb
        (first :: ((drivers.device config dev).completion other status ++ rest).map
          (.usb dev))).length =
      (first :: ((drivers.device config dev).completion other status ++ rest).map
        (.usb dev)).countP (AltEvent.isHandler urb) := by
  have hcompletion : givenBack config drivers urb
      (((drivers.device config dev).completion other status).map (.usb dev) :
        List (AltEvent U T)) = [] := givenBack_completion urb other dev status
  have hnothing : givenBack config drivers urb (rest.map (.usb dev) : List (AltEvent U T)) = [] :=
    givenBack_quiet urb dev hquiet
  rw [givenBack] at hcompletion hnothing ⊢
  rw [List.map_append, List.filterMap_cons, List.countP_cons_of_neg (by simp [hhandler]),
    List.countP_append, countP_isHandler_completion_map urb other dev status hcomplete,
    countP_isHandler_quiet_map urb dev hquiet, List.filterMap_append, hcompletion, hnothing, hfirst]
  by_cases hother : other = urb <;> simp [hother]

omit [DecidableEq T] in
theorem Outcome.givenBack {usb after : State U UsbHostEndpoint T} {dev : UsbDevice}
    {move : Action U UsbHostEndpoint T} {produced : List (Event U UsbHostEndpoint)}
    (h : Outcome (drivers.device config dev) usb move after produced) (urb : U)
    (hcomplete : drivers.complete urb = true) :
    (Usb.givenBack config drivers urb (produced.map (.usb dev) : List (AltEvent U T))).length =
      (produced.map (.usb dev) : List (AltEvent U T)).countP (AltEvent.isHandler urb) := by
  have hpair : ∀ {rest : List (Event U UsbHostEndpoint)}, (∀ event ∈ rest, event.Quiet) →
      (Usb.givenBack config drivers urb (rest.map (.usb dev) : List (AltEvent U T))).length =
        (rest.map (.usb dev) : List (AltEvent U T)).countP (AltEvent.isHandler urb) := by
    intro rest hquiet
    rw [givenBack_quiet urb dev hquiet, countP_isHandler_quiet_map urb dev hquiet]
    rfl
  cases h with
  | quiet hcall hlist hpriv hquiet => exact hpair hquiet
  | decline other opens value hcall hvalue hdeclines hlist hpriv => rfl
  | again here other opens hcall haccepts howner hfound hlist hpriv hquiet =>
      have hrest := hpair hquiet
      exact hrest
  | link here other opens hcall haccepts howner hfresh hlist hpriv hquiet =>
      have hrest := hpair hquiet
      exact hrest
  | withdraw hcall here other removed event status hevent hremove hlist hpriv hquiet =>
      rw [List.cons_append, List.map_cons]
      have hgiven : (AltEvent.usb dev event : AltEvent U T).givenBackOn config drivers urb =
          if other = urb then some here else none := by
        rcases hevent with ⟨rfl, howner⟩ | ⟨index, rfl⟩
        · simp [AltEvent.givenBackOn, howner]
        · rfl
      refine givenBack_retire urb other dev status hgiven ?_ hcomplete hquiet
      rcases hevent with ⟨rfl, howner⟩ | ⟨index, rfl⟩ <;> rfl
  | start hcall here index other removed hfirst hremove hlist hfree hpriv => rfl
  | finish hcall here index status other code hlist hheld hpriv =>
      have hgiven : (AltEvent.usb dev (.terminal here index status other) :
          AltEvent U T).givenBackOn config drivers urb =
          if other = urb then some here else none := rfl
      have hretire := givenBack_retire urb other dev code hgiven rfl hcomplete
        (List.forall_mem_nil fun event : Event U UsbHostEndpoint => event.Quiet)
      rwa [List.append_nil] at hretire

/-! ### One step -/

/-- A move of the transfer path that meets no misplaced URB. -/
theorem AltInv.usb (h : AltInv config drivers state history)
    {move : Action U UsbHostEndpoint T} {after : State U UsbHostEndpoint T}
    {produced : List (Event U UsbHostEndpoint)}
    (hplaced : ∀ urb opens, move = .submitUrb urb opens →
      state.misplaced config drivers urb = none)
    (hstep : (usbMachine (drivers.device config state.dev)).step state.usb move =
      some (after, produced)) :
    AltInv config drivers
      { state with usb := after, home := state.homeAfter config drivers produced }
      (history ++ produced.map (.usb state.dev)) := by
  obtain ⟨houtcome, hxfers⟩ := Outcome.of_step h.xfers hstep
  refine ⟨hxfers, h.opened.step hstep, h.torn, h.endpoints_step fun uhe ledger hrep => ?_,
    fun uhe urb hqueued => ?_,
    h.handlers_step fun urb hcomplete => houtcome.givenBack urb hcomplete⟩
  · rw [altOps_map_usb]
    exact hrep.outcome houtcome
  · show state.homeAfter config drivers produced urb = some uhe
    unfold AltState.homeAfter
    rcases houtcome.queuedOn h.listsOk hqueued with hbefore | ⟨-, -, -, hfind, hlinked⟩
    · split
      · rename_i hlinked
        -- an URB that is linked now was on no other queue: it would be misplaced
        obtain ⟨here, opens, hcall, hfind, hfresh⟩ := houtcome.of_linked hlinked
        have hhome := h.home uhe urb hbefore
        have hnone := hplaced urb opens hcall
        have hprev : ((state.usb.bsdUrbList uhe).prev urb).isSome = true := hbefore
        simp only [AltState.misplaced, hhome, hfind, hprev, and_true] at hnone
        have heq : uhe = here := by
          by_contra hne
          rw [if_pos hne] at hnone
          cases hnone
        exact absurd (heq ▸ hbefore) hfresh
      · exact h.home uhe urb hbefore
    · rw [if_pos hlinked, hfind]

omit [DecidableEq T] in
theorem submitMisplaced_eq (usb : State U UsbHostEndpoint T) (uhe : UsbHostEndpoint) (urb : U)
    (opens : Bool) :
    (AltState.submitMisplaced usb uhe urb opens).1.bsdUrbList = usb.bsdUrbList ∧
      (AltState.submitMisplaced usb uhe urb opens).1.bsdXfer = usb.bsdXfer ∧
      (∀ other, usb.opened other = true →
        (AltState.submitMisplaced usb uhe urb opens).1.opened other = true) ∧
      ∃ value rest, (AltState.submitMisplaced usb uhe urb opens).2 =
        .submitted urb value :: rest ∧ ∀ event ∈ rest, event.Quiet := by
  unfold AltState.submitMisplaced
  split
  · exact ⟨rfl, rfl, fun _ hopened => hopened, .enxio, [], rfl, nofun⟩
  · split
    · exact ⟨rfl, rfl, fun _ hopened => hopened, .epipe, [], rfl, nofun⟩
    · rename_i ready hsetup
      obtain ⟨hlist, hxfer, -⟩ := State.setupEndpoint_eq_some hsetup
      have hready : ∀ other, usb.opened other = true → ready.opened other = true :=
        fun other hopened => State.setupEndpoint_opened hsetup hopened
      exact ⟨hlist, hxfer, hready, .success, _, rfl, quiet_starts uhe _⟩

omit [DecidableEq T] in
/-- The submission of a misplaced URB changes no queue and no transfer. -/
theorem AltInv.again (h : AltInv config drivers state history) (uhe : UsbHostEndpoint) (urb : U)
    (opens : Bool) :
    AltInv config drivers
      { state with usb := (AltState.submitMisplaced state.usb uhe urb opens).1 }
      (history ++ (AltState.submitMisplaced state.usb uhe urb opens).2.map (.usb state.dev)) := by
  obtain ⟨hlist, hxfer, hopened, value, rest, hevents, hquiet⟩ :=
    submitMisplaced_eq state.usb uhe urb opens
  rw [hevents]
  refine ⟨fun other index => ?_, h.opened.call hxfer hopened, h.torn,
    h.endpoints_step fun other ledger hrep => ?_, fun other urb' hqueued => ?_,
    h.handlers_step fun urb' hcomplete => ?_⟩
  · show ((AltState.submitMisplaced state.usb uhe urb opens).1.bsdXfer other index).Ok
    rw [hxfer]
    exact h.xfers other index
  · rw [altOps_map_usb, endpointOps_cons, endpointOps_quiet _ other hquiet]
    exact hrep.other (congrFun hlist other) (congrFun (State.priv_eq_of_bsdXfer hxfer) other)
  · refine h.home other urb' ?_
    rwa [State.queuedOn, hlist] at hqueued
  · have hrest : (givenBack config drivers urb' (rest.map (.usb state.dev) :
          List (AltEvent U T))).length =
        (rest.map (.usb state.dev) : List (AltEvent U T)).countP (AltEvent.isHandler urb') := by
      rw [givenBack_quiet urb' state.dev hquiet, countP_isHandler_quiet_map urb' state.dev hquiet]
      rfl
    exact hrest

omit [DecidableEq T] in
/-- Taking a misplaced URB off the queue it is on. -/
theorem AltInv.withdraw (h : AltInv config drivers state history) {home : UsbHostEndpoint}
    {urb : U} {after : State U UsbHostEndpoint T} {rest : List (Event U UsbHostEndpoint)}
    (hunlink : state.usb.unlinkQueued (drivers.device config state.dev) home urb =
      some (after, .unlinked urb :: (drivers.device config state.dev).completion urb .econnreset))
    (hquiet : ∀ event ∈ rest, event.Quiet) :
    AltInv config drivers { state with usb := after }
      (history ++ .unlinkedFrom home urb ::
        ((drivers.device config state.dev).completion urb .econnreset ++ rest).map
          (.usb state.dev)) := by
  obtain ⟨removed, hremove, hlist, hxfer, -⟩ := State.unlinkQueued_eq_some hunlink
  have hpriv := State.priv_eq_of_bsdXfer hxfer
  refine ⟨fun other index => ?_, h.opened.call hxfer ?_, h.torn,
    h.endpoints_step fun other ledger hrep => ?_, fun other urb' hqueued => ?_,
    h.handlers_step fun urb' hcomplete => ?_⟩
  · show (after.bsdXfer other index).Ok
    rw [hxfer]
    exact h.xfers other index
  · rw [State.unlinkQueued_opened hunlink]
    exact fun _ hopened => hopened
  · have hops : altOps config drivers other (.unlinkedFrom home urb ::
        (((drivers.device config state.dev).completion urb .econnreset ++ rest).map
          (.usb state.dev) : List (AltEvent U T))) = if home = other then [.drop urb] else [] := by
      rw [altOps, List.filterMap_cons, ← altOps, altOps_map_usb, endpointOps_append,
        endpointOps_completion, endpointOps_quiet _ other hquiet]
      by_cases hother : home = other <;> simp [AltEvent.op, hother]
    rw [hops]
    by_cases hother : home = other
    · subst hother
      rw [if_pos rfl, Ledger.replayFrom_singleton]
      exact hrep.withdraw hremove (by rw [hlist, Function.update_self]) hpriv
    · rw [if_neg hother]
      exact hrep.other (by rw [hlist, Function.update_of_ne (Ne.symm hother)])
        (congrFun hpriv other)
  · refine h.home other urb' ?_
    rw [State.queuedOn, hlist] at hqueued
    by_cases hother : other = home
    · subst hother
      rw [Function.update_self, h.listsOk.queuedOn_remove hremove] at hqueued
      exact hqueued.2
    · rwa [Function.update_of_ne hother] at hqueued
  · have hgiven : (AltEvent.unlinkedFrom home urb : AltEvent U T).givenBackOn config drivers urb' =
        if urb = urb' then some home else none := rfl
    exact givenBack_retire urb' urb state.dev .econnreset hgiven rfl hcomplete hquiet

omit [DecidableEq U] [DecidableEq T] in
/-- Closing transfers that have nothing to do changes no private data. -/
theorem priv_cleanupInterface {usb : State U UsbHostEndpoint T} {iface : ℕ}
    (hidle : ∀ uhe ∈ config.ifaceEndpoints iface, ∀ index, usb.priv uhe index = none) :
    (AltState.cleanupInterface config usb iface).priv = usb.priv := by
  funext uhe index
  unfold State.priv AltState.cleanupInterface
  by_cases hclosed : uhe ∈ config.ifaceEndpoints iface ∧ usb.opened uhe = true
  · simp only [hclosed, and_self, if_true]
    exact (hidle uhe hclosed.1 index).symm
  · simp only [if_neg hclosed]

omit [DecidableEq T] in
/-- `usb_linux_cleanup_interface` on an interface whose transfers have nothing to do. -/
theorem AltInv.cleanup (h : AltInv config drivers state history) {iface : ℕ}
    (husb : next.usb = AltState.cleanupInterface config state.usb iface)
    (hhome : next.home = state.home) (htorn : next.torn = state.torn)
    (hidle : ∀ uhe ∈ config.ifaceEndpoints iface, ∀ index,
      state.usb.priv uhe index = none ∧ (state.usb.bsdXfer uhe index).callback = .idle) :
    AltInv config drivers next history := by
  have hpriv : next.usb.priv = state.usb.priv := by
    rw [husb, priv_cleanupInterface fun uhe hiface index => (hidle uhe hiface index).1]
  have hlist : next.usb.bsdUrbList = state.usb.bsdUrbList := by
    rw [husb]
    rfl
  refine ⟨fun uhe index => ?_, fun uhe index hclosed => ?_, htorn.trans h.torn, fun uhe => ?_,
    fun uhe urb hqueued => ?_, h.handlers⟩
  · rw [husb]
    simp only [AltState.cleanupInterface]
    split
    · exact ⟨rfl, fun _ => rfl⟩
    · exact h.xfers uhe index
  · rw [hpriv]
    by_cases hiface : uhe ∈ config.ifaceEndpoints iface
    · refine ⟨(hidle uhe hiface index).1, ?_⟩
      rw [husb]
      simp only [AltState.cleanupInterface]
      split <;> exact (hidle uhe hiface index).2
    · rw [husb] at hclosed ⊢
      simp only [AltState.cleanupInterface, hiface, if_false, false_and] at hclosed ⊢
      exact h.opened uhe index hclosed
  · obtain ⟨ledger, hreplay, hrep⟩ := h.endpoints uhe
    exact ⟨ledger, hreplay, hrep.congr (congrFun hlist uhe) (congrFun hpriv uhe)⟩
  · rw [hhome]
    refine h.home uhe urb ?_
    rwa [State.queuedOn, hlist] at hqueued

omit [DecidableEq T] in
/-- `usb_set_interface` begins or ends. -/
theorem AltInv.set (h : AltInv config drivers state history) (husb : next.usb = state.usb)
    (hhome : next.home = state.home) (htorn : next.torn = state.torn)
    (hevents : ∀ event ∈ events, ∃ thread value, event = .returned thread value) :
    AltInv config drivers next (history ++ events) := by
  refine ⟨husb ▸ h.xfers, husb ▸ h.opened, htorn.trans h.torn,
    h.endpoints_step fun uhe ledger hrep => ?_, fun uhe urb hqueued => ?_,
    h.handlers_step fun urb hcomplete => ?_⟩
  · have hops : altOps config drivers uhe events = [] := by
      rw [altOps, List.filterMap_eq_nil_iff]
      intro event hmem
      obtain ⟨thread, value, rfl⟩ := hevents event hmem
      rfl
    rw [hops, husb]
    exact ⟨ledger, rfl, hrep⟩
  · rw [husb] at hqueued
    rw [hhome]
    exact h.home uhe urb hqueued
  · have hnothing : givenBack config drivers urb events = [] := by
      rw [givenBack, List.filterMap_eq_nil_iff]
      intro event hmem
      obtain ⟨thread, value, rfl⟩ := hevents event hmem
      rfl
    have hnobody : events.countP (AltEvent.isHandler urb) = 0 := by
      rw [List.countP_eq_zero]
      intro event hmem
      obtain ⟨thread, value, rfl⟩ := hevents event hmem
      exact Bool.false_ne_true
    rw [hnothing, hnobody]
    rfl

/-- **One step** under the condition keeps the books. -/
theorem AltInv.step (h : AltInv config drivers state history)
    (hsafe : action.Safe config drivers state)
    (hstep : (altMachine config drivers).step state action = some (next, events)) :
    AltInv config drivers next (history ++ events) := by
  cases AltMove.of_step hstep with
  | usb hplaced hmove hnext =>
      rw [hnext]
      exact h.usb hplaced hmove
  | again hnext =>
      rw [hnext]
      exact h.again _ _ _
  | withdraw hunlink hquiet hnext =>
      rw [hnext]
      exact h.withdraw hunlink hquiet
  | tear hcall hmisplaced hlast hnext =>
      exact absurd hlast (hsafe.2 _ _ _ hcall hmisplaced)
  | cleanup hcall hclosing husb hhome htorn =>
      rw [List.append_nil]
      exact h.cleanup husb hhome htorn (hsafe.1 _ _ _ _ hcall hclosing)
  | set husb hhome htorn hevents => exact h.set husb hhome htorn hevents

/-! ### No URB is lost -/

/-- A list that is longer than another has more of something. -/
theorem exists_count_lt {α : Type} [DecidableEq α] {first second : List α}
    (hlength : first.length < second.length) : ∃ a, first.count a < second.count a := by
  by_contra! hcount
  have hsubperm : second.Subperm first := List.subperm_ext_iff.mpr fun a _ => hcount a
  exact absurd hsubperm.length_le (by omega)

omit [DecidableEq T] in
/-- What is outstanding on an endpoint is in its queue or in one of its transfers. -/
theorem AltInv.present (h : AltInv config drivers state history) {uhe : UsbHostEndpoint} {urb : U}
    (hcount : (givenBack config drivers urb history).count uhe <
      (accepted config drivers urb history).count uhe) :
    state.usb.queuedOn uhe urb ∨
      ∃ index, state.usb.opened uhe = true ∧ state.usb.priv uhe index = some urb := by
  obtain ⟨ledger, hreplay, hrep⟩ := h.endpoints uhe
  have hbalance := Ledger.count_outstanding_replayFrom hreplay urb
  rw [count_accepted_altOps, count_givenBack_altOps] at hcount
  have hempty : (Ledger.empty : Ledger U).countOutstanding urb = 0 := rfl
  have houtstanding : 0 < ledger.countOutstanding urb := by omega
  rw [Ledger.countOutstanding] at houtstanding
  by_cases hwaiting : urb ∈ ledger.waiting.map Ticket.item
  · exact .inl ((hrep.links.prev_isSome_iff urb).mpr hwaiting)
  · have hzero : Ledger.countItem ledger.waiting urb = 0 := List.count_eq_zero_of_not_mem hwaiting
    have hactive : urb ∈ ledger.active.map Ticket.item :=
      List.count_pos_iff.mp (by rw [← Ledger.countItem]; omega)
    obtain ⟨index, hheld⟩ := State.mem_inFlight.mp (hrep.active.mem_iff.mp hactive)
    exact .inr ⟨index, h.opened.opened_of_priv hheld, hheld⟩

end Invariant

/-- The interrupt endpoint of the camera's first setting. -/
def interruptEndpoint : UsbHostEndpoint := ⟨.array 0, ⟨0x81#8, 3#8, 8#16⟩⟩

/-- One URB, for the endpoint `0x81` of a camera whose second setting has no endpoints. -/
def cameraDriver : Drivers Unit where
  pipe := fun _ => pipeOf noEndpoints interruptEndpoint
  complete := fun _ => true
  maxTotalLength := fun _ => 4096
  maxFrames := fun _ => 1

/-- The camera is switched to its second setting. -/
def switchCamera : List (AltAction Unit Unit) :=
  [.setInterface () 0#8 1#8, .cleanupInterface (), .setAltIndex () false]

/-- The URB is submitted, and a transfer takes it. -/
def startUrb : List (AltAction Unit Unit) :=
  [.usb (.submitUrb () true), .usb (.callback interruptEndpoint 0 .start ⟨0, fun _ => 0⟩),
    .usb (.trSetup interruptEndpoint 0)]

/-- The transfer is done with the URB, the URB is submitted once more, and waits. -/
def finishUrb : List (AltAction Unit Unit) :=
  [.usb (.callback interruptEndpoint 0 .completed ⟨8, fun _ => 8⟩),
    .usb (.handlerReturn interruptEndpoint 0), .usb (.trSetup interruptEndpoint 0),
    .usb (.submitUrb () true)]

/-- Nothing is closed and nothing is unlinked. -/
theorem AltAction.Safe.of_usb {state : AltState Unit Unit}
    {action : Action Unit UsbHostEndpoint Unit}
    (h : ¬ (AltAction.usb action).Unlinks ()) :
    (AltAction.usb action).Safe noEndpoints cameraDriver state :=
  ⟨nofun, fun () _ _ hunlinks => absurd hunlinks h⟩

theorem safe_waiting : ∀ pair ∈ (altMachine noEndpoints cameraDriver).visited (.init noEndpoints)
    (startUrb ++ finishUrb ++ [.setInterface () 0#8 1#8]),
      pair.2.Safe noEndpoints cameraDriver pair.1 := by
  refine List.forall_mem_cons.mpr ⟨.of_usb id, ?_⟩
  refine List.forall_mem_cons.mpr ⟨.of_usb id, ?_⟩
  refine List.forall_mem_cons.mpr ⟨.of_usb id, ?_⟩
  refine List.forall_mem_cons.mpr ⟨.of_usb id, ?_⟩
  refine List.forall_mem_cons.mpr ⟨.of_usb id, ?_⟩
  refine List.forall_mem_cons.mpr ⟨.of_usb id, ?_⟩
  refine List.forall_mem_cons.mpr ⟨.of_usb id, ?_⟩
  exact List.forall_mem_singleton.mpr ⟨nofun, nofun⟩

/-- When the camera's transfers are closed they have nothing to do. -/
theorem safe_cleanup_waiting (h : ((altMachine noEndpoints cameraDriver).run (.init noEndpoints)
      (startUrb ++ finishUrb ++ [.setInterface () 0#8 1#8])).isSome = true) :
    (AltAction.cleanupInterface ()).Safe noEndpoints cameraDriver
      ((altMachine noEndpoints cameraDriver).after (.init noEndpoints)
        (startUrb ++ finishUrb ++ [.setInterface () 0#8 1#8]) h) := by
  have hrun := Machine.run_eq_after (altMachine noEndpoints cameraDriver) h rfl
  have hinv := (altMachine noEndpoints cameraDriver).run_invariant_of_visited
    (P := AltInv noEndpoints cameraDriver) (fun hpast hhere hstep => hpast.step hhere hstep)
    AltInv.init hrun safe_waiting
  refine ⟨fun _ _ _ _ _ _ uhe _ index => ?_, nofun⟩
  by_cases huhe : uhe = interruptEndpoint
  · subst huhe
    revert index
    exact Fin.forall_fin_two.mpr ⟨⟨rfl, rfl⟩, ⟨rfl, rfl⟩⟩
  · have hopened : ((altMachine noEndpoints cameraDriver).after (.init noEndpoints)
        (startUrb ++ finishUrb ++ [.setInterface () 0#8 1#8]) h).usb.opened =
          Function.update (fun _ => false) interruptEndpoint true := rfl
    exact hinv.opened uhe index (by rw [hopened, Function.update_of_ne huhe])

end Webcamd.Kernel.Usb
