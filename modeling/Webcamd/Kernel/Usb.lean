import Webcamd.Library.Ledger

/-!
# URBs between drivers and `libusb20`

A model of the transfer path of `kernel/linux_usb.c`.  Drivers submit *URBs*; every
endpoint keeps those it has accepted on a tail queue, `bsd_urb_list`, and has two
`libusb20` transfers that pull from it.  A transfer remembers the URB it is working on
as its private data (`priv_sc1`); its callback gives that URB back to the driver, by
calling the URB's completion handler, and takes the next one.

* `State` — the URBs, the queues with their links, the two transfers of every endpoint
  with the place where their callbacks are, and the threads that wait in
  `usb_kill_urb`.
* `Callback` — what the three callbacks (`usb_linux_isoc_callback`,
  `usb_linux_bulk_intr_callback`, `usb_linux_ctrl_callback`) do differently; the rest,
  from `switch (status)` to the label `tr_setup`, is one text in the source, three
  times.
* `Action` — whose turn it is: a driver's call, a callback by `libusb20`, the return of
  a completion handler, one round at the label `tr_setup`.
* `step` — the machine; its `Event`s record what was accepted, what `libusb20` was
  asked to do, and every call of a completion handler.

`libusb20` itself is the environment.  After `libusb20_tr_submit` a transfer is
*pending* until its one terminal callback; a `START` callback comes only for a transfer
that is not pending; and the callbacks of one transfer do not nest.  `libusb20_tr_start`
and `libusb20_tr_stop` are requests that it may answer at any later time, or never, so
they are events only.

Completion handlers are driver code: between its start and its return anything may
happen, in particular every driver call.  The code runs under one recursive lock, which
`usb_kill_urb` gives up while it polls; the machine may switch at every action, which
allows more interleavings than the lock does.
-/

namespace Webcamd.Kernel.Usb

open Webcamd.Library

/-- Zero, or a negated error number. -/
inductive Code where
  | success
  | einval
  | enxio
  | epipe
  | efbig
  | econnreset
  | einprogress
  deriving DecidableEq

/-- `bmAttributes & USB_ENDPOINT_XFERTYPE_MASK` -/
inductive XferType where
  | control
  | isoc
  | bulk
  | int
  deriving DecidableEq

/-- `libusb20_tr_get_status` inside a callback. -/
inductive Status where
  | start
  | completed
  | cancelled
  | timedOut
  | stall
  | overflow
  | noDevice
  | error
  deriving DecidableEq

/-- The fields of an URB that its driver fills in. -/
structure UrbIn where
  /-- `transfer_buffer_length` -/
  transferBufferLength : ℕ
  /-- `transfer_flags & URB_SHORT_NOT_OK` -/
  shortNotOk : Bool
  /-- `number_of_packets` -/
  numberOfPackets : ℕ
  /-- `iso_frame_desc[x].length` -/
  packetLength : ℕ → ℕ

/-- `struct urb`, apart from its queue links. -/
structure Urb extends UrbIn where
  status : Code
  /-- `actual_length` -/
  actualLength : ℕ
  /-- `iso_frame_desc[x].actual_length` -/
  packetActualLength : ℕ → ℕ
  /-- `iso_frame_desc[x].status` -/
  packetStatus : ℕ → Code
  /-- `hcpriv != NULL` -/
  hcpriv : Bool
  reject : BitVec 32
  /-- `bsd_no_resubmit` -/
  bsdNoResubmit : Bool

/-- What `usb_init_urb` leaves: all zeros. -/
def Urb.init : Urb where
  transferBufferLength := 0
  shortNotOk := false
  numberOfPackets := 0
  packetLength := fun _ => 0
  status := .success
  actualLength := 0
  packetActualLength := fun _ => 0
  packetStatus := fun _ => .success
  hcpriv := false
  reject := 0
  bsdNoResubmit := false

/-- `for (x = 0; x < urb->number_of_packets; x++)` over one field of the packets. -/
def Urb.forPackets {α : Type} (urb : Urb) (old new : ℕ → α) : ℕ → α :=
  fun x => if x < urb.numberOfPackets then new x else old x

/-! ### The three callbacks -/

/-- What `libusb20` reports about a completed transfer. -/
structure Report where
  /-- `libusb20_tr_get_actual_length` -/
  actualLength : ℕ
  /-- `libusb20_tr_get_length(xfer, x)` -/
  length : ℕ → ℕ

/-- What the callbacks do differently. -/
structure Callback where
  /-- The URB after `LIBUSB20_TRANSFER_COMPLETED`. -/
  completed : Report → Urb → Urb
  /-- The URB after an error status. -/
  failed : Status → Urb → Urb
  /-- The URB as it is put into the transfer, given the transfer's
  `libusb20_tr_get_max_frames`. -/
  setup : ℕ → Urb → Urb
  /-- The test for `-EFBIG`, given the transfer's `libusb20_tr_get_max_total_length`. -/
  tooBig : ℕ → Urb → Bool

/-- A transfer that is shorter than the driver asked for. -/
def shortStatus (urb : Urb) (short : Bool) : Code :=
  if short && urb.shortNotOk then .epipe else .success

/-- `usb_linux_isoc_callback`: per packet, with time-outs that count as success, and
with the URB cut down to the frames the transfer has. -/
def usbLinuxIsocCallback : Callback where
  completed report urb :=
    let short := fun x => decide (report.length x < urb.packetLength x)
    let isShort := (List.range urb.numberOfPackets).any short
    { urb with
      packetStatus := urb.forPackets urb.packetStatus fun x => shortStatus urb (short x)
      -- `actual_length` of a packet has sixteen bits
      packetActualLength :=
        urb.forPackets urb.packetActualLength fun x => report.length x % 2 ^ 16
      actualLength := report.actualLength
      status := shortStatus urb isShort }
  failed status urb :=
    let code : Code := match status with
      | .cancelled => .econnreset
      | .timedOut => .success
      | _ => .epipe
    { urb with
      status := code
      actualLength := 0
      packetActualLength := urb.forPackets urb.packetActualLength fun _ => 0
      packetStatus := urb.forPackets urb.packetStatus fun _ => code }
  setup maxFrames urb :=
    { urb with numberOfPackets := min urb.numberOfPackets (maxFrames % 2 ^ 16) }
  tooBig _ _ := false

/-- The error branch that the two other callbacks share. -/
def failedTransfer (status : Status) (urb : Urb) : Urb :=
  { urb with
    status := if status = .cancelled then .econnreset else .epipe
    actualLength := 0 }

/-- `usb_linux_bulk_intr_callback` -/
def usbLinuxBulkIntrCallback : Callback where
  completed report urb :=
    { urb with
      actualLength := report.actualLength
      status := shortStatus urb (report.actualLength < urb.transferBufferLength) }
  failed := failedTransfer
  setup _ urb := urb
  tooBig maxBulk urb := maxBulk < urb.transferBufferLength

/-- `usb_linux_ctrl_callback`: the setup packet is not part of the data. -/
def usbLinuxCtrlCallback : Callback where
  completed report urb :=
    let actlen := report.actualLength - 8
    { urb with
      actualLength := actlen
      status := shortStatus urb (actlen < urb.transferBufferLength) }
  failed := failedTransfer
  setup _ urb := urb
  tooBig maxCtrl urb := decide (maxCtrl < 8) || decide (maxCtrl - 8 < urb.transferBufferLength)

/-- The callback `usb_setup_endpoint` gives to both transfers of an endpoint. -/
def XferType.callback : XferType → Callback
  | .control => usbLinuxCtrlCallback
  | .isoc => usbLinuxIsocCallback
  | .bulk => usbLinuxBulkIntrCallback
  | .int => usbLinuxBulkIntrCallback

/-! ### The state -/

/-- What stays fixed: the device, its endpoints, and what the drivers made of their
URBs. -/
structure Device (U E : Type) where
  /-- `usb_find_host_endpoint(urb->dev, urb->pipe)` -/
  findHostEndpoint : U → Option E
  /-- `urb->complete != NULL` -/
  complete : U → Bool
  xferType : E → XferType
  /-- `libusb20_tr_get_max_total_length` -/
  maxTotalLength : E → ℕ
  /-- `libusb20_tr_get_max_frames` -/
  maxFrames : E → ℕ

/-- Where the callback of a transfer is. -/
inductive CallbackPc (U : Type) where
  /-- Not in a callback. -/
  | idle
  /-- At the label `tr_setup`. -/
  | trSetup
  /-- In the completion handler of the URB.  With `cancelled` the callback returns
  after it, otherwise it goes on at `tr_setup`. -/
  | handler (urb : U) (cancelled : Bool)
  deriving DecidableEq

/-- A `struct libusb20_transfer`. -/
structure Xfer (U : Type) where
  /-- `libusb20_tr_get_priv_sc1` -/
  privSc1 : Option U
  /-- Submitted, and its terminal callback has not come. -/
  pending : Bool
  callback : CallbackPc U

/-- Where a thread is in `usb_kill_urb`. -/
inductive KillPc (U E : Type) where
  | idle
  /-- `usb_unlink_bsd` on this transfer of the endpoint, with `drain`. -/
  | drain (urb : U) (uhe : E) (index : Fin 2)
  deriving DecidableEq

structure State (U E T : Type) where
  urbs : U → Urb
  /-- `bsd_urb_list` of every endpoint, with the links of its URBs -/
  bsdUrbList : E → TailQueue U
  /-- `bsd_xfer[0]` and `bsd_xfer[1]` are set up. -/
  opened : E → Bool
  /-- `bsd_xfer` of every endpoint -/
  bsdXfer : E → Fin 2 → Xfer U
  kills : T → KillPc U E

/-- What an outside observer can record. -/
inductive Event (U E : Type) where
  /-- `usb_submit_urb` has made up its mind. -/
  | submitted (urb : U) (value : Code)
  /-- The URB was put on the queue of its endpoint … -/
  | linked (urb : U)
  /-- … and was taken off it by `usb_unlink_urb` or `usb_kill_urb`, … -/
  | unlinked (urb : U)
  /-- … or by a callback that found it too big, … -/
  | refused (uhe : E) (index : Fin 2) (urb : U)
  /-- … or by a callback that handed it to the hardware: `libusb20_tr_submit`. -/
  | trSubmit (uhe : E) (index : Fin 2) (urb : U)
  /-- The terminal callback of a transfer that worked on the URB. -/
  | terminal (uhe : E) (index : Fin 2) (status : Status) (urb : U)
  /-- `(urb->complete)(urb)`, with the status the handler finds. -/
  | handler (urb : U) (status : Code)
  /-- `libusb20_tr_start` -/
  | trStart (uhe : E) (index : Fin 2)
  /-- `libusb20_tr_stop` -/
  | trStop (uhe : E) (index : Fin 2)
  /-- `usb_unlink_urb` returns. -/
  | unlinkReturned (urb : U) (value : Code)
  /-- `usb_kill_urb` returns. -/
  | killReturned (urb : U)
  deriving DecidableEq

/-- Whose turn it is. -/
inductive Action (U E T : Type) where
  /-- The driver fills in its URB. -/
  | fill (urb : U) (fields : UrbIn)
  /-- `usb_block_urb`, `usb_poison_urb` -/
  | blockUrb (urb : U)
  /-- `usb_unblock_urb`, `usb_unpoison_urb` -/
  | unblockUrb (urb : U)
  /-- `usb_submit_urb`; `opens` is what `libusb20_tr_open` answers if it is called. -/
  | submitUrb (urb : U) (opens : Bool)
  | unlinkUrb (urb : U)
  | killUrb (thread : T) (urb : U)
  /-- The thread in `usb_kill_urb` looks at the transfer. -/
  | killPoll (thread : T)
  /-- `libusb20` calls the callback. -/
  | callback (uhe : E) (index : Fin 2) (status : Status) (report : Report)
  /-- The completion handler the callback called returns. -/
  | handlerReturn (uhe : E) (index : Fin 2)
  /-- One round at the label `tr_setup`. -/
  | trSetup (uhe : E) (index : Fin 2)

namespace State

variable {U E T : Type} [DecidableEq U] [DecidableEq E] [DecidableEq T]

/-- No URB was ever submitted and no transfer is open. -/
def init : State U E T where
  urbs := fun _ => .init
  bsdUrbList := fun _ => .empty
  opened := fun _ => false
  bsdXfer := fun _ _ => ⟨none, false, .idle⟩
  kills := fun _ => .idle

/-- Write fields of an URB. -/
def setUrb (state : State U E T) (urb : U) (write : Urb → Urb) : State U E T :=
  { state with urbs := Function.update state.urbs urb (write (state.urbs urb)) }

/-- Write the queue of an endpoint. -/
def setList (state : State U E T) (uhe : E) (list : TailQueue U) : State U E T :=
  { state with bsdUrbList := Function.update state.bsdUrbList uhe list }

/-- Write fields of a transfer. -/
def setXfer (state : State U E T) (uhe : E) (index : Fin 2) (write : Xfer U → Xfer U) :
    State U E T :=
  { state with
    bsdXfer := Function.update state.bsdXfer uhe
      (Function.update (state.bsdXfer uhe) index (write (state.bsdXfer uhe index))) }

/-- `libusb20_tr_set_priv_sc1` -/
def setPriv (state : State U E T) (uhe : E) (index : Fin 2) (priv : Option U) :
    State U E T :=
  state.setXfer uhe index fun xfer => { xfer with privSc1 := priv }

def setCallback (state : State U E T) (uhe : E) (index : Fin 2) (pc : CallbackPc U) :
    State U E T :=
  state.setXfer uhe index fun xfer => { xfer with callback := pc }

def setKill (state : State U E T) (thread : T) (pc : KillPc U E) : State U E T :=
  { state with kills := Function.update state.kills thread pc }

/-- The URB is the private data of the transfer. -/
def holds (state : State U E T) (uhe : E) (index : Fin 2) (urb : U) : Bool :=
  decide ((state.bsdXfer uhe index).privSc1 = some urb)

variable (device : Device U E)

/-! ### Driver calls -/

/-- `usb_setup_endpoint`; `none` is a failure of `libusb20_tr_open`. -/
def setupEndpoint (state : State U E T) (uhe : E) (opens : Bool) :
    Option (State U E T) :=
  if state.opened uhe then some state
  else if opens then some { state with opened := Function.update state.opened uhe true }
  else none

/-- The test *check if URB is not already submitted*, and what follows it. -/
def linkUrb (state : State U E T) (uhe : E) (urb : U) : State U E T × List (Event U E) :=
  if ((state.bsdUrbList uhe).prev urb).isSome then (state, [])
  else
    ((state.setList uhe ((state.bsdUrbList uhe).insertTail urb)).setUrb urb fun fields =>
        { fields with status := .einprogress },
      [.linked urb])

/-- `usb_submit_urb`, from the test for transfers on. -/
def enqueue (state : State U E T) (uhe : E) (urb : U) : State U E T × List (Event U E) :=
  if state.opened uhe then
    let linked :=
      (state.setUrb urb fun fields => { fields with hcpriv := true }).linkUrb uhe urb
    (linked.1, linked.2 ++ .submitted urb .success ::
      if (linked.1.urbs urb).bsdNoResubmit then [] else [.trStart uhe 0, .trStart uhe 1])
  else
    (state.setUrb urb fun fields => { fields with status := .einval },
      [.submitted urb .einval])

/-- `usb_submit_urb` -/
def submitUrb (state : State U E T) (urb : U) (opens : Bool) :
    State U E T × List (Event U E) :=
  if (state.urbs urb).reject ≠ 0 then (state, [.submitted urb .enxio])
  else match device.findHostEndpoint urb with
    | none => (state, [.submitted urb .einval])
    | some uhe => match state.setupEndpoint uhe opens with
        | none => (state, [.submitted urb .epipe])
        | some ready => ready.enqueue uhe urb

/-- The branch of `usb_unlink_urb_sub` for an URB that has not started yet.  The call
of the completion handler is the last thing it does. -/
def unlinkQueued (state : State U E T) (uhe : E) (urb : U) :
    Option (State U E T × List (Event U E)) :=
  ((state.bsdUrbList uhe).remove urb).map fun removed =>
    let unlinked := (state.setList uhe (removed.clearPrev urb)).setUrb urb fun fields =>
      { fields with
        status := .econnreset
        actualLength := 0
        packetActualLength := fields.forPackets fields.packetActualLength fun _ => 0 }
    if device.complete urb then
      (unlinked.setUrb urb fun fields => { fields with hcpriv := false },
        [.unlinked urb, .handler urb .econnreset])
    else (unlinked, [.unlinked urb])

/-- One round of `usb_unlink_bsd`'s loop: restart the transfer if it works on the URB. -/
def restart (state : State U E T) (uhe : E) (urb : U) (index : Fin 2) : List (Event U E) :=
  if state.opened uhe && state.holds uhe index urb then [.trStop uhe index, .trStart uhe index]
  else []

/-- `usb_unlink_urb` -/
def unlinkUrb (state : State U E T) (urb : U) : Option (State U E T × List (Event U E)) :=
  match device.findHostEndpoint urb with
  | none => some (state, [.unlinkReturned urb .einval])
  | some uhe =>
      if ((state.bsdUrbList uhe).prev urb).isSome then
        (state.unlinkQueued device uhe urb).map fun next =>
          (next.1, next.2 ++ [.unlinkReturned urb .success])
      else some (state, state.restart uhe urb 0 ++ state.restart uhe urb 1 ++
        [.unlinkReturned urb .success])

/-- `usb_kill_urb`, up to the first look at a transfer. -/
def killUrb (state : State U E T) (thread : T) (urb : U) :
    Option (State U E T × List (Event U E)) :=
  if state.kills thread = .idle then
    match device.findHostEndpoint urb with
    | none => some (state, [.killReturned urb])
    | some uhe =>
        if ((state.bsdUrbList uhe).prev urb).isSome then
          (state.unlinkQueued device uhe urb).map fun next =>
            (next.1, next.2 ++ [.killReturned urb])
        else some (state.setKill thread (.drain urb uhe 0), [])
  else none

/-- One round of `while (libusb20_tr_get_priv_sc1(xfer) == (void *)urb)`, first for
`bsd_xfer[0]`, then for `bsd_xfer[1]`. -/
def killPoll (state : State U E T) (thread : T) :
    Option (State U E T × List (Event U E)) :=
  match state.kills thread with
  | .idle => none
  | .drain urb uhe index =>
      if state.opened uhe && state.holds uhe index urb then
        some (state, state.restart uhe urb index)
      else if index = 0 then some (state.setKill thread (.drain urb uhe 1), [])
      else some (state.setKill thread .idle, [.killReturned urb])

/-! ### The callbacks -/

/-- What follows the completion handler: `urb->bsd_no_resubmit = 0`, and the way on. -/
def resume (state : State U E T) (uhe : E) (index : Fin 2) (urb : U) (cancelled : Bool) :
    State U E T :=
  (state.setUrb urb fun fields => { fields with bsdNoResubmit := false }).setCallback uhe
    index (if cancelled then .idle else .trSetup)

/-- `urb->bsd_no_resubmit = 1; usb_linux_complete(xfer);`, up to the call of the
handler.  Without a handler it goes on at once.  `none` is a `NULL` dereference. -/
def usbLinuxComplete (state : State U E T) (uhe : E) (index : Fin 2) (cancelled : Bool) :
    Option (State U E T × List (Event U E)) :=
  match (state.bsdXfer uhe index).privSc1 with
  | none => none
  | some urb =>
      let released := (state.setUrb urb fun fields =>
        { fields with bsdNoResubmit := true }).setPriv uhe index none
      if device.complete urb then
        some ((released.setUrb urb fun fields => { fields with hcpriv := false }).setCallback
            uhe index (.handler urb cancelled),
          [.handler urb (released.urbs urb).status])
      else some (released.resume uhe index urb cancelled, [])

/-- The callback, up to the completion handler or to the label `tr_setup`. -/
def callback (state : State U E T) (uhe : E) (index : Fin 2) (status : Status)
    (report : Report) : Option (State U E T × List (Event U E)) :=
  let xfer := state.bsdXfer uhe index
  if state.opened uhe ∧ xfer.callback = .idle ∧ xfer.pending = decide (status ≠ .start) then
    if status = .start then some (state.setCallback uhe index .trSetup, [])
    else
      match xfer.privSc1 with
      | none => none
      | some urb =>
          let kind := (device.xferType uhe).callback
          let finished := (state.setXfer uhe index fun xfer =>
            { xfer with pending := false }).setUrb urb
              (if status = .completed then kind.completed report else kind.failed status)
          (finished.usbLinuxComplete device uhe index (decide (status = .cancelled))).map
            fun next => (next.1, .terminal uhe index status urb :: next.2)
  else none

/-- The completion handler returns into the callback. -/
def handlerReturn (state : State U E T) (uhe : E) (index : Fin 2) :
    Option (State U E T × List (Event U E)) :=
  match (state.bsdXfer uhe index).callback with
  | .handler urb cancelled => some (state.resume uhe index urb cancelled, [])
  | _ => none

/-- One round at the label `tr_setup`: take the next URB and submit the transfer, or
give the URB back with `-EFBIG` and come here again. -/
def trSetup (state : State U E T) (uhe : E) (index : Fin 2) :
    Option (State U E T × List (Event U E)) :=
  if (state.bsdXfer uhe index).callback = .trSetup then
    match (state.bsdUrbList uhe).first with
    | none => some (state.setCallback uhe index .idle, [])
    | some urb => ((state.bsdUrbList uhe).remove urb).bind fun removed =>
        let kind := (device.xferType uhe).callback
        let taken := ((state.setList uhe (removed.clearPrev urb)).setUrb urb
          (kind.setup (device.maxFrames uhe))).setPriv uhe index (some urb)
        if kind.tooBig (device.maxTotalLength uhe) (taken.urbs urb) then
          let refused := taken.setUrb urb fun fields => { fields with status := .efbig }
          (refused.usbLinuxComplete device uhe index false).map fun next =>
            (next.1, .refused uhe index urb :: next.2)
        else
          some (taken.setXfer uhe index fun xfer =>
              { xfer with pending := true, callback := .idle },
            [.trSubmit uhe index urb, .trStart uhe (1 - index)])
  else none

end State

variable {U E T : Type} [DecidableEq U] [DecidableEq E] [DecidableEq T]

/-- **The machine.** -/
def usbMachine (device : Device U E) : Machine (State U E T) (Action U E T) (Event U E) where
  step state
    | .fill urb fields => some (state.setUrb urb fun old => { old with toUrbIn := fields }, [])
    | .blockUrb urb => some (state.setUrb urb fun old =>
        { old with reject := old.reject + 1 }, [])
    | .unblockUrb urb => some (state.setUrb urb fun old =>
        { old with reject := old.reject - 1 }, [])
    | .submitUrb urb opens => some (state.submitUrb device urb opens)
    | .unlinkUrb urb => state.unlinkUrb device urb
    | .killUrb thread urb => state.killUrb device thread urb
    | .killPoll thread => state.killPoll thread
    | .callback uhe index status report => state.callback device uhe index status report
    | .handlerReturn uhe index => state.handlerReturn uhe index
    | .trSetup uhe index => state.trSetup device uhe index

end Webcamd.Kernel.Usb
