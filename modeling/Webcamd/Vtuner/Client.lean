import Webcamd.Vtuner.Layout
import Webcamd.Vtuner.Server

/-!
# The control channel of the vTuner client

A model of `vtunerc_process_ioctl` of `vtuner/vtuner_client.c`.  The client has a device
like the one of the server; a request on it becomes a message, and the reply of the server
becomes the result of the request.

* `Request.command` — what the branches of the `switch` do, as a table: the message type,
  how the argument gets into the message, the sizes, and how the reply gets back to the
  caller.
* `vtunercPrepare`, `vtunercFinish` — a branch before and after its call of
  `vtunerc_do_message`.  The two requests with properties have their own.
* `vtunercProcessIoctl` — the whole function.  What happens between the two sides during
  `vtunerc_do_message` is a parameter.

The caller's memory is accessible: `copy_from_user` and `copy_to_user` do not fail.  Two
branches read the argument without them, from the memory of the process the client itself
runs in.  What is there, if anything, is a parameter.
-/

namespace Webcamd.Vtuner

/-- `struct dtv_property`.  The union `u` has the fifty-six bytes of its longest member,
`u.buffer`: `data`, `len`, and the reserved words. -/
structure LinuxProperty extends DtvProperty where
  /-- `u.buffer.reserved1` and `u.buffer.reserved2` -/
  bufferReserved : Fin 20 → BitVec 8

/-- The argument of a request. -/
structure Arg where
  /-- `(long)dvb` -/
  value : BitVec 64
  /-- the structure it points to -/
  fields : Fields
  /-- `dtv_properties.num` -/
  num : BitVec 32
  /-- `dtv_properties.props` -/
  props : ℕ → LinuxProperty

/-! ### The branches of the `switch` -/

/-- How the argument gets into the message. -/
inductive Input where
  | nothing
  /-- `VTUNER_LOCAL_MEMSET` of the member, and `VTUNER_LOCAL_MEMCPY` of the fields -/
  | copied (member : Member) (fields : List Field)
  /-- `value32 = (long)dvb` -/
  | immediate
  /-- `value16 = dvb->value16` -/
  | dereferenced

/-- How the reply gets to the caller. -/
inductive Output where
  | nothing
  /-- `VTUNER_PEER_MEMCPY` of the fields -/
  | copied (fields : List Field)
  /-- `VTUNER_PEER_MEMSET` of the member before that -/
  | cleared (member : Member) (fields : List Field)

/-- A branch of `vtunerc_process_ioctl`. -/
structure Command where
  mtype : MsgType
  input : Input
  rxSize : ℕ
  txSize : ℕ
  output : Output

/-- No argument in either direction. -/
def Command.plain (mtype : MsgType) : Command := ⟨mtype, .nothing, 0, 0, .nothing⟩

/-- The argument is a number. -/
def Command.immediate (mtype : MsgType) : Command :=
  ⟨mtype, .immediate, Member.size .value32, 0, .nothing⟩

/-- The argument is a structure for the server. -/
def Command.set (mtype : MsgType) (member : Member) (fields : List Field) : Command :=
  ⟨mtype, .copied member fields, member.size, 0, .nothing⟩

/-- The argument is a structure from the server. -/
def Command.get (mtype : MsgType) (member : Member) (fields : List Field) : Command :=
  ⟨mtype, .nothing, 0, member.size, .copied fields⟩

/-- The same, and the caller's structure is cleared first. -/
def Command.getCleared (mtype : MsgType) (member : Member) (fields : List Field) : Command :=
  ⟨mtype, .nothing, 0, member.size, .cleared member fields⟩

/-- The fields of `struct vtuner_dvb_frontend_info`. -/
def infoFields : List Field :=
  [.infoName, .infoType, .infoFrequencyMin, .infoFrequencyMax, .infoFrequencyStepsize,
    .infoFrequencyTolerance, .infoSymbolRateMin, .infoSymbolRateMax,
    .infoSymbolRateTolerance, .infoNotifierDelay, .infoCaps]

def stcFields : List Field := [.stcNum, .stcBase, .stcStc]

def parameterFields : List Field := Parameter.all.map .parameter

def eventFields : List Field := .eventStatus :: Parameter.all.map .eventParameter

/-- The branches, without those of the property lists. -/
def Request.command : Request → Option Command
  | .dmxStart => some (.plain .dmxStart)
  | .dmxStop => some (.plain .dmxStop)
  | .dmxSetFilter => some (.set .dmxSetFilter .dmxSctFilterParams
      [.sctPid, .sctFilter, .sctTimeout, .sctFlags])
  | .dmxSetPesFilter => some (.set .dmxSetPesFilter .dmxPesFilterParams
      [.pesPid, .pesInput, .pesOutput, .pesType, .pesFlags])
  | .dmxSetBufferSize => some (.immediate .dmxSetBufferSize)
  | .dmxGetPesPids => some (.get .dmxGetPesPids .dmxPesPid [.pids])
  | .dmxGetStc => some ⟨.dmxGetStc, .copied .dmxStc stcFields, Member.size .dmxStc,
      Member.size .dmxStc, .copied stcFields⟩
  | .dmxAddPid => some ⟨.dmxAddPid, .dereferenced, Member.size .value16, 0, .nothing⟩
  | .dmxRemovePid => some ⟨.dmxRemovePid, .dereferenced, Member.size .value16, 0, .nothing⟩
  | .feSetProperty | .feGetProperty => none
  | .feGetInfo => some (.getCleared .feGetInfo .dvbFrontendInfo infoFields)
  | .feDiseqcResetOverload => some (.plain .feDiseqcResetOverload)
  | .feDiseqcSendMasterCmd => some (.set .feDiseqcSendMasterCmd .dvbDiseqcMasterCmd
      [.masterMsg, .masterMsgLen])
  | .feDiseqcRecvSlaveReply => some ⟨.feDiseqcRecvSlaveReply,
      .copied .dvbDiseqcSlaveReply [.slaveTimeout], Member.size .dvbDiseqcSlaveReply,
      Member.size .dvbDiseqcSlaveReply, .copied [.slaveMsg, .slaveMsgLen]⟩
  | .feDiseqcSendBurst => some (.immediate .feDiseqcSendBurst)
  | .feSetTone => some (.immediate .feSetTone)
  | .feSetVoltage => some (.immediate .feSetVoltage)
  | .feEnableHighLnbVoltage => some (.immediate .feEnableHighLnbVoltage)
  | .feReadStatus => some (.get .feReadStatus .value32 [.value32])
  | .feReadBer => some (.get .feReadBer .value32 [.value32])
  | .feReadSignalStrength => some (.get .feReadSignalStrength .value16 [.value16])
  | .feReadSnr => some (.get .feReadSnr .value16 [.value16])
  | .feReadUncorrectedBlocks => some (.get .feReadUncorrectedBlocks .value32 [.value32])
  | .feSetFrontend => some (.set .feSetFrontend .dvbFrontendParameters parameterFields)
  | .feGetFrontend => some (.getCleared .feGetFrontend .dvbFrontendParameters parameterFields)
  | .feSetFrontendTuneMode => some (.immediate .feSetFrontendTuneMode)
  | .feGetEvent => some (.getCleared .feGetEvent .dvbFrontendEvent eventFields)
  | .feDishnetworkSendLegacyCmd => some (.immediate .feDishnetworkSendLegacyCmd)

/-! ### Before the message -/

/-- What a branch does before `vtunerc_do_message`. -/
inductive Prepared where
  /-- the arguments of `vtunerc_do_message` -/
  | message (mtype : MsgType) (rxSize txSize : ℕ) (body : Bytes)
  /-- an error -/
  | refused (ret : ℤ) (body : Bytes)
  /-- the process reads an address it does not have -/
  | crashed

/-- `-ENOMEM` -/
def enomem : ℤ := -12

/-- `-ENXIO` -/
def enxio : ℤ := -6

/-- `sizeof(struct vtuner_dtv_properties)` -/
def sizeProperties : ℕ := propOffset propMax

/-- The loop that copies the properties into the message. -/
def putProps (uapi : Uapi) (order : ByteOrder) (props : ℕ → LinuxProperty) (max : ℕ)
    (body : Bytes) : Bytes :=
  (List.range max).foldl
    (fun bytes i => bytes.setProp order i (copyProperty uapi (props i).toDtvProperty)) body

/-- `FE_SET_PROPERTY` and `FE_GET_PROPERTY` before the message. -/
def prepareProperties (uapi : Uapi) (order : ByteOrder) (isSet : Bool) (arg : Arg)
    (body : Bytes) : Prepared :=
  let numbered := (body.clear sizeProperties).store32 order 0 arg.num
  let max := arg.num.toNat
  if propMax < max then .refused enomem numbered
  else
    let filled := putProps uapi order arg.props max numbered
    if isSet then .message .feSetProperty (propOffset max) 0 filled
    else .message .feGetProperty (propOffset max) (propOffset max) filled

/-- The other requests before the message. -/
def Command.prepare (order : ByteOrder) (command : Command) (arg : Arg) (own : Option Bytes)
    (body : Bytes) : Prepared :=
  match command.input with
  | .nothing => .message command.mtype command.rxSize command.txSize body
  | .copied member fields => .message command.mtype command.rxSize command.txSize
      ((body.clear member.size).putFields fields arg.fields)
  | .immediate => .message command.mtype command.rxSize command.txSize
      (body.store32 order 0 (arg.value.setWidth 32))
  | .dereferenced =>
      match own with
      | none => .crashed
      | some bytes => .message command.mtype command.rxSize command.txSize
          (body.putFields [.value16] fun _ => bytes)

/-- `vtunerc_process_ioctl` before its call of `vtunerc_do_message`.  The bytes `own` are
what the client's process has at the address `dvb`. -/
def vtunercPrepare (uapi : Uapi) (order : ByteOrder) (request : Request) (arg : Arg)
    (own : Option Bytes) (body : Bytes) : Prepared :=
  match request.command with
  | some command => command.prepare order arg own body
  | none => prepareProperties uapi order (request = .feSetProperty) arg body

/-- The header `vtunerc_do_message` puts in front. -/
def vtunercHdr (mtype : MsgType) (rxSize txSize : ℕ) : Hdr where
  magic := magic
  mtype := mtype.code
  rxSize := BitVec.ofNat 16 rxSize
  txSize := BitVec.ofNat 16 txSize
  error := 0
  padding := 0

/-! ### After the message -/

/-- The caller gets a property. -/
def peerProperty (uapi : Uapi) (source : DtvProperty) : LinuxProperty where
  toDtvProperty := copyProperty uapi source
  bufferReserved := fun _ => 0

/-- The fields of the caller after the message. -/
def Output.apply (output : Output) (body : Bytes) (fields : Fields) : Fields :=
  match output with
  | .nothing => fields
  | .copied copiedOut => fields.copy copiedOut body.getFields
  | .cleared member copiedOut => (fields.clear member).copy copiedOut body.getFields

/-- `vtunerc_process_ioctl` after its call of `vtunerc_do_message`. -/
def vtunercFinish (uapi : Uapi) (order : ByteOrder) (request : Request) (arg : Arg)
    (body : Bytes) : Arg :=
  match request.command with
  | some command => { arg with fields := command.output.apply body arg.fields }
  | none =>
      if request = .feSetProperty then arg
      else { arg with props := fun i =>
        if i < arg.num.toNat then peerProperty uapi (body.prop order i) else arg.props i }

/-! ### The whole function -/

/-- The outcome of `vtunerc_process_ioctl`: its value, the other side, the message buffer
and the argument. -/
structure Ioctl (S : Type) where
  ret : ℤ
  peer : S
  body : Bytes
  arg : Arg

/-- `vtunerc_process_ioctl`.  The exchange of messages takes the header and the message
buffer, and yields the buffer afterwards and the header of the reply, if there is one. -/
def vtunercProcessIoctl {S : Type} (uapi : Uapi) (order : ByteOrder)
    (exchange : S → Hdr → Bytes → S × Bytes × Option Hdr) (peer : S) (body : Bytes)
    (request : Request) (arg : Arg) (own : Option Bytes) : Option (Ioctl S) :=
  match vtunercPrepare uapi order request arg own body with
  | .crashed => none
  | .refused ret after => some ⟨ret, peer, after, arg⟩
  | .message mtype rxSize txSize prepared =>
      let (after, received, reply) := exchange peer (vtunercHdr mtype rxSize txSize) prepared
      let ret := match reply with
        | none => enxio
        | some hdr => hdr.error.toInt
      some ⟨ret, after, received, vtunercFinish uapi order request arg received⟩

/-! ### The sizes -/

/-- The entries of the table. -/
theorem Request.command_fits {request : Request} {command : Command}
    (h : request.command = some command) :
    command.mtype.request = some request ∧ command.rxSize ≤ sizeBody ∧
      command.txSize ≤ sizeBody := by
  cases request <;> cases h <;> decide

/-- The requests that the table leaves out. -/
theorem Request.command_eq_none {request : Request} (h : request.command = none) :
    request = .feSetProperty ∨ request = .feGetProperty := by
  cases request <;> simp [Request.command] at h ⊢

/-- A branch of the table sends the message of its entry. -/
theorem Command.prepare_message {order : ByteOrder} {command : Command} {arg : Arg}
    {own : Option Bytes} {body prepared : Bytes} {mtype : MsgType} {rxSize txSize : ℕ}
    (h : command.prepare order arg own body = .message mtype rxSize txSize prepared) :
    mtype = command.mtype ∧ rxSize = command.rxSize ∧ txSize = command.txSize := by
  simp only [Command.prepare] at h
  split at h
  · cases h
    exact ⟨rfl, rfl, rfl⟩
  · cases h
    exact ⟨rfl, rfl, rfl⟩
  · cases h
    exact ⟨rfl, rfl, rfl⟩
  · split at h
    · cases h
    · cases h
      exact ⟨rfl, rfl, rfl⟩

theorem propOffset_le {max : ℕ} (h : max ≤ propMax) : propOffset max ≤ sizeBody := by
  rw [propMax] at h
  rw [propOffset, sizeBody]
  omega

/-- **A message fits into `struct vtuner_message`**, in both directions, and its type stands
for the request. -/
theorem vtunercPrepare_message {uapi : Uapi} {order : ByteOrder} {request : Request}
    {arg : Arg} {own : Option Bytes} {body prepared : Bytes} {mtype : MsgType}
    {rxSize txSize : ℕ}
    (h : vtunercPrepare uapi order request arg own body =
      .message mtype rxSize txSize prepared) :
    mtype.request = some request ∧ rxSize ≤ sizeBody ∧ txSize ≤ sizeBody := by
  rw [vtunercPrepare] at h
  split at h
  · rename_i command hcommand
    obtain ⟨rfl, rfl, rfl⟩ := Command.prepare_message h
    exact Request.command_fits hcommand
  · rename_i hnone
    simp only [prepareProperties] at h
    split at h
    · cases h
    · rename_i hmax
      have hfits := propOffset_le (not_lt.mp hmax)
      rcases Request.command_eq_none hnone with rfl | rfl
      · cases h
        exact ⟨rfl, hfits, Nat.zero_le _⟩
      · cases h
        exact ⟨rfl, hfits, hfits⟩

end Webcamd.Vtuner
