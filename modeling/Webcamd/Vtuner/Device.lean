import Webcamd.Vtuner.Client

/-!
# The device behind the server

The branches of `vtuners_process_msg` of `vtuner/vtuner_server.c` hand an argument to
`linux_ioctl`, made up from the message, and put what the driver leaves in it back into the
message.

The driver is not part of the repository.  It is a parameter, and all that is known of it
is which parts of an argument a request reads and which it writes.  For the union of a
property this depends on the command, and is part of the parameter.

* `Kernel.call` — a request as the driver sees it: nothing of the argument that the
  request does not read, and no reserved word.
* `linuxIoctl` — a request on the device.  The device keeps a list of the calls.
* `Request.service` — what the branches of the `switch` do, as a table.
* `vtunersDriver` — the branches, as the server's control thread uses them.

The flags of the open file are not modelled; the server always passes
`CUSE_FFLAG_NONBLOCK`.
-/

namespace Webcamd.Vtuner

/-! ### The requests of the DVB interface -/

/-- The fields that a request reads. -/
def Request.reads : Request → List Field
  | .dmxSetFilter => [.sctPid, .sctFilter, .sctTimeout, .sctFlags]
  | .dmxSetPesFilter => [.pesPid, .pesInput, .pesOutput, .pesType, .pesFlags]
  | .dmxGetStc => stcFields
  | .dmxAddPid | .dmxRemovePid => [.value16]
  | .feDiseqcSendMasterCmd => [.masterMsg, .masterMsgLen]
  | .feDiseqcRecvSlaveReply => [.slaveTimeout]
  | .feSetFrontend => parameterFields
  | _ => []

/-- The fields that a request writes. -/
def Request.writes : Request → List Field
  | .dmxGetPesPids => [.pids]
  | .dmxGetStc => stcFields
  | .feGetInfo => infoFields
  | .feDiseqcRecvSlaveReply => [.slaveMsg, .slaveMsgLen]
  | .feReadStatus | .feReadBer | .feReadUncorrectedBlocks => [.value32]
  | .feReadSignalStrength | .feReadSnr => [.value16]
  | .feGetFrontend => parameterFields
  | .feGetEvent => eventFields
  | _ => []

/-- The argument is a number, not a pointer. -/
def Request.isImmediate : Request → Bool
  | .dmxSetBufferSize | .feDiseqcSendBurst | .feSetTone | .feSetVoltage
  | .feEnableHighLnbVoltage | .feSetFrontendTuneMode | .feDishnetworkSendLegacyCmd => true
  | _ => false

/-- The argument is a property list. -/
def Request.hasProps : Request → Bool
  | .feSetProperty | .feGetProperty => true
  | _ => false

/-! ### The driver -/

/-- The command and the union `u` of a property. -/
structure PropertyValue where
  cmd : BitVec 32
  /-- `u.buffer.data` -/
  bufferData : Fin 32 → BitVec 8
  /-- `u.buffer.len` -/
  bufferLen : BitVec 32
  /-- `u.buffer.reserved1` and `u.buffer.reserved2`, which other members of the union
  overlap -/
  bufferReserved : Fin 20 → BitVec 8

/-- What is not reserved in a property, without its result. -/
def LinuxProperty.value (prop : LinuxProperty) : PropertyValue where
  cmd := prop.cmd
  bufferData := prop.bufferData
  bufferLen := prop.bufferLen
  bufferReserved := prop.bufferReserved

/-- A property of which the driver uses the command alone. -/
def PropertyValue.named (cmd : BitVec 32) : PropertyValue := ⟨cmd, fun _ => 0, 0, fun _ => 0⟩

/-- A driver has filled in a property.  It may leave `result` as it was. -/
def LinuxProperty.answered (prop : LinuxProperty) (value : PropertyValue)
    (result : Option (BitVec 32)) : LinuxProperty where
  cmd := value.cmd
  reserved := prop.reserved
  bufferData := value.bufferData
  bufferLen := value.bufferLen
  bufferReserved := value.bufferReserved
  result := result.getD prop.result

/-- A request as the driver sees it. -/
structure Call where
  request : Request
  /-- the number, zero if the argument is a pointer -/
  value : BitVec 64
  /-- the values of the fields that are read, zero elsewhere -/
  fields : Fields
  props : List PropertyValue

/-- What the driver does.  After a request that has failed, the fields are whatever is in
the argument. -/
structure Answer where
  ret : ℤ
  fields : Fields
  props : ℕ → PropertyValue
  results : ℕ → Option (BitVec 32)

/-- A driver with states `K`. -/
structure Kernel (K : Type) where
  /-- The driver reads the union of a property with this command, or leaves some of it as it
  is. -/
  usesUnion : Request → BitVec 32 → Bool
  perform : Call → K → K × Answer

/-- The device of a driver, with the calls that were made. -/
structure Device (K : Type) where
  state : K
  calls : List Call

/-- The bytes of these fields, and nothing else. -/
def Fields.only (values : Fields) (fields : List Field) : Fields := fun field k =>
  if field ∈ fields ∧ k < field.size then values field k else 0

variable {K : Type}

/-- What the driver sees of a property. -/
def Kernel.sees (kernel : Kernel K) (request : Request) (prop : LinuxProperty) :
    PropertyValue :=
  if kernel.usesUnion request prop.cmd then prop.value else .named prop.cmd

/-- What the driver sees of an argument. -/
def Kernel.call (kernel : Kernel K) (request : Request) (arg : Arg) : Call where
  request := request
  value := if request.isImmediate then arg.value else 0
  fields := arg.fields.only request.reads
  props := if request.hasProps then
    (List.range arg.num.toNat).map fun i => kernel.sees request (arg.props i) else []

/-- What the driver leaves in an argument. -/
def Request.fill (request : Request) (arg : Arg) (answer : Answer) : Arg where
  value := arg.value
  fields := arg.fields.copy request.writes answer.fields
  num := arg.num
  props := fun i =>
    if request = .feGetProperty ∧ i < arg.num.toNat then
      (arg.props i).answered (answer.props i) (answer.results i)
    else arg.props i

/-- `linux_ioctl`: its value, the device, and the argument afterwards. -/
def linuxIoctl (kernel : Kernel K) (request : Request) (arg : Arg) (device : Device K) :
    ℤ × Device K × Arg :=
  let call := kernel.call request arg
  let (state, answer) := kernel.perform call device.state
  (answer.ret, ⟨state, device.calls ++ [call]⟩, request.fill arg answer)

/-! ### The branches of the `switch` -/

/-- A branch of `vtuners_process_msg`, by the argument of its `linux_ioctl`. -/
inductive Service where
  /-- `NULL` -/
  | plain
  /-- `(void *)(long)msg->body.value32` -/
  | immediate
  /-- a pointer into `msg->body` -/
  | inBody
  /-- a pointer into `ctx->dvb`, with `VTUNER_MEMSET` of the member and `VTUNER_MEMCPY` of
  the fields before the request -/
  | set (member : Member) (inputs : List Field)
  /-- the same, and `VTUNER_MEMCPY` of fields into the message after it -/
  | exchange (member : Member) (inputs outputs : List Field)
  /-- a pointer into `ctx->dvb` as it is, with `VTUNER_MEMSET` of the member of the message
  and `VTUNER_MEMCPY` of the fields after the request -/
  | get (member : Member) (outputs : List Field)

/-- The branches, without the one of the property lists. -/
def Request.service : Request → Option Service
  | .dmxStart => some .plain
  | .dmxStop => some .plain
  | .dmxSetFilter => some (.set .dmxSctFilterParams
      [.sctPid, .sctFilter, .sctTimeout, .sctFlags])
  | .dmxSetPesFilter => some (.set .dmxPesFilterParams
      [.pesPid, .pesInput, .pesOutput, .pesType, .pesFlags])
  | .dmxSetBufferSize => some .immediate
  | .dmxGetPesPids => some .inBody
  | .dmxGetStc => some (.exchange .dmxStc stcFields stcFields)
  | .dmxAddPid => some .inBody
  | .dmxRemovePid => some .inBody
  | .feSetProperty | .feGetProperty => none
  | .feGetInfo => some (.get .dvbFrontendInfo infoFields)
  | .feDiseqcResetOverload => some .plain
  | .feDiseqcSendMasterCmd => some (.set .dvbDiseqcMasterCmd [.masterMsg, .masterMsgLen])
  | .feDiseqcRecvSlaveReply => some (.exchange .dvbDiseqcSlaveReply [.slaveTimeout]
      [.slaveMsg, .slaveMsgLen])
  | .feDiseqcSendBurst => some .immediate
  | .feSetTone => some .immediate
  | .feSetVoltage => some .immediate
  | .feEnableHighLnbVoltage => some .immediate
  | .feReadStatus => some .inBody
  | .feReadBer => some .inBody
  | .feReadSignalStrength => some .inBody
  | .feReadSnr => some .inBody
  | .feReadUncorrectedBlocks => some .inBody
  | .feSetFrontend => some (.set .dvbFrontendParameters parameterFields)
  | .feGetFrontend => some (.get .dvbFrontendParameters parameterFields)
  | .feSetFrontendTuneMode => some .immediate
  | .feGetEvent => some (.get .dvbFrontendEvent eventFields)
  | .feDishnetworkSendLegacyCmd => some .immediate

/-- The server's device, and the structures of `ctx->dvb`.  They overlap there; but a field
that is read has been written in the same branch, by the branch or by the driver. -/
structure Host (K : Type) where
  device : Device K
  dvb : Fields

/-- A property that is not there. -/
def noProperty : LinuxProperty where
  cmd := 0
  reserved := fun _ => 0
  bufferData := fun _ => 0
  bufferLen := 0
  result := 0
  bufferReserved := fun _ => 0

/-- An argument that is a number. -/
def Arg.number (value : BitVec 64) : Arg := ⟨value, fun _ _ => 0, 0, fun _ => noProperty⟩

/-- An argument that points to a structure. -/
def Arg.pointer (fields : Fields) : Arg := ⟨0, fields, 0, fun _ => noProperty⟩

/-- The argument that a branch hands to `linux_ioctl`. -/
def Service.argument (order : ByteOrder) (dvb : Fields) (body : Bytes) : Service → Arg
  | .plain => .number 0
  | .immediate => .number ((body.load32 order 0).setWidth 64)
  | .inBody => .pointer body.getFields
  | .set member inputs => .pointer ((dvb.clear member).copy inputs body.getFields)
  | .exchange member inputs _ => .pointer ((dvb.clear member).copy inputs body.getFields)
  | .get _ _ => .pointer dvb

/-- The message after the request, which has left these fields. -/
def Service.reply (request : Request) (fields : Fields) (body : Bytes) : Service → Bytes
  | .plain | .immediate | .set _ _ => body
  | .inBody => body.putFields request.writes fields
  | .exchange _ _ outputs => body.putFields outputs fields
  | .get member outputs => (body.clear member.size).putFields outputs fields

/-- `ctx->dvb` after the request. -/
def Service.context (dvb fields : Fields) : Service → Fields
  | .plain | .immediate | .inBody => dvb
  | .set _ _ | .exchange _ _ _ | .get _ _ => fields

/-- A branch as a whole. -/
def Service.perform (order : ByteOrder) (kernel : Kernel K) (request : Request)
    (service : Service) (host : Host K) (body : Bytes) : ℤ × Host K × Bytes :=
  let (ret, device, after) :=
    linuxIoctl kernel request (service.argument order host.dvb body) host.device
  (ret, ⟨device, service.context host.dvb after.fields⟩,
    service.reply request after.fields body)

/-- The property list of the context.  What the union has beyond the message's one is
zero. -/
def Arg.properties (num : BitVec 32) (props : Fin propMax → DtvProperty) : Arg where
  value := 0
  fields := fun _ _ => 0
  num := num
  props := fun i =>
    if h : i < propMax then ⟨props ⟨i, h⟩, fun _ => 0⟩ else noProperty

/-- The branches, for the control thread. -/
def vtunersDriver (order : ByteOrder) (kernel : Kernel K) : Driver (Host K) where
  property := fun request num host props =>
    let (ret, device, after) :=
      linuxIoctl kernel request (Arg.properties num props) host.device
    (ret, { host with device := device }, fun i => (after.props i).toDtvProperty)
  other := fun request host body =>
    match request.service with
    | some service => service.perform order kernel request host body
    | none => (-1, host, body)

/-! ### What a call depends on -/

section

variable {kernel : Kernel K} {request : Request} {arg another : Arg} {device : Device K}

/-- What the driver does depends on the call. -/
theorem linuxIoctl_of_call_eq (h : kernel.call request arg = kernel.call request another) :
    (linuxIoctl kernel request arg device).1 = (linuxIoctl kernel request another device).1 ∧
      (linuxIoctl kernel request arg device).2.1 =
        (linuxIoctl kernel request another device).2.1 := by
  simp only [linuxIoctl, h, and_self]

/-- The list of the calls tells the last of them. -/
theorem call_eq_of_device_eq
    (h : (linuxIoctl kernel request arg device).2.1 =
      (linuxIoctl kernel request another device).2.1) :
    kernel.call request arg = kernel.call request another := by
  have hcalls := congrArg Device.calls h
  simpa only [linuxIoctl, List.append_cancel_left_eq, List.cons.injEq, and_true] using hcalls

/-- Arguments that agree in what the request reads. -/
theorem Kernel.call_congr (hvalue : request.isImmediate = true → arg.value = another.value)
    (hfields : ∀ field ∈ request.reads, ∀ k < field.size,
      arg.fields field k = another.fields field k)
    (hprops : request.hasProps = false) :
    kernel.call request arg = kernel.call request another := by
  have honly : arg.fields.only request.reads = another.fields.only request.reads := by
    funext field k
    simp only [Fields.only]
    split
    · rename_i hin
      exact hfields field hin.1 k hin.2
    · rfl
  have hnumber : (if request.isImmediate then arg.value else 0) =
      if request.isImmediate then another.value else 0 := by
    split
    · rename_i himmediate
      exact hvalue himmediate
    · rfl
  simp only [Kernel.call, honly, hnumber, hprops, Bool.false_eq_true, if_false]

/-- … and only they are the same call. -/
theorem Kernel.fields_eq_of_call_eq (h : kernel.call request arg = kernel.call request another)
    {field : Field} (hfield : field ∈ request.reads) {k : ℕ} (hk : k < field.size) :
    arg.fields field k = another.fields field k := by
  have hfields := congrFun (congrFun (congrArg Call.fields h) field) k
  simpa only [Kernel.call, Fields.only, hfield, hk, and_self, if_true] using hfields

end

end Webcamd.Vtuner
