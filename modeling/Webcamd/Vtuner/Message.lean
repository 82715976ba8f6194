import Mathlib
import Webcamd.Library.SmallIndex

/-!
# Messages of the vTuner protocol

The control channel of a virtual tuner carries one structure in both directions,
`struct vtuner_message` of `vtuner/vtuner.h`: a header of sixteen bytes and a body, which
is a union of the arguments of all requests.  Each side sends it in its own byte order;
the receiver tells from the magic number whether it has to swap
(`vtuner/vtuner_common.c`).

The body is modelled as its bytes, since the union is read under several types and since
a short message leaves the bytes of the one before it in place.  Fields are offsets into
it.  The header is always received whole, so it is a record.

The numbers of the `ioctl` requests and of two property commands come from the headers of
Linux's DVB interface, which are not part of the repository; they are parameters
(`Uapi`).
-/

namespace Webcamd.Vtuner

/-- `VTUNER_MAGIC` -/
def magic : BitVec 32 := 0x5654554E

/-- `VTUNER_PROP_MAX` -/
def propMax : ℕ := 64

/-- `sizeof(struct vtuner_message.body)`: the longest member is the property list, and
the union is aligned to eight bytes. -/
def sizeBody : ℕ := 3592

/-- The message types of the protocol. -/
inductive MsgType where
  | undefined
  | dmxStart | dmxStop | dmxSetFilter | dmxSetPesFilter | dmxSetBufferSize | dmxGetPesPids
  | dmxGetCaps | dmxSetSource | dmxGetStc | dmxAddPid | dmxRemovePid
  | feSetProperty | feGetProperty | feGetInfo | feDiseqcResetOverload
  | feDiseqcSendMasterCmd | feDiseqcRecvSlaveReply | feDiseqcSendBurst | feSetTone
  | feSetVoltage | feEnableHighLnbVoltage | feReadStatus | feReadBer
  | feReadSignalStrength | feReadSnr | feReadUncorrectedBlocks | feSetFrontend
  | feGetFrontend | feSetFrontendTuneMode | feGetEvent | feDishnetworkSendLegacyCmd
  deriving DecidableEq

/-- The types in the order of the enumeration, with the value of the first of each
group. -/
def MsgType.groups : List (ℕ × List MsgType) :=
  [(0, [.undefined]),
    (16, [.dmxStart, .dmxStop, .dmxSetFilter, .dmxSetPesFilter, .dmxSetBufferSize,
      .dmxGetPesPids, .dmxGetCaps, .dmxSetSource, .dmxGetStc, .dmxAddPid, .dmxRemovePid]),
    (32, [.feSetProperty, .feGetProperty, .feGetInfo, .feDiseqcResetOverload,
      .feDiseqcSendMasterCmd, .feDiseqcRecvSlaveReply, .feDiseqcSendBurst, .feSetTone,
      .feSetVoltage, .feEnableHighLnbVoltage, .feReadStatus, .feReadBer,
      .feReadSignalStrength, .feReadSnr, .feReadUncorrectedBlocks, .feSetFrontend,
      .feGetFrontend, .feSetFrontendTuneMode, .feGetEvent, .feDishnetworkSendLegacyCmd])]

/-- The type a number stands for. -/
def MsgType.decode (mtype : BitVec 32) : Option MsgType :=
  MsgType.groups.findSome? fun group =>
    if group.1 ≤ mtype.toNat then group.2[mtype.toNat - group.1]? else none

/-- The `ioctl` requests of the DVB interface that the protocol carries. -/
inductive Request where
  | dmxStart | dmxStop | dmxSetFilter | dmxSetPesFilter | dmxSetBufferSize | dmxGetPesPids
  | dmxGetStc | dmxAddPid | dmxRemovePid
  | feSetProperty | feGetProperty | feGetInfo | feDiseqcResetOverload
  | feDiseqcSendMasterCmd | feDiseqcRecvSlaveReply | feDiseqcSendBurst | feSetTone
  | feSetVoltage | feEnableHighLnbVoltage | feReadStatus | feReadBer
  | feReadSignalStrength | feReadSnr | feReadUncorrectedBlocks | feSetFrontend
  | feGetFrontend | feSetFrontendTuneMode | feGetEvent | feDishnetworkSendLegacyCmd
  deriving DecidableEq

/-- The numbers the code takes from the DVB headers. -/
structure Uapi where
  /-- the request a number stands for, if any -/
  request : BitVec 32 → Option Request
  /-- `DTV_DISEQC_MASTER` -/
  dtvDiseqcMaster : BitVec 32
  /-- `DTV_DISEQC_SLAVE_REPLY` -/
  dtvDiseqcSlaveReply : BitVec 32

/-! ### Bytes -/

/-- The bytes of a message body. -/
abbrev Bytes := ℕ → BitVec 8

/-- The byte order of a machine. -/
inductive ByteOrder where
  | little
  | big
  deriving DecidableEq

/-- Read sixteen bits. -/
def Bytes.load16 (order : ByteOrder) (bytes : Bytes) (offset : ℕ) : BitVec 16 :=
  match order with
  | .little => bytes (offset + 1) ++ bytes offset
  | .big => bytes offset ++ bytes (offset + 1)

/-- Read thirty-two bits. -/
def Bytes.load32 (order : ByteOrder) (bytes : Bytes) (offset : ℕ) : BitVec 32 :=
  match order with
  | .little => bytes (offset + 3) ++ bytes (offset + 2) ++ bytes (offset + 1) ++ bytes offset
  | .big => bytes offset ++ bytes (offset + 1) ++ bytes (offset + 2) ++ bytes (offset + 3)

/-- Write thirty-two bits. -/
def Bytes.store32 (order : ByteOrder) (bytes : Bytes) (offset : ℕ) (value : BitVec 32) :
    Bytes := fun k =>
  if offset ≤ k ∧ k < offset + 4 then
    match order with
    | .little => value.extractLsb' (8 * (k - offset)) 8
    | .big => value.extractLsb' (8 * (3 - (k - offset))) 8
  else bytes k

/-- `bswap16`, `bswap32` or `bswap64` on the field of this width at the offset. -/
def Bytes.bswap (bytes : Bytes) (offset width : ℕ) : Bytes := fun k =>
  if offset ≤ k ∧ k < offset + width then bytes (offset + (width - 1 - (k - offset)))
  else bytes k

/-- `memcpy` of `length` bytes that start at `start`. -/
def Bytes.overlay (bytes : Bytes) (start length : ℕ) (source : Bytes) : Bytes := fun k =>
  if start ≤ k ∧ k < start + length then source (k - start) else bytes k

/-- `bswap16` -/
def bswap16 (value : BitVec 16) : BitVec 16 :=
  value.extractLsb' 0 8 ++ value.extractLsb' 8 8

/-- `bswap32` -/
def bswap32 (value : BitVec 32) : BitVec 32 :=
  value.extractLsb' 0 8 ++ value.extractLsb' 8 8 ++ value.extractLsb' 16 8 ++
    value.extractLsb' 24 8

/-! ### The header -/

/-- `struct vtuner_message.hdr` -/
structure Hdr where
  magic : BitVec 32
  mtype : BitVec 32
  rxSize : BitVec 16
  txSize : BitVec 16
  error : BitVec 16
  padding : BitVec 16
  deriving DecidableEq

/-- The header that sixteen bytes are, on a machine of this byte order. -/
def Hdr.ofBytes (order : ByteOrder) (bytes : Bytes) : Hdr where
  magic := bytes.load32 order 0
  mtype := bytes.load32 order 4
  rxSize := bytes.load16 order 8
  txSize := bytes.load16 order 10
  error := bytes.load16 order 12
  padding := bytes.load16 order 14

/-- `vtuner_hdr_byteswap` -/
def vtunerHdrByteswap (hdr : Hdr) : Hdr where
  mtype := bswap32 hdr.mtype
  magic := bswap32 hdr.magic
  rxSize := bswap16 hdr.rxSize
  txSize := bswap16 hdr.txSize
  error := bswap16 hdr.error
  padding := bswap16 hdr.padding

/-! ### Properties -/

/-- `struct vtuner_dtv_property`, and what the code uses of `struct dtv_property`.  The
member `u.data` of the union is the first four bytes of `u.buffer.data`. -/
structure DtvProperty where
  cmd : BitVec 32
  reserved : Fin 3 → BitVec 32
  /-- `u.buffer.data` -/
  bufferData : Fin 32 → BitVec 8
  /-- `u.buffer.len` -/
  bufferLen : BitVec 32
  result : BitVec 32

/-- Where a property is in the body. -/
def propOffset (i : ℕ) : ℕ := 4 + 56 * i

/-- `body.dtv_properties.num` -/
def Bytes.num (order : ByteOrder) (body : Bytes) : BitVec 32 := body.load32 order 0

/-- `body.dtv_properties.props[i]` -/
def Bytes.prop (order : ByteOrder) (body : Bytes) (i : ℕ) : DtvProperty where
  cmd := body.load32 order (propOffset i)
  reserved := fun j => body.load32 order (propOffset i + 4 + 4 * j)
  bufferData := fun k => body (propOffset i + 16 + k)
  bufferLen := body.load32 order (propOffset i + 48)
  result := body.load32 order (propOffset i + 52)

/-- Write `body.dtv_properties.props[i]`. -/
def Bytes.setProp (order : ByteOrder) (body : Bytes) (i : ℕ) (prop : DtvProperty) : Bytes :=
  let here := propOffset i
  let named := ((((body.store32 order here prop.cmd).store32 order (here + 4)
    (prop.reserved 0)).store32 order (here + 8) (prop.reserved 1)).store32 order (here + 12)
      (prop.reserved 2)).overlay (here + 16) 32 fun k =>
        if h : k < 32 then prop.bufferData ⟨k, h⟩ else 0
  (named.store32 order (here + 48) prop.bufferLen).store32 order (here + 52) prop.result

/-! ### Swapping the body -/

/-- The fields that `vtuner_body_byteswap` swaps, as offsets and widths.  The property
lists are not here. -/
def swapFields : Request → List (ℕ × ℕ)
  | .dmxSetFilter => [(0, 2), (52, 4), (56, 4)]
  | .dmxSetPesFilter => [(0, 2), (4, 4), (8, 4), (12, 4), (16, 4)]
  | .dmxGetPesPids => [(0, 2), (2, 2), (4, 2), (6, 2), (8, 2)]
  | .dmxGetStc => [(0, 4), (4, 4), (8, 8)]
  | .feGetInfo => [(128, 4), (132, 4), (136, 4), (140, 4), (144, 4), (148, 4), (152, 4),
      (156, 4), (160, 4), (164, 4)]
  | .feDiseqcRecvSlaveReply => [(8, 4)]
  | .feSetFrontend | .feGetFrontend => [(0, 4), (4, 4), (8, 4), (12, 4), (16, 4), (20, 4),
      (24, 4), (28, 4), (32, 4)]
  | .feGetEvent => [(0, 4), (4, 4), (8, 4), (12, 4), (16, 4), (20, 4), (24, 4), (28, 4),
      (32, 4), (36, 4)]
  | .dmxSetBufferSize | .feDiseqcSendBurst | .feSetTone | .feSetVoltage
  | .feEnableHighLnbVoltage | .feReadStatus | .feReadBer | .feReadUncorrectedBlocks
  | .feSetFrontendTuneMode | .feDishnetworkSendLegacyCmd => [(0, 4)]
  | .feReadSignalStrength | .dmxAddPid | .dmxRemovePid | .feReadSnr => [(0, 2)]
  | _ => []

/-- The command of a property has a buffer. -/
def Uapi.hasBuffer (uapi : Uapi) (cmd : BitVec 32) : Bool :=
  decide (cmd = uapi.dtvDiseqcMaster) || decide (cmd = uapi.dtvDiseqcSlaveReply)

/-- The loop body for `FE_SET_PROPERTY` and `FE_GET_PROPERTY`: whether the property has a
buffer is looked up before and after its command is swapped. -/
def swapProp (uapi : Uapi) (order : ByteOrder) (body : Bytes) (i : ℕ) : Bytes :=
  let here := propOffset i
  let swapped := body.bswap here 4
  let hasBuf := uapi.hasBuffer (body.load32 order here) ||
    uapi.hasBuffer (swapped.load32 order here)
  let rest := ((swapped.bswap (here + 4) 4).bswap (here + 8) 4).bswap (here + 12) 4
  if hasBuf then rest.bswap (here + 48) 4 else rest.bswap (here + 16) 4

/-- `vtuner_body_byteswap`.  Its `switch` is on the numbers of the `ioctl` requests. -/
def vtunerBodyByteswap (uapi : Uapi) (order : ByteOrder) (body : Bytes) (type : BitVec 32) :
    Bytes :=
  match uapi.request type with
  | none => body
  | some .feSetProperty | some .feGetProperty =>
      (List.range propMax).foldl (swapProp uapi order) (body.bswap 0 4)
  | some request => (swapFields request).foldl
      (fun bytes field => bytes.bswap field.1 field.2) body

end Webcamd.Vtuner
