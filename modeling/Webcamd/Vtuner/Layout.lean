import Webcamd.Vtuner.Buffer

/-!
# The layout of the messages

The body of a message is a union (`vtuner/vtuner.h`).  Its members are structures with the
fields of the arguments of the `ioctl` requests, made up of the platform independent types
`v8`, `v16`, `v32` and `v64`, which are aligned to their size.  The same fields are in the
structures of the DVB interface, in another layout: the code copies them one by one.

* `Field` — the fields, with their place in the body.  The fields of one member do not
  overlap (`Field.disjoint`) and are inside of it (`Field.end_le`).
* `Bytes.putFields`, `Bytes.getFields` — the fields of a structure are copied into the
  body, or out of it.  What is put there is found again (`getFields_putFields`).
* `Hdr.toBytes` — the sixteen bytes of a header.

A structure of the DVB interface is the values of its fields (`Fields`); its layout does
not matter.
-/

namespace Webcamd.Vtuner

/-! ### The members of the body -/

/-- The members of the union `body`, without the property list. -/
inductive Member where
  | value32 | value16
  | dmxSctFilterParams | dmxPesFilterParams | dmxPesPid | dmxStc
  | dvbFrontendInfo | dvbDiseqcMasterCmd | dvbDiseqcSlaveReply
  | dvbFrontendParameters | dvbFrontendEvent
  deriving DecidableEq

/-- `sizeof` -/
def Member.size : Member → ℕ
  | .value32 => 4
  | .value16 => 2
  | .dmxSctFilterParams => 60
  | .dmxPesFilterParams => 20
  | .dmxPesPid => 10
  | .dmxStc => 16
  | .dvbFrontendInfo => 168
  | .dvbDiseqcMasterCmd => 7
  | .dvbDiseqcSlaveReply => 12
  | .dvbFrontendParameters => 36
  | .dvbFrontendEvent => 40

/-- The fields of `struct vtuner_dvb_frontend_parameters`, of whose union the code uses the
longest member, `ofdm`. -/
inductive Parameter where
  | frequency | inversion
  | bandwidth | codeRateHP | codeRateLP | constellation | transmissionMode | guardInterval
  | hierarchyInformation
  deriving DecidableEq

/-- The fields of the members. -/
inductive Field where
  | value32 | value16
  | sctPid | sctFilter | sctTimeout | sctFlags
  | pesPid | pesInput | pesOutput | pesType | pesFlags
  | pids
  | stcNum | stcBase | stcStc
  | infoName | infoType | infoFrequencyMin | infoFrequencyMax | infoFrequencyStepsize
  | infoFrequencyTolerance | infoSymbolRateMin | infoSymbolRateMax | infoSymbolRateTolerance
  | infoNotifierDelay | infoCaps
  | masterMsg | masterMsgLen
  | slaveMsg | slaveMsgLen | slaveTimeout
  | parameter (name : Parameter)
  | eventStatus | eventParameter (name : Parameter)
  deriving DecidableEq

/-- A field is an array of `count` elements of `width` bytes. -/
structure Place where
  offset : ℕ
  width : ℕ
  count : ℕ

/-- The places in `struct vtuner_dvb_frontend_parameters`. -/
def Parameter.offset : Parameter → ℕ
  | .frequency => 0
  | .inversion => 4
  | .bandwidth => 8
  | .codeRateHP => 12
  | .codeRateLP => 16
  | .constellation => 20
  | .transmissionMode => 24
  | .guardInterval => 28
  | .hierarchyInformation => 32

/-- Where a field is in the body. -/
def Field.place : Field → Place
  | .value32 => ⟨0, 4, 1⟩
  | .value16 => ⟨0, 2, 1⟩
  | .sctPid => ⟨0, 2, 1⟩
  | .sctFilter => ⟨2, 1, 48⟩
  | .sctTimeout => ⟨52, 4, 1⟩
  | .sctFlags => ⟨56, 4, 1⟩
  | .pesPid => ⟨0, 2, 1⟩
  | .pesInput => ⟨4, 4, 1⟩
  | .pesOutput => ⟨8, 4, 1⟩
  | .pesType => ⟨12, 4, 1⟩
  | .pesFlags => ⟨16, 4, 1⟩
  | .pids => ⟨0, 2, 5⟩
  | .stcNum => ⟨0, 4, 1⟩
  | .stcBase => ⟨4, 4, 1⟩
  | .stcStc => ⟨8, 8, 1⟩
  | .infoName => ⟨0, 1, 128⟩
  | .infoType => ⟨128, 4, 1⟩
  | .infoFrequencyMin => ⟨132, 4, 1⟩
  | .infoFrequencyMax => ⟨136, 4, 1⟩
  | .infoFrequencyStepsize => ⟨140, 4, 1⟩
  | .infoFrequencyTolerance => ⟨144, 4, 1⟩
  | .infoSymbolRateMin => ⟨148, 4, 1⟩
  | .infoSymbolRateMax => ⟨152, 4, 1⟩
  | .infoSymbolRateTolerance => ⟨156, 4, 1⟩
  | .infoNotifierDelay => ⟨160, 4, 1⟩
  | .infoCaps => ⟨164, 4, 1⟩
  | .masterMsg => ⟨0, 1, 6⟩
  | .masterMsgLen => ⟨6, 1, 1⟩
  | .slaveMsg => ⟨0, 1, 4⟩
  | .slaveMsgLen => ⟨4, 1, 1⟩
  | .slaveTimeout => ⟨8, 4, 1⟩
  | .parameter name => ⟨name.offset, 4, 1⟩
  | .eventStatus => ⟨0, 4, 1⟩
  | .eventParameter name => ⟨4 + name.offset, 4, 1⟩

/-- The member a field belongs to. -/
def Field.member : Field → Member
  | .value32 => .value32
  | .value16 => .value16
  | .sctPid | .sctFilter | .sctTimeout | .sctFlags => .dmxSctFilterParams
  | .pesPid | .pesInput | .pesOutput | .pesType | .pesFlags => .dmxPesFilterParams
  | .pids => .dmxPesPid
  | .stcNum | .stcBase | .stcStc => .dmxStc
  | .infoName | .infoType | .infoFrequencyMin | .infoFrequencyMax | .infoFrequencyStepsize
  | .infoFrequencyTolerance | .infoSymbolRateMin | .infoSymbolRateMax
  | .infoSymbolRateTolerance | .infoNotifierDelay | .infoCaps => .dvbFrontendInfo
  | .masterMsg | .masterMsgLen => .dvbDiseqcMasterCmd
  | .slaveMsg | .slaveMsgLen | .slaveTimeout => .dvbDiseqcSlaveReply
  | .parameter _ => .dvbFrontendParameters
  | .eventStatus | .eventParameter _ => .dvbFrontendEvent

namespace Field

def offset (field : Field) : ℕ := field.place.offset

/-- `sizeof` -/
def size (field : Field) : ℕ := field.place.width * field.place.count

/-- A field is inside its member. -/
theorem end_le (field : Field) : field.offset + field.size ≤ field.member.size := by
  cases field with
  | parameter name => cases name <;> decide
  | eventParameter name => cases name <;> decide
  | _ => decide

end Field

def Parameter.all : List Parameter :=
  [.frequency, .inversion, .bandwidth, .codeRateHP, .codeRateLP, .constellation,
    .transmissionMode, .guardInterval, .hierarchyInformation]

/-- The fields outside the parameters of the frontend. -/
def Field.plain : List Field :=
  [.value32, .value16, .sctPid, .sctFilter, .sctTimeout, .sctFlags, .pesPid, .pesInput,
    .pesOutput, .pesType, .pesFlags, .pids, .stcNum, .stcBase, .stcStc, .infoName, .infoType,
    .infoFrequencyMin, .infoFrequencyMax, .infoFrequencyStepsize, .infoFrequencyTolerance,
    .infoSymbolRateMin, .infoSymbolRateMax, .infoSymbolRateTolerance, .infoNotifierDelay,
    .infoCaps, .masterMsg, .masterMsgLen, .slaveMsg, .slaveMsgLen, .slaveTimeout,
    .eventStatus]

def Field.all : List Field :=
  Field.plain ++ Parameter.all.map .parameter ++ Parameter.all.map .eventParameter

theorem Field.mem_all (field : Field) : field ∈ Field.all := by
  cases field with
  | parameter name => cases name <;> decide
  | eventParameter name => cases name <;> decide
  | _ => decide

/-- Two fields of one member do not overlap. -/
theorem Field.disjoint {field another : Field} (hne : field ≠ another)
    (hmember : field.member = another.member) :
    field.offset + field.size ≤ another.offset ∨
      another.offset + another.size ≤ field.offset := by
  have hall : ∀ field ∈ Field.all, ∀ another ∈ Field.all, field ≠ another →
      field.member = another.member →
      field.offset + field.size ≤ another.offset ∨
        another.offset + another.size ≤ field.offset := by
    decide +kernel
  exact hall field field.mem_all another another.mem_all hne hmember

/-! ### Copying fields -/

/-- The values of the fields of a structure, byte by byte. -/
abbrev Fields := Field → Bytes

/-- The values that the fields have in the body. -/
def Bytes.getFields (body : Bytes) : Fields := fun field k => body (field.offset + k)

/-- Copy one field into the body. -/
def Bytes.putField (values : Fields) (body : Bytes) (field : Field) : Bytes :=
  body.overlay field.offset field.size (values field)

/-- Copy these fields into the body, one after the other. -/
def Bytes.putFields (body : Bytes) (fields : List Field) (values : Fields) : Bytes :=
  fields.foldl (Bytes.putField values) body

/-- `memset` of the first bytes to zero. -/
def Bytes.clear (body : Bytes) (length : ℕ) : Bytes :=
  body.overlay 0 length fun _ => 0

/-- Copy these fields from one structure to another. -/
def Fields.copy (target : Fields) (fields : List Field) (source : Fields) : Fields :=
  fun field => if field ∈ fields then source field else target field

/-- `memset` of a structure to zero. -/
def Fields.clear (target : Fields) (member : Member) : Fields :=
  fun field => if field.member = member then fun _ => 0 else target field

section

variable {body : Bytes} {values : Fields} {field : Field} {fields : List Field} {k : ℕ}

theorem Bytes.putField_of_disjoint
    (h : k < field.offset ∨ field.offset + field.size ≤ k) :
    Bytes.putField values body field k = body k :=
  Bytes.overlay_of_disjoint body (values field) h

/-- Bytes outside the fields are not touched. -/
theorem Bytes.putFields_of_disjoint
    (h : ∀ field ∈ fields, k < field.offset ∨ field.offset + field.size ≤ k) :
    body.putFields fields values k = body k := by
  induction fields generalizing body with
  | nil => rfl
  | cons first others ih =>
      rw [Bytes.putFields, List.foldl_cons]
      refine (ih fun field hmem => h field (List.mem_cons_of_mem _ hmem)).trans ?_
      exact Bytes.putField_of_disjoint (h first List.mem_cons_self)

/-- **What is put into the body is found there**, if the fields are those of one
member. -/
theorem Bytes.getFields_putFields {member : Member} (hnodup : fields.Nodup)
    (hmember : ∀ field ∈ fields, field.member = member) (hfield : field ∈ fields)
    (hk : k < field.size) :
    (body.putFields fields values).getFields field k = values field k := by
  induction fields generalizing body with
  | nil => cases hfield
  | cons first others ih =>
      obtain ⟨hnotmem, hothers⟩ := List.nodup_cons.mp hnodup
      rcases List.mem_cons.mp hfield with rfl | hfield
      · -- the fields that follow do not touch it
        have hafter : ∀ another ∈ others, field.offset + k < another.offset ∨
            another.offset + another.size ≤ field.offset + k := by
          intro another hanother
          have hne : field ≠ another := fun heq => hnotmem (heq ▸ hanother)
          have hsame : field.member = another.member :=
            (hmember field List.mem_cons_self).trans
              (hmember another (List.mem_cons_of_mem _ hanother)).symm
          have hdisjoint := Field.disjoint hne hsame
          omega
        rw [Bytes.getFields, Bytes.putFields, List.foldl_cons]
        refine (Bytes.putFields_of_disjoint hafter).trans ?_
        exact Bytes.overlay_of_lt body (values field) hk
      · exact ih hothers (fun another hanother =>
          hmember another (List.mem_cons_of_mem _ hanother)) hfield

end

/-! ### The header -/

/-- Write sixteen bits. -/
def Bytes.store16 (order : ByteOrder) (bytes : Bytes) (offset : ℕ) (value : BitVec 16) :
    Bytes := fun k =>
  if offset ≤ k ∧ k < offset + 2 then
    match order with
    | .little => value.extractLsb' (8 * (k - offset)) 8
    | .big => value.extractLsb' (8 * (1 - (k - offset))) 8
  else bytes k

/-- The bytes of a header, on a machine of this byte order. -/
def Hdr.toBytes (order : ByteOrder) (hdr : Hdr) : Bytes :=
  let words := (Bytes.store32 order (fun _ => 0) 0 hdr.magic).store32 order 4 hdr.mtype
  (((words.store16 order 8 hdr.rxSize).store16 order 10 hdr.txSize).store16 order 12
    hdr.error).store16 order 14 hdr.padding

section

variable {bytes other : Bytes} {order another : ByteOrder} {start t : ℕ}

theorem Bytes.store16_of_disjoint (value : BitVec 16) {k : ℕ}
    (h : k < start ∨ start + 2 ≤ k) : bytes.store16 order start value k = bytes k := by
  have hout : ¬ (start ≤ k ∧ k < start + 2) := by omega
  simp [Bytes.store16, hout]

theorem Bytes.load16_congr (h : ∀ k < 2, bytes (start + k) = other (start + k)) :
    bytes.load16 order start = other.load16 order start := by
  have h0 := h 0 (by omega)
  have h1 := h 1 (by omega)
  rw [Nat.add_zero] at h0
  simp only [Bytes.load16, h0, h1]

theorem Bytes.load16_store16_of_disjoint (value : BitVec 16)
    (h : t + 2 ≤ start ∨ start + 2 ≤ t) :
    (bytes.store16 another start value).load16 order t = bytes.load16 order t :=
  Bytes.load16_congr fun _ hk => Bytes.store16_of_disjoint value (by omega)

theorem Bytes.load32_store16_of_disjoint (value : BitVec 16)
    (h : t + 4 ≤ start ∨ start + 2 ≤ t) :
    (bytes.store16 another start value).load32 order t = bytes.load32 order t :=
  Bytes.load32_congr fun _ hk => Bytes.store16_of_disjoint value (by omega)

@[simp] theorem Bytes.load16_store16 (value : BitVec 16) :
    (bytes.store16 order start value).load16 order start = value := by
  cases order <;> simp [Bytes.load16, Bytes.store16, extract16_append]

/-- A header is read as it was written. -/
theorem Hdr.ofBytes_toBytes (order : ByteOrder) (hdr : Hdr) :
    Hdr.ofBytes order (hdr.toBytes order) = hdr := by
  obtain ⟨magic, mtype, rxSize, txSize, error, padding⟩ := hdr
  simp (disch := omega) only [Hdr.ofBytes, Hdr.toBytes, Bytes.load32_store16_of_disjoint,
    Bytes.load16_store16_of_disjoint, Bytes.load32_store32_of_disjoint, Bytes.load32_store32,
    Bytes.load16_store16]

/-- A header is its sixteen bytes. -/
theorem Hdr.ofBytes_congr (h : ∀ k < 16, bytes k = other k) :
    Hdr.ofBytes order bytes = Hdr.ofBytes order other := by
  have h32 : ∀ start, start + 4 ≤ 16 → bytes.load32 order start = other.load32 order start :=
    fun start hle => Bytes.load32_congr fun k hk => h (start + k) (by omega)
  have h16 : ∀ start, start + 2 ≤ 16 → bytes.load16 order start = other.load16 order start :=
    fun start hle => Bytes.load16_congr fun k hk => h (start + k) (by omega)
  simp only [Hdr.ofBytes, h32 0 (by omega), h32 4 (by omega), h16 8 (by omega),
    h16 10 (by omega), h16 12 (by omega), h16 14 (by omega)]

/-- A machine of the other byte order reads a header with every word reversed. -/
theorem Hdr.ofBytes_other (order : ByteOrder) (bytes : Bytes) :
    Hdr.ofBytes order.other bytes = vtunerHdrByteswap (Hdr.ofBytes order bytes) := by
  simp only [Hdr.ofBytes, vtunerHdrByteswap, Bytes.load32_other, Bytes.load16_other]

end

/-! ### The message types -/

/-- The value of the enumeration. -/
def MsgType.code : MsgType → BitVec 32
  | .undefined => 0
  | .dmxStart => 16
  | .dmxStop => 17
  | .dmxSetFilter => 18
  | .dmxSetPesFilter => 19
  | .dmxSetBufferSize => 20
  | .dmxGetPesPids => 21
  | .dmxGetCaps => 22
  | .dmxSetSource => 23
  | .dmxGetStc => 24
  | .dmxAddPid => 25
  | .dmxRemovePid => 26
  | .feSetProperty => 32
  | .feGetProperty => 33
  | .feGetInfo => 34
  | .feDiseqcResetOverload => 35
  | .feDiseqcSendMasterCmd => 36
  | .feDiseqcRecvSlaveReply => 37
  | .feDiseqcSendBurst => 38
  | .feSetTone => 39
  | .feSetVoltage => 40
  | .feEnableHighLnbVoltage => 41
  | .feReadStatus => 42
  | .feReadBer => 43
  | .feReadSignalStrength => 44
  | .feReadSnr => 45
  | .feReadUncorrectedBlocks => 46
  | .feSetFrontend => 47
  | .feGetFrontend => 48
  | .feSetFrontendTuneMode => 49
  | .feGetEvent => 50
  | .feDishnetworkSendLegacyCmd => 51

theorem MsgType.decode_code (type : MsgType) : MsgType.decode type.code = some type := by
  cases type <;> decide

end Webcamd.Vtuner
