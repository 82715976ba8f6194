import Webcamd.Vtuner.DoMessage

/-!
# Requests of the vTuner client that fail

The branches of `vtunerc_process_ioctl` copy the reply to the caller without a look at the result
of `vtunerc_do_message`.  When the exchange has failed, what they copy is what is in the message
buffer: the request, part of a reply, or the reply to an earlier request.

* `FailureLeavesAlone` — a call that returns a negative value has left the caller's memory alone,
  for one socket and one content of the buffer.
* `BufferAgrees` — what a request copies back is what the caller has already.
* `Request.copiesBack` — the request copies something to the caller after the message.
* `vtunerc_failure_iff` — a request with its argument **leaves the caller's memory alone after
  every failure** exactly if it copies nothing back.
-/

namespace Webcamd.Vtuner

open Control (messageBytes)

/-- The caller's memory is the same: the fields of the structure, the number of properties, and
the properties. -/
structure Arg.SameMemory (arg before : Arg) : Prop where
  fields : ∀ field : Field, ∀ k < field.size, arg.fields field k = before.fields field k
  num : arg.num = before.num
  props : arg.props = before.props

/-- What is copied to the caller, and what is cleared, is as it was. -/
def Output.Agrees (output : Output) (body : Bytes) (fields : Fields) : Prop :=
  match output with
  | .nothing => True
  | .copied copiedOut =>
      ∀ field ∈ copiedOut, ∀ k < field.size, body.getFields field k = fields field k
  | .cleared member copiedOut =>
      (∀ field ∈ copiedOut, ∀ k < field.size, body.getFields field k = fields field k) ∧
        ∀ field : Field, field.member = member → field ∉ copiedOut →
          ∀ k < field.size, fields field k = 0

/-- The buffer holds what the caller has, wherever the request copies it back. -/
def BufferAgrees (uapi : Uapi) (order : ByteOrder) (request : Request) (arg : Arg) (body : Bytes) :
    Prop :=
  match request.command with
  | some command => command.output.Agrees body arg.fields
  | none => request = .feSetProperty ∨
      ∀ i < arg.num.toNat, peerProperty uapi (body.prop order i) = arg.props i

/-- The request copies something back, with this argument: a property list may be empty, or
refused. -/
def Request.copiesBack (request : Request) (arg : Arg) : Bool :=
  match request.command with
  | some command =>
      match command.output with
      | .nothing => false
      | _ => true
  | none => request = .feGetProperty ∧ arg.num ≠ 0 ∧ arg.num.toNat ≤ propMax

variable {uapi : Uapi} {order : ByteOrder} {request : Request} {arg : Arg} {body : Bytes}

theorem Output.sameMemory_iff (output : Output) (fields : Fields) :
    (∀ field : Field, ∀ k < field.size, output.apply body fields field k = fields field k) ↔
      output.Agrees body fields := by
  cases output with
  | nothing => exact iff_of_true (fun _ _ _ => rfl) trivial
  | copied copiedOut =>
      constructor
      · intro hsame field hmem k hk
        have hfield := hsame field k hk
        unfold Output.apply Fields.copy at hfield
        dsimp only at hfield
        rwa [if_pos hmem] at hfield
      · intro hagrees field k hk
        unfold Output.apply Fields.copy
        dsimp only
        split
        · rename_i hmem
          exact hagrees field hmem k hk
        · rfl
  | cleared member copiedOut =>
      constructor
      · intro hsame
        refine ⟨fun field hmem k hk => ?_, fun field hmember hnot k hk => ?_⟩
        · have hfield := hsame field k hk
          unfold Output.apply Fields.copy at hfield
          dsimp only at hfield
          rwa [if_pos hmem] at hfield
        · have hfield := hsame field k hk
          unfold Output.apply Fields.copy Fields.clear at hfield
          dsimp only at hfield
          rw [if_neg hnot, if_pos hmember] at hfield
          exact hfield.symm
      · rintro ⟨hcopied, hcleared⟩ field k hk
        unfold Output.apply Fields.copy Fields.clear
        dsimp only
        split
        · rename_i hmem
          exact hcopied field hmem k hk
        · rename_i hnot
          split
          · rename_i hmember
            exact (hcleared field hmember hnot k hk).symm
          · rfl

/-- **What a branch does after the message** leaves the caller's memory alone exactly if the buffer
agrees. -/
theorem vtunercFinish_sameMemory_iff :
    (vtunercFinish uapi order request arg body).SameMemory arg ↔
      BufferAgrees uapi order request arg body := by
  unfold vtunercFinish BufferAgrees
  cases hcommand : request.command with
  | some command =>
      dsimp only
      rw [← Output.sameMemory_iff]
      exact ⟨fun hsame => hsame.fields, fun hfields => ⟨hfields, rfl, rfl⟩⟩
  | none =>
      dsimp only
      by_cases hset : request = .feSetProperty
      · rw [if_pos hset]
        exact iff_of_true ⟨fun _ _ _ => rfl, rfl, rfl⟩ (Or.inl hset)
      · rw [if_neg hset, or_iff_right hset]
        constructor
        · intro hsame i hi
          have hprop := congrFun hsame.props i
          dsimp only at hprop
          rwa [if_pos hi] at hprop
        · intro hagrees
          refine ⟨fun _ _ _ => rfl, rfl, ?_⟩
          funext i
          dsimp only
          split
          · rename_i hi
            exact hagrees i hi
          · rfl

/-- A call that returns: it exchanges a message, or refuses the argument before that. -/
theorem vtunercProcessIoctl_cases {S : Type} {exchange : S → Hdr → Bytes → S × Bytes × Option Hdr}
    {peer : S} {own : Option Bytes} {result : Ioctl S}
    (hresult : vtunercProcessIoctl uapi order exchange peer body request arg own = some result) :
    result.arg = arg ∨ ∃ mtype rxSize txSize prepared,
      vtunercPrepare uapi order request arg own body = .message mtype rxSize txSize prepared ∧
        result.arg = vtunercFinish uapi order request arg
          (exchange peer (vtunercHdr mtype rxSize txSize) prepared).2.1 := by
  unfold vtunercProcessIoctl at hresult
  split at hresult
  · cases hresult
  · obtain rfl := Option.some.inj hresult
    exact Or.inl rfl
  · rename_i mtype rxSize txSize prepared hprepare
    obtain rfl := Option.some.inj hresult
    exact Or.inr ⟨mtype, rxSize, txSize, prepared, hprepare, rfl⟩

/-! ### Requests that copy nothing back -/

/-- A property list that goes to the server is not too long. -/
theorem prepareProperties_message {isSet : Bool} {mtype : MsgType} {rxSize txSize : ℕ}
    {prepared : Bytes}
    (h : prepareProperties uapi order isSet arg body = .message mtype rxSize txSize prepared) :
    arg.num.toNat ≤ propMax := by
  unfold prepareProperties at h
  dsimp only at h
  split at h
  · cases h
  · rename_i hmax
    exact not_lt.mp hmax

/-- A request that copies nothing back agrees with every buffer. -/
theorem BufferAgrees.of_not_copiesBack (hnot : request.copiesBack arg = false)
    {own : Option Bytes} {mtype : MsgType} {rxSize txSize : ℕ} {prepared : Bytes}
    (hprepare : vtunercPrepare uapi order request arg own body =
      .message mtype rxSize txSize prepared) (received : Bytes) :
    BufferAgrees uapi order request arg received := by
  unfold Request.copiesBack at hnot
  unfold vtunercPrepare at hprepare
  unfold BufferAgrees
  split at hnot
  · rename_i command hcommand
    split at hnot
    · rename_i houtput
      rw [houtput]
      trivial
    · cases hnot
  · rename_i hcommand
    rw [hcommand] at hprepare
    have hmax := prepareProperties_message hprepare
    rcases Request.command_eq_none hcommand with rfl | rfl
    · exact Or.inl rfl
    · have hzero : arg.num = 0 := by
        by_contra hne
        rw [decide_eq_false_iff_not] at hnot
        exact hnot ⟨rfl, hne, hmax⟩
      rw [hzero]
      exact Or.inr fun i hi => absurd hi (Nat.not_lt_zero i)

/-! ### Requests that copy something back -/

/-- What a branch of the table copies back, it copies field by field out of the reply. -/
theorem Request.command_output {command : Command} (h : request.command = some command) :
    command.output = .nothing ∨ ∃ copiedOut : List Field, copiedOut ≠ [] ∧
      (∀ field ∈ copiedOut, field.member.size ≤ command.txSize) ∧
      (command.output = .copied copiedOut ∨
        ∃ member, command.output = .cleared member copiedOut) := by
  cases request with
  | feSetProperty | feGetProperty => cases h
  | dmxStart | dmxStop | dmxSetFilter | dmxSetPesFilter | dmxSetBufferSize | dmxAddPid
  | dmxRemovePid | feDiseqcResetOverload | feDiseqcSendMasterCmd | feDiseqcSendBurst | feSetTone
  | feSetVoltage | feEnableHighLnbVoltage | feSetFrontend | feSetFrontendTuneMode
  | feDishnetworkSendLegacyCmd =>
      cases h
      exact Or.inl rfl
  | dmxGetPesPids | dmxGetStc | feDiseqcRecvSlaveReply | feReadStatus | feReadBer
  | feReadSignalStrength | feReadSnr | feReadUncorrectedBlocks =>
      cases h
      exact Or.inr ⟨_, List.cons_ne_nil _ _, by decide, Or.inl rfl⟩
  | feGetInfo | feGetFrontend | feGetEvent =>
      cases h
      exact Or.inr ⟨_, List.cons_ne_nil _ _, by decide, Or.inr ⟨_, rfl⟩⟩

theorem Field.size_pos (field : Field) : 0 < field.size := by
  cases field with
  | parameter name => cases name <;> decide
  | eventParameter name => cases name <;> decide
  | _ => decide

/-- A branch of the table that copies something back sends a message, and some byte makes a reply
that is full of it different from what the caller has. -/
theorem Request.exists_output_differs {command : Command}
    (hcommand : request.command = some command) (hback : command.output ≠ .nothing)
    (order : ByteOrder) (arg : Arg) (body : Bytes) :
    ∃ (mtype : MsgType) (rxSize txSize : ℕ) (prepared : Bytes) (byte : Byte),
      command.prepare order arg (some fun _ => 0) body = .message mtype rxSize txSize prepared ∧
      ∀ received : Bytes, (∀ k < txSize, received k = byte) →
        ¬ command.output.Agrees received arg.fields := by
  obtain ⟨copiedOut, hne, hsize, houtput⟩ := (Request.command_output hcommand).resolve_left hback
  obtain ⟨prepared, hprepared⟩ : ∃ prepared,
      command.prepare order arg (some fun _ => 0) body =
        .message command.mtype command.rxSize command.txSize prepared := by
    unfold Command.prepare
    split <;> exact ⟨_, rfl⟩
  obtain ⟨field, hmem⟩ := List.exists_mem_of_ne_nil _ hne
  obtain ⟨byte, hbyte⟩ : ∃ byte : Byte, byte ≠ arg.fields field 0 := by
    by_cases hzero : arg.fields field 0 = 0
    · exact ⟨1, by rw [hzero]; decide⟩
    · exact ⟨0, Ne.symm hzero⟩
  refine ⟨_, _, _, prepared, byte, hprepared, fun received hreceived hagrees => hbyte ?_⟩
  have hfirst : received.getFields field 0 = byte := by
    have hend := field.end_le
    have hpos := field.size_pos
    have hle := hsize field hmem
    exact hreceived (field.offset + 0) (by omega)
  rw [← hfirst]
  rcases houtput with hcopied | ⟨member, hcleared⟩
  · rw [hcopied] at hagrees
    exact hagrees field hmem 0 field.size_pos
  · rw [hcleared] at hagrees
    exact hagrees.1 field hmem 0 field.size_pos

/-- So does a property list that is not empty. -/
theorem exists_property_differs (uapi : Uapi) (order : ByteOrder) (hnum : arg.num ≠ 0)
    (hmax : arg.num.toNat ≤ propMax) (body : Bytes) :
    ∃ (mtype : MsgType) (rxSize txSize : ℕ) (prepared : Bytes) (byte : Byte),
      prepareProperties uapi order false arg body = .message mtype rxSize txSize prepared ∧
      ∀ received : Bytes, (∀ k < txSize, received k = byte) →
        ∃ i < arg.num.toNat, peerProperty uapi (received.prop order i) ≠ arg.props i := by
  have hpos : 0 < arg.num.toNat := Nat.pos_of_ne_zero fun hzero =>
    hnum (BitVec.eq_of_toNat_eq hzero)
  obtain ⟨byte, hbyte⟩ : ∃ byte : Byte, byte ++ byte ++ byte ++ byte ≠ (arg.props 0).cmd := by
    by_cases hzero : (arg.props 0).cmd = 0
    · exact ⟨1, by rw [hzero]; decide⟩
    · exact ⟨0, Ne.symm hzero⟩
  obtain ⟨prepared, hprepared⟩ : ∃ prepared, prepareProperties uapi order false arg body =
      .message .feGetProperty (propOffset arg.num.toNat) (propOffset arg.num.toNat)
        prepared := by
    unfold prepareProperties
    dsimp only
    rw [if_neg (not_lt.mpr hmax)]
    exact ⟨_, rfl⟩
  refine ⟨_, _, _, prepared, byte, hprepared, fun received hreceived => ⟨0, hpos, fun hprop => ?_⟩⟩
  -- the command of the first property
  have hcmd := congrArg (fun prop => prop.cmd) hprop
  have hend : 60 ≤ propOffset arg.num.toNat := by
    unfold propOffset
    omega
  have hload : received.load32 order 4 = byte ++ byte ++ byte ++ byte := by
    unfold Bytes.load32
    rw [hreceived 4 (by omega), hreceived (4 + 1) (by omega), hreceived (4 + 2) (by omega),
      hreceived (4 + 3) (by omega)]
    split <;> rfl
  exact hbyte (hload.symm.trans hcmd)

/-- **A request that copies something back** has a reply that the caller sees. -/
theorem exists_message_of_copiesBack (uapi : Uapi) (order : ByteOrder)
    (hback : request.copiesBack arg = true) (body : Bytes) :
    ∃ (mtype : MsgType) (rxSize txSize : ℕ) (prepared : Bytes) (byte : Byte),
      vtunercPrepare uapi order request arg (some fun _ => 0) body =
        .message mtype rxSize txSize prepared ∧
      ∀ received : Bytes, (∀ k < txSize, received k = byte) →
        ¬ BufferAgrees uapi order request arg received := by
  unfold Request.copiesBack at hback
  unfold vtunercPrepare BufferAgrees
  cases hcommand : request.command with
  | some command =>
      rw [hcommand] at hback
      refine Request.exists_output_differs hcommand (fun hnothing => ?_) order arg body
      simp [hnothing] at hback
  | none =>
      rw [hcommand] at hback
      obtain ⟨rfl, hnum, hmax⟩ := of_decide_eq_true hback
      obtain ⟨mtype, rxSize, txSize, prepared, byte, hprepared, hdiffers⟩ :=
        exists_property_differs uapi order hnum hmax body
      refine ⟨mtype, rxSize, txSize, prepared, byte, hprepared, fun received hreceived => ?_⟩
      obtain ⟨i, hi, hne⟩ := hdiffers received hreceived
      rintro (hset | hprops)
      · cases hset
      · exact hne (hprops i hi)

/-! ### Failed requests -/

/-- A call that fails leaves the caller's memory alone. -/
def FailureLeavesAlone (uapi : Uapi) (order : ByteOrder) (socket : Socket) (body : Bytes)
    (request : Request) (arg : Arg) (own : Option Bytes) : Prop :=
  ∀ result, vtunercProcessIoctl uapi order (vtunercDoMessage order) socket body request arg own =
    some result → result.ret < 0 → result.arg.SameMemory arg

/-- A driver on the server that fails, and a reply full of one byte. -/
def failingReply (order : ByteOrder) (mtype : MsgType) (rxSize txSize : ℕ) (byte : Byte) :
    Socket where
  writes := [16 + rxSize]
  reads := [(messageBytes order { vtunercHdr mtype rxSize txSize with error := -5 }
    fun _ => byte).slice 0 (16 + txSize)]

/-- The result of such an exchange. -/
theorem vtunercDoMessage_failingReply {mtype : MsgType} {rxSize txSize : ℕ}
    (hrx : rxSize ≤ sizeBody) (htx : txSize ≤ sizeBody) (byte : Byte) :
    ∃ after hdr, vtunercDoMessage order (failingReply order mtype rxSize txSize byte)
        (vtunercHdr mtype rxSize txSize) body = (⟨[], []⟩, after, some hdr) ∧
      hdr.error = -5 ∧ ∀ k < txSize, after k = byte := by
  rw [sizeBody] at hrx htx
  have hrxSize : (vtunercHdr mtype rxSize txSize).rxSize.toNat = rxSize := by
    show (BitVec.ofNat 16 rxSize).toNat = _
    rw [BitVec.toNat_ofNat, Nat.mod_eq_of_lt (by omega)]
  have htxSize : (vtunercHdr mtype rxSize txSize).txSize.toNat = txSize := by
    show (BitVec.ofNat 16 txSize).toNat = _
    rw [BitVec.toNat_ofNat, Nat.mod_eq_of_lt (by omega)]
  have hlength : ((messageBytes order { vtunercHdr mtype rxSize txSize with error := -5 }
      fun _ => byte).slice 0 (16 + txSize)).length = 16 + txSize := Bytes.length_slice _ _ _
  obtain ⟨after, hexchange, hafter⟩ := @vtunercDoMessage_replied order
    (vtunercHdr mtype rxSize txSize) { vtunercHdr mtype rxSize txSize with error := -5 } body
    (fun _ => byte) (failingReply order mtype rxSize txSize byte)
    (List.forall_mem_singleton.mpr (by omega))
    (by rw [hrxSize]; exact List.sum_singleton)
    (List.forall_mem_singleton.mpr (List.ne_nil_of_length_pos (by omega)))
    (by rw [htxSize]; exact List.append_nil _)
  rw [htxSize] at hafter
  exact ⟨after, _, hexchange, rfl, hafter⟩

/-- **Failed requests of the vTuner client.**  A request with its argument leaves the caller's
memory alone after every failure, whatever the socket does and whatever was in the message buffer,
if and only if it copies nothing back. -/
theorem vtunerc_failure_iff (uapi : Uapi) (order : ByteOrder) (request : Request) (arg : Arg) :
    (∀ (socket : Socket) (body : Bytes) (own : Option Bytes),
      FailureLeavesAlone uapi order socket body request arg own) ↔
        request.copiesBack arg = false := by
  constructor
  · intro halone
    rw [← Bool.not_eq_true]
    intro hback
    obtain ⟨mtype, rxSize, txSize, prepared, byte, hprepare, hdiffers⟩ :=
      exists_message_of_copiesBack uapi order hback fun _ => 0
    obtain ⟨-, hrx, htx⟩ := vtunercPrepare_message hprepare
    obtain ⟨after, hdr, hexchange, herror, hafter⟩ :=
      @vtunercDoMessage_failingReply order prepared mtype rxSize txSize hrx htx byte
    have hcall : vtunercProcessIoctl uapi order (vtunercDoMessage order)
        (failingReply order mtype rxSize txSize byte) (fun _ => 0) request arg
        (some fun _ => 0) =
          some ⟨-5, ⟨[], []⟩, after, vtunercFinish uapi order request arg after⟩ := by
      simp only [vtunercProcessIoctl, hprepare, hexchange, herror]
      rfl
    have hsame := halone _ _ _ _ hcall (by decide : (-5 : ℤ) < 0)
    exact hdiffers after hafter (vtunercFinish_sameMemory_iff.mp hsame)
  · intro hnot socket body own result hresult _
    obtain harg | ⟨mtype, rxSize, txSize, prepared, hprepare, harg⟩ :=
      vtunercProcessIoctl_cases hresult
    · rw [harg]
      exact ⟨fun _ _ _ => rfl, rfl, rfl⟩
    · rw [harg, vtunercFinish_sameMemory_iff]
      exact .of_not_copiesBack hnot hprepare _

/-- A caller whose memory is zero. -/
def zeroArg : Arg where
  value := 0
  fields := fun _ _ => 0
  num := 0
  props := fun _ => ⟨⟨0, fun _ => 0, fun _ => 0, 0, 0⟩, fun _ => 0⟩

/-- The header of the request is taken, and the reply comes in two pieces: the driver on the
server has failed with -5, and there is an old value behind the header. -/
def oldReply : Socket where
  writes := [16]
  reads := [[0x4E, 0x55, 0x54, 0x56, 0x2D, 0, 0, 0, 0, 0, 2, 0, 0xFB, 0xFF, 0, 0], [1, 1]]

/-- The client asks for the signal-to-noise ratio: it gets both the error and the old value. -/
theorem vtunerc_failure_readSnr :
    ¬ FailureLeavesAlone idleUapi .little oldReply (fun _ => 0) .feReadSnr zeroArg none := by
  intro halone
  have hsame := halone _ rfl (by decide)
  have hbyte := hsame.fields .value16 0 (by decide)
  exact absurd hbyte (by decide)

end Webcamd.Vtuner
