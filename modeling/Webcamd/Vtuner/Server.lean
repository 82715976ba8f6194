import Webcamd.Vtuner.Message

/-!
# The control channel of the vTuner server

A model of `vtuners_control_thread` and `vtuners_process_msg` of `vtuner/vtuner_server.c`.
The server reads a message from its peer, performs the `ioctl` request the message stands
for on its own device, and sends the message back with the results.  For the two property
messages it copies a list of properties from the message into its context, and for
`MSG_FE_GET_PROPERTY` back again.  The number of properties is a field of the message,
that is, the peer's choice.

* `propLoop` — the loops `for (i = 0; i != max; i++)` over the properties.  An index
  outside the arrays gives the rest of the C program no meaning, so the loop stops there;
  it returns the indices it has used, that one included.
* `vtunersProcessMsg`, `vtunersControlStep` — one message, from the first byte of its
  header to the reply.

The driver behind the device is a parameter, and so is the way the arguments of the
requests other than the property lists are carried between message and context: neither
reads or writes a property.

`control_inBounds_iff` tells which messages keep the loops inside their arrays.
-/

namespace Webcamd.Vtuner

variable {D : Type}

/-- What the control thread uses of `struct vtuners_ctx`. -/
structure VtunersCtx (D : Type) where
  /-- `dtv_props` -/
  dtvProps : Fin propMax → DtvProperty
  /-- `dvb` -/
  dvb : D
  /-- `msgbuf.body` -/
  body : Bytes

/-- The device the server works on. -/
structure Driver (D : Type) where
  /-- `FE_SET_PROPERTY` and `FE_GET_PROPERTY` on the list in the context: its length,
  which is stored in `dvb`, and its properties. -/
  property : Request → BitVec 32 → D → (Fin propMax → DtvProperty) →
    ℤ × D × (Fin propMax → DtvProperty)
  /-- The other requests, with the copying of their arguments. -/
  other : Request → D → Bytes → ℤ × D × Bytes

/-- The request a message type stands for. -/
def MsgType.request : MsgType → Option Request
  | .undefined | .dmxGetCaps | .dmxSetSource => none
  | .dmxStart => some .dmxStart
  | .dmxStop => some .dmxStop
  | .dmxSetFilter => some .dmxSetFilter
  | .dmxSetPesFilter => some .dmxSetPesFilter
  | .dmxSetBufferSize => some .dmxSetBufferSize
  | .dmxGetPesPids => some .dmxGetPesPids
  | .dmxGetStc => some .dmxGetStc
  | .dmxAddPid => some .dmxAddPid
  | .dmxRemovePid => some .dmxRemovePid
  | .feSetProperty => some .feSetProperty
  | .feGetProperty => some .feGetProperty
  | .feGetInfo => some .feGetInfo
  | .feDiseqcResetOverload => some .feDiseqcResetOverload
  | .feDiseqcSendMasterCmd => some .feDiseqcSendMasterCmd
  | .feDiseqcRecvSlaveReply => some .feDiseqcRecvSlaveReply
  | .feDiseqcSendBurst => some .feDiseqcSendBurst
  | .feSetTone => some .feSetTone
  | .feSetVoltage => some .feSetVoltage
  | .feEnableHighLnbVoltage => some .feEnableHighLnbVoltage
  | .feReadStatus => some .feReadStatus
  | .feReadBer => some .feReadBer
  | .feReadSignalStrength => some .feReadSignalStrength
  | .feReadSnr => some .feReadSnr
  | .feReadUncorrectedBlocks => some .feReadUncorrectedBlocks
  | .feSetFrontend => some .feSetFrontend
  | .feGetFrontend => some .feGetFrontend
  | .feSetFrontendTuneMode => some .feSetFrontendTuneMode
  | .feGetEvent => some .feGetEvent
  | .feDishnetworkSendLegacyCmd => some .feDishnetworkSendLegacyCmd

/-! ### The property messages -/

/-- The body of both loops: a cleared property gets the command, the reserved words, and
of the union what the command uses. -/
def copyProperty (uapi : Uapi) (source : DtvProperty) : DtvProperty where
  cmd := source.cmd
  reserved := source.reserved
  bufferData := fun k =>
    if uapi.hasBuffer source.cmd || decide (k.val < 4) then source.bufferData k else 0
  bufferLen := if uapi.hasBuffer source.cmd then source.bufferLen else 0
  result := 0

/-- `for (i = 0; i != max; i++)`, started with `propMax - remaining`.  The result has the
indices of the iterations, and is `none` if the last of them is outside the arrays. -/
def propLoop {S : Type} (max : ℤ) (iterate : Fin propMax → S → S) :
    ℕ → S → List ℤ × Option S
  | 0, state => if (propMax : ℤ) = max then ([], some state) else ([(propMax : ℤ)], none)
  | remaining + 1, state =>
      let i := propMax - (remaining + 1)
      if (i : ℤ) = max then ([], some state)
      else
        let rest := propLoop max iterate remaining
          (iterate ⟨i, Nat.sub_lt (by decide) (Nat.succ_pos _)⟩ state)
        ((i : ℤ) :: rest.1, rest.2)

/-- What processing a message does. -/
structure Processed (D : Type) where
  /-- The indices of the iterations of each loop over the properties. -/
  loops : List (List ℤ)
  /-- The return value and the new context; `none` after an index outside the arrays. -/
  result : Option (ℤ × VtunersCtx D)

/-- `max = num; if (max > VTUNER_PROP_MAX) max = VTUNER_PROP_MAX;`, where `max` is an
`int`. -/
def clampNum (num : BitVec 32) : BitVec 32 :=
  if (propMax : ℤ) < num.toInt then BitVec.ofNat 32 propMax else num

/-- The branch of `MSG_FE_GET_PROPERTY` and `MSG_FE_SET_PROPERTY`. -/
def processProperties (uapi : Uapi) (order : ByteOrder) (driver : Driver D) (isSet : Bool)
    (ctx : VtunersCtx D) : Processed D :=
  let max := clampNum (ctx.body.num order)
  let body := if (propMax : ℤ) < (ctx.body.num order).toInt then ctx.body.store32 order 0 max
    else ctx.body
  let first := propLoop max.toInt
    (fun i props => Function.update props i (copyProperty uapi (body.prop order i)))
    propMax ctx.dtvProps
  match first.2 with
  | none => ⟨[first.1], none⟩
  | some props =>
      if isSet then
        let answer := driver.property .feSetProperty max ctx.dvb props
        ⟨[first.1], some (answer.1, ⟨answer.2.2, answer.2.1, body⟩)⟩
      else
        let answer := driver.property .feGetProperty max ctx.dvb props
        let second := propLoop max.toInt
          (fun i bytes => bytes.setProp order i (copyProperty uapi (answer.2.2 i)))
          propMax body
        ⟨[first.1, second.1], second.2.map fun bytes =>
          (answer.1, ⟨answer.2.2, answer.2.1, bytes⟩)⟩

/-- `vtuners_process_msg` -/
def vtunersProcessMsg (uapi : Uapi) (order : ByteOrder) (driver : Driver D)
    (mtype : BitVec 32) (ctx : VtunersCtx D) : Processed D :=
  match MsgType.decode mtype with
  | none => ⟨[], some (-1, ctx)⟩
  | some .feSetProperty => processProperties uapi order driver true ctx
  | some .feGetProperty => processProperties uapi order driver false ctx
  | some type =>
      match type.request with
      | none => ⟨[], some (-1, ctx)⟩
      | some request =>
          let answer := driver.other request ctx.dvb ctx.body
          ⟨[], some (answer.1, { ctx with dvb := answer.2.1, body := answer.2.2 })⟩

/-! ### The control thread -/

/-- A message as it is presented to `vtuners_process_msg`. -/
structure Presented where
  hdr : Hdr
  body : Bytes
  swapped : Bool

/-- The control thread reads a message: the bytes of the header, and as many bytes of the
body as the header announces.  `none` if it gives up on the peer. -/
def readMsg (uapi : Uapi) (order : ByteOrder) (ctx : VtunersCtx D) (header payload : Bytes) :
    Option Presented :=
  let plain := Hdr.ofBytes order header
  let swapped := decide (plain.magic ≠ magic)
  let hdr := if swapped then vtunerHdrByteswap plain else plain
  if hdr.magic ≠ magic then none
  else if sizeBody < hdr.rxSize.toNat then none
  else
    let body := ctx.body.overlay 0 hdr.rxSize.toNat payload
    some ⟨hdr, if swapped then vtunerBodyByteswap uapi order body hdr.mtype else body, swapped⟩

/-- What the server sends back: the header, the body, and how many bytes of both
together. -/
structure Reply where
  hdr : Hdr
  body : Bytes
  length : ℕ

/-- What one round of the control thread does. -/
structure Turn (D : Type) where
  /-- The indices of the loops over the properties. -/
  loops : List (List ℤ)
  /-- The new context; `none` after an index outside the arrays. -/
  next : Option (VtunersCtx D)
  /-- The reply, if the server does not give up on the peer. -/
  reply : Option Reply

/-- One round of `vtuners_control_thread`. -/
def vtunersControlStep (uapi : Uapi) (order : ByteOrder) (driver : Driver D)
    (ctx : VtunersCtx D) (header payload : Bytes) : Turn D :=
  match readMsg uapi order ctx header payload with
  | none => ⟨[], some ctx, none⟩
  | some msg =>
      let processed :=
        vtunersProcessMsg uapi order driver msg.hdr.mtype { ctx with body := msg.body }
      match processed.result with
      | none => ⟨processed.loops, none, none⟩
      | some (ret, after) =>
          let hdr := { msg.hdr with error := BitVec.ofInt 16 ret }
          if sizeBody < hdr.txSize.toNat then ⟨processed.loops, some after, none⟩
          else
            let body := if msg.swapped then
              vtunerBodyByteswap uapi order after.body hdr.mtype else after.body
            let sent := if msg.swapped then vtunerHdrByteswap hdr else hdr
            ⟨processed.loops, some { after with body := body },
              some ⟨sent, body, hdr.txSize.toNat + 16⟩⟩

/-! ### The loops over the properties -/

/-- The loops stay inside their arrays, and make at most `VTUNER_PROP_MAX` iterations. -/
def InBounds (loops : List (List ℤ)) : Prop :=
  ∀ loop ∈ loops, loop.length ≤ propMax ∧ ∀ i ∈ loop, 0 ≤ i ∧ i < propMax

/-- A bound between the start of the loop and the end of the arrays is met. -/
theorem propLoop_of_le {S : Type} {max : ℤ} (iterate : Fin propMax → S → S)
    {remaining : ℕ} (state : S) (hremaining : remaining ≤ propMax)
    (hlow : ((propMax - remaining : ℕ) : ℤ) ≤ max) (hhigh : max ≤ propMax) :
    (propLoop max iterate remaining state).2.isSome = true ∧
      (propLoop max iterate remaining state).1.length ≤ remaining ∧
      ∀ i ∈ (propLoop max iterate remaining state).1, 0 ≤ i ∧ i < propMax := by
  induction remaining generalizing state with
  | zero =>
      have hmax : (propMax : ℤ) = max := by omega
      simp [propLoop, hmax]
  | succ remaining ih =>
      rw [propLoop]
      split
      · simp
      · rename_i hne
        obtain ⟨hsome, hlength, hbounds⟩ := ih (iterate _ state) (by omega) (by omega)
        refine ⟨hsome, by simpa using hlength, ?_⟩
        intro i hmem
        rcases List.mem_cons.mp hmem with rfl | hmem
        · omega
        · exact hbounds i hmem

/-- Any other bound is missed, and the loop runs out of the arrays. -/
theorem propLoop_of_lt {S : Type} {max : ℤ} (iterate : Fin propMax → S → S)
    {remaining : ℕ} (state : S) (hremaining : remaining ≤ propMax)
    (hmax : max < ((propMax - remaining : ℕ) : ℤ) ∨ (propMax : ℤ) < max) :
    (propLoop max iterate remaining state).2 = none ∧
      (propMax : ℤ) ∈ (propLoop max iterate remaining state).1 := by
  induction remaining generalizing state with
  | zero =>
      have hne : (propMax : ℤ) ≠ max := by omega
      simp [propLoop, hne]
  | succ remaining ih =>
      have hne : ((propMax - (remaining + 1) : ℕ) : ℤ) ≠ max := by omega
      obtain ⟨hnone, hmem⟩ := ih (iterate _ state) (by omega) (by omega)
      simp only [propLoop, hne, if_false]
      exact ⟨hnone, List.mem_cons_of_mem _ hmem⟩

/-- The comparison with `VTUNER_PROP_MAX` catches what is too large as a signed number. -/
theorem clampNum_le (num : BitVec 32) : (clampNum num).toInt ≤ propMax := by
  rw [clampNum]
  split
  · decide
  · omega

/-- It does not catch what is negative as a signed number. -/
theorem clampNum_nonneg_iff (num : BitVec 32) :
    0 ≤ (clampNum num).toInt ↔ num.toNat < 2 ^ 31 := by
  have hnum : 0 ≤ num.toInt ↔ num.toNat < 2 ^ 31 := by
    rw [BitVec.toInt_eq_toNat_cond]
    split <;> omega
  rw [← hnum, clampNum]
  split
  · rename_i hlarge
    exact iff_of_true (by decide) (by omega)
  · exact Iff.rfl

theorem inBounds_nil : InBounds [] := by simp [InBounds]

theorem inBounds_cons {loop : List ℤ} {rest : List (List ℤ)} :
    InBounds (loop :: rest) ↔ InBounds [loop] ∧ InBounds rest := by
  simp [InBounds]

section

variable {uapi : Uapi} {order : ByteOrder} {driver : Driver D} {ctx : VtunersCtx D}

/-- A loop over the properties of a message with this number ends inside the arrays … -/
theorem propLoop_clampNum_inBounds {S : Type} {num : BitVec 32} (hnum : num.toNat < 2 ^ 31)
    (iterate : Fin propMax → S → S) (state : S) :
    (propLoop (clampNum num).toInt iterate propMax state).2 ≠ none ∧
      InBounds [(propLoop (clampNum num).toInt iterate propMax state).1] := by
  have hnonneg := (clampNum_nonneg_iff num).mpr hnum
  obtain ⟨hsome, hlength, hbounds⟩ := propLoop_of_le iterate state le_rfl
    (by simpa using hnonneg) (clampNum_le num)
  refine ⟨Option.isSome_iff_ne_none.mp hsome, fun loop hmem => ?_⟩
  rw [List.mem_singleton] at hmem
  subst hmem
  exact ⟨hlength, hbounds⟩

/-- … or leaves them. -/
theorem propLoop_clampNum_escapes {S : Type} {num : BitVec 32} (hnum : ¬ num.toNat < 2 ^ 31)
    (iterate : Fin propMax → S → S) (state : S) :
    (propLoop (clampNum num).toInt iterate propMax state).2 = none ∧
      ¬ InBounds [(propLoop (clampNum num).toInt iterate propMax state).1] := by
  have hneg : (clampNum num).toInt < 0 := by
    rw [← clampNum_nonneg_iff] at hnum
    omega
  obtain ⟨hnone, hmem⟩ := propLoop_of_lt iterate state le_rfl (Or.inl (by simpa using hneg))
  refine ⟨hnone, fun hbounds => ?_⟩
  exact absurd ((hbounds _ List.mem_cons_self).2 _ hmem).2 (lt_irrefl _)

/-- **The property messages stay inside the arrays exactly if the number of properties
is not negative as an `int`.** -/
theorem processProperties_inBounds_iff (isSet : Bool) :
    InBounds (processProperties uapi order driver isSet ctx).loops ↔
      (ctx.body.num order).toNat < 2 ^ 31 := by
  simp only [processProperties]
  by_cases hnum : (ctx.body.num order).toNat < 2 ^ 31
  · refine iff_of_true ?_ hnum
    split
    · rename_i hnone
      exact absurd hnone (propLoop_clampNum_inBounds hnum _ _).1
    · split
      · exact (propLoop_clampNum_inBounds hnum _ _).2
      · exact inBounds_cons.mpr
          ⟨(propLoop_clampNum_inBounds hnum _ _).2, (propLoop_clampNum_inBounds hnum _ _).2⟩
  · refine iff_of_false ?_ hnum
    rw [(propLoop_clampNum_escapes hnum _ _).1]
    exact (propLoop_clampNum_escapes hnum _ _).2

/-- Nothing else stops the processing of a property message. -/
theorem processProperties_result_eq_none_iff (isSet : Bool) :
    (processProperties uapi order driver isSet ctx).result = none ↔
      ¬ InBounds (processProperties uapi order driver isSet ctx).loops := by
  rw [processProperties_inBounds_iff]
  simp only [processProperties]
  by_cases hnum : (ctx.body.num order).toNat < 2 ^ 31
  · refine iff_of_false ?_ (not_not.mpr hnum)
    split
    · rename_i hnone
      exact absurd hnone (propLoop_clampNum_inBounds hnum _ _).1
    · split
      · simp
      · rw [Option.map_eq_none_iff]
        exact (propLoop_clampNum_inBounds hnum _ _).1
  · refine iff_of_true ?_ hnum
    rw [(propLoop_clampNum_escapes hnum _ _).1]

/-- A message type with properties. -/
def IsProperty (mtype : BitVec 32) : Prop :=
  MsgType.decode mtype = some .feSetProperty ∨ MsgType.decode mtype = some .feGetProperty

instance (mtype : BitVec 32) : Decidable (IsProperty mtype) :=
  inferInstanceAs (Decidable (_ ∨ _))

example : IsProperty 32 ∧ IsProperty 33 ∧ ¬ IsProperty 34 := by decide

/-- `vtuners_process_msg`, for every type of message. -/
theorem vtunersProcessMsg_inBounds_iff (uapi : Uapi) (order : ByteOrder)
    (driver : Driver D) (mtype : BitVec 32) (ctx : VtunersCtx D) :
    InBounds (vtunersProcessMsg uapi order driver mtype ctx).loops ↔
      (IsProperty mtype → (ctx.body.num order).toNat < 2 ^ 31) := by
  rw [vtunersProcessMsg]
  split
  · rename_i hdecode
    exact iff_of_true inBounds_nil fun hproperty => by simp [IsProperty, hdecode] at hproperty
  · rename_i hdecode
    rw [processProperties_inBounds_iff]
    simp [IsProperty, hdecode]
  · rename_i hdecode
    rw [processProperties_inBounds_iff]
    simp [IsProperty, hdecode]
  · rename_i type hset hget hdecode
    refine iff_of_true ?_ fun hproperty => ?_
    · split <;> exact inBounds_nil
    · rcases hproperty with hproperty | hproperty
      · exact absurd (Option.some.inj (hdecode.symm.trans hproperty)) hset
      · exact absurd (Option.some.inj (hdecode.symm.trans hproperty)) hget

theorem vtunersProcessMsg_result_eq_none_iff (uapi : Uapi) (order : ByteOrder)
    (driver : Driver D) (mtype : BitVec 32) (ctx : VtunersCtx D) :
    (vtunersProcessMsg uapi order driver mtype ctx).result = none ↔
      ¬ InBounds (vtunersProcessMsg uapi order driver mtype ctx).loops := by
  rw [vtunersProcessMsg]
  split
  · exact iff_of_false (by simp) (not_not.mpr inBounds_nil)
  · exact processProperties_result_eq_none_iff true
  · exact processProperties_result_eq_none_iff false
  · split <;> exact iff_of_false (by simp) (not_not.mpr inBounds_nil)

end

/-- **Which messages keep the server inside its arrays.**  Whatever the header and the
body the peer sends, and whatever is in the context: the loops over the properties stay
inside `dtv_props` and `props` and make at most `VTUNER_PROP_MAX` iterations if and only if
the message, as `vtuners_process_msg` gets it, has no properties or a number of them below
`2 ^ 31`.  A larger number is negative as an `int`, passes the test against
`VTUNER_PROP_MAX`, and is never met by the loop. -/
theorem control_inBounds_iff (uapi : Uapi) (order : ByteOrder) (driver : Driver D)
    (ctx : VtunersCtx D) (header payload : Bytes) :
    InBounds (vtunersControlStep uapi order driver ctx header payload).loops ↔
      ∀ msg, readMsg uapi order ctx header payload = some msg →
        IsProperty msg.hdr.mtype → (msg.body.num order).toNat < 2 ^ 31 := by
  rw [vtunersControlStep]
  cases hread : readMsg uapi order ctx header payload with
  | none => exact iff_of_true inBounds_nil (by simp)
  | some msg =>
      have hprocess := vtunersProcessMsg_inBounds_iff uapi order driver msg.hdr.mtype
        { ctx with body := msg.body }
      -- the loops are over when the reply is made up
      have hloops : ∀ turn : Turn D,
          turn.loops = (vtunersProcessMsg uapi order driver msg.hdr.mtype
            { ctx with body := msg.body }).loops →
          (InBounds turn.loops ↔ ∀ other, some msg = some other →
            IsProperty other.hdr.mtype → (other.body.num order).toNat < 2 ^ 31) := by
        intro turn hturn
        rw [hturn, hprocess]
        simp
      apply hloops
      dsimp only
      split
      · rfl
      · split <;> rfl

/-- **These are also the messages the server survives.** -/
theorem control_next_eq_none_iff (uapi : Uapi) (order : ByteOrder) (driver : Driver D)
    (ctx : VtunersCtx D) (header payload : Bytes) :
    (vtunersControlStep uapi order driver ctx header payload).next = none ↔
      ¬ InBounds (vtunersControlStep uapi order driver ctx header payload).loops := by
  rw [vtunersControlStep]
  cases readMsg uapi order ctx header payload with
  | none => exact iff_of_false (by simp) (not_not.mpr inBounds_nil)
  | some msg =>
      have hresult := vtunersProcessMsg_result_eq_none_iff uapi order driver msg.hdr.mtype
        { ctx with body := msg.body }
      dsimp only
      split
      · rename_i hnone
        exact iff_of_true rfl (hresult.mp hnone)
      · rename_i ret after hsome
        have hbounds : InBounds (vtunersProcessMsg uapi order driver msg.hdr.mtype
            { ctx with body := msg.body }).loops := by
          by_contra hnot
          rw [hresult.mpr hnot] at hsome
          cases hsome
        split <;> exact iff_of_false (by simp) (not_not.mpr hbounds)

/-- No request has a number, and the device does nothing. -/
def idleUapi : Uapi := ⟨fun _ => none, 7, 14⟩

def idleDriver : Driver Unit where
  property := fun _ _ dvb props => (0, dvb, props)
  other := fun _ dvb body => (0, dvb, body)

def emptyCtx : VtunersCtx Unit where
  dtvProps := fun _ => ⟨0, fun _ => 0, fun _ => 0, 0, 0⟩
  dvb := ()
  body := fun _ => 0

/-- The header of a `MSG_FE_SET_PROPERTY` message of four bytes, little-endian. -/
def setPropertyHeader : Bytes := fun k =>
  [0x4E, 0x55, 0x54, 0x56, 0x20, 0, 0, 0, 4, 0, 0, 0, 0, 0, 0, 0].getD k 0

/-- The number of properties is `0xFFFFFFFF`: the loop uses the indices `0` to `64`. -/
theorem control_leaves_bounds :
    (vtunersControlStep idleUapi .little idleDriver emptyCtx setPropertyHeader
        fun _ => 0xFF).loops = [(List.range 65).map Int.ofNat] ∧
      ¬ InBounds (vtunersControlStep idleUapi .little idleDriver emptyCtx setPropertyHeader
        fun _ => 0xFF).loops := by
  have hloops : (vtunersControlStep idleUapi .little idleDriver emptyCtx setPropertyHeader
      fun _ => 0xFF).loops = [(List.range 65).map Int.ofNat] := by
    decide
  refine ⟨hloops, ?_⟩
  rw [hloops]
  intro hbounds
  have hlength := (hbounds _ List.mem_cons_self).1
  simp [propMax] at hlength

end Webcamd.Vtuner
