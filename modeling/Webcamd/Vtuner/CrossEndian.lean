import Webcamd.Vtuner.Client

/-!
# A client of the other byte order

A client sends its messages in its own byte order.  The server finds out from the magic
number that a message has to be swapped: the header by `vtuner_hdr_byteswap`, the body by
`vtuner_body_byteswap`, which gets the type of the message to know the fields.  The reply
is swapped back the same way.

The header is handled right in both directions.  The body is not: `vtuner_body_byteswap`
looks up the numbers of the `ioctl` requests, and the control thread passes the type of the
message, which is none of them.  So the bytes of the body are presented as the client has
written them, and each multi-byte field has its bytes in the wrong order.

* `layout` — the fields of a message, element by element, as its sender sees them.  A
  property list has as many properties as its number says, and a property the fields its
  command says.
* `Exact` — the request is presented with the values the client has written, and the reply
  is read with the values the server has computed.
* `cross_endian_iff` — this is the case exactly if every field of the request and of the
  reply is its own reversal.
-/

namespace Webcamd.Vtuner

/-! ### Fields of a message -/

/-- An element of a field: where it is, and how many bytes it has. -/
structure Slot where
  offset : ℕ
  width : ℕ
  deriving DecidableEq

/-- The value of an element, as its digits from the most significant byte down. -/
def Bytes.digits (order : ByteOrder) (bytes : Bytes) (slot : Slot) : List Byte :=
  match order with
  | .big => bytes.slice slot.offset slot.width
  | .little => (bytes.slice slot.offset slot.width).reverse

/-- The element reads the same in both byte orders. -/
def Bytes.Symmetric (bytes : Bytes) (slot : Slot) : Prop :=
  (bytes.slice slot.offset slot.width).reverse = bytes.slice slot.offset slot.width

instance (bytes : Bytes) (slot : Slot) : Decidable (bytes.Symmetric slot) :=
  inferInstanceAs (Decidable (_ = _))

/-- The elements of a field. -/
def Field.slots (field : Field) : List Slot :=
  (List.range field.place.count).map fun j =>
    ⟨field.offset + field.place.width * j, field.place.width⟩

/-- The member of the body that the messages of a request use. -/
def Request.member : Request → Option Member
  | .dmxStart | .dmxStop | .feDiseqcResetOverload | .feSetProperty | .feGetProperty => none
  | .dmxSetFilter => some .dmxSctFilterParams
  | .dmxSetPesFilter => some .dmxPesFilterParams
  | .dmxGetPesPids => some .dmxPesPid
  | .dmxGetStc => some .dmxStc
  | .dmxAddPid | .dmxRemovePid | .feReadSignalStrength | .feReadSnr => some .value16
  | .dmxSetBufferSize | .feDiseqcSendBurst | .feSetTone | .feSetVoltage
  | .feEnableHighLnbVoltage | .feReadStatus | .feReadBer | .feReadUncorrectedBlocks
  | .feSetFrontendTuneMode | .feDishnetworkSendLegacyCmd => some .value32
  | .feGetInfo => some .dvbFrontendInfo
  | .feDiseqcSendMasterCmd => some .dvbDiseqcMasterCmd
  | .feDiseqcRecvSlaveReply => some .dvbDiseqcSlaveReply
  | .feSetFrontend | .feGetFrontend => some .dvbFrontendParameters
  | .feGetEvent => some .dvbFrontendEvent

/-- The elements of the fields of that member. -/
def Request.slots (request : Request) : List Slot :=
  match request.member with
  | none => []
  | some member => (Field.all.filter fun field => field.member = member).flatMap Field.slots

/-- The elements of a property. -/
def propSlots (uapi : Uapi) (order : ByteOrder) (body : Bytes) (i : ℕ) : List Slot :=
  let here := propOffset i
  let union := if uapi.hasBuffer (body.load32 order here) then
      (List.range 32).map (fun k => ⟨here + 16 + k, 1⟩) ++ [⟨here + 48, 4⟩]
    else [⟨here + 16, 4⟩]
  [⟨here, 4⟩, ⟨here + 4, 4⟩, ⟨here + 8, 4⟩, ⟨here + 12, 4⟩] ++ union ++ [⟨here + 52, 4⟩]

/-- The elements of a property list. -/
def propertiesSlots (uapi : Uapi) (order : ByteOrder) (body : Bytes) : List Slot :=
  ⟨0, 4⟩ :: (List.range (min (body.num order).toNat propMax)).flatMap
    (propSlots uapi order body)

/-- The elements of the fields of a message, as a machine of this byte order sees them. -/
def layout (uapi : Uapi) (order : ByteOrder) (type : MsgType) (body : Bytes) : List Slot :=
  match type.request with
  | none => []
  | some .feSetProperty | some .feGetProperty => propertiesSlots uapi order body
  | some request => request.slots

/-! ### An exact exchange -/

section

variable {D : Type} (uapi : Uapi) (order : ByteOrder) (driver : Driver D)
variable (ctx : VtunersCtx D) (type : MsgType) (rxSize txSize : ℕ) (body : Bytes)

/-- What a client of the other byte order sends. -/
def foreignHeader : Bytes := (vtunercHdr type rxSize txSize).toBytes order.other

/-- The message as `vtuners_process_msg` gets it has the values the client has written. -/
def PresentedExactly : Prop :=
  ∃ msg, readMsg uapi order ctx (foreignHeader order type rxSize txSize) body = some msg ∧
    msg.hdr = vtunercHdr type rxSize txSize ∧
    ∀ slot ∈ layout uapi order.other type body, slot.offset + slot.width ≤ rxSize →
      msg.body.digits order slot = body.digits order.other slot

/-- The reply has, for the client, the values the server has computed. -/
def RepliedExactly : Prop :=
  ∀ msg, readMsg uapi order ctx (foreignHeader order type rxSize txSize) body = some msg →
    ∀ ret after, (vtunersProcessMsg uapi order driver msg.hdr.mtype
        { ctx with body := msg.body }).result = some (ret, after) →
      ∃ reply, (vtunersControlStep uapi order driver ctx
          (foreignHeader order type rxSize txSize) body).reply = some reply ∧
        reply.length = txSize + 16 ∧
        Hdr.ofBytes order.other (reply.hdr.toBytes order) =
          { msg.hdr with error := BitVec.ofInt 16 ret } ∧
        ∀ slot ∈ layout uapi order type after.body, slot.offset + slot.width ≤ txSize →
          reply.body.digits order.other slot = after.body.digits order slot

/-- The exchange is exact in both directions. -/
def Exact : Prop :=
  PresentedExactly uapi order ctx type rxSize txSize body ∧
    RepliedExactly uapi order driver ctx type rxSize txSize body

end

/-! ### Reading in the other byte order -/

theorem Bytes.digits_other_eq_iff (bytes : Bytes) (order : ByteOrder) (slot : Slot) :
    bytes.digits order slot = bytes.digits order.other slot ↔ bytes.Symmetric slot := by
  cases order with
  | little => exact Iff.rfl
  | big => exact eq_comm

/-- The numbers of the messages are small. -/
theorem MsgType.code_lt (type : MsgType) : type.code.toNat < 0x6F00 := by
  cases type <;> decide

/-- So `vtuner_body_byteswap` does nothing for them. -/
theorem vtunerBodyByteswap_code {uapi : Uapi}
    (huapi : ∀ number, uapi.request number ≠ none → 0x6F00 ≤ number.toNat)
    (order : ByteOrder) (body : Bytes) (type : MsgType) :
    vtunerBodyByteswap uapi order body type.code = body := by
  have hnone : uapi.request type.code = none := by
    by_contra hsome
    have hlarge := huapi type.code hsome
    have hsmall := type.code_lt
    omega
  rw [vtunerBodyByteswap, hnone]

theorem vtunerHdrByteswap_byteswap (hdr : Hdr) :
    vtunerHdrByteswap (vtunerHdrByteswap hdr) = hdr := by
  simp only [vtunerHdrByteswap, bswap16_bswap16, bswap32_bswap32]

/-! ### The exchange -/

section

variable {D : Type} {uapi : Uapi} {order : ByteOrder} {driver : Driver D}
variable {ctx : VtunersCtx D} {type : MsgType} {rxSize txSize : ℕ} {body : Bytes}

/-- What the server reads first: the client's header with every word reversed. -/
theorem ofBytes_foreignHeader (order : ByteOrder) (type : MsgType) (rxSize txSize : ℕ) :
    Hdr.ofBytes order (foreignHeader order type rxSize txSize) =
      vtunerHdrByteswap (vtunercHdr type rxSize txSize) := by
  have hother := Hdr.ofBytes_other order.other (foreignHeader order type rxSize txSize)
  rw [ByteOrder.other_other] at hother
  rw [hother, foreignHeader, Hdr.ofBytes_toBytes]

/-- The message is accepted, its header is swapped, and its body is as the client has
written it. -/
theorem readMsg_foreign
    (huapi : ∀ number, uapi.request number ≠ none → 0x6F00 ≤ number.toNat)
    (hrx : rxSize ≤ sizeBody) :
    readMsg uapi order ctx (foreignHeader order type rxSize txSize) body =
      some ⟨vtunercHdr type rxSize txSize, ctx.body.overlay 0 rxSize body, true⟩ := by
  have hmagic : (vtunerHdrByteswap (vtunercHdr type rxSize txSize)).magic ≠ magic := by
    change bswap32 magic ≠ magic
    decide
  have hsize : (vtunercHdr type rxSize txSize).rxSize.toNat = rxSize := by
    rw [sizeBody] at hrx
    rw [vtunercHdr, BitVec.toNat_ofNat, Nat.mod_eq_of_lt (by omega)]
  have hrange : ¬ sizeBody < rxSize := by omega
  simp only [readMsg, ofBytes_foreignHeader, hmagic, ne_eq, not_false_eq_true, decide_true,
    if_true, vtunerHdrByteswap_byteswap, hsize, hrange, if_false]
  rw [if_neg (by simp [vtunercHdr])]
  have hswap := vtunerBodyByteswap_code huapi order (ctx.body.overlay 0 rxSize body) type
  simp only [vtunercHdr] at hswap ⊢
  rw [hswap]

/-- What `vtuners_process_msg` makes of the request. -/
def foreignResult (uapi : Uapi) (order : ByteOrder) (driver : Driver D) (ctx : VtunersCtx D)
    (type : MsgType) (rxSize : ℕ) (body : Bytes) : Option (ℤ × VtunersCtx D) :=
  (vtunersProcessMsg uapi order driver type.code
    { ctx with body := ctx.body.overlay 0 rxSize body }).result

/-- The reply: its header is swapped, and its body is as the server has computed it. -/
theorem reply_foreign
    (huapi : ∀ number, uapi.request number ≠ none → 0x6F00 ≤ number.toNat)
    (hrx : rxSize ≤ sizeBody) (htx : txSize ≤ sizeBody) {ret : ℤ} {after : VtunersCtx D}
    (hresult : foreignResult uapi order driver ctx type rxSize body = some (ret, after)) :
    (vtunersControlStep uapi order driver ctx (foreignHeader order type rxSize txSize)
        body).reply =
      some ⟨vtunerHdrByteswap
        { vtunercHdr type rxSize txSize with error := BitVec.ofInt 16 ret },
        after.body, txSize + 16⟩ := by
  have hsize : (vtunercHdr type rxSize txSize).txSize.toNat = txSize := by
    rw [sizeBody] at htx
    rw [vtunercHdr, BitVec.toNat_ofNat, Nat.mod_eq_of_lt (by omega)]
  have hrange : ¬ sizeBody < txSize := by omega
  have hswap : vtunerBodyByteswap uapi order after.body
      (vtunercHdr type rxSize txSize).mtype = after.body :=
    vtunerBodyByteswap_code huapi order after.body type
  have hprocess : (vtunersProcessMsg uapi order driver (vtunercHdr type rxSize txSize).mtype
      { ctx with body := ctx.body.overlay 0 rxSize body }).result = some (ret, after) :=
    hresult
  rw [vtunersControlStep, readMsg_foreign huapi hrx]
  simp only [hprocess, hsize, hrange, if_false, if_true, hswap]

/-- The request arrives with the right values exactly if its fields do not care about the
byte order. -/
theorem presentedExactly_iff
    (huapi : ∀ number, uapi.request number ≠ none → 0x6F00 ≤ number.toNat)
    (hrx : rxSize ≤ sizeBody) :
    PresentedExactly uapi order ctx type rxSize txSize body ↔
      ∀ slot ∈ layout uapi order.other type body, slot.offset + slot.width ≤ rxSize →
        body.Symmetric slot := by
  have hdigits : ∀ slot : Slot, slot.offset + slot.width ≤ rxSize →
      ((ctx.body.overlay 0 rxSize body).digits order slot = body.digits order.other slot ↔
        body.Symmetric slot) := by
    intro slot hle
    have hsame : (ctx.body.overlay 0 rxSize body).digits order slot =
        body.digits order slot := by
      cases order <;> simp only [Bytes.digits, Bytes.slice_front_overlay _ _ hle]
    rw [hsame, Bytes.digits_other_eq_iff]
  rw [PresentedExactly, readMsg_foreign huapi hrx]
  constructor
  · rintro ⟨msg, hmsg, -, hslots⟩ slot hslot hle
    obtain rfl := Option.some.inj hmsg
    exact (hdigits slot hle).mp (hslots slot hslot hle)
  · intro hslots
    exact ⟨_, rfl, rfl, fun slot hslot hle => (hdigits slot hle).mpr (hslots slot hslot hle)⟩

/-- The same for the reply. -/
theorem repliedExactly_iff
    (huapi : ∀ number, uapi.request number ≠ none → 0x6F00 ≤ number.toNat)
    (hrx : rxSize ≤ sizeBody) (htx : txSize ≤ sizeBody) :
    RepliedExactly uapi order driver ctx type rxSize txSize body ↔
      ∀ ret after, foreignResult uapi order driver ctx type rxSize body = some (ret, after) →
        ∀ slot ∈ layout uapi order type after.body, slot.offset + slot.width ≤ txSize →
          after.body.Symmetric slot := by
  have hheader : ∀ hdr : Hdr,
      Hdr.ofBytes order.other ((vtunerHdrByteswap hdr).toBytes order) = hdr := by
    intro hdr
    rw [Hdr.ofBytes_other, Hdr.ofBytes_toBytes, vtunerHdrByteswap_byteswap]
  constructor
  · intro h ret after hresult slot hslot hle
    obtain ⟨reply, hreply, -, -, hslots⟩ := h _ (readMsg_foreign huapi hrx) ret after hresult
    rw [reply_foreign huapi hrx htx hresult] at hreply
    obtain rfl := Option.some.inj hreply
    exact (Bytes.digits_other_eq_iff _ _ _).mp (hslots slot hslot hle).symm
  · intro h msg hmsg ret after hresult
    rw [readMsg_foreign huapi hrx] at hmsg
    obtain rfl := Option.some.inj hmsg
    refine ⟨_, reply_foreign huapi hrx htx hresult, rfl, hheader _, fun slot hslot hle => ?_⟩
    exact ((Bytes.digits_other_eq_iff _ _ _).mpr (h ret after hresult slot hslot hle)).symm

end

/-- **When a client of the other byte order is understood.**  For every type of message,
every request and every state of the server, and for `ioctl` numbers as the DVB interface
has them: the request is presented with the values the client has written, and the reply is
read with the values the server has computed, exactly if every field of the request and of
the reply is its own reversal.  The headers never matter. -/
theorem cross_endian_iff {D : Type} {uapi : Uapi}
    (huapi : ∀ number, uapi.request number ≠ none → 0x6F00 ≤ number.toNat)
    (order : ByteOrder) (driver : Driver D) (ctx : VtunersCtx D) (type : MsgType)
    {rxSize txSize : ℕ} (hrx : rxSize ≤ sizeBody) (htx : txSize ≤ sizeBody) (body : Bytes) :
    Exact uapi order driver ctx type rxSize txSize body ↔
      (∀ slot ∈ layout uapi order.other type body, slot.offset + slot.width ≤ rxSize →
        body.Symmetric slot) ∧
      ∀ ret after, foreignResult uapi order driver ctx type rxSize body = some (ret, after) →
        ∀ slot ∈ layout uapi order type after.body, slot.offset + slot.width ≤ txSize →
          after.body.Symmetric slot := by
  rw [Exact, presentedExactly_iff huapi hrx, repliedExactly_iff huapi hrx htx]

/-- `FE_SET_TONE` is the only request with a number here. -/
def toneUapi : Uapi where
  request := fun number => if number = 0x20006F42 then some .feSetTone else none
  dtvDiseqcMaster := 7
  dtvDiseqcSlaveReply := 14

theorem toneUapi_large (number : BitVec 32) (h : toneUapi.request number ≠ none) :
    0x6F00 ≤ number.toNat := by
  by_cases hnumber : number = 0x20006F42
  · subst hnumber
    decide
  · exact absurd (if_neg hnumber) h

/-- `SEC_TONE_ON` is zero, and arrives. -/
theorem cross_endian_iff_toneOn :
    Exact toneUapi .little idleDriver emptyCtx .feSetTone 4 0 fun _ => 0 := by
  refine (cross_endian_iff toneUapi_large .little idleDriver emptyCtx .feSetTone
    (by decide) (by decide) _).mpr ⟨by decide, ?_⟩
  intro ret after _ slot hslot hle
  have hlayout : slot ∈ [(⟨0, 4⟩ : Slot)] := hslot
  rw [List.mem_singleton] at hlayout
  subst hlayout
  cases hle

/-- `SEC_TONE_OFF` is one, in the four bytes of a big-endian client. -/
def toneOff : Bytes := fun k => if k = 3 then 1 else 0

/-- It is presented as `0x01000000`. -/
theorem cross_endian_toneOff :
    (readMsg toneUapi .little emptyCtx (foreignHeader .little .feSetTone 4 0) toneOff).map
        (fun msg => (msg.hdr.mtype, msg.swapped, msg.body.load32 .little 0)) =
      some (39, true, 0x01000000) ∧
    ¬ Exact toneUapi .little idleDriver emptyCtx .feSetTone 4 0 toneOff := by
  refine ⟨by decide, fun hexact => ?_⟩
  have hslots := (presentedExactly_iff toneUapi_large (by decide)).mp hexact.1
  have hsymmetric := hslots ⟨0, 4⟩ (by decide) (by decide)
  exact absurd hsymmetric (by decide)

/-! ### What the swap of the body would do -/

theorem Bytes.slice_bswap (bytes : Bytes) (start width : ℕ) :
    (bytes.bswap start width).slice start width = (bytes.slice start width).reverse := by
  refine List.ext_getElem (by simp) fun k hk _ => ?_
  rw [length_slice] at hk
  simp [slice, bswap, hk]

theorem Bytes.slice_bswap_of_disjoint (bytes : Bytes) {start width t length : ℕ}
    (h : t + length ≤ start ∨ start + width ≤ t) :
    (bytes.bswap start width).slice t length = bytes.slice t length :=
  slice_congr fun _ hk => bswap_of_disjoint bytes (by omega)

/-- Swapping a list of fields that do not overlap swaps each of them once, and nothing
else. -/
theorem foldl_bswap (fields : List (ℕ × ℕ)) (bytes : Bytes) (slot : Slot)
    (hfields : fields.Pairwise fun a b => a.1 + a.2 ≤ b.1 ∨ b.1 + b.2 ≤ a.1) :
    ((∀ field ∈ fields, slot.offset + slot.width ≤ field.1 ∨ field.1 + field.2 ≤ slot.offset) →
      (fields.foldl (fun bytes field => bytes.bswap field.1 field.2) bytes).slice slot.offset
        slot.width = bytes.slice slot.offset slot.width) ∧
    ((slot.offset, slot.width) ∈ fields →
      (fields.foldl (fun bytes field => bytes.bswap field.1 field.2) bytes).slice slot.offset
        slot.width = (bytes.slice slot.offset slot.width).reverse) := by
  induction fields generalizing bytes with
  | nil => simp
  | cons first others ih =>
      obtain ⟨hfirst, hothers⟩ := List.pairwise_cons.mp hfields
      obtain ⟨ihkeep, ihswap⟩ := ih (bytes.bswap first.1 first.2) hothers
      simp only [List.foldl_cons]
      constructor
      · intro hdisjoint
        rw [ihkeep fun field hmem => hdisjoint field (List.mem_cons_of_mem _ hmem)]
        exact Bytes.slice_bswap_of_disjoint bytes (hdisjoint first List.mem_cons_self)
      · intro hmem
        rcases List.mem_cons.mp hmem with rfl | hmem
        · rw [ihkeep fun field hfield => hfirst field hfield]
          exact Bytes.slice_bswap bytes slot.offset slot.width
        · rw [ihswap hmem, Bytes.slice_bswap_of_disjoint bytes (hfirst _ hmem).symm]

/-- The fields that `vtuner_body_byteswap` swaps do not overlap … -/
theorem swapFields_pairwise (request : Request) :
    (swapFields request).Pairwise fun a b => a.1 + a.2 ≤ b.1 ∨ b.1 + b.2 ≤ a.1 := by
  cases request <;> decide

/-- … and they are all the fields of more than one byte. -/
theorem swapFields_covers (request : Request) :
    ∀ slot ∈ request.slots, (slot.offset, slot.width) ∈ swapFields request ∨
      slot.width = 1 ∧ ∀ field ∈ swapFields request,
        slot.offset + slot.width ≤ field.1 ∨ field.1 + field.2 ≤ slot.offset := by
  cases request <;> decide +kernel

/-- **The swap itself is right.**  Called with the number of a request, which the control
thread does not do, `vtuner_body_byteswap` turns the values of all fields into those the
client has written.  The property lists are not covered: it leaves out their `result`. -/
theorem vtunerBodyByteswap_digits {uapi : Uapi} {number : BitVec 32} {request : Request}
    (hnumber : uapi.request number = some request) (hset : request ≠ .feSetProperty)
    (hget : request ≠ .feGetProperty) (order : ByteOrder) (body : Bytes) {slot : Slot}
    (hslot : slot ∈ request.slots) :
    (vtunerBodyByteswap uapi order body number).digits order slot =
      body.digits order.other slot := by
  have hswap : vtunerBodyByteswap uapi order body number =
      (swapFields request).foldl (fun bytes field => bytes.bswap field.1 field.2) body := by
    rw [vtunerBodyByteswap, hnumber]
    cases request <;> first | rfl | exact absurd rfl hset | exact absurd rfl hget
  obtain ⟨hkeep, hreverse⟩ := foldl_bswap (swapFields request) body slot
    (swapFields_pairwise request)
  have hslice : (vtunerBodyByteswap uapi order body number).slice slot.offset slot.width =
      (body.slice slot.offset slot.width).reverse := by
    rw [hswap]
    rcases swapFields_covers request slot hslot with hmem | ⟨hwidth, hdisjoint⟩
    · exact hreverse hmem
    · rw [hkeep hdisjoint, hwidth]
      rfl
  cases order <;> simp only [Bytes.digits, ByteOrder.other, hslice, List.reverse_reverse]

end Webcamd.Vtuner
