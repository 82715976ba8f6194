import Webcamd.Vtuner.CrossEndian
import Webcamd.Vtuner.DataChannel

/-!
# Swapping twice

Each side of the protocol swaps what it has received, and the reply to it in the same way; a message
that is swapped twice must be what it was.  For a list of properties the fields depend on the
commands in it, which are swapped themselves.

* `swapAll` — fields that do not overlap, swapped one after the other.
* `swapAll_swapAll` — swapping them twice restores every byte.
* `propFields_bswap` — a property has the same fields before and after its command is swapped.
* `vtunerBodyByteswap_eq` — the body is swapped by its `swappedFields`.
* `byteswap_involution` — body and header are restored, and other bytes do not change.
-/

namespace Webcamd.Vtuner

open DataChannel (vtunerDataHdrByteswap)

/-! ### Fields that do not overlap -/

/-- Two fields without a common byte. -/
def Apart (a b : ℕ × ℕ) : Prop := a.1 + a.2 ≤ b.1 ∨ b.1 + b.2 ≤ a.1

/-- A byte is in a field. -/
def InField (field : ℕ × ℕ) (k : ℕ) : Prop := field.1 ≤ k ∧ k < field.1 + field.2

/-- Swap each of the fields. -/
def swapAll (fields : List (ℕ × ℕ)) (body : Bytes) : Bytes :=
  fields.foldl (fun bytes field => bytes.bswap field.1 field.2) body

/-- Where the byte goes that is at this place in the field. -/
def mirror (field : ℕ × ℕ) (k : ℕ) : ℕ := field.1 + (field.2 - 1 - (k - field.1))

theorem mirror_mem {field : ℕ × ℕ} {k : ℕ} (h : InField field k) :
    InField field (mirror field k) := by
  unfold InField mirror at *
  omega

theorem mirror_mirror {field : ℕ × ℕ} {k : ℕ} (h : InField field k) :
    mirror field (mirror field k) = k := by
  unfold InField at h
  unfold mirror
  omega

theorem bswap_of_mem {field : ℕ × ℕ} {k : ℕ} (body : Bytes) (h : InField field k) :
    body.bswap field.1 field.2 k = body (mirror field k) := if_pos h

theorem bswap_of_not_mem {field : ℕ × ℕ} {k : ℕ} (body : Bytes) (h : ¬ InField field k) :
    body.bswap field.1 field.2 k = body k := if_neg h

theorem Apart.not_mem {a b : ℕ × ℕ} {k : ℕ} (hapart : Apart a b) (h : InField a k) :
    ¬ InField b k := by
  unfold Apart InField at *
  omega

theorem swapAll_append (fields others : List (ℕ × ℕ)) (body : Bytes) :
    swapAll (fields ++ others) body = swapAll others (swapAll fields body) :=
  List.foldl_append

/-- **Other bytes** do not change. -/
theorem swapAll_of_not_mem {fields : List (ℕ × ℕ)} {k : ℕ}
    (h : ∀ field ∈ fields, ¬ InField field k) (body : Bytes) : swapAll fields body k = body k := by
  induction fields generalizing body with
  | nil => rfl
  | cons first others ih =>
      have hothers : ∀ field ∈ others, ¬ InField field k :=
        fun field hmem => h field (List.mem_cons_of_mem first hmem)
      show swapAll others (body.bswap first.1 first.2) k = body k
      rw [ih hothers, bswap_of_not_mem body (h first List.mem_cons_self)]

/-- A byte of a field goes to the other end of it. -/
theorem swapAll_of_mem {fields : List (ℕ × ℕ)} (hapart : fields.Pairwise Apart)
    {field : ℕ × ℕ} {k : ℕ} (hfield : field ∈ fields) (h : InField field k) (body : Bytes) :
    swapAll fields body k = body (mirror field k) := by
  induction fields generalizing body with
  | nil => cases hfield
  | cons first others ih =>
      obtain ⟨hfirst, hothers⟩ := List.pairwise_cons.mp hapart
      show swapAll others (body.bswap first.1 first.2) k = body (mirror field k)
      rcases List.mem_cons.mp hfield with rfl | hmem
      · rw [swapAll_of_not_mem (fun other hother => (hfirst other hother).not_mem h),
          bswap_of_mem body h]
      · have hother : ¬ InField first (mirror field k) :=
          fun hin => (hfirst field hmem).not_mem hin (mirror_mem h)
        rw [ih hothers hmem, bswap_of_not_mem body hother]

/-- **Swapping twice** restores every byte. -/
theorem swapAll_swapAll {fields : List (ℕ × ℕ)} (hapart : fields.Pairwise Apart) (body : Bytes) :
    swapAll fields (swapAll fields body) = body := by
  funext k
  by_cases hin : ∃ field ∈ fields, InField field k
  · obtain ⟨field, hfield, hk⟩ := hin
    rw [swapAll_of_mem hapart hfield hk, swapAll_of_mem hapart hfield (mirror_mem hk),
      mirror_mirror hk]
  · have hout : ∀ field ∈ fields, ¬ InField field k :=
      fun field hmem hk => hin ⟨field, hmem, hk⟩
    rw [swapAll_of_not_mem hout, swapAll_of_not_mem hout]

/-! ### Properties -/

section Properties

variable (uapi : Uapi) (order : ByteOrder)

/-- The command of a property has a buffer in one of the two byte orders. -/
def hasBuf (body : Bytes) (i : ℕ) : Bool :=
  uapi.hasBuffer (body.load32 order (propOffset i)) ||
    uapi.hasBuffer (body.load32 order.other (propOffset i))

/-- The fields of a property that are swapped. -/
def propFields (body : Bytes) (i : ℕ) : List (ℕ × ℕ) :=
  [(propOffset i, 4), (propOffset i + 4, 4), (propOffset i + 8, 4), (propOffset i + 12, 4),
    if hasBuf uapi order body i then (propOffset i + 48, 4) else (propOffset i + 16, 4)]

/-- The fields are in the property. -/
theorem propFields_range {body : Bytes} {i : ℕ} {field : ℕ × ℕ}
    (h : field ∈ propFields uapi order body i) :
    propOffset i ≤ field.1 ∧ field.1 + field.2 ≤ propOffset i + 56 := by
  unfold propFields at h
  split at h <;> simp only [List.mem_cons, List.not_mem_nil, or_false] at h <;>
    rcases h with rfl | rfl | rfl | rfl | rfl <;> omega

theorem propFields_pairwise (body : Bytes) (i : ℕ) :
    (propFields uapi order body i).Pairwise Apart := by
  unfold propFields Apart
  split <;> simp

/-- The loop body swaps these fields. -/
theorem swapProp_eq (body : Bytes) (i : ℕ) :
    swapProp uapi order body i = swapAll (propFields uapi order body i) body := by
  unfold swapProp propFields hasBuf swapAll
  simp only [Bytes.load32_bswap]
  split <;> rfl

/-- The fields depend on the command only. -/
theorem propFields_congr {body another : Bytes} {i : ℕ}
    (h : ∀ k < 4, body (propOffset i + k) = another (propOffset i + k)) :
    propFields uapi order body i = propFields uapi order another i := by
  unfold propFields hasBuf
  rw [Bytes.load32_congr h, Bytes.load32_congr h]

/-- **The choice is symmetric**: a property has the same fields when its command is swapped. -/
theorem propFields_bswap (body : Bytes) (i : ℕ) :
    propFields uapi order (body.bswap (propOffset i) 4) i = propFields uapi order body i := by
  unfold propFields hasBuf
  rw [Bytes.load32_bswap, Bytes.load32_bswap, ByteOrder.other_other, Bool.or_comm]

/-- The fields of the first properties, with the number in front. -/
def listFields (body : Bytes) (max : ℕ) : List (ℕ × ℕ) :=
  (0, 4) :: (List.range max).flatMap (propFields uapi order body)

/-- The fields of the first properties are before the next one. -/
theorem listFields_end {body : Bytes} {max : ℕ} {field : ℕ × ℕ}
    (h : field ∈ listFields uapi order body max) : field.1 + field.2 ≤ propOffset max := by
  rcases List.mem_cons.mp h with rfl | hmem
  · simp [propOffset]
  · obtain ⟨i, hi, hfield⟩ := List.mem_flatMap.mp hmem
    have hrange := propFields_range uapi order hfield
    have hlt := List.mem_range.mp hi
    unfold propOffset at *
    omega

theorem listFields_succ (body : Bytes) (max : ℕ) :
    listFields uapi order body (max + 1) =
      listFields uapi order body max ++ propFields uapi order body max := by
  unfold listFields
  rw [List.range_succ, List.flatMap_append, List.flatMap_singleton, List.cons_append]

theorem listFields_pairwise (body : Bytes) (max : ℕ) :
    (listFields uapi order body max).Pairwise Apart := by
  induction max with
  | zero => exact List.pairwise_singleton _ _
  | succ max ih =>
      rw [listFields_succ, List.pairwise_append]
      refine ⟨ih, propFields_pairwise uapi order body max, ?_⟩
      intro field hfield other hother
      have hend := listFields_end uapi order hfield
      have hrange := propFields_range uapi order hother
      exact Or.inl (hend.trans hrange.1)

/-- **The loop** swaps the fields of all properties. -/
theorem foldl_swapProp (body : Bytes) (max : ℕ) :
    (List.range max).foldl (swapProp uapi order) (body.bswap 0 4) =
      swapAll (listFields uapi order body max) body := by
  induction max with
  | zero => rfl
  | succ max ih =>
      rw [List.range_succ, List.foldl_append, ih, listFields_succ, swapAll_append]
      show swapProp uapi order (swapAll (listFields uapi order body max) body) max = _
      rw [swapProp_eq]
      -- the properties before it have left its command alone
      congr 1
      apply propFields_congr
      intro k _
      apply swapAll_of_not_mem
      intro field hfield
      have hend := listFields_end uapi order hfield
      unfold InField
      omega

/-- A property of a list that has been swapped has the same fields. -/
theorem propFields_swapAll (body : Bytes) {i max : ℕ} (hi : i < max) :
    propFields uapi order (swapAll (listFields uapi order body max) body) i =
      propFields uapi order body i := by
  have hmem : (propOffset i, 4) ∈ listFields uapi order body max :=
    List.mem_cons_of_mem _ (List.mem_flatMap.mpr
      ⟨i, List.mem_range.mpr hi, List.mem_cons_self⟩)
  refine (propFields_congr uapi order ?_).trans (propFields_bswap uapi order body i)
  intro k hk
  have hin : InField (propOffset i, 4) (propOffset i + k) := by
    unfold InField
    omega
  rw [swapAll_of_mem (listFields_pairwise uapi order body max) hmem hin]
  exact (bswap_of_mem body hin).symm

/-- So the list has. -/
theorem listFields_swapAll (body : Bytes) (max : ℕ) :
    listFields uapi order (swapAll (listFields uapi order body max) body) max =
      listFields uapi order body max := by
  have hsame : (List.range max).flatMap
      (propFields uapi order (swapAll (listFields uapi order body max) body)) =
        (List.range max).flatMap (propFields uapi order body) :=
    List.flatMap_congr fun i hi => propFields_swapAll uapi order body (List.mem_range.mp hi)
  exact congrArg ((0, 4) :: ·) hsame

end Properties

/-! ### Messages -/

/-- The fields of a body that `vtuner_body_byteswap` swaps. -/
def swappedFields (uapi : Uapi) (order : ByteOrder) (body : Bytes) (type : BitVec 32) :
    List (ℕ × ℕ) :=
  match uapi.request type with
  | none => []
  | some .feSetProperty | some .feGetProperty => listFields uapi order body propMax
  | some request => swapFields request

/-- The body is swapped field by field. -/
theorem vtunerBodyByteswap_eq (uapi : Uapi) (order : ByteOrder) (body : Bytes)
    (type : BitVec 32) :
    vtunerBodyByteswap uapi order body type =
      swapAll (swappedFields uapi order body type) body := by
  unfold vtunerBodyByteswap swappedFields
  cases uapi.request type with
  | none => rfl
  | some request =>
      cases request with
      | feSetProperty => exact foldl_swapProp uapi order body propMax
      | feGetProperty => exact foldl_swapProp uapi order body propMax
      | _ => rfl

theorem swappedFields_pairwise (uapi : Uapi) (order : ByteOrder) (body : Bytes)
    (type : BitVec 32) : (swappedFields uapi order body type).Pairwise Apart := by
  unfold swappedFields
  split
  · exact List.Pairwise.nil
  · exact listFields_pairwise uapi order body propMax
  · exact listFields_pairwise uapi order body propMax
  · exact swapFields_pairwise _

/-- **The second pass** swaps the same fields. -/
theorem swappedFields_byteswap (uapi : Uapi) (order : ByteOrder) (body : Bytes)
    (type : BitVec 32) :
    swappedFields uapi order (vtunerBodyByteswap uapi order body type) type =
      swappedFields uapi order body type := by
  rw [vtunerBodyByteswap_eq]
  unfold swappedFields
  split
  · rfl
  · exact listFields_swapAll uapi order body propMax
  · exact listFields_swapAll uapi order body propMax
  · rfl

/-- **Byte swapping is an involution.**  Two passes with the same type restore every byte of the
body, whatever the type and the bytes are; they restore the header, and the one of the data channel.
A pass changes no byte outside the fields that it swaps, which are the same in both. -/
theorem byteswap_involution (uapi : Uapi) (order : ByteOrder) (body : Bytes) (type : BitVec 32)
    (hdr : Hdr) (data : Bytes) :
    vtunerBodyByteswap uapi order (vtunerBodyByteswap uapi order body type) type = body ∧
      vtunerHdrByteswap (vtunerHdrByteswap hdr) = hdr ∧
      vtunerDataHdrByteswap (vtunerDataHdrByteswap data) = data ∧
      swappedFields uapi order (vtunerBodyByteswap uapi order body type) type =
        swappedFields uapi order body type ∧
      (∀ k, (∀ field ∈ swappedFields uapi order body type, ¬ InField field k) →
        vtunerBodyByteswap uapi order body type k = body k) ∧
      ∀ k, 8 ≤ k → vtunerDataHdrByteswap data k = data k := by
  have hdata (buffer : Bytes) : vtunerDataHdrByteswap buffer = swapAll [(0, 4), (4, 4)] buffer :=
    rfl
  have hdataApart : [(0, 4), (4, 4)].Pairwise Apart := by
    unfold Apart
    simp
  refine ⟨?_, vtunerHdrByteswap_byteswap hdr, ?_, swappedFields_byteswap uapi order body type,
    ?_, ?_⟩
  · rw [vtunerBodyByteswap_eq, swappedFields_byteswap, vtunerBodyByteswap_eq]
    exact swapAll_swapAll (swappedFields_pairwise uapi order body type) body
  · rw [hdata, hdata]
    exact swapAll_swapAll hdataApart data
  · intro k hout
    rw [vtunerBodyByteswap_eq]
    exact swapAll_of_not_mem hout body
  · intro k hk
    rw [hdata]
    apply swapAll_of_not_mem
    intro field hfield
    rcases List.mem_pair.mp hfield with rfl | rfl
    · unfold InField
      omega
    · unfold InField
      omega

end Webcamd.Vtuner
