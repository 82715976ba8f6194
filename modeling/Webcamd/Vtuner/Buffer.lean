import Webcamd.Vtuner.Message

/-!
# Buffers and the bytes a socket carries

Both channels of the protocol move the bytes of a buffer through a socket, in pieces of
any size.  What a `write` call takes from a buffer and what a `read` call puts into one
are lists of bytes; the words of a header are loads and stores of the buffer.

* `Bytes.slice` — the bytes of a range of the buffer.  Ranges that follow one another are
  one range (`slice_append`), so a loop of short transfers is one long transfer.
* `front_overlay`, `slice_front_overlay`, `load32_front_overlay` — a copy to the front of a
  buffer, read again.
* `Bytes.write` — a list of bytes is put into the buffer.  It is found there again
  (`slice_write`), and the other bytes stay (`slice_write_of_disjoint`).
* `load32_store32`, `load32_bswap`, `load32_other` — a word that is written on one machine
  and read on another.
-/

namespace Webcamd.Vtuner

/-- What a socket carries. -/
abbrev Byte := BitVec 8

/-- The other byte order. -/
def ByteOrder.other : ByteOrder → ByteOrder
  | .little => .big
  | .big => .little

@[simp] theorem ByteOrder.other_other (order : ByteOrder) : order.other.other = order := by
  cases order <;> rfl

theorem ByteOrder.eq_or_eq_other (order another : ByteOrder) :
    order = another ∨ order = another.other := by
  cases order <;> cases another <;> simp [ByteOrder.other]

/-! ### The bytes of a word -/

/-- The bytes of a word, put together again. -/
theorem extract16_append (value : BitVec 16) :
    value.extractLsb' 8 8 ++ value.extractLsb' 0 8 = value := by
  rw [BitVec.extractLsb'_append_extractLsb'_eq_extractLsb' (by rfl)]
  exact BitVec.extractLsb'_eq_self

theorem extract32_append (value : BitVec 32) :
    value.extractLsb' 24 8 ++ value.extractLsb' 16 8 ++ value.extractLsb' 8 8 ++
      value.extractLsb' 0 8 = value := by
  rw [BitVec.extractLsb'_append_extractLsb'_eq_extractLsb' (by rfl),
    BitVec.extractLsb'_append_extractLsb'_eq_extractLsb' (by rfl),
    BitVec.extractLsb'_append_extractLsb'_eq_extractLsb' (by rfl)]
  exact BitVec.extractLsb'_eq_self

theorem bswap16_append (a b : Byte) : bswap16 (a ++ b) = b ++ a := by
  have hlow : (a ++ b).extractLsb' 0 8 = b := BitVec.extractLsb'_append_eq_right
  have hhigh : (a ++ b).extractLsb' 8 8 = a := BitVec.extractLsb'_append_eq_left
  simp only [bswap16, hlow, hhigh]

theorem bswap32_append (a b c d : Byte) : bswap32 (a ++ b ++ c ++ d) = d ++ c ++ b ++ a := by
  have h0 : (a ++ b ++ c ++ d).extractLsb' 0 8 = d := BitVec.extractLsb'_append_eq_right
  have h1 : (a ++ b ++ c ++ d).extractLsb' 8 8 = c :=
    (BitVec.extractLsb'_append_eq_of_le le_rfl).trans BitVec.extractLsb'_append_eq_right
  have h2 : (a ++ b ++ c ++ d).extractLsb' 16 8 = b :=
    ((BitVec.extractLsb'_append_eq_of_le (by omega)).trans
      (BitVec.extractLsb'_append_eq_of_le le_rfl)).trans BitVec.extractLsb'_append_eq_right
  have h3 : (a ++ b ++ c ++ d).extractLsb' 24 8 = a :=
    ((BitVec.extractLsb'_append_eq_of_le (by omega)).trans
      (BitVec.extractLsb'_append_eq_of_le (by omega))).trans BitVec.extractLsb'_append_eq_left
  simp only [bswap32, h0, h1, h2, h3]

/-- Reversing twice changes nothing. -/
theorem bswap16_bswap16 (value : BitVec 16) : bswap16 (bswap16 value) = value :=
  (bswap16_append _ _).trans (extract16_append value)

theorem bswap32_bswap32 (value : BitVec 32) : bswap32 (bswap32 value) = value :=
  (bswap32_append _ _ _ _).trans (extract32_append value)

namespace Bytes

/-- `length` bytes from `start` on. -/
def slice (bytes : Bytes) (start length : ℕ) : List Byte :=
  (List.range length).map fun k => bytes (start + k)

/-- Put the bytes of a list at `start`. -/
def write (bytes : Bytes) (start : ℕ) (source : List Byte) : Bytes :=
  bytes.overlay start source.length fun k => source.getD k 0

variable {bytes other : Bytes} {order : ByteOrder} {start length : ℕ}

/-! ### Slices -/

@[simp] theorem length_slice (bytes : Bytes) (start length : ℕ) :
    (bytes.slice start length).length = length := by
  simp [slice]

@[simp] theorem slice_zero (bytes : Bytes) (start : ℕ) : bytes.slice start 0 = [] := rfl

theorem getElem?_slice (bytes : Bytes) (start : ℕ) {k : ℕ} (hk : k < length) :
    (bytes.slice start length)[k]? = some (bytes (start + k)) := by
  simp [slice, hk]

/-- Two ranges that follow one another. -/
theorem slice_append (bytes : Bytes) (start m n : ℕ) :
    bytes.slice start m ++ bytes.slice (start + m) n = bytes.slice start (m + n) := by
  simp [slice, List.range_add, Nat.add_assoc]

/-- A slice is the bytes of its range. -/
theorem slice_congr (h : ∀ k < length, bytes (start + k) = other (start + k)) :
    bytes.slice start length = other.slice start length := by
  refine List.map_congr_left fun k hk => ?_
  exact h k (List.mem_range.mp hk)

theorem apply_eq_of_slice_eq {t k : ℕ}
    (h : bytes.slice start length = other.slice t length) (hk : k < length) :
    bytes (start + k) = other (t + k) := by
  have hget := congrArg (fun list => list[k]?) h
  simpa only [getElem?_slice _ _ hk, Option.some.injEq] using hget

/-! ### Copying into a buffer -/

/-- The bytes of the range are copied … -/
theorem overlay_of_lt (bytes source : Bytes) {k : ℕ} (h : k < length) :
    bytes.overlay start length source (start + k) = source k := by
  have hin : start ≤ start + k ∧ start + k < start + length := by omega
  rw [overlay, if_pos hin, Nat.add_sub_cancel_left]

/-- … and the others stay. -/
theorem overlay_of_disjoint (bytes source : Bytes) {k : ℕ}
    (h : k < start ∨ start + length ≤ k) : bytes.overlay start length source k = bytes k := by
  have hout : ¬ (start ≤ k ∧ k < start + length) := by omega
  rw [overlay, if_neg hout]

/-- What the front of a buffer has after the copy. -/
theorem front_overlay (bytes source : Bytes) {k : ℕ} (h : k < length) :
    bytes.overlay 0 length source k = source k := by
  have hcopied : bytes.overlay 0 length source (0 + k) = source k := overlay_of_lt bytes source h
  rwa [Nat.zero_add] at hcopied

/-- A range inside of it. -/
theorem slice_front_overlay (bytes source : Bytes) {t size : ℕ} (h : t + length ≤ size) :
    (bytes.overlay 0 size source).slice t length = source.slice t length :=
  slice_congr fun _ hk => front_overlay bytes source (by omega)

theorem write_apply (bytes : Bytes) (start : ℕ) (source : List Byte) {k : ℕ}
    (hk : k < source.length) : bytes.write start source (start + k) = source[k] := by
  rw [write, overlay_of_lt _ _ hk, List.getD_eq_getElem _ _ hk]

theorem write_of_disjoint (bytes : Bytes) (source : List Byte) {k : ℕ}
    (h : k < start ∨ start + source.length ≤ k) : bytes.write start source k = bytes k :=
  overlay_of_disjoint bytes _ h

/-- What has been written is found again. -/
@[simp] theorem slice_write (bytes : Bytes) (start : ℕ) (source : List Byte) :
    (bytes.write start source).slice start source.length = source := by
  refine List.ext_getElem (by simp) fun k hslice hsource => ?_
  simp only [slice, List.getElem_map, List.getElem_range]
  exact write_apply bytes start source hsource

/-- The bytes outside the range stay. -/
theorem slice_write_of_disjoint (bytes : Bytes) (source : List Byte) {t : ℕ}
    (h : t + length ≤ start ∨ start + source.length ≤ t) :
    (bytes.write start source).slice t length = bytes.slice t length :=
  slice_congr fun _ hk => write_of_disjoint bytes source (by omega)

/-- A piece is put behind what is there already. -/
theorem slice_write_append (bytes : Bytes) (m : ℕ) (source : List Byte) :
    (bytes.write m source).slice 0 (m + source.length) = bytes.slice 0 m ++ source := by
  rw [← slice_append, slice_write_of_disjoint bytes source (by omega), Nat.zero_add,
    slice_write]

/-! ### Words -/

theorem store32_of_disjoint (bytes : Bytes) (order : ByteOrder) (value : BitVec 32) {k : ℕ}
    (h : k < start ∨ start + 4 ≤ k) : bytes.store32 order start value k = bytes k := by
  have hout : ¬ (start ≤ k ∧ k < start + 4) := by omega
  simp [store32, hout]

theorem slice_store32_of_disjoint (bytes : Bytes) (order : ByteOrder) (value : BitVec 32)
    {t : ℕ} (h : t + length ≤ start ∨ start + 4 ≤ t) :
    (bytes.store32 order start value).slice t length = bytes.slice t length :=
  slice_congr fun _ hk => store32_of_disjoint bytes order value (by omega)

/-- A word is read from its four bytes. -/
theorem load32_congr (h : ∀ k < 4, bytes (start + k) = other (start + k)) :
    bytes.load32 order start = other.load32 order start := by
  have h0 := h 0 (by omega)
  have h1 := h 1 (by omega)
  have h2 := h 2 (by omega)
  have h3 := h 3 (by omega)
  rw [Nat.add_zero] at h0
  simp only [load32, h0, h1, h2, h3]

theorem load32_store32_of_disjoint (bytes : Bytes) (storeOrder : ByteOrder)
    (value : BitVec 32) {t : ℕ} (h : t + 4 ≤ start ∨ start + 4 ≤ t) :
    (bytes.store32 storeOrder start value).load32 order t = bytes.load32 order t :=
  load32_congr fun _ hk => store32_of_disjoint bytes storeOrder value (by omega)

/-- A word at the front of a buffer, after the copy. -/
theorem load32_front_overlay (bytes source : Bytes) (order : ByteOrder) {t size : ℕ}
    (h : t + 4 ≤ size) :
    (bytes.overlay 0 size source).load32 order t = source.load32 order t :=
  load32_congr fun _ hk => front_overlay bytes source (by omega)

/-- A word is read as it was written by a machine of the same byte order … -/
@[simp] theorem load32_store32 (bytes : Bytes) (order : ByteOrder) (start : ℕ)
    (value : BitVec 32) : (bytes.store32 order start value).load32 order start = value := by
  cases order <;> simp [load32, store32, extract32_append]

/-- … and swapped if it was written by one of the other. -/
theorem load32_other (bytes : Bytes) (order : ByteOrder) (start : ℕ) :
    bytes.load32 order.other start = bswap32 (bytes.load32 order start) := by
  cases order <;> simp only [load32, ByteOrder.other, bswap32_append]

theorem load16_other (bytes : Bytes) (order : ByteOrder) (start : ℕ) :
    bytes.load16 order.other start = bswap16 (bytes.load16 order start) := by
  cases order <;> simp only [load16, ByteOrder.other, bswap16_append]

/-- Swapping a word in place changes the byte order in which it is read. -/
theorem load32_bswap (bytes : Bytes) (order : ByteOrder) (start : ℕ) :
    (bytes.bswap start 4).load32 order start = bytes.load32 order.other start := by
  cases order <;> simp [load32, bswap, ByteOrder.other]

theorem bswap_of_disjoint (bytes : Bytes) {width k : ℕ} (h : k < start ∨ start + width ≤ k) :
    bytes.bswap start width k = bytes k := by
  have hout : ¬ (start ≤ k ∧ k < start + width) := by omega
  simp [bswap, hout]

theorem load32_bswap_of_disjoint (bytes : Bytes) (order : ByteOrder) {width t : ℕ}
    (h : t + 4 ≤ start ∨ start + width ≤ t) :
    (bytes.bswap start width).load32 order t = bytes.load32 order t :=
  load32_congr fun _ hk => bswap_of_disjoint bytes (by omega)

end Bytes

end Webcamd.Vtuner
