import Mathlib
import Webcamd.Library.LittleEndian

/-!
# Byte order

The functions of `kernel/linux_func.c` that read and write words byte by byte, for an `int` of 32
bits.

* `getUnaligned`, `putUnaligned` — reading and writing, for a list of the places of the bytes; a
  word is read as it was written (`getUnaligned_putUnaligned`), and backwards the bytes come in the
  other order (`putUnaligned_reverse`).
* `le16ToCpus`, `le32ToCpus`, `le64ToCpus` — the conversions in place, which put bytes together in
  an `int`.
* `helpersAgree_iff` — they do what the others do, but for the lower half of 64 bits: it is
  extended with its sign, and covers the upper half where it is negative.
-/

namespace Webcamd.Kernel.ByteOrder

open Library

/-- `uint8_t *` -/
abbrev Bytes := ℕ → BitVec 8

/-! ### The functions -/

section Functions

variable {width : ℕ}

/-- `val = ptr[first]`, and `val <<= 8; val |= ptr[i]` for the other places in turn. -/
def getUnaligned (width first : ℕ) (rest : List ℕ) (ptr : Bytes) : BitVec width :=
  rest.foldl (fun val i => val <<< 8 ||| (ptr i).setWidth width) ((ptr first).setWidth width)

/-- `ptr[i] = val; val >>= 8` for the places in turn. -/
def putUnaligned (val : BitVec width) : List ℕ → Bytes → Bytes
  | [], ptr => ptr
  | i :: rest, ptr => putUnaligned (val >>> 8) rest (Function.update ptr i (val.setWidth 8))

/-- `put_unaligned_le64` -/
def putUnalignedLe64 (val : BitVec 64) (ptr : Bytes) : Bytes :=
  putUnaligned val [0, 1, 2, 3, 4, 5, 6, 7] ptr

/-- `put_unaligned_be64` -/
def putUnalignedBe64 (val : BitVec 64) (ptr : Bytes) : Bytes :=
  putUnaligned val [7, 6, 5, 4, 3, 2, 1, 0] ptr

/-- `put_unaligned_le32` -/
def putUnalignedLe32 (val : BitVec 32) (ptr : Bytes) : Bytes :=
  putUnaligned val [0, 1, 2, 3] ptr

/-- `put_unaligned_be32` -/
def putUnalignedBe32 (val : BitVec 32) (ptr : Bytes) : Bytes :=
  putUnaligned val [3, 2, 1, 0] ptr

/-- `put_unaligned_be16`, which begins with the upper byte -/
def putUnalignedBe16 (val : BitVec 16) (ptr : Bytes) : Bytes :=
  Function.update (Function.update ptr 0 ((val >>> 8).setWidth 8)) 1 (val.setWidth 8)

/-- `put_unaligned_le16` -/
def putUnalignedLe16 (val : BitVec 16) (ptr : Bytes) : Bytes :=
  putUnaligned val [0, 1] ptr

/-- `get_unaligned_le64` -/
def getUnalignedLe64 (ptr : Bytes) : BitVec 64 := getUnaligned 64 7 [6, 5, 4, 3, 2, 1, 0] ptr

/-- `get_unaligned_be64` -/
def getUnalignedBe64 (ptr : Bytes) : BitVec 64 := getUnaligned 64 0 [1, 2, 3, 4, 5, 6, 7] ptr

/-- `get_unaligned_le32` -/
def getUnalignedLe32 (ptr : Bytes) : BitVec 32 := getUnaligned 32 3 [2, 1, 0] ptr

/-- `get_unaligned_be32` -/
def getUnalignedBe32 (ptr : Bytes) : BitVec 32 := getUnaligned 32 0 [1, 2, 3] ptr

/-- `get_unaligned_be16` -/
def getUnalignedBe16 (ptr : Bytes) : BitVec 16 := getUnaligned 16 0 [1] ptr

/-- `get_unaligned_le16` -/
def getUnalignedLe16 (ptr : Bytes) : BitVec 16 := getUnaligned 16 1 [0] ptr

/-- A byte that is promoted to `int`. -/
def int (byte : BitVec 8) : BitVec 32 := byte.setWidth 32

/-- `le16_to_cpus`: the value that is stored -/
def le16ToCpus (p : Bytes) : BitVec 16 := (int (p 0) ||| int (p 1) <<< 8).setWidth 16

/-- The `int` that four bytes are put together to. -/
def intWord (a b c d : BitVec 8) : BitVec 32 :=
  int a ||| int b <<< 8 ||| int c <<< 16 ||| int d <<< 24

/-- `le32_to_cpus` -/
def le32ToCpus (p : Bytes) : BitVec 32 := intWord (p 0) (p 1) (p 2) (p 3)

/-- `le64_to_cpus`: both halves are put together in an `int`, which is extended with its sign. -/
def le64ToCpus (p : Bytes) : BitVec 64 :=
  let temp := (intWord (p 4) (p 5) (p 6) (p 7)).signExtend 64
  let temp := temp <<< 32
  temp ||| (intWord (p 0) (p 1) (p 2) (p 3)).signExtend 64

end Functions

/-! ### Reading and writing -/

section Unaligned

variable {width : ℕ} {val : BitVec width} {places : List ℕ} {ptr : Bytes}

/-- **Reading** begins with the most significant byte. -/
theorem getUnaligned_eq (first : ℕ) (rest : List ℕ) :
    getUnaligned width first rest ptr = ofBytes width ((first :: rest).reverse.map ptr) := by
  induction rest using List.reverseRecOn with
  | nil =>
      show _ = BitVec.ofNat width 0 <<< 8 ||| (ptr first).setWidth width
      rw [BitVec.zero_shiftLeft, BitVec.zero_or]
      rfl
  | append_singleton rest last ih =>
      unfold getUnaligned at ih ⊢
      rw [List.foldl_append, ih, ← List.cons_append, List.reverse_append]
      rfl

theorem putUnaligned_of_notMem {i : ℕ} (h : i ∉ places) :
    putUnaligned val places ptr i = ptr i := by
  induction places generalizing val ptr with
  | nil => rfl
  | cons first places ih =>
      rw [List.mem_cons, not_or] at h
      unfold putUnaligned
      rw [ih h.2, Function.update_of_ne h.1]

/-- **Writing** begins with the least significant byte. -/
theorem map_putUnaligned (hnodup : places.Nodup) :
    places.map (putUnaligned val places ptr) = toBytes places.length val := by
  induction places generalizing val ptr with
  | nil => rfl
  | cons first places ih =>
      obtain ⟨hnew, hnodup⟩ := List.nodup_cons.mp hnodup
      unfold putUnaligned
      rw [List.map_cons, ih hnodup, putUnaligned_of_notMem hnew, Function.update_self]
      rfl

/-- **A word is read as it was written**, at the same places. -/
theorem getUnaligned_putUnaligned {first : ℕ} {rest : List ℕ}
    (hplaces : (first :: rest).reverse = places) (hnodup : places.Nodup)
    (hwidth : width ≤ 8 * places.length) :
    getUnaligned width first rest (putUnaligned val places ptr) = val := by
  rw [getUnaligned_eq, hplaces, map_putUnaligned hnodup, ofBytes_toBytes val hwidth]

/-- The bytes of a word that is written backwards. -/
theorem putUnaligned_reverse {count i : ℕ} (hi : i < count) :
    putUnaligned val (List.range count).reverse ptr i =
      putUnaligned val (List.range count) ptr (count - 1 - i) := by
  have hback := @map_putUnaligned _ val (List.range count).reverse ptr
    (List.nodup_reverse.mpr List.nodup_range)
  have hforth := @map_putUnaligned _ val (List.range count) ptr List.nodup_range
  rw [List.length_reverse, ← hforth] at hback
  -- both lists of places give the bytes in the same order, from the least significant one on
  have hbyte := congrArg (fun bytes => bytes[count - 1 - i]?) hback
  have hplace : count - 1 - i < count := by omega
  have hsame : count - 1 - (count - 1 - i) = i := by omega
  simpa [hplace, hsame] using hbyte

theorem putUnalignedBe16_eq (val : BitVec 16) :
    putUnalignedBe16 val ptr = putUnaligned val [1, 0] ptr :=
  Function.update_comm Nat.zero_ne_one _ _ _

end Unaligned

/-! ### The conversions in place -/

section InPlace

variable {a b c d : BitVec 8} {p : Bytes}

theorem int_two : int a ||| int b <<< 8 = ofBytes 32 [a, b] := by
  show _ = (BitVec.ofNat 32 0 <<< 8 ||| int b) <<< 8 ||| int a
  rw [BitVec.zero_shiftLeft, BitVec.zero_or, BitVec.or_comm]

theorem intWord_eq : intWord a b c d = ofBytes 32 [a, b, c, d] := by
  have happend : ofBytes 32 ([a, b] ++ [c, d]) =
      ofBytes 32 [c, d] <<< 16 ||| ofBytes 32 [a, b] := ofBytes_append _ _
  rw [show [a, b, c, d] = [a, b] ++ [c, d] from rfl, happend, ← int_two, ← int_two,
    BitVec.shiftLeft_or_distrib, ← BitVec.shiftLeft_add, show 8 + 16 = 24 from rfl]
  exact (BitVec.or_assoc _ _ _).trans (BitVec.or_comm _ _)

theorem le16ToCpus_eq : le16ToCpus p = getUnalignedLe16 p := by
  unfold le16ToCpus getUnalignedLe16
  rw [int_two, setWidth_ofBytes (show 8 * 2 ≤ 32 by decide), getUnaligned_eq]
  rfl

theorem le32ToCpus_eq : le32ToCpus p = getUnalignedLe32 p := by
  unfold le32ToCpus getUnalignedLe32
  rw [intWord_eq, getUnaligned_eq]
  rfl

/-- Two halves, of which the lower one is extended with its sign, or with zeros. -/
theorem getLsbD_signed (high low : BitVec 32) {k : ℕ} (hk : k < 32) :
    (high.signExtend 64 <<< 32 ||| low.signExtend 64).getLsbD k = low.getLsbD k ∧
      (high.signExtend 64 <<< 32 ||| low.signExtend 64).getLsbD (32 + k) =
        (high.getLsbD k || low.msb) := by
  have hk' : k < 64 := by omega
  have hupper : 32 + k < 64 := by omega
  simp only [BitVec.getLsbD_or, BitVec.getLsbD_shiftLeft, BitVec.getLsbD_signExtend]
  simp [hk, hk', hupper]

theorem getLsbD_unsigned (high low : BitVec 32) {k : ℕ} (hk : k < 32) :
    (high.setWidth 64 <<< 32 ||| low.setWidth 64).getLsbD k = low.getLsbD k ∧
      (high.setWidth 64 <<< 32 ||| low.setWidth 64).getLsbD (32 + k) = high.getLsbD k := by
  have hk' : k < 64 := by omega
  have hupper : 32 + k < 64 := by omega
  simp [hk, hk', hupper]

/-- **A lower half that is extended with its sign** covers the upper half, unless that is all
ones. -/
theorem signed_eq_unsigned_iff (high low : BitVec 32) :
    high.signExtend 64 <<< 32 ||| low.signExtend 64 =
      high.setWidth 64 <<< 32 ||| low.setWidth 64 ↔
        low.msb = false ∨ high = BitVec.allOnes 32 := by
  constructor
  · intro heq
    refine or_iff_not_imp_left.mpr fun hneg => BitVec.eq_of_getLsbD_eq fun k hk => ?_
    -- a negative lower half sets all bits of the upper one
    have hmsb : low.msb = true := by simpa using hneg
    have hbit := (getLsbD_signed high low hk).2
    rw [heq, (getLsbD_unsigned high low hk).2, hmsb, Bool.or_true] at hbit
    rw [hbit, BitVec.getLsbD_allOnes, decide_eq_true hk]
  · intro h
    refine BitVec.eq_of_getLsbD_eq fun i hi => ?_
    by_cases hlow : i < 32
    · rw [(getLsbD_signed high low hlow).1, (getLsbD_unsigned high low hlow).1]
    · obtain ⟨k, rfl⟩ := Nat.exists_eq_add_of_le (not_lt.mp hlow)
      have hk : k < 32 := by omega
      rw [(getLsbD_signed high low hk).2, (getLsbD_unsigned high low hk).2]
      rcases h with hpos | rfl
      · rw [hpos, Bool.or_false]
      · rw [BitVec.getLsbD_allOnes, decide_eq_true hk, Bool.true_or]

/-- Four bytes give all ones just if all of them do. -/
theorem ofBytes_eq_allOnes_iff : ofBytes 32 [a, b, c, d] = BitVec.allOnes 32 ↔
    a = 255 ∧ b = 255 ∧ c = 255 ∧ d = 255 := by
  constructor
  · intro heq
    have hbytes : toBytes 4 (ofBytes 32 [a, b, c, d]) = [a, b, c, d] :=
      @toBytes_ofBytes 32 [a, b, c, d] (show 8 * 4 ≤ 32 by decide)
    rw [heq] at hbytes
    have hones : toBytes 4 (BitVec.allOnes 32) = [255, 255, 255, 255] := by decide
    simpa [eq_comm] using hones.symm.trans hbytes
  · rintro ⟨rfl, rfl, rfl, rfl⟩
    decide

theorem msb_ofBytes : (ofBytes 32 [a, b, c, d]).msb = d.msb := by
  rw [BitVec.msb_eq_getLsbD_last, BitVec.msb_eq_getLsbD_last, getLsbD_ofBytes]
  rfl

theorem getUnalignedLe64_eq : getUnalignedLe64 p =
    (ofBytes 32 [p 4, p 5, p 6, p 7]).setWidth 64 <<< 32 |||
      (ofBytes 32 [p 0, p 1, p 2, p 3]).setWidth 64 := by
  unfold getUnalignedLe64
  rw [getUnaligned_eq, setWidth_ofBytes (show 8 * 4 ≤ 32 by decide),
    setWidth_ofBytes (show 8 * 4 ≤ 32 by decide)]
  exact ofBytes_append [p 0, p 1, p 2, p 3] [p 4, p 5, p 6, p 7]

/-- **The conversion of 64 bits** is right if the lower half is not negative as an `int`, or the
upper half is all ones. -/
theorem le64ToCpus_eq_iff : le64ToCpus p = getUnalignedLe64 p ↔
    (p 3).msb = false ∨ p 4 = 255 ∧ p 5 = 255 ∧ p 6 = 255 ∧ p 7 = 255 := by
  rw [getUnalignedLe64_eq, ← ofBytes_eq_allOnes_iff, ← @msb_ofBytes (p 0) (p 1) (p 2),
    ← signed_eq_unsigned_iff]
  unfold le64ToCpus
  rw [intWord_eq, intWord_eq]

end InPlace

/-! ### The functions together -/

section Agree

/-- What the functions are for: on the bytes at `ptr`, and for values that are written there. -/
structure HelpersAgree (ptr : Bytes) (val16 : BitVec 16) (val32 : BitVec 32) (val64 : BitVec 64) :
    Prop where
  cpus16 : le16ToCpus ptr = getUnalignedLe16 ptr
  cpus32 : le32ToCpus ptr = getUnalignedLe32 ptr
  cpus64 : le64ToCpus ptr = getUnalignedLe64 ptr
  le16 : getUnalignedLe16 (putUnalignedLe16 val16 ptr) = val16
  le32 : getUnalignedLe32 (putUnalignedLe32 val32 ptr) = val32
  le64 : getUnalignedLe64 (putUnalignedLe64 val64 ptr) = val64
  be16 : getUnalignedBe16 (putUnalignedBe16 val16 ptr) = val16
  be32 : getUnalignedBe32 (putUnalignedBe32 val32 ptr) = val32
  be64 : getUnalignedBe64 (putUnalignedBe64 val64 ptr) = val64
  reversed16 : ∀ i, i < 2 → putUnalignedBe16 val16 ptr i = putUnalignedLe16 val16 ptr (1 - i)
  reversed32 : ∀ i, i < 4 → putUnalignedBe32 val32 ptr i = putUnalignedLe32 val32 ptr (3 - i)
  reversed64 : ∀ i, i < 8 → putUnalignedBe64 val64 ptr i = putUnalignedLe64 val64 ptr (7 - i)

/-- **The functions agree** just if the lower half of 64 bits is not negative as an `int`, or the
upper half is all ones. -/
theorem helpersAgree_iff (ptr : Bytes) (val16 : BitVec 16) (val32 : BitVec 32)
    (val64 : BitVec 64) : HelpersAgree ptr val16 val32 val64 ↔
      (ptr 3).msb = false ∨ ptr 4 = 255 ∧ ptr 5 = 255 ∧ ptr 6 = 255 ∧ ptr 7 = 255 := by
  rw [← le64ToCpus_eq_iff]
  constructor
  · exact fun h => h.cpus64
  · intro hcpus
    constructor
    case cpus16 => exact le16ToCpus_eq
    case cpus32 => exact le32ToCpus_eq
    case cpus64 => exact hcpus
    case le16 => exact getUnaligned_putUnaligned rfl (by decide) (by decide)
    case le32 => exact getUnaligned_putUnaligned rfl (by decide) (by decide)
    case le64 => exact getUnaligned_putUnaligned rfl (by decide) (by decide)
    case be16 =>
      rw [putUnalignedBe16_eq]
      exact getUnaligned_putUnaligned rfl (by decide) (by decide)
    case be32 => exact getUnaligned_putUnaligned rfl (by decide) (by decide)
    case be64 => exact getUnaligned_putUnaligned rfl (by decide) (by decide)
    case reversed16 =>
      intro i hi
      rw [putUnalignedBe16_eq]
      exact putUnaligned_reverse hi
    case reversed32 => exact fun i hi => putUnaligned_reverse hi
    case reversed64 => exact fun i hi => putUnaligned_reverse hi

/-- The fourth byte is 128 and the others are 0. -/
theorem negative_not_helpersAgree :
    ¬ HelpersAgree (fun i => if i = 3 then 128 else 0) 0 0 0 := by
  intro h
  exact absurd h.cpus64 (by decide)

end Agree

end Webcamd.Kernel.ByteOrder
