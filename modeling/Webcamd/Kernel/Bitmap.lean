import Mathlib
import Webcamd.Library.HighestBit
import Webcamd.Library.Blocks

/-!
# Bitmaps

The functions of `kernel/linux_func.c` on arrays of `unsigned long` that are taken as one long
row of bits, for words of 64 bits.

* `setBit`, `clearBit`, `testBit` — one bit, with `testBit_setBit` and `testBit_clearBit` as what
  they do to all the others.
* `none_iff` — none of the first bits is set, by whole words and what is left of the last one.
* `bitmapFull` — all of the first bits are set (`bitmapFull_iff`).
* `findNextZeroBit` — a bit that is not set (`findNextZeroBit_spec`).
* `bitmapClear` — `bitmap_clear`, with the mask of the first word as the source has it: it holds
  the bits before the range, so that from bit 0 on the first word is left as it is
  (`bitmapClear_zero_word`).
* `fls` — the last bit that is set (`fls_eq_size`).
-/

namespace Webcamd.Kernel.Bitmap

open Library

/-- `BITS_PER_LONG` -/
def bitsPerLong : ℕ := 64

/-- `unsigned long *`: the words from an address on -/
abbrev Words := ℕ → BitVec 64

/-- `BIT_MASK` -/
def bitMask (nr : ℕ) : BitVec 64 := 1#64 <<< (nr % bitsPerLong)

/-- `BIT_WORD` -/
def bitWord (nr : ℕ) : ℕ := nr / bitsPerLong

/-- `set_bit` -/
def setBit (nr : ℕ) (addr : Words) : Words :=
  Function.update addr (bitWord nr) (addr (bitWord nr) ||| bitMask nr)

/-- `clear_bit` -/
def clearBit (nr : ℕ) (addr : Words) : Words :=
  Function.update addr (bitWord nr) (addr (bitWord nr) &&& ~~~bitMask nr)

/-- `test_bit` -/
def testBit (nr : ℕ) (addr : Words) : Bool := addr (bitWord nr) &&& bitMask nr != 0

/-- `bitmap_full` -/
def bitmapFull (bitmap : Words) (bits : ℕ) : Bool :=
  let lim := bits / bitsPerLong
  (List.range lim).all (fun k => ~~~bitmap k == 0) &&
    (bits % bitsPerLong == 0 || ~~~bitmap lim &&& (1#64 <<< (bits % bitsPerLong) - 1) == 0)

/-- `ffsl`: one more than the number of the first bit that is set, or 0 -/
def ffsl (mask : BitVec 64) : ℕ :=
  match (List.range bitsPerLong).find? (fun i => mask.getLsbD i) with
  | some i => i + 1
  | none => 0

/-- The loop of `find_next_zero_bit`, for at most as many rounds as there are bits. -/
def findNextZeroBitLoop (addr : Words) (size : ℕ) : ℕ → BitVec 64 → ℕ → ℕ
  | 0, _, offset => offset
  | rounds + 1, mask, offset =>
      if offset < size then
        let mask := ~~~addr (bitWord offset) &&& ~~~mask
        if mask ≠ 0 then (offset / bitsPerLong * bitsPerLong) ||| (ffsl mask - 1)
        else
          findNextZeroBitLoop addr size rounds mask
            (offset + (bitsPerLong - 1 - offset % bitsPerLong) + 1)
      else offset

/-- `find_next_zero_bit` -/
def findNextZeroBit (addr : Words) (size offset : ℕ) : ℕ :=
  min (findNextZeroBitLoop addr size size (bitMask offset - 1) offset) size

/-- The loop of `bitmap_clear`, which runs while `nr - bits_to_clear >= 0`: the map, `p`, `nr` and
the mask after it. -/
def bitmapClearLoop : ℕ → Words → ℕ → ℕ → ℕ → BitVec 64 → Words × ℕ × ℕ × BitVec 64
  | 0, map, p, nr, _, maskToClear => (map, p, nr, maskToClear)
  | rounds + 1, map, p, nr, bitsToClear, maskToClear =>
      if bitsToClear ≤ nr then
        bitmapClearLoop rounds (Function.update map p (map p &&& ~~~maskToClear)) (p + 1)
          (nr - bitsToClear) bitsPerLong (BitVec.allOnes 64)
      else (map, p, nr, maskToClear)

/-- `bitmap_clear` -/
def bitmapClear (map : Words) (start nr : ℕ) : Words :=
  let rem := start % bitsPerLong
  let (map, p, left, maskToClear) :=
    bitmapClearLoop nr map (start / bitsPerLong) nr (bitsPerLong - rem) (1#64 <<< rem - 1)
  if left = 0 then map
  else
    let size := (start + nr) % bitsPerLong
    Function.update map p (map p &&& ~~~(maskToClear &&& (1#64 <<< size - 1)))

/-- One test of `fls`: if a bit of the upper half is set, the lower half is dropped. -/
def flsRound (upper : BitVec 32) (shift : ℕ) (state : ℕ × BitVec 32) : ℕ × BitVec 32 :=
  if state.2 &&& upper ≠ 0 then (state.1 + shift, state.2 >>> shift) else state

/-- `fls` -/
def fls (mask : BitVec 32) : ℕ :=
  if mask = 0 then 0
  else
    (flsRound 0x2 1 (flsRound 0xC 2 (flsRound 0xF0 4 (flsRound 0xFF00 8
      (flsRound 0xFFFF0000 16 (1, mask)))))).1

/-! ### One bit -/

variable {i j : ℕ} {addr : Words}

/-- The place of a bit in its word. -/
theorem place_lt (nr : ℕ) : nr % bitsPerLong < 64 := Nat.mod_lt nr (by decide)

theorem getLsbD_bitMask (nr k : ℕ) : (bitMask nr).getLsbD k = decide (k = nr % bitsPerLong) := by
  have hlt : nr % bitsPerLong < bitsPerLong := place_lt nr
  unfold bitMask
  rw [BitVec.getLsbD_shiftLeft]
  unfold bitsPerLong at *
  by_cases hk : k = nr % 64
  · subst hk
    simp [hlt]
  · by_cases hk' : k < nr % 64
    · simp [hk, hk']
    · have hne : k - nr % 64 ≠ 0 := by omega
      simp [hk, hne]

/-- A word is zero just if none of its bits is set. -/
theorem eq_zero_iff {word : BitVec 64} :
    word = 0 ↔ ∀ k, k < bitsPerLong → word.getLsbD k = false := by
  constructor
  · rintro rfl k -
    exact BitVec.getLsbD_zero
  · intro hbits
    refine BitVec.eq_of_getLsbD_eq fun k hk => ?_
    rw [hbits k hk]
    exact BitVec.getLsbD_zero.symm

theorem and_bitMask_eq_zero_iff {word : BitVec 64} (nr : ℕ) :
    word &&& bitMask nr = 0 ↔ word.getLsbD (nr % bitsPerLong) = false := by
  rw [eq_zero_iff]
  constructor
  · intro hzero
    have hbit := hzero _ (place_lt nr)
    rwa [BitVec.getLsbD_and, getLsbD_bitMask, decide_eq_true rfl, Bool.and_true] at hbit
  · intro hbit k _
    rw [BitVec.getLsbD_and, getLsbD_bitMask]
    by_cases heq : k = nr % bitsPerLong
    · rw [heq, hbit, Bool.false_and]
    · rw [decide_eq_false heq, Bool.and_false]

theorem testBit_eq (nr : ℕ) (addr : Words) :
    testBit nr addr = (addr (bitWord nr)).getLsbD (nr % bitsPerLong) := by
  unfold testBit
  rw [Bool.eq_iff_iff, bne_iff_ne, ne_eq, and_bitMask_eq_zero_iff, Bool.not_eq_false]

/-- Two bits of one word are the same bit if they have the same place in it. -/
theorem eq_iff_word (i j : ℕ) :
    i = j ↔ bitWord i = bitWord j ∧ i % bitsPerLong = j % bitsPerLong := by
  unfold bitWord bitsPerLong
  omega

theorem testBit_setBit (i j : ℕ) (addr : Words) :
    testBit j (setBit i addr) = (decide (i = j) || testBit j addr) := by
  rw [testBit_eq, testBit_eq]
  unfold setBit
  by_cases hword : bitWord j = bitWord i
  · rw [hword, Function.update_self, BitVec.getLsbD_or, getLsbD_bitMask, Bool.or_comm]
    have hsame : decide (j % bitsPerLong = i % bitsPerLong) = decide (i = j) := by
      rw [decide_eq_decide, eq_iff_word i j, hword]
      simp [eq_comm]
    rw [hsame]
  · have hne : i ≠ j := fun heq => hword (by rw [heq])
    rw [Function.update_of_ne hword]
    simp [hne]

theorem testBit_clearBit (i j : ℕ) (addr : Words) :
    testBit j (clearBit i addr) = (!decide (i = j) && testBit j addr) := by
  have hlt := place_lt j
  rw [testBit_eq, testBit_eq]
  unfold clearBit
  by_cases hword : bitWord j = bitWord i
  · rw [hword, Function.update_self, BitVec.getLsbD_and, BitVec.getLsbD_not, getLsbD_bitMask,
      Bool.and_comm]
    have hsame : decide (j % bitsPerLong = i % bitsPerLong) = decide (i = j) := by
      rw [decide_eq_decide, eq_iff_word i j, hword]
      simp [eq_comm]
    rw [hsame]
    simp [hlt]
  · have hne : i ≠ j := fun heq => hword (by rw [heq])
    rw [Function.update_of_ne hword]
    simp [hne]

/-- A bit that is not set is cleared without effect. -/
theorem clearBit_of_not {i : ℕ} {addr : Words} (hbit : testBit i addr = false) :
    clearBit i addr = addr := by
  have hword : addr (bitWord i) &&& ~~~bitMask i = addr (bitWord i) := by
    rw [testBit_eq] at hbit
    refine BitVec.eq_of_getLsbD_eq fun k hk => ?_
    rw [BitVec.getLsbD_and, BitVec.getLsbD_not, getLsbD_bitMask]
    by_cases heq : k = i % bitsPerLong
    · subst heq
      rw [hbit]
      rfl
    · simp [hk, heq]
  unfold clearBit
  rw [hword, Function.update_eq_self]

/-- A bit by its word and its place in it. -/
theorem testBit_block (w : ℕ) {k : ℕ} (hk : k < bitsPerLong) (addr : Words) :
    testBit (bitsPerLong * w + k) addr = (addr w).getLsbD k := by
  rw [testBit_eq, bitWord, block_div (by decide) w hk, block_mod w hk]

/-- The first word is zero just if none of its bits is set. -/
theorem word_zero_iff (addr : Words) :
    addr 0 = 0 ↔ ∀ i, i < bitsPerLong → testBit i addr = false := by
  rw [eq_zero_iff]
  refine forall₂_congr fun k hk => ?_
  rw [← testBit_block 0 hk, Nat.mul_zero, Nat.zero_add]

/-! ### All bits of the words at once -/

theorem testBit_not (i : ℕ) (a : Words) : testBit i (fun w => ~~~a w) = !testBit i a := by
  rw [testBit_eq, testBit_eq, BitVec.getLsbD_not, decide_eq_true (place_lt i), Bool.true_and]

theorem testBit_and (i : ℕ) (a b : Words) :
    testBit i (fun w => a w &&& b w) = (testBit i a && testBit i b) := by
  rw [testBit_eq, testBit_eq, testBit_eq, BitVec.getLsbD_and]

theorem testBit_xor (i : ℕ) (a b : Words) :
    testBit i (fun w => a w ^^^ b w) = (testBit i a ^^ testBit i b) := by
  rw [testBit_eq, testBit_eq, testBit_eq, BitVec.getLsbD_xor]

/-! ### Whole ranges -/

theorem getLsbD_lowMask {bits : ℕ} (hbits : bits < 64) (k : ℕ) :
    (1#64 <<< bits - 1).getLsbD k = decide (k < bits) := by
  have hlt : 2 ^ bits < 2 ^ 64 := Nat.pow_lt_pow_right (by decide) hbits
  have hone : (1#64 <<< bits).toNat = 2 ^ bits := by
    rw [BitVec.toNat_shiftLeft, Nat.shiftLeft_eq]
    simpa using Nat.mod_eq_of_lt hlt
  have hvalue : (1#64 <<< bits - 1).toNat = 2 ^ bits - 1 := by
    have hpos := Nat.two_pow_pos bits
    rw [BitVec.toNat_sub, hone]
    show (2 ^ 64 - 1 + 2 ^ bits) % 2 ^ 64 = _
    omega
  rw [← BitVec.testBit_toNat, hvalue, Nat.testBit_two_pow_sub_one]

theorem and_lowMask_eq_zero_iff {word : BitVec 64} {bits : ℕ} (hbits : bits < bitsPerLong) :
    word &&& (1#64 <<< bits - 1) = 0 ↔ ∀ k, k < bits → word.getLsbD k = false := by
  rw [eq_zero_iff]
  constructor
  · intro h k hk
    have hbit := h k (hk.trans hbits)
    rwa [BitVec.getLsbD_and, getLsbD_lowMask hbits, decide_eq_true hk, Bool.and_true] at hbit
  · intro h k _
    rw [BitVec.getLsbD_and, getLsbD_lowMask hbits]
    by_cases hk : k < bits
    · rw [h k hk, Bool.false_and]
    · rw [decide_eq_false hk, Bool.and_false]

/-- **No bit is set** if the whole words are zero, and the rest of the last one is. -/
theorem none_iff {addr : Words} {nbits : ℕ} :
    (∀ i, i < nbits → testBit i addr = false) ↔
      (∀ w, w < nbits / bitsPerLong → addr w = 0) ∧
        ∀ k, k < nbits % bitsPerLong → (addr (nbits / bitsPerLong)).getLsbD k = false := by
  have hpos : 0 < bitsPerLong := by decide
  rw [forall_lt_iff_blocks hpos]
  refine and_congr (forall₂_congr fun w _ => ?_) (forall₂_congr fun k hk => ?_)
  · rw [eq_zero_iff]
    exact forall₂_congr fun k hk => by rw [testBit_block w hk]
  · rw [testBit_block _ (hk.trans (Nat.mod_lt nbits hpos))]

theorem bitmapFull_iff (bitmap : Words) (bits : ℕ) :
    bitmapFull bitmap bits = true ↔ ∀ i, i < bits → testBit i bitmap = true := by
  have hrest : (bits % bitsPerLong = 0 ∨
      ∀ k, k < bits % bitsPerLong → (~~~bitmap (bits / bitsPerLong)).getLsbD k = false) ↔
        ∀ k, k < bits % bitsPerLong → (~~~bitmap (bits / bitsPerLong)).getLsbD k = false := by
    refine or_iff_right_of_imp fun hzero k hk => ?_
    omega
  have hnone := @none_iff (fun w => ~~~bitmap w) bits
  simp only [testBit_not, Bool.not_eq_false'] at hnone
  unfold bitmapFull
  dsimp only
  rw [Bool.and_eq_true, Bool.or_eq_true, beq_iff_eq, beq_iff_eq,
    and_lowMask_eq_zero_iff (place_lt bits), hrest, hnone, List.all_eq_true]
  simp only [List.mem_range, beq_iff_eq]

/-- The bit that `ffsl` finds. -/
theorem ffsl_spec {mask : BitVec 64} (hne : mask ≠ 0) :
    ffsl mask - 1 < 64 ∧ mask.getLsbD (ffsl mask - 1) = true := by
  unfold ffsl
  split
  · rename_i i hfind
    have hset := List.find?_some hfind
    have hmem := List.mem_range.mp (List.mem_of_find?_eq_some hfind)
    exact ⟨hmem, hset⟩
  · rename_i hfind
    refine absurd (BitVec.eq_of_getLsbD_eq fun k hk => ?_) hne
    have hnone := List.find?_eq_none.mp hfind k (List.mem_range.mpr hk)
    simpa using hnone

/-- The bit found in a word, as a bit of the row. -/
theorem or_block {bit : ℕ} (hbit : bit < 64) (offset : ℕ) :
    (offset / bitsPerLong * bitsPerLong) ||| bit = bitsPerLong * (offset / bitsPerLong) + bit := by
  have hor := Nat.two_pow_add_eq_or_of_lt (show bit < 2 ^ 6 from hbit) (offset / 64)
  unfold bitsPerLong
  rw [mul_comm, ← hor]

theorem findNextZeroBitLoop_spec {addr : Words} {size rounds offset : ℕ} {mask : BitVec 64}
    (hrounds : size ≤ rounds + offset)
    (hmask : ∀ k, k < offset % bitsPerLong → mask.getLsbD k = true)
    (hlt : findNextZeroBitLoop addr size rounds mask offset < size) :
    offset ≤ findNextZeroBitLoop addr size rounds mask offset ∧
      testBit (findNextZeroBitLoop addr size rounds mask offset) addr = false := by
  induction rounds generalizing mask offset with
  | zero =>
      unfold findNextZeroBitLoop at hlt
      omega
  | succ rounds ih =>
      unfold findNextZeroBitLoop at hlt ⊢
      by_cases hmore : offset < size
      · rw [if_pos hmore] at hlt ⊢
        dsimp only at hlt ⊢
        by_cases hfound : ~~~addr (bitWord offset) &&& ~~~mask ≠ 0
        · rw [if_pos hfound]
          obtain ⟨hbit, hset⟩ := ffsl_spec hfound
          rw [BitVec.getLsbD_and, BitVec.getLsbD_not, BitVec.getLsbD_not] at hset
          generalize ffsl (~~~addr (bitWord offset) &&& ~~~mask) - 1 = bit at hbit hset ⊢
          simp only [hbit, decide_true, Bool.true_and, Bool.and_eq_true, Bool.not_eq_true'] at hset
          have hle : offset % bitsPerLong ≤ bit := by
            by_contra hnot
            rw [hmask bit (by omega)] at hset
            exact absurd hset.2 (by decide)
          rw [or_block hbit, testBit_block _ hbit]
          unfold bitWord bitsPerLong at *
          exact ⟨by omega, hset.1⟩
        · rw [if_neg hfound] at hlt ⊢
          unfold bitsPerLong at hlt hmask ih ⊢
          have hnext : (offset + (64 - 1 - offset % 64) + 1) % 64 = 0 := by omega
          obtain ⟨hle, hbit⟩ := ih (by omega) (fun k hk => by omega) hlt
          exact ⟨by omega, hbit⟩
      · rw [if_neg hmore] at hlt
        omega

/-- **A bit found by `find_next_zero_bit`** is not before the offset, and not set. -/
theorem findNextZeroBit_spec (addr : Words) (size offset : ℕ)
    (hlt : findNextZeroBit addr size offset < size) :
    offset ≤ findNextZeroBit addr size offset ∧
      testBit (findNextZeroBit addr size offset) addr = false := by
  unfold findNextZeroBit at hlt ⊢
  have hfound : findNextZeroBitLoop addr size size (bitMask offset - 1) offset < size := by omega
  rw [Nat.min_eq_left hfound.le]
  refine findNextZeroBitLoop_spec (by omega) (fun k hk => ?_) hfound
  unfold bitMask
  rw [getLsbD_lowMask (place_lt offset)]
  simpa using hk

theorem findNextZeroBit_le (addr : Words) (size offset : ℕ) :
    findNextZeroBit addr size offset ≤ size :=
  Nat.min_le_right _ _

/-- The loop of `bitmap_clear` leaves the words alone that are before `p`. -/
theorem bitmapClearLoop_before {rounds p nr bitsToClear word : ℕ} {map : Words}
    {maskToClear : BitVec 64} (hword : word < p) :
    (bitmapClearLoop rounds map p nr bitsToClear maskToClear).1 word = map word ∧
      p ≤ (bitmapClearLoop rounds map p nr bitsToClear maskToClear).2.1 := by
  induction rounds generalizing map p nr bitsToClear maskToClear with
  | zero => exact ⟨rfl, le_rfl⟩
  | succ rounds ih =>
      unfold bitmapClearLoop
      split
      · obtain ⟨hsame, hle⟩ := @ih (p + 1) (nr - bitsToClear) bitsPerLong
          (Function.update map p (map p &&& ~~~maskToClear)) (BitVec.allOnes 64) (by omega)
        rw [hsame, Function.update_of_ne hword.ne]
        exact ⟨rfl, by omega⟩
      · exact ⟨rfl, le_rfl⟩

/-- **`bitmap_clear` from bit 0 on leaves the first word as it is**: the mask of the first word
holds no bit. -/
theorem bitmapClear_zero_word (map : Words) (nr : ℕ) : bitmapClear map 0 nr 0 = map 0 := by
  have hmask : 1#64 <<< 0 - 1 = 0#64 := by decide
  have hkeep : map 0 &&& ~~~0#64 = map 0 := BitVec.and_allOnes
  unfold bitmapClear
  rw [Nat.zero_mod, Nat.zero_div, hmask, Nat.sub_zero]
  cases nr with
  | zero => rfl
  | succ nr =>
      unfold bitmapClearLoop
      by_cases hword : bitsPerLong ≤ nr + 1
      · rw [if_pos hword, hkeep, Function.update_eq_self]
        obtain ⟨hsame, hle⟩ := @bitmapClearLoop_before nr (0 + 1) (nr + 1 - bitsPerLong)
          bitsPerLong 0 map (BitVec.allOnes 64) (by omega)
        generalize bitmapClearLoop nr map (0 + 1) (nr + 1 - bitsPerLong) bitsPerLong
          (BitVec.allOnes 64) = result at hsame hle
        obtain ⟨final, p, left, mask⟩ := result
        have hne : 0 ≠ p := by
          rintro rfl
          exact absurd hle (Nat.not_succ_le_zero 0)
        dsimp only at hsame ⊢
        split
        · exact hsame
        · rw [Function.update_of_ne hne, hsame]
      · rw [if_neg hword]
        dsimp only
        rw [if_neg (by omega), Function.update_self, BitVec.zero_and, hkeep]

/-! ### The last bit -/

/-- The tests of `fls` are the five halvings of a word. -/
theorem fls_eq_halvings {mask : BitVec 32} (hne : mask ≠ 0) :
    fls mask = (halvings 5 (1, mask)).1 := by
  rw [fls, if_neg hne]
  rfl

theorem fls_eq_size (mask : BitVec 32) : fls mask = mask.toNat.size := by
  by_cases hne : mask = 0
  · rw [hne]
    rfl
  · have hcounted := halvings_spec (k := 5) le_rfl 1 mask.isLt hne
    rw [fls_eq_halvings hne]
    omega

end Webcamd.Kernel.Bitmap
