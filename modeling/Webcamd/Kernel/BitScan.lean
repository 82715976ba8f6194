import Mathlib
import Webcamd.Kernel.BitmapSearch

/-!
# Looking for a bit of a word

The helpers of `kernel/linux_func.c` and `kernel/linux_func.h` that look for the first or the last
bit of one word, and the powers of two next to a number.

* `flsl` — `__flsl`, which is `fls` for a word of 64 bits.
* `rounddownPowOfTwo`, `roundupPowOfTwo` — the functions of these names.
* `highest_bit_search` — `fls` and `__flsl` count from one to the highest bit, and the powers of two
  are the nearest ones.
* `ffs`, `ffz`, `lastBit` — `__ffs`, `__ffz`, and the macro `__fls`.
* `ffs_eq_mask`, `ffz_eq_mask`, `lastBit_eq` — the first two give a mask with the bit, and the third
  counts from one.
* `bit_scan_disagrees` — so that none of them is ever the number of the bit, which the searches of a
  bitmap give.

An `int` is given by its 32 bits.  Where one overflows, the C language gives no result.
-/

namespace Webcamd.Kernel.BitScan

open Bitmap BitmapPredicates BitmapSearch Library

/-- `__flsl` -/
def flsl (mask : BitVec 64) : ℕ :=
  if mask = 0 then 0
  else
    (halve 0x2 1 (halve 0xC 2 (halve 0xF0 4 (halve 0xFF00 8 (halve 0xFFFF0000 16
      (halve 0xFFFFFFFF00000000 32 (1, mask))))))).1

/-- `rounddown_pow_of_two` -/
def rounddownPowOfTwo (x : BitVec 64) : BitVec 64 :=
  if x = 0 then 0 else 1#64 <<< (flsl x - 1)

/-- `roundup_pow_of_two` -/
def roundupPowOfTwo (x : BitVec 64) : BitVec 64 :=
  if x = 0 then 0 else 1#64 <<< flsl (x - 1)

/-- `__ffs`: there is no `x - 1` for the least `int`. -/
def ffs (x : BitVec 32) : Option (BitVec 32) :=
  if x = BitVec.intMin 32 then none else some (~~~(x - 1) &&& x)

/-- `__ffz`, which `ffz` stands for: there is no `x + 1` for the greatest `int`. -/
def ffz (x : BitVec 32) : Option (BitVec 32) :=
  if x = BitVec.intMax 32 then none else some ((x + 1) &&& ~~~x)

/-- `__fls(x)`, which stands for `fls(x)` -/
def lastBit (x : BitVec 32) : ℕ := fls x

/-- `find_first_bit`, of a bitmap of one word: two rounds are enough. -/
def findFirstBit (word : BitVec 64) (size : ℕ) : Option ℕ :=
  findNextBit 2 (upTo (fun _ => word) 1) size 0

/-- `find_first_zero_bit`, of a bitmap of one word -/
def findFirstZeroBit (word : BitVec 64) (size : ℕ) : Option ℕ :=
  findNextZeroBit 2 (upTo (fun _ => word) 1) size 0

/-- `__ffs` gives what `find_first_bit` gives. -/
def FfsAgrees (x : BitVec 32) (size : ℕ) : Prop :=
  (ffs x).map BitVec.toInt = (findFirstBit (x.setWidth 64) size).map Nat.cast

/-- `ffz` gives what `find_first_zero_bit` gives. -/
def FfzAgrees (x : BitVec 32) (size : ℕ) : Prop :=
  (ffz x).map BitVec.toInt = (findFirstZeroBit (x.setWidth 64) size).map Nat.cast

/-- `__fls` gives the number of the highest bit. -/
def FlsAgrees (x : BitVec 32) : Prop := IsGreatest {i | x.getLsbD i = true} (lastBit x)

instance (x : BitVec 32) (size : ℕ) : Decidable (FfsAgrees x size) :=
  inferInstanceAs (Decidable (_ = _))

instance (x : BitVec 32) (size : ℕ) : Decidable (FfzAgrees x size) :=
  inferInstanceAs (Decidable (_ = _))

/-! ### The highest bit -/

section Highest

variable {w : ℕ}

/-- What is said of a search for the highest bit: it counts from one. -/
def CountsToHighest (word : BitVec w) (found : ℕ) : Prop :=
  if word = 0 then found = 0
  else ∃ i, IsGreatest {i | word.getLsbD i = true} i ∧ found = 1 + i

/-- The size counts to the highest bit. -/
theorem countsToHighest_size (word : BitVec w) : CountsToHighest word word.toNat.size := by
  unfold CountsToHighest
  split
  · rename_i hzero
    rw [hzero]
    show (0#w).toNat.size = 0
    rw [BitVec.toNat_zero, Nat.size_zero]
  · rename_i hne
    have hpos : word.toNat ≠ 0 := fun hzero => hne (BitVec.eq_of_toNat_eq hzero)
    have hsize : 0 < word.toNat.size := Nat.size_pos.mpr (Nat.pos_of_ne_zero hpos)
    exact ⟨_, isGreatest_bit hpos, by omega⟩

theorem flsl_eq_size (mask : BitVec 64) : flsl mask = mask.toNat.size := by
  by_cases hne : mask = 0
  · rw [hne]
    rfl
  · have hcounted := halvings_spec (k := 6) le_rfl 1 mask.isLt hne
    have htests : flsl mask = (halvings 6 (1, mask)).1 := by
      rw [flsl, if_neg hne]
      rfl
    omega

/-- A shift of one below 64 gives the power of two. -/
theorem toNat_one_shiftLeft {shift : ℕ} (hshift : shift < 64) :
    (1#64 <<< shift).toNat = 2 ^ shift := by
  rw [BitVec.toNat_shiftLeft, Nat.shiftLeft_eq, Nat.mod_eq_of_lt]
  · exact Nat.one_mul _
  · show 1 * 2 ^ shift < 2 ^ 64
    rw [Nat.one_mul]
    exact Nat.pow_lt_pow_right (by decide) hshift

/-- The power of two below a number, with the count of its shift. -/
theorem rounddownPowOfTwo_spec {x : BitVec 64} (hx : 1 ≤ x.toNat) :
    flsl x - 1 < 64 ∧
      IsGreatest {p | (∃ k, p = 2 ^ k) ∧ p ≤ x.toNat} (rounddownPowOfTwo x).toNat := by
  have hne : x.toNat ≠ 0 := by omega
  have hword : x ≠ 0 := fun hzero => hne (hzero ▸ rfl)
  have hsize : x.toNat.size ≤ 64 := Nat.size_le.mpr x.isLt
  have hshift : flsl x - 1 < 64 := by
    rw [flsl_eq_size]
    omega
  refine ⟨hshift, ?_⟩
  rw [rounddownPowOfTwo, if_neg hword, toNat_one_shiftLeft hshift, flsl_eq_size]
  exact isGreatest_two_pow hne

/-- The power of two above a number. -/
theorem roundupPowOfTwo_spec {x : BitVec 64} (hx : 1 ≤ x.toNat) (hmax : x.toNat ≤ 2 ^ 63) :
    flsl (x - 1) < 64 ∧
      IsLeast {p | (∃ k, p = 2 ^ k) ∧ x.toNat ≤ p} (roundupPowOfTwo x).toNat := by
  have hne : x.toNat ≠ 0 := by omega
  have hword : x ≠ 0 := fun hzero => hne (hzero ▸ rfl)
  have hpred : (x - 1).toNat = x.toNat - 1 := BitVec.toNat_sub_of_le hx
  have hcount : flsl (x - 1) = (x.toNat - 1).size := by rw [flsl_eq_size, hpred]
  have hsize : (x.toNat - 1).size ≤ 63 := Nat.size_le.mpr (by omega)
  have hshift : flsl (x - 1) < 64 := by omega
  refine ⟨hshift, ?_⟩
  rw [roundupPowOfTwo, if_neg hword, toNat_one_shiftLeft hshift, hcount]
  exact isLeast_two_pow hne

end Highest

/-- **The search for the highest bit**: `fls` and `__flsl` are 0 for 0, and one more than its number
otherwise.  So the powers of two are the nearest ones, and no shift is by 64 or more. -/
theorem highest_bit_search (mask : BitVec 32) (value x : BitVec 64) :
    CountsToHighest mask (fls mask) ∧ CountsToHighest value (flsl value) ∧
      (1 ≤ x.toNat → flsl x - 1 < 64 ∧
        IsGreatest {p | (∃ k, p = 2 ^ k) ∧ p ≤ x.toNat} (rounddownPowOfTwo x).toNat) ∧
      (1 ≤ x.toNat → x.toNat ≤ 2 ^ 63 → flsl (x - 1) < 64 ∧
        IsLeast {p | (∃ k, p = 2 ^ k) ∧ x.toNat ≤ p} (roundupPowOfTwo x).toNat) := by
  refine ⟨?_, ?_, rounddownPowOfTwo_spec, roundupPowOfTwo_spec⟩
  · rw [fls_eq_size]
    exact countsToHighest_size mask
  · rw [flsl_eq_size]
    exact countsToHighest_size value

/-! ### The first bit -/

section First

variable {w i : ℕ}

/-- **A number and its negation** have the lowest bit of the number in common, and no other one. -/
theorem neg_and_self {x : BitVec w} (h : IsLeast {i | x.getLsbD i = true} i) :
    -x &&& x = BitVec.twoPow w i := by
  obtain ⟨hset, hleast⟩ := h
  refine BitVec.eq_of_getLsbD_eq fun k hk => ?_
  rw [BitVec.getLsbD_and, BitVec.getLsbD_neg, BitVec.getLsbD_twoPow]
  have hi : i < w := BitVec.lt_of_getLsbD hset
  have hbelow : (∃ j < k, x.getLsbD j = true) ↔ i < k := by
    constructor
    · rintro ⟨j, hj, hbit⟩
      exact (hleast hbit).trans_lt hj
    · intro hlt
      exact ⟨i, hlt, hset⟩
  simp only [hbelow, hk, hi, decide_true, Bool.true_and]
  rcases lt_trichotomy k i with hlt | rfl | hlt
  · have hclear : x.getLsbD k = false := by
      by_contra hbit
      exact absurd (hleast (by simpa using hbit)) (by omega)
    simp [hclear, hlt.ne']
  · have hbit : x.getLsbD k = true := hset
    simp [hbit]
  · simp [hlt, hlt.ne]

/-- There is a lowest bit in every word but 0. -/
theorem exists_isLeast_bit {x : BitVec w} (hne : x ≠ 0) :
    ∃ i < w, IsLeast {i | x.getLsbD i = true} i := by
  have hbit : ∃ i, x.getLsbD i = true := by
    by_contra hnone
    refine hne (BitVec.eq_of_getLsbD_eq fun k _ => ?_)
    have hclear : ¬ x.getLsbD k = true := fun hset => hnone ⟨k, hset⟩
    simpa using hclear
  refine ⟨Nat.find hbit, BitVec.lt_of_getLsbD (Nat.find_spec hbit), Nat.find_spec hbit, ?_⟩
  intro k hk
  exact Nat.find_min' hbit hk

/-- `__ffs` gives the mask of the lowest bit. -/
theorem ffs_eq_mask {x : BitVec 32} (h : IsLeast {i | x.getLsbD i = true} i)
    {result : BitVec 32} (hresult : ffs x = some result) : result = BitVec.twoPow 32 i := by
  unfold ffs at hresult
  split at hresult
  · cases hresult
  · obtain rfl := Option.some.inj hresult
    rw [← neg_and_self h, BitVec.neg_eq_not_add]
    congr 1
    exact BitVec.not_sub_one_eq_not_add_one

/-- `__ffz` gives the mask of the lowest bit of the complement. -/
theorem ffz_eq_mask {x : BitVec 32} (h : IsLeast {i | (~~~x).getLsbD i = true} i)
    {result : BitVec 32} (hresult : ffz x = some result) : result = BitVec.twoPow 32 i := by
  unfold ffz at hresult
  split at hresult
  · cases hresult
  · obtain rfl := Option.some.inj hresult
    rw [← neg_and_self h, BitVec.neg_eq_not_add, BitVec.not_not]
    rfl

/-- A mask is not the number of its bit. -/
theorem toInt_twoPow_ne (hi : i < 32) : (BitVec.twoPow 32 i).toInt ≠ i := by
  have hpow : (i : ℤ) < 2 ^ i := by exact_mod_cast Nat.lt_two_pow_self
  rw [BitVec.toInt_twoPow, if_neg (by omega)]
  split
  · push_cast
    omega
  · omega

/-- **The search of a bitmap of one word** gives the number of the lowest bit. -/
theorem findNext_oneWord {memory : Memory} {value : BitVec 64} (hmemory : memory 0 = some value)
    (h : IsLeast {i | value.getLsbD i = true} i) {size : ℕ} (hi : i < size) (hsize : size ≤ 64) :
    findNext memory 2 size 0 = some i := by
  have hwords : bitsToLongs size ≤ 1 := by
    unfold bitsToLongs bitsPerLong
    omega
  have hword : ∀ place, place < bitsToLongs size → memory place = some value := by
    intro place hplace
    obtain rfl : place = 0 := by omega
    exact hmemory
  obtain ⟨found, hnext, heq⟩ := @findNext_isNext (fun _ => value) memory size 2 0 hword
    (by omega) (by omega)
  have hbit : ∀ k < size, testBit k (fun _ => value) = value.getLsbD k := by
    intro k hk
    rw [testBit_eq, bitsPerLong, Nat.mod_eq_of_lt (by omega)]
  rw [heq]
  cases found with
  | none => exact absurd ⟨hi, (hbit i hi).trans h.1⟩ (hnext i (Nat.zero_le i))
  | some found =>
      obtain ⟨-, ⟨hlt, hset⟩, hleast⟩ := hnext
      have hle : i ≤ found := h.2 ((hbit found hlt).symm.trans hset)
      have hge : ¬ i < found := fun hbefore =>
        hleast i (Nat.zero_le i) hbefore ⟨hi, (hbit i hi).trans h.1⟩
      rw [Option.getD_some]
      exact congrArg some (by omega)

/-- The first bit of a word of 32 bits, as a word of 64. -/
theorem findFirstBit_eq {x : BitVec 32} (h : IsLeast {i | x.getLsbD i = true} i) (hi : i < 32)
    {size : ℕ} (hmin : 32 ≤ size) (hmax : size ≤ 64) :
    findFirstBit (x.setWidth 64) size = some i := by
  refine findNext_oneWord (upTo_of_lt Nat.one_pos) ?_ (by omega) hmax
  have hsame : ∀ k, (x.setWidth 64).getLsbD k = x.getLsbD k := by
    intro k
    rw [BitVec.getLsbD_setWidth]
    by_cases hk : k < 64
    · rw [decide_eq_true hk, Bool.true_and]
    · rw [decide_eq_false hk, BitVec.getLsbD_of_ge x k (by omega), Bool.false_and]
  simpa only [hsame] using h

/-- The first bit of it that is not set. -/
theorem findFirstZeroBit_eq {x : BitVec 32} (h : IsLeast {i | (~~~x).getLsbD i = true} i)
    (hi : i < 32) {size : ℕ} (hmin : 32 ≤ size) (hmax : size ≤ 64) :
    findFirstZeroBit (x.setWidth 64) size = some i := by
  refine @findNext_oneWord i _ (~~~x.setWidth 64) ?_ ?_ size (by omega) hmax
  · rw [upTo_of_lt Nat.one_pos]
    rfl
  · have hsame : ∀ k < 32, (~~~x.setWidth 64).getLsbD k = (~~~x).getLsbD k := by
      intro k hk
      have hk' : k < 64 := by omega
      simp [hk, hk']
    refine ⟨(hsame i hi).trans h.1, ?_⟩
    intro k hk
    -- the bits from 32 on are not in the word, and behind the one that is found
    by_cases hlow : k < 32
    · exact h.2 ((hsame k hlow).symm.trans hk)
    · omega

/-- `__fls` counts from one. -/
theorem lastBit_eq {x : BitVec 32} (hne : x ≠ 0) (h : IsGreatest {i | x.getLsbD i = true} i) :
    lastBit x = i + 1 := by
  have hcounts := countsToHighest_size x
  rw [CountsToHighest, if_neg hne, ← fls_eq_size] at hcounts
  obtain ⟨j, hj, hfls⟩ := hcounts
  rw [lastBit, hfls, hj.unique h, Nat.add_comm]

end First

/-- **The helpers never agree with the searches**: for no word is the result of `__ffs` or `ffz` the
number of the bit that the search of a bitmap finds, or that of `__fls` the number of the highest
bit. -/
theorem bit_scan_disagrees (x : BitVec 32) (size : ℕ) (hmin : 32 ≤ size) (hmax : size ≤ 64) :
    (x ≠ 0 → ¬ FfsAgrees x size) ∧ (x ≠ BitVec.allOnes 32 → ¬ FfzAgrees x size) ∧
      (x ≠ 0 → ¬ FlsAgrees x) := by
  refine ⟨?_, ?_, ?_⟩
  · intro hne hsame
    obtain ⟨i, hi, hleast⟩ := exists_isLeast_bit hne
    rw [FfsAgrees, findFirstBit_eq hleast hi hmin hmax] at hsame
    obtain ⟨result, hresult, hvalue⟩ := Option.map_eq_some_iff.mp hsame
    rw [ffs_eq_mask hleast hresult] at hvalue
    exact toInt_twoPow_ne hi hvalue
  · intro hne hsame
    have hcomplement : ~~~x ≠ 0 := by
      intro hzero
      refine hne ?_
      rw [← @BitVec.not_not _ x, hzero]
      rfl
    obtain ⟨i, hi, hleast⟩ := exists_isLeast_bit hcomplement
    rw [FfzAgrees, findFirstZeroBit_eq hleast hi hmin hmax] at hsame
    obtain ⟨result, hresult, hvalue⟩ := Option.map_eq_some_iff.mp hsame
    rw [ffz_eq_mask hleast hresult] at hvalue
    exact toInt_twoPow_ne hi hvalue
  · intro hne hgreatest
    have hcounts := lastBit_eq hne hgreatest
    omega

/-- The word 6, whose lowest bit is the bit 1, and the highest one the bit 2. -/
theorem bit_scan_disagrees_six : ¬ FfsAgrees 6 32 ∧ ¬ FfzAgrees 6 32 ∧ ¬ FlsAgrees 6 :=
  have hnever := bit_scan_disagrees 6 32 le_rfl (by decide)
  ⟨hnever.1 (by decide), hnever.2.1 (by decide), hnever.2.2 (by decide)⟩

/-- In the word 1 the bit 0 is set, and `__ffs` is 1. -/
theorem bit_scan_one : ¬ ∀ (x : BitVec 32) (size : ℕ), 32 ≤ size → size ≤ 64 →
    (x ≠ 0 → FfsAgrees x size) ∧ (x ≠ BitVec.allOnes 32 → FfzAgrees x size) ∧
      (x ≠ 0 → FlsAgrees x) := by
  intro h
  have hagrees := (h 1 32 le_rfl (by decide)).1 (by decide)
  exact absurd hagrees (by decide)

end Webcamd.Kernel.BitScan
