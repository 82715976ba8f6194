import Mathlib
import Webcamd.Kernel.Bitmap
import Webcamd.Library.Blocks

/-!
# Reading bitmaps

The functions of `kernel/linux_func.c` that read the first bits of a bitmap.  A bitmap is an array
here of which the words from some place on cannot be read: a function has a result only if it
keeps out of them.

* `wordsThenMask`, `wordsThenBits` — the two ways in which the functions go over the bits: whole
  words first, and then the rest of the last word under a mask or bit by bit.
* `wordsThenMask_eq`, `wordsThenBits_eq` — both find out whether one of the bits is set, and read
  the words only that have one of them.
* `bitmapPredicates_spec` — what each function says of the bits of its bitmaps.

`bitmap_weight` counts in an `unsigned` and returns an `int`: from 2 ^ 31 bits on the number it
returns is negative (`bitmapWeight_negative`).
-/

namespace Webcamd.Kernel.BitmapPredicates

open Bitmap Library

/-- `const unsigned long *`: the words that may be read from an address on -/
abbrev Memory := ℕ → Option (BitVec 64)

/-- `BITS_TO_LONGS`: the number of words that have one of the bits -/
def bitsToLongs (n : ℕ) : ℕ := (n + bitsPerLong - 1) / bitsPerLong

/-- Whole words first, and then the last one under a mask: no bit is set in what `word` reads. -/
def wordsThenMask (word : Memory) (nbits : ℕ) : Option Bool := do
  let whole ← (List.range (nbits / bitsPerLong)).allM fun x => do return (← word x) == 0
  let rest := nbits % bitsPerLong
  if whole && rest != 0 then
    return (← word (nbits / bitsPerLong)) &&& (1#64 <<< rest - 1) == 0
  else return whole

/-- Whole words first, and then the last one bit by bit: no bit is set in what `word` reads, where
`pass` is the test of a whole word. -/
def wordsThenBits (pass : ℕ → Option Bool) (word : Memory) (bits : ℕ) : Option Bool := do
  let whole ← (List.range (bits / bitsPerLong)).allM pass
  if whole then
    (List.range (bits % bitsPerLong)).allM fun lim => do
      return (← word (bits / bitsPerLong)) &&& bitMask lim == 0
  else return false

/-- `bitmap_subset` -/
def bitmapSubset (pa pb : Memory) (nbits : ℕ) : Option Bool :=
  wordsThenMask (fun x => do return (← pa x) &&& ~~~(← pb x)) nbits

/-- `bitmap_full` -/
def bitmapFull (bitmap : Memory) (bits : ℕ) : Option Bool :=
  wordsThenMask (fun k => do return ~~~(← bitmap k)) bits

/-- `bitmap_equal` -/
def bitmapEqual (pa pb : Memory) (bits : ℕ) : Option Bool :=
  wordsThenBits (fun k => do return (← pa k) == (← pb k))
    (fun k => do return (← pa k) ^^^ (← pb k)) bits

/-- `bitmap_empty` -/
def bitmapEmpty (pa : Memory) (bits : ℕ) : Option Bool :=
  wordsThenBits (fun k => do return (← pa k) == 0) pa bits

/-- `bitmap_intersects`, which is the only one to return 1 where it leaves its loops early -/
def bitmapIntersects (pa pb : Memory) (bits : ℕ) : Option Bool := do
  let none ← wordsThenBits (fun k => do return (← pa k) &&& (← pb k) == 0)
    (fun k => do return (← pa k) &&& (← pb k)) bits
  return !none

/-- `bitmap_weight`: `y` is an `unsigned`, and the function an `int`. -/
def bitmapWeight (src : Memory) (nbits : ℕ) : Option ℤ := do
  let y ← (List.range nbits).foldlM (fun y x => do
    return if (← src (bitWord x)) &&& bitMask x != 0 then y + 1 else y) (0 : BitVec 32)
  return y.toInt

/-! ### Words and bits -/

section Bits

variable {value : Words} {nbits : ℕ}

theorem decide_none :
    decide (∀ i, i < nbits → testBit i value = false) =
      (decide (∀ w, w < nbits / bitsPerLong → value w = 0) &&
        decide (∀ k, k < nbits % bitsPerLong →
          (value (nbits / bitsPerLong)).getLsbD k = false)) := by
  rw [← Bool.decide_and, decide_eq_decide]
  exact none_iff

theorem whole_lt_bitsToLongs {w : ℕ} (h : w < nbits / bitsPerLong) : w < bitsToLongs nbits := by
  unfold bitsToLongs bitsPerLong at *
  omega

theorem last_lt_bitsToLongs (h : nbits % bitsPerLong ≠ 0) :
    nbits / bitsPerLong < bitsToLongs nbits := by
  unfold bitsToLongs bitsPerLong at *
  omega

theorem bitWord_lt_bitsToLongs {i : ℕ} (h : i < nbits) : bitWord i < bitsToLongs nbits := by
  unfold bitsToLongs bitWord bitsPerLong
  omega

end Bits

/-! ### The two ways over the bits -/

section Ways

variable {value : Words} {word : Memory} {pass : ℕ → Option Bool} {nbits : ℕ}

/-- **Whole words and a mask**: the bits below `nbits` decide, and only their words are read. -/
theorem wordsThenMask_eq (hword : ∀ place, place < bitsToLongs nbits →
    word place = some (value place)) :
    wordsThenMask word nbits = some (decide (∀ i, i < nbits → testBit i value = false)) := by
  have hlt : nbits % bitsPerLong < bitsPerLong := place_lt nbits
  have hwhole : ((List.range (nbits / bitsPerLong)).allM fun x => do return (← word x) == 0) =
      some (decide (∀ w, w < nbits / bitsPerLong → value w = 0)) := by
    refine allM_range_eq_some fun w hw => ?_
    rw [hword w (whole_lt_bitsToLongs hw)]
    rfl
  unfold wordsThenMask
  rw [hwhole, decide_none, Option.bind_eq_bind, Option.bind_some]
  dsimp only
  by_cases hrest : nbits % bitsPerLong = 0
  · -- no bit of the last word is asked for, and it is not read
    simp [hrest]
  · rw [hword _ (last_lt_bitsToLongs hrest)]
    generalize decide (∀ w, w < nbits / bitsPerLong → value w = 0) = whole
    cases whole with
    | false => rfl
    | true =>
        rw [Bool.true_and, Bool.true_and, if_pos (bne_iff_ne.mpr hrest)]
        exact congrArg some (decide_eq_decide.mpr (and_lowMask_eq_zero_iff hlt))

/-- **Whole words and bit by bit** is the same. -/
theorem wordsThenBits_eq (hword : ∀ place, place < bitsToLongs nbits →
    word place = some (value place))
    (hpass : ∀ place, place < bitsToLongs nbits → pass place = some (decide (value place = 0))) :
    wordsThenBits pass word nbits =
      some (decide (∀ i, i < nbits → testBit i value = false)) := by
  have hlt : nbits % bitsPerLong < bitsPerLong := place_lt nbits
  have hwhole : (List.range (nbits / bitsPerLong)).allM pass =
      some (decide (∀ w, w < nbits / bitsPerLong → value w = 0)) :=
    allM_range_eq_some fun w hw => hpass w (whole_lt_bitsToLongs hw)
  have hrest : ((List.range (nbits % bitsPerLong)).allM fun lim => do
      return (← word (nbits / bitsPerLong)) &&& bitMask lim == 0) =
      some (decide (∀ k, k < nbits % bitsPerLong →
        (value (nbits / bitsPerLong)).getLsbD k = false)) := by
    refine allM_range_eq_some fun k hk => ?_
    have hbit := @and_bitMask_eq_zero_iff (value (nbits / bitsPerLong)) k
    rw [Nat.mod_eq_of_lt (hk.trans hlt)] at hbit
    rw [hword _ (last_lt_bitsToLongs (by omega))]
    simp only [← hbit]
    rfl
  unfold wordsThenBits
  rw [hwhole, hrest, decide_none, Option.bind_eq_bind, Option.bind_some]
  generalize decide (∀ w, w < nbits / bitsPerLong → value w = 0) = whole
  cases whole with
  | false => rfl
  | true => rfl

end Ways

/-! ### The functions -/

section Functions

variable {a b : Words} {nbits : ℕ}

theorem bitmapSubset_eq : bitmapSubset (upTo a (bitsToLongs nbits)) (upTo b (bitsToLongs nbits))
    nbits = some (decide (∀ i, i < nbits → testBit i a = true → testBit i b = true)) := by
  unfold bitmapSubset
  rw [@wordsThenMask_eq (fun x => a x &&& ~~~b x)]
  · refine congrArg some (decide_eq_decide.mpr (forall₂_congr fun i _ => ?_))
    rw [testBit_and i a fun x => ~~~b x, testBit_not]
    cases testBit i a <;> cases testBit i b <;> simp
  · intro place hplace
    rw [upTo_of_lt hplace, upTo_of_lt hplace]
    rfl

theorem bitmapFull_eq : bitmapFull (upTo a (bitsToLongs nbits)) nbits =
    some (decide (∀ i, i < nbits → testBit i a = true)) := by
  unfold bitmapFull
  rw [@wordsThenMask_eq fun x => ~~~a x]
  · refine congrArg some (decide_eq_decide.mpr (forall₂_congr fun i _ => ?_))
    rw [testBit_not, Bool.not_eq_false']
  · intro place hplace
    rw [upTo_of_lt hplace]
    rfl

theorem bitmapEqual_eq : bitmapEqual (upTo a (bitsToLongs nbits)) (upTo b (bitsToLongs nbits))
    nbits = some (decide (∀ i, i < nbits → testBit i a = testBit i b)) := by
  unfold bitmapEqual
  rw [@wordsThenBits_eq fun x => a x ^^^ b x]
  · refine congrArg some (decide_eq_decide.mpr (forall₂_congr fun i _ => ?_))
    rw [testBit_xor, bne_eq_false_iff_eq]
  · intro place hplace
    rw [upTo_of_lt hplace, upTo_of_lt hplace]
    rfl
  · intro place hplace
    rw [upTo_of_lt hplace, upTo_of_lt hplace]
    exact congrArg some (decide_eq_decide.mpr BitVec.xor_eq_zero_iff.symm)

theorem bitmapEmpty_eq : bitmapEmpty (upTo a (bitsToLongs nbits)) nbits =
    some (decide (∀ i, i < nbits → testBit i a = false)) := by
  refine wordsThenBits_eq (fun place hplace => upTo_of_lt hplace) fun place hplace => ?_
  rw [upTo_of_lt hplace]
  rfl

theorem bitmapIntersects_eq :
    bitmapIntersects (upTo a (bitsToLongs nbits)) (upTo b (bitsToLongs nbits)) nbits =
      some (decide (∃ i, i < nbits ∧ testBit i a = true ∧ testBit i b = true)) := by
  unfold bitmapIntersects
  rw [@wordsThenBits_eq fun x => a x &&& b x]
  · rw [Option.bind_eq_bind, Option.bind_some]
    refine congrArg some ?_
    rw [← decide_not, decide_eq_decide]
    simp only [testBit_and, not_forall, Bool.not_eq_false, Bool.and_eq_true, exists_prop]
  · intro place hplace
    rw [upTo_of_lt hplace, upTo_of_lt hplace]
    rfl
  · intro place hplace
    rw [upTo_of_lt hplace, upTo_of_lt hplace]
    rfl

theorem bitmapWeight_eq : bitmapWeight (upTo a (bitsToLongs nbits)) nbits =
    some ((Nat.count (fun i => testBit i a = true) nbits : ℤ).bmod (2 ^ 32)) := by
  have hcount : ∀ n, (List.range n).foldl (fun (y : BitVec 32) x =>
      if a (bitWord x) &&& bitMask x != 0 then y + 1 else y) 0 =
      BitVec.ofNat 32 (Nat.count (fun i => testBit i a = true) n) := by
    intro n
    -- `y` counts modulo 2 ^ 32, and only the result is taken for signed
    induction n with
    | zero => rfl
    | succ n ih =>
        rw [List.range_succ, List.foldl_append, ih, Nat.count_succ]
        show (if testBit n a = true then _ else _) = _
        by_cases hset : testBit n a = true
        · rw [if_pos hset, if_pos hset, BitVec.ofNat_add]
          rfl
        · rw [if_neg hset, if_neg hset, Nat.add_zero]
  unfold bitmapWeight
  rw [foldlM_eq_some, hcount, Option.bind_eq_bind, Option.bind_some]
  · exact congrArg some (BitVec.toInt_ofNat ..)
  · intro x hx y
    rw [upTo_of_lt (bitWord_lt_bitsToLongs (List.mem_range.mp hx))]
    rfl

/-- **The predicates look at the first bits only**: what they say is what holds of the bits below
`nbits`, and they have a result though no word behind the last of these can be read. -/
theorem bitmapPredicates_spec (a b : Words) (nbits : ℕ) :
    let pa := upTo a (bitsToLongs nbits)
    let pb := upTo b (bitsToLongs nbits)
    bitmapEmpty pa nbits = some (decide (∀ i, i < nbits → testBit i a = false)) ∧
      bitmapFull pa nbits = some (decide (∀ i, i < nbits → testBit i a = true)) ∧
      bitmapEqual pa pb nbits = some (decide (∀ i, i < nbits → testBit i a = testBit i b)) ∧
      bitmapSubset pa pb nbits =
        some (decide (∀ i, i < nbits → testBit i a = true → testBit i b = true)) ∧
      bitmapIntersects pa pb nbits =
        some (decide (∃ i, i < nbits ∧ testBit i a = true ∧ testBit i b = true)) ∧
      bitmapWeight pa nbits =
        some ((Nat.count (fun i => testBit i a = true) nbits : ℤ).bmod (2 ^ 32)) ∧
      (Nat.count (fun i => testBit i a = true) nbits < 2 ^ 31 →
        bitmapWeight pa nbits = some (Nat.count (fun i => testBit i a = true) nbits : ℤ)) := by
  refine ⟨bitmapEmpty_eq, bitmapFull_eq, bitmapEqual_eq, bitmapSubset_eq, bitmapIntersects_eq,
    bitmapWeight_eq, fun hlt => ?_⟩
  rw [bitmapWeight_eq]
  refine congrArg some (Int.bmod_eq_of_le ?_ ?_)
  · omega
  · omega

/-- The bits of a bitmap with all of 2 ^ 31 bits set, as they are counted and as `bitmap_weight`
returns their number. -/
theorem bitmapWeight_negative :
    Nat.count (fun i => testBit i (fun _ => BitVec.allOnes 64) = true) (2 ^ 31) = 2147483648 ∧
      bitmapWeight (upTo (fun _ => BitVec.allOnes 64) (bitsToLongs (2 ^ 31))) (2 ^ 31) =
        some (-2147483648) := by
  have hcount : Nat.count (fun i => testBit i (fun _ => BitVec.allOnes 64) = true) (2 ^ 31) =
      2 ^ 31 := by
    refine Nat.count_iff_forall.mpr fun i _ => ?_
    rw [testBit_eq, BitVec.getLsbD_allOnes, decide_eq_true (place_lt i)]
  rw [bitmapWeight_eq, hcount]
  exact ⟨by decide, by decide⟩

/-- The bitmaps that are read elsewhere as a whole are read no further either. -/
theorem bitmapFull_eq_full : bitmapFull (upTo a (bitsToLongs nbits)) nbits =
    some (Bitmap.bitmapFull a nbits) := by
  rw [bitmapFull_eq, Option.some_inj, Bool.eq_iff_iff, decide_eq_true_eq, bitmapFull_iff]

end Functions

end Webcamd.Kernel.BitmapPredicates
