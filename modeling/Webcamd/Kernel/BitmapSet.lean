import Mathlib
import Webcamd.Kernel.BitmapPredicates

/-!
# Bitmaps as sets

`bitmap_and`, `bitmap_andnot`, `bitmap_or` and `bitmap_xor` of `kernel/linux_func.c`, which go over
two bitmaps word by word, and write a third one that may also be one of the two.

* `combine` — the loop that the four functions share, and `combine_spec` what it does.
* `SetOperations` — what the functions are for, bit by bit and in terms of the predicates on the
  same bitmaps.
* `setOperations_iff` — when they do this.  The words are written as a whole, and the bits behind
  the last one count for what `bitmap_and` and `bitmap_andnot` return, where the predicates mask
  them; and `bitmap_xor` has the operator of `bitmap_or`.
-/

namespace Webcamd.Kernel.BitmapSet

open Bitmap BitmapPredicates Library

/-- `int len = (nbits + BITS_PER_LONG - 1) / BITS_PER_LONG`: there is none if the sum does not fit
in an `int`. -/
def wordCount (nbits : ℕ) : Option ℕ :=
  if nbits + bitsPerLong - 1 < 2 ^ 31 then some ((nbits + bitsPerLong - 1) / bitsPerLong) else none

/-- An argument that is an array of its own, or the one that is written. -/
def operand (dst : Words) (b : Option Words) : Words := b.getD dst

/-- The loop of the four functions: `temp` is the word that `op` gives, and `retval` collects its
bits. -/
def combine (op : BitVec 64 → BitVec 64 → BitVec 64) (dst : Words) (b1 b2 : Option Words)
    (len : ℕ) : Words × BitVec 64 :=
  (List.range len).foldl (fun (dst, retval) n =>
    let temp := op (operand dst b1 n) (operand dst b2 n)
    (Function.update dst n temp, retval ||| temp)) (dst, 0)

/-- `bitmap_andnot`: the array written, and whether the function returns non-zero -/
def bitmapAndnot (dst : Words) (b1 b2 : Option Words) (nbits : ℕ) : Option (Words × Bool) := do
  let len ← wordCount nbits
  let (dst, retval) := combine (fun x y => x &&& ~~~y) dst b1 b2 len
  return (dst, retval != 0)

/-- `bitmap_and` -/
def bitmapAnd (dst : Words) (b1 b2 : Option Words) (nbits : ℕ) : Option (Words × Bool) := do
  let len ← wordCount nbits
  let (dst, retval) := combine (fun x y => x &&& y) dst b1 b2 len
  return (dst, retval != 0)

/-- `bitmap_or`, which returns nothing -/
def bitmapOr (dst : Words) (b1 b2 : Option Words) (nbits : ℕ) : Option Words := do
  let len ← wordCount nbits
  return (combine (fun x y => x ||| y) dst b1 b2 len).1

/-- `bitmap_xor`, with the operator of the source -/
def bitmapXor (dst : Words) (b1 b2 : Option Words) (nbits : ℕ) : Option Words := do
  let len ← wordCount nbits
  return (combine (fun x y => x ||| y) dst b1 b2 len).1

/-! ### The loop -/

section Combine

variable {op : BitVec 64 → BitVec 64 → BitVec 64} {dst : Words} {b1 b2 : Option Words}

/-- A word that is not written yet is read as it was, also where an argument is written. -/
theorem operand_congr {dst' : Words} {place : ℕ} (h : dst' place = dst place)
    (b : Option Words) : operand dst' b place = operand dst b place := by
  cases b with
  | none => exact h
  | some words => rfl

/-- **The loop** writes the words below `len`, each from the words of the arguments as they were
before, and collects all their bits. -/
theorem combine_spec (len : ℕ) :
    (∀ w, (combine op dst b1 b2 len).1 w =
      if w < len then op (operand dst b1 w) (operand dst b2 w) else dst w) ∧
      ((combine op dst b1 b2 len).2 = 0 ↔
        ∀ w, w < len → op (operand dst b1 w) (operand dst b2 w) = 0) := by
  induction len with
  | zero => exact ⟨fun w => rfl, iff_of_true rfl fun w hw => absurd hw (Nat.not_lt_zero w)⟩
  | succ len ih =>
      obtain ⟨hwords, hbits⟩ := ih
      have hlast : (combine op dst b1 b2 len).1 len = dst len := by
        rw [hwords, if_neg (lt_irrefl len)]
      -- what the step reads is not written yet, also where an argument is the destination
      have hstep : combine op dst b1 b2 (len + 1) =
          (Function.update (combine op dst b1 b2 len).1 len
              (op (operand dst b1 len) (operand dst b2 len)),
            (combine op dst b1 b2 len).2 ||| op (operand dst b1 len) (operand dst b2 len)) := by
        rw [← operand_congr hlast b1, ← operand_congr hlast b2]
        unfold combine
        rw [List.range_succ, List.foldl_append]
        rfl
      rw [hstep]
      constructor
      · intro w
        dsimp only
        by_cases hw : w = len
        · subst hw
          rw [Function.update_self, if_pos (Nat.lt_succ_self w)]
        · have hlt : w < len + 1 ↔ w < len := by omega
          rw [Function.update_of_ne hw, hwords]
          simp only [hlt]
      · dsimp only
        rw [show (0 : BitVec 64) = 0#64 from rfl, BitVec.or_eq_zero_iff,
          Nat.forall_lt_succ_right]
        exact and_congr_left' hbits

end Combine

/-! ### Bit by bit -/

section Bitwise

variable {op : BitVec 64 → BitVec 64 → BitVec 64} {f : Bool → Bool → Bool} {dst : Words}
  {b1 b2 : Option Words} {len : ℕ}

/-- The operator gives each bit as `f` gives it from the two bits at its place. -/
def Bitwise (op : BitVec 64 → BitVec 64 → BitVec 64) (f : Bool → Bool → Bool) : Prop :=
  ∀ x y k, k < bitsPerLong → (op x y).getLsbD k = f (x.getLsbD k) (y.getLsbD k)

theorem bitwise_and : Bitwise (fun x y => x &&& y) (fun x y => x && y) :=
  fun _ _ _ _ => BitVec.getLsbD_and

theorem bitwise_or : Bitwise (fun x y => x ||| y) (fun x y => x || y) :=
  fun _ _ _ _ => BitVec.getLsbD_or

theorem bitwise_andnot : Bitwise (fun x y => x &&& ~~~y) (fun x y => x && !y) := by
  intro x y k hk
  rw [BitVec.getLsbD_and, BitVec.getLsbD_not, decide_eq_true (show k < 64 from hk),
    Bool.true_and]

theorem testBit_combine (hop : Bitwise op f) {i : ℕ} (hi : i < bitsPerLong * len) :
    testBit i (combine op dst b1 b2 len).1 =
      f (testBit i (operand dst b1)) (testBit i (operand dst b2)) := by
  have hword : bitWord i < len := Nat.div_lt_of_lt_mul hi
  simp only [testBit_eq]
  rw [(combine_spec len).1, if_pos hword, hop _ _ _ (place_lt i)]

/-- What the loop collects are the bits of all words it goes over. -/
theorem retval_combine (hop : Bitwise op f) :
    ((combine op dst b1 b2 len).2 != 0) = decide (∃ i, i < bitsPerLong * len ∧
      f (testBit i (operand dst b1)) (testBit i (operand dst b2)) = true) := by
  have hpos : 0 < bitsPerLong := by decide
  have hbit : ∀ i, testBit i (fun w => op (operand dst b1 w) (operand dst b2 w)) =
      f (testBit i (operand dst b1)) (testBit i (operand dst b2)) := by
    intro i
    simp only [testBit_eq]
    exact hop _ _ _ (place_lt i)
  have hnone := @none_iff (fun w => op (operand dst b1 w) (operand dst b2 w)) (bitsPerLong * len)
  rw [Nat.mul_div_cancel_left len hpos, Nat.mul_mod_right, ← (combine_spec len).2] at hnone
  simp only [hbit, Nat.not_lt_zero, false_imp_iff, implies_true, and_true] at hnone
  rw [Bool.eq_iff_iff, bne_iff_ne, decide_eq_true_eq, ne_eq, ← hnone]
  simp only [not_forall, Bool.not_eq_false, exists_prop]

end Bitwise

/-! ### What the functions are for -/

section SetOperations

variable (dst : Words) (b1 b2 : Option Words) (nbits : ℕ)

/-- The bits of the result, and what is returned in terms of the predicates on the arguments as
they were before. -/
structure SetOperations : Prop where
  and : ∃ final retval, bitmapAnd dst b1 b2 nbits = some (final, retval) ∧
    (∀ i, i < nbits →
      testBit i final = (testBit i (operand dst b1) && testBit i (operand dst b2))) ∧
    bitmapIntersects (upTo (operand dst b1) (bitsToLongs nbits))
      (upTo (operand dst b2) (bitsToLongs nbits)) nbits = some retval
  or : ∃ final, bitmapOr dst b1 b2 nbits = some final ∧
    ∀ i, i < nbits → testBit i final = (testBit i (operand dst b1) || testBit i (operand dst b2))
  xor : ∃ final, bitmapXor dst b1 b2 nbits = some final ∧
    ∀ i, i < nbits → testBit i final = (testBit i (operand dst b1) ^^ testBit i (operand dst b2))
  andnot : ∃ final retval, bitmapAndnot dst b1 b2 nbits = some (final, retval) ∧
    (∀ i, i < nbits →
      testBit i final = (testBit i (operand dst b1) && !testBit i (operand dst b2))) ∧
    bitmapSubset (upTo (operand dst b1) (bitsToLongs nbits))
      (upTo (operand dst b2) (bitsToLongs nbits)) nbits = some !retval

variable {dst b1 b2 nbits}

theorem lt_words {i : ℕ} (hi : i < nbits) : i < bitsPerLong * bitsToLongs nbits := by
  unfold bitsToLongs bitsPerLong
  omega

/-- A word that is returned says the same as the bits below `nbits` if these are all it has. -/
theorem exists_agree_iff {P : ℕ → Prop} [DecidablePred P] :
    decide (∃ i, i < nbits ∧ P i) = decide (∃ i, i < bitsPerLong * bitsToLongs nbits ∧ P i) ↔
      (∃ i, i < nbits ∧ P i) ∨ ∀ i, i < bitsPerLong * bitsToLongs nbits → ¬ P i := by
  rw [decide_eq_decide]
  have hmore : (∃ i, i < nbits ∧ P i) → ∃ i, i < bitsPerLong * bitsToLongs nbits ∧ P i :=
    fun ⟨i, hi, hP⟩ => ⟨i, lt_words hi, hP⟩
  constructor
  · intro hiff
    by_cases h : ∃ i, i < nbits ∧ P i
    · exact Or.inl h
    · exact Or.inr fun i hi hP => h (hiff.mpr ⟨i, hi, hP⟩)
  · rintro (h | h)
    · exact iff_of_true h (hmore h)
    · have hnone : ¬ ∃ i, i < bitsPerLong * bitsToLongs nbits ∧ P i :=
        fun ⟨i, hi, hP⟩ => h i hi hP
      exact iff_of_false (fun hfirst => hnone (hmore hfirst)) hnone

/-- The number of words, if it fits. -/
theorem wordCount_eq (h : nbits ≤ 2 ^ 31 - 64) : wordCount nbits = some (bitsToLongs nbits) := by
  have hfits : nbits + bitsPerLong - 1 < 2 ^ 31 := by
    unfold bitsPerLong
    omega
  unfold wordCount
  rw [if_pos hfits]
  rfl

theorem wordCount_eq_none (h : ¬ nbits ≤ 2 ^ 31 - 64) : wordCount nbits = none := by
  have hlarge : ¬ nbits + bitsPerLong - 1 < 2 ^ 31 := by
    unfold bitsPerLong
    omega
  unfold wordCount
  rw [if_neg hlarge]

theorem bitmapAnd_eq (h : nbits ≤ 2 ^ 31 - 64) : bitmapAnd dst b1 b2 nbits =
    some ((combine (fun x y => x &&& y) dst b1 b2 (bitsToLongs nbits)).1,
      decide (∃ i, i < bitsPerLong * bitsToLongs nbits ∧
        testBit i (operand dst b1) = true ∧ testBit i (operand dst b2) = true)) := by
  simp only [← Bool.and_eq_true]
  rw [← retval_combine bitwise_and]
  unfold bitmapAnd
  rw [wordCount_eq h]
  rfl

theorem bitmapAndnot_eq (h : nbits ≤ 2 ^ 31 - 64) : bitmapAndnot dst b1 b2 nbits =
    some ((combine (fun x y => x &&& ~~~y) dst b1 b2 (bitsToLongs nbits)).1,
      decide (∃ i, i < bitsPerLong * bitsToLongs nbits ∧
        testBit i (operand dst b1) = true ∧ testBit i (operand dst b2) = false)) := by
  simp only [← Bool.not_eq_true', ← Bool.and_eq_true]
  rw [← retval_combine bitwise_andnot]
  unfold bitmapAndnot
  rw [wordCount_eq h]
  rfl

theorem bitmapSubset_eq_not : bitmapSubset (upTo (operand dst b1) (bitsToLongs nbits))
    (upTo (operand dst b2) (bitsToLongs nbits)) nbits =
      some !decide (∃ i, i < nbits ∧
        testBit i (operand dst b1) = true ∧ testBit i (operand dst b2) = false) := by
  rw [bitmapSubset_eq, ← decide_not]
  refine congrArg some (decide_eq_decide.mpr ?_)
  simp only [not_exists, not_and, Bool.not_eq_false]

theorem bitmapOr_eq (h : nbits ≤ 2 ^ 31 - 64) : bitmapOr dst b1 b2 nbits =
    some (combine (fun x y => x ||| y) dst b1 b2 (bitsToLongs nbits)).1 := by
  unfold bitmapOr
  rw [wordCount_eq h]
  rfl

/-- `bitmap_xor` does the work of `bitmap_or`. -/
theorem bitmapXor_eq_or : bitmapXor dst b1 b2 nbits = bitmapOr dst b1 b2 nbits := rfl

/-- The union is the symmetric difference of two sets just if they have nothing in common. -/
theorem union_eq_difference_iff : (∀ i, i < nbits →
    testBit i (combine (fun x y => x ||| y) dst b1 b2 (bitsToLongs nbits)).1 =
      (testBit i (operand dst b1) ^^ testBit i (operand dst b2))) ↔
    ∀ i, i < nbits →
      ¬ (testBit i (operand dst b1) = true ∧ testBit i (operand dst b2) = true) := by
  refine forall₂_congr fun i hi => ?_
  rw [testBit_combine bitwise_or (lt_words hi)]
  cases testBit i (operand dst b1) <;> cases testBit i (operand dst b2) <;> decide

/-- **The functions are set operations** just if the number of words fits in an `int`, no bit of the
words is in both arguments, and a bit behind the last one is in the difference of the two only
if one before it is. -/
theorem setOperations_iff (dst : Words) (b1 b2 : Option Words) (nbits : ℕ) :
    SetOperations dst b1 b2 nbits ↔
      nbits ≤ 2 ^ 31 - 64 ∧
        (∀ i, i < bitsPerLong * bitsToLongs nbits →
          ¬ (testBit i (operand dst b1) = true ∧ testBit i (operand dst b2) = true)) ∧
        ((∃ i, i < nbits ∧
            testBit i (operand dst b1) = true ∧ testBit i (operand dst b2) = false) ∨
          ∀ i, i < bitsPerLong * bitsToLongs nbits →
            ¬ (testBit i (operand dst b1) = true ∧ testBit i (operand dst b2) = false)) := by
  by_cases hcount : nbits ≤ 2 ^ 31 - 64
  · constructor
    · intro h
      refine ⟨hcount, ?_, ?_⟩
      · -- no bit is in both below `nbits`, for `bitmap_xor`, and so none is for `bitmap_and`
        obtain ⟨final, hfinal, hxor⟩ := h.xor
        rw [bitmapXor_eq_or, bitmapOr_eq hcount, Option.some_inj] at hfinal
        rw [← hfinal, union_eq_difference_iff] at hxor
        obtain ⟨final, retval, hand, -, hpred⟩ := h.and
        rw [bitmapAnd_eq hcount, Option.some_inj, Prod.mk.injEq] at hand
        rw [bitmapIntersects_eq, Option.some_inj, ← hand.2, exists_agree_iff] at hpred
        exact hpred.resolve_left fun ⟨i, hi, hboth⟩ => hxor i hi hboth
      · obtain ⟨final, retval, handnot, -, hpred⟩ := h.andnot
        rw [bitmapAndnot_eq hcount, Option.some_inj, Prod.mk.injEq] at handnot
        rwa [bitmapSubset_eq_not, Option.some_inj, Bool.not_inj_iff, ← handnot.2,
          exists_agree_iff] at hpred
    · rintro ⟨-, hnone, hdiff⟩
      constructor
      case and =>
        refine ⟨_, _, bitmapAnd_eq hcount,
          fun i hi => testBit_combine bitwise_and (lt_words hi), ?_⟩
        rw [bitmapIntersects_eq, Option.some_inj]
        exact exists_agree_iff.mpr (Or.inr hnone)
      case or =>
        exact ⟨_, bitmapOr_eq hcount, fun i hi => testBit_combine bitwise_or (lt_words hi)⟩
      case xor =>
        exact ⟨_, bitmapOr_eq hcount,
          union_eq_difference_iff.mpr fun i hi => hnone i (lt_words hi)⟩
      case andnot =>
        refine ⟨_, _, bitmapAndnot_eq hcount,
          fun i hi => testBit_combine bitwise_andnot (lt_words hi), ?_⟩
        rw [bitmapSubset_eq_not, Option.some_inj, Bool.not_inj_iff]
        exact exists_agree_iff.mpr hdiff
  · refine iff_of_false (fun h => ?_) fun h => hcount h.1
    obtain ⟨final, hor, -⟩ := h.or
    unfold bitmapOr at hor
    rw [wordCount_eq_none hcount] at hor
    exact absurd hor (by simp)

/-- One bit that is in both: `bitmap_xor` sets it. -/
theorem oneBit_not_setOperations :
    ¬ SetOperations (fun _ => 0) (some fun _ => 1) (some fun _ => 1) 1 := by
  intro h
  obtain ⟨final, hfinal, hxor⟩ := h.xor
  have hvalue : bitmapXor (fun _ => 0) (some fun _ => 1) (some fun _ => 1) 1 =
      some (Function.update (fun _ => 0) 0 1) := rfl
  rw [hvalue, Option.some_inj] at hfinal
  have hbit := hxor 0 Nat.zero_lt_one
  rw [← hfinal] at hbit
  exact absurd hbit (by decide)

end SetOperations

end Webcamd.Kernel.BitmapSet
