import Mathlib
import Webcamd.Kernel.BitmapSet
import Webcamd.Library.InPlace

/-!
# Shifting bitmaps

`bitmap_shift_right` and `bitmap_shift_left` of `kernel/linux_func.c`, which move bits one at a time
from the first to the last, also where source and destination are one array.

* `copyBits`, `clearBits` — the loops, as assignments to the single bits (`bits_copyBits`,
  `bits_clearBits`).
* `ShiftedRight`, `ShiftedLeft` — what the functions are for.
* `bitmapShiftRight_spec` — to the right, no bit is read that is written already.
* `shifts_iff` — to the left, it is: in place, the bits that are moved are those that the function
  has cleared first, and it clears all of them.
-/

namespace Webcamd.Kernel.BitmapShift

open Bitmap BitmapSet Library

/-- The loop that moves bits: bit `x` is copied from bit `y` of the source, for all `x` in
`places`. -/
def copyBits (src : Option Words) (y : ℕ → ℕ) (places : List ℕ) (dst : Words) : Words :=
  places.foldl (fun dst x =>
    if testBit (y x) (operand dst src) then setBit x dst else clearBit x dst) dst

/-- The loop that clears bits. -/
def clearBits (places : List ℕ) (dst : Words) : Words :=
  places.foldl (fun dst x => clearBit x dst) dst

/-- `bitmap_shift_right`, for `n` up to `nbits` -/
def bitmapShiftRight (dst : Words) (src : Option Words) (n nbits : ℕ) : Words :=
  let dst := copyBits src (fun x => x + n) (List.range (nbits - n)) dst
  clearBits (List.range' (nbits - n) (nbits - (nbits - n))) dst

/-- `bitmap_shift_left` -/
def bitmapShiftLeft (dst : Words) (src : Option Words) (n nbits : ℕ) : Words :=
  let dst := clearBits (List.range n) dst
  copyBits src (fun x => x - n) (List.range' n (nbits - n)) dst

/-! ### The loops, bit by bit -/

section Loops

variable {src : Option Words} {y : ℕ → ℕ} {places : List ℕ} {dst : Words} {i : ℕ}

/-- A bitmap as a row of bits. -/
def bits (words : Words) : ℕ → Bool := fun i => testBit i words

theorem bits_setBit (x : ℕ) (words : Words) :
    bits (setBit x words) = Function.update (bits words) x true := by
  funext i
  unfold bits
  rw [testBit_setBit, Function.update_apply]
  by_cases hi : i = x
  · rw [if_pos hi, decide_eq_true hi.symm, Bool.true_or]
  · rw [if_neg hi, decide_eq_false (Ne.symm hi), Bool.false_or]

theorem bits_clearBit (x : ℕ) (words : Words) :
    bits (clearBit x words) = Function.update (bits words) x false := by
  funext i
  unfold bits
  rw [testBit_clearBit, Function.update_apply]
  by_cases hi : i = x
  · rw [if_pos hi, decide_eq_true hi.symm, Bool.not_true, Bool.false_and]
  · rw [if_neg hi, decide_eq_false (Ne.symm hi), Bool.not_false, Bool.true_and]

/-- The bits that the loop reads, in the array that it writes or another one. -/
def source (src : Option Words) (row : ℕ → Bool) : ℕ → Bool := (src.map bits).getD row

theorem bits_operand (dst : Words) (src : Option Words) :
    bits (operand dst src) = source src (bits dst) := by
  cases src with
  | none => rfl
  | some words => rfl

/-- **The loop that moves bits** assigns them one after another. -/
theorem bits_copyBits : bits (copyBits src y places dst) =
    assignAll (fun row x => source src row (y x)) places (bits dst) := by
  unfold copyBits assignAll
  refine (List.foldl_hom bits fun dst x => ?_).symm
  dsimp only
  rw [← bits_operand]
  show _ = bits (if bits (operand dst src) (y x) then _ else _)
  cases bits (operand dst src) (y x) with
  | true => exact (bits_setBit x dst).symm
  | false => exact (bits_clearBit x dst).symm

theorem bits_clearBits :
    bits (clearBits places dst) = assignAll (fun _ _ => false) places (bits dst) := by
  unfold clearBits assignAll
  exact (List.foldl_hom bits fun dst x => (bits_clearBit x dst).symm).symm

theorem bits_clearBits_of_mem (hnodup : places.Nodup) (hi : i ∈ places) :
    bits (clearBits places dst) i = false := by
  rw [bits_clearBits]
  refine assignAll_apply hnodup ?_ hi
  exact List.pairwise_of_forall fun _ _ _ _ => rfl

theorem bits_clearBits_of_notMem (hi : i ∉ places) :
    bits (clearBits places dst) i = bits dst i := by
  rw [bits_clearBits, assignAll_of_notMem hi]

theorem bits_copyBits_of_notMem (hi : i ∉ places) :
    bits (copyBits src y places dst) i = bits dst i := by
  rw [bits_copyBits, assignAll_of_notMem hi]

/-- **Bits are moved as they were before** if the source is another array, or none of them is read
after it is written. -/
theorem bits_copyBits_of_mem (hnodup : places.Nodup)
    (hreads : src ≠ none ∨ places.Pairwise fun i j => y j ≠ i) (hi : i ∈ places) :
    bits (copyBits src y places dst) i = bits (operand dst src) (y i) := by
  rw [bits_copyBits, bits_operand]
  refine assignAll_apply hnodup ?_ hi
  cases src with
  | some words => exact List.pairwise_of_forall fun _ _ _ _ => rfl
  | none =>
      refine (hreads.resolve_left fun hne => hne rfl).imp fun hne row value => ?_
      exact Function.update_of_ne hne value row

end Loops

/-! ### The functions -/

section Shifts

/-- What `bitmap_shift_right` is for: `old` is the source as it was before, and `final` the
destination after. -/
structure ShiftedRight (old dst final : Words) (n nbits : ℕ) : Prop where
  moved : ∀ i, i < nbits - n → testBit i final = testBit (i + n) old
  zero : ∀ i, nbits - n ≤ i → i < nbits → testBit i final = false
  rest : ∀ i, nbits ≤ i → testBit i final = testBit i dst

/-- What `bitmap_shift_left` is for. -/
structure ShiftedLeft (old dst final : Words) (n nbits : ℕ) : Prop where
  zero : ∀ i, i < n → testBit i final = false
  moved : ∀ i, n ≤ i → i < nbits → testBit i final = testBit (i - n) old
  rest : ∀ i, nbits ≤ i → testBit i final = testBit i dst

variable {dst : Words} {src : Option Words} {n nbits : ℕ}

/-- **To the right** bits are moved to places before all that are still to be read. -/
theorem bitmapShiftRight_spec (dst : Words) (src : Option Words) (n nbits : ℕ) :
    ShiftedRight (operand dst src) dst (bitmapShiftRight dst src n nbits) n nbits := by
  have hreads : (List.range (nbits - n)).Pairwise fun i j => j + n ≠ i :=
    List.pairwise_lt_range.imp fun hlt => by omega
  constructor
  case moved =>
    intro i hi
    have hout : i ∉ List.range' (nbits - n) (nbits - (nbits - n)) := by
      rw [List.mem_range'_1]
      omega
    exact (bits_clearBits_of_notMem hout).trans
      (bits_copyBits_of_mem List.nodup_range (Or.inr hreads) (List.mem_range.mpr hi))
  case zero =>
    intro i hle hlt
    refine bits_clearBits_of_mem List.nodup_range' ?_
    rw [List.mem_range'_1]
    omega
  case rest =>
    intro i hi
    have hout : i ∉ List.range' (nbits - n) (nbits - (nbits - n)) := by
      rw [List.mem_range'_1]
      omega
    have hmoved : i ∉ List.range (nbits - n) := by
      rw [List.mem_range]
      omega
    exact (bits_clearBits_of_notMem hout).trans (bits_copyBits_of_notMem hmoved)

/-- Behind the last bit nothing is written. -/
theorem bitmapShiftLeft_rest (hn : n ≤ nbits) {i : ℕ} (hi : nbits ≤ i) :
    testBit i (bitmapShiftLeft dst src n nbits) = testBit i dst := by
  have hmoved : i ∉ List.range' n (nbits - n) := by
    rw [List.mem_range'_1]
    omega
  have hout : i ∉ List.range n := by
    rw [List.mem_range]
    omega
  exact (bits_copyBits_of_notMem hmoved).trans (bits_clearBits_of_notMem hout)

/-- To the left, from another array or by no place, no bit is read that is written already. -/
theorem bitmapShiftLeft_spec (hn : n ≤ nbits) (hsrc : src ≠ none ∨ n = 0) :
    ShiftedLeft (operand dst src) dst (bitmapShiftLeft dst src n nbits) n nbits := by
  have hreads : src ≠ none ∨ (List.range' n (nbits - n)).Pairwise fun i j => j - n ≠ i :=
    hsrc.imp_right fun hzero => (List.pairwise_lt_range' 1).imp fun hlt => by omega
  constructor
  case zero =>
    intro i hi
    have hmoved : i ∉ List.range' n (nbits - n) := by
      rw [List.mem_range'_1]
      omega
    exact (bits_copyBits_of_notMem hmoved).trans
      (bits_clearBits_of_mem List.nodup_range (List.mem_range.mpr hi))
  case moved =>
    intro i hle hlt
    have hmem : i ∈ List.range' n (nbits - n) := by
      rw [List.mem_range'_1]
      omega
    refine (bits_copyBits_of_mem List.nodup_range' hreads hmem).trans ?_
    rcases hsrc with hne | rfl
    · obtain ⟨words, rfl⟩ := Option.ne_none_iff_exists'.mp hne
      rfl
    · rfl
  case rest => exact fun i hi => bitmapShiftLeft_rest hn hi

/-- **To the left in place** nothing is left: the zeros that are written first are moved on. -/
theorem bitmapShiftLeft_inPlace (hn : 0 < n) {i : ℕ} (hi : i < n + (nbits - n)) :
    testBit i (bitmapShiftLeft dst none n nbits) = false := by
  have hrow : ∀ count i, i < n + count →
      bits (copyBits none (fun x => x - n) (List.range' n count)
        (clearBits (List.range n) dst)) i = false := by
    intro count
    -- by the number of bits that are moved: each is read `n` places before, where there are zeros
    induction count with
    | zero =>
        intro i hi
        exact bits_clearBits_of_mem List.nodup_range (List.mem_range.mpr hi)
    | succ count ih =>
        intro i hi
        rw [List.range'_1_concat, bits_copyBits, assignAll_concat, ← bits_copyBits]
        by_cases hlast : i = n + count
        · rw [hlast, Function.update_self]
          exact ih (n + count - n) (by omega)
        · rw [Function.update_of_ne hlast]
          exact ih i (by omega)
  exact hrow (nbits - n) i hi

/-- **The shifts are right** between two arrays and by no place; in place, only if all bits are zero
that the shift to the left moves. -/
theorem shifts_iff (dst : Words) (src : Option Words) (hn : n ≤ nbits) :
    (ShiftedRight (operand dst src) dst (bitmapShiftRight dst src n nbits) n nbits ∧
      ShiftedLeft (operand dst src) dst (bitmapShiftLeft dst src n nbits) n nbits) ↔
      src ≠ none ∨ n = 0 ∨ ∀ i, i + n < nbits → testBit i dst = false := by
  constructor
  · rintro ⟨-, hleft⟩
    cases src with
    | some words => exact Or.inl (Option.some_ne_none words)
    | none =>
        refine Or.inr ((Nat.eq_zero_or_pos n).imp_right fun hpos i hi => ?_)
        have hmoved := hleft.moved (i + n) (Nat.le_add_left n i) hi
        rw [bitmapShiftLeft_inPlace hpos (by omega), Nat.add_sub_cancel] at hmoved
        exact hmoved.symm
  · intro h
    refine ⟨bitmapShiftRight_spec dst src n nbits, ?_⟩
    by_cases hsrc : src ≠ none ∨ n = 0
    · exact bitmapShiftLeft_spec hn hsrc
    · -- in place nothing is left below `nbits`, which is right where nothing was moved
      obtain ⟨hnone, hzero⟩ := not_or.mp hsrc
      rw [not_not] at hnone
      subst hnone
      have hclear := (h.resolve_left fun hne => hne rfl).resolve_left hzero
      have hfinal : ∀ i, i < nbits → testBit i (bitmapShiftLeft dst none n nbits) = false :=
        fun i hi => bitmapShiftLeft_inPlace (Nat.pos_of_ne_zero hzero) (by omega)
      constructor
      case zero => exact fun i hi => hfinal i (by omega)
      case moved =>
        intro i hle hlt
        rw [hfinal i hlt]
        exact (hclear (i - n) (by omega)).symm
      case rest => exact fun i hi => bitmapShiftLeft_rest hn hi

/-- The shifts by one place of eight bits with the last one set, in place. -/
theorem shifts_iff_eight :
    (ShiftedRight (operand (fun _ => 128) none) (fun _ => 128)
        (bitmapShiftRight (fun _ => 128) none 1 8) 1 8 ∧
      ShiftedLeft (operand (fun _ => 128) none) (fun _ => 128)
        (bitmapShiftLeft (fun _ => 128) none 1 8) 1 8) ↔
      (none : Option Words) ≠ none ∨ 1 = 0 ∨
        ∀ i, i + 1 < 8 → testBit i (fun _ => 128) = false :=
  shifts_iff (fun _ => 128) none (by decide)

/-- The first of two bits is lost where it is moved to the second one in place. -/
theorem twoBits_not_shiftedLeft :
    ¬ (ShiftedRight (operand (fun _ => 1) none) (fun _ => 1)
        (bitmapShiftRight (fun _ => 1) none 1 2) 1 2 ∧
      ShiftedLeft (operand (fun _ => 1) none) (fun _ => 1)
        (bitmapShiftLeft (fun _ => 1) none 1 2) 1 2) := by
  rintro ⟨-, hleft⟩
  exact absurd (hleft.moved 1 (by decide) (by decide)) (by decide)

end Shifts

end Webcamd.Kernel.BitmapShift
