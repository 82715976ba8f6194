import Mathlib

/-!
# Shift registers with feedback

A register of any width that is moved by one bit at a time, and takes a constant when a one falls
out.  It can be read in either direction: towards the low end, or towards the high end.

* `shiftLow`, `shiftHigh` — one move in each of the two directions.
* `reverse_shiftLow` — reversing the bits turns one into the other, with the reversed constant.
* `absorbLow`, `absorbHigh` — a block of bits comes in at the end that the bits fall out of.
* `reverse_foldl_absorbLow` — the two registers are duals, over every list of blocks.
-/

namespace Webcamd.Library

variable {width : ℕ}

/-! ### Reversed words -/

/-- The bits of a reversed word. -/
theorem getLsbD_reverse_eq (x : BitVec width) (i : ℕ) :
    x.reverse.getLsbD i = (decide (i < width) && x.getLsbD (width - 1 - i)) := by
  rw [BitVec.getLsbD_reverse, BitVec.getMsbD_eq_getLsbD]

theorem reverse_xor (x y : BitVec width) : (x ^^^ y).reverse = x.reverse ^^^ y.reverse := by
  apply BitVec.eq_of_getLsbD_eq
  intro i hi
  simp only [BitVec.getLsbD_xor, getLsbD_reverse_eq, hi, decide_true, Bool.true_and]

theorem reverse_ushiftRight (x : BitVec width) (amount : ℕ) :
    (x >>> amount).reverse = x.reverse <<< amount := by
  apply BitVec.eq_of_getLsbD_eq
  intro i hi
  rw [getLsbD_reverse_eq, BitVec.getLsbD_ushiftRight, BitVec.getLsbD_shiftLeft,
    getLsbD_reverse_eq]
  by_cases hlow : i < amount
  · have hge : width ≤ amount + (width - 1 - i) := by omega
    simp [hi, hlow, BitVec.getLsbD_of_ge x _ hge]
  · have hplace : amount + (width - 1 - i) = width - 1 - (i - amount) := by omega
    have hlt : i - amount < width := by omega
    simp [hi, hlow, hlt, hplace]

/-- A short word at the low end is, reversed, the reversed word at the high end. -/
theorem reverse_setWidth {short : ℕ} (hshort : short ≤ width) (x : BitVec short) :
    (x.setWidth width).reverse = x.reverse.setWidth width <<< (width - short) := by
  apply BitVec.eq_of_getLsbD_eq
  intro i hi
  rw [getLsbD_reverse_eq, BitVec.getLsbD_setWidth, BitVec.getLsbD_shiftLeft,
    BitVec.getLsbD_setWidth, getLsbD_reverse_eq]
  by_cases hlow : i < width - short
  · have hge : short ≤ width - 1 - i := by omega
    simp [hi, hlow, BitVec.getLsbD_of_ge x _ hge]
  · have hplace : width - 1 - i = short - 1 - (i - (width - short)) := by omega
    have hlt : i - (width - short) < short := by omega
    have hwide : i - (width - short) < width := by omega
    have hinside : short - 1 - (i - (width - short)) < width := by omega
    simp [hi, hlow, hlt, hwide, hplace, hinside]

/-! ### One move -/

/-- One move towards the low end. -/
def shiftLow (feedback x : BitVec width) : BitVec width :=
  x >>> 1 ^^^ if x.getLsbD 0 then feedback else BitVec.ofNat width 0

/-- One move towards the high end. -/
def shiftHigh (feedback x : BitVec width) : BitVec width :=
  x <<< 1 ^^^ if x.msb then feedback else BitVec.ofNat width 0

theorem reverse_shiftLow (feedback x : BitVec width) :
    (shiftLow feedback x).reverse = shiftHigh feedback.reverse x.reverse := by
  unfold shiftLow shiftHigh
  rw [reverse_xor, reverse_ushiftRight, BitVec.msb_reverse]
  split
  · rfl
  · rw [BitVec.reverse_eq_zero_iff.mpr rfl]

/-- Reversing carries any number of moves along. -/
theorem reverse_iterate_shiftLow (feedback x : BitVec width) (count : ℕ) :
    ((shiftLow feedback)^[count] x).reverse =
      (shiftHigh feedback.reverse)^[count] x.reverse := by
  have hsemi : Function.Semiconj BitVec.reverse (shiftLow feedback)
      (shiftHigh feedback.reverse) := reverse_shiftLow feedback
  exact (hsemi.iterate_right count) x

/-! ### Blocks -/

/-- A block comes in at the low end, and is moved through. -/
def absorbLow {short : ℕ} (feedback : BitVec width) (x : BitVec width) (block : BitVec short) :
    BitVec width :=
  (shiftLow feedback)^[short] (x ^^^ block.setWidth width)

/-- A block comes in at the high end, and is moved through. -/
def absorbHigh {short : ℕ} (feedback : BitVec width) (x : BitVec width) (block : BitVec short) :
    BitVec width :=
  (shiftHigh feedback)^[short] (x ^^^ block.setWidth width <<< (width - short))

variable {short : ℕ}

theorem reverse_absorbLow (hshort : short ≤ width) (feedback x : BitVec width)
    (block : BitVec short) :
    (absorbLow feedback x block).reverse =
      absorbHigh feedback.reverse x.reverse block.reverse := by
  unfold absorbLow absorbHigh
  rw [reverse_iterate_shiftLow, reverse_xor, reverse_setWidth hshort]

/-- **The two registers are duals**, over every list of blocks. -/
theorem reverse_foldl_absorbLow (hshort : short ≤ width) (feedback : BitVec width)
    (blocks : List (BitVec short)) (x : BitVec width) :
    (blocks.foldl (absorbLow feedback) x).reverse =
      (blocks.map BitVec.reverse).foldl (absorbHigh feedback.reverse) x.reverse := by
  induction blocks generalizing x with
  | nil => rfl
  | cons block blocks ih =>
      rw [List.map_cons, List.foldl_cons, List.foldl_cons, ih, reverse_absorbLow hshort]

end Webcamd.Library
