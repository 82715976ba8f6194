import Mathlib

/-!
# Square roots digit by digit

The binary digits of a square root, from the most significant one on.  What the digits so far do not
account for is kept, and the next digit is one just if its part can be taken from that.

* `PartialRoot` — the invariant: the digits so far, and what is left of the number.
* `PartialRoot.one`, `PartialRoot.zero` — one digit more.
* `PartialRoot.done` — after the last digit it is the square root.
* `two_pow_mul_add_xor` — the last bits of a number can be changed by an exclusive or.
-/

namespace Webcamd.Library

/-- What a digit takes away that is one, with `digits` more to come after it: the difference of the
squares of `2 * root + 1` and `2 * root` at their place. -/
def digitPart (digits root : ℕ) : ℕ := (4 * root + 1) * 4 ^ digits

/-- The root of `number` with `digits` digits to come, and the rest of the number. -/
structure PartialRoot (number digits root rest : ℕ) : Prop where
  sum : (root * 2 ^ digits) ^ 2 + rest = number
  lt : rest < (2 * root + 1) * 4 ^ digits

section Root

variable {number digits root rest : ℕ}

/-- Before the first digit all of the number is left. -/
theorem PartialRoot.start (h : number < 4 ^ digits) : PartialRoot number digits 0 number := by
  constructor
  case sum => rw [Nat.zero_mul, Nat.zero_pow (by decide), Nat.zero_add]
  case lt => rwa [Nat.mul_zero, Nat.zero_add, Nat.one_mul]

theorem four_pow_eq (digits : ℕ) : 4 ^ digits = (2 ^ digits) ^ 2 := by
  rw [← Nat.pow_mul, Nat.mul_comm, Nat.pow_mul]

/-- **A digit that is one** takes its part away. -/
theorem PartialRoot.one (h : PartialRoot number (digits + 1) root rest)
    (hle : digitPart digits root ≤ rest) :
    PartialRoot number digits (2 * root + 1) (rest - digitPart digits root) := by
  obtain ⟨left, rfl⟩ := Nat.exists_eq_add_of_le hle
  rw [Nat.add_sub_cancel_left]
  constructor
  case sum =>
    have hsquare : ((2 * root + 1) * 2 ^ digits) ^ 2 =
        (root * 2 ^ (digits + 1)) ^ 2 + digitPart digits root := by
      unfold digitPart
      rw [four_pow_eq]
      ring
    rw [hsquare, Nat.add_assoc, h.sum]
  case lt =>
    have hsplit : (2 * root + 1) * 4 ^ (digits + 1) =
        digitPart digits root + (2 * (2 * root + 1) + 1) * 4 ^ digits := by
      unfold digitPart
      ring
    have hlt := h.lt
    rw [hsplit] at hlt
    exact Nat.lt_of_add_lt_add_left hlt

/-- **A digit that is zero** leaves the rest as it is. -/
theorem PartialRoot.zero (h : PartialRoot number (digits + 1) root rest)
    (hlt : rest < digitPart digits root) : PartialRoot number digits (2 * root) rest := by
  constructor
  case sum =>
    have hsquare : 2 * root * 2 ^ digits = root * 2 ^ (digits + 1) := by ring
    rw [hsquare, h.sum]
  case lt =>
    unfold digitPart at hlt
    rwa [← Nat.mul_assoc]

/-- With its last digit the root is the square root. -/
theorem PartialRoot.done (h : PartialRoot number 0 root rest) :
    root * root ≤ number ∧ number < (root + 1) * (root + 1) := by
  have hsum := h.sum
  have hlt := h.lt
  rw [Nat.pow_zero, Nat.mul_one, Nat.pow_two] at hsum
  rw [Nat.pow_zero, Nat.mul_one] at hlt
  have hnext : (root + 1) * (root + 1) = root * root + (2 * root + 1) := by ring
  omega

end Root

/-- **An exclusive or with the last bits** of a number does not touch the others. -/
theorem two_pow_mul_add_xor {n c d : ℕ} (hc : c < 2 ^ n) (hd : d < 2 ^ n) (j : ℕ) :
    (2 ^ n * j + c) ^^^ d = 2 ^ n * j + (c ^^^ d) := by
  have hdiv : ((2 ^ n * j + c) ^^^ d) / 2 ^ n = j := by
    rw [Nat.xor_div_two_pow, Nat.mul_add_div (Nat.two_pow_pos n), Nat.div_eq_of_lt hc,
      Nat.div_eq_of_lt hd, Nat.add_zero, Nat.xor_zero]
  have hmod : ((2 ^ n * j + c) ^^^ d) % 2 ^ n = c ^^^ d := by
    rw [Nat.xor_mod_two_pow, Nat.mul_add_mod, Nat.mod_eq_of_lt hc, Nat.mod_eq_of_lt hd]
  rw [← Nat.div_add_mod ((2 ^ n * j + c) ^^^ d) (2 ^ n), hdiv, hmod]

end Webcamd.Library
