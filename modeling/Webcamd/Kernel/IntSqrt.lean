import Mathlib
import Webcamd.Library.DigitSqrt

/-!
# `int_sqrt`

The square root of `kernel/linux_func.c`: 32 steps that are written out, each with constants of its
own, on the number and a word `b`.  With `digits` digits to come, `b` holds the digits so far above
the square of the next one, `(4 * root + 1) * 4 ^ (digits - 1)`: this is at once what the next digit
takes away, and where the root will be in the end.

* `intSqrt` — the steps, with the table of the constants.
* `intSqrtMasks_eq` — the constants of a step are seven and three times a power of four.
* `intSqrtStep_one`, `intSqrtStep_zero` — a step is one digit of the square root.
* `intSqrt_spec` — the result is the square root, rounded down, of every number.
-/

namespace Webcamd.Kernel.IntSqrt

open Library

/-- The constants of all steps but the last one: for a digit that is one, and for one that is
zero. -/
def intSqrtMasks : List (BitVec 64 × BitVec 64) :=
  [(0x7000000000000000, 0x3000000000000000),
    (0x1c00000000000000, 0xc00000000000000),
    (0x700000000000000, 0x300000000000000),
    (0x1c0000000000000, 0xc0000000000000),
    (0x70000000000000, 0x30000000000000),
    (0x1c000000000000, 0xc000000000000),
    (0x7000000000000, 0x3000000000000),
    (0x1c00000000000, 0xc00000000000),
    (0x700000000000, 0x300000000000),
    (0x1c0000000000, 0xc0000000000),
    (0x70000000000, 0x30000000000),
    (0x1c000000000, 0xc000000000),
    (0x7000000000, 0x3000000000),
    (0x1c00000000, 0xc00000000),
    (0x700000000, 0x300000000),
    (0x1c0000000, 0xc0000000),
    (0x70000000, 0x30000000),
    (0x1c000000, 0xc000000),
    (0x7000000, 0x3000000),
    (0x1c00000, 0xc00000),
    (0x700000, 0x300000),
    (0x1c0000, 0xc0000),
    (0x70000, 0x30000),
    (0x1c000, 0xc000),
    (0x7000, 0x3000),
    (0x1c00, 0xc00),
    (0x700, 0x300),
    (0x1c0, 0xc0),
    (0x70, 0x30),
    (0x1c, 0xc),
    (0x7, 0x3)]

/-- One step, on `a` and `b`. -/
def intSqrtStep (state masks : BitVec 64 × BitVec 64) : BitVec 64 × BitVec 64 :=
  let (a, b) := state
  if b ≤ a then (a - b, b >>> 1 ^^^ masks.1) else (a, b >>> 1 ^^^ masks.2)

/-- `int_sqrt`: the last step has a constant only for a digit that is one. -/
def intSqrt (a : BitVec 64) : BitVec 64 :=
  let (a, b) := intSqrtMasks.foldl intSqrtStep (a, 0x4000000000000000)
  if b ≤ a then b >>> 1 ^^^ 1 else b >>> 1

/-! ### The constants -/

/-- The constants with `digits` steps to come before the last one. -/
def masks : ℕ → List (BitVec 64 × BitVec 64)
  | 0 => []
  | digits + 1 => (7#64 <<< (2 * digits), 3#64 <<< (2 * digits)) :: masks digits

theorem intSqrtMasks_eq : intSqrtMasks = masks 31 := by decide

theorem toNat_mask {factor digits : ℕ} (hfactor : factor < 8) (hdigits : digits < 31) :
    (BitVec.ofNat 64 factor <<< (2 * digits)).toNat = factor * 4 ^ digits := by
  have hpow : 4 ^ digits ≤ 4 ^ 30 := Nat.pow_le_pow_right (by decide) (by omega)
  have hlt : factor * 4 ^ digits < 2 ^ 64 := by
    calc factor * 4 ^ digits ≤ 7 * 4 ^ 30 := Nat.mul_le_mul (by omega) hpow
      _ < 2 ^ 64 := by decide
  have hsmall : factor < 2 ^ 64 := hfactor.trans (by decide)
  rw [BitVec.toNat_shiftLeft, BitVec.toNat_ofNat, Nat.mod_eq_of_lt hsmall, Nat.shiftLeft_eq,
    Nat.pow_mul]
  exact Nat.mod_eq_of_lt hlt

/-! ### One step -/

section Step

variable {a b : BitVec 64} {digits root : ℕ}

/-- **The exclusive or** puts a digit behind those there are, and the square of the next one. -/
theorem packed_next {factor : ℕ} (hfactor : factor < 8) (hdigits : digits < 31)
    (hb : b.toNat = digitPart (digits + 1) root) :
    (b >>> 1 ^^^ BitVec.ofNat 64 factor <<< (2 * digits)).toNat =
      (8 * root + (2 ^^^ factor)) * 4 ^ digits := by
  have hhalf : digitPart (digits + 1) root / 2 = (2 ^ 3 * root + 2) <<< (2 * digits) := by
    rw [Nat.shiftLeft_eq, Nat.pow_mul]
    unfold digitPart
    rw [show (4 * root + 1) * 4 ^ (digits + 1) = 2 * ((2 ^ 3 * root + 2) * (2 ^ 2) ^ digits) by
      norm_num
      ring]
    exact Nat.mul_div_cancel_left _ (by decide)
  have hfour : 4 ^ digits = 2 ^ (2 * digits) := (Nat.pow_mul 2 2 digits).symm
  rw [BitVec.toNat_xor, BitVec.toNat_ushiftRight, hb, Nat.shiftRight_one, hhalf,
    toNat_mask hfactor hdigits, hfour, ← Nat.shiftLeft_eq, ← Nat.shiftLeft_xor_distrib,
    two_pow_mul_add_xor (by decide) hfactor, Nat.shiftLeft_eq]
  rfl

theorem intSqrtStep_one (hdigits : digits < 31) (hb : b.toNat = digitPart (digits + 1) root)
    (hle : digitPart (digits + 1) root ≤ a.toNat) :
    intSqrtStep (a, b) (7#64 <<< (2 * digits), 3#64 <<< (2 * digits)) =
        (a - b, b >>> 1 ^^^ 7#64 <<< (2 * digits)) ∧
      (a - b).toNat = a.toNat - digitPart (digits + 1) root ∧
      (b >>> 1 ^^^ 7#64 <<< (2 * digits)).toNat = digitPart digits (2 * root + 1) := by
  have hba : b ≤ a := by
    rw [BitVec.le_def, hb]
    exact hle
  refine ⟨if_pos hba, ?_, ?_⟩
  · rw [BitVec.toNat_sub_of_le hba, hb]
  · rw [packed_next (by decide) hdigits hb]
    unfold digitPart
    rw [show 8 * root + (2 ^^^ 7) = 4 * (2 * root + 1) + 1 by
      rw [show 2 ^^^ 7 = 5 from rfl]
      ring]

theorem intSqrtStep_zero (hdigits : digits < 31) (hb : b.toNat = digitPart (digits + 1) root)
    (hlt : a.toNat < digitPart (digits + 1) root) :
    intSqrtStep (a, b) (7#64 <<< (2 * digits), 3#64 <<< (2 * digits)) =
        (a, b >>> 1 ^^^ 3#64 <<< (2 * digits)) ∧
      (b >>> 1 ^^^ 3#64 <<< (2 * digits)).toNat = digitPart digits (2 * root) := by
  have hba : ¬ b ≤ a := by
    rw [BitVec.le_def, hb]
    exact not_le.mpr hlt
  refine ⟨if_neg hba, ?_⟩
  rw [packed_next (by decide) hdigits hb]
  unfold digitPart
  rw [show 8 * root + (2 ^^^ 3) = 4 * (2 * root) + 1 by
    rw [show 2 ^^^ 3 = 1 from rfl]
    ring]

end Step

/-! ### All steps -/

section Steps

/-- **The steps but the last one**, as digits of the square root. -/
theorem foldl_intSqrtStep {number digits root : ℕ} {a b : BitVec 64} (hdigits : digits ≤ 31)
    (h : PartialRoot number (digits + 1) root a.toNat) (hb : b.toNat = digitPart digits root) :
    ∃ root, PartialRoot number 1 root ((masks digits).foldl intSqrtStep (a, b)).1.toNat ∧
      ((masks digits).foldl intSqrtStep (a, b)).2.toNat = digitPart 0 root := by
  induction digits generalizing root a b with
  | zero => exact ⟨root, h, hb⟩
  | succ digits ih =>
      unfold masks
      rw [List.foldl_cons]
      -- the step compares `a` with `b`, and so decides the next digit of the root
      by_cases hle : digitPart (digits + 1) root ≤ a.toNat
      · obtain ⟨hstep, hrest, hnext⟩ := intSqrtStep_one hdigits hb hle
        rw [hstep]
        refine ih (by omega) ?_ hnext
        rw [hrest]
        exact h.one hle
      · obtain ⟨hstep, hnext⟩ := intSqrtStep_zero hdigits hb (not_le.mp hle)
        rw [hstep]
        exact ih (by omega) (h.zero (not_le.mp hle)) hnext

/-- The last step leaves the root. -/
theorem last_step {number root : ℕ} {a b : BitVec 64} (h : PartialRoot number 1 root a.toNat)
    (hb : b.toNat = digitPart 0 root) :
    ∃ rest, PartialRoot number 0 (if b ≤ a then b >>> 1 ^^^ 1 else b >>> 1).toNat rest := by
  have hhalf : (b >>> 1).toNat = 2 * root := by
    rw [BitVec.toNat_ushiftRight, hb, Nat.shiftRight_one]
    unfold digitPart
    omega
  by_cases hba : b ≤ a
  · -- the last bit of `b` is the square of the digit that is to come, and is shifted out
    have hroot : (b >>> 1 ^^^ 1).toNat = 2 * root + 1 := by
      rw [BitVec.toNat_xor, hhalf]
      exact two_pow_mul_add_xor (n := 1) (c := 0) (d := 1) (by decide) (by decide) root
    rw [if_pos hba, hroot]
    refine ⟨_, h.one ?_⟩
    rwa [← hb, ← BitVec.le_def]
  · rw [if_neg hba, hhalf]
    refine ⟨_, h.zero ?_⟩
    rwa [← hb, ← not_le, ← BitVec.le_def]

/-- **`int_sqrt` is the square root**, rounded down, of every number. -/
theorem intSqrt_spec (a : BitVec 64) :
    (intSqrt a).toNat * (intSqrt a).toNat ≤ a.toNat ∧
      a.toNat < ((intSqrt a).toNat + 1) * ((intSqrt a).toNat + 1) := by
  have hstart : PartialRoot a.toNat 32 0 a.toNat := PartialRoot.start a.isLt
  obtain ⟨root, hroot, hlast⟩ := foldl_intSqrtStep (b := 0x4000000000000000) le_rfl hstart
    (by decide)
  unfold intSqrt
  rw [intSqrtMasks_eq]
  generalize (masks 31).foldl intSqrtStep (a, 0x4000000000000000) = state at hroot hlast ⊢
  obtain ⟨rest, hdone⟩ := last_step hroot hlast
  exact hdone.done

end Steps

end Webcamd.Kernel.IntSqrt
