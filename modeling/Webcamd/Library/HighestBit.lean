import Mathlib

/-!
# The highest bit of a word

A search for the highest bit that is set can halve what is left of the word: if a bit of the upper
half is set, the lower half is dropped and counted.

* `halve`, `halvings` — one such test, and the tests one after the other.
* `halve_spec` — a test keeps the sum of what is counted and what is left.
* `halvings_spec` — after the last test one bit is left, and all others are counted.
* `isGreatest_bit` — the highest bit of a number, from its size.
* `isGreatest_two_pow`, `isLeast_two_pow` — the powers of two on both sides of a number.
-/

namespace Webcamd.Library

/-! ### The search -/

section Search

variable {w : ℕ}

/-- A test of the bits in `upper`: how many bits have been counted, and what is left of the word. -/
def halve (upper : BitVec w) (shift : ℕ) (state : ℕ × BitVec w) : ℕ × BitVec w :=
  if state.2 &&& upper ≠ 0 then (state.1 + shift, state.2 >>> shift) else state

/-- The upper half of a word of twice `shift` bits. -/
def upperHalf (w shift : ℕ) : BitVec w := BitVec.ofNat w ((2 ^ shift - 1) * 2 ^ shift)

/-- The tests for a word of `2 ^ k` bits, from the largest half to the smallest. -/
def halvings : ℕ → ℕ × BitVec w → ℕ × BitVec w
  | 0, state => state
  | k + 1, state => halvings k (halve (upperHalf w (2 ^ k)) (2 ^ k) state)

theorem size_eq_of_le {value shift : ℕ} (hle : 2 ^ shift ≤ value) :
    value.size = shift + (value / 2 ^ shift).size := by
  have hlt : ∀ bit, bit < value.size ↔ bit < shift + (value / 2 ^ shift).size := by
    intro bit
    rw [Nat.lt_size]
    by_cases hbit : bit < shift
    · have hpow : 2 ^ bit ≤ 2 ^ shift := Nat.pow_le_pow_right (by decide) hbit.le
      exact iff_of_true (hpow.trans hle) (by omega)
    · obtain ⟨rest, rfl⟩ := Nat.exists_eq_add_of_le (not_lt.mp hbit)
      rw [Nat.add_lt_add_iff_left, Nat.lt_size, Nat.le_div_iff_mul_le (Nat.two_pow_pos shift),
        ← pow_add, Nat.add_comm rest]
  have hself := hlt value.size
  have hother := hlt (shift + (value / 2 ^ shift).size)
  omega

/-- The test finds out whether the upper half is there. -/
theorem and_upper_eq_zero_iff {upper mask : BitVec w} {shift : ℕ}
    (hupper : upper.toNat = (2 ^ shift - 1) * 2 ^ shift) (hlt : mask.toNat < 2 ^ (2 * shift)) :
    mask &&& upper = 0 ↔ mask.toNat < 2 ^ shift := by
  have hpos := Nat.two_pow_pos shift
  have hhigh : mask.toNat &&& upper.toNat = mask.toNat / 2 ^ shift * 2 ^ shift := by
    refine Nat.eq_of_testBit_eq fun k => ?_
    rw [hupper, Nat.testBit_and, Nat.testBit_mul_two_pow, Nat.testBit_mul_two_pow,
      Nat.testBit_two_pow_sub_one, Nat.testBit_div_two_pow]
    by_cases hk : shift ≤ k
    · by_cases hbit : k - shift < shift
      · simp [hk, hbit]
      · have hbig : mask.toNat < 2 ^ k :=
          hlt.trans_le (Nat.pow_le_pow_right (by decide) (by omega))
        simp [hk, Nat.testBit_lt_two_pow hbig]
    · simp [hk]
  have hzero : (0 : BitVec w).toNat = 0 := BitVec.toNat_zero
  rw [← BitVec.toNat_inj, BitVec.toNat_and, hhigh, hzero, Nat.mul_eq_zero, Nat.div_eq_zero_iff]
  omega

/-- **A test** keeps the sum of what is counted and what is left, and halves what is left. -/
theorem halve_spec {upper mask : BitVec w} {shift bit : ℕ}
    (hupper : upper.toNat = (2 ^ shift - 1) * 2 ^ shift) (hlt : mask.toNat < 2 ^ (2 * shift))
    (hne : mask ≠ 0) :
    (halve upper shift (bit, mask)).1 + (halve upper shift (bit, mask)).2.toNat.size =
        bit + mask.toNat.size ∧
      (halve upper shift (bit, mask)).2.toNat < 2 ^ shift ∧
      (halve upper shift (bit, mask)).2 ≠ 0 := by
  have htest := and_upper_eq_zero_iff hupper hlt
  have hnext : (mask >>> shift).toNat = mask.toNat / 2 ^ shift := by
    rw [BitVec.toNat_ushiftRight, Nat.shiftRight_eq_div_pow]
  unfold halve
  by_cases hsmall : mask &&& upper = 0
  · rw [if_neg (by simpa using hsmall)]
    exact ⟨rfl, htest.mp hsmall, hne⟩
  · have hle : 2 ^ shift ≤ mask.toNat := by
      rw [htest] at hsmall
      omega
    rw [if_pos hsmall]
    dsimp only
    rw [hnext, size_eq_of_le hle]
    refine ⟨by omega, ?_, ?_⟩
    · rw [Nat.div_lt_iff_lt_mul (Nat.two_pow_pos shift), ← pow_add]
      rwa [two_mul] at hlt
    · intro hzero
      have hdiv : mask.toNat / 2 ^ shift = 0 := by
        rw [← hnext, hzero]
        exact BitVec.toNat_zero
      have hlow := (Nat.div_eq_zero_iff_lt (Nat.two_pow_pos shift)).mp hdiv
      omega

/-- **The tests** count all bits but the last one that is left. -/
theorem halvings_spec {k : ℕ} (hk : 2 ^ k ≤ w) {mask : BitVec w} (bit : ℕ)
    (hlt : mask.toNat < 2 ^ 2 ^ k) (hne : mask ≠ 0) :
    (halvings k (bit, mask)).1 + 1 = bit + mask.toNat.size := by
  induction k generalizing bit mask with
  | zero =>
      have hpos : mask.toNat ≠ 0 := fun hzero => hne (BitVec.eq_of_toNat_eq hzero)
      have hone : mask.toNat = 1 := by
        rw [pow_zero, pow_one] at hlt
        omega
      rw [halvings, hone, Nat.size_one]
  | succ k ih =>
      have hdouble : 2 ^ (k + 1) = 2 * 2 ^ k := pow_succ' 2 k
      rw [hdouble] at hk hlt
      have hupper : (upperHalf w (2 ^ k)).toNat = (2 ^ 2 ^ k - 1) * 2 ^ 2 ^ k := by
        have hpos := Nat.two_pow_pos (2 ^ k)
        rw [upperHalf, BitVec.toNat_ofNat, Nat.mod_eq_of_lt]
        calc (2 ^ 2 ^ k - 1) * 2 ^ 2 ^ k < 2 ^ 2 ^ k * 2 ^ 2 ^ k :=
              Nat.mul_lt_mul_of_pos_right (by omega) hpos
          _ = 2 ^ (2 * 2 ^ k) := by rw [← pow_add, two_mul]
          _ ≤ 2 ^ w := Nat.pow_le_pow_right (by decide) hk
      obtain ⟨hsum, hsmall, hleft⟩ := @halve_spec w _ mask _ bit hupper hlt hne
      rw [halvings, ← hsum]
      exact ih (by omega) _ hsmall hleft

end Search

/-! ### Powers of two -/

section Powers

variable {n : ℕ}

theorem lt_two_pow_size_and (hn : n ≠ 0) : 2 ^ (n.size - 1) ≤ n ∧ n < 2 ^ n.size := by
  have hpos : 0 < n.size := Nat.size_pos.mpr (Nat.pos_of_ne_zero hn)
  exact ⟨Nat.lt_size.mp (by omega), Nat.lt_size_self n⟩

/-- **The highest bit** that is set is one below the size. -/
theorem isGreatest_bit (hn : n ≠ 0) :
    IsGreatest {i | n.testBit i = true} (n.size - 1) := by
  obtain ⟨hle, hlt⟩ := lt_two_pow_size_and hn
  have hpos : 0 < n.size := Nat.size_pos.mpr (Nat.pos_of_ne_zero hn)
  constructor
  · refine Nat.testBit_of_two_pow_le_and_two_pow_add_one_gt hle ?_
    rwa [Nat.sub_add_cancel hpos]
  · intro i hi
    have hsize : i < n.size := Nat.lt_size.mpr (Nat.ge_two_pow_of_testBit hi)
    omega

/-- **The greatest power of two** that is not above the number. -/
theorem isGreatest_two_pow (hn : n ≠ 0) :
    IsGreatest {p | (∃ k, p = 2 ^ k) ∧ p ≤ n} (2 ^ (n.size - 1)) := by
  obtain ⟨hle, hlt⟩ := lt_two_pow_size_and hn
  refine ⟨⟨⟨_, rfl⟩, hle⟩, ?_⟩
  rintro p ⟨⟨k, rfl⟩, hk⟩
  have hsize : k < n.size := Nat.lt_size.mpr hk
  exact Nat.pow_le_pow_right (by decide) (by omega)

/-- **The least power of two** that is not below the number. -/
theorem isLeast_two_pow (hn : n ≠ 0) :
    IsLeast {p | (∃ k, p = 2 ^ k) ∧ n ≤ p} (2 ^ (n - 1).size) := by
  have hlt := Nat.lt_size_self (n - 1)
  refine ⟨⟨⟨_, rfl⟩, by omega⟩, ?_⟩
  rintro p ⟨⟨k, rfl⟩, hk⟩
  have hsize : (n - 1).size ≤ k := Nat.size_le.mpr (by omega)
  exact Nat.pow_le_pow_right (by decide) hsize

end Powers

end Webcamd.Library
