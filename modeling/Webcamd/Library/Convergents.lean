import Mathlib

/-!
# Convergents along the Euclidean algorithm

The continued fraction of a quotient, read off while the Euclidean algorithm runs on its two
numbers.  Two convergents are kept, the last and the one before, and together with the two
remainders they give the numbers back.

* `Expansion`, `Expansion.next` — the remainders and convergents, and one division.
* `Expansion.Of` — the invariant: how the numbers are made from remainders and convergents, and that
  two convergents in a row have determinant one.
* `Expansion.Of.mul_gcd_le` — a convergent is at most the fraction in lowest terms.
* `Expansion.Of.lowest_terms` — the last convergent is that fraction.
-/

namespace Webcamd.Library

/-- The remainders `n` and `d`, the last convergent `n1 / d1`, and the one before, `n0 / d0`. -/
@[ext]
structure Expansion where
  n : ℕ
  d : ℕ
  n0 : ℕ
  n1 : ℕ
  d0 : ℕ
  d1 : ℕ

namespace Expansion

/-- Before the first division: the convergents are `0 / 1` and `1 / 0`. -/
def start (num den : ℕ) : Expansion := ⟨num, den, 0, 1, 1, 0⟩

/-- One division: its quotient makes the next convergent. -/
def next (state : Expansion) : Expansion where
  n := state.d
  d := state.n % state.d
  n0 := state.n1
  n1 := state.n0 + state.n / state.d * state.n1
  d0 := state.d1
  d1 := state.d0 + state.n / state.d * state.d1

/-- The expansion is one **of `num / den`**. -/
structure Of (num den : ℕ) (state : Expansion) : Prop where
  num_eq : num = state.n1 * state.n + state.n0 * state.d
  den_eq : den = state.d1 * state.n + state.d0 * state.d
  det : state.n1 * state.d0 = state.n0 * state.d1 + 1 ∨
    state.n0 * state.d1 = state.n1 * state.d0 + 1
  gcd_eq : Nat.gcd state.n state.d = Nat.gcd num den

theorem of_start (num den : ℕ) : Of num den (start num den) where
  num_eq := by simp [start]
  den_eq := by simp [start]
  det := Or.inl rfl
  gcd_eq := rfl

namespace Of

variable {num den : ℕ} {state : Expansion}

/-- What a division keeps, for either of the two numbers. -/
theorem combination_next (n d prev last : ℕ) :
    (prev + n / d * last) * d + last * (n % d) = last * n + prev * d := by
  have hdiv : d * (n / d) + n % d = n := Nat.div_add_mod n d
  calc (prev + n / d * last) * d + last * (n % d)
      = last * (d * (n / d) + n % d) + prev * d := by ring
    _ = last * n + prev * d := by rw [hdiv]

/-- **One division** keeps the invariant. -/
theorem next (h : Of num den state) : Of num den state.next where
  num_eq := h.num_eq.trans (combination_next state.n state.d state.n0 state.n1).symm
  den_eq := h.den_eq.trans (combination_next state.n state.d state.d0 state.d1).symm
  det := by
    -- the sign changes with every division
    show (state.n0 + state.n / state.d * state.n1) * state.d1 =
          state.n1 * (state.d0 + state.n / state.d * state.d1) + 1 ∨
        state.n1 * (state.d0 + state.n / state.d * state.d1) =
          (state.n0 + state.n / state.d * state.n1) * state.d1 + 1
    rcases h.det with hdet | hdet
    · right
      linear_combination hdet
    · left
      linear_combination hdet
  gcd_eq := by
    calc Nat.gcd state.d (state.n % state.d) = Nat.gcd (state.n % state.d) state.d :=
          Nat.gcd_comm _ _
      _ = Nat.gcd state.d state.n := (Nat.gcd_rec _ _).symm
      _ = Nat.gcd state.n state.d := Nat.gcd_comm _ _
      _ = Nat.gcd num den := h.gcd_eq

/-- Numbers with determinant one have no common factor. -/
theorem coprime_of_det {a b p q : ℕ} (hdet : a * q = p * b + 1 ∨ p * b = a * q + 1) :
    Nat.Coprime a b := by
  rw [Nat.coprime_iff_isRelPrime]
  intro factor ha hb
  apply isUnit_iff_dvd_one.mpr
  rcases hdet with hdet | hdet
  · have hsum : factor ∣ p * b + 1 := hdet ▸ ha.mul_right q
    exact (Nat.dvd_add_right (hb.mul_left p)).mp hsum
  · have hsum : factor ∣ a * q + 1 := hdet ▸ hb.mul_left p
    exact (Nat.dvd_add_right (ha.mul_right q)).mp hsum

/-- The last convergent is in lowest terms. -/
theorem coprime (h : Of num den state) : Nat.Coprime state.n1 state.d1 := coprime_of_det h.det

/-- The convergent before it is in lowest terms as well. -/
theorem coprime_prev (h : Of num den state) : Nat.Coprime state.n0 state.d0 :=
  coprime_of_det h.det.symm

/-- The first remainder is a multiple of the common divisor. -/
theorem gcd_le_n (h : Of num den state) (hn : 0 < state.n) : Nat.gcd num den ≤ state.n := by
  rw [← h.gcd_eq]
  exact Nat.gcd_le_left state.d hn

/-- **A convergent is bounded** by the fraction in lowest terms. -/
theorem mul_gcd_le (h : Of num den state) (hn : 0 < state.n) :
    state.n1 * Nat.gcd num den ≤ num ∧ state.d1 * Nat.gcd num den ≤ den := by
  have hgcd := h.gcd_le_n hn
  constructor
  · calc state.n1 * Nat.gcd num den ≤ state.n1 * state.n := Nat.mul_le_mul_left _ hgcd
      _ ≤ state.n1 * state.n + state.n0 * state.d := Nat.le_add_right _ _
      _ = num := h.num_eq.symm
  · calc state.d1 * Nat.gcd num den ≤ state.d1 * state.n := Nat.mul_le_mul_left _ hgcd
      _ ≤ state.d1 * state.n + state.d0 * state.d := Nat.le_add_right _ _
      _ = den := h.den_eq.symm

/-- In particular it is bounded by the two numbers themselves. -/
theorem le (h : Of num den state) (hn : 0 < state.n) : state.n1 ≤ num ∧ state.d1 ≤ den := by
  have hpos : 0 < Nat.gcd num den := h.gcd_eq ▸ Nat.gcd_pos_of_pos_left state.d hn
  obtain ⟨hnum, hden⟩ := h.mul_gcd_le hn
  exact ⟨(Nat.le_mul_of_pos_right _ hpos).trans hnum, (Nat.le_mul_of_pos_right _ hpos).trans hden⟩

/-- **The last convergent**, when no remainder is left, is the fraction in lowest terms. -/
theorem lowest_terms (h : Of num den state) (hn : 0 < state.n) (hd : state.d = 0) :
    state.n1 = num / Nat.gcd num den ∧ state.d1 = den / Nat.gcd num den := by
  have hgcd : Nat.gcd num den = state.n := by rw [← h.gcd_eq, hd, Nat.gcd_zero_right]
  have hnum : num = state.n1 * state.n := by rw [h.num_eq, hd, Nat.mul_zero, Nat.add_zero]
  have hden : den = state.d1 * state.n := by rw [h.den_eq, hd, Nat.mul_zero, Nat.add_zero]
  constructor
  · rw [hgcd]
    exact (Nat.div_eq_of_eq_mul_left hn hnum).symm
  · rw [hgcd]
    exact (Nat.div_eq_of_eq_mul_left hn hden).symm

end Of

end Expansion

end Webcamd.Library
