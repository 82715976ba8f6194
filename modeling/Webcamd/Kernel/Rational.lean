import Mathlib
import Webcamd.Library.Convergents
import Webcamd.Library.Loop

/-!
# `rational_best_approximation`

The continued fraction loop of `kernel/linux_func.c`.  It runs the Euclidean algorithm on the given
fraction and keeps the last two convergents; the first one over a bound is given up for the one
before.

* `Locals`, `pass`, `rationalLoop` — the variables of the function, and the body of its loop.
* `value_pass` — on the states that the loop goes through no sum or product wraps around, so that
  the words are the numbers of an `Expansion`.
* `rationalBestApproximation_bounds` — the result keeps the bounds unless the fraction itself,
  rounded down, is over the bound of the numerator: then it is the artificial convergent `1 / 0`.
* `rationalBestApproximation_exact` — a fraction within the bounds is the result, in lowest terms.
-/

namespace Webcamd.Kernel.Rational

open Library

theorem toNat_pos {d : BitVec 64} (hd : d ≠ 0) : 0 < d.toNat :=
  Nat.pos_of_ne_zero fun hzero => hd (BitVec.eq_of_toNat_eq hzero)

/-- The variables that the loop carries along. -/
structure Locals where
  n : BitVec 64
  d : BitVec 64
  n0 : BitVec 64
  d0 : BitVec 64
  n1 : BitVec 64
  d1 : BitVec 64
deriving DecidableEq

/-- The variables before the loop. -/
def start (givenNumerator givenDenominator : BitVec 64) : Locals where
  n := givenNumerator
  d := givenDenominator
  n0 := 0
  d0 := 1
  n1 := 1
  d1 := 0

/-- The second half of the body: one division, and the next convergent. -/
def pass (state : Locals) : Locals where
  n := state.d
  d := state.n % state.d
  n0 := state.n1
  d0 := state.d1
  n1 := state.n0 + state.n / state.d * state.n1
  d1 := state.d0 + state.n / state.d * state.d1

section Bounds

variable (maxNumerator maxDenominator : BitVec 64)

/-- The test at the head of the body. -/
abbrev Exceeds (state : Locals) : Prop :=
  maxNumerator < state.n1 ∨ maxDenominator < state.d1

/-- The body of the loop, `none` where it breaks. -/
def body (state : Locals) : Option Locals :=
  if Exceeds maxNumerator maxDenominator state then none
  else if state.d = 0 then none
  else some (pass state)

/-- What the body does when it goes on. -/
theorem body_eq_some {state next : Locals}
    (h : body maxNumerator maxDenominator state = some next) :
    ¬ Exceeds maxNumerator maxDenominator state ∧ state.d ≠ 0 ∧ next = pass state := by
  unfold body at h
  split_ifs at h with hexceeds hzero
  exact ⟨hexceeds, hzero, (Option.some.inj h).symm⟩

/-- When the body breaks. -/
theorem body_eq_none {state : Locals} :
    body maxNumerator maxDenominator state = none ↔
      Exceeds maxNumerator maxDenominator state ∨ state.d = 0 := by
  unfold body
  split_ifs with hexceeds hzero
  · simp [hexceeds]
  · simp [hzero]
  · simpa [hexceeds] using hzero

/-- The loop: the remainder `d` gets smaller. -/
def rationalLoop : Loop Locals where
  step := body maxNumerator maxDenominator
  work := fun state => state.d.toNat
  work_lt := by
    intro state next h
    obtain ⟨-, hzero, rfl⟩ := body_eq_some maxNumerator maxDenominator h
    exact BitVec.umod_lt state.n (BitVec.lt_def.mpr (toNat_pos hzero))

/-- The result in the state that the loop breaks in. -/
def best (state : Locals) : BitVec 64 × BitVec 64 :=
  if Exceeds maxNumerator maxDenominator state then (state.n0, state.d0) else (state.n1, state.d1)

end Bounds

/-- `rational_best_approximation`, with the two results as a pair. -/
def rationalBestApproximation
    (givenNumerator givenDenominator maxNumerator maxDenominator : BitVec 64) :
    BitVec 64 × BitVec 64 :=
  best maxNumerator maxDenominator
    ((rationalLoop maxNumerator maxDenominator).finish (start givenNumerator givenDenominator))

/-! ### The words as numbers -/

/-- The numbers in the variables. -/
def Locals.value (state : Locals) : Expansion where
  n := state.n.toNat
  d := state.d.toNat
  n0 := state.n0.toNat
  n1 := state.n1.toNat
  d0 := state.d0.toNat
  d1 := state.d1.toNat

section Run

variable {num den maxNumerator maxDenominator : BitVec 64} {state : Locals}

/-- The invariant of the loop: the variables hold an expansion, and only the given numerator may be
zero. -/
structure Running (num den : BitVec 64) (state : Locals) : Prop where
  of : Expansion.Of num.toNat den.toNat state.value
  positive : 0 < state.n.toNat ∨ state = start num den

theorem running_start (num den : BitVec 64) : Running num den (start num den) where
  of := Expansion.of_start num.toNat den.toNat
  positive := Or.inr rfl

/-- **No sum wraps around**: the next convergent is bounded by the given fraction. -/
theorem Running.next_le (h : Running num den state) (hd : state.d ≠ 0) :
    state.n0.toNat + state.n.toNat / state.d.toNat * state.n1.toNat ≤ num.toNat ∧
      state.d0.toNat + state.n.toNat / state.d.toNat * state.d1.toNat ≤ den.toNat :=
  h.of.next.le (toNat_pos hd)

theorem toNat_add_mul {a b c : BitVec 64} (h : a.toNat + b.toNat * c.toNat < 2 ^ 64) :
    (a + b * c).toNat = a.toNat + b.toNat * c.toNat := by
  rw [BitVec.toNat_add, BitVec.toNat_mul, Nat.add_mod_mod, Nat.mod_eq_of_lt h]

/-- **The body is a division of the expansion.** -/
theorem value_pass (h : Running num den state) (hd : state.d ≠ 0) :
    (pass state).value = state.value.next := by
  obtain ⟨hnum, hden⟩ := h.next_le hd
  have hnum : (pass state).n1.toNat = state.value.next.n1 := by
    show (state.n0 + state.n / state.d * state.n1).toNat = _
    rw [toNat_add_mul (by rw [BitVec.toNat_udiv]; omega), BitVec.toNat_udiv]
    rfl
  have hden : (pass state).d1.toNat = state.value.next.d1 := by
    show (state.d0 + state.n / state.d * state.d1).toNat = _
    rw [toNat_add_mul (by rw [BitVec.toNat_udiv]; omega), BitVec.toNat_udiv]
    rfl
  have hrest : (pass state).d.toNat = state.value.next.d := BitVec.toNat_umod
  apply Expansion.ext
  case n => rfl
  case d => exact hrest
  case n0 => rfl
  case n1 => exact hnum
  case d0 => rfl
  case d1 => exact hden

theorem Running.pass (h : Running num den state) (hd : state.d ≠ 0) :
    Running num den (pass state) where
  of := value_pass h hd ▸ h.of.next
  positive := Or.inl (toNat_pos hd)

/-- What the body keeps. -/
theorem Running.body {next : Locals} (h : Running num den state)
    (hbody : body maxNumerator maxDenominator state = some next) : Running num den next := by
  obtain ⟨-, hd, rfl⟩ := body_eq_some maxNumerator maxDenominator hbody
  exact h.pass hd

/-- The invariant in every state of the loop. -/
theorem running_states (num den maxNumerator maxDenominator : BitVec 64) :
    ∀ state ∈ (rationalLoop maxNumerator maxDenominator).states (start num den),
      Running num den state :=
  (rationalLoop maxNumerator maxDenominator).invariant_states
    (fun h hbody => h.body hbody) (running_start num den)

/-- The invariant where the loop ends. -/
theorem running_finish (num den maxNumerator maxDenominator : BitVec 64) :
    Running num den ((rationalLoop maxNumerator maxDenominator).finish (start num den)) :=
  running_states num den maxNumerator maxDenominator _ (Loop.finish_mem_states _ _)

/-! ### Exactness -/

/-- Either convergent is in lowest terms. -/
theorem Running.coprime_best (h : Running num den state) :
    Nat.Coprime (best maxNumerator maxDenominator state).1.toNat
      (best maxNumerator maxDenominator state).2.toNat := by
  unfold best
  split
  · exact h.of.coprime_prev
  · exact h.of.coprime

/-- A fraction whose lowest terms are within the bounds. -/
structure Fits (num den maxNumerator maxDenominator : BitVec 64) : Prop where
  denominator_pos : 0 < den.toNat
  num_le : num.toNat / Nat.gcd num.toNat den.toNat ≤ maxNumerator.toNat
  den_le : den.toNat / Nat.gcd num.toNat den.toNat ≤ maxDenominator.toNat

/-- While there is a remainder, the convergents of such a fraction are within the bounds. -/
theorem Fits.not_exceeds (hfits : Fits num den maxNumerator maxDenominator)
    (h : Running num den state) (hn : 0 < state.n.toNat) :
    ¬ Exceeds maxNumerator maxDenominator state := by
  have hpos : 0 < Nat.gcd num.toNat den.toNat := Nat.gcd_pos_of_pos_right _ hfits.denominator_pos
  obtain ⟨hnum, hden⟩ := h.of.mul_gcd_le hn
  have hn1 : state.n1.toNat ≤ maxNumerator.toNat :=
    ((Nat.le_div_iff_mul_le hpos).mpr hnum).trans hfits.num_le
  have hd1 : state.d1.toNat ≤ maxDenominator.toNat :=
    ((Nat.le_div_iff_mul_le hpos).mpr hden).trans hfits.den_le
  rintro (hover | hover)
  · exact absurd (BitVec.lt_def.mp hover) (Nat.not_lt.mpr hn1)
  · exact absurd (BitVec.lt_def.mp hover) (Nat.not_lt.mpr hd1)

/-- The result where the loop ends, for such a fraction. -/
theorem Fits.best_eq (hfits : Fits num den maxNumerator maxDenominator)
    (h : Running num den state)
    (hend : Kernel.Rational.body maxNumerator maxDenominator state = none) :
    (best maxNumerator maxDenominator state).1.toNat =
        num.toNat / Nat.gcd num.toNat den.toNat ∧
      (best maxNumerator maxDenominator state).2.toNat =
        den.toNat / Nat.gcd num.toNat den.toNat := by
  rcases h.positive with hn | rfl
  · have hexceeds := hfits.not_exceeds h hn
    have hd : state.d = 0 := ((body_eq_none _ _).mp hend).resolve_left hexceeds
    rw [best, if_neg hexceeds]
    exact h.of.lowest_terms hn (congrArg BitVec.toNat hd)
  · -- the loop breaks at once: nothing but a zero may have a bound of zero
    have hdpos : den ≠ 0 := by
      rintro rfl
      exact absurd hfits.denominator_pos (by decide)
    have hexceeds : Exceeds maxNumerator maxDenominator (start num den) :=
      ((body_eq_none _ _).mp hend).resolve_right hdpos
    have hmax : maxNumerator.toNat = 0 := by
      rcases hexceeds with hover | hover
      · have hlt : maxNumerator.toNat < 1 := BitVec.lt_def.mp hover
        omega
      · exact absurd hover (BitVec.not_lt_zero)
    have hpos : 0 < Nat.gcd num.toNat den.toNat :=
      Nat.gcd_pos_of_pos_right _ hfits.denominator_pos
    have hnum : num.toNat = 0 := by
      have hquot : num.toNat / Nat.gcd num.toNat den.toNat = 0 :=
        Nat.le_zero.mp (hmax ▸ hfits.num_le)
      rw [← Nat.div_mul_cancel (Nat.gcd_dvd_left num.toNat den.toNat), hquot, Nat.zero_mul]
    rw [best, if_pos hexceeds, hnum, Nat.gcd_zero_left, Nat.zero_div,
      Nat.div_self hfits.denominator_pos]
    exact ⟨rfl, rfl⟩

end Run

/-- **`rational_best_approximation` is exact when it can be**: a fraction whose lowest terms are
within the bounds is the result.  For all arguments the two results have no common factor, the loop
ends after some number of passes, and in every pass the sums stay below `2 ^ 64`. -/
theorem rationalBestApproximation_exact (num den maxNumerator maxDenominator : BitVec 64) :
    (0 < den.toNat →
        num.toNat / Nat.gcd num.toNat den.toNat ≤ maxNumerator.toNat →
        den.toNat / Nat.gcd num.toNat den.toNat ≤ maxDenominator.toNat →
        (rationalBestApproximation num den maxNumerator maxDenominator).1.toNat =
            num.toNat / Nat.gcd num.toNat den.toNat ∧
          (rationalBestApproximation num den maxNumerator maxDenominator).2.toNat =
            den.toNat / Nat.gcd num.toNat den.toNat) ∧
      Nat.Coprime (rationalBestApproximation num den maxNumerator maxDenominator).1.toNat
        (rationalBestApproximation num den maxNumerator maxDenominator).2.toNat ∧
      (∃ passes last,
        (fun state : Option Locals => state.bind (body maxNumerator maxDenominator))^[passes]
            (some (start num den)) = some last ∧
          body maxNumerator maxDenominator last = none ∧
          rationalBestApproximation num den maxNumerator maxDenominator =
            best maxNumerator maxDenominator last) ∧
      ∀ state ∈ (rationalLoop maxNumerator maxDenominator).states (start num den),
        body maxNumerator maxDenominator state ≠ none →
          state.n0.toNat + state.n.toNat / state.d.toNat * state.n1.toNat < 2 ^ 64 ∧
            state.d0.toNat + state.n.toNat / state.d.toNat * state.d1.toNat < 2 ^ 64 := by
  have hrunning := running_finish num den maxNumerator maxDenominator
  have hend := (rationalLoop maxNumerator maxDenominator).step_finish (start num den)
  refine ⟨?_, hrunning.coprime_best, ?_, ?_⟩
  · intro hpos hnum hden
    exact Fits.best_eq ⟨hpos, hnum, hden⟩ hrunning hend
  · obtain ⟨passes, hpasses⟩ :=
      (rationalLoop maxNumerator maxDenominator).exists_iterate_finish (start num den)
    exact ⟨passes, _, hpasses, hend, rfl⟩
  · intro state hmem hgoes
    have hd : state.d ≠ 0 := fun hzero => hgoes ((body_eq_none _ _).mpr (Or.inr hzero))
    obtain ⟨hnum, hden⟩ := (running_states _ _ _ _ state hmem).next_le hd
    exact ⟨hnum.trans_lt num.isLt, hden.trans_lt den.isLt⟩

theorem rationalBestApproximation_exact_six_quarters :
    (rationalBestApproximation 6 4 3 2).1.toNat = 3 ∧
      (rationalBestApproximation 6 4 3 2).2.toNat = 2 :=
  (rationalBestApproximation_exact 6 4 3 2).1 (by decide) (by decide) (by decide)

/-! ### The bounds -/

section Within

variable {num den maxNumerator maxDenominator : BitVec 64} {state : Locals}

/-- The result is **within the bounds**, and a fraction at all. -/
def Within (maxNumerator maxDenominator : BitVec 64) (result : BitVec 64 × BitVec 64) : Prop :=
  result.1.toNat ≤ maxNumerator.toNat ∧ 1 ≤ result.2.toNat ∧
    result.2.toNat ≤ maxDenominator.toNat

/-- The invariant from the second pass on: the last but one convergent has been tested, and one of
the two that can be the result is a fraction. -/
structure Tested (maxNumerator maxDenominator : BitVec 64) (state : Locals) : Prop where
  d_lt : state.d.toNat < state.n.toNat
  d1_pos : 1 ≤ state.d1.toNat
  n0_le : state.n0.toNat ≤ maxNumerator.toNat
  d0_le : state.d0.toNat ≤ maxDenominator.toNat
  d0_pos : Exceeds maxNumerator maxDenominator state → 1 ≤ state.d0.toNat

theorem Tested.body (h : Tested maxNumerator maxDenominator state) (hrun : Running num den state)
    {next : Locals} (hbody : body maxNumerator maxDenominator state = some next) :
    Tested maxNumerator maxDenominator next := by
  obtain ⟨hexceeds, hd, rfl⟩ := body_eq_some maxNumerator maxDenominator hbody
  obtain ⟨hn1, hd1⟩ := not_or.mp hexceeds
  have hquot : 1 ≤ state.n.toNat / state.d.toNat :=
    (Nat.one_le_div_iff (toNat_pos hd)).mpr h.d_lt.le
  have hnext : (pass state).d1.toNat =
      state.d0.toNat + state.n.toNat / state.d.toNat * state.d1.toNat :=
    congrArg Expansion.d1 (value_pass hrun hd)
  constructor
  case d_lt => exact BitVec.umod_lt state.n (BitVec.lt_def.mpr (toNat_pos hd))
  case d1_pos =>
    calc 1 ≤ state.n.toNat / state.d.toNat * state.d1.toNat := Nat.mul_pos hquot h.d1_pos
      _ ≤ (pass state).d1.toNat := hnext ▸ Nat.le_add_left _ _
  case n0_le => exact Nat.not_lt.mp hn1
  case d0_le => exact Nat.not_lt.mp hd1
  case d0_pos => exact fun _ => h.d1_pos

/-- In such a state the result is within the bounds. -/
theorem Tested.within_best (h : Tested maxNumerator maxDenominator state) :
    Within maxNumerator maxDenominator (best maxNumerator maxDenominator state) := by
  unfold best
  split
  · rename_i hexceeds
    exact ⟨h.n0_le, h.d0_pos hexceeds, h.d0_le⟩
  · rename_i hexceeds
    obtain ⟨hn1, hd1⟩ := not_or.mp hexceeds
    exact ⟨Nat.not_lt.mp hn1, h.d1_pos, Nat.not_lt.mp hd1⟩

/-- The variables after the first pass: the convergents are the fraction rounded down, and
`1 / 0`. -/
def second (num den : BitVec 64) : Locals := ⟨den, num % den, 1, 0, num / den, 1⟩

/-- The first pass always goes on. -/
theorem body_start (hden : 0 < den.toNat) (hmax : 1 ≤ maxNumerator.toNat) :
    body maxNumerator maxDenominator (start num den) = some (second num den) := by
  have hexceeds : ¬ Exceeds maxNumerator maxDenominator (start num den) := by
    rintro (hover | hover)
    · exact absurd (BitVec.lt_def.mp hover) (Nat.not_lt.mpr hmax)
    · exact absurd hover BitVec.not_lt_zero
  have hd : (start num den).d ≠ 0 := by
    rintro hzero
    have hden0 : den = 0 := hzero
    exact absurd hden (by rw [hden0]; decide)
  rw [body, if_neg hexceeds, if_neg hd]
  simp [pass, start, second]

theorem tested_second (hden : 0 < den.toNat) (hmax : 1 ≤ maxNumerator.toNat)
    (hmaxd : 1 ≤ maxDenominator.toNat) (hfloor : num / den ≤ maxNumerator) :
    Tested maxNumerator maxDenominator (second num den) := by
  constructor
  case d_lt => exact BitVec.umod_lt num (BitVec.lt_def.mpr hden)
  case d1_pos => exact Nat.le_refl 1
  case n0_le => exact hmax
  case d0_le => exact Nat.zero_le _
  case d0_pos =>
    rintro (hover | hover)
    · exact absurd (BitVec.lt_def.mp hover) (Nat.not_lt.mpr hfloor)
    · exact absurd (BitVec.lt_def.mp hover) (Nat.not_lt.mpr hmaxd)

/-- A fraction over the bound of the numerator ends the loop with `1 / 0`. -/
theorem best_of_floor_gt (hden : 0 < den.toNat) (hmax : 1 ≤ maxNumerator.toNat)
    (hfloor : maxNumerator < num / den) :
    rationalBestApproximation num den maxNumerator maxDenominator = (1, 0) := by
  have hexceeds : Exceeds maxNumerator maxDenominator (second num den) := Or.inl hfloor
  have hbreak : (rationalLoop maxNumerator maxDenominator).step (second num den) = none :=
    (body_eq_none _ _).mpr (Or.inl hexceeds)
  rw [rationalBestApproximation, Loop.finish_of_some _ (body_start hden hmax),
    Loop.finish_of_none _ hbreak, best, if_pos hexceeds]
  rfl

/-- Any other ends it within the bounds. -/
theorem within_of_floor_le (hden : 0 < den.toNat) (hmax : 1 ≤ maxNumerator.toNat)
    (hmaxd : 1 ≤ maxDenominator.toNat) (hfloor : num / den ≤ maxNumerator) :
    Within maxNumerator maxDenominator
      (rationalBestApproximation num den maxNumerator maxDenominator) := by
  have hbody : body maxNumerator maxDenominator (start num den) = some (second num den) :=
    body_start hden hmax
  have hrun : Running num den (second num den) := (running_start num den).body hbody
  have hlast := (rationalLoop maxNumerator maxDenominator).invariant
    (P := fun state => Running num den state ∧ Tested maxNumerator maxDenominator state)
    (fun h hbody => ⟨h.1.body hbody, h.2.body h.1 hbody⟩)
    ⟨hrun, tested_second hden hmax hmaxd hfloor⟩
  rw [rationalBestApproximation, Loop.finish_of_some _ hbody]
  exact hlast.2.within_best

end Within

/-- **`rational_best_approximation` keeps its bounds** for the fractions that are, rounded down, at
most the bound of the numerator, and for no others. -/
theorem rationalBestApproximation_bounds (num den maxNumerator maxDenominator : BitVec 64)
    (hden : 0 < den.toNat) (hmaxNumerator : 1 ≤ maxNumerator.toNat)
    (hmaxDenominator : 1 ≤ maxDenominator.toNat) :
    ((rationalBestApproximation num den maxNumerator maxDenominator).1.toNat ≤
          maxNumerator.toNat ∧
        1 ≤ (rationalBestApproximation num den maxNumerator maxDenominator).2.toNat ∧
        (rationalBestApproximation num den maxNumerator maxDenominator).2.toNat ≤
          maxDenominator.toNat) ↔
      num.toNat / den.toNat ≤ maxNumerator.toNat := by
  have hquot : num / den ≤ maxNumerator ↔ num.toNat / den.toNat ≤ maxNumerator.toNat := by
    rw [BitVec.le_def, BitVec.toNat_udiv]
  rw [← hquot]
  constructor
  · intro hwithin
    by_contra hfloor
    rw [best_of_floor_gt hden hmaxNumerator (BitVec.not_le.mp hfloor)] at hwithin
    exact absurd hwithin.2.1 (by decide)
  · intro hfloor
    exact within_of_floor_le hden hmaxNumerator hmaxDenominator hfloor

theorem rationalBestApproximation_bounds_one_third :
    ((rationalBestApproximation 1 3 5 2).1.toNat ≤ 5 ∧
        1 ≤ (rationalBestApproximation 1 3 5 2).2.toNat ∧
        (rationalBestApproximation 1 3 5 2).2.toNat ≤ 2) ↔ 1 / 3 ≤ 5 :=
  rationalBestApproximation_bounds 1 3 5 2 (by decide) (by decide) (by decide)

/-- A fraction over the bound of the numerator has a denominator of zero. -/
theorem rationalBestApproximation_no_fraction :
    ¬ ∀ num den maxNumerator maxDenominator : BitVec 64,
      0 < den.toNat → 1 ≤ maxNumerator.toNat → 1 ≤ maxDenominator.toNat →
        (rationalBestApproximation num den maxNumerator maxDenominator).1.toNat ≤
            maxNumerator.toNat ∧
          1 ≤ (rationalBestApproximation num den maxNumerator maxDenominator).2.toNat ∧
          (rationalBestApproximation num den maxNumerator maxDenominator).2.toNat ≤
            maxDenominator.toNat := by
  intro h
  have hone := (h 5 1 2 1 (by decide) (by decide) (by decide)).2.1
  rw [best_of_floor_gt (by decide) (by decide) (by decide)] at hone
  exact absurd hone (by decide)

end Webcamd.Kernel.Rational
