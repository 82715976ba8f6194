import Mathlib

/-!
# Integer types of fixed width

The integer types of C on the numbers themselves: a type is a range of `2 ^ bits` numbers, and a
number outside it is brought in by its remainder.

* `IntegerType`, `Fits`, `convert` — a type, its values, and the conversion to it.
* `convert_eq_iff` — the conversion is the value of the type with the same remainder.
* `result` — an operation: of unsigned numbers it wraps around, of signed ones an overflow has no
  result.
* `quotient`, `fits_tdiv` — the division, which overflows for one pair of signed numbers only.
-/

namespace Webcamd.Library

/-- An integer type, by its width and whether it is signed. -/
structure IntegerType where
  bits : ℕ
  signed : Bool
  bits_pos : 0 < bits
deriving DecidableEq

namespace IntegerType

theorem bits_pos_32 : 0 < 32 := by decide

theorem bits_pos_64 : 0 < 64 := by decide

/-- The number of values. -/
def modulus (type : IntegerType) : ℤ := 2 ^ type.bits

/-- The least value. -/
def lower (type : IntegerType) : ℤ := if type.signed then -2 ^ (type.bits - 1) else 0

/-- The values of a type. -/
def Fits (type : IntegerType) (value : ℤ) : Prop :=
  type.lower ≤ value ∧ value < type.lower + type.modulus

instance (type : IntegerType) (value : ℤ) : Decidable (type.Fits value) :=
  inferInstanceAs (Decidable (_ ∧ _))

/-- The conversion of a number to a type. -/
def convert (type : IntegerType) (value : ℤ) : ℤ :=
  type.lower + (value - type.lower) % type.modulus

/-- The result of an operation whose exact value is given. -/
def result (type : IntegerType) (value : ℤ) : Option ℤ :=
  if type.signed then if type.Fits value then some value else none
  else some (type.convert value)

/-- The division, which truncates. -/
def quotient (type : IntegerType) (a b : ℤ) : Option ℤ :=
  if b = 0 then none else type.result (a.tdiv b)

variable {type : IntegerType} {a b value : ℤ}

theorem modulus_pos (type : IntegerType) : 0 < type.modulus := by
  unfold modulus
  positivity

/-- The range of an unsigned type. -/
theorem lower_of_unsigned (h : type.signed = false) : type.lower = 0 := by simp [lower, h]

/-- The range of a signed type is symmetric but for its least value. -/
theorem modulus_of_signed (h : type.signed = true) : type.modulus = -(2 * type.lower) := by
  have hpow : (2 : ℤ) ^ type.bits = 2 * 2 ^ (type.bits - 1) := by
    rw [← pow_succ', Nat.sub_add_cancel type.bits_pos]
  simp [lower, modulus, h, hpow]

theorem lower_neg (h : type.signed = true) : type.lower < 0 := by
  have hmod := modulus_of_signed h
  have hpos := type.modulus_pos
  omega

/-- Zero is in the range of every type. -/
theorem fits_zero (type : IntegerType) : type.Fits 0 := by
  have hpos := type.modulus_pos
  cases hsigned : type.signed with
  | false =>
      have hlower := lower_of_unsigned hsigned
      exact ⟨by omega, by omega⟩
  | true =>
      have hmod := modulus_of_signed hsigned
      exact ⟨by omega, by omega⟩

/-- The values of an unsigned type. -/
theorem fits_iff_of_unsigned (h : type.signed = false) :
    type.Fits value ↔ 0 ≤ value ∧ value < type.modulus := by
  rw [Fits, lower_of_unsigned h, zero_add]

/-! ### Conversions -/

theorem fits_convert (type : IntegerType) (value : ℤ) : type.Fits (type.convert value) := by
  have hnonneg := Int.emod_nonneg (value - type.lower) type.modulus_pos.ne'
  have hlt := Int.emod_lt_of_pos (value - type.lower) type.modulus_pos
  unfold Fits convert
  omega

/-- A conversion changes a number by a multiple of the modulus. -/
theorem exists_eq_convert_add (type : IntegerType) (value : ℤ) :
    ∃ turns, value = type.convert value + turns * type.modulus := by
  refine ⟨(value - type.lower) / type.modulus, ?_⟩
  have hdiv := Int.emod_add_mul_ediv (value - type.lower) type.modulus
  unfold convert
  linear_combination -hdiv

/-- A small multiple of the modulus is zero. -/
theorem turns_eq_zero {turns rest : ℤ}
    (hlt : |turns * type.modulus + rest| + |rest| < type.modulus) : turns = 0 := by
  have hmul : |turns| * type.modulus < 1 * type.modulus := by
    calc |turns| * type.modulus = |turns * type.modulus| := by
          rw [abs_mul, abs_of_pos type.modulus_pos]
      _ = |turns * type.modulus + rest - rest| := by rw [add_sub_cancel_right]
      _ ≤ |turns * type.modulus + rest| + |rest| := abs_sub _ _
      _ < 1 * type.modulus := by rwa [one_mul]
  exact Int.abs_lt_one_iff.mp (lt_of_mul_lt_mul_right hmul type.modulus_pos.le)

/-- **The conversion** is the value of the type that differs by a multiple of the modulus. -/
theorem convert_eq_iff (hfits : type.Fits a) :
    type.convert value = a ↔ ∃ turns, value = a + turns * type.modulus := by
  constructor
  · rintro rfl
    exact type.exists_eq_convert_add value
  · rintro ⟨turns, rfl⟩
    unfold convert
    have hmod : (a + turns * type.modulus - type.lower) % type.modulus = a - type.lower := by
      rw [add_sub_right_comm, Int.add_mul_emod_self_right]
      exact Int.emod_eq_of_lt (by linarith [hfits.1]) (by linarith [hfits.2])
    rw [hmod]
    ring

theorem convert_of_fits (hfits : type.Fits value) : type.convert value = value :=
  (convert_eq_iff hfits).mpr ⟨0, by ring⟩

/-- What is unchanged by the conversion is a value of the type. -/
theorem convert_eq_self_iff : type.convert value = value ↔ type.Fits value :=
  ⟨fun h => h ▸ type.fits_convert value, convert_of_fits⟩

/-- An unsigned type takes remainders. -/
theorem convert_of_unsigned (h : type.signed = false) (value : ℤ) :
    type.convert value = value % type.modulus := by
  unfold convert
  rw [lower_of_unsigned h, sub_zero, zero_add]

/-- A value of an unsigned type is its own remainder. -/
theorem emod_of_unsigned (h : type.signed = false) (hfits : type.Fits value) :
    value % type.modulus = value := by
  rw [← convert_of_unsigned h, convert_of_fits hfits]

theorem two_le_modulus (type : IntegerType) : 2 ≤ type.modulus := by
  have hpow : 2 ^ 1 ≤ 2 ^ type.bits := Nat.pow_le_pow_right (by decide) type.bits_pos
  unfold modulus
  exact_mod_cast hpow

/-- A type is signed just if minus one, converted to it, is not positive. -/
theorem convert_neg_one_nonpos_iff (type : IntegerType) :
    type.convert (-1) ≤ 0 ↔ type.signed = true := by
  cases hsigned : type.signed with
  | false =>
      have htwo := type.two_le_modulus
      have hmod : (-1) % type.modulus = type.modulus - 1 := by
        rw [← Int.add_mul_emod_self_right (-1) 1 type.modulus]
        rw [Int.emod_eq_of_lt (by omega) (by omega)]
        ring
      rw [convert_of_unsigned hsigned, hmod]
      simp only [Bool.false_eq_true, iff_false, not_le]
      omega
  | true =>
      have hneg := lower_neg hsigned
      have hmod := modulus_of_signed hsigned
      have hfits : type.Fits (-1) := ⟨by omega, by omega⟩
      rw [convert_of_fits hfits]
      simp

/-! ### Operations -/

theorem result_of_fits (hfits : type.Fits value) : type.result value = some value := by
  unfold result
  rw [if_pos hfits, convert_of_fits hfits, ite_self]

/-- A signed operation has a result just if that is a value of the type. -/
theorem result_of_signed (h : type.signed = true) (value : ℤ) :
    type.result value = if type.Fits value then some value else none := by
  simp [result, h]

theorem result_of_unsigned (h : type.signed = false) (value : ℤ) :
    type.result value = some (value % type.modulus) := by
  simp [result, h, convert_of_unsigned h]

/-- Halving or more makes a number smaller. -/
theorem natAbs_tdiv_lt (ha : a ≠ 0) (hb : 2 ≤ b.natAbs) : (a.tdiv b).natAbs < a.natAbs := by
  rw [Int.natAbs_tdiv]
  exact Nat.div_lt_self (Int.natAbs_pos.mpr ha) hb

/-- **A quotient is a value of the type** but for the one pair of signed numbers. -/
theorem fits_tdiv (ha : type.Fits a) (hb : type.signed = false → 0 ≤ b)
    (hpair : ¬ (a = type.lower ∧ b = -1)) : type.Fits (a.tdiv b) := by
  have hle := Int.natAbs_tdiv_le_natAbs a b
  obtain ⟨hlow, hhigh⟩ := ha
  unfold Fits
  cases hsigned : type.signed with
  | false =>
      have hlower := lower_of_unsigned hsigned
      have hnonneg : 0 ≤ a.tdiv b := Int.tdiv_nonneg (hlower ▸ hlow) (hb hsigned)
      omega
  | true =>
      have hmod := modulus_of_signed hsigned
      have hneg := lower_neg hsigned
      -- the quotient can only be too large by one, and then nothing was divided
      have hne : a.tdiv b ≠ -type.lower := by
        intro hbig
        rcases Nat.lt_or_ge b.natAbs 2 with hsmall | hlarge
        · have hcases : b = 0 ∨ b = 1 ∨ b = -1 := by omega
          rcases hcases with rfl | rfl | rfl
          · rw [Int.tdiv_zero] at hbig
            omega
          · rw [Int.tdiv_one] at hbig
            omega
          · rw [Int.tdiv_neg, Int.tdiv_one] at hbig
            exact hpair ⟨by omega, rfl⟩
        · have ha0 : a ≠ 0 := by
            rintro rfl
            rw [Int.zero_tdiv] at hbig
            omega
          have hlt := natAbs_tdiv_lt ha0 hlarge
          omega
      omega

/-- The one pair overflows. -/
theorem not_fits_pair (h : type.signed = true) : ¬ type.Fits (type.lower.tdiv (-1)) := by
  have hmod := modulus_of_signed h
  rw [Int.tdiv_neg, Int.tdiv_one]
  intro hfits
  have hlt := hfits.2
  omega

theorem Fits.nonneg_of_unsigned (h : type.Fits value) (hsigned : type.signed = false) :
    0 ≤ value := by
  rw [← lower_of_unsigned hsigned]
  exact h.1

/-- **The division** of two values of the type, with its result. -/
theorem quotient_eq_some (ha : type.Fits a) (hb : type.Fits b) (hzero : b ≠ 0) :
    type.quotient a b = some value ↔
      ¬ (a = type.lower ∧ b = -1) ∧ value = a.tdiv b := by
  rw [quotient, if_neg hzero]
  by_cases hpair : a = type.lower ∧ b = -1
  · have hsigned : type.signed = true := by
      by_contra hunsigned
      have hnonneg := hb.nonneg_of_unsigned (Bool.not_eq_true _ ▸ hunsigned)
      omega
    obtain ⟨rfl, rfl⟩ := hpair
    rw [result_of_signed hsigned, if_neg (not_fits_pair hsigned)]
    simp
  · rw [result_of_fits (fits_tdiv ha hb.nonneg_of_unsigned hpair)]
    simp [hpair, eq_comm]

/-- A result is a value of the type. -/
theorem fits_of_result (h : type.result a = some value) : type.Fits value := by
  unfold result at h
  split_ifs at h with hsigned hfits
  · exact Option.some.inj h ▸ hfits
  · exact Option.some.inj h ▸ type.fits_convert a

end IntegerType

/-! ### Truncated division -/

section Truncation

variable {a b rest : ℤ}

/-- The quotient and the rest of a division have the sign that the two numbers give it. -/
theorem tdiv_nonneg_of_mul_nonneg (h : 0 ≤ a * b) : 0 ≤ a.tdiv b ∧ 0 ≤ a.tmod b * b := by
  rcases lt_trichotomy b 0 with hb | rfl | hb
  · have ha : a ≤ 0 := nonpos_of_mul_nonneg_left h hb
    have hrest : 0 ≤ (-a).tmod b := Int.tmod_nonneg b (by omega)
    rw [Int.neg_tmod] at hrest
    exact ⟨Int.tdiv_nonneg_of_nonpos_of_nonpos ha hb.le,
      mul_nonneg_of_nonpos_of_nonpos (by omega) hb.le⟩
  · simp
  · have ha : 0 ≤ a := nonneg_of_mul_nonneg_left h hb
    exact ⟨Int.tdiv_nonneg ha hb.le, mul_nonneg (Int.tmod_nonneg b ha) hb.le⟩

/-- The same for numbers of opposite sign. -/
theorem tdiv_nonpos_of_mul_neg (h : a * b < 0) : a.tdiv b ≤ 0 ∧ a.tmod b * b ≤ 0 := by
  have hneg : 0 ≤ -a * b := by linarith
  obtain ⟨hquot, hrest⟩ := tdiv_nonneg_of_mul_nonneg hneg
  rw [Int.neg_tdiv] at hquot
  rw [Int.neg_tmod, neg_mul] at hrest
  exact ⟨by omega, by omega⟩

/-- **Rounding by half the divisor**: the rest of the division, less the half that was added, is
within half the divisor just if the rest has the divisor's sign. -/
theorem abs_two_mul_sub_half_le_iff (hrest : |rest| < |b|) :
    |2 * (rest - b.tdiv 2)| ≤ |b| ↔ 0 ≤ rest * b := by
  rcases lt_trichotomy b 0 with hb | rfl | hb
  · rw [abs_of_neg hb] at hrest ⊢
    obtain ⟨hlow, hhigh⟩ := abs_lt.mp hrest
    have hhalf : b.tdiv 2 = -(-b / 2) := by
      rw [← Int.tdiv_eq_ediv_of_nonneg (by omega), Int.neg_tdiv, neg_neg]
    have hsign : 0 ≤ rest * b ↔ 0 ≤ -rest := by
      rw [← neg_mul_neg rest b]
      exact mul_nonneg_iff_of_pos_right (by omega)
    rw [hhalf, abs_le, hsign]
    omega
  · exact absurd hrest (by simp)
  · rw [abs_of_pos hb] at hrest ⊢
    obtain ⟨hlow, hhigh⟩ := abs_lt.mp hrest
    rw [Int.tdiv_eq_ediv_of_nonneg hb.le, abs_le, mul_nonneg_iff_of_pos_right hb]
    omega

end Truncation

end Webcamd.Library
