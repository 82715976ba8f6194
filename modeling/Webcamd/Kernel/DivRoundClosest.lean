import Mathlib
import Webcamd.Library.IntegerType

/-!
# `DIV_ROUND_CLOSEST`

The rounding division of `kernel/linux_defs.h` and `kernel/linux_func.c`.  The macro chooses one of
four functions by the type of its divisor; as the four stand in one conditional expression, their
results are converted to the type that is common to them, which is unsigned and of 64 bits.

* `divRoundClosestIn` — the function that the four are, for a type of any width.
* `divRoundClosest` — the macro.
* `Meets` — where the dividend with half the divisor added is not disturbed.
* `divRoundClosestIn_iff`, `value_iff` — what the functions and the macro's value are worth as a
  rounded quotient.
* `divRoundClosest_iff` — the macro rounds to nearest under `Meets`, and nowhere else.
-/

namespace Webcamd.Kernel.DivRoundClosest

open Library

/-- The types of an operand. -/
inductive OperandType where
  | s32
  | u32
  | s64
  | u64
deriving DecidableEq

/-- The type as a range of numbers. -/
def OperandType.type : OperandType → IntegerType
  | s32 => ⟨32, true, IntegerType.bits_pos_32⟩
  | u32 => ⟨32, false, IntegerType.bits_pos_32⟩
  | s64 => ⟨64, true, IntegerType.bits_pos_64⟩
  | u64 => ⟨64, false, IntegerType.bits_pos_64⟩

/-- `sizeof`. -/
def OperandType.sizeof (operand : OperandType) : ℕ := operand.type.bits / 8

/-- An operand: a type and one of its values. -/
structure Operand where
  operandType : OperandType
  value : ℤ
  fits : operandType.type.Fits value

/-- The four functions, with the conversions of their arguments.  The division is undefined by zero,
and an overflow of signed numbers is undefined. -/
def divRoundClosestIn (type : IntegerType) (rem div : ℤ) : Option ℤ := do
  let rem := type.convert rem
  let div := type.convert div
  let half ← type.quotient div 2
  let sum ← type.result (rem + half)
  type.quotient sum div

/-- `div_round_closest_s32`. -/
def divRoundClosestS32 : ℤ → ℤ → Option ℤ := divRoundClosestIn OperandType.s32.type

/-- `div_round_closest_u32`. -/
def divRoundClosestU32 : ℤ → ℤ → Option ℤ := divRoundClosestIn OperandType.u32.type

/-- `div_round_closest_s64`. -/
def divRoundClosestS64 : ℤ → ℤ → Option ℤ := divRoundClosestIn OperandType.s64.type

/-- `div_round_closest_u64`. -/
def divRoundClosestU64 : ℤ → ℤ → Option ℤ := divRoundClosestIn OperandType.u64.type

/-- `DIV_ROUND_CLOSEST`.  The inner conditionals have the unsigned type of their two branches, and
the outer one the wider of these. -/
def divRoundClosest (rem div : Operand) : Option ℤ :=
  let minusOne := div.operandType.type.convert (-1)
  if 4 < div.operandType.sizeof then
    if minusOne ≤ 0 then
      (divRoundClosestS64 rem.value div.value).map OperandType.u64.type.convert
    else divRoundClosestU64 rem.value div.value
  else
    (if minusOne ≤ 0 then
      (divRoundClosestS32 rem.value div.value).map OperandType.u32.type.convert
    else divRoundClosestU32 rem.value div.value).map OperandType.u64.type.convert

/-! ### When the macro rounds to nearest -/

/-- **Undisturbed**, for a signed type: the dividend and its sum with half the divisor are values of
the type, the sum has not the sign against the divisor, and it is not the pair that overflows. -/
structure Direct (type : IntegerType) (rem div : ℤ) : Prop where
  rem_fits : type.Fits rem
  sum_fits : type.Fits (rem + div.tdiv 2)
  sign : 0 ≤ (rem + div.tdiv 2) * div
  pair : ¬ (rem = type.lower ∧ div = -1)

/-- **Disturbed twice**, for a signed type: the dividend loses as many turns as the divisor says,
and a quotient that comes out negative gains one. -/
structure Wrapped (type : IntegerType) (rem div : ℤ) : Prop where
  rem_fits : type.Fits (rem - type.modulus * div)
  sum_fits : type.Fits (rem - type.modulus * div + div.tdiv 2)
  sign : (rem - type.modulus * div + div.tdiv 2) * div < 0
  dvd : div ∣ rem + div.tdiv 2

/-- The dividends and divisors of a type for which the macro rounds to nearest. -/
def Meets (type : IntegerType) (rem div : ℤ) : Prop :=
  if type.signed then Direct type rem div ∨ Wrapped type rem div
  else type.Fits (rem + div.tdiv 2)

/-! ### The functions -/

section Functions

variable {type : IntegerType} {rem div value : ℤ}

theorem quotient_two (hdiv : type.Fits div) : type.quotient div 2 = some (div.tdiv 2) := by
  have hfits : type.Fits (div.tdiv 2) :=
    IntegerType.fits_tdiv hdiv (fun _ => by decide) (fun h => absurd h.2 (by decide))
  rw [IntegerType.quotient, if_neg (by decide), IntegerType.result_of_fits hfits]

/-- What a function returns: the quotient of the sum, unless that is the pair that overflows. -/
theorem divRoundClosestIn_eq_some (hdiv : type.Fits div) (hzero : div ≠ 0) :
    divRoundClosestIn type rem div = some value ↔
      ∃ sum, type.result (type.convert rem + div.tdiv 2) = some sum ∧
        ¬ (sum = type.lower ∧ div = -1) ∧ value = sum.tdiv div := by
  unfold divRoundClosestIn
  simp only [IntegerType.convert_of_fits hdiv, quotient_two hdiv, Option.bind_eq_bind,
    Option.bind_some, Option.bind_eq_some_iff]
  constructor
  · rintro ⟨sum, hsum, hquot⟩
    have hfits := IntegerType.fits_of_result hsum
    exact ⟨sum, hsum, (IntegerType.quotient_eq_some hfits hdiv hzero).mp hquot⟩
  · rintro ⟨sum, hsum, hquot⟩
    have hfits := IntegerType.fits_of_result hsum
    exact ⟨sum, hsum, (IntegerType.quotient_eq_some hfits hdiv hzero).mpr hquot⟩

/-- The result of a function is a value of its type. -/
theorem fits_divRoundClosestIn (h : divRoundClosestIn type rem div = some value) :
    type.Fits value := by
  simp only [divRoundClosestIn, Option.bind_eq_bind, Option.bind_eq_some_iff] at h
  obtain ⟨-, -, sum, -, hquot⟩ := h
  rw [IntegerType.quotient] at hquot
  split at hquot
  · cases hquot
  · exact IntegerType.fits_of_result hquot

/-- The value as an unsigned number of the same width. -/
theorem emod_modulus (hvalue : type.Fits value) :
    value % type.modulus = value + (if value < 0 then 1 else 0) * type.modulus := by
  obtain ⟨hlow, hhigh⟩ := hvalue
  obtain ⟨hlower, hupper⟩ := type.fits_zero
  split
  · rw [← Int.add_mul_emod_self_right value 1 type.modulus]
    exact Int.emod_eq_of_lt (by omega) (by omega)
  · rw [zero_mul, add_zero]
    exact Int.emod_eq_of_lt (by omega) (by omega)

theorem fits_u64_of_u32 (h : OperandType.u32.type.Fits value) :
    OperandType.u64.type.Fits value := by
  obtain ⟨hlow, hhigh⟩ := h
  exact ⟨hlow, hhigh.trans (by decide)⟩

/-- **The macro** is the function of the divisor's type, with its value as an unsigned number of the
same width. -/
theorem divRoundClosest_eq (rem div : Operand) :
    divRoundClosest rem div =
      (divRoundClosestIn div.operandType.type rem.value div.value).map
        (· % div.operandType.type.modulus) := by
  obtain ⟨operandType, div, hdiv⟩ := div
  unfold divRoundClosest
  simp only [IntegerType.convert_neg_one_nonpos_iff]
  cases operandType with
  | s32 =>
      rw [if_neg (by decide), if_pos (by decide), Option.map_map]
      refine Option.map_congr fun value _ => ?_
      have hconvert : OperandType.u32.type.convert value = value % 2 ^ 32 :=
        IntegerType.convert_of_unsigned rfl value
      show OperandType.u64.type.convert (OperandType.u32.type.convert value) = value % 2 ^ 32
      rw [← hconvert]
      exact IntegerType.convert_of_fits (fits_u64_of_u32 (IntegerType.fits_convert _ value))
  | u32 =>
      rw [if_neg (by decide), if_neg (by decide)]
      refine Option.map_congr fun value hvalue => ?_
      have hfits : OperandType.u32.type.Fits value := fits_divRoundClosestIn hvalue
      rw [IntegerType.convert_of_fits (fits_u64_of_u32 hfits)]
      exact (IntegerType.emod_of_unsigned rfl hfits).symm
  | s64 =>
      rw [if_pos (by decide), if_pos (by decide)]
      refine Option.map_congr fun value _ => ?_
      exact IntegerType.convert_of_unsigned rfl value
  | u64 =>
      rw [if_pos (by decide), if_neg (by decide)]
      refine Option.map_id'.symm.trans (Option.map_congr fun value hvalue => ?_)
      exact (IntegerType.emod_of_unsigned rfl (fits_divRoundClosestIn hvalue)).symm

end Functions

/-! ### The rest of the rounded division -/

section Rest

variable {type : IntegerType} {rem div sum turns gained : ℤ}

/-- What is left of the dividend, when the sum was divided and whole turns were lost and gained. -/
theorem rest_eq (hrem : rem = sum - div.tdiv 2 + turns * type.modulus) :
    rem - (sum.tdiv div + gained * type.modulus) * div =
      (turns - gained * div) * type.modulus + (sum.tmod div - div.tdiv 2) := by
  have hdiv := Int.mul_tdiv_add_tmod sum div
  rw [hrem]
  linear_combination -hdiv

theorem abs_tmod_lt (sum : ℤ) (hzero : div ≠ 0) : |sum.tmod div| < |div| := by
  rw [Int.abs_eq_natAbs, Int.abs_eq_natAbs, Int.natAbs_tmod]
  exact_mod_cast Nat.mod_lt _ (Int.natAbs_pos.mpr hzero)

/-- **Near is nearest**: the rest is within half the divisor just if no turn is left in it, and the
rest of the division has the divisor's sign. -/
theorem nearest_iff (hzero : div ≠ 0)
    (hbound : |div| + |2 * (sum.tmod div - div.tdiv 2)| < 2 * type.modulus) :
    |2 * (turns * type.modulus + (sum.tmod div - div.tdiv 2))| ≤ |div| ↔
      turns = 0 ∧ 0 ≤ sum.tmod div * div := by
  have hhalf := abs_two_mul_sub_half_le_iff (abs_tmod_lt sum hzero)
  constructor
  · intro hnear
    have hturns : turns = 0 := by
      rw [abs_mul, abs_two] at hnear hbound
      refine @IntegerType.turns_eq_zero type turns (sum.tmod div - div.tdiv 2) ?_
      omega
    rw [hturns, zero_mul, zero_add] at hnear
    exact ⟨hturns, hhalf.mp hnear⟩
  · rintro ⟨rfl, hsign⟩
    rw [zero_mul, zero_add]
    exact hhalf.mpr hsign

/-- The bound for signed types: the divisor is at most half the modulus. -/
theorem signed_bound (hsigned : type.signed = true) (hdiv : type.Fits div) (hzero : div ≠ 0) :
    |div| + |2 * (sum.tmod div - div.tdiv 2)| < 2 * type.modulus := by
  have hrest := abs_tmod_lt sum hzero
  have hhalf : (div.tdiv 2).natAbs = div.natAbs / 2 := Int.natAbs_tdiv div 2
  have hmod := IntegerType.modulus_of_signed hsigned
  obtain ⟨hlow, hhigh⟩ := hdiv
  rw [Int.abs_eq_natAbs] at hrest ⊢
  rw [Int.abs_eq_natAbs] at hrest ⊢
  omega

/-- The bound for unsigned types: the rest is not negative. -/
theorem unsigned_bound (hunsigned : type.signed = false) (hdiv : type.Fits div) (hzero : div ≠ 0)
    (hsum : 0 ≤ sum) :
    |div| + |2 * (sum.tmod div - div.tdiv 2)| < 2 * type.modulus := by
  have hnonneg := hdiv.nonneg_of_unsigned hunsigned
  have hlower := IntegerType.lower_of_unsigned hunsigned
  have hhalf := Int.tdiv_eq_ediv_of_nonneg (b := 2) hnonneg
  have hrest := Int.tmod_nonneg div hsum
  have hlt : sum.tmod div < div := Int.tmod_lt_of_pos sum (by omega)
  have hhigh := hdiv.2
  rw [hhalf, abs_of_nonneg hnonneg, Int.abs_eq_natAbs]
  omega

end Rest

/-! ### The rounded division -/

section Rounding

variable {type : IntegerType} {rem div : ℤ}

/-- The quotient and the rest of a sum, by the signs of sum and divisor. -/
theorem quotient_sign {sum : ℤ} (hzero : div ≠ 0) (hsign : 0 ≤ sum.tmod div * div) :
    (0 ≤ sum.tdiv div → 0 ≤ sum * div) ∧ (sum.tdiv div < 0 → sum * div < 0 ∧ div ∣ sum) := by
  have hdiv := Int.mul_tdiv_add_tmod sum div
  have hsquare : 0 < div * div := mul_self_pos.mpr hzero
  constructor
  · intro hquot
    have hsum : sum * div = div * div * sum.tdiv div + sum.tmod div * div := by
      linear_combination -div * hdiv
    rw [hsum]
    exact add_nonneg (mul_nonneg hsquare.le hquot) hsign
  · intro hquot
    have hneg : sum * div < 0 := by
      by_contra hge
      exact absurd (tdiv_nonneg_of_mul_nonneg (not_lt.mp hge)).1 (not_le.mpr hquot)
    have hrest : sum.tmod div * div = 0 :=
      le_antisymm (tdiv_nonpos_of_mul_neg hneg).2 hsign
    have htmod : sum.tmod div = 0 := (mul_eq_zero.mp hrest).resolve_right hzero
    exact ⟨hneg, Int.dvd_of_tmod_eq_zero htmod⟩

/-- The rest of a division has the divisor's sign just if the sum has, or there is no rest. -/
theorem rest_sign_iff {sum : ℤ} (hzero : div ≠ 0) :
    0 ≤ sum.tmod div * div ↔ 0 ≤ sum * div ∨ div ∣ sum := by
  constructor
  · intro hsign
    rcases lt_or_ge (sum.tdiv div) 0 with hquot | hquot
    · exact Or.inr ((quotient_sign hzero hsign).2 hquot).2
    · exact Or.inl ((quotient_sign hzero hsign).1 hquot)
  · rintro (hsign | hdvd)
    · exact (tdiv_nonneg_of_mul_nonneg hsign).2
    · rw [Int.tmod_eq_zero_of_dvd hdvd, zero_mul]

/-- What a function of a signed type returns, with its two overflows. -/
theorem exists_signed_iff {P : ℤ → Prop} (hsigned : type.signed = true) (hdiv : type.Fits div)
    (hzero : div ≠ 0) :
    (∃ value, divRoundClosestIn type rem div = some value ∧ P value) ↔
      type.Fits (type.convert rem + div.tdiv 2) ∧
        ¬ (type.convert rem = type.lower ∧ div = -1) ∧
        P ((type.convert rem + div.tdiv 2).tdiv div) := by
  have hpair : (type.convert rem + div.tdiv 2 = type.lower ∧ div = -1) ↔
      type.convert rem = type.lower ∧ div = -1 := by
    refine and_congr_left ?_
    rintro rfl
    rw [show (-1 : ℤ).tdiv 2 = 0 by decide, add_zero]
  simp only [divRoundClosestIn_eq_some hdiv hzero, IntegerType.result_of_signed hsigned]
  constructor
  · rintro ⟨value, ⟨sum, hsum, hover, rfl⟩, hvalue⟩
    split_ifs at hsum with hfits
    obtain rfl := Option.some.inj hsum
    exact ⟨hfits, fun h => hover (hpair.mpr h), hvalue⟩
  · rintro ⟨hfits, hover, hvalue⟩
    exact ⟨_, ⟨_, if_pos hfits, fun h => hover (hpair.mp h), rfl⟩, hvalue⟩

/-- A quotient that has gained whole turns is nearest just if the dividend has lost as many, times
the divisor, and the rest has the right sign. -/
theorem signed_near_iff {turns gained : ℤ} (hsigned : type.signed = true) (hdiv : type.Fits div)
    (hzero : div ≠ 0) (hturns : rem = type.convert rem + turns * type.modulus) :
    |2 * (rem - ((type.convert rem + div.tdiv 2).tdiv div + gained * type.modulus) * div)| ≤ |div| ↔
      turns = gained * div ∧ 0 ≤ (type.convert rem + div.tdiv 2).tmod div * div := by
  have hrem : rem = type.convert rem + div.tdiv 2 - div.tdiv 2 + turns * type.modulus := by
    rw [add_sub_cancel_right, ← hturns]
  rw [rest_eq hrem, nearest_iff hzero (signed_bound hsigned hdiv hzero), sub_eq_zero]

/-- A value of the type has lost no turns. -/
theorem turns_zero {turns : ℤ} (hturns : rem = type.convert rem + turns * type.modulus)
    (hrem : type.Fits rem) : turns = 0 := by
  rw [IntegerType.convert_of_fits hrem, left_eq_add] at hturns
  exact (mul_eq_zero.mp hturns).resolve_right type.modulus_pos.ne'

/-- **A function of a signed type** by itself rounds to nearest unless the sum has the sign against
the divisor: there only a division without a rest does. -/
theorem divRoundClosestIn_iff (hsigned : type.signed = true) (hdiv : type.Fits div)
    (hzero : div ≠ 0) :
    (∃ value, divRoundClosestIn type rem div = some value ∧
        |2 * (rem - value * div)| ≤ |div|) ↔
      type.Fits rem ∧ type.Fits (rem + div.tdiv 2) ∧ ¬ (rem = type.lower ∧ div = -1) ∧
        (0 ≤ (rem + div.tdiv 2) * div ∨ div ∣ rem + div.tdiv 2) := by
  rw [exists_signed_iff hsigned hdiv hzero]
  obtain ⟨turns, hturns⟩ := type.exists_eq_convert_add rem
  have hnear := @signed_near_iff type rem div turns 0 hsigned hdiv hzero hturns
  rw [zero_mul, add_zero, zero_mul, rest_sign_iff hzero] at hnear
  rw [hnear]
  constructor
  · rintro ⟨hfits, hpair, rfl, hsign⟩
    have hself : type.convert rem = rem := by
      rw [zero_mul, add_zero] at hturns
      exact hturns.symm
    rw [hself] at hfits hpair hsign
    exact ⟨IntegerType.convert_eq_self_iff.mp hself, hfits, hpair, hsign⟩
  · rintro ⟨hrem, hfits, hpair, hsign⟩
    rw [IntegerType.convert_of_fits hrem]
    exact ⟨hfits, hpair, turns_zero hturns hrem, hsign⟩

/-- The quotient of a sum in range, when it does not overflow. -/
theorem fits_sum_tdiv (hdiv : type.Fits div)
    (hfits : type.Fits (type.convert rem + div.tdiv 2))
    (hpair : ¬ (type.convert rem = type.lower ∧ div = -1)) :
    type.Fits ((type.convert rem + div.tdiv 2).tdiv div) := by
  refine IntegerType.fits_tdiv hfits hdiv.nonneg_of_unsigned ?_
  rintro ⟨hsum, rfl⟩
  exact hpair ⟨by simpa using hsum, rfl⟩

/-- Where the value is nearest, nothing was disturbed, or the turns lost and gained agree. -/
theorem direct_or_wrapped (hsigned : type.signed = true) (hdiv : type.Fits div) (hzero : div ≠ 0)
    (hfits : type.Fits (type.convert rem + div.tdiv 2))
    (hpair : ¬ (type.convert rem = type.lower ∧ div = -1))
    (hnear : |2 * (rem - (type.convert rem + div.tdiv 2).tdiv div % type.modulus * div)| ≤ |div|) :
    Direct type rem div ∨ Wrapped type rem div := by
  obtain ⟨turns, hturns⟩ := type.exists_eq_convert_add rem
  rw [emod_modulus (fits_sum_tdiv hdiv hfits hpair), signed_near_iff hsigned hdiv hzero hturns]
    at hnear
  obtain ⟨hlost, hrest⟩ := hnear
  split_ifs at hlost with hneg
  · -- the quotient is negative and has gained a turn
    right
    have hconvert : type.convert rem = rem - type.modulus * div := by
      rw [hlost, one_mul] at hturns
      linear_combination -hturns
    obtain ⟨hsign, hdvd⟩ := (quotient_sign hzero hrest).2 hneg
    have hrem := type.fits_convert rem
    rw [hconvert] at hfits hsign hdvd hrem
    rw [sub_add_eq_add_sub] at hdvd
    exact ⟨hrem, hfits, hsign, (dvd_sub_left (Dvd.intro_left type.modulus rfl)).mp hdvd⟩
  · -- it is not, and the dividend is a value of the type
    left
    have hself : type.convert rem = rem := by
      rw [hlost, zero_mul, zero_mul, add_zero] at hturns
      exact hturns.symm
    have hsign := (quotient_sign hzero hrest).1 (not_lt.mp hneg)
    rw [hself] at hfits hpair hsign
    exact ⟨IntegerType.convert_eq_self_iff.mp hself, hfits, hsign, hpair⟩

theorem Direct.near (h : Direct type rem div) (hsigned : type.signed = true)
    (hdiv : type.Fits div) (hzero : div ≠ 0) :
    ∃ value, divRoundClosestIn type rem div = some value ∧
      |2 * (rem - value % type.modulus * div)| ≤ |div| := by
  rw [exists_signed_iff hsigned hdiv hzero]
  obtain ⟨turns, hturns⟩ := type.exists_eq_convert_add rem
  have hlost := turns_zero hturns h.rem_fits
  obtain ⟨hquot, hrest⟩ := tdiv_nonneg_of_mul_nonneg h.sign
  have hfits := h.sum_fits
  have hpair := h.pair
  rw [← IntegerType.convert_of_fits h.rem_fits] at hquot hrest hfits hpair
  refine ⟨hfits, hpair, ?_⟩
  rw [emod_modulus (fits_sum_tdiv hdiv hfits hpair), signed_near_iff hsigned hdiv hzero hturns,
    if_neg (not_lt.mpr hquot), zero_mul]
  exact ⟨hlost, hrest⟩

theorem Wrapped.near (h : Wrapped type rem div) (hsigned : type.signed = true)
    (hdiv : type.Fits div) (hzero : div ≠ 0) :
    ∃ value, divRoundClosestIn type rem div = some value ∧
      |2 * (rem - value % type.modulus * div)| ≤ |div| := by
  rw [exists_signed_iff hsigned hdiv hzero]
  have hconvert : type.convert rem = rem - type.modulus * div :=
    (IntegerType.convert_eq_iff h.rem_fits).mpr ⟨div, by ring⟩
  have hturns : rem = type.convert rem + div * type.modulus := by
    rw [hconvert]
    ring
  have hfits := h.sum_fits
  have hsign := h.sign
  have hdvd : div ∣ rem - type.modulus * div + div.tdiv 2 := by
    rw [sub_add_eq_add_sub]
    exact (dvd_sub_left (Dvd.intro_left type.modulus rfl)).mpr h.dvd
  rw [← hconvert] at hfits hsign hdvd
  have hpair : ¬ (type.convert rem = type.lower ∧ div = -1) := by
    rintro ⟨hleast, rfl⟩
    have hlower := IntegerType.lower_neg hsigned
    rw [hleast, show (-1 : ℤ).tdiv 2 = 0 by decide] at hsign
    omega
  -- the sum is a multiple of the divisor that is not zero, so the quotient is negative
  have hquot : (type.convert rem + div.tdiv 2).tdiv div < 0 := by
    refine lt_of_le_of_ne (tdiv_nonpos_of_mul_neg hsign).1 ?_
    intro hnone
    have hsum := Int.mul_tdiv_cancel' hdvd
    rw [hnone, mul_zero] at hsum
    rw [← hsum, zero_mul] at hsign
    exact lt_irrefl 0 hsign
  refine ⟨hfits, hpair, ?_⟩
  rw [emod_modulus (fits_sum_tdiv hdiv hfits hpair), signed_near_iff hsigned hdiv hzero hturns,
    if_pos hquot, one_mul, Int.tmod_eq_zero_of_dvd hdvd, zero_mul]
  exact ⟨rfl, le_refl 0⟩

/-- **The value of the macro for a signed type.** -/
theorem signed_value_iff (hsigned : type.signed = true) (hdiv : type.Fits div)
    (hzero : div ≠ 0) :
    (∃ value, divRoundClosestIn type rem div = some value ∧
        |2 * (rem - value % type.modulus * div)| ≤ |div|) ↔
      Direct type rem div ∨ Wrapped type rem div := by
  constructor
  · intro hvalue
    obtain ⟨hfits, hpair, hnear⟩ := (exists_signed_iff hsigned hdiv hzero).mp hvalue
    exact direct_or_wrapped hsigned hdiv hzero hfits hpair hnear
  · rintro (hdirect | hwrapped)
    · exact hdirect.near hsigned hdiv hzero
    · exact hwrapped.near hsigned hdiv hzero

/-- What a function of an unsigned type returns: the sum wraps around. -/
theorem exists_unsigned_iff {P : ℤ → Prop} (hunsigned : type.signed = false)
    (hdiv : type.Fits div) (hzero : div ≠ 0) :
    (∃ value, divRoundClosestIn type rem div = some value ∧ P value) ↔
      P ((type.convert (rem + div.tdiv 2)).tdiv div) := by
  have hsum : type.result (type.convert rem + div.tdiv 2) =
      some (type.convert (rem + div.tdiv 2)) := by
    rw [IntegerType.result_of_unsigned hunsigned, IntegerType.convert_of_unsigned hunsigned,
      IntegerType.convert_of_unsigned hunsigned, Int.emod_add_emod]
  have hpair : ¬ (type.convert (rem + div.tdiv 2) = type.lower ∧ div = -1) := by
    rintro ⟨-, rfl⟩
    exact absurd (hdiv.nonneg_of_unsigned hunsigned) (by decide)
  simp only [divRoundClosestIn_eq_some hdiv hzero, hsum]
  constructor
  · rintro ⟨value, ⟨sum, hsome, -, rfl⟩, hvalue⟩
    rwa [Option.some.inj hsome]
  · intro hvalue
    exact ⟨_, ⟨_, rfl, hpair, rfl⟩, hvalue⟩

/-- **The value of the macro for an unsigned type.** -/
theorem unsigned_value_iff (hunsigned : type.signed = false) (hdiv : type.Fits div)
    (hzero : div ≠ 0) :
    (∃ value, divRoundClosestIn type rem div = some value ∧
        |2 * (rem - value % type.modulus * div)| ≤ |div|) ↔
      type.Fits (rem + div.tdiv 2) := by
  rw [exists_unsigned_iff hunsigned hdiv hzero]
  obtain ⟨turns, hturns⟩ := type.exists_eq_convert_add (rem + div.tdiv 2)
  have hfits := type.fits_convert (rem + div.tdiv 2)
  have hnonneg := hfits.nonneg_of_unsigned hunsigned
  have hdivisor := hdiv.nonneg_of_unsigned hunsigned
  have hquot : type.Fits ((type.convert (rem + div.tdiv 2)).tdiv div) := by
    refine IntegerType.fits_tdiv hfits hdiv.nonneg_of_unsigned ?_
    rintro ⟨-, rfl⟩
    exact absurd hdivisor (by decide)
  have hrem : rem = type.convert (rem + div.tdiv 2) - div.tdiv 2 + turns * type.modulus := by
    linear_combination hturns
  have hrest := @rest_eq type rem div _ turns 0 hrem
  rw [zero_mul, add_zero, zero_mul, sub_zero] at hrest
  have hsign := mul_nonneg (Int.tmod_nonneg div hnonneg) hdivisor
  rw [IntegerType.emod_of_unsigned hunsigned hquot, hrest,
    nearest_iff hzero (unsigned_bound hunsigned hdiv hzero hnonneg),
    ← IntegerType.convert_eq_self_iff]
  constructor
  · rintro ⟨rfl, -⟩
    rw [zero_mul, add_zero] at hturns
    exact hturns.symm
  · intro hself
    exact ⟨turns_zero hturns (IntegerType.convert_eq_self_iff.mp hself), hsign⟩

end Rounding

/-- **`DIV_ROUND_CLOSEST` rounds to nearest** for the operands that meet the condition, and for no
others. -/
theorem divRoundClosest_iff (rem div : Operand) (hzero : div.value ≠ 0) :
    (∃ q, divRoundClosest rem div = some q ∧
        |2 * (rem.value - q * div.value)| ≤ |div.value|) ↔
      Meets div.operandType.type rem.value div.value := by
  have hvalue : (∃ q, divRoundClosest rem div = some q ∧
        |2 * (rem.value - q * div.value)| ≤ |div.value|) ↔
      ∃ value, divRoundClosestIn div.operandType.type rem.value div.value = some value ∧
        |2 * (rem.value - value % div.operandType.type.modulus * div.value)| ≤ |div.value| := by
    simp only [divRoundClosest_eq, Option.map_eq_some_iff]
    constructor
    · rintro ⟨-, ⟨value, hvalue, rfl⟩, hnear⟩
      exact ⟨value, hvalue, hnear⟩
    · rintro ⟨value, hvalue, hnear⟩
      exact ⟨_, ⟨value, hvalue, rfl⟩, hnear⟩
  rw [hvalue, Meets]
  split
  · rename_i hsigned
    exact signed_value_iff hsigned div.fits hzero
  · rename_i hsigned
    exact unsigned_value_iff (Bool.not_eq_true _ ▸ hsigned) div.fits hzero

theorem divRoundClosest_iff_eleven_quarters :
    (∃ q, divRoundClosest ⟨.s32, 11, by decide⟩ ⟨.u64, 4, by decide⟩ = some q ∧
        |2 * ((11 : ℤ) - q * 4)| ≤ |4|) ↔
      Meets OperandType.u64.type 11 4 :=
  divRoundClosest_iff ⟨.s32, 11, by decide⟩ ⟨.u64, 4, by decide⟩ (by decide)

/-- A negative dividend is not rounded to nearest, and its quotient comes out positive. -/
theorem divRoundClosest_negative :
    ¬ ∀ rem div : Operand, div.value ≠ 0 →
      ¬ (rem.value = div.operandType.type.lower ∧ div.value = -1) →
        ∃ q, divRoundClosest rem div = some q ∧
          |2 * (rem.value - q * div.value)| ≤ |div.value| := by
  intro h
  have hquot : divRoundClosest ⟨.s32, -11, by decide⟩ ⟨.s32, 4, by decide⟩ =
      some 4294967294 := by decide +kernel
  obtain ⟨q, hq, hnear⟩ := h ⟨.s32, -11, by decide⟩ ⟨.s32, 4, by decide⟩ (by decide) (by decide)
  rw [hquot] at hq
  obtain rfl := Option.some.inj hq
  exact absurd hnear (by decide)

end Webcamd.Kernel.DivRoundClosest
