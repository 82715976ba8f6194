import Mathlib
import Webcamd.Library.IntegerType
import Webcamd.Library.StringConversion

/-!
# `kstrtos8` and the functions like it

The functions of `kernel/linux_func.c` that read a number from a string.  They leave the work to the
C library, look at the end pointer, and six of the seven see whether the number survives a
conversion to the type of the result.

* `kstrto` — the six functions, for a type; `kstrtoul` has no test of the range.
* `kstrto_of_end`, `kstrto_of_not_numeral`, `kstrto_nil` — the outcomes.
* `Sound` — what a function that reads numbers owes to its caller.
* `parser_sound_iff` — which strings the functions read as they should.
-/

namespace Webcamd.Kernel.NumberParsing

open Library

/-- `EINVAL` -/
def einval : ℤ := 22

/-- `ERANGE` -/
def erange : ℤ := 34

/-- A string, without its NUL. -/
structure CString where
  text : List Char
  nul : '\x00' ∉ text

/-- The six functions that test the range: the conversion of the C library, and the type of the
result.  Returned are the result and `*res`. -/
def kstrto (convert : List Char → ℕ → ℤ × List Char) (type : IntegerType) (nptr : CString)
    (base : ℕ) : ℤ × ℤ :=
  if base < 2 ∨ 35 < base then (-einval, 0)
  else
    let (temp, pp) := convert nptr.text base
    if pp.headD '\x00' ≠ '\x00' then (-einval, 0)
    else if temp ≠ type.convert temp then (-erange, 0)
    else (0, type.convert temp)

/-- `kstrtos8` -/
def kstrtos8 : CString → ℕ → ℤ × ℤ := kstrto strtoll ⟨8, true, by decide⟩

/-- `kstrtou8` -/
def kstrtou8 : CString → ℕ → ℤ × ℤ := kstrto strtoull ⟨8, false, by decide⟩

/-- `kstrtos16` -/
def kstrtos16 : CString → ℕ → ℤ × ℤ := kstrto strtoll ⟨16, true, by decide⟩

/-- `kstrtou16` -/
def kstrtou16 : CString → ℕ → ℤ × ℤ := kstrto strtoull ⟨16, false, by decide⟩

/-- `kstrtoint` -/
def kstrtoint : CString → ℕ → ℤ × ℤ := kstrto strtoll ⟨32, true, IntegerType.bits_pos_32⟩

/-- `kstrtouint` -/
def kstrtouint : CString → ℕ → ℤ × ℤ := kstrto strtoull ⟨32, false, IntegerType.bits_pos_32⟩

/-- `long long` -/
def longLong : IntegerType := ⟨64, true, IntegerType.bits_pos_64⟩

/-- `unsigned long` -/
def unsignedLong : IntegerType := ⟨64, false, IntegerType.bits_pos_64⟩

/-- `kstrtoul`: the number goes through a `long long`, and its range is not tested. -/
def kstrtoul (nptr : CString) (base : ℕ) : ℤ × ℤ :=
  if base < 2 ∨ 35 < base then (-einval, 0)
  else
    let (value, pp) := strtoull nptr.text base
    let temp := longLong.convert value
    if pp.headD '\x00' ≠ '\x00' then (-einval, 0)
    else (0, unsignedLong.convert temp)

/-- The seven functions. -/
inductive Parser where
  | s8
  | u8
  | s16
  | u16
  | int
  | uint
  | ul
deriving DecidableEq

/-- The function. -/
def Parser.run : Parser → CString → ℕ → ℤ × ℤ
  | s8 => kstrtos8
  | u8 => kstrtou8
  | s16 => kstrtos16
  | u16 => kstrtou16
  | int => kstrtoint
  | uint => kstrtouint
  | ul => kstrtoul

/-- The type of its result. -/
def Parser.type : Parser → IntegerType
  | s8 => ⟨8, true, by decide⟩
  | u8 => ⟨8, false, by decide⟩
  | s16 => ⟨16, true, by decide⟩
  | u16 => ⟨16, false, by decide⟩
  | int => ⟨32, true, IntegerType.bits_pos_32⟩
  | uint => ⟨32, false, IntegerType.bits_pos_32⟩
  | ul => unsignedLong

/-- **Sound**: success means that the string is a numeral and the result its value, a numeral out of
range is told from the other strings, and these are refused. -/
structure Sound (outcome : ℤ × ℤ) (type : IntegerType) (text : List Char) (base : ℕ) : Prop where
  success : outcome.1 = 0 → ∃ value, Numeral base text value ∧ outcome.2 = value
  range : ∀ value, Numeral base text value → ¬ type.Fits value → outcome.1 = -erange
  invalid : (∀ value, ¬ Numeral base text value) → outcome.1 = -einval

/-- The numbers out of range that a function takes for others: an unsigned one those that get into
its range by `2 ^ 64`, and `kstrtoul` all. -/
def Parser.Mistakes : Parser → ℤ → Prop
  | s8 | s16 | int => fun _ => False
  | u8 => fun value => -2 ^ 64 < value ∧ value < -2 ^ 64 + 2 ^ 8
  | u16 => fun value => -2 ^ 64 < value ∧ value < -2 ^ 64 + 2 ^ 16
  | uint => fun value => -2 ^ 64 < value ∧ value < -2 ^ 64 + 2 ^ 32
  | ul => fun value => value < 0 ∨ 2 ^ 64 ≤ value

/-- The strings that a function reads as it should. -/
def Parser.Meets (parser : Parser) (nptr : CString) (base : ℕ) : Prop :=
  nptr.text ≠ [] ∧ ∀ value, Numeral base nptr.text value → ¬ parser.Mistakes value

/-! ### The outcomes -/

section Outcomes

variable {convert : List Char → ℕ → ℤ × List Char} {type : IntegerType} {nptr : CString} {base : ℕ}

/-- The character at the end pointer is the NUL just at the end of the string. -/
theorem headD_endPointer (nptr : CString) (base : ℕ) :
    (endPointer base nptr.text).headD '\x00' = '\x00' ↔ endPointer base nptr.text = [] := by
  have hsuffix := endPointer_suffix base nptr.text
  cases hend : endPointer base nptr.text with
  | nil => simp
  | cons c rest =>
      rw [hend] at hsuffix
      have hmem : c ∈ nptr.text := hsuffix.subset (by simp)
      have hnul : c ≠ '\x00' := fun hc => nptr.nul (hc ▸ hmem)
      simp [hnul]

theorem base_valid (hlow : 2 ≤ base) (hhigh : base ≤ 35) : ¬ (base < 2 ∨ 35 < base) := by omega

/-- A string that is converted to its end. -/
theorem kstrto_of_end {temp : ℤ} (hlow : 2 ≤ base) (hhigh : base ≤ 35)
    (hconvert : convert nptr.text base = (temp, [])) :
    kstrto convert type nptr base = if type.Fits temp then (0, temp) else (-erange, 0) := by
  rw [kstrto, if_neg (base_valid hlow hhigh), hconvert]
  by_cases hfits : type.Fits temp
  · have hself := IntegerType.convert_of_fits hfits
    simp [hself, hfits]
  · have hother : temp ≠ type.convert temp :=
      fun h => hfits (IntegerType.convert_eq_self_iff.mp h.symm)
    simp [hother, hfits]

/-- The end pointer of any other string is not at its end. -/
theorem headD_of_not_numeral (hhigh : base ≤ 35) (hne : nptr.text ≠ [])
    (hnone : ∀ value, ¬ Numeral base nptr.text value) :
    (endPointer base nptr.text).headD '\x00' ≠ '\x00' := by
  rw [ne_eq, headD_endPointer, endPointer_eq_nil_iff (by omega)]
  rintro (hnil | ⟨value, hvalue⟩)
  · exact hne hnil
  · exact hnone value hvalue

/-- Such a string is refused. -/
theorem kstrto_of_not_numeral (hlow : 2 ≤ base) (hhigh : base ≤ 35)
    (hsnd : (convert nptr.text base).2 = endPointer base nptr.text) (hne : nptr.text ≠ [])
    (hnone : ∀ value, ¬ Numeral base nptr.text value) :
    kstrto convert type nptr base = (-einval, 0) := by
  rw [kstrto, if_neg (base_valid hlow hhigh)]
  simp only [hsnd]
  rw [if_pos (headD_of_not_numeral hhigh hne hnone)]

/-- What the functions do, by the numeral that a string is, decides whether that is sound. -/
theorem sound_iff {outcome : ℤ × ℤ} {text : List Char} {Mistake : ℤ → Prop}
    (hnil : text = [] → outcome.1 = 0)
    (hinvalid : text ≠ [] → (∀ value, ¬ Numeral base text value) → outcome.1 = -einval)
    (hright : ∀ value, Numeral base text value → ¬ Mistake value →
      outcome = if type.Fits value then (0, value) else (-erange, 0))
    (hwrong : ∀ value, Numeral base text value → Mistake value →
      outcome.1 = 0 ∧ ¬ type.Fits value) :
    Sound outcome type text base ↔
      text ≠ [] ∧ ∀ value, Numeral base text value → ¬ Mistake value := by
  constructor
  · intro h
    constructor
    · rintro rfl
      obtain ⟨value, hvalue, -⟩ := h.success (hnil rfl)
      exact not_numeral_nil value hvalue
    · intro value hvalue hmistake
      obtain ⟨hzero, hfits⟩ := hwrong value hvalue hmistake
      exact absurd (hzero.symm.trans (h.range value hvalue hfits)) (by decide)
  · rintro ⟨hne, hnot⟩
    constructor
    case success =>
      intro hzero
      by_cases hnumeral : ∃ value, Numeral base text value
      · obtain ⟨value, hvalue⟩ := hnumeral
        have houtcome := hright value hvalue (hnot value hvalue)
        split_ifs at houtcome with hfits
        · exact ⟨value, hvalue, congrArg Prod.snd houtcome⟩
        · rw [houtcome] at hzero
          exact absurd hzero (by decide)
      · rw [hinvalid hne (not_exists.mp hnumeral)] at hzero
        exact absurd hzero (by decide)
    case range =>
      intro value hvalue hfits
      rw [hright value hvalue (hnot value hvalue), if_neg hfits]
    case invalid => exact hinvalid hne

end Outcomes

/-! ### The functions -/

section Functions

variable {type : IntegerType} {nptr : CString} {base : ℕ}

/-- The range of the types that are narrower than the conversion. -/
theorem range_of_narrow (hbits : type.bits ≤ 32) :
    -2 ^ 31 ≤ type.lower ∧ type.lower + type.modulus ≤ 2 ^ 32 := by
  obtain ⟨hlower, -⟩ := type.fits_zero
  have hmod : type.modulus ≤ 2 ^ 32 := pow_le_pow_right₀ (by decide) hbits
  refine ⟨?_, by omega⟩
  cases hsigned : type.signed with
  | false =>
      rw [IntegerType.lower_of_unsigned hsigned]
      decide
  | true =>
      have hhalf := IntegerType.modulus_of_signed hsigned
      omega

/-- The empty string is converted to a zero. -/
theorem kstrto_nil {convert : List Char → ℕ → ℤ × List Char} (hlow : 2 ≤ base) (hhigh : base ≤ 35)
    (hconvert : convert [] base = (0, [])) (hnil : nptr.text = []) :
    kstrto convert type nptr base = (0, 0) := by
  have hend : convert nptr.text base = (0, []) := by rw [hnil, hconvert]
  rw [kstrto_of_end hlow hhigh hend, if_pos type.fits_zero]

/-- The functions of the signed types are sound for every string but the empty one. -/
theorem signed_sound_iff (hlow : 2 ≤ base) (hhigh : base ≤ 35) (hbits : type.bits ≤ 32) :
    Sound (kstrto strtoll type nptr base) type nptr.text base ↔
      nptr.text ≠ [] ∧ ∀ value, Numeral base nptr.text value → ¬ False := by
  obtain ⟨hlower, hupper⟩ := range_of_narrow hbits
  apply sound_iff
  case hnil =>
    intro hnil
    rw [kstrto_nil hlow hhigh (strtoll_nil base) hnil]
  case hinvalid =>
    intro hne hnone
    rw [kstrto_of_not_numeral hlow hhigh (strtoll_snd _ _) hne hnone]
  case hright =>
    intro value hvalue _
    have hfits : type.Fits (max (-2 ^ 63) (min value (2 ^ 63 - 1))) ↔ type.Fits value := by
      unfold IntegerType.Fits
      omega
    rw [kstrto_of_end hlow hhigh (strtoll_of_numeral (by omega) hvalue)]
    simp only [hfits]
    split
    · rename_i hrange
      obtain ⟨hge, hlt⟩ := hrange
      rw [show max (-2 ^ 63) (min value (2 ^ 63 - 1)) = value by omega]
    · rfl
  case hwrong =>
    intro value hvalue hfalse
    exact hfalse.elim

/-- Those of the unsigned types take some numbers below zero for others. -/
theorem unsigned_sound_iff (hlow : 2 ≤ base) (hhigh : base ≤ 35) (hbits : type.bits ≤ 32)
    (hunsigned : type.signed = false) :
    Sound (kstrto strtoull type nptr base) type nptr.text base ↔
      nptr.text ≠ [] ∧ ∀ value, Numeral base nptr.text value →
        ¬ (-2 ^ 64 < value ∧ value < -2 ^ 64 + type.modulus) := by
  obtain ⟨-, hupper⟩ := range_of_narrow hbits
  have hlower := IntegerType.lower_of_unsigned hunsigned
  apply sound_iff
  case hnil =>
    intro hnil
    rw [kstrto_nil hlow hhigh (strtoull_nil base) hnil]
  case hinvalid =>
    intro hne hnone
    rw [kstrto_of_not_numeral hlow hhigh (strtoull_snd _ _) hne hnone]
  case hright =>
    intro value hvalue hmistake
    simp only [IntegerType.fits_iff_of_unsigned hunsigned]
    by_cases hlarge : value ≤ -2 ^ 64 ∨ 2 ^ 64 ≤ value
    · rw [kstrto_of_end hlow hhigh (strtoull_of_large (by omega) hvalue hlarge),
        if_neg (by rw [IntegerType.fits_iff_of_unsigned hunsigned]; omega), if_neg (by omega)]
    · rcases lt_or_ge value 0 with hneg | hnonneg
      · rw [kstrto_of_end hlow hhigh (strtoull_of_neg (by omega) hvalue hneg (by omega)),
          if_neg (by rw [IntegerType.fits_iff_of_unsigned hunsigned]; omega), if_neg (by omega)]
      · rw [kstrto_of_end hlow hhigh (strtoull_of_nonneg (by omega) hvalue hnonneg (by omega))]
        simp only [IntegerType.fits_iff_of_unsigned hunsigned]
  case hwrong =>
    rintro value hvalue ⟨hlt, hgt⟩
    have hfits : type.Fits (value + 2 ^ 64) :=
      (IntegerType.fits_iff_of_unsigned hunsigned).mpr ⟨by omega, by omega⟩
    rw [kstrto_of_end hlow hhigh (strtoull_of_neg (by omega) hvalue (by omega) hlt), if_pos hfits,
      IntegerType.fits_iff_of_unsigned hunsigned]
    exact ⟨rfl, by omega⟩

/-- `kstrtoul` of a string that is converted to its end. -/
theorem kstrtoul_of_end {value : ℤ} (hlow : 2 ≤ base) (hhigh : base ≤ 35)
    (hfits : unsignedLong.Fits value) (hconvert : strtoull nptr.text base = (value, [])) :
    kstrtoul nptr base = (0, value) := by
  obtain ⟨turns, hturns⟩ := longLong.exists_eq_convert_add value
  have hback : unsignedLong.convert (longLong.convert value) = value := by
    refine (IntegerType.convert_eq_iff hfits).mpr ⟨-turns, ?_⟩
    have hmod : longLong.modulus = unsignedLong.modulus := rfl
    rw [hmod] at hturns
    linear_combination -hturns
  rw [kstrtoul, if_neg (base_valid hlow hhigh), hconvert]
  simp [hback]

/-- `kstrtoul` takes every number out of its range for another. -/
theorem kstrtoul_sound_iff (hlow : 2 ≤ base) (hhigh : base ≤ 35) :
    Sound (kstrtoul nptr base) unsignedLong nptr.text base ↔
      nptr.text ≠ [] ∧ ∀ value, Numeral base nptr.text value →
        ¬ (value < 0 ∨ 2 ^ 64 ≤ value) := by
  have hrange (value : ℤ) : unsignedLong.Fits value ↔ 0 ≤ value ∧ value < 2 ^ 64 :=
    IntegerType.fits_iff_of_unsigned rfl
  apply sound_iff
  case hnil =>
    intro hnil
    have hend : strtoull nptr.text base = (0, []) := by rw [hnil, strtoull_nil]
    rw [kstrtoul_of_end hlow hhigh unsignedLong.fits_zero hend]
  case hinvalid =>
    intro hne hnone
    rw [kstrtoul, if_neg (base_valid hlow hhigh)]
    simp only [strtoull_snd]
    rw [if_pos (headD_of_not_numeral hhigh hne hnone)]
  case hright =>
    intro value hvalue hmistake
    have hfits : unsignedLong.Fits value := (hrange value).mpr (by omega)
    obtain ⟨hnonneg, hlt⟩ := (hrange value).mp hfits
    rw [kstrtoul_of_end hlow hhigh hfits (strtoull_of_nonneg (by omega) hvalue hnonneg hlt),
      if_pos hfits]
  case hwrong =>
    intro value hvalue hmistake
    obtain ⟨result, hresult, hbounds⟩ := strtoull_range (by omega) hvalue
    rw [kstrtoul_of_end hlow hhigh ((hrange result).mpr hbounds) hresult, hrange]
    exact ⟨rfl, by omega⟩

end Functions

/-- **Number parsing is sound** for the strings that are not empty, and not a number that the
function takes for another; for these it is not. -/
theorem parser_sound_iff (parser : Parser) (nptr : CString) (base : ℕ) (hlow : 2 ≤ base)
    (hhigh : base ≤ 35) :
    Sound (parser.run nptr base) parser.type nptr.text base ↔ parser.Meets nptr base := by
  cases parser with
  | s8 => exact signed_sound_iff hlow hhigh (by decide)
  | u8 => exact unsigned_sound_iff hlow hhigh (by decide) rfl
  | s16 => exact signed_sound_iff hlow hhigh (by decide)
  | u16 => exact unsigned_sound_iff hlow hhigh (by decide) rfl
  | int => exact signed_sound_iff hlow hhigh (by decide)
  | uint => exact unsigned_sound_iff hlow hhigh (by decide) rfl
  | ul => exact kstrtoul_sound_iff hlow hhigh

theorem parser_sound_iff_forty_two :
    Sound (Parser.u8.run ⟨['4', '2'], by decide⟩ 10) Parser.u8.type ['4', '2'] 10 ↔
      Parser.u8.Meets ⟨['4', '2'], by decide⟩ 10 :=
  parser_sound_iff .u8 ⟨['4', '2'], by decide⟩ 10 (by decide) (by decide)

/-- The empty string is read as a zero. -/
theorem parser_empty :
    ¬ ∀ (parser : Parser) (nptr : CString) (base : ℕ), 2 ≤ base → base ≤ 35 →
      Sound (parser.run nptr base) parser.type nptr.text base := by
  intro h
  have hsound := h .s8 ⟨[], by decide⟩ 10 (by decide) (by decide)
  obtain ⟨value, hvalue, -⟩ := hsound.success (by decide +kernel)
  exact not_numeral_nil value hvalue

-- A number below zero that `kstrtou8` takes for a one.
example : kstrtou8 ⟨"-18446744073709551615".toList, by decide⟩ 10 = (0, 1) := by decide +kernel

end Webcamd.Kernel.NumberParsing
