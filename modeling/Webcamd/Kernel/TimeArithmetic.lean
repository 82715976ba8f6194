import Mathlib

/-!
# Time arithmetic

The sums and differences of times of `kernel/linux_func.c`.  A time is a number of seconds and a
number of nanoseconds, both words of 64 bits; the sums of words wrap around.

* `ofNanos` — the normalised time of a number of nanoseconds, which stands for all results.
* `carry_eq`, `borrow_eq` — one carry or borrow is enough.
* `ktimeAdd_eq` and the lemmas after it — each operation is the normalised time of the exact total.
* `nsec_ofNanos` — that time is exact when its seconds are in range.
* `time_arithmetic` — the arithmetic, the comparison and the conversions.
-/

namespace Webcamd.Kernel.TimeArithmetic

/-- `struct timespec` -/
@[ext]
structure Timespec where
  tvSec : BitVec 64
  tvNsec : BitVec 64
deriving DecidableEq

/-- The nanoseconds are below a second. -/
def Timespec.Normalised (ts : Timespec) : Prop :=
  0 ≤ ts.tvNsec.toInt ∧ ts.tvNsec.toInt < 1000000000

/-- The time as a number of nanoseconds. -/
def Timespec.nsec (ts : Timespec) : ℤ := ts.tvSec.toInt * 1000000000 + ts.tvNsec.toInt

/-- `ktime_to_ns` -/
def ktimeToNs (ts : Timespec) : BitVec 64 := ts.tvSec * 1000000000 + ts.tvNsec

/-- `timespec_to_ns` -/
def timespecToNs (ts : Timespec) : BitVec 64 := ts.tvSec * 1000000000 + ts.tvNsec

/-- The end of the differences: a second is taken for nanoseconds below zero. -/
def borrow (r : Timespec) : Timespec :=
  if r.tvNsec.toInt < 0 then ⟨r.tvSec - 1, r.tvNsec + 1000000000⟩ else r

/-- The end of the sums: nanoseconds that make a second are carried. -/
def carry (r : Timespec) : Timespec :=
  if 1000000000 ≤ r.tvNsec.toInt then ⟨r.tvSec + 1, r.tvNsec - 1000000000⟩ else r

/-- `ktime_sub` -/
def ktimeSub (a b : Timespec) : Timespec :=
  borrow ⟨a.tvSec - b.tvSec, a.tvNsec - b.tvNsec⟩

/-- `ktime_add` -/
def ktimeAdd (a b : Timespec) : Timespec :=
  carry ⟨a.tvSec + b.tvSec, a.tvNsec + b.tvNsec⟩

/-- `timespec_add` -/
def timespecAdd (vvp uvp : Timespec) : Timespec :=
  carry ⟨vvp.tvSec + uvp.tvSec, vvp.tvNsec + uvp.tvNsec⟩

/-- `timespec_sub` -/
def timespecSub (vvp uvp : Timespec) : Timespec :=
  borrow ⟨vvp.tvSec - uvp.tvSec, vvp.tvNsec - uvp.tvNsec⟩

/-- `ktime_add_us` -/
def ktimeAddUs (t : Timespec) (usec : BitVec 64) : Timespec :=
  timespecAdd t ⟨usec / 1000000, 1000 * (usec % 1000000)⟩

/-- `ktime_compare` -/
def ktimeCompare (a b : Timespec) : ℤ :=
  if a.tvSec = b.tvSec then
    if b.tvNsec.toInt < a.tvNsec.toInt then 1
    else if a.tvNsec.toInt < b.tvNsec.toInt then -1
    else 0
  else if b.tvSec.toInt < a.tvSec.toInt then 1
  else if a.tvSec.toInt < b.tvSec.toInt then -1
  else 0

/-- `ns_to_timespec`: the remainder is kept in an `int32_t`. -/
def nsToTimespec (nsec : BitVec 64) : Timespec :=
  if nsec = 0 then ⟨0, 0⟩
  else
    let sec := nsec.sdiv 1000000000
    let rem : BitVec 32 := (nsec.srem 1000000000).setWidth 32
    if rem.toInt < 0 then ⟨sec - 1, (rem + 1000000000).signExtend 64⟩
    else ⟨sec, rem.signExtend 64⟩

/-! ### Normalised times -/

/-- **The normalised time** of a number of nanoseconds. -/
def ofNanos (total : ℤ) : Timespec :=
  ⟨BitVec.ofInt 64 (total / 1000000000), BitVec.ofInt 64 (total % 1000000000)⟩

/-- The seconds of a number of nanoseconds are in range. -/
def SecondsFit (total : ℤ) : Prop :=
  -2 ^ 63 ≤ total / 1000000000 ∧ total / 1000000000 < 2 ^ 63

theorem ofInt_sub (x y : ℤ) :
    BitVec.ofInt 64 (x - y) = BitVec.ofInt 64 x - BitVec.ofInt 64 y := by
  apply BitVec.eq_of_toInt_eq
  rw [BitVec.toInt_sub, BitVec.toInt_ofInt, BitVec.toInt_ofInt, BitVec.toInt_ofInt]
  exact (Int.bmod_sub_bmod.trans (Int.sub_bmod_bmod)).symm

theorem toInt_ofInt_of_range {value : ℤ} (hlow : -2 ^ 63 ≤ value) (hhigh : value < 2 ^ 63) :
    (BitVec.ofInt 64 value).toInt = value :=
  BitVec.toInt_ofInt_eq_self (by decide) hlow hhigh

theorem toInt_tvNsec_ofNanos (total : ℤ) :
    (ofNanos total).tvNsec.toInt = total % 1000000000 :=
  toInt_ofInt_of_range (by omega) (by omega)

theorem normalised_ofNanos (total : ℤ) : (ofNanos total).Normalised := by
  unfold Timespec.Normalised
  rw [toInt_tvNsec_ofNanos]
  omega

/-- It is exact when its seconds are in range. -/
theorem nsec_ofNanos {total : ℤ} (hfit : SecondsFit total) : (ofNanos total).nsec = total := by
  have hsec : (ofNanos total).tvSec.toInt = total / 1000000000 :=
    toInt_ofInt_of_range hfit.1 hfit.2
  unfold Timespec.nsec
  rw [hsec, toInt_tvNsec_ofNanos]
  omega

/-- Its nanoseconds, as a word, are right in any case. -/
theorem ktimeToNs_ofNanos (total : ℤ) : ktimeToNs (ofNanos total) = BitVec.ofInt 64 total := by
  have htotal : total / 1000000000 * 1000000000 + total % 1000000000 = total := by omega
  calc ktimeToNs (ofNanos total)
      = BitVec.ofInt 64 (total / 1000000000) * BitVec.ofInt 64 1000000000 +
          BitVec.ofInt 64 (total % 1000000000) := rfl
    _ = BitVec.ofInt 64 (total / 1000000000 * 1000000000 + total % 1000000000) := by
        rw [BitVec.ofInt_add, BitVec.ofInt_mul]
    _ = BitVec.ofInt 64 total := by rw [htotal]

/-- The fields of the normalised time, from seconds and nanoseconds below one second. -/
theorem ofNanos_add {sec nsec : ℤ} (hnonneg : 0 ≤ nsec) (hlt : nsec < 1000000000) :
    ofNanos (sec * 1000000000 + nsec) = ⟨BitVec.ofInt 64 sec, BitVec.ofInt 64 nsec⟩ := by
  have hsec : (sec * 1000000000 + nsec) / 1000000000 = sec := by omega
  have hnsec : (sec * 1000000000 + nsec) % 1000000000 = nsec := by omega
  rw [ofNanos, hsec, hnsec]

/-- A normalised time is the one of its nanoseconds. -/
theorem ofNanos_nsec {ts : Timespec} (h : ts.Normalised) : ofNanos ts.nsec = ts := by
  obtain ⟨hnonneg, hlt⟩ := h
  rw [Timespec.nsec, ofNanos_add hnonneg hlt, BitVec.ofInt_toInt, BitVec.ofInt_toInt]

/-! ### Carry and borrow -/

/-- **One carry is enough** for nanoseconds below two seconds. -/
theorem carry_eq {sec nsec : ℤ} (hnonneg : 0 ≤ nsec) (hlt : nsec < 2000000000) :
    carry ⟨BitVec.ofInt 64 sec, BitVec.ofInt 64 nsec⟩ = ofNanos (sec * 1000000000 + nsec) := by
  have hword : (BitVec.ofInt 64 nsec).toInt = nsec := toInt_ofInt_of_range (by omega) (by omega)
  unfold carry
  simp only [hword]
  split
  · have htotal : sec * 1000000000 + nsec = (sec + 1) * 1000000000 + (nsec - 1000000000) := by
      ring
    rw [htotal, ofNanos_add (by omega) (by omega), BitVec.ofInt_add, ofInt_sub]
    rfl
  · rw [ofNanos_add hnonneg (by omega)]

/-- **One borrow is enough** for nanoseconds above minus one second. -/
theorem borrow_eq {sec nsec : ℤ} (hlow : -1000000000 ≤ nsec) (hlt : nsec < 1000000000) :
    borrow ⟨BitVec.ofInt 64 sec, BitVec.ofInt 64 nsec⟩ = ofNanos (sec * 1000000000 + nsec) := by
  have hword : (BitVec.ofInt 64 nsec).toInt = nsec := toInt_ofInt_of_range (by omega) (by omega)
  unfold borrow
  simp only [hword]
  split
  · have htotal : sec * 1000000000 + nsec = (sec - 1) * 1000000000 + (nsec + 1000000000) := by
      ring
    rw [htotal, ofNanos_add (by omega) (by omega), BitVec.ofInt_add, ofInt_sub]
    rfl
  · rw [ofNanos_add (by omega) hlt]

/-! ### The operations -/

section Operations

variable {a b : Timespec}

/-- The fields of a sum, before the carry. -/
theorem fields_add (a b : Timespec) :
    (⟨a.tvSec + b.tvSec, a.tvNsec + b.tvNsec⟩ : Timespec) =
      ⟨BitVec.ofInt 64 (a.tvSec.toInt + b.tvSec.toInt),
        BitVec.ofInt 64 (a.tvNsec.toInt + b.tvNsec.toInt)⟩ := by
  simp only [BitVec.ofInt_add, BitVec.ofInt_toInt]

/-- The fields of a difference, before the borrow. -/
theorem fields_sub (a b : Timespec) :
    (⟨a.tvSec - b.tvSec, a.tvNsec - b.tvNsec⟩ : Timespec) =
      ⟨BitVec.ofInt 64 (a.tvSec.toInt - b.tvSec.toInt),
        BitVec.ofInt 64 (a.tvNsec.toInt - b.tvNsec.toInt)⟩ := by
  simp only [ofInt_sub, BitVec.ofInt_toInt]

/-- **A sum** is the normalised time of the exact total. -/
theorem ktimeAdd_eq (ha : a.Normalised) (hb : b.Normalised) :
    ktimeAdd a b = ofNanos (a.nsec + b.nsec) := by
  obtain ⟨ha0, ha1⟩ := ha
  obtain ⟨hb0, hb1⟩ := hb
  rw [ktimeAdd, fields_add, carry_eq (by omega) (by omega)]
  congr 1
  unfold Timespec.nsec
  ring

theorem timespecAdd_eq (ha : a.Normalised) (hb : b.Normalised) :
    timespecAdd a b = ofNanos (a.nsec + b.nsec) := ktimeAdd_eq ha hb

/-- **A difference** is the normalised time of the exact total. -/
theorem ktimeSub_eq (ha : a.Normalised) (hb : b.Normalised) :
    ktimeSub a b = ofNanos (a.nsec - b.nsec) := by
  obtain ⟨ha0, ha1⟩ := ha
  obtain ⟨hb0, hb1⟩ := hb
  rw [ktimeSub, fields_sub, borrow_eq (by omega) (by omega)]
  congr 1
  unfold Timespec.nsec
  ring

theorem timespecSub_eq (ha : a.Normalised) (hb : b.Normalised) :
    timespecSub a b = ofNanos (a.nsec - b.nsec) := ktimeSub_eq ha hb

/-- The time of a number of microseconds. -/
theorem micros_spec (usec : BitVec 64) :
    let temp : Timespec := ⟨usec / 1000000, 1000 * (usec % 1000000)⟩
    temp.Normalised ∧ temp.nsec = usec.toNat * 1000 := by
  intro temp
  have hlt := usec.isLt
  have hsec : temp.tvSec.toNat = usec.toNat / 1000000 := BitVec.toNat_udiv
  have hnsec : temp.tvNsec.toNat = 1000 * (usec.toNat % 1000000) := by
    show (1000 * (usec % 1000000)).toNat = _
    rw [BitVec.toNat_mul, BitVec.toNat_umod]
    exact Nat.mod_eq_of_lt (by simp; omega)
  have hsecInt : temp.tvSec.toInt = temp.tvSec.toNat :=
    BitVec.toInt_eq_toNat_of_lt (by omega)
  have hnsecInt : temp.tvNsec.toInt = temp.tvNsec.toNat :=
    BitVec.toInt_eq_toNat_of_lt (by omega)
  unfold Timespec.Normalised Timespec.nsec
  rw [hsecInt, hnsecInt, hsec, hnsec]
  omega

theorem ktimeAddUs_eq (ha : a.Normalised) (usec : BitVec 64) :
    ktimeAddUs a usec = ofNanos (a.nsec + usec.toNat * 1000) := by
  obtain ⟨htemp, hnsec⟩ := micros_spec usec
  rw [ktimeAddUs, timespecAdd_eq ha htemp, hnsec]

/-- **The comparison** is the sign of the difference. -/
theorem ktimeCompare_eq (ha : a.Normalised) (hb : b.Normalised) :
    ktimeCompare a b = (a.nsec - b.nsec).sign := by
  obtain ⟨ha0, ha1⟩ := ha
  obtain ⟨hb0, hb1⟩ := hb
  unfold ktimeCompare Timespec.nsec
  simp only [← BitVec.toInt_inj]
  split_ifs with hsec hgt hlt hgt hlt
  · exact (Int.sign_eq_one_of_pos (by omega)).symm
  · exact (Int.sign_eq_neg_one_of_neg (by omega)).symm
  · exact (Int.sign_eq_zero_iff_zero.mpr (by omega)).symm
  · exact (Int.sign_eq_one_of_pos (by omega)).symm
  · exact (Int.sign_eq_neg_one_of_neg (by omega)).symm
  · omega

/-- A number that fits into an `int32_t` gets through one. -/
theorem signExtend_ofInt {value : ℤ} (hlow : -2 ^ 31 ≤ value) (hhigh : value < 2 ^ 31) :
    (BitVec.ofInt 32 value).signExtend 64 = BitVec.ofInt 64 value := by
  apply BitVec.eq_of_toInt_eq
  rw [BitVec.toInt_signExtend_of_le (by decide), toInt_ofInt_of_range (by omega) (by omega)]
  exact BitVec.toInt_ofInt_eq_self (by decide) hlow hhigh

theorem setWidth_ofInt (value : ℤ) :
    (BitVec.ofInt 64 value).setWidth 32 = BitVec.ofInt 32 value := by
  apply BitVec.eq_of_toNat_eq
  rw [BitVec.toNat_setWidth, BitVec.toNat_ofInt, BitVec.toNat_ofInt]
  omega

/-- **The conversion of nanoseconds** is their normalised time. -/
theorem nsToTimespec_eq (nsec : BitVec 64) : nsToTimespec nsec = ofNanos nsec.toInt := by
  unfold nsToTimespec
  split
  · rename_i hzero
    rw [hzero]
    rfl
  · have hlt : nsec.toInt.tmod 1000000000 < 1000000000 := Int.tmod_lt_of_pos _ (by decide)
    have hgt : -1000000000 < nsec.toInt.tmod 1000000000 := Int.lt_tmod_of_pos _ (by decide)
    have hsec : nsec.sdiv 1000000000 = BitVec.ofInt 64 (nsec.toInt.tdiv 1000000000) := by
      rw [← BitVec.ofInt_toInt (x := nsec.sdiv 1000000000),
        BitVec.toInt_sdiv_of_ne_or_ne _ _ (Or.inr (by decide))]
      rfl
    have hsrem : nsec.srem 1000000000 = BitVec.ofInt 64 (nsec.toInt.tmod 1000000000) := by
      rw [← BitVec.ofInt_toInt (x := nsec.srem 1000000000), BitVec.toInt_srem]
      rfl
    have hrem : ((nsec.srem 1000000000).setWidth 32 : BitVec 32) =
        BitVec.ofInt 32 (nsec.toInt.tmod 1000000000) := by
      rw [hsrem, setWidth_ofInt]
    have hvalue : (BitVec.ofInt 32 (nsec.toInt.tmod 1000000000)).toInt =
        nsec.toInt.tmod 1000000000 :=
      BitVec.toInt_ofInt_eq_self (by decide) (by omega) (by omega)
    simp only [hrem, hsec, hvalue]
    -- truncated division by a second, which needs a borrow below zero
    have htotal := Int.tdiv_mul_add_tmod nsec.toInt 1000000000
    split
    · rename_i hneg
      have hborrow : nsec.toInt = (nsec.toInt.tdiv 1000000000 - 1) * 1000000000 +
          (nsec.toInt.tmod 1000000000 + 1000000000) := by
        rw [sub_mul]
        omega
      have hsum : BitVec.ofInt 32 (nsec.toInt.tmod 1000000000) + 1000000000 =
          BitVec.ofInt 32 (nsec.toInt.tmod 1000000000 + 1000000000) := by
        rw [BitVec.ofInt_add]
        rfl
      conv_rhs => rw [hborrow]
      rw [ofNanos_add (by omega) (by omega), hsum, signExtend_ofInt (by omega) (by omega),
        ofInt_sub]
      rfl
    · rename_i hneg
      conv_rhs => rw [← htotal]
      rw [ofNanos_add (not_lt.mp hneg) hlt, signExtend_ofInt (by omega) (by omega)]

end Operations

/-! ### The whole of the arithmetic -/

/-- **Exact**: the result is normalised, and it is the total, as a number and, where that is one of
64 bits, by `ktime_to_ns`. -/
structure Exact (r : Timespec) (total : ℤ) : Prop where
  normalised : r.Normalised
  nsec : r.nsec = total
  word : ktimeToNs r = BitVec.ofInt 64 total
  value : -2 ^ 63 ≤ total → total < 2 ^ 63 → (ktimeToNs r).toInt = total

theorem exact_ofNanos {total : ℤ} (hfit : SecondsFit total) : Exact (ofNanos total) total where
  normalised := normalised_ofNanos total
  nsec := nsec_ofNanos hfit
  word := ktimeToNs_ofNanos total
  value := by
    intro hlow hhigh
    rw [ktimeToNs_ofNanos, toInt_ofInt_of_range hlow hhigh]

/-- **Time arithmetic is exact.**  Sums and differences of normalised times are exact where the
seconds do not overflow, the comparison is the sign of the difference, and the conversions of
nanoseconds are inverse to each other. -/
theorem time_arithmetic {a b : Timespec} (ha : a.Normalised) (hb : b.Normalised) :
    (SecondsFit (a.nsec + b.nsec) →
        Exact (ktimeAdd a b) (a.nsec + b.nsec) ∧ Exact (timespecAdd a b) (a.nsec + b.nsec)) ∧
      (SecondsFit (a.nsec - b.nsec) →
        Exact (ktimeSub a b) (a.nsec - b.nsec) ∧ Exact (timespecSub a b) (a.nsec - b.nsec)) ∧
      (∀ usec : BitVec 64, SecondsFit (a.nsec + usec.toNat * 1000) →
        Exact (ktimeAddUs a usec) (a.nsec + usec.toNat * 1000)) ∧
      ktimeCompare a b = (a.nsec - b.nsec).sign ∧
      (∀ nsec : BitVec 64, |nsec.toInt| < 2 ^ 62 →
        (nsToTimespec nsec).Normalised ∧ (nsToTimespec nsec).nsec = nsec.toInt ∧
          timespecToNs (nsToTimespec nsec) = nsec) ∧
      (|a.nsec| < 2 ^ 62 →
        (timespecToNs a).toInt = a.nsec ∧ nsToTimespec (timespecToNs a) = a) := by
  refine ⟨?_, ?_, ?_, ktimeCompare_eq ha hb, ?_, ?_⟩
  · intro hfit
    rw [timespecAdd_eq ha hb, ktimeAdd_eq ha hb]
    exact ⟨exact_ofNanos hfit, exact_ofNanos hfit⟩
  · intro hfit
    rw [timespecSub_eq ha hb, ktimeSub_eq ha hb]
    exact ⟨exact_ofNanos hfit, exact_ofNanos hfit⟩
  · intro usec hfit
    rw [ktimeAddUs_eq ha]
    exact exact_ofNanos hfit
  · intro nsec hsmall
    obtain ⟨hlow, hhigh⟩ := abs_lt.mp hsmall
    have hexact := @exact_ofNanos nsec.toInt ⟨by omega, by omega⟩
    rw [nsToTimespec_eq]
    exact ⟨hexact.normalised, hexact.nsec, hexact.word.trans BitVec.ofInt_toInt⟩
  · intro hsmall
    obtain ⟨hlow, hhigh⟩ := abs_lt.mp hsmall
    have hword : timespecToNs a = BitVec.ofInt 64 a.nsec := by
      have hnanos := ktimeToNs_ofNanos a.nsec
      rwa [ofNanos_nsec ha] at hnanos
    have hvalue : (timespecToNs a).toInt = a.nsec := by
      rw [hword, toInt_ofInt_of_range (by omega) (by omega)]
    rw [nsToTimespec_eq, hvalue, ofNanos_nsec ha]
    exact ⟨rfl, rfl⟩

/-- Minus half a second and three quarters of one: the sum has a carry, and the difference a
borrow. -/
theorem time_arithmetic_half :
    Exact (ktimeAdd ⟨-1, 500000000⟩ ⟨0, 750000000⟩) 250000000 ∧
      Exact (ktimeSub ⟨-1, 500000000⟩ ⟨0, 750000000⟩) (-1250000000) ∧
      ktimeCompare ⟨-1, 500000000⟩ ⟨0, 750000000⟩ = -1 := by
  obtain ⟨hadd, hsub, -, hcompare, -⟩ :=
    @time_arithmetic ⟨-1, 500000000⟩ ⟨0, 750000000⟩ ⟨by decide, by decide⟩ ⟨by decide, by decide⟩
  have hsum : Timespec.nsec ⟨-1, 500000000⟩ + Timespec.nsec ⟨0, 750000000⟩ = 250000000 := by decide
  have hdiff : Timespec.nsec ⟨-1, 500000000⟩ - Timespec.nsec ⟨0, 750000000⟩ = -1250000000 := by
    decide
  rw [hsum] at hadd
  rw [hdiff] at hsub hcompare
  exact ⟨(hadd ⟨by decide, by decide⟩).1, (hsub ⟨by decide, by decide⟩).1, hcompare⟩

end Webcamd.Kernel.TimeArithmetic
