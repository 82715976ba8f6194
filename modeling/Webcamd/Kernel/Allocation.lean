import Mathlib

/-!
# Sizes of allocations

The functions of `kernel/linux_func.c` that multiply sizes, for a `size_t` of 64 bits.

* `mul_udiv_eq_iff` — a product that is divided by one factor gives the other one just if it has not
  wrapped around; all the functions rely on that.
* `kmallocArray` and those that call it — `neverUnderAllocates_iff`: the test for a wrap-around is
  not made where the product has wrapped around to zero.
* `arraySize`, `array3Size`, `structSizeSub` — `checkedSizes_spec`: they are exact, with `SIZE_MAX`
  for all that is more than `SSIZE_MAX`.
-/

namespace Webcamd.Kernel.Allocation

/-! ### Products that wrap around -/

section Products

variable {width : ℕ} {a b : BitVec width}

theorem toNat_eq_zero_iff : a.toNat = 0 ↔ a = 0 := by
  rw [← BitVec.toNat_inj]
  rfl

theorem toNat_pos_iff : 0 < a.toNat ↔ a ≠ 0 := by
  rw [Nat.pos_iff_ne_zero, ne_eq, toNat_eq_zero_iff]

/-- **Dividing back** finds out whether a product has wrapped around. -/
theorem mul_udiv_eq_iff (hb : b ≠ 0) : a * b / b = a ↔ a.toNat * b.toNat < 2 ^ width := by
  have hpos : 0 < b.toNat := toNat_pos_iff.mpr hb
  rw [← BitVec.toNat_inj, BitVec.toNat_udiv, BitVec.toNat_mul]
  constructor
  · intro heq
    calc a.toNat * b.toNat = a.toNat * b.toNat % 2 ^ width / b.toNat * b.toNat := by rw [heq]
      _ ≤ a.toNat * b.toNat % 2 ^ width := Nat.div_mul_le_self _ _
      _ < 2 ^ width := Nat.mod_lt _ (Nat.two_pow_pos width)
  · intro hlt
    rw [Nat.mod_eq_of_lt hlt, Nat.mul_div_cancel _ hpos]

theorem mul_udiv_left_eq_iff (ha : a ≠ 0) : a * b / a = b ↔ a.toNat * b.toNat < 2 ^ width := by
  rw [BitVec.mul_comm, mul_udiv_eq_iff ha, Nat.mul_comm]

theorem toNat_mul_of_lt (h : a.toNat * b.toNat < 2 ^ width) :
    (a * b).toNat = a.toNat * b.toNat := by
  rw [BitVec.toNat_mul, Nat.mod_eq_of_lt h]

end Products

/-! ### Allocations -/

/-- What is asked of the C library. -/
inductive Request where
  | malloc (n : BitVec 64)
  | calloc (count n : BitVec 64)
  deriving DecidableEq

/-- The number of bytes that is asked for. -/
def Request.bytes : Request → ℕ
  | malloc n => n.toNat
  | calloc count n => count.toNat * n.toNat

/-- `__GFP_ZERO` -/
def gfpZero : BitVec 32 := 1

/-- `kmalloc` -/
def kmalloc (n : BitVec 64) (flags : BitVec 32) : Request :=
  if flags &&& gfpZero ≠ 0 then Request.calloc 1 n else Request.malloc n

/-- `kmalloc_array`, which returns `NULL` at once or asks for memory -/
def kmallocArray (n s : BitVec 64) (flags : BitVec 32) : Option Request :=
  let total := n * s
  if total ≠ 0 ∧ total / n ≠ s then none else some (kmalloc total flags)

/-- `kcalloc` -/
def kcalloc (n size : BitVec 64) (flags : BitVec 32) : Option Request :=
  kmallocArray n size (flags ||| gfpZero)

/-- `BITS_TO_LONGS` of an `unsigned` -/
def bitsToLongs (n : BitVec 32) : BitVec 32 := (n + 64 - 1) / 64

/-- `bitmap_alloc`; `sizeof(long)` is 8. -/
def bitmapAlloc (nbits flags : BitVec 32) : Option Request :=
  kmallocArray ((bitsToLongs nbits).setWidth 64) 8 flags

/-- `bitmap_zalloc` -/
def bitmapZalloc (nbits flags : BitVec 32) : Option Request :=
  kmallocArray ((bitsToLongs nbits).setWidth 64) 8 (flags ||| gfpZero)

section Allocations

variable {n s : BitVec 64} {flags nbits : BitVec 32}

theorem bytes_kmalloc : (kmalloc n flags).bytes = n.toNat := by
  unfold kmalloc
  split
  · exact Nat.one_mul n.toNat
  · rfl

/-- An allocation asks for the wrapped product, if it asks for memory. -/
theorem kmallocArray_bytes {request : Request} (h : kmallocArray n s flags = some request) :
    request.bytes = n.toNat * s.toNat % 2 ^ 64 := by
  obtain ⟨-, hrequest⟩ := Option.ite_none_left_eq_some.mp h
  rw [← Option.some_inj.mp hrequest, bytes_kmalloc, BitVec.toNat_mul]

/-- `NULL` is for products that have wrapped around, but not to zero. -/
theorem kmallocArray_eq_none_iff : kmallocArray n s flags = none ↔
    2 ^ 64 ≤ n.toNat * s.toNat ∧ ¬ 2 ^ 64 ∣ n.toNat * s.toNat := by
  have hzero : n * s = 0 ↔ 2 ^ 64 ∣ n.toNat * s.toNat := by
    rw [← BitVec.toNat_inj, BitVec.toNat_mul]
    exact Nat.dvd_iff_mod_eq_zero.symm
  unfold kmallocArray
  dsimp only
  rw [ite_eq_left_iff]
  simp only [reduceCtorEq, imp_false, not_not]
  rw [ne_eq, hzero, and_comm]
  refine and_congr_left fun hne => ?_
  have hn : n ≠ 0 := by
    rintro rfl
    exact hne (by simp)
  rw [ne_eq, mul_udiv_left_eq_iff hn, not_lt]

/-- **The product is what is asked for** unless it wraps around to zero. -/
theorem kmallocArray_exact_iff :
    (∀ request, kmallocArray n s flags = some request →
      request.bytes = n.toNat * s.toNat) ↔
      (2 ^ 64 ∣ n.toNat * s.toNat → n.toNat * s.toNat = 0) := by
  constructor
  · intro h hdvd
    cases hresult : kmallocArray n s flags with
    | none => exact absurd hdvd (kmallocArray_eq_none_iff.mp hresult).2
    | some request =>
        rw [← h request hresult, kmallocArray_bytes hresult]
        exact Nat.mod_eq_zero_of_dvd hdvd
  · intro h request hresult
    rw [kmallocArray_bytes hresult]
    by_cases hdvd : 2 ^ 64 ∣ n.toNat * s.toNat
    · rw [h hdvd, Nat.zero_mod]
    · -- a product that has wrapped around, but not to zero, has been refused
      have hlt : n.toNat * s.toNat < 2 ^ 64 := by
        by_contra hle
        have hnone := (@kmallocArray_eq_none_iff n s flags).mpr ⟨not_lt.mp hle, hdvd⟩
        exact absurd (hnone.symm.trans hresult) (Option.some_ne_none request).symm
      exact Nat.mod_eq_of_lt hlt

theorem toNat_bitsToLongs : (bitsToLongs nbits).toNat = (nbits.toNat + 63) % 2 ^ 32 / 64 := by
  have hlt := nbits.isLt
  unfold bitsToLongs
  rw [BitVec.toNat_udiv, BitVec.toNat_sub, BitVec.toNat_add]
  show (2 ^ 32 - 1 + (nbits.toNat + 64) % 2 ^ 32) % 2 ^ 32 / 64 = _
  omega

/-- **A bitmap is allocated with all its words** unless their number wraps around. -/
theorem bitmapWords_exact_iff :
    (∀ request, kmallocArray ((bitsToLongs nbits).setWidth 64) 8 flags = some request →
      request.bytes = (nbits.toNat + 63) / 64 * 8) ↔ nbits.toNat ≤ 2 ^ 32 - 64 := by
  have hlt := nbits.isLt
  have hproduct : ((bitsToLongs nbits).setWidth 64).toNat * (8 : BitVec 64).toNat =
      (nbits.toNat + 63) % 2 ^ 32 / 64 * 8 := by
    rw [BitVec.toNat_setWidth, toNat_bitsToLongs]
    show (nbits.toNat + 63) % 2 ^ 32 / 64 % 2 ^ 64 * 8 = _
    omega
  constructor
  · intro h
    cases hresult : kmallocArray ((bitsToLongs nbits).setWidth 64) 8 flags with
    | none =>
        have hlarge := (kmallocArray_eq_none_iff.mp hresult).1
        rw [hproduct] at hlarge
        omega
    | some request =>
        have hbytes := kmallocArray_bytes hresult
        rw [h request hresult, hproduct] at hbytes
        omega
  · intro hfits request hresult
    rw [kmallocArray_bytes hresult, hproduct]
    omega

/-- What is asked for in place of an array: no less, and no more, than all its elements need. -/
structure NeverUnderAllocates (n s : BitVec 64) (nbits flags : BitVec 32) : Prop where
  kmallocArray : ∀ request, kmallocArray n s flags = some request →
    request.bytes = n.toNat * s.toNat
  kcalloc : ∀ request, kcalloc n s flags = some request → request.bytes = n.toNat * s.toNat
  bitmapAlloc : ∀ request, bitmapAlloc nbits flags = some request →
    request.bytes = (nbits.toNat + 63) / 64 * 8
  bitmapZalloc : ∀ request, bitmapZalloc nbits flags = some request →
    request.bytes = (nbits.toNat + 63) / 64 * 8

/-- **Arrays are allocated as a whole** just if their size does not wrap around to zero, and the
number of the words of a bitmap does not wrap around. -/
theorem neverUnderAllocates_iff (n s : BitVec 64) (nbits flags : BitVec 32) :
    NeverUnderAllocates n s nbits flags ↔
      (2 ^ 64 ∣ n.toNat * s.toNat → n.toNat * s.toNat = 0) ∧ nbits.toNat ≤ 2 ^ 32 - 64 := by
  constructor
  · intro h
    exact ⟨kmallocArray_exact_iff.mp h.kmallocArray, bitmapWords_exact_iff.mp h.bitmapAlloc⟩
  · rintro ⟨hproduct, hwords⟩
    exact ⟨kmallocArray_exact_iff.mpr hproduct, kmallocArray_exact_iff.mpr hproduct,
      bitmapWords_exact_iff.mpr hwords, bitmapWords_exact_iff.mpr hwords⟩

/-- Two factors of 2 ^ 32: no byte is asked for. -/
theorem square_not_allocated :
    ¬ NeverUnderAllocates (BitVec.twoPow 64 32) (BitVec.twoPow 64 32) 0 0 := by
  intro h
  have hrequest : kmallocArray (BitVec.twoPow 64 32) (BitVec.twoPow 64 32) 0 =
      some (Request.malloc 0) := by decide
  exact absurd (h.kmallocArray _ hrequest) (by decide)

end Allocations

/-! ### Checked sizes -/

/-- `SSIZE_MAX` -/
def ssizeMax : BitVec 64 := 0x7FFFFFFFFFFFFFFF

/-- `SIZE_MAX` -/
def sizeMax : BitVec 64 := 0xFFFFFFFFFFFFFFFF

/-- `array_size` -/
def arraySize (a b : BitVec 64) : BitVec 64 :=
  if a = 0 ∨ b = 0 then 0
  else
    let temp := a * b
    if temp / b ≠ a then sizeMax
    else if ssizeMax < temp then sizeMax
    else temp

/-- `array3_size` -/
def array3Size (a b c : BitVec 64) : BitVec 64 :=
  if a = 0 ∨ b = 0 ∨ c = 0 then 0
  else
    let temp := a * b
    if temp / b ≠ a then sizeMax
    else
      let a := temp
      let temp := a * c
      if temp / c ≠ a then sizeMax
      else if ssizeMax < temp then sizeMax
      else temp

/-- `struct_size_sub` -/
def structSizeSub (n mSize bSize : BitVec 64) : BitVec 64 :=
  if ssizeMax < n ∨ ssizeMax < mSize ∨ ssizeMax < bSize then sizeMax
  else if n ≠ 0 then
    let temp := n * mSize
    if temp / n ≠ mSize then sizeMax
    else if ssizeMax < temp then sizeMax
    else
      let temp := temp + bSize
      if ssizeMax < temp then sizeMax
      else temp
  else bSize

section Sizes

variable {a b c n mSize bSize : BitVec 64}

/-- A size, or the largest number in place of one that is too large. -/
def checkedSize (size : ℕ) : ℕ := if size ≤ ssizeMax.toNat then size else sizeMax.toNat

theorem checkedSize_of_lt {size : ℕ} (h : ssizeMax.toNat < size) :
    checkedSize size = sizeMax.toNat :=
  if_neg (not_le.mpr h)

/-- A product that has wrapped around is too large. -/
theorem checkedSize_of_wrapped {size : ℕ} (h : ¬ size < 2 ^ 64) :
    checkedSize size = sizeMax.toNat :=
  checkedSize_of_lt (ssizeMax.isLt.trans_le (not_lt.mp h))

/-- The last test of the three functions. -/
theorem toNat_clamp (temp : BitVec 64) :
    (if ssizeMax < temp then sizeMax else temp).toNat = checkedSize temp.toNat := by
  unfold checkedSize
  by_cases hlarge : ssizeMax < temp
  · rw [if_pos hlarge, if_neg (not_le.mpr (BitVec.lt_def.mp hlarge))]
  · rw [if_neg hlarge, if_pos (not_lt.mp (mt BitVec.lt_def.mpr hlarge))]

theorem arraySize_spec : (arraySize a b).toNat = checkedSize (a.toNat * b.toNat) := by
  unfold arraySize
  by_cases hzero : a = 0 ∨ b = 0
  · rw [if_pos hzero]
    have hproduct : a.toNat * b.toNat = 0 := by
      simp only [Nat.mul_eq_zero, toNat_eq_zero_iff]
      exact hzero
    rw [hproduct]
    rfl
  · rw [if_neg hzero]
    have hdiv := @mul_udiv_eq_iff 64 a b (not_or.mp hzero).2
    dsimp only
    by_cases hlt : a.toNat * b.toNat < 2 ^ 64
    · rw [if_neg (not_not.mpr (hdiv.mpr hlt)), toNat_clamp, toNat_mul_of_lt hlt]
    · rw [if_pos (mt hdiv.mp hlt), checkedSize_of_wrapped hlt]

theorem array3Size_spec :
    (array3Size a b c).toNat = checkedSize (a.toNat * b.toNat * c.toNat) := by
  unfold array3Size
  by_cases hzero : a = 0 ∨ b = 0 ∨ c = 0
  · rw [if_pos hzero]
    have hproduct : a.toNat * b.toNat * c.toNat = 0 := by
      simp only [Nat.mul_eq_zero, or_assoc, toNat_eq_zero_iff]
      exact hzero
    rw [hproduct]
    rfl
  · rw [if_neg hzero]
    obtain ⟨-, hb, hc⟩ := not_or.mp hzero |>.imp_right not_or.mp
    have hdiv := @mul_udiv_eq_iff 64 a b hb
    dsimp only
    by_cases hlt : a.toNat * b.toNat < 2 ^ 64
    · -- the first product is exact, and the second stage is that of two factors
      have hdiv' := @mul_udiv_eq_iff 64 (a * b) c hc
      rw [if_neg (not_not.mpr (hdiv.mpr hlt)), ← toNat_mul_of_lt hlt]
      by_cases hlt' : (a * b).toNat * c.toNat < 2 ^ 64
      · rw [if_neg (not_not.mpr (hdiv'.mpr hlt')), toNat_clamp, toNat_mul_of_lt hlt']
      · rw [if_pos (mt hdiv'.mp hlt'), checkedSize_of_wrapped hlt']
    · -- the third factor is not zero, and the product is even larger
      have hmore : a.toNat * b.toNat ≤ a.toNat * b.toNat * c.toNat :=
        Nat.le_mul_of_pos_right _ (toNat_pos_iff.mpr hc)
      rw [if_pos (mt hdiv.mp hlt), checkedSize_of_wrapped fun hless => hlt (hmore.trans_lt hless)]

theorem structSizeSub_spec (hone : 1 ≤ mSize.toNat) (hmax : mSize.toNat ≤ ssizeMax.toNat) :
    (structSizeSub n mSize bSize).toNat =
      checkedSize (n.toNat * mSize.toNat + bSize.toNat) := by
  unfold structSizeSub
  by_cases hlarge : ssizeMax < n ∨ ssizeMax < mSize ∨ ssizeMax < bSize
  · rw [if_pos hlarge]
    refine (checkedSize_of_lt ?_).symm
    simp only [BitVec.lt_def] at hlarge
    have hle : n.toNat ≤ n.toNat * mSize.toNat := Nat.le_mul_of_pos_right _ hone
    omega
  · rw [if_neg hlarge]
    obtain ⟨hn, -, hb⟩ := not_or.mp hlarge |>.imp_right not_or.mp
    rw [BitVec.lt_def, not_lt] at hn hb
    by_cases hzero : n = 0
    · subst hzero
      have hsum : (0 : BitVec 64).toNat * mSize.toNat + bSize.toNat = bSize.toNat := by
        rw [toNat_eq_zero_iff.mpr rfl, Nat.zero_mul, Nat.zero_add]
      rw [if_neg (not_not.mpr rfl), hsum]
      exact (if_pos hb).symm
    · rw [if_pos hzero]
      have hdiv := @mul_udiv_left_eq_iff 64 n mSize hzero
      dsimp only
      by_cases hlt : n.toNat * mSize.toNat < 2 ^ 64
      · rw [if_neg (not_not.mpr (hdiv.mpr hlt))]
        have htoNat := toNat_mul_of_lt hlt
        by_cases htemp : ssizeMax < n * mSize
        · have hover := BitVec.lt_def.mp htemp
          rw [if_pos htemp, checkedSize_of_lt (by omega)]
        · -- two numbers of at most `SSIZE_MAX` can be added
          have hsum : (n * mSize + bSize).toNat = n.toNat * mSize.toNat + bSize.toNat := by
            rw [BitVec.lt_def, not_lt] at htemp
            have hlimit : ssizeMax.toNat = 2 ^ 63 - 1 := rfl
            rw [BitVec.toNat_add, htoNat, Nat.mod_eq_of_lt]
            omega
          rw [if_neg htemp, toNat_clamp, hsum]
      · rw [if_pos (mt hdiv.mp hlt), checkedSize_of_wrapped (by omega)]

/-- **The checked sizes are exact** up to `SSIZE_MAX`, and `SIZE_MAX` above. -/
theorem checkedSizes_spec (a b c n mSize bSize : BitVec 64) (hone : 1 ≤ mSize.toNat)
    (hmax : mSize.toNat ≤ ssizeMax.toNat) :
    (arraySize a b).toNat = checkedSize (a.toNat * b.toNat) ∧
      (array3Size a b c).toNat = checkedSize (a.toNat * b.toNat * c.toNat) ∧
      (structSizeSub n mSize bSize).toNat =
        checkedSize (n.toNat * mSize.toNat + bSize.toNat) :=
  ⟨arraySize_spec, array3Size_spec, structSizeSub_spec hone hmax⟩

/-- Sizes of three, five and seven, and an array of two elements of nine bytes. -/
theorem checkedSizes_spec_small :
    (arraySize 3 5).toNat = checkedSize ((3 : BitVec 64).toNat * (5 : BitVec 64).toNat) ∧
      (array3Size 3 5 7).toNat = checkedSize
        ((3 : BitVec 64).toNat * (5 : BitVec 64).toNat * (7 : BitVec 64).toNat) ∧
      (structSizeSub 2 9 16).toNat = checkedSize
        ((2 : BitVec 64).toNat * (9 : BitVec 64).toNat + (16 : BitVec 64).toNat) :=
  checkedSizes_spec 3 5 7 2 9 16 (by decide) (by decide)

end Sizes

end Webcamd.Kernel.Allocation
