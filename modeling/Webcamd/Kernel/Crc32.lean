import Mathlib
import Webcamd.Library.ShiftRegister

/-!
# The CRC-32 routines

The two routines of `kernel/linux_func.c`, as shift registers of 32 bits: `crc32_le` takes a byte at
the low end and moves to the right, `crc32_be` takes it at the high end and moves to the left.

* `crc32LeByte_eq`, `crc32BeByte_eq` — a byte of the source's loop is a block of the register.
* `bitrev8_eq` — the three exchanges of `bitrev8` reverse the byte.
* `crc32_dual` — the routines are duals under bit reversal, and both can be continued.
-/

namespace Webcamd.Kernel.Crc32

open Library

/-- `CRCPOLY_LE`. -/
def crcPolyLe : BitVec 32 := 0xedb88320

/-- `CRCPOLY_BE`. -/
def crcPolyBe : BitVec 32 := 0x04c11db7

/-- `bitrev8`: neighbouring bits, pairs and halves change places. -/
def bitrev8 (a : BitVec 8) : BitVec 8 :=
  let a := ((a &&& 0x55) <<< 1) ||| ((a &&& 0xAA) >>> 1)
  let a := ((a &&& 0x33) <<< 2) ||| ((a &&& 0xCC) >>> 2)
  ((a &&& 0x0F) <<< 4) ||| ((a &&& 0xF0) >>> 4)

/-- The body of the inner loop of `crc32_le`. -/
def crc32LeStep (crc : BitVec 32) : BitVec 32 :=
  (crc >>> 1) ^^^ (if crc &&& 1 ≠ 0 then crcPolyLe else 0)

/-- The body of the outer loop of `crc32_le`. -/
def crc32LeByte (crc : BitVec 32) (byte : BitVec 8) : BitVec 32 :=
  crc32LeStep^[8] (crc ^^^ byte.setWidth 32)

/-- `crc32_le`, on the `len` bytes from `p` on. -/
def crc32Le (crc : BitVec 32) (p : List (BitVec 8)) : BitVec 32 := p.foldl crc32LeByte crc

/-- The body of the inner loop of `crc32_be`. -/
def crc32BeStep (crc : BitVec 32) : BitVec 32 :=
  (crc <<< 1) ^^^ (if crc &&& 0x80000000 ≠ 0 then crcPolyBe else 0)

/-- The body of the outer loop of `crc32_be`. -/
def crc32BeByte (crc : BitVec 32) (byte : BitVec 8) : BitVec 32 :=
  crc32BeStep^[8] (crc ^^^ byte.setWidth 32 <<< 24)

/-- `crc32_be`, on the `len` bytes from `p` on. -/
def crc32Be (crc : BitVec 32) (p : List (BitVec 8)) : BitVec 32 := p.foldl crc32BeByte crc

-- The check value of the CRC-32 in common use, before its final complement.
example : crc32Le 0xffffffff [0x31, 0x32, 0x33, 0x34, 0x35, 0x36, 0x37, 0x38, 0x39] =
    ~~~0xcbf43926 := by decide +kernel

/-! ### The routines as registers -/

theorem crcPolyLe_reverse : crcPolyLe.reverse = crcPolyBe := by decide +kernel

/-- The test of the low bit. -/
theorem and_one_ne_zero (crc : BitVec 32) : crc &&& 1 ≠ 0 ↔ crc.getLsbD 0 = true := by
  have hmask : crc &&& 1 = BitVec.setWidth 32 (BitVec.ofBool (crc.getLsbD 0)) :=
    BitVec.and_one_eq_setWidth_ofBool_getLsbD
  rw [hmask]
  cases crc.getLsbD 0 <;> decide

/-- The test of the high bit. -/
theorem and_high_ne_zero (crc : BitVec 32) : crc &&& 0x80000000 ≠ 0 ↔ crc.msb = true := by
  have hmask : (0x80000000 : BitVec 32) = BitVec.twoPow 32 31 := by decide
  have hmsb : crc.msb = crc.getLsbD 31 := by rw [BitVec.msb_eq_getLsbD_last]
  rw [hmask, BitVec.and_twoPow, hmsb]
  cases crc.getLsbD 31 <;> decide

theorem crc32LeStep_eq : crc32LeStep = shiftLow crcPolyLe := by
  funext crc
  unfold crc32LeStep shiftLow
  simp only [and_one_ne_zero]
  rfl

theorem crc32BeStep_eq : crc32BeStep = shiftHigh crcPolyBe := by
  funext crc
  unfold crc32BeStep shiftHigh
  simp only [and_high_ne_zero]
  rfl

theorem crc32LeByte_eq : crc32LeByte = absorbLow crcPolyLe := by
  funext crc byte
  rw [crc32LeByte, crc32LeStep_eq, absorbLow]

theorem crc32BeByte_eq : crc32BeByte = absorbHigh crcPolyBe := by
  funext crc byte
  rw [crc32BeByte, crc32BeStep_eq, absorbHigh]

/-- `bitrev8` reverses every byte. -/
theorem bitrev8_eq : bitrev8 = BitVec.reverse := by
  funext a
  revert a
  decide +kernel

/-! ### Duality -/

theorem reverse_crc32Le (crc : BitVec 32) (p : List (BitVec 8)) :
    (crc32Le crc p).reverse = crc32Be crc.reverse (p.map bitrev8) := by
  unfold crc32Le crc32Be
  rw [crc32LeByte_eq, crc32BeByte_eq, bitrev8_eq, ← crcPolyLe_reverse]
  exact reverse_foldl_absorbLow (by decide) crcPolyLe p crc

theorem crc32Le_append (crc : BitVec 32) (p q : List (BitVec 8)) :
    crc32Le crc (p ++ q) = crc32Le (crc32Le crc p) q :=
  List.foldl_append

theorem crc32Be_append (crc : BitVec 32) (p q : List (BitVec 8)) :
    crc32Be crc (p ++ q) = crc32Be (crc32Be crc p) q :=
  List.foldl_append

/-- **The two CRC routines are duals**: on every byte string, reversing the bits of the seed, of
the result and of each byte turns one into the other.  Either can be continued over a string that
comes in parts. -/
theorem crc32_dual (c : BitVec 32) (p q : List (BitVec 8)) :
    (crc32Le c p).reverse = crc32Be c.reverse (p.map bitrev8) ∧
      crc32Le c (p ++ q) = crc32Le (crc32Le c p) q ∧
      crc32Be c (p ++ q) = crc32Be (crc32Be c p) q := by
  refine ⟨reverse_crc32Le c p, crc32Le_append c p q, crc32Be_append c p q⟩

end Webcamd.Kernel.Crc32
