import Webcamd.Library.ShiftRegister

/-!
# Error bursts in a shift register

A register of `ShiftRegister.lean` that moves towards the high end, and whose constant has its
lowest bit, is invertible and linear.  So it tells two messages apart whose difference is a burst
that fits into the register.

* `shiftHigh_xor`, `shiftHigh_eq_zero_iff` — linear, and invertible.
* `absorbBit` — one bit comes in; `foldl_absorbBit_eq` and `absorbHigh_eq_foldl`: a block comes in
  at once or bit by bit.
* `Burst` — two messages differ, and only within so many bits.
* `foldl_absorbHigh_ne_of_burst` — **a burst is detected**.
-/

namespace Webcamd.Library

variable {width : ℕ} {feedback : BitVec width}

/-! ### One move -/

theorem shiftHigh_xor (feedback x y : BitVec width) :
    shiftHigh feedback (x ^^^ y) = shiftHigh feedback x ^^^ shiftHigh feedback y := by
  apply BitVec.eq_of_getLsbD_eq
  intro i hi
  simp only [shiftHigh, BitVec.msb_xor, BitVec.shiftLeft_xor_distrib, BitVec.getLsbD_xor]
  generalize (x <<< 1).getLsbD i = a, (y <<< 1).getLsbD i = b
  cases x.msb <;> cases y.msb <;> cases a <;> cases b <;> cases hbit : feedback.getLsbD i <;>
    simp [hbit]

theorem shiftHigh_zero (feedback : BitVec width) :
    shiftHigh feedback (BitVec.ofNat width 0) = BitVec.ofNat width 0 := by
  simp [shiftHigh]

/-- The lowest bit of the constant keeps what falls out at the high end. -/
theorem shiftHigh_eq_zero_iff (hfeedback : feedback.getLsbD 0 = true) (x : BitVec width) :
    shiftHigh feedback x = BitVec.ofNat width 0 ↔ x = BitVec.ofNat width 0 := by
  refine ⟨fun h => ?_, fun h => h ▸ shiftHigh_zero feedback⟩
  have hpos : 0 < width := Nat.pos_of_ne_zero fun hzero => by
    subst hzero
    simp at hfeedback
  have hbit : ∀ i, (shiftHigh feedback x).getLsbD i = false := fun i => by
    rw [h, BitVec.getLsbD_zero]
  have hmsb : x.msb = false := by
    have hlow := hbit 0
    unfold shiftHigh at hlow
    cases hmsb : x.msb with
    | false => rfl
    | true =>
        rw [hmsb, if_pos rfl, BitVec.getLsbD_xor, hfeedback, BitVec.getLsbD_shiftLeft] at hlow
        simp at hlow
  apply BitVec.eq_of_getLsbD_eq
  intro i hi
  rw [BitVec.getLsbD_zero]
  obtain hlast | hinner := Nat.lt_or_ge (i + 1) width
  · have hnext := hbit (i + 1)
    unfold shiftHigh at hnext
    rw [hmsb, if_neg Bool.false_ne_true, BitVec.getLsbD_xor, BitVec.getLsbD_shiftLeft] at hnext
    simpa [hlast] using hnext
  · obtain rfl : i = width - 1 := by omega
    rw [← BitVec.msb_eq_getLsbD_last, hmsb]

theorem iterate_shiftHigh_xor (feedback x y : BitVec width) (count : ℕ) :
    (shiftHigh feedback)^[count] (x ^^^ y) =
      (shiftHigh feedback)^[count] x ^^^ (shiftHigh feedback)^[count] y := by
  induction count generalizing x y with
  | zero => rfl
  | succ count ih =>
      rw [Function.iterate_succ_apply, shiftHigh_xor, ih, ← Function.iterate_succ_apply,
        ← Function.iterate_succ_apply]

theorem iterate_shiftHigh_eq_zero_iff (hfeedback : feedback.getLsbD 0 = true) (x : BitVec width)
    (count : ℕ) :
    (shiftHigh feedback)^[count] x = BitVec.ofNat width 0 ↔ x = BitVec.ofNat width 0 := by
  induction count generalizing x with
  | zero => rfl
  | succ count ih =>
      rw [Function.iterate_succ_apply, ih, shiftHigh_eq_zero_iff hfeedback]

/-! ### Bits -/

/-- One bit comes in at the high end. -/
def absorbBit (feedback x : BitVec width) (bit : Bool) : BitVec width :=
  shiftHigh feedback (x ^^^ if bit then BitVec.twoPow width (width - 1) else BitVec.ofNat width 0)

/-- The bits at the high end, the first one highest. -/
def highBits (width : ℕ) : List Bool → BitVec width
  | [] => BitVec.ofNat width 0
  | bit :: bits => (if bit then BitVec.twoPow width (width - 1) else BitVec.ofNat width 0) ^^^
      highBits width bits >>> 1

/-- The bits of a block, the highest one first. -/
def bitsOf {short : ℕ} (block : BitVec short) : List Bool :=
  (List.range short).map block.getMsbD

theorem length_bitsOf {short : ℕ} (block : BitVec short) : (bitsOf block).length = short := by
  rw [bitsOf, List.length_map, List.length_range]

theorem getMsbD_highBits (bits : List Bool) {i : ℕ} (hi : i < width) :
    (highBits width bits).getMsbD i = bits.getD i false := by
  induction bits generalizing i with
  | nil => simp [highBits]
  | cons bit bits ih =>
      have hpos : 0 < width := Nat.zero_lt_of_lt hi
      rw [highBits, BitVec.getMsbD_xor, BitVec.getMsbD_ushiftRight]
      cases i with
      | zero => cases bit <;> simp [BitVec.getMsbD_eq_getLsbD, hpos]
      | succ i =>
          rw [List.getD_cons_succ, ← ih (Nat.lt_of_succ_lt hi), Nat.add_sub_cancel]
          have hplace : width - 1 ≠ width - 1 - (i + 1) := by omega
          have hnone : (if bit then BitVec.twoPow width (width - 1)
              else BitVec.ofNat width 0).getMsbD (i + 1) = false := by
            cases bit <;> simp [BitVec.getMsbD_eq_getLsbD, BitVec.getLsbD_twoPow, hplace]
          rw [hnone, Bool.false_xor]
          simp [hi]

theorem highBits_bitsOf {short : ℕ} (hshort : short ≤ width) (block : BitVec short) :
    highBits width (bitsOf block) = block.setWidth width <<< (width - short) := by
  apply BitVec.eq_of_getMsbD_eq
  intro i hi
  rw [getMsbD_highBits _ hi, BitVec.getMsbD_shiftLeft, BitVec.getMsbD_setWidth]
  obtain hin | hout := Nat.lt_or_ge i short
  · have hplace : i + (width - short) + short - width = i := by omega
    simp [bitsOf, hin, hplace]
  · have hplace : i + (width - short) + short - width = i := by omega
    simp [bitsOf, hout, hplace, BitVec.getMsbD_of_ge]

/-- Bits that come in one by one come in as a block, if they fit. -/
theorem foldl_absorbBit_eq (feedback x : BitVec width) (bits : List Bool)
    (hlength : bits.length ≤ width) :
    bits.foldl (absorbBit feedback) x =
      (shiftHigh feedback)^[bits.length] (x ^^^ highBits width bits) := by
  induction bits generalizing x with
  | nil => simp [highBits]
  | cons bit bits ih =>
      have hless : bits.length < width := hlength
      have hpos : 0 < width := Nat.zero_lt_of_lt hless
      have hmsb : (highBits width bits >>> 1).msb = false := by
        rw [BitVec.msb_eq_getMsbD_zero, BitVec.getMsbD_ushiftRight]
        simp
      have hlow : (highBits width bits >>> 1) <<< 1 = highBits width bits := by
        apply BitVec.eq_of_getMsbD_eq
        intro i hi
        rw [BitVec.getMsbD_shiftLeft, BitVec.getMsbD_ushiftRight]
        obtain hin | hout := Nat.lt_or_ge (i + 1) width
        · simp [hin]
        · have hnone : (highBits width bits).getMsbD i = false := by
            rw [getMsbD_highBits bits hi, List.getD_eq_default _ _ (by omega)]
          have hlast : ¬ i + 1 < width := by omega
          simp [hlast, hnone]
      have hrest : shiftHigh feedback (highBits width bits >>> 1) = highBits width bits := by
        unfold shiftHigh
        rw [hmsb, if_neg Bool.false_ne_true, hlow]
        exact BitVec.xor_zero
      rw [List.foldl_cons, ih _ hless.le, List.length_cons, Function.iterate_succ_apply, highBits,
        ← BitVec.xor_assoc, shiftHigh_xor, hrest]
      rfl

/-- **A block comes in** at once or bit by bit. -/
theorem absorbHigh_eq_foldl {short : ℕ} (hshort : short ≤ width) (feedback x : BitVec width)
    (block : BitVec short) :
    absorbHigh feedback x block = (bitsOf block).foldl (absorbBit feedback) x := by
  rw [foldl_absorbBit_eq feedback x _ ((length_bitsOf block).trans_le hshort), length_bitsOf,
    highBits_bitsOf hshort]
  rfl

theorem foldl_absorbHigh_eq {short : ℕ} (hshort : short ≤ width) (feedback x : BitVec width)
    (blocks : List (BitVec short)) :
    blocks.foldl (absorbHigh feedback) x =
      (blocks.flatMap bitsOf).foldl (absorbBit feedback) x := by
  induction blocks generalizing x with
  | nil => rfl
  | cons block blocks ih =>
      rw [List.foldl_cons, ih, absorbHigh_eq_foldl hshort, List.flatMap_cons, List.foldl_append]

/-! ### Bursts -/

/-- Two messages of the same length differ, and all places where they do lie within so many bits. -/
def Burst (limit : ℕ) (bits bits' : List Bool) : Prop :=
  ∃ front burst burst' back, bits = front ++ burst ++ back ∧ bits' = front ++ burst' ++ back ∧
    burst.length = burst'.length ∧ burst.length ≤ limit ∧ burst ≠ burst'

/-- What the register does can be undone. -/
theorem absorbBit_injective (hfeedback : feedback.getLsbD 0 = true) (bit : Bool)
    {x y : BitVec width} (h : absorbBit feedback x bit = absorbBit feedback y bit) : x = y := by
  unfold absorbBit at h
  rw [← BitVec.xor_eq_zero_iff, ← shiftHigh_xor, shiftHigh_eq_zero_iff hfeedback,
    BitVec.xor_eq_zero_iff] at h
  exact (BitVec.xor_left_inj _).mp h

theorem foldl_absorbBit_injective (hfeedback : feedback.getLsbD 0 = true) (bits : List Bool)
    {x y : BitVec width}
    (h : bits.foldl (absorbBit feedback) x = bits.foldl (absorbBit feedback) y) : x = y := by
  induction bits generalizing x y with
  | nil => exact h
  | cons bit bits ih => exact absorbBit_injective hfeedback bit (ih h)

/-- Different bits that fit into the register leave it in different states. -/
theorem foldl_absorbBit_ne (hfeedback : feedback.getLsbD 0 = true) (x : BitVec width)
    {bits bits' : List Bool} (hsame : bits.length = bits'.length) (hlength : bits.length ≤ width)
    (hne : bits ≠ bits') :
    bits.foldl (absorbBit feedback) x ≠ bits'.foldl (absorbBit feedback) x := by
  intro h
  rw [foldl_absorbBit_eq feedback x bits hlength,
    foldl_absorbBit_eq feedback x bits' (hsame ▸ hlength), ← hsame, ← BitVec.xor_eq_zero_iff,
    ← iterate_shiftHigh_xor, iterate_shiftHigh_eq_zero_iff hfeedback, BitVec.xor_eq_zero_iff,
    BitVec.xor_right_inj] at h
  refine hne (List.ext_getElem hsame fun i hi hi' => ?_)
  have hbit := congrArg (·.getMsbD i) h
  rw [getMsbD_highBits bits (hi.trans_le hlength), getMsbD_highBits bits' (hi.trans_le hlength),
    List.getD_eq_getElem _ _ hi, List.getD_eq_getElem _ _ hi'] at hbit
  exact hbit

/-- **A burst is detected**: it leaves the register in another state, whatever follows. -/
theorem foldl_absorbHigh_ne_of_burst {short : ℕ} (hshort : short ≤ width)
    (hfeedback : feedback.getLsbD 0 = true) (x : BitVec width)
    {blocks blocks' : List (BitVec short)}
    (h : Burst width (blocks.flatMap bitsOf) (blocks'.flatMap bitsOf)) :
    blocks.foldl (absorbHigh feedback) x ≠ blocks'.foldl (absorbHigh feedback) x := by
  obtain ⟨front, burst, burst', back, hbits, hbits', hsame, hlength, hne⟩ := h
  intro heq
  rw [foldl_absorbHigh_eq hshort, foldl_absorbHigh_eq hshort, hbits, hbits', List.foldl_append,
    List.foldl_append, List.foldl_append, List.foldl_append] at heq
  exact foldl_absorbBit_ne hfeedback _ hsame hlength hne
    (foldl_absorbBit_injective hfeedback back heq)

/-- A block that is as long as the register clears it just if it is what the register holds. -/
theorem absorbHigh_eq_zero_iff (hfeedback : feedback.getLsbD 0 = true) (x block : BitVec width) :
    absorbHigh feedback x block = BitVec.ofNat width 0 ↔ block = x := by
  unfold absorbHigh
  rw [iterate_shiftHigh_eq_zero_iff hfeedback, Nat.sub_self, BitVec.shiftLeft_zero,
    BitVec.setWidth_eq, BitVec.xor_eq_zero_iff, eq_comm]

end Webcamd.Library
