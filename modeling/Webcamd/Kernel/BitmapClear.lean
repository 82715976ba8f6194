import Mathlib
import Webcamd.Kernel.Bitmap

/-!
# Clearing a range of a bitmap

`bitmap_clear` of `kernel/linux_func.c` on any range.  The mask of the first word has the bits
before the range, where it should have those from its start on.

* `bitmapClearLoop_whole` — the loop clears whole words.
* `testBit_bitmapClear` — what the function clears: the range without the first word, and the bits
  before the range in the first word.
* `bitmapClear_iff` — so it clears the range, and nothing else, if it has nothing to do in the
  first word.
-/

namespace Webcamd.Kernel.BitmapClear

open Bitmap

/-- `bitmap_clear` with `int size = start + nr`, which must fit in an `int` -/
def bitmapClear (map : Words) (start nr : ℕ) : Option Words :=
  if start + nr < 2 ^ 31 then some (Bitmap.bitmapClear map start nr) else none

/-! ### The loop -/

section Loop

variable {map : Words} {rounds p nr : ℕ}

/-- **From the second word on** the loop clears whole words, until less than one is left. -/
theorem bitmapClearLoop_whole (hrounds : nr ≤ rounds) :
    bitmapClearLoop rounds map p nr bitsPerLong (BitVec.allOnes 64) =
      (fun w => if p ≤ w ∧ w < p + nr / bitsPerLong then 0 else map w, p + nr / bitsPerLong,
        nr % bitsPerLong, BitVec.allOnes 64) := by
  induction rounds generalizing map p nr with
  | zero =>
      have hzero : nr = 0 := Nat.le_zero.mp hrounds
      subst hzero
      have hnone : ∀ w, ¬ (p ≤ w ∧ w < p) := fun w h => absurd h.2 (not_lt.mpr h.1)
      unfold bitmapClearLoop
      simp only [Nat.zero_div, Nat.zero_mod, Nat.add_zero, hnone, if_false]
  | succ rounds ih =>
      unfold bitmapClearLoop
      by_cases hmore : bitsPerLong ≤ nr
      · -- one word is cleared here, and the others by the rest of the loop
        have hdiv : (nr - bitsPerLong) / bitsPerLong + 1 = nr / bitsPerLong := by
          unfold bitsPerLong at *
          omega
        have hmod : (nr - bitsPerLong) % bitsPerLong = nr % bitsPerLong :=
          (Nat.mod_eq_sub_mod hmore).symm
        have hfewer : nr - bitsPerLong ≤ rounds := by
          unfold bitsPerLong at *
          omega
        have hclear : map p &&& ~~~BitVec.allOnes 64 = 0 := by
          rw [BitVec.not_allOnes]
          exact BitVec.and_zero
        rw [if_pos hmore, ih hfewer, hmod, hclear, ← hdiv]
        generalize (nr - bitsPerLong) / bitsPerLong = whole
        refine Prod.ext (funext fun w => ?_) (Prod.ext (Nat.succ_add_eq_add_succ p whole) rfl)
        dsimp only
        by_cases hw : w = p
        · subst hw
          rw [if_neg (by omega), Function.update_self, if_pos (by omega)]
        · have hiff : (p + 1 ≤ w ∧ w < p + 1 + whole) ↔ (p ≤ w ∧ w < p + (whole + 1)) := by
            omega
          rw [Function.update_of_ne hw]
          exact if_congr hiff rfl rfl
      · have hdiv : nr / bitsPerLong = 0 := Nat.div_eq_of_lt (not_le.mp hmore)
        have hmod : nr % bitsPerLong = nr := Nat.mod_eq_of_lt (not_le.mp hmore)
        have hnone : ∀ w, ¬ (p ≤ w ∧ w < p) := fun w h => absurd h.2 (not_lt.mpr h.1)
        rw [if_neg hmore, hdiv, hmod]
        simp only [Nat.add_zero, hnone, if_false]

end Loop

/-! ### The function -/

section Range

variable {map : Words} {start nr : ℕ}

/-- The bits that the function clears: in the first word those before the range, and behind it
those of the range. -/
def Hit (start nr i : ℕ) : Prop :=
  if bitWord i = bitWord start then i < start else start ≤ i ∧ i < start + nr

instance (start nr i : ℕ) : Decidable (Hit start nr i) := by
  unfold Hit
  infer_instance

theorem hit_of_eq {i : ℕ} (hword : bitWord i = bitWord start) : Hit start nr i ↔ i < start := by
  unfold Hit
  rw [if_pos hword]

theorem hit_of_ne {i : ℕ} (hword : bitWord i ≠ bitWord start) :
    Hit start nr i ↔ start ≤ i ∧ i < start + nr := by
  unfold Hit
  rw [if_neg hword]

theorem getLsbD_and_not_lowMask {word : BitVec 64} {count k : ℕ} (hcount : count < 64)
    (hk : k < 64) : (word &&& ~~~(1#64 <<< count - 1)).getLsbD k =
      (word.getLsbD k && !decide (k < count)) := by
  rw [BitVec.getLsbD_and, BitVec.getLsbD_not, getLsbD_lowMask hcount, decide_eq_true hk,
    Bool.true_and]

/-- The last word is written only if something of the range is left for it. -/
theorem last_word {words : Words} {last left : ℕ} {mask : BitVec 64}
    (hnothing : left = 0 → mask = 0#64) (w : ℕ) :
    (if left = 0 then words else Function.update words last (words last &&& ~~~mask)) w =
      if w = last then words w &&& ~~~mask else words w := by
  by_cases hleft : left = 0
  · rw [if_pos hleft, hnothing hleft, show words w &&& ~~~0#64 = words w from BitVec.and_allOnes,
      ite_self]
  · rw [if_neg hleft, Function.update_apply]
    refine ite_congr rfl (fun hw => ?_) fun _ => rfl
    rw [hw]

/-- The words after the call, if the range has a bit behind its first word. -/
theorem bitmapClear_words (hlong : bitsPerLong - start % bitsPerLong ≤ nr) (w : ℕ) :
    Bitmap.bitmapClear map start nr w =
      if w < bitWord start then map w
      else if w = bitWord start then
        map w &&& ~~~(1#64 <<< (start % bitsPerLong) - 1)
      else if w < bitWord (start + nr) then 0
      else if w = bitWord (start + nr) then
        map w &&& ~~~(1#64 <<< ((start + nr) % bitsPerLong) - 1)
      else map w := by
  have hstart := Nat.div_add_mod start bitsPerLong
  have hwhole : start / bitsPerLong + 1 + (nr - (bitsPerLong - start % bitsPerLong)) / bitsPerLong =
      (start + nr) / bitsPerLong := by
    unfold bitsPerLong at *
    omega
  have hleft : (nr - (bitsPerLong - start % bitsPerLong)) % bitsPerLong =
      (start + nr) % bitsPerLong := by
    unfold bitsPerLong at *
    omega
  have hlt : start % bitsPerLong < bitsPerLong := place_lt start
  obtain ⟨nr, rfl⟩ := Nat.exists_eq_succ_of_ne_zero (show nr ≠ 0 by omega)
  unfold Bitmap.bitmapClear bitmapClearLoop
  dsimp only
  rw [if_pos hlong, bitmapClearLoop_whole (by omega)]
  have hblock : bitWord start < bitWord (start + nr.succ) := by
    unfold bitWord bitsPerLong at *
    omega
  have hnothing : (start + nr.succ) % bitsPerLong = 0 →
      1#64 <<< ((start + nr.succ) % bitsPerLong) - 1 = 0#64 := by
    intro hzero
    rw [hzero]
    rfl
  dsimp only
  rw [hwhole, hleft, BitVec.allOnes_and]
  refine (last_word hnothing w).trans ?_
  unfold bitWord at hblock ⊢
  generalize start / bitsPerLong = first at hblock ⊢
  generalize (start + nr.succ) / bitsPerLong = last at hblock ⊢
  rcases lt_trichotomy w first with hw | rfl | hw
  · rw [if_neg (by omega), if_neg (by omega), if_pos hw, Function.update_of_ne hw.ne]
  · rw [if_neg hblock.ne, if_neg (by omega), if_neg (lt_irrefl w), if_pos rfl,
      Function.update_self]
  · rw [if_neg (not_lt.mpr hw.le), if_neg hw.ne', Function.update_of_ne hw.ne']
    rcases lt_trichotomy w last with hw' | rfl | hw'
    · rw [if_neg hw'.ne, if_pos ⟨hw, hw'⟩, if_pos hw']
    · rw [if_pos rfl, if_neg (by omega), if_neg (lt_irrefl w), if_pos rfl]
    · rw [if_neg hw'.ne', if_neg (by omega), if_neg (not_lt.mpr hw'.le), if_neg hw'.ne']

/-- The only word that changes, if the range ends in its first word. -/
theorem bitmapClear_word (hpos : 0 < nr) (hshort : nr < bitsPerLong - start % bitsPerLong) :
    Bitmap.bitmapClear map start nr = Function.update map (bitWord start)
      (map (bitWord start) &&& ~~~(1#64 <<< (start % bitsPerLong) - 1)) := by
  have hmask : 1#64 <<< (start % bitsPerLong) - 1 &&&
      (1#64 <<< ((start + nr) % bitsPerLong) - 1) = 1#64 <<< (start % bitsPerLong) - 1 := by
    have hstart := place_lt start
    have hend := place_lt (start + nr)
    have hlt : start % bitsPerLong < (start + nr) % bitsPerLong := by
      unfold bitsPerLong at *
      omega
    refine BitVec.eq_of_getLsbD_eq fun k hk => ?_
    rw [BitVec.getLsbD_and, getLsbD_lowMask hstart, getLsbD_lowMask hend,
      ← Bool.decide_and, decide_eq_decide]
    omega
  obtain ⟨nr, rfl⟩ := Nat.exists_eq_succ_of_ne_zero hpos.ne'
  unfold Bitmap.bitmapClear bitmapClearLoop
  dsimp only
  rw [if_neg (not_le.mpr hshort)]
  dsimp only
  rw [if_neg (Nat.succ_ne_zero nr), hmask]
  rfl

/-- **What the function clears**: the range behind its first word, and in the first word what is
before the range. -/
theorem testBit_bitmapClear (hpos : 0 < nr) (i : ℕ) :
    testBit i (Bitmap.bitmapClear map start nr) =
      (testBit i map && !decide (Hit start nr i)) := by
  have hplace := place_lt i
  have hstart := place_lt start
  have hend := place_lt (start + nr)
  rw [testBit_eq, testBit_eq]
  by_cases hword : bitWord i = bitWord start
  · have hhit : Hit start nr i ↔ i % bitsPerLong < start % bitsPerLong := by
      rw [hit_of_eq hword]
      unfold bitWord bitsPerLong at *
      omega
    -- the first word is the same, whether the range ends in it or not
    have hfirst : Bitmap.bitmapClear map start nr (bitWord i) =
        map (bitWord i) &&& ~~~(1#64 <<< (start % bitsPerLong) - 1) := by
      by_cases hlong : bitsPerLong - start % bitsPerLong ≤ nr
      · rw [bitmapClear_words hlong, hword, if_neg (lt_irrefl _), if_pos rfl]
      · rw [bitmapClear_word hpos (not_le.mp hlong), hword, Function.update_self]
    rw [hfirst, getLsbD_and_not_lowMask hstart hplace, decide_eq_decide.mpr hhit]
  · have hhit := @hit_of_ne start nr i hword
    by_cases hlong : bitsPerLong - start % bitsPerLong ≤ nr
    · rw [bitmapClear_words hlong, if_neg hword]
      rcases lt_trichotomy (bitWord i) (bitWord (start + nr)) with hlast | hlast | hlast
      · -- a word before the range, or one of those that are cleared as a whole
        rw [if_pos hlast]
        by_cases hbefore : bitWord i < bitWord start
        · have hout : ¬ Hit start nr i := by
            rw [hhit]
            unfold bitWord at *
            exact fun h => absurd (Nat.div_le_div_right h.1) (not_le.mpr hbefore)
          rw [if_pos hbefore, decide_eq_false hout, Bool.not_false, Bool.and_true]
        · have hin : Hit start nr i := by
            rw [hhit]
            unfold bitWord bitsPerLong at *
            omega
          rw [if_neg hbefore, decide_eq_true hin, Bool.not_true, Bool.and_false]
          exact BitVec.getLsbD_zero
      · have hin : Hit start nr i ↔ i % bitsPerLong < (start + nr) % bitsPerLong := by
          rw [hhit]
          unfold bitWord bitsPerLong at *
          omega
        rw [if_neg (by unfold bitWord bitsPerLong at *; omega), if_neg hlast.not_lt, if_pos hlast,
          getLsbD_and_not_lowMask hend hplace, decide_eq_decide.mpr hin]
      · have hout : ¬ Hit start nr i := by
          rw [hhit]
          unfold bitWord bitsPerLong at *
          omega
        rw [if_neg (by unfold bitWord bitsPerLong at *; omega), if_neg hlast.not_gt,
          if_neg hlast.ne', decide_eq_false hout, Bool.not_false, Bool.and_true]
    · have hout : ¬ Hit start nr i := by
        rw [hhit]
        unfold bitWord bitsPerLong at *
        omega
      rw [bitmapClear_word hpos (not_le.mp hlong), Function.update_of_ne hword,
        decide_eq_false hout, Bool.not_false, Bool.and_true]

/-- What the function is for: the range is cleared, and nothing else is changed. -/
structure Cleared (map final : Words) (start nr : ℕ) : Prop where
  range : ∀ i, start ≤ i → i < start + nr → testBit i final = false
  rest : ∀ i, ¬ (start ≤ i ∧ i < start + nr) → testBit i final = testBit i map

/-- **The function clears the range** just if the range is empty, or no bit of its first word is set
that is before its end; and if that end fits in an `int`. -/
theorem bitmapClear_iff (map : Words) (start nr : ℕ) :
    (∃ final, bitmapClear map start nr = some final ∧ Cleared map final start nr) ↔
      start + nr < 2 ^ 31 ∧
        (nr = 0 ∨ ∀ i, bitsPerLong * (start / bitsPerLong) ≤ i → i < start + nr →
          i < bitsPerLong * (start / bitsPerLong) + bitsPerLong → testBit i map = false) := by
  have hfirst : ∀ i, bitWord i = bitWord start ↔
      bitsPerLong * (start / bitsPerLong) ≤ i ∧
        i < bitsPerLong * (start / bitsPerLong) + bitsPerLong := by
    intro i
    unfold bitWord bitsPerLong
    omega
  unfold bitmapClear
  constructor
  · rintro ⟨final, hfinal, hcleared⟩
    obtain ⟨hfits, hvalue⟩ := Option.ite_none_right_eq_some.mp hfinal
    refine ⟨hfits, (Nat.eq_zero_or_pos nr).imp_right fun hpos i hle hlt hblock => ?_⟩
    have hbit := @testBit_bitmapClear map start nr hpos i
    rw [Option.some_inj.mp hvalue] at hbit
    have hword := (hfirst i).mpr ⟨hle, hblock⟩
    by_cases hbefore : i < start
    · -- a bit before the range is cleared, and should not be changed
      have hsame := hcleared.rest i fun h => absurd h.1 (not_le.mpr hbefore)
      rw [← hsame, hbit, decide_eq_true ((hit_of_eq hword).mpr hbefore), Bool.not_true,
        Bool.and_false]
    · -- a bit of the range is not changed, and should be cleared
      have hzero := hcleared.range i (not_lt.mp hbefore) hlt
      rw [hbit, decide_eq_false (mt (hit_of_eq hword).mp hbefore), Bool.not_false,
        Bool.and_true] at hzero
      exact hzero
  · rintro ⟨hfits, hclear⟩
    refine ⟨_, if_pos hfits, ?_⟩
    rcases Nat.eq_zero_or_pos nr with rfl | hpos
    · exact ⟨fun i hle hlt => absurd hle (not_le.mpr hlt), fun i _ => rfl⟩
    · have hclear := hclear.resolve_left hpos.ne'
      constructor
      case range =>
        intro i hle hlt
        rw [testBit_bitmapClear hpos]
        by_cases hword : bitWord i = bitWord start
        · rw [hclear i ((hfirst i).mp hword).1 hlt ((hfirst i).mp hword).2, Bool.false_and]
        · rw [decide_eq_true ((hit_of_ne hword).mpr ⟨hle, hlt⟩), Bool.not_true, Bool.and_false]
      case rest =>
        intro i hout
        rw [testBit_bitmapClear hpos]
        by_cases hword : bitWord i = bitWord start
        · by_cases hbefore : i < start
          · rw [hclear i ((hfirst i).mp hword).1 (by omega) ((hfirst i).mp hword).2,
              Bool.false_and]
          · rw [decide_eq_false (mt (hit_of_eq hword).mp hbefore), Bool.not_false,
              Bool.and_true]
        · rw [decide_eq_false (mt (hit_of_ne hword).mp hout), Bool.not_false, Bool.and_true]

/-- One bit that is set, and should be cleared. -/
theorem oneBit_not_cleared :
    ¬ ∃ final, bitmapClear (fun _ => 1) 0 1 = some final ∧ Cleared (fun _ => 1) final 0 1 := by
  rintro ⟨final, hfinal, hcleared⟩
  have hvalue : bitmapClear (fun _ => 1) 0 1 =
      some (Function.update (fun _ => 1) 0 1) := rfl
  rw [hvalue, Option.some_inj] at hfinal
  have hbit := hcleared.range 0 (Nat.le_refl 0) Nat.zero_lt_one
  rw [← hfinal] at hbit
  exact absurd hbit (by decide)

end Range

end Webcamd.Kernel.BitmapClear
