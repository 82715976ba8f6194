import Mathlib

/-!
# Words and their bytes

A word of any width, and its bytes from the least significant one on.

* `getLsbD_ofBytes`, `getD_toBytes` — the word of some bytes by its bits, and the bytes of a word
  one by one.
* `ofBytes_toBytes`, `toBytes_ofBytes` — no bit is lost either way that there is room for.
* `ofBytes_append`, `setWidth_ofBytes` — the bytes may be taken in parts, and by way of a smaller
  word.
-/

namespace Webcamd.Library

variable {width : ℕ}

/-- The word with the bytes given, the least significant one first. -/
def ofBytes (width : ℕ) : List (BitVec 8) → BitVec width
  | [] => 0
  | byte :: rest => ofBytes width rest <<< 8 ||| byte.setWidth width

/-- The first bytes of a word, the least significant one first. -/
def toBytes : ℕ → BitVec width → List (BitVec 8)
  | 0, _ => []
  | count + 1, word => word.setWidth 8 :: toBytes count (word >>> 8)

/-- The bits of a byte stand at its place in the word. -/
theorem getLsbD_ofBytes (bytes : List (BitVec 8)) (i : ℕ) :
    (ofBytes width bytes).getLsbD i =
      (decide (i < width) && (bytes.getD (i / 8) 0).getLsbD (i % 8)) := by
  induction bytes generalizing i with
  | nil =>
      show (0 : BitVec width).getLsbD i = (_ && (0 : BitVec 8).getLsbD (i % 8))
      simp
  | cons byte rest ih =>
      show (ofBytes width rest <<< 8 ||| byte.setWidth width).getLsbD i = _
      rw [BitVec.getLsbD_or, BitVec.getLsbD_shiftLeft, BitVec.getLsbD_setWidth, ih]
      by_cases hfirst : i < 8
      · rw [Nat.div_eq_of_lt hfirst, Nat.mod_eq_of_lt hfirst]
        simp [hfirst]
      · -- behind the first byte the bits are those of the rest, eight places on
        have hdiv : i / 8 = (i - 8) / 8 + 1 := by omega
        have hmod : i % 8 = (i - 8) % 8 := by omega
        have hout : byte.getLsbD i = false := BitVec.getLsbD_of_ge byte i (not_lt.mp hfirst)
        rw [hdiv, hmod, List.getD_cons_succ, hout]
        by_cases hi : i < width
        · have hi' : i - 8 < width := by omega
          simp [hi, hi', hfirst]
        · simp [hi]

theorem getD_toBytes (count : ℕ) (word : BitVec width) (k : ℕ) :
    (toBytes count word).getD k 0 =
      if k < count then (word >>> (8 * k)).setWidth 8 else 0 := by
  induction count generalizing word k with
  | zero => rfl
  | succ count ih =>
      cases k with
      | zero => rfl
      | succ k =>
          show (toBytes count (word >>> 8)).getD k 0 = _
          rw [ih, ← BitVec.shiftRight_add, Nat.mul_succ, Nat.add_comm 8]
          exact if_congr Nat.succ_lt_succ_iff.symm rfl rfl

@[simp] theorem length_toBytes (count : ℕ) (word : BitVec width) :
    (toBytes count word).length = count := by
  induction count generalizing word with
  | zero => rfl
  | succ count ih =>
      show (toBytes count (word >>> 8)).length + 1 = count + 1
      rw [ih]

/-- **A word is read as it was written**, if all its bits are. -/
theorem ofBytes_toBytes {count : ℕ} (word : BitVec width) (hwidth : width ≤ 8 * count) :
    ofBytes width (toBytes count word) = word := by
  refine BitVec.eq_of_getLsbD_eq fun i hi => ?_
  have hplace : i / 8 < count := by omega
  rw [getLsbD_ofBytes, getD_toBytes, if_pos hplace, BitVec.getLsbD_setWidth,
    BitVec.getLsbD_ushiftRight, Nat.div_add_mod]
  simp [hi, Nat.mod_lt]

/-- **Bytes are found again** in the word that is made of them, if it has room for them. -/
theorem toBytes_ofBytes {bytes : List (BitVec 8)} (hwidth : 8 * bytes.length ≤ width) :
    toBytes bytes.length (ofBytes width bytes) = bytes := by
  refine List.ext_getElem (length_toBytes _ _) fun k _ hk => ?_
  have hbyte : (toBytes bytes.length (ofBytes width bytes)).getD k 0 = bytes.getD k 0 := by
    rw [getD_toBytes, if_pos hk]
    refine BitVec.eq_of_getLsbD_eq fun i hi => ?_
    have hplace : 8 * k + i < width := by omega
    have hdiv : (8 * k + i) / 8 = k := by omega
    have hmod : (8 * k + i) % 8 = i := by omega
    rw [BitVec.getLsbD_setWidth, BitVec.getLsbD_ushiftRight, getLsbD_ofBytes, hdiv, hmod]
    simp [hi, hplace]
  rwa [List.getD_eq_getElem _ _ (by simpa using hk), List.getD_eq_getElem _ _ hk] at hbyte

theorem ofBytes_append (first rest : List (BitVec 8)) :
    ofBytes width (first ++ rest) =
      ofBytes width rest <<< (8 * first.length) ||| ofBytes width first := by
  refine BitVec.eq_of_getLsbD_eq fun i hi => ?_
  rw [BitVec.getLsbD_or, BitVec.getLsbD_shiftLeft, getLsbD_ofBytes, getLsbD_ofBytes,
    getLsbD_ofBytes]
  by_cases hfirst : i < 8 * first.length
  · have hplace : i / 8 < first.length := by omega
    rw [List.getD_append _ _ _ _ hplace]
    simp [hfirst]
  · have hplace : first.length ≤ i / 8 := by omega
    have hdiv : (i - 8 * first.length) / 8 = i / 8 - first.length := by omega
    have hmod : (i - 8 * first.length) % 8 = i % 8 := by omega
    have hi' : i - 8 * first.length < width := by omega
    rw [List.getD_append_right _ _ _ _ hplace, List.getD_eq_default first 0 hplace, hdiv, hmod]
    simp [hi, hi', hfirst]

/-- A word that has room for the bytes may be extended afterwards. -/
theorem setWidth_ofBytes {wide : ℕ} {bytes : List (BitVec 8)}
    (hwidth : 8 * bytes.length ≤ width) :
    (ofBytes width bytes).setWidth wide = ofBytes wide bytes := by
  refine BitVec.eq_of_getLsbD_eq fun i hi => ?_
  rw [BitVec.getLsbD_setWidth, getLsbD_ofBytes, getLsbD_ofBytes]
  by_cases hplace : i / 8 < bytes.length
  · have hi' : i < width := by omega
    simp [hi, hi']
  · rw [List.getD_eq_default bytes 0 (not_lt.mp hplace)]
    simp

end Webcamd.Library
