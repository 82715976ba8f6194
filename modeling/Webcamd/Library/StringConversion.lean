import Mathlib

/-!
# Conversion of strings to numbers

The functions `strtoll` and `strtoull` of the C standard library in its "C" locale, and the strings
that they convert to the end.

* `Numeral` — a whole string as a numeral of a base: white space, a sign, the mark of base 16, and
  digits.
* `scan` — the longest start of a string that is a numeral, and the rest of the string.
* `numeral_iff` — the numerals are what `scan` reads to the end.
* `strtoll`, `strtoull` — the value in the range of the type: by saturation, and after a minus sign
  by negation modulo `2 ^ 64`.
-/

namespace Webcamd.Library

/-- `isspace` -/
def isSpace (c : Char) : Bool := c = ' ' ∨ 9 ≤ c.toNat ∧ c.toNat ≤ 13

/-- The digit that a character is, or `36`, which is a digit of no base. -/
def digitValue (c : Char) : ℕ :=
  if 48 ≤ c.toNat ∧ c.toNat ≤ 57 then c.toNat - 48
  else if 97 ≤ c.toNat ∧ c.toNat ≤ 122 then c.toNat - 97 + 10
  else if 65 ≤ c.toNat ∧ c.toNat ≤ 90 then c.toNat - 65 + 10
  else 36

/-- The digits of a base. -/
def isDigit (base : ℕ) (c : Char) : Bool := digitValue c < base

/-- The value of a string of digits. -/
def digitsValue (base : ℕ) (digits : List Char) : ℕ :=
  digits.foldl (fun value c => value * base + digitValue c) 0

/-- A value with its sign. -/
def signedValue (negative : Bool) (magnitude : ℕ) : ℤ := if negative then -magnitude else magnitude

/-! ### Numerals -/

/-- The optional sign of a numeral. -/
inductive Sign : List Char → Bool → Prop where
  | none : Sign [] false
  | plus : Sign ['+'] false
  | minus : Sign ['-'] true

/-- The optional mark of a numeral of base 16. -/
inductive Mark (base : ℕ) : List Char → Prop where
  | none : Mark base []
  | hex (x : Char) (hbase : base = 16) (hx : x = 'x' ∨ x = 'X') : Mark base ['0', x]

/-- **A string that is a numeral** of the base as a whole, and its value. -/
inductive Numeral (base : ℕ) : List Char → ℤ → Prop where
  | mk {spaces sign mark digits : List Char} {negative : Bool}
      (hspaces : ∀ c ∈ spaces, isSpace c = true) (hsign : Sign sign negative)
      (hmark : Mark base mark) (hsome : digits ≠ [])
      (hdigits : ∀ c ∈ digits, isDigit base c = true) :
      Numeral base (spaces ++ (sign ++ (mark ++ digits)))
        (signedValue negative (digitsValue base digits))

/-! ### The conversion -/

/-- The sign at the start of a string, and the string after it. -/
def takeSign : List Char → Bool × List Char
  | '-' :: rest => (true, rest)
  | '+' :: rest => (false, rest)
  | text => (false, text)

/-- The mark of base 16 is taken off if a digit comes after it. -/
def dropMark (base : ℕ) : List Char → List Char
  | '0' :: x :: c :: rest =>
      if base = 16 ∧ (x = 'x' ∨ x = 'X') ∧ isDigit base c then c :: rest else '0' :: x :: c :: rest
  | text => text

/-- What is converted: the sign, the magnitude, and the rest of the string; `none` if there is
nothing to convert. -/
def scan (base : ℕ) (text : List Char) : Option (Bool × ℕ × List Char) :=
  let signed := takeSign (text.dropWhile isSpace)
  let digits := dropMark base signed.2
  if digits.takeWhile (isDigit base) = [] then none
  else some (signed.1, digitsValue base (digits.takeWhile (isDigit base)),
    digits.dropWhile (isDigit base))

/-- `strtoll`: the value, and the string at the end pointer. -/
def strtoll (text : List Char) (base : ℕ) : ℤ × List Char :=
  match scan base text with
  | none => (0, text)
  | some (negative, magnitude, rest) =>
      (max (-2 ^ 63) (min (signedValue negative magnitude) (2 ^ 63 - 1)), rest)

/-- `strtoull` -/
def strtoull (text : List Char) (base : ℕ) : ℤ × List Char :=
  match scan base text with
  | none => (0, text)
  | some (negative, magnitude, rest) =>
      (if magnitude < 2 ^ 64 then signedValue negative magnitude % 2 ^ 64 else 2 ^ 64 - 1, rest)

/-! ### Numerals are what is converted to the end -/

variable {base : ℕ}

/-- What a digit is not. -/
theorem isDigit_other {c : Char} (hbase : base ≤ 36) (h : isDigit base c = true) :
    isSpace c = false ∧ c ≠ '+' ∧ c ≠ '-' := by
  have hlt : digitValue c < 36 := (of_decide_eq_true h).trans_le hbase
  have hrange : 48 ≤ c.toNat := by
    unfold digitValue at hlt
    split_ifs at hlt <;> omega
  refine ⟨?_, ?_, ?_⟩
  · rw [isSpace, decide_eq_false_iff_not]
    rintro (rfl | hspace)
    · exact absurd hrange (by decide)
    · omega
  · rintro rfl
    exact absurd hrange (by decide)
  · rintro rfl
    exact absurd hrange (by decide)

/-- The mark's letter is not a digit of base 16. -/
theorem not_isDigit_x {x : Char} (hx : x = 'x' ∨ x = 'X') : isDigit 16 x = false := by
  rcases hx with rfl | rfl <;> decide

theorem takeSign_of_digit {c : Char} (rest : List Char) (hplus : c ≠ '+') (hminus : c ≠ '-') :
    takeSign (c :: rest) = (false, c :: rest) := by
  unfold takeSign
  split
  · rename_i h
    exact absurd (List.cons.inj h).1 hminus
  · rename_i h
    exact absurd (List.cons.inj h).1 hplus
  · rfl

/-- Digits have no mark in front. -/
theorem dropMark_of_digits {digits : List Char} (hdigits : ∀ c ∈ digits, isDigit base c = true) :
    dropMark base digits = digits := by
  unfold dropMark
  split
  · rename_i x c rest
    split
    · rename_i hmark
      obtain ⟨rfl, hx, -⟩ := hmark
      have hdigit := hdigits x (by simp)
      rw [not_isDigit_x hx] at hdigit
      exact absurd hdigit (by decide)
    · rfl
  · rfl

/-- The mark is taken off. -/
theorem dropMark_of_mark {mark digits : List Char} (hmark : Mark base mark) (hsome : digits ≠ [])
    (hdigits : ∀ c ∈ digits, isDigit base c = true) :
    dropMark base (mark ++ digits) = digits := by
  cases hmark with
  | none => exact dropMark_of_digits hdigits
  | hex x hbase hx =>
      obtain ⟨c, rest, rfl⟩ := List.exists_cons_of_ne_nil hsome
      have hc : isDigit base c = true := hdigits c (by simp)
      show dropMark base ('0' :: x :: c :: rest) = c :: rest
      rw [dropMark, if_pos ⟨hbase, hx, hc⟩]

/-- After the sign a numeral goes on with a digit. -/
theorem mark_append_digits {mark digits : List Char} (hmark : Mark base mark) (hsome : digits ≠ [])
    (hdigits : ∀ c ∈ digits, isDigit base c = true) :
    ∃ c rest, mark ++ digits = c :: rest ∧ isDigit base c = true := by
  cases hmark with
  | none =>
      obtain ⟨c, rest, rfl⟩ := List.exists_cons_of_ne_nil hsome
      exact ⟨c, rest, rfl, hdigits c (by simp)⟩
  | hex x hbase hx =>
      subst hbase
      exact ⟨'0', x :: digits, rfl, by decide⟩

/-- A sign is read, and no white space is passed over in front of it. -/
theorem takeSign_append {sign : List Char} {negative : Bool} {c : Char} (hsign : Sign sign negative)
    (hbase : base ≤ 36) (hc : isDigit base c = true) (rest : List Char) :
    (sign ++ c :: rest).dropWhile isSpace = sign ++ c :: rest ∧
      takeSign (sign ++ c :: rest) = (negative, c :: rest) := by
  obtain ⟨hspace, hplus, hminus⟩ := isDigit_other hbase hc
  cases hsign with
  | none =>
      exact ⟨List.dropWhile_cons_of_neg (by simp [hspace]), takeSign_of_digit rest hplus hminus⟩
  | plus => exact ⟨List.dropWhile_cons_of_neg (by decide), rfl⟩
  | minus => exact ⟨List.dropWhile_cons_of_neg (by decide), rfl⟩

/-- **What is converted of a numeral**: all of it. -/
theorem scan_of_numeral {text : List Char} {value : ℤ} (hbase : base ≤ 36)
    (h : Numeral base text value) :
    ∃ negative magnitude, scan base text = some (negative, magnitude, []) ∧
      value = signedValue negative magnitude := by
  obtain @⟨spaces, sign, mark, digits, negative, hspaces, hsign, hmark, hsome, hdigits⟩ := h
  refine ⟨negative, digitsValue base digits, ?_, rfl⟩
  obtain ⟨c, rest, hcons, hc⟩ := mark_append_digits hmark hsome hdigits
  obtain ⟨hdrop, htake⟩ := takeSign_append hsign hbase hc rest
  have hall : digits.takeWhile (isDigit base) = digits := List.takeWhile_eq_self_iff.mpr hdigits
  have hnone : digits.dropWhile (isDigit base) = [] := List.dropWhile_eq_nil_iff.mpr hdigits
  unfold scan
  rw [List.dropWhile_append_of_pos hspaces, hcons, hdrop, htake, ← hcons]
  simp only [dropMark_of_mark hmark hsome hdigits, hall, hnone, if_neg hsome]

/-- The sign that is read. -/
theorem sign_takeSign (text : List Char) :
    ∃ sign, Sign sign (takeSign text).1 ∧ text = sign ++ (takeSign text).2 := by
  unfold takeSign
  split
  · exact ⟨['-'], .minus, rfl⟩
  · exact ⟨['+'], .plus, rfl⟩
  · exact ⟨[], .none, rfl⟩

/-- The mark that is taken off. -/
theorem mark_dropMark (base : ℕ) (text : List Char) :
    ∃ mark, Mark base mark ∧ text = mark ++ dropMark base text := by
  unfold dropMark
  split
  · rename_i x c rest
    split
    · rename_i hmark
      exact ⟨['0', x], .hex x hmark.1 hmark.2.1, rfl⟩
    · exact ⟨[], .none, rfl⟩
  · exact ⟨[], .none, rfl⟩

/-- **What is converted to the end** is a numeral. -/
theorem numeral_of_scan {text : List Char} {negative : Bool} {magnitude : ℕ}
    (h : scan base text = some (negative, magnitude, [])) :
    Numeral base text (signedValue negative magnitude) := by
  unfold scan at h
  simp only at h
  split at h
  · cases h
  · rename_i hsome
    obtain ⟨sign, hsign, hsigned⟩ := sign_takeSign (text.dropWhile isSpace)
    obtain ⟨mark, hmark, hmarked⟩ := mark_dropMark base (takeSign (text.dropWhile isSpace)).2
    obtain ⟨rfl, hvalue, hrest⟩ : _ = negative ∧ _ = magnitude ∧ _ = [] := by
      simpa only [Option.some.injEq, Prod.mk.injEq] using h
    have hdigits := List.dropWhile_eq_nil_iff.mp hrest
    rw [List.takeWhile_eq_self_iff.mpr hdigits] at hsome hvalue
    have htext : text = text.takeWhile isSpace ++
        (sign ++ (mark ++ dropMark base (takeSign (text.dropWhile isSpace)).2)) := by
      rw [← hmarked, ← hsigned, List.takeWhile_append_dropWhile]
    have hspaces : ∀ c ∈ text.takeWhile isSpace, isSpace c = true :=
      fun c hc => List.mem_takeWhile_imp hc
    have hnumeral := Numeral.mk hspaces hsign hmark hsome hdigits
    rwa [← htext, hvalue] at hnumeral

/-- **The numerals** are the strings that are converted to the end. -/
theorem numeral_iff {text : List Char} {value : ℤ} (hbase : base ≤ 36) :
    Numeral base text value ↔
      ∃ negative magnitude, scan base text = some (negative, magnitude, []) ∧
        value = signedValue negative magnitude := by
  constructor
  · exact scan_of_numeral hbase
  · rintro ⟨negative, magnitude, hscan, rfl⟩
    exact numeral_of_scan hscan

/-- A numeral has one value. -/
theorem Numeral.value_unique {text : List Char} {value other : ℤ} (hbase : base ≤ 36)
    (h : Numeral base text value) (hother : Numeral base text other) : value = other := by
  obtain ⟨negative, magnitude, hscan, rfl⟩ := scan_of_numeral hbase h
  obtain ⟨negative', magnitude', hscan', rfl⟩ := scan_of_numeral hbase hother
  obtain ⟨rfl, rfl, -⟩ : negative = negative' ∧ magnitude = magnitude' ∧ _ := by
    simpa only [Option.some.injEq, Prod.mk.injEq] using hscan.symm.trans hscan'
  rfl

/-- The empty string is not a numeral. -/
theorem not_numeral_nil (value : ℤ) : ¬ Numeral base [] value := by
  intro h
  generalize htext : ([] : List Char) = text at h
  obtain @⟨spaces, sign, mark, digits, negative, hspaces, hsign, hmark, hsome, hdigits⟩ := h
  simp only [List.nil_eq, List.append_eq_nil_iff] at htext
  exact hsome htext.2.2.2

/-! ### The values -/

/-- `strtoll` of a numeral saturates. -/
theorem strtoll_of_numeral {text : List Char} {value : ℤ} (hbase : base ≤ 36)
    (h : Numeral base text value) :
    strtoll text base = (max (-2 ^ 63) (min value (2 ^ 63 - 1)), []) := by
  obtain ⟨negative, magnitude, hscan, rfl⟩ := scan_of_numeral hbase h
  rw [strtoll, hscan]

/-- `strtoull` of a numeral wraps around if its magnitude is a value of the type, and saturates
otherwise. -/
theorem strtoull_of_numeral {text : List Char} {value : ℤ} (hbase : base ≤ 36)
    (h : Numeral base text value) :
    strtoull text base = (if |value| < 2 ^ 64 then value % 2 ^ 64 else 2 ^ 64 - 1, []) := by
  obtain ⟨negative, magnitude, hscan, rfl⟩ := scan_of_numeral hbase h
  have habs : |signedValue negative magnitude| = magnitude := by
    cases negative <;> simp [signedValue]
  have hiff : |signedValue negative magnitude| < 2 ^ 64 ↔ magnitude < 2 ^ 64 := by
    rw [habs]
    norm_cast
  simp only [strtoull, hscan, hiff]

theorem strtoull_of_nonneg {text : List Char} {value : ℤ} (hbase : base ≤ 36)
    (h : Numeral base text value) (hnonneg : 0 ≤ value) (hlt : value < 2 ^ 64) :
    strtoull text base = (value, []) := by
  rw [strtoull_of_numeral hbase h, if_pos (by rwa [abs_of_nonneg hnonneg]),
    Int.emod_eq_of_lt hnonneg hlt]

theorem strtoull_of_neg {text : List Char} {value : ℤ} (hbase : base ≤ 36)
    (h : Numeral base text value) (hneg : value < 0) (hlt : -2 ^ 64 < value) :
    strtoull text base = (value + 2 ^ 64, []) := by
  have habs : |value| < 2 ^ 64 := by
    rw [abs_of_neg hneg]
    omega
  rw [strtoull_of_numeral hbase h, if_pos habs, ← Int.add_emod_right,
    Int.emod_eq_of_lt (by omega) (by omega)]

theorem strtoull_of_large {text : List Char} {value : ℤ} (hbase : base ≤ 36)
    (h : Numeral base text value) (hlarge : value ≤ -2 ^ 64 ∨ 2 ^ 64 ≤ value) :
    strtoull text base = (2 ^ 64 - 1, []) := by
  have habs : ¬ |value| < 2 ^ 64 := by
    rw [abs_lt]
    omega
  rw [strtoull_of_numeral hbase h, if_neg habs]

/-- In any case the value is one of 64 bits. -/
theorem strtoull_range {text : List Char} {value : ℤ} (hbase : base ≤ 36)
    (h : Numeral base text value) :
    ∃ result, strtoull text base = (result, []) ∧ 0 ≤ result ∧ result < 2 ^ 64 := by
  refine ⟨_, strtoull_of_numeral hbase h, ?_⟩
  split
  · exact ⟨Int.emod_nonneg value (by decide), Int.emod_lt_of_pos value (by decide)⟩
  · decide

theorem strtoll_nil (base : ℕ) : strtoll [] base = (0, []) := by
  simp [strtoll, scan, takeSign, dropMark]

theorem strtoull_nil (base : ℕ) : strtoull [] base = (0, []) := by
  simp [strtoull, scan, takeSign, dropMark]

/-! ### The end pointer -/

/-- The string at the end pointer. -/
def endPointer (base : ℕ) (text : List Char) : List Char :=
  match scan base text with
  | none => text
  | some (_, _, rest) => rest

theorem strtoll_snd (text : List Char) (base : ℕ) :
    (strtoll text base).2 = endPointer base text := by
  unfold strtoll endPointer
  cases scan base text <;> rfl

theorem strtoull_snd (text : List Char) (base : ℕ) :
    (strtoull text base).2 = endPointer base text := by
  unfold strtoull endPointer
  cases scan base text <;> rfl

/-- The end pointer is at the end of a numeral, and of the empty string. -/
theorem endPointer_eq_nil_iff {text : List Char} (hbase : base ≤ 36) :
    endPointer base text = [] ↔ text = [] ∨ ∃ value, Numeral base text value := by
  unfold endPointer
  cases hscan : scan base text with
  | none =>
      have hnone : ¬ ∃ value, Numeral base text value := by
        rintro ⟨value, hvalue⟩
        obtain ⟨negative, magnitude, hsome, -⟩ := scan_of_numeral hbase hvalue
        exact absurd (hscan.symm.trans hsome) (by simp)
      simp [hnone]
  | some read =>
      obtain ⟨negative, magnitude, rest⟩ := read
      constructor
      · rintro rfl
        exact Or.inr ⟨_, numeral_of_scan hscan⟩
      · rintro (rfl | ⟨value, hvalue⟩)
        · exact absurd hscan (by simp [scan, takeSign, dropMark])
        · obtain ⟨negative', magnitude', hsome, -⟩ := scan_of_numeral hbase hvalue
          have hread := Option.some.inj (hscan.symm.trans hsome)
          exact congrArg (fun read => read.2.2) hread

/-- The end pointer points into the string. -/
theorem endPointer_suffix (base : ℕ) (text : List Char) : endPointer base text <:+ text := by
  obtain ⟨sign, -, hsigned⟩ := sign_takeSign (text.dropWhile isSpace)
  obtain ⟨mark, -, hmarked⟩ := mark_dropMark base (takeSign (text.dropWhile isSpace)).2
  have hspaces : text.dropWhile isSpace <:+ text := List.dropWhile_suffix isSpace
  have hsign : (takeSign (text.dropWhile isSpace)).2 <:+ text.dropWhile isSpace :=
    ⟨sign, hsigned.symm⟩
  have hmark : dropMark base (takeSign (text.dropWhile isSpace)).2 <:+
      (takeSign (text.dropWhile isSpace)).2 := ⟨mark, hmarked.symm⟩
  have hdigits := List.dropWhile_suffix (isDigit base)
    (l := dropMark base (takeSign (text.dropWhile isSpace)).2)
  unfold endPointer scan
  simp only
  by_cases hsome :
      (dropMark base (takeSign (text.dropWhile isSpace)).2).takeWhile (isDigit base) = []
  · rw [if_pos hsome]
  · rw [if_neg hsome]
    exact hdigits.trans (hmark.trans (hsign.trans hspaces))

end Webcamd.Library
