import Webcamd.Library.CheckedBuffer
import Webcamd.Program.FindDevices

/-!
# `string_filter` in place

`string_filter` of `webcamd.c` on the buffer that it is called with, where `FindDevices` has what it
makes of a text.  Pointers go through the buffer in both directions; each access is checked.

* `mapLoop`, `tailLoop`, `headLoop`, `moveLoop` — the four loops; `strcpy` — the copy of
  `string_unknown`.
* `stringFilter` — the function: the buffer after it, or `none` if it leaves the buffer.
* `Normal` — a word of letters, digits and `-`, with a letter or a digit at either end.
* `string_filter_normalises` — the function stays in the buffer, leaves the text that
  `FindDevices.stringFilter` says, and does nothing if called again.

The pointer that goes back from the end of the string is one before the buffer when the loop runs
to its end, and is not read through then.  For characters of ASCII, `isalnum` is
`Char.isAlphanum`.
-/

namespace Webcamd.Program.StringFilter

open Webcamd.Library.CheckedBuffer
open FindDevices (Text stringUnknown)

/-- `*ptr = '-'` in the first loop, for a character that is not alphanumeric. -/
def replaced (ch : Char) : Char := if ch.isAlphanum then ch else '-'

/-- The first loop: the buffer and `ptr` after it. -/
def mapLoop (buffer : Text) (ptr : ℤ) : Option (Text × ℤ) :=
  match _hload : load buffer ptr with
  | none => none
  | some ch =>
      if ch = '\x00' then some (buffer, ptr)
      else if ch.isAlphanum then mapLoop buffer (ptr + 1)
      else
        match _hstore : store buffer ptr '-' with
        | none => none
        | some buffer => mapLoop buffer (ptr + 1)
termination_by buffer.length - ptr.toNat
decreasing_by
  · have hbounds := load_bounds _hload
    omega
  · have hbounds := load_bounds _hload
    have hlength := length_store _hstore
    omega

/-- The second loop: the buffer after it. -/
def tailLoop (buffer : Text) (old ptr : ℤ) : Option Text :=
  if ptr = old then some buffer
  else
    let ptr' := ptr - 1
    match _hload : load buffer ptr' with
    | none => none
    | some ch =>
        if ch ≠ '-' then some buffer
        else
          match _hstore : store buffer ptr' '\x00' with
          | none => none
          | some buffer => tailLoop buffer old ptr'
termination_by ptr.toNat
decreasing_by
  have hbounds := load_bounds _hload
  omega

/-- The third loop: `ptr` after it. -/
def headLoop (buffer : Text) (ptr : ℤ) : Option ℤ :=
  match _hload : load buffer ptr with
  | none => none
  | some ch => if ch = '-' then headLoop buffer (ptr + 1) else some ptr
termination_by buffer.length - ptr.toNat
decreasing_by
  have hbounds := load_bounds _hload
  omega

/-- The fourth loop: the buffer and `old` after it. -/
def moveLoop (buffer : Text) (old ptr : ℤ) : Option (Text × ℤ) :=
  match _hload : load buffer ptr with
  | none => none
  | some ch =>
      if ch = '\x00' then some (buffer, old)
      else
        match _hstore : store buffer old ch with
        | none => none
        | some buffer => moveLoop buffer (old + 1) (ptr + 1)
termination_by buffer.length - ptr.toNat
decreasing_by
  have hbounds := load_bounds _hload
  have hlength := length_store _hstore
  omega

/-- `strcpy` of a text and its NUL. -/
def strcpy (buffer : Text) (tmp : ℤ) : Text → Option Text
  | [] => store buffer tmp '\x00'
  | ch :: text => (store buffer tmp ch).bind fun buffer => strcpy buffer (tmp + 1) text

/-- The loops one after another, where `old` is the first byte of the buffer, and the NUL after
them. -/
def strip (buffer : Text) : Option Text :=
  (mapLoop buffer 0).bind fun mapped =>
    (tailLoop mapped.1 0 mapped.2).bind fun buffer =>
      (headLoop buffer 0).bind fun ptr =>
        (moveLoop buffer 0 ptr).bind fun moved => store moved.1 moved.2 '\x00'

/-- **`string_filter`**: an empty string is replaced in the end. -/
def stringFilter (buffer : Text) : Option Text :=
  (strip buffer).bind fun buffer =>
    (load buffer 0).bind fun ch =>
      if ch = '\x00' then strcpy buffer 0 stringUnknown else some buffer

/-! ### The loops -/

theorem mapLoop_eq (front text rest : Text) (htext : '\x00' ∉ text) :
    mapLoop (front ++ (text ++ '\x00' :: rest)) front.length =
      some (front ++ (text.map replaced ++ '\x00' :: rest),
        ((front.length + text.length : ℕ) : ℤ)) := by
  induction text generalizing front with
  | nil =>
      rw [List.nil_append, mapLoop, load_append]
      rfl
  | cons ch text ih =>
      rw [List.mem_cons, not_or] at htext
      have hnext := ih (front ++ [replaced ch]) htext.2
      rw [List.append_assoc, List.append_assoc, List.length_append, List.length_singleton,
        Nat.cast_succ, Nat.add_assoc, Nat.add_comm 1] at hnext
      rw [List.cons_append, mapLoop, load_append, List.map_cons, List.length_cons]
      dsimp only
      rw [if_neg (Ne.symm htext.1)]
      by_cases halnum : ch.isAlphanum = true
      · have hreplaced : replaced ch = ch := if_pos halnum
        rw [hreplaced] at hnext ⊢
        rw [if_pos halnum]
        exact hnext
      · have hreplaced : replaced ch = '-' := if_neg halnum
        rw [hreplaced] at hnext ⊢
        rw [if_neg halnum, store_append]
        exact hnext

/-- The second loop, from the end of the string: the separators there become NULs, and belong to the
rest of the buffer then. -/
theorem tailLoop_eq (text rest : Text) :
    ∃ rest', tailLoop (text ++ '\x00' :: rest) 0 text.length =
        some (text.rdropWhile (· = '-') ++ '\x00' :: rest') ∧
      (text.rdropWhile (· = '-')).length + rest'.length = text.length + rest.length ∧
      (text.rdropWhile (· = '-') = text → rest' = rest) := by
  induction text using List.reverseRecOn generalizing rest with
  | nil =>
      refine ⟨rest, ?_, rfl, fun _ => rfl⟩
      rw [tailLoop]
      rfl
  | append_singleton text ch ih =>
      have hstart : ((text ++ [ch]).length : ℤ) ≠ 0 := by
        rw [List.length_append, List.length_singleton]
        omega
      have hback : ((text ++ [ch]).length : ℤ) - 1 = text.length := by
        rw [List.length_append, List.length_singleton]
        omega
      rw [tailLoop, if_neg hstart, hback, List.append_assoc, List.singleton_append]
      dsimp only
      rw [load_append]
      dsimp only
      by_cases hdash : ch = '-'
      · subst hdash
        rw [if_neg (not_not.mpr rfl), store_append, List.rdropWhile_concat_pos _ _ _ (by simp),
          List.length_append, List.length_singleton]
        obtain ⟨rest', htail, hlength, -⟩ := ih ('\x00' :: rest)
        rw [List.length_cons] at hlength
        refine ⟨rest', htail, by omega, fun heq => ?_⟩
        have hle := (List.rdropWhile_prefix (fun ch => decide (ch = '-')) text).length_le
        rw [heq, List.length_append, List.length_singleton] at hle
        omega
      · rw [if_pos hdash, List.rdropWhile_concat_neg _ _ _ (by simpa using hdash)]
        refine ⟨rest, ?_, rfl, fun _ => rfl⟩
        rw [List.append_assoc]
        rfl

theorem headLoop_eq (front text back : Text) (ch : Char) (h : ch ≠ '-') :
    headLoop (front ++ (text ++ ch :: back)) front.length = some
      ((front.length + (text.takeWhile (· = '-')).length : ℕ) : ℤ) := by
  induction text generalizing front with
  | nil =>
      rw [List.nil_append, headLoop, load_append]
      dsimp only
      rw [if_neg h]
      rfl
  | cons first text ih =>
      have hnext := ih (front ++ [first])
      rw [List.append_assoc, List.length_append, List.length_singleton, Nat.cast_succ,
        Nat.add_assoc, Nat.add_comm 1] at hnext
      rw [List.cons_append, headLoop, load_append]
      dsimp only
      by_cases hdash : first = '-'
      · rw [if_pos hdash, List.takeWhile_cons_of_pos (by simpa using hdash), List.length_cons]
        exact hnext
      · rw [if_neg hdash, List.takeWhile_cons_of_neg (by simpa using hdash)]
        rfl

/-- The first character behind a gap is written in front of it. -/
theorem store_before_gap (done gap back : Text) (ch : Char) :
    ∃ gap', gap'.length = gap.length ∧
      store (done ++ (gap ++ ch :: back)) done.length ch = some (done ++ ch :: (gap' ++ back)) := by
  cases gap with
  | nil => exact ⟨[], rfl, store_append done ch back ch⟩
  | cons first gap =>
      refine ⟨gap ++ [ch], by simp, ?_⟩
      rw [List.cons_append, store_append, List.append_assoc]
      rfl

/-- The fourth loop moves the string over the gap before it. -/
theorem moveLoop_eq (done gap text rest : Text) (htext : '\x00' ∉ text) :
    ∃ gap', gap'.length = gap.length ∧
      moveLoop (done ++ (gap ++ (text ++ '\x00' :: rest))) done.length
        ((done.length + gap.length : ℕ) : ℤ) =
      some (done ++ (text ++ (gap' ++ '\x00' :: rest)),
        ((done.length + text.length : ℕ) : ℤ)) := by
  induction text generalizing done gap with
  | nil =>
      refine ⟨gap, rfl, ?_⟩
      rw [List.nil_append, ← List.append_assoc, ← List.length_append, moveLoop, load_append]
      dsimp only
      rw [if_pos rfl]
      simp
  | cons ch text ih =>
      rw [List.mem_cons, not_or] at htext
      have hload : load (done ++ (gap ++ (ch :: text ++ '\x00' :: rest)))
          ((done.length + gap.length : ℕ) : ℤ) = some ch := by
        rw [← List.append_assoc, ← List.length_append, List.cons_append, load_append]
      obtain ⟨gap₁, hgap₁, hstore⟩ := store_before_gap done gap (text ++ '\x00' :: rest) ch
      obtain ⟨gap', hgap', hnext⟩ := ih (done ++ [ch]) gap₁ htext.2
      refine ⟨gap', hgap'.trans hgap₁, ?_⟩
      rw [moveLoop, hload]
      dsimp only
      rw [if_neg (Ne.symm htext.1), List.cons_append, hstore]
      dsimp only
      rw [List.append_assoc, List.append_assoc, List.length_append, List.length_singleton, hgap₁,
        Nat.add_right_comm, Nat.cast_succ, Nat.cast_succ, Nat.add_assoc _ 1, Nat.add_comm 1]
        at hnext
      exact hnext

/-- The NUL after the string that was moved. -/
theorem move_eq (gap text rest : Text) (htext : '\x00' ∉ text) :
    ∃ rest', ((moveLoop (gap ++ (text ++ '\x00' :: rest)) 0 gap.length).bind fun moved =>
        store moved.1 moved.2 '\x00') = some (text ++ '\x00' :: rest') ∧
      rest'.length = gap.length + rest.length ∧ (gap = [] → rest' = rest) := by
  obtain ⟨gap', hgap', hmove⟩ := moveLoop_eq [] gap text rest htext
  rw [List.length_nil, Nat.zero_add, Nat.zero_add, Nat.cast_zero, List.nil_append,
    List.nil_append] at hmove
  rw [hmove, Option.bind_some]
  cases gap' with
  | nil =>
      refine ⟨rest, store_append text _ rest _, ?_, fun _ => rfl⟩
      rw [← hgap', List.length_nil, Nat.zero_add]
  | cons first gap' =>
      refine ⟨gap' ++ '\x00' :: rest, store_append text _ _ _, ?_, ?_⟩
      · rw [← hgap', List.length_append, List.length_cons, List.length_cons]
        omega
      · rintro rfl
        cases hgap'

theorem strcpy_eq (front stale text back : Text) (ch : Char) (h : stale.length = text.length) :
    strcpy (front ++ (stale ++ ch :: back)) front.length text =
      some (front ++ (text ++ '\x00' :: back)) := by
  induction text generalizing front stale with
  | nil =>
      obtain rfl := List.eq_nil_of_length_eq_zero h
      exact store_append front ch back '\x00'
  | cons first text ih =>
      obtain ⟨old, stale, rfl⟩ := List.exists_cons_of_length_eq_add_one h
      have hnext := ih (front ++ [first]) stale (Nat.succ.inj h)
      rw [List.append_assoc, List.append_assoc, List.length_append, List.length_singleton,
        Nat.cast_succ] at hnext
      rw [List.cons_append, strcpy, store_append, Option.bind_some]
      exact hnext

/-! ### The function -/

/-- The text between the separators at its ends. -/
def trimmed (text : Text) : Text :=
  ((text.map replaced).rdropWhile (· = '-')).dropWhile (· = '-')

theorem replaced_ne_nul {text : Text} (htext : '\x00' ∉ text) : '\x00' ∉ text.map replaced := by
  intro hmem
  obtain ⟨ch, hch, heq⟩ := List.mem_map.mp hmem
  unfold replaced at heq
  split at heq
  · exact htext (heq ▸ hch)
  · exact absurd heq (by decide)

theorem trimmed_subset (text : Text) : trimmed text ⊆ text.map replaced :=
  fun _ hmem => (List.rdropWhile_prefix _ _).subset ((List.dropWhile_suffix _).subset hmem)

theorem trimmed_ne_nul {text : Text} (htext : '\x00' ∉ text) : '\x00' ∉ trimmed text :=
  fun hmem => replaced_ne_nul htext (trimmed_subset text hmem)

/-- **The loops** leave the text between the separators; where there are none, nothing moves. -/
theorem strip_eq {text : Text} (rest : Text) (htext : '\x00' ∉ text) :
    ∃ rest', strip (text ++ '\x00' :: rest) = some (trimmed text ++ '\x00' :: rest') ∧
      (trimmed text).length + rest'.length = text.length + rest.length ∧
      (trimmed text = text.map replaced → rest' = rest) := by
  have hmap := mapLoop_eq [] text rest htext
  obtain ⟨rest₁, htail, hlength₁, hsame₁⟩ := tailLoop_eq (text.map replaced) rest
  have hhead := headLoop_eq [] ((text.map replaced).rdropWhile (· = '-')) rest₁ '\x00' (by decide)
  obtain ⟨rest', hmove, hlength', hsame'⟩ := move_eq
    (((text.map replaced).rdropWhile (· = '-')).takeWhile (· = '-')) (trimmed text) rest₁
    (trimmed_ne_nul htext)
  have hsplit := List.takeWhile_append_dropWhile (p := (· = '-'))
    (l := (text.map replaced).rdropWhile (· = '-'))
  change _ ++ trimmed text = _ at hsplit
  have htaken := congrArg List.length hsplit
  rw [List.length_append] at htaken
  rw [List.length_map] at hlength₁ htail
  simp only [List.nil_append, List.length_nil, Nat.zero_add, Nat.cast_zero] at hmap hhead
  refine ⟨rest', ?_, by omega, fun htrimmed => ?_⟩
  · unfold strip
    rw [hmap, Option.bind_some, htail, Option.bind_some, hhead, Option.bind_some, ← hmove,
      ← List.append_assoc, hsplit]
  · have hle := (List.rdropWhile_prefix (fun ch => decide (ch = '-'))
      (text.map replaced)).length_le
    rw [htrimmed, List.length_map] at htaken
    rw [List.length_map] at hle
    have hgap := List.eq_nil_of_length_eq_zero (show (((text.map replaced).rdropWhile
      (· = '-')).takeWhile (· = '-')).length = 0 by omega)
    rw [hgap, List.nil_append, htrimmed] at hsplit
    rw [hsame' hgap, hsame₁ hsplit.symm]

/-- A string that is not empty begins with a character that is not the NUL. -/
theorem load_first (text rest : Text) (ch : Char) :
    load (ch :: text ++ '\x00' :: rest) 0 = some ch :=
  load_append [] ch (text ++ '\x00' :: rest)

/-- **The function** stays in the buffer and leaves the text that the model of its callers has. -/
theorem stringFilter_eq {text rest : Text} (htext : '\x00' ∉ text)
    (hsize : 8 ≤ (text ++ '\x00' :: rest).length) :
    ∃ rest', stringFilter (text ++ '\x00' :: rest) =
        some (FindDevices.stringFilter text ++ '\x00' :: rest') ∧
      (FindDevices.stringFilter text).length + rest'.length = text.length + rest.length ∧
      (trimmed text ≠ [] → trimmed text = text.map replaced → rest' = rest) := by
  obtain ⟨rest₁, hstrip, hlength, hsame⟩ := strip_eq rest htext
  have hfilter : FindDevices.stringFilter text =
      if trimmed text = [] then stringUnknown else trimmed text := rfl
  rw [hfilter]
  unfold stringFilter
  rw [hstrip, Option.bind_some]
  cases htrimmed : trimmed text with
  | nil =>
      rw [List.length_append, List.length_cons] at hsize
      rw [htrimmed, List.length_nil, Nat.zero_add] at hlength
      have hunknown : stringUnknown.length = 7 := rfl
      have hstale : (('\x00' :: rest₁).take stringUnknown.length).length = stringUnknown.length :=
        List.length_take_of_le (by rw [List.length_cons]; omega)
      have hdrop : (('\x00' :: rest₁).drop stringUnknown.length).length = rest₁.length - 6 := by
        rw [List.length_drop, List.length_cons]
        omega
      obtain ⟨ch, rest', hback⟩ := List.exists_cons_of_length_pos
        (show 0 < (('\x00' :: rest₁).drop stringUnknown.length).length by omega)
      have hcopy := strcpy_eq [] _ stringUnknown rest' ch hstale
      rw [← hback, List.take_append_drop] at hcopy
      refine ⟨rest', hcopy, ?_, fun h => absurd rfl h⟩
      rw [hback, List.length_cons] at hdrop
      rw [if_pos rfl]
      omega
  | cons first word =>
      have hfirst : first ≠ '\x00' := by
        rintro rfl
        refine trimmed_ne_nul htext ?_
        rw [htrimmed]
        exact List.mem_cons_self
      rw [load_first, Option.bind_some, if_neg hfirst, if_neg (List.cons_ne_nil first word),
        ← htrimmed]
      exact ⟨rest₁, rfl, hlength, fun _ => hsame⟩

/-! ### Words -/

/-- **A word**: letters, digits and `-`, with a letter or a digit at either end. -/
structure Normal (word : Text) : Prop where
  nonempty : word ≠ []
  chars : ∀ ch ∈ word, ch.isAlphanum = true ∨ ch = '-'
  first : (word.head nonempty).isAlphanum = true
  last : (word.getLast nonempty).isAlphanum = true

theorem replaced_cases (ch : Char) :
    (replaced ch).isAlphanum = true ∨ replaced ch = '-' := by
  unfold replaced
  split
  · exact .inl ‹_›
  · exact .inr rfl

theorem isAlphanum_of_mem_trimmed {text : Text} {ch : Char} (hmem : ch ∈ trimmed text) :
    ch.isAlphanum = true ∨ ch = '-' := by
  obtain ⟨old, -, rfl⟩ := List.mem_map.mp (trimmed_subset text hmem)
  exact replaced_cases old

/-- What is left between the separators is a word. -/
theorem normal_trimmed {text : Text} (h : trimmed text ≠ []) : Normal (trimmed text) := by
  have hsuffix : trimmed text <:+ (text.map replaced).rdropWhile (· = '-') :=
    List.dropWhile_suffix _
  have hrest : (text.map replaced).rdropWhile (· = '-') ≠ [] := by
    intro hnil
    rw [hnil, List.suffix_nil] at hsuffix
    exact h hsuffix
  refine ⟨h, fun ch hmem => isAlphanum_of_mem_trimmed hmem, ?_, ?_⟩
  · have hhead := List.head_dropWhile_not (fun ch => decide (ch = '-')) h
    change decide ((trimmed text).head h = '-') = false at hhead
    exact (isAlphanum_of_mem_trimmed (List.head_mem h)).resolve_right (of_decide_eq_false hhead)
  · have hlast := List.rdropWhile_last_not (fun ch => decide (ch = '-')) (text.map replaced) hrest
    rw [← hsuffix.getLast h] at hlast
    exact (isAlphanum_of_mem_trimmed (List.getLast_mem h)).resolve_right (by simpa using hlast)

theorem normal_unknown : Normal stringUnknown :=
  have hletters : stringUnknown.all Char.isAlphanum = true := by decide
  ⟨by decide, fun ch hmem => .inl (List.all_eq_true.mp hletters ch hmem), by decide, by decide⟩

/-- What the function leaves is a word. -/
theorem normal_stringFilter (text : Text) : Normal (FindDevices.stringFilter text) := by
  change Normal (if trimmed text = [] then stringUnknown else trimmed text)
  split
  · exact normal_unknown
  · rename_i h
    exact normal_trimmed h

theorem isAlphanum_ne_dash {ch : Char} (h : ch.isAlphanum = true) :
    ¬decide (ch = '-') = true := by
  rw [decide_eq_true_eq]
  rintro rfl
  exact absurd h (by decide)

/-- A word stays as it is. -/
theorem Normal.trimmed_eq {word : Text} (h : Normal word) :
    word.map replaced = word ∧ trimmed word = word := by
  have hreplaced : ∀ ch ∈ word, replaced ch = ch := by
    intro ch hmem
    obtain halnum | rfl := h.chars ch hmem
    · exact if_pos halnum
    · rfl
  have hmap : word.map replaced = word :=
    (List.map_congr_left hreplaced).trans (List.map_id word)
  have hlast : word.rdropWhile (· = '-') = word :=
    List.rdropWhile_eq_self_iff.mpr fun _ => isAlphanum_ne_dash h.last
  have hfirst : word.dropWhile (· = '-') = word := by
    rw [List.dropWhile_eq_self_iff]
    intro hpos
    rw [← List.head_eq_getElem h.nonempty]
    exact isAlphanum_ne_dash h.first
  refine ⟨hmap, ?_⟩
  unfold trimmed
  rw [hmap, hlast, hfirst]

theorem Normal.stringFilter_eq {word : Text} (h : Normal word) :
    FindDevices.stringFilter word = word := by
  change (if trimmed word = [] then stringUnknown else trimmed word) = word
  rw [h.trimmed_eq.2, if_neg h.nonempty]

theorem Normal.notMem_nul {word : Text} (h : Normal word) : '\x00' ∉ word := by
  intro hmem
  obtain halnum | heq := h.chars _ hmem
  · exact absurd halnum (by decide)
  · exact absurd heq (by decide)

theorem length_stringFilter_le (text : Text) :
    (FindDevices.stringFilter text).length ≤ max text.length stringUnknown.length := by
  change (if trimmed text = [] then stringUnknown else trimmed text).length ≤ _
  split
  · exact le_max_right _ _
  · have htail := (List.rdropWhile_prefix (fun ch => decide (ch = '-'))
      (text.map replaced)).length_le
    have hhead := (List.dropWhile_suffix (fun ch => decide (ch = '-'))
      (l := (text.map replaced).rdropWhile (· = '-'))).length_le
    rw [List.length_map] at htail
    exact le_max_of_le_left (hhead.trans htail)

/-- **`string_filter` makes a word**: for every string in a buffer of at least eight bytes, every
access is in the buffer, and the string after it is the one that `find_devices` works with, a word
that is not longer than the string and `unknown`; called again, the function changes nothing. -/
theorem string_filter_normalises {text rest : Text} (htext : '\x00' ∉ text)
    (hsize : 8 ≤ (text ++ '\x00' :: rest).length) :
    ∃ word rest', stringFilter (text ++ '\x00' :: rest) = some (word ++ '\x00' :: rest') ∧
      (word ++ '\x00' :: rest').length = (text ++ '\x00' :: rest).length ∧ '\x00' ∉ word ∧
      word = FindDevices.stringFilter text ∧ Normal word ∧
      word.length ≤ max text.length stringUnknown.length ∧
      stringFilter (word ++ '\x00' :: rest') = some (word ++ '\x00' :: rest') := by
  obtain ⟨rest', hfilter, hlength, -⟩ := stringFilter_eq htext hsize
  have hnormal := normal_stringFilter text
  have hbuffer : (FindDevices.stringFilter text ++ '\x00' :: rest').length =
      (text ++ '\x00' :: rest).length := by
    rw [List.length_append, List.length_append, List.length_cons, List.length_cons]
    omega
  refine ⟨_, rest', hfilter, hbuffer, hnormal.notMem_nul, rfl, hnormal,
    length_stringFilter_le text, ?_⟩
  obtain ⟨rest'', hagain, -, hsame⟩ :=
    @stringFilter_eq (FindDevices.stringFilter text) rest' hnormal.notMem_nul (by rwa [hbuffer])
  obtain ⟨hmap, htrimmed⟩ := hnormal.trimmed_eq
  rw [hagain, hnormal.stringFilter_eq,
    hsame (by rw [htrimmed]; exact hnormal.nonempty) (htrimmed.trans hmap.symm)]

/-- `"--a b-"`, in a buffer of nine bytes. -/
theorem string_filter_normalises_separators : ∃ word rest',
    stringFilter ['-', '-', 'a', ' ', 'b', '-', '\x00', '\x00', '\x00'] =
      some (word ++ '\x00' :: rest') ∧ word = ['a', '-', 'b'] := by
  obtain ⟨word, rest', hfilter, -, -, hword, -⟩ := @string_filter_normalises
    ['-', '-', 'a', ' ', 'b', '-'] ['\x00', '\x00'] (by decide) (by decide)
  exact ⟨word, rest', hfilter, hword.trans (by decide)⟩

end Webcamd.Program.StringFilter
