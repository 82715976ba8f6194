import Mathlib

/-!
# The text of the files that `linux_make` reads

The helpers of `linux_make.c` that go through a file: a text is the list of its characters, without
the terminating NUL, and a `char *` into it is the text from there on.

* `loadFile` — `load_file`: a NUL in a file is read as a space.
* `readLine` — `read_line`: a newline after a backslash does not end the line.
* `skipWhile`, `skipUntil` — the functions of these names.
* `variableName` — the name in a reference `$(…)`.
* `readLine_length_lt` — a line that is read makes the file shorter.

The length of a file is taken to fit in an `int`, and memory to be there.
-/

namespace Webcamd.Make

/-- A string, without its NUL. -/
abbrev Text := List Char

/-- `load_file`, of the bytes of a file that can be read. -/
def loadFile (bytes : Text) : Text :=
  bytes.map fun c => if c = '\x00' then ' ' else c

/-- The loop of `read_line`: the line, the file after it, and the newlines that were passed over. -/
def readLineLoop (ignoreNl : Bool) : Text → Text × Text × ℕ
  | [] => ([], [], 0)
  | c :: rest =>
      if c = ' ' ∨ c = '\t' ∨ c = '\r' then
        let done := readLineLoop ignoreNl rest
        (' ' :: done.1, done.2)
      else if c = '\\' then
        let done := readLineLoop true rest
        (' ' :: done.1, done.2)
      else if c = '\n' then
        if ignoreNl then
          let done := readLineLoop false rest
          (' ' :: done.1, done.2.1, done.2.2 + 1)
        else ([], rest, 0)
      else
        let done := readLineLoop false rest
        (c :: done.1, done.2)

/-- `read_line`: the line, the file after it, and the number of the line. -/
def readLine (file : Text) (line : ℕ) : Option (Text × Text × ℕ) :=
  if file = [] then none
  else
    let done := readLineLoop false file
    some (done.1, done.2.1, line + 1 + done.2.2)

/-- `skip_while` -/
def skipWhile (text what : Text) : Text :=
  text.dropWhile fun c => c ∈ what

/-- `skip_until` -/
def skipUntil (text what : Text) : Text :=
  text.dropWhile fun c => c ∉ what

/-- What `skip_until` passes over. -/
def wordUntil (text what : Text) : Text :=
  text.takeWhile fun c => c ∉ what

/-- The name in a reference to a variable, as `variable_substitute` and `resolve_nodes` read it: the
parentheses are taken off, and a `$` without one stays. -/
def variableName (operator : Text) : Text :=
  let opened := if operator.tail.head? = some '(' then operator.drop 2 else operator
  if opened.getLast? = some ')' then opened.dropLast else opened

/-! ### Reading makes progress -/

theorem readLineLoop_length_le (ignoreNl : Bool) (text : Text) :
    (readLineLoop ignoreNl text).2.1.length ≤ text.length := by
  induction text generalizing ignoreNl with
  | nil => simp [readLineLoop]
  | cons c rest ih =>
      unfold readLineLoop
      split
      · exact (ih ignoreNl).trans (Nat.le_succ _)
      · split
        · exact (ih true).trans (Nat.le_succ _)
        · split
          · split
            · exact (ih false).trans (Nat.le_succ _)
            · exact Nat.le_succ _
          · exact (ih false).trans (Nat.le_succ _)

/-- A line of a text that is not empty ends after its first character. -/
theorem readLineLoop_length_lt (ignoreNl : Bool) (c : Char) (rest : Text) :
    (readLineLoop ignoreNl (c :: rest)).2.1.length < (c :: rest).length := by
  have hle := fun ignore => readLineLoop_length_le ignore rest
  unfold readLineLoop
  split
  · exact Nat.lt_succ_of_le (hle ignoreNl)
  · split
    · exact Nat.lt_succ_of_le (hle true)
    · split
      · split
        · exact Nat.lt_succ_of_le (hle false)
        · exact Nat.lt_succ_self _
      · exact Nat.lt_succ_of_le (hle false)

/-- **Reading makes progress**: what is left of a file after a line is shorter. -/
theorem readLine_length_lt {file : Text} {line : ℕ} {done : Text × Text × ℕ}
    (h : readLine file line = some done) : done.2.1.length < file.length := by
  unfold readLine at h
  split at h
  · exact absurd h (by simp)
  · rename_i hfile
    obtain ⟨c, rest, rfl⟩ := List.exists_cons_of_ne_nil hfile
    obtain rfl := Option.some.inj h
    exact readLineLoop_length_lt false c rest

end Webcamd.Make
