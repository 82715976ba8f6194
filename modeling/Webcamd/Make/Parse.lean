import Mathlib
import Webcamd.Library.Conditionals
import Webcamd.Make.Config
import Webcamd.Make.Nodes

/-!
# Parsing the makefiles

`parse_makefile` reads the makefile of a directory line by line, and calls itself for the
directories that are assigned to `obj-y` and `obj-m`.  Its variable `skip` is for the conditionals.

* `logicalLines` — the lines of a file, as `read_line` gives them.
* `testIfdef`, `testIfeq` — the very simple expression matchers.
* `parseLine`, `parseMakefile` — the body of the loop, and the function.
* `token` — what a line is for the conditionals.
* `SameAnswers` — the lookups in two configurations give the same values; parsing keeps them.
* `parseLine_eq` — the body of the loop is the step of a counter.
* `skip_le_lines` — `skip` is at most the number of lines.
* `parse_makefile_conditionals` — a line is processed, and a condition evaluated, just if all
  conditions around it hold.

The length of a file is taken to fit in an `int`; `skip` does then, too.
-/

namespace Webcamd.Make

open Webcamd.Library
open Conditionals (Token Block Place Outcome pass)

/-! ### Words -/

/-- `strchr` -/
def strchr (text : Text) (c : Char) : Option Text :=
  let found := skipUntil text [c]
  if found = [] then none else some found

/-- `skip_until_tp`: what is passed over, and the text from there on.  `tp` counts parentheses. -/
def skipUntilTp (what : Text) : ℤ → Text → Text × Text
  | _, [] => ([], [])
  | tp, c :: rest =>
      let tp := if c = '(' then tp + 1 else if c = ')' then tp - 1 else tp
      if 0 < tp ∨ c ∉ what then
        let done := skipUntilTp what tp rest
        (c :: done.1, done.2)
      else ([], c :: rest)

/-- The lines of a file. -/
def logicalLines (file : Text) : List Text :=
  match _h : readLine file 0 with
  | none => []
  | some done => done.1 :: logicalLines done.2.1
termination_by file.length
decreasing_by exact readLine_length_lt _h

/-- `"\t\r "` -/
def blanks : Text := ['\t', '\r', ' ']

/-- `"\t\r :+=#"` -/
def wordEnds : Text := ['\t', '\r', ' ', ':', '+', '=', '#']

def ifdefWord : Text := ['i', 'f', 'd', 'e', 'f']

def ifndefWord : Text := ['i', 'f', 'n', 'd', 'e', 'f']

def ifeqWord : Text := ['i', 'f', 'e', 'q']

def ifneqWord : Text := ['i', 'f', 'n', 'e', 'q']

def endifWord : Text := ['e', 'n', 'd', 'i', 'f']

/-! ### The matchers -/

/-- `variable_substitute` of a word from its first `$` on, in place: the table after it, and the
word. -/
def ConfigTable.substitute (root : ConfigTable) (word : Text) : ConfigTable × Text :=
  let done := root.variableSubstitute (strchr word '$')
  (done.1, wordUntil word ['$'] ++ done.2.getD [])

/-- The matcher of `ifdef` and `ifndef`, for what comes after the word `parent`. -/
def ConfigTable.testIfdef (root : ConfigTable) (parent temp : Text) : ConfigTable × Bool :=
  let a := wordUntil (skipWhile temp blanks) ['\t', '\r', ' ', '#']
  let b := root.getConfigEntry a
  (b.1, if parent = ifdefWord then b.2 ≠ .n else b.2 = .n)

/-- The matcher of `ifeq` and `ifneq`.  Without a parenthesis the condition counts as false. -/
def ConfigTable.testIfeq (root : ConfigTable) (parent temp : Text) : ConfigTable × Bool :=
  let ptr := skipWhile temp blanks
  if ptr.head? ≠ some '(' then (root, false)
  else
    let first := skipUntilTp ['\t', '\r', ' ', ','] 0 ptr.tail
    let second := skipUntilTp ['\t', '\r', ' ', ')'] 0 (skipWhile first.2 ['\t', '\r', ' ', ','])
    let a := root.substitute first.1
    let b := a.1.substitute second.1
    (b.1, if parent = ifeqWord then a.2 = b.2 else a.2 ≠ b.2)

/-! ### The loop over the lines -/

/-- The lists that `parse_makefile` writes to. -/
structure Globals where
  rootConfig : ConfigTable
  rootDirectory : List Text
  rootNode : NodeTable

/-- How `parse_makefile` ends the program. -/
inductive ParseError where
  /-- Recursive parse Makefile limit of 64 exceeded in '%s'. -/
  | recursionLimit (path : Text)
  /-- File '%sMakefile' does not exist. -/
  | noFile (path : Text)
  deriving DecidableEq

/-- `add_child`, to the node of the name. -/
def NodeTable.addChild (head : NodeTable) (name : Text) (child : Child) : NodeTable where
  nodes := head.nodes.map fun node =>
    if node.name = name then { node with children := node.children ++ [child] } else node
  nodup := by
    have hnames : ∀ node : Node, (if node.name = name then
        { node with children := node.children ++ [child] } else node).name = node.name := by
      intro node
      split <;> rfl
    simpa [List.map_map, Function.comp_def, hnames] using head.nodup

theorem skipUntil_length_lt {text what : Text} (h : wordUntil text what ≠ []) :
    (skipUntil text what).length < text.length := by
  have hlength := congrArg List.length
    (List.takeWhile_append_dropWhile (p := (· ∉ what)) (l := text))
  have hpos := List.length_pos_iff.mpr h
  rw [List.length_append] at hlength
  unfold wordUntil at hpos
  unfold skipUntil
  omega

theorem skipWhile_length_le (text what : Text) : (skipWhile text what).length ≤ text.length :=
  (List.dropWhile_suffix _).length_le

/-- The body of the loop over the words that are assigned to a node: `enter` is the call for a
directory. -/
def parseChild (enter : Text → Globals → Except ParseError Globals) (rootExclude : List Text)
    (path name child : Text) (root : Globals) : Except ParseError Globals :=
  if child.getLast? = some '/' then
    if name = ['o', 'b', 'j', '-', 'y'] ∨ name = ['o', 'b', 'j', '-', 'm'] then
      enter (path ++ child) root
    else .ok root
  else if child ∈ rootExclude then .ok root
  else .ok { root with rootNode := root.rootNode.addChild name ⟨child, path⟩ }

/-- The loop over the words that are assigned to a node. -/
def parseChildren (enter : Text → Globals → Except ParseError Globals) (rootExclude : List Text)
    (path name temp : Text) (root : Globals) : Except ParseError Globals :=
  let ptr := skipWhile temp blanks
  let child := wordUntil ptr ['\t', '\r', ' ', '#']
  if _h : child = [] then .ok root
  else
    match parseChild enter rootExclude path name child root with
    | .error error => .error error
    | .ok next =>
        parseChildren enter rootExclude path name (skipUntil ptr ['\t', '\r', ' ', '#']) next
termination_by temp.length
decreasing_by exact (skipUntil_length_lt _h).trans_le (skipWhile_length_le temp blanks)

/-- The end of the body of the loop, for a line that is not a conditional: `temp` is what comes
after the word `parent`. -/
def parseAssignment (enter : Text → Globals → Except ParseError Globals) (rootExclude : List Text)
    (path : Text) (i : ℕ) (parent temp : Text) (root : Globals) :
    List Conditionals.Mark × Except ParseError Globals :=
  let done := root.rootConfig.substitute parent
  let ptr := skipWhile temp blanks
  let temp := skipWhile ptr [':', '+', '=']
  if temp = ptr then ([], .ok { root with rootConfig := done.1 })
  else
    ([.processed i], parseChildren enter rootExclude path done.2 temp
      { root with rootConfig := done.1, rootNode := (root.rootNode.addNode done.2).1 })

/-- The body of the loop of `parse_makefile`, for the line `i`, with `skip` and the lists. -/
def parseLine (enter : Text → Globals → Except ParseError Globals) (rootExclude : List Text)
    (path : Text) (i : ℕ) (carried : ℕ × Globals) (line : Text) :
    List Conditionals.Mark × Except ParseError (ℕ × Globals) :=
  let skip := carried.1
  let root := carried.2
  let ptr := skipWhile line blanks
  if ptr.head? = some '#' then ([], .ok (skip, root))
  else
    let temp := skipUntil ptr wordEnds
    let parent := wordUntil ptr wordEnds
    if parent = [] then ([], .ok (skip, root))
    else if parent = ifdefWord ∨ parent = ifndefWord then
      if skip ≠ 0 then ([], .ok (skip + 1, root))
      else
        let found := root.rootConfig.testIfdef parent temp
        let skip := if found.2 then skip else skip + 1
        ([.evaluated i], .ok (skip, { root with rootConfig := found.1 }))
    else if parent = ifeqWord ∨ parent = ifneqWord then
      if skip ≠ 0 then ([], .ok (skip + 1, root))
      else
        let found := root.rootConfig.testIfeq parent temp
        let skip := if found.2 then skip else skip + 1
        ([.evaluated i], .ok (skip, { root with rootConfig := found.1 }))
    else if parent = endifWord then ([], .ok (if skip ≠ 0 then skip - 1 else skip, root))
    else if skip ≠ 0 then ([], .ok (skip, root))
    else
      let done := parseAssignment enter rootExclude path i parent temp root
      (done.1, done.2.map fun next => (skip, next))

/-- The name of a makefile. -/
def makefileName : Text := ['M', 'a', 'k', 'e', 'f', 'i', 'l', 'e']

/-- `parse_makefile`, which may call itself as often as `depth` says, with the files that can be
read: what is done with the lines of this file, and `skip` at its end with the lists. -/
def parseMakefile (files : Text → Option Text) (rootExclude : List Text) :
    ℕ → Text → Globals → Outcome ParseError (ℕ × Globals)
  | 0, path, _ => ⟨[], 0, .error (.recursionLimit path)⟩
  | depth + 1, path, root =>
      let root := { root with rootDirectory := root.rootDirectory ++ [path] }
      match files (path ++ makefileName) with
      | none => ⟨[], 0, .error (.noFile path)⟩
      | some bytes =>
          let enter := fun path root =>
            (parseMakefile files rootExclude depth path root).returned.map Prod.snd
          pass (parseLine enter rootExclude path) 0 (0, root) (logicalLines (loadFile bytes))

/-! ### Lines -/

/-- The first word of a line. -/
def keyword (line : Text) : Text := wordUntil (skipWhile line blanks) wordEnds

/-- What comes after it. -/
def afterKeyword (line : Text) : Text := skipUntil (skipWhile line blanks) wordEnds

def isIfdef (line : Text) : Bool := keyword line = ifdefWord ∨ keyword line = ifndefWord

def isIfeq (line : Text) : Bool := keyword line = ifeqWord ∨ keyword line = ifneqWord

/-- What a line is for the conditionals. -/
def token (line : Text) : Token Text Text :=
  if isIfdef line ∨ isIfeq line then .opens line
  else if keyword line = endifWord then .closes
  else .line line

/-- The line assigns: after its word comes an operator. -/
def IsAssignment (line : Text) : Prop :=
  keyword line ≠ [] ∧ skipWhile (skipWhile (afterKeyword line) blanks) [':', '+', '='] ≠
    skipWhile (afterKeyword line) blanks

instance (line : Text) : Decidable (IsAssignment line) := inferInstanceAs (Decidable (_ ∧ _))

/-- The matcher for the line of a conditional. -/
def ConfigTable.test (root : ConfigTable) (line : Text) : ConfigTable × Bool :=
  if isIfdef line then root.testIfdef (keyword line) (afterKeyword line)
  else root.testIfeq (keyword line) (afterKeyword line)

/-- **The condition of a line holds**, as the matcher says. -/
def ConfigTable.Holds (root : ConfigTable) (line : Text) : Prop := (root.test line).2 = true

/-- What is done with the lines. -/
def actions (enter : Text → Globals → Except ParseError Globals) (rootExclude : List Text)
    (path : Text) : Conditionals.Actions Globals ParseError Text Text where
  evaluate line root :=
    let found := root.rootConfig.test line
    ({ root with rootConfig := found.1 }, found.2)
  process line root :=
    if keyword line = [] then .ok root
    else (parseAssignment enter rootExclude path 0 (keyword line) (afterKeyword line) root).2
  noted line := IsAssignment line

/-- **What is said of the conditionals**: `block` is the nesting of the lines. -/
structure Conditional (config : ConfigTable) (block : Block Text Text)
    (outcome : Outcome ParseError (ℕ × Globals)) : Prop where
  /-- An assignment that is read is processed just if all conditions around it hold. -/
  processed : ∀ place ∈ block.places [] 0, ∀ line, place.token = .line line → IsAssignment line →
    (.processed place.index ∈ outcome.marks ↔
      place.index < outcome.read ∧ ∀ condition ∈ place.enclosing, config.Holds condition)
  /-- A condition that is read is evaluated just if all conditions around it hold. -/
  evaluated : ∀ place ∈ block.places [] 0, ∀ line, place.token = .opens line →
    (.evaluated place.index ∈ outcome.marks ↔
      place.index < outcome.read ∧ ∀ condition ∈ place.enclosing, config.Holds condition)
  /-- At the end all lines are read, and `skip` is 0. -/
  returned : ∀ skip last, outcome.returned = .ok (skip, last) →
    outcome.read = block.tokens.length ∧ skip = 0
  /-- The program ends before only where an assignment is processed. -/
  left : ∀ error, outcome.returned = .error error → ∃ place ∈ block.places [] 0,
    place.index + 1 = outcome.read ∧ (∃ line, place.token = .line line ∧ IsAssignment line) ∧
      ∀ condition ∈ place.enclosing, config.Holds condition

/-! ### What the lookups give -/

/-- The lookups give the same values. -/
def ConfigTable.SameAnswers (first second : ConfigTable) : Prop :=
  ∀ name, (first.getConfigEntry name).2 = (second.getConfigEntry name).2

namespace ConfigTable

variable {root first second third : ConfigTable}

theorem getConfigEntry_value (root : ConfigTable) (what : Text) :
    (root.getConfigEntry what).2 = (answered what (root.lookup what)).value := by
  have hlookup := root.getConfigEntry_lookup what what
  rw [if_pos rfl] at hlookup
  unfold getConfigEntry at hlookup ⊢
  split at hlookup
  · rename_i c0 hfound
    obtain ⟨hvalue, hname⟩ : c0.value ≠ .d ∧ c0.name = what := by
      simpa using List.find?_some hfound
    have hmem := (root.mem_entries_iff c0).mp (List.mem_of_find?_eq_some hfound)
    rw [hname] at hmem
    simp [hmem, answered, hvalue]
  · rename_i hnone
    rw [newConfig_lookup, if_pos rfl] at hlookup
    exact congrArg Config.value (Option.some.inj hlookup)

/-- A lookup does not change what the lookups give. -/
theorem getConfigEntry_sameAnswers (root : ConfigTable) (what : Text) :
    (root.getConfigEntry what).1.SameAnswers root := by
  intro name
  rw [getConfigEntry_value, getConfigEntry_value, getConfigEntry_lookup]
  split
  · rename_i hname
    rw [hname, answered_again]
  · rfl

theorem substitute_sameAnswers (root : ConfigTable) (word : Text) :
    (root.substitute word).1.SameAnswers root := by
  unfold substitute variableSubstitute
  cases strchr word '$' with
  | none => exact fun _ => rfl
  | some text => exact root.getConfigEntry_sameAnswers (variableName text)

/-- A word is the same after the substitution if the lookups are. -/
theorem SameAnswers.substitute (h : first.SameAnswers second) (word : Text) :
    (first.substitute word).2 = (second.substitute word).2 := by
  unfold ConfigTable.substitute variableSubstitute
  cases strchr word '$' with
  | none => rfl
  | some text => simp only [h (variableName text)]

theorem SameAnswers.trans (h : first.SameAnswers second) (h' : second.SameAnswers third) :
    first.SameAnswers third :=
  fun name => (h name).trans (h' name)

/-- **The matchers do not change what the lookups give**, … -/
theorem test_sameAnswers (root : ConfigTable) (line : Text) :
    (root.test line).1.SameAnswers root := by
  unfold test
  split
  · exact root.getConfigEntry_sameAnswers _
  · unfold testIfeq
    dsimp only
    split
    · exact fun _ => rfl
    · exact (substitute_sameAnswers _ _).trans (substitute_sameAnswers _ _)

/-- … **and depend on nothing else.** -/
theorem SameAnswers.test (h : first.SameAnswers second) (line : Text) :
    (first.test line).2 = (second.test line).2 := by
  unfold ConfigTable.test
  split
  · unfold testIfdef
    simp only [h _]
  · unfold testIfeq
    dsimp only
    split
    · rfl
    · have hsubstituted : ∀ word, (first.substitute word).1.SameAnswers
          (second.substitute word).1 := by
        intro word name
        rw [substitute_sameAnswers first word name, h name,
          substitute_sameAnswers second word name]
      simp only [h.substitute, (hsubstituted _).substitute]

end ConfigTable

section Parse

variable {enter : Text → Globals → Except ParseError Globals} {rootExclude : List Text}
  {path : Text} {config : ConfigTable}

/-- What is done for the directories keeps what the lookups give. -/
def KeepsAnswers (enter : Text → Globals → Except ParseError Globals) : Prop :=
  ∀ path root next, enter path root = .ok next → next.rootConfig.SameAnswers root.rootConfig

theorem parseChild_sameAnswers (henter : KeepsAnswers enter) {name child : Text}
    {root next : Globals} (h : parseChild enter rootExclude path name child root = .ok next) :
    next.rootConfig.SameAnswers root.rootConfig := by
  unfold parseChild at h
  split at h
  · split at h
    · exact henter _ root next h
    · exact Except.ok.inj h ▸ fun _ => rfl
  · split at h
    · exact Except.ok.inj h ▸ fun _ => rfl
    · obtain rfl := Except.ok.inj h
      exact fun _ => rfl

theorem parseChildren_sameAnswers (henter : KeepsAnswers enter) {name temp : Text}
    {root last : Globals}
    (h : parseChildren enter rootExclude path name temp root = .ok last) :
    last.rootConfig.SameAnswers root.rootConfig := by
  induction temp, root using parseChildren.induct enter rootExclude path name with
  | case1 temp root ptr child hend =>
      rw [parseChildren, dif_pos hend] at h
      exact Except.ok.inj h ▸ fun _ => rfl
  | case2 temp root ptr child hchild error hstep =>
      rw [parseChildren, dif_neg hchild, hstep] at h
      cases h
  | case3 temp root ptr child hchild next hstep ih =>
      rw [parseChildren, dif_neg hchild, hstep] at h
      exact (ih h).trans (parseChild_sameAnswers henter hstep)

theorem parseAssignment_sameAnswers (henter : KeepsAnswers enter) {i : ℕ} {parent temp : Text}
    {root last : Globals}
    (h : (parseAssignment enter rootExclude path i parent temp root).2 = .ok last) :
    last.rootConfig.SameAnswers root.rootConfig := by
  have hparent := root.rootConfig.substitute_sameAnswers parent
  unfold parseAssignment at h
  dsimp only at h
  split at h
  · obtain rfl := Except.ok.inj h
    exact hparent
  · exact (parseChildren_sameAnswers henter h).trans hparent

/-! ### The loop and the counter -/

/-- A line that begins with a `#` has no first word. -/
theorem keyword_of_comment {line : Text} (h : (skipWhile line blanks).head? = some '#') :
    keyword line = [] := by
  obtain ⟨rest, hrest⟩ := List.head?_eq_some_iff.mp h
  rw [keyword, hrest]
  rfl

/-- The line is noted as one that is processed just if it assigns. -/
theorem parseAssignment_note {i : ℕ} {line : Text} (hword : keyword line ≠ []) (root : Globals) :
    (parseAssignment enter rootExclude path i (keyword line) (afterKeyword line) root).1 =
      (actions enter rootExclude path).note i line := by
  unfold parseAssignment Conditionals.Actions.note actions IsAssignment
  by_cases hoperator : skipWhile (skipWhile (afterKeyword line) blanks) [':', '+', '='] =
      skipWhile (afterKeyword line) blanks
  · simp [hoperator]
  · simp [hoperator, hword]

/-- The number of the line is only for the notes. -/
theorem parseAssignment_index (i j : ℕ) (parent temp : Text) (root : Globals) :
    (parseAssignment enter rootExclude path i parent temp root).2 =
      (parseAssignment enter rootExclude path j parent temp root).2 := by
  unfold parseAssignment
  dsimp only
  split <;> rfl

theorem process_of_blank {line : Text} (hword : keyword line = []) (root : Globals) :
    (actions enter rootExclude path).process line root = .ok root :=
  if_pos hword

theorem process_of_word {line : Text} (hword : keyword line ≠ []) (i : ℕ) (root : Globals) :
    (actions enter rootExclude path).process line root =
      (parseAssignment enter rootExclude path i (keyword line) (afterKeyword line) root).2 :=
  (if_neg hword).trans (parseAssignment_index 0 i _ _ root)

/-- A line without a word does nothing. -/
theorem step_blank {line : Text} (hword : keyword line = []) (i : ℕ) (carried : ℕ × Globals) :
    (actions enter rootExclude path).step i carried (token line) = ([], .ok carried) := by
  have htoken : token line = .line line := by
    unfold token isIfdef isIfeq
    rw [hword]
    rfl
  obtain ⟨skip, root⟩ := carried
  rw [htoken, Conditionals.Actions.step]
  by_cases hskip : skip ≠ 0
  · rw [if_pos hskip]
  · rw [if_neg hskip]
    obtain rfl := not_not.mp hskip
    have hnoted : (actions enter rootExclude path).noted line = false :=
      decide_eq_false fun h => h.1 hword
    rw [Conditionals.Actions.note, hnoted, process_of_blank hword]
    rfl

/-- The line of a conditional, with what its matcher finds. -/
theorem step_opens {line : Text} {root : Globals} {found : ConfigTable × Bool}
    (htoken : token line = .opens line) (htest : root.rootConfig.test line = found) (i skip : ℕ) :
    (actions enter rootExclude path).step i (skip, root) (token line) =
      if skip ≠ 0 then ([], .ok (skip + 1, root))
      else ([.evaluated i],
        .ok (if found.2 then skip else skip + 1, { root with rootConfig := found.1 })) := by
  rw [htoken, Conditionals.Actions.step]
  by_cases hskip : skip ≠ 0
  · rw [if_pos hskip, if_pos hskip]
  · obtain rfl := not_not.mp hskip
    simp only [actions, htest, ne_eq, not_true_eq_false, if_false, Nat.zero_add]

theorem step_closes {line : Text} (htoken : token line = .closes) (i skip : ℕ) (root : Globals) :
    (actions enter rootExclude path).step i (skip, root) (token line) =
      ([], .ok (if skip ≠ 0 then skip - 1 else skip, root)) := by
  rw [htoken, Conditionals.Actions.step]
  by_cases hskip : skip ≠ 0
  · rw [if_pos hskip]
  · rw [if_neg hskip, not_not.mp hskip]
    rfl

/-- Any other line that has a word. -/
theorem step_line {line : Text} (htoken : token line = .line line) (hword : keyword line ≠ [])
    (i skip : ℕ) (root : Globals) :
    (actions enter rootExclude path).step i (skip, root) (token line) =
      if skip ≠ 0 then ([], .ok (skip, root))
      else
        let done := parseAssignment enter rootExclude path i (keyword line) (afterKeyword line) root
        (done.1, done.2.map fun next => (skip, next)) := by
  rw [htoken, Conditionals.Actions.step]
  by_cases hskip : skip ≠ 0
  · rw [if_pos hskip, if_pos hskip]
  · rw [if_neg hskip, if_neg hskip, not_not.mp hskip, process_of_word hword i,
      ← parseAssignment_note hword root]

/-- **The body of the loop is the step of a counter.** -/
theorem parseLine_eq (i : ℕ) (carried : ℕ × Globals) (line : Text) :
    parseLine enter rootExclude path i carried line =
      (actions enter rootExclude path).step i carried (token line) := by
  obtain ⟨skip, root⟩ := carried
  unfold parseLine
  dsimp only
  by_cases hword : keyword line = []
  · rw [step_blank hword]
    split
    · rfl
    · exact if_pos hword
  · have hcomment : ¬ (skipWhile line blanks).head? = some '#' :=
      fun h => hword (keyword_of_comment h)
    rw [if_neg hcomment, ← keyword, ← afterKeyword, if_neg hword]
    by_cases hifdef : keyword line = ifdefWord ∨ keyword line = ifndefWord
    · have htest : isIfdef line = true := decide_eq_true hifdef
      rw [if_pos hifdef, step_opens (if_pos (.inl htest)) (if_pos htest)]
    · have htest : ¬ isIfdef line = true := fun h => hifdef (of_decide_eq_true h)
      rw [if_neg hifdef]
      by_cases hifeq : keyword line = ifeqWord ∨ keyword line = ifneqWord
      · rw [if_pos hifeq, step_opens (if_pos (.inr (decide_eq_true hifeq))) (if_neg htest)]
      · have hopens : ¬ (isIfdef line = true ∨ isIfeq line = true) :=
          not_or.mpr ⟨htest, fun h => hifeq (of_decide_eq_true h)⟩
        rw [if_neg hifeq]
        by_cases hendif : keyword line = endifWord
        · have htoken : token line = .closes := by rw [token, if_neg hopens, if_pos hendif]
          rw [if_pos hendif, step_closes htoken]
        · have htoken : token line = .line line := by rw [token, if_neg hopens, if_neg hendif]
          rw [if_neg hendif, step_line htoken hword]

/-- `skip` is at most the number of lines, whatever their nesting is. -/
theorem skip_le_lines {root last : Globals} {lines : List Text} {skip : ℕ}
    (h : (pass (parseLine enter rootExclude path) 0 (0, root) lines).returned = .ok (skip, last)) :
    skip ≤ lines.length := by
  rw [Conditionals.pass_map parseLine_eq] at h
  have hle := Conditionals.counter_le _ h
  rwa [List.length_map, Nat.zero_add] at hle

/-! ### Every makefile -/

theorem actions_keep (henter : KeepsAnswers enter) :
    (∀ line (root : Globals), root.rootConfig.SameAnswers config →
      ((actions enter rootExclude path).evaluate line root).1.rootConfig.SameAnswers config) ∧
    ∀ line (root next : Globals), root.rootConfig.SameAnswers config →
      (actions enter rootExclude path).process line root = .ok next →
      next.rootConfig.SameAnswers config := by
  constructor
  · intro line root hroot
    exact (root.rootConfig.test_sameAnswers line).trans hroot
  · intro line root next hroot hnext
    by_cases hword : keyword line = []
    · rw [process_of_blank hword] at hnext
      exact Except.ok.inj hnext ▸ hroot
    · rw [process_of_word hword 0] at hnext
      exact (parseAssignment_sameAnswers henter hnext).trans hroot

/-- **Parsing keeps what the lookups give.** -/
theorem parseMakefile_keeps (files : Text → Option Text) (rootExclude : List Text) (depth : ℕ) :
    KeepsAnswers fun path root =>
      (parseMakefile files rootExclude depth path root).returned.map Prod.snd := by
  induction depth with
  | zero =>
      intro path root next h
      cases h
  | succ depth ih =>
      intro path root next h
      dsimp only [parseMakefile] at h
      split at h
      · cases h
      · obtain ⟨⟨skip, last⟩, hlast, hnext⟩ := Conditionals.map_eq_ok.mp h
        rw [Conditionals.pass_map parseLine_eq] at hlast
        obtain ⟨hevaluate, hprocess⟩ := @actions_keep _ rootExclude path root.rootConfig ih
        have hkept := Conditionals.pass_step_invariant _ hevaluate hprocess (fun _ => rfl) hlast
        exact hnext ▸ hkept

/-- A line that stops the reader assigns. -/
theorem isAssignment_of_error {line : Text} {root : Globals} {error : ParseError}
    (h : (actions enter rootExclude path).process line root = .error error) :
    IsAssignment line := by
  by_cases hword : keyword line = []
  · rw [process_of_blank hword] at h
    cases h
  · refine ⟨hword, ?_⟩
    intro hoperator
    rw [process_of_word hword 0, parseAssignment, if_pos hoperator] at h
    cases h

/-- What the nesting means, with the actions of `parse_makefile`. -/
theorem run_actions_follows (henter : KeepsAnswers enter) (block : Block Text Text)
    {root : Globals} (hroot : root.rootConfig = config) :
    Conditionals.Follows (actions enter rootExclude path) (fun line => (config.test line).2)
      (fun root => root.rootConfig.SameAnswers config) (block.places [] 0)
      (block.run (actions enter rootExclude path) 0 root) := by
  obtain ⟨hevaluate, hprocess⟩ := @actions_keep _ rootExclude path config henter
  refine Conditionals.run_follows ?_ hprocess block rfl (hroot ▸ fun _ => rfl) 0
  intro line state hstate
  exact ⟨hstate.test line, hevaluate line state hstate⟩

/-- What is said of the conditionals, of the step of the counter. -/
theorem conditional_of_actions (henter : KeepsAnswers enter) (block : Block Text Text)
    {root : Globals} (hroot : root.rootConfig = config) :
    Conditional config block
      (pass (actions enter rootExclude path).step 0 (0, root) block.tokens) := by
  have hfollows := @run_actions_follows _ rootExclude path config henter block root hroot
  rw [Conditionals.pass_tokens]
  constructor
  case processed =>
    intro place hplace line hline hassignment
    have hmark : .processed place.index ∈ place.mark (actions enter rootExclude path) := by
      rw [Place.mark, hline]
      exact List.mem_ite_nil_right.mpr ⟨decide_eq_true hassignment, List.mem_singleton_self _⟩
    simpa [ConfigTable.Holds] using hfollows.mem_marks_iff hplace hmark
  case evaluated =>
    intro place hplace line hline
    have hmark : .evaluated place.index ∈ place.mark (actions enter rootExclude path) := by
      rw [Place.mark, hline]
      exact List.mem_singleton_self _
    simpa [ConfigTable.Holds] using hfollows.mem_marks_iff hplace hmark
  case returned =>
    intro skip last hlast
    obtain ⟨state, hstate, heq⟩ := Conditionals.map_eq_ok.mp hlast
    obtain ⟨rfl, rfl⟩ := Prod.mk.inj heq
    obtain ⟨hread, -⟩ := hfollows.returned state hstate
    exact ⟨hread.trans (Conditionals.length_places block [] 0), rfl⟩
  case left =>
    intro error herror
    obtain ⟨before, place, after, line, state, hsplit, hread, hline, hall, -, hleft⟩ :=
      hfollows.left error (Conditionals.map_eq_error.mp herror)
    have hplace : place ∈ block.places [] 0 := by simp [hsplit]
    refine ⟨place, hplace, ?_, ⟨line, hline, isAssignment_of_error hleft⟩, ?_⟩
    · have hindex := Conditionals.index_of_split hsplit
      dsimp only [Outcome.read_map]
      omega
    · exact List.all_eq_true.mp hall

end Parse

/-- **An assignment is processed, and a condition evaluated, just if all conditions around it
hold**, in every makefile with properly nested conditionals, and `skip` is 0 at its end. -/
theorem parse_makefile_conditionals (files : Text → Option Text) (rootExclude : List Text)
    (depth : ℕ) (path bytes : Text) (root : Globals) (block : Block Text Text)
    (hfile : files (path ++ makefileName) = some bytes)
    (hlines : (logicalLines (loadFile bytes)).map token = block.tokens) :
    Conditional root.rootConfig block
      (parseMakefile files rootExclude (depth + 1) path root) := by
  have hkeeps := parseMakefile_keeps files rootExclude depth
  rw [parseMakefile, hfile]
  dsimp only
  rw [Conditionals.pass_map parseLine_eq, hlines]
  exact conditional_of_actions hkeeps block rfl

/-- One conditional in another, and a line after them. -/
def nestedMakefile : Text := "ifdef A\nifeq ($(B),y)\nx=1\nendif\nendif\ny=2\n".toList

def nestedBlock : Block Text Text :=
  .conditional "ifdef A".toList
    (.conditional "ifeq ($(B),y)".toList (.line "x=1".toList .nil) .nil)
    (.line "y=2".toList .nil)

theorem parse_makefile_conditionals_nested :
    Conditional ConfigTable.empty nestedBlock
      (parseMakefile (fun _ => some nestedMakefile) [] 65 []
        ⟨ConfigTable.empty, [], ⟨[], List.nodup_nil⟩⟩) :=
  parse_makefile_conditionals (fun _ => some nestedMakefile) [] 64 [] nestedMakefile
    ⟨ConfigTable.empty, [], ⟨[], List.nodup_nil⟩⟩ nestedBlock rfl (by decide +kernel)

end Webcamd.Make
