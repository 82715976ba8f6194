import Mathlib
import Webcamd.Make.Text

/-!
# The configuration of `linux_make`

`parse_config` reads the configuration file into `rootConfig`, the conditionals of the makefiles ask
for its entries, and `main` writes it to `config.h`.

* `ConfigTable` — `rootConfig`, whose names are distinct.
* `newConfig`, `getConfigEntry`, `variableSubstitute`, `parseConfig`, `configHeader` — the functions
  of these names, and the part of `main` that writes `config.h`.
* `newConfig_lookup`, `getConfigEntry_lookup`, `askAll_lookup` — what they do to the entry of a
  name.
* `config_readOnly_iff` — the queries leave the configuration as it was read just when none of them
  is for an entry with a text of its own (value `d`): the lookup passes over such an entry, and the
  entry that is then made overwrites it.
-/

namespace Webcamd.Make

/-- `value` of `struct config` -/
inductive ConfigValue where
  | m
  | y
  | n
  | d
  deriving DecidableEq

/-- The character that the source keeps. -/
def ConfigValue.char : ConfigValue → Char
  | m => 'm'
  | y => 'y'
  | n => 'n'
  | d => 'd'

/-- `struct config` -/
structure Config where
  name : Text
  orig : Option Text
  value : ConfigValue
  deriving DecidableEq

/-- The loop of `new_config`: the entry of the name is overwritten, if there is one. -/
def overwrite (name : Text) (orig : Option Text) (what : ConfigValue) :
    List Config → Option (List Config)
  | [] => none
  | c0 :: next =>
      if c0.name = name then some (⟨c0.name, orig, what⟩ :: next)
      else (overwrite name orig what next).map (c0 :: ·)

/-- Overwriting changes no name, and needs an entry of the name. -/
theorem overwrite_names {name : Text} {orig : Option Text} {what : ConfigValue}
    {root after : List Config} (h : overwrite name orig what root = some after) :
    after.map Config.name = root.map Config.name := by
  induction root generalizing after with
  | nil => simp [overwrite] at h
  | cons c0 next ih =>
      unfold overwrite at h
      split at h
      · obtain rfl := Option.some.inj h
        rfl
      · obtain ⟨rest, hrest, rfl⟩ := Option.map_eq_some_iff.mp h
        simp [ih hrest]

theorem overwrite_eq_none {name : Text} {orig : Option Text} {what : ConfigValue}
    {root : List Config} (h : overwrite name orig what root = none) :
    name ∉ root.map Config.name := by
  induction root with
  | nil => simp
  | cons c0 next ih =>
      unfold overwrite at h
      split at h
      · exact absurd h (by simp)
      · rename_i hname
        rw [Option.map_eq_none_iff] at h
        rw [List.map_cons, List.mem_cons, not_or]
        exact ⟨fun heq => hname heq.symm, ih h⟩

/-- `rootConfig`: no name comes twice. -/
structure ConfigTable where
  entries : List Config
  nodup : (entries.map Config.name).Nodup
  deriving DecidableEq

namespace ConfigTable

/-- `rootConfig`, before anything is read. -/
def empty : ConfigTable := ⟨[], List.nodup_nil⟩

/-- The entry of a name. -/
def lookup (root : ConfigTable) (name : Text) : Option Config :=
  root.entries.find? fun c0 => c0.name = name

/-- `new_config` -/
def newConfig (root : ConfigTable) (name : Text) (orig : Option Text) (what : ConfigValue) :
    ConfigTable :=
  match h : overwrite name orig what root.entries with
  | some after => ⟨after, by rw [overwrite_names h]; exact root.nodup⟩
  | none =>
      ⟨root.entries ++ [⟨name, orig, what⟩], by
        rw [List.map_append, List.map_singleton, ← List.concat_eq_append]
        exact root.nodup.concat (overwrite_eq_none h)⟩

/-- `get_config_entry`: the table after it, and the value. -/
def getConfigEntry (root : ConfigTable) (what : Text) : ConfigTable × ConfigValue :=
  match root.entries.find? fun c0 => c0.value ≠ .d ∧ c0.name = what with
  | some c0 => (root, c0.value)
  | none => (root.newConfig what none .n, .n)

end ConfigTable

/-- `variable_substitute`: the table after it, and the text that is left of the operator. -/
def ConfigTable.variableSubstitute (root : ConfigTable) (operator : Option Text) :
    ConfigTable × Option Text :=
  match operator with
  | none => (root, none)
  | some text =>
      let found := root.getConfigEntry (variableName text)
      (found.1, some [found.2.char])

/-! ### Reading the configuration file -/

/-- How `parse_config` ends the program. -/
inductive ConfigError where
  /-- File '%sconfig' does not exist. -/
  | noFile
  /-- Invalid configuration value '%c' at line %d. -/
  | invalidValue (value : Char) (line : ℕ)
  deriving DecidableEq

/-- The body of the loop of `parse_config`, for a line. -/
def parseConfigLine (root : ConfigTable) (ptr : Text) (line : ℕ) :
    Except ConfigError ConfigTable :=
  let ptr := skipWhile ptr ['\t', '\r', ' ']
  if ptr.head? = some '#' then .ok root
  else
    let keyword := wordUntil ptr ['\t', '\r', ' ', '=', '#']
    if keyword = [] then .ok root
    else
      let ptr := skipUntil ptr ['\t', '\r', ' ', '=', '#']
      let temp := skipWhile ptr ['\t', '\r', ' ', '=']
      if temp = ptr then .ok root
      else
        match temp.headD '\x00' with
        | 'y' => .ok (root.newConfig keyword none .y)
        | 'm' => .ok (root.newConfig keyword none .m)
        | 'n' => .ok (root.newConfig keyword none .n)
        | '"' => .ok (root.newConfig keyword (some temp) .d)
        | c =>
            if c.isDigit then .ok (root.newConfig keyword (some temp) .d)
            else .error (.invalidValue c line)

/-- The loop of `parse_config`. -/
def parseConfigLines (root : ConfigTable) (file : Text) (line : ℕ) :
    Except ConfigError ConfigTable :=
  match _h : readLine file line with
  | none => .ok root
  | some done =>
      match parseConfigLine root done.1 done.2.2 with
      | .error error => .error error
      | .ok next => parseConfigLines next done.2.1 done.2.2
termination_by file.length
decreasing_by exact readLine_length_lt _h

/-- `parse_config`, of the bytes of the file if there is one. -/
def parseConfig (bytes : Option Text) : Except ConfigError ConfigTable :=
  match bytes with
  | none => .error .noFile
  | some file => parseConfigLines .empty (loadFile file) 0

/-! ### Writing `config.h` -/

/-- What `main` writes for an entry. -/
def Config.definition (c0 : Config) : Text :=
  match c0.value with
  | .m =>
      "#define\t".toList ++ c0.name ++ " /* m */\n".toList ++
      "#define\t".toList ++ c0.name ++ "_IS_ENABLED 1\n".toList ++
      "#define\t".toList ++ c0.name ++ "_IS_MODULE 1\n".toList
  | .y =>
      "#define\t".toList ++ c0.name ++ " /* y */\n".toList ++
      "#define\t".toList ++ c0.name ++ "_IS_MODULE 0\n".toList ++
      "#define\t".toList ++ c0.name ++ "_IS_ENABLED 1\n".toList
  | .d =>
      "#define\t".toList ++ c0.name ++ [' '] ++ c0.orig.getD "(null)".toList ++
      " /* d */\n".toList
  | .n =>
      "#undef\t".toList ++ c0.name ++ " /* n */\n".toList ++
      "#define\t".toList ++ c0.name ++ "_IS_MODULE 0\n".toList ++
      "#define\t".toList ++ c0.name ++ "_IS_ENABLED 0\n".toList

/-- `sort_config` -/
def ConfigTable.sortConfig (root : ConfigTable) : List Config :=
  root.entries.mergeSort fun ca cb => ca.name ≤ cb.name

/-- `config.h`, as `main` writes it. -/
def configHeader (root : ConfigTable) : Text :=
  "/*\n * This file was autogenerated. Please do not edit.\n */\n\n".toList ++
  "#ifndef _ROOT_CONFIG_H_\n#define\t_ROOT_CONFIG_H_\n\n".toList ++
  root.sortConfig.flatMap Config.definition ++
  "\n#endif\t\t\t/* _ROOT_CONFIG_H_ */\n".toList

/-! ### Queries -/

/-- A question that the parsing of makefiles asks. -/
inductive Query where
  /-- `get_config_entry`, for the word after `ifdef` or `ifndef` -/
  | getConfigEntry (what : Text)
  /-- `variable_substitute`, for a word from its first `$` on, if it has one -/
  | variableSubstitute (operator : Option Text)
  deriving DecidableEq

/-- The name that a query is for. -/
def Query.what : Query → Option Text
  | getConfigEntry what => some what
  | variableSubstitute operator => operator.map variableName

/-- The table after a query. -/
def ConfigTable.ask (root : ConfigTable) : Query → ConfigTable
  | .getConfigEntry what => (root.getConfigEntry what).1
  | .variableSubstitute operator => (root.variableSubstitute operator).1

/-- The table after the queries of a run. -/
def ConfigTable.askAll (root : ConfigTable) (queries : List Query) : ConfigTable :=
  queries.foldl ask root

/-- Every entry of a table is still there in a later one, and `config.h` is written with its
definition. -/
structure ReadOnly (parsed later : ConfigTable) : Prop where
  entries : ∀ c0 ∈ parsed.entries, c0 ∈ later.entries
  header : ∀ c0 ∈ parsed.entries, c0.definition <:+: configHeader later

/-! ### The entry of a name -/

theorem overwrite_find {name other : Text} {orig : Option Text} {what : ConfigValue}
    {root after : List Config} (h : overwrite name orig what root = some after) :
    after.find? (fun c0 => c0.name = other) =
      if other = name then some ⟨name, orig, what⟩
      else root.find? fun c0 => c0.name = other := by
  induction root generalizing after with
  | nil => simp [overwrite] at h
  | cons c0 next ih =>
      unfold overwrite at h
      split at h
      · rename_i hname
        obtain rfl := Option.some.inj h
        by_cases hother : other = name
        · simp [hname, hother]
        · have hne : c0.name ≠ other := fun heq => hother (heq.symm.trans hname)
          simp [hother, hne]
      · rename_i hname
        obtain ⟨rest, hrest, rfl⟩ := Option.map_eq_some_iff.mp h
        by_cases hother : c0.name = other
        · have hne : other ≠ name := fun heq => hname (hother.trans heq)
          simp [hother, hne]
        · simp [hother, ih hrest]

namespace ConfigTable

/-- `new_config` sets the entry of its name, and no other one. -/
theorem newConfig_lookup (root : ConfigTable) (name other : Text) (orig : Option Text)
    (what : ConfigValue) :
    (root.newConfig name orig what).lookup other =
      if other = name then some ⟨name, orig, what⟩ else root.lookup other := by
  unfold newConfig lookup
  split
  · rename_i after hafter
    exact overwrite_find hafter
  · rename_i hnone
    rw [List.find?_append]
    by_cases hother : other = name
    · have hmissing : root.entries.find? (fun c0 => c0.name = other) = none := by
        rw [List.find?_eq_none]
        intro c0 hmem heq
        have hname : c0.name = name := (of_decide_eq_true heq).trans hother
        exact overwrite_eq_none hnone (hname ▸ List.mem_map_of_mem hmem)
      rw [hmissing, Option.none_or]
      simp [hother]
    · have hne : name ≠ other := fun heq => hother heq.symm
      simp [hother, hne]

/-- The entry of a name is the only one of that name. -/
theorem mem_entries_iff (root : ConfigTable) (c0 : Config) :
    c0 ∈ root.entries ↔ root.lookup c0.name = some c0 := by
  unfold lookup
  constructor
  · intro hmem
    cases hfound : root.entries.find? fun entry => entry.name = c0.name with
    | none =>
        rw [List.find?_eq_none] at hfound
        exact absurd (hfound c0 hmem) (by simp)
    | some entry =>
        have hname : entry.name = c0.name := by simpa using List.find?_some hfound
        have hentry := List.mem_of_find?_eq_some hfound
        rw [List.inj_on_of_nodup_map root.nodup hentry hmem hname]
  · intro hfound
    exact List.mem_of_find?_eq_some hfound

end ConfigTable

/-- What is the entry of a name after a query for it: an entry with a text of its own counts as
missing. -/
def answered (what : Text) : Option Config → Config
  | some c0 => if c0.value = .d then ⟨what, none, .n⟩ else c0
  | none => ⟨what, none, .n⟩

theorem answered_value (what : Text) (entry : Option Config) :
    (answered what entry).value ≠ .d := by
  cases entry with
  | none => simp [answered]
  | some c0 =>
      by_cases hvalue : c0.value = .d
      · simp [answered, hvalue]
      · simp [answered, hvalue]

/-- A second query for a name changes nothing. -/
theorem answered_again (what : Text) (entry : Option Config) :
    answered what (some (answered what entry)) = answered what entry := by
  have hvalue := answered_value what entry
  generalize answered what entry = c0 at hvalue ⊢
  simp [answered, hvalue]

namespace ConfigTable

/-- **A query answers from the entry of its name, or makes it say no.** -/
theorem getConfigEntry_lookup (root : ConfigTable) (what name : Text) :
    (root.getConfigEntry what).1.lookup name =
      if name = what then some (answered what (root.lookup what)) else root.lookup name := by
  unfold getConfigEntry
  split
  · rename_i c0 hfound
    have hmem : c0 ∈ root.entries := List.mem_of_find?_eq_some hfound
    obtain ⟨hvalue, hname⟩ : c0.value ≠ .d ∧ c0.name = what := by
      simpa using List.find?_some hfound
    have hlookup := (root.mem_entries_iff c0).mp hmem
    split
    · rename_i hother
      rw [hother, ← hname, hlookup]
      simp [answered, hvalue]
    · rfl
  · rename_i hnone
    rw [newConfig_lookup]
    split
    · cases hlookup : root.lookup what with
      | none => rfl
      | some c0 =>
          have hmem : c0 ∈ root.entries := List.mem_of_find?_eq_some hlookup
          have hname : c0.name = what := by simpa using List.find?_some hlookup
          have hvalue : c0.value = .d := by
            have hskipped := List.find?_eq_none.mp hnone c0 hmem
            simpa [hname] using hskipped
          simp [answered, hvalue]
    · rfl

theorem ask_lookup (root : ConfigTable) (query : Query) (name : Text) :
    (root.ask query).lookup name =
      if query.what = some name then some (answered name (root.lookup name))
      else root.lookup name := by
  cases query with
  | getConfigEntry what =>
      rw [ask, getConfigEntry_lookup]
      by_cases hname : name = what
      · simp [Query.what, hname]
      · have hne : what ≠ name := fun heq => hname heq.symm
        simp [Query.what, hname, hne]
  | variableSubstitute operator =>
      cases operator with
      | none => simp [ask, variableSubstitute, Query.what]
      | some text =>
          rw [ask, variableSubstitute, getConfigEntry_lookup]
          by_cases hname : name = variableName text
          · simp [Query.what, hname]
          · have hne : variableName text ≠ name := fun heq => hname heq.symm
            simp [Query.what, hname, hne]

/-- After any number of queries, the entry of a name is the one that was there, or what one query
for the name makes of it. -/
theorem askAll_lookup (root : ConfigTable) (queries : List Query) (name : Text) :
    (root.askAll queries).lookup name =
      if ∃ query ∈ queries, query.what = some name then some (answered name (root.lookup name))
      else root.lookup name := by
  induction queries generalizing root with
  | nil => simp [askAll]
  | cons query rest ih =>
      have hrest := ih (root.ask query)
      rw [ask_lookup] at hrest
      rw [askAll, List.foldl_cons, ← askAll, hrest]
      by_cases hquery : query.what = some name
      · by_cases hlater : ∃ later ∈ rest, later.what = some name
        · simp [hquery, hlater, answered_again]
        · simp [hquery, hlater]
      · simp [hquery]

/-- **A query leaves an entry as it is just when it is not one with a text of its own.** -/
theorem mem_askAll_iff (root : ConfigTable) (queries : List Query) (c0 : Config)
    (hmem : c0 ∈ root.entries) :
    c0 ∈ (root.askAll queries).entries ↔
      ∀ query ∈ queries, query.what = some c0.name → c0.value ≠ .d := by
  rw [mem_entries_iff, askAll_lookup, (root.mem_entries_iff c0).mp hmem]
  by_cases hasked : ∃ query ∈ queries, query.what = some c0.name
  · rw [if_pos hasked, Option.some.injEq]
    constructor
    · intro heq query _ _
      rw [← heq]
      exact answered_value _ _
    · intro hvalue
      obtain ⟨query, hquery, hwhat⟩ := hasked
      rw [answered, if_neg (hvalue query hquery hwhat)]
  · rw [if_neg hasked]
    push Not at hasked
    simp only [true_iff]
    intro query hquery hwhat
    exact absurd hwhat (hasked query hquery)

/-- `config.h` has the definition of every entry. -/
theorem definition_infix (root : ConfigTable) (c0 : Config) (hmem : c0 ∈ root.entries) :
    c0.definition <:+: configHeader root := by
  have hsorted : c0 ∈ root.sortConfig := List.mem_mergeSort.mpr hmem
  obtain ⟨front, back, heq⟩ := List.append_of_mem hsorted
  have hbody : c0.definition <:+: root.sortConfig.flatMap Config.definition := by
    rw [heq, List.flatMap_append, List.flatMap_cons, ← List.append_assoc]
    exact ⟨_, _, rfl⟩
  unfold configHeader
  exact hbody.trans (List.infix_append _ _ _)

end ConfigTable

/-! ### What the file asks for -/

/-- An entry has a text of its own just when its value says so. -/
def Config.WellFormed (c0 : Config) : Prop := c0.orig.isSome = true ↔ c0.value = .d

theorem ConfigTable.newConfig_wellFormed {root : ConfigTable} {name : Text} {orig : Option Text}
    {what : ConfigValue} (hroot : ∀ c0 ∈ root.entries, c0.WellFormed)
    (hnew : orig.isSome = true ↔ what = .d) :
    ∀ c0 ∈ (root.newConfig name orig what).entries, c0.WellFormed := by
  intro c0 hmem
  rw [mem_entries_iff, newConfig_lookup] at hmem
  split at hmem
  · obtain rfl := Option.some.inj hmem
    exact hnew
  · exact hroot c0 ((root.mem_entries_iff c0).mpr hmem)

/-- What a line does: nothing, or it sets an entry, or it ends the program. -/
theorem parseConfigLine_cases {root next : ConfigTable} {ptr : Text} {line : ℕ}
    (h : parseConfigLine root ptr line = .ok next) :
    next = root ∨ ∃ keyword orig what, (orig.isSome = true ↔ what = .d) ∧
      next = root.newConfig keyword orig what := by
  unfold parseConfigLine at h
  dsimp only at h
  split at h
  · exact .inl (Except.ok.inj h).symm
  · split at h
    · exact .inl (Except.ok.inj h).symm
    · split at h
      · exact .inl (Except.ok.inj h).symm
      · right
        split at h
        · exact ⟨_, none, .y, by simp, (Except.ok.inj h).symm⟩
        · exact ⟨_, none, .m, by simp, (Except.ok.inj h).symm⟩
        · exact ⟨_, none, .n, by simp, (Except.ok.inj h).symm⟩
        · exact ⟨_, some _, .d, by simp, (Except.ok.inj h).symm⟩
        · split at h
          · exact ⟨_, some _, .d, by simp, (Except.ok.inj h).symm⟩
          · cases h

theorem parseConfigLines_eq (root : ConfigTable) (file : Text) (line : ℕ) :
    parseConfigLines root file line =
      match readLine file line with
      | none => .ok root
      | some done =>
          match parseConfigLine root done.1 done.2.2 with
          | .error error => .error error
          | .ok next => parseConfigLines next done.2.1 done.2.2 := by
  rw [parseConfigLines]
  split <;> rename_i hread <;> rw [hread]

theorem parseConfigLines_wellFormed {root parsed : ConfigTable} {file : Text} {line : ℕ}
    (hroot : ∀ c0 ∈ root.entries, c0.WellFormed)
    (h : parseConfigLines root file line = .ok parsed) :
    ∀ c0 ∈ parsed.entries, c0.WellFormed := by
  induction root, file, line using parseConfigLines.induct with
  | case1 root file line hend =>
      rw [parseConfigLines_eq] at h
      simp only [hend] at h
      obtain rfl := Except.ok.inj h
      exact hroot
  | case2 root file line done hread error hline =>
      rw [parseConfigLines_eq] at h
      simp only [hread, hline] at h
      cases h
  | case3 root file line done hread next hline ih =>
      rw [parseConfigLines_eq] at h
      simp only [hread, hline] at h
      refine ih ?_ h
      obtain rfl | ⟨keyword, orig, what, hnew, rfl⟩ := parseConfigLine_cases hline
      · exact hroot
      · exact ConfigTable.newConfig_wellFormed hroot hnew

/-- **A parsed entry has a text of its own just when its value says so.** -/
theorem parseConfig_wellFormed {bytes : Option Text} {parsed : ConfigTable}
    (h : parseConfig bytes = .ok parsed) : ∀ c0 ∈ parsed.entries, c0.WellFormed := by
  cases bytes with
  | none => cases h
  | some file =>
      refine parseConfigLines_wellFormed ?_ h
      simp [ConfigTable.empty]

/-- **The queries leave the configuration as the file asked for it just when none of them is for an
entry with a text of its own.** -/
theorem config_readOnly_iff (bytes : Option Text) (parsed : ConfigTable) (queries : List Query)
    (hparsed : parseConfig bytes = .ok parsed) :
    ReadOnly parsed (parsed.askAll queries) ↔
      ∀ query ∈ queries, ∀ c0 ∈ parsed.entries, query.what = some c0.name → c0.orig = none := by
  have hvalue : ∀ c0 ∈ parsed.entries, c0.orig = none ↔ c0.value ≠ .d := by
    intro c0 hmem
    have hformed := parseConfig_wellFormed hparsed c0 hmem
    rw [Ne, ← show c0.orig.isSome = true ↔ c0.value = .d from hformed]
    simp
  constructor
  · intro hreadOnly query hquery c0 hmem hwhat
    have hstill := hreadOnly.entries c0 hmem
    rw [hvalue c0 hmem]
    exact (parsed.mem_askAll_iff queries c0 hmem).mp hstill query hquery hwhat
  · intro hqueries
    have hentries : ∀ c0 ∈ parsed.entries, c0 ∈ (parsed.askAll queries).entries := by
      intro c0 hmem
      rw [parsed.mem_askAll_iff queries c0 hmem]
      intro query hquery hwhat
      exact (hvalue c0 hmem).mp (hqueries query hquery c0 hmem hwhat)
    exact ⟨hentries, fun c0 hmem => ConfigTable.definition_infix _ c0 (hentries c0 hmem)⟩

/-- `A=y` and `B=4`, with a query for `A` and one for a name that is not there. -/
theorem config_readOnly_flags :
    ∃ parsed, parseConfig (some ['A', '=', 'y', '\n', 'B', '=', '4', '\n']) = .ok parsed ∧
      ReadOnly parsed (parsed.askAll
        [.getConfigEntry ['A'], .variableSubstitute (some ['$', '(', 'C', ')'])]) := by
  have hparsed : parseConfig (some ['A', '=', 'y', '\n', 'B', '=', '4', '\n']) =
      .ok ⟨[⟨['A'], none, .y⟩, ⟨['B'], some ['4'], .d⟩], by decide⟩ := by decide +kernel
  refine ⟨_, hparsed, (config_readOnly_iff _ _ _ hparsed).mpr ?_⟩
  decide

/-- `B=4`, with a query for `B` as `ifdef B` asks it. -/
theorem config_readOnly_text :
    ∃ parsed, parseConfig (some ['B', '=', '4', '\n']) = .ok parsed ∧
      ¬ ReadOnly parsed (parsed.askAll [.getConfigEntry ['B']]) := by
  have hparsed : parseConfig (some ['B', '=', '4', '\n']) =
      .ok ⟨[⟨['B'], some ['4'], .d⟩], by decide⟩ := by decide +kernel
  refine ⟨_, hparsed, ?_⟩
  intro hreadOnly
  have hstill := hreadOnly.entries ⟨['B'], some ['4'], .d⟩ (by decide)
  revert hstill
  decide

end Webcamd.Make
