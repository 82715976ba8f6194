import Webcamd.Make.Output
import Webcamd.Make.Parse

/-!
# The names of the objects

The objects of a makefile are all built in one directory.  The name of an object file is made of
the path and the name of its source, with `filter_objname` turning whatever cannot stand in a file
name into `-`.

* `ToldApart` — two texts that differ in their length, or somewhere other than by one of the
  characters `.`, `/`, `\` and `-` for another.
* `filterObjname_eq_iff` — the filter keeps just this difference.
* `object_names_iff` — in every makefile, two objects of different sources get different names
  exactly if their paths, each followed by the name, are told apart.  Nothing stands for the place
  where the path ends, and `-` may have been there before.
-/

namespace Webcamd.Make

/-- The characters that are the same in a file name. -/
def separators : Text := ['.', '/', '\\', '-']

/-- Two texts differ in their length, or somewhere other than by one separator for another. -/
def ToldApart (text text' : Text) : Prop :=
  text.length ≠ text'.length ∨
    ∃ pair ∈ text.zip text', pair.1 ≠ pair.2 ∧ ¬(pair.1 ∈ separators ∧ pair.2 ∈ separators)

instance (text text' : Text) : Decidable (ToldApart text text') :=
  inferInstanceAs (Decidable (_ ∨ _))

/-- What an object is made of: the path and the name of its source. -/
def Child.source (c : Child) : Text × Text := (c.path, stem c.name)

/-- The source has printable characters only. -/
def Child.Printable (c : Child) : Prop := ∀ ch ∈ c.path ++ stem c.name, isprint ch = true

instance (c : Child) : Decidable c.Printable :=
  decidable_of_iff ((c.path ++ stem c.name).all isprint = true) List.all_eq_true

/-! ### The filter -/

/-- A character of `filter_objname`. -/
def filterChar (ch : Char) : Char :=
  if ch = '.' ∨ ch = '/' ∨ ch = '\\' ∨ isprint ch = false then '-' else ch

theorem filterChar_of_mem {ch : Char} (h : ch ∈ separators) : filterChar ch = '-' := by
  simp only [separators, List.mem_cons, List.not_mem_nil, or_false] at h
  obtain rfl | rfl | rfl | rfl := h <;> rfl

theorem filterChar_of_notMem {ch : Char} (hprint : isprint ch = true) (h : ch ∉ separators) :
    filterChar ch = ch := by
  refine if_neg ?_
  rintro (rfl | rfl | rfl | hfalse)
  · exact h (by decide)
  · exact h (by decide)
  · exact h (by decide)
  · rw [hprint] at hfalse
    cases hfalse

/-- Two printable characters are filtered alike only if both are separators. -/
theorem filterChar_eq_iff {ch ch' : Char} (hprint : isprint ch = true)
    (hprint' : isprint ch' = true) :
    filterChar ch = filterChar ch' ↔ ch = ch' ∨ (ch ∈ separators ∧ ch' ∈ separators) := by
  have hdash : '-' ∈ separators := by decide
  by_cases h : ch ∈ separators
  · by_cases h' : ch' ∈ separators
    · rw [filterChar_of_mem h, filterChar_of_mem h']
      tauto
    · rw [filterChar_of_mem h, filterChar_of_notMem hprint' h']
      constructor
      · rintro rfl
        exact absurd hdash h'
      · rintro (rfl | ⟨-, hmem⟩)
        · exact absurd h h'
        · exact absurd hmem h'
  · by_cases h' : ch' ∈ separators
    · rw [filterChar_of_notMem hprint h, filterChar_of_mem h']
      constructor
      · rintro rfl
        exact absurd hdash h
      · rintro (rfl | ⟨hmem, -⟩)
        · exact absurd h' h
        · exact absurd hmem h
    · rw [filterChar_of_notMem hprint h, filterChar_of_notMem hprint' h']
      tauto

/-- **What the filter keeps** of two printable texts: whether they are told apart. -/
theorem filterObjname_eq_iff {text text' : Text} (hprint : ∀ ch ∈ text, isprint ch = true)
    (hprint' : ∀ ch ∈ text', isprint ch = true) :
    filterObjname text = filterObjname text' ↔ ¬ToldApart text text' := by
  change text.map filterChar = text'.map filterChar ↔ _
  rw [← List.forall₂_eq_eq_eq, List.forall₂_map_left_iff, List.forall₂_map_right_iff,
    List.forall₂_iff_zip, ToldApart, not_or, not_not, not_exists]
  refine and_congr_right fun _ => ?_
  constructor
  · rintro h ⟨ch, ch'⟩ ⟨hmem, hne, hapart⟩
    obtain ⟨hch, hch'⟩ := List.of_mem_zip hmem
    obtain heq | hboth := (filterChar_eq_iff (hprint ch hch) (hprint' ch' hch')).mp (h hmem)
    · exact hne heq
    · exact hapart hboth
  · intro h ch ch' hmem
    obtain ⟨hch, hch'⟩ := List.of_mem_zip hmem
    rw [filterChar_eq_iff (hprint ch hch) (hprint' ch' hch')]
    by_contra hapart
    rw [not_or] at hapart
    exact h (ch, ch') ⟨hmem, hapart⟩

/-- Path and name are joined with nothing between them. -/
theorem objectFile_eq (c : Child) :
    c.objectFile = ['o', 'b', 'j', '-'] ++ filterObjname (c.path ++ stem c.name) ++ ['.', 'o'] := by
  unfold Child.objectFile objectName filterObjname
  rw [List.map_append]
  simp only [List.append_assoc]

theorem objectFile_eq_iff {c c' : Child} (hprint : c.Printable) (hprint' : c'.Printable) :
    c.objectFile = c'.objectFile ↔
      ¬ToldApart (c.path ++ stem c.name) (c'.path ++ stem c'.name) := by
  rw [objectFile_eq, objectFile_eq, List.append_left_inj, List.append_right_inj,
    filterObjname_eq_iff hprint hprint']

/-! ### The rules of a makefile -/

/-- **Which objects share a name.**  The lines and the rules of a makefile are those of the objects
that are built, and two of them with different sources get different targets exactly if their
paths, each followed by the name, are told apart. -/
theorem object_names_iff {rootDirectory : List Text} {rootNode : NodeTable} {name : Text}
    {out : Makefile} (h : outputMakefile rootDirectory rootNode name = .ok out) :
    ((∀ line, line ∈ out.objs ↔ ∃ c, rootNode.Built name c ∧ line = c.objectFile) ∧
      ∀ rule, rule ∈ out.rules ↔ ∃ c, rootNode.Built name c ∧ rule = c.rule) ∧
    ∀ c c', rootNode.Built name c → rootNode.Built name c' → c.Printable → c'.Printable →
      c.source ≠ c'.source →
      (c.objectFile ≠ c'.objectFile ↔
        ToldApart (c.path ++ stem c.name) (c'.path ++ stem c'.name)) := by
  refine ⟨makefile_mem_iff h, fun c c' _ _ hprint hprint' _ => ?_⟩
  rw [Ne, objectFile_eq_iff hprint hprint', not_not]

/-- `obj-y` is `foo.o` and `bar.o`. -/
def twoObjects : NodeTable where
  nodes := [⟨['o', 'b', 'j', '-', 'y'], [foo, bar]⟩]
  nodup := by decide

/-- They get different names. -/
theorem object_names_iff_twoObjects : foo.objectFile ≠ bar.objectFile := by
  have hout : outputMakefile [] twoObjects ['o', 'b', 'j', '-', 'y'] =
      .ok ⟨[], [foo.objectFile, bar.objectFile], [foo.rule, bar.rule]⟩ := by decide +kernel
  have hvisits : twoObjects.visits ['o', 'b', 'j', '-', 'y'] = .ok [foo, bar] := by
    decide +kernel
  have hbuilt : ∀ c ∈ [foo, bar], twoObjects.Built ['o', 'b', 'j', '-', 'y'] c := by
    intro c hc
    refine ⟨⟨_, hvisits, hc⟩, ?_⟩
    rw [← objHasChildren_iff]
    revert c
    decide
  exact ((object_names_iff hout).2 foo bar (hbuilt foo (by decide)) (hbuilt bar (by decide))
    (by decide +kernel) (by decide +kernel) (by decide)).mpr (by decide +kernel)

/-- `a-b.o`, and `b.o` of the directory `a`. -/
def dashed : Child := ⟨['a', '-', 'b', '.', 'o'], ['l', '/']⟩

def nested : Child := ⟨['b', '.', 'o'], ['l', '/', 'a', '/']⟩

/-- The table of the two. -/
def sharedName : NodeTable where
  nodes := [⟨['o', 'b', 'j', '-', 'y'], [dashed, nested]⟩]
  nodup := by decide

/-- The two makefiles that give it. -/
def sharedNameFiles (path : Text) : Option Text :=
  if path = "l/Makefile".toList then some "obj-y += a-b.o a/\n".toList
  else if path = "l/a/Makefile".toList then some "obj-y += b.o\n".toList
  else none

/-- The files `l/a-b.c` and `l/a/b.c` are both built as `obj-l-a-b.o`. -/
theorem object_names_shared :
    ((parseMakefile sharedNameFiles [] 65 ['l', '/']
        ⟨ConfigTable.empty, [], ⟨[], List.nodup_nil⟩⟩).returned.map fun last =>
      resolveNodes last.2.rootNode.nodes) = .ok sharedName.nodes ∧
    ∃ out, outputMakefile [] sharedName ['o', 'b', 'j', '-', 'y'] = .ok out ∧
      out.Emits dashed ∧ out.Emits nested ∧ dashed.Printable ∧ nested.Printable ∧
      dashed.source ≠ nested.source ∧ dashed.objectFile = nested.objectFile ∧
      dashed.rule.source ≠ nested.rule.source := by
  refine ⟨by decide +kernel, ⟨[], [dashed.objectFile, nested.objectFile],
    [dashed.rule, nested.rule]⟩, by decide +kernel, ?_⟩
  exact ⟨⟨List.mem_cons_self, List.mem_cons_self⟩, ⟨by simp, by simp⟩, by decide +kernel,
    by decide +kernel, by decide, by decide +kernel, by decide +kernel⟩

end Webcamd.Make
