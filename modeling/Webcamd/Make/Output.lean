import Mathlib
import Webcamd.Make.Nodes

/-!
# The makefile that `linux_make` writes

`output_makefile` goes through the objects of a node three times: `build_id` says which of them are
made of others, `build_objects` lists the rest, and `build_source` writes their rules.

* `objsExec` — `objs_exec`, which calls a function for an object and, before it, for the members
  that it is made of.
* `buildId`, `buildObjects`, `buildSource` — the functions of these names.
* `outputMakefile` — `output_makefile`, with the parts of the makefile as a record.
* `objsExec_eq` — the three passes go through the same objects.
* `NodeTable.Listed` — an object of the node, or a member of one.
* `output_makefile_complete` — a listed object has its line and its rule, or it is made of others,
  which are listed; and the rules are for the objects that have a line.
-/

namespace Webcamd.Make

/-- `temp` of `objs_exec`: a name without its `.o`. -/
def stem (name : Text) : Text :=
  if ['.', 'o'] <:+ name then name.take (name.length - 2) else name

/-- The node has the name, and then one of the endings. -/
def Node.Ends (n0 : Node) (name : Text) (endings : List Text) : Prop :=
  name <+: n0.name ∧ n0.name.drop name.length ∈ endings

instance (n0 : Node) (name : Text) (endings : List Text) : Decidable (n0.Ends name endings) :=
  inferInstanceAs (Decidable (_ ∧ _))

/-- The endings of the lists that `objs_exec` goes through. -/
def memberEndings : List Text := [['-', 'y'], ['-', 'o', 'b', 'j', 's']]

/-- The endings of the lists that `obj_has_children` looks for. -/
def compositeEndings : List Text :=
  [['-', 'n'], ['-', 'y'], ['-', 'o', 'b', 'j', 's'], ['-', 'm']]

/-- `obj_has_children`, of a table whose children have no children. -/
def objHasChildren (parent : List Node) (name : Text) : Bool :=
  parent.any fun n0 => n0.children ≠ [] ∧ n0.Ends name compositeEndings

/-- The members of an object. -/
def members (rootNode : List Node) (temp : Text) : List Child :=
  (rootNode.filter fun n0 => n0.Ends temp memberEndings).flatMap Node.children

/-- Recursive object execute limit of 64 exceeded for '%s'. -/
structure RecursionLimit where
  name : Text
  deriving DecidableEq

/-- The loops that call `objs_exec`. -/
def execAll {α : Type} (exec : Child → Except RecursionLimit (List α)) :
    List Child → Except RecursionLimit (List α)
  | [] => .ok []
  | n1 :: next =>
      (exec n1).bind fun first => (execAll exec next).map fun others => first ++ others

/-- `objs_exec`, which may call itself as often as `depth` says: what the calls of `fn` give. -/
def objsExec {α : Type} (rootNode : List Node) (fn : Child → Text → List α) :
    ℕ → Child → Except RecursionLimit (List α)
  | 0, parent => .error ⟨parent.name⟩
  | depth + 1, parent =>
      let temp := stem parent.name
      (execAll (objsExec rootNode fn depth) (members rootNode temp)).map fun done =>
        done ++ fn parent temp

/-- The calls of `objs_exec` that may be open at once. -/
def depthLimit : ℕ := 65

/-- `isprint` -/
def isprint (ch : Char) : Bool := 32 ≤ ch.toNat ∧ ch.toNat ≤ 126

/-- `filter_objname` -/
def filterObjname (text : Text) : Text :=
  text.map fun ch => if ch = '.' ∨ ch = '/' ∨ ch = '\\' ∨ isprint ch = false then '-' else ch

/-- What `build_id` leaves in a node. -/
structure Mark where
  objprefix : Text
  hasChildren : Bool
  deriving DecidableEq

/-- `build_id` -/
def buildId (rootNode : List Node) (ptr : Child) (name : Text) : List (Child × Mark) :=
  [(ptr, ⟨filterObjname ptr.path, objHasChildren rootNode name⟩)]

/-- The mark of a node after the first pass: the last one made, or none since `new_node`. -/
def markOf (ids : List (Child × Mark)) (ptr : Child) : Mark :=
  (ids.reverse.lookup ptr).getD ⟨[], false⟩

/-- The file name of an object: `obj-%s%s.o` -/
def objectName (mark : Mark) (name : Text) : Text :=
  ['o', 'b', 'j', '-'] ++ mark.objprefix ++ filterObjname name ++ ['.', 'o']

/-- A rule, with what is put into its command. -/
structure Rule where
  target : Text
  source : Text
  currFileName : Text
  deriving DecidableEq

/-- `build_objects` -/
def buildObjects (ids : List (Child × Mark)) (ptr : Child) (name : Text) : List Text :=
  if (markOf ids ptr).hasChildren then [] else [objectName (markOf ids ptr) name]

/-- `build_source` -/
def buildSource (ids : List (Child × Mark)) (ptr : Child) (name : Text) : List Rule :=
  if (markOf ids ptr).hasChildren then []
  else [⟨objectName (markOf ids ptr) name, ptr.path ++ name ++ ['.', 'c'], name⟩]

/-- The makefile: its `PKGPATHS`, its `OBJS`, and its rules. -/
structure Makefile where
  pkgpaths : List Text
  objs : List Text
  rules : List Rule
  deriving DecidableEq

/-- A directory as it is printed, without a slash at its end. -/
def printedDirectory (dir : Text) : Text := if dir.getLast? = some '/' then dir.dropLast else dir

/-- `output_makefile` -/
def outputMakefile (rootDirectory : List Text) (rootNode : NodeTable) (name : Text) :
    Except RecursionLimit Makefile :=
  let found := rootNode.addNode name
  let pass {α : Type} (fn : Child → Text → List α) : Except RecursionLimit (List α) :=
    execAll (objsExec found.1.nodes fn depthLimit) found.2.children
  (pass (buildId found.1.nodes)).bind fun ids =>
    (pass (buildObjects ids)).bind fun objs =>
      (pass (buildSource ids)).map fun rules =>
        ⟨rootDirectory.map printedDirectory, objs, rules⟩

/-! ### What is to be built -/

/-- The file name of an object. -/
def Child.objectFile (c : Child) : Text :=
  objectName ⟨filterObjname c.path, false⟩ (stem c.name)

/-- The rule of an object. -/
def Child.rule (c : Child) : Rule :=
  ⟨c.objectFile, c.path ++ stem c.name ++ ['.', 'c'], stem c.name⟩

/-- An object of the node, or a member of one. -/
inductive NodeTable.Listed (rootNode : NodeTable) (name : Text) : Child → Prop where
  | child {n0 : Node} (hn0 : n0 ∈ rootNode.nodes) (hname : n0.name = name) {c : Child}
      (hc : c ∈ n0.children) : Listed rootNode name c
  | member {c : Child} (hc : Listed rootNode name c) {n1 : Child}
      (hmember : n1 ∈ members rootNode.nodes (stem c.name)) : Listed rootNode name n1

/-- An object is made of others: there is a list for it that is not empty. -/
def NodeTable.Composite (rootNode : NodeTable) (c : Child) : Prop :=
  ∃ n0 ∈ rootNode.nodes, n0.children ≠ [] ∧ ∃ ending ∈ compositeEndings,
    n0.name = stem c.name ++ ending

/-- The nodes that `objs_exec` calls a function for in a pass. -/
def NodeTable.visits (rootNode : NodeTable) (name : Text) : Except RecursionLimit (List Child) :=
  let found := rootNode.addNode name
  execAll (objsExec found.1.nodes (fun ptr _ => [ptr]) depthLimit) found.2.children

/-- An object has its line and its rule. -/
def Makefile.Emits (out : Makefile) (c : Child) : Prop :=
  c.objectFile ∈ out.objs ∧ c.rule ∈ out.rules

/-! ### The passes agree -/

theorem Node.ends_iff (n0 : Node) (name : Text) (endings : List Text) :
    n0.Ends name endings ↔ ∃ ending ∈ endings, n0.name = name ++ ending := by
  constructor
  · rintro ⟨⟨ending, hending⟩, hmem⟩
    rw [← hending, List.drop_left] at hmem
    exact ⟨ending, hmem, hending.symm⟩
  · rintro ⟨ending, hmem, hname⟩
    refine ⟨⟨ending, hname.symm⟩, ?_⟩
    rwa [hname, List.drop_left]

theorem execAll_eq {α β : Type} {exec : Child → Except RecursionLimit (List α)}
    {visit : Child → Except RecursionLimit (List β)} {fn : β → List α}
    (hexec : ∀ c, exec c = (visit c).map fun visited => visited.flatMap fn)
    (children : List Child) :
    execAll exec children = (execAll visit children).map fun visited => visited.flatMap fn := by
  induction children with
  | nil => rfl
  | cons n1 next ih =>
      rw [execAll, execAll, hexec n1, ih]
      cases visit n1 with
      | error limit => rfl
      | ok first =>
          cases execAll visit next with
          | error limit => rfl
          | ok others => exact congrArg Except.ok List.flatMap_append.symm

theorem objsExec_succ {α : Type} (rootNode : List Node) (fn : Child → Text → List α) (depth : ℕ)
    (parent : Child) :
    objsExec rootNode fn (depth + 1) parent =
      (execAll (objsExec rootNode fn depth) (members rootNode (stem parent.name))).map
        fun done => done ++ fn parent (stem parent.name) := rfl

/-- **Every pass goes through the same nodes**, whatever it does with them. -/
theorem objsExec_eq {α : Type} (rootNode : List Node) (fn : Child → Text → List α) (depth : ℕ)
    (parent : Child) :
    objsExec rootNode fn depth parent =
      (objsExec rootNode (fun ptr _ => [ptr]) depth parent).map fun visited =>
        visited.flatMap fun ptr => fn ptr (stem ptr.name) := by
  induction depth generalizing parent with
  | zero => rfl
  | succ depth ih =>
      rw [objsExec_succ, objsExec_succ, execAll_eq ih]
      cases execAll (objsExec rootNode (fun ptr _ => [ptr]) depth)
          (members rootNode (stem parent.name)) with
      | error limit => rfl
      | ok visited =>
          refine congrArg Except.ok ?_
          dsimp only
          rw [List.flatMap_append, List.flatMap_singleton]

/-- A list of nodes has the members of all its nodes. -/
def Closed (rootNode : List Node) (visited : List Child) : Prop :=
  ∀ c ∈ visited, ∀ n1 ∈ members rootNode (stem c.name), n1 ∈ visited

theorem execAll_closed {rootNode : List Node} {visit : Child → Except RecursionLimit (List Child)}
    (hvisit : ∀ {c visited}, visit c = .ok visited → c ∈ visited ∧ Closed rootNode visited)
    {children visited : List Child} (h : execAll visit children = .ok visited) :
    children ⊆ visited ∧ Closed rootNode visited := by
  induction children generalizing visited with
  | nil =>
      obtain rfl := Except.ok.inj h
      exact ⟨List.Subset.refl _, by simp [Closed]⟩
  | cons n1 next ih =>
      rw [execAll] at h
      cases hfirst : visit n1 with
      | error limit =>
          rw [hfirst] at h
          cases h
      | ok first =>
          cases hothers : execAll visit next with
          | error limit =>
              rw [hfirst, hothers] at h
              cases h
          | ok others =>
              rw [hfirst, hothers] at h
              obtain rfl : first ++ others = visited := Except.ok.inj h
              obtain ⟨hn1, hfirstClosed⟩ := hvisit hfirst
              obtain ⟨hnext, hothersClosed⟩ := ih hothers
              constructor
              · rw [List.cons_subset]
                exact ⟨List.mem_append_left _ hn1,
                  fun c hc => List.mem_append_right _ (hnext hc)⟩
              · intro c hc m hm
                obtain hc | hc := List.mem_append.mp hc
                · exact List.mem_append_left _ (hfirstClosed c hc m hm)
                · exact List.mem_append_right _ (hothersClosed c hc m hm)

/-- **`objs_exec` visits a node and all the members that come with it.** -/
theorem objsExec_closed {rootNode : List Node} {depth : ℕ} {parent : Child}
    {visited : List Child}
    (h : objsExec rootNode (fun ptr _ => [ptr]) depth parent = .ok visited) :
    parent ∈ visited ∧ Closed rootNode visited := by
  induction depth generalizing parent visited with
  | zero => cases h
  | succ depth ih =>
      rw [objsExec_succ] at h
      cases hmembers : execAll (objsExec rootNode (fun ptr _ => [ptr]) depth)
          (members rootNode (stem parent.name)) with
      | error limit =>
          rw [hmembers] at h
          cases h
      | ok done =>
          rw [hmembers] at h
          obtain rfl : done ++ [parent] = visited := Except.ok.inj h
          obtain ⟨hsubset, hclosed⟩ := execAll_closed ih hmembers
          refine ⟨List.mem_append_right _ (List.mem_singleton_self _), ?_⟩
          intro c hc m hm
          obtain hc | hc := List.mem_append.mp hc
          · exact List.mem_append_left _ (hclosed c hc m hm)
          · obtain rfl := List.mem_singleton.mp hc
            exact List.mem_append_left _ (hsubset hm)

/-! ### The table after `add_node` -/

theorem addNode_nodes (rootNode : NodeTable) (name : Text) :
    (rootNode.addNode name).1.nodes = rootNode.nodes ∨
      (rootNode.addNode name).1.nodes = rootNode.nodes ++ [⟨name, []⟩] := by
  unfold NodeTable.addNode
  split
  · exact .inl rfl
  · exact .inr rfl

/-- A new node has no members. -/
theorem members_addNode (rootNode : NodeTable) (name temp : Text) :
    members (rootNode.addNode name).1.nodes temp = members rootNode.nodes temp := by
  obtain h | h := addNode_nodes rootNode name
  · rw [h]
  · rw [h, members, List.filter_append, List.flatMap_append]
    have hnew : (List.filter (fun n0 : Node => decide (n0.Ends temp memberEndings))
        [⟨name, []⟩]).flatMap Node.children = [] := by
      rw [List.flatMap_eq_nil_iff]
      intro n0 hn0
      obtain rfl := List.mem_singleton.mp (List.mem_of_mem_filter hn0)
      rfl
    rw [hnew, List.append_nil, members]

theorem objHasChildren_addNode (rootNode : NodeTable) (name temp : Text) :
    objHasChildren (rootNode.addNode name).1.nodes temp = objHasChildren rootNode.nodes temp := by
  obtain h | h := addNode_nodes rootNode name
  · rw [h]
  · rw [h, objHasChildren, List.any_append]
    simp [objHasChildren]

theorem objHasChildren_iff (rootNode : NodeTable) (c : Child) :
    objHasChildren rootNode.nodes (stem c.name) = true ↔ rootNode.Composite c := by
  unfold objHasChildren NodeTable.Composite
  rw [List.any_eq_true]
  simp only [decide_eq_true_eq, Node.ends_iff]

theorem mem_addNode_children {rootNode : NodeTable} {name : Text} {n0 : Node} {c : Child}
    (hn0 : n0 ∈ rootNode.nodes) (hname : n0.name = name) (hc : c ∈ n0.children) :
    c ∈ (rootNode.addNode name).2.children := by
  unfold NodeTable.addNode
  split
  · rename_i node hfound
    have hmem := List.mem_of_find?_eq_some hfound
    have hsame : node.name = name := by simpa using List.find?_some hfound
    rwa [List.inj_on_of_nodup_map rootNode.nodup hmem hn0 (hsame.trans hname.symm)]
  · rename_i hnone
    exact absurd (decide_eq_true hname) (List.find?_eq_none.mp hnone n0 hn0)

/-! ### The makefile -/

/-- The mark of a node that is visited is the one that `build_id` makes for it. -/
theorem markOf_visited (rootNode : List Node) {visited : List Child} {ptr : Child}
    (hptr : ptr ∈ visited) :
    markOf (visited.flatMap fun c => buildId rootNode c (stem c.name)) ptr =
      ⟨filterObjname ptr.path, objHasChildren rootNode (stem ptr.name)⟩ := by
  unfold markOf buildId
  rw [← List.map_eq_flatMap, ← List.map_reverse,
    List.lookup_graph (fun c : Child =>
      (⟨filterObjname c.path, objHasChildren rootNode (stem c.name)⟩ : Mark))
      (List.mem_reverse.mpr hptr)]
  rfl

/-- A pass over the children of the node. -/
theorem pass_eq {α : Type} {rootNode : NodeTable} {name : Text} {visited : List Child}
    (hvisits : rootNode.visits name = .ok visited) (fn : Child → Text → List α) :
    execAll (objsExec (rootNode.addNode name).1.nodes fn depthLimit)
        (rootNode.addNode name).2.children =
      .ok (visited.flatMap fun ptr => fn ptr (stem ptr.name)) := by
  rw [execAll_eq (objsExec_eq _ fn depthLimit)]
  rw [NodeTable.visits] at hvisits
  rw [hvisits]
  rfl

/-- What is written for the nodes that are visited. -/
theorem outputMakefile_eq {rootDirectory : List Text} {rootNode : NodeTable} {name : Text}
    {visited : List Child} (hvisits : rootNode.visits name = .ok visited) :
    outputMakefile rootDirectory rootNode name =
      .ok ⟨rootDirectory.map printedDirectory,
        visited.flatMap fun c =>
          if objHasChildren rootNode.nodes (stem c.name) then [] else [c.objectFile],
        visited.flatMap fun c =>
          if objHasChildren rootNode.nodes (stem c.name) then [] else [c.rule]⟩ := by
  have hmark : ∀ c ∈ visited, markOf (visited.flatMap fun c =>
      buildId (rootNode.addNode name).1.nodes c (stem c.name)) c =
        ⟨filterObjname c.path, objHasChildren rootNode.nodes (stem c.name)⟩ := by
    intro c hc
    rw [markOf_visited _ hc, objHasChildren_addNode]
  unfold outputMakefile
  dsimp only
  rw [pass_eq hvisits]
  change (execAll (objsExec _ _ _) _).bind _ = _
  rw [pass_eq hvisits]
  change (execAll (objsExec _ _ _) _).map _ = _
  rw [pass_eq hvisits]
  refine congrArg Except.ok ?_
  rw [Makefile.mk.injEq]
  refine ⟨rfl, ?_, ?_⟩
  · refine List.flatMap_congr ?_
    intro c hc
    rw [buildObjects, hmark c hc]
    rfl
  · refine List.flatMap_congr ?_
    intro c hc
    rw [buildSource, hmark c hc]
    rfl

/-- A makefile is written only if the nodes can be gone through. -/
theorem visits_of_output {rootDirectory : List Text} {rootNode : NodeTable} {name : Text}
    {out : Makefile} (h : outputMakefile rootDirectory rootNode name = .ok out) :
    ∃ visited, rootNode.visits name = .ok visited := by
  cases hvisits : rootNode.visits name with
  | ok visited => exact ⟨visited, rfl⟩
  | error limit =>
      unfold NodeTable.visits at hvisits
      unfold outputMakefile at h
      dsimp only at h
      rw [execAll_eq (objsExec_eq _ (buildId _) depthLimit), hvisits] at h
      cases h

/-- Everything that is listed is visited. -/
theorem visited_of_listed {rootNode : NodeTable} {name : Text} {visited : List Child}
    (hvisits : rootNode.visits name = .ok visited) {c : Child} (hc : rootNode.Listed name c) :
    c ∈ visited := by
  unfold NodeTable.visits at hvisits
  obtain ⟨hchildren, hclosed⟩ := execAll_closed objsExec_closed hvisits
  induction hc with
  | child hn0 hname hc => exact hchildren (mem_addNode_children hn0 hname hc)
  | member hc hmember ih =>
      refine hclosed _ ih _ ?_
      rwa [members_addNode]

/-- The objects that are built: those visited that are not made of others. -/
def NodeTable.Built (rootNode : NodeTable) (name : Text) (c : Child) : Prop :=
  (∃ visited, rootNode.visits name = .ok visited ∧ c ∈ visited) ∧ ¬rootNode.Composite c

/-- What is written for an object that is visited. -/
theorem mem_written_iff {α : Type} {rootNode : NodeTable} {visited : List Child} {name : Text}
    (hvisits : rootNode.visits name = .ok visited) (write : Child → α) (line : α) :
    line ∈ (visited.flatMap fun c =>
        if objHasChildren rootNode.nodes (stem c.name) then [] else [write c]) ↔
      ∃ c, rootNode.Built name c ∧ line = write c := by
  rw [List.mem_flatMap]
  refine exists_congr fun c => ?_
  have hvisited : (∃ visited, rootNode.visits name = .ok visited ∧ c ∈ visited) ↔ c ∈ visited := by
    rw [hvisits]
    constructor
    · rintro ⟨_, heq, hmem⟩
      rwa [Except.ok.inj heq]
    · exact fun hmem => ⟨visited, rfl, hmem⟩
  unfold NodeTable.Built
  rw [hvisited, ← objHasChildren_iff, and_assoc]
  refine and_congr_right fun _ => ?_
  cases objHasChildren rootNode.nodes (stem c.name) <;> simp

/-- The lines and the rules of a makefile are those of the objects that are built. -/
theorem makefile_mem_iff {rootDirectory : List Text} {rootNode : NodeTable} {name : Text}
    {out : Makefile} (h : outputMakefile rootDirectory rootNode name = .ok out) :
    (∀ line, line ∈ out.objs ↔ ∃ c, rootNode.Built name c ∧ line = c.objectFile) ∧
      ∀ rule, rule ∈ out.rules ↔ ∃ c, rootNode.Built name c ∧ rule = c.rule := by
  obtain ⟨visited, hvisits⟩ := visits_of_output h
  obtain rfl := Except.ok.inj ((outputMakefile_eq hvisits).symm.trans h)
  exact ⟨mem_written_iff hvisits Child.objectFile, mem_written_iff hvisits Child.rule⟩

/-- **No object is lost, unless it is made of others**: if a makefile is written at all, then every
listed object is visited, and has its line and its rule if it is not composite; and the rules are
those for the lines. -/
theorem output_makefile_complete (rootDirectory : List Text) (rootNode : NodeTable) (name : Text)
    (out : Makefile) (h : outputMakefile rootDirectory rootNode name = .ok out) :
    (∃ visited, rootNode.visits name = .ok visited ∧
        ∀ c, rootNode.Listed name c → c ∈ visited) ∧
      (∀ c, rootNode.Listed name c → out.Emits c ∨ rootNode.Composite c) ∧
      out.rules.map Rule.target = out.objs := by
  obtain ⟨hobjs, hrules⟩ := makefile_mem_iff h
  obtain ⟨visited, hvisits⟩ := visits_of_output h
  have hvisited : ∀ c, rootNode.Listed name c → c ∈ visited :=
    fun c hc => visited_of_listed hvisits hc
  refine ⟨⟨visited, hvisits, hvisited⟩, ?_, ?_⟩
  · intro c hc
    by_cases hcomposite : rootNode.Composite c
    · exact .inr hcomposite
    · have hbuilt : rootNode.Built name c := ⟨⟨visited, hvisits, hvisited c hc⟩, hcomposite⟩
      exact .inl ⟨(hobjs _).mpr ⟨c, hbuilt, rfl⟩, (hrules _).mpr ⟨c, hbuilt, rfl⟩⟩
  · obtain rfl := Except.ok.inj ((outputMakefile_eq hvisits).symm.trans h)
    rw [List.map_flatMap]
    refine List.flatMap_congr ?_
    intro c _
    split
    · rfl
    · rfl

/-- `foo.o` and `bar.o`, for the examples. -/
def foo : Child := ⟨['f', 'o', 'o', '.', 'o'], []⟩

def bar : Child := ⟨['b', 'a', 'r', '.', 'o'], []⟩

/-- `obj-y` is `foo.o`, and `foo-y` is `bar.o`. -/
def enabledMember : NodeTable where
  nodes := [⟨['o', 'b', 'j', '-', 'y'], [foo]⟩, ⟨['f', 'o', 'o', '-', 'y'], [bar]⟩]
  nodup := by decide

theorem output_makefile_enabledMember :
    ∃ out, outputMakefile [] enabledMember ['o', 'b', 'j', '-', 'y'] = .ok out ∧
      out.Emits bar := by
  have hout : outputMakefile [] enabledMember ['o', 'b', 'j', '-', 'y'] =
      .ok ⟨[], [bar.objectFile], [bar.rule]⟩ := by decide +kernel
  have hnode : (⟨['o', 'b', 'j', '-', 'y'], [foo]⟩ : Node) ∈ enabledMember.nodes := by decide
  have hfoo : enabledMember.Listed ['o', 'b', 'j', '-', 'y'] foo :=
    .child hnode rfl (List.mem_singleton_self foo)
  have hmember : bar ∈ members enabledMember.nodes (stem foo.name) := by decide
  have hsingle : ¬ enabledMember.Composite bar := by
    rw [← objHasChildren_iff]
    decide
  obtain ⟨-, hemits, -⟩ := output_makefile_complete [] enabledMember _ _ hout
  exact ⟨_, hout, (hemits bar (hfoo.member hmember)).resolve_right hsingle⟩

/-- `obj-y` is `foo.o`, and `foo-n` is `bar.o`. -/
def disabledMember : NodeTable where
  nodes := [⟨['o', 'b', 'j', '-', 'y'], [foo]⟩, ⟨['f', 'o', 'o', '-', 'n'], [bar]⟩]
  nodup := by decide

/-- `obj-y` is `foo.o`, and `foo-y` is `foo.o`. -/
def ownMember : NodeTable where
  nodes := [⟨['o', 'b', 'j', '-', 'y'], [foo]⟩, ⟨['f', 'o', 'o', '-', 'y'], [foo]⟩]
  nodup := by decide

/-- An object whose members are all disabled has no line and no member that is listed, and an object
that is its own member has no makefile. -/
theorem output_makefile_drops :
    (∃ out, outputMakefile [] disabledMember ['o', 'b', 'j', '-', 'y'] = .ok out ∧
      disabledMember.Listed ['o', 'b', 'j', '-', 'y'] foo ∧ ¬ out.Emits foo ∧
      members disabledMember.nodes (stem foo.name) = []) ∧
    outputMakefile [] ownMember ['o', 'b', 'j', '-', 'y'] = .error ⟨foo.name⟩ := by
  constructor
  · refine ⟨⟨[], [], []⟩, by decide +kernel, ?_, ?_, by decide⟩
    · have hnode : (⟨['o', 'b', 'j', '-', 'y'], [foo]⟩ : Node) ∈ disabledMember.nodes := by decide
      exact .child hnode rfl (List.mem_singleton_self foo)
    · rintro ⟨hline, -⟩
      cases hline
  · decide +kernel

end Webcamd.Make
