import Mathlib
import Webcamd.Make.Gathered

/-!
# The order in which references are read

`resolve_nodes` goes through the nodes in the order of their definition, and from each one through
the references that it finds, breadth first.  Here this is told of the makefiles alone, without the
lists that the loops move about.

* `NodeTable.home` — the node that a variable has been moved to: **whoever refers to it, directly or
  not, takes it**, one after the other in the order of definition.
* `Reading` — the reading of a node: the nodes that it moves, and the references that it has read.
* `BreaksOff` — the reading comes to a last child whose node has references, which stay unread.
* `Swept` — the state between turns, as long as no reading has broken off.
* `Follows` — the inner loop follows the reading; `Follows.breaksOff` and `Follows.cutsOff` say that
  it comes to a last child that is cut off just if the reading breaks off.
-/

namespace Webcamd.Make

open Webcamd.Library Relation

/-- The children of the node of a name. -/
def childrenOf (nodes : List Node) (name : Text) : List Child :=
  ((nodes.find? fun node => node.name = name).map Node.children).getD []

namespace NodeTable

variable (table : NodeTable) (earlier : List Node)

open Classical in
/-- **The node that a name has been moved to** when some nodes have been read. -/
noncomputable def home (name : Text) : Text :=
  earlier.foldl (fun here node => if TransGen table.Refers node.name here then node.name else here)
    name

/-- The references in a node: an earlier one has been read. -/
def unread (name : Text) : List Child :=
  if ∃ node ∈ earlier, node.name = name then []
  else (childrenOf table.nodes name).filter fun child => child.IsReference

/-- A reference finds the node that it names: there is one, and nobody has taken it. -/
def Finds (moved : List Text) (name : Text) : Prop :=
  name ∈ names table.nodes ∧ table.home earlier name = name ∧ name ∉ moved

/-- **The reading of a node**: the node and those that it has moved, and the references that it has
read. -/
inductive Reading (name : Text) : List Text → List Child → Prop where
  | start : Reading name [name] []
  | take {moved : List Text} {read rest : List Child} {child : Child}
      (hread : Reading name moved read)
      (hnext : moved.flatMap (table.unread earlier) = read ++ child :: rest)
      (hfinds : table.Finds earlier moved child.variable) :
      Reading name (moved ++ [child.variable]) (read ++ [child])
  | pass {moved : List Text} {read rest : List Child} {child : Child}
      (hread : Reading name moved read)
      (hnext : moved.flatMap (table.unread earlier) = read ++ child :: rest)
      (hlost : ¬ table.Finds earlier moved child.variable) :
      Reading name moved (read ++ [child])

/-- The node has no children: no object has been moved to an earlier one. -/
def Bare (name : Text) : Prop :=
  if ∃ node ∈ earlier, node.name = name then
    ∀ m ∈ table.nodes, table.home earlier m.name = name → ∀ child ∈ m.children, child.IsReference
  else childrenOf table.nodes name = []

/-- **The reading breaks off**: the last child that is read is a reference, to a node with
references. -/
inductive BreaksOff (name : Text) : Prop where
  | intro {front back : List Text} {last : Text} {read : List Child} {child : Child}
      (hread : table.Reading earlier name (front ++ last :: back) read)
      (hnext : (front ++ last :: back).flatMap (table.unread earlier) = read ++ [child])
      (hfresh : last ∉ names earlier)
      (hlast : (childrenOf table.nodes last).getLast? = some child)
      (hbare : ∀ other ∈ back, table.Bare earlier other)
      (hfinds : table.Finds earlier (front ++ last :: back) child.variable)
      (hunread : table.unread earlier child.variable ≠ [])

end NodeTable

/-! ### Lists -/

theorem childrenOf_of_mem {nodes : List Node} (hnodup : (names nodes).Nodup) {node : Node}
    (hnode : node ∈ nodes) : childrenOf nodes node.name = node.children := by
  unfold childrenOf
  cases hfound : nodes.find? fun other => other.name = node.name with
  | none => exact absurd (List.find?_eq_none.mp hfound node hnode) (by simp)
  | some other =>
      have hname : other.name = node.name := by simpa using List.find?_some hfound
      rw [List.inj_on_of_nodup_map hnodup (List.mem_of_find?_eq_some hfound) hnode hname]
      rfl

/-- The last child of all lists is the last one of a list behind which they are empty. -/
theorem exists_last_list {α β : Type} {f : α → List β} {xs : List α} {ys : List β} {y : β}
    (h : xs.flatMap f = ys ++ [y]) :
    ∃ front last back, xs = front ++ last :: back ∧ (f last).getLast? = some y ∧
      ∀ x ∈ back, f x = [] := by
  induction xs using List.reverseRecOn generalizing ys with
  | nil => simp at h
  | append_singleton xs x ih =>
      rw [List.flatMap_append, List.flatMap_singleton] at h
      obtain hnil | ⟨init, z, hx⟩ := (f x).eq_nil_or_concat'
      · rw [hnil, List.append_nil] at h
        obtain ⟨front, last, back, rfl, hlast, hback⟩ := ih h
        refine ⟨front, last, back ++ [x], by simp, hlast, ?_⟩
        rw [List.forall_mem_append, List.forall_mem_singleton]
        exact ⟨hback, hnil⟩
      · rw [hx, ← List.append_assoc] at h
        obtain ⟨-, hz⟩ := List.append_inj' h rfl
        refine ⟨xs, x, [], rfl, ?_, by simp⟩
        rw [hx, hz, List.getLast?_append, List.getLast?_singleton, Option.some_or]

/-- What is left when a node is taken out by its name. -/
theorem takeNode_filter {name : Text} {nodes others : List Node} {n3 : Node}
    (hnodup : (names nodes).Nodup) (h : takeNode name nodes = some (n3, others)) :
    others = nodes.filter fun node => node.name ≠ name := by
  induction nodes generalizing others with
  | nil => simp [takeNode] at h
  | cons node next ih =>
      obtain ⟨hnot, hnext⟩ := List.nodup_cons.mp hnodup
      unfold takeNode at h
      split at h
      · rename_i hname
        obtain ⟨rfl, rfl⟩ := Prod.mk.inj (Option.some.inj h)
        rw [List.filter_cons_of_neg (by simpa using hname), List.filter_eq_self.mpr]
        intro other hother
        rw [decide_eq_true_eq]
        rintro rfl
        exact hnot (hname ▸ List.mem_map_of_mem hother)
      · rename_i hname
        obtain ⟨⟨found, rest⟩, hfound, heq⟩ := Option.map_eq_some_iff.mp h
        obtain ⟨rfl, rfl⟩ := Prod.mk.inj heq
        rw [List.filter_cons_of_pos (by simpa using hname), ih hnext hfound]

theorem filter_of_absent {name : Text} {nodes : List Node}
    (h : ∀ node ∈ nodes, node.name ≠ name) :
    nodes = nodes.filter fun node => node.name ≠ name :=
  (List.filter_eq_self.mpr fun node hnode => decide_eq_true (h node hnode)).symm

/-- The search takes the node of a name out of both lists. -/
theorem takeOther_filter {name : Text} {before after before' after' : List Node} {n3 : Node}
    (hnodup : (names (before ++ after)).Nodup)
    (h : takeOther name before after = some (n3, before', after')) :
    before' = (before.filter fun node => node.name ≠ name) ∧
      after' = after.filter fun node => node.name ≠ name := by
  rw [names, List.map_append] at hnodup
  obtain ⟨hbefore, hafter, hapart⟩ := List.nodup_append.mp hnodup
  unfold takeOther at h
  split at h
  · rename_i found htake
    obtain ⟨rfl, rfl, rfl⟩ : found.1 = n3 ∧ found.2 = before' ∧ after = after' := by
      simpa using h
    obtain ⟨hname, hperm⟩ := takeNode_eq_some htake
    have hmem := hperm.mem_iff.mpr List.mem_cons_self
    refine ⟨takeNode_filter hbefore htake, filter_of_absent fun node hnode heq => ?_⟩
    exact hapart _ (List.mem_map_of_mem hmem) _ (List.mem_map_of_mem hnode)
      (hname.trans heq.symm)
  · rename_i hnone
    obtain ⟨⟨found, others⟩, htake, heq⟩ := Option.map_eq_some_iff.mp h
    obtain ⟨rfl, rfl, rfl⟩ : found = n3 ∧ before = before' ∧ others = after' := by simpa using heq
    exact ⟨filter_of_absent (takeNode_eq_none hnone), takeNode_filter hafter htake⟩

/-- So does a reference. -/
theorem Turn.step_filter {turn next : Turn}
    (hnodup : (names (turn.before ++ turn.after)).Nodup) {n1 : Child} {n2 : List Child}
    (hrest : turn.rest = n1 :: n2) (href : n1.IsReference) (hstep : turn.step = some next) :
    next.before = (turn.before.filter fun node => node.name ≠ n1.variable) ∧
      next.after = turn.after.filter fun node => node.name ≠ n1.variable := by
  unfold Turn.step at hstep
  rw [hrest] at hstep
  simp only [if_pos href] at hstep
  cases hfound : takeOther n1.variable turn.before turn.after with
  | none =>
      rw [hfound] at hstep
      obtain rfl := Option.some.inj hstep
      have habsent := takeOther_eq_none hfound
      exact ⟨filter_of_absent fun node hnode => habsent node (List.mem_append_left _ hnode),
        filter_of_absent fun node hnode => habsent node (List.mem_append_right _ hnode)⟩
  | some found =>
      obtain ⟨n3, before, after⟩ := found
      have hothers := takeOther_filter hnodup hfound
      rw [hfound] at hstep
      dsimp only at hstep
      split at hstep
      · obtain rfl := Option.some.inj hstep
        exact hothers
      · obtain rfl := Option.some.inj hstep
        exact hothers

/-- What is left when one more name is moved. -/
theorem filter_not_mem_concat (moved : List Text) (name : Text) (nodes : List Node) :
    ((nodes.filter fun node => node.name ∉ moved).filter fun node => node.name ≠ name) =
      nodes.filter fun node => node.name ∉ moved ++ [name] := by
  rw [List.filter_filter]
  refine List.filter_congr fun node _ => ?_
  simp [Bool.and_comm]

/-! ### The node that a name has been moved to -/

namespace NodeTable

variable {table : NodeTable} {earlier : List Node} {name : Text}

theorem home_append (node : Node) :
    table.home (earlier ++ [node]) name =
      open Classical in if TransGen table.Refers node.name (table.home earlier name) then node.name
        else table.home earlier name := by
  unfold home
  rw [List.foldl_append, List.foldl_cons, List.foldl_nil]

/-- It is the name itself, or one of the nodes that have been read. -/
theorem home_eq_or_mem (table : NodeTable) (earlier : List Node) (name : Text) :
    table.home earlier name = name ∨ table.home earlier name ∈ names earlier := by
  induction earlier using List.reverseRecOn with
  | nil => exact .inl rfl
  | append_singleton earlier node ih =>
      rw [home_append]
      split
      · exact .inr (List.mem_map_of_mem (by simp))
      · refine ih.imp_right fun hmem => ?_
        rw [names, List.map_append]
        exact List.mem_append_left _ hmem

/-! ### Readings -/

namespace Reading

variable {moved moved' : List Text} {read read' rest : List Child}

theorem self_mem (h : table.Reading earlier name moved read) : name ∈ moved := by
  induction h with
  | start => exact List.mem_singleton_self name
  | take _ _ _ ih => exact List.mem_append_left _ ih
  | pass _ _ _ ih => exact ih

/-- What is moved was there. -/
theorem finds (h : table.Reading earlier name moved read) :
    ∀ other ∈ moved, other = name ∨
      (other ∈ names table.nodes ∧ table.home earlier other = other) := by
  induction h with
  | start => exact fun other hother => .inl (List.mem_singleton.mp hother)
  | take _ _ hfinds ih =>
      rw [List.forall_mem_append, List.forall_mem_singleton]
      exact ⟨ih, .inr ⟨hfinds.1, hfinds.2.1⟩⟩
  | pass _ _ _ ih => exact ih

/-- **A reading has no choice.** -/
theorem unique (h : table.Reading earlier name moved read)
    (h' : table.Reading earlier name moved' read') (hlength : read.length = read'.length) :
    moved = moved' ∧ read = read' := by
  induction h generalizing moved' read' with
  | start =>
      cases h' with
      | start => exact ⟨rfl, rfl⟩
      | take => simp at hlength
      | pass => simp at hlength
  | take hread hnext hfinds ih =>
      cases h' with
      | start => simp at hlength
      | take hread' hnext' hfinds' =>
          obtain ⟨rfl, rfl⟩ := ih hread' (by simpa using hlength)
          obtain ⟨rfl, -⟩ := List.cons.inj (List.append_cancel_left (hnext.symm.trans hnext'))
          exact ⟨rfl, rfl⟩
      | pass hread' hnext' hlost =>
          obtain ⟨rfl, rfl⟩ := ih hread' (by simpa using hlength)
          obtain ⟨rfl, -⟩ := List.cons.inj (List.append_cancel_left (hnext.symm.trans hnext'))
          exact absurd hfinds hlost
  | pass hread hnext hlost ih =>
      cases h' with
      | start => simp at hlength
      | take hread' hnext' hfinds =>
          obtain ⟨rfl, rfl⟩ := ih hread' (by simpa using hlength)
          obtain ⟨rfl, -⟩ := List.cons.inj (List.append_cancel_left (hnext.symm.trans hnext'))
          exact absurd hfinds hlost
      | pass hread' hnext' hlost' =>
          obtain ⟨rfl, rfl⟩ := ih hread' (by simpa using hlength)
          obtain ⟨rfl, -⟩ := List.cons.inj (List.append_cancel_left (hnext.symm.trans hnext'))
          exact ⟨rfl, rfl⟩

/-- At an earlier point of a reading something was left to read. -/
theorem unfinished (h : table.Reading earlier name moved read)
    (h' : table.Reading earlier name moved' read') (hlength : read'.length < read.length) :
    moved'.flatMap (table.unread earlier) ≠ read' := by
  have hbefore : ∀ {front : List Text} {done rest : List Child} {child : Child},
      table.Reading earlier name front done →
      front.flatMap (table.unread earlier) = done ++ child :: rest →
      read'.length = done.length → moved'.flatMap (table.unread earlier) ≠ read' := by
    intro front done rest child hdone hnext heq hend
    obtain ⟨rfl, rfl⟩ := h'.unique hdone heq
    rw [hnext] at hend
    simpa using congrArg List.length hend
  induction h with
  | start => simp at hlength
  | take hread hnext _ ih | pass hread hnext _ ih =>
      rw [List.length_append, List.length_singleton, Nat.lt_succ_iff_lt_or_eq] at hlength
      obtain hlt | heq := hlength
      · exact ih hlt
      · exact hbefore hread hnext heq

end Reading

end NodeTable

/-! ### Between turns -/

/-- **The state between turns**, as long as no reading has broken off: `earlier` have had their
turn, unless they were taken before it, and `later` have not. -/
structure Swept (table : NodeTable) (earlier later : List Node) (roots : Roots) : Prop where
  split : table.nodes = earlier ++ later
  gathered : Gathered table roots.present (table.home earlier)
  before : ∀ p ∈ roots.before, p.name ∈ names earlier
  /-- What has been read is left without references. -/
  closed : ∀ p ∈ roots.before, ∀ child ∈ p.children, ¬ child.IsReference
  after : roots.after = later.filter fun node => table.home earlier node.name = node.name

/-- **A node that is left without references has taken all it reaches**, if those that are gone are
in such nodes. -/
theorem Gathered.reaches_gone {table : NodeTable} {present : List Node} {owner : Text → Text}
    (h : Gathered table present owner) (closed : List Text)
    (hclosed : ∀ p ∈ present, p.name ∈ closed → ∀ child ∈ p.children, ¬ child.IsReference)
    (hgone : ∀ m ∈ table.nodes, m.name ∉ names present → owner m.name ∈ closed) {name other : Text}
    (hname : owner name ∈ closed) (hpath : TransGen table.Refers name other) :
    other ∉ names present := by
  have hstep : ∀ {here next : Text}, owner here ∈ closed → table.Refers here next →
      next ∉ names present := by
    rintro here next hhere ⟨m, hm, rfl, child, hchild, href, rfl⟩
    obtain ⟨p, hp, hpname⟩ := List.mem_map.mp (h.owned m hm)
    obtain hmem | ⟨-, hnot⟩ := h.kept m hm p hp hpname.symm child hchild
    · exact absurd href (hclosed p hp (hpname ▸ hhere) child hmem)
    · exact hnot
  induction hpath with
  | single hfirst => exact hstep hname hfirst
  | tail _ hlast ih =>
      obtain ⟨m, hm, rfl, -⟩ := id hlast
      exact hstep (hgone m hm ih) hlast

namespace Swept

variable {table : NodeTable} {earlier later : List Node} {roots : Roots}

theorem start (table : NodeTable) : Swept table [] table.nodes ⟨[], table.nodes⟩ where
  split := rfl
  gathered := Gathered.start table
  before := by simp
  closed := by simp
  after := (List.filter_eq_self.mpr fun _ _ => decide_eq_true rfl).symm

theorem names_nodup (h : Swept table earlier later roots) : (names (earlier ++ later)).Nodup :=
  h.split ▸ table.nodup

/-- The nodes from the current one on are as they were defined. -/
theorem mem_later (h : Swept table earlier later roots) {p : Node} (hp : p ∈ roots.after) :
    p ∈ later ∧ p ∈ table.nodes ∧ p.name ∉ names earlier := by
  rw [h.after] at hp
  have hlater := List.mem_of_mem_filter hp
  refine ⟨hlater, h.split ▸ List.mem_append_right _ hlater, fun hmem => ?_⟩
  have hnodup := h.names_nodup
  rw [names, List.map_append] at hnodup
  exact (List.nodup_append.mp hnodup).2.2 _ hmem _ (List.mem_map_of_mem hlater) rfl

/-- A node that is gone is in one that has been read. -/
theorem home_mem_before (h : Swept table earlier later roots) {m : Node} (hm : m ∈ table.nodes)
    (hgone : m ∈ earlier ∨ m.name ∉ names roots.present) :
    table.home earlier m.name ∈ names roots.before := by
  obtain ⟨p, hp, hname⟩ := List.mem_map.mp (h.gathered.owned m hm)
  obtain hbefore | hafter := List.mem_append.mp hp
  · exact hname ▸ List.mem_map_of_mem hbefore
  · obtain ⟨-, -, hnot⟩ := h.mem_later hafter
    obtain hsame | hmem := table.home_eq_or_mem earlier m.name
    · rw [hname, hsame] at hnot
      obtain hearlier | habsent := hgone
      · exact absurd (List.mem_map_of_mem hearlier) hnot
      · exact absurd (h.gathered.owned m hm) (hsame.symm ▸ habsent)
    · exact absurd (hname ▸ hmem) hnot

/-- What an earlier node reaches is gone. -/
theorem gone (h : Swept table earlier later roots) {node : Node} (hnode : node ∈ earlier)
    {other : Text} (hpath : TransGen table.Refers node.name other) :
    other ∉ names roots.present := by
  refine h.gathered.reaches_gone (names roots.before) ?_ ?_ ?_ hpath
  · intro p hp hclosed child hchild
    obtain ⟨q, hq, hname⟩ := List.mem_map.mp hclosed
    have heq := List.inj_on_of_nodup_map h.gathered.nodup (List.mem_append_left _ hq) hp hname
    exact h.closed p (heq ▸ hq) child hchild
  · exact fun m hm hgone => h.home_mem_before hm (.inr hgone)
  · exact h.home_mem_before (h.split ▸ List.mem_append_left _ hnode) (.inl hnode)

/-- **A node that has been taken has no turn.** -/
theorem skip {node : Node} {later : List Node} (h : Swept table earlier (node :: later) roots)
    (htaken : table.home earlier node.name ≠ node.name) :
    Swept table (earlier ++ [node]) later roots := by
  have hnode : node ∈ table.nodes := h.split ▸ by simp
  obtain ⟨first, hfirst, hname⟩ : ∃ first ∈ earlier, first.name = table.home earlier node.name :=
    List.mem_map.mp ((table.home_eq_or_mem earlier node.name).resolve_left htaken)
  -- whatever the node reaches was reached by the one that has taken it
  have hsame : ∀ m ∈ table.nodes, table.home (earlier ++ [node]) m.name =
      table.home earlier m.name := by
    intro m hm
    rw [NodeTable.home_append, if_neg]
    intro hpath
    have hreaches := h.gathered.reaches node hnode
    rw [← hname] at hreaches
    exact h.gone hfirst (hpath.trans_right hreaches) (h.gathered.owned m hm)
  constructor
  case split => rw [h.split, List.append_assoc, List.singleton_append]
  case gathered => exact h.gathered.congr hsame
  case before =>
    intro p hp
    rw [names, List.map_append]
    exact List.mem_append_left _ (h.before p hp)
  case closed => exact h.closed
  case after =>
    rw [h.after, List.filter_cons_of_neg (by simpa using htaken)]
    refine List.filter_congr fun other hother => ?_
    rw [hsame other (h.split ▸ by simp [hother])]

end Swept

/-! ### In a turn -/

/-- **The inner loop follows the reading**: `seen` is what it has been through of the lists of the
nodes that it has moved. -/
structure Follows (table : NodeTable) (earlier : List Node) (roots : Roots) (n0 : Node)
    (after : List Node) (turn : Turn) (moved : List Text) (seen : List Child) : Prop where
  reading : table.Reading earlier n0.name moved (seen.filter fun child => child.IsReference)
  lists : seen ++ turn.rest = moved.flatMap (childrenOf roots.present)
  done : turn.done = seen.filter fun child => ¬ child.IsReference
  before : turn.before = roots.before.filter fun node => node.name ∉ moved
  after : turn.after = after.filter fun node => node.name ∉ moved

namespace Swept

variable {table : NodeTable} {earlier later after : List Node} {roots : Roots} {n0 : Node}

theorem mem_present (hafter : roots.after = n0 :: after) : n0 ∈ roots.present := by
  rw [Roots.present, hafter]
  exact List.mem_append_right _ List.mem_cons_self

/-- The references of a node that is there are the unread ones. -/
theorem filter_childrenOf (h : Swept table earlier later roots) {name : Text}
    (hname : name ∈ names roots.present) :
    ((childrenOf roots.present name).filter fun child => child.IsReference) =
      table.unread earlier name := by
  obtain ⟨p, hp, rfl⟩ := List.mem_map.mp hname
  rw [childrenOf_of_mem h.gathered.nodup hp, NodeTable.unread]
  obtain hbefore | hafter := List.mem_append.mp hp
  · rw [if_pos (List.mem_map.mp (h.before p hbefore)), List.filter_eq_nil_iff]
    intro child hchild href
    exact h.closed p hbefore child hchild (of_decide_eq_true href)
  · obtain ⟨-, hmem, hnot⟩ := h.mem_later hafter
    rw [if_neg (mt List.mem_map.mpr hnot), childrenOf_of_mem table.nodup hmem]

theorem childrenOf_fresh (h : Swept table earlier later roots) {name : Text}
    (hname : name ∈ names roots.present) (hfresh : name ∉ names earlier) :
    childrenOf roots.present name = childrenOf table.nodes name := by
  obtain ⟨p, hp, rfl⟩ := List.mem_map.mp hname
  rw [childrenOf_of_mem h.gathered.nodup hp]
  obtain hbefore | hafter := List.mem_append.mp hp
  · exact absurd (h.before p hbefore) hfresh
  · rw [childrenOf_of_mem table.nodup (h.mem_later hafter).2.1]

/-- A node without children is bare. -/
theorem bare (h : Swept table earlier later roots) {name : Text}
    (hname : name ∈ names roots.present) :
    childrenOf roots.present name = [] ↔ table.Bare earlier name := by
  obtain ⟨p, hp, rfl⟩ := List.mem_map.mp hname
  rw [childrenOf_of_mem h.gathered.nodup hp, NodeTable.Bare]
  obtain hbefore | hafter := List.mem_append.mp hp
  · rw [if_pos (List.mem_map.mp (h.before p hbefore))]
    constructor
    · intro hnil m hm hhome child hchild
      obtain hmem | ⟨href, -⟩ := h.gathered.kept m hm p hp hhome child hchild
      · rw [hnil] at hmem
        cases hmem
      · exact href
    · intro hall
      refine List.eq_nil_iff_forall_not_mem.mpr fun child hchild => ?_
      obtain ⟨m, hm, hhome, hmem⟩ := h.gathered.source p hp child hchild
      exact h.closed p hbefore child hchild (hall m hm hhome child hmem)
  · obtain ⟨-, hmem, hnot⟩ := h.mem_later hafter
    rw [if_neg (mt List.mem_map.mpr hnot), childrenOf_of_mem table.nodup hmem]

/-- What a reading moves is there. -/
theorem moved_present (h : Swept table earlier later roots) (hn0 : n0 ∈ roots.present)
    {moved : List Text} {read : List Child} (hread : table.Reading earlier n0.name moved read) :
    ∀ name ∈ moved, name ∈ names roots.present := by
  intro name hname
  obtain rfl | ⟨hdefined, hhome⟩ := hread.finds name hname
  · exact List.mem_map_of_mem hn0
  · obtain ⟨m, hm, rfl⟩ := List.mem_map.mp hdefined
    exact hhome ▸ h.gathered.owned m hm

/-- The references in the lists that are read. -/
theorem filter_flatMap (h : Swept table earlier later roots) (hn0 : n0 ∈ roots.present)
    {moved : List Text} {read : List Child} (hread : table.Reading earlier n0.name moved read) :
    ((moved.flatMap (childrenOf roots.present)).filter fun child => child.IsReference) =
      moved.flatMap (table.unread earlier) := by
  rw [List.filter_flatMap]
  exact List.flatMap_congr fun name hname =>
    h.filter_childrenOf (h.moved_present hn0 hread name hname)

end Swept

namespace Follows

variable {table : NodeTable} {earlier later after : List Node} {roots : Roots} {n0 : Node}
  {turn next : Turn} {moved : List Text} {seen : List Child}

theorem start (hswept : Swept table earlier later roots) (hafter : roots.after = n0 :: after) :
    Follows table earlier roots n0 after (roots.turn n0 after) [n0.name] [] := by
  have hnodup := hswept.gathered.nodup
  rw [Roots.present, hafter, names, List.map_append, List.map_cons] at hnodup
  obtain ⟨-, hrest, hapart⟩ := List.nodup_append.mp hnodup
  constructor
  case reading => exact .start
  case lists =>
    rw [List.flatMap_singleton,
      childrenOf_of_mem hswept.gathered.nodup (Swept.mem_present hafter)]
    rfl
  case done => rfl
  case before =>
    refine (List.filter_eq_self.mpr fun node hnode => decide_eq_true ?_).symm
    rw [List.mem_singleton]
    exact hapart _ (List.mem_map_of_mem hnode) _ List.mem_cons_self
  case after =>
    refine (List.filter_eq_self.mpr fun node hnode => decide_eq_true ?_).symm
    rw [List.mem_singleton]
    rintro heq
    exact (List.nodup_cons.mp hrest).1 (heq ▸ List.mem_map_of_mem hnode)

/-- Which nodes are left for the search. -/
theorem mem_others (h : Follows table earlier roots n0 after turn moved seen)
    (hafter : roots.after = n0 :: after) {node : Node} :
    node ∈ turn.before ++ turn.after ↔ node ∈ roots.present ∧ node.name ∉ moved := by
  rw [h.before, h.after, Roots.present, hafter]
  simp only [List.mem_append, List.mem_filter, List.mem_cons, decide_eq_true_eq]
  constructor
  · rintro (⟨hmem, hnot⟩ | ⟨hmem, hnot⟩)
    · exact ⟨.inl hmem, hnot⟩
    · exact ⟨.inr (.inr hmem), hnot⟩
  · rintro ⟨hmem | rfl | hmem, hnot⟩
    · exact .inl ⟨hmem, hnot⟩
    · exact absurd h.reading.self_mem hnot
    · exact .inr ⟨hmem, hnot⟩

/-- **The search finds a node just if the reference does.** -/
theorem finds_iff (hswept : Swept table earlier later roots)
    (h : Follows table earlier roots n0 after turn moved seen)
    (hafter : roots.after = n0 :: after) (name : Text) :
    table.Finds earlier moved name ↔ ∃ node ∈ turn.before ++ turn.after, node.name = name := by
  constructor
  · rintro ⟨hdefined, hhome, hnot⟩
    obtain ⟨m, hm, rfl⟩ := List.mem_map.mp hdefined
    obtain ⟨p, hp, hname⟩ := List.mem_map.mp (hhome ▸ hswept.gathered.owned m hm)
    exact ⟨p, (h.mem_others hafter).mpr ⟨hp, hname ▸ hnot⟩, hname⟩
  · rintro ⟨p, hp, rfl⟩
    obtain ⟨hpresent, hnot⟩ := (h.mem_others hafter).mp hp
    have hmem := List.mem_map_of_mem (f := Node.name) hpresent
    exact ⟨hswept.gathered.defined hmem, hswept.gathered.own _ hmem, hnot⟩

theorem nodup_others (hswept : Swept table earlier later roots)
    (h : Follows table earlier roots n0 after turn moved seen)
    (hafter : roots.after = n0 :: after) : (names (turn.before ++ turn.after)).Nodup := by
  have hnodup := hswept.gathered.nodup
  rw [h.before, h.after]
  rw [Roots.present, hafter] at hnodup
  refine hnodup.sublist (List.Sublist.map _ ?_)
  exact List.filter_sublist.append (List.filter_sublist.trans (List.sublist_cons_self _ _))

/-- The references that are read next. -/
theorem next_refs (hswept : Swept table earlier later roots)
    (h : Follows table earlier roots n0 after turn moved seen)
    (hafter : roots.after = n0 :: after) :
    moved.flatMap (table.unread earlier) =
      (seen.filter fun child => child.IsReference) ++
        turn.rest.filter fun child => child.IsReference := by
  rw [← hswept.filter_flatMap (Swept.mem_present hafter) h.reading, ← h.lists, List.filter_append]

/-- A reference whose node is found moves it. -/
theorem splice (hswept : Swept table earlier later roots)
    (h : Follows table earlier roots n0 after turn moved seen)
    (hafter : roots.after = n0 :: after) (hcut : ¬ turn.CutsOff) (hstep : turn.step = some next)
    {n1 : Child} {n2 : List Child} {n3 : Node} (hrest : turn.rest = n1 :: n2)
    (href : n1.IsReference) (hn3 : n3 ∈ turn.before ++ turn.after) (hname : n3.name = n1.variable)
    (hdone : next.done = if n2 = [] then turn.done ++ n3.children else turn.done)
    (hnext : next.rest = if n2 = [] then [] else n2 ++ n3.children) :
    ∃ seen', Follows table earlier roots n0 after next (moved ++ [n1.variable]) seen' ∧
      (seen'.filter fun child => child.IsReference) =
        (seen.filter fun child => child.IsReference) ++ [n1] := by
  have hrefs := h.next_refs hswept hafter
  have hlists := h.lists
  rw [hrest, List.filter_cons_of_pos (by simpa using href)] at hrefs
  have hread := h.reading.take hrefs ((h.finds_iff hswept hafter _).mpr ⟨n3, hn3, hname⟩)
  have hchildren : childrenOf roots.present n1.variable = n3.children := by
    rw [← hname]
    exact childrenOf_of_mem hswept.gathered.nodup ((h.mem_others hafter).mp hn3).1
  obtain ⟨hbefore', hafter'⟩ := Turn.step_filter (h.nodup_others hswept hafter) hrest href hstep
  rw [h.before, filter_not_mem_concat] at hbefore'
  rw [h.after, filter_not_mem_concat] at hafter'
  by_cases hlast : n2 = []
  · -- behind the last child only objects are put, as nothing is cut off
    have hobjects : ∀ child ∈ n3.children, ¬ child.IsReference := by
      intro child hchild hreference
      exact hcut ⟨n1, by simp [hrest], hlast ▸ hrest, href, n3, hn3, hname, child, hchild,
        hreference⟩
    have hnone : (n3.children.filter fun child => child.IsReference) = [] :=
      List.filter_eq_nil_iff.mpr fun child hchild href =>
        hobjects child hchild (of_decide_eq_true href)
    have hall : (n3.children.filter fun child => ¬ child.IsReference) = n3.children :=
      List.filter_eq_self.mpr fun child hchild => decide_eq_true (hobjects child hchild)
    rw [if_pos hlast] at hdone hnext
    refine ⟨seen ++ n1 :: n3.children, ⟨?_, ?_, ?_, hbefore', hafter'⟩, ?_⟩
    · simpa [href, hnone] using hread
    · rw [hnext, List.append_nil, List.flatMap_append, List.flatMap_singleton, hchildren,
        ← hlists, hrest, hlast, List.append_assoc]
      rfl
    · rw [hdone, h.done, List.filter_append, List.filter_cons_of_neg (by simpa using href), hall]
    · simp [href, hnone]
  · rw [if_neg hlast] at hdone hnext
    refine ⟨seen ++ [n1], ⟨?_, ?_, ?_, hbefore', hafter'⟩, ?_⟩
    · simpa [href] using hread
    · rw [hnext, List.flatMap_append, List.flatMap_singleton, hchildren, ← hlists, hrest,
        List.append_assoc, List.append_assoc]
      rfl
    · simp [hdone, h.done, href]
    · simp [href]

/-- The loop goes on by one child. -/
theorem step (hswept : Swept table earlier later roots)
    (h : Follows table earlier roots n0 after turn moved seen)
    (hafter : roots.after = n0 :: after) (hcut : ¬ turn.CutsOff) (hstep : turn.step = some next) :
    ∃ moved' seen', Follows table earlier roots n0 after next moved' seen' ∧
      (seen'.filter fun child => child.IsReference) =
        (seen.filter fun child => child.IsReference) ++
          (turn.rest.take 1).filter fun child => child.IsReference := by
  have hlists := h.lists
  cases TurnMove.of_step hstep with
  | keep n1 n2 hrest hobject hnext =>
      subst hnext
      refine ⟨moved, seen ++ [n1], ⟨?_, ?_, ?_, h.before, h.after⟩, ?_⟩
      · simpa [hobject] using h.reading
      · rw [← hlists, hrest, List.append_assoc]
        rfl
      · simp [h.done, hobject]
      · simp [hrest]
  | drop n1 n2 hrest href habsent hnext =>
      subst hnext
      have hlost : ¬ table.Finds earlier moved n1.variable := by
        rw [h.finds_iff hswept hafter]
        rintro ⟨node, hnode, hname⟩
        exact habsent node hnode hname
      refine ⟨moved, seen ++ [n1], ⟨?_, ?_, ?_, h.before, h.after⟩, ?_⟩
      · have hrefs := h.next_refs hswept hafter
        rw [hrest, List.filter_cons_of_pos (by simpa using href)] at hrefs
        simpa [href] using h.reading.pass hrefs hlost
      · rw [← hlists, hrest, List.append_assoc]
        rfl
      · simp [h.done, href]
      · simp [hrest]
  | splice n1 n2 n3 hrest href hname hothers hbefore hafter' hdone hnext =>
      have hn3 : n3 ∈ turn.before ++ turn.after := hothers.mem_iff.mpr List.mem_cons_self
      obtain ⟨seen', hfollows, hseen⟩ :=
        h.splice hswept hafter hcut hstep hrest href hn3 hname hdone hnext
      exact ⟨_, seen', hfollows, by simp [hseen, hrest, href]⟩

/-- **Where the loop is cut off, the reading breaks off.** -/
theorem breaksOff (hswept : Swept table earlier later roots)
    (h : Follows table earlier roots n0 after turn moved seen)
    (hafter : roots.after = n0 :: after) (hcut : turn.CutsOff) :
    table.BreaksOff earlier n0.name := by
  obtain ⟨n1, -, hrest, href, n3, hn3, hname, child, hchild, hreference⟩ := hcut
  have hlists := h.lists
  have hrefs := h.next_refs hswept hafter
  rw [hrest] at hlists hrefs
  obtain ⟨front, last, back, rfl, hlast, hback⟩ := exists_last_list hlists.symm
  have hpresent := hswept.moved_present (Swept.mem_present hafter) h.reading
  have hlastPresent := hpresent last (by simp)
  have hmemLast : n1 ∈ table.unread earlier last := by
    rw [← hswept.filter_childrenOf hlastPresent, List.mem_filter]
    exact ⟨List.mem_of_getLast? hlast, decide_eq_true href⟩
  have hfresh : last ∉ names earlier := by
    intro hmem
    rw [NodeTable.unread, if_pos (List.mem_map.mp hmem)] at hmemLast
    cases hmemLast
  rw [hswept.childrenOf_fresh hlastPresent hfresh] at hlast
  refine .intro h.reading (by simpa [href] using hrefs) hfresh hlast ?_
    ((h.finds_iff hswept hafter _).mpr ⟨n3, hn3, hname⟩) ?_
  · exact fun other hother =>
      (hswept.bare (hpresent other (by simp [hother]))).mp (hback other hother)
  · have hn3Present := ((h.mem_others hafter).mp hn3).1
    rw [← hname, ← hswept.filter_childrenOf (List.mem_map_of_mem hn3Present),
      childrenOf_of_mem hswept.gathered.nodup hn3Present]
    exact List.ne_nil_of_mem (List.mem_filter.mpr ⟨hchild, decide_eq_true hreference⟩)

/-- The loop is cut off where the reading breaks off. -/
theorem cutsOff (hswept : Swept table earlier later roots) {front back : List Text} {last : Text}
    (h : Follows table earlier roots n0 after turn (front ++ last :: back) seen)
    (hafter : roots.after = n0 :: after) {child n1 : Child} {n2 : List Child}
    (hnext : (front ++ last :: back).flatMap (table.unread earlier) =
      (seen.filter fun child => child.IsReference) ++ [child])
    (hfresh : last ∉ names earlier) (hlast : (childrenOf table.nodes last).getLast? = some child)
    (hbare : ∀ other ∈ back, table.Bare earlier other)
    (hfinds : table.Finds earlier (front ++ last :: back) child.variable)
    (hunread : table.unread earlier child.variable ≠ []) (hrest : turn.rest = n1 :: n2)
    (href : n1.IsReference) : turn.CutsOff := by
  have hpresent := hswept.moved_present (Swept.mem_present hafter) h.reading
  have hrefs := h.next_refs hswept hafter
  rw [hnext, hrest, List.filter_cons_of_pos (by simpa using href)] at hrefs
  obtain ⟨rfl, hnone⟩ := List.cons.inj (List.append_cancel_left hrefs)
  -- nothing comes behind it
  have hlists := h.lists
  have hback : back.flatMap (childrenOf roots.present) = [] :=
    List.flatMap_eq_nil_iff.mpr fun other hother =>
      (hswept.bare (hpresent other (by simp [hother]))).mpr (hbare other hother)
  rw [List.flatMap_append, List.flatMap_cons, hback, List.append_nil, hrest,
    hswept.childrenOf_fresh (hpresent last (by simp)) hfresh] at hlists
  have hn2 : n2 = [] := by
    by_contra hne
    have hend := congrArg List.getLast? hlists
    rw [List.getLast?_append, List.getLast?_append, hlast, Option.some_or,
      List.getLast?_cons_of_ne_nil hne] at hend
    cases hn2 : n2.getLast? with
    | none => exact hne (List.getLast?_eq_none_iff.mp hn2)
    | some other =>
        rw [hn2, Option.some_or] at hend
        obtain rfl := Option.some.inj hend
        exact List.filter_eq_nil_iff.mp hnone.symm other (List.mem_of_getLast? hn2)
          (by simpa using href)
  obtain ⟨n3, hn3, hname⟩ := (h.finds_iff hswept hafter _).mp hfinds
  have hn3Present := ((h.mem_others hafter).mp hn3).1
  rw [← hname, ← hswept.filter_childrenOf (List.mem_map_of_mem hn3Present),
    childrenOf_of_mem hswept.gathered.nodup hn3Present] at hunread
  obtain ⟨other, hother⟩ := List.exists_mem_of_ne_nil _ hunread
  obtain ⟨hmem, hreference⟩ := List.mem_filter.mp hother
  exact ⟨child, by simp [hrest], hn2 ▸ hrest, href, n3, hn3, hname, other, hmem,
    of_decide_eq_true hreference⟩

end Follows

namespace Swept

variable {table : NodeTable} {earlier later after : List Node} {roots : Roots} {n0 : Node}

/-- **A reading that breaks off** cuts the loop off. -/
theorem exists_cutsOff (hswept : Swept table earlier later roots)
    (hafter : roots.after = n0 :: after) (hbreaks : table.BreaksOff earlier n0.name) :
    ∃ turn ∈ childLoop.states (roots.turn n0 after), turn.CutsOff := by
  obtain @⟨front, back, last, read, child, hread, hnext, hfresh, hlast, hbare, hfinds, hunread⟩ :=
    hbreaks
  by_contra hnone
  push Not at hnone
  -- as long as it is not cut off, the loop is not past the child
  have hend := @Loop.invariant_of_states _ childLoop
    (fun turn => ∃ moved seen, Follows table earlier roots n0 after turn moved seen ∧
      (seen.filter fun child => child.IsReference).length ≤ read.length)
    (fun turn => ¬ turn.CutsOff) ?_ (roots.turn n0 after)
    ⟨_, _, Follows.start hswept hafter, Nat.zero_le _⟩ hnone
  · obtain ⟨moved, seen, hfollows, hle⟩ := hend
    have hrefs := hfollows.next_refs hswept hafter
    rw [childLoop_rest, List.filter_nil, List.append_nil] at hrefs
    obtain hlt | heq := hle.lt_or_eq
    · exact hread.unfinished hfollows.reading hlt hrefs
    · obtain ⟨rfl, hsame⟩ := hfollows.reading.unique hread heq
      rw [hnext, hsame] at hrefs
      simp at hrefs
  · rintro here next ⟨moved, seen, hfollows, hle⟩ hcut hstep
    obtain ⟨moved', seen', hnextFollows, hseen⟩ := hfollows.step hswept hafter hcut hstep
    refine ⟨moved', seen', hnextFollows, ?_⟩
    rw [hseen, List.length_append]
    obtain hlt | heq := hle.lt_or_eq
    · have hone := List.length_filter_le (fun child : Child => decide child.IsReference)
        (here.rest.take 1)
      rw [List.length_take] at hone
      omega
    · obtain ⟨rfl, hsame⟩ := hfollows.reading.unique hread heq
      cases hrest : here.rest with
      | nil => simpa using hle
      | cons n1 n2 =>
          have hobject : ¬ n1.IsReference := fun href =>
            hcut (hfollows.cutsOff hswept hafter (hsame ▸ hnext) hfresh hlast hbare hfinds hunread
              hrest href)
          simpa [hobject] using hle

end Swept

end Webcamd.Make
