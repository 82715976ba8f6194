import Mathlib
import Webcamd.Make.Reading

/-!
# The expansion of variables

`resolve_nodes` is to leave in every node the objects that the references of the node stand for.

* `NodeTable.Resolved` — it does.
* `NodeTable.ReadThrough` — no reading breaks off.
* `NodeTable.Collected` — every object that a node stands for is listed by one that is moved to it.
* `Swept.read` — the turn of a node whose reading does not break off.
* `resolve_nodes_expands` — the expansion is right if every reading comes to its end and the objects
  are collected, and only then, unless the first reading that breaks off is a variable's own.

**Two defects.**  A node is moved, not copied, to the first reference, so that a second place that
refers to it does not find it; and the children that are put behind the last one are not looked at.
A variable whose own reading has broken off may still be read to its end from a node that refers to
it.
-/

namespace Webcamd.Make

open Webcamd.Library Relation

/-- The children of the nodes that are left are the expansions, and none is a reference. -/
structure NodeTable.Resolved (table : NodeTable) : Prop where
  expands : ∀ n0 ∈ resolveNodes table.nodes, ∀ object,
    object ∈ n0.children.map Child.name ↔ table.Expands n0.name object
  noReference : ∀ n0 ∈ resolveNodes table.nodes, ∀ child ∈ n0.children, ¬ child.IsReference

namespace NodeTable

variable (table : NodeTable)

/-- The readings of these nodes do not break off: of those that nobody has taken before. -/
def ReadUpTo (nodes : List Node) : Prop :=
  ∀ earlier node later, nodes = earlier ++ node :: later →
    table.home earlier node.name = node.name → ¬ table.BreaksOff earlier node.name

/-- No reading breaks off. -/
def ReadThrough : Prop := table.ReadUpTo table.nodes

/-- **The objects of a node that nothing refers to are moved to it.** -/
def Collected : Prop :=
  ∀ top ∈ table.nodes, table.Unreferenced top.name → ∀ object, table.Expands top.name object →
    ∃ m ∈ table.nodes, table.home table.nodes m.name = top.name ∧
      ∃ child ∈ m.children, ¬ child.IsReference ∧ child.name = object

/-- The first reading that breaks off is the one of a variable. -/
def VariableBreaksOff : Prop :=
  ∃ earlier node later, table.nodes = earlier ++ node :: later ∧ table.ReadUpTo earlier ∧
    table.home earlier node.name = node.name ∧ table.BreaksOff earlier node.name ∧
      ¬ table.Unreferenced node.name

end NodeTable

/-! ### A turn that comes to its end -/

/-- What a reading moves is reached. -/
theorem NodeTable.Reading.reaches {table : NodeTable} {earlier : List Node} {name : Text}
    {moved : List Text} {read : List Child} (h : table.Reading earlier name moved read) :
    ∀ other ∈ moved, ReflTransGen table.Refers name other := by
  induction h with
  | start =>
      rw [List.forall_mem_singleton]
  | take _ hnext _ ih =>
      rw [List.forall_mem_append, List.forall_mem_singleton]
      refine ⟨ih, ?_⟩
      have hmem := hnext ▸ List.mem_append_right _ List.mem_cons_self
      obtain ⟨here, hhere, hchild⟩ := List.mem_flatMap.mp hmem
      unfold NodeTable.unread at hchild
      split at hchild
      · cases hchild
      · obtain ⟨hchild, href⟩ := List.mem_filter.mp hchild
        refine (ih here hhere).tail ?_
        unfold childrenOf at hchild
        cases hfound : table.nodes.find? fun node => node.name = here with
        | none =>
            rw [hfound] at hchild
            cases hchild
        | some node =>
            rw [hfound] at hchild
            exact ⟨node, List.mem_of_find?_eq_some hfound, by simpa using List.find?_some hfound,
              _, hchild, of_decide_eq_true href, rfl⟩
  | pass _ _ _ ih => exact ih

namespace Swept

variable {table : NodeTable} {earlier later after : List Node} {roots : Roots} {node : Node}

/-- A turn whose reading does not break off follows it to the end. -/
theorem follows_finish (h : Swept table earlier later roots) (hafter : roots.after = node :: after)
    (hread : ¬ table.BreaksOff earlier node.name) :
    ∃ moved seen, Follows table earlier roots node after
      (childLoop.finish (roots.turn node after)) moved seen := by
  refine @Loop.invariant _ childLoop
    (fun turn => ∃ moved seen, Follows table earlier roots node after turn moved seen) ?_
    (roots.turn node after) ⟨_, _, Follows.start h hafter⟩
  rintro here next ⟨moved, seen, hfollows⟩ hstep
  have hcut : ¬ here.CutsOff := fun hcut => hread (hfollows.breaksOff h hafter hcut)
  obtain ⟨moved', seen', hnext, -⟩ := hfollows.step h hafter hcut hstep
  exact ⟨moved', seen', hnext⟩

end Swept

namespace Follows

variable {table : NodeTable} {earlier later after : List Node} {roots : Roots} {node : Node}
  {turn : Turn} {moved : List Text} {seen : List Child}

/-- What is there in a turn is what has not been moved. -/
theorem mem_names (h : Follows table earlier roots node after turn moved seen)
    (hafter : roots.after = node :: after) {name : Text} (hname : name ∈ names roots.present) :
    name ∈ names (turn.present node.name) ↔ name = node.name ∨ name ∉ moved := by
  rw [Turn.present, names, List.map_cons, List.mem_cons]
  refine or_congr_right ?_
  constructor
  · intro hmem
    obtain ⟨p, hp, rfl⟩ := List.mem_map.mp hmem
    exact ((h.mem_others hafter).mp hp).2
  · intro hnot
    obtain ⟨p, hp, rfl⟩ := List.mem_map.mp hname
    exact List.mem_map_of_mem ((h.mem_others hafter).mpr ⟨hp, hnot⟩)

/-- A node that is gone after the turn is in one that has been read. -/
theorem takesGone_mem (h : Follows table earlier roots node after turn moved seen)
    (hswept : Swept table earlier later roots) (hafter : roots.after = node :: after)
    {name : Text} (habsent : name ∉ names (turn.present node.name)) :
    takesGone node.name (turn.present node.name) (table.home earlier) name ∈
      node.name :: names turn.before := by
  by_cases hhere : table.home earlier name ∈ names (turn.present node.name)
  · rw [takesGone_of_mem hhere]
    obtain hself | hothers := List.mem_cons.mp hhere
    · exact hself ▸ List.mem_cons_self
    · obtain ⟨p, hp, hname⟩ := List.mem_map.mp hothers
      obtain hbefore | hlater := List.mem_append.mp hp
      · exact List.mem_cons_of_mem _ (hname ▸ List.mem_map_of_mem hbefore)
      · -- a node that is to come has taken nothing yet
        rw [h.after] at hlater
        have hp := List.mem_cons_of_mem node (List.mem_of_mem_filter hlater)
        rw [← hafter] at hp
        obtain hsame | hearlier := table.home_eq_or_mem earlier name
        · exact absurd (hsame ▸ hhere) habsent
        · exact absurd (hname ▸ hearlier) (hswept.mem_later hp).2.2
  · rw [takesGone_of_notMem hhere]
    exact List.mem_cons_self

/-- **At the end of a turn the node has taken all that it reaches.** -/
theorem home_eq (h : Follows table earlier roots node after turn moved seen)
    (hswept : Swept table earlier later roots) (hafter : roots.after = node :: after)
    (hgathered : Gathered table (turn.present node.name)
      (takesGone node.name (turn.present node.name) (table.home earlier)))
    (hrest : turn.rest = []) {m : Node} (hm : m ∈ table.nodes) :
    table.home (earlier ++ [node]) m.name =
      takesGone node.name (turn.present node.name) (table.home earlier) m.name := by
  rw [NodeTable.home_append]
  by_cases hpath : TransGen table.Refers node.name (table.home earlier m.name)
  · rw [if_pos hpath, takesGone_of_notMem]
    refine hgathered.reaches_gone (node.name :: names turn.before) ?_ ?_ ?_ hpath
    · intro p hp hclosed
      have hunique : ∀ q ∈ turn.present node.name, q.name = p.name → q = p := fun q hq heq =>
        List.inj_on_of_nodup_map hgathered.nodup hq hp heq
      obtain hname | hmem := List.mem_cons.mp hclosed
      · rw [← hunique _ List.mem_cons_self hname.symm, hrest, List.append_nil, h.done]
        exact fun child hchild => by simpa using (List.mem_filter.mp hchild).2
      · obtain ⟨q, hq, hname⟩ := List.mem_map.mp hmem
        rw [← hunique q (List.mem_cons_of_mem _ (List.mem_append_left _ hq)) hname]
        rw [h.before] at hq
        exact hswept.closed q (List.mem_of_mem_filter hq)
    · exact fun _ _ habsent => h.takesGone_mem hswept hafter habsent
    · have hhome := hswept.gathered.own _ (List.mem_map_of_mem (Swept.mem_present hafter))
      rw [takesGone, hhome, ite_self]
      exact List.mem_cons_self
  · rw [if_neg hpath, takesGone_of_mem]
    by_contra habsent
    rw [h.mem_names hafter (hswept.gathered.owned m hm), not_or, not_not] at habsent
    obtain ⟨hne, hmoved⟩ := habsent
    have hreaches := h.reading.reaches _ hmoved
    exact hpath ((reflTransGen_iff_eq_or_transGen.mp hreaches).resolve_left hne)

end Follows

namespace Swept

variable {table : NodeTable} {earlier later : List Node} {roots : Roots} {node : Node}

/-- **The turn of a node** whose reading does not break off. -/
theorem read (h : Swept table earlier (node :: later) roots) (hacyclic : table.Acyclic)
    (hhome : table.home earlier node.name = node.name)
    (hread : ¬ table.BreaksOff earlier node.name) :
    ∃ next, roots.step = some next ∧ Swept table (earlier ++ [node]) later next := by
  let after := later.filter fun other => table.home earlier other.name = other.name
  have hafter : roots.after = node :: after := by
    rw [h.after, List.filter_cons_of_pos (by simpa using hhome)]
  obtain ⟨moved, seen, hfollows⟩ := h.follows_finish hafter hread
  have hgathered := h.gathered.turn hacyclic hafter _
    (childLoop.finish_mem_states (roots.turn node after))
  have hrest := childLoop_rest (roots.turn node after)
  have hhomes := fun m hm => hfollows.home_eq h hafter hgathered hrest (m := m) hm
  refine ⟨_, by unfold Roots.step; rw [hafter], ?_⟩
  constructor
  case split => rw [h.split, List.append_assoc, List.singleton_append]
  case gathered => exact (hgathered.congr hhomes).perm (Roots.present_finish _ _)
  case before =>
    rw [List.forall_mem_append, List.forall_mem_singleton, names, List.map_append]
    refine ⟨fun p hp => List.mem_append_left _ ?_, List.mem_append_right _ (by simp)⟩
    rw [hfollows.before] at hp
    exact h.before p (List.mem_of_mem_filter hp)
  case closed =>
    rw [List.forall_mem_append, List.forall_mem_singleton, hfollows.before, hfollows.done]
    refine ⟨fun p hp => h.closed p (List.mem_of_mem_filter hp), fun child hchild => ?_⟩
    simpa using (List.mem_filter.mp hchild).2
  case after =>
    have hnodup := h.names_nodup
    rw [names, List.map_append, List.map_cons] at hnodup
    have hnot := (List.nodup_cons.mp (List.nodup_append.mp hnodup).2.1).1
    rw [hfollows.after, List.filter_filter]
    refine List.filter_congr fun other hother => ?_
    have hmem : other ∈ table.nodes := h.split ▸ by simp [hother]
    have hne : other.name ≠ node.name := fun heq => hnot (heq ▸ List.mem_map_of_mem hother)
    rw [hhomes other hmem, ← Bool.decide_and, decide_eq_decide]
    have howned := h.gathered.owned other hmem
    constructor
    · rintro ⟨hmoved, hsame⟩
      rw [hsame] at howned
      rw [takesGone_of_mem, hsame]
      exact hsame.symm ▸ (hfollows.mem_names hafter howned).mpr (.inr hmoved)
    · intro hsame
      by_cases hpresent : table.home earlier other.name ∈
          names ((childLoop.finish (roots.turn node after)).present node.name)
      · rw [takesGone_of_mem hpresent] at hsame
        rw [hsame] at hpresent howned
        exact ⟨((hfollows.mem_names hafter howned).mp hpresent).resolve_left hne, hsame⟩
      · rw [takesGone_of_notMem hpresent] at hsame
        exact absurd hsame.symm hne

/-- **As far as the readings do not break off**, the loop over the nodes comes to such a state. -/
theorem exists_of_readUpTo {table : NodeTable} (hacyclic : table.Acyclic)
    {earlier later : List Node} (hsplit : table.nodes = earlier ++ later)
    (hread : table.ReadUpTo earlier) :
    ∃ roots ∈ rootLoop.states ⟨[], table.nodes⟩, Swept table earlier later roots := by
  induction earlier using List.reverseRecOn generalizing later with
  | nil =>
      obtain rfl : table.nodes = later := hsplit
      exact ⟨_, rootLoop.self_mem_states _, Swept.start table⟩
  | append_singleton earlier node ih =>
      rw [List.append_assoc, List.singleton_append] at hsplit
      obtain ⟨roots, hroots, hswept⟩ := ih hsplit fun front other back heq =>
        hread front other (back ++ [node]) (by rw [heq]; simp)
      by_cases hhome : table.home earlier node.name = node.name
      · obtain ⟨next, hstep, hnext⟩ := hswept.read hacyclic hhome (hread earlier node [] rfl hhome)
        exact ⟨next, rootLoop.mem_states_of_step hroots hstep, hnext⟩
      · exact ⟨roots, hroots, hswept.skip hhome⟩

end Swept

namespace NodeTable

variable {table : NodeTable}

/-- There is a first reading that breaks off. -/
theorem exists_first_breaksOff {nodes : List Node} (h : ¬ table.ReadUpTo nodes) :
    ∃ earlier node later, nodes = earlier ++ node :: later ∧ table.ReadUpTo earlier ∧
      table.home earlier node.name = node.name ∧ table.BreaksOff earlier node.name := by
  induction nodes using List.reverseRecOn with
  | nil =>
      refine absurd ?_ h
      intro earlier node later hnil
      simp at hnil
  | append_singleton nodes last ih =>
      by_cases hread : table.ReadUpTo nodes
      · unfold ReadUpTo at h
        push Not at h
        obtain ⟨earlier, node, later, heq, hhome, hbreaks⟩ := h
        obtain rfl | ⟨init, other, rfl⟩ := later.eq_nil_or_concat'
        · obtain ⟨rfl, -⟩ := List.append_inj' heq rfl
          exact ⟨nodes, node, [], heq, hread, hhome, hbreaks⟩
        · rw [← List.cons_append, ← List.append_assoc] at heq
          obtain ⟨hnodes, -⟩ := List.append_inj' heq rfl
          exact absurd hbreaks (hread earlier node init hnodes hhome)
      · obtain ⟨earlier, node, later, heq, hfirst⟩ := ih hread
        refine ⟨earlier, node, later ++ [last], ?_, hfirst⟩
        rw [heq, List.append_assoc, List.cons_append]

/-! ### The result -/

theorem resolved_iff (table : NodeTable) :
    table.Resolved ↔
      (∀ n ∈ table.remaining, ∀ object,
        object ∈ n.children.map Child.name ↔ table.Expands n.name object) ∧
      ∀ n ∈ table.remaining, ∀ child ∈ n.children, ¬ child.IsReference := by
  constructor
  · intro hresolved
    constructor
    · intro n hn object
      have hexpands := hresolved.expands _ (List.mem_map_of_mem hn) object
      rwa [removeDuplicate_names] at hexpands
    · intro n hn child hchild href
      have hname := (removeDuplicate_names n.children child.name).mpr (List.mem_map_of_mem hchild)
      obtain ⟨other, hother, heq⟩ := List.mem_map.mp hname
      refine hresolved.noReference _ (List.mem_map_of_mem hn) other hother ?_
      unfold Child.IsReference
      rwa [heq]
  · rintro ⟨hexpands, hnone⟩
    constructor
    · intro n0 hn0 object
      obtain ⟨n, hn, rfl⟩ := List.mem_map.mp hn0
      rw [removeDuplicate_names]
      exact hexpands n hn object
    · intro n0 hn0 child hchild
      obtain ⟨n, hn, rfl⟩ := List.mem_map.mp hn0
      exact hnone n hn child (removeDuplicate_subset _ hchild)

/-- **If every reading comes to its end**, the expansion is right just if the objects are
collected. -/
theorem ReadThrough.resolved_iff (h : table.ReadThrough) (hacyclic : table.Acyclic) :
    table.Resolved ↔ table.Collected := by
  obtain ⟨roots, hroots, hswept⟩ :=
    Swept.exists_of_readUpTo hacyclic (List.append_nil table.nodes).symm h
  have hafter : roots.after = [] := hswept.after
  have hfinish : table.remaining = roots.before := by
    have hend : rootLoop.step roots = none := by
      change roots.step = none
      rw [Roots.step, hafter]
    rw [remaining, ← rootLoop.finish_eq_of_mem hroots, rootLoop.finish_of_none hend]
  have hgathered : Gathered table table.remaining (table.home table.nodes) := by
    rw [hfinish, ← List.append_nil roots.before, ← hafter]
    exact hswept.gathered
  have hnone : ∀ n ∈ table.remaining, ∀ child ∈ n.children, ¬ child.IsReference :=
    hfinish ▸ hswept.closed
  rw [table.resolved_iff, and_iff_left hnone]
  constructor
  · intro hexpands top htop hunref object hobject
    obtain ⟨p, hp, hname⟩ := List.mem_map.mp (hgathered.owned top htop)
    rw [hgathered.own_of_unreferenced htop hunref] at hname
    rw [← hname, ← hexpands p hp] at hobject
    obtain ⟨child, hchild, rfl⟩ := List.mem_map.mp hobject
    obtain ⟨m, hm, hhome, hmem⟩ := hgathered.source p hp child hchild
    exact ⟨m, hm, hhome.trans hname, child, hmem, hnone p hp child hchild, rfl⟩
  · intro hcollected n hn object
    constructor
    · intro hmem
      obtain ⟨child, hchild, rfl⟩ := List.mem_map.mp hmem
      exact hgathered.expands hn hchild (hnone n hn child hchild)
    · intro hobject
      obtain ⟨top, htop, hname⟩ := List.mem_map.mp (hgathered.defined (List.mem_map_of_mem hn))
      have hunref := hgathered.unreferenced hnone n hn
      rw [← hname] at hunref hobject
      obtain ⟨m, hm, hhome, child, hchild, hlists, rfl⟩ :=
        hcollected top htop hunref object hobject
      obtain hmem | ⟨href, -⟩ := hgathered.kept m hm n hn (hhome.trans hname) child hchild
      · exact List.mem_map_of_mem hmem
      · exact absurd href hlists

/-- **A reading that breaks off**, of a node that nothing refers to, leaves references. -/
theorem not_resolved (hacyclic : table.Acyclic) {earlier later : List Node} {node : Node}
    (hsplit : table.nodes = earlier ++ node :: later) (hread : table.ReadUpTo earlier)
    (hhome : table.home earlier node.name = node.name)
    (hbreaks : table.BreaksOff earlier node.name) (htop : table.Unreferenced node.name) :
    ¬ table.Resolved := by
  intro hresolved
  obtain ⟨-, hnone⟩ := table.resolved_iff.mp hresolved
  obtain ⟨roots, hroots, hswept⟩ := Swept.exists_of_readUpTo hacyclic hsplit hread
  have hafter := hswept.after
  rw [List.filter_cons_of_pos (by simpa using hhome)] at hafter
  obtain ⟨turn, hturn, hcut⟩ := hswept.exists_cutsOff hafter hbreaks
  obtain ⟨n, hn, child, hchild, href⟩ :=
    remaining_of_cutsOff hacyclic hroots hafter htop hturn hcut
  exact hnone n hn child hchild href

end NodeTable

/-- **The expansion is right if every reading comes to its end and the objects are collected**, and
only then, unless the first reading that breaks off is a variable's own. -/
theorem resolve_nodes_expands (table : NodeTable) (hacyclic : table.Acyclic) :
    (table.ReadThrough ∧ table.Collected → table.Resolved) ∧
      (table.Resolved → (table.ReadThrough ∧ table.Collected) ∨ table.VariableBreaksOff) := by
  constructor
  · rintro ⟨hread, hcollected⟩
    exact (hread.resolved_iff hacyclic).mpr hcollected
  · intro hresolved
    by_cases hread : table.ReadThrough
    · exact .inl ⟨hread, (hread.resolved_iff hacyclic).mp hresolved⟩
    · obtain ⟨earlier, node, later, hsplit, hupTo, hhome, hbreaks⟩ :=
        NodeTable.exists_first_breaksOff hread
      refine .inr ⟨earlier, node, later, hsplit, hupTo, hhome, hbreaks, fun htop => ?_⟩
      exact NodeTable.not_resolved hacyclic hsplit hupTo hhome hbreaks htop hresolved

/-! ### Examples -/

namespace NodeTable

variable {table : NodeTable}

/-- Where every list ends with an object, no reading breaks off. -/
theorem readThrough_of_getLast
    (h : ∀ node ∈ table.nodes, ∀ child, node.children.getLast? = some child →
      ¬ child.IsReference) : table.ReadThrough := by
  rintro earlier node later - - @⟨front, back, last, read, child, -, hnext, -, hlast, -, -, -⟩
  have hmem : child ∈ (front ++ last :: back).flatMap (table.unread earlier) := by
    rw [hnext]
    exact List.mem_append_right _ (List.mem_singleton_self child)
  obtain ⟨name, -, hchild⟩ := List.mem_flatMap.mp hmem
  have href : child.IsReference := by
    unfold unread at hchild
    split at hchild
    · cases hchild
    · exact of_decide_eq_true (List.mem_filter.mp hchild).2
  unfold childrenOf at hlast
  cases hfound : table.nodes.find? fun other => other.name = last with
  | none =>
      rw [hfound] at hlast
      cases hlast
  | some other =>
      rw [hfound] at hlast
      exact h other (List.mem_of_find?_eq_some hfound) child hlast href

theorem unreferenced_of_children {name : Text}
    (h : ∀ node ∈ table.nodes, ∀ child ∈ node.children, child.IsReference →
      child.variable ≠ name) : table.Unreferenced name := by
  rintro other ⟨node, hnode, -, child, hchild, href, hname⟩
  exact h node hnode child hchild href hname

/-- Nobody takes a node that nothing refers to. -/
theorem home_of_unreferenced {name : Text} (h : table.Unreferenced name) (earlier : List Node) :
    table.home earlier name = name := by
  induction earlier using List.reverseRecOn with
  | nil => rfl
  | append_singleton earlier node ih =>
      rw [home_append, ih, if_neg]
      intro hpath
      obtain ⟨other, -, hrefers⟩ := TransGen.tail'_iff.mp hpath
      exact h other hrefers

end NodeTable

/-- A child, for the examples. -/
def word (name : Text) : Child := ⟨name, []⟩

/-- `o` is `$(a) z`, `p` is `$(a) x`, and `a` is `x`. -/
def listedTwice : NodeTable where
  nodes := [⟨['o'], [word ['$', '(', 'a', ')'], word ['z']]⟩,
    ⟨['p'], [word ['$', '(', 'a', ')'], word ['x']]⟩, ⟨['a'], [word ['x']]⟩]
  nodup := by decide

/-- The node `a` goes to `o`, and `p` has the object of its own. -/
theorem resolve_nodes_listedTwice : listedTwice.Resolved := by
  have hacyclic : listedTwice.Acyclic :=
    NodeTable.acyclic_of_rank (fun name => if name = ['a'] then 0 else 1) (by decide)
  have hread : listedTwice.ReadThrough := NodeTable.readThrough_of_getLast (by decide)
  have hrefers : listedTwice.Refers ['o'] ['a'] :=
    ⟨_, List.mem_cons_self, rfl, _, List.mem_cons_self, by decide, by decide⟩
  have hfirst : listedTwice.Unreferenced ['o'] := NodeTable.unreferenced_of_children (by decide)
  have hsecond : listedTwice.Unreferenced ['p'] := NodeTable.unreferenced_of_children (by decide)
  have htaken : listedTwice.home listedTwice.nodes ['a'] = ['o'] := by
    unfold NodeTable.home
    rw [show listedTwice.nodes = _ :: _ from rfl, List.foldl_cons, if_pos (.single hrefers)]
    exact NodeTable.home_of_unreferenced hfirst _
  have hself : ∀ {name other}, listedTwice.Unreferenced other →
      ReflTransGen listedTwice.Refers name other → other = name := by
    intro name other hunref hpath
    obtain heq | ⟨here, -, hlast⟩ := ReflTransGen.cases_tail hpath
    · exact heq
    · exact absurd hlast (hunref here)
  refine (resolve_nodes_expands listedTwice hacyclic).1 ⟨hread, ?_⟩
  intro top htop hunref object hobject
  obtain ⟨last, hlast, hpath, child, hchild, hlists, rfl⟩ :=
    (NodeTable.expands_iff _ _).mp hobject
  have hown : listedTwice.Unreferenced last.name → ∃ m ∈ listedTwice.nodes,
      listedTwice.home listedTwice.nodes m.name = top.name ∧
        ∃ other ∈ m.children, ¬ other.IsReference ∧ other.name = child.name := fun hnone =>
    ⟨last, hlast, (NodeTable.home_of_unreferenced hnone _).trans (hself hnone hpath), child, hchild,
      hlists, rfl⟩
  obtain rfl | rfl | rfl : last = ⟨['o'], [word ['$', '(', 'a', ')'], word ['z']]⟩ ∨
      last = ⟨['p'], [word ['$', '(', 'a', ')'], word ['x']]⟩ ∨ last = ⟨['a'], [word ['x']]⟩ := by
    simpa [listedTwice] using hlast
  · exact hown hfirst
  · exact hown hsecond
  · obtain rfl := List.mem_singleton.mp hchild
    obtain rfl | rfl | rfl : top = ⟨['o'], [word ['$', '(', 'a', ')'], word ['z']]⟩ ∨
        top = ⟨['p'], [word ['$', '(', 'a', ')'], word ['x']]⟩ ∨ top = ⟨['a'], [word ['x']]⟩ := by
      simpa [listedTwice] using htop
    · exact ⟨_, hlast, htaken, _, List.mem_singleton_self _, hlists, rfl⟩
    · exact ⟨_, htop, NodeTable.home_of_unreferenced hsecond _, word ['x'], by simp, hlists, rfl⟩
    · exact absurd hrefers (hunref ['o'])

/-- `o` is `$(a)`, `a` is `$(b)`, and `b` is `x`. -/
def nestedLast : NodeTable where
  nodes := [⟨['o'], [word ['$', '(', 'a', ')']]⟩, ⟨['a'], [word ['$', '(', 'b', ')']]⟩,
    ⟨['b'], [word ['x']]⟩]
  nodup := by decide

/-- `o` and `p` are `$(a)`, and `a` is `x`. -/
def sharedVariable : NodeTable where
  nodes := [⟨['o'], [word ['$', '(', 'a', ')']]⟩, ⟨['p'], [word ['$', '(', 'a', ')']]⟩,
    ⟨['a'], [word ['x']]⟩]
  nodup := by decide

/-- A reference is left in the one, and an object is missing in the other. -/
theorem resolve_nodes_misses :
    (nestedLast.Acyclic ∧ ¬ nestedLast.Resolved) ∧
      (sharedVariable.Acyclic ∧ ¬ sharedVariable.Resolved) := by
  refine ⟨⟨?_, ?_⟩, ⟨?_, ?_⟩⟩
  · exact NodeTable.acyclic_of_rank
      (fun name => if name = ['o'] then 2 else if name = ['a'] then 1 else 0) (by decide)
  · intro hresolved
    have hleft : resolveNodes nestedLast.nodes =
        [⟨['o'], [word ['$', '(', 'b', ')']]⟩, ⟨['b'], [word ['x']]⟩] := by decide +kernel
    have hnone := hresolved.noReference
    rw [hleft] at hnone
    exact hnone _ List.mem_cons_self _ List.mem_cons_self (by decide)
  · exact NodeTable.acyclic_of_rank (fun name => if name = ['a'] then 0 else 1) (by decide)
  · intro hresolved
    have hleft : resolveNodes sharedVariable.nodes =
        [⟨['o'], [word ['x']]⟩, ⟨['p'], []⟩] := by decide +kernel
    have hexpands := hresolved.expands
    rw [hleft] at hexpands
    have hword : ¬ (word ['x']).IsReference := by decide
    have hnode : (⟨['a'], [word ['x']]⟩ : Node) ∈ sharedVariable.nodes := by decide
    have hobject : sharedVariable.Expands ['a'] ['x'] := .object hnode List.mem_cons_self hword
    have hlast : (⟨['p'], [word ['$', '(', 'a', ')']]⟩ : Node) ∈ sharedVariable.nodes := by decide
    have href : (word ['$', '(', 'a', ')']).IsReference := by decide
    have hpath : sharedVariable.Expands ['p'] ['x'] :=
      .reference hlast List.mem_cons_self href hobject
    have hmem := (hexpands ⟨['p'], []⟩ (by simp) ['x']).mpr hpath
    cases hmem

end Webcamd.Make
