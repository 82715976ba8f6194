import Mathlib
import Webcamd.Make.Nodes

/-!
# What `resolve_nodes` gathers

`resolve_nodes` moves the children of a variable to a node that refers to it.

* `NodeTable.Refers`, `NodeTable.Expands` — the reference graph, and the objects of a name: those
  that its node lists, and those of the variables that it refers to.
* `Gathered` — the invariant of both loops: every node of the makefiles has been gathered into one
  that is still there, with all its objects and all its references that can still be resolved.
* `Gathered.splice`, `Gathered.drop` — what a reference does to it.
* `Gathered.turn` — who has been gathered by the current node in its turn: those whose node is gone.
* `remaining_of_cutsOff` — a node that nothing refers to keeps the references that it is left with.
-/

namespace Webcamd.Make

open Webcamd.Library Relation

namespace NodeTable

variable (table : NodeTable)

/-- The node of the first name refers to the second one. -/
def Refers (name other : Text) : Prop :=
  ∃ node ∈ table.nodes, node.name = name ∧
    ∃ child ∈ node.children, child.IsReference ∧ child.variable = other

/-- The reference graph has no cycle. -/
def Acyclic : Prop := ∀ name, ¬ TransGen table.Refers name name

/-- **The expansion of a name**: a variable without a node has none. -/
inductive Expands : Text → Text → Prop where
  | object {node : Node} (hnode : node ∈ table.nodes) {child : Child}
      (hchild : child ∈ node.children) (hobject : ¬ child.IsReference) :
      Expands node.name child.name
  | reference {node : Node} (hnode : node ∈ table.nodes) {child : Child}
      (hchild : child ∈ node.children) (href : child.IsReference) {object : Text}
      (hexpands : Expands child.variable object) : Expands node.name object

/-- No node refers to the name. -/
def Unreferenced (name : Text) : Prop := ∀ other, ¬ table.Refers other name

end NodeTable

/-- The last child is a reference to a node that has references. -/
def Turn.CutsOff (turn : Turn) : Prop :=
  ∃ n1 ∈ turn.rest, turn.rest = [n1] ∧ n1.IsReference ∧
    ∃ n3 ∈ turn.before ++ turn.after, n3.name = n1.variable ∧
      ∃ child ∈ n3.children, child.IsReference

instance (turn : Turn) : Decidable turn.CutsOff := List.decidableBEx _ _

/-! ### References -/

namespace NodeTable

variable {table : NodeTable}

/-- A graph with a rank that every reference lowers has no cycle. -/
theorem acyclic_of_rank (rank : Text → ℕ)
    (hrank : ∀ node ∈ table.nodes, ∀ child ∈ node.children, child.IsReference →
      rank child.variable < rank node.name) : table.Acyclic := by
  have hstep : ∀ name other, table.Refers name other → rank other < rank name := by
    rintro name other ⟨node, hnode, rfl, child, hchild, href, rfl⟩
    exact hrank node hnode child hchild href
  have hlower : ∀ name other, TransGen table.Refers name other → rank other < rank name := by
    intro name other hpath
    induction hpath with
    | single hfirst => exact hstep _ _ hfirst
    | tail _ hlast ih => exact (hstep _ _ hlast).trans ih
  intro name hcycle
  exact lt_irrefl _ (hlower name name hcycle)

/-- The expansion of a name is what the nodes list that it reaches. -/
theorem expands_iff (name object : Text) :
    table.Expands name object ↔
      ∃ node ∈ table.nodes, ReflTransGen table.Refers name node.name ∧
        ∃ child ∈ node.children, ¬ child.IsReference ∧ child.name = object := by
  constructor
  · intro hexpands
    induction hexpands with
    | object hnode hchild hobject => exact ⟨_, hnode, .refl, _, hchild, hobject, rfl⟩
    | reference hnode hchild href _ ih =>
        obtain ⟨last, hlast, hpath, hlists⟩ := ih
        exact ⟨last, hlast, hpath.head ⟨_, hnode, rfl, _, hchild, href, rfl⟩, hlists⟩
  · rintro ⟨last, hlast, hpath, child, hchild, hobject, rfl⟩
    induction hpath using ReflTransGen.head_induction_on with
    | refl => exact .object hlast hchild hobject
    | head hfirst _ ih =>
        obtain ⟨node, hnode, rfl, reference, hreference, href, rfl⟩ := hfirst
        exact .reference hnode hreference href ih

end NodeTable

/-! ### What has been gathered -/

/-- The names of nodes. -/
abbrev names (nodes : List Node) : List Text := nodes.map Node.name

/-- **The invariant of both loops**: `owner` is the node that a node of the makefiles has been
gathered into. -/
structure Gathered (table : NodeTable) (present : List Node) (owner : Text → Text) : Prop where
  nodup : (names present).Nodup
  /-- A node that is there has not been gathered. -/
  own : ∀ name ∈ names present, owner name = name
  defined : names present ⊆ names table.nodes
  owned : ∀ m ∈ table.nodes, owner m.name ∈ names present
  reaches : ∀ m ∈ table.nodes, ReflTransGen table.Refers (owner m.name) m.name
  /-- A child is still there, or it is a reference to a node that is gone. -/
  kept : ∀ m ∈ table.nodes, ∀ n ∈ present, owner m.name = n.name → ∀ child ∈ m.children,
    child ∈ n.children ∨ (child.IsReference ∧ child.variable ∉ names present)
  source : ∀ n ∈ present, ∀ child ∈ n.children,
    ∃ m ∈ table.nodes, owner m.name = n.name ∧ child ∈ m.children

namespace Gathered

variable {table : NodeTable} {present others : List Node} {owner : Text → Text}

/-- Before the loops, every node is its own. -/
theorem start (table : NodeTable) : Gathered table table.nodes id where
  nodup := table.nodup
  own := fun _ _ => rfl
  defined := List.Subset.refl _
  owned := fun _ hm => List.mem_map_of_mem hm
  reaches := fun _ _ => .refl
  kept := by
    intro m hm n hn hname child hchild
    have heq : m = n := List.inj_on_of_nodup_map table.nodup hm hn hname
    exact .inl (heq ▸ hchild)
  source := fun n hn child hchild => ⟨n, hn, rfl, hchild⟩

theorem perm (h : Gathered table present owner) (hperm : present.Perm others) :
    Gathered table others owner := by
  have hnames : ∀ name, name ∈ names others ↔ name ∈ names present :=
    fun _ => (hperm.map Node.name).mem_iff.symm
  constructor
  case nodup => exact (hperm.map Node.name).nodup_iff.mp h.nodup
  case own => exact fun name hname => h.own name ((hnames name).mp hname)
  case defined => exact fun name hname => h.defined ((hnames name).mp hname)
  case owned => exact fun m hm => (hnames _).mpr (h.owned m hm)
  case reaches => exact h.reaches
  case kept =>
    intro m hm n hn hname child hchild
    rw [hnames]
    exact h.kept m hm n (hperm.mem_iff.mpr hn) hname child hchild
  case source => exact fun n hn => h.source n (hperm.mem_iff.mpr hn)

/-- Only the names of the makefiles matter. -/
theorem congr {owner' : Text → Text} (h : Gathered table present owner)
    (heq : ∀ m ∈ table.nodes, owner' m.name = owner m.name) : Gathered table present owner' where
  nodup := h.nodup
  own := by
    intro name hname
    obtain ⟨m, hm, rfl⟩ := List.mem_map.mp (h.defined hname)
    rw [heq m hm, h.own _ hname]
  defined := h.defined
  owned := by
    intro m hm
    rw [heq m hm]
    exact h.owned m hm
  reaches := by
    intro m hm
    rw [heq m hm]
    exact h.reaches m hm
  kept := by
    intro m hm n hn howner
    rw [heq m hm] at howner
    exact h.kept m hm n hn howner
  source := by
    intro n hn child hchild
    obtain ⟨m, hm, howner, hmem⟩ := h.source n hn child hchild
    exact ⟨m, hm, (heq m hm).trans howner, hmem⟩

/-- A node that is there reaches whatever its references name. -/
theorem reaches_of_reference (h : Gathered table present owner) {n : Node} (hn : n ∈ present)
    {child : Child} (hchild : child ∈ n.children) (href : child.IsReference) :
    TransGen table.Refers n.name child.variable := by
  obtain ⟨m, hm, howner, hmchild⟩ := h.source n hn child hchild
  have hpath := h.reaches m hm
  rw [howner] at hpath
  exact TransGen.tail' hpath ⟨m, hm, rfl, child, hmchild, href, rfl⟩

/-- **A reference that no other node answers to is dropped.** -/
theorem drop {name : Text} {front back : List Child} {n1 : Child}
    (h : Gathered table (⟨name, front ++ n1 :: back⟩ :: others) owner) (hacyclic : table.Acyclic)
    (href : n1.IsReference) (habsent : n1.variable ∉ names others) :
    Gathered table (⟨name, front ++ back⟩ :: others) owner where
  nodup := h.nodup
  own := h.own
  defined := h.defined
  owned := h.owned
  reaches := h.reaches
  kept := by
    have hgone : n1.variable ∉ name :: names others := by
      rw [List.mem_cons, not_or]
      refine ⟨?_, habsent⟩
      intro hself
      have hpath := h.reaches_of_reference List.mem_cons_self
        (List.mem_append_right front List.mem_cons_self) href
      exact hacyclic name (hself ▸ hpath)
    intro m hm n hn hname child hchild
    obtain rfl | hn := List.mem_cons.mp hn
    · obtain hmem | hmem := h.kept m hm _ List.mem_cons_self hname child hchild
      · by_cases heq : child = n1
        · exact .inr (heq ▸ ⟨href, hgone⟩)
        · refine .inl ?_
          simpa [heq] using hmem
      · exact .inr hmem
    · exact h.kept m hm n (List.mem_cons_of_mem _ hn) hname child hchild
  source := by
    intro n hn child hchild
    obtain rfl | hn := List.mem_cons.mp hn
    · refine h.source _ List.mem_cons_self child ?_
      simp only [List.mem_append, List.mem_cons] at hchild ⊢
      tauto
    · exact h.source n (List.mem_cons_of_mem _ hn) child hchild

/-- **A reference is replaced by the children of its node**, which is gathered into the one that
has the reference. -/
theorem splice {name : Text} {front back : List Child} {n1 : Child} {n3 : Node}
    (h : Gathered table (⟨name, front ++ n1 :: back⟩ :: n3 :: others) owner)
    (href : n1.IsReference) (hfound : n3.name = n1.variable) :
    Gathered table (⟨name, front ++ back ++ n3.children⟩ :: others)
      (fun other => if owner other = n3.name then name else owner other) := by
  obtain ⟨⟨hname, hothers⟩, hgone, hnodup⟩ :
      (name ≠ n3.name ∧ name ∉ names others) ∧ n3.name ∉ names others ∧
        (names others).Nodup := by
    simpa [names] using h.nodup
  have hstays : ∀ other, other ∈ name :: names others → other ≠ n3.name := by
    rintro other hother rfl
    obtain heq | hmem := List.mem_cons.mp hother
    · exact hname heq.symm
    · exact hgone hmem
  have hweaken : ∀ other, other ∈ name :: names others → other ∈ name :: n3.name :: names others :=
    fun other hother => (List.mem_cons.mp hother).elim (fun heq => heq ▸ List.mem_cons_self)
      fun hmem => List.mem_cons_of_mem _ (List.mem_cons_of_mem _ hmem)
  constructor
  case nodup => exact List.nodup_cons.mpr ⟨hothers, hnodup⟩
  case own =>
    intro other hother
    have hsame := h.own other (hweaken other hother)
    rw [hsame, if_neg (hstays other hother)]
  case defined => exact fun other hother => h.defined (hweaken other hother)
  case owned =>
    intro m hm
    have hmem : owner m.name ∈ name :: n3.name :: names others := h.owned m hm
    split
    · exact List.mem_cons_self
    · rename_i hother
      simpa [hother] using hmem
  case reaches =>
    intro m hm
    have hpath := h.reaches m hm
    split
    · rename_i howner
      rw [howner, hfound] at hpath
      have hfirst := h.reaches_of_reference List.mem_cons_self
        (List.mem_append_right front List.mem_cons_self) href
      exact hfirst.to_reflTransGen.trans hpath
    · exact hpath
  case kept =>
    intro m hm n hn howner child hchild
    have hlater : child.variable ∉ name :: n3.name :: names others →
        child.variable ∉ name :: names others := fun hnot hmem => hnot (hweaken _ hmem)
    obtain rfl | hn := List.mem_cons.mp hn
    · by_cases hmoved : owner m.name = n3.name
      · obtain hmem | ⟨hchildref, hnot⟩ := h.kept m hm n3 (by simp) hmoved child hchild
        · exact .inl (List.mem_append_right _ hmem)
        · exact .inr ⟨hchildref, hlater hnot⟩
      · rw [if_neg hmoved] at howner
        obtain hmem | ⟨hchildref, hnot⟩ := h.kept m hm _ List.mem_cons_self howner child hchild
        · by_cases heq : child = n1
          · refine .inr (heq ▸ ⟨href, ?_⟩)
            exact fun hmem => hstays _ hmem hfound.symm
          · refine .inl (List.mem_append_left _ ?_)
            simpa [heq] using hmem
        · exact .inr ⟨hchildref, hlater hnot⟩
    · have hmoved : owner m.name ≠ n3.name := by
        intro hmoved
        rw [if_pos hmoved] at howner
        exact hothers (howner ▸ List.mem_map_of_mem hn)
      rw [if_neg hmoved] at howner
      refine (h.kept m hm n (by simp [hn]) howner child hchild).imp_right ?_
      exact fun hgone => ⟨hgone.1, hlater hgone.2⟩
  case source =>
    intro n hn child hchild
    obtain rfl | hn := List.mem_cons.mp hn
    · obtain hchild | hchild := List.mem_append.mp hchild
      · obtain ⟨m, hm, howner, hmem⟩ := h.source _ List.mem_cons_self child (by
          simp only [List.mem_append, List.mem_cons] at hchild ⊢
          tauto)
        exact ⟨m, hm, by simp [howner], hmem⟩
      · obtain ⟨m, hm, howner, hmem⟩ := h.source n3 (by simp) child hchild
        exact ⟨m, hm, by simp [howner], hmem⟩
    · obtain ⟨m, hm, howner, hmem⟩ := h.source n (by simp [hn]) child hchild
      have hmoved : n.name ≠ n3.name :=
        hstays _ (List.mem_cons_of_mem _ (List.mem_map_of_mem hn))
      exact ⟨m, hm, by simp [howner, hmoved], hmem⟩

end Gathered

/-! ### The loops keep it -/

/-- The nodes that are there in the turn of a node. -/
def Turn.present (turn : Turn) (name : Text) : List Node :=
  ⟨name, turn.done ++ turn.rest⟩ :: (turn.before ++ turn.after)

/-- The owners once a node has taken all that is gone. -/
def takesGone (name : Text) (present : List Node) (owner : Text → Text) : Text → Text :=
  fun other => if ∃ node ∈ present, node.name = owner other then owner other else name

variable {table : NodeTable} {owner : Text → Text}

theorem takesGone_of_mem {name other : Text} {present : List Node}
    (h : owner other ∈ names present) : takesGone name present owner other = owner other :=
  if_pos (List.mem_map.mp h)

theorem takesGone_congr {owner' : Text → Text} {name other : Text} {present : List Node}
    (h : owner other = owner' other) :
    takesGone name present owner other = takesGone name present owner' other := by
  rw [takesGone, h]
  rfl

theorem takesGone_of_notMem {name other : Text} {present : List Node}
    (h : owner other ∉ names present) : takesGone name present owner other = name :=
  if_neg fun hmem => h (List.mem_map.mpr hmem)

/-- Who is gone after a pass is gone after the next one. -/
theorem TurnMove.present_subset {turn next : Turn} (h : TurnMove turn next) (name : Text) :
    names (next.present name) ⊆ names (turn.present name) := by
  cases h with
  | keep n1 n2 hrest hobject hnext =>
      rw [hnext]
      exact List.Subset.refl _
  | drop n1 n2 hrest href habsent hnext =>
      rw [hnext]
      exact List.Subset.refl _
  | splice n1 n2 n3 hrest href hname hothers hbefore hafter hdone hnext =>
      refine List.cons_subset_cons name ?_
      intro other hother
      exact (hothers.map Node.name).mem_iff.mpr (List.mem_cons_of_mem _ hother)

theorem Gathered.step {turn next : Turn} {name : Text}
    (h : Gathered table (turn.present name) owner) (hacyclic : table.Acyclic)
    (hstep : turn.step = some next) :
    Gathered table (next.present name) (takesGone name (next.present name) owner) := by
  cases TurnMove.of_step hstep with
  | keep n1 n2 hrest hobject hnext =>
      have hsame : Gathered table (next.present name) owner := by
        simpa [Turn.present, hrest, hnext] using h
      exact hsame.congr fun m hm => takesGone_of_mem (hsame.owned m hm)
  | drop n1 n2 hrest href habsent hnext =>
      rw [Turn.present, hrest] at h
      have hdropped := h.drop hacyclic href (by
        rintro hmem
        obtain ⟨node, hnode, hname⟩ := List.mem_map.mp hmem
        exact habsent node hnode hname)
      have hsame : Gathered table (next.present name) owner := by
        simpa [Turn.present, hnext] using hdropped
      exact hsame.congr fun m hm => takesGone_of_mem (hsame.owned m hm)
  | splice n1 n2 n3 hrest href hname hothers hbefore hafter hdone hnext =>
      rw [Turn.present, hrest] at h
      have hbegin := h.perm (hothers.cons _)
      have hspliced := hbegin.splice href hname
      have hchildren : next.done ++ next.rest = turn.done ++ n2 ++ n3.children := by
        rw [hdone, hnext]
        split
        · rename_i hlast
          simp [hlast]
        · simp
      rw [← hchildren] at hspliced
      refine hspliced.congr fun m hm => ?_
      have howned := hbegin.owned m hm
      obtain ⟨⟨hother, -⟩, hgone, -⟩ :
          (name ≠ n3.name ∧ name ∉ names (next.before ++ next.after)) ∧
            n3.name ∉ names (next.before ++ next.after) ∧
              (names (next.before ++ next.after)).Nodup := by
        simpa [names] using hbegin.nodup
      change owner m.name ∈ name :: n3.name :: names (next.before ++ next.after) at howned
      by_cases hmoved : owner m.name = n3.name
      · rw [if_pos hmoved, takesGone_of_notMem]
        change owner m.name ∉ name :: names (next.before ++ next.after)
        rw [hmoved, List.mem_cons, not_or]
        exact ⟨Ne.symm hother, hgone⟩
      · rw [if_neg hmoved, takesGone_of_mem]
        change owner m.name ∈ name :: names (next.before ++ next.after)
        simpa [hmoved] using howned

/-- **What a node gathers in its turn**: those whose node is gone. -/
theorem Gathered.states {turn : Turn} {name : Text}
    (h : Gathered table (turn.present name) owner) (hacyclic : table.Acyclic) :
    ∀ later ∈ childLoop.states turn,
      Gathered table (later.present name) (takesGone name (later.present name) owner) := by
  refine @Loop.invariant_states _ childLoop
    (fun turn => Gathered table (turn.present name) (takesGone name (turn.present name) owner))
    ?_ turn (h.congr fun m hm => takesGone_of_mem (h.owned m hm))
  intro here next hhere hstep
  refine (hhere.step hacyclic hstep).congr fun m _ => ?_
  have hsubset := (TurnMove.of_step hstep).present_subset name
  by_cases hbefore : owner m.name ∈ names (here.present name)
  · exact (takesGone_congr (takesGone_of_mem hbefore)).symm
  · have hgone : owner m.name ∉ names (next.present name) := fun hmem => hbefore (hsubset hmem)
    rw [takesGone_of_notMem hgone, takesGone, takesGone_of_notMem hbefore, ite_self]

/-- The nodes that are there between turns. -/
def Roots.present (roots : Roots) : List Node := roots.before ++ roots.after

/-- A turn begins with the nodes that are there. -/
theorem Roots.present_turn {roots : Roots} {n0 : Node} {after : List Node}
    (hafter : roots.after = n0 :: after) :
    roots.present.Perm ((roots.turn n0 after).present n0.name) := by
  rw [Roots.present, hafter]
  exact List.perm_middle

theorem Gathered.turn {roots : Roots} {n0 : Node} {after : List Node}
    (h : Gathered table roots.present owner) (hacyclic : table.Acyclic)
    (hafter : roots.after = n0 :: after) :
    ∀ turn ∈ childLoop.states (roots.turn n0 after),
      Gathered table (turn.present n0.name) (takesGone n0.name (turn.present n0.name) owner) :=
  (h.perm (Roots.present_turn hafter)).states hacyclic

/-- The nodes that are there after a turn. -/
theorem Roots.present_finish (turn : Turn) (name : Text) :
    ((childLoop.finish turn).present name).Perm
      (Roots.present ⟨(childLoop.finish turn).before ++ [⟨name, (childLoop.finish turn).done⟩],
        (childLoop.finish turn).after⟩) := by
  rw [Turn.present, childLoop_rest, List.append_nil, Roots.present, List.append_assoc,
    List.singleton_append]
  exact List.perm_middle.symm

theorem Gathered.roots {roots next : Roots}
    (h : ∃ owner, Gathered table roots.present owner) (hacyclic : table.Acyclic)
    (hstep : roots.step = some next) : ∃ owner, Gathered table next.present owner := by
  obtain ⟨n0, after, hafter, rfl⟩ := Roots.step_eq_some hstep
  obtain ⟨owner, howner⟩ := h
  exact ⟨_, (howner.turn hacyclic hafter _ (childLoop.finish_mem_states _)).perm
    (Roots.present_finish _ _)⟩

/-- **What has been gathered is gathered in every pass.** -/
theorem gathered_roots (hacyclic : table.Acyclic) :
    ∀ roots ∈ rootLoop.states ⟨[], table.nodes⟩, ∃ owner, Gathered table roots.present owner :=
  @Loop.invariant_states _ rootLoop (fun roots => ∃ owner, Gathered table roots.present owner)
    (fun hhere hstep => Gathered.roots hhere hacyclic hstep) ⟨[], table.nodes⟩
    ⟨id, Gathered.start table⟩

/-- The nodes that are left in the end. -/
def NodeTable.remaining (table : NodeTable) : List Node :=
  (rootLoop.finish ⟨[], table.nodes⟩).before

/-! ### References that are left -/

/-- A turn that is cut off leaves a reference. -/
theorem done_of_cutsOff {turn later : Turn} (hlater : later ∈ childLoop.states turn)
    (hnodup : (names (later.before ++ later.after)).Nodup) (hcut : later.CutsOff) :
    ∃ child ∈ (childLoop.finish turn).done, child.IsReference := by
  rw [← childLoop.finish_eq_of_mem hlater]
  obtain ⟨n1, -, hrest, href, n3, hn3, hname, child, hchild, hreference⟩ := hcut
  cases hstep : later.step with
  | none =>
      have hend := childLoop_rest later
      rw [childLoop.finish_of_none hstep, hrest] at hend
      cases hend
  | some next =>
      rw [childLoop.finish_of_some hstep]
      cases TurnMove.of_step hstep with
      | keep first n2 hfirst hobject hnext =>
          obtain ⟨rfl, -⟩ := List.cons.inj (hrest.symm.trans hfirst)
          exact absurd href hobject
      | drop first n2 hfirst _ habsent hnext =>
          obtain ⟨rfl, -⟩ := List.cons.inj (hrest.symm.trans hfirst)
          exact absurd hname (habsent n3 hn3)
      | splice first n2 found hfirst _ hfound hothers hbefore hafter hdone hnext =>
          obtain ⟨rfl, rfl⟩ := List.cons.inj (hrest.symm.trans hfirst)
          have hmem := hothers.mem_iff.mpr List.mem_cons_self
          have heq : found = n3 :=
            List.inj_on_of_nodup_map hnodup hmem hn3 (hfound.trans hname.symm)
          have hend : next.step = none := by
            unfold Turn.step
            rw [hnext, if_pos rfl]
          rw [childLoop.finish_of_none hend, hdone, if_pos rfl, heq]
          exact ⟨child, List.mem_append_right _ hchild, hreference⟩

/-! ### Nodes that nothing refers to -/

/-- A node before the current one keeps its place until it is referred to. -/
theorem Gathered.stays {turn next : Turn} {name : Text}
    (h : Gathered table (turn.present name) owner) (hstep : turn.step = some next) {n : Node}
    (hn : n ∈ turn.before) (htop : table.Unreferenced n.name) : n ∈ next.before := by
  cases TurnMove.of_step hstep with
  | keep n1 n2 hrest hobject hnext => rwa [hnext]
  | drop n1 n2 hrest href habsent hnext => rwa [hnext]
  | splice n1 n2 n3 hrest href hname hothers hbefore hafter hdone hnext =>
      obtain hperm | heq := hbefore
      · obtain rfl | hmem := List.mem_cons.mp (hperm.mem_iff.mp hn)
        · have hcurrent : n1 ∈ turn.done ++ turn.rest := by simp [hrest]
          obtain ⟨m, hm, -, hchild⟩ := h.source _ List.mem_cons_self n1 hcurrent
          exact absurd ⟨m, hm, rfl, n1, hchild, href, hname.symm⟩ (htop m.name)
        · exact hmem
      · rwa [← heq]

theorem Gathered.staysRoots {roots next : Roots}
    (h : ∃ owner, Gathered table roots.present owner) (hacyclic : table.Acyclic)
    (hstep : roots.step = some next) {n : Node} (hn : n ∈ roots.before)
    (htop : table.Unreferenced n.name) : n ∈ next.before := by
  obtain ⟨n0, after, hafter, rfl⟩ := Roots.step_eq_some hstep
  obtain ⟨owner, howner⟩ := h
  have hstart := howner.perm (Roots.present_turn hafter)
  have hend := @Loop.invariant _ childLoop
    (fun turn => (∃ owner, Gathered table (turn.present n0.name) owner) ∧ n ∈ turn.before)
    (fun hhere hturn => ⟨hhere.1.elim fun _ hother => ⟨_, hother.step hacyclic hturn⟩,
      hhere.1.elim fun _ hother => hother.stays hturn hhere.2 htop⟩)
    (roots.turn n0 after) ⟨⟨owner, hstart⟩, hn⟩
  exact List.mem_append_left _ hend.2

/-- **A node that nothing refers to keeps the references that it is left with.** -/
theorem remaining_of_cutsOff (hacyclic : table.Acyclic) {roots : Roots}
    (hroots : roots ∈ rootLoop.states ⟨[], table.nodes⟩) {n0 : Node} {after : List Node}
    (hafter : roots.after = n0 :: after) (htop : table.Unreferenced n0.name) {turn : Turn}
    (hturn : turn ∈ childLoop.states (roots.turn n0 after)) (hcut : turn.CutsOff) :
    ∃ n ∈ table.remaining, ∃ child ∈ n.children, child.IsReference := by
  have hgathered := gathered_roots hacyclic roots hroots
  obtain ⟨owner, howner⟩ := gathered_roots hacyclic roots hroots
  have hnodup : (names (turn.before ++ turn.after)).Nodup :=
    (List.nodup_cons.mp (howner.turn hacyclic hafter turn hturn).nodup).2
  obtain ⟨child, hchild, href⟩ := done_of_cutsOff hturn hnodup hcut
  -- the node after its turn, which no later turn takes out
  let node : Node := ⟨n0.name, (childLoop.finish (roots.turn n0 after)).done⟩
  have hnext : rootLoop.step roots = some
      ⟨(childLoop.finish (roots.turn n0 after)).before ++ [node],
        (childLoop.finish (roots.turn n0 after)).after⟩ := by
    change roots.step = _
    unfold Roots.step
    rw [hafter]
  have hend := @Loop.invariant _ rootLoop
    (fun roots => (∃ owner, Gathered table roots.present owner) ∧ node ∈ roots.before)
    (fun hhere hstep => ⟨Gathered.roots hhere.1 hacyclic hstep,
      Gathered.staysRoots hhere.1 hacyclic hstep hhere.2 htop⟩) _
    ⟨Gathered.roots hgathered hacyclic hnext, List.mem_append_right _ (List.mem_singleton_self _)⟩
  rw [← rootLoop.finish_of_some hnext, rootLoop.finish_eq_of_mem hroots] at hend
  exact ⟨node, hend.2, child, hchild, href⟩

/-! ### The nodes that are left -/

namespace Gathered

variable {present : List Node}

/-- A node that is referred to is one whose reference is left. -/
theorem pending (h : Gathered table present owner) {n : Node} (hn : n ∈ present)
    {other : Text} (hrefers : table.Refers other n.name) :
    ∃ p ∈ present, ∃ child ∈ p.children, child.IsReference ∧ child.variable = n.name := by
  obtain ⟨m, hm, rfl, child, hchild, href, hvariable⟩ := hrefers
  obtain ⟨p, hp, hname⟩ := List.mem_map.mp (h.owned m hm)
  obtain hmem | ⟨-, hgone⟩ := h.kept m hm p hp hname.symm child hchild
  · exact ⟨p, hp, child, hmem, href, hvariable⟩
  · rw [hvariable] at hgone
    exact absurd (List.mem_map_of_mem hn) hgone

/-- Where no reference is left, nothing refers to what is left. -/
theorem unreferenced (h : Gathered table present owner)
    (hnone : ∀ n ∈ present, ∀ child ∈ n.children, ¬ child.IsReference) :
    ∀ n ∈ present, table.Unreferenced n.name := by
  intro n hn other hrefers
  obtain ⟨p, hp, child, hchild, href, -⟩ := h.pending hn hrefers
  exact hnone p hp child hchild href

/-- A node that nothing refers to is still there. -/
theorem own_of_unreferenced (h : Gathered table present owner) {m : Node} (hm : m ∈ table.nodes)
    (htop : table.Unreferenced m.name) : owner m.name = m.name := by
  obtain heq | ⟨other, -, hrefers⟩ := ReflTransGen.cases_tail (h.reaches m hm)
  · exact heq.symm
  · exact absurd hrefers (htop other)

/-- What a node is left with is of its expansion. -/
theorem expands (h : Gathered table present owner) {n : Node} (hn : n ∈ present) {child : Child}
    (hchild : child ∈ n.children) (hobject : ¬ child.IsReference) :
    table.Expands n.name child.name := by
  obtain ⟨m, hm, howner, hmem⟩ := h.source n hn child hchild
  have hpath := h.reaches m hm
  rw [howner] at hpath
  exact (NodeTable.expands_iff _ _).mpr ⟨m, hm, hpath, child, hmem, hobject, rfl⟩

end Gathered

end Webcamd.Make
