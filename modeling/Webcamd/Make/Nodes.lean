import Mathlib
import Webcamd.Library.Loop
import Webcamd.Make.Text

/-!
# The nodes of `linux_make`

The assignments of the makefiles are kept as the list `rootNode`: a node for each name that is
assigned to, with the words assigned as its children.  A child `$(NAME)` refers to the node `NAME`,
and `resolve_nodes` puts the children of that node in its place.

* `NodeTable` — `rootNode`, whose names are distinct, as `add_node` keeps them.
* `childLoop`, `rootLoop`, `resolveNodes` — the loops of `resolve_nodes`, and the function.
* `removeDuplicate` — `remove_duplicate`.
* `TurnMove` — all that a pass of the inner loop can do.

The current node is kept apart from the ones before and after it, so that a search for another node
is a search in these.
-/

namespace Webcamd.Make

open Webcamd.Library

/-- `struct node`, as the child of another one -/
structure Child where
  name : Text
  path : Text
  deriving DecidableEq

/-- `struct node`, in `rootNode` -/
structure Node where
  name : Text
  children : List Child
  deriving DecidableEq

/-- `rootNode`: no name comes twice. -/
structure NodeTable where
  nodes : List Node
  nodup : (nodes.map Node.name).Nodup

/-- `add_node`: the table after it, and the node of the name. -/
def NodeTable.addNode (head : NodeTable) (name : Text) : NodeTable × Node :=
  match h : head.nodes.find? fun node => node.name = name with
  | some node => (head, node)
  | none =>
      (⟨head.nodes ++ [⟨name, []⟩], by
        rw [List.map_append, List.map_singleton, ← List.concat_eq_append]
        refine head.nodup.concat ?_
        intro hmem
        obtain ⟨node, hnode, hname⟩ := List.mem_map.mp hmem
        exact List.find?_eq_none.mp h node hnode (decide_eq_true hname)⟩, ⟨name, []⟩)

/-- The child is a reference to a variable. -/
def Child.IsReference (child : Child) : Prop := child.name.head? = some '$'

instance (child : Child) : Decidable child.IsReference :=
  inferInstanceAs (Decidable (_ = _))

/-- The variable that a reference names. -/
def Child.variable (child : Child) : Text := variableName child.name

/-- The search for a node, and the list without it. -/
def takeNode (name : Text) : List Node → Option (Node × List Node)
  | [] => none
  | n3 :: next =>
      if n3.name = name then some (n3, next)
      else (takeNode name next).map fun found => (found.1, n3 :: found.2)

/-- The search among the nodes other than the current one. -/
def takeOther (name : Text) (before after : List Node) :
    Option (Node × List Node × List Node) :=
  match takeNode name before with
  | some found => some (found.1, found.2, after)
  | none => (takeNode name after).map fun found => (found.1, before, found.2)

/-! ### The loop over the children of a node -/

/-- The inner loop of `resolve_nodes`: the nodes before and after `n0`, and the children of `n0`
before `n1` and from `n1` on. -/
structure Turn where
  before : List Node
  after : List Node
  done : List Child
  rest : List Child
  deriving DecidableEq

/-- The body of the inner loop.  The child after `n1` is looked up first, so that what is put
behind the last child is not seen. -/
def Turn.step (turn : Turn) : Option Turn :=
  match turn.rest with
  | [] => none
  | n1 :: n2 =>
      if n1.IsReference then
        match takeOther n1.variable turn.before turn.after with
        | none => some { turn with rest := n2 }
        | some (n3, before, after) =>
            if n2 = [] then some ⟨before, after, turn.done ++ n3.children, []⟩
            else some ⟨before, after, turn.done, n2 ++ n3.children⟩
      else some { turn with done := turn.done ++ [n1], rest := n2 }

/-- The children of a list of nodes. -/
def childCount (nodes : List Node) : ℕ := (nodes.map fun node => node.children.length).sum

/-- All that a pass of the inner loop can do. -/
inductive TurnMove (turn next : Turn) : Prop where
  /-- `n1` is no reference. -/
  | keep (n1 : Child) (n2 : List Child) (hrest : turn.rest = n1 :: n2)
      (hobject : ¬ n1.IsReference)
      (hnext : next = { turn with done := turn.done ++ [n1], rest := n2 })
  /-- No other node has the name. -/
  | drop (n1 : Child) (n2 : List Child) (hrest : turn.rest = n1 :: n2)
      (href : n1.IsReference)
      (habsent : ∀ node ∈ turn.before ++ turn.after, node.name ≠ n1.variable)
      (hnext : next = { turn with rest := n2 })
  /-- The children of another node take the place of `n1`. -/
  | splice (n1 : Child) (n2 : List Child) (n3 : Node) (hrest : turn.rest = n1 :: n2)
      (href : n1.IsReference) (hname : n3.name = n1.variable)
      (hothers : (turn.before ++ turn.after).Perm (n3 :: (next.before ++ next.after)))
      (hbefore : turn.before.Perm (n3 :: next.before) ∨ turn.before = next.before)
      (hafter : next.after.length ≤ turn.after.length)
      (hdone : next.done = if n2 = [] then turn.done ++ n3.children else turn.done)
      (hnext : next.rest = if n2 = [] then [] else n2 ++ n3.children)

theorem takeNode_eq_some {name : Text} {nodes others : List Node} {n3 : Node}
    (h : takeNode name nodes = some (n3, others)) :
    n3.name = name ∧ nodes.Perm (n3 :: others) := by
  induction nodes generalizing others with
  | nil => simp [takeNode] at h
  | cons node next ih =>
      unfold takeNode at h
      split at h
      · rename_i hname
        obtain ⟨rfl, rfl⟩ := Prod.mk.inj (Option.some.inj h)
        exact ⟨hname, .refl _⟩
      · obtain ⟨⟨found, rest⟩, hfound, heq⟩ := Option.map_eq_some_iff.mp h
        obtain ⟨rfl, rfl⟩ := Prod.mk.inj heq
        obtain ⟨hname, hperm⟩ := ih hfound
        exact ⟨hname, (hperm.cons node).trans (List.Perm.swap _ _ _)⟩

theorem takeNode_eq_none {name : Text} {nodes : List Node} (h : takeNode name nodes = none) :
    ∀ node ∈ nodes, node.name ≠ name := by
  induction nodes with
  | nil => simp
  | cons node next ih =>
      unfold takeNode at h
      split at h
      · exact absurd h (by simp)
      · rename_i hname
        rw [List.forall_mem_cons]
        exact ⟨hname, ih (Option.map_eq_none_iff.mp h)⟩

theorem takeOther_eq_some {name : Text} {before after before' after' : List Node} {n3 : Node}
    (h : takeOther name before after = some (n3, before', after')) :
    n3.name = name ∧ (before ++ after).Perm (n3 :: (before' ++ after')) ∧
      (before.Perm (n3 :: before') ∨ before = before') ∧ after'.length ≤ after.length := by
  unfold takeOther at h
  split at h
  · rename_i found hfound
    obtain ⟨rfl, rfl, rfl⟩ : found.1 = n3 ∧ found.2 = before' ∧ after = after' := by
      simpa using h
    obtain ⟨hname, hperm⟩ := takeNode_eq_some hfound
    exact ⟨hname, hperm.append_right after, .inl hperm, le_rfl⟩
  · obtain ⟨⟨found, rest⟩, hfound, heq⟩ := Option.map_eq_some_iff.mp h
    obtain ⟨rfl, rfl, rfl⟩ : found = n3 ∧ before = before' ∧ rest = after' := by simpa using heq
    obtain ⟨hname, hperm⟩ := takeNode_eq_some hfound
    refine ⟨hname, ?_, .inr rfl, ?_⟩
    · exact (hperm.append_left before).trans List.perm_middle
    · rw [hperm.length_eq]
      exact Nat.le_succ _

theorem takeOther_eq_none {name : Text} {before after : List Node}
    (h : takeOther name before after = none) : ∀ node ∈ before ++ after, node.name ≠ name := by
  unfold takeOther at h
  split at h
  · exact absurd h (by simp)
  · rename_i hbefore
    intro node hmem
    obtain hmem | hmem := List.mem_append.mp hmem
    · exact takeNode_eq_none hbefore node hmem
    · exact takeNode_eq_none (Option.map_eq_none_iff.mp h) node hmem

theorem TurnMove.of_step {turn next : Turn} (h : turn.step = some next) : TurnMove turn next := by
  unfold Turn.step at h
  split at h
  · cases h
  · rename_i n1 n2 hrest
    split at h
    · rename_i href
      split at h
      · rename_i hnone
        exact .drop n1 n2 hrest href (takeOther_eq_none hnone) (Option.some.inj h).symm
      · rename_i n3 before after hfound
        obtain ⟨hname, hperm, hbefore, hafter⟩ := takeOther_eq_some hfound
        by_cases hlast : n2 = []
        · rw [if_pos hlast] at h
          obtain rfl := Option.some.inj h
          exact .splice n1 n2 n3 hrest href hname hperm hbefore hafter (by simp [hlast])
            (by simp [hlast])
        · rw [if_neg hlast] at h
          obtain rfl := Option.some.inj h
          exact .splice n1 n2 n3 hrest href hname hperm hbefore hafter (by simp [hlast])
            (by simp [hlast])
    · rename_i hobject
      exact .keep n1 n2 hrest hobject (Option.some.inj h).symm

/-- A pass takes a child off, or moves the children of another node. -/
theorem Turn.work_lt {turn next : Turn} (h : turn.step = some next) :
    next.rest.length + childCount (next.before ++ next.after) <
      turn.rest.length + childCount (turn.before ++ turn.after) := by
  cases TurnMove.of_step h with
  | keep n1 n2 hrest hobject hnext =>
      subst hnext
      simp [hrest]
  | drop n1 n2 hrest href habsent hnext =>
      subst hnext
      simp [hrest]
  | splice n1 n2 n3 hrest href hname hothers hbefore hafter hdone hnext =>
      have hcount : childCount (turn.before ++ turn.after) =
          n3.children.length + childCount (next.before ++ next.after) := by
        unfold childCount
        rw [(hothers.map _).sum_eq, List.map_cons, List.sum_cons]
      rw [hcount, hrest, hnext, List.length_cons]
      split
      · rw [List.length_nil]
        omega
      · rw [List.length_append]
        omega

/-- The inner loop of `resolve_nodes` -/
def childLoop : Loop Turn where
  step := Turn.step
  work turn := turn.rest.length + childCount (turn.before ++ turn.after)
  work_lt := Turn.work_lt

theorem childLoop_after_length (turn : Turn) :
    (childLoop.finish turn).after.length ≤ turn.after.length := by
  refine @Loop.invariant _ childLoop (fun next => next.after.length ≤ turn.after.length) ?_ turn
    le_rfl
  intro here next hle hstep
  cases TurnMove.of_step hstep with
  | keep n1 n2 hrest hobject hnext => rwa [hnext]
  | drop n1 n2 hrest href habsent hnext => rwa [hnext]
  | splice n1 n2 n3 hrest href hname hothers hbefore hafter hdone hnext => exact hafter.trans hle

/-- The inner loop ends behind the last child. -/
theorem childLoop_rest (turn : Turn) : (childLoop.finish turn).rest = [] := by
  have hend : (childLoop.finish turn).step = none := childLoop.step_finish turn
  unfold Turn.step at hend
  split at hend
  · assumption
  · split at hend
    · split at hend
      · cases hend
      · split at hend <;> cases hend
    · cases hend

/-! ### The loop over the nodes -/

/-- The outer loop of `resolve_nodes`: the nodes before `n0`, and from `n0` on. -/
structure Roots where
  before : List Node
  after : List Node
  deriving DecidableEq

/-- The turn of a node. -/
def Roots.turn (roots : Roots) (n0 : Node) (after : List Node) : Turn :=
  ⟨roots.before, after, [], n0.children⟩

/-- The body of the outer loop. -/
def Roots.step (roots : Roots) : Option Roots :=
  match roots.after with
  | [] => none
  | n0 :: after =>
      let ended := childLoop.finish (roots.turn n0 after)
      some ⟨ended.before ++ [⟨n0.name, ended.done⟩], ended.after⟩

theorem Roots.step_eq_some {roots next : Roots} (h : roots.step = some next) :
    ∃ n0 after, roots.after = n0 :: after ∧
      next = ⟨(childLoop.finish (roots.turn n0 after)).before ++
        [⟨n0.name, (childLoop.finish (roots.turn n0 after)).done⟩],
        (childLoop.finish (roots.turn n0 after)).after⟩ := by
  unfold Roots.step at h
  split at h
  · cases h
  · rename_i n0 after hafter
    exact ⟨n0, after, hafter, (Option.some.inj h).symm⟩

/-- The first loop of `resolve_nodes` -/
def rootLoop : Loop Roots where
  step := Roots.step
  work roots := roots.after.length
  work_lt := by
    intro roots next hstep
    obtain ⟨n0, after, hafter, rfl⟩ := Roots.step_eq_some hstep
    rw [hafter, List.length_cons]
    exact Nat.lt_succ_of_le (childLoop_after_length _)

/-- The outer loop ends behind the last node. -/
theorem rootLoop_after (roots : Roots) : (rootLoop.finish roots).after = [] := by
  have hend : (rootLoop.finish roots).step = none := rootLoop.step_finish roots
  unfold Roots.step at hend
  split at hend
  · assumption
  · cases hend

/-- The inner loop of `remove_duplicate`: the children of a name are taken out. -/
def removeNamed (name : Text) : List Child → List Child
  | [] => []
  | n1 :: n2 => if name = n1.name then removeNamed name n2 else n1 :: removeNamed name n2

theorem removeNamed_length_le (name : Text) (children : List Child) :
    (removeNamed name children).length ≤ children.length := by
  induction children with
  | nil => exact le_rfl
  | cons n1 n2 ih =>
      unfold removeNamed
      split
      · exact ih.trans (Nat.le_succ _)
      · exact Nat.succ_le_succ ih

/-- `remove_duplicate` -/
def removeDuplicate : List Child → List Child
  | [] => []
  | n0 :: n1 => n0 :: removeDuplicate (removeNamed n0.name n1)
termination_by children => children.length
decreasing_by exact Nat.lt_succ_of_le (removeNamed_length_le _ _)

theorem mem_removeNamed {name : Text} {children : List Child} {child : Child} :
    child ∈ removeNamed name children ↔ child ∈ children ∧ name ≠ child.name := by
  induction children with
  | nil => simp [removeNamed]
  | cons n1 n2 ih =>
      unfold removeNamed
      split
      · rename_i hname
        rw [ih, List.mem_cons]
        constructor
        · exact fun ⟨hmem, hne⟩ => ⟨.inr hmem, hne⟩
        · rintro ⟨rfl | hmem, hne⟩
          · exact absurd hname hne
          · exact ⟨hmem, hne⟩
      · rename_i hname
        rw [List.mem_cons, List.mem_cons, ih]
        constructor
        · rintro (rfl | ⟨hmem, hne⟩)
          · exact ⟨.inl rfl, hname⟩
          · exact ⟨.inr hmem, hne⟩
        · rintro ⟨rfl | hmem, hne⟩
          · exact .inl rfl
          · exact .inr ⟨hmem, hne⟩

theorem removeDuplicate_subset (children : List Child) :
    removeDuplicate children ⊆ children := by
  induction children using removeDuplicate.induct with
  | case1 => simp [removeDuplicate]
  | case2 n0 n1 ih =>
      rw [removeDuplicate]
      refine List.cons_subset_cons n0 ?_
      intro child hmem
      exact (mem_removeNamed.mp (ih hmem)).1

/-- No name is lost with the duplicates. -/
theorem removeDuplicate_names (children : List Child) (name : Text) :
    name ∈ (removeDuplicate children).map Child.name ↔ name ∈ children.map Child.name := by
  induction children using removeDuplicate.induct with
  | case1 => simp [removeDuplicate]
  | case2 n0 n1 ih =>
      rw [removeDuplicate, List.map_cons, List.mem_cons, ih, List.map_cons, List.mem_cons]
      by_cases hname : name = n0.name
      · simp [hname]
      · simp only [hname, false_or, List.mem_map, mem_removeNamed]
        constructor
        · rintro ⟨child, ⟨hmem, -⟩, rfl⟩
          exact ⟨child, hmem, rfl⟩
        · rintro ⟨child, hmem, rfl⟩
          exact ⟨child, ⟨hmem, fun heq => hname heq.symm⟩, rfl⟩

/-- `resolve_nodes` -/
def resolveNodes (rootNode : List Node) : List Node :=
  (rootLoop.finish ⟨[], rootNode⟩).before.map fun n0 =>
    { n0 with children := removeDuplicate n0.children }

end Webcamd.Make
