import Webcamd.Kernel.RadixTreeRefinement

/-!
# The representation invariant of the radix tree

`RadixTreeInv` states, in terms of the code's own structures, what the nodes of a radix
tree look like: which of them can be reached from `rnode`, by which paths, what their
counts say, and that nothing is allocated besides.  `radixTree_inv` says that it holds
after every sequence of calls, whatever `malloc` answers.

The error exits of the code leave this to an argument that it does not spell out (*will
be handled by the radix_tree_delete() function*).  Here the argument is `RadixRep`,
which every exit restores; a trie held by the heap gives the invariant by induction
over the trie, or over the path.
-/

namespace Webcamd.Kernel

open Webcamd.Library

variable {V : Type}

/-- The node a path of positions leads to. -/
def follow (heap : RadixHeap V) : Option ℕ → List (Fin 64) → Option ℕ
  | node, [] => node
  | none, _ :: _ => none
  | some addr, pos :: path => (heap addr).bind fun record =>
      match record.slots pos with
      | .node child => follow heap (some child) path
      | _ => none

theorem slot_null : (.null : Slot V) = .null := rfl

instance (slot : Slot V) : Decidable (slot = .null) :=
  match slot with
  | .null => isTrue slot_null
  | .item _ => isFalse (by simp)
  | .node _ => isFalse (by simp)

/-- The representation invariant. -/
structure RadixTreeInv (root : RadixTreeRoot V) : Prop where
  /-- `rnode` is `NULL` iff the height is zero. -/
  rnode_iff : root.rnode = none ↔ root.height = 0
  /-- A node that can be reached is allocated, has its non-`NULL` slots counted, and is
  not empty. -/
  counted : ∀ path addr, follow root.heap root.rnode path = some addr →
    ∃ record, root.heap addr = some record ∧ 0 < record.count ∧
      record.count = (Finset.univ.filter fun pos => record.slots pos ≠ Slot.null).card
  /-- The path to an item has as many nodes as the tree is high. -/
  height : ∀ path addr record pos value, follow root.heap root.rnode path = some addr →
    root.heap addr = some record → record.slots pos = .item value →
      path.length + 1 = root.height
  /-- No node can be reached in two ways. -/
  unique : ∀ path other addr, follow root.heap root.rnode path = some addr →
    follow root.heap root.rnode other = some addr → path = other
  /-- What is allocated can be reached. -/
  reachable : ∀ addr, root.heap addr ≠ none →
    ∃ path, follow root.heap root.rnode path = some addr

/-! ### Paths in a trie -/

/-- The node pointer that leads to a trie. -/
def pointerOf : {n : ℕ} → RadixTrie V n → Option ℕ
  | _, .nil => none
  | _, .item _ => none
  | _, .node addr _ => some addr

theorem follow_none (heap : RadixHeap V) (path : List (Fin 64)) :
    follow heap none path = none := by
  cases path <;> rfl

/-- The first step of a path leads into a subtrie. -/
theorem follow_cons {heap : RadixHeap V} {n addr : ℕ} {slots : Fin 64 → RadixTrie V n}
    (hholds : Holds heap (.node addr slots)) (pos : Fin 64) (path : List (Fin 64)) :
    follow heap (some addr) (pos :: path) = follow heap (pointerOf (slots pos)) path := by
  rw [follow, hholds.1, Option.bind_some]
  show (match slotOf (slots pos) with
    | .node child => follow heap (some child) path
    | _ => none) = _
  cases slots pos with
  | nil => exact (follow_none heap path).symm
  | item value => exact (follow_none heap path).symm
  | node child sub => rfl

/-- **What a path leads to** is a node of the trie, at the height the path leaves. -/
theorem follow_node {heap : RadixHeap V} {n : ℕ} {trie : RadixTrie V n}
    (hholds : Holds heap trie) (hfull : trie.Full) {path : List (Fin 64)} {last : ℕ}
    (hfollow : follow heap (pointerOf trie) path = some last) :
    last ∈ trie.labels ∧ ∃ (m : ℕ) (sub : Fin 64 → RadixTrie V m),
      Holds heap (.node last sub) ∧ (Trie.node last sub).Full ∧ path.length + m + 1 = n := by
  induction trie generalizing path with
  | nil =>
      rw [pointerOf, follow_none] at hfollow
      cases hfollow
  | item value =>
      rw [pointerOf, follow_none] at hfollow
      cases hfollow
  | @node n addr slots ih =>
      cases path with
      | nil =>
          obtain rfl : addr = last := Option.some.inj hfollow
          refine ⟨Or.inl rfl, n, slots, hholds, hfull, ?_⟩
          rw [List.length_nil]
          omega
      | cons pos path =>
          rw [pointerOf, follow_cons hholds] at hfollow
          obtain ⟨hmem, m, sub, hsub, hsubFull, hlength⟩ :=
            ih pos (hholds.2 pos) (hfull.2 pos) hfollow
          refine ⟨Or.inr ⟨pos, hmem⟩, m, sub, hsub, hsubFull, ?_⟩
          rw [List.length_cons]
          omega

/-- Two paths to one node are the same path. -/
theorem follow_unique {heap : RadixHeap V} {n : ℕ} {trie : RadixTrie V n}
    (hholds : Holds heap trie) (hfull : trie.Full) (hsep : trie.Separated)
    {path other : List (Fin 64)} {last : ℕ}
    (hpath : follow heap (pointerOf trie) path = some last)
    (hother : follow heap (pointerOf trie) other = some last) : path = other := by
  induction trie generalizing path other with
  | nil =>
      rw [pointerOf, follow_none] at hpath
      cases hpath
  | item value =>
      rw [pointerOf, follow_none] at hpath
      cases hpath
  | @node n addr slots ih =>
      -- a path that goes on does not come back to the node it started from
      have hbelow : ∀ pos rest, follow heap (some addr) (pos :: rest) = some last →
          last ∈ (slots pos).labels ∧ last ≠ addr := by
        intro pos rest hfollow
        rw [follow_cons hholds] at hfollow
        have hmem := (follow_node (hholds.2 pos) (hfull.2 pos) hfollow).1
        exact ⟨hmem, fun heq => hsep.1 pos (heq ▸ hmem)⟩
      rw [pointerOf] at hpath hother
      cases path with
      | nil =>
          cases other with
          | nil => rfl
          | cons pos rest => exact absurd (Option.some.inj hpath).symm (hbelow pos rest hother).2
      | cons pos rest =>
          cases other with
          | nil => exact absurd (Option.some.inj hother).symm (hbelow pos rest hpath).2
          | cons pos' rest' =>
              obtain rfl : pos = pos' := hsep.2.1 pos pos' last (hbelow pos rest hpath).1
                (hbelow pos' rest' hother).1
              rw [follow_cons hholds] at hpath hother
              rw [ih pos (hholds.2 pos) (hfull.2 pos) (hsep.2.2 pos) hpath hother]

/-- Every node of the trie is at the end of a path. -/
theorem exists_follow {heap : RadixHeap V} {n : ℕ} {trie : RadixTrie V n}
    (hholds : Holds heap trie) {last : ℕ} (hmem : last ∈ trie.labels) :
    ∃ path, follow heap (pointerOf trie) path = some last := by
  induction trie with
  | nil => exact absurd hmem (Set.notMem_empty _)
  | item value => exact absurd hmem (Set.notMem_empty _)
  | node addr slots ih =>
      rcases Trie.mem_labels_node.mp hmem with rfl | ⟨pos, hin⟩
      · exact ⟨[], rfl⟩
      · obtain ⟨path, hpath⟩ := ih pos (hholds.2 pos) hin
        refine ⟨pos :: path, ?_⟩
        rw [pointerOf, follow_cons hholds, hpath]

/-! ### The invariant -/

theorem slots_ne_null_iff {n : ℕ} (slots : Fin 64 → RadixTrie V n) (pos : Fin 64) :
    (nodeOf slots).slots pos ≠ .null ↔ (slots pos).isNil = false := by
  show slotOf (slots pos) ≠ .null ↔ _
  cases slots pos <;> simp

/-- A tree whose heap holds a trie without empty nodes has the invariant. -/
theorem TreeOk.inv {root : RadixTreeRoot V} {n : ℕ} {trie : RadixTrie V n}
    (h : TreeOk root trie) (hfull : trie.Full) : RadixTreeInv root := by
  have hpointer : root.rnode = pointerOf trie := by
    cases trie with
    | nil => exact h.rnode_nil
    | item value => exact h.not_item.elim
    | node addr slots => exact h.rnode_node
  refine ⟨?_, ?_, ?_, ?_, ?_⟩
  · rw [h.height]
    cases trie with
    | nil => exact iff_of_true h.rnode_nil (h.empty rfl)
    | item value => exact h.not_item.elim
    | node addr slots => exact iff_of_false (by simp [h.rnode_node]) (by omega)
  · intro path addr hfollow
    rw [hpointer] at hfollow
    obtain ⟨-, m, sub, hsub, hsubFull, -⟩ := follow_node h.holds hfull hfollow
    have hsupport : support sub =
        Finset.univ.filter fun pos => (nodeOf sub).slots pos ≠ Slot.null := by
      ext pos
      rw [mem_support, Finset.mem_filter, slots_ne_null_iff]
      simp
    refine ⟨nodeOf sub, hsub.1, count_nodeOf_pos.mpr hsubFull.1, ?_⟩
    rw [← hsupport]
    rfl
  · intro path addr record pos value hfollow hrecord hitem
    rw [hpointer] at hfollow
    obtain ⟨-, m, sub, hsub, -, hlength⟩ := follow_node h.holds hfull hfollow
    obtain rfl : nodeOf sub = record := Option.some.inj (hsub.1.symm.trans hrecord)
    -- only the slots of a leaf node hold items
    have hleaf : m = 0 := by
      have hslot : slotOf (sub pos) = .item value := hitem
      cases hsubtrie : sub pos with
      | nil => rw [hsubtrie] at hslot; cases hslot
      | item other => rfl
      | node child slots => rw [hsubtrie] at hslot; cases hslot
    rw [h.height]
    omega
  · intro path other addr hpath hother
    rw [hpointer] at hpath hother
    exact follow_unique h.holds hfull h.separated hpath hother
  · intro addr hallocated
    rw [hpointer]
    exact exists_follow h.holds (h.exact addr hallocated)

/-- **The representation invariant holds after every sequence of calls**, with indices
below `2 ^ 60` and whatever `malloc` answers. -/
theorem radixTree_inv (calls : List (RadixCall V))
    (hindex : ∀ call ∈ calls, call.index.toNat < 2 ^ 60) :
    ∃ root rets, (radixMachine V).run .init calls = some (root, rets) ∧
      RadixTreeInv root := by
  obtain ⟨root, rets, map, hrun, -, n, trie, hok, hfull, -⟩ := RadixRep.init.run calls hindex
  exact ⟨root, rets, hrun, hok.inv hfull⟩

/-- Two expansions that run out of memory half-way, and a deletion of what is there. -/
def failAndEmpty : List (RadixCall ℕ) :=
  [.insert 3 (some 1) [some 10], .insert 5000 (some 2) [some 11, none],
    .store 5000 (some 2) [some 12, some 13, none], .delete 3]

theorem radixTree_inv_failAndEmpty : ∃ root rets,
    (radixMachine ℕ).run .init failAndEmpty = some (root, rets) ∧ RadixTreeInv root :=
  radixTree_inv failAndEmpty (by
    intro call hmem
    simp only [failAndEmpty, List.mem_cons, List.not_mem_nil, or_false] at hmem
    rcases hmem with rfl | rfl | rfl | rfl <;> decide)

end Webcamd.Kernel
