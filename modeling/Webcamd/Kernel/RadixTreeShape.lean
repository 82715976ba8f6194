import Webcamd.Library.Trie
import Webcamd.Kernel.RadixTree

/-!
# The radix tree's heap holds a trie

The nodes of the radix tree form a `Trie` over 64 digits, labelled with their
addresses: `Holds heap trie` says that the heap has, at every label of the trie, the
node record the trie asks for — its slots, and the number of them in use as its count.
The key of an index is `radixPos index`: the code's positions are the trie's digits.

Each loop of the code walks or rebuilds one path of the trie, and gets one lemma here
that says what it does to the trie.

* `Mutates before after old new` — a change of the heap that turns one trie into
  another, with everything outside both left alone, what is only in the old one freed,
  and what is only in the new one taken from free memory.  `Mutates.lift` carries such
  a change from a subtrie to the node above it; every proof about a path is an
  induction along that lemma.
* `walkDown_eq`, `allocLevels_eq`, `setupLevels_eq` — the three phases of an insertion
  below the root; `reachLeaf` puts them together in `RadixTreeRefinement`.
* `deleteUnwind_eq` — the loop of the deletion, from the leaf upwards, computes
  `Trie.deleteAt`, which is defined from the root downwards.
-/

namespace Webcamd.Kernel

open Webcamd.Library

variable {V : Type}

/-- The tries the radix tree represents. -/
abbrev RadixTrie (V : Type) (n : ℕ) := Trie (Fin 64) ℕ V n

/-- What a slot holds that leads to this trie. -/
def slotOf : {n : ℕ} → RadixTrie V n → Slot V
  | _, .nil => .null
  | _, .item value => .item value
  | _, .node addr _ => .node addr

@[simp] theorem slotOf_nil {n : ℕ} : slotOf (.nil : RadixTrie V n) = .null := rfl

@[simp] theorem slotOf_item (value : V) :
    slotOf (.item value : RadixTrie V 0) = .item value := rfl

@[simp] theorem slotOf_node {n : ℕ} (addr : ℕ) (slots : Fin 64 → RadixTrie V n) :
    slotOf (.node addr slots) = .node addr := rfl

/-- The slots in use. -/
def support {n : ℕ} (slots : Fin 64 → RadixTrie V n) : Finset (Fin 64) :=
  Finset.univ.filter fun i => (slots i).isNil = false

theorem mem_support {n : ℕ} {slots : Fin 64 → RadixTrie V n} {i : Fin 64} :
    i ∈ support slots ↔ (slots i).isNil = false := by
  simp [support]

/-- The record of a node with these slots. -/
def nodeOf {n : ℕ} (slots : Fin 64 → RadixTrie V n) : RadixTreeNode V :=
  ⟨fun i => slotOf (slots i), (support slots).card⟩

/-! ### Records -/

theorem support_nil {n : ℕ} : support (fun _ => (.nil : RadixTrie V n)) = ∅ := by
  ext i
  simp [mem_support]

@[simp] theorem nodeOf_nil {n : ℕ} :
    nodeOf (fun _ => (.nil : RadixTrie V n)) = zeroedNode := by
  simp [nodeOf, zeroedNode, support_nil]

theorem slots_nodeOf_update {n : ℕ} (slots : Fin 64 → RadixTrie V n) (i : Fin 64)
    (trie : RadixTrie V n) :
    (nodeOf (Function.update slots i trie)).slots =
      Function.update (nodeOf slots).slots i (slotOf trie) := by
  funext j
  by_cases hj : j = i
  · subst hj
    simp [nodeOf]
  · simp [nodeOf, hj]

theorem support_update {n : ℕ} (slots : Fin 64 → RadixTrie V n) (i : Fin 64)
    (trie : RadixTrie V n) :
    support (Function.update slots i trie) =
      if trie.isNil then (support slots).erase i else insert i (support slots) := by
  ext j
  by_cases hj : j = i
  · subst hj
    by_cases hnil : trie.isNil <;> simp [mem_support, hnil]
  · by_cases hnil : trie.isNil <;> simp [mem_support, hnil, hj]

/-- A slot that was empty is filled. -/
theorem nodeOf_fill {n : ℕ} {slots : Fin 64 → RadixTrie V n} {i : Fin 64}
    {trie : RadixTrie V n} (hslot : slots i = .nil) (htrie : trie.isNil = false) :
    nodeOf (Function.update slots i trie) =
      ⟨Function.update (nodeOf slots).slots i (slotOf trie), (nodeOf slots).count + 1⟩ := by
  have hnot : i ∉ support slots := by simp [mem_support, hslot]
  apply RadixTreeNode.ext
  · exact slots_nodeOf_update slots i trie
  · show ((support (Function.update slots i trie)).card : ℤ) = (support slots).card + 1
    rw [support_update, htrie, if_neg (by simp), Finset.card_insert_of_notMem hnot]
    push_cast
    rfl

/-- A slot that was in use is used for something else. -/
theorem nodeOf_swap {n : ℕ} {slots : Fin 64 → RadixTrie V n} {i : Fin 64}
    {trie : RadixTrie V n} (hslot : (slots i).isNil = false) (htrie : trie.isNil = false) :
    nodeOf (Function.update slots i trie) =
      ⟨Function.update (nodeOf slots).slots i (slotOf trie), (nodeOf slots).count⟩ := by
  apply RadixTreeNode.ext
  · exact slots_nodeOf_update slots i trie
  · show ((support (Function.update slots i trie)).card : ℤ) = (support slots).card
    rw [support_update, htrie, if_neg (by simp), Finset.insert_eq_of_mem (mem_support.mpr hslot)]

/-- A slot that was in use is emptied. -/
theorem nodeOf_clear {n : ℕ} {slots : Fin 64 → RadixTrie V n} {i : Fin 64}
    (hslot : (slots i).isNil = false) :
    nodeOf (Function.update slots i .nil) =
      ⟨Function.update (nodeOf slots).slots i .null, (nodeOf slots).count - 1⟩ := by
  apply RadixTreeNode.ext
  · exact slots_nodeOf_update slots i .nil
  · show ((support (Function.update slots i .nil)).card : ℤ) = (support slots).card - 1
    have hpos : 0 < (support slots).card := Finset.card_pos.mpr ⟨i, mem_support.mpr hslot⟩
    rw [support_update, Trie.isNil_nil, if_pos rfl,
      Finset.card_erase_of_mem (mem_support.mpr hslot)]
    omega

/-- A record depends on a slot only through the pointer in it. -/
theorem nodeOf_same {n : ℕ} {slots : Fin 64 → RadixTrie V n} {i : Fin 64}
    {trie : RadixTrie V n} (hslot : (slots i).isNil = false) (htrie : trie.isNil = false)
    (hpointer : slotOf trie = slotOf (slots i)) :
    nodeOf (Function.update slots i trie) = nodeOf slots := by
  have hslots : (nodeOf slots).slots i = slotOf (slots i) := rfl
  rw [nodeOf_swap hslot htrie, hpointer, ← hslots, Function.update_eq_self]

theorem count_nodeOf_eq_zero {n : ℕ} {slots : Fin 64 → RadixTrie V n} :
    (nodeOf slots).count = 0 ↔ ∀ i, (slots i).isNil = true := by
  show ((support slots).card : ℤ) = 0 ↔ _
  rw [Nat.cast_eq_zero, Finset.card_eq_zero, Finset.eq_empty_iff_forall_notMem]
  simp [mem_support]

theorem count_nodeOf_pos {n : ℕ} {slots : Fin 64 → RadixTrie V n} :
    0 < (nodeOf slots).count ↔ ∃ i, (slots i).isNil = false := by
  show 0 < ((support slots).card : ℤ) ↔ _
  rw [Nat.cast_pos, Finset.card_pos]
  exact ⟨fun ⟨i, hi⟩ => ⟨i, mem_support.mp hi⟩, fun ⟨i, hi⟩ => ⟨i, mem_support.mpr hi⟩⟩

theorem count_nodeOf_ne_zero {n : ℕ} {slots : Fin 64 → RadixTrie V n} :
    (nodeOf slots).count ≠ 0 ↔ ∃ i, (slots i).isNil = false := by
  rw [Ne, count_nodeOf_eq_zero, not_forall]
  exact exists_congr fun i => Bool.not_eq_true _ ▸ Iff.rfl

/-! ### The heap holds a trie -/

/-- At every label of the trie the heap has the record the trie asks for. -/
def Holds (heap : RadixHeap V) : {n : ℕ} → RadixTrie V n → Prop
  | _, .nil => True
  | _, .item _ => True
  | _, .node addr slots => heap addr = some (nodeOf slots) ∧ ∀ i, Holds heap (slots i)

theorem Holds.allocated {heap : RadixHeap V} {n : ℕ} {trie : RadixTrie V n}
    (h : Holds heap trie) {addr : ℕ} (hmem : addr ∈ trie.labels) : heap addr ≠ none := by
  induction trie with
  | nil => exact absurd hmem (Set.notMem_empty _)
  | item value => exact absurd hmem (Set.notMem_empty _)
  | node label slots ih =>
      rcases Trie.mem_labels_node.mp hmem with rfl | ⟨i, hi⟩
      · simp [h.1]
      · exact ih i (h.2 i) hi

/-- The trie only depends on the heap at its labels. -/
theorem Holds.congr {heap changed : RadixHeap V} {n : ℕ} {trie : RadixTrie V n}
    (h : Holds heap trie) (hsame : ∀ addr ∈ trie.labels, changed addr = heap addr) :
    Holds changed trie := by
  induction trie with
  | nil => trivial
  | item value => trivial
  | node label slots ih =>
      refine ⟨?_, fun i => ih i (h.2 i) fun addr hmem => ?_⟩
      · rw [hsame label (Or.inl rfl), h.1]
      · exact hsame addr (Or.inr ⟨i, hmem⟩)

/-! ### Changes of the heap that change one trie -/

/-- A change of the heap turns one trie into another. -/
structure Mutates (before after : RadixHeap V) {n m : ℕ} (old : RadixTrie V n)
    (new : RadixTrie V m) : Prop where
  holds : Holds after new
  separated : new.Separated
  /-- Everything else is left alone. -/
  frame : ∀ addr, addr ∉ old.labels → addr ∉ new.labels → after addr = before addr
  /-- What is no longer used has been freed. -/
  freed : ∀ addr ∈ old.labels, addr ∉ new.labels → after addr = none
  /-- What is used now and was not was free. -/
  fresh : ∀ addr ∈ new.labels, addr ∉ old.labels → before addr = none

section Lift

variable {before after : RadixHeap V} {n : ℕ} {addr : ℕ} {slots : Fin 64 → RadixTrie V n}
variable {i : Fin 64} {new : RadixTrie V n}

/-- A changed subtrie stays clear of its parent and its siblings: what is new in it was
free, and they were not. -/
theorem Mutates.clear (hchild : Mutates before after (slots i) new)
    (hholds : Holds before (.node addr slots)) (hsep : (Trie.node addr slots).Separated) :
    addr ∉ new.labels ∧
      ∀ j other, j ≠ i → other ∈ (slots j).labels → other ∉ new.labels := by
  obtain ⟨haddr, hdisjoint, -⟩ := Trie.separated_node.mp hsep
  constructor
  · intro hmem
    have hfree := hchild.fresh addr hmem (haddr i)
    rw [hholds.1] at hfree
    cases hfree
  · intro j other hj hmem hnew
    have hother : other ∉ (slots i).labels := fun hin => hj (hdisjoint j i other hmem hin)
    exact (hholds.2 j).allocated hmem (hchild.fresh other hnew hother)

/-- **From a subtrie to the node above it**: if the heap changes so that one subtrie
changes, and the node's record is then made to fit, the node's trie changes. -/
theorem Mutates.lift (hchild : Mutates before after (slots i) new)
    (hholds : Holds before (.node addr slots)) (hsep : (Trie.node addr slots).Separated) :
    Mutates before
      (Function.update after addr (some (nodeOf (Function.update slots i new))))
      (Trie.node addr slots) (Trie.node addr (Function.update slots i new)) := by
  obtain ⟨haddrNew, hsiblings⟩ := hchild.clear hholds hsep
  obtain ⟨haddr, hdisjoint, -⟩ := Trie.separated_node.mp hsep
  refine ⟨⟨by simp, fun j => ?_⟩,
    Trie.separated_update hsep hchild.separated haddrNew hsiblings, ?_, ?_, ?_⟩
  · by_cases hj : j = i
    · subst hj
      rw [Function.update_self]
      refine hchild.holds.congr fun other hmem => ?_
      have hne : other ≠ addr := fun heq => haddrNew (heq ▸ hmem)
      rw [Function.update_of_ne hne]
    · rw [Function.update_of_ne hj]
      refine (hholds.2 j).congr fun other hmem => ?_
      have hne : other ≠ addr := fun heq => haddr j (heq ▸ hmem)
      rw [Function.update_of_ne hne]
      exact hchild.frame other (fun hin => hj (hdisjoint j i other hmem hin))
        (hsiblings j other hj hmem)
  · intro other hold hnew
    have hne : other ≠ addr := fun heq => hold (Or.inl heq)
    rw [Function.update_of_ne hne]
    refine hchild.frame other (fun hin => hold (Or.inr ⟨i, hin⟩)) fun hin => hnew ?_
    exact Or.inr ⟨i, by rwa [Function.update_self]⟩
  · intro other hold hnew
    have hne : other ≠ addr := fun heq => hnew (Or.inl heq)
    rw [Function.update_of_ne hne]
    rcases Trie.mem_labels_node.mp hold with heq | ⟨j, hin⟩
    · exact absurd heq hne
    · have hj : j = i := by
        by_contra hj
        exact hnew (Or.inr ⟨j, by rwa [Function.update_of_ne hj]⟩)
      subst hj
      exact hchild.freed other hin fun hin' => hnew (Or.inr ⟨j, by rwa [Function.update_self]⟩)
  · intro other hnew hold
    rcases Trie.mem_labels_node.mp hnew with heq | ⟨j, hin⟩
    · exact absurd (Or.inl heq) hold
    · by_cases hj : j = i
      · subst hj
        rw [Function.update_self] at hin
        exact hchild.fresh other hin fun hin' => hold (Or.inr ⟨j, hin'⟩)
      · rw [Function.update_of_ne hj] at hin
        exact absurd (Or.inr ⟨j, hin⟩) hold

/-- The node's record need not change if the pointer to the subtrie does not. -/
theorem Mutates.lift_same (hchild : Mutates before after (slots i) new)
    (hholds : Holds before (.node addr slots)) (hsep : (Trie.node addr slots).Separated)
    (hslot : (slots i).isNil = false) (hnew : new.isNil = false)
    (hpointer : slotOf new = slotOf (slots i)) :
    Mutates before after (Trie.node addr slots)
      (Trie.node addr (Function.update slots i new)) := by
  have hlift := hchild.lift hholds hsep
  have hrecord : after addr = some (nodeOf (Function.update slots i new)) := by
    rw [nodeOf_same hslot hnew hpointer, ← hholds.1]
    exact hchild.frame addr (hsep.1 i) (hchild.clear hholds hsep).1
  rwa [← hrecord, Function.update_eq_self] at hlift

/-- A node all of whose slots are empty, after one subtrie went away, may go away
too. -/
theorem Mutates.remove (hchild : Mutates before after (slots i) (.nil : RadixTrie V n))
    (hsep : (Trie.node addr slots).Separated)
    (hothers : ∀ j, j ≠ i → (slots j).isNil = true) :
    Mutates before (Function.update after addr none) (Trie.node addr slots)
      (.nil : RadixTrie V (n + 1)) := by
  refine ⟨trivial, trivial, ?_, ?_, ?_⟩
  · intro other hold _
    have hne : other ≠ addr := fun heq => hold (Or.inl heq)
    rw [Function.update_of_ne hne]
    exact hchild.frame other (fun hin => hold (Or.inr ⟨i, hin⟩)) (Set.notMem_empty _)
  · intro other hold _
    rcases Trie.mem_labels_node.mp hold with rfl | ⟨j, hin⟩
    · rw [Function.update_self]
    · by_cases hj : j = i
      · subst hj
        have hne : other ≠ addr := fun heq => hsep.1 j (heq ▸ hin)
        rw [Function.update_of_ne hne]
        exact hchild.freed other hin (Set.notMem_empty _)
      · rw [(Trie.isNil_iff _).mp (hothers j hj)] at hin
        exact absurd hin (Set.notMem_empty _)
  · intro other hnew _
    exact absurd hnew (Set.notMem_empty _)

end Lift

/-! ### Walking down -/

/-- A slot that leads to a subtrie with nodes. -/
theorem slot_cases {n : ℕ} (trie : RadixTrie V (n + 1)) :
    trie = .nil ∨ ∃ addr slots, trie = .node addr slots := by
  cases trie with
  | nil => exact Or.inl rfl
  | node addr slots => exact Or.inr ⟨addr, slots, rfl⟩

section Walk

variable {heap : RadixHeap V} {index : BitVec 64} {height addr child : ℕ}
  {record : RadixTreeNode V}

theorem lookupWalk_null (hrecord : heap addr = some record)
    (hslot : record.slots (radixPos index (height + 1)) = .null) :
    lookupWalk heap index (height + 1) (some addr) = some none := by
  simp only [lookupWalk, hrecord, Option.bind_some, hslot]

theorem lookupWalk_node (hrecord : heap addr = some record)
    (hslot : record.slots (radixPos index (height + 1)) = .node child) :
    lookupWalk heap index (height + 1) (some addr) =
      lookupWalk heap index height (some child) := by
  simp only [lookupWalk, hrecord, Option.bind_some, hslot]

theorem walkDown_null (hrecord : heap addr = some record)
    (hslot : record.slots (radixPos index (height + 1)) = .null) :
    walkDown heap index (height + 1) addr = some (addr, height + 1) := by
  simp only [walkDown, hrecord, Option.bind_some, hslot]

theorem walkDown_node (hrecord : heap addr = some record)
    (hslot : record.slots (radixPos index (height + 1)) = .node child) :
    walkDown heap index (height + 1) addr = walkDown heap index height child := by
  simp only [walkDown, hrecord, Option.bind_some, hslot]

theorem deleteWalk_node (hrecord : heap addr = some record)
    (hslot : record.slots (radixPos index (height + 1)) = .node child) (stack : List ℕ) :
    deleteWalk heap index (height + 1) (some addr) stack =
      deleteWalk heap index height (some child) (addr :: stack) := by
  simp only [deleteWalk, hrecord, Option.bind_some, hslot]

end Walk

theorem nodeOf_slots_nil {height : ℕ} {slots : Fin 64 → RadixTrie V height} {pos : Fin 64}
    (h : slots pos = .nil) : (nodeOf slots).slots pos = .null := by
  simp [nodeOf, h]

theorem nodeOf_slots_node {height : ℕ} {slots : Fin 64 → RadixTrie V (height + 1)} {pos : Fin 64}
    {child : ℕ} {sub : Fin 64 → RadixTrie V height} (h : slots pos = .node child sub) :
    (nodeOf slots).slots pos = .node child := by
  simp [nodeOf, h]

/-- The walk of `radix_tree_lookup` ends at a leaf node whose slot for the index holds
what the trie has, or at a missing node. -/
theorem lookupWalk_eq {heap : RadixHeap V} (index : BitVec 64) {height addr : ℕ}
    {slots : Fin 64 → RadixTrie V height} (hholds : Holds heap (.node addr slots)) :
    (lookupWalk heap index height (some addr) = some none ∧
      (Trie.node addr slots).lookup (radixPos index) = none) ∨
    ∃ leaf record, lookupWalk heap index height (some addr) = some (some leaf) ∧
      heap leaf = some record ∧ (record.slots (radixPos index 0)).toItem =
        some ((Trie.node addr slots).lookup (radixPos index)) := by
  induction height generalizing addr with
  | zero =>
      refine Or.inr ⟨addr, nodeOf slots, rfl, hholds.1, ?_⟩
      rw [Trie.lookup_node]
      show (slotOf (slots (radixPos index 0))).toItem = _
      cases slots (radixPos index 0) <;> rfl
  | succ height ih =>
      rw [Trie.lookup_node]
      rcases slot_cases (slots (radixPos index (height + 1))) with hnil | ⟨child, sub, hsub⟩
      · left
        rw [lookupWalk_null hholds.1 (nodeOf_slots_nil hnil), hnil]
        exact ⟨rfl, rfl⟩
      · rw [lookupWalk_node hholds.1 (nodeOf_slots_node hsub), hsub]
        exact ih (hsub ▸ hholds.2 (radixPos index (height + 1)))

/-- **The walk of an insertion** ends at a node of the trie whose slot for the index is
empty, or at a leaf node; inserting below that node is inserting into the whole
trie. -/
theorem walkDown_eq {heap : RadixHeap V} (index : BitVec 64) {height addr : ℕ}
    {slots : Fin 64 → RadixTrie V height} (hholds : Holds heap (.node addr slots))
    (hsep : (Trie.node addr slots).Separated) :
    ∃ (stop node : ℕ) (sub : Fin 64 → RadixTrie V stop),
      walkDown heap index height addr = some (node, stop) ∧
      Holds heap (.node node sub) ∧ (Trie.node node sub).Separated ∧
      (stop ≠ 0 → sub (radixPos index stop) = .nil) ∧
      (Trie.node addr slots).lookup (radixPos index) =
        (Trie.node node sub).lookup (radixPos index) ∧
      ∀ (fresh : ℕ → ℕ) (value : V) (after : RadixHeap V),
        Mutates heap after (Trie.node node sub)
          ((Trie.node node sub).insertAt (radixPos index) fresh value) →
        Mutates heap after (Trie.node addr slots)
          ((Trie.node addr slots).insertAt (radixPos index) fresh value) := by
  induction height generalizing addr with
  | zero => exact ⟨0, addr, slots, rfl, hholds, hsep, by simp, rfl, fun _ _ _ h => h⟩
  | succ height ih =>
      rcases slot_cases (slots (radixPos index (height + 1))) with hnil | ⟨child, sub, hsub⟩
      · refine ⟨height + 1, addr, slots, ?_, hholds, hsep, fun _ => hnil, rfl,
          fun _ _ _ h => h⟩
        exact walkDown_null hholds.1 (nodeOf_slots_nil hnil)
      · have hchild : Holds heap (.node child sub) := hsub ▸ hholds.2 _
        have hchildSep : (Trie.node child sub).Separated := hsub ▸ hsep.2.2 _
        obtain ⟨stop, node, last, hrest, hlast, hlastSep, hempty, hlookup, hinsert⟩ :=
          ih hchild hchildSep
        refine ⟨stop, node, last, ?_, hlast, hlastSep, hempty, ?_, ?_⟩
        · rw [walkDown_node hholds.1 (nodeOf_slots_node hsub), hrest]
        · rw [Trie.lookup_node, hsub, hlookup]
        · intro fresh value after hmutates
          rw [Trie.insertAt_node]
          have hlower := hinsert fresh value after hmutates
          rw [← hsub] at hlower
          refine hlower.lift_same hholds hsep ?_ (by simp) ?_
          · rw [hsub]
            rfl
          · rw [hsub]
            rfl

/-! ### Allocating the missing levels -/

/-- The heap with zeroed nodes at these addresses. -/
def withZeroed (heap : RadixHeap V) (temp : List ℕ) : RadixHeap V := fun addr =>
  if addr ∈ temp then some zeroedNode else heap addr

theorem withZeroed_nil (heap : RadixHeap V) : withZeroed heap [] = heap := by
  funext addr
  simp [withZeroed]

theorem withZeroed_cons (heap : RadixHeap V) (addr : ℕ) (temp : List ℕ) :
    withZeroed heap (addr :: temp) =
      Function.update (withZeroed heap temp) addr (some zeroedNode) := by
  funext other
  by_cases hother : other = addr
  · subst hother
    simp [withZeroed]
  · simp [withZeroed, hother]

theorem malloc_cases (heap : RadixHeap V) (answers : MallocAnswers) :
    ∃ rest, malloc heap answers = (none, rest) ∨
      ∃ addr, malloc heap answers = (some addr, rest) ∧ heap addr = none := by
  cases answers with
  | nil => exact ⟨[], Or.inl rfl⟩
  | cons answer rest =>
      refine ⟨rest, ?_⟩
      cases answer with
      | none => exact Or.inl rfl
      | some addr =>
          by_cases hfree : heap addr = none
          · exact Or.inr ⟨addr, by simp [malloc, hfree], hfree⟩
          · left
            cases hcontent : heap addr with
            | none => exact absurd hcontent hfree
            | some node => simp [malloc, hcontent]

/-- Freeing the levels again restores the heap. -/
theorem freeLevels_eq {heap : RadixHeap V} {temp : List ℕ} (hnodup : temp.Nodup)
    (hfresh : ∀ addr ∈ temp, heap addr = none) :
    freeLevels temp (withZeroed heap temp) = some heap := by
  induction temp with
  | nil => rw [withZeroed_nil, freeLevels]
  | cons addr rest ih =>
      obtain ⟨hnot, hnodup⟩ := List.nodup_cons.mp hnodup
      have hfree : free (withZeroed heap (addr :: rest)) addr =
          some (withZeroed heap rest) := by
        rw [free, if_pos (by simp [withZeroed]), withZeroed_cons, Function.update_idem]
        congr 1
        refine Function.update_eq_self_iff.mpr ?_
        simp [withZeroed, hnot, hfresh addr List.mem_cons_self]
      rw [freeLevels, hfree, Option.bind_some]
      exact ih hnodup fun other hmem => hfresh other (List.mem_cons_of_mem _ hmem)

/-- **The allocation of the missing levels** gives distinct zeroed nodes from free
memory, or leaves the heap as it was. -/
theorem allocLevels_eq {heap : RadixHeap V} (missing : ℕ) {temp : List ℕ}
    (answers : MallocAnswers) (hnodup : temp.Nodup)
    (hfresh : ∀ addr ∈ temp, heap addr = none) :
    allocLevels missing temp (withZeroed heap temp) answers = some (none, heap) ∨
    ∃ levels, allocLevels missing temp (withZeroed heap temp) answers =
        some (some levels, withZeroed heap levels) ∧
      levels.length = temp.length + missing ∧ levels.Nodup ∧
      ∀ addr ∈ levels, heap addr = none := by
  induction missing generalizing temp answers with
  | zero => exact Or.inr ⟨temp, rfl, rfl, hnodup, hfresh⟩
  | succ missing ih =>
      obtain ⟨rest, hfail | ⟨addr, haddr, hfree⟩⟩ := malloc_cases (withZeroed heap temp) answers
      · left
        rw [allocLevels, hfail]
        simp only [freeLevels_eq hnodup hfresh, Option.map_some]
      · have hnot : addr ∉ temp := fun hmem => by simp [withZeroed, hmem] at hfree
        have hnone : heap addr = none := by simpa [withZeroed, hnot] using hfree
        have hnext := ih rest (List.nodup_cons.mpr ⟨hnot, hnodup⟩) (by
          intro other hmem
          rcases List.mem_cons.mp hmem with rfl | hin
          · exact hnone
          · exact hfresh other hin)
        rw [withZeroed_cons] at hnext
        rw [allocLevels, haddr]
        rcases hnext with hfail | ⟨levels, hlevels, hlength, hrest⟩
        · exact Or.inl hfail
        · refine Or.inr ⟨levels, hlevels, ?_, hrest⟩
          rw [hlength, List.length_cons]
          omega

/-! ### Setting up the new levels -/

/-- The address of the new node of height `k + 1`: the list has the highest first. -/
def levelLabel (temp : List ℕ) (k : ℕ) : ℕ := temp.getD (temp.length - 1 - k) 0

theorem levelLabel_cons_self (addr : ℕ) (temp : List ℕ) :
    levelLabel (addr :: temp) temp.length = addr := by
  simp [levelLabel]

theorem levelLabel_cons_of_lt {addr : ℕ} {temp : List ℕ} {k : ℕ} (hk : k < temp.length) :
    levelLabel (addr :: temp) k = levelLabel temp k := by
  have hindex : (addr :: temp).length - 1 - k = (temp.length - 1 - k) + 1 := by
    simp only [List.length_cons]
    omega
  rw [levelLabel, levelLabel, hindex, List.getD_cons_succ]

theorem mem_iff_levelLabel {temp : List ℕ} {addr : ℕ} :
    addr ∈ temp ↔ ∃ k < temp.length, addr = levelLabel temp k := by
  induction temp with
  | nil => simp
  | cons head rest ih =>
      rw [List.mem_cons, ih]
      constructor
      · rintro (rfl | ⟨k, hk, rfl⟩)
        · exact ⟨rest.length, by simp, (levelLabel_cons_self _ _).symm⟩
        · exact ⟨k, by simp only [List.length_cons]; omega, (levelLabel_cons_of_lt hk).symm⟩
      · rintro ⟨k, hk, rfl⟩
        rw [List.length_cons, Nat.lt_succ_iff_lt_or_eq] at hk
        rcases hk with hlt | rfl
        · exact Or.inr ⟨k, hlt, levelLabel_cons_of_lt hlt⟩
        · exact Or.inl (levelLabel_cons_self _ _)

theorem levelLabel_injective {temp : List ℕ} (hnodup : temp.Nodup) :
    ∀ j < temp.length, ∀ k < temp.length, levelLabel temp j = levelLabel temp k → j = k := by
  intro j hj k hk heq
  have hindexJ : temp.length - 1 - j < temp.length := by omega
  have hindexK : temp.length - 1 - k < temp.length := by omega
  rw [levelLabel, levelLabel, List.getD_eq_getElem _ _ hindexJ,
    List.getD_eq_getElem _ _ hindexK, hnodup.getElem_inj_iff] at heq
  omega

/-- A path only depends on the labels of its levels. -/
theorem build_congr {key : ℕ → Fin 64} {fresh other : ℕ → ℕ} {value : V} {n : ℕ}
    (hsame : ∀ k < n, fresh k = other k) :
    (Trie.build key fresh value n : RadixTrie V n) = Trie.build key other value n := by
  induction n with
  | zero => rfl
  | succ n ih =>
      rw [Trie.build_succ, Trie.build_succ, hsame n (Nat.lt_succ_self n),
        ih fun k hk => hsame k (Nat.lt_succ_of_lt hk)]

/-- The first new level of a path, and the path below it. -/
theorem insertAt_nil_cons (index : BitVec 64) {height fresh : ℕ} {rest : List ℕ}
    (hrest : rest.length = height) (value : V) :
    (Trie.nil : RadixTrie V (height + 1)).insertAt (radixPos index)
        (levelLabel (fresh :: rest)) value =
      .node fresh (Function.update (fun _ => .nil) (radixPos index height)
        ((Trie.nil : RadixTrie V height).insertAt (radixPos index) (levelLabel rest)
          value)) := by
  have hlabel : levelLabel (fresh :: rest) height = fresh := by
    rw [← hrest]
    exact levelLabel_cons_self fresh rest
  rw [Trie.insertAt_nil, Trie.build_succ, Trie.insertAt_nil, hlabel,
    build_congr fun k hk => levelLabel_cons_of_lt (hrest.symm ▸ hk)]

/-- A node with one subtrie. -/
theorem Holds.single {heap : RadixHeap V} {n addr : ℕ} {i : Fin 64} {trie : RadixTrie V n}
    (hnode : heap addr = some (nodeOf (Function.update (fun _ => .nil) i trie)))
    (h : Holds heap trie) :
    Holds heap (.node addr (Function.update (fun _ => .nil) i trie)) := by
  refine ⟨hnode, fun j => ?_⟩
  by_cases hj : j = i
  · subst hj
    rw [Function.update_self]
    exact h
  · rw [Function.update_of_ne hj]
    trivial

/-- **The set-up of the new levels.**  It ends at a leaf node; putting a value into the
leaf's slot for the index completes the path below the node it started from.  Without
new levels, the leaf is that node and nothing has changed. -/
theorem setupLevels_eq {index : BitVec 64} {height addr : ℕ} {temp : List ℕ}
    {heap : RadixHeap V} {slots : Fin 64 → RadixTrie V height}
    (hrecord : heap addr = some (nodeOf slots))
    (hempty : height ≠ 0 → slots (radixPos index height) = .nil)
    (hlength : temp.length = height) (hnodup : temp.Nodup) (haddr : addr ∉ temp)
    (hzeroed : ∀ other ∈ temp, heap other = some zeroedNode) :
    ∃ (leaf : ℕ) (after : RadixHeap V) (leafSlots : Fin 64 → RadixTrie V 0),
      setupLevels index height temp addr heap = some (leaf, after) ∧
      after leaf = some (nodeOf leafSlots) ∧
      (leafSlots (radixPos index 0)).lookup (radixPos index) =
        (slots (radixPos index height)).lookup (radixPos index) ∧
      ((leafSlots (radixPos index 0)).isNil = false → temp = [] ∧ after = heap) ∧
      ∀ value : V, ∃ final : RadixHeap V,
        final = Function.update after leaf
          (some (nodeOf (Function.update leafSlots (radixPos index 0) (.item value)))) ∧
        final addr = some (nodeOf (Function.update slots (radixPos index height)
          ((slots (radixPos index height)).insertAt (radixPos index) (levelLabel temp)
            value))) ∧
        Holds final ((slots (radixPos index height)).insertAt (radixPos index)
          (levelLabel temp) value) ∧
        ∀ other, other ≠ addr → other ∉ temp → final other = heap other := by
  induction height generalizing addr temp heap with
  | zero =>
      obtain rfl := List.length_eq_zero_iff.mp hlength
      refine ⟨addr, heap, slots, rfl, hrecord, rfl, fun _ => ⟨rfl, rfl⟩, fun value => ?_⟩
      have hinsert : (slots (radixPos index 0)).insertAt (radixPos index) (levelLabel [])
          value = .item value := by
        cases slots (radixPos index 0) <;> rfl
      refine ⟨_, rfl, ?_, ?_, ?_⟩
      · rw [hinsert, Function.update_self]
      · rw [hinsert]
        trivial
      · intro other hne _
        rw [Function.update_of_ne hne]
  | succ height ih =>
      have hnil := hempty (Nat.succ_ne_zero height)
      cases temp with
      | nil => cases hlength
      | cons fresh rest =>
          have hrest : rest.length = height := by simpa using hlength
          obtain ⟨hfreshRest, hnodup⟩ := List.nodup_cons.mp hnodup
          rw [List.mem_cons, not_or] at haddr
          -- the node the set-up started from gets its new child …
          set linked : RadixTreeNode V := ⟨Function.update (nodeOf slots).slots
            (radixPos index (height + 1)) (.node fresh), (nodeOf slots).count + 1⟩ with hlinked
          set heap' : RadixHeap V := Function.update heap addr (some linked) with hheap
          have hfresh : heap' fresh = some (nodeOf (fun _ => (Trie.nil : RadixTrie V height))) := by
            rw [hheap, Function.update_of_ne (Ne.symm haddr.1), nodeOf_nil]
            exact hzeroed fresh List.mem_cons_self
          have hothers : ∀ other ∈ rest, heap' other = some zeroedNode := by
            intro other hmem
            have hne : other ≠ addr := fun heq => haddr.2 (heq ▸ hmem)
            rw [hheap, Function.update_of_ne hne]
            exact hzeroed other (List.mem_cons_of_mem _ hmem)
          -- … and the rest of the path is set up below that child
          obtain ⟨leaf, after, leafSlots, hsetup, hleaf, hlookup, hused, hfinal⟩ :=
            ih hfresh (fun _ => rfl) hrest hnodup hfreshRest hothers
          refine ⟨leaf, after, leafSlots, ?_, hleaf, ?_, ?_, fun value => ?_⟩
          · rw [setupLevels, hrecord, Option.bind_some]
            exact hsetup
          · rw [hlookup, hnil]
            rfl
          · intro hslot
            -- a new leaf is empty
            exact absurd hslot (by
              have hnone : (leafSlots (radixPos index 0)).lookup (radixPos index) = none := hlookup
              cases hcontent : leafSlots (radixPos index 0) with
              | nil => simp
              | item value => rw [hcontent] at hnone; cases hnone)
          · obtain ⟨final, hdef, hnode, hholds, hframe⟩ := hfinal value
            refine ⟨final, hdef, ?_, ?_, ?_⟩
            · rw [hframe addr haddr.1 haddr.2, hheap, Function.update_self, hnil,
                insertAt_nil_cons index hrest, nodeOf_fill hnil rfl]
              rfl
            · rw [hnil, insertAt_nil_cons index hrest]
              exact Holds.single hnode hholds
            · intro other hne hnot
              rw [List.mem_cons, not_or] at hnot
              rw [hframe other hnot.1 hnot.2, hheap, Function.update_of_ne hne]

/-! ### Deletion -/

/-- `radix_tree_delete` finds what `radix_tree_lookup` finds. -/
theorem deleteWalk_fst (heap : RadixHeap V) (index : BitVec 64) (height : ℕ)
    (node : Option ℕ) (stack : List ℕ) :
    (deleteWalk heap index height node stack).map Prod.fst =
      lookupWalk heap index height node := by
  induction height generalizing node stack with
  | zero => cases node <;> rfl
  | succ height ih =>
      cases node with
      | none => rfl
      | some addr =>
          rw [deleteWalk, lookupWalk]
          cases heap addr with
          | none => rfl
          | some record =>
              rw [Option.bind_some, Option.bind_some]
              cases record.slots (radixPos index (height + 1)) with
              | null => rfl
              | node child => exact ih (some child) (addr :: stack)
              | item value => rfl

/-- So its walk ends at a missing node, or at a leaf node whose slot for the index holds
what the trie has. -/
theorem deleteWalk_eq {heap : RadixHeap V} (index : BitVec 64) {height addr : ℕ}
    {slots : Fin 64 → RadixTrie V height} (hholds : Holds heap (.node addr slots))
    (stack : List ℕ) :
    ∃ stop rest, deleteWalk heap index height (some addr) stack = some (stop, rest) ∧
      ((stop = none ∧ (Trie.node addr slots).lookup (radixPos index) = none) ∨
        ∃ leaf record, stop = some leaf ∧ heap leaf = some record ∧
          (record.slots (radixPos index 0)).toItem =
            some ((Trie.node addr slots).lookup (radixPos index))) := by
  have hfst := deleteWalk_fst heap index height (some addr) stack
  rcases lookupWalk_eq index hholds with ⟨hwalk, hnone⟩ | ⟨leaf, record, hwalk, hleaf⟩
  · rw [hwalk, Option.map_eq_some_iff] at hfst
    obtain ⟨⟨stop, rest⟩, hwalked, hstop⟩ := hfst
    exact ⟨stop, rest, hwalked, Or.inl ⟨hstop, hnone⟩⟩
  · rw [hwalk, Option.map_eq_some_iff] at hfst
    obtain ⟨⟨stop, rest⟩, hwalked, hstop⟩ := hfst
    exact ⟨stop, rest, hwalked, Or.inr ⟨leaf, record, hstop, hleaf⟩⟩

/-- What the unwinding loop goes on with after it has freed a node. -/
def unwindParent (index : BitVec 64) (stack : List ℕ) (height addr : ℕ)
    (root : RadixTreeRoot V) : Option (RadixTreeRoot V) :=
  if root.rnode = some addr then some { heap := root.heap, rnode := none, height := 0 }
  else
    match stack with
    | [] => none
    | parent :: rest => deleteUnwind index rest (height + 1) parent root

/-- **One round of the unwinding loop**: the node's slot for the index is cleared, and
the node is freed if that leaves it empty. -/
theorem deleteUnwind_round {index : BitVec 64} {stack : List ℕ} {height addr : ℕ}
    {root : RadixTreeRoot V} {slots : Fin 64 → RadixTrie V height}
    (hrecord : root.heap addr = some (nodeOf slots))
    (hslot : (slots (radixPos index height)).isNil = false) :
    deleteUnwind index stack height addr root =
      if ∀ i, (Function.update slots (radixPos index height) .nil i).isNil = true then
        unwindParent index stack height addr
          { root with heap := Function.update root.heap addr none }
      else some { root with
        heap := Function.update root.heap addr
          (some (nodeOf (Function.update slots (radixPos index height) .nil))) } := by
  have hround : unwindRound index height addr root =
      if ∀ i, (Function.update slots (radixPos index height) .nil i).isNil = true then
        some (if root.rnode = some addr then
          ({ heap := Function.update root.heap addr none, rnode := none, height := 0 }, false)
          else ({ root with heap := Function.update root.heap addr none }, true))
      else some ({ root with
        heap := Function.update root.heap addr
          (some (nodeOf (Function.update slots (radixPos index height) .nil))) }, false) := by
    unfold unwindRound
    rw [hrecord, Option.bind_some, ← nodeOf_clear hslot]
    simp only []
    by_cases hall : ∀ i, (Function.update slots (radixPos index height) .nil i).isNil = true
    · have hcount : ¬ (nodeOf (Function.update slots (radixPos index height)
          (.nil : RadixTrie V height))).count > 0 := by
        rw [count_nodeOf_eq_zero.mpr hall]
        omega
      rw [if_neg hcount, if_pos hall, free, if_pos (by simp), Option.map_some,
        Function.update_idem]
    · have hcount : (nodeOf (Function.update slots (radixPos index height)
          (.nil : RadixTrie V height))).count > 0 := by
        rw [not_forall] at hall
        obtain ⟨i, hi⟩ := hall
        exact count_nodeOf_pos.mpr ⟨i, by simpa using hi⟩
      rw [if_pos hcount, if_neg hall]
  unfold unwindParent
  by_cases hall : ∀ i, (Function.update slots (radixPos index height) .nil i).isNil = true
  · rw [if_pos hall] at hround ⊢
    by_cases hrnode : root.rnode = some addr
    · cases stack <;> simp [deleteUnwind, hround, hrnode]
    · cases stack <;> simp [deleteUnwind, hround, hrnode]
  · rw [if_neg hall] at hround ⊢
    cases stack <;> simp [deleteUnwind, hround]

/-- The change a round makes to the node's trie, after the change below it. -/
theorem Mutates.deleteAt_node {before after : RadixHeap V} {index : BitVec 64}
    {height addr : ℕ} {slots : Fin 64 → RadixTrie V height}
    (hchild : Mutates before after (slots (radixPos index height))
      (.nil : RadixTrie V height))
    (hdelete : (slots (radixPos index height)).deleteAt (radixPos index) = .nil)
    (hholds : Holds before (.node addr slots)) (hsep : (Trie.node addr slots).Separated) :
    Mutates before
      (Function.update after addr
        (if ∀ i, (Function.update slots (radixPos index height) .nil i).isNil = true then none
          else some (nodeOf (Function.update slots (radixPos index height) .nil))))
      (Trie.node addr slots) ((Trie.node addr slots).deleteAt (radixPos index)) := by
  rw [Trie.deleteAt_node, hdelete]
  split
  · rename_i hall
    refine hchild.remove hsep fun j hj => ?_
    have hnil := hall j
    rwa [Function.update_of_ne hj] at hnil
  · exact hchild.lift hholds hsep

/-- An item goes away with the slot that holds it. -/
theorem Mutates.item_nil (heap : RadixHeap V) (value : V) :
    Mutates heap heap (.item value : RadixTrie V 0) (.nil : RadixTrie V 0) where
  holds := trivial
  separated := trivial
  frame := fun _ _ _ => rfl
  freed := fun _ hmem _ => absurd hmem (Set.notMem_empty _)
  fresh := fun _ hmem _ => absurd hmem (Set.notMem_empty _)

/-- What is left of a node keeps its address. -/
theorem slotOf_deleteAt {index : BitVec 64} {n : ℕ} {trie : RadixTrie V (n + 1)}
    (hkept : (trie.deleteAt (radixPos index)).isNil = false) :
    slotOf (trie.deleteAt (radixPos index)) = slotOf trie := by
  cases trie with
  | nil => cases hkept
  | node addr slots =>
      rw [Trie.deleteAt_node] at hkept ⊢
      split at hkept
      · cases hkept
      · rename_i hrest
        rw [if_neg hrest]
        rfl

/-- A node above a subtrie of which something is left stays as it is. -/
theorem Mutates.deleteAt_kept {before after : RadixHeap V} {index : BitVec 64}
    {height addr : ℕ} {slots : Fin 64 → RadixTrie V (height + 1)}
    (hchild : Mutates before after (slots (radixPos index (height + 1)))
      ((slots (radixPos index (height + 1))).deleteAt (radixPos index)))
    (hslot : (slots (radixPos index (height + 1))).isNil = false)
    (hkept : ((slots (radixPos index (height + 1))).deleteAt (radixPos index)).isNil = false)
    (hholds : Holds before (.node addr slots)) (hsep : (Trie.node addr slots).Separated) :
    ((Trie.node addr slots).deleteAt (radixPos index)).isNil = false ∧
      Mutates before after (Trie.node addr slots)
        ((Trie.node addr slots).deleteAt (radixPos index)) := by
  have hnode : (Trie.node addr slots).deleteAt (radixPos index) =
      Trie.node addr (Function.update slots (radixPos index (height + 1))
        ((slots (radixPos index (height + 1))).deleteAt (radixPos index))) := by
    rw [Trie.deleteAt_node, if_neg]
    intro hall
    have hnil := hall (radixPos index (height + 1))
    rw [Function.update_self, hkept] at hnil
    cases hnil
  rw [hnode]
  exact ⟨rfl, hchild.lift_same hholds hsep hslot hkept (slotOf_deleteAt hkept)⟩

/-- **The unwinding loop computes `deleteAt`.**  It starts at the leaf, with the nodes
above it on the stack; when it has dealt with the nodes of a subtrie, that subtrie has
been replaced by what `deleteAt` leaves of it, and the loop goes on above it exactly if
that is nothing. -/
theorem deleteUnwind_eq {index : BitVec 64} {stack : List ℕ} {height addr : ℕ}
    {root : RadixTreeRoot V} {slots : Fin 64 → RadixTrie V height} {value : V}
    (hholds : Holds root.heap (.node addr slots))
    (hsep : (Trie.node addr slots).Separated)
    (hbelow : ∀ i, ∀ other ∈ (slots i).labels, root.rnode ≠ some other)
    (hlookup : (Trie.node addr slots).lookup (radixPos index) = some value) :
    ∃ leaf rest after,
      deleteWalk root.heap index height (some addr) stack = some (some leaf, rest) ∧
      Mutates root.heap after (Trie.node addr slots)
        ((Trie.node addr slots).deleteAt (radixPos index)) ∧
      deleteUnwind index rest 0 leaf root =
        if ((Trie.node addr slots).deleteAt (radixPos index)).isNil = true then
          unwindParent index stack height addr { root with heap := after }
        else some { root with heap := after } := by
  induction height generalizing addr stack with
  | zero =>
      have hitem : slots (radixPos index 0) = .item value := by
        rw [Trie.lookup_node] at hlookup
        cases hcontent : slots (radixPos index 0) with
        | nil => rw [hcontent] at hlookup; cases hlookup
        | item other => rw [hcontent] at hlookup; cases hlookup; rfl
      have hdelete : (slots (radixPos index 0)).deleteAt (radixPos index) = .nil := by
        rw [hitem]
        rfl
      have hchild : Mutates root.heap root.heap (slots (radixPos index 0))
          (.nil : RadixTrie V 0) := by
        rw [hitem]
        exact Mutates.item_nil root.heap value
      have hslot : (slots (radixPos index 0)).isNil = false := by rw [hitem]; rfl
      refine ⟨addr, stack, _, rfl, hchild.deleteAt_node hdelete hholds hsep, ?_⟩
      rw [deleteUnwind_round hholds.1 hslot, Trie.deleteAt_node, hdelete]
      split
      · rfl
      · rfl
  | succ height ih =>
      rcases slot_cases (slots (radixPos index (height + 1))) with hnil | ⟨child, sub, hsub⟩
      · rw [Trie.lookup_node, hnil] at hlookup
        cases hlookup
      have hchildHolds : Holds root.heap (.node child sub) := hsub ▸ hholds.2 _
      have hchildSep : (Trie.node child sub).Separated := hsub ▸ hsep.2.2 _
      have hmem : ∀ other ∈ (Trie.node child sub).labels, root.rnode ≠ some other := by
        intro other hin
        rw [← hsub] at hin
        exact hbelow _ other hin
      obtain ⟨leaf, rest, after, hwalk, hmutates, hunwind⟩ := ih hchildHolds hchildSep
        (fun i other hin => hmem other (Or.inr ⟨i, hin⟩))
        (by rw [Trie.lookup_node, hsub] at hlookup; exact hlookup)
      have hslot : (slots (radixPos index (height + 1))).isNil = false := by rw [hsub]; rfl
      have hstart : deleteWalk root.heap index (height + 1) (some addr) stack =
          some (some leaf, rest) := by
        rw [deleteWalk_node hholds.1 (nodeOf_slots_node hsub), hwalk]
      rw [← hsub] at hmutates
      cases hdelete : (slots (radixPos index (height + 1))).deleteAt (radixPos index) with
      | nil =>
          -- the child has been freed: the loop goes on at this node
          rw [hdelete] at hmutates
          rw [← hsub, hdelete, if_pos Trie.isNil_nil, unwindParent,
            if_neg (hmem child (Or.inl rfl))] at hunwind
          have hrecord : after addr = some (nodeOf slots) := by
            rw [← hholds.1]
            exact hmutates.frame addr (hsep.1 _) (Set.notMem_empty _)
          refine ⟨leaf, rest, _, hstart, hmutates.deleteAt_node hdelete hholds hsep, ?_⟩
          have hround : deleteUnwind index stack (height + 1) addr { root with heap := after } =
              _ := deleteUnwind_round hrecord hslot
          rw [hunwind, hround, Trie.deleteAt_node, hdelete]
          split
          · rfl
          · rfl
      | node left leftSlots =>
          -- the child is still there: the loop has ended below this node
          have hkept : ((slots (radixPos index (height + 1))).deleteAt
              (radixPos index)).isNil = false := by rw [hdelete]; rfl
          obtain ⟨hnode, hmutated⟩ := hmutates.deleteAt_kept hslot hkept hholds hsep
          rw [← hsub, hkept] at hunwind
          refine ⟨leaf, rest, after, hstart, hmutated, ?_⟩
          rw [hunwind, hnode]
          rfl

end Webcamd.Kernel
