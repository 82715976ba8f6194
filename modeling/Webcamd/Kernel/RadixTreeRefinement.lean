import Webcamd.Kernel.RadixTreeShape

/-!
# The radix tree refines a map

Every operation of the radix tree, on every state that calls can lead to and whatever
`malloc` answers, has a result, and the result is that of an operation on a map from
indices to items (`radixTree_refines_map`).  The state is described by a trie that its
heap holds (`TreeOk`); the operations' lemmas say which trie that is afterwards.

What an error exit leaves behind is the delicate part.  An expansion that runs out of
memory leaves a higher tree with the same contents; so does one that is followed by a
failed allocation of the missing levels, unless the tree was empty, and then the root
node that was allocated for it is freed again.  In between, the tree may have a root
node without children, which is the only moment when a node is empty: `Ready`.

Indices are below `2 ^ 60`, that is, heights do not exceed ten.
-/

namespace Webcamd.Kernel

open Webcamd.Library

variable {V : Type}

/-! ### Indices and their digits -/

theorem radixMax_eq {height : ℕ} (hheight : height ≤ 10) :
    ∃ max, radixMax height = some max ∧ max.toNat = 64 ^ height - 1 := by
  interval_cases height <;> exact ⟨_, rfl, rfl⟩

/-- The range check of the code. -/
theorem radixMax_lt_iff {height : ℕ} {max index : BitVec 64} (hheight : height ≤ 10)
    (hmax : radixMax height = some max) : max < index ↔ 64 ^ height ≤ index.toNat := by
  obtain ⟨max', hmax', hvalue⟩ := radixMax_eq hheight
  obtain rfl : max' = max := Option.some.inj (hmax'.symm.trans hmax)
  rw [BitVec.lt_def, hvalue]
  have hpos : 0 < 64 ^ height := Nat.pos_of_ne_zero (by positivity)
  omega

theorem radixPos_val {index : BitVec 64} (hindex : index.toNat < 2 ^ 60) (height : ℕ) :
    (radixPos index height).val = index.toNat / 64 ^ height % 64 := by
  have hmsb : index.msb = false := by
    rw [BitVec.msb_eq_false_iff_two_mul_lt]
    omega
  have hshift : index.sshiftRight (radixTreeMapShift * height) =
      index >>> (radixTreeMapShift * height) := BitVec.sshiftRight_eq_of_msb_false hmsb
  have hmask : ∀ x : ℕ, x &&& 63 = x % 64 := fun x => Nat.and_two_pow_sub_one_eq_mod x 6
  show (index.sshiftRight (radixTreeMapShift * height) &&& 63#64).toNat % 64 = _
  rw [hshift, BitVec.toNat_and, BitVec.toNat_ushiftRight, Nat.shiftRight_eq_div_pow]
  show (index.toNat / 2 ^ (6 * height) &&& 63) % 64 = _
  rw [hmask, Nat.mod_mod, Nat.pow_mul]

/-- Numbers of `n` digits with the same digits are equal. -/
theorem eq_of_digits {n a b : ℕ} (ha : a < 64 ^ n) (hb : b < 64 ^ n)
    (hdigits : ∀ k < n, a / 64 ^ k % 64 = b / 64 ^ k % 64) : a = b := by
  induction n generalizing a b with
  | zero =>
      rw [pow_zero] at ha hb
      omega
  | succ n ih =>
      have hlow : a % 64 = b % 64 := by simpa using hdigits 0 (Nat.succ_pos n)
      have hhigh : a / 64 = b / 64 := by
        rw [pow_succ] at ha hb
        refine ih (Nat.div_lt_of_lt_mul (by omega)) (Nat.div_lt_of_lt_mul (by omega)) ?_
        intro k hk
        have hdigit := hdigits (k + 1) (Nat.succ_lt_succ hk)
        rwa [pow_succ', ← Nat.div_div_eq_div_mul, ← Nat.div_div_eq_div_mul] at hdigit
      omega

/-- Indices in range with the same positions are equal. -/
theorem index_eq_of_pos {n : ℕ} {index other : BitVec 64} (hindex : index.toNat < 2 ^ 60)
    (hother : other.toNat < 2 ^ 60) (hn : index.toNat < 64 ^ n) (hn' : other.toNat < 64 ^ n)
    (hpos : ∀ k < n, radixPos other k = radixPos index k) : other = index := by
  refine BitVec.eq_of_toNat_eq (eq_of_digits hn' hn fun k hk => ?_)
  rw [← radixPos_val hother, ← radixPos_val hindex, hpos k hk]

/-- Different indices in range differ in a position. -/
theorem exists_pos_ne {n : ℕ} {index other : BitVec 64} (hindex : index.toNat < 2 ^ 60)
    (hother : other.toNat < 2 ^ 60) (hn : index.toNat < 64 ^ n) (hn' : other.toNat < 64 ^ n)
    (hne : other ≠ index) : ∃ k < n, radixPos other k ≠ radixPos index k := by
  by_contra hsame
  refine hne (index_eq_of_pos hindex hother hn hn' fun k hk => ?_)
  by_contra hdigit
  exact hsame ⟨k, hk, hdigit⟩

/-! ### What a tree contains -/

/-- What a trie of this height has under an index. -/
def contents {n : ℕ} (trie : RadixTrie V n) (index : BitVec 64) : Option V :=
  if index.toNat < 64 ^ n then trie.lookup (radixPos index) else none

theorem contents_nil {n : ℕ} (index : BitVec 64) :
    contents (.nil : RadixTrie V n) index = none := by
  simp [contents]

theorem contents_empty {n addr : ℕ} (index : BitVec 64) :
    contents (.node addr fun _ => (.nil : RadixTrie V n)) index = none := by
  simp [contents]

/-- A new root node above the old one does not change what there is. -/
theorem contents_grow {n fresh : ℕ} (trie : RadixTrie V n) {index : BitVec 64}
    (hindex : index.toNat < 2 ^ 60) :
    contents (.node fresh (Function.update (fun _ => .nil) 0 trie)) index =
      contents trie index := by
  have hmono : 64 ^ n ≤ 64 ^ (n + 1) := Nat.pow_le_pow_right (by omega) (Nat.le_succ n)
  have hval := radixPos_val hindex n
  unfold contents
  by_cases hlow : index.toNat < 64 ^ n
  · have hzero : radixPos index n = 0 := by
      apply Fin.ext
      rw [hval, Nat.div_eq_of_lt hlow]
      rfl
    rw [if_pos hlow, if_pos (lt_of_lt_of_le hlow hmono), Trie.lookup_node, hzero,
      Function.update_self]
  · rw [if_neg hlow]
    by_cases hhigh : index.toNat < 64 ^ (n + 1)
    · have hpos : radixPos index n ≠ 0 := by
        intro hzero
        have hdiv : index.toNat / 64 ^ n < 64 := by
          rw [pow_succ] at hhigh
          exact Nat.div_lt_of_lt_mul hhigh
        have hone : 0 < index.toNat / 64 ^ n := Nat.div_pos (by omega) (by positivity)
        rw [hzero, Nat.mod_eq_of_lt hdiv] at hval
        exact absurd hval (by simp; omega)
      rw [if_pos hhigh, Trie.lookup_node, Function.update_of_ne hpos, Trie.lookup_nil]
    · rw [if_neg hhigh]

theorem contents_insertAt {n : ℕ} (trie : RadixTrie V n) (fresh : ℕ → ℕ) (value : V)
    {index other : BitVec 64} (hindex : index.toNat < 2 ^ 60) (hother : other.toNat < 2 ^ 60)
    (hn : index.toNat < 64 ^ n) :
    contents (trie.insertAt (radixPos index) fresh value) other =
      if other = index then some value else contents trie other := by
  unfold contents
  by_cases heq : other = index
  · subst heq
    rw [if_pos hn, if_pos rfl, Trie.lookup_insertAt_self]
  · rw [if_neg heq]
    by_cases hn' : other.toNat < 64 ^ n
    · rw [if_pos hn', if_pos hn', Trie.lookup_insertAt_of_ne fresh value trie
        (exists_pos_ne hindex hother hn hn' heq)]
    · rw [if_neg hn', if_neg hn']

theorem contents_deleteAt {n : ℕ} (trie : RadixTrie V n)
    {index other : BitVec 64} (hindex : index.toNat < 2 ^ 60) (hother : other.toNat < 2 ^ 60)
    (hn : index.toNat < 64 ^ n) :
    contents (trie.deleteAt (radixPos index)) other =
      if other = index then none else contents trie other := by
  unfold contents
  rw [Trie.lookup_deleteAt]
  by_cases heq : other = index
  · subst heq
    simp
  · rw [if_neg heq]
    by_cases hn' : other.toNat < 64 ^ n
    · have hdiffer : ¬ ∀ k < n, radixPos other k = radixPos index k := fun hsame =>
        heq (index_eq_of_pos hindex hother hn hn' hsame)
      rw [if_pos hn', if_pos hn', if_neg hdiffer]
    · rw [if_neg hn', if_neg hn']

/-! ### Trees -/

/-- The root and its heap are those of a trie. -/
structure TreeOk (root : RadixTreeRoot V) {n : ℕ} (trie : RadixTrie V n) : Prop where
  height : root.height = n
  bound : n ≤ 10
  pointer : slotOf trie = Slot.ofPointer root.rnode
  empty : trie = .nil → n = 0
  holds : Holds root.heap trie
  separated : trie.Separated
  /-- Nothing else is allocated. -/
  exact : ∀ addr, root.heap addr ≠ none → addr ∈ trie.labels

/-- The tree holds exactly the map, on the indices in range. -/
def RadixRep (root : RadixTreeRoot V) (map : BitVec 64 → Option V) : Prop :=
  ∃ (n : ℕ) (trie : RadixTrie V n), TreeOk root trie ∧ trie.Full ∧
    ∀ index, index.toNat < 2 ^ 60 → contents trie index = map index

namespace TreeOk

variable {root : RadixTreeRoot V} {n : ℕ}

theorem init : TreeOk (RadixTreeRoot.init : RadixTreeRoot V) (.nil : RadixTrie V 0) :=
  ⟨rfl, by omega, rfl, fun _ => rfl, trivial, trivial, fun _ hne => absurd rfl hne⟩

theorem rnode_node {addr : ℕ} {slots : Fin 64 → RadixTrie V n}
    (h : TreeOk root (Trie.node addr slots)) : root.rnode = some addr := by
  have hpointer := h.pointer
  cases hrnode : root.rnode with
  | none => rw [hrnode] at hpointer; cases hpointer
  | some other => rw [hrnode] at hpointer; cases hpointer; rfl

theorem rnode_nil (h : TreeOk root (.nil : RadixTrie V n)) : root.rnode = none := by
  have hpointer := h.pointer
  cases hrnode : root.rnode with
  | none => rfl
  | some addr => rw [hrnode] at hpointer; cases hpointer

/-- A root pointer does not point to an item. -/
theorem not_item {value : V} (h : TreeOk root (.item value : RadixTrie V 0)) : False := by
  have hpointer := h.pointer
  cases hrnode : root.rnode <;> rw [hrnode] at hpointer <;> cases hpointer

/-- A change of the heap that changes the trie leaves nothing else allocated. -/
theorem exact_of_mutates {trie : RadixTrie V n} (h : TreeOk root trie) {m : ℕ}
    {new : RadixTrie V m} {after : RadixHeap V} (hmutates : Mutates root.heap after trie new)
    (addr : ℕ) (hne : after addr ≠ none) : addr ∈ new.labels := by
  by_contra hnew
  by_cases hold : addr ∈ trie.labels
  · exact hne (hmutates.freed addr hold hnew)
  · rw [hmutates.frame addr hold hnew] at hne
    exact hold (h.exact addr hne)

/-- A change of the heap below the root node. -/
theorem mutate {addr : ℕ} {slots slots' : Fin 64 → RadixTrie V n}
    (h : TreeOk root (Trie.node addr slots)) {after : RadixHeap V}
    (hmutates : Mutates root.heap after (Trie.node addr slots) (Trie.node addr slots')) :
    TreeOk { root with heap := after } (Trie.node addr slots') :=
  ⟨h.height, h.bound, h.pointer, (fun hnil => nomatch hnil), hmutates.holds,
    hmutates.separated, h.exact_of_mutates hmutates⟩

/-- The tree that is left when the root node goes away. -/
theorem cleared {trie : RadixTrie V n} (h : TreeOk root trie) {m : ℕ} {after : RadixHeap V}
    (hmutates : Mutates root.heap after trie (.nil : RadixTrie V m)) :
    TreeOk { heap := after, rnode := none, height := 0 } (.nil : RadixTrie V 0) := by
  refine ⟨rfl, by omega, rfl, fun _ => rfl, trivial, trivial, fun addr hne => ?_⟩
  exact absurd (h.exact_of_mutates hmutates addr hne) (Set.notMem_empty _)

/-! ### Lookup and deletion -/

/-- **`radix_tree_lookup` returns what the tree contains.** -/
theorem lookup_eq {trie : RadixTrie V n} (h : TreeOk root trie) (index : BitVec 64) :
    radixTreeLookup root index = some (contents trie index) := by
  obtain ⟨max, hmax, -⟩ := radixMax_eq h.bound
  have hrange := @radixMax_lt_iff n max index h.bound hmax
  unfold radixTreeLookup contents
  rw [h.height, hmax, Option.bind_some]
  by_cases hout : 64 ^ n ≤ index.toNat
  · rw [if_pos (hrange.mpr hout), if_neg (by omega)]
  · rw [if_neg (mt hrange.mp hout), if_pos (by omega)]
    cases trie with
    | nil =>
        have hzero := h.empty rfl
        subst hzero
        rw [h.rnode_nil]
        rfl
    | item value => exact h.not_item.elim
    | @node m addr slots =>
        rw [h.rnode_node]
        rcases lookupWalk_eq index h.holds with
          ⟨hwalk, hnone⟩ | ⟨leaf, record, hwalk, hrecord, hitem⟩
        · rw [hnone]
          simp [hwalk]
        · simp [hwalk, hrecord, hitem]

/-- **`radix_tree_delete` does nothing when there is nothing under the index.** -/
theorem delete_none {trie : RadixTrie V n} (h : TreeOk root trie) {index : BitVec 64}
    (hnone : contents trie index = none) : radixTreeDelete root index = some (none, root) := by
  obtain ⟨max, hmax, -⟩ := radixMax_eq h.bound
  have hrange := @radixMax_lt_iff n max index h.bound hmax
  unfold radixTreeDelete
  rw [h.height, hmax, Option.bind_some]
  by_cases hout : 64 ^ n ≤ index.toNat
  · rw [if_pos (hrange.mpr hout)]
  · rw [if_neg (mt hrange.mp hout)]
    rw [contents, if_pos (by omega)] at hnone
    cases trie with
    | nil =>
        have hzero := h.empty rfl
        subst hzero
        rw [h.rnode_nil]
    | item value => exact h.not_item.elim
    | @node m addr slots =>
        rw [h.rnode_node]
        obtain ⟨stop, rest, hwalked, ⟨rfl, -⟩ | ⟨leaf, record, rfl, hrecord, hitem⟩⟩ :=
          deleteWalk_eq index h.holds []
        · simp [hwalked]
        · rw [hnone] at hitem
          simp [hwalked, hrecord, hitem]

/-- **`radix_tree_delete` of an item**: it is returned, and the tree is unwound from its
leaf up to the last node that other items need. -/
theorem delete_some {addr : ℕ} {slots : Fin 64 → RadixTrie V n}
    (h : TreeOk root (.node addr slots)) (hfull : (Trie.node addr slots).Full)
    {index : BitVec 64} (hindex : index.toNat < 2 ^ 60) (hn : index.toNat < 64 ^ (n + 1))
    {value : V} (hlookup : (Trie.node addr slots).lookup (radixPos index) = some value) :
    ∃ root', radixTreeDelete root index = some (some value, root') ∧
      RadixRep root' (Function.update (contents (.node addr slots)) index none) := by
  obtain ⟨max, hmax, -⟩ := radixMax_eq h.bound
  have hrange := @radixMax_lt_iff (n + 1) max index h.bound hmax
  have hbelow : ∀ i, ∀ other ∈ (slots i).labels, root.rnode ≠ some other := by
    intro i other hmem heq
    rw [h.rnode_node] at heq
    obtain rfl := Option.some.inj heq
    exact h.separated.1 i hmem
  obtain ⟨leaf, rest, after, hwalked, hmutates, hunwind⟩ :=
    @deleteUnwind_eq V index [] n addr root slots value h.holds h.separated hbelow hlookup
  have hleaf : ∃ record, root.heap leaf = some record ∧
      (record.slots (radixPos index 0)).toItem = some (some value) := by
    obtain ⟨stop, rest', hwalked', ⟨rfl, -⟩ | ⟨leaf', record, rfl, hrecord, hitem⟩⟩ :=
      deleteWalk_eq index h.holds []
    · rw [hwalked] at hwalked'
      cases hwalked'
    · rw [hwalked] at hwalked'
      cases hwalked'
      exact ⟨record, hrecord, by rw [hitem, hlookup]⟩
  obtain ⟨record, hrecord, hitem⟩ := hleaf
  have hcode : radixTreeDelete root index =
      (deleteUnwind index rest 0 leaf root).map fun root' => (some value, root') := by
    unfold radixTreeDelete
    rw [h.height, hmax, Option.bind_some, if_neg (mt hrange.mp (by omega)), h.rnode_node]
    simp [hwalked, hrecord, hitem]
  have hrep : ∀ other : BitVec 64, other.toNat < 2 ^ 60 →
      contents ((Trie.node addr slots).deleteAt (radixPos index)) other =
        Function.update (contents (Trie.node addr slots)) index none other := by
    intro other hother
    rw [contents_deleteAt _ hindex hother hn, Function.update_apply]
  have hfull' : ((Trie.node addr slots).deleteAt (radixPos index)).Full :=
    Trie.full_deleteAt hfull
  cases hdelete : (Trie.node addr slots).deleteAt (radixPos index) with
  | nil =>
      -- the tree is empty now
      rw [hdelete] at hmutates hrep hunwind
      rw [if_pos Trie.isNil_nil, unwindParent, if_pos h.rnode_node] at hunwind
      refine ⟨{ heap := after, rnode := none, height := 0 }, ?_, 0, .nil,
        h.cleared hmutates, trivial, fun other hother => ?_⟩
      · rw [hcode, hunwind]
        rfl
      · rw [← hrep other hother, contents_nil, contents_nil]
  | node left leftSlots =>
      have hpointer : slotOf (.node left leftSlots : RadixTrie V (n + 1)) = .node addr := by
        rw [← hdelete]
        exact slotOf_deleteAt (by rw [hdelete]; rfl)
      obtain rfl : left = addr := by simpa using hpointer
      rw [hdelete] at hmutates hrep hunwind hfull'
      rw [if_neg (by simp)] at hunwind
      refine ⟨{ root with heap := after }, ?_, n + 1, .node left leftSlots,
        h.mutate hmutates, hfull', hrep⟩
      rw [hcode, hunwind]
      rfl

/-- **`radix_tree_delete` removes the index, and returns what it had.** -/
theorem delete_eq {trie : RadixTrie V n} (h : TreeOk root trie) (hfull : trie.Full)
    {index : BitVec 64} (hindex : index.toNat < 2 ^ 60) :
    ∃ root', radixTreeDelete root index = some (contents trie index, root') ∧
      RadixRep root' (Function.update (contents trie) index none) := by
  cases hcontents : contents trie index with
  | none =>
      refine ⟨root, h.delete_none hcontents, n, trie, h, hfull, fun other _ => ?_⟩
      rw [Function.update_eq_self_iff.mpr hcontents.symm]
  | some value =>
      rw [contents] at hcontents
      split at hcontents
      · rename_i hn
        cases trie with
        | nil => cases hcontents
        | item other => exact h.not_item.elim
        | @node m addr slots => exact h.delete_some hfull hindex hn hcontents
      · cases hcontents

end TreeOk

/-! ### Expansion -/

/-- A root node as the phases of an insertion find it: no node is empty, except that
the root node may have just been allocated. -/
def Ready {n : ℕ} (slots : Fin 64 → RadixTrie V n) : Prop :=
  ((∃ i, (slots i).isNil = false) ∧ ∀ i, (slots i).Full) ∨ ∀ i, (slots i).isNil = true

theorem Ready.full {n addr : ℕ} {slots : Fin 64 → RadixTrie V n} (h : Ready slots)
    (hused : ∃ i, (slots i).isNil = false) : (Trie.node addr slots).Full := by
  rcases h with hfull | hempty
  · exact hfull
  · obtain ⟨i, hi⟩ := hused
    rw [hempty i] at hi
    cases hi

theorem eq_nil_of_isNil {n : ℕ} {slots : Fin 64 → RadixTrie V n}
    (hempty : ∀ i, (slots i).isNil = true) : slots = fun _ => .nil := by
  funext i
  exact (Trie.isNil_iff _).mp (hempty i)

/-- An insertion leaves no node empty. -/
theorem Ready.full_insertAt {n addr : ℕ} {slots : Fin 64 → RadixTrie V n} (h : Ready slots)
    (key : ℕ → Fin 64) (fresh : ℕ → ℕ) (value : V) :
    ((Trie.node addr slots).insertAt key fresh value).Full := by
  rcases h with hfull | hnone
  · exact Trie.Full.insertAt _ _ hfull
  · obtain rfl := eq_nil_of_isNil hnone
    refine Trie.full_insertAt_node _ _ (fun _ => trivial) ?_
    exact Trie.Full.insertAt _ _ trivial

/-- The new root node above an old one. -/
theorem TreeOk.grow {root : RadixTreeRoot V} {n fresh : ℕ} {trie : RadixTrie V n}
    (h : TreeOk root trie) (hused : trie.isNil = false) (hn : n < 10)
    (hfree : root.heap fresh = none) :
    TreeOk
      { heap := Function.update root.heap fresh (some
          ⟨Function.update zeroedNode.slots 0 (Slot.ofPointer root.rnode), 1⟩)
        rnode := some fresh
        height := root.height + 1 }
      (Trie.node fresh (Function.update (fun _ => .nil) 0 trie)) := by
  have hfresh : fresh ∉ trie.labels := fun hmem => h.holds.allocated hmem hfree
  have hslot : ∀ i : Fin 64, i ≠ 0 →
      Function.update (fun _ => (.nil : RadixTrie V n)) 0 trie i = .nil :=
    fun i hi => Function.update_of_ne hi _ _
  have hrecord : (⟨Function.update zeroedNode.slots 0 (Slot.ofPointer root.rnode), 1⟩ :
      RadixTreeNode V) = nodeOf (Function.update (fun _ => .nil) 0 trie) := by
    rw [nodeOf_fill rfl hused, nodeOf_nil, ← h.pointer]
    rfl
  refine ⟨by rw [h.height], by omega, rfl, (fun hnil => nomatch hnil), ⟨?_, fun i => ?_⟩,
    ⟨fun i => ?_, fun i j other hi hj => ?_, fun i => ?_⟩, fun addr hne => ?_⟩
  · rw [← hrecord]
    exact Function.update_self _ _ _
  · by_cases hi : i = 0
    · rw [hi, Function.update_self]
      refine h.holds.congr fun addr hmem => ?_
      have hne : addr ≠ fresh := fun heq => hfresh (heq ▸ hmem)
      show Function.update root.heap fresh _ addr = _
      rw [Function.update_of_ne hne]
    · rw [hslot i hi]
      trivial
  · by_cases hi : i = 0
    · rwa [hi, Function.update_self]
    · rw [hslot i hi]
      exact Set.notMem_empty _
  · by_cases hi' : i = 0
    · by_cases hj' : j = 0
      · rw [hi', hj']
      · rw [hslot j hj'] at hj
        exact absurd hj (Set.notMem_empty _)
    · rw [hslot i hi'] at hi
      exact absurd hi (Set.notMem_empty _)
  · by_cases hi : i = 0
    · rw [hi, Function.update_self]
      exact h.separated
    · rw [hslot i hi]
      trivial
  · by_cases haddr : addr = fresh
    · exact Or.inl haddr
    · refine Or.inr ⟨0, ?_⟩
      rw [Function.update_self]
      refine h.exact addr ?_
      have hsame : Function.update root.heap fresh (some
          ⟨Function.update zeroedNode.slots 0 (Slot.ofPointer root.rnode), 1⟩) addr =
            root.heap addr := Function.update_of_ne haddr _ _
      rwa [← hsame]

/-- The root node of an empty tree, at height one. -/
theorem TreeOk.plant {root : RadixTreeRoot V} {fresh : ℕ}
    (h : TreeOk root (.nil : RadixTrie V 0)) :
    TreeOk
      { heap := Function.update root.heap fresh (some zeroedNode)
        rnode := some fresh
        height := root.height + 1 } (.node fresh fun _ => (.nil : RadixTrie V 0)) := by
  refine ⟨by rw [h.height], by omega, rfl, (fun hnil => nomatch hnil),
    ⟨?_, fun _ => trivial⟩, ?_, fun addr hne => ?_⟩
  · rw [nodeOf_nil]
    exact Function.update_self _ _ _
  · exact ⟨fun _ => Set.notMem_empty _, fun _ _ _ hi => absurd hi (Set.notMem_empty _),
      fun _ => trivial⟩
  · by_cases haddr : addr = fresh
    · exact Or.inl haddr
    · have hsame : Function.update root.heap fresh (some zeroedNode) addr =
          root.heap addr := Function.update_of_ne haddr _ _
      have hmem := h.exact addr (by rwa [← hsame])
      exact absurd hmem (Set.notMem_empty _)

/-- A root node without children serves any height. -/
theorem TreeOk.raise {root : RadixTreeRoot V} {n addr : ℕ}
    (h : TreeOk root (.node addr fun _ => (.nil : RadixTrie V n))) (hn : n + 1 < 10) :
    TreeOk { root with height := root.height + 1 }
      (.node addr fun _ => (.nil : RadixTrie V (n + 1))) := by
  refine ⟨by rw [h.height], by omega, h.pointer, (fun hnil => nomatch hnil),
    ⟨?_, fun _ => trivial⟩, ?_, fun other hne => ?_⟩
  · have hrecord := h.holds.1
    rw [nodeOf_nil] at hrecord ⊢
    exact hrecord
  · exact ⟨fun _ => Set.notMem_empty _, fun _ _ _ hi => absurd hi (Set.notMem_empty _),
      fun _ => trivial⟩
  · rcases Trie.mem_labels_node.mp (h.exact other hne) with heq | ⟨i, hi⟩
    · exact Or.inl heq
    · exact absurd hi (Set.notMem_empty _)

section Rounds

variable {index : BitVec 64} {fuel addr fresh : ℕ} {root : RadixTreeRoot V}
  {record : RadixTreeNode V} {answers rest : MallocAnswers}

/-- A round of the expansion that finds the tree high enough. -/
theorem expand_round_high (hbound : root.height ≤ 10) (hhigh : index.toNat < 64 ^ root.height) :
    expand index (fuel + 1) addr root answers = some (.expanded addr root answers) := by
  obtain ⟨max, hmax, -⟩ := radixMax_eq hbound
  have hnot : ¬ max < index := by
    rw [radixMax_lt_iff hbound hmax]
    omega
  rw [expand, hmax, Option.bind_some, if_neg hnot]

/-- A round that finds it too low, with the node at its root. -/
theorem expand_round_low (hbound : root.height ≤ 10) (hlow : 64 ^ root.height ≤ index.toNat)
    (hrecord : root.heap addr = some record) {expansion : Option (Expansion V)}
    (hround : (if record.count ≠ 0 then
        match malloc root.heap answers with
        | (none, _) => some (.failed .enomem root)
        | (some fresh, rest) =>
            expand index fuel fresh
              { heap := Function.update root.heap fresh (some
                  ⟨Function.update zeroedNode.slots 0 (Slot.ofPointer root.rnode), 1⟩)
                rnode := some fresh
                height := root.height + 1 } rest
      else expand index fuel addr { root with height := root.height + 1 } answers) = expansion) :
    expand index (fuel + 1) addr root answers = expansion := by
  obtain ⟨max, hmax, -⟩ := radixMax_eq hbound
  have hmaxHeight : root.height ≠ radixTreeMaxHeight := by
    show root.height ≠ 11
    omega
  rw [expand, hmax, Option.bind_some, if_pos ((radixMax_lt_iff hbound hmax).mpr hlow),
    if_neg hmaxHeight, hrecord, Option.bind_some]
  exact hround

/-- There is no memory for a new root node. -/
theorem expand_round_fail (hbound : root.height ≤ 10) (hlow : 64 ^ root.height ≤ index.toNat)
    (hrecord : root.heap addr = some record) (hcount : record.count ≠ 0)
    (hmalloc : malloc root.heap answers = (none, rest)) :
    expand index (fuel + 1) addr root answers = some (.failed .enomem root) := by
  apply expand_round_low hbound hlow hrecord
  rw [if_pos hcount, hmalloc]

/-- A new root node is put above the old one. -/
theorem expand_round_grow (hbound : root.height ≤ 10) (hlow : 64 ^ root.height ≤ index.toNat)
    (hrecord : root.heap addr = some record) (hcount : record.count ≠ 0)
    (hmalloc : malloc root.heap answers = (some fresh, rest)) :
    expand index (fuel + 1) addr root answers = expand index fuel fresh
      { heap := Function.update root.heap fresh (some
          ⟨Function.update zeroedNode.slots 0 (Slot.ofPointer root.rnode), 1⟩)
        rnode := some fresh
        height := root.height + 1 } rest := by
  apply expand_round_low hbound hlow hrecord
  rw [if_pos hcount, hmalloc]

/-- A root node without children serves one level higher. -/
theorem expand_round_raise (hbound : root.height ≤ 10) (hlow : 64 ^ root.height ≤ index.toNat)
    (hrecord : root.heap addr = some record) (hcount : record.count = 0) :
    expand index (fuel + 1) addr root answers =
      expand index fuel addr { root with height := root.height + 1 } answers := by
  apply expand_round_low hbound hlow hrecord
  rw [if_neg (not_not.mpr hcount)]

end Rounds

/-- **The expansion** ends with a root node high enough for the index, or runs out of
memory; in both cases the tree contains what it did. -/
theorem expand_eq {map : BitVec 64 → Option V} {index : BitVec 64}
    (hindex : index.toNat < 2 ^ 60) {fuel : ℕ} {root : RadixTreeRoot V} {n addr : ℕ}
    {slots : Fin 64 → RadixTrie V n} {answers : MallocAnswers}
    (hok : TreeOk root (Trie.node addr slots)) (hready : Ready slots)
    (hmap : ∀ other, other.toNat < 2 ^ 60 → contents (Trie.node addr slots) other = map other)
    (hfuel : 10 < fuel + (n + 1)) :
    (∃ root', expand index fuel addr root answers = some (.failed .enomem root') ∧
      RadixRep root' map) ∨
    ∃ (root' : RadixTreeRoot V) (m addr' : ℕ) (slots' : Fin 64 → RadixTrie V m)
      (answers' : MallocAnswers),
      expand index fuel addr root answers = some (.expanded addr' root' answers') ∧
      TreeOk root' (Trie.node addr' slots') ∧ Ready slots' ∧
      (∀ other, other.toNat < 2 ^ 60 → contents (Trie.node addr' slots') other = map other) ∧
      index.toNat < 64 ^ (m + 1) := by
  induction fuel generalizing root n addr answers with
  | zero =>
      have hbound := hok.bound
      omega
  | succ fuel ih =>
      have hbound : root.height ≤ 10 := by
        rw [hok.height]
        exact hok.bound
      by_cases hhigh : 64 ^ (n + 1) ≤ index.toNat
      · -- the tree is too low, so its height is not yet ten
        have hn : n + 1 < 10 := by
          by_contra hge
          have hpow : 64 ^ 10 ≤ 64 ^ (n + 1) := Nat.pow_le_pow_right (by omega) (by omega)
          have hvalue : (64 : ℕ) ^ 10 = 2 ^ 60 := by norm_num
          omega
        have hlow : 64 ^ root.height ≤ index.toNat := by
          rw [hok.height]
          exact hhigh
        by_cases hcount : (nodeOf slots).count ≠ 0
        · have hused := count_nodeOf_ne_zero.mp hcount
          obtain ⟨rest, hfail | ⟨fresh, hmalloc, hfree⟩⟩ := malloc_cases root.heap answers
          · rw [expand_round_fail hbound hlow hok.holds.1 hcount hfail]
            exact Or.inl ⟨root, rfl, n + 1, _, hok, hready.full hused, hmap⟩
          · rw [expand_round_grow hbound hlow hok.holds.1 hcount hmalloc]
            refine ih (hok.grow rfl hn hfree) (Or.inl ⟨⟨0, ?_⟩, fun i => ?_⟩)
              (fun other hother => ?_) (by omega)
            · rw [Function.update_self]
              rfl
            · by_cases hi : i = 0
              · rw [hi, Function.update_self]
                exact hready.full hused
              · rw [Function.update_of_ne hi]
                trivial
            · rw [contents_grow _ hother, hmap other hother]
        · rw [expand_round_raise hbound hlow hok.holds.1 (not_not.mp hcount)]
          obtain rfl := eq_nil_of_isNil (count_nodeOf_eq_zero.mp (not_not.mp hcount))
          refine ih (hok.raise hn) (Or.inr fun _ => rfl) (fun other hother => ?_) (by omega)
          rw [contents_empty, ← hmap other hother, contents_empty]
      · have hlow : index.toNat < 64 ^ root.height := by
          rw [hok.height]
          omega
        rw [expand_round_high hbound hlow]
        exact Or.inr ⟨root, n, addr, slots, answers, rfl, hok, hready, hmap, by omega⟩

/-! ### Reaching the leaf -/

/-- What the common part of insertion and storing promises when it ends at a leaf node:
the leaf's slot for the index holds what the map has there; if it holds something, the
tree still contains the map; and with a value put into that slot, it contains the map
with this value. -/
structure LeafReached (index : BitVec 64) (map : BitVec 64 → Option V) (leaf : ℕ)
    (root : RadixTreeRoot V) (leafSlots : Fin 64 → RadixTrie V 0) : Prop where
  record : root.heap leaf = some (nodeOf leafSlots)
  found : (leafSlots (radixPos index 0)).lookup (radixPos index) = map index
  used : (leafSlots (radixPos index 0)).isNil = false → RadixRep root map
  put : ∀ value : V, RadixRep
    { root with
      heap := Function.update root.heap leaf
        (some (nodeOf (Function.update leafSlots (radixPos index 0) (.item value)))) }
    (Function.update map index (some value))

/-- `radix_tree_clean_root_node` frees a root node without children, and only that. -/
theorem cleanRootNode_eq {root : RadixTreeRoot V} {n addr : ℕ}
    {slots : Fin 64 → RadixTrie V n} {map : BitVec 64 → Option V}
    (hok : TreeOk root (Trie.node addr slots)) (hready : Ready slots)
    (hmap : ∀ other, other.toNat < 2 ^ 60 → contents (Trie.node addr slots) other = map other) :
    ∃ root', radixTreeCleanRootNode root = some root' ∧ RadixRep root' map := by
  unfold radixTreeCleanRootNode
  rw [hok.rnode_node, Option.bind_some, hok.holds.1, Option.bind_some]
  by_cases hcount : (nodeOf slots).count = 0
  · obtain rfl := eq_nil_of_isNil (count_nodeOf_eq_zero.mp hcount)
    have hchild : Mutates root.heap root.heap (Trie.nil : RadixTrie V n)
        (Trie.nil : RadixTrie V n) :=
      ⟨trivial, trivial, fun _ _ _ => rfl, fun _ hmem _ => absurd hmem (Set.notMem_empty _),
        fun _ hmem _ => absurd hmem (Set.notMem_empty _)⟩
    have hmutates : Mutates root.heap (Function.update root.heap addr none)
        (Trie.node addr fun _ => (.nil : RadixTrie V n)) (.nil : RadixTrie V (n + 1)) :=
      Mutates.remove (i := 0) hchild hok.separated fun _ _ => rfl
    rw [if_pos hcount, free, if_pos (by simp [hok.holds.1]), Option.map_some]
    refine ⟨_, rfl, 0, .nil, hok.cleared hmutates, trivial, fun other hother => ?_⟩
    rw [← hmap other hother, contents_nil, contents_empty]
  · have hused := count_nodeOf_ne_zero.mp hcount
    rw [if_neg hcount]
    exact ⟨root, rfl, n + 1, _, hok, hready.full hused, hmap⟩

/-- A slot the new levels are set up below held nothing but an item, and holds a path of
the new nodes afterwards. -/
theorem setup_path {index : BitVec 64} {stop : ℕ} {slot : RadixTrie V stop}
    {temp : List ℕ} (hempty : stop ≠ 0 → slot = .nil) (hlength : temp.length = stop)
    (hnodup : temp.Nodup) (value : V) :
    (∀ addr, addr ∉ slot.labels) ∧
      (∀ addr, addr ∈ (slot.insertAt (radixPos index) (levelLabel temp) value).labels ↔
        addr ∈ temp) ∧
      (slot.insertAt (radixPos index) (levelLabel temp) value).Separated := by
  cases stop with
  | zero =>
      obtain rfl := List.length_eq_zero_iff.mp hlength
      cases slot with
      | nil => exact ⟨fun _ => Set.notMem_empty _, by simp [Trie.insertAt_nil, Trie.build], trivial⟩
      | item old => exact ⟨fun _ => Set.notMem_empty _, by simp, trivial⟩
  | succ height =>
      rw [hempty (Nat.succ_ne_zero height), Trie.insertAt_nil]
      refine ⟨fun _ => Set.notMem_empty _, fun addr => ?_, ?_⟩
      · rw [Trie.mem_labels_build, mem_iff_levelLabel, hlength]
      · exact Trie.separated_build (hlength ▸ levelLabel_injective hnodup)

/-- The change that the set-up of the new levels and the value in the leaf make to the
node the set-up started from. -/
theorem mutates_setup {heap final : RadixHeap V} {index : BitVec 64} {stop node : ℕ}
    {sub : Fin 64 → RadixTrie V stop} {temp : List ℕ} {value : V}
    (hholds : Holds heap (.node node sub)) (hsep : (Trie.node node sub).Separated)
    (hempty : stop ≠ 0 → sub (radixPos index stop) = .nil) (hlength : temp.length = stop)
    (hnodup : temp.Nodup) (hfree : ∀ addr ∈ temp, heap addr = none)
    (hnode : final node = some (nodeOf (Function.update sub (radixPos index stop)
      ((sub (radixPos index stop)).insertAt (radixPos index) (levelLabel temp) value))))
    (hpath : Holds final ((sub (radixPos index stop)).insertAt (radixPos index)
      (levelLabel temp) value))
    (hframe : ∀ other, other ≠ node → other ∉ temp → final other = heap other) :
    Mutates heap final (Trie.node node sub)
      ((Trie.node node sub).insertAt (radixPos index) (levelLabel temp) value) := by
  obtain ⟨hold, hpathLabels, hpathSep⟩ := setup_path hempty hlength hnodup value
  have hnodeTemp : node ∉ temp := fun hmem => by
    have hnone := hfree node hmem
    rw [hholds.1] at hnone
    cases hnone
  -- seen from the slot, the node itself has not changed yet
  have hchild : Mutates heap (Function.update final node (heap node))
      (sub (radixPos index stop)) ((sub (radixPos index stop)).insertAt (radixPos index)
        (levelLabel temp) value) := by
    refine ⟨hpath.congr fun addr hmem => ?_, hpathSep, fun addr _ hnew => ?_,
      fun addr hmem _ => absurd hmem (hold addr), fun addr hmem _ => ?_⟩
    · have hne : addr ≠ node := fun heq => hnodeTemp (heq ▸ (hpathLabels addr).mp hmem)
      rw [Function.update_of_ne hne]
    · by_cases heq : addr = node
      · rw [heq, Function.update_self]
      · rw [Function.update_of_ne heq]
        exact hframe addr heq fun hmem => hnew ((hpathLabels addr).mpr hmem)
    · exact hfree addr ((hpathLabels addr).mp hmem)
  have hlift := hchild.lift hholds hsep
  rw [Function.update_idem, ← hnode, Function.update_eq_self] at hlift
  exact hlift

/-- **From the expanded tree to the leaf.** -/
theorem reachLeaf_eq {map : BitVec 64 → Option V} {index : BitVec 64}
    (hindex : index.toNat < 2 ^ 60) {root : RadixTreeRoot V} {n addr : ℕ}
    {slots : Fin 64 → RadixTrie V n} (answers : MallocAnswers)
    (hok : TreeOk root (Trie.node addr slots)) (hready : Ready slots)
    (hmap : ∀ other, other.toNat < 2 ^ 60 → contents (Trie.node addr slots) other = map other)
    (hn : index.toNat < 64 ^ (n + 1)) :
    (∃ root', reachLeaf index addr root answers = some (.failed .enomem root') ∧
      RadixRep root' map) ∨
    ∃ leaf root' leafSlots, reachLeaf index addr root answers = some (.leaf leaf root') ∧
      LeafReached index map leaf root' leafSlots := by
  obtain ⟨stop, node, sub, hwalk, hsub, hsubSep, hempty, hlookup, hinsert⟩ :=
    walkDown_eq index hok.holds hok.separated
  have hheight : root.height - 1 = n := by
    rw [hok.height]
    omega
  unfold reachLeaf
  rw [hheight, hwalk, Option.bind_some]
  have halloc := @allocLevels_eq V root.heap stop [] answers List.nodup_nil (by simp)
  rw [withZeroed_nil] at halloc
  rcases halloc with hfail | ⟨temp, halloc, hlength, hnodup, hfree⟩
  · left
    obtain ⟨root', hclean, hrep⟩ := cleanRootNode_eq hok hready hmap
    refine ⟨root', ?_, hrep⟩
    rw [hfail, Option.bind_some]
    show (radixTreeCleanRootNode root).map _ = _
    rw [hclean]
    rfl
  · right
    rw [List.length_nil, Nat.zero_add] at hlength
    have hnodeTemp : node ∉ temp := fun hmem => by
      have hnone := hfree node hmem
      rw [hsub.1] at hnone
      cases hnone
    have hrecord : withZeroed root.heap temp node = some (nodeOf sub) := by
      rw [withZeroed, if_neg hnodeTemp]
      exact hsub.1
    obtain ⟨leaf, after, leafSlots, hsetup, hleaf, hfound, hused, hput⟩ :=
      setupLevels_eq hrecord hempty hlength hnodup hnodeTemp
        (fun other hmem => by rw [withZeroed, if_pos hmem])
    have hmapIndex : (Trie.node addr slots).lookup (radixPos index) = map index := by
      rw [← hmap index hindex, contents, if_pos hn]
    refine ⟨leaf, { root with heap := after }, leafSlots, ?_, hleaf, ?_, ?_, ?_⟩
    · rw [halloc, Option.bind_some]
      show (setupLevels index stop temp node (withZeroed root.heap temp)).map _ = _
      rw [hsetup]
      rfl
    · rw [hfound, ← hmapIndex, hlookup, Trie.lookup_node]
    · intro hslot
      obtain ⟨rfl, rfl⟩ := hused hslot
      -- there is something under the index, so the root node was not new
      have hsome : map index ≠ none := by
        rw [← hmapIndex, hlookup, Trie.lookup_node, ← hfound]
        cases hcontent : leafSlots (radixPos index 0) with
        | nil => rw [hcontent] at hslot; cases hslot
        | item value => simp
      have hchildren : ∃ i, (slots i).isNil = false := by
        by_contra hnone
        refine hsome ?_
        rw [← hmapIndex, Trie.lookup_node]
        cases hi : (slots (radixPos index n)).isNil with
        | true => rw [(Trie.isNil_iff _).mp hi, Trie.lookup_nil]
        | false => exact absurd ⟨_, hi⟩ hnone
      rw [withZeroed_nil]
      exact ⟨n + 1, _, hok, hready.full hchildren, hmap⟩
    · intro value
      obtain ⟨final, hfinal, hnode, hpath, hframe⟩ := hput value
      have hframe' : ∀ other, other ≠ node → other ∉ temp → final other = root.heap other := by
        intro other hne hnot
        rw [hframe other hne hnot, withZeroed, if_neg hnot]
      have hmutates := hinsert (levelLabel temp) value final
        (mutates_setup hsub hsubSep hempty hlength hnodup hfree hnode hpath hframe')
      have hfull : ((Trie.node addr slots).insertAt (radixPos index) (levelLabel temp)
          value).Full := hready.full_insertAt _ _ _
      refine ⟨n + 1, _, hfinal ▸ hok.mutate hmutates, hfull, fun other hother => ?_⟩
      rw [contents_insertAt _ _ _ hindex hother hn, Function.update_apply, hmap other hother]

/-- From a tree with a root node to the leaf. -/
theorem expandAndReach_eq {map : BitVec 64 → Option V} {index : BitVec 64}
    (hindex : index.toNat < 2 ^ 60) {root : RadixTreeRoot V} {n addr : ℕ}
    {slots : Fin 64 → RadixTrie V n} (answers : MallocAnswers)
    (hok : TreeOk root (Trie.node addr slots)) (hready : Ready slots)
    (hmap : ∀ other, other.toNat < 2 ^ 60 → contents (Trie.node addr slots) other = map other) :
    (∃ root', expandAndReach index addr root answers = some (.failed .enomem root') ∧
      RadixRep root' map) ∨
    ∃ leaf root' leafSlots, expandAndReach index addr root answers = some (.leaf leaf root') ∧
      LeafReached index map leaf root' leafSlots := by
  have hfuel : 10 < radixTreeMaxHeight + 1 + (n + 1) := by
    show 10 < 11 + 1 + (n + 1)
    omega
  unfold expandAndReach
  have hexpansion := @expand_eq V map index hindex _ root n addr slots answers hok hready hmap
    hfuel
  rcases hexpansion with
    ⟨root', hfail, hrep⟩ | ⟨root', m, addr', slots', answers', hexpand, hok', hready', hmap', hn⟩
  · rw [hfail, Option.bind_some]
    exact Or.inl ⟨root', rfl, hrep⟩
  · rw [hexpand, Option.bind_some]
    exact reachLeaf_eq hindex answers' hok' hready' hmap' hn

/-- **The common part of insertion and storing**, from any tree that contains the
map. -/
theorem radixTreeReach_eq {map : BitVec 64 → Option V} {index : BitVec 64}
    (hindex : index.toNat < 2 ^ 60) {root : RadixTreeRoot V} (answers : MallocAnswers)
    (hrep : RadixRep root map) :
    (∃ root', radixTreeReach root index answers = some (.failed .enomem root') ∧
      RadixRep root' map) ∨
    ∃ leaf root' leafSlots, radixTreeReach root index answers = some (.leaf leaf root') ∧
      LeafReached index map leaf root' leafSlots := by
  obtain ⟨n, trie, hok, hfull, hmap⟩ := hrep
  unfold radixTreeReach
  cases trie with
  | nil =>
      have hzero := hok.empty rfl
      subst hzero
      rw [hok.rnode_nil]
      obtain ⟨rest, hfail | ⟨fresh, hmalloc, hfree⟩⟩ := malloc_cases root.heap answers
      · left
        rw [hfail]
        exact ⟨root, rfl, 0, .nil, hok, hfull, hmap⟩
      · rw [hmalloc]
        refine expandAndReach_eq hindex rest hok.plant (Or.inr fun _ => rfl)
          fun other hother => ?_
        rw [contents_empty, ← hmap other hother, contents_nil]
  | item value => exact hok.not_item.elim
  | node addr slots =>
      rw [hok.rnode_node]
      exact expandAndReach_eq hindex answers hok (Or.inl hfull) hmap

/-! ### Insertion and storing -/

/-- A slot of a leaf node, read as an item. -/
theorem toItem_slotOf (trie : RadixTrie V 0) (key : ℕ → Fin 64) :
    (slotOf trie).toItem = some (trie.lookup key) := by
  cases trie <;> rfl

/-- **`radix_tree_insert` of an item.** -/
theorem insert_eq {map : BitVec 64 → Option V} {index : BitVec 64}
    (hindex : index.toNat < 2 ^ 60) {root : RadixTreeRoot V} (value : V)
    (answers : MallocAnswers) (hrep : RadixRep root map) :
    ∃ status root', radixTreeInsert root index (some value) answers = some (status, root') ∧
      ((status = .ok ∧ map index = none ∧
          RadixRep root' (Function.update map index (some value))) ∨
        (status = .eexist ∧ map index ≠ none ∧ RadixRep root' map) ∨
        (status = .enomem ∧ RadixRep root' map)) := by
  unfold radixTreeInsert
  rcases radixTreeReach_eq hindex answers hrep with ⟨root', hfail, hrep'⟩ |
    ⟨leaf, root', leafSlots, hleaf, hreached⟩
  · refine ⟨.enomem, root', ?_, Or.inr (Or.inr ⟨rfl, hrep'⟩)⟩
    simp only [hfail, Option.bind_some]
  · simp only [hleaf, Option.bind_some, hreached.record]
    cases hslot : leafSlots (radixPos index 0) with
    | nil =>
        have hnone : map index = none := by rw [← hreached.found, hslot, Trie.lookup_nil]
        have hput := hreached.put value
        rw [nodeOf_fill hslot rfl] at hput
        refine ⟨.ok, _, ?_, Or.inl ⟨rfl, hnone, hput⟩⟩
        simp [nodeOf, hslot]
    | item old =>
        have hsome : map index ≠ none := by rw [← hreached.found, hslot]; simp
        refine ⟨.eexist, root', ?_, Or.inr (Or.inl ⟨rfl, hsome, hreached.used ?_⟩)⟩
        · simp [nodeOf, hslot]
        · rw [hslot]
          rfl

/-- **`radix_tree_store` of an item.** -/
theorem store_eq {map : BitVec 64 → Option V} {index : BitVec 64}
    (hindex : index.toNat < 2 ^ 60) {root : RadixTreeRoot V} (value : V)
    (answers : MallocAnswers) (hrep : RadixRep root map) :
    ∃ status item root', radixTreeStore root index (some value) answers =
        some (status, item, root') ∧
      ((status = .ok ∧ item = map index ∧
          RadixRep root' (Function.update map index (some value))) ∨
        (status = .enomem ∧ item = some value ∧ RadixRep root' map)) := by
  unfold radixTreeStore
  rcases radixTreeReach_eq hindex answers hrep with ⟨root', hfail, hrep'⟩ |
    ⟨leaf, root', leafSlots, hleaf, hreached⟩
  · refine ⟨.enomem, some value, root', ?_, Or.inr ⟨rfl, rfl, hrep'⟩⟩
    simp only [hfail, Option.bind_some]
  · simp only [hleaf, Option.bind_some, hreached.record]
    have hitem : ((nodeOf leafSlots).slots (radixPos index 0)).toItem = some (map index) := by
      rw [← hreached.found]
      exact toItem_slotOf _ _
    have hput := hreached.put value
    refine ⟨.ok, map index, _, by rw [hitem, Option.map_some], Or.inl ⟨rfl, rfl, ?_⟩⟩
    cases hslot : leafSlots (radixPos index 0) with
    | nil =>
        have hnone : map index = none := by rw [← hreached.found, hslot, Trie.lookup_nil]
        rw [nodeOf_fill hslot rfl] at hput
        simpa [hnone] using hput
    | item old =>
        have hsome : (map index).isNone = false := by rw [← hreached.found, hslot]; rfl
        rw [nodeOf_swap (by rw [hslot]; rfl) rfl] at hput
        simpa [hsome] using hput

/-- **`radix_tree_delete`.** -/
theorem delete_eq {map : BitVec 64 → Option V} {index : BitVec 64}
    (hindex : index.toNat < 2 ^ 60) {root : RadixTreeRoot V} (hrep : RadixRep root map) :
    ∃ root', radixTreeDelete root index = some (map index, root') ∧
      RadixRep root' (Function.update map index none) := by
  obtain ⟨n, trie, hok, hfull, hmap⟩ := hrep
  obtain ⟨root', hdelete, m, trie', hok', hfull', hmap'⟩ := hok.delete_eq hfull hindex
  refine ⟨root', by rw [hdelete, hmap index hindex], m, trie', hok', hfull', ?_⟩
  intro other hother
  rw [hmap' other hother, Function.update_apply, Function.update_apply, hmap other hother]

/-! ### Sequences of calls -/

/-- What a call may do to a map, and what it returns. -/
inductive MapStep (map : BitVec 64 → Option V) :
    RadixCall V → RadixReturn V → (BitVec 64 → Option V) → Prop where
  | insertNull (index : BitVec 64) (answers : MallocAnswers) :
      MapStep map (.insert index none answers) (.inserted .einval) map
  | insertBound (index : BitVec 64) (value : V) (answers : MallocAnswers)
      (bound : map index ≠ none) :
      MapStep map (.insert index (some value) answers) (.inserted .eexist) map
  | insertFree (index : BitVec 64) (value : V) (answers : MallocAnswers)
      (free : map index = none) :
      MapStep map (.insert index (some value) answers) (.inserted .ok)
        (Function.update map index (some value))
  | insertMemory (index : BitVec 64) (value : V) (answers : MallocAnswers) :
      MapStep map (.insert index (some value) answers) (.inserted .enomem) map
  | storeNull (index : BitVec 64) (answers : MallocAnswers) :
      MapStep map (.store index none answers) (.stored .ok (map index))
        (Function.update map index none)
  | storeItem (index : BitVec 64) (value : V) (answers : MallocAnswers) :
      MapStep map (.store index (some value) answers) (.stored .ok (map index))
        (Function.update map index (some value))
  | storeMemory (index : BitVec 64) (value : V) (answers : MallocAnswers) :
      MapStep map (.store index (some value) answers) (.stored .enomem (some value)) map
  | delete (index : BitVec 64) :
      MapStep map (.delete index) (.deleted (map index)) (Function.update map index none)

/-- What a sequence of calls may do to a map, and what the calls return. -/
inductive MapRun : (BitVec 64 → Option V) → List (RadixCall V) → List (RadixReturn V) →
    (BitVec 64 → Option V) → Prop where
  | nil (map : BitVec 64 → Option V) : MapRun map [] [] map
  | cons {map next last : BitVec 64 → Option V} {call : RadixCall V} {ret : RadixReturn V}
      {calls : List (RadixCall V)} {rets : List (RadixReturn V)}
      (first : MapStep map call ret next) (rest : MapRun next calls rets last) :
      MapRun map (call :: calls) (ret :: rets) last

/-- **One call**: it has a result, and the map makes the same step. -/
theorem RadixRep.step {map : BitVec 64 → Option V} {root : RadixTreeRoot V}
    (hrep : RadixRep root map) (call : RadixCall V) (hindex : call.index.toNat < 2 ^ 60) :
    ∃ root' ret next, (radixMachine V).step root call = some (root', [ret]) ∧
      MapStep map call ret next ∧ RadixRep root' next := by
  cases call with
  | insert index item answers =>
      replace hindex : index.toNat < 2 ^ 60 := hindex
      cases item with
      | none => exact ⟨root, _, map, rfl, .insertNull index answers, hrep⟩
      | some value =>
          obtain ⟨status, root', hinsert, hcases⟩ := insert_eq hindex value answers hrep
          have hstep : (radixMachine V).step root (.insert index (some value) answers) =
              some (root', [.inserted status]) := by
            simp [radixMachine, hinsert]
          rcases hcases with ⟨rfl, hfree, hrep'⟩ | ⟨rfl, hbound, hrep'⟩ | ⟨rfl, hrep'⟩
          · exact ⟨root', _, _, hstep, .insertFree index value answers hfree, hrep'⟩
          · exact ⟨root', _, _, hstep, .insertBound index value answers hbound, hrep'⟩
          · exact ⟨root', _, _, hstep, .insertMemory index value answers, hrep'⟩
  | store index item answers =>
      replace hindex : index.toNat < 2 ^ 60 := hindex
      cases item with
      | none =>
          obtain ⟨root', hdelete, hrep'⟩ := delete_eq hindex hrep
          refine ⟨root', _, _, ?_, .storeNull index answers, hrep'⟩
          simp [radixMachine, radixTreeStore, hdelete]
      | some value =>
          obtain ⟨status, item, root', hstore, hcases⟩ := store_eq hindex value answers hrep
          have hstep : (radixMachine V).step root (.store index (some value) answers) =
              some (root', [.stored status item]) := by
            simp [radixMachine, hstore]
          rcases hcases with ⟨rfl, rfl, hrep'⟩ | ⟨rfl, rfl, hrep'⟩
          · exact ⟨root', _, _, hstep, .storeItem index value answers, hrep'⟩
          · exact ⟨root', _, _, hstep, .storeMemory index value answers, hrep'⟩
  | delete index =>
      replace hindex : index.toNat < 2 ^ 60 := hindex
      obtain ⟨root', hdelete, hrep'⟩ := delete_eq hindex hrep
      refine ⟨root', _, _, ?_, .delete index, hrep'⟩
      simp [radixMachine, hdelete]

theorem RadixRep.init : RadixRep (RadixTreeRoot.init : RadixTreeRoot V) fun _ => none :=
  ⟨0, .nil, TreeOk.init, trivial, fun index _ => contents_nil index⟩

/-- **A sequence of calls.** -/
theorem RadixRep.run {map : BitVec 64 → Option V} {root : RadixTreeRoot V}
    (hrep : RadixRep root map) (calls : List (RadixCall V))
    (hindex : ∀ call ∈ calls, call.index.toNat < 2 ^ 60) :
    ∃ root' rets last, (radixMachine V).run root calls = some (root', rets) ∧
      MapRun map calls rets last ∧ RadixRep root' last := by
  induction calls generalizing map root with
  | nil => exact ⟨root, [], map, rfl, .nil map, hrep⟩
  | cons call rest ih =>
      obtain ⟨next, ret, map', hstep, hmap, hnext⟩ := hrep.step call
        (hindex call List.mem_cons_self)
      obtain ⟨root', rets, last, hrun, hrest, hlast⟩ := ih hnext fun other hmem =>
        hindex other (List.mem_cons_of_mem _ hmem)
      refine ⟨root', ret :: rets, last, ?_, .cons hmap hrest, hlast⟩
      rw [Machine.run_cons, hstep, Option.bind_some, hrun]
      rfl

/-- **The radix tree refines a map.**  Whatever calls are made on an empty tree, with
indices below `2 ^ 60`, and whatever `malloc` answers: every call has a result, the
results are those of a map, and afterwards `radix_tree_lookup` finds, for every index,
what the map has. -/
theorem radixTree_refines_map (calls : List (RadixCall V))
    (hindex : ∀ call ∈ calls, call.index.toNat < 2 ^ 60) :
    ∃ root rets map, (radixMachine V).run .init calls = some (root, rets) ∧
      MapRun (fun _ => none) calls rets map ∧
      ∀ index : BitVec 64, index.toNat < 2 ^ 60 →
        radixTreeLookup root index = some (map index) := by
  obtain ⟨root, rets, map, hrun, hmap, n, trie, hok, -, hcontents⟩ :=
    RadixRep.init.run calls hindex
  refine ⟨root, rets, map, hrun, hmap, fun index hbound => ?_⟩
  rw [hok.lookup_eq, hcontents index hbound]

/-- An insertion that makes the tree three levels high, a second one in which `malloc`
fails, and a store over the first item. -/
def growAndFail : List (RadixCall ℕ) :=
  [.insert 5000 (some 1) [some 10, some 11, some 12], .insert 70000 (some 2) [some 13, none],
    .store 5000 (some 3) []]

theorem radixTree_refines_map_grow : ∃ root rets map,
    (radixMachine ℕ).run .init growAndFail = some (root, rets) ∧
      MapRun (fun _ => none) growAndFail rets map ∧
      radixTreeLookup root 5000 = some (map 5000) := by
  have hindex : ∀ call ∈ growAndFail, call.index.toNat < 2 ^ 60 := by
    intro call hmem
    simp only [growAndFail, List.mem_cons, List.not_mem_nil, or_false] at hmem
    rcases hmem with rfl | rfl | rfl <;> decide
  obtain ⟨root, rets, map, hrun, hmap, hlookup⟩ := radixTree_refines_map growAndFail hindex
  exact ⟨root, rets, map, hrun, hmap, hlookup 5000 (by decide)⟩

end Webcamd.Kernel
