import Webcamd.Kernel.RadixTreeRange

/-!
# The memory an insertion takes

How many nodes an insertion has to allocate depends on the tree and on the index alone
(`nodesNeeded`): the levels that are missing above the root, and those that are missing on the
way down.  The insertion succeeds exactly when `malloc` gives it that many
(`RadixMap.insert_free`); where there is an item already it takes none
(`RadixMap.insert_bound`).

Indices are below `2 ^ 60`.
-/

namespace Webcamd.Kernel

open Webcamd.Library

variable {V : Type}

/-! ### Counting -/

/-- How many levels a tree has to have for an index. -/
def levelsFor (index : BitVec 64) : ℕ := Nat.log 64 index.toNat + 1

/-- How many nodes an insertion at an index has to allocate.  In a tree that is too low these
are the new root nodes, and the way down from the last of them. -/
def nodesNeeded (root : RadixTreeRoot V) (index : BitVec 64) : ℕ :=
  match root.rnode with
  | none => levelsFor index
  | some addr =>
      if root.height < levelsFor index then
        levelsFor index - root.height + (levelsFor index - 1)
      else ((walkDown root.heap index (root.height - 1) addr).map Prod.snd).getD 0

/-- The tree is too low for the index. -/
theorem lt_levelsFor_iff {index : BitVec 64} {height : ℕ} (hheight : 0 < height) :
    height < levelsFor index ↔ 64 ^ height ≤ index.toNat := by
  rw [levelsFor, Nat.lt_succ_iff]
  by_cases hzero : index.toNat = 0
  · have hpos : 0 < 64 ^ height := by positivity
    rw [hzero, Nat.log_zero_right]
    omega
  · exact Nat.le_log_iff_pow_le (by omega) hzero

theorem levelsFor_le {index : BitVec 64} (hindex : index.toNat < 2 ^ 60) :
    levelsFor index ≤ 10 := by
  by_contra hgt
  have hle := (lt_levelsFor_iff (by omega : 0 < 10)).mp (not_le.mp hgt)
  have hpow : (64 : ℕ) ^ 10 = 2 ^ 60 := by norm_num
  omega

/-- The first position of an index is not zero, unless it is the only one. -/
theorem top_pos_ne_zero {index : BitVec 64} (hindex : index.toNat < 2 ^ 60)
    (htwo : 2 ≤ levelsFor index) : radixPos index (levelsFor index - 1) ≠ 0 := by
  intro hzero
  have hval := radixPos_val hindex (levelsFor index - 1)
  have hge : 64 ^ (levelsFor index - 1) ≤ index.toNat :=
    (lt_levelsFor_iff (by omega)).mp (by omega)
  have hlt : index.toNat < 64 ^ (levelsFor index - 1) * 64 := by
    rw [← pow_succ, Nat.sub_add_cancel (by omega)]
    exact not_le.mp (mt (lt_levelsFor_iff (by omega)).mpr (lt_irrefl _))
  have hquotient : index.toNat / 64 ^ (levelsFor index - 1) < 64 :=
    Nat.div_lt_of_lt_mul hlt
  have hpositive : 0 < index.toNat / 64 ^ (levelsFor index - 1) :=
    Nat.div_pos hge (by positivity)
  rw [hzero, Nat.mod_eq_of_lt hquotient] at hval
  exact absurd hval (by simp; omega)

/-! ### Each phase -/

def Reached.isLeaf : Reached V → Bool
  | .failed _ _ => false
  | .leaf _ _ => true

/-- The allocation of the missing levels. -/
theorem allocLevels_isSome {missing : ℕ} {temp : List ℕ} {heap : RadixHeap V}
    {answers : MallocAnswers} {result : Option (List ℕ) × RadixHeap V}
    (h : allocLevels missing temp heap answers = some result) :
    result.1.isSome = mallocsSucceed missing heap answers := by
  induction missing generalizing temp heap answers with
  | zero =>
      obtain rfl := Option.some.inj h
      rfl
  | succ missing ih =>
      rw [allocLevels] at h
      obtain ⟨rest, hfail | ⟨fresh, hmalloc, -⟩⟩ := malloc_cases heap answers
      · simp only [hfail] at h
        obtain ⟨freed, -, rfl⟩ := Option.map_eq_some_iff.mp h
        rw [mallocsSucceed_fail hfail]
        rfl
      · simp only [hmalloc] at h
        rw [mallocsSucceed_step hmalloc]
        exact ih h

/-- The way down from the root node. -/
theorem reachLeaf_isLeaf {index : BitVec 64} {node : ℕ} {root : RadixTreeRoot V}
    {answers : MallocAnswers} {reached : Reached V} {stop : ℕ × ℕ}
    (h : reachLeaf index node root answers = some reached)
    (hwalk : walkDown root.heap index (root.height - 1) node = some stop) :
    reached.isLeaf = mallocsSucceed stop.2 root.heap answers := by
  rw [reachLeaf, hwalk, Option.bind_some, Option.bind_eq_some_iff] at h
  obtain ⟨⟨temp, heap⟩, halloc, hrest⟩ := h
  rw [← allocLevels_isSome halloc]
  cases temp with
  | none =>
      obtain ⟨cleaned, -, rfl⟩ := Option.map_eq_some_iff.mp hrest
      rfl
  | some temp =>
      obtain ⟨leaf, -, rfl⟩ := Option.map_eq_some_iff.mp hrest
      rfl

/-- **The expansion of a tree with items** takes one node for every level. -/
theorem expand_memory {index : BitVec 64} (hindex : index.toNat < 2 ^ 60) {fuel addr : ℕ}
    {root : RadixTreeRoot V} {record : RadixTreeNode V} {answers : MallocAnswers}
    {expansion : Expansion V} (hrecord : root.heap addr = some record) (hcount : record.count ≠ 0)
    (hpos : 0 < root.height) (hheight : root.height ≤ 10)
    (h : expand index fuel addr root answers = some expansion) (m : ℕ) :
    (∃ status root', expansion = .failed status root' ∧ root.height < levelsFor index ∧
      mallocsSucceed (levelsFor index - root.height + m) root.heap answers = false) ∨
    ∃ addr' root' answers', expansion = .expanded addr' root' answers' ∧
      mallocsSucceed (levelsFor index - root.height + m) root.heap answers =
        mallocsSucceed m root'.heap answers' ∧
      ((levelsFor index ≤ root.height ∧ addr' = addr ∧ root' = root) ∨
        (root.height < levelsFor index ∧ root'.height = levelsFor index ∧
          ∃ record', root'.heap addr' = some record' ∧
            ∀ pos, pos ≠ 0 → record'.slots pos = .null)) := by
  induction fuel generalizing root addr record answers with
  | zero => cases h
  | succ fuel ih =>
      have hlow := @lt_levelsFor_iff index root.height hpos
      have hlevels := levelsFor_le hindex
      by_cases hgrow : root.height < levelsFor index
      · obtain ⟨levels, hsplit⟩ : ∃ levels, levelsFor index - root.height = levels + 1 :=
          ⟨levelsFor index - root.height - 1, by omega⟩
        have hadd : levels + 1 + m = levels + m + 1 := by omega
        have hleft : levelsFor index - (root.height + 1) = levels := by omega
        rw [hsplit, hadd]
        obtain ⟨rest, hfail | ⟨fresh, hmalloc, -⟩⟩ := malloc_cases root.heap answers
        · rw [expand_round_fail hheight (hlow.mp hgrow) hrecord hcount hfail] at h
          obtain rfl := Option.some.inj h
          exact Or.inl ⟨.enomem, root, rfl, hgrow, mallocsSucceed_fail hfail⟩
        · rw [expand_round_grow hheight (hlow.mp hgrow) hrecord hcount hmalloc] at h
          rw [mallocsSucceed_step hmalloc
            ⟨Function.update zeroedNode.slots 0 (Slot.ofPointer root.rnode), 1⟩]
          have hnext := @ih fresh _ _ rest (Function.update_self _ _ _) (by simp)
            (Nat.succ_pos _) (by show root.height + 1 ≤ 10; omega) h
          simp only [hleft] at hnext
          rcases hnext with ⟨status, root', rfl, -, hmemory⟩ |
            ⟨addr', root', answers', rfl, hmemory, ⟨hle, rfl, rfl⟩ | ⟨-, htop⟩⟩
          · exact Or.inl ⟨status, root', rfl, hgrow, hmemory⟩
          · -- the new root node is the last one
            refine Or.inr ⟨_, _, _, rfl, hmemory, Or.inr ⟨hgrow, ?_, ?_⟩⟩
            · exact Nat.le_antisymm hgrow hle
            · refine ⟨_, Function.update_self _ _ _, fun pos hne => ?_⟩
              show Function.update zeroedNode.slots 0 _ pos = .null
              rw [Function.update_of_ne hne]
              rfl
          · exact Or.inr ⟨addr', root', answers', rfl, hmemory, Or.inr ⟨hgrow, htop⟩⟩
      · rw [expand_round_high hheight (not_le.mp (mt hlow.mpr hgrow))] at h
        obtain rfl := Option.some.inj h
        refine Or.inr ⟨addr, root, answers, rfl, ?_, Or.inl ⟨by omega, rfl, rfl⟩⟩
        rw [Nat.sub_eq_zero_of_le (by omega), Nat.zero_add]

/-- **The expansion of an empty root node** takes no memory. -/
theorem expand_raise {index : BitVec 64} (hindex : index.toNat < 2 ^ 60) {fuel addr : ℕ}
    {root : RadixTreeRoot V} {record : RadixTreeNode V} {answers : MallocAnswers}
    {expansion : Expansion V} (hrecord : root.heap addr = some record) (hcount : record.count = 0)
    (hpos : 0 < root.height) (hheight : root.height ≤ levelsFor index)
    (h : expand index fuel addr root answers = some expansion) :
    expansion = .expanded addr { root with height := levelsFor index } answers := by
  induction fuel generalizing root with
  | zero => cases h
  | succ fuel ih =>
      have hlevels := levelsFor_le hindex
      have hbound : root.height ≤ 10 := by omega
      have hlow := @lt_levelsFor_iff index root.height hpos
      by_cases hgrow : root.height < levelsFor index
      · rw [expand_round_raise hbound (hlow.mp hgrow) hrecord hcount] at h
        exact @ih { root with height := root.height + 1 } hrecord (Nat.succ_pos _) hgrow h
      · rw [expand_round_high hbound (not_le.mp (mt hlow.mpr hgrow))] at h
        obtain rfl := Option.some.inj h
        have heq : root.height = levelsFor index := by omega
        rw [← heq]

/-- A walk that starts at a node with an empty slot stops there. -/
theorem walkDown_empty {heap : RadixHeap V} {index : BitVec 64} {addr height : ℕ}
    {record : RadixTreeNode V} (hrecord : heap addr = some record)
    (hnull : height ≠ 0 → record.slots (radixPos index height) = .null) :
    walkDown heap index height addr = some (addr, height) := by
  cases height with
  | zero => rfl
  | succ height => rw [walkDown, hrecord, Option.bind_some, hnull (Nat.succ_ne_zero height)]

/-! ### The whole insertion -/

section

variable {root : RadixTreeRoot V} {map : BitVec 64 → Option V} {index : BitVec 64}

/-- **The leaf is reached exactly when there is memory for the nodes that are missing.** -/
theorem RadixMap.reach_isLeaf (h : RadixMap root map) (hindex : index.toNat < 2 ^ 60)
    {answers : MallocAnswers} {reached : Reached V}
    (hreach : radixTreeReach root index answers = some reached) :
    reached.isLeaf = mallocsSucceed (nodesNeeded root index) root.heap answers := by
  obtain ⟨n, trie, hok, hfull, -⟩ := h.tree
  rw [radixTreeReach] at hreach
  cases trie with
  | nil =>
      have hzero := hok.empty rfl
      subst hzero
      rw [nodesNeeded, hok.rnode_nil]
      simp only [hok.rnode_nil] at hreach
      obtain ⟨rest, hfail | ⟨fresh, hmalloc, -⟩⟩ := malloc_cases root.heap answers
      · simp only [hfail] at hreach
        obtain rfl := Option.some.inj hreach
        exact (mallocsSucceed_fail hfail).symm
      · simp only [hmalloc] at hreach
        rw [expandAndReach, Option.bind_eq_some_iff] at hreach
        obtain ⟨expansion, hexpand, hrest⟩ := hreach
        have hone : root.height + 1 ≤ levelsFor index := by
          rw [hok.height, levelsFor]
          omega
        obtain rfl := expand_raise hindex (Function.update_self _ _ _) rfl
          (Nat.succ_pos root.height) hone hexpand
        show reached.isLeaf = mallocsSucceed (levelsFor index - 1 + 1) root.heap answers
        rw [mallocsSucceed_step hmalloc zeroedNode]
        have hwalk : walkDown (Function.update root.heap fresh (some zeroedNode)) index
            (levelsFor index - 1) fresh = some (fresh, levelsFor index - 1) :=
          walkDown_empty (Function.update_self _ _ _) fun _ => rfl
        have hleaf := reachLeaf_isLeaf hrest hwalk
        exact hleaf
  | item value => exact hok.not_item.elim
  | @node m addr slots =>
      have hrnode := hok.rnode_node
      simp only [hrnode] at hreach
      rw [expandAndReach, Option.bind_eq_some_iff] at hreach
      obtain ⟨expansion, hexpand, hrest⟩ := hreach
      have hcount : (nodeOf slots).count ≠ 0 := count_nodeOf_ne_zero.mpr hfull.1
      have hpos : 0 < root.height := by
        rw [hok.height]
        exact Nat.succ_pos m
      rw [nodesNeeded, hrnode]
      show _ = mallocsSucceed (if root.height < levelsFor index then _ else _) root.heap answers
      have hmemory := expand_memory hindex hok.holds.1 hcount hpos h.height_le hexpand
      by_cases hlow : root.height < levelsFor index
      · rw [if_pos hlow]
        rcases hmemory (levelsFor index - 1) with ⟨status, failed, rfl, -, hfalse⟩ |
          ⟨addr', root', answers', rfl, hsame, ⟨hle, -⟩ | ⟨-, hheight, record, hrecord, hnull⟩⟩
        · obtain rfl := Option.some.inj hrest
          exact hfalse.symm
        · omega
        · have hwalk : walkDown root'.heap index (root'.height - 1) addr' =
              some (addr', levelsFor index - 1) := by
            rw [hheight]
            exact walkDown_empty hrecord fun _ =>
              hnull _ (top_pos_ne_zero hindex (by omega))
          have hleaf := reachLeaf_isLeaf hrest hwalk
          rw [hsame, hleaf]
      · rw [if_neg hlow]
        obtain ⟨stop, node, sub, hwalk, -⟩ := walkDown_eq index hok.holds hok.separated
        have hheight : root.height - 1 = m := by
          rw [hok.height]
          rfl
        rw [← hheight] at hwalk
        rcases hmemory stop with ⟨status, failed, rfl, hgrow, -⟩ |
          ⟨addr', root', answers', rfl, hsame, ⟨hle, rfl, rfl⟩ | ⟨hgrow, -⟩⟩
        · exact absurd hgrow hlow
        · rw [Nat.sub_eq_zero_of_le hle, Nat.zero_add] at hsame
          rw [hwalk, Option.map_some, Option.getD_some, hsame]
          exact reachLeaf_isLeaf hrest hwalk
        · exact absurd hgrow hlow

/-- **An insertion where there is an item** takes no memory and changes nothing. -/
theorem RadixMap.insert_bound (h : RadixMap root map) (hbound : map index ≠ none) (value : V)
    (answers : MallocAnswers) :
    radixTreeInsert root index (some value) answers = some (.eexist, root) := by
  have hindex := h.index_lt hbound
  obtain ⟨n, trie, hok, hfull, rfl⟩ := h.tree
  cases trie with
  | nil => exact absurd (contents_nil index) hbound
  | item value => exact hok.not_item.elim
  | @node m addr slots =>
      have hn : index.toNat < 64 ^ (m + 1) := by
        by_contra hge
        exact hbound (contents_eq_none_of_le _ (not_lt.mp hge))
      obtain ⟨stop, node, sub, hwalk, hsub, -, hempty, hlookup, -⟩ :=
        walkDown_eq index hok.holds hok.separated
      rw [contents, if_pos hn, hlookup, Trie.lookup_node] at hbound
      have hstop : stop = 0 := by
        by_contra hne
        rw [hempty hne] at hbound
        exact hbound rfl
      subst hstop
      have hslot : ∃ old, sub (radixPos index 0) = .item old := by
        cases hsub' : sub (radixPos index 0) with
        | nil =>
            rw [hsub'] at hbound
            exact absurd rfl hbound
        | item old => exact ⟨old, rfl⟩
      obtain ⟨old, hslot⟩ := hslot
      have hleaf : reachLeaf index addr root answers = some (.leaf node root) := by
        have hheight : root.height - 1 = m := by
          rw [hok.height]
          rfl
        rw [reachLeaf, hheight, hwalk]
        rfl
      have hreach : radixTreeReach root index answers = some (.leaf node root) := by
        rw [radixTreeReach, hok.rnode_node]
        show expandAndReach index addr root answers = _
        rw [expandAndReach, expand_round_high h.height_le (by rw [hok.height]; exact hn)]
        exact hleaf
      rw [radixTreeInsert, hreach]
      simp [hsub.1, nodeOf, hslot]

/-- **An insertion where there is nothing** succeeds exactly when there is memory for the nodes
that are missing, and otherwise leaves the map as it was. -/
theorem RadixMap.insert_free (h : RadixMap root map) (hindex : index.toNat < 2 ^ 60)
    (hfree : map index = none) (value : V) (answers : MallocAnswers) :
    ∃ status root', radixTreeInsert root index (some value) answers = some (status, root') ∧
      ((mallocsSucceed (nodesNeeded root index) root.heap answers = true ∧ status = .ok ∧
          RadixMap root' (Function.update map index (some value))) ∨
        (mallocsSucceed (nodesNeeded root index) root.heap answers = false ∧
          status = .enomem ∧ RadixMap root' map)) := by
  obtain ⟨status, root', hinsert, hcases⟩ := insert_eq hindex value answers h.rep
  refine ⟨status, root', hinsert, ?_⟩
  rw [radixTreeInsert, Option.bind_eq_some_iff] at hinsert
  obtain ⟨reached, hreach, hresult⟩ := hinsert
  have hleaf := h.reach_isLeaf hindex hreach
  cases reached with
  | failed failure failed =>
      rcases hcases with ⟨rfl, -, -⟩ | ⟨-, hbound, -⟩ | ⟨rfl, hrep⟩
      · rcases radixTreeReach_eq hindex answers h.rep with ⟨other, hfail, -⟩ |
          ⟨leaf, other, leafSlots, hother, -⟩
        · rw [hreach] at hfail
          cases hfail
          cases hresult
        · rw [hreach] at hother
          cases hother
      · exact absurd hfree hbound
      · exact Or.inr ⟨hleaf.symm, rfl, hrep, h.range⟩
  | leaf node other =>
      rcases hcases with ⟨rfl, -, hrep⟩ | ⟨-, hbound, -⟩ | ⟨rfl, -⟩
      · exact Or.inl ⟨hleaf.symm, rfl, hrep, update_range h.range hindex (some value)⟩
      · exact absurd hfree hbound
      · obtain ⟨record, -, hslot⟩ := Option.bind_eq_some_iff.mp hresult
        split at hslot <;> cases hslot

end

end Webcamd.Kernel
