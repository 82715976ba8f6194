import Webcamd.Kernel.RadixTreeRefinement

/-!
# The radix tree at the top of the index range

An index has 64 bits.  A tree of height ten covers the indices below `2 ^ 60`, and the
eleventh level (`RADIX_TREE_MAX_HEIGHT`) is there for the others; but at that height
`radix_max` shifts by 66, which is more than an `unsigned long` has bits.  The comparison
with the maximum height, which is to keep the tree from growing beyond it, comes after that
shift.

* `RadixMap` — the tree holds a map, for all 64-bit indices.
* `Overgrows` — a call makes the tree grow to the eleventh level: its index is `2 ^ 60` or
  more, and there is memory for the levels on the way.
* `radixTree_top_iff` — the calls of a run do what they promise (`CallRight`) exactly when
  none of them makes the tree grow that high.
-/

namespace Webcamd.Kernel

open Webcamd.Library

variable {V : Type}

/-! ### The whole index range -/

/-- The tree holds exactly the map, on all indices. -/
structure RadixMap (root : RadixTreeRoot V) (map : BitVec 64 → Option V) : Prop where
  rep : RadixRep root map
  range : ∀ index : BitVec 64, 2 ^ 60 ≤ index.toNat → map index = none

theorem RadixMap.init : RadixMap (RadixTreeRoot.init : RadixTreeRoot V) fun _ => none :=
  ⟨RadixRep.init, fun _ _ => rfl⟩

theorem pow_height_le {root : RadixTreeRoot V} {n : ℕ} {trie : RadixTrie V n}
    (h : TreeOk root trie) : 64 ^ n ≤ 2 ^ 60 := by
  calc 64 ^ n ≤ 64 ^ 10 := Nat.pow_le_pow_right (by omega) h.bound
    _ = 2 ^ 60 := by norm_num

/-- Behind the last index of a tree there is nothing. -/
theorem contents_eq_none_of_le {n : ℕ} (trie : RadixTrie V n) {index : BitVec 64}
    (hle : 64 ^ n ≤ index.toNat) : contents trie index = none := by
  rw [contents, if_neg (by omega)]

section

variable {root : RadixTreeRoot V} {map : BitVec 64 → Option V}

/-- The trie of a tree has what the map has. -/
theorem RadixMap.tree (h : RadixMap root map) :
    ∃ (n : ℕ) (trie : RadixTrie V n), TreeOk root trie ∧ trie.Full ∧ contents trie = map := by
  obtain ⟨⟨n, trie, hok, hfull, hmap⟩, hrange⟩ := h
  refine ⟨n, trie, hok, hfull, funext fun index => ?_⟩
  by_cases hindex : index.toNat < 2 ^ 60
  · exact hmap index hindex
  · have hle := pow_height_le hok
    rw [hrange index (by omega), contents_eq_none_of_le trie (by omega)]

theorem RadixMap.lookup_eq (h : RadixMap root map) (index : BitVec 64) :
    radixTreeLookup root index = some (map index) := by
  obtain ⟨n, trie, hok, -, rfl⟩ := h.tree
  exact hok.lookup_eq index

theorem RadixMap.index_lt (h : RadixMap root map) {index : BitVec 64}
    (hthere : map index ≠ none) : index.toNat < 2 ^ 60 := by
  by_contra hge
  exact hthere (h.range index (by omega))

/-- The shift of `radix_max` is less than 64. -/
theorem RadixMap.height_le (h : RadixMap root map) : root.height ≤ 10 := by
  obtain ⟨n, trie, hok, -, -⟩ := h.tree
  rw [hok.height]
  exact hok.bound

/-- A binding below `2 ^ 60` does not matter beyond. -/
theorem update_range (hrange : ∀ key : BitVec 64, 2 ^ 60 ≤ key.toNat → map key = none)
    {index : BitVec 64} (hindex : index.toNat < 2 ^ 60) (value : Option V) :
    ∀ key : BitVec 64, 2 ^ 60 ≤ key.toNat → Function.update map index value key = none := by
  intro key hkey
  have hne : key ≠ index := fun heq => by
    rw [heq] at hkey
    omega
  rw [Function.update_of_ne hne, hrange key hkey]

/-- **`radix_tree_delete`**, with any index. -/
theorem RadixMap.delete_eq (h : RadixMap root map) (index : BitVec 64) :
    ∃ root', radixTreeDelete root index = some (map index, root') ∧
      RadixMap root' (Function.update map index none) := by
  by_cases hindex : index.toNat < 2 ^ 60
  · obtain ⟨root', hdelete, hrep⟩ := Webcamd.Kernel.delete_eq hindex h.rep
    exact ⟨root', hdelete, hrep, update_range h.range hindex none⟩
  · have hnone := h.range index (by omega)
    have hsame : Function.update map index none = map :=
      Function.update_eq_self_iff.mpr hnone.symm
    obtain ⟨n, trie, hok, hfull, rfl⟩ := h.tree
    rw [hsame, hnone]
    exact ⟨root, hok.delete_none hnone, h⟩

/-- Every sequence of positions is that of an index. -/
theorem exists_number (key : ℕ → Fin 64) (n : ℕ) :
    ∃ number < 64 ^ n, ∀ k < n, number / 64 ^ k % 64 = (key k).val := by
  induction n with
  | zero => exact ⟨0, by simp, fun k hk => by omega⟩
  | succ n ih =>
      obtain ⟨number, hlt, hdigits⟩ := ih
      have hpos : 0 < 64 ^ n := by positivity
      refine ⟨number + 64 ^ n * (key n).val, ?_, fun k hk => ?_⟩
      · have hdigit := (key n).isLt
        calc number + 64 ^ n * (key n).val < 64 ^ n * ((key n).val + 1) := by
              rw [Nat.mul_succ]
              omega
          _ ≤ 64 ^ (n + 1) := by
              rw [pow_succ]
              exact Nat.mul_le_mul_left _ hdigit
      · rcases Nat.lt_succ_iff_lt_or_eq.mp hk with hlow | rfl
        · obtain ⟨d, rfl⟩ := Nat.exists_eq_add_of_lt hlow
          rw [← hdigits k hlow, show 64 ^ (k + d + 1) * (key (k + d + 1)).val =
            64 ^ k * (64 * (64 ^ d * (key (k + d + 1)).val)) by ring,
            Nat.add_mul_div_left _ _ (by positivity), Nat.add_mul_mod_self_left]
        · rw [Nat.add_mul_div_left _ _ hpos, Nat.div_eq_of_lt hlt, Nat.zero_add,
            Nat.mod_eq_of_lt (key k).isLt]

/-- **The empty map is held by the empty tree alone.** -/
theorem RadixMap.eq_init (h : RadixMap root map) (hempty : ∀ index, map index = none) :
    root = .init := by
  obtain ⟨n, trie, hok, hfull, hcontents⟩ := h.tree
  have hnil : trie = .nil := by
    by_contra hne
    have hused : trie.isNil = false := by
      cases htrie : trie.isNil with
      | true => exact absurd ((Trie.isNil_iff trie).mp htrie) hne
      | false => rfl
    obtain ⟨key, hkey⟩ := hfull.exists_lookup hused
    obtain ⟨number, hlt, hdigits⟩ := exists_number key n
    have hle := pow_height_le hok
    have hnumber : (BitVec.ofNat 64 number).toNat = number := by
      rw [BitVec.toNat_ofNat, Nat.mod_eq_of_lt]
      omega
    have hpos : ∀ k < n, radixPos (BitVec.ofNat 64 number) k = key k := by
      intro k hk
      apply Fin.ext
      rw [radixPos_val (by omega), hnumber, hdigits k hk]
    refine hkey ?_
    rw [← Trie.lookup_congr trie hpos, ← hempty (BitVec.ofNat 64 number), ← hcontents, contents,
      if_pos (by omega)]
  subst hnil
  have hzero := hok.empty rfl
  have hheap : root.heap = fun _ => none := by
    funext addr
    by_contra hne
    exact absurd (hok.exact addr hne) (Set.notMem_empty _)
  have hheight : root.height = 0 := hok.height.trans hzero
  have hrnode : root.rnode = none := hok.rnode_nil
  cases root with
  | mk heap rnode height =>
      subst hheap hheight hrnode
      rfl

/-! ### Growing to the eleventh level -/

/-- `malloc` can be called this often, one call after the other. -/
def mallocsSucceed : (count : ℕ) → RadixHeap V → MallocAnswers → Bool
  | 0, _, _ => true
  | count + 1, heap, answers =>
      match malloc heap answers with
      | (none, _) => false
      | (some addr, rest) =>
          mallocsSucceed count (Function.update heap addr (some zeroedNode)) rest

/-- How many nodes it takes to make the tree eleven levels high: one in an empty tree, since
a root node without children serves any height. -/
def levelsToTop (root : RadixTreeRoot V) : ℕ :=
  if root.rnode.isNone then 1 else radixTreeMaxHeight - root.height

/-- The call makes the tree eleven levels high. -/
def Overgrows (root : RadixTreeRoot V) : RadixCall V → Prop
  | .insert index (some _) answers | .store index (some _) answers =>
      2 ^ 60 ≤ index.toNat ∧ mallocsSucceed (levelsToTop root) root.heap answers = true
  | .insert _ none _ | .store _ none _ | .delete _ => False

/-- Only which addresses are free matters. -/
theorem mallocsSucceed_congr (count : ℕ) {heap other : RadixHeap V}
    (hsame : ∀ addr, (heap addr).isNone = (other addr).isNone) (answers : MallocAnswers) :
    mallocsSucceed count heap answers = mallocsSucceed count other answers := by
  induction count generalizing heap other answers with
  | zero => rfl
  | succ count ih =>
      have hmalloc : malloc heap answers = malloc other answers := by
        match answers with
        | [] => rfl
        | none :: rest => rfl
        | some addr :: rest => simp [malloc, hsame addr]
      rw [mallocsSucceed, mallocsSucceed, hmalloc]
      split
      · rfl
      · refine ih (fun addr => ?_) _
        simp only [Function.update_apply]
        split
        · rfl
        · exact hsame addr

theorem mallocsSucceed_fail {count : ℕ} {heap : RadixHeap V} {answers rest : MallocAnswers}
    (hmalloc : malloc heap answers = (none, rest)) :
    mallocsSucceed (count + 1) heap answers = false := by
  rw [mallocsSucceed, hmalloc]

/-- One call more, whatever is stored in the node it allocates. -/
theorem mallocsSucceed_step {count fresh : ℕ} {heap : RadixHeap V}
    {answers rest : MallocAnswers} (hmalloc : malloc heap answers = (some fresh, rest))
    (node : RadixTreeNode V) :
    mallocsSucceed (count + 1) heap answers =
      mallocsSucceed count (Function.update heap fresh (some node)) rest := by
  rw [mallocsSucceed, hmalloc]
  refine mallocsSucceed_congr count (fun addr => ?_) rest
  simp only [Function.update_apply]
  split <;> rfl

/-- At the eleventh level `radix_max` has no result. -/
theorem expand_top {index : BitVec 64} {fuel addr : ℕ} {answers : MallocAnswers}
    (hheight : root.height = 11) : expand index fuel addr root answers = none := by
  cases fuel with
  | zero => rfl
  | succ fuel =>
      rw [expand, hheight]
      rfl

/-- A tree is within the levels, and below an index of the last of them. -/
theorem height_bounds {index : BitVec 64} (hindex : 2 ^ 60 ≤ index.toNat) {n addr : ℕ}
    {slots : Fin 64 → RadixTrie V n} (hok : TreeOk root (.node addr slots)) :
    root.height ≤ 10 ∧ 64 ^ root.height ≤ index.toNat := by
  rw [hok.height]
  exact ⟨hok.bound, (pow_height_le hok).trans hindex⟩

/-- A root node without children is raised to the top. -/
theorem expand_empty {index : BitVec 64} (hindex : 2 ^ 60 ≤ index.toNat) {fuel n addr : ℕ}
    {answers : MallocAnswers}
    (hok : TreeOk root (.node addr fun _ => (.nil : RadixTrie V n))) :
    expand index fuel addr root answers = none := by
  induction fuel generalizing root n with
  | zero => rfl
  | succ fuel ih =>
      obtain ⟨hbound, hlow⟩ := height_bounds hindex hok
      have hcount : (nodeOf fun _ => (.nil : RadixTrie V n)).count = 0 := by
        rw [nodeOf_nil]
        rfl
      rw [expand_round_raise hbound hlow hok.holds.1 hcount]
      by_cases hn : n + 1 < 10
      · exact ih (hok.raise hn)
      · refine expand_top ?_
        have hheight := hok.height
        show root.height + 1 = 11
        omega

/-- **A tree with items** grows to the top, or runs out of memory on the way. -/
theorem expand_used {index : BitVec 64} (hindex : 2 ^ 60 ≤ index.toNat) {fuel n addr : ℕ}
    {slots : Fin 64 → RadixTrie V n} {answers : MallocAnswers}
    (hok : TreeOk root (Trie.node addr slots)) (hfull : (Trie.node addr slots).Full)
    (hmap : ∀ key, key.toNat < 2 ^ 60 → contents (Trie.node addr slots) key = map key)
    (hfuel : 10 < fuel + (n + 1)) :
    (mallocsSucceed (11 - (n + 1)) root.heap answers = true ∧
      expand index fuel addr root answers = none) ∨
    (mallocsSucceed (11 - (n + 1)) root.heap answers = false ∧
      ∃ root', expand index fuel addr root answers = some (.failed .enomem root') ∧
        RadixRep root' map) := by
  induction fuel generalizing root n addr answers with
  | zero =>
      have hbound := hok.bound
      omega
  | succ fuel ih =>
      obtain ⟨hbound, hlow⟩ := height_bounds hindex hok
      have hcount := count_nodeOf_ne_zero.mpr hfull.1
      have hheight := hok.height
      obtain ⟨levels, hlevels⟩ : ∃ levels, 11 - (n + 1) = levels + 1 := ⟨9 - n, by omega⟩
      rw [hlevels]
      obtain ⟨rest, hfail | ⟨fresh, hmalloc, hfree⟩⟩ := malloc_cases root.heap answers
      · rw [expand_round_fail hbound hlow hok.holds.1 hcount hfail, mallocsSucceed_fail hfail]
        exact Or.inr ⟨rfl, root, rfl, n + 1, _, hok, hfull, hmap⟩
      · rw [expand_round_grow hbound hlow hok.holds.1 hcount hmalloc, mallocsSucceed_step hmalloc]
        by_cases hn : n + 1 < 10
        · have hgrown := hok.grow rfl hn hfree
          obtain rfl : levels = 11 - (n + 1 + 1) := by omega
          refine ih hgrown ⟨⟨0, ?_⟩, fun i => ?_⟩ (fun key hkey => ?_) (by omega)
          · rw [Function.update_self]
            rfl
          · by_cases hi : i = 0
            · rw [hi, Function.update_self]
              exact hfull
            · rw [Function.update_of_ne hi]
              trivial
          · rw [contents_grow _ hkey, hmap key hkey]
        · obtain rfl : levels = 0 := by omega
          refine Or.inl ⟨rfl, expand_top ?_⟩
          show root.height + 1 = 11
          omega

/-- **The way to the leaf** of an index of `2 ^ 60` or more. -/
theorem radixTreeReach_top {index : BitVec 64} (hindex : 2 ^ 60 ≤ index.toNat)
    (answers : MallocAnswers) (h : RadixMap root map) :
    (mallocsSucceed (levelsToTop root) root.heap answers = true ∧
      radixTreeReach root index answers = none) ∨
    (mallocsSucceed (levelsToTop root) root.heap answers = false ∧
      ∃ root', radixTreeReach root index answers = some (.failed .enomem root') ∧
        RadixMap root' map) := by
  have hrange := h.range
  obtain ⟨n, trie, hok, hfull, hcontents⟩ := h.tree
  cases trie with
  | nil =>
      have hzero := hok.empty rfl
      subst hzero
      have hlevels : levelsToTop root = 1 := by simp [levelsToTop, hok.rnode_nil]
      rw [hlevels, mallocsSucceed, radixTreeReach, hok.rnode_nil]
      obtain ⟨rest, hfail | ⟨fresh, hmalloc, -⟩⟩ := malloc_cases root.heap answers
      · rw [hfail]
        exact Or.inr ⟨rfl, root, rfl, h⟩
      · rw [hmalloc]
        refine Or.inl ⟨rfl, ?_⟩
        show expandAndReach index fresh _ rest = none
        rw [expandAndReach, expand_empty hindex hok.plant, Option.bind_none]
  | item value => exact hok.not_item.elim
  | @node m addr slots =>
      have hlevels : levelsToTop root = 11 - (m + 1) := by
        rw [levelsToTop, hok.rnode_node, hok.height]
        rfl
      have hfuel : 10 < radixTreeMaxHeight + 1 + (m + 1) := by
        show 10 < 11 + 1 + (m + 1)
        omega
      have hused := @expand_used V root map index hindex _ m addr slots answers hok hfull
        (fun key _ => congrFun hcontents key) hfuel
      rw [hlevels, radixTreeReach, hok.rnode_node]
      show (_ ∧ expandAndReach index addr root answers = none) ∨ (_ ∧ ∃ root',
        expandAndReach index addr root answers = some (.failed .enomem root') ∧ _)
      rw [expandAndReach]
      rcases hused with ⟨hmemory, hnone⟩ | ⟨hmemory, root', hfail, hrep⟩
      · rw [hnone]
        exact Or.inl ⟨hmemory, rfl⟩
      · rw [hfail]
        exact Or.inr ⟨hmemory, root', rfl, hrep, hrange⟩

/-! ### One call -/

/-- A call with an index below `2 ^ 60` binds nothing beyond. -/
theorem MapStep.range {next : BitVec 64 → Option V} {call : RadixCall V} {ret : RadixReturn V}
    (h : MapStep map call ret next) (hindex : call.index.toNat < 2 ^ 60)
    (hrange : ∀ index : BitVec 64, 2 ^ 60 ≤ index.toNat → map index = none) :
    ∀ index : BitVec 64, 2 ^ 60 ≤ index.toNat → next index = none := by
  have hupdate := update_range hrange hindex
  cases h with
  | insertNull => exact hrange
  | insertBound => exact hrange
  | insertFree index value => exact hupdate (some value)
  | insertMemory => exact hrange
  | storeNull => exact hupdate none
  | storeItem index value => exact hupdate (some value)
  | storeMemory => exact hrange
  | delete => exact hupdate none

theorem MapRun.range {last : BitVec 64 → Option V} {calls : List (RadixCall V)}
    {rets : List (RadixReturn V)} (h : MapRun map calls rets last)
    (hindex : ∀ call ∈ calls, call.index.toNat < 2 ^ 60)
    (hrange : ∀ index : BitVec 64, 2 ^ 60 ≤ index.toNat → map index = none) :
    ∀ index : BitVec 64, 2 ^ 60 ≤ index.toNat → last index = none := by
  induction h with
  | nil map => exact hrange
  | cons first rest ih =>
      rw [List.forall_mem_cons] at hindex
      exact ih hindex.2 (first.range hindex.1 hrange)

/-- Calls with indices below `2 ^ 60`, on an empty tree. -/
theorem radixMap_run (calls : List (RadixCall V))
    (hindex : ∀ call ∈ calls, call.index.toNat < 2 ^ 60) :
    ∃ root rets map, (radixMachine V).run .init calls = some (root, rets) ∧
      MapRun (fun _ => none) calls rets map ∧ RadixMap root map := by
  obtain ⟨root, rets, map, hrun, hmap, hrep⟩ := RadixRep.init.run calls hindex
  exact ⟨root, rets, map, hrun, hmap, hrep, hmap.range hindex fun _ _ => rfl⟩

/-- **A call that does not make the tree too high** has a result, and the map makes the same
step. -/
theorem RadixMap.step (h : RadixMap root map) {call : RadixCall V}
    (hcall : ¬ Overgrows root call) :
    ∃ root' ret next, (radixMachine V).step root call = some (root', [ret]) ∧
      MapStep map call ret next ∧ RadixMap root' next := by
  by_cases hindex : call.index.toNat < 2 ^ 60
  · obtain ⟨root', ret, next, hstep, hmap, hrep⟩ := h.rep.step call hindex
    exact ⟨root', ret, next, hstep, hmap, hrep, hmap.range hindex h.range⟩
  · replace hindex : 2 ^ 60 ≤ call.index.toNat := by omega
    match call with
    | .insert index none answers => exact ⟨root, _, map, rfl, .insertNull index answers, h⟩
    | .insert index (some value) answers =>
        rcases radixTreeReach_top hindex answers h with ⟨hmemory, -⟩ | ⟨-, root', hfail, hmap⟩
        · exact absurd ⟨hindex, hmemory⟩ hcall
        · refine ⟨root', _, map, ?_, .insertMemory index value answers, hmap⟩
          replace hfail : radixTreeReach root index answers = _ := hfail
          simp [radixMachine, radixTreeInsert, hfail]
    | .store index none answers =>
        obtain ⟨root', hdelete, hmap⟩ := h.delete_eq index
        refine ⟨root', _, _, ?_, .storeNull index answers, hmap⟩
        simp [radixMachine, radixTreeStore, hdelete]
    | .store index (some value) answers =>
        rcases radixTreeReach_top hindex answers h with ⟨hmemory, -⟩ | ⟨-, root', hfail, hmap⟩
        · exact absurd ⟨hindex, hmemory⟩ hcall
        · refine ⟨root', _, map, ?_, .storeMemory index value answers, hmap⟩
          replace hfail : radixTreeReach root index answers = _ := hfail
          simp [radixMachine, radixTreeStore, hfail]
    | .delete index =>
        obtain ⟨root', hdelete, hmap⟩ := h.delete_eq index
        refine ⟨root', _, _, ?_, .delete index, hmap⟩
        simp [radixMachine, hdelete]

/-- **A call that makes the tree too high** has no result. -/
theorem RadixMap.step_none (h : RadixMap root map) {call : RadixCall V}
    (hcall : Overgrows root call) : (radixMachine V).step root call = none := by
  match call with
  | .insert index none answers => exact hcall.elim
  | .insert index (some value) answers =>
      rcases radixTreeReach_top hcall.1 answers h with ⟨-, hnone⟩ | ⟨hmemory, -⟩
      · simp [radixMachine, radixTreeInsert, hnone]
      · exact absurd hcall.2 (by simp [hmemory])
  | .store index none answers => exact hcall.elim
  | .store index (some value) answers =>
      rcases radixTreeReach_top hcall.1 answers h with ⟨-, hnone⟩ | ⟨hmemory, -⟩
      · simp [radixMachine, radixTreeStore, hnone]
      · exact absurd hcall.2 (by simp [hmemory])
  | .delete index => exact hcall.elim

/-! ### What a call promises -/

/-- The call ran out of memory, or into the maximum height. -/
def RadixReturn.failed : RadixReturn V → Prop
  | .inserted status => status = .enomem ∨ status = .e2big
  | .stored status _ => status = .enomem ∨ status = .e2big
  | .deleted _ => False

/-- What a call that leads from one tree to another and returns something promises. -/
structure CallKeeps (root : RadixTreeRoot V) (call : RadixCall V) (ret : RadixReturn V)
    (root' : RadixTreeRoot V) : Prop where
  /-- No shift in the trees is by 64 or more; `radix_pos` shifts by less than `radix_max`. -/
  shift : root.height * radixTreeMapShift < 64 ∧ root'.height * radixTreeMapShift < 64
  lookup : ∀ key, (radixTreeLookup root' key).isSome = true
  failed : ret.failed → ∀ key, radixTreeLookup root' key = radixTreeLookup root key
  inserted : ∀ index item answers, call = .insert index item answers → ret = .inserted .ok →
    radixTreeLookup root index = some none ∧
    ∀ key, radixTreeLookup root' key = if key = index then some item else radixTreeLookup root key
  stored : ∀ index item answers old, call = .store index item answers → ret = .stored .ok old →
    radixTreeLookup root index = some old ∧
    ∀ key, radixTreeLookup root' key = if key = index then some item else radixTreeLookup root key

/-- The call has a result, and does what it promises. -/
def CallRight (root : RadixTreeRoot V) (call : RadixCall V) : Prop :=
  ∃ root' ret, (radixMachine V).step root call = some (root', [ret]) ∧
    CallKeeps root call ret root'

theorem some_update (map : BitVec 64 → Option V) (index key : BitVec 64) (item : Option V) :
    some (Function.update map index item key) =
      if key = index then some item else some (map key) := by
  rw [Function.update_apply]
  split <;> rfl

/-- A step of the map is what the lookups show. -/
theorem MapStep.callKeeps {root' : RadixTreeRoot V} {next : BitVec 64 → Option V}
    {call : RadixCall V} {ret : RadixReturn V} (hstep : MapStep map call ret next)
    (h : RadixMap root map) (h' : RadixMap root' next) : CallKeeps root call ret root' := by
  have hshift : ∀ height ≤ 10, height * radixTreeMapShift < 64 := by
    intro height hheight
    show height * 6 < 64
    omega
  refine ⟨⟨hshift _ h.height_le, hshift _ h'.height_le⟩, fun key => by rw [h'.lookup_eq]; rfl,
    ?_, ?_, ?_⟩
  · intro hfailed key
    rw [h.lookup_eq, h'.lookup_eq]
    cases hstep with
    | insertNull => rfl
    | insertBound => rfl
    | insertFree => exact absurd hfailed (by simp [RadixReturn.failed])
    | insertMemory => rfl
    | storeNull => exact absurd hfailed (by simp [RadixReturn.failed])
    | storeItem => exact absurd hfailed (by simp [RadixReturn.failed])
    | storeMemory => rfl
    | delete => exact hfailed.elim
  · rintro index item answers rfl rfl
    cases hstep with
    | insertFree _ value _ hfree =>
        refine ⟨by rw [h.lookup_eq, hfree], fun key => ?_⟩
        rw [h.lookup_eq, h'.lookup_eq, some_update]
  · rintro index item answers old rfl rfl
    cases hstep with
    | storeNull =>
        refine ⟨h.lookup_eq index, fun key => ?_⟩
        rw [h.lookup_eq, h'.lookup_eq, some_update]
    | storeItem _ value =>
        refine ⟨h.lookup_eq index, fun key => ?_⟩
        rw [h.lookup_eq, h'.lookup_eq, some_update]

/-- **A call does what it promises exactly when it does not make the tree too high.** -/
theorem RadixMap.callRight_iff (h : RadixMap root map) (call : RadixCall V) :
    CallRight root call ↔ ¬ Overgrows root call := by
  constructor
  · rintro ⟨root', ret, hstep, -⟩ hcall
    rw [h.step_none hcall] at hstep
    cases hstep
  · intro hcall
    obtain ⟨root', ret, next, hstep, hmap, hnext⟩ := h.step hcall
    exact ⟨root', ret, hstep, hmap.callKeeps h hnext⟩

/-- A call that has a result leads from a map to a map. -/
theorem exists_radixMap_step {root next : RadixTreeRoot V} {call : RadixCall V}
    {rets : List (RadixReturn V)} (h : ∃ map, RadixMap root map)
    (hnext : (radixMachine V).step root call = some (next, rets)) : ∃ map, RadixMap next map := by
  obtain ⟨map, h⟩ := h
  have hcall : ¬ Overgrows root call := fun hcall => by
    rw [h.step_none hcall] at hnext
    cases hnext
  obtain ⟨root', ret, map', hstep, -, hmap'⟩ := h.step hcall
  obtain ⟨rfl, -⟩ := Prod.mk.inj (Option.some.inj (hstep.symm.trans hnext))
  exact ⟨map', hmap'⟩

/-- Whatever calls are made on an empty tree, it holds a map as long as they have results. -/
theorem radixMap_attempted (calls : List (RadixCall V)) :
    ∀ pair ∈ (radixMachine V).attempted .init calls, ∃ map, RadixMap pair.1 map :=
  (radixMachine V).attempted_invariant exists_radixMap_step ⟨_, RadixMap.init⟩

/-- It holds one in the end if they all have. -/
theorem radixMap_of_run {calls : List (RadixCall V)} {root : RadixTreeRoot V}
    {rets : List (RadixReturn V)} (hrun : (radixMachine V).run .init calls = some (root, rets)) :
    ∃ map, RadixMap root map :=
  ((radixMachine V).run_states exists_radixMap_step ⟨_, RadixMap.init⟩ hrun).2

end

/-! ### Sequences of calls -/

/-- **The top of the index range.**  Whatever calls are made on an empty tree, with any
64-bit indices, and whatever `malloc` answers: they all have results and do what they promise
exactly when none of them makes the tree grow to the eleventh level. -/
theorem radixTree_top_iff (calls : List (RadixCall V)) :
    (((radixMachine V).run .init calls).isSome = true ∧
      ∀ pair ∈ (radixMachine V).attempted .init calls, CallRight pair.1 pair.2) ↔
    ∀ pair ∈ (radixMachine V).attempted .init calls, ¬ Overgrows pair.1 pair.2 := by
  constructor
  · rintro ⟨-, hright⟩ pair hmem
    obtain ⟨map, h⟩ := radixMap_attempted calls pair hmem
    exact (h.callRight_iff pair.2).mp (hright pair hmem)
  · intro hcalls
    have hright : ∀ pair ∈ (radixMachine V).attempted .init calls, CallRight pair.1 pair.2 := by
      intro pair hmem
      obtain ⟨map, h⟩ := radixMap_attempted calls pair hmem
      exact (h.callRight_iff pair.2).mpr (hcalls pair hmem)
    refine ⟨(radixMachine V).run_isSome_iff.mpr fun pair hmem => ?_, hright⟩
    obtain ⟨root', ret, hstep, -⟩ := hright pair hmem
    rw [hstep]
    rfl

/-- One item at index five, and one at index `2 ^ 60`. -/
def insertAtTop : List (RadixCall ℕ) :=
  [.insert 5 (some 1) [some 10],
    .insert (1#64 <<< 60) (some 2) ((List.range 30).map fun n => some (n + 20))]

theorem radixTree_top_overflow :
    ¬ (((radixMachine ℕ).run .init insertAtTop).isSome = true ∧
      ∀ pair ∈ (radixMachine ℕ).attempted .init insertAtTop, CallRight pair.1 pair.2) := by
  have hrun : ((radixMachine ℕ).run .init insertAtTop).isSome = false := by decide +kernel
  rw [hrun]
  exact fun hright => absurd hright.1 (by simp)

end Webcamd.Kernel
