import Webcamd.Kernel.RadixTreeRange
import Webcamd.Library.NextKey

/-!
# Iterating over the radix tree

`radix_tree_iter_find` of `kernel/linux_radix.c`, and the loop that `radix_tree_for_each_slot`
of `kernel/linux_radix.h` makes of it.

The search walks down to a leaf and moves on to the next slot where there is nothing.  At
height `h` a slot stands for `64 ^ h` indices, so moving on is adding that number and clearing
what is below it; when the slot after the last one would be the next, the search begins again
at the root.

* `IterPlace`, `iterFindLoop` — the search, with a number of rounds that bounds it.  It has no
  result where the rounds do not suffice, or where an access goes wrong.
* `iterFindLoop_eq` — the rounds always suffice, and the result is the least index from the
  start on (`FoundNext`).
* `forEachSlot_eq` — the loop visits the indices in ascending order, also when its body changes
  the tree behind the iterator.
-/

namespace Webcamd.Kernel

open Webcamd.Library

variable {V : Type}

/-! ### The search -/

/-- Where a slot is: the node, and the slot's position in it. -/
abbrev SlotPlace := ℕ × Fin 64

/-- What `radix_tree_iter_find` leaves: its return value, `iter->index`, and `*pppslot`, which
is `none` until something is stored there. -/
structure IterFind where
  found : Bool
  index : BitVec 64
  slot : Option SlotPlace
  deriving DecidableEq

/-- Where the search is: at the label `restart`, or before a round of the loop, at a node. -/
inductive IterPlace where
  | restart
  | node (addr height : ℕ)

/-- `index += step; index &= -step;` -/
def iterSkip (index : BitVec 64) (height : ℕ) : BitVec 64 :=
  (index + 1#64 <<< (radixTreeMapShift * height)) &&& -(1#64 <<< (radixTreeMapShift * height))

/-- `mask` -/
def iterMask (height : ℕ) : BitVec 64 := 63#64 <<< (radixTreeMapShift * height)

/-- The search of `radix_tree_iter_find`; `start` is what `iter->index` is until the search
succeeds, and `fuel` bounds the rounds. -/
def iterFindLoop (root : RadixTreeRoot V) (start : BitVec 64) :
    (fuel : ℕ) → IterPlace → (index : BitVec 64) → Option SlotPlace → Option IterFind
  | 0, _, _, _ => none
  | fuel + 1, .restart, index, slot =>
      match root.rnode with
      | none => some ⟨false, start, slot⟩
      | some addr =>
          if root.height = 0 then some ⟨false, start, slot⟩
          else (radixMax root.height).bind fun max =>
            if index > max then some ⟨false, start, slot⟩
            else iterFindLoop root start fuel (.node addr (root.height - 1)) index slot
  | fuel + 1, .node addr height, index, _ => (root.heap addr).bind fun node =>
      let slot := some (addr, radixPos index height)
      match node.slots (radixPos index height), height with
      | .null, _ =>
          if iterSkip index height &&& iterMask height = 0 then
            iterFindLoop root start fuel .restart (iterSkip index height) slot
          else iterFindLoop root start fuel (.node addr height) (iterSkip index height) slot
      | _, 0 => some ⟨true, index, slot⟩
      | .node child, height + 1 => iterFindLoop root start fuel (.node child height) index slot
      | .item _, _ + 1 => none

/-- More rounds than a search can make: the index only grows, and between two indices the
search only walks down. -/
def iterFindRounds : ℕ := 2 ^ 64 * 12

/-- `radix_tree_iter_find`, with `iter->index` and `*pppslot` as they are before. -/
def radixTreeIterFind (root : RadixTreeRoot V) (index : BitVec 64) (slot : Option SlotPlace) :
    Option IterFind :=
  iterFindLoop root index iterFindRounds .restart index slot

/-! ### The loop -/

/-- What a loop does with the tree at an index and its slot. -/
abbrev SlotBody (V : Type) :=
  RadixTreeRoot V → BitVec 64 → Option SlotPlace → Option (RadixTreeRoot V)

/-- The loop of `radix_tree_for_each_slot` from an index on: what its body was called for, and
the tree afterwards. -/
def forEachSlot (body : SlotBody V) :
    (fuel : ℕ) → (index : BitVec 64) → Option SlotPlace → RadixTreeRoot V →
      Option (List (BitVec 64 × Option SlotPlace) × RadixTreeRoot V)
  | 0, _, _, _ => none
  | fuel + 1, index, slot, root => (radixTreeIterFind root index slot).bind fun iter =>
      if iter.found then
        (body root iter.index iter.slot).bind fun next =>
          (forEachSlot body fuel (iter.index + 1) iter.slot next).map fun rest =>
            ((iter.index, iter.slot) :: rest.1, rest.2)
      else some ([], root)

/-- `radix_tree_for_each_slot`: the index grows from round to round. -/
def radixTreeForEachSlot (body : SlotBody V) (root : RadixTreeRoot V) (start : BitVec 64) :
    Option (List (BitVec 64 × Option SlotPlace) × RadixTreeRoot V) :=
  forEachSlot body (2 ^ 64 + 1) start none root

/-- `radix_tree_iter_delete` -/
def radixTreeIterDelete : SlotBody V := fun root index _ =>
  (radixTreeDelete root index).map Prod.snd

/-! ### Steps and masks -/

theorem step_toNat {height : ℕ} (hheight : height ≤ 9) :
    (1#64 <<< (radixTreeMapShift * height)).toNat = 64 ^ height := by
  interval_cases height <;> rfl

theorem mask_toNat {height : ℕ} (hheight : height ≤ 9) :
    (iterMask height).toNat = 63 * 64 ^ height := by
  interval_cases height <;> rfl

theorem neg_step_toNat {height : ℕ} (hheight : height ≤ 9) :
    (-(1#64 <<< (radixTreeMapShift * height))).toNat = 2 ^ 64 - 64 ^ height := by
  interval_cases height <;> rfl

/-- Clearing the low bits of a number. -/
theorem and_high_bits {x k : ℕ} (hx : x < 2 ^ 64) (hk : k ≤ 64) :
    x &&& (2 ^ 64 - 2 ^ k) = x / 2 ^ k * 2 ^ k := by
  have hsplit : 2 ^ 64 - 2 ^ k = 2 ^ k * (2 ^ (64 - k) - 1) := by
    rw [Nat.mul_sub, ← pow_add, Nat.mul_one, Nat.add_sub_cancel' hk]
  apply Nat.eq_of_testBit_eq
  intro i
  rw [hsplit, Nat.testBit_and, Nat.testBit_two_pow_mul, Nat.testBit_two_pow_sub_one, mul_comm,
    Nat.testBit_two_pow_mul, Nat.testBit_div_two_pow]
  by_cases hi : k ≤ i
  · by_cases hlt : i - k < 64 - k
    · simp [hi, hlt]
    · have hzero : x.testBit i = false :=
        Nat.testBit_lt_two_pow (lt_of_lt_of_le hx (Nat.pow_le_pow_right (by omega) (by omega)))
      simp [hi, hlt, hzero]
  · simp [hi]

/-- **Moving on** leads to the first index of the next slot. -/
theorem iterSkip_toNat {index : BitVec 64} {height : ℕ} (hindex : index.toNat < 2 ^ 60)
    (hheight : height ≤ 9) :
    (iterSkip index height).toNat = (index.toNat / 64 ^ height + 1) * 64 ^ height := by
  have hpow : (64 : ℕ) ^ height ≤ 2 ^ 54 := by
    calc (64 : ℕ) ^ height ≤ 64 ^ 9 := Nat.pow_le_pow_right (by omega) hheight
      _ = 2 ^ 54 := by norm_num
  have hsum : (index + 1#64 <<< (radixTreeMapShift * height)).toNat =
      index.toNat + 64 ^ height := by
    rw [BitVec.toNat_add, step_toNat hheight, Nat.mod_eq_of_lt]
    omega
  have hbits : (64 : ℕ) ^ height = 2 ^ (6 * height) := by
    rw [pow_mul]
    norm_num
  rw [iterSkip, BitVec.toNat_and, hsum, neg_step_toNat hheight, hbits,
    and_high_bits (by omega) (by omega), Nat.add_div_right _ (by positivity)]

/-- **The mask** tells whether the next slot is in the same node. -/
theorem iterSkip_and_mask {index : BitVec 64} {height : ℕ} (hindex : index.toNat < 2 ^ 60)
    (hheight : height ≤ 9) :
    iterSkip index height &&& iterMask height = 0 ↔
      (index.toNat / 64 ^ height + 1) % 64 = 0 := by
  have hbits : (64 : ℕ) ^ height = 2 ^ (6 * height) := by
    rw [pow_mul]
    norm_num
  have hmask : ∀ x : ℕ, x &&& 63 = x % 64 := fun x => Nat.and_two_pow_sub_one_eq_mod x 6
  have hand : (iterSkip index height &&& iterMask height).toNat =
      (index.toNat / 64 ^ height + 1) % 64 * 2 ^ (6 * height) := by
    rw [BitVec.toNat_and, iterSkip_toNat hindex hheight, mask_toNat hheight, hbits,
      ← Nat.shiftLeft_eq, ← Nat.shiftLeft_eq, ← Nat.shiftLeft_and_distrib, hmask,
      Nat.shiftLeft_eq]
  rw [← BitVec.toNat_inj, hand]
  show _ = 0 ↔ _
  rw [Nat.mul_eq_zero]
  have hpos : (2 : ℕ) ^ (6 * height) ≠ 0 := by positivity
  tauto

/-! ### Where the search is -/

/-- Indices in the same run of `64 ^ height` have the same positions from that height on. -/
theorem radixPos_eq_of_div {index other : BitVec 64} (hindex : index.toNat < 2 ^ 60)
    (hother : other.toNat < 2 ^ 60) {height k : ℕ} (hk : height ≤ k)
    (hdiv : other.toNat / 64 ^ height = index.toNat / 64 ^ height) :
    radixPos other k = radixPos index k := by
  obtain ⟨d, rfl⟩ := Nat.exists_eq_add_of_le hk
  apply Fin.ext
  rw [radixPos_val hother, radixPos_val hindex, pow_add, ← Nat.div_div_eq_div_mul,
    ← Nat.div_div_eq_div_mul, hdiv]

theorem Holds.below {heap : RadixHeap V} {index : BitVec 64} {m n : ℕ} {sub : RadixTrie V m}
    {trie : RadixTrie V n} (hholds : Holds heap trie)
    (hbelow : Trie.Below (radixPos index) sub trie) : Holds heap sub := by
  induction hbelow with
  | here => exact hholds
  | down rest ih => exact ih (hholds.2 _)

/-- The leaf node on the way to an index is the one that a lookup reads. -/
theorem lookupWalk_below {heap : RadixHeap V} {index : BitVec 64} {leaf : ℕ}
    {leafSlots : Fin 64 → RadixTrie V 0} {height addr : ℕ} {slots : Fin 64 → RadixTrie V height}
    (hholds : Holds heap (.node addr slots))
    (hbelow : Trie.Below (radixPos index) (.node leaf leafSlots) (.node addr slots)) :
    lookupWalk heap index height (some addr) = some (some leaf) := by
  induction height generalizing addr with
  | zero =>
      cases hbelow with
      | here => rfl
      | down rest => exact absurd rest.le (by omega)
  | succ height ih =>
      cases hbelow with
      | down rest =>
          rcases slot_cases (slots (radixPos index (height + 1))) with hnil | ⟨child, sub, hsub⟩
          · rw [hnil] at rest
            cases rest
          · rw [lookupWalk_node hholds.1 (nodeOf_slots_node hsub)]
            rw [hsub] at rest
            exact ih (hsub ▸ hholds.2 (radixPos index (height + 1))) rest

/-- A slot that a lookup of the index reads, with the item it holds. -/
def SlotHolds (root : RadixTreeRoot V) (index : BitVec 64) (slot : Option SlotPlace)
    (value : V) : Prop :=
  ∃ addr record, slot = some (addr, radixPos index 0) ∧
    lookupWalk root.heap index (root.height - 1) root.rnode = some (some addr) ∧
    root.heap addr = some record ∧ record.slots (radixPos index 0) = .item value

/-- A search that returns leaves the least index from `index` on that has an item, and the slot
with that item; or there is none. -/
structure SearchEnds (root : RadixTreeRoot V) (map : BitVec 64 → Option V)
    (start index : BitVec 64) (result : IterFind) : Prop where
  next : IsNext (fun key => map key ≠ none) index
    (if result.found then some result.index else none)
  kept : result.found = false → result.index = start
  slot : result.found = true →
    ∃ value, map result.index = some value ∧ SlotHolds root result.index result.slot value

/-- The search is on the way to its index. -/
def IterOk {n : ℕ} (trie : RadixTrie V n) (index : BitVec 64) : IterPlace → Prop
  | .restart => True
  | .node addr height => index.toNat < 64 ^ n ∧ ∃ slots : Fin 64 → RadixTrie V height,
      Trie.Below (radixPos index) (.node addr slots) trie

/-- A bound on the rounds that are left. -/
def IterPlace.rounds (index : BitVec 64) : IterPlace → ℕ
  | .restart => 12 * (2 ^ 60 - index.toNat) + 12
  | .node _ height => 12 * (2 ^ 60 - index.toNat) + height + 1

section Search

variable {root : RadixTreeRoot V} {n : ℕ} {trie : RadixTrie V n} {start index : BitVec 64}

/-- **An empty slot**: there is nothing at the indices that the search passes over. -/
theorem contents_of_empty_slot {height addr : ℕ} {slots : Fin 64 → RadixTrie V height}
    (h : TreeOk root trie) (hbelow : Trie.Below (radixPos index) (.node addr slots) trie)
    (hindex : index.toNat < 64 ^ n) (hnil : slots (radixPos index height) = .nil)
    {key : BitVec 64} (hkey : index.toNat ≤ key.toNat)
    (hlt : key.toNat < (index.toNat / 64 ^ height + 1) * 64 ^ height) :
    contents trie key = none := by
  have hrange := pow_height_le h
  by_cases hn : key.toNat < 64 ^ n
  · have hdiv : key.toNat / 64 ^ height = index.toNat / 64 ^ height := by
      apply Nat.le_antisymm
      · exact Nat.lt_succ_iff.mp ((Nat.div_lt_iff_lt_mul (by positivity)).mpr hlt)
      · exact Nat.div_le_div_right hkey
    have hsame : ∀ k, height ≤ k → radixPos key k = radixPos index k := fun k hk =>
      radixPos_eq_of_div (by omega) (by omega) hk hdiv
    have hbelow' : Trie.Below (radixPos key) (.node addr slots) trie :=
      hbelow.congr fun k hk _ => hsame k (by omega)
    rw [contents, if_pos hn, hbelow'.lookup_eq, Trie.lookup_node, hsame height (Nat.le_refl _),
      hnil, Trie.lookup_nil]
  · exact contents_eq_none_of_le trie (by omega)

/-- When the next slot is in the same node, the search is still on the way. -/
theorem IterOk.move {height addr : ℕ} {next : BitVec 64} (h : TreeOk root trie)
    (hok : IterOk trie index (.node addr height))
    (hvalue : next.toNat = (index.toNat / 64 ^ height + 1) * 64 ^ height)
    (hmask : (index.toNat / 64 ^ height + 1) % 64 ≠ 0) :
    IterOk trie next (.node addr height) := by
  obtain ⟨hindex, slots, hbelow⟩ := hok
  have hrange := pow_height_le h
  have hpos : 0 < 64 ^ height := by positivity
  have hle := hbelow.le
  have hdiv : next.toNat / 64 ^ (height + 1) = index.toNat / 64 ^ (height + 1) := by
    rw [pow_succ, ← Nat.div_div_eq_div_mul, ← Nat.div_div_eq_div_mul, hvalue,
      Nat.mul_div_cancel _ hpos]
    omega
  have hnext : next.toNat < 64 ^ n := by
    have hsplit : 64 ^ n = 64 ^ (n - (height + 1)) * 64 ^ (height + 1) := by
      rw [← pow_add, Nat.sub_add_cancel hle]
    rw [hsplit, ← Nat.div_lt_iff_lt_mul (by positivity)] at hindex ⊢
    rwa [hdiv]
  refine ⟨hnext, slots, hbelow.congr fun k hk _ => ?_⟩
  exact radixPos_eq_of_div (by omega) (by omega) hk hdiv

/-- A search that ends without success. -/
theorem SearchEnds.missing {map : BitVec 64 → Option V} {slot : Option SlotPlace}
    (hnone : ∀ key, index ≤ key → map key = none) :
    SearchEnds root map start index ⟨false, start, slot⟩ :=
  ⟨fun key hkey => not_not.mpr (hnone key hkey), fun _ => rfl, fun hfound => nomatch hfound⟩

/-- The search moves on from an index to a later one. -/
theorem SearchEnds.skip {map : BitVec 64 → Option V} {next : BitVec 64} {result : IterFind}
    (hle : index.toNat ≤ next.toNat)
    (hnone : ∀ key : BitVec 64, index.toNat ≤ key.toNat → key.toNat < next.toNat → map key = none)
    (h : SearchEnds root map start next result) : SearchEnds root map start index result :=
  ⟨h.next.skip (BitVec.le_def.mpr hle) fun key hkey hlt =>
      not_not.mpr (hnone key (BitVec.le_def.mp hkey) (BitVec.lt_def.mp hlt)),
    h.kept, h.slot⟩

/-- A round at the root. -/
theorem iterFindLoop_restart (h : TreeOk root trie) {fuel : ℕ} (slot : Option SlotPlace)
    (hdown : ∀ addr, IterOk trie index (.node addr (n - 1)) →
      ∃ result, iterFindLoop root start fuel (.node addr (n - 1)) index slot = some result ∧
        SearchEnds root (contents trie) start index result) :
    ∃ result, iterFindLoop root start (fuel + 1) .restart index slot = some result ∧
      SearchEnds root (contents trie) start index result := by
  obtain ⟨max, hmax, -⟩ := radixMax_eq h.bound
  have hrange := @radixMax_lt_iff n max index h.bound hmax
  rw [iterFindLoop]
  cases trie with
  | nil =>
      rw [h.rnode_nil]
      exact ⟨_, rfl, .missing fun key _ => contents_nil key⟩
  | item value => exact h.not_item.elim
  | @node m addr slots =>
      simp only [h.rnode_node, h.height, hmax, Option.bind_some, Nat.succ_ne_zero, if_false]
      by_cases hout : 64 ^ (m + 1) ≤ index.toNat
      · rw [if_pos (hrange.mpr hout)]
        exact ⟨_, rfl, .missing fun key hkey =>
          contents_eq_none_of_le _ (hout.trans (BitVec.le_def.mp hkey))⟩
      · rw [if_neg (mt hrange.mp hout)]
        exact hdown addr ⟨by omega, slots, .here⟩

/-- A round at a slot that leads on or holds the item. -/
theorem iterFindLoop_used (h : TreeOk root trie) {fuel height addr : ℕ}
    {slots : Fin 64 → RadixTrie V height} (slot : Option SlotPlace)
    (hindex : index.toNat < 64 ^ n)
    (hbelow : Trie.Below (radixPos index) (.node addr slots) trie)
    (hused : slots (radixPos index height) ≠ .nil)
    (hdown : ∀ child m slot, height = m + 1 → IterOk trie index (.node child m) →
      ∃ result, iterFindLoop root start fuel (.node child m) index slot = some result ∧
        SearchEnds root (contents trie) start index result) :
    ∃ result, iterFindLoop root start (fuel + 1) (.node addr height) index slot = some result ∧
      SearchEnds root (contents trie) start index result := by
  have hrecord : root.heap addr = some (nodeOf slots) := (h.holds.below hbelow).1
  rw [iterFindLoop, hrecord, Option.bind_some]
  cases height with
  | zero =>
      cases hslot : slots (radixPos index 0) with
      | nil => exact absurd hslot hused
      | item value =>
          have hvalue : contents trie index = some value := by
            rw [contents, if_pos hindex, hbelow.lookup_eq, Trie.lookup_node, hslot,
              Trie.lookup_item]
          have hread : (nodeOf slots).slots (radixPos index 0) = .item value := by
            simp [nodeOf, hslot]
          simp only [hread]
          refine ⟨_, rfl, .here (by simp [hvalue]), by simp, fun _ => ?_⟩
          refine ⟨value, hvalue, addr, nodeOf slots, rfl, ?_, hrecord, hread⟩
          cases trie with
          | nil => cases hbelow
          | item other => exact h.not_item.elim
          | @node m top topSlots =>
              rw [h.height, h.rnode_node]
              exact lookupWalk_below h.holds hbelow
  | succ height =>
      rcases slot_cases (slots (radixPos index (height + 1))) with hnil | ⟨child, sub, hsub⟩
      · exact absurd hnil hused
      · have hread : (nodeOf slots).slots (radixPos index (height + 1)) = .node child := by
          simp [nodeOf, hsub]
        simp only [hread]
        exact hdown child height _ rfl ⟨hindex, sub, hsub ▸ hbelow.child⟩

/-- A round at an empty slot. -/
theorem iterFindLoop_empty (h : TreeOk root trie) {fuel height addr : ℕ}
    {slots : Fin 64 → RadixTrie V height} (slot : Option SlotPlace)
    (hindex : index.toNat < 64 ^ n)
    (hbelow : Trie.Below (radixPos index) (.node addr slots) trie)
    (hnil : slots (radixPos index height) = .nil)
    (hnext : ∀ next place slot, index.toNat < next.toNat → next.toNat ≤ 2 ^ 60 →
      (place = .restart ∨ place = .node addr height) → IterOk trie next place →
        ∃ result, iterFindLoop root start fuel place next slot = some result ∧
          SearchEnds root (contents trie) start next result) :
    ∃ result, iterFindLoop root start (fuel + 1) (.node addr height) index slot = some result ∧
      SearchEnds root (contents trie) start index result := by
  have hrange := pow_height_le h
  have hheight : height ≤ 9 := by
    have hle := hbelow.le
    have hbound := h.bound
    omega
  have hrecord : root.heap addr = some (nodeOf slots) := (h.holds.below hbelow).1
  have hread : (nodeOf slots).slots (radixPos index height) = .null := by
    simp [nodeOf, hnil]
  have hindex' : index.toNat < 2 ^ 60 := by omega
  have hvalue := iterSkip_toNat hindex' hheight
  have hgrow : index.toNat < (iterSkip index height).toNat := by
    rw [hvalue]
    exact Nat.lt_mul_of_div_lt (Nat.lt_succ_self _) (by positivity)
  have hbound : (iterSkip index height).toNat ≤ 2 ^ 60 := by
    have hsplit : (2 : ℕ) ^ 60 = 64 ^ (10 - height) * 64 ^ height := by
      rw [← pow_add, Nat.sub_add_cancel (by omega)]
      norm_num
    rw [hvalue, hsplit]
    refine Nat.mul_le_mul_right _ ?_
    rw [hsplit] at hindex'
    exact (Nat.div_lt_iff_lt_mul (by positivity)).mpr hindex'
  have hskip : ∀ result, SearchEnds root (contents trie) start (iterSkip index height) result →
      SearchEnds root (contents trie) start index result := fun result hends =>
    hends.skip hgrow.le fun key hkey hlt =>
      contents_of_empty_slot h hbelow hindex hnil hkey (hvalue ▸ hlt)
  rw [iterFindLoop, hrecord, Option.bind_some]
  simp only [hread]
  by_cases hmask : iterSkip index height &&& iterMask height = 0
  · rw [if_pos hmask]
    obtain ⟨result, hresult, hends⟩ := hnext _ .restart (some (addr, radixPos index height))
      hgrow hbound (Or.inl rfl) trivial
    exact ⟨result, hresult, hskip result hends⟩
  · rw [if_neg hmask]
    have hok : IterOk trie (iterSkip index height) (.node addr height) :=
      IterOk.move h ⟨hindex, slots, hbelow⟩ hvalue
        (mt (iterSkip_and_mask hindex' hheight).mpr hmask)
    obtain ⟨result, hresult, hends⟩ := hnext _ (.node addr height)
      (some (addr, radixPos index height)) hgrow hbound (Or.inr rfl) hok
    exact ⟨result, hresult, hskip result hends⟩

/-- **The search ends** with the least index from its start on that has an item. -/
theorem iterFindLoop_eq (h : TreeOk root trie) {fuel : ℕ} {place : IterPlace}
    (hok : IterOk trie index place) (hfuel : place.rounds index ≤ fuel)
    (slot : Option SlotPlace) :
    ∃ result, iterFindLoop root start fuel place index slot = some result ∧
      SearchEnds root (contents trie) start index result := by
  induction fuel generalizing place index slot with
  | zero => cases place <;> simp [IterPlace.rounds] at hfuel
  | succ fuel ih =>
      have hheight := h.bound
      have hrange := pow_height_le h
      cases place with
      | restart =>
          refine iterFindLoop_restart h slot fun addr hdown => ih hdown ?_ slot
          simp only [IterPlace.rounds] at hfuel ⊢
          omega
      | node addr height =>
          obtain ⟨hindex, slots, hbelow⟩ := hok
          simp only [IterPlace.rounds] at hfuel
          by_cases hslot : slots (radixPos index height) = .nil
          · refine iterFindLoop_empty h slot hindex hbelow hslot ?_
            rintro next place slot hgrow hbound (rfl | rfl) hok
            · refine ih hok ?_ slot
              simp only [IterPlace.rounds]
              omega
            · refine ih hok ?_ slot
              simp only [IterPlace.rounds]
              omega
          · refine iterFindLoop_used h slot hindex hbelow hslot ?_
            rintro child m slot rfl hok
            refine ih hok ?_ slot
            simp only [IterPlace.rounds]
            omega

end Search

/-! ### The result of a search -/

/-- What `radix_tree_iter_find` is to leave when it is called with `iter->index` at `start`. -/
structure FoundNext (root : RadixTreeRoot V) (map : BitVec 64 → Option V) (start : BitVec 64)
    (result : IterFind) : Prop where
  found_iff : result.found = true ↔ ∃ key, start ≤ key ∧ map key ≠ none
  least : result.found = true → start ≤ result.index ∧ map result.index ≠ none ∧
    ∀ key, start ≤ key → key < result.index → map key = none
  slot : result.found = true →
    ∃ value, map result.index = some value ∧ SlotHolds root result.index result.slot value
  kept : result.found = false → result.index = start

section Results

variable {root : RadixTreeRoot V} {map : BitVec 64 → Option V}

/-- **`radix_tree_iter_find` finds the next index**, from any start. -/
theorem RadixMap.iterFind_eq (h : RadixMap root map) (start : BitVec 64)
    (slot : Option SlotPlace) :
    ∃ result, radixTreeIterFind root start slot = some result ∧
      FoundNext root map start result := by
  obtain ⟨n, trie, hok, -, rfl⟩ := h.tree
  have hfuel : IterPlace.restart.rounds start ≤ iterFindRounds := by
    show 12 * (2 ^ 60 - start.toNat) + 12 ≤ 2 ^ 64 * 12
    omega
  obtain ⟨result, hresult, hends⟩ :=
    @iterFindLoop_eq V root n trie start start hok iterFindRounds .restart trivial hfuel slot
  refine ⟨result, hresult, ?_, fun hfound => ?_, hends.slot, hends.kept⟩
  · rw [← hends.next.isSome_iff]
    split <;> simp_all
  · have hnext := hends.next
    rw [if_pos hfound] at hnext
    exact ⟨hnext.1, hnext.2.1, fun key hkey hlt => not_not.mp (hnext.2.2 key hkey hlt)⟩

theorem FoundNext.next {start : BitVec 64} {result : IterFind}
    (h : FoundNext root map start result) :
    IsNext (fun key => map key ≠ none) start
      (if result.found then some result.index else none) := by
  by_cases hfound : result.found = true
  · rw [if_pos hfound]
    obtain ⟨hle, hthere, hleast⟩ := h.least hfound
    exact ⟨hle, hthere, fun key hkey hlt => not_not.mpr (hleast key hkey hlt)⟩
  · rw [if_neg hfound]
    exact fun key hkey hthere => hfound (h.found_iff.mpr ⟨key, hkey, hthere⟩)

/-- The index after one that is in use. -/
theorem lt_iff_succ_le {index : BitVec 64} (hindex : index.toNat < 2 ^ 60) (key : BitVec 64) :
    index < key ↔ index + 1 ≤ key := by
  have hsucc : (index + 1).toNat = index.toNat + 1 := by
    rw [BitVec.toNat_add]
    exact Nat.mod_eq_of_lt (by simp; omega)
  rw [BitVec.lt_def, BitVec.le_def, hsucc]
  omega

/-! ### The loop -/

/-- What a loop's body does to a tree and to the map that it holds: as long as `Inv` relates
the two, it has a result, it only changes the map at the index it is called for and before it,
and it is called with what `Seen` says. -/
structure BodyOk (body : SlotBody V)
    (Inv : RadixTreeRoot V → (BitVec 64 → Option V) → Prop)
    (effect : (BitVec 64 → Option V) → BitVec 64 → BitVec 64 → Option V)
    (Seen : BitVec 64 → Option SlotPlace → Prop) : Prop where
  holds : ∀ {root map}, Inv root map → RadixMap root map
  run : ∀ {root map index slot value}, Inv root map → map index = some value →
    SlotHolds root index slot value → Seen index slot ∧
      ∃ root', body root index slot = some root' ∧ Inv root' (effect map index)
  behind : ∀ {map : BitVec 64 → Option V} {index key}, index < key →
    effect map index key = map key

/-- **The loop** visits the indices that have items once and in ascending order. -/
theorem forEachSlot_eq {body : SlotBody V}
    {Inv : RadixTreeRoot V → (BitVec 64 → Option V) → Prop}
    {effect : (BitVec 64 → Option V) → BitVec 64 → BitVec 64 → Option V}
    {Seen : BitVec 64 → Option SlotPlace → Prop} (hbody : BodyOk body Inv effect Seen)
    (hinv : Inv root map) {fuel : ℕ} {index : BitVec 64} (hfuel : 2 ^ 64 < fuel + index.toNat)
    (slot : Option SlotPlace) :
    ∃ visits root', forEachSlot body fuel index slot root = some (visits, root') ∧
      Enumerates (fun key => map key ≠ none) index (visits.map Prod.fst) ∧
      (∀ visit ∈ visits, Seen visit.1 visit.2) ∧
      Inv root' ((visits.map Prod.fst).foldl effect map) := by
  induction fuel generalizing root map index slot with
  | zero =>
      have hlt := index.isLt
      omega
  | succ fuel ih =>
      obtain ⟨result, hresult, hfound⟩ := (hbody.holds hinv).iterFind_eq index slot
      have hnext := hfound.next
      rw [forEachSlot, hresult, Option.bind_some]
      by_cases hmore : result.found = true
      · rw [if_pos hmore] at hnext ⊢
        obtain ⟨value, hvalue, hslot⟩ := hfound.slot hmore
        obtain ⟨hseen, root', hrun, hinv'⟩ := hbody.run hinv hvalue hslot
        have hindex := (hbody.holds hinv).index_lt hnext.2.1
        have hsucc := lt_iff_succ_le hindex
        have hgrow : result.index.toNat < (result.index + 1).toNat :=
          BitVec.lt_def.mp ((hsucc _).mpr (Std.le_refl _))
        have hle : index.toNat ≤ result.index.toNat := BitVec.le_def.mp hnext.1
        have hfuel' : 2 ^ 64 < fuel + (result.index + 1).toNat := by omega
        obtain ⟨visits, last, hrest, henum, hall, hlast⟩ := ih hinv' hfuel' result.slot
        rw [hrun, Option.bind_some, hrest, Option.map_some]
        refine ⟨_, last, rfl, .cons hnext hsucc (henum.congr fun key hkey => ?_),
          List.forall_mem_cons.mpr ⟨hseen, hall⟩, hlast⟩
        show effect map result.index key ≠ none ↔ map key ≠ none
        rw [hbody.behind ((hsucc key).mpr hkey)]
      · rw [if_neg hmore] at hnext ⊢
        exact ⟨[], root, rfl, .nil hnext, by simp, hinv⟩

end Results

end Webcamd.Kernel
