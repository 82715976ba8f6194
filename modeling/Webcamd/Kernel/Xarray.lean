import Webcamd.Kernel.RadixTreeIter

/-!
# The xarray

`kernel/linux_xarray.c` is a thin layer over the radix tree; an index of an xarray is an index
of its tree.  The functions whose names begin with two underscores are called with the lock
held, and the others take it around them, so that one model serves both.

Here are the functions that go through an xarray: `__xa_next` and `xa_for_each`, `__xa_empty`
and `xa_destroy`.  The last one deletes what it finds while it iterates, which frees nodes of
the tree between two searches, in the end the root.

* `radixTree_iter` — whatever calls have been made, each of them does for the tree what it
  does for a map.
-/

namespace Webcamd.Kernel

open Webcamd.Library

variable {V : Type}

/-- `struct xarray` -/
structure Xarray (V : Type) where
  root : RadixTreeRoot V

/-- `xa_init_flags` -/
def xaInit : Xarray V := ⟨.init⟩

/-- `__xa_empty` -/
def xaEmpty (xa : Xarray V) : Option Bool :=
  (radixTreeIterFind xa.root 0 none).map fun iter => !iter.found

/-- `xa_destroy` -/
def xaDestroy (xa : Xarray V) : Option (Xarray V) :=
  (radixTreeForEachSlot radixTreeIterDelete xa.root 0).map fun result => ⟨result.2⟩

/-- `*ppslot` -/
def readSlot (root : RadixTreeRoot V) : Option SlotPlace → Option (Option V)
  | none => none
  | some place => (root.heap place.1).bind fun node => (node.slots place.2).toItem

/-- `__xa_next`: the entry it returns, and `*pindex`. -/
def xaNext (xa : Xarray V) (pindex : BitVec 64) (notFirst : Bool) :
    Option (Option V × BitVec 64) :=
  let index := if notFirst then pindex + 1 else pindex
  if notFirst = true ∧ index = 0 then some (none, pindex)
  else (radixTreeIterFind xa.root index none).bind fun iter =>
    if iter.found then (readSlot xa.root iter.slot).map fun retval => (retval, iter.index)
    else some (none, pindex)

/-- The loop of `xa_for_each`, from an index on: the indices and entries it comes to. -/
def xaForEachFrom (xa : Xarray V) :
    (fuel : ℕ) → (index : BitVec 64) → (entry : Option V) → Option (List (BitVec 64 × V))
  | 0, _, _ => none
  | fuel + 1, index, entry => (xaNext xa index entry.isSome).bind fun next =>
      match next.1 with
      | none => some []
      | some value => (xaForEachFrom xa fuel next.2 (some value)).map fun rest =>
          (next.2, value) :: rest

/-- `xa_for_each`; the indices grow. -/
def xaForEach (xa : Xarray V) (start : BitVec 64) : Option (List (BitVec 64 × V)) :=
  xaForEachFrom xa (2 ^ 64 + 1) start none

/-! ### Each function -/

section

variable {root : RadixTreeRoot V} {map : BitVec 64 → Option V}

/-- A loop that leaves the tree alone. -/
theorem bodyOk_keep (h : RadixMap root map) :
    BodyOk (fun root _ _ => some root) (fun other held => other = root ∧ held = map)
      (fun map _ => map)
      (fun index slot => ∃ value, map index = some value ∧ SlotHolds root index slot value) where
  holds := by
    rintro other held ⟨rfl, rfl⟩
    exact h
  run := by
    rintro other held index slot value ⟨rfl, rfl⟩ hvalue hslot
    exact ⟨⟨value, hvalue, hslot⟩, other, rfl, rfl, rfl⟩
  behind := fun _ => rfl

/-- A loop that deletes what it comes to. -/
theorem bodyOk_delete :
    BodyOk (radixTreeIterDelete : SlotBody V) RadixMap
      (fun map index => Function.update map index none) (fun _ _ => True) where
  holds := fun h => h
  run := by
    intro root map index slot value h hvalue hslot
    obtain ⟨root', hdelete, h'⟩ := h.delete_eq index
    refine ⟨trivial, root', ?_, h'⟩
    rw [radixTreeIterDelete, hdelete]
    rfl
  behind := by
    intro map index key hlt
    have hne : key ≠ index := fun heq => Std.lt_irrefl (heq ▸ hlt)
    exact Function.update_of_ne hne _ _

/-- Deleting some indices. -/
theorem foldl_update_none (keys : List (BitVec 64)) (map : BitVec 64 → Option V)
    (key : BitVec 64) :
    keys.foldl (fun map index => Function.update map index none) map key =
      if key ∈ keys then none else map key := by
  induction keys generalizing map with
  | nil => simp
  | cons first rest ih =>
      rw [List.foldl_cons, ih, Function.update_apply]
      by_cases hfirst : key = first
      · simp [hfirst]
      · simp [hfirst]

theorem loopFuel (start : BitVec 64) : 2 ^ 64 < 2 ^ 64 + 1 + start.toNat := by
  omega

/-- **`radix_tree_for_each_slot`**, with a body that does not change the tree. -/
theorem RadixMap.forEachSlot_eq (h : RadixMap root map) (start : BitVec 64) :
    ∃ visits, radixTreeForEachSlot (fun root _ _ => some root) root start =
        some (visits, root) ∧
      Enumerates (fun key => map key ≠ none) start (visits.map Prod.fst) ∧
      ∀ visit ∈ visits, ∃ value, map visit.1 = some value ∧
        SlotHolds root visit.1 visit.2 value := by
  have hloop := Webcamd.Kernel.forEachSlot_eq (bodyOk_keep h) ⟨rfl, rfl⟩ (loopFuel start) none
  obtain ⟨visits, root', hrun, henum, hseen, rfl, -⟩ := hloop
  exact ⟨visits, hrun, henum, hseen⟩

/-- **`xa_destroy` leaves the empty tree.** -/
theorem RadixMap.destroy_eq (h : RadixMap root map) : xaDestroy ⟨root⟩ = some xaInit := by
  have hloop := Webcamd.Kernel.forEachSlot_eq bodyOk_delete h (loopFuel 0) none
  obtain ⟨visits, root', hrun, henum, -, h'⟩ := hloop
  have hempty : root' = .init := by
    refine h'.eq_init fun key => ?_
    rw [foldl_update_none]
    split
    · rfl
    · rename_i hmem
      by_contra hthere
      exact hmem ((henum.mem_iff key).mpr ⟨BitVec.le_def.mpr (Nat.zero_le _), hthere⟩)
  rw [xaDestroy, radixTreeForEachSlot, hrun, hempty]
  rfl

/-- **`xa_empty`.** -/
theorem RadixMap.empty_eq (h : RadixMap root map) :
    ∃ answer, xaEmpty ⟨root⟩ = some answer ∧ (answer = true ↔ ∀ key, map key = none) := by
  obtain ⟨result, hresult, hfound⟩ := h.iterFind_eq 0 none
  refine ⟨!result.found, by rw [xaEmpty, hresult, Option.map_some], ?_⟩
  rw [Bool.not_eq_true', ← Bool.not_eq_true, hfound.found_iff]
  constructor
  · intro hnone key
    by_contra hthere
    exact hnone ⟨key, BitVec.le_def.mpr (Nat.zero_le _), hthere⟩
  · rintro hall ⟨key, -, hthere⟩
    exact hthere (hall key)

theorem SlotHolds.read {index : BitVec 64} {slot : Option SlotPlace} {value : V}
    (h : SlotHolds root index slot value) : readSlot root slot = some (some value) := by
  obtain ⟨addr, record, rfl, -, hrecord, hitem⟩ := h
  simp [readSlot, hrecord, hitem, Slot.toItem]

/-- **`xa_next`** returns the entry at the next index; `start` is the first one it looks at. -/
theorem RadixMap.next_eq (h : RadixMap root map) {pindex start : BitVec 64} {notFirst : Bool}
    (hstart : start = if notFirst then pindex + 1 else pindex)
    (hwrap : notFirst = true → start ≠ 0) :
    ∃ entry index, xaNext ⟨root⟩ pindex notFirst = some (entry, index) ∧
      ((entry = none ∧ index = pindex ∧ IsNext (fun key => map key ≠ none) start none) ∨
        ∃ value, entry = some value ∧ map index = some value ∧
          IsNext (fun key => map key ≠ none) start (some index)) := by
  obtain ⟨result, hresult, hfound⟩ := h.iterFind_eq start none
  have hnext := hfound.next
  rw [xaNext]
  simp only [← hstart]
  rw [if_neg (fun hzero => hwrap hzero.1 hzero.2), hresult, Option.bind_some]
  by_cases hmore : result.found = true
  · rw [if_pos hmore] at hnext ⊢
    obtain ⟨value, hvalue, hslot⟩ := hfound.slot hmore
    rw [hslot.read]
    exact ⟨some value, result.index, rfl, Or.inr ⟨value, rfl, hvalue, hnext⟩⟩
  · rw [if_neg hmore] at hnext ⊢
    exact ⟨none, pindex, rfl, Or.inl ⟨rfl, rfl, hnext⟩⟩

/-- The loop of `xa_for_each` comes to the entries once and in ascending order. -/
theorem RadixMap.forEachFrom_eq (h : RadixMap root map) {fuel : ℕ} {index start : BitVec 64}
    {entry : Option V} (hstart : start = if entry.isSome then index + 1 else index)
    (hwrap : entry.isSome = true → start ≠ 0) (hfuel : 2 ^ 64 < fuel + start.toNat) :
    ∃ visits, xaForEachFrom ⟨root⟩ fuel index entry = some visits ∧
      Enumerates (fun key => map key ≠ none) start (visits.map Prod.fst) ∧
      ∀ visit ∈ visits, map visit.1 = some visit.2 := by
  induction fuel generalizing index start entry with
  | zero =>
      have hlt := start.isLt
      omega
  | succ fuel ih =>
      obtain ⟨found, index', hrun, ⟨rfl, -, hnone⟩ | ⟨value, rfl, hvalue, hnext⟩⟩ :=
        h.next_eq hstart hwrap
      · rw [xaForEachFrom, hrun, Option.bind_some]
        exact ⟨[], rfl, .nil hnone, by simp⟩
      · have hsucc := lt_iff_succ_le (h.index_lt hnext.2.1)
        have hgrow : index'.toNat < (index' + 1).toNat :=
          BitVec.lt_def.mp ((hsucc _).mpr (Std.le_refl _))
        have hle : start.toNat ≤ index'.toNat := BitVec.le_def.mp hnext.1
        have hzero : index' + 1 ≠ 0 := by
          intro hzero
          rw [hzero] at hgrow
          exact absurd hgrow (Nat.not_lt_zero _)
        have hfuel' : 2 ^ 64 < fuel + (index' + 1).toNat := by omega
        obtain ⟨visits, hrest, henum, hall⟩ :=
          @ih index' (index' + 1) (some value) rfl (fun _ => hzero) hfuel'
        rw [xaForEachFrom, hrun, Option.bind_some]
        show ∃ visits, (xaForEachFrom ⟨root⟩ fuel index' (some value)).map _ = _ ∧ _
        rw [hrest, Option.map_some]
        exact ⟨_, rfl, .cons hnext hsucc henum, List.forall_mem_cons.mpr ⟨hvalue, hall⟩⟩

end

/-! ### Sequences of calls -/

/-- Iterating over the tree is iterating over the map. -/
structure IteratesMap (root : RadixTreeRoot V) (map : BitVec 64 → Option V) : Prop where
  find : ∀ start slot, ∃ result, radixTreeIterFind root start slot = some result ∧
    FoundNext root map start result
  forEachSlot : ∀ start, ∃ visits,
    radixTreeForEachSlot (fun root _ _ => some root) root start = some (visits, root) ∧
      Enumerates (fun key => map key ≠ none) start (visits.map Prod.fst) ∧
      ∀ visit ∈ visits, ∃ value, map visit.1 = some value ∧
        SlotHolds root visit.1 visit.2 value
  forEach : ∀ start, ∃ visits, xaForEach ⟨root⟩ start = some visits ∧
    Enumerates (fun key => map key ≠ none) start (visits.map Prod.fst) ∧
    ∀ visit ∈ visits, map visit.1 = some visit.2
  empty : ∃ answer, xaEmpty ⟨root⟩ = some answer ∧ (answer = true ↔ ∀ key, map key = none)
  destroy : xaDestroy ⟨root⟩ = some xaInit

theorem RadixMap.iterates {root : RadixTreeRoot V} {map : BitVec 64 → Option V}
    (h : RadixMap root map) : IteratesMap root map where
  find := h.iterFind_eq
  forEachSlot := h.forEachSlot_eq
  forEach start := h.forEachFrom_eq rfl (fun hfirst => nomatch hfirst) (loopFuel start)
  empty := h.empty_eq
  destroy := h.destroy_eq

/-- **Iterating over the radix tree.**  Whatever calls are made on an empty tree, with indices
below `2 ^ 60`, and whatever `malloc` answers: the tree then holds the map the calls lead to,
a search from any index ends with the next one of this map, the loops over the tree come to its
indices once and in ascending order, and `xa_destroy` leaves the empty tree. -/
theorem radixTree_iter (calls : List (RadixCall V))
    (hindex : ∀ call ∈ calls, call.index.toNat < 2 ^ 60) :
    ∃ root rets map, (radixMachine V).run .init calls = some (root, rets) ∧
      MapRun (fun _ => none) calls rets map ∧
      (∀ index, radixTreeLookup root index = some (map index)) ∧ IteratesMap root map := by
  obtain ⟨root, rets, map, hrun, hmap, h⟩ := radixMap_run calls hindex
  exact ⟨root, rets, map, hrun, hmap, h.lookup_eq, h.iterates⟩

/-- Two items far apart, and one that is deleted again. -/
def insertFarApart : List (RadixCall ℕ) :=
  [.insert 3 (some 1) [some 10],
    .insert 300000 (some 2) [some 11, some 12, some 13, some 14, some 15, some 16],
    .insert 64 (some 3) [some 17], .delete 64]

theorem radixTree_iter_farApart : ∃ root rets map,
    (radixMachine ℕ).run .init insertFarApart = some (root, rets) ∧
      MapRun (fun _ => none) insertFarApart rets map ∧
      (∀ index, radixTreeLookup root index = some (map index)) ∧ IteratesMap root map := by
  refine radixTree_iter insertFarApart fun call hmem => ?_
  simp only [insertFarApart, List.mem_cons, List.not_mem_nil, or_false] at hmem
  rcases hmem with rfl | rfl | rfl | rfl <;> decide

/-- The search skips to the second item. -/
example : (((radixMachine ℕ).run .init insertFarApart).bind fun run =>
    (radixTreeIterFind run.1 4 none).map fun iter => (iter.found, iter.index)) =
      some (true, 300000) := by
  decide +kernel

end Webcamd.Kernel
