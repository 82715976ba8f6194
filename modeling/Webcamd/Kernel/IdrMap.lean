import Webcamd.Library.Conformance
import Webcamd.Kernel.IdrFree
import Webcamd.Kernel.IdrAlloc
import Webcamd.Kernel.IdrIter

/-!
# The id allocator is a map

The operations of `kernel/linux_idr.c` one after the other, and what their callers rely on: ids that
are given out, each with the pointer that was stored there last.

* `CutFrom`, `cut_from` — a removal takes the id out, and nothing else.
* `freeLayers` — what `free_layer` does to `hint` for each of the layers that are taken out.
* `Call`, `Reply`, `allocator` — the operations, as a machine in which every call is answered.
* `IdMap`, `IdMap.Answers` — a map from ids to pointers, and the answers that it gives.
* `Implements` — the tree of the allocator is in order, and stores what the map has.
* `idr_answers` — **in every run the allocator answers as the map does**, whatever the calls are.
-/

namespace Webcamd.Kernel.IdrTree

open Bitmap Webcamd.Library

variable {P : Type}
variable {l layers id k m base addr : ℕ} {node : Layer} {ary : ℕ → Slot P} {p q child : Slot P}
variable {freed removed : List Layer} {idr middle after : Idr P}

/-! ### Removal -/

/-- **What is left when an id has been taken out**, and what has been taken out with it. -/
structure CutFrom (id l : ℕ) (p q : Slot P) (freed : List Layer) : Prop where
  stored : ∀ k, k / 2 ^ (8 * (l + 1)) = id / 2 ^ (8 * (l + 1)) →
    lookup k l q = if k = id then none else lookup k l p
  leaf : ∀ k leaf slots, leafAt k l p = some (leaf, slots) → leaf.count ≠ 0 →
    (∃ node ∈ freed, node.addr = leaf.addr) ∨ ∃ leaf' slots',
      leafAt k l q = some (leaf', slots') ∧ leaf'.addr = leaf.addr ∧ leaf'.count ≠ 0
  placed : ∀ base, Placed l base p → q = .null ∨ Placed l base q

/-- The layer above one that the id has been taken out of. -/
theorem CutFrom.up {node' : Layer} (h : CutFrom id l (ary (digit (l + 1) id)) child freed)
    (hsome : ary (digit (l + 1) id) ≠ .null) (hlayer : node'.layer = node.layer) :
    CutFrom id (l + 1) (.layer node ary)
      (.layer node' (Function.update ary (digit (l + 1) id) child)) freed where
  stored k hsame := by
    rw [lookup_succ, lookup_succ]
    by_cases hdigit : digit (l + 1) k = digit (l + 1) id
    · rw [hdigit, Function.update_self]
      refine h.stored k ?_
      rw [div_eq_digit, hsame, hdigit, ← div_eq_digit]
    · have hne : k ≠ id := fun heq => hdigit (by rw [heq])
      rw [Function.update_of_ne hdigit, if_neg hne]
  leaf k leaf slots hleaf hcount := by
    rw [leafAt_succ] at hleaf ⊢
    by_cases hdigit : digit (l + 1) k = digit (l + 1) id
    · rw [hdigit] at hleaf
      rw [hdigit, Function.update_self]
      exact h.leaf k leaf slots hleaf hcount
    · rw [Function.update_of_ne hdigit]
      exact Or.inr ⟨leaf, slots, hleaf, rfl, hcount⟩
  placed base hplaced := by
    refine Or.inr ⟨hlayer.trans hplaced.1, fun n hn => ?_⟩
    by_cases heq : n = digit (l + 1) id
    · rw [heq, Function.update_self]
      obtain ⟨hchild, hlt⟩ := (hplaced.2 _ (digit_lt (l + 1) id)).resolve_left hsome
      exact (h.placed _ hchild).imp_right fun hplaced => ⟨hplaced, hlt⟩
    · rw [Function.update_of_ne heq]
      exact hplaced.2 n hn

/-- A layer that counts nothing any more goes as well. -/
theorem CutFrom.release {node' : Layer} {ary' : ℕ → Slot P}
    (h : CutFrom id (l + 1) p (.layer node' ary') freed)
    (hok : LayerOk (l + 1) (.layer node' ary')) (hcount : node'.count = 0) :
    CutFrom id (l + 1) p .null (freed ++ [node']) where
  stored k hsame := by
    rw [← h.stored k hsame, hok.lookup_of_empty hcount, lookup_null]
  leaf k leaf slots hleaf hused := by
    obtain ⟨hnull, -⟩ := hok.empty hcount
    refine (h.leaf k leaf slots hleaf hused).imp ?_ fun ⟨leaf', slots', hleaf', _⟩ => ?_
    · exact fun ⟨node, hmem, haddr⟩ => ⟨node, List.mem_append_left _ hmem, haddr⟩
    · rw [leafAt_succ, hnull _ (digit_lt _ _), leafAt_null] at hleaf'
      cases hleaf'
  placed _ _ := Or.inl rfl

/-- The pointer of an id that has been taken out of its leaf. -/
theorem CutFrom.leaf_cleared (hok : LayerOk 0 (.layer node ary))
    (hbit : testBit (digit 0 id) node.bitmap = true) :
    CutFrom id 0 (.layer node ary) (cut id 0 (.layer node ary)).1 (cut id 0 (.layer node ary)).2 := by
  have hclear := hok.clear (digit_lt 0 id) hbit
  have hstored : ∀ k, k / 2 ^ (8 * (0 + 1)) = id / 2 ^ (8 * (0 + 1)) →
      lookup k 0 (.layer { node with
          count := node.count - 1, bitmap := clearBit (digit 0 id) node.bitmap }
        (Function.update ary (digit 0 id) .null)) =
        if k = id then none else lookup k 0 (.layer node ary) := by
    intro k hsame
    rw [lookup, lookup]
    dsimp only
    rw [testBit_clearBit]
    by_cases heq : k = id
    · rw [heq, if_pos rfl, if_neg (by simp)]
    · have hne : digit 0 k ≠ digit 0 id := by
        rw [digit_eq, digit_eq]
        omega
      rw [if_neg heq, Function.update_of_ne hne]
      simp [hne.symm]
  rw [cut]
  dsimp only
  by_cases hcount : node.count - 1 = 0
  · rw [if_pos hcount]
    refine ⟨fun k hsame => ?_, fun k leaf slots hleaf _ => Or.inl ?_, fun _ _ => Or.inl rfl⟩
    · rw [← hstored k hsame, hclear.lookup_of_empty hcount, lookup_null]
    · obtain ⟨rfl, -⟩ := Prod.mk.inj (Option.some.inj hleaf)
      exact ⟨_, List.mem_singleton_self _, rfl⟩
  · rw [if_neg hcount]
    refine ⟨hstored, fun k leaf slots hleaf _ => Or.inr ?_, fun base hplaced => Or.inr ?_⟩
    · obtain ⟨rfl, rfl⟩ := Prod.mk.inj (Option.some.inj hleaf)
      exact ⟨_, _, rfl, rfl, hcount⟩
    · refine ⟨hplaced.1, hplaced.2.1, fun n hn => ?_⟩
      by_cases heq : n = digit 0 id
      · rw [heq, Function.update_self]
        rfl
      · rw [Function.update_of_ne heq]
        exact hplaced.2.2 n hn

/-- **`cut` takes out the id, and nothing else.** -/
theorem cut_from (h : LayerOk l p) (halloc : allocated id l p = true) :
    CutFrom id l p (cut id l p).1 (cut id l p).2 := by
  induction l generalizing p with
  | zero =>
      obtain ⟨node, ary, rfl⟩ := h.exists_layer
      exact .leaf_cleared h halloc
  | succ l ih =>
      obtain ⟨node, ary, rfl⟩ := h.exists_layer
      have hlt := digit_lt (l + 1) id
      obtain ⟨hsome, hchild⟩ := h.child halloc
      have hcut := ih hchild halloc
      have hframe := h.frameOk hlt hsome
        (by simp [testBit_clearBit] :
          testBit (digit (l + 1) id) (clearBit (digit (l + 1) id) node.bitmap) = false)
        fun n _ hne => by simp [testBit_clearBit, hne.symm]
      rw [cut]
      generalize cut id l (ary (digit (l + 1) id)) = result at hcut ⊢
      obtain ⟨child, freed⟩ := result
      dsimp only at hcut ⊢
      cases hempty : child.isNull with
      | true =>
          rw [isNull_eq_true_iff] at hempty
          subst hempty
          rw [if_pos rfl]
          have hup : CutFrom id (l + 1) (.layer node ary) (.layer { node with
              count := node.count - 1, bitmap := clearBit (digit (l + 1) id) node.bitmap } _) _ :=
            hcut.up hsome rfl
          by_cases hcount : node.count - 1 = 0
          · rw [if_pos hcount]
            exact hup.release hframe.release hcount
          · rw [if_neg hcount]
            exact hup
      | false =>
          rw [if_neg (by decide)]
          exact hcut.up hsome rfl

/-- What `free_layer` does to `hint`, for one layer after the other. -/
def Idr.freeLayers (idr : Idr P) (freed : List Layer) : Idr P :=
  freed.foldl (fun idr node =>
    { idr with hint := if idr.hint = some node.addr then none else idr.hint }) idr

@[simp] theorem freeLayers_top (idr : Idr P) (freed : List Layer) :
    (idr.freeLayers freed).top = idr.top := by
  induction freed generalizing idr with
  | nil => rfl
  | cons node rest ih => exact ih _

@[simp] theorem freeLayers_layers (idr : Idr P) (freed : List Layer) :
    (idr.freeLayers freed).layers = idr.layers := by
  induction freed generalizing idr with
  | nil => rfl
  | cons node rest ih => exact ih _

@[simp] theorem freeLayers_idFree (idr : Idr P) (freed : List Layer) :
    (idr.freeLayers freed).idFree = idr.idFree := by
  induction freed generalizing idr with
  | nil => rfl
  | cons node rest ih => exact ih _

@[simp] theorem freeLayers_entry (idr : Idr P) (freed : List Layer) (id : ℕ) :
    (idr.freeLayers freed).entry id = idr.entry id := by
  unfold Idr.entry
  rw [freeLayers_top, freeLayers_layers]

/-- `hint` does not point to a layer that has been freed. -/
theorem freeLayers_hint (h : (idr.freeLayers freed).hint = some addr) :
    idr.hint = some addr ∧ ∀ node ∈ freed, node.addr ≠ addr := by
  induction freed generalizing idr with
  | nil => exact ⟨h, by simp⟩
  | cons node rest ih =>
      obtain ⟨hhint, hrest⟩ := ih h
      dsimp only at hhint
      split at hhint
      · cases hhint
      · rename_i hne
        refine ⟨hhint, List.forall_mem_cons.mpr ⟨fun heq => hne ?_, hrest⟩⟩
        rw [hhint, heq]

/-- **What a removal does to what is stored**: the id is free after it. -/
structure Removes (id : ℕ) (before after : Idr P) (freed : List Layer) : Prop where
  hint : after.hint = before.hint
  entry : ∀ k, after.entry k = if k = id then none else before.entry k
  leaf : ∀ k ≤ idrMax before.layers, ∀ leaf slots,
    leafAt k (before.layers - 1) before.top = some (leaf, slots) → leaf.count ≠ 0 →
      (∃ node ∈ freed, node.addr = leaf.addr) ∨ ∃ k' ≤ idrMax after.layers, ∃ leaf' slots',
        leafAt k' (after.layers - 1) after.top = some (leaf', slots') ∧ leaf'.addr = leaf.addr ∧
          leaf'.count ≠ 0
  placed : after.top = .null ∨ Placed (after.layers - 1) 0 after.top

/-- An id that is free. -/
theorem Removes.of_free (h : IdrPlaced idr) (hfree : idr.entry id = none) :
    Removes id idr idr [] where
  hint := rfl
  entry k := by
    split
    · rename_i heq
      rw [heq, hfree]
    · rfl
  leaf k hk leaf slots hleaf hcount := Or.inr ⟨k, hk, leaf, slots, hleaf, rfl, hcount⟩
  placed := h.placed

theorem div_idrMax (hk : k ≤ idrMax layers) : k / 2 ^ (8 * layers) = 0 :=
  Nat.div_eq_of_lt (hk.trans_lt (idrMax_lt_pow layers))

/-- **`sub_remove`** takes the id out. -/
theorem subRemove_removes (h : IdrPlaced idr) (hid : id ≤ idrMax idr.layers) :
    Removes id idr (subRemove idr (idr.layers - 1) id).1 (subRemove idr (idr.layers - 1) id).2 := by
  rw [subRemove_eq h.ok]
  cases halloc : allocated id (idr.layers - 1) idr.top with
  | false =>
      refine .of_free h ?_
      obtain hnull | hplaced := h.placed
      · unfold Idr.entry
        rw [hnull, lookup_null, ite_self]
      · unfold Idr.entry
        rw [if_pos hid, ← Option.not_isSome_iff_eq_none, isSome_lookup hplaced, halloc]
        exact Bool.false_ne_true
  | true =>
      obtain ⟨hnull, -⟩ | ⟨hpos, hle, hlayer⟩ := h.ok
      · rw [hnull, allocated_null] at halloc
        cases halloc
      · have hplaced := h.placed.resolve_left fun hnull => by
          rw [hnull, allocated_null] at halloc
          cases halloc
        have hcut := cut_from hlayer halloc
        have hbase : ∀ k ≤ idrMax idr.layers,
            k / 2 ^ (8 * (idr.layers - 1 + 1)) = id / 2 ^ (8 * (idr.layers - 1 + 1)) := by
          intro k hk
          rw [Nat.sub_add_cancel hpos, div_idrMax hk, div_idrMax hid]
        generalize cut id (idr.layers - 1) idr.top = result at hcut
        obtain ⟨top, freed⟩ := result
        dsimp only at hcut ⊢
        rw [if_pos rfl]
        cases hempty : top.isNull with
        | true =>
            rw [isNull_eq_true_iff] at hempty
            subst hempty
            refine ⟨rfl, fun k => ?_, fun k hk leaf slots hleaf hcount => ?_, Or.inl rfl⟩
            · unfold Idr.entry
              rw [if_pos rfl]
              dsimp only
              rw [lookup_null, ite_self]
              split
              · rfl
              · rename_i hne
                split
                · rename_i hk
                  have hstored := hcut.stored k (hbase k hk)
                  rwa [lookup_null, if_neg hne] at hstored
                · rfl
            · refine (hcut.leaf k leaf slots hleaf hcount).imp_right fun ⟨leaf', slots', hnone, _⟩ => ?_
              rw [leafAt_null] at hnone
              cases hnone
        | false =>
            refine ⟨rfl, fun k => ?_, fun k hk leaf slots hleaf hcount => ?_, ?_⟩
            · unfold Idr.entry
              rw [if_neg Bool.false_ne_true]
              dsimp only
              by_cases hk : k ≤ idrMax idr.layers
              · rw [if_pos hk, if_pos hk, hcut.stored k (hbase k hk)]
              · rw [if_neg hk, if_neg hk, ite_self]
            · exact (hcut.leaf k leaf slots hleaf hcount).imp_right fun hrest => ⟨k, hk, hrest⟩
            · exact hcut.placed 0 hplaced

/-- **The tree shrinks**, and stores the same. -/
theorem Removes.shrink {before : Idr P} (h : Removes id before idr removed) (hok : IdrOk idr) :
    Removes id before (shrink idr).1 (removed ++ (shrink idr).2) := by
  obtain ⟨hint, top, layers, idFree⟩ := idr
  cases top with
  | null => exact (List.append_nil removed).symm ▸ h
  | ptr value => exact (List.append_nil removed).symm ▸ h
  | layer node ary =>
      unfold IdrTree.shrink
      dsimp only
      by_cases hshrink : node.count = 1 ∧ 1 < layers ∧ (ary 0).isNull = false
      · obtain ⟨hcount, hmore, hleft⟩ := hshrink
        obtain ⟨hnull, -⟩ | ⟨-, hle, hlayer⟩ := hok
        · cases hnull
        · dsimp only at hle hlayer
          obtain ⟨l, rfl⟩ : ∃ l, layers = l + 2 := ⟨layers - 2, by omega⟩
          replace hlayer : LayerOk (l + 1) (.layer node ary) := hlayer
          have hzero : 0 < idrSize := by decide
          have hnull : ∀ n < idrSize, n ≠ 0 → ary n = .null := by
            intro n hn hne
            by_contra hsome
            rw [← isNull_eq_true_iff, Bool.not_eq_true] at hsome
            exact hne (hlayer.eq_of_count_one hcount hzero hleft hn hsome)
          rw [if_pos ⟨hcount, hmore, hleft⟩]
          refine ⟨h.hint, fun k => ?_, fun k hk leaf slots hleaf hused => ?_, ?_⟩
          · rw [← h.entry k]
            exact (@entry_onTop _ _ node _ ⟨hint, .null, 0, idFree⟩ (Nat.succ_pos l) (by omega)
              hnull k).symm
          · refine (h.leaf k hk leaf slots hleaf hused).imp ?_ ?_
            · exact fun ⟨node, hmem, haddr⟩ => ⟨node, List.mem_append_left _ hmem, haddr⟩
            · rintro ⟨k', hk', leaf', slots', hleaf', hrest⟩
              replace hleaf' : leafAt k' l (ary (digit (l + 1) k')) = some (leaf', slots') := hleaf'
              have hdigit : digit (l + 1) k' = 0 := by
                by_contra hne
                rw [hnull _ (digit_lt _ _) hne, leafAt_null] at hleaf'
                cases hleaf'
              rw [hdigit] at hleaf'
              refine ⟨k', ?_, leaf', slots', hleaf', hrest⟩
              exact (digit_eq_zero_iff (by omega) (hk'.trans_lt (idrMax_lt_pow _))).mp hdigit
          · have hplaced : Placed (l + 1) 0 (.layer node ary) := 
              h.placed.resolve_left fun hnull => by cases hnull
            obtain hgone | ⟨hchild, -⟩ := hplaced.2 0 hzero
            · rw [hgone] at hleft
              cases hleft
            · exact Or.inr hchild
      · rw [if_neg hshrink]
        exact (List.append_nil removed).symm ▸ h

variable {fresh : ℕ}

/-- The allocator after layers have been taken out of it and freed. -/
theorem InOrder.free (h : InOrder idr fresh) (hremove : RemoveOk idr (after, freed))
    (hhint : after.hint = idr.hint)
    (hplaced : after.top = .null ∨ Placed (after.layers - 1) 0 after.top)
    (hleaf : ∀ k ≤ idrMax idr.layers, ∀ leaf slots,
      leafAt k (idr.layers - 1) idr.top = some (leaf, slots) → leaf.count ≠ 0 →
        (∃ node ∈ freed, node.addr = leaf.addr) ∨ ∃ k' ≤ idrMax after.layers, ∃ leaf' slots',
          leafAt k' (after.layers - 1) after.top = some (leaf', slots') ∧ leaf'.addr = leaf.addr ∧
            leaf'.count ≠ 0) :
    InOrder (after.freeLayers freed) fresh := by
  have htotal : ∀ addr, total (after.freeLayers freed) addr ≤ total idr addr := by
    intro addr
    have hle := hremove.total addr
    unfold total at hle ⊢
    rw [freeLayers_top, freeLayers_idFree]
    dsimp only at hle
    omega
  refine ⟨⟨?_, ?_, fun addr => ?_, fun addr haddr => ?_⟩, fun addr => (htotal addr).trans (h.once addr),
    fun addr hfresh => Nat.le_zero.mp ((htotal addr).trans (h.unused addr hfresh).le)⟩
  · have hok := hremove.ok
    unfold IdrOk at hok ⊢
    rwa [freeLayers_top, freeLayers_layers]
  · rwa [freeLayers_top, freeLayers_layers]
  · exact (Nat.le_add_right _ _).trans ((htotal addr).trans (h.once addr))
  · obtain ⟨hold, hkept⟩ := freeLayers_hint haddr
    rw [hhint] at hold
    obtain ⟨k, hk, leaf, slots, hleafAt, rfl, hcount⟩ := h.placed.hint addr hold
    rw [freeLayers_top, freeLayers_layers]
    obtain ⟨node, hmem, hsame⟩ | hrest := hleaf k hk leaf slots hleafAt hcount
    · exact absurd hsame (hkept node hmem)
    · exact hrest

/-- **`idr_remove`** frees the id, and leaves the others as they are. -/
theorem idrRemove_removes (h : InOrder idr fresh) (id : BitVec 32) :
    InOrder ((idrRemove idr id).1.freeLayers (idrRemove idr id).2) fresh ∧
      ((idrRemove idr id).1.freeLayers (idrRemove idr id).2).entry =
        Function.update idr.entry id.toNat none := by
  have hremoves : Removes id.toNat idr (idrRemove idr id).1 (idrRemove idr id).2 := by
    have hlarge : ¬ id.toNat ≤ idrMax idr.layers → idr.entry id.toNat = none := fun hnot => if_neg hnot
    have hmax := idrMax_lt idr.layers
    unfold idrRemove
    by_cases hneg : id.toInt < 0
    · rw [if_pos hneg]
      refine .of_free h.placed (hlarge ?_)
      rw [BitVec.toInt_eq_toNat_cond] at hneg
      have hlt := id.isLt
      split at hneg <;> omega
    · rw [if_neg hneg]
      by_cases habove : above id.toNat idr.layers = true
      · rw [if_pos habove]
        refine .of_free h.placed (hlarge ?_)
        unfold above at habove
        rw [Bool.and_eq_true, decide_eq_true_eq, decide_eq_true_eq] at habove
        omega
      · rw [if_neg habove]
        have hid := le_idrMax_of_not_above habove (toNat_of_nonneg hneg)
        exact (subRemove_removes h.placed hid).shrink (subRemove_ok h.placed.ok id.toNat).1.ok
  refine ⟨h.free (idrRemove_ok h.placed.ok id).1 hremoves.hint hremoves.placed hremoves.leaf, ?_⟩
  funext k
  rw [freeLayers_entry, hremoves.entry k, Function.update_apply]

theorem mem_postorder {leaf : Layer} {slots : ℕ → Slot P} (h : leafAt k l p = some (leaf, slots)) :
    leaf ∈ postorder l p := by
  induction l generalizing p with
  | zero =>
      cases p with
      | null => cases h
      | ptr value => cases h
      | layer node ary =>
          obtain ⟨rfl, -⟩ := Prod.mk.inj (Option.some.inj h)
          exact List.mem_singleton_self _
  | succ l ih =>
      cases p with
      | null => cases h
      | ptr value => cases h
      | layer node ary =>
          refine List.mem_append_left _ (List.mem_flatMap.mpr ⟨digit (l + 1) k, ?_, ih h⟩)
          exact List.mem_range.mpr (digit_lt (l + 1) k)

/-- The leaves are among the layers that are freed. -/
theorem mem_destroyed (h : IdrPlaced idr) (hk : k ≤ idrMax idr.layers) {leaf : Layer}
    {slots : ℕ → Slot P} (hleaf : leafAt k (idr.layers - 1) idr.top = some (leaf, slots)) :
    leaf ∈ destroyed idr.layers idr.top := by
  obtain ⟨hnull, -⟩ | ⟨l, node, ary, hlayers, hle, htop, -⟩ := h.cases
  · rw [hnull, leafAt_null] at hleaf
    cases hleaf
  · rw [htop, hlayers] at hleaf ⊢
    rw [hlayers] at hk
    obtain hless | rfl := hle.lt_or_eq
    · have hmem := mem_postorder hleaf
      obtain rfl | rfl | rfl : l = 0 ∨ l = 1 ∨ l = 2 := by omega
      · exact hmem
      · exact hmem
      · exact hmem
    · refine List.mem_flatMap.mpr ⟨digit 3 k, List.mem_range.mpr ?_, mem_postorder hleaf⟩
      have hlt := hk.trans_lt (idrMax_lt 4)
      rw [digit_eq]
      omega

/-- **`idr_destroy`** leaves nothing. -/
theorem idrDestroy_empties (h : InOrder idr fresh) :
    InOrder ((idrDestroy idr).1.freeLayers (idrDestroy idr).2) fresh ∧
      ((idrDestroy idr).1.freeLayers (idrDestroy idr).2).entry = fun _ => none := by
  have hfreed : (idrDestroy idr).2 = destroyed idr.layers idr.top := idrRemoveAll_freed h.placed.ok
  refine ⟨h.free (idrDestroy_ok h.placed.ok).1 rfl (Or.inl rfl) fun k hk leaf slots hleaf _ => ?_, ?_⟩
  · exact Or.inl ⟨leaf, hfreed ▸ mem_destroyed h.placed hk hleaf, rfl⟩
  · funext k
    rw [freeLayers_entry]
    unfold Idr.entry
    show (if k ≤ idrMax 0 then lookup k (0 - 1) .null else none) = none
    rw [lookup_null, ite_self]

/-! ### The calls -/

/-- An allocator, with `cur`, and the address of the next layer. -/
structure Allocator (P : Type) where
  idr : Idr P
  cur : BitVec 32
  fresh : ℕ

inductive Call (P : Type) where
  | alloc (value : Option P) (start limit : BitVec 32) (outcomes : List Bool)
  | allocCyclic (value : Option P) (start limit : BitVec 32) (outcomes : List Bool)
  | remove (id : BitVec 32)
  | find (id : BitVec 32)
  | replace (value : Option P) (id : BitVec 32)
  | getNext (nextId : BitVec 32)
  | isEmpty
  | destroy

inductive Reply (P : Type) where
  | done
  | allocated (result : Except Error ℕ)
  | found (value : Option P)
  | replaced (result : Except ReplaceError (Option P))
  | next (entry : Option (ℕ × P))
  | empty (result : Bool)

/-- `max(start, idr->cur)` -/
def cyclicStart (start cur : BitVec 32) : BitVec 32 := if start.toInt < cur.toInt then cur else start

/-- `idr->cur = id + 1`, if there is an id -/
def nextCur (cur : BitVec 32) : Except Error ℕ → BitVec 32
  | .ok id => BitVec.ofNat 32 (id + 1)
  | .error _ => cur

/-- `idr_alloc_cyclic`, up to where `cur` is set -/
def idrAllocCyclic (rounds : ℕ) (idr : Idr P) (cur : BitVec 32) (value : Option P)
    (start limit : BitVec 32) (memory : Memory) : Option (Idr P × Memory × Except Error ℕ) :=
  match idrAlloc rounds idr value (cyclicStart start cur) limit memory with
  | some (idr, memory, .error .enospc) => idrAlloc rounds idr value start limit memory
  | result => result

/-- More rounds than a search for a free id takes. -/
def enoughRounds : ℕ := 2 ^ 34

/-- **The machine.**  Every operation is a call, and its result is the answer. -/
def allocator (P : Type) : Machine (Allocator P) (Call P) (Reply P) where
  step state
    | .alloc value start limit outcomes =>
        (idrAlloc enoughRounds state.idr value start limit ⟨outcomes, state.fresh⟩).map fun result =>
          ({ state with idr := result.1, fresh := result.2.1.fresh }, [.allocated result.2.2])
    | .allocCyclic value start limit outcomes =>
        (idrAllocCyclic enoughRounds state.idr state.cur value start limit
          ⟨outcomes, state.fresh⟩).map fun result =>
            (⟨result.1, nextCur state.cur result.2.2, result.2.1.fresh⟩, [.allocated result.2.2])
    | .remove id =>
        some ({ state with
          idr := (idrRemove state.idr id).1.freeLayers (idrRemove state.idr id).2 }, [.done])
    | .find id => (idrFind state.idr id).map fun value => (state, [.found value])
    | .replace value id =>
        (idrReplace state.idr value id).map fun result =>
          ({ state with idr := result.1 }, [.replaced result.2])
    | .getNext nextId => (idrGetNext state.idr nextId).map fun entry => (state, [.next entry])
    | .isEmpty => (idrIsEmpty state.idr).map fun result => (state, [.empty result])
    | .destroy =>
        some ({ state with
          idr := (idrDestroy state.idr).1.freeLayers (idrDestroy state.idr).2 }, [.done])

/-- After `idr_init`. -/
def Allocator.init : Allocator P := ⟨idrInit, 0, 0⟩

/-! ### The map -/

/-- **What the allocator is for**: pointers, each under an id, and where to begin the next cyclic
allocation. -/
structure IdMap (P : Type) where
  ids : ℕ → Option (Option P)
  cur : BitVec 32

namespace IdMap

def empty : IdMap P := ⟨fun _ => none, 0⟩

/-- The id can be given out. -/
def Free (map : IdMap P) (id : ℕ) : Prop := id < 2 ^ 31 ∧ map.ids id = none

/-- The pointer of an id, if there is one that is not `NULL`. -/
def pointer (map : IdMap P) (id : ℕ) : Option P := (map.ids id).join

/-- **What an allocation may answer**: the least free id of the range, or that there is none, or
that one of so many allocations of memory has failed. -/
def Gives (map : IdMap P) (start limit : BitVec 32) (outcomes : List Bool) (most : ℕ) :
    Except Error ℕ → Prop
  | .ok id => 0 ≤ start.toInt ∧ IsNext map.Free start.toNat (some id) ∧ (id : ℤ) ≤ allocMax limit
  | .error .einval => start.toInt < 0
  | .error .enospc =>
      0 ≤ start.toInt ∧ ∀ k, start.toNat ≤ k → (k : ℤ) ≤ allocMax limit → ¬ map.Free k
  | .error .enomem => 0 ≤ start.toInt ∧ ∃ n < most, outcomes[n]? ≠ some true

/-- The map after an allocation. -/
def store (map : IdMap P) (value : Option P) : Except Error ℕ → IdMap P
  | .ok id => { map with ids := Function.update map.ids id (some value) }
  | .error _ => map

/-- What a replacement answers, and the map after it. -/
def Replaces (map : IdMap P) (value : Option P) (id : BitVec 32) (next : IdMap P) :
    Except ReplaceError (Option P) → Prop
  | .ok old => 0 ≤ id.toInt ∧ map.ids id.toNat = some old ∧
      next = { map with ids := Function.update map.ids id.toNat (some value) }
  | .error .einval => id.toInt < 0 ∧ next = map
  | .error .enoent => 0 ≤ id.toInt ∧ map.ids id.toNat = none ∧ next = map

/-- **The answers of a map.** -/
def Answers (map : IdMap P) : Call P → Reply P → IdMap P → Prop
  | .alloc value start limit outcomes, .allocated result, next =>
      map.Gives start limit outcomes 7 result ∧ next = map.store value result
  | .allocCyclic value start limit outcomes, .allocated result, next =>
      (result ≠ .error .enospc ∧ map.Gives (cyclicStart start map.cur) limit outcomes 7 result ∨
        map.Gives (cyclicStart start map.cur) limit outcomes 7 (.error .enospc) ∧
          map.Gives start limit outcomes 14 result) ∧
        next = { map.store value result with cur := nextCur map.cur result }
  | .remove id, .done, next =>
      next = { map with ids := Function.update map.ids id.toNat none }
  | .find id, .found value, next =>
      value = (if id.toInt < 0 then none else map.pointer id.toNat) ∧ next = map
  | .replace value id, .replaced result, next => map.Replaces value id next result
  | .getNext nextId, .next entry, next =>
      (nextId.toInt < 0 → entry = none) ∧
        (0 ≤ nextId.toInt → IsNext (fun id => (map.pointer id).isSome = true) nextId.toNat
          (entry.map Prod.fst)) ∧
        (∀ found ∈ entry, map.pointer found.1 = some found.2) ∧ next = map
  | .isEmpty, .empty result, next =>
      (result = true ↔ ∀ id, map.pointer id = none) ∧ next = map
  | .destroy, .done, next => next = { map with ids := fun _ => none }
  | _, _, _ => False

/-- The map as a specification of the allocator. -/
def spec (P : Type) : Specification (IdMap P) (Call P) (Reply P) := ⟨Answers⟩

end IdMap

/-- **The allocator stores what the map has**, in a tree that is in order. -/
structure Stores (state : Allocator P) (map : IdMap P) : Prop where
  order : InOrder state.idr state.fresh
  ids : state.idr.entry = map.ids
  cur : state.cur = map.cur

/-! ### The allocator answers as the map does -/

variable {state : Allocator P} {map : IdMap P} {memory memory' : Memory}
variable {value : Option P} {start limit : BitVec 32} {result : Except Error ℕ}

theorem enoughRounds_le : 2 ^ 31 * 5 + 4 ≤ enoughRounds := by
  unfold enoughRounds
  norm_num

theorem Stores.init : Stores (.init : Allocator P) .empty where
  order :=
    { placed := ⟨Or.inl ⟨rfl, rfl⟩, Or.inl rfl, fun _ => Nat.zero_le 1, fun _ hhint => by cases hhint⟩
      once := fun _ => Nat.zero_le 1
      unused := fun _ _ => rfl }
  ids := by
    funext k
    exact ite_self _
  cur := rfl

theorem free_eq (hids : idr.entry = map.ids) : idr.Free = map.Free := by
  funext k
  unfold Idr.Free IdMap.Free
  rw [hids]

/-- What `idr_alloc` returns is what the map may answer. -/
theorem Allocates.gives (h : Allocates idr value start limit memory after memory' result)
    (horder : InOrder idr memory.fresh) (hids : idr.entry = map.ids) :
    map.Gives start limit memory.outcomes 7 result ∧ InOrder after memory'.fresh ∧
      after.entry = (map.store value result).ids := by
  have hfree := free_eq hids
  cases result with
  | ok id =>
      obtain ⟨hpos, hnext, hmax, hafter, hentry⟩ := h
      refine ⟨⟨hpos, hfree ▸ hnext, hmax⟩, hafter, ?_⟩
      funext k
      show _ = Function.update map.ids id (some value) k
      rw [hentry k, Function.update_apply, hids]
  | error error =>
      cases error with
      | einval =>
          obtain ⟨hneg, rfl, rfl⟩ := h
          exact ⟨hneg, horder, hids⟩
      | enospc =>
          obtain ⟨hpos, hafter, -, hentry, hused⟩ := h
          exact ⟨⟨hpos, hfree ▸ hused⟩, hafter, (funext hentry).trans hids⟩
      | enomem =>
          obtain ⟨hpos, hafter, hshort, hentry⟩ := h
          exact ⟨⟨hpos, hshort⟩, hafter, (funext hentry).trans hids⟩

theorem Stores.alloc (h : Stores state map) (value : Option P) (start limit : BitVec 32)
    (outcomes : List Bool) : ∃ next reply map',
      (allocator P).step state (.alloc value start limit outcomes) = some (next, [reply]) ∧
        map.Answers (.alloc value start limit outcomes) reply map' ∧ Stores next map' := by
  obtain ⟨after, memory', result, hcall, hresult⟩ :=
    @idrAlloc_allocates _ ⟨outcomes, state.fresh⟩ _ _ h.order value start limit enoughRounds_le
  obtain ⟨hgives, hafter, hids⟩ := hresult.gives h.order h.ids
  refine ⟨⟨after, state.cur, memory'.fresh⟩, .allocated result, map.store value result, ?_,
    ⟨hgives, rfl⟩, hafter, hids, ?_⟩
  · show (idrAlloc _ _ _ _ _ _).map _ = _
    rw [hcall]
    rfl
  · cases result <;> exact h.cur

/-- **`idr_alloc_cyclic`** begins at `cur`, and at `start` if nothing is free from there on. -/
theorem idrAllocCyclic_gives {cur : BitVec 32} (horder : InOrder idr memory.fresh)
    (hids : idr.entry = map.ids) (value : Option P) (start limit : BitVec 32) :
    ∃ after memory' result,
      idrAllocCyclic enoughRounds idr cur value start limit memory = some (after, memory', result) ∧
        (result ≠ .error .enospc ∧
            map.Gives (cyclicStart start cur) limit memory.outcomes 7 result ∨
          map.Gives (cyclicStart start cur) limit memory.outcomes 7 (.error .enospc) ∧
            map.Gives start limit memory.outcomes 14 result) ∧
        InOrder after memory'.fresh ∧ after.entry = (map.store value result).ids := by
  obtain ⟨middle, memory', result, hcall, hresult⟩ :=
    idrAlloc_allocates horder value (cyclicStart start cur) limit enoughRounds_le
  obtain ⟨hgives, hmiddle, hstored⟩ := hresult.gives horder hids
  unfold idrAllocCyclic
  rw [hcall]
  by_cases henospc : result = .error .enospc
  · subst henospc
    obtain ⟨after, memory'', result, hagain, hlast⟩ :=
      idrAlloc_allocates hmiddle value start limit enoughRounds_le
    obtain ⟨hgives', hafter, hstored'⟩ := hlast.gives hmiddle hstored
    refine ⟨after, memory'', result, hagain, Or.inr ⟨hgives, ?_⟩, hafter, hstored'⟩
    obtain ⟨-, -, htook, -⟩ := hresult
    cases result with
    | ok id => exact hgives'
    | error error =>
        cases error with
        | einval => exact hgives'
        | enospc => exact hgives'
        | enomem => exact ⟨hgives'.1, htook.runsOut hgives'.2⟩
  · refine ⟨middle, memory', result, ?_, Or.inl ⟨henospc, hgives⟩, hmiddle, hstored⟩
    cases result with
    | ok id => rfl
    | error error =>
        cases error with
        | einval => rfl
        | enospc => exact absurd rfl henospc
        | enomem => rfl

theorem Stores.allocCyclic (h : Stores state map) (value : Option P) (start limit : BitVec 32)
    (outcomes : List Bool) : ∃ next reply map',
      (allocator P).step state (.allocCyclic value start limit outcomes) = some (next, [reply]) ∧
        map.Answers (.allocCyclic value start limit outcomes) reply map' ∧ Stores next map' := by
  obtain ⟨after, memory', result, hcall, hgives, hafter, hids⟩ :=
    @idrAllocCyclic_gives _ _ _ ⟨outcomes, state.fresh⟩ state.cur h.order h.ids value start limit
  rw [h.cur] at hgives
  refine ⟨⟨after, nextCur state.cur result, memory'.fresh⟩, .allocated result,
    { map.store value result with cur := nextCur map.cur result }, ?_, ⟨hgives, rfl⟩, hafter, hids,
    congrArg (nextCur · result) h.cur⟩
  show (idrAllocCyclic _ _ _ _ _ _ _).map _ = _
  rw [hcall]
  rfl

theorem Stores.replace (h : Stores state map) (value : Option P) (id : BitVec 32) :
    ∃ next reply map', (allocator P).step state (.replace value id) = some (next, [reply]) ∧
      map.Answers (.replace value id) reply map' ∧ Stores next map' := by
  have hreplaces := idrReplace_eq h.order.placed value id
  have hstep : ∀ {result}, idrReplace state.idr value id = some result →
      (allocator P).step state (.replace value id) =
        some ({ state with idr := result.1 }, [.replaced result.2]) := by
    intro result hcall
    show (idrReplace _ _ _).map _ = _
    rw [hcall]
    rfl
  obtain hneg | hpos := lt_or_ge id.toInt 0
  · exact ⟨state, _, map, hstep (hreplaces.negative hneg), ⟨hneg, rfl⟩, h⟩
  · cases hentry : state.idr.entry id.toNat with
    | none =>
        exact ⟨state, _, map, hstep (hreplaces.free hpos hentry), ⟨hpos, h.ids ▸ hentry, rfl⟩, h⟩
    | some old =>
        obtain ⟨top, hcall, hplaced, hocc, hentries⟩ := hreplaces.found old hpos hentry
        have htotal : ∀ addr, total { state.idr with top := top } addr = total state.idr addr :=
          fun addr => congrArg (· + listed addr state.idr.idFree) (hocc addr)
        refine ⟨_, _, _, hstep hcall, ⟨hpos, h.ids ▸ hentry, rfl⟩, ⟨hplaced, fun addr => ?_,
          fun addr hfresh => ?_⟩, ?_, h.cur⟩
        · exact (htotal addr).trans_le (h.order.once addr)
        · exact (htotal addr).trans (h.order.unused addr hfresh)
        · funext k
          show Idr.entry { state.idr with top := top } k = Function.update map.ids _ _ k
          rw [hentries k, Function.update_apply, h.ids]

/-- **Every call is answered, and rightly.** -/
theorem allocator_implements (P : Type) : Implements (allocator P) (IdMap.spec P) Stores := by
  intro state map call h
  have hpointer : state.idr.pointerAt = map.pointer := by
    funext id
    unfold Idr.pointerAt IdMap.pointer
    rw [h.ids]
  cases call with
  | alloc value start limit outcomes => exact h.alloc value start limit outcomes
  | allocCyclic value start limit outcomes => exact h.allocCyclic value start limit outcomes
  | remove id =>
      obtain ⟨horder, hentry⟩ := idrRemove_removes h.order id
      exact ⟨_, _, _, rfl, rfl, horder, h.ids ▸ hentry, h.cur⟩
  | find id =>
      refine ⟨state, .found (if id.toInt < 0 then none else map.pointer id.toNat), map, ?_,
        ⟨rfl, rfl⟩, h⟩
      show (idrFind _ _).map _ = _
      rw [idrFind_eq h.order.placed, h.ids]
      rfl
  | replace value id => exact h.replace value id
  | getNext nextId =>
      obtain ⟨entry, hcall, hneg, hnext, hentry⟩ := idrGetNext_isNext h.order.placed nextId
      rw [hpointer] at hnext hentry
      refine ⟨state, .next entry, map, ?_, ⟨hneg, hnext, hentry, rfl⟩, h⟩
      show (idrGetNext _ _).map _ = _
      rw [hcall]
      rfl
  | isEmpty =>
      refine ⟨state, .empty state.idr.listing.isEmpty, map, ?_, ⟨?_, rfl⟩, h⟩
      · show (idrIsEmpty _).map _ = _
        rw [idrIsEmpty_eq h.order.placed]
        rfl
      · rw [← hpointer]
        exact listing_isEmpty_iff state.idr
  | destroy =>
      obtain ⟨horder, hentry⟩ := idrDestroy_empties h.order
      exact ⟨_, _, _, rfl, rfl, horder, hentry, h.cur⟩

/-- **The id allocator is a map.**  Whatever is called, with whatever memory there is, every call
returns, and all answers are those of one map from ids to pointers. -/
theorem idr_answers (calls : List (Call P)) : ∃ last replies map,
    (allocator P).run .init calls = some (last, replies) ∧
      (IdMap.spec P).Conforms .empty calls replies map ∧ Stores last map :=
  Implements.run (allocator_implements P) .init calls

/-- **After any calls `idr_for_each` visits what the map has**: every pointer that is not `NULL`, once
and in ascending order of the ids, until the callback returns something else than zero. -/
theorem idr_forEach_entries {σ : Type} (calls : List (Call P)) (fn : σ → ℕ → P → σ × ℤ) (data : σ) :
    ∃ last replies map entries, (allocator P).run .init calls = some (last, replies) ∧
      (IdMap.spec P).Conforms .empty calls replies map ∧ Lists map.pointer 0 entries ∧
        idrForEach fn data last.idr = some (visit fn data entries) := by
  obtain ⟨last, replies, map, hrun, hconforms, hstores⟩ :=
    Implements.run (allocator_implements P) .init calls
  have hlists := lists_listing last.idr
  unfold Idr.pointerAt at hlists
  rw [hstores.ids] at hlists
  exact ⟨last, replies, map, last.idr.listing, hrun, hconforms, hlists,
    idrForEach_visits hstores.order.placed fn data⟩

end Webcamd.Kernel.IdrTree
