import Webcamd.Library.NextKey
import Webcamd.Kernel.IdrSearch

/-!
# The id that is given out

`idr_alloc` gives out the least id from `start` on that is free, and stores the pointer there.  The
tree grows for it as far as is needed, and stores the same meanwhile.

* `Keeps` — the same is stored, and no leaf with something in it has changed.
* `buildUpLoop_reaches` — the tree has room for the id after it, or there is no memory.
* `EmptySlot.Reaches`, `idrGetEmptySlot_reaches` — the least id that is free.
* `SameFrames`, `leafAt_plugAll_on`, `leafAt_plugAll_off` — what is stored depends on the slots of
  the layers alone, and is elsewhere not changed where a leaf is.
* `Allocates`, `idrAlloc_allocates` — **`idr_alloc` returns**, and what it returns.
-/

namespace Webcamd.Kernel.IdrTree

open Bitmap Webcamd.Library

variable {P : Type}
variable {l layers id other k m base : ℕ} {node : Layer} {ary : ℕ → Slot P} {p child top : Slot P}
variable {frame : Frame P} {pa : List (Frame P)} {memory memory' : Memory} {idr middle after : Idr P}

/-! ### The tree grows -/

/-- **The same is stored** in the second tree, and a leaf with something in it is as it was. -/
structure Keeps (before after : Idr P) : Prop where
  hint : after.hint = before.hint
  le : before.layers ≤ after.layers
  entry : ∀ k, after.entry k = before.entry k
  leaf : ∀ k ≤ idrMax before.layers, ∀ leaf slots,
    leafAt k (before.layers - 1) before.top = some (leaf, slots) → leaf.count ≠ 0 →
      leafAt k (after.layers - 1) after.top = some (leaf, slots)

theorem idrMax_mono {more : ℕ} (hle : layers ≤ more) : idrMax layers ≤ idrMax more := by
  unfold idrMax
  rw [Nat.shiftLeft_eq, Nat.shiftLeft_eq, Nat.one_mul, Nat.one_mul]
  refine Nat.sub_le_sub_right (Nat.pow_le_pow_right (by decide) ?_) 1
  exact min_le_min_right _ (Nat.mul_le_mul_right _ hle)

theorem Keeps.refl (idr : Idr P) : Keeps idr idr :=
  ⟨rfl, le_rfl, fun _ => rfl, fun _ _ _ _ hleaf _ => hleaf⟩

theorem Keeps.trans (h : Keeps idr middle) (hnext : Keeps middle after) : Keeps idr after where
  hint := hnext.hint.trans h.hint
  le := h.le.trans hnext.le
  entry k := (hnext.entry k).trans (h.entry k)
  leaf k hk leaf slots hleaf hcount :=
    hnext.leaf k (hk.trans (idrMax_mono h.le)) leaf slots (h.leaf k hk leaf slots hleaf hcount) hcount

/-- The free list does not matter. -/
theorem Keeps.free (h : Keeps idr after) (idFree : List Layer) :
    Keeps idr { after with idFree := idFree } :=
  { h with }

theorem Keeps.of_extends {top' : Slot P} (h : Extends (layers - 1) top top') (idr : Idr P) :
    Keeps { idr with top := top, layers := layers } { idr with top := top', layers := layers } where
  hint := rfl
  le := le_rfl
  entry k := by
    unfold Idr.entry
    rw [h.stored k]
  leaf k _ leaf slots hleaf _ := h.leaf k leaf slots hleaf

/-- Nothing is stored in a layer that counts nothing. -/
theorem LayerOk.lookup_of_empty (h : LayerOk l (.layer node ary)) (hcount : node.count = 0) (k : ℕ) :
    lookup k l (.layer node ary) = none := by
  obtain ⟨hnull, hbits⟩ := h.empty hcount
  cases l with
  | zero =>
      rw [lookup, hbits _ (digit_lt 0 k)]
      rfl
  | succ l => rw [lookup_succ, hnull _ (digit_lt (l + 1) k), lookup_null]

/-- An empty tree with its top at a higher level. -/
theorem Keeps.move {node' : Layer} (idr : Idr P)
    (hok : LayerOk (layers - 1) (.layer node ary)) (hok' : LayerOk layers (.layer node' ary))
    (hcount : node.count = 0) (hcount' : node'.count = 0) :
    Keeps { idr with top := .layer node ary, layers := layers }
      { idr with top := .layer node' ary, layers := layers + 1 } where
  hint := rfl
  le := Nat.le_succ layers
  entry k := by
    unfold Idr.entry
    dsimp only
    rw [Nat.add_sub_cancel, hok.lookup_of_empty hcount, hok'.lookup_of_empty hcount', ite_self,
      ite_self]
  leaf k _ leaf slots hleaf hsome := by
    obtain ⟨hnull, -⟩ := hok.empty hcount
    dsimp only at hleaf
    cases hlayers : layers - 1 with
    | zero =>
        rw [hlayers] at hleaf
        obtain ⟨rfl, -⟩ := Prod.mk.inj (Option.some.inj hleaf)
        exact absurd hcount hsome
    | succ l =>
        rw [hlayers, leafAt_succ, hnull _ (digit_lt _ _), leafAt_null] at hleaf
        cases hleaf

/-- The digit of an id in a layer that is put on top. -/
theorem digit_eq_zero_iff (hle : layers ≤ 3) (hk : k < 2 ^ (8 * (layers + 1))) :
    digit layers k = 0 ↔ k ≤ idrMax layers := by
  have hpos := Nat.two_pow_pos (8 * layers)
  have hsmall : k / 2 ^ (8 * layers) < 256 := by
    refine (Nat.div_lt_iff_lt_mul hpos).mpr ?_
    rwa [Nat.mul_succ, Nat.add_comm, pow_add] at hk
  rw [digit_eq, Nat.mod_eq_of_lt hsmall, Nat.div_eq_zero_iff, idrMax_eq hle]
  omega

theorem digit_eq_zero (hle : layers ≤ 3) (hk : k ≤ idrMax layers) : digit layers k = 0 := by
  refine (digit_eq_zero_iff hle (hk.trans_lt ?_)).mpr hk
  exact (idrMax_lt_pow layers).trans_le (Nat.pow_le_pow_right (by decide) (by omega))

/-- **A layer of which only the leftmost slot is used** stores what is stored there. -/
theorem entry_onTop (idr : Idr P) (hpos : 0 < layers) (hle : layers ≤ 3)
    (hnull : ∀ n < idrSize, n ≠ 0 → ary n = .null) (k : ℕ) :
    Idr.entry { idr with top := .layer node ary, layers := layers + 1 } k =
      Idr.entry { idr with top := ary 0, layers := layers } k := by
  unfold Idr.entry
  dsimp only
  obtain ⟨l, rfl⟩ : ∃ l, layers = l + 1 := ⟨layers - 1, by omega⟩
  rw [Nat.add_sub_cancel, Nat.add_sub_cancel, lookup_succ]
  by_cases hin : k ≤ idrMax (l + 1)
  · rw [if_pos hin, if_pos (hin.trans (idrMax_mono (Nat.le_succ _))), digit_eq_zero hle hin]
  · rw [if_neg hin]
    split
    · rename_i hover
      have hne : digit (l + 1) k ≠ 0 := fun hzero =>
        hin ((digit_eq_zero_iff hle (hover.trans_lt (idrMax_lt_pow _))).mp hzero)
      rw [hnull _ (digit_lt _ _) hne, lookup_null]
    · rfl

/-- A new top with the old tree at its leftmost slot. -/
theorem Keeps.grow {new : Layer} (idr : Idr P) (hpos : 0 < layers) (hle : layers ≤ 3) :
    Keeps { idr with top := p, layers := layers }
      { idr with
        top := .layer new (Function.update (fun _ => .null) 0 p)
        layers := layers + 1 } where
  hint := rfl
  le := Nat.le_succ layers
  entry k := by
    have honTop := @entry_onTop _ _ new (Function.update (fun _ => .null) 0 p) idr hpos hle
      (fun n _ hne => Function.update_of_ne hne _ _) k
    rwa [Function.update_self] at honTop
  leaf k hk leaf slots hleaf _ := by
    dsimp only at hk hleaf ⊢
    obtain ⟨l, rfl⟩ : ∃ l, layers = l + 1 := ⟨layers - 1, by omega⟩
    rw [Nat.add_sub_cancel, leafAt_succ, digit_eq_zero hle hk, Function.update_self]
    exact hleaf

/-- What the loop is at that adds layers on top, with what is stored. -/
structure Building (idr : Idr P) (first : ℕ) (node : Layer) (ary : ℕ → Slot P) (layers : ℕ)
    (memory : Memory) : Prop extends BuildOk idr first node ary layers memory where
  placed : Placed (layers - 1) 0 (.layer node ary)
  keeps : Keeps idr { idr with top := .layer node ary, layers := layers }

variable {first : ℕ}

theorem Building.searchable (h : Building idr first node ary layers memory) :
    Searchable layers (.layer node ary) where
  pos := h.pos
  le_four := h.le_four
  layerOk := h.tree.layerOk
  placed := h.placed

theorem Building.move (h : Building idr first node ary layers memory) (hlt : layers < 4)
    (hcount : node.count = 0) :
    Building idr first { node with layer := node.layer + 1 } ary (layers + 1) memory := by
  have hmove := h.toBuildOk.move hlt hcount
  refine { toBuildOk := hmove, placed := ?_, keeps := ?_ }
  · obtain ⟨hnull, -⟩ := h.tree.layerOk.empty hcount
    obtain ⟨l, rfl⟩ : ∃ l, layers = l + 1 := ⟨layers - 1, by have := h.pos; omega⟩
    exact ⟨congrArg (· + 1) h.placed.layer, fun n hn => Or.inl (hnull n hn)⟩
  · exact h.keeps.trans (.move idr h.tree.layerOk hmove.tree.layerOk hcount hcount)

theorem Building.grow {new : Layer} (h : Building idr first node ary layers memory)
    (hlt : layers < 4) (hbase : ∀ addr, first ≤ addr → idr.top.occ addr = 0)
    (hcount : node.count ≠ 0) (hcall : idrLayerAlloc memory = (some new, memory')) (id : ℕ) :
    Building idr first (new.onTop node id layers)
      (Function.update (fun _ => .null) 0 (.layer node ary)) (layers + 1) memory' := by
  refine { toBuildOk := h.toBuildOk.grow hlt hbase hcount hcall id, placed := ?_, keeps := ?_ }
  · obtain ⟨l, rfl⟩ : ∃ l, layers = l + 1 := ⟨layers - 1, by have := h.pos; omega⟩
    refine ⟨rfl, fun n _ => ?_⟩
    by_cases hzero : n = 0
    · rw [hzero, Function.update_self]
      refine Or.inr ⟨h.placed, ?_⟩
      rw [Nat.zero_mul, Nat.zero_add, Nat.zero_mul]
      decide
    · rw [Function.update_of_ne hzero]
      exact Or.inl rfl
  · exact h.keeps.trans (.grow idr h.pos (by omega))

/-- What the loop ends with: room for the id, or no memory for one of the layers on top. -/
def BuildUp.Reaches (idr : Idr P) (first id layers : ℕ) (memory : Memory) : BuildUp P → Prop
  | .built node ary layers' memory' =>
      Building idr first node ary layers' memory' ∧ layers ≤ layers' ∧ id ≤ idrMax layers' ∧
        Took (layers' - layers) memory memory'
  | .torn _ _ => RunsOut (4 - layers) memory

theorem buildUpLoop_reaches {rounds : ℕ} (h : Building idr first node ary layers memory)
    (hbase : ∀ addr, first ≤ addr → idr.top.occ addr = 0) (hid : id < 2 ^ 31)
    (hrounds : 4 - layers < rounds) :
    ∃ result, buildUpLoop idr id rounds node ary layers memory = some result ∧
      result.Reaches idr first id layers memory := by
  induction rounds generalizing node ary layers memory with
  | zero => omega
  | succ rounds ih =>
      rw [buildUpLoop]
      by_cases habove : above id layers = true
      · have hlt := above_lt habove
        rw [if_pos habove]
        by_cases hcount : node.count = 0
        · rw [if_pos hcount]
          obtain ⟨result, hresult, hreaches⟩ := ih (h.move hlt hcount) (by omega)
          refine ⟨result, hresult, ?_⟩
          cases result with
          | built node' ary' layers' memory' =>
              obtain ⟨hbuilt, hle, hfits, htook⟩ := hreaches
              exact ⟨hbuilt, by omega, hfits, htook.mono (by omega)⟩
          | torn idFree memory' => exact RunsOut.mono hreaches (by omega)
        · rw [if_neg hcount]
          cases hcall : idrLayerAlloc memory with
          | mk new memory' =>
              cases new with
              | none => exact ⟨_, rfl, (RunsOut.of_none hcall).mono (by omega)⟩
              | some new =>
                  obtain ⟨result, hresult, hreaches⟩ :=
                    ih (h.grow hlt hbase hcount hcall id) (by omega)
                  refine ⟨result, hresult, ?_⟩
                  cases result with
                  | built node' ary' layers' memory'' =>
                      obtain ⟨hbuilt, hle, hfits, htook⟩ := hreaches
                      exact ⟨hbuilt, by omega, hfits,
                        ((Took.of_some hcall).trans htook).mono (by omega)⟩
                  | torn idFree memory'' =>
                      exact ((Took.of_some hcall).runsOut hreaches).mono (by omega)
      · rw [if_neg habove]
        exact ⟨_, rfl, h, le_rfl, le_idrMax_of_not_above habove hid, .refl _ _⟩

/-! ### `idr_get_empty_slot` -/

/-- The ids of the allocator that are free. -/
def Idr.Free (idr : Idr P) (id : ℕ) : Prop := id < 2 ^ 31 ∧ idr.entry id = none

/-- **The tree of an allocator in order**, apart from `hint`. -/
structure TreePlaced (idr : Idr P) : Prop where
  ok : IdrOk idr
  placed : idr.top = .null ∨ Placed (idr.layers - 1) 0 idr.top

/-- What `idr_get_empty_slot` ends with: the least id that is free, if there is one, unless there is
no memory for one of the first `most` layers. -/
def EmptySlot.Reaches (before : Idr P) (id most : ℕ) (memory : Memory) : EmptySlot P → Prop
  | .found idr leaf ary pa next memory' =>
      IsNext before.Free id (some next) ∧ Took most memory memory' ∧ Keeps before idr ∧
        TreePlaced idr ∧ next < 2 ^ (8 * idr.layers) ∧ Placed 0 (next / 2 ^ 8) (.layer leaf ary) ∧
        PlacedPath next 0 pa
  | .failed idr .enospc memory' =>
      IsNext before.Free id none ∧ Took most memory memory' ∧ Keeps before idr ∧ TreePlaced idr
  | .failed idr .enomem _ => RunsOut most memory ∧ Keeps before idr ∧ TreePlaced idr
  | .failed _ .einval _ => False

theorem le_idrMax_of_lt (hlt : id < 2 ^ 31) (hfits : id < 2 ^ (8 * layers)) : id ≤ idrMax layers := by
  unfold idrMax
  rw [Nat.shiftLeft_eq, Nat.one_mul]
  obtain hle | hle := Nat.le_total (layers * idrBits) maxIdrShift
  · rw [Nat.min_eq_left hle, Nat.mul_comm]
    exact Nat.le_sub_one_of_lt hfits
  · rw [Nat.min_eq_right hle]
    exact Nat.le_sub_one_of_lt hlt

/-- What is given out has something stored. -/
theorem isSome_entry (h : Placed (layers - 1) 0 top) (hk : k ≤ idrMax layers) (idr : Idr P) :
    (Idr.entry { idr with top := top, layers := layers } k).isSome =
      allocated k (layers - 1) top := by
  unfold Idr.entry
  rw [if_pos hk, isSome_lookup h]

/-- Ids that are in use are not free. -/
theorem Keeps.not_free (h : Keeps idr { idr with top := top, layers := layers })
    (hplaced : Placed (layers - 1) 0 top) (hk : k ≤ idrMax layers)
    (halloc : allocated k (layers - 1) top = true) : ¬ idr.Free k := by
  rintro ⟨-, hnone⟩
  rw [← isSome_entry hplaced hk idr, h.entry k, hnone] at halloc
  cases halloc

/-- **The tree has to grow**: what holds when the search has come to the end of it. -/
structure Outgrown (before idr : Idr P) (layers id next : ℕ) (memory memory' : Memory) : Prop where
  keeps : Keeps before idr
  placed : TreePlaced idr
  fresh : ∀ addr, memory'.fresh ≤ addr → idr.top.occ addr = 0
  fits : id ≤ idrMax idr.layers
  end_eq : next = 2 ^ (8 * idr.layers)
  less : idr.layers ≤ 3
  used : ∀ k, id ≤ k → k < next → ¬ before.Free k
  took : Took (idr.layers - layers) memory memory'

theorem idPrefix_of_some {new : Layer} (hcall : idrLayerAlloc memory = (some new, memory')) :
    new.idPrefix = 0 := by
  unfold idrLayerAlloc at hcall
  split at hcall
  · rw [← Option.some.inj (Prod.mk.inj hcall).1]
    rfl
  · cases (Prod.mk.inj hcall).1
  · cases (Prod.mk.inj hcall).1

/-- The first layer of a tree. -/
theorem Keeps.of_null (hnull : idr.top = .null) (hlayers : idr.layers = 0)
    (hbits : ∀ n, testBit n node.bitmap = false) :
    Keeps idr { idr with top := .layer node fun _ => .null, layers := 1 } where
  hint := rfl
  le := hlayers.le.trans (Nat.zero_le 1)
  entry k := by
    unfold Idr.entry
    dsimp only
    rw [hnull, lookup_null, lookup_of_nulls hbits, ite_self, ite_self]
  leaf k _ leaf slots hleaf _ := by
    rw [hnull, leafAt_null] at hleaf
    cases hleaf

/-- What is found out from there on, in a tree that stores the same. -/
theorem EmptySlot.Reaches.from {result : EmptySlot P} {next most : ℕ}
    (h : result.Reaches middle next most memory')
    (hgrown : Outgrown idr middle layers id next memory memory') :
    result.Reaches idr id (middle.layers - layers + most) memory := by
  have hfree : ∀ k, middle.Free k ↔ idr.Free k := by
    intro k
    unfold Idr.Free
    rw [hgrown.keeps.entry k]
  have hle : id ≤ next := by
    rw [hgrown.end_eq]
    exact (hgrown.fits.trans_lt (idrMax_lt_pow _)).le
  have hskip : ∀ {found}, IsNext middle.Free next found → IsNext idr.Free id found :=
    fun hnext => (hnext.congr fun k _ => hfree k).skip hle hgrown.used
  cases result with
  | found idr leaf ary pa last memory'' =>
      obtain ⟨hnext, htook, hkeeps, hrest⟩ := h
      exact ⟨hskip hnext, hgrown.took.trans htook, hgrown.keeps.trans hkeeps, hrest⟩
  | failed last error memory'' =>
      cases error with
      | einval => exact h.elim
      | enospc =>
          obtain ⟨hnext, htook, hkeeps, hplaced⟩ := h
          exact ⟨hskip hnext, hgrown.took.trans htook, hgrown.keeps.trans hkeeps, hplaced⟩
      | enomem =>
          obtain ⟨hshort, hkeeps, hplaced⟩ := h
          exact ⟨hgrown.took.runsOut hshort, hgrown.keeps.trans hkeeps, hplaced⟩

/-- **From `build_up` on**: the tree grows, and the id is found or the tree has to grow again. -/
theorem emptySlotFrom_reaches {rounds : ℕ}
    {again : Idr P → ℕ → Memory → Option (EmptySlot P)}
    (h : Building idr first node ary layers memory) (hshape : TreePlaced idr)
    (hbase : ∀ addr, first ≤ addr → idr.top.occ addr = 0) (hid : id < 2 ^ 31)
    (hrounds : 2 ^ 31 * 5 + 4 ≤ rounds)
    (hagain : ∀ {middle next memory'}, Outgrown idr middle layers id next memory memory' →
      layers ≤ middle.layers → ∃ result, again middle next memory' = some result ∧
        result.Reaches middle next (7 - middle.layers) memory') :
    ∃ result, emptySlotFrom idr id rounds node ary layers memory again = some result ∧
      result.Reaches idr id (7 - layers) memory := by
  have hpos := h.pos
  have hpow : 0 < 2 ^ 31 := Nat.two_pow_pos 31
  obtain ⟨result, hresult, hreaches⟩ := buildUpLoop_reaches h hbase hid (show 4 - layers < rounds by omega)
  have hok := buildUpLoop_ok h.toBuildOk hbase hresult
  unfold emptySlotFrom
  rw [hresult]
  cases result with
  | torn idFree memory' =>
      exact ⟨_, rfl, RunsOut.mono hreaches (by omega), (Keeps.refl idr).free idFree,
        ⟨hshape.ok, hshape.placed⟩⟩
  | built node' ary' layers' memory' =>
      obtain ⟨hbuilt, hle, hfits, htook⟩ := hreaches
      have hlayers := hbuilt.pos
      have hfour := hbuilt.le_four
      have hsearchable := hbuilt.searchable
      have hsearch := hsearchable.searchAt (hfits.trans_lt (idrMax_lt_pow _)) (Or.inl hid)
      have hrounds' : (2 ^ 31 - id) * 5 + (layers' - 1) < rounds := by omega
      obtain ⟨result, hresult, hreaches⟩ :=
        @subAllocLoop_reaches _ _ _ _ _ _ memory' _ _ hsearchable hsearch hrounds'
      have hafter := subAllocLoop_ok (hbuilt.tree.searchOk hlayers id) hresult
      dsimp only
      unfold subAlloc
      dsimp only
      rw [hresult]
      cases result with
      | found leaf slots pa next memory'' =>
          obtain ⟨⟨hge, hlt, hcover⟩, htook', hused, hextends, hleaf, hframes⟩ := hreaches
          obtain ⟨hsearch, hbit⟩ := hafter
          have hplaced := hframes.plugAll hsearch.onPath hlt hsearch.path.length hleaf
          rw [Nat.div_eq_of_lt hcover] at hplaced
          have hmax := le_idrMax_of_lt hlt hcover
          have hkeeps := hbuilt.keeps.trans (.of_extends hextends idr)
          have hfree : idr.entry next = none := by
            rw [← hkeeps.entry next, ← Option.not_isSome_iff_eq_none, isSome_entry hplaced hmax,
              allocated_plugAll hsearch.onPath hsearch.path.length, Bool.not_eq_true]
            exact hbit
          refine ⟨_, rfl, ⟨hge, ⟨hlt, hfree⟩, fun k hk hless => ?_⟩,
            (htook.trans htook').mono (by omega), hkeeps, ⟨Or.inr ⟨hlayers, hfour, hsearch.treeOk.layerOk⟩,
            Or.inr hplaced⟩, hcover, hleaf, hframes⟩
          exact hbuilt.keeps.not_free hbuilt.placed (hless.le.trans hmax) (hused k hk hless)
      | again top next memory'' =>
          obtain ⟨⟨rfl, rfl, hend, hless⟩, hused⟩ := hreaches
          have hgrown : Outgrown idr { idr with top := .layer node' ary', layers := layers' } layers
              id next memory memory'' :=
            { keeps := hbuilt.keeps
              placed := ⟨Or.inr ⟨hlayers, hfour, hbuilt.tree.layerOk⟩, Or.inr hbuilt.placed⟩
              fresh := fun addr haddr => by
                have hocc := hbuilt.tree.occ addr
                rw [hbase addr (hbuilt.tree.le.trans haddr), between, if_neg (by omega)] at hocc
                exact Nat.le_zero.mp hocc
              fits := hfits
              end_eq := hend
              less := hless
              used := fun k hk hlt => by
                have hmax := idrMax_eq hless
                exact hbuilt.keeps.not_free hbuilt.placed (by omega) (hused k hk hlt)
              took := htook }
          obtain ⟨result, hresult, hreaches⟩ := hagain hgrown hle
          refine ⟨result, hresult, ?_⟩
          have hfrom := hreaches.from hgrown
          have hmost : layers' - layers + (7 - layers') = 7 - layers := by omega
          rwa [← hmost]
      | failed top error memory'' =>
          cases error with
          | einval => exact hreaches.elim
          | enospc =>
              obtain ⟨⟨rfl, rfl, hmax⟩, hused⟩ := hreaches
              refine ⟨_, rfl, fun k hk hfree => ?_, htook.mono (by omega), hbuilt.keeps,
                ⟨Or.inr ⟨hlayers, hfour, hbuilt.tree.layerOk⟩, Or.inr hbuilt.placed⟩⟩
              have hle : k ≤ idrMax layers' := by
                refine le_idrMax_of_lt hfree.1 (hfree.1.trans ?_)
                rw [hmax]
                decide
              exact hbuilt.keeps.not_free hbuilt.placed hle (hused k hk hfree.1) hfree
          | enomem =>
              obtain ⟨hshort, hextends, hplaced⟩ := hreaches
              exact ⟨_, rfl, (htook.runsOut hshort).mono (by omega),
                hbuilt.keeps.trans (.of_extends hextends idr),
                ⟨Or.inr ⟨hlayers, hfour, hafter.layerOk⟩, Or.inr hplaced⟩⟩

/-- More has been allocated before. -/
theorem EmptySlot.Reaches.later {result : EmptySlot P} {first most : ℕ}
    (h : result.Reaches idr id most memory') (htook : Took first memory memory') :
    result.Reaches idr id (first + most) memory := by
  cases result with
  | found idr leaf ary pa next memory'' => exact ⟨h.1, htook.trans h.2.1, h.2.2⟩
  | failed last error memory'' =>
      cases error with
      | einval => exact h
      | enospc => exact ⟨h.1, htook.trans h.2.1, h.2.2⟩
      | enomem => exact ⟨htook.runsOut h.1, h.2⟩

/-- **`idr_get_empty_slot` returns**: the jumps to `build_up` end, since the tree has more layers at
each of them. -/
theorem idrGetEmptySlot_reaches {rounds jumps : ℕ} (h : TreePlaced idr)
    (hbase : ∀ addr, memory.fresh ≤ addr → idr.top.occ addr = 0) (hid : id < 2 ^ 31)
    (hrounds : 2 ^ 31 * 5 + 4 ≤ rounds)
    (hjumps : 4 - idr.layers + (if id ≤ idrMax idr.layers then 1 else 0) < jumps) :
    ∃ result, idrGetEmptySlot rounds jumps idr id memory = some result ∧
      result.Reaches idr id (7 - idr.layers) memory := by
  induction jumps generalizing idr id memory with
  | zero => omega
  | succ jumps ih =>
      have hagain : ∀ {layers middle next memory' memory''},
          Outgrown idr middle layers id next memory' memory'' → idr.layers ≤ middle.layers →
            ∃ result, idrGetEmptySlot rounds jumps middle next memory'' = some result ∧
              result.Reaches middle next (7 - middle.layers) memory'' := by
        intro layers middle next memory' memory'' hgrown hle
        have hmax := idrMax_lt_pow middle.layers
        have hend := hgrown.end_eq
        have hless := hgrown.less
        have hnext : next < 2 ^ 31 := by
          rw [hend]
          exact Nat.pow_lt_pow_right Nat.one_lt_two (by omega)
        refine ih hgrown.placed hgrown.fresh hnext ?_
        rw [if_neg (by omega)]
        split at hjumps
        · omega
        · rename_i hnot
          have hmore : idr.layers < middle.layers := by
            by_contra hsame
            exact hnot (hgrown.fits.trans (idrMax_mono (not_lt.mp hsame)))
          omega
      rw [idrGetEmptySlot]
      obtain ⟨hnull, hlayers⟩ | ⟨hpos, hle, hlayer⟩ := h.ok
      · rw [hnull]
        dsimp only
        cases hcall : idrLayerAlloc memory with
        | mk new memory' =>
            cases new with
            | none => exact ⟨_, rfl, (RunsOut.of_none hcall).mono (by omega), .refl idr, h⟩
            | some new =>
                obtain ⟨hfresh, haddr, hcount, hbits⟩ := idrLayerAlloc_some hcall
                have hbuilding : Building idr memory.fresh { new with layer := 0 }
                    (fun _ => .null) 1 memory' :=
                  { pos := Nat.one_pos
                    le_four := by decide
                    tree :=
                      { layerOk := .of_empty hcount (fun _ _ => rfl) fun n _ => hbits n
                        le := hfresh.symm ▸ Nat.le_succ _
                        occ := fun addr => by
                          rw [occ_of_null addr fun _ _ => rfl, hfresh, between_succ le_rfl, haddr]
                          omega }
                    built := Or.inl hcount
                    placed := ⟨rfl, (idPrefix_of_some hcall :), fun _ _ => rfl⟩
                    keeps := .of_null hnull hlayers hbits }
                obtain ⟨result, hresult, hreaches⟩ := emptySlotFrom_reaches hbuilding h hbase hid
                  hrounds fun hgrown hle => hagain hgrown (by omega)
                have hmost : 7 - idr.layers = 1 + (7 - 1) := by omega
                exact ⟨result, hresult, hmost ▸ EmptySlot.Reaches.later hreaches (.of_some hcall)⟩
      · obtain ⟨node, ary, htop⟩ := hlayer.exists_layer
        have hplaced := h.placed.resolve_left fun hnull => by cases htop.symm.trans hnull
        rw [htop]
        rw [htop] at hlayer hplaced
        refine emptySlotFrom_reaches ?_ h hbase hid hrounds hagain
        exact
          { pos := hpos
            le_four := hle
            tree :=
              { layerOk := hlayer
                le := le_rfl
                occ := fun addr => by
                  rw [htop]
                  exact Nat.le_add_right _ _ }
            built := Or.inr (htop ▸ .same)
            placed := hplaced
            keeps := htop ▸ .refl idr }

/-! ### The slot is filled -/

variable {pa' : List (Frame P)}

/-- The same layers with other counters and other bitmaps. -/
def SameFrames : List (Frame P) → List (Frame P) → Prop :=
  List.Forall₂ fun frame frame' =>
    frame'.ary = frame.ary ∧ frame'.m = frame.m ∧ frame'.node.layer = frame.node.layer

theorem SameFrames.refl (pa : List (Frame P)) : SameFrames pa pa :=
  List.forall₂_same.mpr fun _ _ => ⟨rfl, rfl, rfl⟩

theorem SameFrames.onPath_iff (h : SameFrames pa pa') (k l : ℕ) : OnPath k l pa' ↔ OnPath k l pa := by
  induction h generalizing l with
  | nil => exact Iff.rfl
  | cons hframe hrest ih => exact and_congr (by rw [hframe.2.1]) (ih (l + 1))

theorem SameFrames.placedPath (h : SameFrames pa pa') (hplaced : PlacedPath id l pa) :
    PlacedPath id l pa' := by
  induction h generalizing l with
  | nil => trivial
  | cons hframe hrest ih =>
      obtain ⟨hary, hm, hlayer⟩ := hframe
      refine ⟨⟨hlayer.trans hplaced.1.1, fun n hn hne => ?_⟩, ih hplaced.2⟩
      rw [hary]
      exact hplaced.1.2 n hn (hm ▸ hne)

/-- `idr_mark_full` changes bitmaps only. -/
theorem markFullLoop_eq (node : Layer) (ary : ℕ → Slot P) (pa : List (Frame P)) (id : ℕ) :
    ∃ pa', SameFrames pa pa' ∧ markFullLoop node ary pa id = plugAll (.layer node ary) pa' := by
  induction pa generalizing node ary id with
  | nil => exact ⟨[], .nil, rfl⟩
  | cons frame rest ih =>
      rw [markFullLoop]
      split
      · obtain ⟨rest', hsame, heq⟩ := ih
          { frame.node with bitmap := setBit (id >>> idrBits &&& idrMask) frame.node.bitmap }
          (Function.update frame.ary frame.m (.layer node ary)) (id >>> idrBits)
        exact ⟨⟨{ frame.node with bitmap := setBit (id >>> idrBits &&& idrMask) frame.node.bitmap },
          frame.ary, frame.m⟩ :: rest', .cons ⟨rfl, rfl, rfl⟩ hsame, heq⟩
      · exact ⟨frame :: rest, .refl _, rfl⟩

/-- The leaves of a layer on the path. -/
theorem leafAt_plugAll_on (hpath : OnPath k l pa) (hlength : l + pa.length + 1 = layers) :
    leafAt k (layers - 1) (plugAll p pa) = leafAt k l p := by
  induction pa generalizing l p with
  | nil =>
      obtain rfl : l + 1 = layers := hlength
      rfl
  | cons frame rest ih =>
      rw [List.length_cons] at hlength
      rw [plugAll, ih hpath.2 (by omega), Frame.plug, leafAt_succ, ← hpath.1, Function.update_self]

/-- The leaves elsewhere. -/
theorem leafAt_plugAll_off {p' : Slot P} (hsame : SameFrames pa pa') (hpath : ¬ OnPath k l pa)
    (hlength : l + pa.length + 1 = layers) :
    leafAt k (layers - 1) (plugAll p' pa') = leafAt k (layers - 1) (plugAll p pa) := by
  induction hsame generalizing l p p' with
  | nil => exact absurd trivial hpath
  | @cons frame frame' rest rest' hframe hrest ih =>
      rw [List.length_cons] at hlength
      rw [plugAll, plugAll]
      by_cases habove : OnPath k (l + 1) rest
      · have hne : digit (l + 1) k ≠ frame.m := fun heq => hpath ⟨heq.symm, habove⟩
        have habove' := (SameFrames.onPath_iff hrest k (l + 1)).mpr habove
        have hlength' : l + 1 + rest'.length + 1 = layers := by
          rw [← hrest.length_eq]
          omega
        rw [leafAt_plugAll_on habove' hlength', leafAt_plugAll_on habove (by omega), Frame.plug,
          Frame.plug, leafAt_succ, leafAt_succ, hframe.1, hframe.2.1, Function.update_of_ne hne,
          Function.update_of_ne hne]
      · exact ih habove (by omega)

/-- The ids whose way from the top goes through a layer are those that are the same above it. -/
theorem OnPath.iff (h : OnPath id l pa) (hlength : l + pa.length + 1 = layers)
    (hid : id < 2 ^ (8 * layers)) (hk : k < 2 ^ (8 * layers)) :
    OnPath k l pa ↔ k / 2 ^ (8 * (l + 1)) = id / 2 ^ (8 * (l + 1)) := by
  induction pa generalizing l with
  | nil =>
      obtain rfl : l + 1 = layers := hlength
      rw [Nat.div_eq_of_lt hid, Nat.div_eq_of_lt hk]
      exact ⟨fun _ => rfl, fun _ => trivial⟩
  | cons frame rest ih =>
      rw [List.length_cons] at hlength
      have hrest := ih h.2 (by omega)
      have hlt := digit_lt (l + 1) k
      have hlt' := digit_lt (l + 1) id
      have hsize : idrSize = 2 ^ 8 := rfl
      rw [div_eq_digit (l + 1) k, div_eq_digit (l + 1) id]
      show (frame.m = digit (l + 1) k ∧ OnPath k (l + 1) rest) ↔ _
      rw [hrest, h.1]
      constructor
      · rintro ⟨hdigit, habove⟩
        rw [habove, hdigit]
      · intro heq
        omega

/-- The leaf in which the id has been given out. -/
def Layer.filled (leaf : Layer) (id : ℕ) : Layer :=
  { leaf with count := leaf.count + 1, bitmap := setBit (digit 0 id) leaf.bitmap }

/-- What `idr_fill_slot` leaves behind. -/
structure Filled (before after : Idr P) (value : Option P) (id : ℕ) (leaf : Layer)
    (slots : ℕ → Slot P) : Prop where
  layers : after.layers = before.layers
  hint : after.hint = some leaf.addr
  placed : Placed (before.layers - 1) 0 after.top
  leaf : leafAt id (before.layers - 1) after.top =
    some (leaf.filled id, Function.update slots (digit 0 id) (Slot.ofPointer value))
  entry : ∀ k, after.entry k = if k = id then some value else before.entry k

theorem Placed.filled {leaf : Layer} {slots : ℕ → Slot P} (h : Placed 0 base (.layer leaf slots))
    (id : ℕ) (value : Option P) :
    Placed 0 base (.layer (leaf.filled id)
      (Function.update slots (digit 0 id) (Slot.ofPointer value))) := by
  refine ⟨h.1, h.2.1, fun n hn => ?_⟩
  by_cases heq : n = digit 0 id
  · rw [heq, Function.update_self]
    cases value <;> rfl
  · rw [Function.update_of_ne heq]
    exact h.2.2 n hn

/-- What is stored in the leaf after it. -/
theorem pointer_filled (leaf : Layer) (slots : ℕ → Slot P) (value : Option P)
    (hshare : k / 2 ^ 8 = id / 2 ^ 8) :
    (if testBit (digit 0 k) (leaf.filled id).bitmap then
      (Function.update slots (digit 0 id) (Slot.ofPointer value) (digit 0 k)).pointer else none) =
      if k = id then some value
      else if testBit (digit 0 k) leaf.bitmap then (slots (digit 0 k)).pointer else none := by
  have hdigit : digit 0 k = digit 0 id ↔ k = id := by
    rw [digit_eq, digit_eq]
    omega
  have hset : testBit (digit 0 k) (leaf.filled id).bitmap =
      (decide (digit 0 id = digit 0 k) || testBit (digit 0 k) leaf.bitmap) :=
    testBit_setBit _ _ _
  rw [hset]
  by_cases heq : k = id
  · subst heq
    rw [if_pos rfl, if_pos (by simp), Function.update_self]
    cases value <;> rfl
  · have hne : digit 0 k ≠ digit 0 id := fun h => heq (hdigit.mp h)
    rw [if_neg heq, Function.update_of_ne hne, decide_eq_false hne.symm, Bool.false_or]

/-- **The pointer is stored** under the id, and nothing else changes. -/
theorem idrFillSlot_filled {leaf : Layer} {slots : ℕ → Slot P} {base : ℕ → ℕ}
    (htop : idr.top = plugAll (.layer leaf slots) pa)
    (hsearch : SearchOk first base idr.layers (.layer leaf slots) pa 0 id memory)
    (hid : id < 2 ^ 31) (hfits : id < 2 ^ (8 * idr.layers))
    (hplaced : Placed 0 (id / 2 ^ 8) (.layer leaf slots)) (hframes : PlacedPath id 0 pa)
    (value : Option P) :
    Filled idr (idrFillSlot idr value id leaf slots pa) value id leaf slots := by
  let slots' := Function.update slots (digit 0 id) (Slot.ofPointer value)
  have hlength := hsearch.path.length
  obtain ⟨pa', hsame, hmarked⟩ := markFullLoop_eq (leaf.filled id) slots' pa id
  have hafter : (idrFillSlot idr value id leaf slots pa).top =
      plugAll (.layer (leaf.filled id) slots') pa' := by
    show idrMarkFull _ (Function.update slots (id &&& idrMask) _) _ _ = _
    rw [idrMarkFull, and_idrMask]
    exact hmarked
  have honPath := (hsame.onPath_iff id 0).mpr hsearch.onPath
  have hlength' : 0 + pa'.length + 1 = idr.layers := by
    rw [← hsame.length_eq]
    exact hlength
  -- the leaves of the new tree: that of the id is another, the others are as before
  have hon : ∀ k < 2 ^ (8 * idr.layers), OnPath k 0 pa ↔ k / 2 ^ 8 = id / 2 ^ 8 :=
    fun k hk => hsearch.onPath.iff hlength hfits hk
  have hshared : ∀ k < 2 ^ (8 * idr.layers), k / 2 ^ 8 = id / 2 ^ 8 →
      leafAt k (idr.layers - 1) (plugAll (.layer (leaf.filled id) slots') pa') =
        some (leaf.filled id, slots') := fun k hk hshare =>
    leafAt_plugAll_on ((hsame.onPath_iff k 0).mpr ((hon k hk).mpr hshare)) hlength'
  have helse : ∀ k < 2 ^ (8 * idr.layers), ¬ k / 2 ^ 8 = id / 2 ^ 8 →
      leafAt k (idr.layers - 1) (plugAll (.layer (leaf.filled id) slots') pa') =
        leafAt k (idr.layers - 1) idr.top := fun k hk hshare =>
    htop ▸ leafAt_plugAll_off hsame (fun h => hshare ((hon k hk).mp h)) hlength
  refine ⟨rfl, rfl, ?_, ?_, fun k => ?_⟩
  · have htree := (hsame.placedPath hframes).plugAll honPath hid hlength' (hplaced.filled id value)
    rw [Nat.div_eq_of_lt hfits] at htree
    rw [hafter]
    exact htree
  · rw [hafter, hshared id hfits rfl]
  · unfold Idr.entry
    have hlayers : (idrFillSlot idr value id leaf slots pa).layers = idr.layers := rfl
    rw [hafter, hlayers]
    by_cases hk : k ≤ idrMax idr.layers
    · have hlt := hk.trans_lt (idrMax_lt_pow _)
      rw [if_pos hk, if_pos hk]
      by_cases hshare : k / 2 ^ 8 = id / 2 ^ 8
      · have hold : leafAt k (idr.layers - 1) idr.top = some (leaf, slots) := by
          rw [htop]
          exact leafAt_plugAll_on ((hon k hlt).mpr hshare) hlength
        rw [lookup_of_leafAt (hshared k hlt hshare), lookup_of_leafAt hold]
        exact pointer_filled leaf slots value hshare
      · have hne : k ≠ id := fun heq => hshare (by rw [heq])
        have hleaf := helse k hlt hshare
        rw [if_neg hne]
        cases hold : leafAt k (idr.layers - 1) idr.top with
        | none => rw [lookup_of_leafAt_none (hleaf.trans hold), lookup_of_leafAt_none hold]
        | some leaf => rw [lookup_of_leafAt (hleaf.trans hold), lookup_of_leafAt hold]
    · have hne : k ≠ id := by
        rintro rfl
        exact hk (le_idrMax_of_lt hid hfits)
      rw [if_neg hk, if_neg hk, if_neg hne]

/-! ### `idr_alloc` -/

/-- **The allocator is in order**, and no layer is at an address that has not been given out. -/
structure InOrder (idr : Idr P) (fresh : ℕ) : Prop where
  placed : IdrPlaced idr
  once : ∀ addr, total idr addr ≤ 1
  unused : ∀ addr, fresh ≤ addr → total idr addr = 0

/-- The largest id that `idr_alloc` may give out. -/
def allocMax (limit : BitVec 32) : ℤ := if 0 < limit.toInt then limit.toInt - 1 else 2 ^ 31 - 1

/-- **What `idr_alloc` returns**, and what is stored then. -/
def Allocates (idr : Idr P) (value : Option P) (start limit : BitVec 32) (memory : Memory)
    (after : Idr P) (memory' : Memory) : Except Error ℕ → Prop
  | .ok id => 0 ≤ start.toInt ∧ IsNext idr.Free start.toNat (some id) ∧ (id : ℤ) ≤ allocMax limit ∧
      InOrder after memory'.fresh ∧ ∀ k, after.entry k = if k = id then some value else idr.entry k
  | .error .einval => start.toInt < 0 ∧ after = idr ∧ memory' = memory
  | .error .enospc => 0 ≤ start.toInt ∧ InOrder after memory'.fresh ∧ Took 7 memory memory' ∧
      (∀ k, after.entry k = idr.entry k) ∧
      ∀ k, start.toNat ≤ k → (k : ℤ) ≤ allocMax limit → ¬ idr.Free k
  | .error .enomem => 0 ≤ start.toInt ∧ InOrder after memory'.fresh ∧ RunsOut 7 memory ∧
      ∀ k, after.entry k = idr.entry k

/-- No layer is twice in the allocator after an allocation. -/
theorem InOrder.alloc (h : InOrder idr memory.fresh)
    (halloc : AllocOk idr after memory.fresh memory')
    (hplaced : after.top = .null ∨ Placed (after.layers - 1) 0 after.top)
    (hhint : ∀ addr, after.hint = some addr → ∃ id ≤ idrMax after.layers, ∃ leaf slots,
      leafAt id (after.layers - 1) after.top = some (leaf, slots) ∧ leaf.addr = addr ∧
        leaf.count ≠ 0) : InOrder after memory'.fresh := by
  have htotal : ∀ addr, total after addr ≤ 1 ∧ (memory'.fresh ≤ addr → total after addr = 0) := by
    intro addr
    have hafter := halloc.total addr
    have honce := h.once addr
    have hunused := h.unused addr
    have hle := halloc.le
    unfold between at hafter
    split at hafter <;> omega
  refine ⟨⟨halloc.ok, hplaced, fun addr => ?_, hhint⟩, fun addr => (htotal addr).1,
    fun addr => (htotal addr).2⟩
  exact (Nat.le_add_right _ _).trans (htotal addr).1

theorem InOrder.of_keeps (h : InOrder idr memory.fresh)
    (halloc : AllocOk idr after memory.fresh memory') (hkeeps : Keeps idr after)
    (hplaced : TreePlaced after) : InOrder after memory'.fresh := by
  refine h.alloc halloc hplaced.placed fun addr hhint => ?_
  rw [hkeeps.hint] at hhint
  obtain ⟨id, hid, leaf, slots, hleaf, haddr, hcount⟩ := h.placed.hint addr hhint
  exact ⟨id, hid.trans (idrMax_mono hkeeps.le), leaf, slots,
    hkeeps.leaf id hid leaf slots hleaf hcount, haddr, hcount⟩

theorem idrAlloc_failed {rounds : ℕ} {error : Error} (value : Option P) {start : BitVec 32}
    (limit : BitVec 32) (hneg : ¬ start.toInt < 0) (hmax : ¬ allocMax limit < start.toInt)
    (hslot : idrGetEmptySlot rounds rounds idr start.toNat memory =
      some (.failed after error memory')) :
    idrAlloc rounds idr value start limit memory = some (after, memory', .error error) := by
  refine (if_neg hneg).trans ((if_neg hmax).trans ?_)
  rw [hslot]

theorem idrAlloc_found {rounds : ℕ} {slots : ℕ → Slot P} (value : Option P)
    {start : BitVec 32} (limit : BitVec 32) (hneg : ¬ start.toInt < 0)
    (hmax : ¬ allocMax limit < start.toInt)
    (hslot : idrGetEmptySlot rounds rounds idr start.toNat memory =
      some (.found middle node slots pa id memory')) :
    idrAlloc rounds idr value start limit memory =
      if allocMax limit < (id : ℤ) then some (middle, memory', .error .enospc)
      else some (idrFillSlot middle value id node slots pa, memory', .ok id) := by
  refine (if_neg hneg).trans ((if_neg hmax).trans ?_)
  rw [hslot]
  rfl

/-- **`idr_alloc` returns**, with the least id from `start` on that is free, and stores the pointer
there; without one, with `ENOSPC`; `ENOMEM` only if one of seven allocations fails. -/
theorem idrAlloc_allocates {rounds : ℕ} (h : InOrder idr memory.fresh) (value : Option P)
    (start limit : BitVec 32) (hrounds : 2 ^ 31 * 5 + 4 ≤ rounds) :
    ∃ after memory' result,
      idrAlloc rounds idr value start limit memory = some (after, memory', result) ∧
        Allocates idr value start limit memory after memory' result := by
  by_cases hneg : start.toInt < 0
  · exact ⟨idr, memory, .error .einval, if_pos hneg, hneg, rfl, rfl⟩
  have hpos := not_lt.mp hneg
  have hstart := toNat_of_nonneg hneg
  have hint : start.toInt = (start.toNat : ℤ) := by
    rw [BitVec.toInt_eq_toNat_cond, if_pos (by omega)]
  by_cases hmax : allocMax limit < start.toInt
  · refine ⟨idr, memory, .error .enospc, (if_neg hneg).trans (if_pos hmax), hpos, h, .refl _ _,
      fun _ => rfl, fun k hk hle => ?_⟩
    omega
  have hshape : TreePlaced idr := ⟨h.placed.ok, h.placed.placed⟩
  have hbase : ∀ addr, memory.fresh ≤ addr → idr.top.occ addr = 0 := by
    intro addr haddr
    have hzero := h.unused addr haddr
    unfold total at hzero
    omega
  have hjumps : 4 - idr.layers + (if start.toNat ≤ idrMax idr.layers then 1 else 0) < rounds := by
    have hpow : 2 < 2 ^ 31 := by decide
    split <;> omega
  obtain ⟨slot, hslot, hreaches⟩ := idrGetEmptySlot_reaches hshape hbase hstart hrounds hjumps
  have hok := idrGetEmptySlot_ok h.placed.ok h.unused hslot
  cases slot with
  | failed after error memory' =>
      refine ⟨after, memory', .error error, idrAlloc_failed value limit hneg hmax hslot, ?_⟩
      cases error with
      | einval => exact hreaches.elim
      | enospc =>
          obtain ⟨hnext, htook, hkeeps, hplaced⟩ := hreaches
          exact ⟨hpos, h.of_keeps hok hkeeps hplaced, htook.mono (by omega), hkeeps.entry,
            fun k hk _ => hnext k hk⟩
      | enomem =>
          obtain ⟨hshort, hkeeps, hplaced⟩ := hreaches
          exact ⟨hpos, h.of_keeps hok hkeeps hplaced, hshort.mono (by omega), hkeeps.entry⟩
  | found middle leaf slots pa id memory' =>
      obtain ⟨hnext, htook, hkeeps, hplaced, hfits, hleaf, hframes⟩ := hreaches
      obtain ⟨halloc, htop, ⟨base, hsearch⟩, hbit⟩ := hok
      have hcall := idrAlloc_found value limit hneg hmax hslot
      by_cases hover : allocMax limit < (id : ℤ)
      · refine ⟨middle, memory', .error .enospc, hcall.trans (if_pos hover), hpos,
          h.of_keeps halloc hkeeps hplaced, htook.mono (by omega), hkeeps.entry,
          fun k hk hle => ?_⟩
        exact hnext.2.2 k hk (by omega)
      · replace hcall := hcall.trans (if_neg hover)
        have hid : id < 2 ^ 31 := hnext.2.1.1
        have hfilled := idrFillSlot_filled htop hsearch hid hfits hleaf hframes value
        refine ⟨_, memory', .ok id, hcall, hpos, hnext, not_lt.mp hover, ?_, fun k => ?_⟩
        · have hplaced' := hfilled.placed
          have hleaf' := hfilled.leaf
          rw [← hfilled.layers] at hplaced' hleaf'
          refine h.alloc (idrAlloc_ok h.placed.ok h.unused hcall) (Or.inr hplaced')
            fun addr hhint => ?_
          rw [hfilled.hint, Option.some_inj] at hhint
          refine ⟨id, ?_, _, _, hleaf', hhint, ?_⟩
          · rw [hfilled.layers]
            exact le_idrMax_of_lt hid hfits
          · have hcount : 0 ≤ leaf.count := by
              rw [hsearch.layerOk.1]
              exact Int.natCast_nonneg _
            show leaf.count + 1 ≠ 0
            omega
        · rw [hfilled.entry k, hkeeps.entry k]

end Webcamd.Kernel.IdrTree
