import Webcamd.Kernel.IdrDestroy

/-!
# Looking ids up

`idr_find` and `idr_replace` of the id allocator.  The first tries the leaf that was allocated from
last, `hint`, and then goes down from the top, by the levels that the layers say they have.

* `Slot.layerAt` — a layer by its address, which is what reading through a pointer is in the model.
* `idrFindSlowpath`, `idrFind`, `idrReplace` — the functions.  They have no result where `BUG_ON` is
  hit, where a pointer of the user would be taken for a layer or a layer for a pointer of the user,
  and where `hint` points to nothing.
* `lookup`, `Idr.entry` — what is stored under an id.
* `Placed` — **every layer is where it says it is**: its level, the prefix of a leaf, pointers of
  the user in the leaves only, and no layer for ids from `2 ^ 31` on.
* `idrFindSlowpath_eq`, `idrFind_eq` — both ways give what is stored.
* `idrReplace_eq` — the pointer of an id that is given out is replaced, and nothing else changes.
-/

namespace Webcamd.Kernel.IdrTree

open Bitmap

variable {P : Type}

/-! ### The functions -/

/-- A pointer of the user, or `NULL`; there is none in a slot that holds a layer. -/
def Slot.pointer : Slot P → Option (Option P)
  | .null => some none
  | .ptr value => some (some value)
  | .layer _ _ => none

/-- The layer at an address, with its slots. -/
def Slot.layerAt (addr : ℕ) : Slot P → Option (Layer × (ℕ → Slot P))
  | .layer node ary =>
      if node.addr = addr then some (node, ary)
      else (List.range idrSize).findSome? fun n => (ary n).layerAt addr
  | _ => none

/-- `while (n > 0 && p)` of `idr_find_slowpath`, with `n` counted in layers. -/
def findLoop (id : ℕ) : (n : ℕ) → Slot P → Option (Slot P)
  | n + 1, .layer node ary =>
      -- `BUG_ON(n != p->layer*IDR_BITS)`
      if node.layer = n then findLoop id n (ary (digit n id)) else none
  | _ + 1, .null => some .null
  | _ + 1, .ptr _ => none
  | 0, p => some p

/-- `idr_find_slowpath` -/
def idrFindSlowpath (idr : Idr P) (id : BitVec 32) : Option (Option P) :=
  if id.toInt < 0 then some none
  else
    match idr.top with
    | .null => some none
    | .ptr _ => none
    | .layer node ary =>
        if above id.toNat (node.layer + 1) then some none
        else (findLoop id.toNat (node.layer + 1) (.layer node ary)).bind Slot.pointer

/-- `idr_find` -/
def idrFind (idr : Idr P) (id : BitVec 32) : Option (Option P) :=
  match idr.hint with
  | none => idrFindSlowpath idr id
  | some addr =>
      (idr.top.layerAt addr).bind fun hint =>
        if id &&& ~~~BitVec.ofNat 32 idrMask = hint.1.idPrefix then
          (hint.2 (id.toNat &&& idrMask)).pointer
        else idrFindSlowpath idr id

inductive ReplaceError where
  | einval
  | enoent
  deriving DecidableEq

/-- `while ((n > 0) && p)` of `idr_replace`: the layer it ends at, and those above. -/
def replaceDescend (id : ℕ) : (n : ℕ) → Slot P → List (Frame P) →
    Option (Slot P × List (Frame P))
  | n + 1, .layer node ary, pa =>
      replaceDescend id n (ary (digit (n + 1) id)) (⟨node, ary, digit (n + 1) id⟩ :: pa)
  | _ + 1, .null, pa => some (.null, pa)
  | _ + 1, .ptr _, _ => none
  | 0, p, pa => some (p, pa)

/-- `idr_replace` -/
def idrReplace (idr : Idr P) (value : Option P) (id : BitVec 32) :
    Option (Idr P × Except ReplaceError (Option P)) :=
  if id.toInt < 0 then some (idr, .error .einval)
  else
    match idr.top with
    | .null => some (idr, .error .enoent)
    | .ptr _ => none
    | .layer node ary =>
        if above id.toNat (node.layer + 1) then some (idr, .error .enoent)
        else
          match replaceDescend id.toNat node.layer (.layer node ary) [] with
          | some (.layer leaf slots, pa) =>
              let n := id.toNat &&& idrMask
              if testBit n leaf.bitmap then
                (slots n).pointer.map fun old =>
                  ({ idr with
                    top := plugAll (.layer leaf (Function.update slots n (Slot.ofPointer value)))
                      pa }, .ok old)
              else some (idr, .error .enoent)
          | some (.null, _) => some (idr, .error .enoent)
          | _ => none

/-! ### What is stored -/

/-- The leaf that an id belongs to. -/
def leafAt (id : ℕ) : (l : ℕ) → Slot P → Option (Layer × (ℕ → Slot P))
  | 0, .layer node ary => some (node, ary)
  | l + 1, .layer _ ary => leafAt id l (ary (digit (l + 1) id))
  | _, _ => none

/-- What is stored under an id that is given out. -/
def lookup (id : ℕ) : (l : ℕ) → Slot P → Option (Option P)
  | 0, .layer node ary =>
      if testBit (digit 0 id) node.bitmap then (ary (digit 0 id)).pointer else none
  | l + 1, .layer _ ary => lookup id l (ary (digit (l + 1) id))
  | _, _ => none

/-- What the allocator has stored under an id. -/
def Idr.entry (idr : Idr P) (id : ℕ) : Option (Option P) :=
  if id ≤ idrMax idr.layers then lookup id (idr.layers - 1) idr.top else none

/-- **A layer is where it says it is**, at a level and for the ids that start with `base`. -/
def Placed : (l base : ℕ) → Slot P → Prop
  | 0, base, .layer node ary =>
      node.layer = 0 ∧ node.idPrefix = BitVec.ofNat 32 (base * 2 ^ 8) ∧
        ∀ n < idrSize, (ary n).pointer.isSome = true
  | l + 1, base, .layer node ary =>
      node.layer = l + 1 ∧
        ∀ n < idrSize, ary n = .null ∨
          (Placed l (base * 2 ^ 8 + n) (ary n) ∧ (base * 2 ^ 8 + n) * 2 ^ (8 * (l + 1)) < 2 ^ 31)
  | _, _, _ => False

variable {l layers id n m addr base : ℕ} {node : Layer} {ary : ℕ → Slot P} {p child : Slot P}
variable {frame : Frame P} {pa : List (Frame P)} {idr : Idr P}

theorem lookup_null (id l : ℕ) : lookup id l (.null : Slot P) = none := by
  cases l <;> rfl

theorem leafAt_null (id l : ℕ) : leafAt id l (.null : Slot P) = none := by
  cases l <;> rfl

theorem lookup_succ (id l : ℕ) (node : Layer) (ary : ℕ → Slot P) :
    lookup id (l + 1) (.layer node ary) = lookup id l (ary (digit (l + 1) id)) := rfl

theorem leafAt_succ (id l : ℕ) (node : Layer) (ary : ℕ → Slot P) :
    leafAt id (l + 1) (.layer node ary) = leafAt id l (ary (digit (l + 1) id)) := rfl

theorem Placed.exists_layer (h : Placed l base p) : ∃ node ary, p = .layer node ary := by
  cases p with
  | null => cases l <;> exact h.elim
  | ptr value => cases l <;> exact h.elim
  | layer node ary => exact ⟨node, ary, rfl⟩

theorem Placed.layer (h : Placed l base (.layer node ary)) : node.layer = l := by
  cases l with
  | zero => exact h.1
  | succ l => exact h.1

/-- What is stored is in the leaf. -/
theorem lookup_of_leafAt (h : leafAt id l p = some (node, ary)) :
    lookup id l p =
      if testBit (digit 0 id) node.bitmap then (ary (digit 0 id)).pointer else none := by
  induction l generalizing p with
  | zero =>
      cases p with
      | null => cases h
      | ptr value => cases h
      | layer node' ary' =>
          obtain ⟨rfl, rfl⟩ := Prod.mk.inj (Option.some.inj h)
          rfl
  | succ l ih =>
      cases p with
      | null => cases h
      | ptr value => cases h
      | layer node' ary' => exact ih h

theorem lookup_of_leafAt_none (h : leafAt id l p = none) : lookup id l p = none := by
  induction l generalizing p with
  | zero =>
      cases p with
      | null => rfl
      | ptr value => rfl
      | layer node ary => cases h
  | succ l ih =>
      cases p with
      | null => rfl
      | ptr value => rfl
      | layer node ary => exact ih h

/-- The part of an id above a level, digit by digit. -/
theorem div_eq_digit (l id : ℕ) :
    id / 2 ^ (8 * l) = id / 2 ^ (8 * (l + 1)) * 2 ^ 8 + digit l id := by
  have hdiv : id / 2 ^ (8 * (l + 1)) = id / 2 ^ (8 * l) / 2 ^ 8 := by
    rw [Nat.div_div_eq_div_mul, ← pow_add, Nat.mul_succ]
  rw [digit_eq, hdiv]
  omega

theorem digit_of_div {other : ℕ} (hsame : id / 2 ^ 8 = other / 2 ^ 8) :
    digit (l + 1) id = digit (l + 1) other := by
  refine @digit_congr 1 (l + 1) _ _ ?_ (Nat.le_add_left 1 l)
  rw [Nat.shiftRight_eq_div_pow, Nat.shiftRight_eq_div_pow]
  exact hsame

/-- Where the leaf of an id is. -/
theorem Placed.leafAt (h : Placed l base p) (hleaf : leafAt id l p = some (node, ary))
    (hbase : id / 2 ^ (8 * (l + 1)) = base) :
    Placed 0 (id / 2 ^ 8) (.layer node ary) := by
  induction l generalizing p base with
  | zero =>
      obtain ⟨node', ary', rfl⟩ := h.exists_layer
      obtain ⟨rfl, rfl⟩ := Prod.mk.inj (Option.some.inj hleaf)
      rw [← hbase] at h
      exact h
  | succ l ih =>
      obtain ⟨node', ary', rfl⟩ := h.exists_layer
      have hchild := h.2 _ (digit_lt (l + 1) id)
      rw [leafAt_succ] at hleaf
      obtain hnull | ⟨hplaced, -⟩ := hchild
      · rw [hnull, leafAt_null] at hleaf
        cases hleaf
      · refine ih hplaced hleaf ?_
        rw [div_eq_digit, hbase]

/-- The leaf of an id is well-formed. -/
theorem LayerOk.leafAt (h : LayerOk l p) (hleaf : leafAt id l p = some (node, ary)) :
    LayerOk 0 (.layer node ary) := by
  induction l generalizing p with
  | zero =>
      obtain ⟨node', ary', rfl⟩ := h.exists_layer
      obtain ⟨rfl, rfl⟩ := Prod.mk.inj (Option.some.inj hleaf)
      exact h
  | succ l ih =>
      obtain ⟨node', ary', rfl⟩ := h.exists_layer
      obtain ⟨hchild, -⟩ := h.2 _ (digit_lt (l + 1) id)
      rw [leafAt_succ] at hleaf
      refine ih (hchild.resolve_left fun hnull => ?_) hleaf
      rw [hnull, leafAt_null] at hleaf
      cases hleaf

/-! ### The way from the top -/

/-- **The way down from a layer** leads to what is stored. -/
theorem findLoop_eq (hok : LayerOk l p) (h : Placed l base p) (id : ℕ) :
    (findLoop id (l + 1) p).bind Slot.pointer = some (lookup id l p).join := by
  induction l generalizing p base with
  | zero =>
      obtain ⟨node, ary, rfl⟩ := h.exists_layer
      rw [findLoop, if_pos h.1, lookup]
      show (ary (digit 0 id)).pointer = _
      have hpointer := h.2.2 _ (digit_lt 0 id)
      split
      · obtain ⟨value, hvalue⟩ := Option.isSome_iff_exists.mp hpointer
        rw [hvalue]
        rfl
      · rename_i hbit
        rw [hok.2 _ (digit_lt 0 id) (by rwa [Bool.not_eq_true] at hbit)]
        rfl
  | succ l ih =>
      obtain ⟨node, ary, rfl⟩ := h.exists_layer
      rw [findLoop, if_pos h.1, lookup_succ]
      obtain ⟨hchild, -⟩ := hok.2 _ (digit_lt (l + 1) id)
      obtain hnull | ⟨hplaced, -⟩ := h.2 _ (digit_lt (l + 1) id)
      · rw [hnull, lookup_null]
        rfl
      · obtain ⟨child, slots, hlayer⟩ := hplaced.exists_layer
        refine ih (hchild.resolve_left fun hnull => ?_) hplaced
        rw [hnull] at hlayer
        cases hlayer

/-- **The allocator is in order**: its tree is well-formed and in its place, and `hint` points to a
leaf of it in which something is stored. -/
structure IdrPlaced (idr : Idr P) : Prop where
  ok : IdrOk idr
  placed : idr.top = .null ∨ Placed (idr.layers - 1) 0 idr.top
  once : ∀ addr, idr.top.occ addr ≤ 1
  hint : ∀ addr, idr.hint = some addr → ∃ id ≤ idrMax idr.layers, ∃ leaf slots,
    leafAt id (idr.layers - 1) idr.top = some (leaf, slots) ∧ leaf.addr = addr ∧ leaf.count ≠ 0

theorem IdrPlaced.cases (h : IdrPlaced idr) :
    (idr.top = .null ∧ idr.layers = 0) ∨ ∃ l node ary, idr.layers = l + 1 ∧ l ≤ 3 ∧
      idr.top = .layer node ary ∧ LayerOk l idr.top ∧ Placed l 0 idr.top ∧ node.layer = l := by
  obtain hnull | ⟨hpos, hle, hlayer⟩ := h.ok
  · exact Or.inl hnull
  · obtain ⟨l, hl⟩ : ∃ l, idr.layers = l + 1 := ⟨idr.layers - 1, by omega⟩
    rw [hl, Nat.add_sub_cancel] at hlayer
    obtain ⟨node, ary, htop⟩ := hlayer.exists_layer
    have hplaced : Placed l 0 idr.top := by
      have hsome := h.placed
      rw [hl, Nat.add_sub_cancel, htop] at hsome
      rw [htop]
      exact hsome.resolve_left fun hnull => by cases hnull
    refine Or.inr ⟨l, node, ary, hl, by omega, htop, hlayer, hplaced, ?_⟩
    rw [htop] at hplaced
    exact hplaced.layer

/-- An id that is too large for the tree. -/
theorem entry_of_above {layers : ℕ} (hlayers : idr.layers = layers) (hlt : id < 2 ^ 31) :
    idr.entry id = if above id layers then none else lookup id (layers - 1) idr.top := by
  unfold Idr.entry above
  have hbit : maxIdrBit = 2 ^ 31 := rfl
  rw [hlayers, hbit]
  by_cases hle : id ≤ idrMax layers
  · have hnot : ¬ idrMax layers < id := by omega
    simp [hle, hnot]
  · have hgt : idrMax layers < id := by omega
    rw [if_neg hle, decide_eq_true hlt, decide_eq_true hgt]
    rfl

theorem toNat_of_nonneg {id : BitVec 32} (h : ¬ id.toInt < 0) : id.toNat < 2 ^ 31 := by
  rw [BitVec.toInt_eq_toNat_cond] at h
  have hlt := id.isLt
  split at h <;> omega

/-- **`idr_find_slowpath`** gives what is stored. -/
theorem idrFindSlowpath_eq (h : IdrPlaced idr) (id : BitVec 32) :
    idrFindSlowpath idr id =
      some (if id.toInt < 0 then none else (idr.entry id.toNat).join) := by
  unfold idrFindSlowpath
  by_cases hneg : id.toInt < 0
  · rw [if_pos hneg, if_pos hneg]
  · rw [if_neg hneg, if_neg hneg]
    have hlt := toNat_of_nonneg hneg
    obtain ⟨hnull, hlayers⟩ | ⟨l, node, ary, hlayers, -, htop, hok, hplaced, hlevel⟩ := h.cases
    · rw [hnull, entry_of_above hlayers hlt, hnull, lookup_null]
      simp
    · rw [entry_of_above hlayers hlt, Nat.add_sub_cancel]
      rw [htop] at hok hplaced ⊢
      dsimp only
      rw [hlevel]
      split
      · rfl
      · exact findLoop_eq hok hplaced _

/-! ### The hint -/

/-- A search through numbers finds what is at the only one that has something. -/
theorem findSome?_range_eq {α : Type*} {f : ℕ → Option α} {count : ℕ} (hm : m < count)
    (helse : ∀ n < count, n ≠ m → f n = none) : (List.range count).findSome? f = f m := by
  cases hvalue : f m with
  | none =>
      rw [List.findSome?_eq_none_iff]
      intro n hn
      by_cases heq : n = m
      · rw [heq, hvalue]
      · exact helse n (List.mem_range.mp hn) heq
  | some value =>
      have hsplit : List.range count = List.range m ++ m :: List.range' (m + 1) (count - (m + 1)) := by
        rw [List.range_eq_range', List.range_eq_range', ← List.range'_succ]
        have hsum : count = m + (count - (m + 1) + 1) := by omega
        conv_lhs => rw [hsum]
        rw [← List.range'_append]
        simp
      rw [hsplit, List.findSome?_append, List.findSome?_cons, hvalue]
      have hnone : (List.range m).findSome? f = none := by
        rw [List.findSome?_eq_none_iff]
        intro n hn
        have hlt := List.mem_range.mp hn
        exact helse n (hlt.trans hm) hlt.ne
      rw [hnone]
      rfl

theorem layerAt_of_occ (hocc : p.occ addr = 0) : p.layerAt addr = none := by
  induction p with
  | null => rfl
  | ptr value => rfl
  | layer node ary ih =>
      rw [Slot.occ, Nat.add_eq_zero_iff, Finset.sum_eq_zero_iff] at hocc
      have hne : node.addr ≠ addr := fun heq => by simp [heq] at hocc
      rw [Slot.layerAt, if_neg hne, List.findSome?_eq_none_iff]
      intro n hn
      exact ih n (hocc.2 n (Finset.mem_range.mpr (List.mem_range.mp hn)))

theorem occ_leafAt (h : leafAt id l p = some (node, ary)) : 1 ≤ p.occ node.addr := by
  induction l generalizing p with
  | zero =>
      cases p with
      | null => cases h
      | ptr value => cases h
      | layer node' ary' =>
          obtain ⟨rfl, rfl⟩ := Prod.mk.inj (Option.some.inj h)
          rw [Slot.occ, if_pos rfl]
          exact Nat.le_add_right 1 _
  | succ l ih =>
      cases p with
      | null => cases h
      | ptr value => cases h
      | layer node' ary' =>
          rw [occ_layer _ node' ary' (digit_lt (l + 1) id)]
          exact Nat.le_add_right_of_le (ih h)

/-- **A leaf is found by its address**, if no other layer has it. -/
theorem layerAt_leafAt (h : leafAt id l p = some (node, ary)) (honce : p.occ node.addr ≤ 1) :
    p.layerAt node.addr = some (node, ary) := by
  induction l generalizing p with
  | zero =>
      cases p with
      | null => cases h
      | ptr value => cases h
      | layer node' ary' =>
          obtain ⟨rfl, rfl⟩ := Prod.mk.inj (Option.some.inj h)
          rw [Slot.layerAt, if_pos rfl]
  | succ l ih =>
      cases p with
      | null => cases h
      | ptr value => cases h
      | layer node' ary' =>
          have hin := occ_leafAt (p := ary' (digit (l + 1) id)) h
          have hdigit := digit_lt (l + 1) id
          have hsplit := occ_layer node.addr node' ary' hdigit
          have hframe : Frame.occ node.addr ⟨node', ary', digit (l + 1) id⟩ = 0 := by omega
          unfold Frame.occ at hframe
          rw [Nat.add_eq_zero_iff, Finset.sum_eq_zero_iff] at hframe
          have hne : node'.addr ≠ node.addr := fun heq => by simp [heq] at hframe
          rw [Slot.layerAt, if_neg hne]
          have hhere := ih (p := ary' (digit (l + 1) id)) h (by omega)
          refine Eq.trans ?_ hhere
          have helse : ∀ n < idrSize, n ≠ digit (l + 1) id →
              (ary' n).layerAt node.addr = none := by
            intro n hn hother
            exact layerAt_of_occ
              (hframe.2 n (Finset.mem_erase.mpr ⟨hother, Finset.mem_range.mpr hn⟩))
          exact findSome?_range_eq hdigit helse

theorem idrMax_lt (layers : ℕ) : idrMax layers < 2 ^ 31 := by
  unfold idrMax
  rw [Nat.shiftLeft_eq, Nat.one_mul]
  have hle : 2 ^ min (layers * idrBits) maxIdrShift ≤ 2 ^ 31 :=
    Nat.pow_le_pow_right (by decide) (Nat.min_le_right _ _)
  have hpos := Nat.two_pow_pos (min (layers * idrBits) maxIdrShift)
  omega

/-- The ids of a tree come in whole leaves. -/
theorem idrMax_mod (l : ℕ) : (idrMax (l + 1) + 1) % 2 ^ 8 = 0 := by
  by_cases hless : l + 1 ≤ 3
  · rw [idrMax_eq hless, Nat.sub_add_cancel (Nat.two_pow_pos _), Nat.mul_succ, pow_add]
    exact Nat.mul_mod_left _ _
  · have hmin : min ((l + 1) * idrBits) maxIdrShift = 31 :=
      Nat.min_eq_right (by unfold idrBits maxIdrShift; omega)
    unfold idrMax
    rw [hmin]
    rfl

/-- The prefix of an id is that of a leaf exactly if the id belongs to it. -/
theorem prefix_eq_iff {id : BitVec 32} {other : ℕ} (hother : other < 2 ^ 31) :
    id &&& ~~~BitVec.ofNat 32 idrMask = BitVec.ofNat 32 (other / 2 ^ 8 * 2 ^ 8) ↔
      id.toNat / 2 ^ 8 = other / 2 ^ 8 := by
  have hlt := id.isLt
  have hmask : (id &&& ~~~BitVec.ofNat 32 idrMask) = BitVec.ofNat 32 (id.toNat / 2 ^ 8 * 2 ^ 8) := by
    refine BitVec.eq_of_getLsbD_eq fun i hi => ?_
    have hlow : idrMask.testBit i = decide (i < 8) := Nat.testBit_two_pow_sub_one 8 i
    rw [BitVec.getLsbD_and, BitVec.getLsbD_not, BitVec.getLsbD_ofNat, BitVec.getLsbD_ofNat,
      Nat.mul_comm, Nat.testBit_two_pow_mul, ← Nat.shiftRight_eq_div_pow, Nat.testBit_shiftRight,
      hlow, BitVec.getLsbD]
    by_cases hsmall : i < 8
    · have hnot : ¬ 8 ≤ i := by omega
      simp [hi, hsmall, hnot]
    · have hle : 8 ≤ i := by omega
      simp [hi, hsmall, hle]
  rw [hmask, ← BitVec.toNat_inj, BitVec.toNat_ofNat, BitVec.toNat_ofNat]
  omega

/-- The high parts of the ids that share a leaf are the same. -/
theorem leafAt_congr {other : ℕ} (hsame : id / 2 ^ 8 = other / 2 ^ 8) (p : Slot P) :
    leafAt id l p = leafAt other l p := by
  induction l generalizing p with
  | zero =>
      cases p with
      | null => rfl
      | ptr value => rfl
      | layer node ary => rfl
  | succ l ih =>
      cases p with
      | null => rfl
      | ptr value => rfl
      | layer node ary =>
          rw [leafAt_succ, leafAt_succ, digit_of_div hsame]
          exact ih _

/-- **`idr_find`**: the leaf that `hint` points to, and the way from the top, give what is
stored. -/
theorem idrFind_eq (h : IdrPlaced idr) (id : BitVec 32) :
    idrFind idr id = some (if id.toInt < 0 then none else (idr.entry id.toNat).join) := by
  unfold idrFind
  cases hhint : idr.hint with
  | none => exact idrFindSlowpath_eq h id
  | some addr =>
      obtain ⟨other, hother, leaf, slots, hleaf, rfl, -⟩ := h.hint addr hhint
      have hlt := hother.trans_lt (idrMax_lt _)
      dsimp only
      rw [layerAt_leafAt hleaf (h.once leaf.addr), Option.bind_some]
      obtain ⟨hnull, -⟩ | ⟨l, node, ary, hlayers, hle, -, hok, hplaced, -⟩ := h.cases
      · rw [hnull, leafAt_null] at hleaf
        cases hleaf
      · rw [hlayers, Nat.add_sub_cancel] at hleaf
        have hzero : other / 2 ^ (8 * (l + 1)) = 0 := by
          rw [hlayers] at hother
          refine Nat.div_eq_of_lt (hother.trans_lt ?_)
          obtain hless | rfl : l + 1 ≤ 3 ∨ l = 3 := by omega
          · have hpos := Nat.two_pow_pos (8 * (l + 1))
            rw [idrMax_eq hless]
            omega
          · decide
        obtain ⟨-, hbegin, hpointer⟩ := hplaced.leafAt hleaf hzero
        dsimp only
        rw [hbegin]
        split
        · rename_i heq
          have hsame := (prefix_eq_iff hlt).mp heq
          have hpos : ¬ id.toInt < 0 := by
            rw [BitVec.toInt_eq_toNat_cond]
            split <;> omega
          have hin : id.toNat ≤ idrMax (l + 1) := by
            have hmax := idrMax_mod l
            rw [hlayers] at hother
            omega
          rw [if_neg hpos, and_idrMask, Idr.entry, hlayers, Nat.add_sub_cancel, if_pos hin]
          rw [← leafAt_congr hsame] at hleaf
          rw [lookup_of_leafAt hleaf]
          obtain ⟨value, hvalue⟩ := Option.isSome_iff_exists.mp (hpointer _ (digit_lt 0 id.toNat))
          split
          · rw [hvalue]
            rfl
          · rename_i hbit
            rw [(hok.leafAt hleaf).2 _ (digit_lt 0 id.toNat) (by rwa [Bool.not_eq_true] at hbit)]
            rfl
        · exact idrFindSlowpath_eq h id

/-! ### Replacing -/

/-- The tree with something else in the slot of an id. -/
def setSlot (id : ℕ) (value : Slot P) : (l : ℕ) → Slot P → Slot P
  | 0, .layer node ary => .layer node (Function.update ary (digit 0 id) value)
  | l + 1, .layer node ary =>
      .layer node (Function.update ary (digit (l + 1) id)
        (setSlot id value l (ary (digit (l + 1) id))))
  | _, p => p

/-- **The way down** of `idr_replace`, from which the tree around the leaf can be put together. -/
theorem replaceDescend_of_leafAt (hleaf : leafAt id l p = some (node, ary)) :
    ∃ pa', replaceDescend id l p pa = some (.layer node ary, pa') ∧
      ∀ value, plugAll (.layer node (Function.update ary (digit 0 id) value)) pa' =
        plugAll (setSlot id value l p) pa := by
  induction l generalizing p pa with
  | zero =>
      cases p with
      | null => cases hleaf
      | ptr value => cases hleaf
      | layer node' ary' =>
          obtain ⟨rfl, rfl⟩ := Prod.mk.inj (Option.some.inj hleaf)
          exact ⟨pa, rfl, fun _ => rfl⟩
  | succ l ih =>
      cases p with
      | null => cases hleaf
      | ptr value => cases hleaf
      | layer node' ary' =>
          obtain ⟨pa', hdescend, hplug⟩ :=
            @ih _ (⟨node', ary', digit (l + 1) id⟩ :: pa) (leafAt_succ id l node' ary' ▸ hleaf)
          exact ⟨pa', hdescend, hplug⟩

theorem replaceDescend_of_none (h : Placed l base p) (hleaf : leafAt id l p = none) :
    ∃ pa', replaceDescend id l p pa = some (.null, pa') := by
  induction l generalizing p pa base with
  | zero =>
      obtain ⟨node, ary, rfl⟩ := h.exists_layer
      cases hleaf
  | succ l ih =>
      obtain ⟨node, ary, rfl⟩ := h.exists_layer
      rw [leafAt_succ] at hleaf
      rw [replaceDescend]
      obtain hnull | ⟨hplaced, -⟩ := h.2 _ (digit_lt (l + 1) id)
      · rw [hnull]
        cases l <;> exact ⟨_, rfl⟩
      · exact ih hplaced hleaf

/-- The leaves after an id has got something else. -/
theorem leafAt_setSlot {other : ℕ} {value : Slot P}
    (hbase : other / 2 ^ (8 * (l + 1)) = id / 2 ^ (8 * (l + 1))) :
    leafAt other l (setSlot id value l p) =
      (leafAt other l p).map fun leaf =>
        if other / 2 ^ 8 = id / 2 ^ 8 then (leaf.1, Function.update leaf.2 (digit 0 id) value)
        else leaf := by
  induction l generalizing p with
  | zero =>
      cases p with
      | null => rfl
      | ptr value => rfl
      | layer node ary =>
          rw [setSlot, leafAt, leafAt, Option.map_some, if_pos hbase]
  | succ l ih =>
      cases p with
      | null => rfl
      | ptr value => rfl
      | layer node ary =>
          rw [setSlot, leafAt_succ, leafAt_succ]
          by_cases hdigit : digit (l + 1) other = digit (l + 1) id
          · rw [hdigit, Function.update_self]
            refine ih ?_
            rw [div_eq_digit, hbase, hdigit, ← div_eq_digit]
          · have hnot : ¬ other / 2 ^ 8 = id / 2 ^ 8 := fun hsame => hdigit (digit_of_div hsame)
            rw [Function.update_of_ne hdigit]
            simp only [if_neg hnot, Option.map_id']

theorem setSlot_ok {value : Option P} (hok : LayerOk l p) (hentry : allocated id l p = true) :
    LayerOk l (setSlot id (Slot.ofPointer value) l p) ∧
      (setSlot id (Slot.ofPointer value) l p).full = p.full := by
  induction l generalizing p with
  | zero =>
      obtain ⟨node, ary, rfl⟩ := hok.exists_layer
      refine ⟨⟨hok.1, fun n hn hfree => ?_⟩, rfl⟩
      have hne : n ≠ digit 0 id := by
        rintro rfl
        exact absurd hentry (by rw [allocated, hfree]; exact Bool.false_ne_true)
      rw [Function.update_of_ne hne]
      exact hok.2 n hn hfree
  | succ l ih =>
      obtain ⟨node, ary, rfl⟩ := hok.exists_layer
      obtain ⟨hsome, hchild⟩ := hok.child hentry
      obtain ⟨hnew, hfull⟩ := ih hchild hentry
      refine ⟨⟨?_, fun n hn => ?_⟩, rfl⟩
      · rw [hok.1]
        refine slotCount_congr fun n _ => ?_
        by_cases hn : n = digit (l + 1) id
        · rw [hn, Function.update_self, hnew.isNull, hchild.isNull]
        · rw [Function.update_of_ne hn]
      · by_cases heq : n = digit (l + 1) id
        · rw [heq, Function.update_self, hfull]
          exact ⟨Or.inr hnew, (hok.2 _ (digit_lt _ _)).2⟩
        · rw [Function.update_of_ne heq]
          exact hok.2 n hn

theorem setSlot_placed {value : Option P} (h : Placed l base p) :
    Placed l base (setSlot id (Slot.ofPointer value) l p) := by
  induction l generalizing p base with
  | zero =>
      obtain ⟨node, ary, rfl⟩ := h.exists_layer
      refine ⟨h.1, h.2.1, fun n hn => ?_⟩
      by_cases heq : n = digit 0 id
      · rw [heq, Function.update_self]
        cases value <;> rfl
      · rw [Function.update_of_ne heq]
        exact h.2.2 n hn
  | succ l ih =>
      obtain ⟨node, ary, rfl⟩ := h.exists_layer
      refine ⟨h.1, fun n hn => ?_⟩
      by_cases heq : n = digit (l + 1) id
      · rw [heq, Function.update_self]
        obtain hnull | ⟨hplaced, hlt⟩ := h.2 _ (digit_lt (l + 1) id)
        · rw [hnull]
          cases l <;> exact Or.inl rfl
        · exact Or.inr ⟨ih hplaced, hlt⟩
      · rw [Function.update_of_ne heq]
        exact h.2 n hn

theorem setSlot_occ {value : Option P} (h : Placed l base p) (addr : ℕ) :
    (setSlot id (Slot.ofPointer value) l p).occ addr = p.occ addr := by
  induction l generalizing p base with
  | zero =>
      obtain ⟨node, ary, rfl⟩ := h.exists_layer
      have hold : (ary (digit 0 id)).occ addr = 0 := by
        have hpointer := h.2.2 _ (digit_lt 0 id)
        cases hslot : ary (digit 0 id) with
        | null => rfl
        | ptr value => rfl
        | layer node ary =>
            rw [hslot] at hpointer
            cases hpointer
      have hnew : (Slot.ofPointer value).occ addr = 0 := by
        cases value <;> rfl
      rw [setSlot, occ_layer addr _ _ (digit_lt 0 id), occ_layer addr node ary (digit_lt 0 id),
        Function.update_self, frame_occ_update, hold, hnew]
  | succ l ih =>
      obtain ⟨node, ary, rfl⟩ := h.exists_layer
      rw [setSlot, occ_layer addr _ _ (digit_lt (l + 1) id),
        occ_layer addr node ary (digit_lt (l + 1) id), Function.update_self, frame_occ_update]
      obtain hnull | ⟨hplaced, -⟩ := h.2 _ (digit_lt (l + 1) id)
      · rw [hnull]
        cases l <;> rfl
      · rw [ih hplaced]

/-- An id has something stored exactly if it is given out. -/
theorem isSome_lookup (h : Placed l base p) (id : ℕ) :
    (lookup id l p).isSome = allocated id l p := by
  induction l generalizing p base with
  | zero =>
      obtain ⟨node, ary, rfl⟩ := h.exists_layer
      rw [lookup, allocated]
      split
      · rename_i hbit
        rw [hbit, h.2.2 _ (digit_lt 0 id)]
      · rename_i hbit
        rw [Bool.not_eq_true] at hbit
        rw [hbit]
        rfl
  | succ l ih =>
      obtain ⟨node, ary, rfl⟩ := h.exists_layer
      rw [lookup_succ]
      show _ = allocated id l (ary (digit (l + 1) id))
      obtain hnull | ⟨hplaced, -⟩ := h.2 _ (digit_lt (l + 1) id)
      · rw [hnull, lookup_null, allocated_null]
        rfl
      · exact ih hplaced

/-- **The ids after one has got something else.** -/
theorem lookup_setSlot {other : ℕ} {value : Option P}
    (hbase : other / 2 ^ (8 * (l + 1)) = id / 2 ^ (8 * (l + 1)))
    (hentry : (lookup id l p).isSome = true) :
    lookup other l (setSlot id (Slot.ofPointer value) l p) =
      if other = id then some value else lookup other l p := by
  have hleaves := @leafAt_setSlot _ _ _ p _ (Slot.ofPointer value) hbase
  cases hleaf : leafAt other l p with
  | none =>
      rw [hleaf, Option.map_none] at hleaves
      rw [lookup_of_leafAt_none hleaves, lookup_of_leafAt_none hleaf, if_neg]
      rintro rfl
      rw [lookup_of_leafAt_none hleaf] at hentry
      cases hentry
  | some leaf =>
      obtain ⟨node, ary⟩ := leaf
      rw [hleaf, Option.map_some] at hleaves
      dsimp only at hleaves
      by_cases hsame : other / 2 ^ 8 = id / 2 ^ 8
      · rw [if_pos hsame] at hleaves
        rw [lookup_of_leafAt hleaves, lookup_of_leafAt hleaf]
        have hdigit : digit 0 other = digit 0 id ↔ other = id := by
          rw [digit_eq, digit_eq]
          omega
        by_cases heq : other = id
        · subst heq
          rw [lookup_of_leafAt hleaf] at hentry
          rw [if_pos rfl]
          split at hentry
          · rename_i hbit
            rw [if_pos hbit, Function.update_self]
            cases value <;> rfl
          · cases hentry
        · rw [if_neg heq, Function.update_of_ne fun hd => heq (hdigit.mp hd)]
      · have hne : other ≠ id := fun heq => hsame (by rw [heq])
        rw [if_neg hsame] at hleaves
        rw [lookup_of_leafAt hleaves, lookup_of_leafAt hleaf, if_neg hne]

theorem div_of_le_idrMax (hid : id ≤ idrMax (l + 1)) (hle : l ≤ 3) : id / 2 ^ (8 * (l + 1)) = 0 := by
  refine Nat.div_eq_of_lt (hid.trans_lt ?_)
  obtain hless | rfl : l + 1 ≤ 3 ∨ l = 3 := by omega
  · have hpos := Nat.two_pow_pos (8 * (l + 1))
    rw [idrMax_eq hless]
    omega
  · decide

/-- A tree with other pointers in its leaves. -/
theorem IdrPlaced.setSlot {value : Option P} (h : IdrPlaced idr)
    (hid : id ≤ idrMax idr.layers) (hentry : (idr.entry id).isSome = true) :
    IdrPlaced { idr with
        top := setSlot id (Slot.ofPointer value) (idr.layers - 1) idr.top } ∧
      ∀ other, Idr.entry { idr with
          top := setSlot id (Slot.ofPointer value) (idr.layers - 1) idr.top } other =
        if other = id then some value else idr.entry other := by
  have hcases := h.cases
  obtain ⟨hint, top, layers, idFree⟩ := idr
  unfold Idr.entry at hentry ⊢
  dsimp only at hid hentry hcases ⊢
  rw [if_pos hid] at hentry
  obtain ⟨rfl, -⟩ | ⟨l, node, ary, rfl, hle, -, hok, hplaced, -⟩ := hcases
  · rw [lookup_null] at hentry
    cases hentry
  · replace hentry : (lookup id l top).isSome = true := hentry
    have halloc : allocated id l top = true := by
      rw [← isSome_lookup hplaced]
      exact hentry
    obtain ⟨hnew, -⟩ := @setSlot_ok _ _ _ _ value hok halloc
    have hbase : ∀ other ≤ idrMax (l + 1),
        other / 2 ^ (8 * (l + 1)) = id / 2 ^ (8 * (l + 1)) := by
      intro other hother
      rw [div_of_le_idrMax hother hle, div_of_le_idrMax hid hle]
    refine ⟨⟨Or.inr ⟨Nat.succ_pos l, Nat.succ_le_succ hle, hnew⟩, Or.inr (setSlot_placed hplaced),
      fun addr => ?_, fun addr hhint => ?_⟩, fun other => ?_⟩
    · exact (setSlot_occ hplaced addr).trans_le (h.once addr)
    · obtain ⟨other, hother, leaf, slots, hleaf, haddr, hcount⟩ := h.hint addr hhint
      have hleaves := @leafAt_setSlot _ _ _ top _ (Slot.ofPointer value) (hbase other hother)
      replace hleaf : leafAt other l top = some (leaf, slots) := hleaf
      rw [hleaf, Option.map_some] at hleaves
      by_cases hsame : other / 2 ^ 8 = id / 2 ^ 8
      · rw [if_pos hsame] at hleaves
        exact ⟨other, hother, leaf, _, hleaves, haddr, hcount⟩
      · rw [if_neg hsame] at hleaves
        exact ⟨other, hother, leaf, _, hleaves, haddr, hcount⟩
    · by_cases hother : other ≤ idrMax (l + 1)
      · rw [if_pos hother, if_pos hother]
        exact lookup_setSlot (hbase other hother) hentry
      · have hne : other ≠ id := by
          rintro rfl
          exact hother hid
        rw [if_neg hother, if_neg hother, if_neg hne]

/-- What `idr_replace` does. -/
structure Replaces (idr : Idr P) (value : Option P) (id : BitVec 32) : Prop where
  negative : id.toInt < 0 → idrReplace idr value id = some (idr, .error .einval)
  free : 0 ≤ id.toInt → idr.entry id.toNat = none →
    idrReplace idr value id = some (idr, .error .enoent)
  found : ∀ old, 0 ≤ id.toInt → idr.entry id.toNat = some old → ∃ top,
    idrReplace idr value id = some ({ idr with top := top }, .ok old) ∧
      IdrPlaced { idr with top := top } ∧ (∀ addr, top.occ addr = idr.top.occ addr) ∧
      ∀ other, Idr.entry { idr with top := top } other =
        if other = id.toNat then some value else idr.entry other

/-- **`idr_replace`** changes the pointer of an id that is given out, and nothing else. -/
theorem idrReplace_eq (h : IdrPlaced idr) (value : Option P) (id : BitVec 32) :
    Replaces idr value id := by
  obtain hneg | hpos := lt_or_ge id.toInt 0
  · exact ⟨fun _ => if_pos hneg, fun hge => absurd hneg (not_lt.mpr hge),
      fun _ hge => absurd hneg (not_lt.mpr hge)⟩
  · have hlt := toNat_of_nonneg (not_lt.mpr hpos)
    have hentry := entry_of_above (rfl : idr.layers = _) hlt
    have hcall : idrReplace idr value id = _ := if_neg (not_lt.mpr hpos)
    obtain ⟨hnull, hlayers⟩ | ⟨l, node, ary, hlayers, hle, htop, hok, hplaced, hlevel⟩ := h.cases
    · have hnone : idr.entry id.toNat = none := by
        rw [hentry, hnull, lookup_null, ite_self]
      rw [hnull] at hcall
      refine ⟨fun hneg => absurd hneg (not_lt.mpr hpos), fun _ _ => hcall, fun old _ hsome => ?_⟩
      rw [hnone] at hsome
      cases hsome
    · rw [htop] at hcall
      dsimp only at hcall
      rw [hlevel] at hcall
      rw [hlayers, Nat.add_sub_cancel] at hentry
      by_cases habove : above id.toNat (l + 1) = true
      · rw [if_pos habove] at hentry hcall
        refine ⟨fun hneg => absurd hneg (not_lt.mpr hpos), fun _ _ => hcall, fun old _ hsome => ?_⟩
        rw [hentry] at hsome
        cases hsome
      · have hid : id.toNat ≤ idrMax (l + 1) := by
          have hbit : maxIdrBit = 2 ^ 31 := rfl
          unfold above at habove
          rw [Bool.and_eq_true, decide_eq_true_eq, decide_eq_true_eq, hbit] at habove
          omega
        rw [if_neg habove] at hentry hcall
        cases hleaf : leafAt id.toNat l idr.top with
        | none =>
            obtain ⟨pa, hdescend⟩ := @replaceDescend_of_none _ _ _ _ _ [] hplaced hleaf
            rw [← htop, hdescend] at hcall
            rw [lookup_of_leafAt_none hleaf] at hentry
            refine ⟨fun hneg => absurd hneg (not_lt.mpr hpos), fun _ _ => hcall,
              fun old _ hsome => ?_⟩
            rw [hentry] at hsome
            cases hsome
        | some leaf =>
            obtain ⟨leaf, slots⟩ := leaf
            obtain ⟨pa, hdescend, hplug⟩ := @replaceDescend_of_leafAt _ _ _ _ _ _ [] hleaf
            rw [lookup_of_leafAt hleaf] at hentry
            rw [← htop, hdescend] at hcall
            dsimp only at hcall
            rw [and_idrMask, hplug] at hcall
            refine ⟨fun hneg => absurd hneg (not_lt.mpr hpos), fun _ hnone => ?_,
              fun old _ hsome => ?_⟩
            · rw [hentry] at hnone
              split at hnone
              · have hpointer := (hplaced.leafAt hleaf (div_of_le_idrMax hid hle)).2.2 _
                  (digit_lt 0 id.toNat)
                rw [hnone] at hpointer
                cases hpointer
              · rename_i hbit
                rw [hcall, if_neg hbit]
            · obtain ⟨hnew, hentries⟩ := @IdrPlaced.setSlot _ _ _ value h (hlayers ▸ hid)
                (by rw [hsome]; rfl)
              have hlevel : idr.layers - 1 = l := by rw [hlayers, Nat.add_sub_cancel]
              rw [hlevel] at hnew hentries
              refine ⟨setSlot id.toNat (Slot.ofPointer value) l idr.top, ?_, hnew,
                setSlot_occ hplaced, hentries⟩
              rw [hentry] at hsome
              split at hsome
              · rename_i hbit
                rw [hcall, if_pos hbit, hsome]
                rfl
              · cases hsome

end Webcamd.Kernel.IdrTree
