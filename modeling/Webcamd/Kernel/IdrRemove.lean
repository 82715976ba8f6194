import Webcamd.Kernel.IdrInvariant

/-!
# Removal from the tree of the id allocator

`sub_remove` goes down to the leaf with a stack of pointers, and up again as far as layers are
empty.  `cut` says the same by recursion on the tree.

* `allocated` — the id is given out.
* `subRemove_eq` — `sub_remove` is `cut` for an id that is given out, and does nothing for another
  one.
* `CutOk` — what is left is well-formed, and no bit is set in the layers that are taken out.
* `EmptiedBy`, `KeepsFull` — when a layer goes with its last id, and when the tree is shrunk to a
  child that is full.
* `idrRemove_ok` — **the layers that `idr_remove` takes out** have no bit set in their first word
  exactly unless the tree is shrunk to a child that is full.
-/

namespace Webcamd.Kernel.IdrTree

open Bitmap

variable {P : Type}

/-- The id is given out: the bit in its leaf is set. -/
def allocated (id : ℕ) : (l : ℕ) → Slot P → Bool
  | 0, .layer node _ => testBit (digit 0 id) node.bitmap
  | l + 1, .layer _ ary => allocated id l (ary (digit (l + 1) id))
  | _, _ => false

/-- The id is the only thing in the tree. -/
def emptiedBy (id : ℕ) : (l : ℕ) → Slot P → Bool
  | 0, .layer node _ => node.count = 1 && testBit (digit 0 id) node.bitmap
  | l + 1, .layer node ary => node.count = 1 && emptiedBy id l (ary (digit (l + 1) id))
  | _, _ => false

/-- The tree without the id, and the layers that are taken out of it, the leaf first. -/
def cut (id : ℕ) : (l : ℕ) → Slot P → Slot P × List Layer
  | 0, .layer node ary =>
      let n := digit 0 id
      let node := { node with count := node.count - 1, bitmap := clearBit n node.bitmap }
      if node.count = 0 then (.null, [node]) else (.layer node (Function.update ary n .null), [])
  | l + 1, .layer node ary =>
      let n := digit (l + 1) id
      let (child, freed) := cut id l (ary n)
      if child.isNull then
        let node := { node with count := node.count - 1, bitmap := clearBit n node.bitmap }
        if node.count = 0 then (.null, freed ++ [node])
        else (.layer node (Function.update ary n .null), freed)
      else
        (.layer { node with bitmap := clearBit n node.bitmap } (Function.update ary n child), freed)
  | _, p => (p, [])

variable {l layers id m addr : ℕ} {node : Layer} {ary : ℕ → Slot P} {p : Slot P}
variable {pa : List (Frame P)} {idr : Idr P}

/-! ### Ids that are given out -/

theorem allocated_null (id l : ℕ) : allocated id l (.null : Slot P) = false := by
  cases l <;> rfl

/-- All ids of a full layer are given out. -/
theorem LayerOk.allocated_of_full (h : LayerOk l p) (hfull : p.full = true) (id : ℕ) :
    allocated id l p = true := by
  induction l generalizing p with
  | zero =>
      obtain ⟨node, ary, rfl⟩ := h.exists_layer
      exact (bitmapFull_iff _ _).mp hfull _ (digit_lt 0 id)
  | succ l ih =>
      obtain ⟨node, ary, rfl⟩ := h.exists_layer
      have hbit := (bitmapFull_iff _ _).mp hfull _ (digit_lt (l + 1) id)
      obtain ⟨hchild, hsame⟩ := h.2 _ (digit_lt (l + 1) id)
      rw [hbit] at hsame
      obtain hnull | hlayer := hchild
      · rw [hnull] at hsame
        cases hsame
      · exact ih hlayer hsame.symm

/-- The child that an id is in. -/
theorem LayerOk.child (h : LayerOk (l + 1) (.layer node ary))
    (halloc : allocated id (l + 1) (.layer node ary) = true) :
    ary (digit (l + 1) id) ≠ .null ∧ LayerOk l (ary (digit (l + 1) id)) := by
  have hsome : ary (digit (l + 1) id) ≠ .null := by
    intro hnull
    have hchild : allocated id l (ary (digit (l + 1) id)) = true := halloc
    rw [hnull, allocated_null] at hchild
    cases hchild
  exact ⟨hsome, (h.2 _ (digit_lt (l + 1) id)).1.resolve_left hsome⟩

theorem allocated_of_emptiedBy (hemptied : emptiedBy id l p = true) : allocated id l p = true := by
  induction l generalizing p with
  | zero =>
      cases p with
      | null => cases hemptied
      | ptr value => cases hemptied
      | layer node ary =>
          rw [emptiedBy, Bool.and_eq_true] at hemptied
          exact hemptied.2
  | succ l ih =>
      cases p with
      | null => cases hemptied
      | ptr value => cases hemptied
      | layer node ary =>
          rw [emptiedBy, Bool.and_eq_true] at hemptied
          exact ih hemptied.2

/-! ### `sub_remove` as a recursion on the tree -/

/-- `sub_remove` for an id that is not given out puts back what it has found. -/
theorem removeDescend_of_not (h : LayerOk l p) (hnot : allocated id l p = false) :
    plugAll (removeDescend id l p pa).1 (removeDescend id l p pa).2 = plugAll p pa ∧
      ∀ leaf ary', (removeDescend id l p pa).1 = .layer leaf ary' →
        testBit (digit 0 id) leaf.bitmap = false := by
  induction l generalizing p pa with
  | zero =>
      obtain ⟨node, ary, rfl⟩ := h.exists_layer
      refine ⟨rfl, fun leaf ary' heq => ?_⟩
      obtain ⟨rfl, -⟩ := Slot.layer.inj heq
      exact hnot
  | succ l ih =>
      obtain ⟨node, ary, rfl⟩ := h.exists_layer
      obtain ⟨hchild, hsame⟩ := h.2 _ (digit_lt (l + 1) id)
      replace hnot : allocated id l (ary (digit (l + 1) id)) = false := hnot
      have hbit : testBit (digit (l + 1) id) node.bitmap = false := by
        rw [hsame, ← Bool.not_eq_true]
        intro hfull
        obtain hnull | hlayer := hchild
        · rw [hnull] at hfull
          cases hfull
        · rw [hlayer.allocated_of_full hfull id] at hnot
          cases hnot
      have hplug : Frame.plug ⟨node, ary, digit (l + 1) id⟩ (ary (digit (l + 1) id)) =
          .layer node ary := by
        unfold Frame.plug
        rw [Function.update_eq_self]
      rw [removeDescend, clearBit_of_not hbit]
      obtain hnull | hlayer := hchild
      · have hstop : ∀ pa : List (Frame P), removeDescend id l .null pa = (.null, pa) := by
          intro pa
          cases l <;> rfl
        rw [hnull, hstop]
        refine ⟨?_, fun leaf ary' heq => by cases heq⟩
        rw [hnull] at hplug
        rw [plugAll, hplug]
      · obtain ⟨hback, hleaf⟩ := @ih _ (⟨node, ary, digit (l + 1) id⟩ :: pa) hlayer hnot
        refine ⟨?_, hleaf⟩
        rw [hback, plugAll, hplug]

/-- The rest of the loop of `sub_remove` at the parent of a layer that has gone. -/
def releaseParent : List (Frame P) → List Layer → Option (Slot P) × List Layer
  | [], freed => (none, freed)
  | frame :: rest, freed =>
      releaseLoop frame.node (Function.update frame.ary frame.m .null) rest freed

/-- What is left to do when the part below has been done. -/
def finishRemove (result : Slot P × List Layer) (pa : List (Frame P)) :
    Option (Slot P) × List Layer :=
  if result.1.isNull then releaseParent pa result.2 else (some (plugAll result.1 pa), result.2)

theorem releaseLoop_eq (node : Layer) (ary : ℕ → Slot P) (pa : List (Frame P))
    (freed : List Layer) :
    releaseLoop node ary pa freed =
      if node.count - 1 = 0 then
        releaseParent pa (freed ++ [{ node with count := node.count - 1 }])
      else (some (plugAll (.layer { node with count := node.count - 1 } ary) pa), freed) := by
  cases pa with
  | nil =>
      rw [releaseLoop]
      rfl
  | cons frame rest =>
      rw [releaseLoop]
      rfl

/-- **`sub_remove` does what `cut` says**, for an id that is given out. -/
theorem removeDescend_eq (h : LayerOk l p) (halloc : allocated id l p = true) :
    ∃ leaf ary', (removeDescend id l p pa).1 = .layer leaf ary' ∧
      testBit (digit 0 id) leaf.bitmap = true ∧
      releaseLoop { leaf with bitmap := clearBit (digit 0 id) leaf.bitmap }
          (Function.update ary' (digit 0 id) .null) (removeDescend id l p pa).2 [] =
        finishRemove (cut id l p) pa := by
  induction l generalizing p pa with
  | zero =>
      obtain ⟨node, ary, rfl⟩ := h.exists_layer
      refine ⟨node, ary, rfl, halloc, ?_⟩
      show releaseLoop _ _ pa [] = _
      rw [releaseLoop_eq, cut]
      unfold finishRemove
      dsimp only
      split <;> rfl
  | succ l ih =>
      obtain ⟨node, ary, rfl⟩ := h.exists_layer
      obtain ⟨-, hchild⟩ := h.child halloc
      obtain ⟨leaf, ary', hleaf, hbit, hrelease⟩ := @ih _ (⟨{ node with
        bitmap := clearBit (digit (l + 1) id) node.bitmap }, ary, digit (l + 1) id⟩ :: pa)
        hchild halloc
      refine ⟨leaf, ary', hleaf, hbit, ?_⟩
      rw [removeDescend, hrelease, cut]
      unfold finishRemove
      dsimp only
      split
      · rename_i hnull
        rw [releaseParent, releaseLoop_eq]
        dsimp only
        split <;> rfl
      · rename_i hsome
        rfl

/-- **`sub_remove`**: an id that is given out is cut out of the tree, and nothing is done for
another one. -/
theorem subRemove_eq (h : IdrOk idr) (id : ℕ) :
    subRemove idr (idr.layers - 1) id =
      if allocated id (idr.layers - 1) idr.top then
        let (top, freed) := cut id (idr.layers - 1) idr.top
        if top.isNull then ({ idr with top := .null, layers := 0 }, freed)
        else ({ idr with top := top }, freed)
      else (idr, []) := by
  unfold subRemove
  obtain ⟨hnull, hlayers⟩ | ⟨-, -, hlayer⟩ := h
  · obtain ⟨hint, top, layers, idFree⟩ := idr
    obtain rfl : top = .null := hnull
    obtain rfl : layers = 0 := hlayers
    rfl
  · cases halloc : allocated id (idr.layers - 1) idr.top with
    | false =>
        obtain ⟨hback, hleaf⟩ := @removeDescend_of_not _ _ id idr.top [] hlayer halloc
        rw [plugAll] at hback
        generalize removeDescend id (idr.layers - 1) idr.top [] = reached at hback hleaf
        obtain ⟨p, pa⟩ := reached
        have hsame : { idr with top := plugAll p pa } = idr := by
          rw [hback]
        cases p with
        | null => exact congrArg (fun idr => (idr, [])) hsame
        | ptr value => exact congrArg (fun idr => (idr, [])) hsame
        | layer leaf ary' =>
            dsimp only
            rw [and_idrMask, hleaf leaf ary' rfl, if_neg (by decide)]
            exact congrArg (fun idr => (idr, [])) hsame
    | true =>
        obtain ⟨leaf, ary', hreached, hbit, hrelease⟩ :=
          @removeDescend_eq _ _ id idr.top [] hlayer halloc
        generalize removeDescend id (idr.layers - 1) idr.top [] = reached at hreached hrelease
        obtain ⟨p, pa⟩ := reached
        obtain rfl : p = .layer leaf ary' := hreached
        dsimp only at hrelease ⊢
        rw [and_idrMask, if_pos hbit, if_pos rfl, hrelease]
        unfold finishRemove
        cases hnull : (cut id (idr.layers - 1) idr.top).1.isNull with
        | true => rfl
        | false => rfl

/-! ### What is left, and what is taken out -/

/-- No slot of the layer is set. -/
def Cleared (node : Layer) : Prop := ∀ n < idrSize, testBit n node.bitmap = false

/-- **What `cut` leaves and takes out.** -/
structure CutOk (l : ℕ) (emptied : Bool) (before : ℕ → ℕ) (result : Slot P × List Layer) :
    Prop where
  rest : result.1 = .null ∨ (LayerOk l result.1 ∧ result.1.full = false)
  null : result.1.isNull = emptied
  occ : ∀ addr, result.1.occ addr + listed addr result.2 ≤ before addr
  cleared : ∀ node ∈ result.2, Cleared node

/-- A leaf in which an id is no longer given out. -/
theorem LayerOk.clear (h : LayerOk 0 (.layer node ary)) (hm : m < idrSize)
    (hbit : testBit m node.bitmap = true) :
    LayerOk 0 (.layer { node with count := node.count - 1, bitmap := clearBit m node.bitmap }
      (Function.update ary m .null)) := by
  refine ⟨?_, fun n hn hfree => ?_⟩
  · show node.count - 1 = _
    have hcount := @slotCount_insert m (fun n => testBit n (clearBit m node.bitmap))
      (fun n => testBit n node.bitmap) hm (by simp [testBit_clearBit]) hbit
      (fun n _ hne => by simp [testBit_clearBit, hne.symm])
    rw [h.1, hcount]
    ring
  · by_cases hne : n = m
    · subst hne
      rw [Function.update_self]
    · replace hfree : testBit n (clearBit m node.bitmap) = false := hfree
      rw [testBit_clearBit, decide_eq_false (Ne.symm hne)] at hfree
      rw [Function.update_of_ne hne]
      exact h.2 n hn (by simpa using hfree)

/-- The end of a step of `cut`: a layer that counts nothing any more is taken out. -/
theorem cut_release {freed : List Layer} {before : ℕ → ℕ} (h : LayerOk l (.layer node ary))
    (hm : m < idrSize) (hbit : testBit m node.bitmap = false)
    (hocc : ∀ addr, (Slot.layer node ary).occ addr + listed addr freed ≤ before addr)
    (hfreed : ∀ node ∈ freed, Cleared node) :
    CutOk l (decide (node.count = 0)) before
      (if node.count = 0 then (.null, freed ++ [node]) else (.layer node ary, freed)) := by
  by_cases hcount : node.count = 0
  · rw [if_pos hcount]
    obtain ⟨hnull, hbits⟩ := h.empty hcount
    refine ⟨Or.inl rfl, ?_, fun addr => ?_, fun other hmem => ?_⟩
    · rw [decide_eq_true hcount]
      rfl
    · have hbefore := hocc addr
      rw [occ_of_null addr hnull] at hbefore
      show 0 + listed addr (freed ++ [node]) ≤ before addr
      rw [listed_append, listed_singleton]
      omega
    · obtain hold | hlast := List.mem_append.mp hmem
      · exact hfreed other hold
      · rw [List.mem_singleton.mp hlast]
        exact hbits
  · rw [if_neg hcount]
    refine ⟨Or.inr ⟨h, full_eq_false hm hbit⟩, ?_, hocc, hfreed⟩
    rw [decide_eq_false hcount]
    rfl

/-- What is left of the layers after a child has been replaced. -/
theorem occ_update_le {child : Slot P} {freed : List Layer} {node' : Layer} (hm : m < idrSize)
    (hsame : node'.addr = node.addr)
    (hchild : child.occ addr + listed addr freed ≤ (ary m).occ addr) :
    (Slot.layer node' (Function.update ary m child)).occ addr + listed addr freed ≤
      (Slot.layer node ary).occ addr := by
  rw [occ_congr addr _ hsame, occ_layer addr node _ hm, occ_layer addr node ary hm,
    Function.update_self, frame_occ_update]
  omega

theorem cut_ok (h : LayerOk l p) (halloc : allocated id l p = true) :
    CutOk l (emptiedBy id l p) (fun addr => p.occ addr) (cut id l p) := by
  induction l generalizing p with
  | zero =>
      obtain ⟨node, ary, rfl⟩ := h.exists_layer
      have hlt := digit_lt 0 id
      have hrelease := @cut_release _ 0 (digit 0 id)
        { node with count := node.count - 1, bitmap := clearBit (digit 0 id) node.bitmap } _ []
        (fun addr => (Slot.layer node ary).occ addr) (h.clear hlt halloc) hlt
        (by simp [testBit_clearBit])
        (fun addr => occ_update_le hlt rfl (Nat.zero_le _)) (by simp)
      have hemptied : emptiedBy id 0 (.layer node ary) = decide (node.count - 1 = 0) := by
        replace halloc : testBit (digit 0 id) node.bitmap = true := halloc
        rw [emptiedBy, halloc, Bool.and_true, decide_eq_decide]
        omega
      rw [hemptied, cut]
      exact hrelease
  | succ l ih =>
      obtain ⟨node, ary, rfl⟩ := h.exists_layer
      have hlt := digit_lt (l + 1) id
      obtain ⟨hsome, hchild⟩ := h.child halloc
      obtain ⟨hrest, hnull, hocc, hcleared⟩ := ih hchild halloc
      have hframe := h.frameOk hlt hsome
        (by simp [testBit_clearBit] :
          testBit (digit (l + 1) id) (clearBit (digit (l + 1) id) node.bitmap) = false)
        fun n _ hne => by simp [testBit_clearBit, hne.symm]
      rw [cut, emptiedBy]
      generalize cut id l (ary (digit (l + 1) id)) = result at hrest hnull hocc hcleared ⊢
      obtain ⟨child, freed⟩ := result
      dsimp only at hrest hnull hocc hcleared ⊢
      rw [← hnull]
      cases hempty : child.isNull with
      | true =>
          rw [isNull_eq_true_iff] at hempty
          subst hempty
          have hcount : (decide (node.count = 1) && true) = decide (node.count - 1 = 0) := by
            rw [Bool.and_true, decide_eq_decide]
            omega
          rw [hcount, if_pos rfl]
          exact cut_release hframe.release hlt (by simp [testBit_clearBit])
            (fun addr => occ_update_le hlt rfl (hocc addr)) hcleared
      | false =>
          have hlayer := hrest.resolve_left fun heq => by
            rw [heq] at hempty
            cases hempty
          rw [Bool.and_false, if_neg (by decide)]
          exact ⟨Or.inr ⟨hframe.plug hlayer.1 hlayer.2, hframe.plug_full⟩, rfl,
            fun addr => occ_update_le hlt rfl (hocc addr), hcleared⟩

/-! ### Shrinking -/

/-- The layer counts one child, and the leftmost one is full. -/
def OnlyFull : Slot P → Prop
  | .layer node ary => node.count = 1 ∧ (ary 0).full = true
  | _ => False

/-- The tree can be shrunk to a full child. -/
def FullLeft (idr : Idr P) : Prop := 1 < idr.layers ∧ OnlyFull idr.top

/-- **The tree is shrunk to a full child when the id is removed**: the leftmost child of the top is
full, the id is not in it, and the top has no other child, or one other that goes with the id. -/
def KeepsFull (idr : Idr P) (id : ℕ) : Prop :=
  match idr.top with
  | .layer node ary =>
      1 < idr.layers ∧ (ary 0).full = true ∧ digit (idr.layers - 1) id ≠ 0 ∧
        (node.count = 1 ∨ node.count = 2 ∧
          emptiedBy id (idr.layers - 2) (ary (digit (idr.layers - 1) id)) = true)
  | _ => False

/-- What a removal leaves in the tree and takes out of it. -/
structure RemoveOk (before : Idr P) (result : Idr P × List Layer) : Prop where
  ok : IdrOk result.1
  total : ∀ addr, total result.1 addr + listed addr result.2 ≤ total before addr

theorem RemoveOk.refl (h : IdrOk idr) : RemoveOk idr (idr, []) where
  ok := h
  total _ := le_rfl

theorem RemoveOk.trans {middle after : Idr P} {removed freed : List Layer}
    (h : RemoveOk idr (middle, removed)) (hnext : RemoveOk middle (after, freed)) :
    RemoveOk idr (after, removed ++ freed) where
  ok := hnext.ok
  total addr := by
    have hfirst := h.total addr
    have hsecond := hnext.total addr
    dsimp only at hfirst hsecond ⊢
    rw [listed_append]
    omega

theorem full_isNull (hfull : p.full = true) : p.isNull = false := by
  cases p with
  | null => cases hfull
  | ptr value => cases hfull
  | layer node ary => rfl

/-- The children of a layer that counts one. -/
theorem LayerOk.eq_of_count_one {n : ℕ} (h : LayerOk (l + 1) (.layer node ary))
    (hcount : node.count = 1) (hm : m < idrSize) (hsome : (ary m).isNull = false)
    (hn : n < idrSize) (hother : (ary n).isNull = false) : n = m := by
  by_contra hne
  have hone := @slotCount_insert m (fun n => decide (n ≠ m) && !(ary n).isNull)
    (fun n => !(ary n).isNull) hm (by simp) (by simp [hsome]) (fun n _ hne => by simp [hne])
  have hnone := h.1.symm.trans hcount
  rw [hone, add_eq_right, slotCount_eq_zero_iff] at hnone
  have hzero := hnone n hn
  simp [hne, hother] at hzero

theorem subRemove_ok (h : IdrOk idr) (id : ℕ) :
    RemoveOk idr (subRemove idr (idr.layers - 1) id) ∧
      ∀ node ∈ (subRemove idr (idr.layers - 1) id).2, Cleared node := by
  rw [subRemove_eq h]
  cases halloc : allocated id (idr.layers - 1) idr.top with
  | false => exact ⟨.refl h, by simp⟩
  | true =>
      obtain ⟨hnull, -⟩ | ⟨hpos, hle, hlayer⟩ := h
      · rw [hnull, allocated_null] at halloc
        cases halloc
      · obtain ⟨hrest, -, hocc, hcleared⟩ := cut_ok hlayer halloc
        generalize cut id (idr.layers - 1) idr.top = result at hrest hocc hcleared
        obtain ⟨top, freed⟩ := result
        dsimp only at hrest hocc hcleared ⊢
        rw [if_pos rfl]
        have htotal : ∀ addr, top.occ addr + listed addr idr.idFree + listed addr freed ≤
            total idr addr := by
          intro addr
          have hbefore := hocc addr
          unfold total
          omega
        obtain hempty | ⟨hok, -⟩ := hrest
        · subst hempty
          exact ⟨⟨Or.inl ⟨rfl, rfl⟩, htotal⟩, hcleared⟩
        · rw [hok.isNull]
          exact ⟨⟨Or.inr ⟨hpos, hle, hok⟩, htotal⟩, hcleared⟩

/-- When an id has been cut out, the leftmost child is the only one and full exactly if it was full
before, the id is not in it, and there is no other child left. -/
theorem cut_onlyFull (h : LayerOk (l + 1) (.layer node ary))
    (halloc : allocated id (l + 1) (.layer node ary) = true) :
    OnlyFull (cut id (l + 1) (.layer node ary)).1 ↔
      (ary 0).full = true ∧ digit (l + 1) id ≠ 0 ∧
        (node.count = 1 ∨ node.count = 2 ∧ emptiedBy id l (ary (digit (l + 1) id)) = true) := by
  have hlt := digit_lt (l + 1) id
  obtain ⟨hsome, hchild⟩ := h.child halloc
  obtain ⟨hrest, hnull, -, -⟩ := cut_ok hchild halloc
  -- a top that counts one child has no other one beside the leftmost
  have hone : (ary 0).full = true → digit (l + 1) id ≠ 0 → node.count ≠ 1 := by
    intro hfull hne hcount
    exact hne (h.eq_of_count_one hcount (by decide) (full_isNull hfull) hlt hchild.isNull)
  rw [cut, ← hnull]
  generalize cut id l (ary (digit (l + 1) id)) = result at hrest
  obtain ⟨child, freed⟩ := result
  dsimp only at hrest ⊢
  cases hempty : child.isNull with
  | true =>
      rw [if_pos rfl]
      by_cases hcount : node.count - 1 = 0
      · rw [if_pos hcount]
        refine iff_of_false (fun hnone => hnone) ?_
        rintro ⟨hfull, hne, -⟩
        exact hone hfull hne (by omega)
      · rw [if_neg hcount]
        unfold OnlyFull
        dsimp only
        by_cases hzero : digit (l + 1) id = 0
        · rw [hzero, Function.update_self]
          simp [Slot.full]
        · rw [Function.update_of_ne (Ne.symm hzero)]
          constructor
          · rintro ⟨hleft, hfull⟩
            exact ⟨hfull, hzero, Or.inr ⟨by omega, rfl⟩⟩
          · rintro ⟨hfull, -, hleft | ⟨hleft, -⟩⟩
            · exact absurd hleft (hone hfull hzero)
            · exact ⟨by omega, hfull⟩
  | false =>
      rw [if_neg (by decide)]
      unfold OnlyFull
      dsimp only
      by_cases hzero : digit (l + 1) id = 0
      · rw [hzero, Function.update_self]
        have hnot : child.full = false := by
          obtain heq | ⟨-, hnot⟩ := hrest
          · rw [heq]
            rfl
          · exact hnot
        simp [hnot]
      · rw [Function.update_of_ne (Ne.symm hzero)]
        simp [hzero, and_comm]

theorem subRemove_of_not (h : IdrOk idr) (hnot : allocated id (idr.layers - 1) idr.top = false) :
    subRemove idr (idr.layers - 1) id = (idr, []) := by
  rw [subRemove_eq h, hnot]
  rfl

theorem subRemove_fullLeft_of_allocated (h : IdrOk idr)
    (halloc : allocated id (idr.layers - 1) idr.top = true) :
    FullLeft (subRemove idr (idr.layers - 1) id).1 ↔
      1 < idr.layers ∧ OnlyFull (cut id (idr.layers - 1) idr.top).1 := by
  rw [subRemove_eq h, if_pos halloc]
  dsimp only
  cases hnull : (cut id (idr.layers - 1) idr.top).1.isNull with
  | true =>
      rw [if_pos rfl, (isNull_eq_true_iff _).mp hnull]
      exact iff_of_false (fun hleft => hleft.2) fun hleft => hleft.2
  | false =>
      rw [if_neg (by decide)]
      rfl

/-- **When the tree is shrunk to a full child after `sub_remove`.** -/
theorem subRemove_fullLeft (h : IdrOk idr) (id : ℕ) :
    FullLeft (subRemove idr (idr.layers - 1) id).1 ↔ KeepsFull idr id := by
  have hcases := h
  obtain ⟨hnull, -⟩ | ⟨-, -, hlayer⟩ := hcases
  · rw [subRemove_of_not h (by rw [hnull, allocated_null])]
    unfold FullLeft KeepsFull
    rw [hnull]
    exact iff_of_false (fun hleft => hleft.2) fun hleft => hleft
  · obtain ⟨node, ary, htop⟩ := hlayer.exists_layer
    have hkeeps : KeepsFull idr id ↔ 1 < idr.layers ∧ (ary 0).full = true ∧
        digit (idr.layers - 1) id ≠ 0 ∧ (node.count = 1 ∨ node.count = 2 ∧
          emptiedBy id (idr.layers - 2) (ary (digit (idr.layers - 1) id)) = true) := by
      unfold KeepsFull
      rw [htop]
    rw [hkeeps]
    by_cases hmore : 1 < idr.layers
    · obtain ⟨l, hlevel⟩ : ∃ l, idr.layers = l + 2 := ⟨idr.layers - 2, by omega⟩
      have htwo : idr.layers - 2 = l := by omega
      have hsub : idr.layers - 1 = l + 1 := by omega
      have hlayer' : LayerOk (l + 1) (.layer node ary) := by
        rwa [hsub, htop] at hlayer
      cases halloc : allocated id (idr.layers - 1) idr.top with
      | true =>
          rw [subRemove_fullLeft_of_allocated h halloc]
          rw [hsub, htop] at halloc ⊢
          rw [cut_onlyFull hlayer' halloc, htwo]
      | false =>
          rw [subRemove_of_not h halloc, htwo]
          rw [hsub, htop] at halloc
          unfold FullLeft
          rw [htop]
          refine and_congr_right fun _ => ?_
          rw [hsub]
          constructor
          · rintro ⟨hcount, hfull⟩
            refine ⟨hfull, fun hzero => ?_, Or.inl hcount⟩
            have hchild := (hlayer'.2 0 (by decide)).1.resolve_left fun hnull => by
              rw [hnull] at hfull
              cases hfull
            have hgiven := hchild.allocated_of_full hfull id
            replace halloc : allocated id l (ary (digit (l + 1) id)) = false := halloc
            rw [hzero, hgiven] at halloc
            cases halloc
          · rintro ⟨hfull, -, hcount | ⟨-, hemptied⟩⟩
            · exact ⟨hcount, hfull⟩
            · replace halloc : allocated id l (ary (digit (l + 1) id)) = false := halloc
              rw [allocated_of_emptiedBy hemptied] at halloc
              cases halloc
    · refine iff_of_false (fun hleft => hmore ?_) fun hleft => hmore hleft.1
      cases halloc : allocated id (idr.layers - 1) idr.top with
      | true => exact ((subRemove_fullLeft_of_allocated h halloc).mp hleft).1
      | false =>
          rw [subRemove_of_not h halloc] at hleft
          exact hleft.1

/-- The first word of a layer that counts one child, the leftmost. -/
theorem LayerOk.word_zero (h : LayerOk (l + 1) (.layer node ary)) (hcount : node.count = 1)
    (hleft : (ary 0).isNull = false) : node.bitmap 0 = 0 ↔ (ary 0).full = false := by
  have hzero : 0 < idrSize := by decide
  rw [word_zero_iff]
  constructor
  · intro hbits
    rw [← (h.2 0 hzero).2]
    exact hbits 0 (by decide)
  · intro hnot n hn
    have hlt : n < idrSize := hn.trans (by decide)
    rw [(h.2 n hlt).2]
    by_cases heq : n = 0
    · subst heq
      exact hnot
    · rw [← Bool.not_eq_true]
      intro hfull
      exact heq (h.eq_of_count_one hcount hzero hleft hlt (full_isNull hfull))

/-- **Shrinking the tree** takes out the top, and its first word is still set if the child was
full: `bitmap_clear` does not clear it. -/
theorem shrink_ok (h : IdrOk idr) :
    RemoveOk idr (shrink idr) ∧
      ((∀ node ∈ (shrink idr).2, node.bitmap 0 = 0) ↔ ¬ FullLeft idr) := by
  obtain ⟨hint, top, layers, idFree⟩ := idr
  cases top with
  | null => exact ⟨.refl h, iff_of_true (by simp [shrink]) fun hleft => hleft.2⟩
  | ptr value => exact ⟨.refl h, iff_of_true (by simp [shrink]) fun hleft => hleft.2⟩
  | layer node ary =>
      unfold shrink
      dsimp only
      by_cases hshrink : node.count = 1 ∧ 1 < layers ∧ (ary 0).isNull = false
      · obtain ⟨hcount, hmore, hleft⟩ := hshrink
        obtain ⟨hnull, -⟩ | ⟨-, hle, hlayer⟩ := h
        · cases hnull
        · dsimp only at hle hlayer
          obtain ⟨l, rfl⟩ : ∃ l, layers = l + 2 := ⟨layers - 2, by omega⟩
          replace hlayer : LayerOk (l + 1) (.layer node ary) := hlayer
          have hzero : 0 < idrSize := by decide
          have hchild : LayerOk l (ary 0) := (hlayer.2 0 hzero).1.resolve_left fun hnull => by
            rw [hnull] at hleft
            cases hleft
          rw [if_pos ⟨hcount, hmore, hleft⟩]
          refine ⟨⟨Or.inr ⟨?_, ?_, hchild⟩, fun addr => ?_⟩, ?_⟩
          · show 0 < l + 1
            omega
          · show l + 1 ≤ 4
            omega
          · have hocc := occ_layer addr node ary hzero
            have hown : (if node.addr = addr then 1 else 0) ≤ Frame.occ addr ⟨node, ary, 0⟩ :=
              Nat.le_add_right _ _
            unfold total
            dsimp only
            rw [listed_singleton]
            dsimp only
            omega
          · unfold FullLeft OnlyFull
            simp only [List.mem_singleton, forall_eq, bitmapClear_zero_word]
            rw [hlayer.word_zero hcount hleft]
            simp [hcount]
      · rw [if_neg hshrink]
        refine ⟨.refl h, iff_of_true (by simp) ?_⟩
        rintro ⟨hmore, hcount, hfull⟩
        exact hshrink ⟨hcount, hmore, full_isNull hfull⟩

/-- A layer without set slots has a first word without set bits. -/
theorem Cleared.word_zero (h : Cleared node) : node.bitmap 0 = 0 := by
  rw [word_zero_iff]
  exact fun n hn => h n (hn.trans (by decide))

/-- **`idr_remove`** keeps the tree well-formed, and every layer that it takes out is one that was
there.  The first words of these layers are zero exactly unless the tree is shrunk to a child that
is full. -/
theorem idrRemove_ok (h : IdrOk idr) (id : BitVec 32) :
    RemoveOk idr (idrRemove idr id) ∧
      ((∀ node ∈ (idrRemove idr id).2, node.bitmap 0 = 0) ↔
        (id.toInt < 0 ∨ above id.toNat idr.layers = true ∨ ¬ KeepsFull idr id.toNat)) := by
  unfold idrRemove
  by_cases hneg : id.toInt < 0
  · rw [if_pos hneg]
    exact ⟨.refl h, iff_of_true (by simp) (Or.inl hneg)⟩
  · rw [if_neg hneg]
    by_cases habove : above id.toNat idr.layers = true
    · rw [if_pos habove]
      exact ⟨.refl h, iff_of_true (by simp) (Or.inr (Or.inl habove))⟩
    · rw [if_neg habove]
      obtain ⟨hremove, hcleared⟩ := subRemove_ok h id.toNat
      rw [← subRemove_fullLeft h id.toNat]
      generalize subRemove idr (idr.layers - 1) id.toNat = result at hremove hcleared
      obtain ⟨middle, removed⟩ := result
      obtain ⟨hshrink, hword⟩ := shrink_ok hremove.ok
      dsimp only at hshrink hword hcleared ⊢
      refine ⟨hremove.trans hshrink, ?_⟩
      rw [← hword]
      constructor
      · intro hall
        exact Or.inr (Or.inr fun node hmem => hall node (List.mem_append_right _ hmem))
      · rintro (hlt | hle | hall) node hmem
        · exact absurd hlt hneg
        · exact absurd hle habove
        · obtain hold | hnew := List.mem_append.mp hmem
          · exact (hcleared node hold).word_zero
          · exact hall node hnew

end Webcamd.Kernel.IdrTree
