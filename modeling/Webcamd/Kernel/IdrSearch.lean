import Webcamd.Kernel.BitmapSearch
import Webcamd.Kernel.IdrLookup

/-!
# The search for a free id

`sub_alloc` goes from the top to a leaf, by the first slot of each layer that is not full, and back
up where there is none.  What it has passed by is always in use.

* `Extends` — a tree in which the same is stored, with layers that may have been added.
* `PlacedPath`, `SearchAt` — the layers above the one that the search is at are in their place, and
  the id that it has got to belongs there.
* `Took`, `RunsOut` — at most so many layers have been allocated; one of so many is refused.
* `subAllocLoop_reaches` — **the search ends**, after rounds that the id and the level bound, with the
  least free id from where it began, or with no memory, or when there is no free id.
-/

namespace Webcamd.Kernel.IdrTree

open Bitmap Webcamd.Library

variable {P : Type}
variable {l layers id other n m base : ℕ} {node : Layer} {ary : ℕ → Slot P} {p child : Slot P}
variable {frame : Frame P} {pa : List (Frame P)} {memory memory' : Memory}

/-! ### Ids -/

/-- The slots that the search for a free one passes by are full. -/
theorem findNextZeroBit_passed (addr : Words) {k : ℕ} (hle : n ≤ k)
    (hlt : k < findNextZeroBit addr idrSize n) : testBit k addr = true := by
  have hsize : idrSize ≤ 2 ^ 63 := by decide
  have hrounds : BitmapPredicates.bitsToLongs idrSize < 5 := by decide
  obtain ⟨found, hnext, heq⟩ := @BitmapSearch.findNext_isNext (fun place => ~~~addr place) _ idrSize
    5 n (fun _ => BitmapSearch.upTo_not) hsize hrounds
  have hsame : some (findNextZeroBit addr idrSize n) = some (found.getD idrSize) :=
    (BitmapSearch.findNextZeroBit_eq addr hsize n hrounds).symm.trans heq
  rw [Option.some_inj] at hsame
  have hin : k < idrSize := hlt.trans_le (findNextZeroBit_le addr idrSize n)
  by_contra hclear
  have hhit : BitmapSearch.Hit (fun place => ~~~addr place) idrSize k := by
    refine ⟨hin, ?_⟩
    rw [Bitmap.testBit_not, Bool.not_eq_true']
    exact Bool.eq_false_of_not_eq_true hclear
  cases found with
  | none => exact hnext k hle hhit
  | some found =>
      rw [hsame] at hlt
      exact hnext.2.2 k hle hlt hhit

/-- The first id after those that share the digits from a level on. -/
theorem skip_eq (l id : ℕ) :
    (id ||| (1 <<< (idrBits * l) - 1)) + 1 = (id / 2 ^ (8 * l) + 1) * 2 ^ (8 * l) := by
  have hpos := Nat.two_pow_pos (8 * l)
  have hor : id ||| (2 ^ (8 * l) - 1) =
      2 ^ (8 * l) * (id / 2 ^ (8 * l)) + (2 ^ (8 * l) - 1) := by
    refine Nat.eq_of_testBit_eq fun k => ?_
    have hlast : 2 ^ (8 * l) - 1 < 2 ^ (8 * l) := by omega
    rw [Nat.testBit_or, Nat.testBit_two_pow_sub_one, Nat.testBit_two_pow_mul_add _ hlast,
      Nat.testBit_two_pow_sub_one]
    split
    · rename_i hk
      simp [hk]
    · rename_i hk
      rw [← Nat.shiftRight_eq_div_pow, Nat.testBit_shiftRight]
      have hsum : 8 * l + (k - 8 * l) = k := by omega
      simp [hk, hsum]
  rw [Nat.shiftLeft_eq, Nat.one_mul]
  show (id ||| (2 ^ (8 * l) - 1)) + 1 = _
  rw [hor]
  generalize 2 ^ (8 * l) = size at hpos
  rw [Nat.add_one_mul, Nat.mul_comm]
  omega

/-- Ids in order have digits in order where they differ first. -/
theorem digit_le_digit (hle : id ≤ other)
    (hsame : id / 2 ^ (8 * (l + 1)) = other / 2 ^ (8 * (l + 1))) : digit l id ≤ digit l other := by
  have hdiv := Nat.div_le_div_right (c := 2 ^ (8 * l)) hle
  rw [div_eq_digit l id, div_eq_digit l other, hsame] at hdiv
  omega

theorem shiftRight_eq_iff (l id other : ℕ) :
    id >>> (idrBits * l) = other >>> (idrBits * l) ↔ id / 2 ^ (8 * l) = other / 2 ^ (8 * l) := by
  rw [Nat.shiftRight_eq_div_pow, Nat.shiftRight_eq_div_pow]
  exact Iff.rfl

/-- What the id becomes when the search goes on at the slot `m`. -/
theorem advance_between (hm : digit l id ≤ m) (hlt : m < idrSize) :
    let next := if m ≠ digit l id then
      ((id >>> (idrBits * l)) ^^^ digit l id ^^^ m) <<< (idrBits * l) else id
    id ≤ next ∧ next / 2 ^ (8 * (l + 1)) = id / 2 ^ (8 * (l + 1)) ∧ digit l next = m ∧
      ∀ k, id ≤ k → k < next →
        k / 2 ^ (8 * (l + 1)) = id / 2 ^ (8 * (l + 1)) ∧ digit l id ≤ digit l k ∧ digit l k < m := by
  dsimp only
  obtain ⟨hdigit, hsame⟩ := @advance_id _ _ l id rfl hlt
  rw [shiftRight_eq_iff] at hsame
  by_cases heq : m = digit l id
  · rw [if_neg (not_not.mpr heq)]
    refine ⟨le_rfl, rfl, heq.symm, fun k hle hk => absurd hle (not_le.mpr hk)⟩
  · rw [if_pos heq] at hdigit hsame ⊢
    generalize hnext : ((id >>> (idrBits * l)) ^^^ digit l id ^^^ m) <<< (idrBits * l) = next at *
    -- the digits below the slot are zero
    have hzero : next = next / 2 ^ (8 * l) * 2 ^ (8 * l) := by
      rw [← hnext, Nat.shiftLeft_eq]
      show _ * 2 ^ (8 * l) = _ * 2 ^ (8 * l) / 2 ^ (8 * l) * 2 ^ (8 * l)
      rw [Nat.mul_div_cancel _ (Nat.two_pow_pos _)]
    have hid := div_eq_digit l id
    have hnextdiv := div_eq_digit l next
    rw [hsame, hdigit] at hnextdiv
    have hgt : id / 2 ^ (8 * l) < next / 2 ^ (8 * l) := by omega
    have hle : id < next := by
      by_contra hnot
      exact absurd (Nat.div_le_div_right (c := 2 ^ (8 * l)) (not_lt.mp hnot)) (not_le.mpr hgt)
    refine ⟨hle.le, hsame, hdigit, fun k hk hkn => ?_⟩
    have hhigh : k / 2 ^ (8 * (l + 1)) = id / 2 ^ (8 * (l + 1)) := by
      have hlow := Nat.div_le_div_right (c := 2 ^ (8 * (l + 1))) hk
      have hup := Nat.div_le_div_right (c := 2 ^ (8 * (l + 1))) hkn.le
      omega
    refine ⟨hhigh, digit_le_digit hk hhigh.symm, ?_⟩
    have hkdiv := div_eq_digit l k
    have hklt : k / 2 ^ (8 * l) < next / 2 ^ (8 * l) :=
      (Nat.div_lt_iff_lt_mul (Nat.two_pow_pos _)).mpr (hzero ▸ hkn)
    rw [hhigh] at hkdiv
    omega

/-! ### Trees in which the same is stored -/

/-- The second tree has the leaves of the first, maybe more of them, and stores the same. -/
structure Extends (l : ℕ) (p p' : Slot P) : Prop where
  stored : ∀ k, lookup k l p' = lookup k l p
  leaf : ∀ k node ary, leafAt k l p = some (node, ary) → leafAt k l p' = some (node, ary)

theorem Extends.refl (l : ℕ) (p : Slot P) : Extends l p p :=
  ⟨fun _ => rfl, fun _ _ _ hleaf => hleaf⟩

theorem Extends.trans {p' p'' : Slot P} (h : Extends l p p') (hnext : Extends l p' p'') :
    Extends l p p'' where
  stored k := (hnext.stored k).trans (h.stored k)
  leaf k node ary hleaf := hnext.leaf k node ary (h.leaf k node ary hleaf)

/-- A tree in which nothing is stored takes the place of an empty slot. -/
theorem Extends.of_null {p' : Slot P} (hnone : ∀ k, lookup k l p' = none) :
    Extends l .null p' where
  stored k := (hnone k).trans (lookup_null k l).symm
  leaf k node ary hleaf := by
    rw [leafAt_null] at hleaf
    cases hleaf

/-- A layer with another counter and another bitmap, in which a child has been extended. -/
theorem Extends.update {node' : Layer} {child' : Slot P} (h : Extends l (ary m) child') :
    Extends (l + 1) (.layer node ary) (.layer node' (Function.update ary m child')) where
  stored k := by
    rw [lookup_succ, lookup_succ]
    by_cases hdigit : digit (l + 1) k = m
    · rw [hdigit, Function.update_self]
      exact h.stored k
    · rw [Function.update_of_ne hdigit]
  leaf k leaf slots hleaf := by
    rw [leafAt_succ] at hleaf ⊢
    by_cases hdigit : digit (l + 1) k = m
    · rw [hdigit] at hleaf
      rw [hdigit, Function.update_self]
      exact h.leaf k leaf slots hleaf
    · rwa [Function.update_of_ne hdigit]

theorem Extends.plug {p' : Slot P} (h : Extends l p p') (frame : Frame P) :
    Extends (l + 1) (frame.plug p) (frame.plug p') := by
  have hself : Extends l (Function.update frame.ary frame.m p frame.m) p' := by
    rwa [Function.update_self]
  have hupdate : Extends (l + 1) (.layer frame.node _) (.layer frame.node _) := hself.update
  rwa [Function.update_idem] at hupdate

theorem Extends.plugAll {p' : Slot P} (h : Extends l p p') (hlength : l + pa.length + 1 = layers) :
    Extends (layers - 1) (plugAll p pa) (plugAll p' pa) := by
  induction pa generalizing l p p' with
  | nil =>
      obtain rfl : l + 1 = layers := hlength
      exact h
  | cons frame rest ih =>
      refine ih (h.plug frame) ?_
      rw [List.length_cons] at hlength
      omega

theorem PathOk.length (h : PathOk layers l pa) : l + pa.length + 1 = layers := by
  induction pa generalizing l with
  | nil => exact h
  | cons frame rest ih =>
      have hrest := ih h.2
      rw [List.length_cons]
      omega

/-- The ids of a layer on the path are given out in the tree if they are in the layer. -/
theorem allocated_plugAll (hpath : OnPath id l pa) (hlength : l + pa.length + 1 = layers) :
    allocated id (layers - 1) (plugAll p pa) = allocated id l p := by
  induction pa generalizing l p with
  | nil =>
      obtain rfl : l + 1 = layers := hlength
      rfl
  | cons frame rest ih =>
      rw [List.length_cons] at hlength
      rw [plugAll, ih hpath.2 (by omega)]
      show allocated id l (Function.update frame.ary frame.m p (digit (l + 1) id)) = _
      rw [← hpath.1, Function.update_self]

/-! ### Layers in their place -/

/-- A layer of level `l + 1` is where it says it is, apart from the child at the slot `m`. -/
def FramePlaced (l base : ℕ) (frame : Frame P) : Prop :=
  frame.node.layer = l + 1 ∧ ∀ n < idrSize, n ≠ frame.m → frame.ary n = .null ∨
    (Placed l (base * 2 ^ 8 + n) (frame.ary n) ∧ (base * 2 ^ 8 + n) * 2 ^ (8 * (l + 1)) < 2 ^ 31)

/-- So are the layers above a layer of level `l` for the id. -/
def PlacedPath (id : ℕ) : ℕ → List (Frame P) → Prop
  | _, [] => True
  | l, frame :: rest => FramePlaced l (id / 2 ^ (8 * (l + 2))) frame ∧ PlacedPath id (l + 1) rest

theorem div_congr {k : ℕ} (hsame : id / 2 ^ (8 * l) = other / 2 ^ (8 * l)) (hle : l ≤ k) :
    id / 2 ^ (8 * k) = other / 2 ^ (8 * k) := by
  obtain ⟨more, rfl⟩ := Nat.exists_eq_add_of_le hle
  rw [Nat.mul_add, pow_add, ← Nat.div_div_eq_div_mul, ← Nat.div_div_eq_div_mul, hsame]

theorem PlacedPath.congr (h : PlacedPath id l pa)
    (hsame : id / 2 ^ (8 * (l + 1)) = other / 2 ^ (8 * (l + 1))) : PlacedPath other l pa := by
  induction pa generalizing l with
  | nil => trivial
  | cons frame rest ih =>
      have hnext := div_congr (k := l + 2) hsame (Nat.le_succ _)
      exact ⟨hnext ▸ h.1, ih h.2 hnext⟩

theorem FramePlaced.plug (h : FramePlaced l (id / 2 ^ (8 * (l + 2))) frame)
    (hdigit : frame.m = digit (l + 1) id) (hid : id < 2 ^ 31)
    (hchild : Placed l (id / 2 ^ (8 * (l + 1))) child) :
    Placed (l + 1) (id / 2 ^ (8 * (l + 2))) (frame.plug child) := by
  refine ⟨h.1, fun n hn => ?_⟩
  by_cases heq : n = frame.m
  · rw [heq, Function.update_self, hdigit, ← div_eq_digit (l + 1) id]
    exact Or.inr ⟨hchild, (Nat.div_mul_le_self _ _).trans_lt hid⟩
  · rw [Function.update_of_ne heq]
    exact h.2 n hn heq

theorem PlacedPath.plugAll (h : PlacedPath id l pa) (hpath : OnPath id l pa) (hid : id < 2 ^ 31)
    (hlength : l + pa.length + 1 = layers) (hchild : Placed l (id / 2 ^ (8 * (l + 1))) child) :
    Placed (layers - 1) (id / 2 ^ (8 * layers)) (plugAll child pa) := by
  induction pa generalizing l child with
  | nil =>
      obtain rfl : l + 1 = layers := hlength
      exact hchild
  | cons frame rest ih =>
      rw [List.length_cons] at hlength
      exact ih h.2 hpath.2 (by omega) (h.1.plug hpath.1 hid hchild)

/-- A layer in its place is a frame for any child of it. -/
theorem Placed.framePlaced (h : Placed (l + 1) base (.layer node ary)) (node' : Layer)
    (hlayer : node'.layer = node.layer) (m : ℕ) : FramePlaced l base ⟨node', ary, m⟩ :=
  ⟨hlayer.trans h.1, fun n hn _ => h.2 n hn⟩

/-- A layer that has just been allocated is in its place. -/
theorem Placed.of_null (l : ℕ) (hid : id < 2 ^ 31) :
    Placed l (id / 2 ^ (8 * (l + 1)))
      (.layer { node with layer := l, idPrefix := layerPrefix id l } fun _ => .null : Slot P) := by
  cases l with
  | zero =>
      refine ⟨rfl, ?_, fun _ _ => rfl⟩
      refine (prefix_eq_iff hid).mpr ?_
      rw [BitVec.toNat_ofNat, Nat.mod_eq_of_lt (hid.trans (by decide))]
  | succ l => exact ⟨rfl, fun _ _ => Or.inl rfl⟩

theorem lookup_of_nulls (hbits : ∀ n, testBit n node.bitmap = false) (k l : ℕ) :
    lookup k l (.layer node fun _ => .null : Slot P) = none := by
  cases l with
  | zero =>
      rw [lookup, hbits]
      rfl
  | succ l => exact lookup_null k l

/-! ### Memory -/

/-- At most so many layers have been allocated, none of them in vain. -/
def Took (most : ℕ) (memory memory' : Memory) : Prop :=
  ∃ taken ≤ most, memory.outcomes = List.replicate taken true ++ memory'.outcomes

/-- One of the first `most` allocations fails. -/
def RunsOut (most : ℕ) (memory : Memory) : Prop := ∃ n < most, memory.outcomes[n]? ≠ some true

theorem Took.refl (most : ℕ) (memory : Memory) : Took most memory memory :=
  ⟨0, Nat.zero_le most, rfl⟩

theorem Took.mono {first second : ℕ} (h : Took first memory memory') (hle : first ≤ second) :
    Took second memory memory' :=
  h.imp fun _ hcount => ⟨hcount.1.trans hle, hcount.2⟩

theorem RunsOut.mono {first second : ℕ} (h : RunsOut first memory) (hle : first ≤ second) :
    RunsOut second memory :=
  h.imp fun _ hn => ⟨hn.1.trans_le hle, hn.2⟩

theorem Took.trans {first second : ℕ} {memory'' : Memory} (h : Took first memory memory')
    (hnext : Took second memory' memory'') : Took (first + second) memory memory'' := by
  obtain ⟨taken, hle, houtcomes⟩ := h
  obtain ⟨more, hmore, houtcomes'⟩ := hnext
  refine ⟨taken + more, Nat.add_le_add hle hmore, ?_⟩
  rw [houtcomes, houtcomes', ← List.append_assoc, List.replicate_append_replicate]

theorem Took.runsOut {first second : ℕ} (h : Took first memory memory')
    (hnext : RunsOut second memory') : RunsOut (first + second) memory := by
  obtain ⟨taken, hle, houtcomes⟩ := h
  obtain ⟨n, hn, hfails⟩ := hnext
  refine ⟨taken + n, by omega, ?_⟩
  rw [houtcomes, List.getElem?_append_right (by simp)]
  simpa using hfails

theorem RunsOut.of_none (hcall : idrLayerAlloc memory = (none, memory')) : RunsOut 1 memory := by
  refine ⟨0, Nat.one_pos, fun hfirst => ?_⟩
  rw [← List.head?_eq_getElem?] at hfirst
  unfold idrLayerAlloc at hcall
  split at hcall
  · cases (Prod.mk.inj hcall).1
  · rename_i rest houtcomes
    rw [houtcomes] at hfirst
    cases hfirst
  · rename_i houtcomes
    rw [houtcomes] at hfirst
    cases hfirst

theorem Took.of_some {new : Layer} (hcall : idrLayerAlloc memory = (some new, memory')) :
    Took 1 memory memory' := by
  refine ⟨1, le_rfl, ?_⟩
  unfold idrLayerAlloc at hcall
  split at hcall
  · rename_i rest houtcomes
    rw [← (Prod.mk.inj hcall).2]
    exact houtcomes
  · cases (Prod.mk.inj hcall).1
  · cases (Prod.mk.inj hcall).1

/-! ### The way down through new layers -/

theorem findNextZeroBit_self {addr : Words} (hn : n < idrSize) (hfree : testBit n addr = false) :
    findNextZeroBit addr idrSize n = n := by
  have hle : n ≤ findNextZeroBit addr idrSize n := by
    obtain hlt | heq := (findNextZeroBit_le addr idrSize n).lt_or_eq
    · exact (findNextZeroBit_spec addr idrSize n hlt).1
    · omega
  refine (hle.lt_or_eq.resolve_left fun hlt => ?_).symm
  rw [findNextZeroBit_passed addr le_rfl hlt] at hfree
  cases hfree

/-- What the search ends with that has come to an empty layer: the id that it has got to, unless
there is no memory for one of the layers below. -/
def SubAlloc.Lands (layers id l : ℕ) (top : Slot P) (memory : Memory) : SubAlloc P → Prop
  | .found leaf ary pa next memory' =>
      next = id ∧ Took l memory memory' ∧
        Extends (layers - 1) top (plugAll (.layer leaf ary) pa) ∧
        Placed 0 (id / 2 ^ 8) (.layer leaf ary) ∧ PlacedPath id 0 pa
  | .failed top' .enomem _ =>
      RunsOut l memory ∧ Extends (layers - 1) top top' ∧
        Placed (layers - 1) (id / 2 ^ (8 * layers)) top'
  | _ => False

/-- **Through new layers the search goes straight down.**  Induction on the level. -/
theorem subAllocLoop_lands {rounds : ℕ} (hrounds : l < rounds)
    (hbits : ∀ n, testBit n node.bitmap = false) (hid : id < 2 ^ 31)
    (hplaced : Placed l (id / 2 ^ (8 * (l + 1))) (.layer node fun _ => .null : Slot P))
    (hframes : PlacedPath id l pa) (hpath : OnPath id l pa)
    (hlength : l + pa.length + 1 = layers) :
    ∃ result, subAllocLoop layers rounds (.layer node fun _ => .null) pa l id memory = some result ∧
      result.Lands layers id l (plugAll (.layer node fun _ => .null) pa) memory := by
  induction l generalizing node pa rounds memory with
  | zero =>
      obtain ⟨rounds, rfl⟩ : ∃ more, rounds = more + 1 := ⟨rounds - 1, by omega⟩
      have hdigit := digit_lt 0 id
      have hbit : ¬ maxIdrBit ≤ id := not_le.mpr hid
      rw [subAllocLoop]
      dsimp only
      rw [findNextZeroBit_self hdigit (hbits _), if_neg hdigit.ne, if_neg (not_not.mpr rfl),
        if_neg hbit]
      exact ⟨_, rfl, rfl, .refl _ _, .refl _ _, hplaced, hframes⟩
  | succ l ih =>
      obtain ⟨rounds, rfl⟩ : ∃ more, rounds = more + 1 := ⟨rounds - 1, by omega⟩
      have hdigit := digit_lt (l + 1) id
      have hbit : ¬ maxIdrBit ≤ id := not_le.mpr hid
      rw [subAllocLoop]
      dsimp only
      rw [findNextZeroBit_self hdigit (hbits _), if_neg hdigit.ne, if_neg (not_not.mpr rfl),
        if_neg hbit]
      cases hcall : idrLayerAlloc memory with
      | mk new memory' =>
          cases new with
          | none =>
              exact ⟨_, rfl, (RunsOut.of_none hcall).mono (Nat.le_add_left 1 l), .refl _ _,
                hframes.plugAll hpath hid hlength hplaced⟩
          | some new =>
              obtain ⟨-, -, -, hnew⟩ := idrLayerAlloc_some hcall
              let child : Layer := { new with layer := l, idPrefix := layerPrefix id l }
              let frame : Frame P :=
                ⟨{ node with count := node.count + 1 }, fun _ => .null, digit (l + 1) id⟩
              have hframe : FramePlaced l (id / 2 ^ (8 * (l + 2))) frame :=
                hplaced.framePlaced _ rfl _
              have hlength' : l + (frame :: pa).length + 1 = layers := by
                rw [List.length_cons]
                omega
              obtain ⟨result, hresult, hlands⟩ := @ih child (frame :: pa) memory' rounds
                (by omega) hnew (.of_null l hid) ⟨hframe, hframes⟩ ⟨rfl, hpath⟩ hlength'
              refine ⟨result, hresult, ?_⟩
              have hextends : Extends (layers - 1) (plugAll (.layer node fun _ => .null) pa)
                  (plugAll (.layer child fun _ => .null) (frame :: pa)) := by
                have hnull : Extends l ((fun _ => .null : ℕ → Slot P) (digit (l + 1) id))
                    (.layer child fun _ => .null) :=
                  .of_null fun k => @lookup_of_nulls _ child hnew k l
                exact hnull.update.plugAll hlength
              cases result with
              | found leaf slots pa' next memory'' =>
                  obtain ⟨hnext, htook, hleaf, hrest⟩ := hlands
                  exact ⟨hnext, ((Took.of_some hcall).trans htook).mono (Nat.add_comm 1 l).le,
                    hextends.trans hleaf, hrest⟩
              | again top next memory'' => exact hlands.elim
              | failed top error memory'' =>
                  cases error with
                  | einval => exact hlands.elim
                  | enospc => exact hlands.elim
                  | enomem =>
                      obtain ⟨hshort, htop, hin⟩ := hlands
                      exact ⟨((Took.of_some hcall).runsOut hshort).mono (Nat.add_comm 1 l).le,
                        hextends.trans htop, hin⟩

/-! ### The search -/

/-- What the loop of `sub_alloc` is at, as long as it has not added a layer to the tree `top`. -/
structure SearchAt (layers : ℕ) (top p : Slot P) (pa : List (Frame P)) (l id : ℕ) : Prop where
  layerOk : LayerOk l p
  full : pa = [] ∨ p.full = false
  placed : Placed l (id / 2 ^ (8 * (l + 1))) p
  path : PathOk layers l pa
  onPath : OnPath id l pa
  frames : PlacedPath id l pa
  tree : plugAll p pa = top
  lt : id < 2 ^ (8 * layers)
  /-- the smallest number that is too large is met at the top only -/
  bound : id < 2 ^ 31 ∨ (id = 2 ^ 31 ∧ l = 3)
  le_four : layers ≤ 4

variable {top : Slot P}

/-- A tree that the search starts at. -/
structure Searchable (layers : ℕ) (top : Slot P) : Prop where
  pos : 0 < layers
  le_four : layers ≤ 4
  layerOk : LayerOk (layers - 1) top
  placed : Placed (layers - 1) 0 top

theorem Searchable.searchAt (h : Searchable layers top) (hlt : id < 2 ^ (8 * layers))
    (hbound : id < 2 ^ 31 ∨ (id = 2 ^ 31 ∧ layers = 4)) :
    SearchAt layers top top [] (layers - 1) id where
  layerOk := h.layerOk
  full := Or.inl rfl
  placed := by
    rw [Nat.sub_add_cancel h.pos, Nat.div_eq_of_lt hlt]
    exact h.placed
  path := Nat.sub_add_cancel h.pos
  onPath := trivial
  frames := trivial
  tree := rfl
  lt := hlt
  bound := hbound.imp_right fun ⟨hid, hlayers⟩ => ⟨hid, by omega⟩
  le_four := h.le_four

/-- **What `sub_alloc` ends with**, from an id on: the least id that is free, no such id in a tree
that can grow, none at all, or no memory for one of the layers on the way to it. -/
def SubAlloc.Reaches (layers id : ℕ) (top : Slot P) (memory : Memory) : SubAlloc P → Prop
  | .found leaf ary pa next memory' =>
      (id ≤ next ∧ next < 2 ^ 31 ∧ next < 2 ^ (8 * layers)) ∧ Took (layers - 1) memory memory' ∧
        (∀ k, id ≤ k → k < next → allocated k (layers - 1) top = true) ∧
        Extends (layers - 1) top (plugAll (.layer leaf ary) pa) ∧
        Placed 0 (next / 2 ^ 8) (.layer leaf ary) ∧ PlacedPath next 0 pa
  | .again top' next memory' =>
      (top' = top ∧ memory' = memory ∧ next = 2 ^ (8 * layers) ∧ layers ≤ 3) ∧
        ∀ k, id ≤ k → k < next → allocated k (layers - 1) top = true
  | .failed top' .enospc memory' =>
      (top' = top ∧ memory' = memory ∧ layers = 4) ∧
        ∀ k, id ≤ k → k < 2 ^ 31 → allocated k (layers - 1) top = true
  | .failed top' .enomem _ =>
      RunsOut (layers - 1) memory ∧ Extends (layers - 1) top top' ∧ Placed (layers - 1) 0 top'
  | .failed _ .einval _ => False

/-- The ids before the one that the search has got to are in use. -/
theorem SubAlloc.Reaches.from {result : SubAlloc P} (h : result.Reaches layers other top memory)
    (hle : id ≤ other)
    (hused : ∀ k, id ≤ k → k < other → allocated k (layers - 1) top = true) :
    result.Reaches layers id top memory := by
  have hall : ∀ {last}, (∀ k, other ≤ k → k < last → allocated k (layers - 1) top = true) →
      ∀ k, id ≤ k → k < last → allocated k (layers - 1) top = true := by
    intro last hrest k hk hlast
    obtain hbefore | hafter := lt_or_ge k other
    · exact hused k hk hbefore
    · exact hrest k hafter hlast
  cases result with
  | found leaf ary pa next memory' =>
      exact ⟨⟨hle.trans h.1.1, h.1.2⟩, h.2.1, hall h.2.2.1, h.2.2.2⟩
  | again top' next memory' => exact ⟨h.1, hall h.2⟩
  | failed top' error memory' =>
      cases error with
      | einval => exact h.elim
      | enospc => exact ⟨h.1, hall h.2⟩
      | enomem => exact h

/-- The ids of a layer whose digit is that of a full slot are in use. -/
theorem SearchAt.used {k : ℕ} (h : SearchAt layers top (.layer node ary) pa l id)
    (hsame : k / 2 ^ (8 * (l + 1)) = id / 2 ^ (8 * (l + 1)))
    (hbit : testBit (digit l k) node.bitmap = true) : allocated k (layers - 1) top = true := by
  have honPath : OnPath k l pa :=
    h.onPath.congr ((shiftRight_eq_iff (l + 1) id k).mpr hsame.symm)
  rw [← h.tree, allocated_plugAll honPath h.path.length]
  have hok := h.layerOk
  cases l with
  | zero => exact hbit
  | succ l =>
      obtain ⟨hchild, hfull⟩ := hok.2 _ (digit_lt (l + 1) k)
      rw [hbit] at hfull
      refine (hchild.resolve_left fun hnull => ?_).allocated_of_full hfull.symm k
      rw [hnull] at hfull
      cases hfull

/-- The slots of the top from which ids would be too large are free. -/
theorem SearchAt.free_top (h : SearchAt layers top (.layer node ary) pa 3 id) (hn : n < idrSize)
    (hle : 128 ≤ n) : testBit n node.bitmap = false ∧ ary n = .null := by
  have hbase : id / 2 ^ (8 * (3 + 1)) = 0 := by
    refine Nat.div_eq_of_lt (h.lt.trans_le ?_)
    exact Nat.pow_le_pow_right (by decide) (Nat.mul_le_mul_left 8 h.le_four)
  have hplaced := h.placed
  rw [hbase] at hplaced
  have hnull : ary n = .null := by
    refine (hplaced.2 n hn).resolve_right fun ⟨_, hlt⟩ => ?_
    have hpow : (2 : ℕ) ^ 31 = 128 * 2 ^ (8 * (2 + 1)) := by decide
    rw [Nat.zero_mul, Nat.zero_add, hpow] at hlt
    have := Nat.lt_of_mul_lt_mul_right hlt
    omega
  refine ⟨?_, hnull⟩
  rw [(h.layerOk.2 n hn).2, hnull]
  rfl

/-- **A layer without a free slot** is skipped: its ids from `id` on are in use.  It is not the top of
a tree that cannot grow, whose last slots are free. -/
theorem SearchAt.skip (h : SearchAt layers top (.layer node ary) pa l id)
    (hfull : findNextZeroBit node.bitmap idrSize (digit l id) = idrSize) :
    l ≤ 2 ∧ id < 2 ^ 31 ∧
      ∀ k, id ≤ k → k < (id / 2 ^ (8 * (l + 1)) + 1) * 2 ^ (8 * (l + 1)) →
        allocated k (layers - 1) top = true := by
  have hset : ∀ n < idrSize, digit l id ≤ n → testBit n node.bitmap = true :=
    fun n hn hle => findNextZeroBit_passed node.bitmap hle (hfull.symm ▸ hn)
  have hlevel : l ≤ 2 := by
    have hlt := h.path.lt
    have hfour := h.le_four
    by_contra hnot
    obtain rfl : l = 3 := by omega
    have hle : digit 3 id ≤ 255 := Nat.le_of_lt_succ (digit_lt 3 id)
    have hlast := hset 255 (by decide) hle
    rw [(h.free_top (by decide) (by decide)).1] at hlast
    cases hlast
  refine ⟨hlevel, h.bound.resolve_right (by omega), fun k hk hlt => ?_⟩
  have hsame : k / 2 ^ (8 * (l + 1)) = id / 2 ^ (8 * (l + 1)) := by
    have hlow := Nat.div_le_div_right (c := 2 ^ (8 * (l + 1))) hk
    have hup := (Nat.div_lt_iff_lt_mul (Nat.two_pow_pos _)).mpr hlt
    omega
  exact h.used hsame (hset _ (digit_lt l k) (digit_le_digit hk hsame.symm))

/-- A child that has room is gone down to. -/
theorem SearchAt.down (h : SearchAt layers top (.layer node ary) pa (l + 1) id)
    (hm : m < idrSize) (hbit : testBit m node.bitmap = false) (hsome : ary m ≠ .null)
    (hdigit : digit (l + 1) other = m)
    (hsame : other / 2 ^ (8 * (l + 2)) = id / 2 ^ (8 * (l + 2))) (hlt : other < 2 ^ 31) :
    SearchAt layers top (ary m) (⟨node, ary, m⟩ :: pa) l other where
  layerOk := (h.layerOk.2 m hm).1.resolve_left hsome
  full := Or.inr ((h.layerOk.2 m hm).2.symm.trans hbit)
  placed := by
    rw [div_eq_digit, hdigit, hsame]
    exact ((h.placed.2 m hm).resolve_left hsome).1
  path := ⟨h.layerOk.frameOk hm hsome hbit fun _ _ _ => rfl, h.path⟩
  onPath := ⟨hdigit.symm, h.onPath.congr ((shiftRight_eq_iff (l + 2) id other).mpr hsame.symm)⟩
  frames := ⟨hsame ▸ h.placed.framePlaced node rfl m, h.frames.congr hsame.symm⟩
  tree := by
    show plugAll (.layer node (Function.update ary m (ary m))) pa = top
    rw [Function.update_eq_self]
    exact h.tree
  lt := by
    have hcover : other / 2 ^ (8 * layers) = id / 2 ^ (8 * layers) := div_congr hsame h.path.lt
    rw [Nat.div_eq_of_lt h.lt, Nat.div_eq_zero_iff] at hcover
    exact hcover.resolve_left (Nat.two_pow_pos _).ne'
  bound := Or.inl hlt
  le_four := h.le_four

/-- The layer above is gone back to. -/
theorem SearchAt.up (h : SearchAt layers top p (frame :: pa) l id) (hlevel : l ≤ 2)
    (hid : id < 2 ^ 31) (hle : other ≤ 2 ^ 31)
    (hsame : id / 2 ^ (8 * (l + 2)) = other / 2 ^ (8 * (l + 2))) :
    SearchAt layers top (frame.plug p) pa (l + 1) other where
  layerOk := h.path.1.plug h.layerOk (h.full.resolve_left (List.cons_ne_nil _ _))
  full := Or.inr h.path.1.plug_full
  placed := by
    rw [← hsame]
    exact h.frames.1.plug h.onPath.1 hid h.placed
  path := h.path.2
  onPath := h.onPath.2.congr ((shiftRight_eq_iff (l + 2) id other).mpr hsame)
  frames := h.frames.2.congr hsame
  tree := h.tree
  lt := by
    have hcover : id / 2 ^ (8 * layers) = other / 2 ^ (8 * layers) := div_congr hsame h.path.2.lt
    rw [Nat.div_eq_of_lt h.lt, eq_comm, Nat.div_eq_zero_iff] at hcover
    exact hcover.resolve_left (Nat.two_pow_pos _).ne'
  bound := by
    refine (Nat.lt_or_eq_of_le hle).imp_right fun heq => ⟨heq, ?_⟩
    by_contra hnot
    have hpow : (2 : ℕ) ^ 31 = 2 ^ (31 - 8 * (l + 2)) * 2 ^ (8 * (l + 2)) := by
      rw [← pow_add]
      congr 1
      omega
    rw [heq, hpow, Nat.mul_div_cancel _ (Nat.two_pow_pos _)] at hsame
    have hlt := (Nat.div_lt_iff_lt_mul (Nat.two_pow_pos (8 * (l + 2)))).mpr (hpow ▸ hid)
    omega
  le_four := h.le_four

/-- The first id that is skipped to, and what the tree has room for. -/
theorem SearchAt.skip_le (h : SearchAt layers top p pa l id) (hlevel : l ≤ 2) (hid : id < 2 ^ 31) :
    id < (id / 2 ^ (8 * (l + 1)) + 1) * 2 ^ (8 * (l + 1)) ∧
      (id / 2 ^ (8 * (l + 1)) + 1) * 2 ^ (8 * (l + 1)) ≤ 2 ^ 31 ∧
      (id / 2 ^ (8 * (l + 1)) + 1) * 2 ^ (8 * (l + 1)) ≤ 2 ^ (8 * layers) := by
  have hpos := Nat.two_pow_pos (8 * (l + 1))
  have hfits : ∀ {bits}, 8 * (l + 1) ≤ bits → id < 2 ^ bits →
      (id / 2 ^ (8 * (l + 1)) + 1) * 2 ^ (8 * (l + 1)) ≤ 2 ^ bits := by
    intro bits hbits hlt
    have hpow : (2 : ℕ) ^ bits = 2 ^ (bits - 8 * (l + 1)) * 2 ^ (8 * (l + 1)) := by
      rw [← pow_add, Nat.sub_add_cancel hbits]
    rw [hpow] at hlt ⊢
    exact Nat.mul_le_mul_right _ ((Nat.div_lt_iff_lt_mul hpos).mpr hlt)
  refine ⟨?_, hfits (by omega) hid, hfits (Nat.mul_le_mul_left 8 h.path.lt) h.lt⟩
  exact Nat.lt_mul_of_div_lt (Nat.lt_succ_self _) hpos

theorem le_idrMax_of_not_above (hnot : ¬ above id layers = true) (hlt : id < 2 ^ 31) :
    id ≤ idrMax layers := by
  have hbit : maxIdrBit = 2 ^ 31 := rfl
  unfold above at hnot
  rw [Bool.and_eq_true, decide_eq_true_eq, decide_eq_true_eq, hbit] at hnot
  omega

theorem idrMax_lt_pow (layers : ℕ) : idrMax layers < 2 ^ (8 * layers) := by
  unfold idrMax
  rw [Nat.shiftLeft_eq, Nat.one_mul, Nat.mul_comm]
  have hle : 2 ^ min (idrBits * layers) maxIdrShift ≤ 2 ^ (8 * layers) :=
    Nat.pow_le_pow_right (by decide) (Nat.min_le_left _ _)
  have hpos := Nat.two_pow_pos (min (idrBits * layers) maxIdrShift)
  omega

/-- An id that is too large for the tree, but no larger than what comes right after its ids. -/
theorem eq_of_above (habove : above id layers = true) (hle : id ≤ 2 ^ (8 * layers)) :
    id = 2 ^ (8 * layers) ∧ layers ≤ 3 := by
  have hlayers := above_lt habove
  have hmax := idrMax_eq (show layers ≤ 3 by omega)
  have hpos := Nat.two_pow_pos (8 * layers)
  unfold above at habove
  rw [Bool.and_eq_true, decide_eq_true_eq, decide_eq_true_eq] at habove
  omega

/-- **An empty slot** gets a layer, and those below it. -/
theorem SearchAt.land {rounds : ℕ} {new : Layer}
    (h : SearchAt layers top (.layer node ary) pa (l + 1) id) (hnull : ary m = .null)
    (hdigit : digit (l + 1) other = m)
    (hsame : other / 2 ^ (8 * (l + 2)) = id / 2 ^ (8 * (l + 2))) (hlt : other < 2 ^ 31)
    (hcall : idrLayerAlloc memory = (some new, memory')) (hrounds : l < rounds) :
    ∃ result, subAllocLoop layers rounds
        (.layer { new with layer := l, idPrefix := layerPrefix other l } fun _ => .null)
        (⟨{ node with count := node.count + 1 }, ary, m⟩ :: pa) l other memory' = some result ∧
      result.Reaches layers other top memory := by
  obtain ⟨-, -, -, hbits⟩ := idrLayerAlloc_some hcall
  have hlevel := h.path.lt
  have hcover : other / 2 ^ (8 * layers) = 0 := by
    rw [div_congr hsame hlevel, Nat.div_eq_of_lt h.lt]
  have hfits : other < 2 ^ (8 * layers) :=
    (Nat.div_eq_zero_iff.mp hcover).resolve_left (Nat.two_pow_pos _).ne'
  let child : Layer := { new with layer := l, idPrefix := layerPrefix other l }
  let frame : Frame P := ⟨{ node with count := node.count + 1 }, ary, m⟩
  have hframe : FramePlaced l (other / 2 ^ (8 * (l + 2))) frame :=
    hsame ▸ h.placed.framePlaced _ rfl m
  have hlength := h.path.length
  have hlength' : l + (frame :: pa).length + 1 = layers := by
    rw [List.length_cons]
    omega
  have honPath : OnPath other (l + 1) pa :=
    h.onPath.congr ((shiftRight_eq_iff (l + 2) id other).mpr hsame.symm)
  obtain ⟨result, hresult, hlands⟩ := @subAllocLoop_lands _ _ _ _ child (frame :: pa) memory' rounds
    hrounds hbits hlt (.of_null l hlt) ⟨hframe, h.frames.congr hsame.symm⟩
    ⟨hdigit.symm, honPath⟩ hlength'
  refine ⟨result, hresult, ?_⟩
  have hextends : Extends (layers - 1) top (plugAll (.layer child fun _ => .null) (frame :: pa)) := by
    rw [← h.tree]
    have hslot : Extends l (ary m) (.layer child fun _ => .null) := by
      rw [hnull]
      exact .of_null fun k => @lookup_of_nulls _ child hbits k l
    exact hslot.update.plugAll hlength
  cases result with
  | found leaf slots pa' next memory'' =>
      obtain ⟨rfl, htook, hleaf, hplaced, hframes⟩ := hlands
      exact ⟨⟨le_rfl, hlt, hfits⟩, ((Took.of_some hcall).trans htook).mono (by omega),
        fun k hk hless => absurd hless (not_lt.mpr hk), hextends.trans hleaf, hplaced, hframes⟩
  | again top' next memory'' => exact hlands.elim
  | failed top' error memory'' =>
      cases error with
      | einval => exact hlands.elim
      | enospc => exact hlands.elim
      | enomem =>
          obtain ⟨hshort, htop, hplaced⟩ := hlands
          rw [hcover] at hplaced
          exact ⟨((Took.of_some hcall).runsOut hshort).mono (by omega), hextends.trans htop, hplaced⟩

/-- **The search ends**, with the least free id.  Induction on the rounds: every round gets to a
larger id, or to a lower layer. -/
theorem subAllocLoop_reaches {rounds : ℕ} (htop : Searchable layers top)
    (h : SearchAt layers top p pa l id) (hrounds : (2 ^ 31 - id) * 5 + l < rounds) :
    ∃ result, subAllocLoop layers rounds p pa l id memory = some result ∧
      result.Reaches layers id top memory := by
  induction rounds generalizing p pa l id with
  | zero => omega
  | succ rounds ih =>
      obtain ⟨node, ary, rfl⟩ := h.layerOk.exists_layer
      rw [subAllocLoop]
      dsimp only
      by_cases hfull : findNextZeroBit node.bitmap idrSize (digit l id) = idrSize
      · obtain ⟨hlevel, hid, hused⟩ := h.skip hfull
        obtain ⟨hgt, hmax, hcover⟩ := h.skip_le hlevel hid
        rw [if_pos hfull, skip_eq]
        generalize hnext : (id / 2 ^ (8 * (l + 1)) + 1) * 2 ^ (8 * (l + 1)) = next at *
        by_cases habove : above next layers = true
        · obtain ⟨heq, hless⟩ := eq_of_above habove hcover
          rw [if_pos habove]
          exact ⟨_, rfl, ⟨h.tree, rfl, heq, hless⟩, hused⟩
        · rw [if_neg habove]
          cases pa with
          | nil =>
              -- the ids of the top are all that there are
              exfalso
              have hlayers : l + 1 = layers := h.path
              have hzero := Nat.div_eq_of_lt h.lt
              rw [← hlayers] at hzero
              rw [hzero, Nat.zero_add, Nat.one_mul, hlayers] at hnext
              obtain hsmall | hbig := Nat.lt_or_ge next (2 ^ 31)
              · have hle := le_idrMax_of_not_above habove hsmall
                have hlt := idrMax_lt_pow layers
                omega
              · have hpow : (2 : ℕ) ^ (8 * layers) ≤ 2 ^ 24 :=
                  Nat.pow_le_pow_right (by decide) (by omega)
                have hless : (2 : ℕ) ^ 24 < 2 ^ 31 := by decide
                omega
          | cons frame rest =>
              dsimp only
              split
              · rename_i hsame
                rw [shiftRight_eq_iff] at hsame
                obtain ⟨result, hresult, hreaches⟩ :=
                  ih (h.up hlevel hid hmax hsame) (by omega)
                exact ⟨result, hresult, hreaches.from hgt.le hused⟩
              · have hfour := h.le_four
                have hfits : next < 2 ^ (8 * layers) := by
                  obtain hsmall | hbig := Nat.lt_or_ge next (2 ^ 31)
                  · exact (le_idrMax_of_not_above habove hsmall).trans_lt (idrMax_lt_pow layers)
                  · refine hcover.lt_of_ne fun heq => ?_
                    have hexp := Nat.pow_right_injective le_rfl ((hmax.antisymm hbig).symm.trans heq)
                    omega
                have hbound : next < 2 ^ 31 ∨ (next = 2 ^ 31 ∧ layers = 4) := by
                  refine (Nat.lt_or_eq_of_le hmax).imp_right fun heq => ⟨heq, ?_⟩
                  have hexp := (Nat.pow_lt_pow_iff_right Nat.one_lt_two).mp (heq ▸ hfits)
                  omega
                obtain ⟨result, hresult, hreaches⟩ := ih (htop.searchAt hfits hbound) (by omega)
                rw [h.tree]
                exact ⟨result, hresult, hreaches.from hgt.le hused⟩
      · have hm : findNextZeroBit node.bitmap idrSize (digit l id) < idrSize :=
          (findNextZeroBit_le _ _ _).lt_of_ne hfull
        obtain ⟨hdigit, hbit⟩ := findNextZeroBit_spec node.bitmap idrSize (digit l id) hm
        obtain ⟨hle, hsame, hnext, hbetween⟩ := advance_between hdigit hm
        have hpassed := fun k => @findNextZeroBit_passed (digit l id) node.bitmap k
        rw [if_neg hfull]
        generalize findNextZeroBit node.bitmap idrSize (digit l id) = m at *
        generalize (if m ≠ digit l id then
          ((id >>> (idrBits * l)) ^^^ digit l id ^^^ m) <<< (idrBits * l) else id) = next at *
        have hused : ∀ k, id ≤ k → k < next → allocated k (layers - 1) top = true := by
          intro k hk hlt
          obtain ⟨hhigh, hfrom, hto⟩ := hbetween k hk hlt
          exact h.used hhigh (hpassed _ hfrom hto)
        have hcover : next < 2 ^ (8 * layers) := by
          have hzero : next / 2 ^ (8 * layers) = id / 2 ^ (8 * layers) := div_congr hsame h.path.lt
          rw [Nat.div_eq_of_lt h.lt, Nat.div_eq_zero_iff] at hzero
          exact hzero.resolve_left (Nat.two_pow_pos _).ne'
        by_cases hbig : maxIdrBit ≤ next
        · rw [if_pos hbig]
          have hfour := h.le_four
          have hlarge : 2 ^ 31 < 2 ^ (8 * layers) := lt_of_le_of_lt hbig hcover
          have hexp := (Nat.pow_lt_pow_iff_right Nat.one_lt_two).mp hlarge
          exact ⟨_, rfl, ⟨h.tree, rfl, by omega⟩, fun k hk hlt => hused k hk (hlt.trans_le hbig)⟩
        · rw [if_neg hbig]
          replace hbig : next < 2 ^ 31 := not_le.mp hbig
          cases l with
          | zero =>
              refine ⟨_, rfl, ⟨hle, hbig, hcover⟩, .refl _ _, hused, h.tree ▸ .refl _ _, ?_,
                h.frames.congr hsame.symm⟩
              have hplaced := h.placed
              rw [← hsame] at hplaced
              exact hplaced
          | succ l =>
              obtain ⟨child, hchild⟩ : ∃ child, ary m = child := ⟨_, rfl⟩
              have hplaced := h.layerOk.2 m hm
              rw [hchild] at hplaced
              cases child with
              | ptr value =>
                  obtain ⟨_, _, hlayer⟩ :=
                    (hplaced.1.resolve_left fun hnull => by cases hnull).exists_layer
                  cases hlayer
              | layer new slots =>
                  have hsome : ary m ≠ .null := fun hnull => by cases hchild.symm.trans hnull
                  obtain ⟨result, hresult, hreaches⟩ :=
                    ih (h.down hm hbit hsome hnext hsame hbig) (by omega)
                  simp only [hchild] at hresult ⊢
                  exact ⟨result, hresult, hreaches.from hle hused⟩
              | null =>
                  simp only [hchild]
                  have hlevel := h.path.lt
                  cases hcall : idrLayerAlloc memory with
                  | mk new memory' =>
                      cases new with
                      | none =>
                          exact ⟨_, rfl, (RunsOut.of_none hcall).mono (by omega),
                            h.tree ▸ .refl _ _, h.tree ▸ htop.placed⟩
                      | some new =>
                          obtain ⟨hland, hlands⟩ := h.land hchild hnext hsame hbig hcall
                            (show l < rounds by omega)
                          exact ⟨hland, hlands.1, hlands.2.from hle hused⟩

end Webcamd.Kernel.IdrTree
