import Mathlib

/-!
# Heap sort

Sorting the first entries of an array in place, with the heap in the array itself.  An array is a
function, so that exchanging two of its entries is composing it with `Equiv.swap`.

* `siftDown` — an entry goes down as long as a child is larger; `siftDown_heap`: then all is a heap
  that was one before, but for this entry.
* `heapify`, `drain` — the two halves of `heapSort`.
* `heapSort_rearranges` — the entries are those that were there, **whatever the comparison says**.
* `heapSort_sorted` — they are in order, if the comparison is a strict weak order.
-/

namespace Webcamd.Library

universe u

variable {β : Type u}

section Definitions

variable (less : β → β → Prop) [DecidableRel less]

/-- The larger child of an entry that has one. -/
def largerChild (limit : ℕ) (a : ℕ → β) (r : ℕ) : ℕ :=
  if 2 * r + 2 < limit ∧ less (a (2 * r + 1)) (a (2 * r + 2)) then 2 * r + 2 else 2 * r + 1

theorem largerChild_gt (limit : ℕ) (a : ℕ → β) (r : ℕ) : r < largerChild less limit a r := by
  unfold largerChild
  split <;> omega

theorem largerChild_lt {limit r : ℕ} (h : 2 * r + 1 < limit) (a : ℕ → β) :
    largerChild less limit a r < limit := by
  unfold largerChild
  split
  · rename_i hchild
    exact hchild.1
  · exact h

/-- An entry goes down as long as it is less than its larger child. -/
def siftDown (limit : ℕ) (a : ℕ → β) (r : ℕ) : ℕ → β :=
  if _h : 2 * r + 1 < limit then
    if less (a r) (a (largerChild less limit a r)) then
      siftDown limit (a ∘ Equiv.swap r (largerChild less limit a r)) (largerChild less limit a r)
    else a
  else a
termination_by limit - r
decreasing_by
  have hgt := largerChild_gt less limit a r
  have hlt := largerChild_lt less ‹_› a
  omega

/-- The first entries go down, the last of them first. -/
def heapify (limit : ℕ) : ℕ → (ℕ → β) → ℕ → β
  | 0, a => a
  | r + 1, a => heapify limit r (siftDown less limit a r)

/-- The first entry, which is the largest one, changes places with the last one, and what has come
there goes down. -/
def drain : ℕ → (ℕ → β) → ℕ → β
  | 0, a => a
  | last + 1, a => drain last (siftDown less (last + 1) (a ∘ Equiv.swap 0 (last + 1)) 0)

/-- **Heap sort** of the first entries. -/
def heapSort (count : ℕ) (a : ℕ → β) : ℕ → β :=
  drain less (count - 1) (heapify less count (count / 2) a)

end Definitions

variable {less : β → β → Prop} [DecidableRel less]

/-! ### The entries -/

/-- The same entries, and the same places outside of a range. -/
def Rearranges (first limit : ℕ) (a b : ℕ → β) : Prop :=
  ∃ σ : Equiv.Perm ℕ, b = a ∘ σ ∧ ∀ k, k < first ∨ limit ≤ k → σ k = k

theorem Rearranges.refl (first limit : ℕ) (a : ℕ → β) : Rearranges first limit a a :=
  ⟨1, rfl, fun _ _ => rfl⟩

theorem Rearranges.trans {first limit : ℕ} {a b c : ℕ → β} (hab : Rearranges first limit a b)
    (hbc : Rearranges first limit b c) : Rearranges first limit a c := by
  obtain ⟨σ, rfl, hσ⟩ := hab
  obtain ⟨τ, rfl, hτ⟩ := hbc
  refine ⟨σ * τ, rfl, fun k hk => ?_⟩
  rw [Equiv.Perm.mul_apply, hτ k hk, hσ k hk]

theorem Rearranges.mono {first limit first' limit' : ℕ} {a b : ℕ → β}
    (h : Rearranges first limit a b) (hfirst : first' ≤ first) (hlimit : limit ≤ limit') :
    Rearranges first' limit' a b := by
  obtain ⟨σ, hb, hσ⟩ := h
  exact ⟨σ, hb, fun k hk => hσ k (by omega)⟩

theorem rearranges_swap {first limit i j : ℕ} (a : ℕ → β) (hi : first ≤ i ∧ i < limit)
    (hj : first ≤ j ∧ j < limit) : Rearranges first limit a (a ∘ Equiv.swap i j) :=
  ⟨Equiv.swap i j, rfl, fun k hk => Equiv.swap_apply_of_ne_of_ne (by omega) (by omega)⟩

theorem Rearranges.apply {first limit k : ℕ} {a b : ℕ → β} (h : Rearranges first limit a b)
    (hk : k < first ∨ limit ≤ k) : b k = a k := by
  obtain ⟨σ, rfl, hσ⟩ := h
  rw [Function.comp_apply, hσ k hk]

/-- An entry in the range comes from the range. -/
theorem Rearranges.exists {first limit k : ℕ} {a b : ℕ → β} (h : Rearranges first limit a b)
    (hk : first ≤ k ∧ k < limit) : ∃ k', first ≤ k' ∧ k' < limit ∧ b k = a k' := by
  obtain ⟨σ, rfl, hσ⟩ := h
  by_cases hin : first ≤ σ k ∧ σ k < limit
  · exact ⟨σ k, hin.1, hin.2, rfl⟩
  · have hfix : σ (σ k) = σ k := hσ (σ k) (by omega)
    have hsame : σ k = k := σ.injective hfix
    rw [hsame] at hin
    exact absurd hk hin

theorem Rearranges.perm {count : ℕ} {a b : ℕ → β} (h : Rearranges 0 count a b) :
    ((List.range count).map b).Perm ((List.range count).map a) := by
  obtain ⟨σ, rfl, hσ⟩ := h
  have hplaces : ((List.range count).map σ).Perm (List.range count) := by
    refine (List.perm_ext_iff_of_nodup (List.nodup_range.map σ.injective) List.nodup_range).mpr
      fun k => ?_
    rw [List.mem_map, List.mem_range]
    constructor
    · rintro ⟨j, hj, rfl⟩
      rw [List.mem_range] at hj
      by_contra hout
      have hfix := σ.injective (hσ (σ j) (.inr (by omega)))
      omega
    · intro hk
      refine ⟨σ.symm k, ?_, σ.apply_symm_apply k⟩
      rw [List.mem_range]
      by_contra hout
      have hfix := hσ (σ.symm k) (.inr (by omega))
      rw [σ.apply_symm_apply] at hfix
      omega
  rw [← List.map_map]
  exact hplaces.map a

theorem siftDown_rearranges (limit : ℕ) (a : ℕ → β) (r : ℕ) :
    Rearranges r limit a (siftDown less limit a r) := by
  fun_induction siftDown less limit a r with
  | case1 a r hchild hless ih =>
      have hgt := largerChild_gt less limit a r
      have hlt := largerChild_lt less hchild a
      exact (rearranges_swap a ⟨le_rfl, hgt.trans hlt⟩ ⟨hgt.le, hlt⟩).trans (ih.mono hgt.le le_rfl)
  | case2 a r => exact .refl _ _ _
  | case3 a r => exact .refl _ _ _

theorem heapify_rearranges (limit r : ℕ) (a : ℕ → β) :
    Rearranges 0 limit a (heapify less limit r a) := by
  induction r generalizing a with
  | zero => exact .refl _ _ _
  | succ r ih => exact ((siftDown_rearranges limit a r).mono (Nat.zero_le r) le_rfl).trans (ih _)

theorem drain_rearranges (last : ℕ) (a : ℕ → β) :
    Rearranges 0 (last + 1) a (drain less last a) := by
  induction last generalizing a with
  | zero => exact .refl _ _ _
  | succ last ih =>
      have hswap := rearranges_swap a (⟨le_rfl, Nat.succ_pos _⟩ : 0 ≤ 0 ∧ 0 < last + 1 + 1)
        (⟨Nat.zero_le _, Nat.lt_succ_self _⟩ : 0 ≤ last + 1 ∧ last + 1 < last + 1 + 1)
      have hsift : Rearranges 0 (last + 1) (a ∘ Equiv.swap 0 (last + 1))
          (siftDown less (last + 1) (a ∘ Equiv.swap 0 (last + 1)) 0) := siftDown_rearranges _ _ _
      exact hswap.trans ((hsift.mono le_rfl (Nat.le_succ _)).trans
        ((ih _).mono le_rfl (Nat.le_succ _)))

/-- **The entries are those that were there**, whatever the comparison says. -/
theorem heapSort_rearranges (count : ℕ) (a : ℕ → β) :
    Rearranges 0 count a (heapSort less count a) := by
  obtain _ | count := count
  · exact .refl _ _ _
  · exact (heapify_rearranges _ _ a).trans (drain_rearranges count _)

/-! ### The order -/

/-- A strict weak order. -/
structure WeakOrder (less : β → β → Prop) : Prop where
  asymm : ∀ x y, less x y → ¬ less y x
  trans : ∀ x y z, ¬ less x y → ¬ less y z → ¬ less x z

omit [DecidableRel less] in
theorem WeakOrder.irrefl (h : WeakOrder less) (x : β) : ¬ less x x :=
  fun hless => h.asymm x x hless hless

/-- The one is a child of the other. -/
def IsChild (c p : ℕ) : Prop := c = 2 * p + 1 ∨ c = 2 * p + 2

/-- No child is larger, from some entry on. -/
def Heap (less : β → β → Prop) (first limit : ℕ) (a : ℕ → β) : Prop :=
  ∀ p c, first ≤ p → c < limit → IsChild c p → ¬ less (a p) (a c)

/-- The same but for one entry; what is below it is not larger than what is above it. -/
structure HeapBut (less : β → β → Prop) (first limit hole : ℕ) (a : ℕ → β) : Prop where
  order : ∀ p c, first ≤ p → p ≠ hole → c < limit → IsChild c p → ¬ less (a p) (a c)
  across : ∀ p c, first ≤ p → c < limit → IsChild hole p → IsChild c hole → ¬ less (a p) (a c)

variable {first limit r : ℕ} {a : ℕ → β}

theorem largerChild_isChild (limit : ℕ) (a : ℕ → β) (r : ℕ) :
    IsChild (largerChild less limit a r) r := by
  unfold largerChild IsChild
  split <;> simp

theorem not_less_of_largerChild (h : WeakOrder less) {c : ℕ} (hc : c < limit)
    (hchild : IsChild c r) :
    ¬ less (a (largerChild less limit a r)) (a c) := by
  unfold largerChild
  split
  · rename_i hlarger
    obtain rfl | rfl := hchild
    · exact h.asymm _ _ hlarger.2
    · exact h.irrefl _
  · rename_i hlarger
    obtain rfl | rfl := hchild
    · exact h.irrefl _
    · exact fun hless => hlarger ⟨hc, hless⟩

/-- The entry changes places with its larger child. -/
theorem HeapBut.swap (h : WeakOrder less) (hbut : HeapBut less first limit r a) (hr : first ≤ r)
    (hchild : 2 * r + 1 < limit) (hless : less (a r) (a (largerChild less limit a r))) :
    HeapBut less first limit (largerChild less limit a r)
      (a ∘ Equiv.swap r (largerChild less limit a r)) := by
  have hgt := largerChild_gt less limit a r
  have hlt := largerChild_lt less hchild a
  have hlarger := fun c hc hchild => @not_less_of_largerChild _ less _ limit r a h c hc hchild
  have hisChild : IsChild (largerChild less limit a r) r := largerChild_isChild limit a r
  generalize largerChild less limit a r = larger at *
  have hother : ∀ k, k ≠ r → k ≠ larger → (a ∘ Equiv.swap r larger) k = a k := fun k hkr hk => by
    rw [Function.comp_apply, Equiv.swap_apply_of_ne_of_ne hkr hk]
  have hleft : (a ∘ Equiv.swap r larger) r = a larger := by
    rw [Function.comp_apply, Equiv.swap_apply_left]
  have hright : (a ∘ Equiv.swap r larger) larger = a r := by
    rw [Function.comp_apply, Equiv.swap_apply_right]
  constructor
  · intro p c hp hne hc hcp
    -- The larger child has come to `r`; all others stay where they were.
    by_cases hpr : p = r
    · subst hpr
      rw [hleft]
      by_cases hcl : c = larger
      · rw [hcl, hright]
        exact h.asymm _ _ hless
      · rw [hother c (by unfold IsChild at hcp; omega) hcl]
        exact hlarger c hc hcp
    · rw [hother p hpr hne]
      by_cases hcr : c = r
      · rw [hcr, hleft]
        exact hbut.across p larger hp hlt (hcr ▸ hcp) hisChild
      · rw [hother c hcr fun hcl => hpr (by unfold IsChild at hcp hisChild; omega)]
        exact hbut.order p c hp hpr hc hcp
  · intro p c hp hc hlp hcl
    have hpr : p = r := by
      unfold IsChild at hlp hisChild
      omega
    subst hpr
    have hbelow : larger < c := by
      unfold IsChild at hcl
      omega
    rw [hleft, hother c (by omega) (by omega)]
    exact hbut.order larger c (by omega) (by omega) hc hcl

/-- **All is a heap** after the entry has gone down. -/
theorem siftDown_heap (h : WeakOrder less) (hbut : HeapBut less first limit r a) (hr : first ≤ r) :
    Heap less first limit (siftDown less limit a r) := by
  fun_induction siftDown less limit a r with
  | case1 a r hchild hless ih =>
      exact ih (hbut.swap h hr hchild hless) (hr.trans (largerChild_gt less limit a r).le)
  | case2 a r hchild hless =>
      intro p c hp hc hcp
      by_cases hpr : p = r
      · subst hpr
        exact h.trans _ _ _ hless (not_less_of_largerChild h hc hcp)
      · exact hbut.order p c hp hpr hc hcp
  | case3 a r hchild =>
      intro p c hp hc hcp
      refine hbut.order p c hp (fun hpr => ?_) hc hcp
      subst hpr
      unfold IsChild at hcp
      omega

theorem heapify_heap (h : WeakOrder less) (hheap : Heap less r limit a) :
    Heap less 0 limit (heapify less limit r a) := by
  induction r generalizing a with
  | zero => exact hheap
  | succ r ih =>
      refine ih (siftDown_heap h ⟨fun p c hp hne hc hcp => ?_, fun p c hp hc hrp => ?_⟩ le_rfl)
      · exact hheap p c (by omega) hc hcp
      · unfold IsChild at hrp
        omega

omit [DecidableRel less] in
/-- The first entry is the largest one. -/
theorem Heap.root (h : WeakOrder less) (hheap : Heap less 0 limit a) {k : ℕ} (hk : k < limit) :
    ¬ less (a 0) (a k) := by
  induction k using Nat.strong_induction_on with
  | _ k ih =>
      obtain rfl | hpos := Nat.eq_zero_or_pos k
      · exact h.irrefl _
      · have hparent : IsChild k ((k - 1) / 2) := by
          unfold IsChild
          omega
        exact h.trans _ _ _ (ih _ (by omega) (by omega))
          (hheap _ k (Nat.zero_le _) hk hparent)

/-- What is behind a place is in order, and nothing before it is larger. -/
structure Drained (less : β → β → Prop) (last count : ℕ) (a : ℕ → β) : Prop where
  heap : Heap less 0 (last + 1) a
  bound : ∀ i j, i ≤ last → last < j → j < count → ¬ less (a j) (a i)
  sorted : ∀ i j, last < i → i < j → j < count → ¬ less (a j) (a i)

/-- One more entry is in its place. -/
theorem Drained.step {last count : ℕ} (h : WeakOrder less)
    (hdrained : Drained less (last + 1) count a) :
    Drained less last count (siftDown less (last + 1) (a ∘ Equiv.swap 0 (last + 1)) 0) := by
  have hroot := fun k hk => hdrained.heap.root h (k := k) hk
  have hother : ∀ k, k ≠ 0 → k ≠ last + 1 → (a ∘ Equiv.swap 0 (last + 1)) k = a k :=
    fun k hk0 hk => by rw [Function.comp_apply, Equiv.swap_apply_of_ne_of_ne hk0 hk]
  have hlast : (a ∘ Equiv.swap 0 (last + 1)) (last + 1) = a 0 := by
    rw [Function.comp_apply, Equiv.swap_apply_right]
  have hsift : Rearranges 0 (last + 1) (a ∘ Equiv.swap 0 (last + 1))
      (siftDown less (last + 1) (a ∘ Equiv.swap 0 (last + 1)) 0) := siftDown_rearranges _ _ _
  have hbehind : ∀ j, last < j →
      siftDown less (last + 1) (a ∘ Equiv.swap 0 (last + 1)) 0 j =
        (a ∘ Equiv.swap 0 (last + 1)) j := fun j hj => hsift.apply (.inr hj)
  constructor
  · refine siftDown_heap h ⟨fun p c _ hp hc hcp => ?_, fun p c _ _ h0 => ?_⟩ le_rfl
    · have hpc : p < c ∧ c ≠ 0 := by
        unfold IsChild at hcp
        omega
      rw [hother p hp (by omega), hother c hpc.2 (by omega)]
      exact hdrained.heap p c (Nat.zero_le _) (by omega) hcp
    · unfold IsChild at h0
      omega
  · intro i j hi hlt hj
    obtain ⟨k, -, hk, hik⟩ := hsift.exists ⟨Nat.zero_le i, Nat.lt_succ_of_le hi⟩
    -- Whatever is at `i` now was somewhere up to `last + 1` before.
    have hplace : ∃ k' ≤ last + 1, (a ∘ Equiv.swap 0 (last + 1)) k = a k' := by
      by_cases hk0 : k = 0
      · exact ⟨last + 1, le_rfl, by rw [hk0, Function.comp_apply, Equiv.swap_apply_left]⟩
      · exact ⟨k, hk.le, hother k hk0 (by omega)⟩
    obtain ⟨k', hk', hkk'⟩ := hplace
    rw [hik, hkk', hbehind j hlt]
    by_cases hjlast : j = last + 1
    · rw [hjlast, hlast]
      exact hroot k' (by omega)
    · rw [hother j (by omega) hjlast]
      exact hdrained.bound k' j hk' (by omega) hj
  · intro i j hi hij hj
    rw [hbehind i hi, hbehind j (by omega), hother j (by omega) (by omega)]
    by_cases hilast : i = last + 1
    · rw [hilast, hlast]
      exact hdrained.bound 0 j (Nat.zero_le _) (by omega) hj
    · rw [hother i (by omega) hilast]
      exact hdrained.sorted i j (by omega) hij hj

theorem drain_sorted {last count : ℕ} (h : WeakOrder less) (hdrained : Drained less last count a) :
    Drained less 0 count (drain less last a) := by
  induction last generalizing a with
  | zero => exact hdrained
  | succ last ih => exact ih (hdrained.step h)

/-- **The entries are in order.** -/
theorem heapSort_sorted (h : WeakOrder less) (count : ℕ) (a : ℕ → β) {i j : ℕ} (hij : i < j)
    (hj : j < count) : ¬ less (heapSort less count a j) (heapSort less count a i) := by
  obtain _ | last := count
  · exact absurd hj (Nat.not_lt_zero j)
  · have hheap : Heap less 0 (last + 1) (heapify less (last + 1) ((last + 1) / 2) a) := by
      refine heapify_heap h fun p c hp hc hcp => ?_
      unfold IsChild at hcp
      omega
    have hdrained : Drained less last (last + 1) (heapify less (last + 1) ((last + 1) / 2) a) :=
      ⟨hheap, fun i j _ hj hj' => by omega, fun i j hi hij hj => by omega⟩
    have hsorted := drain_sorted h hdrained
    obtain rfl | hi := Nat.eq_zero_or_pos i
    · exact hsorted.bound 0 j le_rfl hij hj
    · exact hsorted.sorted i j hi hij hj

end Webcamd.Library
