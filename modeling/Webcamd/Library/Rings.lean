import Mathlib

/-!
# Rings

Entries that stand in rings, as a permutation: it takes an entry to the one behind it, and leaves
what stands in no ring where it is.

* `Way` — the way from an entry to another one.
* `Way.merge` — a ring is put between two entries of another one, which is multiplying the
  permutation by a transposition.
* `Way.remove` — an entry is taken out, which is multiplying it by a transposition too.
* `Way.rename` — an entry takes the place of another one, which is conjugating the permutation.
-/

namespace Webcamd.Library

universe u

variable {α : Type u}

/-- From an entry one comes to another one through these. -/
def Way (σ : Equiv.Perm α) : α → List α → α → Prop
  | a, [], b => σ a = b
  | a, c :: l, b => σ a = c ∧ Way σ c l b

namespace Way

variable {σ τ : Equiv.Perm α} {a a' b c p y : α} {l l' : List α}

theorem append : Way σ a (l ++ c :: l') b ↔ Way σ a l c ∧ Way σ c l' b := by
  induction l generalizing a with
  | nil => exact Iff.rfl
  | cons d l ih => rw [List.cons_append, Way, Way, ih, and_assoc]

/-- The same way from another entry. -/
theorem start (h : Way σ a l b) (ha : τ a' = σ a) (hl : ∀ y ∈ l, τ y = σ y) : Way τ a' l b := by
  induction l generalizing a a' with
  | nil => exact ha.trans h
  | cons c l ih =>
      exact ⟨ha.trans h.1, ih h.2 (hl c List.mem_cons_self)
        fun y hy => hl y (List.mem_cons_of_mem _ hy)⟩

theorem congr (h : Way σ a l b) (hl : ∀ y ∈ a :: l, τ y = σ y) : Way τ a l b :=
  h.start (hl a List.mem_cons_self) fun y hy => hl y (List.mem_cons_of_mem _ hy)

/-- The entry behind the first one. -/
theorem apply_start (h : Way σ a l b) : σ a = l.headD b := by
  cases l with
  | nil => exact h
  | cons c l => exact h.1

/-- The entry before the end. -/
theorem symm_end (h : Way σ a l b) : σ.symm b = l.getLastD a := by
  induction l generalizing a with
  | nil => exact (Equiv.symm_apply_eq σ).mpr h.symm
  | cons c l ih => rw [ih h.2, List.getLastD_cons]

/-- The way back. -/
theorem reverse (h : Way σ a l b) : Way σ.symm b l.reverse a := by
  induction l generalizing a with
  | nil => exact (Equiv.symm_apply_eq σ).mpr h.symm
  | cons c l ih =>
      rw [List.reverse_cons]
      exact append.mpr ⟨ih h.2, (Equiv.symm_apply_eq σ).mpr h.1.symm⟩

/-- One does not leave the way. -/
theorem apply_mem (h : Way σ a l b) (hy : y ∈ a :: l) : σ y ∈ l ∨ σ y = b := by
  induction l generalizing a with
  | nil =>
      obtain rfl := List.mem_singleton.mp hy
      exact .inr h
  | cons c l ih =>
      obtain rfl | hy := List.mem_cons.mp hy
      · rw [h.1]
        exact .inl List.mem_cons_self
      · obtain hin | hend := ih h.2 hy
        · exact .inl (List.mem_cons_of_mem _ hin)
        · exact .inr hend

/-- The same way, with every entry under another name. -/
theorem rename (h : Way σ a l b) (f : Equiv.Perm α) :
    Way (f * σ * f⁻¹) (f a) (l.map f) (f b) := by
  induction l generalizing a with
  | nil => simpa [Way] using h
  | cons c l ih => exact ⟨by simpa using h.1, ih h.2⟩

variable [DecidableEq α]

theorem mul_swap_of_ne (σ : Equiv.Perm α) (hp : y ≠ p) (hc : y ≠ c) :
    (σ * Equiv.swap p c) y = σ y := by
  rw [Equiv.Perm.mul_apply, Equiv.swap_apply_of_ne_of_ne hp hc]

theorem mul_swap_left (σ : Equiv.Perm α) (p c : α) : (σ * Equiv.swap p c) p = σ c := by
  rw [Equiv.Perm.mul_apply, Equiv.swap_apply_left]

theorem mul_swap_right (σ : Equiv.Perm α) (p c : α) : (σ * Equiv.swap p c) c = σ p := by
  rw [Equiv.Perm.mul_apply, Equiv.swap_apply_right]

/-- **A ring is put into a way**: its entries, and last the one at which it is opened. -/
theorem merge {xs : List α} (h : Way σ a (l ++ l') b) (hring : Way σ c xs c)
    (hp : l.getLastD a = p) (hnodup : (a :: (l ++ l')).Nodup) (hc : c ∉ a :: (l ++ l'))
    (hcxs : c ∉ xs) (hxs : ∀ x ∈ xs, x ∉ a :: (l ++ l')) :
    Way (σ * Equiv.swap p c) a (l ++ xs ++ c :: l') b := by
  induction l generalizing a with
  | nil =>
      obtain rfl : a = p := hp
      rw [List.nil_append] at *
      -- The way is opened here: it goes through the ring first and then on from `c`.
      refine append.mpr ⟨hring.start (mul_swap_left σ a c) fun y hy => ?_,
        h.start (mul_swap_right σ a c) fun y hy => ?_⟩
      · exact mul_swap_of_ne σ (fun hya => hxs y hy (hya ▸ List.mem_cons_self))
          fun hyc => hcxs (hyc ▸ hy)
      · exact mul_swap_of_ne σ (fun hya => (List.nodup_cons.mp hnodup).1 (hya ▸ hy))
          fun hyc => hc (List.mem_cons_of_mem _ (hyc ▸ hy))
  | cons d l ih =>
      rw [List.getLastD_cons] at hp
      have hmem : p ∈ d :: (l ++ l') := by
        have hlast : l.getLastD d ∈ d :: l := List.getLastD_mem_cons
        rw [hp] at hlast
        exact List.mem_append_left l' hlast
      -- The way is opened further on, so that nothing changes here.
      have hap : a ≠ p := fun hap => (List.nodup_cons.mp hnodup).1 (hap ▸ hmem)
      have hac : a ≠ c := fun hac => hc (hac ▸ List.mem_cons_self)
      refine ⟨(mul_swap_of_ne σ hap hac).trans h.1, ih h.2 hp (List.nodup_cons.mp hnodup).2 ?_ ?_⟩
      · exact fun hin => hc (List.mem_cons_of_mem _ hin)
      · exact fun x hx hin => hxs x hx (List.mem_cons_of_mem _ hin)

/-- **An entry is taken out of a way.** -/
theorem remove (h : Way σ a (l ++ c :: l') b) (hp : l.getLastD a = p)
    (hnodup : (a :: (l ++ c :: l')).Nodup) : Way (σ * Equiv.swap p c) a (l ++ l') b := by
  induction l generalizing a with
  | nil =>
      obtain rfl : a = p := hp
      rw [List.nil_append] at hnodup ⊢
      refine h.2.start (mul_swap_left σ a c) fun y hy => ?_
      have hne := List.nodup_cons.mp hnodup
      exact mul_swap_of_ne σ (fun hya => hne.1 (hya ▸ List.mem_cons_of_mem _ hy))
        fun hyc => (List.nodup_cons.mp hne.2).1 (hyc ▸ hy)
  | cons d l ih =>
      rw [List.getLastD_cons] at hp
      have hmem : p ∈ d :: (l ++ c :: l') := by
        have hlast : l.getLastD d ∈ d :: l := List.getLastD_mem_cons
        rw [hp] at hlast
        exact List.mem_append_left (c :: l') hlast
      have hne := List.nodup_cons.mp hnodup
      have hap : a ≠ p := fun hap => hne.1 (hap ▸ hmem)
      have hac : a ≠ c := fun hac => hne.1 (hac ▸ by simp)
      exact ⟨(mul_swap_of_ne σ hap hac).trans h.1, ih h.2 hp hne.2⟩

end Way

end Webcamd.Library
