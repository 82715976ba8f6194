import Mathlib

/-!
# Ranges in blocks, and arrays of which only some entries may be read

A program that goes over the numbers below a bound in blocks of a fixed size treats the whole
blocks first, and what is left of the last one after that.

* `forall_lt_iff_blocks` — so it goes over all of them.
* `upTo` — an array of which only the first entries may be read.
* `allM_eq_some` — a loop that ends early where a test fails, if all its tests can be made.
-/

namespace Webcamd.Library

/-! ### Blocks -/

section Blocks

variable {b : ℕ} {P : ℕ → Prop}

/-- A number is in the block, and at the place in it, that it is put together from. -/
theorem block_div (hb : 0 < b) (w : ℕ) {k : ℕ} (hk : k < b) : (b * w + k) / b = w := by
  rw [Nat.mul_add_div hb, Nat.div_eq_of_lt hk, Nat.add_zero]

theorem block_mod (w : ℕ) {k : ℕ} (hk : k < b) : (b * w + k) % b = k := by
  rw [Nat.mul_add_mod, Nat.mod_eq_of_lt hk]

/-- **All numbers below a bound** are those of the whole blocks and those of the rest. -/
theorem forall_lt_iff_blocks (hb : 0 < b) (n : ℕ) :
    (∀ i, i < n → P i) ↔
      (∀ w, w < n / b → ∀ k, k < b → P (b * w + k)) ∧
        ∀ k, k < n % b → P (b * (n / b) + k) := by
  have hsplit := Nat.div_add_mod n b
  constructor
  · intro h
    refine ⟨fun w hw k hk => h _ ?_, fun k hk => h _ (by omega)⟩
    calc b * w + k < b * w + b := Nat.add_lt_add_left hk _
      _ = b * (w + 1) := (Nat.mul_succ b w).symm
      _ ≤ b * (n / b) := Nat.mul_le_mul_left b hw
      _ ≤ n := Nat.mul_div_le n b
  · rintro ⟨hblocks, hrest⟩ i hi
    have hi' := Nat.div_add_mod i b
    by_cases hblock : i / b < n / b
    · rw [← hi']
      exact hblocks _ hblock _ (Nat.mod_lt i hb)
    · -- a number in the block of the bound itself is one of the rest
      have heq : i / b = n / b :=
        le_antisymm (Nat.div_le_div_right hi.le) (not_lt.mp hblock)
      rw [heq] at hi'
      rw [← hi']
      exact hrest _ (by omega)

end Blocks

/-! ### Arrays -/

section Arrays

variable {α : Type}

/-- The array, if only its first entries may be read. -/
def upTo (array : ℕ → α) (length : ℕ) : ℕ → Option α :=
  fun place => if place < length then some (array place) else none

theorem upTo_of_lt {array : ℕ → α} {length place : ℕ} (h : place < length) :
    upTo array length place = some (array place) :=
  if_pos h

/-- **A loop that returns early** finds out whether all its tests are passed. -/
theorem allM_eq_some {list : List α} {p : α → Option Bool} {q : α → Bool}
    (h : ∀ item ∈ list, p item = some (q item)) : list.allM p = some (list.all q) := by
  induction list with
  | nil => rfl
  | cons item list ih =>
      rw [List.forall_mem_cons] at h
      rw [List.allM_cons, h.1, ih h.2, List.all_cons]
      cases q item with
      | true => rfl
      | false => rfl

/-- A loop over the numbers below a bound that returns early. -/
theorem allM_range_eq_some {n : ℕ} {p : ℕ → Option Bool} {Q : ℕ → Prop} [DecidablePred Q]
    (h : ∀ k, k < n → p k = some (decide (Q k))) :
    (List.range n).allM p = some (decide (∀ k, k < n → Q k)) := by
  rw [allM_eq_some fun k hk => h k (List.mem_range.mp hk), Option.some_inj, Bool.eq_iff_iff]
  simp only [List.all_eq_true, List.mem_range, decide_eq_true_eq]

/-- A loop that adds up goes through to its end. -/
theorem foldlM_eq_some {β : Type} {list : List α} {step : β → α → Option β}
    {next : β → α → β} (h : ∀ item ∈ list, ∀ value, step value item = some (next value item))
    (value : β) : list.foldlM step value = some (list.foldl next value) := by
  induction list generalizing value with
  | nil => rfl
  | cons item list ih =>
      rw [List.forall_mem_cons] at h
      rw [List.foldlM_cons, h.1 value]
      exact ih h.2 _

end Arrays

end Webcamd.Library
