import Mathlib

/-!
# Assigning entries in place

A loop assigns the entries of an array one after another, each from the array as it is by then.

* `assignAll` — the array after the loop.
* `assignAll_apply` — where no entry is read that is assigned already, all of them are assigned
  from the array as it was before the loop.
-/

namespace Webcamd.Library

variable {ι α : Type} [DecidableEq ι]

/-- The entries at `places` are assigned in this order, the entry at `i` to `f array i`. -/
def assignAll (f : (ι → α) → ι → α) (places : List ι) (array : ι → α) : ι → α :=
  places.foldl (fun array i => Function.update array i (f array i)) array

variable {f : (ι → α) → ι → α} {places : List ι} {array : ι → α} {i : ι}

theorem assignAll_cons : assignAll f (i :: places) array =
    assignAll f places (Function.update array i (f array i)) :=
  rfl

theorem assignAll_concat : assignAll f (places ++ [i]) array =
    Function.update (assignAll f places array) i (f (assignAll f places array) i) := by
  unfold assignAll
  rw [List.foldl_append]
  rfl

theorem assignAll_of_notMem (h : i ∉ places) : assignAll f places array i = array i := by
  induction places generalizing array with
  | nil => rfl
  | cons first places ih =>
      rw [List.mem_cons, not_or] at h
      rw [assignAll_cons, ih h.2, Function.update_of_ne h.1]

/-- **Nothing is read that is assigned already**: the entries are those that the array gives as it
was before. -/
theorem assignAll_apply (hnodup : places.Nodup)
    (hreads : places.Pairwise fun i j => ∀ array value, f (Function.update array i value) j =
      f array j) (hi : i ∈ places) : assignAll f places array i = f array i := by
  induction places generalizing array with
  | nil => exact absurd hi List.not_mem_nil
  | cons first places ih =>
      obtain ⟨hnew, hnodup⟩ := List.nodup_cons.mp hnodup
      obtain ⟨hfirst, hreads⟩ := List.pairwise_cons.mp hreads
      rw [assignAll_cons]
      rcases List.mem_cons.mp hi with rfl | hlater
      · rw [assignAll_of_notMem hnew, Function.update_self]
      · rw [ih hnodup hreads hlater, hfirst i hlater]

end Webcamd.Library
