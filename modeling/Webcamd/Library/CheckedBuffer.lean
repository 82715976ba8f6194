import Mathlib

/-!
# A buffer whose accesses are checked

The memory that a pointer may go through is a list, and a pointer is its distance from the first
element, which may be negative.  An access outside the list is `none`.

* `load`, `store` — the accesses.
* `load_append`, `store_append` — the access to the element between the two parts of a buffer,
  with which a loop over a buffer becomes an induction over a list.
-/

namespace Webcamd.Library.CheckedBuffer

variable {α : Type}

/-- Read through a pointer. -/
def load (buffer : List α) (ptr : ℤ) : Option α :=
  if 0 ≤ ptr then buffer[ptr.toNat]? else none

/-- Write through a pointer. -/
def store (buffer : List α) (ptr : ℤ) (value : α) : Option (List α) :=
  if 0 ≤ ptr ∧ ptr.toNat < buffer.length then some (buffer.set ptr.toNat value) else none

theorem load_bounds {buffer : List α} {ptr : ℤ} {value : α} (h : load buffer ptr = some value) :
    0 ≤ ptr ∧ ptr.toNat < buffer.length := by
  unfold load at h
  split at h
  · rename_i hnonneg
    exact ⟨hnonneg, (List.getElem?_eq_some_iff.mp h).1⟩
  · cases h

theorem length_store {buffer after : List α} {ptr : ℤ} {value : α}
    (h : store buffer ptr value = some after) : after.length = buffer.length := by
  unfold store at h
  split at h
  · obtain rfl := Option.some.inj h
    exact List.length_set
  · cases h

theorem load_append (front : List α) (value : α) (back : List α) :
    load (front ++ value :: back) front.length = some value := by
  unfold load
  rw [if_pos (Int.natCast_nonneg _), Int.toNat_natCast, List.getElem?_append_right le_rfl,
    Nat.sub_self]
  rfl

theorem store_append (front : List α) (value : α) (back : List α) (value' : α) :
    store (front ++ value :: back) front.length value' = some (front ++ value' :: back) := by
  unfold store
  rw [Int.toNat_natCast, if_pos (by simp), List.set_append_right _ _ le_rfl, Nat.sub_self]
  rfl

end Webcamd.Library.CheckedBuffer
