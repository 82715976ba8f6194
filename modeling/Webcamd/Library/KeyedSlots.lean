import Mathlib

/-!
# Tables whose live entries have different keys

A table of entries, some of them live and the others free to be written over.

* `KeysDistinct` — no two live entries have one key.
* `KeysDistinct.update` — writing an entry whose key no other live entry has.
-/

namespace Webcamd.Library

variable {ι α κ : Type} {live : α → Prop} {key : α → κ} {table : ι → α}

/-- The live entries of a table have different keys. -/
def KeysDistinct (live : α → Prop) (key : α → κ) (table : ι → α) : Prop :=
  Set.InjOn (fun i => key (table i)) {i | live (table i)}

theorem keysDistinct_of_not_live (h : ∀ i, ¬live (table i)) : KeysDistinct live key table := by
  intro i hi
  exact absurd hi (h i)

/-- **Writing one entry** keeps the keys different, if a live entry is written only under a key
that is free elsewhere. -/
theorem KeysDistinct.update [DecidableEq ι] (h : KeysDistinct live key table) {i : ι} {value : α}
    (hfree : live value → ∀ j, j ≠ i → live (table j) → key (table j) ≠ key value) :
    KeysDistinct live key (Function.update table i value) := by
  intro j hj k hk hkey
  rw [Set.mem_ofPred_eq] at hj hk
  by_cases hji : j = i
  · by_cases hki : k = i
    · rw [hji, hki]
    · subst hji
      rw [Function.update_self] at hj
      rw [Function.update_of_ne hki] at hk
      simp only [Function.update_self, Function.update_of_ne hki] at hkey
      exact absurd hkey.symm (hfree hj k hki hk)
  · rw [Function.update_of_ne hji] at hj
    by_cases hki : k = i
    · subst hki
      rw [Function.update_self] at hk
      simp only [Function.update_self, Function.update_of_ne hji] at hkey
      exact absurd hkey (hfree hk j hji hj)
    · rw [Function.update_of_ne hki] at hk
      simp only [Function.update_of_ne hji, Function.update_of_ne hki] at hkey
      exact h hj hk hkey

end Webcamd.Library
