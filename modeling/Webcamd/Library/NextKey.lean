import Mathlib

/-!
# Searching for the next key

Keys are linearly ordered, and a predicate says which of them are there.

* `IsNext` — a search that starts at a key ends with the least key from there on, or with none.
  It may be done in steps: what is known not to be there can be skipped (`IsNext.skip`).
* `Enumerates` — a list has the keys from a start on, each of them once and in ascending order.
  A search that is repeated, each time behind the key it has found, enumerates the keys
  (`Enumerates.nil`, `Enumerates.cons`).
-/

namespace Webcamd.Library

variable {ι : Type} [LE ι] [LT ι]

/-- The least key from `start` on, if there is one. -/
def IsNext (P : ι → Prop) (start : ι) : Option ι → Prop
  | none => ∀ key, start ≤ key → ¬ P key
  | some found => start ≤ found ∧ P found ∧ ∀ key, start ≤ key → key < found → ¬ P key

/-- The keys from `start` on, in ascending order. -/
structure Enumerates (P : ι → Prop) (start : ι) (keys : List ι) : Prop where
  sorted : keys.Pairwise (· < ·)
  mem_iff : ∀ key, key ∈ keys ↔ start ≤ key ∧ P key

variable {P Q : ι → Prop} {start middle next : ι}

theorem IsNext.congr {found : Option ι} (hsame : ∀ key, start ≤ key → (P key ↔ Q key))
    (h : IsNext P start found) : IsNext Q start found := by
  cases found with
  | none => exact fun key hkey => mt (hsame key hkey).mpr (h key hkey)
  | some found =>
      obtain ⟨hfound, hthere, hleast⟩ := h
      exact ⟨hfound, (hsame found hfound).mp hthere, fun key hkey hbefore =>
        mt (hsame key hkey).mpr (hleast key hkey hbefore)⟩

/-- A search finds something exactly when there is something. -/
theorem IsNext.isSome_iff {found : Option ι} (h : IsNext P start found) :
    found.isSome = true ↔ ∃ key, start ≤ key ∧ P key := by
  cases found with
  | none =>
      refine ⟨fun hsome => absurd hsome (by simp), ?_⟩
      rintro ⟨key, hkey, hthere⟩
      exact absurd hthere (h key hkey)
  | some found => exact ⟨fun _ => ⟨found, h.1, h.2.1⟩, fun _ => rfl⟩

/-- In a well-founded order every search has a result. -/
theorem exists_isNext (hwf : WellFounded fun key other : ι => key < other) (P : ι → Prop)
    (start : ι) : ∃ found, IsNext P start found := by
  by_cases hthere : ∃ key, start ≤ key ∧ P key
  · obtain ⟨found, ⟨hfound, hP⟩, hleast⟩ := hwf.has_min {key | start ≤ key ∧ P key} hthere
    exact ⟨some found, hfound, hP, fun key hkey hlt hkeyP => hleast key ⟨hkey, hkeyP⟩ hlt⟩
  · exact ⟨none, fun key hkey hP => hthere ⟨key, hkey, hP⟩⟩

theorem Enumerates.nil (h : IsNext P start none) : Enumerates P start [] := by
  refine ⟨List.Pairwise.nil, fun key => ?_⟩
  constructor
  · exact fun hmem => absurd hmem List.not_mem_nil
  · exact fun ⟨hkey, hthere⟩ => absurd hthere (h key hkey)

theorem Enumerates.congr {keys : List ι} (hsame : ∀ key, start ≤ key → (P key ↔ Q key))
    (h : Enumerates P start keys) : Enumerates Q start keys := by
  refine ⟨h.sorted, fun key => ?_⟩
  rw [h.mem_iff]
  exact and_congr_right (hsame key)

section Order

variable [Std.IsLinearOrder ι] [Std.LawfulOrderLT ι]

/-- The key at which the search starts is there. -/
theorem IsNext.here (h : P start) : IsNext P start (some start) :=
  ⟨Std.le_refl start, h, fun _ hle hlt =>
    absurd (Std.lt_of_le_of_lt hle hlt) Std.lt_irrefl⟩

/-- **A search may skip** what is known not to be there. -/
theorem IsNext.skip {found : Option ι} (hle : start ≤ middle)
    (habsent : ∀ key, start ≤ key → key < middle → ¬ P key) (h : IsNext P middle found) :
    IsNext P start found := by
  cases found with
  | none =>
      intro key hkey
      rcases Std.le_total (a := middle) (b := key) with hge | hlt
      · exact h key hge
      · rcases Std.le_iff_lt_or_eq.mp hlt with hbefore | rfl
        · exact habsent key hkey hbefore
        · exact h key (Std.le_refl key)
  | some found =>
      obtain ⟨hfound, hthere, hleast⟩ := h
      refine ⟨Std.le_trans hle hfound, hthere, fun key hkey hbefore => ?_⟩
      by_cases hlt : key < middle
      · exact habsent key hkey hlt
      · exact hleast key (Std.not_lt.mp hlt) hbefore

/-- A search goes on behind its start when there is nothing. -/
theorem IsNext.tail {found : Option ι} (hnext : ∀ key, start < key ↔ next ≤ key)
    (habsent : ¬ P start) (h : IsNext P start found) : IsNext P next found := by
  have hlater : ∀ key, next ≤ key → start ≤ key := fun key hkey =>
    Std.le_of_lt ((hnext key).mpr hkey)
  cases found with
  | none => exact fun key hkey => h key (hlater key hkey)
  | some found =>
      obtain ⟨hfound, hthere, hleast⟩ := h
      refine ⟨(hnext found).mp ?_, hthere, fun key hkey => hleast key (hlater key hkey)⟩
      rcases Std.le_iff_lt_or_eq.mp hfound with hlt | rfl
      · exact hlt
      · exact absurd hthere habsent

/-- A search that starts at a key that is there ends at once. -/
theorem IsNext.eq_of_here {found : Option ι} (hthere : P start) (h : IsNext P start found) :
    found = some start := by
  cases found with
  | none => exact absurd hthere (h start (Std.le_refl start))
  | some found =>
      obtain ⟨hfound, -, hleast⟩ := h
      rcases Std.le_iff_lt_or_eq.mp hfound with hlt | rfl
      · exact absurd hthere (hleast start (Std.le_refl start) hlt)
      · rfl

/-- **One more search**: `next` is the key behind the one that was found, and what is there from
`next` on is as before. -/
theorem Enumerates.cons {found : ι} {keys : List ι} (h : IsNext P start (some found))
    (hnext : ∀ key, found < key ↔ next ≤ key) (hrest : Enumerates P next keys) :
    Enumerates P start (found :: keys) := by
  obtain ⟨hfound, hthere, hleast⟩ := h
  refine ⟨List.pairwise_cons.mpr ⟨fun key hmem => ?_, hrest.sorted⟩, fun key => ?_⟩
  · exact (hnext key).mpr ((hrest.mem_iff key).mp hmem).1
  · rw [List.mem_cons, hrest.mem_iff]
    constructor
    · rintro (rfl | ⟨hkey, hkeyThere⟩)
      · exact ⟨hfound, hthere⟩
      · exact ⟨Std.le_trans hfound (Std.le_of_lt ((hnext key).mpr hkey)), hkeyThere⟩
    · rintro ⟨hkey, hkeyThere⟩
      by_cases hbefore : key < found
      · exact absurd hkeyThere (hleast key hkey hbefore)
      · rcases Std.le_iff_lt_or_eq.mp (Std.not_lt.mp hbefore) with hbehind | rfl
        · exact Or.inr ⟨(hnext key).mp hbehind, hkeyThere⟩
        · exact Or.inl rfl

end Order

end Webcamd.Library
