import Mathlib

/-!
# Intrusive stacks

A singly linked list whose nodes are its elements: a pointer to the top, and in every element
a `next` pointer, `none` at the bottom.  An element that is not on the stack has no next one
either, so the field does not say whether an element is on the stack: the bottom one looks
like one that is not.

* `Linked next start items` — the links lead from `start` through `items` to the end.
* `Represents next top items` — they do so from the top, without repetition, and no other
  element has a link.
* `Represents.push`, `Represents.pop` — the two operations on a stack, of an element that is
  not on it and of the top one.
* `Represents.mem_iff` — what tells an element that is on the stack from one that is not:
  something points to it.
* `Represents.not_represents_push` — pushing the bottom element again makes the links a cycle.
-/

namespace Webcamd.Library.Stack

universe u

variable {α : Type u}

/-- The links lead from `start` through the elements of the list to the end. -/
def Linked (next : α → Option α) : Option α → List α → Prop
  | start, [] => start = none
  | start, element :: rest => start = some element ∧ Linked next (next element) rest

variable {next changed : α → Option α} {start top : Option α} {items : List α} {element : α}

@[simp] theorem linked_nil : Linked next start [] ↔ start = none := Iff.rfl

@[simp] theorem linked_cons {rest : List α} :
    Linked next start (element :: rest) ↔ start = some element ∧ Linked next (next element) rest :=
  Iff.rfl

/-- The links of other elements do not matter. -/
theorem Linked.congr (h : Linked next start items)
    (hsame : ∀ other ∈ items, changed other = next other) : Linked changed start items := by
  induction items generalizing start with
  | nil => exact h
  | cons first rest ih =>
      refine ⟨h.1, ?_⟩
      rw [hsame first List.mem_cons_self]
      exact ih h.2 fun other hmem => hsame other (List.mem_cons_of_mem _ hmem)

/-- Links lead through one list. -/
theorem Linked.unique {other : List α} (h : Linked next start items)
    (hother : Linked next start other) : items = other := by
  induction items generalizing start other with
  | nil =>
      obtain rfl : start = none := h
      cases other with
      | nil => rfl
      | cons first rest => cases hother.1
  | cons first rest ih =>
      obtain ⟨rfl, hrest⟩ := h
      cases other with
      | nil => cases hother
      | cons first' rest' =>
          obtain ⟨heq, hrest'⟩ := hother
          obtain rfl := Option.some.inj heq
          rw [ih hrest hrest']

/-- Something points to every element on the way. -/
theorem Linked.pointed (h : Linked next start items) (hmem : element ∈ items) :
    start = some element ∨ ∃ other ∈ items, next other = some element := by
  induction items generalizing start with
  | nil => cases hmem
  | cons first rest ih =>
      rcases List.mem_cons.mp hmem with rfl | hrest
      · exact Or.inl h.1
      · rcases ih h.2 hrest with hnext | ⟨other, hother, hnext⟩
        · exact Or.inr ⟨first, List.mem_cons_self, hnext⟩
        · exact Or.inr ⟨other, List.mem_cons_of_mem _ hother, hnext⟩

/-- The way goes on where an element points to. -/
theorem Linked.mem_next {other : α} (h : Linked next start items) (hmem : other ∈ items)
    (hnext : next other = some element) : element ∈ items := by
  induction items generalizing start with
  | nil => cases hmem
  | cons first rest ih =>
      rcases List.mem_cons.mp hmem with rfl | hrest
      · cases rest with
        | nil =>
            obtain ⟨-, hend⟩ := h
            rw [linked_nil] at hend
            rw [hend] at hnext
            cases hnext
        | cons second rest =>
            obtain ⟨-, hsecond, -⟩ := h
            rw [← Option.some.inj (hsecond.symm.trans hnext)]
            simp
      · exact List.mem_cons_of_mem _ (ih h.2 hrest)

/-- The links from the top hold exactly the list `items`, and no other element has a link. -/
structure Represents (next : α → Option α) (top : Option α) (items : List α) : Prop where
  linked : Linked next top items
  nodup : items.Nodup
  off : ∀ element, element ∉ items → next element = none

namespace Represents

theorem empty : Represents (fun _ : α => none) none [] where
  linked := rfl
  nodup := List.nodup_nil
  off _ _ := rfl

/-- An element is on the stack exactly if something points to it. -/
theorem mem_iff (h : Represents next top items) :
    element ∈ items ↔ top = some element ∨ ∃ other, next other = some element := by
  constructor
  · intro hmem
    rcases h.linked.pointed hmem with htop | ⟨other, -, hnext⟩
    · exact Or.inl htop
    · exact Or.inr ⟨other, hnext⟩
  · rintro (rfl | ⟨other, hnext⟩)
    · cases items with
      | nil => cases h.linked
      | cons first rest =>
          rw [Option.some.inj h.linked.1]
          exact List.mem_cons_self
    · refine h.linked.mem_next ?_ hnext
      by_contra hoff
      rw [h.off other hoff] at hnext
      cases hnext

variable [DecidableEq α]

/-- **Pushing an element that is not on the stack.** -/
theorem push (h : Represents next top items) (hnot : element ∉ items) :
    Represents (Function.update next element top) (some element) (element :: items) where
  linked := by
    refine ⟨rfl, ?_⟩
    rw [Function.update_self]
    refine h.linked.congr fun other hmem => Function.update_of_ne ?_ _ _
    rintro rfl
    exact hnot hmem
  nodup := List.nodup_cons.mpr ⟨hnot, h.nodup⟩
  off other hoff := by
    rw [List.mem_cons, not_or] at hoff
    rw [Function.update_of_ne hoff.1]
    exact h.off other hoff.2

/-- **Popping the top element**, and clearing its link. -/
theorem pop (h : Represents next (some element) items) :
    ∃ rest, items = element :: rest ∧ element ∉ rest ∧
      Represents (Function.update next element none) (next element) rest := by
  cases items with
  | nil => cases h.linked
  | cons first rest =>
      obtain rfl := Option.some.inj h.linked.1
      obtain ⟨hnot, hnodup⟩ := List.nodup_cons.mp h.nodup
      refine ⟨rest, rfl, hnot, ?_, hnodup, fun other hoff => ?_⟩
      · refine h.linked.2.congr fun other hmem => Function.update_of_ne ?_ _ _
        rintro rfl
        exact hnot hmem
      · by_cases heq : other = element
        · subst heq
          exact Function.update_self ..
        · rw [Function.update_of_ne heq]
          exact h.off other (by simp [heq, hoff])

end Represents

variable [DecidableEq α]

/-- Links that lead to the end through a bottom element lead through it still when it is given
a link. -/
theorem Linked.mem_of_update {value : Option α} {after : List α} (h : Linked next start items)
    (hnodup : items.Nodup) (hmem : element ∈ items)
    (hafter : Linked (Function.update next element value) start after) : element ∈ after := by
  induction items generalizing start after with
  | nil => cases hmem
  | cons first rest ih =>
      obtain ⟨rfl, hrest⟩ := h
      cases after with
      | nil => cases hafter
      | cons first' after =>
          obtain ⟨heq, hafter⟩ := hafter
          obtain rfl := Option.some.inj heq
          rcases List.mem_cons.mp hmem with rfl | hin
          · exact List.mem_cons_self
          · obtain ⟨hnot, hnodup⟩ := List.nodup_cons.mp hnodup
            have hne : first ≠ element := by
              rintro rfl
              exact hnot hin
            rw [Function.update_of_ne hne] at hafter
            exact List.mem_cons_of_mem _ (ih hrest hnodup hin hafter)

/-- **Pushing an element that is on the stack already** closes a cycle. -/
theorem Represents.not_represents_push (h : Represents next top items) (hmem : element ∈ items)
    (after : List α) :
    ¬ Represents (Function.update next element top) (some element) after := by
  intro hafter
  cases after with
  | nil => cases hafter.linked
  | cons first rest =>
      obtain ⟨heq, hrest⟩ := hafter.linked
      obtain rfl := Option.some.inj heq
      rw [Function.update_self] at hrest
      exact (List.nodup_cons.mp hafter.nodup).1 (h.linked.mem_of_update h.nodup hmem hrest)

end Webcamd.Library.Stack
