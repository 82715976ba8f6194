import Webcamd.Library.Machine

/-!
# Intrusive tail queues

The `TAILQ` of BSD's `sys/queue.h`, at the level of its pointers: a head with the
first element and the address of the last `next` cell, and in every element a
`next` pointer and the address of the cell that points *to* it (`tqe_prev`).  The
elements are the nodes, so an element is on at most one list per link field, and
programs use "`tqe_prev` is not `NULL`" as the test for "is queued".

`insertTail` and `remove` are the macros, assignment by assignment.  `remove`
through a `NULL` back link is a wild write in C, so it is `none` here.  Like the
macro it leaves the element's own links alone: clearing `tqe_prev` is a separate
assignment of the caller (`clearPrev`).

`Represents queue items` says that following the links from the head goes through
exactly `items`, without repetition, that all back links agree and that no other
element has one.  It is the invariant under which the macros are list operations:

* `Represents.insertTail` — appending an element that is not queued;
* `Represents.remove` — taking out an element that is;
* `Represents.prev_isSome_iff` — the queued test is list membership;
* `Represents.not_represents_insertTail` — what appending one that is queued does.
-/

namespace Webcamd.Library

universe u

/-- The address of a pointer to an element: the head's first pointer, or the
`next` field of an element. -/
inductive Cell (α : Type u) where
  | head
  | next (element : α)
  deriving DecidableEq

/-- A tail queue: the head (`first`, `last`) and the link fields of all elements
that may ever be put on it. -/
structure TailQueue (α : Type u) where
  /-- `tqh_first` -/
  first : Option α
  /-- `tqh_last`: the cell that holds the final `NULL`. -/
  last : Cell α
  /-- `tqe_next` of every element -/
  next : α → Option α
  /-- `tqe_prev` of every element -/
  prev : α → Option (Cell α)

namespace TailQueue

variable {α : Type u} [DecidableEq α]

/-- `TAILQ_HEAD_INITIALIZER`, with the links of all elements zeroed. -/
def empty : TailQueue α where
  first := none
  last := .head
  next := fun _ => none
  prev := fun _ => none

/-- Read a pointer cell. -/
def load (queue : TailQueue α) : Cell α → Option α
  | .head => queue.first
  | .next element => queue.next element

/-- Write a pointer cell. -/
def store (queue : TailQueue α) (cell : Cell α) (value : Option α) : TailQueue α :=
  match cell with
  | .head => { queue with first := value }
  | .next element => { queue with next := Function.update queue.next element value }

/-- Write an element's back link. -/
def setPrev (queue : TailQueue α) (element : α) (value : Option (Cell α)) :
    TailQueue α :=
  { queue with prev := Function.update queue.prev element value }

/-- Write `tqh_last`. -/
def setLast (queue : TailQueue α) (cell : Cell α) : TailQueue α :=
  { queue with last := cell }

/-- `elm->entry.tqe_prev = NULL` -/
def clearPrev (queue : TailQueue α) (element : α) : TailQueue α :=
  queue.setPrev element none

/-- `TAILQ_INSERT_TAIL(head, elm, entry)` -/
def insertTail (queue : TailQueue α) (element : α) : TailQueue α :=
  let linked := (queue.store (.next element) none).setPrev element (some queue.last)
  (linked.store queue.last (some element)).setLast (.next element)

/-- `TAILQ_REMOVE(head, elm, entry)`; `none` is the write through a `NULL` back
link. -/
def remove (queue : TailQueue α) (element : α) : Option (TailQueue α) :=
  (queue.prev element).map fun cell =>
    let relinked := match queue.next element with
      | some follower => queue.setPrev follower (some cell)
      | none => queue.setLast cell
    relinked.store cell (queue.next element)

/-- The idiom around the macro: *if the element is queued, remove it and clear its
back link*.  The result also says whether it was queued. -/
def takeOut (queue : TailQueue α) (element : α) : TailQueue α × Bool :=
  match queue.remove element with
  | none => (queue, false)
  | some removed => (removed.clearPrev element, true)

/-! ### Reading back single writes -/

@[simp] theorem load_store_same (queue : TailQueue α) (cell : Cell α)
    (value : Option α) : (queue.store cell value).load cell = value := by
  cases cell <;> simp [store, load]

@[simp] theorem load_store_of_ne (queue : TailQueue α) {cell other : Cell α}
    (value : Option α) (hne : other ≠ cell) :
    (queue.store cell value).load other = queue.load other := by
  cases cell <;> cases other <;> simp_all [store, load, Function.update_of_ne]

@[simp] theorem store_prev (queue : TailQueue α) (cell : Cell α)
    (value : Option α) : (queue.store cell value).prev = queue.prev := by
  cases cell <;> rfl

@[simp] theorem store_last (queue : TailQueue α) (cell : Cell α)
    (value : Option α) : (queue.store cell value).last = queue.last := by
  cases cell <;> rfl

@[simp] theorem load_setPrev (queue : TailQueue α) (element : α)
    (value : Option (Cell α)) (cell : Cell α) :
    (queue.setPrev element value).load cell = queue.load cell := by
  cases cell <;> rfl

@[simp] theorem setPrev_last (queue : TailQueue α) (element : α)
    (value : Option (Cell α)) : (queue.setPrev element value).last = queue.last := rfl

@[simp] theorem setPrev_prev_same (queue : TailQueue α) (element : α)
    (value : Option (Cell α)) : (queue.setPrev element value).prev element = value := by
  simp [setPrev]

@[simp] theorem setPrev_prev_of_ne (queue : TailQueue α) {element other : α}
    (value : Option (Cell α)) (hne : other ≠ element) :
    (queue.setPrev element value).prev other = queue.prev other := by
  simp [setPrev, hne]

omit [DecidableEq α] in
@[simp] theorem load_setLast (queue : TailQueue α) (last cell : Cell α) :
    (queue.setLast last).load cell = queue.load cell := by
  cases cell <;> rfl

omit [DecidableEq α] in
@[simp] theorem setLast_last (queue : TailQueue α) (cell : Cell α) :
    (queue.setLast cell).last = cell := rfl

omit [DecidableEq α] in
@[simp] theorem setLast_prev (queue : TailQueue α) (cell : Cell α) :
    (queue.setLast cell).prev = queue.prev := rfl

/-! ### Segments -/

/-- The links lead from `start` through the elements of the list to `stop`. -/
def Segment (queue : TailQueue α) : Cell α → List α → Cell α → Prop
  | start, [], stop => start = stop
  | start, element :: rest, stop =>
      queue.load start = some element ∧ queue.prev element = some start ∧
        Segment queue (.next element) rest stop

omit [DecidableEq α] in
@[simp] theorem segment_nil (queue : TailQueue α) (start stop : Cell α) :
    Segment queue start [] stop ↔ start = stop := Iff.rfl

omit [DecidableEq α] in
theorem segment_cons (queue : TailQueue α) (start stop : Cell α) (element : α)
    (rest : List α) :
    Segment queue start (element :: rest) stop ↔
      queue.load start = some element ∧ queue.prev element = some start ∧
        Segment queue (.next element) rest stop := Iff.rfl

omit [DecidableEq α] in
theorem segment_append (queue : TailQueue α) (front back : List α)
    (start stop : Cell α) :
    Segment queue start (front ++ back) stop ↔
      ∃ middle, Segment queue start front middle ∧ Segment queue middle back stop := by
  induction front generalizing start with
  | nil => simp
  | cons element rest ih =>
      simp only [List.cons_append, segment_cons, ih]
      constructor
      · rintro ⟨hload, hprev, middle, hfront, hback⟩
        exact ⟨middle, ⟨hload, hprev, hfront⟩, hback⟩
      · rintro ⟨middle, ⟨hload, hprev, hfront⟩, hback⟩
        exact ⟨hload, hprev, middle, hfront, hback⟩

omit [DecidableEq α] in
/-- The cell a segment ends in is its start or the `next` field of one of its
elements. -/
theorem Segment.stop_eq {queue : TailQueue α} {items : List α} {start stop : Cell α}
    (h : Segment queue start items stop) :
    stop = start ∨ ∃ element ∈ items, stop = .next element := by
  induction items generalizing start with
  | nil => exact Or.inl h.symm
  | cons element rest ih =>
      obtain ⟨-, -, hrest⟩ := h
      rcases ih hrest with hstop | ⟨other, hmem, hstop⟩
      · exact Or.inr ⟨element, List.mem_cons_self, hstop⟩
      · exact Or.inr ⟨other, List.mem_cons_of_mem _ hmem, hstop⟩

omit [DecidableEq α] in
/-- A segment from the head does not end in the `next` field of anything else. -/
theorem Segment.stop_ne_next {queue : TailQueue α} {items : List α} {stop : Cell α}
    (h : Segment queue .head items stop) {element : α} (hnot : element ∉ items) :
    stop ≠ .next element := by
  rintro rfl
  rcases h.stop_eq with hstop | ⟨other, hmem, hstop⟩
  · cases hstop
  · cases hstop
    exact hnot hmem

omit [DecidableEq α] in
/-- **Framing.**  A segment only depends on the cells it passes through before
its end, and on the back links of its elements. -/
theorem Segment.congr {queue changed : TailQueue α} {items : List α}
    {start stop : Cell α} (h : Segment queue start items stop) (hnodup : items.Nodup)
    (hstart : start ∉ items.map Cell.next)
    (hload : ∀ cell, cell ≠ stop →
      (cell = start ∨ cell ∈ items.map Cell.next) →
        changed.load cell = queue.load cell)
    (hprev : ∀ element ∈ items, changed.prev element = queue.prev element) :
    Segment changed start items stop := by
  induction items generalizing start with
  | nil => exact h
  | cons element rest ih =>
      obtain ⟨hfirst, hback, hrest⟩ := h
      have hstartStop : start ≠ stop := by
        rintro rfl
        rcases hrest.stop_eq with hcell | ⟨other, hmem, hcell⟩
        · exact hstart (by simp [hcell])
        · exact hstart (by simp [hcell, hmem])
      refine ⟨?_, ?_, ?_⟩
      · rw [hload start hstartStop (Or.inl rfl), hfirst]
      · rw [hprev element List.mem_cons_self, hback]
      · refine ih hrest (List.nodup_cons.mp hnodup).2 ?_ ?_ ?_
        · simpa using (List.nodup_cons.mp hnodup).1
        · intro cell hcell hwhere
          refine hload cell hcell (Or.inr ?_)
          rcases hwhere with rfl | hmem
          · simp
          · simp only [List.map_cons, List.mem_cons]
            exact Or.inr hmem
        · exact fun other hmem => hprev other (List.mem_cons_of_mem _ hmem)

/-! ### The representation invariant -/

/-- The queue's links hold exactly the list `items`: they lead from the head
through it to the cell `tqh_last` names, which holds `NULL`, and only its elements
have a back link. -/
structure Represents (queue : TailQueue α) (items : List α) : Prop where
  /-- From the head through all items to the last cell. -/
  segment : Segment queue .head items queue.last
  /-- The chain ends there. -/
  terminated : queue.load queue.last = none
  /-- No element is met twice. -/
  nodup : items.Nodup
  /-- Nothing else carries a back link. -/
  unlinked : ∀ element, element ∉ items → queue.prev element = none

namespace Represents

variable {queue : TailQueue α} {items : List α}

omit [DecidableEq α] in
theorem empty : Represents (TailQueue.empty : TailQueue α) [] where
  segment := rfl
  terminated := rfl
  nodup := List.nodup_nil
  unlinked := fun _ _ => rfl

omit [DecidableEq α] in
/-- A queued element has a back link. -/
theorem prev_ne_none (h : Represents queue items) {element : α}
    (hmem : element ∈ items) : queue.prev element ≠ none := by
  obtain ⟨front, back, rfl⟩ := List.append_of_mem hmem
  obtain ⟨middle, -, hrest⟩ := (segment_append queue front _ _ _).mp h.segment
  rw [hrest.2.1]
  simp

omit [DecidableEq α] in
/-- The queued test is list membership. -/
theorem prev_isSome_iff (h : Represents queue items) (element : α) :
    (queue.prev element).isSome ↔ element ∈ items := by
  constructor
  · intro hsome
    by_contra hnot
    simp [h.unlinked element hnot] at hsome
  · intro hmem
    exact Option.isSome_iff_ne_none.mpr (h.prev_ne_none hmem)

omit [DecidableEq α] in
/-- `TAILQ_FIRST` is the head of the list. -/
theorem first_eq (h : Represents queue items) : queue.first = items.head? := by
  cases items with
  | nil =>
      have hlast : queue.last = .head := h.segment.symm
      have hterm := h.terminated
      rw [hlast] at hterm
      exact hterm
  | cons element rest => exact h.segment.1

omit [DecidableEq α] in
/-- A queue represents one list. -/
theorem unique {other : List α} (h : Represents queue items)
    (hother : Represents queue other) : items = other := by
  suffices key : ∀ (l l' : List α) (start : Cell α),
      Segment queue start l queue.last → Segment queue start l' queue.last → l = l' from
    key items other .head h.segment hother.segment
  intro l
  induction l with
  | nil =>
      rintro l' start rfl hseg
      cases l' with
      | nil => rfl
      | cons element rest => exact absurd (h.terminated.symm.trans hseg.1) (by simp)
  | cons element rest ih =>
      intro l' start hseg hseg'
      cases l' with
      | nil =>
          rw [segment_nil] at hseg'
          subst hseg'
          exact absurd (h.terminated.symm.trans hseg.1) (by simp)
      | cons element' rest' =>
          obtain rfl : element = element' :=
            Option.some.inj (hseg.1.symm.trans hseg'.1)
          rw [ih rest' (.next element) hseg.2.2 hseg'.2.2]

/-- **Appending an element that is not queued.** -/
theorem insertTail (h : Represents queue items) {element : α}
    (hfresh : element ∉ items) :
    Represents (queue.insertTail element) (items ++ [element]) := by
  have hlast : queue.last ≠ .next element := h.segment.stop_ne_next hfresh
  have hprevOther : ∀ other, other ≠ element →
      (queue.insertTail element).prev other = queue.prev other := by
    intro other hne
    simp [TailQueue.insertTail, hne]
  refine ⟨?_, ?_, ?_, ?_⟩
  · refine (segment_append _ _ _ _ _).mpr ⟨queue.last, ?_, ?_, ?_, rfl⟩
    · refine h.segment.congr h.nodup (by simp) ?_ ?_
      · intro cell hcell hwhere
        have hcellElement : cell ≠ .next element := by
          rintro rfl
          rcases hwhere with hhead | hmem
          · cases hhead
          · exact hfresh (by simpa using hmem)
        simp [TailQueue.insertTail, hcell, hcellElement]
      · intro other hmem
        exact hprevOther other fun heq => hfresh (heq ▸ hmem)
    · simp [TailQueue.insertTail]
    · simp [TailQueue.insertTail]
  · simp [TailQueue.insertTail, hlast.symm]
  · refine List.nodup_append.mpr ⟨h.nodup, List.nodup_singleton _, ?_⟩
    intro other hmem last hlastMem heq
    exact hfresh (List.mem_singleton.mp hlastMem ▸ heq ▸ hmem)
  · intro other hnot
    rw [List.mem_append, List.mem_singleton, not_or] at hnot
    rw [hprevOther other hnot.2, h.unlinked other hnot.1]

/-- Taking out the last element: `tqh_last` moves back to the cell before it. -/
theorem remove_last {front : List α} {element : α}
    (h : Represents queue (front ++ [element])) :
    ∃ removed, queue.remove element = some removed ∧
      Represents (removed.clearPrev element) front := by
  obtain ⟨cell, hfront, hload, hprev, hback⟩ :=
    (segment_append queue front _ _ _).mp h.segment
  obtain ⟨hnodupFront, -, hdisjoint⟩ := List.nodup_append.mp h.nodup
  have helementFront : element ∉ front := fun hin =>
    hdisjoint element hin element List.mem_cons_self rfl
  have hlast : queue.last = .next element := hback.symm
  have hnext : queue.next element = none := by
    have hterm := h.terminated
    rw [hlast] at hterm
    exact hterm
  refine ⟨(queue.setLast cell).store cell none, ?_, ?_⟩
  · simp [TailQueue.remove, hprev, hnext]
  refine ⟨?_, ?_, hnodupFront, ?_⟩
  · have hlast' : (((queue.setLast cell).store cell none).clearPrev element).last
        = cell := by simp [clearPrev]
    rw [hlast']
    refine hfront.congr hnodupFront (by simp) ?_ ?_
    · intro other hother _
      simp [clearPrev, hother]
    · intro other hin
      have hne : other ≠ element := fun heq => helementFront (heq ▸ hin)
      simp [clearPrev, hne]
  · simp [clearPrev]
  · intro other hnot
    by_cases heq : other = element
    · subst heq
      simp [clearPrev]
    · simp only [clearPrev, setPrev_prev_of_ne _ _ heq, store_prev, setLast_prev]
      exact h.unlinked other (by simpa [heq] using hnot)

/-- Taking out any other element: its follower takes over its back link. -/
theorem remove_follower {front rest : List α} {element follower : α}
    (h : Represents queue (front ++ element :: follower :: rest)) :
    ∃ removed, queue.remove element = some removed ∧
      Represents (removed.clearPrev element) (front ++ follower :: rest) := by
  obtain ⟨cell, hfront, hload, hprev, hnext, hfollower, hrest⟩ :=
    (segment_append queue front _ _ _).mp h.segment
  obtain ⟨hnodupFront, hnodupBack, hdisjoint⟩ := List.nodup_append.mp h.nodup
  obtain ⟨helementBack, hnodupBack⟩ := List.nodup_cons.mp hnodupBack
  obtain ⟨hfollowerRest, hnodupRest⟩ := List.nodup_cons.mp hnodupBack
  have helementFront : element ∉ front := fun hin =>
    hdisjoint element hin element List.mem_cons_self rfl
  have hbackFront : ∀ other ∈ follower :: rest, other ∉ front := fun other hin hother =>
    hdisjoint other hother other (List.mem_cons_of_mem _ hin) rfl
  have hnextField : queue.next element = some follower := hnext
  have hfollowerElement : follower ≠ element := fun heq =>
    helementBack (heq ▸ List.mem_cons_self)
  -- the cell that points to the element belongs to the front part
  have hcellElement : cell ≠ .next element := hfront.stop_ne_next helementFront
  have hcellBack : ∀ other ∈ follower :: rest, cell ≠ .next other := fun other hin =>
    hfront.stop_ne_next (hbackFront other hin)
  refine ⟨(queue.setPrev follower (some cell)).store cell (some follower), ?_, ?_⟩
  · simp [TailQueue.remove, hprev, hnextField]
  have hprevOther : ∀ other, other ≠ element → other ≠ follower →
      (((queue.setPrev follower (some cell)).store cell
        (some follower)).clearPrev element).prev other = queue.prev other := by
    intro other hne hneFollower
    simp [clearPrev, hne, hneFollower]
  have hloadOther : ∀ other, other ≠ cell →
      (((queue.setPrev follower (some cell)).store cell
        (some follower)).clearPrev element).load other = queue.load other := by
    intro other hne
    simp [clearPrev, hne]
  have hlast : (((queue.setPrev follower (some cell)).store cell
      (some follower)).clearPrev element).last = queue.last := by
    simp [clearPrev]
  have hlastCell : queue.last ≠ cell := by
    intro heq
    rcases hrest.stop_eq with hstop | ⟨other, hin, hstop⟩
    · exact hcellBack follower List.mem_cons_self (heq ▸ hstop)
    · exact hcellBack other (List.mem_cons_of_mem _ hin) (heq ▸ hstop)
  refine ⟨?_, ?_, ?_, ?_⟩
  · refine (segment_append _ _ _ _ _).mpr ⟨cell, ?_, ?_, ?_, ?_⟩
    · refine hfront.congr hnodupFront (by simp) ?_ ?_
      · exact fun other hother _ => hloadOther other hother
      · intro other hin
        exact hprevOther other (fun heq => helementFront (heq ▸ hin))
          (fun heq => hbackFront follower List.mem_cons_self (heq ▸ hin))
    · simp [clearPrev]
    · simp [clearPrev, hfollowerElement]
    · rw [hlast]
      refine hrest.congr hnodupRest (by simpa using hfollowerRest) ?_ ?_
      · intro other _ hwhere
        refine hloadOther other ?_
        rintro rfl
        rcases hwhere with heq | hin
        · exact hcellBack follower List.mem_cons_self heq
        · obtain ⟨node, hin, heq⟩ := List.mem_map.mp hin
          exact hcellBack node (List.mem_cons_of_mem _ hin) heq.symm
      · intro other hin
        exact hprevOther other
          (fun heq => helementBack (heq ▸ List.mem_cons_of_mem _ hin))
          (fun heq => hfollowerRest (heq ▸ hin))
  · rw [hlast, hloadOther queue.last hlastCell]
    exact h.terminated
  · refine List.nodup_append.mpr ⟨hnodupFront, hnodupBack, ?_⟩
    intro other hin other' hin'
    exact hdisjoint other hin other' (List.mem_cons_of_mem _ hin')
  · intro other hnot
    simp only [List.mem_append, List.mem_cons, not_or] at hnot
    by_cases heq : other = element
    · subst heq
      simp [clearPrev]
    · rw [hprevOther other heq hnot.2.1]
      exact h.unlinked other (by simp [hnot, heq])

/-- **Taking out a queued element.**  The removal goes through, and clearing the
element's back link afterwards leaves the queue of the other elements. -/
theorem remove (h : Represents queue items) {element : α} (hmem : element ∈ items) :
    ∃ removed, queue.remove element = some removed ∧
      Represents (removed.clearPrev element) (items.erase element) := by
  obtain ⟨front, back, rfl⟩ := List.append_of_mem hmem
  have helementFront : element ∉ front := fun hin =>
    (List.nodup_append.mp h.nodup).2.2 element hin element List.mem_cons_self rfl
  rw [List.erase_append_right _ helementFront, List.erase_cons_head]
  cases back with
  | nil =>
      rw [List.append_nil]
      exact h.remove_last
  | cons follower rest => exact h.remove_follower

theorem remove_eq_none_of_notMem (h : Represents queue items) {element : α}
    (hnot : element ∉ items) : queue.remove element = none := by
  rw [TailQueue.remove, h.unlinked element hnot, Option.map_none]

/-- `takeOut` leaves the queue of the other elements. -/
theorem takeOut (h : Represents queue items) (element : α) :
    Represents (queue.takeOut element).1 (items.erase element) := by
  by_cases hmem : element ∈ items
  · obtain ⟨removed, hremove, hrep⟩ := h.remove hmem
    simpa [TailQueue.takeOut, hremove] using hrep
  · rw [TailQueue.takeOut, h.remove_eq_none_of_notMem hmem, List.erase_of_not_mem hmem]
    exact h

omit [DecidableEq α] in
/-- The element a cell of the chain points to points back to the cell. -/
theorem prev_of_load {start stop cell : Cell α} {element : α}
    (h : Segment queue start items stop) (hstop : queue.load stop = none)
    (hcell : cell = start ∨ ∃ other ∈ items, cell = .next other)
    (hload : queue.load cell = some element) : queue.prev element = some cell := by
  induction items generalizing start with
  | nil =>
      rcases hcell with rfl | ⟨other, hmem, -⟩
      · rw [segment_nil] at h
        rw [h, hstop] at hload
        cases hload
      · cases hmem
  | cons head rest ih =>
      obtain ⟨hfirst, hback, hrest⟩ := h
      rcases hcell with rfl | ⟨other, hmem, rfl⟩
      · rw [← Option.some.inj (hfirst.symm.trans hload)]
        exact hback
      · rcases List.mem_cons.mp hmem with rfl | hmem
        · exact ih hrest (Or.inl rfl)
        · exact ih hrest (Or.inr ⟨other, hmem, rfl⟩)

/-- **Appending an element that is queued already breaks the queue**: two cells point to it. -/
theorem not_represents_insertTail (h : Represents queue items) {element : α}
    (hmem : element ∈ items) (after : List α) :
    ¬ Represents (queue.insertTail element) after := by
  intro hafter
  obtain ⟨front, back, rfl⟩ := List.append_of_mem hmem
  obtain ⟨cell, hfront, hload, hprev, hback⟩ :=
    (segment_append queue front _ _ _).mp h.segment
  have helement : element ∉ front := fun hin =>
    (List.nodup_append.mp h.nodup).2.2 element hin element List.mem_cons_self rfl
  have hcell : cell ≠ .next element := hfront.stop_ne_next helement
  have hlast : cell ≠ queue.last := by
    rintro rfl
    rw [h.terminated] at hload
    cases hload
  have hstill : (queue.insertTail element).load cell = some element := by
    simp [TailQueue.insertTail, hlast, hcell, hload]
  -- the cell that pointed to the element is still on the chain, if there is a chain
  have hchain : cell = .head ∨ ∃ other ∈ after, cell = .next other := by
    rcases hfront.stop_eq with hhead | ⟨other, hin, rfl⟩
    · exact Or.inl hhead
    · have hne : other ≠ element := fun heq => helement (heq ▸ hin)
      refine Or.inr ⟨other, (hafter.prev_isSome_iff other).mp ?_, rfl⟩
      have hother : (queue.insertTail element).prev other = queue.prev other := by
        simp [TailQueue.insertTail, hne]
      rw [hother]
      exact (h.prev_isSome_iff other).mpr (List.mem_append_left _ hin)
  have hnew := prev_of_load hafter.segment hafter.terminated hchain hstill
  have hself : (queue.insertTail element).prev element = some queue.last := by
    simp [TailQueue.insertTail]
  exact hlast (Option.some.inj (hnew.symm.trans hself))

end Represents

/-- After `takeOut` the element is not queued, whatever the queue was. -/
@[simp] theorem takeOut_prev_self (queue : TailQueue α) (element : α) :
    (queue.takeOut element).1.prev element = none := by
  rw [takeOut]
  cases hprev : queue.prev element with
  | none => simp [remove, hprev]
  | some cell => simp [remove, hprev, clearPrev]

end TailQueue

end Webcamd.Library
