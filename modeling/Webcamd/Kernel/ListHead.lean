import Webcamd.Library.Rings

/-!
# Doubly linked lists

A model of `kernel/linux_list.h`, with every list in the same memory.  A call that goes through a
`NULL` pointer is a failure.

* `Memory` — the pointers of every `struct list_head`; `Memory.listAdd` and so on are the functions.
* `Lists` — which lists there are, by their heads; `Call.apply` is what a call means for them, and
  `Call.Allowed` when it may be made.
* `Stores` — the pointers are those of a permutation, which the functions multiply by a
  transposition or two.
-/

namespace Webcamd.Kernel.ListHead

open Webcamd.Library

variable {α : Type} [DecidableEq α]

/-! ### The model -/

/-- Every `struct list_head`, by its address; `none` is `NULL`. -/
structure Memory (α : Type) where
  next : α → Option α
  prev : α → Option α

namespace Memory

variable (m : Memory α)

/-- `a->next = b` -/
def setNext (a : α) (b : Option α) : Memory α := { m with next := Function.update m.next a b }

/-- `a->prev = b` -/
def setPrev (a : α) (b : Option α) : Memory α := { m with prev := Function.update m.prev a b }

/-- `INIT_LIST_HEAD` -/
def initListHead (list : α) : Memory α := (m.setNext list (some list)).setPrev list (some list)

/-- `__list_add` -/
def listAddBetween (new prev next : α) : Memory α :=
  (((m.setPrev next (some new)).setNext new (some next)).setPrev new (some prev)).setNext prev
    (some new)

/-- `list_add` -/
def listAdd (new head : α) : Option (Memory α) := (m.next head).map (m.listAddBetween new head)

/-- `list_add_tail` -/
def listAddTail (new head : α) : Option (Memory α) :=
  (m.prev head).map fun prev => m.listAddBetween new prev head

/-- `__list_del` -/
def listDelBetween (prev next : α) : Memory α :=
  (m.setPrev next (some prev)).setNext prev (some next)

/-- `__list_del_entry` -/
def listDelEntry (entry : α) : Option (Memory α) :=
  (m.prev entry).bind fun prev => (m.next entry).map (m.listDelBetween prev)

/-- `list_del` -/
def listDel (entry : α) : Option (Memory α) :=
  (m.listDelEntry entry).map fun m => (m.setNext entry none).setPrev entry none

/-- `list_del_init` -/
def listDelInit (entry : α) : Option (Memory α) :=
  (m.listDelEntry entry).map fun m => m.initListHead entry

/-- `list_move` -/
def listMove (list head : α) : Option (Memory α) :=
  (m.listDelEntry list).bind fun m => m.listAdd list head

/-- `list_move_tail` -/
def listMoveTail (list head : α) : Option (Memory α) :=
  (m.listDelEntry list).bind fun m => m.listAddTail list head

/-- `list_empty` -/
def listEmpty (head : α) : Bool := m.next head = some head

/-- `__list_splice` -/
def listSpliceBetween (list prev next : α) : Option (Memory α) :=
  (m.next list).bind fun first => (m.prev list).map fun last =>
    (((m.setPrev first (some prev)).setNext prev (some first)).setNext last (some next)).setPrev
      next (some last)

/-- `list_splice`, without the test -/
def spliceFront (list head : α) : Option (Memory α) :=
  (m.next head).bind (m.listSpliceBetween list head)

/-- `list_splice_tail`, without the test -/
def spliceBack (list head : α) : Option (Memory α) :=
  (m.prev head).bind fun prev => m.listSpliceBetween list prev head

/-- `list_splice` -/
def listSplice (list head : α) : Option (Memory α) :=
  if m.listEmpty list then some m else m.spliceFront list head

/-- `list_splice_tail` -/
def listSpliceTail (list head : α) : Option (Memory α) :=
  if m.listEmpty list then some m else m.spliceBack list head

/-- `list_splice_init` -/
def listSpliceInit (list head : α) : Option (Memory α) :=
  if m.listEmpty list then some m
  else (m.spliceFront list head).map fun m => m.initListHead list

/-- `list_splice_tail_init` -/
def listSpliceTailInit (list head : α) : Option (Memory α) :=
  if m.listEmpty list then some m
  else (m.spliceBack list head).map fun m => m.initListHead list

/-- `list_replace` -/
def listReplace (old new : α) : Option (Memory α) :=
  (m.next old).bind fun next =>
    let m := (m.setNext new (some next)).setPrev next (some new)
    (m.prev old).map fun prev => (m.setPrev new (some prev)).setNext prev (some new)

/-- `list_replace_init` -/
def listReplaceInit (old new : α) : Option (Memory α) :=
  (m.listReplace old new).map fun m => m.initListHead old

/-- `list_is_singular` -/
def listIsSingular (head : α) : Bool := !m.listEmpty head && decide (m.next head = m.prev head)

/-- `__list_cut_position` -/
def listCutBetween (list head entry : α) : Option (Memory α) :=
  (m.next entry).bind fun newFirst => (m.next head).map fun first =>
    (((((m.setNext list (some first)).setPrev first (some list)).setPrev list (some entry)).setNext
      entry (some list)).setNext head (some newFirst)).setPrev newFirst (some head)

/-- `list_cut_position` -/
def listCutPosition (list head entry : α) : Option (Memory α) :=
  if m.listEmpty head then some m
  else if m.listIsSingular head ∧ m.next head ≠ some entry ∧ head ≠ entry then some m
  else if entry = head then some (m.initListHead list)
  else m.listCutBetween list head entry

/-- The loop of `list_for_each` and that of `list_for_each_prev`, with what they go through. -/
def walkLoop (link : α → Option α) (head : α) : ℕ → α → Option (List α)
  | 0, _ => none
  | fuel + 1, pos =>
      if pos = head then some []
      else (link pos).bind fun pos' => (walkLoop link head fuel pos').map (pos :: ·)

/-- `list_for_each` -/
def listForEach (head : α) (fuel : ℕ) : Option (List α) :=
  (m.next head).bind (walkLoop m.next head fuel)

/-- `list_for_each_prev` -/
def listForEachPrev (head : α) (fuel : ℕ) : Option (List α) :=
  (m.prev head).bind (walkLoop m.prev head fuel)

/-- The loop of `list_for_each_safe`, with a body that deletes some entries. -/
def safeLoop (remove : α → Bool) (head : α) :
    ℕ → α → α → Memory α → Option (Memory α × List α)
  | 0, _, _, _ => none
  | fuel + 1, pos, n, m =>
      if pos = head then some (m, [])
      else
        (if remove pos then m.listDel pos else some m).bind fun m =>
          (m.next n).bind fun n' =>
            (safeLoop remove head fuel n n' m).map fun result => (result.1, pos :: result.2)

/-- `list_for_each_safe`: the memory after it, and what it goes through. -/
def listForEachSafe (remove : α → Bool) (head : α) (fuel : ℕ) : Option (Memory α × List α) :=
  (m.next head).bind fun pos => (m.next pos).bind fun n => safeLoop remove head fuel pos n m

end Memory

/-! ### The lists -/

/-- What is in the list with this head, if it is the head of one. -/
abbrev Lists (α : Type) := α → Option (List α)

namespace Lists

/-- It is in one of the lists. -/
def Entry (lists : Lists α) (x : α) : Prop := ∃ h xs, lists h = some xs ∧ x ∈ xs

/-- It is in one of the lists, or the head of one. -/
def Linked (lists : Lists α) (x : α) : Prop := (∃ xs, lists x = some xs) ∨ lists.Entry x

/-- It is in no list, and not the head of one that has entries. -/
def Free (lists : Lists α) (x : α) : Prop := ¬ lists.Entry x ∧ ∀ xs, lists x = some xs → xs = []

/-- No head is in a list, and nothing is in two lists or twice in one. -/
structure WellFormed (lists : Lists α) : Prop where
  entry : ∀ h xs x, lists h = some xs → x ∈ xs → lists x = none
  nodup : ∀ h xs, lists h = some xs → xs.Nodup
  unique : ∀ h h' xs xs' x, lists h = some xs → lists h' = some xs' → x ∈ xs → x ∈ xs' → h = h'

/-- It is in no list any more, and not the head of one. -/
def drop (lists : Lists α) (x : α) : Lists α :=
  fun h => if h = x then none else (lists h).map fun xs => xs.filter (· ≠ x)

/-- A list is another one. -/
def modify (lists : Lists α) (head : α) (place : List α → List α) : Lists α :=
  fun h => if h = head then (lists h).map place else lists h

/-- A new list. -/
def fresh (lists : Lists α) (head : α) : Lists α := fun h => if h = head then some [] else lists h

/-- A list is no more. -/
def without (lists : Lists α) (head : α) : Lists α := fun h => if h = head then none else lists h

/-- A list is another one from here on, and what it had before is a list of its own. -/
def cut (lists : Lists α) (list head : α) (front back : List α) : Lists α :=
  fun h => if h = list then some front else if h = head then some back else lists h

/-- Everything has another name. -/
def rename (lists : Lists α) (f : Equiv.Perm α) : Lists α :=
  fun h => (lists (f.symm h)).map (List.map f)

end Lists

/-- A call. -/
inductive Call (α : Type) where
  | init (list : α)
  | add (new head : α)
  | addTail (new head : α)
  | del (entry : α)
  | delInit (entry : α)
  | move (list head : α)
  | moveTail (list head : α)
  | splice (list head : α)
  | spliceTail (list head : α)
  | spliceInit (list head : α)
  | spliceTailInit (list head : α)
  | replace (old new : α)
  | replaceInit (old new : α)
  | cut (list head entry : α)

namespace Call

/-- The function that is called. -/
def run (m : Memory α) : Call α → Option (Memory α)
  | init list => some (m.initListHead list)
  | add new head => m.listAdd new head
  | addTail new head => m.listAddTail new head
  | del entry => m.listDel entry
  | delInit entry => m.listDelInit entry
  | move list head => m.listMove list head
  | moveTail list head => m.listMoveTail list head
  | splice list head => m.listSplice list head
  | spliceTail list head => m.listSpliceTail list head
  | spliceInit list head => m.listSpliceInit list head
  | spliceTailInit list head => m.listSpliceTailInit list head
  | replace old new => m.listReplace old new
  | replaceInit old new => m.listReplaceInit old new
  | cut list head entry => m.listCutPosition list head entry

/-- **What a call means.**  A list that has been spliced or replaced is not to be used again, if it
has not been initialised.  Nothing is cut off from an empty list, not even an empty one. -/
def apply (lists : Lists α) : Call α → Lists α
  | init list => (lists.drop list).fresh list
  | add new head | move new head => (lists.drop new).modify head (new :: ·)
  | addTail new head | moveTail new head => (lists.drop new).modify head (· ++ [new])
  | del entry => lists.drop entry
  | delInit entry => (lists.drop entry).fresh entry
  | splice list head => (lists.without list).modify head ((lists list).getD [] ++ ·)
  | spliceTail list head => (lists.without list).modify head (· ++ (lists list).getD [])
  | spliceInit list head =>
      ((lists.without list).modify head ((lists list).getD [] ++ ·)).fresh list
  | spliceTailInit list head =>
      ((lists.without list).modify head (· ++ (lists list).getD [])).fresh list
  | replace old new => (lists.drop new).rename (Equiv.swap old new)
  | replaceInit old new => ((lists.drop new).rename (Equiv.swap old new)).fresh old
  | cut list head entry =>
      let entries := (lists head).getD []
      if entries = [] then lists
      else if entry = head then (lists.drop list).fresh list
      else (lists.drop list).cut list head (entries.takeWhile (· ≠ entry) ++ [entry])
        (entries.dropWhile (· ≠ entry)).tail

/-- **When a call is allowed.**  What is initialised or added, what takes another's place and what
is given the first part of a list is free: in no list, and not the head of one that has entries.
What is removed is in a list, or has been initialised; two lists that are joined are two; what is
replaced is an entry or a head. -/
def Allowed (lists : Lists α) : Call α → Prop
  | init list => lists.Free list
  | add new head | addTail new head => lists.Free new ∧ new ≠ head ∧ (lists head).isSome
  | del entry | delInit entry => lists.Entry entry ∨ lists entry = some []
  | move list head | moveTail list head =>
      (lists.Entry list ∨ lists list = some []) ∧ list ≠ head ∧ (lists head).isSome
  | splice list head | spliceTail list head | spliceInit list head | spliceTailInit list head =>
      list ≠ head ∧ (lists list).isSome ∧ (lists head).isSome
  | replace old new | replaceInit old new => lists.Free new ∧ new ≠ old ∧ lists.Linked old
  | cut list head entry =>
      lists.Free list ∧ list ≠ head ∧ ∃ xs, lists head = some xs ∧ entry ∈ head :: xs

end Call

/-! ### The pointers and a permutation -/

section Pointers

variable {m : Memory α} {σ : Equiv.Perm α} {linked : α → Prop} {a e p new list : α} {b : Option α}

@[simp] theorem Memory.next_setNext (x : α) :
    (m.setNext a b).next x = if x = a then b else m.next x :=
  Function.update_apply m.next a b x

@[simp] theorem Memory.prev_setPrev (x : α) :
    (m.setPrev a b).prev x = if x = a then b else m.prev x :=
  Function.update_apply m.prev a b x

@[simp] theorem Memory.prev_setNext : (m.setNext a b).prev = m.prev := rfl

@[simp] theorem Memory.next_setPrev : (m.setPrev a b).next = m.next := rfl

/-- The pointers of what is linked are those of a permutation, which leaves all else alone. -/
structure Stores (m : Memory α) (σ : Equiv.Perm α) (linked : α → Prop) : Prop where
  next : ∀ a, linked a → m.next a = some (σ a)
  prev : ∀ a, linked a → m.prev (σ a) = some a
  fixed : ∀ a, ¬ linked a → σ a = a

omit [DecidableEq α] in
theorem Stores.linked_symm (h : Stores m σ linked) (he : linked e) : linked (σ.symm e) := by
  by_contra hnot
  have hfixed := h.fixed _ hnot
  rw [σ.apply_symm_apply] at hfixed
  rw [← hfixed] at hnot
  exact hnot he

omit [DecidableEq α] in
theorem Stores.prev_eq (h : Stores m σ linked) (he : linked e) : m.prev e = some (σ.symm e) := by
  have hprev := h.prev _ (h.linked_symm he)
  rwa [σ.apply_symm_apply] at hprev

omit [DecidableEq α] in
theorem Stores.apply_ne (h : Stores m σ linked) (he : ¬ linked e) (ha : a ≠ e) : σ a ≠ e :=
  fun hae => ha (σ.injective (hae.trans (h.fixed e he).symm))

omit [DecidableEq α] in
theorem Stores.congr {linked' : α → Prop} (h : Stores m σ linked)
    (hlinked : ∀ a, linked' a ↔ linked a) : Stores m σ linked' := by
  obtain rfl : linked' = linked := funext fun a => propext (hlinked a)
  exact h

theorem Stores.insert (h : Stores m σ linked) (hp : linked p) (hnew : ¬ linked new) :
    Stores (m.listAddBetween new p (σ p)) (σ * Equiv.swap p new) fun a => linked a ∨ a = new := by
  have hfixed := h.fixed new hnew
  have hne : p ≠ new := fun hpn => hnew (hpn ▸ hp)
  unfold Memory.listAddBetween
  -- `prev` has `new` behind it now, and `new` has what `prev` had; all else is as it was.
  constructor
  · intro a ha
    by_cases hap : a = p
    · simp [hap, Way.mul_swap_left, hfixed]
    · by_cases han : a = new
      · simp [han, hne.symm, Way.mul_swap_right]
      · rw [Way.mul_swap_of_ne σ hap han]
        simpa [hap, han] using h.next a (ha.resolve_right han)
  · intro a ha
    by_cases hap : a = p
    · simp [hap, Way.mul_swap_left, hfixed]
    · by_cases han : a = new
      · simp [han, Way.mul_swap_right, h.apply_ne hnew hne]
      · rw [Way.mul_swap_of_ne σ hap han]
        simpa [hap, h.apply_ne hnew han] using h.prev a (ha.resolve_right han)
  · intro a ha
    have hap : a ≠ p := fun hap => ha (.inl (hap ▸ hp))
    rw [Way.mul_swap_of_ne σ hap fun han => ha (.inr han)]
    exact h.fixed a fun hlinked => ha (.inl hlinked)

theorem Stores.delete (h : Stores m σ linked) (he : linked e) :
    ∃ after, m.listDelEntry e = some after ∧
      Stores after (σ * Equiv.swap (σ.symm e) e) fun a => linked a ∧ a ≠ e := by
  refine ⟨m.listDelBetween (σ.symm e) (σ e), ?_, ?_⟩
  · unfold Memory.listDelEntry
    rw [h.prev_eq he, Option.bind_some, h.next e he, Option.map_some]
  · unfold Memory.listDelBetween
    constructor
    · intro a ha
      by_cases hap : a = σ.symm e
      · rw [hap, Way.mul_swap_left]
        simp
      · rw [Way.mul_swap_of_ne σ hap ha.2]
        simpa [hap] using h.next a ha.1
    · intro a ha
      by_cases hap : a = σ.symm e
      · rw [hap, Way.mul_swap_left]
        simp
      · rw [Way.mul_swap_of_ne σ hap ha.2]
        simpa [ha.2] using h.prev a ha.1
    · intro a ha
      by_cases hae : a = e
      · rw [hae, Way.mul_swap_right, σ.apply_symm_apply]
      · have hnot : ¬ linked a := fun hlinked => ha ⟨hlinked, hae⟩
        have hap : a ≠ σ.symm e := fun hap => hnot (hap ▸ h.linked_symm he)
        rw [Way.mul_swap_of_ne σ hap hae, h.fixed a hnot]

theorem Stores.fresh (h : Stores m σ linked) (he : ¬ linked e) :
    Stores (m.initListHead e) σ fun a => linked a ∨ a = e := by
  have hfixed := h.fixed e he
  unfold Memory.initListHead
  constructor
  · intro a ha
    by_cases hae : a = e
    · simp [hae, hfixed]
    · simpa [hae] using h.next a (ha.resolve_right hae)
  · intro a ha
    by_cases hae : a = e
    · simp [hae, hfixed]
    · simpa [h.apply_ne he hae] using h.prev a (ha.resolve_right hae)
  · intro a ha
    exact h.fixed a fun hlinked => ha (.inl hlinked)

theorem Stores.clear (h : Stores m σ linked) (he : ¬ linked e) :
    Stores ((m.setNext e none).setPrev e none) σ linked := by
  constructor
  · intro a ha
    have hae : a ≠ e := fun hae => he (hae ▸ ha)
    simpa [hae] using h.next a ha
  · intro a ha
    have hae : a ≠ e := fun hae => he (hae ▸ ha)
    simpa [h.apply_ne he hae] using h.prev a ha
  · exact h.fixed

/-- A ring is put behind an entry of another one, without its head. -/
theorem Stores.splice (h : Stores m σ linked) (hlist : linked list) (hp : linked p)
    (hne : p ≠ list) (hlast : p ≠ σ.symm list) (hempty : σ list ≠ list) :
    ∃ after, m.listSpliceBetween list p (σ p) = some after ∧
      Stores after (σ * Equiv.swap p list * Equiv.swap (σ.symm list) list)
        fun a => linked a ∧ a ≠ list := by
  have hlast' : σ.symm list ≠ list := fun hsame => hempty ((Equiv.symm_apply_eq σ).mp hsame).symm
  have hfirst : σ list ≠ σ p := σ.injective.ne hne.symm
  have hrun : m.listSpliceBetween list p (σ p) =
      some ((((m.setPrev (σ list) (some p)).setNext p (some (σ list))).setNext (σ.symm list)
        (some (σ p))).setPrev (σ p) (some (σ.symm list))) := by
    unfold Memory.listSpliceBetween
    rw [h.next list hlist, Option.bind_some, h.prev_eq hlist, Option.map_some]
  refine ⟨_, hrun, ?_⟩
  -- Two links change: that from `p`, and that from the last entry of the ring.
  constructor
  · intro a ha
    by_cases hal : a = σ.symm list
    · rw [hal, Way.mul_swap_left, Way.mul_swap_right]
      simp
    · rw [Way.mul_swap_of_ne _ hal ha.2]
      by_cases hap : a = p
      · rw [hap, Way.mul_swap_left]
        simp [hlast]
      · rw [Way.mul_swap_of_ne σ hap ha.2]
        simpa [hal, hap] using h.next a ha.1
  · intro a ha
    by_cases hal : a = σ.symm list
    · rw [hal, Way.mul_swap_left, Way.mul_swap_right]
      simp
    · rw [Way.mul_swap_of_ne _ hal ha.2]
      by_cases hap : a = p
      · rw [hap, Way.mul_swap_left]
        simp [hfirst]
      · rw [Way.mul_swap_of_ne σ hap ha.2]
        simpa [hap, ha.2] using h.prev a ha.1
  · intro a ha
    by_cases hae : a = list
    · rw [hae, Way.mul_swap_right, Way.mul_swap_of_ne σ hlast.symm hlast',
        σ.apply_symm_apply]
    · have hnot : ¬ linked a := fun hlinked => ha ⟨hlinked, hae⟩
      have hap : a ≠ p := fun hap => hnot (hap ▸ hp)
      have hal : a ≠ σ.symm list := fun hal => hnot (hal ▸ h.linked_symm hlist)
      rw [Way.mul_swap_of_ne _ hal hae, Way.mul_swap_of_ne σ hap hae, h.fixed a hnot]

/-- An entry takes the place of another one. -/
theorem Stores.replace {old : α} (h : Stores m σ linked) (hold : linked old)
    (hnew : ¬ linked new) :
    ∃ after, m.listReplace old new = some after ∧
      Stores after (Equiv.swap old new * σ * (Equiv.swap old new)⁻¹)
        fun a => linked ((Equiv.swap old new).symm a) := by
  have hfixed := h.fixed new hnew
  have hrun : m.listReplace old new =
      some ((((m.setNext new (some (σ old))).setPrev (σ old) (some new)).setPrev new
        (some (Equiv.swap old new (σ.symm old)))).setNext (Equiv.swap old new (σ.symm old))
          (some new)) := by
    have hprev : ((m.setNext new (some (σ old))).setPrev (σ old) (some new)).prev old =
        some (Equiv.swap old new (σ.symm old)) := by
      rw [Memory.prev_setPrev, Memory.prev_setNext]
      by_cases hself : σ.symm old = old
      · rw [if_pos ((Equiv.symm_apply_eq σ).mp hself), hself, Equiv.swap_apply_left]
      · have hother : σ.symm old ≠ new := fun hn => hnew (hn ▸ h.linked_symm hold)
        rw [if_neg fun hs => hself ((Equiv.symm_apply_eq σ).mpr hs), h.prev_eq hold,
          Equiv.swap_apply_of_ne_of_ne hself hother]
    unfold Memory.listReplace
    rw [h.next old hold, Option.bind_some]
    dsimp only
    rw [hprev, Option.map_some]
  refine ⟨_, hrun, ?_⟩
  -- What a linked `x` is called afterwards is the name that the swap gives it.
  have hlinks : ∀ x, linked x → x ≠ σ.symm old → σ x ≠ old ∧ σ x ≠ new := fun x hx hxp =>
    ⟨fun hxo => hxp ((Equiv.symm_apply_eq σ).mpr hxo.symm).symm,
      h.apply_ne hnew fun hxn => hnew (hxn ▸ hx)⟩
  have hname : ∀ a, linked ((Equiv.swap old new).symm a) →
      ∃ x, linked x ∧ a = Equiv.swap old new x := fun a ha =>
    ⟨_, ha, ((Equiv.swap old new).apply_symm_apply a).symm⟩
  have hnamed : ∀ x, (Equiv.swap old new * σ * (Equiv.swap old new)⁻¹) (Equiv.swap old new x) =
      Equiv.swap old new (σ x) := fun x => by simp
  constructor
  · intro a ha
    obtain ⟨x, hx, rfl⟩ := hname a ha
    rw [hnamed x]
    by_cases hxp : x = σ.symm old
    · simp [hxp]
    · have hxn : x ≠ new := fun hxn => hnew (hxn ▸ hx)
      obtain ⟨hxo, hxn'⟩ := hlinks x hx hxp
      rw [Equiv.swap_apply_of_ne_of_ne hxo hxn']
      by_cases hold' : x = old
      · have hne : new ≠ Equiv.swap old new (σ.symm old) := fun hsame =>
          hxp (hold'.trans ((Equiv.swap old new).injective
            ((Equiv.swap_apply_left old new).trans hsame)))
        simp [hold', hne]
      · have hsame : Equiv.swap old new x = x := Equiv.swap_apply_of_ne_of_ne hold' hxn
        have hne : x ≠ Equiv.swap old new (σ.symm old) := fun hxs =>
          hxp ((Equiv.swap old new).injective (hsame.trans hxs))
        rw [hsame]
        simpa [hne, hxn] using h.next x hx
  · intro a ha
    obtain ⟨x, hx, rfl⟩ := hname a ha
    rw [hnamed x]
    by_cases hxp : x = σ.symm old
    · simp [hxp]
    · have hxn : x ≠ new := fun hxn => hnew (hxn ▸ hx)
      obtain ⟨hxo, hxn'⟩ := hlinks x hx hxp
      rw [Equiv.swap_apply_of_ne_of_ne hxo hxn']
      by_cases hold' : x = old
      · rw [hold'] at hxn'
        simp [hold', hxn']
      · rw [Equiv.swap_apply_of_ne_of_ne hold' hxn]
        simpa [hxn', hold'] using h.prev x hx
  · intro a ha
    have hstill := h.fixed _ ha
    rw [Equiv.Perm.mul_apply, Equiv.Perm.mul_apply, Equiv.Perm.inv_def, hstill,
      Equiv.apply_symm_apply]

/-- The first entries of a ring come into another one, which had none. -/
theorem Stores.cut {head : α} (h : Stores m σ linked) (hhead : linked head) (he : linked e)
    (hne : e ≠ head) (hlist : ¬ linked list) :
    ∃ after, m.listCutBetween list head e = some after ∧
      Stores after (σ * Equiv.swap head list * Equiv.swap head e) fun a => linked a ∨ a = list := by
  have hfixed := h.fixed list hlist
  have hlh : list ≠ head := fun hlh => hlist (hlh ▸ hhead)
  have hle : list ≠ e := fun hle => hlist (hle ▸ he)
  have hfirst : σ head ≠ σ e := σ.injective.ne hne.symm
  have hrun : m.listCutBetween list head e =
      some ((((((m.setNext list (some (σ head))).setPrev (σ head) (some list)).setPrev list
        (some e)).setNext e (some list)).setNext head (some (σ e))).setPrev (σ e) (some head)) := by
    unfold Memory.listCutBetween
    rw [h.next e he, Option.bind_some, h.next head hhead, Option.map_some]
  refine ⟨_, hrun, ?_⟩
  -- Three links change: those from the head, from the last entry that is cut off, and from `list`.
  constructor
  · intro a ha
    by_cases hah : a = head
    · rw [hah, Way.mul_swap_left, Way.mul_swap_of_ne σ hne hle.symm]
      simp
    · by_cases hae : a = e
      · rw [hae, Way.mul_swap_right, Way.mul_swap_left, hfixed]
        simp [hne]
      · rw [Way.mul_swap_of_ne _ hah hae]
        by_cases hal : a = list
        · rw [hal, Way.mul_swap_right]
          simp [hlh, hle]
        · rw [Way.mul_swap_of_ne σ hah hal]
          simpa [hah, hae, hal] using h.next a (ha.resolve_right hal)
  · intro a ha
    by_cases hah : a = head
    · rw [hah, Way.mul_swap_left, Way.mul_swap_of_ne σ hne hle.symm]
      simp
    · by_cases hae : a = e
      · rw [hae, Way.mul_swap_right, Way.mul_swap_left, hfixed]
        simp [(h.apply_ne hlist hle.symm).symm]
      · rw [Way.mul_swap_of_ne _ hah hae]
        by_cases hal : a = list
        · rw [hal, Way.mul_swap_right]
          simp [hfirst, h.apply_ne hlist hlh.symm]
        · rw [Way.mul_swap_of_ne σ hah hal]
          simpa [hah, hae, h.apply_ne hlist hal] using h.prev a (ha.resolve_right hal)
  · intro a ha
    have hnot : ¬ linked a := fun hlinked => ha (.inl hlinked)
    have hah : a ≠ head := fun hah => hnot (hah ▸ hhead)
    have hae : a ≠ e := fun hae => hnot (hae ▸ he)
    rw [Way.mul_swap_of_ne _ hah hae, Way.mul_swap_of_ne σ hah fun hal => ha (.inr hal),
      h.fixed a hnot]

end Pointers

end Webcamd.Kernel.ListHead
