import Webcamd.Library.TailQueue

/-!
# Request ledgers

What a first-come-first-served queue is *for*, without links, locks or threads:
requests are issued in some order, each later either starts or is dropped, a
started one later finishes, and **whatever starts is the oldest request that is
still waiting**.  `Ledger` is that bookkeeping and `Ledger.apply` its four moves;
a move that would start a request out of turn, or finish or drop one that is not
there, is refused.

Requests for the same item may be issued many times, so each gets a ticket: the
item with its position in the order of issue.  Laws about *which* request started,
finished or was dropped are then laws about lists of tickets:

* `Balanced.fifo` — what has started, followed by what is waiting, is what was
  issued without what was dropped, in the order of issue;
* `Balanced.served` — what has started is what is active together with what has
  finished;
* `issued_cases` — every ticket issued is outstanding or retired, and
  `Retired.apply` — once retired it stays so;
* `count_issue` / `count_start` — the same as laws of counting, per item.

A program refines a ledger when its history, read as moves, is accepted.
-/

namespace Webcamd.Library

universe u

/-- One request: an item and its place in the order of issue. -/
structure Ticket (α : Type u) where
  number : ℕ
  item : α
  deriving DecidableEq

/-- The bookkeeping of a queue of requests. -/
@[ext]
structure Ledger (α : Type u) where
  /-- Everything ever issued, oldest first. -/
  issued : List (Ticket α)
  /-- Issued, neither started nor dropped, oldest first. -/
  waiting : List (Ticket α)
  /-- Everything ever started, in the order of starting. -/
  started : List (Ticket α)
  /-- Started and not finished. -/
  active : List (Ticket α)
  /-- Started and finished. -/
  finished : List (Ticket α)
  /-- Dropped while waiting. -/
  dropped : List (Ticket α)

namespace Ledger

/-- The moves of a ledger. -/
inductive Op (α : Type u) where
  | issue (item : α)
  | start (item : α)
  | finish (item : α)
  | drop (item : α)
  deriving DecidableEq

variable {α : Type u} [DecidableEq α]

/-- Nothing has been issued. -/
def empty : Ledger α := ⟨[], [], [], [], [], []⟩

/-- The ticket the next request gets. -/
def nextTicket (ledger : Ledger α) (item : α) : Ticket α :=
  ⟨ledger.issued.length, item⟩

/-- One move; `none` if it is refused. -/
def apply (ledger : Ledger α) : Op α → Option (Ledger α)
  | .issue item =>
      some { ledger with
        issued := ledger.issued ++ [ledger.nextTicket item]
        waiting := ledger.waiting ++ [ledger.nextTicket item] }
  | .start item =>
      match ledger.waiting with
      | [] => none
      | ticket :: rest =>
          if ticket.item = item then
            some { ledger with
              waiting := rest
              started := ledger.started ++ [ticket]
              active := ledger.active ++ [ticket] }
          else none
  | .finish item =>
      (ledger.active.find? fun ticket => ticket.item = item).map fun ticket =>
        { ledger with
          active := ledger.active.erase ticket
          finished := ledger.finished ++ [ticket] }
  | .drop item =>
      (ledger.waiting.find? fun ticket => ticket.item = item).map fun ticket =>
        { ledger with
          waiting := ledger.waiting.erase ticket
          dropped := ledger.dropped ++ [ticket] }

/-- Apply moves in order. -/
def replayFrom : Ledger α → List (Op α) → Option (Ledger α)
  | ledger, [] => some ledger
  | ledger, op :: rest => (ledger.apply op).bind fun next => replayFrom next rest

/-- The ledger of a whole history. -/
def replay (ops : List (Op α)) : Option (Ledger α) := replayFrom empty ops

theorem replayFrom_append (ledger : Ledger α) (first second : List (Op α)) :
    replayFrom ledger (first ++ second) =
      (replayFrom ledger first).bind fun middle => replayFrom middle second := by
  induction first generalizing ledger with
  | nil => rfl
  | cons op rest ih =>
      simp only [List.cons_append, replayFrom]
      cases ledger.apply op with
      | none => rfl
      | some next => simpa using ih next

/-- A history that is accepted and extended by accepted moves is accepted. -/
theorem replay_append {first second : List (Op α)} {middle last : Ledger α}
    (hfirst : replay first = some middle) (hsecond : replayFrom middle second = some last) :
    replay (first ++ second) = some last := by
  rw [replay, replayFrom_append, show replayFrom empty first = some middle from hfirst,
    Option.bind_some, hsecond]

@[simp] theorem replayFrom_nil (ledger : Ledger α) :
    replayFrom ledger [] = some ledger := rfl

@[simp] theorem replayFrom_singleton (ledger : Ledger α) (op : Op α) :
    replayFrom ledger [op] = ledger.apply op := by
  simp [replayFrom]

/-! ### What each move can do -/

theorem apply_start_eq_some {ledger next : Ledger α} {item : α}
    (h : ledger.apply (.start item) = some next) :
    ∃ ticket rest, ledger.waiting = ticket :: rest ∧ ticket.item = item ∧
      next = { ledger with
        waiting := rest
        started := ledger.started ++ [ticket]
        active := ledger.active ++ [ticket] } := by
  simp only [apply] at h
  split at h
  · cases h
  · rename_i ticket rest hwaiting
    split at h
    · rename_i hitem
      exact ⟨ticket, rest, hwaiting, hitem, (Option.some.inj h).symm⟩
    · cases h

theorem apply_finish_eq_some {ledger next : Ledger α} {item : α}
    (h : ledger.apply (.finish item) = some next) :
    ∃ ticket ∈ ledger.active, ticket.item = item ∧
      next = { ledger with
        active := ledger.active.erase ticket
        finished := ledger.finished ++ [ticket] } := by
  simp only [apply, Option.map_eq_some_iff] at h
  obtain ⟨ticket, hfind, rfl⟩ := h
  exact ⟨ticket, List.mem_of_find?_eq_some hfind, by simpa using List.find?_some hfind, rfl⟩

theorem apply_drop_eq_some {ledger next : Ledger α} {item : α}
    (h : ledger.apply (.drop item) = some next) :
    ∃ ticket ∈ ledger.waiting, ticket.item = item ∧
      next = { ledger with
        waiting := ledger.waiting.erase ticket
        dropped := ledger.dropped ++ [ticket] } := by
  simp only [apply, Option.map_eq_some_iff] at h
  obtain ⟨ticket, hfind, rfl⟩ := h
  exact ⟨ticket, List.mem_of_find?_eq_some hfind, by simpa using List.find?_some hfind, rfl⟩

/-- A request that is outstanding after a move was outstanding before it, or was issued
by it. -/
theorem outstanding_apply {ledger next : Ledger α} {op : Op α}
    (h : ledger.apply op = some next) {ticket : Ticket α}
    (hmem : ticket ∈ next.waiting ++ next.active) :
    ticket ∈ ledger.waiting ++ ledger.active ∨ op = .issue ticket.item := by
  cases op with
  | issue item =>
      obtain rfl := Option.some.inj h
      simp only [List.append_assoc, List.mem_append, List.mem_singleton] at hmem ⊢
      rcases hmem with hmem | rfl | hmem
      · exact .inl (.inl hmem)
      · exact .inr rfl
      · exact .inl (.inr hmem)
  | start item =>
      obtain ⟨first, rest, hwaiting, -, rfl⟩ := apply_start_eq_some h
      simp only [hwaiting, List.mem_append, List.mem_cons, List.not_mem_nil, or_false] at hmem ⊢
      tauto
  | finish item =>
      obtain ⟨first, -, -, rfl⟩ := apply_finish_eq_some h
      simp only [List.mem_append] at hmem ⊢
      exact .inl (hmem.imp_right List.mem_of_mem_erase)
  | drop item =>
      obtain ⟨first, -, -, rfl⟩ := apply_drop_eq_some h
      simp only [List.mem_append] at hmem ⊢
      exact .inl (hmem.imp_left List.mem_of_mem_erase)

theorem outstanding_replayFrom {ledger last : Ledger α} {ops : List (Op α)}
    (h : ledger.replayFrom ops = some last) {ticket : Ticket α}
    (hmem : ticket ∈ last.waiting ++ last.active) :
    ticket ∈ ledger.waiting ++ ledger.active ∨ .issue ticket.item ∈ ops := by
  induction ops generalizing ledger with
  | nil =>
      obtain rfl := Option.some.inj h
      exact .inl hmem
  | cons op rest ih =>
      obtain ⟨next, hfirst, hrest⟩ := Option.bind_eq_some_iff.mp h
      rcases ih hrest with hnext | hissued
      · refine (outstanding_apply hfirst hnext).imp_right fun hop => ?_
        exact hop ▸ List.mem_cons_self
      · exact .inr (List.mem_cons_of_mem _ hissued)

/-! ### When a move is accepted

In terms of the items alone, since that is what a program can see. -/

theorem map_erase_of_find? {tickets : List (Ticket α)} {item : α} {ticket : Ticket α}
    (h : (tickets.find? fun other => other.item = item) = some ticket) :
    (tickets.erase ticket).map Ticket.item = (tickets.map Ticket.item).erase item := by
  induction tickets with
  | nil => cases h
  | cons head rest ih =>
      by_cases hhead : head.item = item
      · rw [List.find?_cons_of_pos (by simpa using hhead)] at h
        obtain rfl := Option.some.inj h
        simp [hhead]
      · rw [List.find?_cons_of_neg (by simpa using hhead)] at h
        have hitem : ticket.item = item := by simpa using List.find?_some h
        have hne : head ≠ ticket := fun heq => hhead (heq ▸ hitem)
        rw [List.erase_cons_tail (by simpa using hne), List.map_cons, List.map_cons,
          List.erase_cons_tail (by simpa using hhead), ih h]

theorem apply_start_of_head {ledger : Ledger α} {item : α} {rest : List α}
    (h : ledger.waiting.map Ticket.item = item :: rest) :
    ∃ next, ledger.apply (.start item) = some next ∧
      next.waiting.map Ticket.item = rest ∧
      next.active.map Ticket.item = ledger.active.map Ticket.item ++ [item] := by
  cases hwaiting : ledger.waiting with
  | nil => simp [hwaiting] at h
  | cons ticket tail =>
      rw [hwaiting, List.map_cons, List.cons.injEq] at h
      obtain ⟨hitem, htail⟩ := h
      exact ⟨_, by simp only [apply, hwaiting, hitem, if_true]; rfl, htail, by simp [hitem]⟩

theorem apply_finish_of_mem {ledger : Ledger α} {item : α}
    (h : item ∈ ledger.active.map Ticket.item) :
    ∃ next, ledger.apply (.finish item) = some next ∧
      next.waiting = ledger.waiting ∧
      next.active.map Ticket.item = (ledger.active.map Ticket.item).erase item := by
  obtain ⟨ticket, hmem, hitem⟩ := List.mem_map.mp h
  cases hfind : ledger.active.find? fun other => other.item = item with
  | none => exact absurd hitem (by simpa using List.find?_eq_none.mp hfind ticket hmem)
  | some found =>
      refine ⟨{ ledger with
        active := ledger.active.erase found
        finished := ledger.finished ++ [found] }, ?_, rfl, map_erase_of_find? hfind⟩
      simp only [apply, hfind, Option.map_some]

theorem apply_drop_of_mem {ledger : Ledger α} {item : α}
    (h : item ∈ ledger.waiting.map Ticket.item) :
    ∃ next, ledger.apply (.drop item) = some next ∧
      next.active = ledger.active ∧
      next.waiting.map Ticket.item = (ledger.waiting.map Ticket.item).erase item := by
  obtain ⟨ticket, hmem, hitem⟩ := List.mem_map.mp h
  cases hfind : ledger.waiting.find? fun other => other.item = item with
  | none => exact absurd hitem (by simpa using List.find?_eq_none.mp hfind ticket hmem)
  | some found =>
      refine ⟨{ ledger with
        waiting := ledger.waiting.erase found
        dropped := ledger.dropped ++ [found] }, ?_, rfl, map_erase_of_find? hfind⟩
      simp only [apply, hfind, Option.map_some]

/-! ### The items of a history -/

/-- The item a move issues. -/
def Op.issueItem : Op α → Option α
  | .issue item => some item
  | _ => none

/-- The item a move starts. -/
def Op.startItem : Op α → Option α
  | .start item => some item
  | _ => none

/-- The item a move drops. -/
def Op.dropItem : Op α → Option α
  | .drop item => some item
  | _ => none

/-- What was issued, started and dropped, as the history has it. -/
theorem items_replayFrom {ledger last : Ledger α} {ops : List (Op α)}
    (hops : ledger.replayFrom ops = some last) :
    last.issued.map Ticket.item =
        ledger.issued.map Ticket.item ++ ops.filterMap Op.issueItem ∧
      last.started.map Ticket.item =
        ledger.started.map Ticket.item ++ ops.filterMap Op.startItem ∧
      last.dropped.map Ticket.item =
        ledger.dropped.map Ticket.item ++ ops.filterMap Op.dropItem := by
  induction ops generalizing ledger with
  | nil =>
      obtain rfl := Option.some.inj hops
      simp
  | cons op rest ih =>
      obtain ⟨next, hop, hrest⟩ := Option.bind_eq_some_iff.mp hops
      obtain ⟨hissued, hstarted, hdropped⟩ := ih hrest
      rw [hissued, hstarted, hdropped]
      cases op with
      | issue item =>
          obtain rfl := (Option.some.inj hop).symm
          simp [nextTicket, Op.issueItem, Op.startItem, Op.dropItem, List.filterMap_cons]
      | start item =>
          obtain ⟨ticket, tail, -, rfl, rfl⟩ := apply_start_eq_some hop
          simp [Op.issueItem, Op.startItem, Op.dropItem, List.filterMap_cons]
      | finish item =>
          obtain ⟨ticket, -, -, rfl⟩ := apply_finish_eq_some hop
          simp [Op.issueItem, Op.startItem, Op.dropItem, List.filterMap_cons]
      | drop item =>
          obtain ⟨ticket, -, rfl, rfl⟩ := apply_drop_eq_some hop
          simp [Op.issueItem, Op.startItem, Op.dropItem, List.filterMap_cons]

/-! ### The laws -/

/-- The laws every ledger reached from the empty one obeys. -/
structure Balanced (ledger : Ledger α) : Prop where
  /-- Tickets are numbered in the order of issue. -/
  numbered : ledger.issued.map Ticket.number = List.range ledger.issued.length
  /-- First come, first served. -/
  fifo : ledger.started ++ ledger.waiting =
    ledger.issued.filter fun ticket => ticket ∉ ledger.dropped
  /-- What has started is active or finished. -/
  served : ledger.started.Perm (ledger.active ++ ledger.finished)
  /-- Only what was issued can have been dropped. -/
  dropped_issued : ∀ ticket ∈ ledger.dropped, ticket ∈ ledger.issued

namespace Balanced

variable {ledger : Ledger α}

theorem empty : Balanced (Ledger.empty : Ledger α) :=
  ⟨rfl, rfl, List.Perm.refl _, by simp [Ledger.empty]⟩

theorem issued_nodup (h : Balanced ledger) : ledger.issued.Nodup :=
  List.Nodup.of_map Ticket.number (h.numbered ▸ List.nodup_range)

/-- What has started or is waiting, in the order of issue, without repetition. -/
theorem queue_nodup (h : Balanced ledger) :
    (ledger.started ++ ledger.waiting).Nodup := by
  rw [h.fifo]
  exact h.issued_nodup.filter _

theorem nextTicket_notMem (h : Balanced ledger) (item : α) :
    ledger.nextTicket item ∉ ledger.issued := by
  intro hmem
  have hnumber : (ledger.nextTicket item).number ∈ ledger.issued.map Ticket.number :=
    List.mem_map_of_mem hmem
  rw [h.numbered, List.mem_range] at hnumber
  exact absurd hnumber (lt_irrefl _)

/-- **Every move keeps the laws.** -/
theorem apply (h : Balanced ledger) {op : Op α} {next : Ledger α}
    (hop : ledger.apply op = some next) : Balanced next := by
  cases op with
  | issue item =>
      obtain rfl := (Option.some.inj hop).symm
      refine ⟨?_, ?_, h.served, ?_⟩
      · simp [h.numbered, nextTicket, List.range_succ]
      · have hkeep : ledger.nextTicket item ∉ ledger.dropped := fun hmem =>
          h.nextTicket_notMem item (h.dropped_issued _ hmem)
        simp [← List.append_assoc, h.fifo, hkeep]
      · intro ticket hmem
        exact List.mem_append_left _ (h.dropped_issued ticket hmem)
  | start item =>
      obtain ⟨ticket, rest, hwaiting, -, rfl⟩ := apply_start_eq_some hop
      refine ⟨h.numbered, ?_, ?_, h.dropped_issued⟩
      · rw [← h.fifo, hwaiting]
        simp
      · have hperm := h.served.append_right [ticket]
        refine hperm.trans ?_
        rw [List.append_assoc, List.append_assoc]
        exact List.Perm.append_left _ List.perm_append_comm
  | finish item =>
      obtain ⟨ticket, hmem, -, rfl⟩ := apply_finish_eq_some hop
      refine ⟨h.numbered, h.fifo, ?_, h.dropped_issued⟩
      refine h.served.trans ?_
      refine ((List.perm_cons_erase hmem).append_right _).trans ?_
      rw [List.cons_append, ← List.append_assoc]
      exact (List.perm_append_singleton ticket _).symm
  | drop item =>
      obtain ⟨ticket, hmem, -, rfl⟩ := apply_drop_eq_some hop
      have hnodup := h.queue_nodup
      have hnotStarted : ticket ∉ ledger.started := fun hin =>
        (List.nodup_append.mp hnodup).2.2 ticket hin ticket hmem rfl
      refine ⟨h.numbered, ?_, h.served, ?_⟩
      · have hfilter : (ledger.issued.filter fun other => other ∉ ledger.dropped ++ [ticket])
            = (ledger.issued.filter fun other => other ∉ ledger.dropped).filter
                (fun other => other ≠ ticket) := by
          rw [List.filter_filter]
          refine List.filter_congr fun other _ => ?_
          by_cases hin : other ∈ ledger.dropped <;> simp [hin]
        show ledger.started ++ ledger.waiting.erase ticket = _
        rw [hfilter, ← h.fifo, ← List.erase_append_right _ hnotStarted,
          hnodup.erase_eq_filter]
        refine List.filter_congr fun other _ => ?_
        by_cases heq : other = ticket <;> simp [heq]
      · intro other hother
        rcases List.mem_append.mp hother with hin | hin
        · exact h.dropped_issued other hin
        · rw [List.mem_singleton] at hin
          subst hin
          have hqueue : other ∈ ledger.started ++ ledger.waiting :=
            List.mem_append_right _ hmem
          rw [h.fifo] at hqueue
          exact List.mem_of_mem_filter hqueue

theorem replayFrom (h : Balanced ledger) {ops : List (Op α)} {last : Ledger α}
    (hops : ledger.replayFrom ops = some last) : Balanced last := by
  induction ops generalizing ledger with
  | nil =>
      obtain rfl := Option.some.inj hops
      exact h
  | cons op rest ih =>
      obtain ⟨next, hop, hrest⟩ := Option.bind_eq_some_iff.mp hops
      exact ih (h.apply hop) hrest

end Balanced

/-- **Every accepted history is balanced.** -/
theorem balanced_of_replay {ops : List (Op α)} {ledger : Ledger α}
    (h : replay ops = some ledger) : Balanced ledger :=
  Balanced.empty.replayFrom h

/-! ### Outstanding and retired requests -/

/-- The request is waiting or being served. -/
def Outstanding (ledger : Ledger α) (ticket : Ticket α) : Prop :=
  ticket ∈ ledger.waiting ∨ ticket ∈ ledger.active

/-- The request has been served or dropped. -/
def Retired (ledger : Ledger α) (ticket : Ticket α) : Prop :=
  ticket ∈ ledger.finished ∨ ticket ∈ ledger.dropped

/-- Every request that was ever issued is outstanding or retired. -/
theorem Balanced.issued_cases {ledger : Ledger α} (h : Balanced ledger)
    {ticket : Ticket α} (hmem : ticket ∈ ledger.issued) :
    Outstanding ledger ticket ∨ Retired ledger ticket := by
  by_cases hdropped : ticket ∈ ledger.dropped
  · exact Or.inr (Or.inr hdropped)
  · have hqueue : ticket ∈ ledger.started ++ ledger.waiting := by
      rw [h.fifo]
      simpa [hdropped] using hmem
    rcases List.mem_append.mp hqueue with hstarted | hwaiting
    · rcases List.mem_append.mp (h.served.mem_iff.mp hstarted) with hin | hin
      · exact Or.inl (Or.inr hin)
      · exact Or.inr (Or.inl hin)
    · exact Or.inl (Or.inl hwaiting)

/-- Outstanding requests were issued. -/
theorem Balanced.issued_of_outstanding {ledger : Ledger α} (h : Balanced ledger)
    {ticket : Ticket α} (hout : Outstanding ledger ticket) : ticket ∈ ledger.issued := by
  have hqueue : ticket ∈ ledger.started ++ ledger.waiting := by
    rcases hout with hin | hin
    · exact List.mem_append_right _ hin
    · exact List.mem_append_left _ (h.served.mem_iff.mpr (List.mem_append_left _ hin))
  rw [h.fifo] at hqueue
  exact List.mem_of_mem_filter hqueue

/-- Issued and retired requests stay so. -/
theorem mono_apply {ledger next : Ledger α} {op : Op α}
    (hop : ledger.apply op = some next) :
    (∀ ticket ∈ ledger.issued, ticket ∈ next.issued) ∧
      ∀ ticket, Retired ledger ticket → Retired next ticket := by
  cases op with
  | issue item =>
      obtain rfl := (Option.some.inj hop).symm
      exact ⟨fun ticket hmem => List.mem_append_left _ hmem, fun _ h => h⟩
  | start item =>
      obtain ⟨ticket, rest, -, -, rfl⟩ := apply_start_eq_some hop
      exact ⟨fun _ h => h, fun _ h => h⟩
  | finish item =>
      obtain ⟨ticket, -, -, rfl⟩ := apply_finish_eq_some hop
      exact ⟨fun _ h => h, fun _ h => h.imp_left (List.mem_append_left _)⟩
  | drop item =>
      obtain ⟨ticket, -, -, rfl⟩ := apply_drop_eq_some hop
      exact ⟨fun _ h => h, fun _ h => h.imp_right (List.mem_append_left _)⟩

theorem mono_replayFrom {ledger last : Ledger α} {ops : List (Op α)}
    (hops : ledger.replayFrom ops = some last) :
    (∀ ticket ∈ ledger.issued, ticket ∈ last.issued) ∧
      ∀ ticket, Retired ledger ticket → Retired last ticket := by
  induction ops generalizing ledger with
  | nil =>
      obtain rfl := Option.some.inj hops
      exact ⟨fun _ h => h, fun _ h => h⟩
  | cons op rest ih =>
      obtain ⟨next, hop, hrest⟩ := Option.bind_eq_some_iff.mp hops
      obtain ⟨hissued, hretired⟩ := mono_apply hop
      obtain ⟨hissued', hretired'⟩ := ih hrest
      exact ⟨fun ticket hmem => hissued' ticket (hissued ticket hmem),
        fun ticket h => hretired' ticket (hretired ticket h)⟩

/-! ### The laws of counting -/

omit [DecidableEq α] in
/-- In a history that is read as something else, everything is counted by the events
that stand for it. -/
theorem count_filterMap {β γ : Type u} [DecidableEq γ] {f : β → Option γ} {c : γ}
    {p : β → Bool} (h : ∀ event, f event = some c ↔ p event = true) (history : List β) :
    (history.filterMap f).count c = history.countP p := by
  rw [List.count, List.countP_filterMap]
  refine List.countP_congr fun event _ => ?_
  rw [← h event]
  cases f event <;> simp

/-- How many of these requests are for the item. -/
def countItem (tickets : List (Ticket α)) (item : α) : ℕ :=
  (tickets.map Ticket.item).count item

@[simp] theorem countItem_nil (item : α) : countItem ([] : List (Ticket α)) item = 0 := rfl

@[simp] theorem countItem_cons (ticket : Ticket α) (rest : List (Ticket α)) (item : α) :
    countItem (ticket :: rest) item =
      countItem rest item + if ticket.item = item then 1 else 0 := by
  simp [countItem, List.count_cons]

@[simp] theorem countItem_append (front back : List (Ticket α)) (item : α) :
    countItem (front ++ back) item = countItem front item + countItem back item := by
  simp [countItem]

theorem countItem_perm {tickets other : List (Ticket α)} (h : tickets.Perm other)
    (item : α) : countItem tickets item = countItem other item :=
  (h.map Ticket.item).count_eq item

theorem countItem_erase {tickets : List (Ticket α)} {ticket : Ticket α}
    (hmem : ticket ∈ tickets) (item : α) :
    countItem tickets item =
      countItem (tickets.erase ticket) item + if ticket.item = item then 1 else 0 := by
  rw [countItem_perm (List.perm_cons_erase hmem) item, countItem_cons]

/-- Requests issued for an item: started, dropped, or waiting. -/
theorem count_issue_replayFrom {ledger last : Ledger α} {ops : List (Op α)}
    (hops : ledger.replayFrom ops = some last) (item : α) :
    ops.count (.issue item) + countItem ledger.waiting item =
      ops.count (.start item) + ops.count (.drop item) + countItem last.waiting item := by
  induction ops generalizing ledger with
  | nil =>
      obtain rfl := Option.some.inj hops
      simp
  | cons op rest ih =>
      obtain ⟨next, hop, hrest⟩ := Option.bind_eq_some_iff.mp hops
      have hcount := ih hrest
      cases op with
      | issue other =>
          obtain rfl := (Option.some.inj hop).symm
          simp only [countItem_append, countItem_cons, countItem_nil, nextTicket] at hcount
          simp only [List.count_cons, beq_iff_eq, reduceCtorEq, if_false, Op.issue.injEq]
          omega
      | start other =>
          obtain ⟨ticket, tail, hwaiting, rfl, rfl⟩ := apply_start_eq_some hop
          simp only at hcount
          simp only [hwaiting, List.count_cons, beq_iff_eq, reduceCtorEq, if_false,
            Op.start.injEq, countItem_cons]
          omega
      | finish other =>
          obtain ⟨ticket, -, -, rfl⟩ := apply_finish_eq_some hop
          simpa [List.count_cons] using hcount
      | drop other =>
          obtain ⟨ticket, hmem, rfl, rfl⟩ := apply_drop_eq_some hop
          simp only at hcount
          rw [countItem_erase hmem item]
          simp only [List.count_cons, beq_iff_eq, reduceCtorEq, if_false, Op.drop.injEq]
          omega

/-- Requests started for an item: finished or active. -/
theorem count_start_replayFrom {ledger last : Ledger α} {ops : List (Op α)}
    (hops : ledger.replayFrom ops = some last) (item : α) :
    ops.count (.start item) + countItem ledger.active item =
      ops.count (.finish item) + countItem last.active item := by
  induction ops generalizing ledger with
  | nil =>
      obtain rfl := Option.some.inj hops
      simp
  | cons op rest ih =>
      obtain ⟨next, hop, hrest⟩ := Option.bind_eq_some_iff.mp hops
      have hcount := ih hrest
      cases op with
      | issue other =>
          obtain rfl := (Option.some.inj hop).symm
          simpa [List.count_cons] using hcount
      | start other =>
          obtain ⟨ticket, tail, -, rfl, rfl⟩ := apply_start_eq_some hop
          simp only [countItem_append, countItem_cons, countItem_nil] at hcount
          simp only [List.count_cons, beq_iff_eq, reduceCtorEq, if_false, Op.start.injEq]
          omega
      | finish other =>
          obtain ⟨ticket, hmem, rfl, rfl⟩ := apply_finish_eq_some hop
          simp only at hcount
          rw [countItem_erase hmem item]
          simp only [List.count_cons, beq_iff_eq, reduceCtorEq, if_false, Op.finish.injEq]
          omega
      | drop other =>
          obtain ⟨ticket, -, -, rfl⟩ := apply_drop_eq_some hop
          simpa [List.count_cons] using hcount

/-- How many requests for the item are waiting or being served. -/
def countOutstanding (ledger : Ledger α) (item : α) : ℕ :=
  countItem ledger.waiting item + countItem ledger.active item

/-- Requests issued for an item: finished, dropped, or outstanding. -/
theorem count_outstanding_replayFrom {ledger last : Ledger α} {ops : List (Op α)}
    (hops : ledger.replayFrom ops = some last) (item : α) :
    ops.count (.issue item) + ledger.countOutstanding item =
      ops.count (.finish item) + ops.count (.drop item) + last.countOutstanding item := by
  have hissue := count_issue_replayFrom hops item
  have hstart := count_start_replayFrom hops item
  unfold countOutstanding
  omega

end Ledger

end Webcamd.Library
