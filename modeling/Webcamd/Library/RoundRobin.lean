import Mathlib

/-!
# Round robin: a queue that is served from the head

A queue of jobs is served one job at a time.  A job that is served may stop the service, leave
the queue, or go to its tail and wait again (`Fate`).  Whether the service comes to an end can
be told from each job alone.

* `turn` — one job is served; the service is over when there is none, or when it stops.
* `Ends` — the service comes to an end.
* `Stops`, `Leaves` — what becomes of a single job, if it is served often enough.
* `ends_iff` — the service ends exactly when some job stops it, or every job leaves.
-/

namespace Webcamd.Library.RoundRobin

variable {α : Type}

/-- What serving a job leads to. -/
inductive Fate (α : Type) where
  | stop
  | leave
  | again (next : α)

/-- Serving the first job. -/
def turn (fate : α → Fate α) : List α → Option (List α)
  | [] => none
  | job :: rest =>
      match fate job with
      | .stop => none
      | .leave => some rest
      | .again next => some (rest ++ [next])

/-- The service comes to an end. -/
inductive Ends (fate : α → Fate α) : List α → Prop where
  | done {queue : List α} (h : turn fate queue = none) : Ends fate queue
  | more {queue next : List α} (h : turn fate queue = some next) (rest : Ends fate next) :
      Ends fate queue

/-- Served often enough, the job stops the service. -/
inductive Stops (fate : α → Fate α) : α → Prop where
  | now {job : α} (h : fate job = .stop) : Stops fate job
  | later {job next : α} (h : fate job = .again next) (rest : Stops fate next) : Stops fate job

/-- Served one time more than this, the job leaves the queue. -/
inductive Leaves (fate : α → Fate α) : ℕ → α → Prop where
  | now {job : α} (h : fate job = .leave) : Leaves fate 0 job
  | later {n : ℕ} {job next : α} (h : fate job = .again next) (rest : Leaves fate n next) :
      Leaves fate (n + 1) job

variable {fate : α → Fate α}

@[simp] theorem turn_nil : turn fate [] = none := rfl

theorem turn_stop {job : α} {rest : List α} (h : fate job = .stop) :
    turn fate (job :: rest) = none := by
  simp [turn, h]

theorem turn_leave {job : α} {rest : List α} (h : fate job = .leave) :
    turn fate (job :: rest) = some rest := by
  simp [turn, h]

theorem turn_again {job next : α} {rest : List α} (h : fate job = .again next) :
    turn fate (job :: rest) = some (rest ++ [next]) := by
  simp [turn, h]

/-- A job that ends the service from the head of a queue ends it from anywhere: its turn
comes. -/
theorem ends_append {job : α} (hhead : ∀ back, Ends fate (job :: back)) (front back : List α) :
    Ends fate (front ++ job :: back) := by
  induction front generalizing back with
  | nil => exact hhead back
  | cons first front ih =>
      cases hfate : fate first with
      | stop => exact .done (turn_stop hfate)
      | leave => exact .more (turn_leave hfate) (ih back)
      | again next =>
          refine .more (turn_again hfate) ?_
          show Ends fate ((front ++ job :: back) ++ [next])
          rw [List.append_assoc, List.cons_append]
          exact ih (back ++ [next])

/-- **A job that stops the service** is served often enough for that. -/
theorem ends_of_stops {job : α} (hstops : Stops fate job) (front back : List α) :
    Ends fate (front ++ job :: back) := by
  induction hstops generalizing front back with
  | now h => exact ends_append (fun back => .done (turn_stop h)) front back
  | later h rest ih => exact ends_append (fun back => .more (turn_again h) (ih back [])) front back

/-- **When all jobs leave**, the queue becomes empty; what decreases is how often the jobs are
served in all. -/
theorem ends_of_leaves {counts : List ℕ} {queue : List α}
    (hleaves : List.Forall₂ (Leaves fate) counts queue) : Ends fate queue := by
  induction hwork : counts.sum + counts.length using Nat.strong_induction_on
    generalizing counts queue with
  | h work ih =>
      cases hleaves with
      | nil => exact .done rfl
      | @cons count job counts queue hjob hrest =>
          rw [List.sum_cons, List.length_cons] at hwork
          cases hjob with
          | now h => exact .more (turn_leave h) (ih _ (by omega) hrest rfl)
          | @later n _ next h hnext =>
              refine .more (turn_again h) (ih _ ?_ (List.rel_append hrest (.cons hnext .nil)) rfl)
              rw [List.sum_append, List.length_append, List.sum_singleton, List.length_singleton]
              omega

/-- **The service ends exactly when some job stops it, or every job leaves.** -/
theorem ends_iff (queue : List α) :
    Ends fate queue ↔
      (∃ job ∈ queue, Stops fate job) ∨ ∀ job ∈ queue, ∃ n, Leaves fate n job := by
  constructor
  · intro h
    induction h with
    | @done queue h =>
        cases queue with
        | nil => simp
        | cons job rest =>
            cases hfate : fate job with
            | stop => exact Or.inl ⟨job, List.mem_cons_self, .now hfate⟩
            | leave => simp [turn_leave hfate] at h
            | again next => simp [turn_again hfate] at h
    | @more queue after h hends ih =>
        cases queue with
        | nil => simp at h
        | cons job rest =>
            cases hfate : fate job with
            | stop => simp [turn_stop hfate] at h
            | leave =>
                obtain rfl := Option.some.inj ((turn_leave hfate).symm.trans h)
                rcases ih with ⟨other, hmem, hstops⟩ | hall
                · exact Or.inl ⟨other, List.mem_cons_of_mem job hmem, hstops⟩
                · exact Or.inr (List.forall_mem_cons.mpr ⟨⟨0, .now hfate⟩, hall⟩)
            | again next =>
                obtain rfl := Option.some.inj ((turn_again hfate).symm.trans h)
                simp only [List.mem_append, List.mem_singleton] at ih
                rcases ih with ⟨other, hmem | rfl, hstops⟩ | hall
                · exact Or.inl ⟨other, List.mem_cons_of_mem job hmem, hstops⟩
                · exact Or.inl ⟨job, List.mem_cons_self, .later hfate hstops⟩
                · obtain ⟨n, hnext⟩ := hall next (Or.inr rfl)
                  exact Or.inr (List.forall_mem_cons.mpr ⟨⟨n + 1, .later hfate hnext⟩,
                    fun other hmem => hall other (Or.inl hmem)⟩)
  · rintro (⟨job, hmem, hstops⟩ | hall)
    · obtain ⟨front, back, rfl⟩ := List.append_of_mem hmem
      exact ends_of_stops hstops front back
    · have hcounts : ∃ counts, List.Forall₂ (Leaves fate) counts queue := by
        induction queue with
        | nil => exact ⟨[], .nil⟩
        | cons job rest ih =>
            rw [List.forall_mem_cons] at hall
            obtain ⟨⟨n, hjob⟩, hrest⟩ := hall
            obtain ⟨counts, hcounts⟩ := ih hrest
            exact ⟨n :: counts, .cons hjob hcounts⟩
      obtain ⟨counts, hcounts⟩ := hcounts
      exact ends_of_leaves hcounts

end Webcamd.Library.RoundRobin
