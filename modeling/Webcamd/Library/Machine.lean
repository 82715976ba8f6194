import Mathlib
import Webcamd.Library.SmallIndex

/-!
# Machines: partial step functions with an event history

A component that several parties drive at once is modelled as a **machine**: a
state, and a partial step function that takes an *action* — which party moves,
and every value the environment picks for that move — to the next state and the
*events* the move produces.  The interleaving is the list of actions; nothing
else is nondeterministic, so a run is a function of its schedule and can be
evaluated.

* `Machine.run` — the state and the history a schedule leads to, if every action
  of it is enabled when its turn comes.
* `Machine.visited` — the (state, action) pairs the schedule goes through, which
  is what a condition on the environment speaks about; `Machine.attempted` has the pair at
  which the schedule gets stuck as well.
* `Machine.run_invariant` — the induction rule: what holds at the start and is
  kept by one step holds of every run.  `Machine.run_invariant_of_visited` is the
  same rule for a property that is kept only where the environment behaves, and
  `Machine.run_reached_iff` and `Machine.run_states_iff` the ones for a property that is
  kept exactly there.

The rules speak about the state together with the history produced so far,
because the properties of interest relate the two (a queue's content and the
requests it has accepted).
-/

namespace Webcamd.Library

universe u v w

/-- A partial, event-producing step function. -/
structure Machine (State : Type u) (Action : Type v) (Event : Type w) where
  /-- One move: `none` if the action is not enabled. -/
  step : State → Action → Option (State × List Event)

namespace Machine

variable {State : Type u} {Action : Type v} {Event : Type w}
variable (machine : Machine State Action Event)

/-- Run a schedule from a state: the final state and the whole history. -/
def run : State → List Action → Option (State × List Event)
  | start, [] => some (start, [])
  | start, action :: rest =>
      (machine.step start action).bind fun next =>
        (run next.1 rest).map fun last => (last.1, next.2 ++ last.2)

/-- The (state, action) pairs a schedule goes through, in order, as far as it is
enabled. -/
def visited : State → List Action → List (State × Action)
  | _, [] => []
  | start, action :: rest =>
      match machine.step start action with
      | none => []
      | some next => (start, action) :: visited next.1 rest

@[simp] theorem run_nil (start : State) :
    machine.run start [] = some (start, []) := rfl

theorem run_cons (start : State) (action : Action) (rest : List Action) :
    machine.run start (action :: rest) =
      (machine.step start action).bind fun next =>
        (machine.run next.1 rest).map fun last => (last.1, next.2 ++ last.2) := rfl

/-- A run of a non-empty schedule is a first step and a run of the rest. -/
theorem run_cons_eq_some {start last : State} {action : Action}
    {rest : List Action} {history : List Event}
    (h : machine.run start (action :: rest) = some (last, history)) :
    ∃ next events tail, machine.step start action = some (next, events) ∧
      machine.run next rest = some (last, tail) ∧ history = events ++ tail := by
  rw [run_cons, Option.bind_eq_some_iff] at h
  obtain ⟨⟨next, events⟩, hstep, h⟩ := h
  rw [Option.map_eq_some_iff] at h
  obtain ⟨⟨last', tail⟩, hrun, heq⟩ := h
  obtain ⟨rfl, rfl⟩ := Prod.mk.inj heq
  exact ⟨next, events, tail, hstep, hrun, rfl⟩

/-- Where a schedule that is enabled throughout leads. -/
def after (start : State) (schedule : List Action)
    (h : (machine.run start schedule).isSome = true) : State :=
  ((machine.run start schedule).get h).1

/-- A schedule that produces a history leads to `after` it. -/
theorem run_eq_after {start : State} {schedule : List Action} {history : List Event}
    (h : (machine.run start schedule).isSome = true)
    (hhistory : (machine.run start schedule).map Prod.snd = some history) :
    machine.run start schedule = some (machine.after start schedule h, history) := by
  obtain ⟨⟨last, produced⟩, hrun, rfl⟩ := Option.map_eq_some_iff.mp hhistory
  simp [after, hrun]

/-- The invariant rule for a property that speaks about the history and the schedule so far. -/
theorem run_invariant_of_schedule {P : State → List Event → List Action → Prop}
    (hstep : ∀ {state history done action next events}, P state history done →
      machine.step state action = some (next, events) →
      P next (history ++ events) (done ++ [action]))
    {start last : State} {past history : List Event} {done schedule : List Action}
    (hstart : P start past done)
    (hrun : machine.run start schedule = some (last, history)) :
    P last (past ++ history) (done ++ schedule) := by
  induction schedule generalizing start past done history with
  | nil =>
      obtain ⟨rfl, rfl⟩ := Prod.mk.inj (Option.some.inj hrun)
      simpa using hstart
  | cons action rest ih =>
      obtain ⟨next, events, tail, hfirst, hrest, rfl⟩ :=
        machine.run_cons_eq_some hrun
      have hnext := ih (hstep hstart hfirst) hrest
      rwa [List.append_assoc, List.append_assoc, List.singleton_append] at hnext

/-- **The invariant rule.**  What a step keeps, a run keeps; the property may
speak about the history produced so far. -/
theorem run_invariant {P : State → List Event → Prop}
    (hstep : ∀ {state history action next events}, P state history →
      machine.step state action = some (next, events) → P next (history ++ events))
    {start last : State} {past history : List Event} {schedule : List Action}
    (hstart : P start past)
    (hrun : machine.run start schedule = some (last, history)) :
    P last (past ++ history) :=
  @run_invariant_of_schedule _ _ _ machine (fun state history _ => P state history)
    hstep start last past history [] schedule hstart hrun

/-- **The invariant rule under a condition on the environment**: it is enough
that a step keeps the property where the condition holds, if every step of the
run meets the condition.  The property then holds in every state visited too. -/
theorem run_invariant_of_visited {P : State → List Event → Prop}
    {Condition : State → Action → Prop}
    (hstep : ∀ {state history action next events}, P state history →
      Condition state action →
      machine.step state action = some (next, events) → P next (history ++ events))
    {start last : State} {past history : List Event} {schedule : List Action}
    (hstart : P start past)
    (hrun : machine.run start schedule = some (last, history))
    (hcondition : ∀ pair ∈ machine.visited start schedule, Condition pair.1 pair.2) :
    P last (past ++ history) := by
  induction schedule generalizing start past history with
  | nil =>
      obtain ⟨rfl, rfl⟩ := Prod.mk.inj (Option.some.inj hrun)
      simpa using hstart
  | cons action rest ih =>
      obtain ⟨next, events, tail, hfirst, hrest, rfl⟩ :=
        machine.run_cons_eq_some hrun
      simp only [visited, hfirst, List.mem_cons, forall_eq_or_imp] at hcondition
      rw [← List.append_assoc]
      exact ih (hstep hstart hcondition.1 hfirst) hrest hcondition.2

/-- The rule for a property of the state alone. -/
theorem run_state_of_visited {P : State → Prop} {Condition : State → Action → Prop}
    (hstep : ∀ {state action next events}, P state → Condition state action →
      machine.step state action = some (next, events) → P next)
    {start last : State} {history : List Event} {schedule : List Action}
    (hstart : P start) (hrun : machine.run start schedule = some (last, history))
    (hcondition : ∀ pair ∈ machine.visited start schedule, Condition pair.1 pair.2) :
    P last :=
  @run_invariant_of_visited _ _ _ machine (fun state _ => P state) Condition
    (fun hprevious hhere hnext => hstep hprevious hhere hnext)
    start last [] history schedule hstart hrun hcondition

/-- A run starts in a state that it visits, or that it ends in. -/
theorem of_visited {P : State → Prop} {start last : State} {history : List Event}
    {schedule : List Action} (hrun : machine.run start schedule = some (last, history))
    (hvisited : ∀ pair ∈ machine.visited start schedule, P pair.1) (hlast : P last) :
    P start := by
  cases schedule with
  | nil =>
      obtain ⟨rfl, -⟩ := Prod.mk.inj (Option.some.inj hrun)
      exact hlast
  | cons action rest =>
      obtain ⟨next, events, -, hfirst, -, -⟩ := machine.run_cons_eq_some hrun
      simp only [visited, hfirst, List.mem_cons, forall_eq_or_imp] at hvisited
      exact hvisited.1

/-- An invariant of the state holds in every state of a run. -/
theorem run_states {Inv : State → Prop}
    (hinv : ∀ {state action next events}, Inv state →
      machine.step state action = some (next, events) → Inv next)
    {start last : State} {history : List Event} {schedule : List Action}
    (hstart : Inv start) (hrun : machine.run start schedule = some (last, history)) :
    (∀ pair ∈ machine.visited start schedule, Inv pair.1) ∧ Inv last := by
  induction schedule generalizing start history with
  | nil =>
      obtain ⟨rfl, -⟩ := Prod.mk.inj (Option.some.inj hrun)
      simp [visited, hstart]
  | cons action rest ih =>
      obtain ⟨next, events, tail, hfirst, hrest, -⟩ := machine.run_cons_eq_some hrun
      simp only [visited, hfirst, List.mem_cons, forall_eq_or_imp]
      obtain ⟨hvisited, hlast⟩ := ih (hinv hstart hfirst) hrest
      exact ⟨⟨hstart, hvisited⟩, hlast⟩

/-- **A property that holds exactly as long as the environment behaves**: if, between
states a run is promised to stay in, a step keeps the property just when it meets the
condition, then a run keeps the property throughout just when all its steps meet it. -/
theorem run_reached_iff {Good P : State → Prop} {Condition : State → Action → Prop}
    (hstep : ∀ {state action next events}, Good state → Good next → P state →
      machine.step state action = some (next, events) → (P next ↔ Condition state action))
    {start last : State} {history : List Event} {schedule : List Action}
    (hvisited : ∀ pair ∈ machine.visited start schedule, Good pair.1) (hgood : Good last)
    (hP : P start) (hrun : machine.run start schedule = some (last, history)) :
    ((∀ pair ∈ machine.visited start schedule, P pair.1) ∧ P last) ↔
      ∀ pair ∈ machine.visited start schedule, Condition pair.1 pair.2 := by
  induction schedule generalizing start history with
  | nil =>
      obtain ⟨rfl, -⟩ := Prod.mk.inj (Option.some.inj hrun)
      simp [visited, hP]
  | cons action rest ih =>
      obtain ⟨next, events, tail, hfirst, hrest, -⟩ := machine.run_cons_eq_some hrun
      simp only [visited, hfirst, List.mem_cons, forall_eq_or_imp] at hvisited ⊢
      have hnext : Good next := machine.of_visited hrest hvisited.2 hgood
      constructor
      · rintro ⟨⟨-, hothers⟩, hlast⟩
        have hPnext : P next := machine.of_visited hrest hothers hlast
        exact ⟨(hstep hvisited.1 hnext hP hfirst).mp hPnext,
          (ih hvisited.2 hPnext hrest).mp ⟨hothers, hlast⟩⟩
      · rintro ⟨hcondition, hothers⟩
        have hPnext := (hstep hvisited.1 hnext hP hfirst).mpr hcondition
        obtain ⟨hothers, hlast⟩ := (ih hvisited.2 hPnext hrest).mpr hothers
        exact ⟨⟨hP, hothers⟩, hlast⟩

/-- The same rule where the states are promised by an invariant. -/
theorem run_states_iff {Inv P : State → Prop} {Condition : State → Action → Prop}
    (hinv : ∀ {state action next events}, Inv state →
      machine.step state action = some (next, events) → Inv next)
    (hstep : ∀ {state action next events}, Inv state → P state →
      machine.step state action = some (next, events) → (P next ↔ Condition state action))
    {start last : State} {history : List Event} {schedule : List Action}
    (hstart : Inv start) (hP : P start)
    (hrun : machine.run start schedule = some (last, history)) :
    ((∀ pair ∈ machine.visited start schedule, P pair.1) ∧ P last) ↔
      ∀ pair ∈ machine.visited start schedule, Condition pair.1 pair.2 := by
  obtain ⟨hvisited, hlast⟩ := machine.run_states hinv hstart hrun
  exact @run_reached_iff _ _ _ machine Inv P Condition
    (fun hhere _ hprevious hnext => hstep hhere hprevious hnext)
    start last history schedule hvisited hlast hP hrun

/-- **A property of the history that nothing later undoes**: if a step keeps it just when it
meets the condition, a run keeps it just when all its steps do. -/
theorem run_history_iff {Inv : State → List Event → Prop} {P : List Event → Prop}
    {Condition : State → Action → Prop}
    (hearlier : ∀ {past events : List Event}, P (past ++ events) → P past)
    (hinv : ∀ {state history action next events}, Inv state history →
      machine.step state action = some (next, events) → Inv next (history ++ events))
    (hstep : ∀ {state history action next events}, Inv state history → P history →
      machine.step state action = some (next, events) →
        (P (history ++ events) ↔ Condition state action))
    {start last : State} {past history : List Event} {schedule : List Action}
    (hstart : Inv start past) (hP : P past)
    (hrun : machine.run start schedule = some (last, history)) :
    P (past ++ history) ↔ ∀ pair ∈ machine.visited start schedule, Condition pair.1 pair.2 := by
  induction schedule generalizing start past history with
  | nil =>
      obtain ⟨-, rfl⟩ := Prod.mk.inj (Option.some.inj hrun)
      simp [visited, hP]
  | cons action rest ih =>
      obtain ⟨next, events, tail, hfirst, hrest, rfl⟩ := machine.run_cons_eq_some hrun
      simp only [visited, hfirst, List.mem_cons, forall_eq_or_imp]
      rw [← List.append_assoc]
      constructor
      · intro hlast
        have hnext : P (past ++ events) := hearlier hlast
        exact ⟨(hstep hstart hP hfirst).mp hnext,
          (ih (hinv hstart hfirst) hnext hrest).mp hlast⟩
      · rintro ⟨hcondition, hothers⟩
        have hnext := (hstep hstart hP hfirst).mpr hcondition
        exact (ih (hinv hstart hfirst) hnext hrest).mpr hothers

/-- The actions that are visited are those of the schedule. -/
theorem action_mem_of_visited {start : State} {schedule : List Action} {pair : State × Action}
    (h : pair ∈ machine.visited start schedule) : pair.2 ∈ schedule := by
  induction schedule generalizing start with
  | nil => simp [visited] at h
  | cons action rest ih =>
      unfold visited at h
      split at h
      · cases h
      · rcases List.mem_cons.mp h with rfl | hlater
        · exact List.mem_cons_self
        · exact List.mem_cons_of_mem _ (ih hlater)

/-- What follows a visited pair is what is visited from where it leads. -/
theorem visited_eq_append {start : State} {schedule : List Action}
    {front back : List (State × Action)} {pair : State × Action}
    (h : machine.visited start schedule = front ++ pair :: back) :
    ∃ next events rest, machine.step pair.1 pair.2 = some (next, events) ∧
      back = machine.visited next rest := by
  induction schedule generalizing start front with
  | nil => simp [visited] at h
  | cons action rest ih =>
      unfold visited at h
      split at h
      · simp at h
      · rename_i next hstep
        cases front with
        | nil =>
            obtain ⟨rfl, rfl⟩ := List.cons.inj h
            exact ⟨next.1, next.2, rest, hstep, rfl⟩
        | cons first front => exact ih (List.cons.inj h).2

/-- What a step keeps where a condition holds is still there when a pair is visited, if the
pairs before it meet the condition. -/
theorem of_visited_append {P : State → Prop} {Condition : State → Action → Prop}
    (hstep : ∀ {state action next events}, P state → Condition state action →
      machine.step state action = some (next, events) → P next)
    {start : State} {schedule : List Action} {front back : List (State × Action)}
    {pair : State × Action} (hstart : P start)
    (h : machine.visited start schedule = front ++ pair :: back)
    (hcondition : ∀ earlier ∈ front, Condition earlier.1 earlier.2) : P pair.1 := by
  induction schedule generalizing start front with
  | nil => simp [visited] at h
  | cons action rest ih =>
      unfold visited at h
      split at h
      · simp at h
      · rename_i next hnext
        cases front with
        | nil =>
            obtain ⟨rfl, -⟩ := List.cons.inj h
            exact hstart
        | cons first front =>
            obtain ⟨rfl, hrest⟩ := List.cons.inj h
            rw [List.forall_mem_cons] at hcondition
            exact ih (hstep hstart hcondition.1 hnext) hrest hcondition.2

/-- The (state, action) pairs a schedule comes to, the last of which may not be enabled. -/
def attempted : State → List Action → List (State × Action)
  | _, [] => []
  | start, action :: rest => (start, action) ::
      match machine.step start action with
      | none => []
      | some next => attempted next.1 rest

/-- A schedule is enabled throughout when everything it comes to is enabled. -/
theorem run_isSome_iff {start : State} {schedule : List Action} :
    (machine.run start schedule).isSome = true ↔
      ∀ pair ∈ machine.attempted start schedule, (machine.step pair.1 pair.2).isSome = true := by
  induction schedule generalizing start with
  | nil => simp [attempted]
  | cons action rest ih =>
      rw [run_cons, attempted, List.forall_mem_cons]
      cases hstep : machine.step start action with
      | none => simp
      | some next => simp [ih]

/-- An invariant of the state holds wherever a schedule comes to. -/
theorem attempted_invariant {Inv : State → Prop}
    (hinv : ∀ {state action next events}, Inv state →
      machine.step state action = some (next, events) → Inv next)
    {start : State} {schedule : List Action} (hstart : Inv start) :
    ∀ pair ∈ machine.attempted start schedule, Inv pair.1 := by
  induction schedule generalizing start with
  | nil => simp [attempted]
  | cons action rest ih =>
      rw [attempted, List.forall_mem_cons]
      refine ⟨hstart, ?_⟩
      cases hstep : machine.step start action with
      | none => simp
      | some next => exact ih (hinv hstart hstep)

end Machine

end Webcamd.Library
