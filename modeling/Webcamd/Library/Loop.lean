import Mathlib

/-!
# Loops: a body that is repeated until it has nothing to do

A loop of a program without outside choices is its **body**, a partial function from the state to
the next one, and a measure that the body makes smaller.

* `Loop.states` — the states that the body sees, from first to last.
* `Loop.finish` — the state in which the loop ends.
* `Loop.induct` — the induction rule along a loop.
* `Loop.invariant` — what the body keeps, the loop keeps, in every state and in the last one.
-/

namespace Webcamd.Library

universe u

/-- A loop: `step` is `none` where it ends. -/
structure Loop (State : Type u) where
  step : State → Option State
  work : State → ℕ
  work_lt : ∀ {state next}, step state = some next → work next < work state

namespace Loop

variable {State : Type u} (loop : Loop State)

/-- The states that the loop goes through. -/
def states (state : State) : List State :=
  match _h : loop.step state with
  | none => [state]
  | some next => state :: states next
termination_by loop.work state
decreasing_by exact loop.work_lt _h

/-- The state that the loop ends in. -/
def finish (state : State) : State :=
  match _h : loop.step state with
  | none => state
  | some next => finish next
termination_by loop.work state
decreasing_by exact loop.work_lt _h

/-- **Induction along a loop**, from its end. -/
theorem induct {motive : State → Prop}
    (done : ∀ state, loop.step state = none → motive state)
    (again : ∀ state next, loop.step state = some next → motive next → motive state)
    (state : State) : motive state := by
  induction hwork : loop.work state using Nat.strong_induction_on generalizing state with
  | h work ih =>
      cases hstep : loop.step state with
      | none => exact done state hstep
      | some next =>
          have hlt := loop.work_lt hstep
          exact again state next hstep (ih _ (hwork ▸ hlt) next rfl)

theorem states_of_none {state : State} (h : loop.step state = none) :
    loop.states state = [state] := by
  rw [states]
  split
  · rfl
  · rename_i hnext
    exact absurd (h.symm.trans hnext) (by simp)

theorem states_of_some {state next : State} (h : loop.step state = some next) :
    loop.states state = state :: loop.states next := by
  rw [states]
  split
  · rename_i hnone
    exact absurd (h.symm.trans hnone) (by simp)
  · rename_i other hother
    obtain rfl := Option.some.inj (h.symm.trans hother)
    rfl

theorem finish_of_none {state : State} (h : loop.step state = none) :
    loop.finish state = state := by
  rw [finish]
  split
  · rfl
  · rename_i hnext
    exact absurd (h.symm.trans hnext) (by simp)

theorem finish_of_some {state next : State} (h : loop.step state = some next) :
    loop.finish state = loop.finish next := by
  rw [finish]
  split
  · rename_i hnone
    exact absurd (h.symm.trans hnone) (by simp)
  · rename_i other hother
    obtain rfl := Option.some.inj (h.symm.trans hother)
    rfl

/-- A loop has nothing left to do at its end. -/
theorem step_finish (state : State) : loop.step (loop.finish state) = none := by
  induction state using loop.induct with
  | done state hstep => rw [loop.finish_of_none hstep, hstep]
  | again state next hstep ih => rw [loop.finish_of_some hstep, ih]

/-- **The loop terminates**: some number of passes leads to its end. -/
theorem exists_iterate_finish (state : State) :
    ∃ passes, (fun state : Option State => state.bind loop.step)^[passes] (some state) =
      some (loop.finish state) := by
  induction state using loop.induct with
  | done state hstep =>
      refine ⟨0, ?_⟩
      rw [loop.finish_of_none hstep, Function.iterate_zero_apply]
  | again state next hstep ih =>
      obtain ⟨passes, hpasses⟩ := ih
      refine ⟨passes + 1, ?_⟩
      rw [loop.finish_of_some hstep, Function.iterate_succ_apply, Option.bind_some, hstep, hpasses]

theorem self_mem_states (state : State) : state ∈ loop.states state := by
  cases hstep : loop.step state with
  | none => simp [loop.states_of_none hstep]
  | some next => simp [loop.states_of_some hstep]

theorem finish_mem_states (state : State) : loop.finish state ∈ loop.states state := by
  induction state using loop.induct with
  | done state hstep =>
      rw [loop.finish_of_none hstep]
      exact loop.self_mem_states state
  | again state next hstep ih =>
      rw [loop.finish_of_some hstep, loop.states_of_some hstep]
      exact List.mem_cons_of_mem state ih

/-- The states of a loop are closed under its body. -/
theorem mem_states_of_step {start state next : State} (h : state ∈ loop.states start)
    (hstep : loop.step state = some next) : next ∈ loop.states start := by
  induction start using loop.induct with
  | done start hnone =>
      rw [loop.states_of_none hnone, List.mem_singleton] at h
      rw [h, hnone] at hstep
      cases hstep
  | again start other hother ih =>
      rw [loop.states_of_some hother, List.mem_cons] at h
      rw [loop.states_of_some hother]
      obtain rfl | h := h
      · obtain rfl := Option.some.inj (hother.symm.trans hstep)
        exact List.mem_cons_of_mem _ (loop.self_mem_states _)
      · exact List.mem_cons_of_mem _ (ih h)

/-- **The invariant rule**: what the body keeps holds in every state of the loop. -/
theorem invariant_states {P : State → Prop}
    (hstep : ∀ {state next}, P state → loop.step state = some next → P next)
    {start : State} (hstart : P start) : ∀ state ∈ loop.states start, P state := by
  induction start using loop.induct with
  | done start hnone =>
      rw [loop.states_of_none hnone]
      simpa using hstart
  | again start next hnext ih =>
      rw [loop.states_of_some hnext, List.forall_mem_cons]
      exact ⟨hstart, ih (hstep hstart hnext)⟩

/-- What the body keeps holds at the end. -/
theorem invariant {P : State → Prop}
    (hstep : ∀ {state next}, P state → loop.step state = some next → P next)
    {start : State} (hstart : P start) : P (loop.finish start) :=
  loop.invariant_states hstep hstart _ (loop.finish_mem_states start)

/-- The rule under a condition that every state of the loop meets. -/
theorem invariant_of_states {P Condition : State → Prop}
    (hstep : ∀ {state next}, P state → Condition state → loop.step state = some next → P next)
    {start : State} (hstart : P start)
    (hcondition : ∀ state ∈ loop.states start, Condition state) : P (loop.finish start) := by
  induction start using loop.induct with
  | done start hnone => rwa [loop.finish_of_none hnone]
  | again start next hnext ih =>
      rw [loop.states_of_some hnext, List.forall_mem_cons] at hcondition
      rw [loop.finish_of_some hnext]
      exact ih (hstep hstart hcondition.1 hnext) hcondition.2

/-- From a state of a loop, it ends where the loop ends. -/
theorem finish_eq_of_mem {start state : State} (h : state ∈ loop.states start) :
    loop.finish state = loop.finish start := by
  have hall : ∀ state ∈ loop.states start, loop.finish state = loop.finish start :=
    @invariant_states _ loop (fun state => loop.finish state = loop.finish start)
      (fun hstate hnext => (loop.finish_of_some hnext).symm.trans hstate) start rfl
  exact hall state h

end Loop

end Webcamd.Library
