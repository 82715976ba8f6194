import Webcamd.Library.Machine

/-!
# Machines that answer calls

A component whose operations are calls, each with one answer, is described by a **specification**:
a state of its own, and a relation that says which answers are right there, and what the state is
after each of them.

* `Specification.Conforms` — a list of answers is right for a list of calls.
* `Implements` — the simulation: where a state of the machine and one of the specification are
  related, every call is answered, the answer is right, and the states after it are related.
* `Implements.run` — the rule: **every schedule runs**, and its history conforms.
-/

namespace Webcamd.Library

universe u v w x

/-- Which answers to a call are right, and what the state is after them. -/
structure Specification (Model : Type u) (Call : Type v) (Reply : Type w) where
  Answers : Model → Call → Reply → Model → Prop

variable {State : Type x} {Model : Type u} {Call : Type v} {Reply : Type w}

/-- The answers to the calls are right, one after the other. -/
def Specification.Conforms (spec : Specification Model Call Reply) :
    Model → List Call → List Reply → Model → Prop
  | model, [], [], last => last = model
  | model, call :: calls, reply :: replies, last =>
      ∃ next, spec.Answers model call reply next ∧ spec.Conforms next calls replies last
  | _, _, _, _ => False

/-- **The machine simulates the specification**, where states are related by `R`. -/
def Implements (machine : Machine State Call Reply) (spec : Specification Model Call Reply)
    (R : State → Model → Prop) : Prop :=
  ∀ {state model} (call : Call), R state model → ∃ next reply model',
    machine.step state call = some (next, [reply]) ∧ spec.Answers model call reply model' ∧
      R next model'

variable {machine : Machine State Call Reply} {spec : Specification Model Call Reply}
variable {R : State → Model → Prop}

/-- **The simulation rule.**  No call of a run is left without an answer, and all answers are
right. -/
theorem Implements.run (h : Implements machine spec R) {start : State} {model : Model}
    (hstart : R start model) (schedule : List Call) : ∃ last history model',
      machine.run start schedule = some (last, history) ∧
        spec.Conforms model schedule history model' ∧ R last model' := by
  induction schedule generalizing start model with
  | nil => exact ⟨start, [], model, rfl, rfl, hstart⟩
  | cons call rest ih =>
      obtain ⟨next, reply, model', hstep, hanswer, hnext⟩ := h call hstart
      obtain ⟨last, history, final, hrun, hconforms, hlast⟩ := ih hnext
      refine ⟨last, reply :: history, final, ?_, ⟨model', hanswer, hconforms⟩, hlast⟩
      rw [machine.run_cons, hstep]
      simp only [Option.bind_some, hrun, Option.map_some, List.singleton_append]

end Webcamd.Library
