import Mathlib

/-!
# Nested conditionals and a counter

A text of lines has conditionals, which open and close, and what is between is left out if the
condition is false.  A reader that goes through the lines once, without a stack, can keep a single
number: how many conditionals are open from the first false one on.

* `Outcome`, `pass` — a reader, with what it has done and where it has stopped.
* `Token`, `Actions`, `Actions.step` — a line, what is done with it, and the reader with a counter.
* `Block`, `Block.run` — properly nested lines, and what they mean.
* `pass_tokens` — the counter does what the nesting says, and is zero again at the end.
* `Block.places` — the lines with the conditions around them.
* `Follows` — a condition is evaluated, and a line processed, just if all conditions around it hold.
* `run_follows` — this is so of the meaning, as long as the actions do not change what holds.
* `Follows.mem_marks_iff` — the same of a single line.
-/

namespace Webcamd.Library.Conditionals

variable {σ ε τ υ α C L : Type*}

/-! ### Readers -/

/-- What a reader does with a line, by the number of the line. -/
inductive Mark where
  | evaluated (i : ℕ)
  | processed (i : ℕ)
  deriving DecidableEq

/-- The number of the line. -/
def Mark.index : Mark → ℕ
  | evaluated i => i
  | processed i => i

/-- What has been done, the number of lines that were read, and the state or the reason to stop. -/
structure Outcome (ε τ : Type*) where
  marks : List Mark
  read : ℕ
  returned : Except ε τ

theorem map_eq_ok {x : Except ε τ} {f : τ → υ} {b : υ} :
    x.map f = .ok b ↔ ∃ a, x = .ok a ∧ f a = b := by
  cases x with
  | error error => simp [Except.map]
  | ok a => simp [Except.map]

theorem map_eq_error {x : Except ε τ} {f : τ → υ} {error : ε} :
    x.map f = .error error ↔ x = .error error := by
  cases x with
  | error error => simp [Except.map]
  | ok a => simp [Except.map]

namespace Outcome

def done (state : τ) : Outcome ε τ := ⟨[], 0, .ok state⟩

def map (f : τ → υ) (outcome : Outcome ε τ) : Outcome ε υ :=
  ⟨outcome.marks, outcome.read, outcome.returned.map f⟩

/-- One outcome, and then another one unless the first has stopped. -/
def andThen (first : Outcome ε τ) (next : τ → Outcome ε υ) : Outcome ε υ :=
  match first.returned with
  | .error error => ⟨first.marks, first.read, .error error⟩
  | .ok state =>
      ⟨first.marks ++ (next state).marks, first.read + (next state).read, (next state).returned⟩

theorem andThen_of_error {first : Outcome ε τ} {error : ε} (h : first.returned = .error error)
    (next : τ → Outcome ε υ) : first.andThen next = ⟨first.marks, first.read, .error error⟩ := by
  rw [andThen, h]

theorem andThen_of_ok {first : Outcome ε τ} {state : τ} (h : first.returned = .ok state)
    (next : τ → Outcome ε υ) :
    first.andThen next = ⟨first.marks ++ (next state).marks, first.read + (next state).read,
      (next state).returned⟩ := by
  rw [andThen, h]

@[simp] theorem done_andThen (state : τ) (next : τ → Outcome ε υ) :
    (done state).andThen next = next state := by
  simp [done, andThen]

@[simp] theorem marks_map (f : τ → υ) (outcome : Outcome ε τ) :
    (outcome.map f).marks = outcome.marks := rfl

@[simp] theorem read_map (f : τ → υ) (outcome : Outcome ε τ) :
    (outcome.map f).read = outcome.read := rfl

theorem map_andThen (first : Outcome ε τ) (f : τ → υ) (next : υ → Outcome ε α) :
    (first.map f).andThen next = first.andThen fun state => next (f state) := by
  obtain ⟨marks, read, returned⟩ := first
  cases returned <;> rfl

theorem andThen_map (first : Outcome ε τ) (next : τ → Outcome ε υ) (f : υ → α) :
    (first.andThen next).map f = first.andThen fun state => (next state).map f := by
  obtain ⟨marks, read, returned⟩ := first
  cases returned <;> rfl

theorem andThen_assoc {β : Type*} (first : Outcome ε τ) (second : τ → Outcome ε υ)
    (third : υ → Outcome ε β) :
    (first.andThen second).andThen third =
      first.andThen fun state => (second state).andThen third := by
  obtain ⟨marks, read, returned⟩ := first
  cases returned with
  | error error => rfl
  | ok state =>
      cases hsecond : (second state).returned <;>
        simp [andThen, hsecond, List.append_assoc, Nat.add_assoc]

end Outcome

/-- What a step does with one line. -/
def one (line : List Mark × Except ε τ) : Outcome ε τ := ⟨line.1, 1, line.2⟩

/-- A reader: a step for each line, with the number of the line. -/
def pass (step : ℕ → τ → α → List Mark × Except ε τ) : ℕ → τ → List α → Outcome ε τ
  | _, state, [] => .done state
  | i, state, line :: rest =>
      (one (step i state line)).andThen fun next => pass step (i + 1) next rest

theorem pass_append (step : ℕ → τ → α → List Mark × Except ε τ) (i : ℕ) (state : τ)
    (lines others : List α) :
    pass step i state (lines ++ others) =
      (pass step i state lines).andThen fun next => pass step (i + lines.length) next others := by
  induction lines generalizing i state with
  | nil => simp [pass]
  | cons line rest ih =>
      rw [List.cons_append, pass, pass, Outcome.andThen_assoc]
      congr 1
      funext next
      rw [ih, List.length_cons]
      congr 1
      funext last
      congr 1
      omega

/-- A reader that looks at the lines through a function. -/
theorem pass_map {β : Type*} {step : ℕ → τ → α → List Mark × Except ε τ}
    {other : ℕ → τ → β → List Mark × Except ε τ} {f : α → β}
    (h : ∀ i state line, step i state line = other i state (f line)) (i : ℕ) (state : τ)
    (lines : List α) : pass step i state lines = pass other i state (lines.map f) := by
  induction lines generalizing i state with
  | nil => rfl
  | cons line rest ih =>
      rw [List.map_cons, pass, pass, h]
      congr 1
      funext next
      exact ih (i + 1) next

/-- What the steps keep, the reader keeps. -/
theorem pass_invariant {step : ℕ → τ → α → List Mark × Except ε τ} {P : τ → Prop}
    (h : ∀ i state line next, P state → (step i state line).2 = .ok next → P next)
    {i : ℕ} {state last : τ} {lines : List α} (hstate : P state)
    (hlast : (pass step i state lines).returned = .ok last) : P last := by
  induction lines generalizing i state with
  | nil => exact Except.ok.inj hlast ▸ hstate
  | cons line rest ih =>
      rw [pass, Outcome.andThen] at hlast
      cases hstep : (step i state line).2 with
      | error error => simp [one, hstep] at hlast
      | ok next =>
          simp only [one, hstep] at hlast
          exact ih (h i state line next hstate hstep) hlast

/-! ### The counter -/

/-- What a line can be. -/
inductive Token (C L : Type*) where
  | opens (condition : C)
  | closes
  | line (content : L)
  deriving DecidableEq

/-- What is done with the lines: a condition is evaluated, and a line is processed, which may stop
the reader.  Of some lines it is noted. -/
structure Actions (σ ε C L : Type*) where
  evaluate : C → σ → σ × Bool
  process : L → σ → Except ε σ
  noted : L → Bool

variable (actions : Actions σ ε C L)

/-- What is noted of a line that is processed. -/
def Actions.note (i : ℕ) (content : L) : List Mark :=
  if actions.noted content then [.processed i] else []

/-- **The counter**: it is not zero inside a conditional that is false, and counts the conditionals
that are open from there on. -/
def Actions.step (i : ℕ) (carried : ℕ × σ) :
    Token C L → List Mark × Except ε (ℕ × σ)
  | .opens condition =>
      if carried.1 ≠ 0 then ([], .ok (carried.1 + 1, carried.2))
      else
        let found := actions.evaluate condition carried.2
        ([.evaluated i], .ok (if found.2 then 0 else 1, found.1))
  | .closes => ([], .ok (carried.1 - 1, carried.2))
  | .line content =>
      if carried.1 ≠ 0 then ([], .ok carried)
      else (actions.note i content, (actions.process content carried.2).map fun next => (0, next))

/-- All that a step can do: the counter grows by one at most, and the state is changed by an action
or not at all. -/
theorem Actions.step_cases {i : ℕ} {carried next : ℕ × σ} {token : Token C L}
    (h : (actions.step i carried token).2 = .ok next) :
    next.1 ≤ carried.1 + 1 ∧ (next.2 = carried.2 ∨
      (∃ condition, next.2 = (actions.evaluate condition carried.2).1) ∨
      ∃ content, actions.process content carried.2 = .ok next.2) := by
  cases token with
  | opens condition =>
      rw [Actions.step] at h
      by_cases hskip : carried.1 ≠ 0
      · rw [if_pos hskip] at h
        obtain rfl := Except.ok.inj h
        exact ⟨le_rfl, .inl rfl⟩
      · rw [if_neg hskip] at h
        obtain rfl := Except.ok.inj h
        refine ⟨?_, .inr (.inl ⟨condition, rfl⟩)⟩
        dsimp only
        split
        · exact Nat.zero_le _
        · exact Nat.le_add_left 1 _
  | closes =>
      obtain rfl := Except.ok.inj h
      exact ⟨(Nat.sub_le _ _).trans (Nat.le_succ _), .inl rfl⟩
  | line content =>
      rw [Actions.step] at h
      by_cases hskip : carried.1 ≠ 0
      · rw [if_pos hskip] at h
        obtain rfl := Except.ok.inj h
        exact ⟨Nat.le_succ _, .inl rfl⟩
      · rw [if_neg hskip] at h
        obtain ⟨state, hprocess, rfl⟩ := map_eq_ok.mp h
        exact ⟨Nat.zero_le _, .inr (.inr ⟨content, hprocess⟩)⟩

/-- The counter is at most the number of lines. -/
theorem counter_le {i : ℕ} {carried last : ℕ × σ} {tokens : List (Token C L)}
    (h : (pass actions.step i carried tokens).returned = .ok last) :
    last.1 ≤ carried.1 + tokens.length := by
  induction tokens generalizing i carried with
  | nil => exact Except.ok.inj h ▸ le_rfl
  | cons token rest ih =>
      rw [pass, Outcome.andThen] at h
      cases hstep : (actions.step i carried token).2 with
      | error error => simp [one, hstep] at h
      | ok next =>
          simp only [one, hstep] at h
          have hrest := ih h
          have hnext := (actions.step_cases hstep).1
          rw [List.length_cons]
          omega

/-- What the actions keep, the reader keeps, whatever the nesting is. -/
theorem pass_step_invariant {P : σ → Prop}
    (hevaluate : ∀ condition state, P state → P (actions.evaluate condition state).1)
    (hprocess : ∀ content state next, P state → actions.process content state = .ok next → P next)
    {i : ℕ} {carried last : ℕ × σ} {tokens : List (Token C L)} (hcarried : P carried.2)
    (hlast : (pass actions.step i carried tokens).returned = .ok last) : P last.2 := by
  refine pass_invariant (P := fun carried => P carried.2) ?_ hcarried hlast
  intro i carried token next hstate hstep
  obtain ⟨-, hsame | ⟨condition, hevaluated⟩ | ⟨content, hprocessed⟩⟩ := actions.step_cases hstep
  · exact hsame ▸ hstate
  · exact hevaluated ▸ hevaluate condition _ hstate
  · exact hprocess content _ _ hstate hprocessed

/-! ### The nesting -/

/-- Properly nested lines. -/
inductive Block (C L : Type*) where
  | nil
  | line (content : L) (rest : Block C L)
  | conditional (condition : C) (body rest : Block C L)

/-- The lines of a block, one after the other. -/
def Block.tokens : Block C L → List (Token C L)
  | nil => []
  | line content rest => .line content :: rest.tokens
  | conditional condition body rest =>
      .opens condition :: (body.tokens ++ .closes :: rest.tokens)

/-- **What a block means**: the body of a conditional counts if the condition is true. -/
def Block.run : Block C L → ℕ → σ → Outcome ε σ
  | nil, _, state => .done state
  | line content rest, i, state =>
      (one (actions.note i content, actions.process content state)).andThen fun next =>
        rest.run (i + 1) next
  | conditional condition body rest, i, state =>
      let found := actions.evaluate condition state
      (one ([.evaluated i], .ok found.1)).andThen fun inside =>
        (if found.2 then body.run (i + 1) inside
          else ⟨[], body.tokens.length, .ok inside⟩).andThen fun closed =>
            (one ([], .ok closed)).andThen fun next =>
              rest.run (i + 1 + body.tokens.length + 1) next

/-- A conditional is closed. -/
theorem pass_closes (i skip : ℕ) (state : σ) (rest : List (Token C L)) :
    pass actions.step i (skip, state) (.closes :: rest) =
      (one ([], .ok state)).andThen fun next =>
        pass actions.step (i + 1) (skip - 1, next) rest := by
  have hclose : one (actions.step i (skip, state) .closes) =
      (one ([], .ok state)).map fun next => (skip - 1, next) := rfl
  rw [pass, hclose, Outcome.map_andThen]

/-- Inside a conditional that is false the lines are counted, and nothing is done. -/
theorem pass_skipped (block : Block C L) (i skip : ℕ) (state : σ) :
    pass actions.step i (skip + 1, state) block.tokens =
      ⟨[], block.tokens.length, .ok (skip + 1, state)⟩ := by
  induction block generalizing i skip with
  | nil => rfl
  | line content rest ih =>
      have hstep : actions.step i (skip + 1, state) (.line content) =
          ([], .ok (skip + 1, state)) := by rw [Actions.step, if_pos (Nat.succ_ne_zero skip)]
      rw [Block.tokens, pass, hstep, one, Outcome.andThen]
      simp only [ih, List.nil_append, List.length_cons, Nat.add_comm 1]
  | conditional condition body rest ihbody ihrest =>
      have hstep : actions.step i (skip + 1, state) (.opens condition) =
          ([], .ok (skip + 1 + 1, state)) := by rw [Actions.step, if_pos (Nat.succ_ne_zero skip)]
      rw [Block.tokens, pass, hstep, one, Outcome.andThen]
      simp only [pass_append, ihbody, pass_closes, Nat.add_sub_cancel, one, Outcome.andThen, ihrest,
        List.nil_append, List.length_cons, List.length_append]
      congr 1
      omega

/-- **The counter does what the nesting says**, and it is zero again at the end. -/
theorem pass_tokens (block : Block C L) (i : ℕ) (state : σ) :
    pass actions.step i (0, state) block.tokens =
      (block.run actions i state).map fun last => (0, last) := by
  induction block generalizing i state with
  | nil => rfl
  | line content rest ih =>
      have hstep : one (actions.step i (0, state) (.line content)) =
          (one (actions.note i content, actions.process content state)).map
            fun next => (0, next) := rfl
      rw [Block.tokens, pass, hstep, Outcome.map_andThen, Block.run, Outcome.andThen_map]
      congr 1
      funext next
      exact ih (i + 1) next
  | conditional condition body rest ihbody ihrest =>
      have hopens : one (actions.step i (0, state) (.opens condition)) =
          (one ([.evaluated i], .ok (actions.evaluate condition state).1)).map fun inside =>
            (if (actions.evaluate condition state).2 then 0 else 1, inside) := rfl
      rw [Block.tokens, pass, hopens, Outcome.map_andThen, Block.run]
      simp only [Outcome.andThen_map, ← ihrest]
      congr 1
      funext inside
      rw [pass_append]
      cases (actions.evaluate condition state).2 with
      | true =>
          rw [if_pos rfl, if_pos rfl, ihbody, Outcome.map_andThen]
          simp only [pass_closes, Nat.zero_sub]
      | false =>
          rw [if_neg (by decide), if_neg (by decide), pass_skipped]
          change Outcome.andThen (Outcome.map (fun closed => (1, closed))
            ⟨[], body.tokens.length, .ok inside⟩) _ = _
          rw [Outcome.map_andThen]
          simp only [pass_closes, Nat.sub_self]

/-! ### The conditions around a line -/

/-- A line, with its number and the conditions of the conditionals that it is in. -/
structure Place (C L : Type*) where
  index : ℕ
  enclosing : List C
  token : Token C L

/-- The lines of a block, which has the conditions `outer` around it. -/
def Block.places : Block C L → List C → ℕ → List (Place C L)
  | nil, _, _ => []
  | line content rest, outer, i => ⟨i, outer, .line content⟩ :: rest.places outer (i + 1)
  | conditional condition body rest, outer, i =>
      ⟨i, outer, .opens condition⟩ :: (body.places (condition :: outer) (i + 1) ++
        ⟨i + 1 + body.tokens.length, outer, .closes⟩ ::
          rest.places outer (i + 1 + body.tokens.length + 1))

/-- What is to be noted of a line if all conditions around it hold. -/
def Place.mark (place : Place C L) : List Mark :=
  match place.token with
  | .opens _ => [.evaluated place.index]
  | .closes => []
  | .line content => actions.note place.index content

/-- What is to be noted of the lines. -/
def expected (holds : C → Bool) (places : List (Place C L)) : List Mark :=
  places.flatMap fun place => if place.enclosing.all holds then place.mark actions else []

/-- **What is said of a run**: the lines that were read are noted just if all conditions around them
hold, and if not all were read, the last one has stopped the reader. -/
structure Follows (holds : C → Bool) (inv : σ → Prop) (places : List (Place C L))
    (outcome : Outcome ε σ) : Prop where
  marks : outcome.marks = expected actions holds (places.take outcome.read)
  returned : ∀ last, outcome.returned = .ok last → outcome.read = places.length ∧ inv last
  left : ∀ error, outcome.returned = .error error → ∃ before place after content state,
    places = before ++ place :: after ∧ outcome.read = before.length + 1 ∧
      place.token = .line content ∧ place.enclosing.all holds = true ∧ inv state ∧
      actions.process content state = .error error

section Meaning

variable {actions} {holds : C → Bool} {inv : σ → Prop}

theorem expected_append (places others : List (Place C L)) :
    expected actions holds (places ++ others) =
      expected actions holds places ++ expected actions holds others :=
  List.flatMap_append

theorem expected_singleton (place : Place C L) :
    expected actions holds [place] =
      if place.enclosing.all holds then place.mark actions else [] :=
  List.flatMap_singleton _ _

theorem length_places (block : Block C L) (outer : List C) (i : ℕ) :
    (block.places outer i).length = block.tokens.length := by
  induction block generalizing outer i with
  | nil => rfl
  | line content rest ih => simp [Block.places, Block.tokens, ih]
  | conditional condition body rest ihbody ihrest =>
      simp [Block.places, Block.tokens, ihbody, ihrest]

/-- The lines are numbered one after the other. -/
theorem index_places (block : Block C L) (outer : List C) (i : ℕ) :
    (block.places outer i).map Place.index = List.range' i block.tokens.length := by
  induction block generalizing outer i with
  | nil => rfl
  | line content rest ih =>
      rw [Block.places, List.map_cons, ih, Block.tokens, List.length_cons, List.range'_succ]
  | conditional condition body rest ihbody ihrest =>
      rw [Block.places, List.map_cons, List.map_append, List.map_cons, ihbody, ihrest, Block.tokens,
        List.length_cons, List.length_append, List.length_cons, List.range'_succ,
        ← List.range'_append_1, List.range'_succ]

/-- A condition that is around a block is around each of its lines. -/
theorem mem_enclosing {block : Block C L} {outer : List C} {i : ℕ} {place : Place C L}
    (hplace : place ∈ block.places outer i) : outer ⊆ place.enclosing := by
  induction block generalizing outer i with
  | nil => cases hplace
  | line content rest ih =>
      rcases List.mem_cons.mp hplace with rfl | hrest
      · exact List.Subset.refl _
      · exact ih hrest
  | conditional condition body rest ihbody ihrest =>
      rcases List.mem_cons.mp hplace with rfl | hplace
      · exact List.Subset.refl _
      · rcases List.mem_append.mp hplace with hbody | hplace
        · exact List.Subset.trans (List.subset_cons_self _ _) (ihbody hbody)
        · rcases List.mem_cons.mp hplace with rfl | hrest
          · exact List.Subset.refl _
          · exact ihrest hrest

/-- Nothing is to be noted of the lines inside a conditional that is false. -/
theorem expected_skipped {condition : C} (hfalse : holds condition = false) (block : Block C L)
    (outer : List C) (i : ℕ) :
    expected actions holds (block.places (condition :: outer) i) = [] := by
  refine List.flatMap_eq_nil_iff.mpr ?_
  intro place hplace
  refine if_neg ?_
  intro hall
  have hmem := mem_enclosing hplace List.mem_cons_self
  rw [List.all_eq_true] at hall
  exact absurd (hall condition hmem) (by simp [hfalse])

namespace Follows

/-- A line that does not stop the reader. -/
theorem passed {place : Place C L} {marks : List Mark} {state : σ}
    (hmarks : place.mark actions = marks) (hall : place.enclosing.all holds = true)
    (hstate : inv state) : Follows actions holds inv [place] (one (marks, .ok state)) where
  marks := by
    change marks = expected actions holds [place]
    rw [expected_singleton, if_pos hall, hmarks]
  returned := by
    intro last hlast
    exact ⟨rfl, Except.ok.inj hlast ▸ hstate⟩
  left := by
    intro error herror
    cases herror

/-- A line that is processed. -/
theorem process {i : ℕ} {outer : List C} {content : L} {state : σ}
    (houter : outer.all holds = true) (hstate : inv state)
    (hnext : ∀ next, actions.process content state = .ok next → inv next) :
    Follows actions holds inv [⟨i, outer, .line content⟩]
      (one (actions.note i content, actions.process content state)) where
  marks := by
    change _ = expected actions holds [_]
    rw [expected_singleton, if_pos houter]
    rfl
  returned := fun last hlast => ⟨rfl, hnext last hlast⟩
  left := fun error herror =>
    ⟨[], _, [], content, state, rfl, rfl, rfl, houter, hstate, herror⟩

/-- Lines of which nothing is to be noted are passed over. -/
theorem skip {places : List (Place C L)} {state : σ}
    (hplaces : expected actions holds places = []) (hstate : inv state) :
    Follows actions holds inv places ⟨[], places.length, .ok state⟩ where
  marks := by rw [List.take_length, hplaces]
  returned := by
    intro last hlast
    exact ⟨rfl, Except.ok.inj hlast ▸ hstate⟩
  left := by
    intro error herror
    cases herror

/-- **One run after the other.** -/
theorem andThen {places others : List (Place C L)} {first : Outcome ε σ}
    {next : σ → Outcome ε σ} (hfirst : Follows actions holds inv places first)
    (hnext : ∀ state, inv state → Follows actions holds inv others (next state)) :
    Follows actions holds inv (places ++ others) (first.andThen next) := by
  cases hreturned : first.returned with
  | error error =>
      obtain ⟨before, place, after, content, state, hsplit, hread, hrest⟩ :=
        hfirst.left error hreturned
      rw [Outcome.andThen_of_error hreturned]
      constructor
      case marks =>
        have hle : first.read ≤ places.length := by
          rw [hread, hsplit, List.length_append, List.length_cons]
          omega
        dsimp only
        rw [List.take_append_of_le_length hle]
        exact hfirst.marks
      case returned =>
        intro last hlast
        cases hlast
      case left =>
        intro other hother
        obtain rfl := Except.error.inj hother
        refine ⟨before, place, after ++ others, content, state, ?_, hread, hrest⟩
        rw [hsplit, List.append_assoc, List.cons_append]
  | ok state =>
      obtain ⟨hread, hstate⟩ := hfirst.returned state hreturned
      have hsecond := hnext state hstate
      rw [Outcome.andThen_of_ok hreturned]
      constructor
      case marks =>
        dsimp only
        rw [hfirst.marks, hsecond.marks, hread, List.take_length, List.take_length_add_append,
          expected_append]
      case returned =>
        intro last hlast
        obtain ⟨hlength, hinv⟩ := hsecond.returned last hlast
        dsimp only
        rw [hread, hlength, List.length_append]
        exact ⟨rfl, hinv⟩
      case left =>
        intro error herror
        obtain ⟨before, place, after, content, state, hsplit, hlength, hrest⟩ :=
          hsecond.left error herror
        refine ⟨places ++ before, place, after, content, state, ?_, ?_, hrest⟩
        · rw [hsplit, List.append_assoc]
        · dsimp only
          rw [hread, hlength, List.length_append, Nat.add_assoc]

end Follows

/-- **A condition is evaluated, and a line is processed, just if all conditions around it hold**, if
what the actions do does not change what holds. -/
theorem run_follows
    (hevaluate : ∀ condition state, inv state →
      (actions.evaluate condition state).2 = holds condition ∧
        inv (actions.evaluate condition state).1)
    (hprocess : ∀ content state next, inv state → actions.process content state = .ok next →
      inv next)
    (block : Block C L) {outer : List C} (houter : outer.all holds = true) {state : σ}
    (hstate : inv state) (i : ℕ) :
    Follows actions holds inv (block.places outer i) (block.run actions i state) := by
  induction block generalizing outer i state with
  | nil => exact Follows.skip rfl hstate
  | line content rest ih =>
      have hline := Follows.process (i := i) houter hstate fun next =>
        hprocess content state next hstate
      refine hline.andThen ?_
      intro next hnext
      exact ih houter hnext (i + 1)
  | conditional condition body rest ihbody ihrest =>
      obtain ⟨hfound, hinside⟩ := hevaluate condition state hstate
      have hplaces : (Block.conditional condition body rest).places outer i =
          [⟨i, outer, .opens condition⟩] ++ (body.places (condition :: outer) (i + 1) ++
            ([⟨i + 1 + body.tokens.length, outer, .closes⟩] ++
              rest.places outer (i + 1 + body.tokens.length + 1))) := rfl
      rw [hplaces, Block.run]
      refine Follows.andThen (Follows.passed rfl houter hinside) ?_
      intro inside hinside
      refine Follows.andThen ?_ ?_
      · rw [hfound]
        cases hcondition : holds condition with
        | true => exact ihbody (by rw [List.all_cons, hcondition, houter]; rfl) hinside (i + 1)
        | false =>
            rw [← length_places body (condition :: outer) (i + 1)]
            exact Follows.skip (expected_skipped hcondition body outer (i + 1)) hinside
      · intro closed hclosed
        refine Follows.andThen (Follows.passed rfl houter hclosed) ?_
        intro next hnext
        exact ihrest houter hnext _

/-! ### Reading it off -/

/-- What is to be noted of a line has its number. -/
theorem index_of_mem_mark {place : Place C L} {mark : Mark} (h : mark ∈ place.mark actions) :
    mark.index = place.index := by
  obtain ⟨index, enclosing, token⟩ := place
  cases token with
  | opens condition =>
      obtain rfl := List.mem_singleton.mp h
      rfl
  | closes => cases h
  | line content =>
      change mark ∈ actions.note index content at h
      unfold Actions.note at h
      split at h
      · obtain rfl := List.mem_singleton.mp h
        rfl
      · cases h

/-- The number of a line is its place in the list, counted from `i` on. -/
theorem index_getElem {block : Block C L} {outer : List C} {i k : ℕ}
    (hk : k < (block.places outer i).length) : ((block.places outer i)[k]).index = i + k := by
  have hrange := congrArg (·[k]?) (index_places block outer i)
  rw [length_places] at hk
  simpa [hk, length_places] using hrange

theorem index_of_split {block : Block C L} {outer : List C} {i : ℕ}
    {before after : List (Place C L)} {place : Place C L}
    (h : block.places outer i = before ++ place :: after) :
    place.index = i + before.length := by
  have hk : before.length < (block.places outer i).length := by
    rw [h, List.length_append, List.length_cons]
    omega
  rw [← index_getElem hk]
  simp [h]

/-- The lines that were read are the first ones. -/
theorem mem_take_places {block : Block C L} {outer : List C} {i : ℕ} {place : Place C L}
    (hplace : place ∈ block.places outer i) (read : ℕ) :
    place ∈ (block.places outer i).take read ↔ place.index < i + read := by
  rw [List.mem_take_iff_getElem]
  constructor
  · rintro ⟨k, hk, rfl⟩
    rw [index_getElem (by omega)]
    omega
  · intro hlt
    obtain ⟨k, hk, rfl⟩ := List.mem_iff_getElem.mp hplace
    rw [index_getElem hk] at hlt
    exact ⟨k, by omega, rfl⟩

/-- **A line is noted just if it was read and all conditions around it hold.** -/
theorem Follows.mem_marks_iff {block : Block C L} {outer : List C} {i : ℕ} {outcome : Outcome ε σ}
    (h : Follows actions holds inv (block.places outer i) outcome) {place : Place C L}
    (hplace : place ∈ block.places outer i) {mark : Mark} (hmark : mark ∈ place.mark actions) :
    mark ∈ outcome.marks ↔
      place.index < i + outcome.read ∧ ∀ condition ∈ place.enclosing, holds condition = true := by
  have hnodup : ((block.places outer i).map Place.index).Nodup := by
    rw [index_places]
    exact List.nodup_range'
  rw [h.marks, expected, List.mem_flatMap, ← mem_take_places hplace, ← List.all_eq_true]
  constructor
  · rintro ⟨other, hother, hmem⟩
    split at hmem
    · rename_i hall
      have hsame : other.index = place.index :=
        (index_of_mem_mark hmem).symm.trans (index_of_mem_mark hmark)
      obtain rfl := List.inj_on_of_nodup_map hnodup (List.mem_of_mem_take hother) hplace hsame
      exact ⟨hother, hall⟩
    · cases hmem
  · rintro ⟨htake, hall⟩
    refine ⟨place, htake, ?_⟩
    rwa [if_pos hall]

end Meaning

end Webcamd.Library.Conditionals
