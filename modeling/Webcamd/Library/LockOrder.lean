import Mathlib
import Webcamd.Library.Machine

/-!
# Locks that are taken in an order

Threads that run routines with recursive locks, and with variables that are each guarded by a lock.
A routine is a tree: what it does next, and how it goes on for each answer.

* `Routine` — what one thread does; `Routine.Ensures` is its weakest precondition, which lets the
  other threads change every variable whose guard the thread does not hold.
* `Discipline` — the order of the locks and the guards of the variables.
* `threads` — **any number of threads**, each of which makes calls, in any order of their moves.
* `Disciplined.step` — a move of one thread keeps what the routines of all threads ensure.
* `Disciplined.progress` — **no deadlock**: a thread that waits, waits in the end for one that moves.
* `Disciplined.settles` — however the threads are scheduled, all calls return.
-/

namespace Webcamd.Library

universe u v w x y z

/-- What a thread does. -/
inductive Routine (Lock : Type u) (Op : Type v) (Answer : Type w) (α : Type x) where
  | done (value : α)
  | lock (l : Lock) (rest : Routine Lock Op Answer α)
  /-- The answer is whether the lock has been taken. -/
  | tryLock (l : Lock) (rest : Bool → Routine Lock Op Answer α)
  | unlock (l : Lock) (rest : Routine Lock Op Answer α)
  | perform (op : Op) (rest : Answer → Routine Lock Op Answer α)

namespace Routine

variable {Lock : Type u} {Op : Type v} {Answer : Type w} {α : Type x} {β : Type y}

/-- One routine after the other. -/
def bind : Routine Lock Op Answer α → (α → Routine Lock Op Answer β) → Routine Lock Op Answer β
  | .done value, next => next value
  | .lock l rest, next => .lock l (rest.bind next)
  | .tryLock l rest, next => .tryLock l fun taken => (rest taken).bind next
  | .unlock l rest, next => .unlock l (rest.bind next)
  | .perform op rest, next => .perform op fun answer => (rest answer).bind next

instance : Monad (Routine.{u, v, w, x} Lock Op Answer) where
  pure := .done
  bind := bind

/-- One routine is what is left of another one after its first step. -/
inductive Rest : Routine Lock Op Answer α → Routine Lock Op Answer α → Prop where
  | lock (l : Lock) (rest : Routine Lock Op Answer α) : Rest rest (.lock l rest)
  | tryLock (l : Lock) (rest : Bool → Routine Lock Op Answer α) (taken : Bool) :
      Rest (rest taken) (.tryLock l rest)
  | unlock (l : Lock) (rest : Routine Lock Op Answer α) : Rest rest (.unlock l rest)
  | perform (op : Op) (rest : Answer → Routine Lock Op Answer α) (answer : Answer) :
      Rest (rest answer) (.perform op rest)

/-- A routine ends, whatever is answered. -/
theorem rest_wellFounded : WellFounded (@Rest Lock Op Answer α) := by
  refine ⟨fun routine => ?_⟩
  induction routine with
  | done value => exact ⟨_, fun _ h => by cases h⟩
  | lock l rest ih =>
      refine ⟨_, fun _ h => ?_⟩
      cases h
      exact ih
  | tryLock l rest ih =>
      refine ⟨_, fun _ h => ?_⟩
      cases h
      exact ih _
  | unlock l rest ih =>
      refine ⟨_, fun _ h => ?_⟩
      cases h
      exact ih
  | perform op rest ih =>
      refine ⟨_, fun _ h => ?_⟩
      cases h
      exact ih _

end Routine

/-- The order of the locks, and the variables they guard. -/
structure Discipline (Lock : Type u) (Op : Type v) (Answer : Type w) (Var : Type x)
    (Value : Type y) where
  rank : Lock → ℕ
  guard : Var → Lock
  /-- what an operation does to the variables, for the answer that it gets -/
  write : Op → Answer → (Var → Value) → Var → Value

variable {Lock : Type u} {Op : Type v} {Answer : Type w} {Var : Type x} {Value : Type y}

namespace Discipline

variable (d : Discipline Lock Op Answer Var Value)

/-- The variables whose guards are held are the same. -/
def Agree (held : Lock → ℕ) (store store' : Var → Value) : Prop :=
  ∀ v, 0 < held (d.guard v) → store' v = store v

/-- A lock may be waited for: it comes below all locks that are held, or is one of them. -/
def Next (held : Lock → ℕ) (l : Lock) : Prop :=
  0 < held l ∨ ∀ l', 0 < held l' → d.rank l < d.rank l'

/-- An operation changes only variables whose guards are held. -/
def Writes (held : Lock → ℕ) (op : Op) (answer : Answer) (store : Var → Value) : Prop :=
  ∀ v, held (d.guard v) = 0 → d.write op answer store v = store v

variable {d} {held : Lock → ℕ} {store store' store'' : Var → Value}

theorem Agree.refl (held : Lock → ℕ) (store : Var → Value) : d.Agree held store store :=
  fun _ _ => rfl

theorem Agree.trans (h : d.Agree held store store') (h' : d.Agree held store' store'') :
    d.Agree held store store'' :=
  fun v hv => (h' v hv).trans (h v hv)

theorem Agree.of_le {held' : Lock → ℕ} (h : d.Agree held' store store') (hle : held ≤ held') :
    d.Agree held store store' :=
  fun v hv => h v (hv.trans_le (hle _))

end Discipline

namespace Routine

variable [DecidableEq Lock] {α : Type z} {β : Type z} (d : Discipline Lock Op Answer Var Value)
variable (Allowed : Op → (Lock → ℕ) → (Var → Value) → Prop)

/-- **The weakest precondition** of a routine, for the locks that the thread holds, how often, and
the variables: the locks are taken in the order, and every operation is allowed when it is done. -/
def Ensures : Routine Lock Op Answer α → (Lock → ℕ) → (Var → Value) →
    (α → (Lock → ℕ) → (Var → Value) → Prop) → Prop
  | .done value, held, store, Post => ∀ store', d.Agree held store store' → Post value held store'
  | .lock l rest, held, store, Post => d.Next held l ∧
      ∀ store', d.Agree held store store' → rest.Ensures (held + Pi.single l 1) store' Post
  | .tryLock l rest, held, store, Post => ∀ store', d.Agree held store store' →
      (rest true).Ensures (held + Pi.single l 1) store' Post ∧
        (held l = 0 → (rest false).Ensures held store' Post)
  | .unlock l rest, held, store, Post => 0 < held l ∧
      rest.Ensures (held - Pi.single l 1) store Post
  | .perform op rest, held, store, Post => ∀ store', d.Agree held store store' →
      Allowed op held store' ∧ ∀ answer, d.Writes held op answer store' ∧
        (rest answer).Ensures held (d.write op answer store') Post

variable {d Allowed} {held : Lock → ℕ} {store store' : Var → Value}
variable {Post Post' : α → (Lock → ℕ) → (Var → Value) → Prop} {routine : Routine Lock Op Answer α}

/-- The other threads do not take away what a routine ensures. -/
theorem Ensures.agree (h : routine.Ensures d Allowed held store Post)
    (hagree : d.Agree held store store') : routine.Ensures d Allowed held store' Post := by
  induction routine generalizing held store store' with
  | done value => exact fun _ hagree' => h _ (hagree.trans hagree')
  | lock l rest ih => exact ⟨h.1, fun _ hagree' => h.2 _ (hagree.trans hagree')⟩
  | tryLock l rest ih => exact fun _ hagree' => h _ (hagree.trans hagree')
  | unlock l rest ih =>
      refine ⟨h.1, ih h.2 fun v hv => hagree v (hv.trans_le ?_)⟩
      exact Nat.sub_le _ _
  | perform op rest ih => exact fun _ hagree' => h _ (hagree.trans hagree')

/-- **The rule for one routine after the other.** -/
theorem Ensures.bind {next : α → Routine Lock Op Answer β}
    {Post' : β → (Lock → ℕ) → (Var → Value) → Prop}
    (h : routine.Ensures d Allowed held store Post)
    (hnext : ∀ value held store, Post value held store →
      (next value).Ensures d Allowed held store Post') :
    (routine >>= next).Ensures d Allowed held store Post' := by
  show (routine.bind next).Ensures d Allowed held store Post'
  induction routine generalizing held store with
  | done value => exact hnext value held store (h store (.refl held store))
  | lock l rest ih => exact ⟨h.1, fun _ hagree => ih (h.2 _ hagree)⟩
  | tryLock l rest ih =>
      exact fun _ hagree => ⟨ih true (h _ hagree).1, fun hfree => ih false ((h _ hagree).2 hfree)⟩
  | unlock l rest ih => exact ⟨h.1, ih h.2⟩
  | perform op rest ih =>
      refine fun _ hagree => ⟨(h _ hagree).1, fun answer => ?_⟩
      obtain ⟨hwrites, hrest⟩ := (h _ hagree).2 answer
      exact ⟨hwrites, ih answer hrest⟩

theorem Ensures.mono (h : routine.Ensures d Allowed held store Post)
    (hpost : ∀ value held store, Post value held store → Post' value held store) :
    routine.Ensures d Allowed held store Post' := by
  induction routine generalizing held store with
  | done value => exact fun _ hagree => hpost _ _ _ (h _ hagree)
  | lock l rest ih => exact ⟨h.1, fun _ hagree => ih (h.2 _ hagree)⟩
  | tryLock l rest ih =>
      exact fun _ hagree => ⟨ih true (h _ hagree).1, fun hfree => ih false ((h _ hagree).2 hfree)⟩
  | unlock l rest ih => exact ⟨h.1, ih h.2⟩
  | perform op rest ih =>
      refine fun _ hagree => ⟨(h _ hagree).1, fun answer => ?_⟩
      obtain ⟨hwrites, hrest⟩ := (h _ hagree).2 answer
      exact ⟨hwrites, ih answer hrest⟩

end Routine

/-! ### Threads -/

variable {Thread Call : Type}

/-- The locks, the variables, and what every thread still has to do in the call that it makes. -/
structure Threads (Thread Call : Type) (Lock : Type u) (Op : Type v) (Answer : Type w)
    (Var : Type x) (Value : Type y) where
  owner : Lock → Option Thread
  /-- how often the owner has taken the lock -/
  depth : Lock → ℕ
  store : Var → Value
  running : Thread → Option (Call × Routine Lock Op Answer Unit)

/-- A thread makes a call, or it takes a step in the call that it makes. -/
inductive Move (Thread Call : Type) (Answer : Type w) where
  | call (t : Thread) (call : Call)
  /-- An operation gets the answer. -/
  | step (t : Thread) (answer : Answer)

namespace Threads

variable [DecidableEq Lock] [DecidableEq Thread]
variable (state : Threads Thread Call Lock Op Answer Var Value)

/-- A lock is taken, for the first time or once more, unless another thread has it. -/
def take (t : Thread) (l : Lock) : Option (Threads Thread Call Lock Op Answer Var Value) :=
  if state.owner l = none then some { state with
    owner := Function.update state.owner l (some t)
    depth := Function.update state.depth l 1 }
  else if state.owner l = some t then some { state with
    depth := Function.update state.depth l (state.depth l + 1) }
  else none

/-- A lock is given back, as often as it has been taken. -/
def give (l : Lock) : Threads Thread Call Lock Op Answer Var Value :=
  if state.depth l ≤ 1 then { state with
    owner := Function.update state.owner l none
    depth := Function.update state.depth l 0 }
  else { state with depth := Function.update state.depth l (state.depth l - 1) }

/-- What is left of the call of a thread. -/
def next (t : Thread) (call : Call) (rest : Routine Lock Op Answer Unit) :
    Threads Thread Call Lock Op Answer Var Value :=
  { state with running := Function.update state.running t (some (call, rest)) }

/-- The call of a thread returns. -/
def finish (t : Thread) : Threads Thread Call Lock Op Answer Var Value :=
  { state with running := Function.update state.running t none }

/-- How often a thread has taken a lock. -/
def held (t : Thread) (l : Lock) : ℕ := if state.owner l = some t then state.depth l else 0

end Threads

/-- The operations that are done, by which thread, with their answers. -/
structure Done (Thread : Type) (Op : Type v) (Answer : Type w) where
  thread : Thread
  op : Op
  answer : Answer

section machine

variable [DecidableEq Lock] [DecidableEq Thread]

/-- A step in the call that the thread makes. -/
def stepOf (d : Discipline Lock Op Answer Var Value)
    (state : Threads Thread Call Lock Op Answer Var Value) (t : Thread) (answer : Answer)
    (call : Call) : Routine Lock Op Answer Unit →
      Option (Threads Thread Call Lock Op Answer Var Value × List (Done Thread Op Answer))
  | .done _ => some (state.finish t, [])
  | .lock l rest => (state.take t l).map fun taken => (taken.next t call rest, [])
  | .tryLock l rest => some (((state.take t l).map fun taken => taken.next t call (rest true)).getD
      (state.next t call (rest false)), [])
  | .unlock l rest => some ((state.give l).next t call rest, [])
  | .perform op rest =>
      some ({ state with store := d.write op answer state.store }.next t call (rest answer),
        [⟨t, op, answer⟩])

/-- **Any number of threads**, in any order of their moves; every call has its routine. -/
def threads (d : Discipline Lock Op Answer Var Value) (body : Call → Routine Lock Op Answer Unit) :
    Machine (Threads Thread Call Lock Op Answer Var Value) (Move Thread Call Answer)
      (Done Thread Op Answer) where
  step state
    | .call t call => if (state.running t).isNone then some (state.next t call (body call), [])
        else none
    | .step t answer => (state.running t).bind fun current =>
        stepOf d state t answer current.1 current.2

/-! ### What the steps of a thread do -/

variable {d : Discipline Lock Op Answer Var Value} {body : Call → Routine Lock Op Answer Unit}
variable {state taken next : Threads Thread Call Lock Op Answer Var Value} {t t' : Thread} {l : Lock}

namespace Threads

theorem take_eq_none_iff :
    state.take t l = none ↔ state.owner l ≠ none ∧ state.owner l ≠ some t := by
  unfold take
  split_ifs <;> simp [*]

theorem take_held (h : state.take t l = some taken) :
    taken.held t = state.held t + Pi.single l 1 := by
  funext l'
  unfold take at h
  split_ifs at h with hfree hself <;> obtain rfl := Option.some.inj h <;>
    obtain rfl | hne := eq_or_ne l' l
  · simp [held, hfree]
  · simp [held, hne]
  · simp [held, hself]
  · simp [held, hne]

/-- Nothing else changes when a lock is taken. -/
theorem take_frame (h : state.take t l = some taken) :
    taken.store = state.store ∧ taken.running = state.running ∧
      (∀ t' ≠ t, taken.held t' = state.held t') ∧
      ((∀ l t, state.owner l = some t → 0 < state.depth l) →
        ∀ l t, taken.owner l = some t → 0 < taken.depth l) := by
  unfold take at h
  split_ifs at h with hfree hself <;> obtain rfl := Option.some.inj h <;>
    refine ⟨rfl, rfl, fun t' hne => funext fun l' => ?_, fun hdepth l' t' => ?_⟩ <;>
    obtain rfl | hl := eq_or_ne l' l
  · simp [held, hfree, hne.symm]
  · simp [held, hl]
  · simp
  · simpa [hl] using hdepth l' t'
  · simp [held, hself, hne.symm]
  · simp [held, hl]
  · simp
  · simpa [hl] using hdepth l' t'

omit [DecidableEq Lock] in
theorem owner_of_held (hheld : 0 < state.held t l) : state.owner l = some t := by
  by_contra hne
  simp [held, hne] at hheld

theorem give_held (hheld : 0 < state.held t l) :
    (state.give l).held t = state.held t - Pi.single l 1 := by
  have howner := owner_of_held hheld
  funext l'
  unfold give
  split <;> rename_i hdepth <;> obtain rfl | hne := eq_or_ne l' l
  · simp only [held, howner, Function.update_self, Pi.sub_apply, Pi.single_eq_same, if_true]
    simp only [reduceCtorEq, if_false]
    omega
  · simp [held, hne]
  · simp [held, howner]
  · simp [held, hne]

/-- Nothing else changes when a lock is given back. -/
theorem give_frame (hheld : 0 < state.held t l) :
    (state.give l).store = state.store ∧ (state.give l).running = state.running ∧
      (∀ t' ≠ t, (state.give l).held t' = state.held t') ∧
      ((∀ l t, state.owner l = some t → 0 < state.depth l) →
        ∀ l' t, (state.give l).owner l' = some t → 0 < (state.give l).depth l') := by
  have howner := owner_of_held hheld
  unfold give
  split <;> rename_i hdepth
  · refine ⟨rfl, rfl, fun t' hne => funext fun l' => ?_, fun hpos l' t' => ?_⟩
    · obtain rfl | hl := eq_or_ne l' l
      · simp [held, howner, hne.symm]
      · simp [held, hl]
    · obtain rfl | hl := eq_or_ne l' l
      · simp
      · simpa [hl] using hpos l' t'
  · refine ⟨rfl, rfl, fun t' hne => funext fun l' => ?_, fun hpos l' t' => ?_⟩
    · obtain rfl | hl := eq_or_ne l' l
      · simp [held, howner, hne.symm]
      · simp [held, hl]
    · obtain rfl | hl := eq_or_ne l' l
      · simp only [Function.update_self]
        omega
      · simpa [hl] using hpos l' t'

end Threads

/-! ### The invariant -/

/-- What the threads have to do keeps to the discipline; a thread without a call has no locks. -/
structure Disciplined (d : Discipline Lock Op Answer Var Value)
    (Allowed : Call → Op → (Lock → ℕ) → (Var → Value) → Prop)
    (state : Threads Thread Call Lock Op Answer Var Value) : Prop where
  owned : ∀ l t, state.owner l = some t → 0 < state.depth l
  idle : ∀ t, state.running t = none → state.held t = 0
  ensures : ∀ t call routine, state.running t = some (call, routine) →
    routine.Ensures d (Allowed call) (state.held t) state.store fun _ held _ => held = 0

variable {Allowed : Call → Op → (Lock → ℕ) → (Var → Value) → Prop} {call : Call}
variable {routine rest : Routine Lock Op Answer Unit} {answer : Answer}
variable {events : List (Done Thread Op Answer)}

/-- **A thread goes on** in its call: what it has left to do is right, and it takes nothing away
from the other threads. -/
theorem Disciplined.goOn (h : Disciplined d Allowed state)
    (howned : ∀ l t, taken.owner l = some t → 0 < taken.depth l)
    (hrunning : taken.running = state.running)
    (hothers : ∀ t' ≠ t, taken.held t' = state.held t')
    (hagree : ∀ t' ≠ t, d.Agree (state.held t') state.store taken.store)
    (hrest : rest.Ensures d (Allowed call) (taken.held t) taken.store fun _ held _ => held = 0) :
    Disciplined d Allowed (taken.next t call rest) where
  owned := howned
  idle t' hidle := by
    replace hidle : Function.update taken.running t (some (call, rest)) t' = none := hidle
    obtain rfl | hne := eq_or_ne t' t
    · rw [Function.update_self] at hidle
      cases hidle
    · rw [Function.update_of_ne hne, hrunning] at hidle
      exact (hothers t' hne).trans (h.idle t' hidle)
  ensures t' call' routine hcurrent := by
    replace hcurrent : Function.update taken.running t (some (call, rest)) t' =
      some (call', routine) := hcurrent
    show routine.Ensures d (Allowed call') (taken.held t') taken.store _
    obtain rfl | hne := eq_or_ne t' t
    · rw [Function.update_self] at hcurrent
      obtain ⟨rfl, rfl⟩ := Prod.mk.inj (Option.some.inj hcurrent)
      exact hrest
    · rw [Function.update_of_ne hne, hrunning] at hcurrent
      rw [hothers t' hne]
      exact (h.ensures t' call' routine hcurrent).agree (hagree t' hne)

/-- A lock is taken, and the thread goes on. -/
theorem Disciplined.take (h : Disciplined d Allowed state) (htake : state.take t l = some taken)
    (hrest : rest.Ensures d (Allowed call) (state.held t + Pi.single l 1) state.store
      fun _ held _ => held = 0) : Disciplined d Allowed (taken.next t call rest) := by
  obtain ⟨hstore, hrunning, hothers, howned⟩ := Threads.take_frame htake
  refine h.goOn (howned h.owned) hrunning hothers (fun t' _ => ?_) ?_
  · rw [hstore]
    exact .refl _ _
  · rw [hstore, Threads.take_held htake]
    exact hrest

/-- **A step keeps the discipline**, one case for each thing that a routine can do. -/
theorem Disciplined.stepOf (h : Disciplined d Allowed state)
    (hcurrent : state.running t = some (call, routine))
    (hstep : stepOf d state t answer call routine = some (next, events)) :
    Disciplined d Allowed next := by
  have hensures := h.ensures t call routine hcurrent
  cases routine with
  | done value =>
      obtain ⟨rfl, -⟩ := Prod.mk.inj (Option.some.inj hstep)
      refine ⟨h.owned, fun t' hidle => ?_, fun t' call' routine hother => ?_⟩
      · obtain rfl | hne := eq_or_ne t' t
        · exact hensures _ (.refl _ _)
        · replace hidle : Function.update state.running t none t' = none := hidle
          rw [Function.update_of_ne hne] at hidle
          exact h.idle t' hidle
      · replace hother : Function.update state.running t none t' = some (call', routine) := hother
        obtain rfl | hne := eq_or_ne t' t
        · rw [Function.update_self] at hother
          cases hother
        · rw [Function.update_of_ne hne] at hother
          exact h.ensures t' call' routine hother
  | lock l rest =>
      obtain ⟨taken, htake, heq⟩ := Option.map_eq_some_iff.mp hstep
      obtain ⟨rfl, -⟩ := Prod.mk.inj heq
      exact h.take htake (hensures.2 _ (.refl _ _))
  | tryLock l rest =>
      obtain ⟨rfl, -⟩ := Prod.mk.inj (Option.some.inj hstep)
      obtain ⟨htrue, hfalse⟩ := hensures _ (.refl _ _)
      cases htake : state.take t l with
      | some taken => exact h.take htake htrue
      | none =>
          have hfree : state.held t l = 0 := if_neg (Threads.take_eq_none_iff.mp htake).2
          exact h.goOn h.owned rfl (fun _ _ => rfl) (fun _ _ => .refl _ _) (hfalse hfree)
  | unlock l rest =>
      obtain ⟨rfl, -⟩ := Prod.mk.inj (Option.some.inj hstep)
      obtain ⟨hheld, hrest⟩ := hensures
      obtain ⟨hstore, hrunning, hothers, howned⟩ := Threads.give_frame hheld
      refine h.goOn (howned h.owned) hrunning hothers (fun t' _ => ?_) ?_
      · rw [hstore]
        exact .refl _ _
      · rw [hstore, Threads.give_held hheld]
        exact hrest
  | perform op rest =>
      obtain ⟨rfl, -⟩ := Prod.mk.inj (Option.some.inj hstep)
      obtain ⟨-, hanswers⟩ := hensures _ (.refl _ _)
      obtain ⟨hwrites, hrest⟩ := hanswers answer
      have hnext : Disciplined d Allowed
          (({ state with store := d.write op answer state.store } : Threads _ _ _ _ _ _ _).next t
            call (rest answer)) := by
        refine h.goOn h.owned rfl (fun _ _ => rfl) (fun t' hne v hguard => hwrites v ?_) hrest
        have howner := Threads.owner_of_held hguard
        refine if_neg ?_
        rw [howner, Option.some_inj]
        exact hne
      exact hnext

/-- **A move keeps the discipline**, if the routines of all calls keep to it. -/
theorem Disciplined.step (hbody : ∀ call store,
      (body call).Ensures d (Allowed call) 0 store fun _ held _ => held = 0)
    {move : Move Thread Call Answer} (h : Disciplined d Allowed state)
    (hstep : (threads d body).step state move = some (next, events)) :
    Disciplined d Allowed next := by
  cases move with
  | call t call =>
      obtain ⟨hidle, heq⟩ := Option.ite_none_right_eq_some.mp hstep
      obtain ⟨rfl, -⟩ := Prod.mk.inj (Option.some.inj heq)
      rw [Option.isNone_iff_eq_none] at hidle
      refine h.goOn h.owned rfl (fun _ _ => rfl) (fun _ _ => .refl _ _) ?_
      show (body call).Ensures d (Allowed call) (state.held t) state.store _
      rw [h.idle t hidle]
      exact hbody call state.store
  | step t answer =>
      obtain ⟨⟨call, routine⟩, hcurrent, hstep⟩ := Option.bind_eq_some_iff.mp hstep
      exact h.stepOf hcurrent hstep

/-- What a thread is about to do is allowed. -/
theorem Disciplined.allowed {op : Op} {rest : Answer → Routine Lock Op Answer Unit}
    (h : Disciplined d Allowed state) (hcurrent : state.running t = some (call, .perform op rest)) :
    Allowed call op (state.held t) state.store :=
  (h.ensures t call _ hcurrent _ (.refl _ _)).1

/-! ### Progress -/

/-- One thread waits for a lock that another one has. -/
def Threads.Waits (state : Threads Thread Call Lock Op Answer Var Value) (t t' : Thread) : Prop :=
  ∃ call l rest, state.running t = some (call, .lock l rest) ∧ state.owner l = some t' ∧ t ≠ t'

/-- A thread can take a step in its call, whatever answer it gets. -/
def CanStep (d : Discipline Lock Op Answer Var Value)
    (state : Threads Thread Call Lock Op Answer Var Value) (t : Thread) : Prop :=
  ∃ call routine, state.running t = some (call, routine) ∧
    ∀ answer, (Webcamd.Library.stepOf d state t answer call routine).isSome = true

/-- A thread can take a step, or it waits for a lock, which comes before all its other locks. -/
theorem Disciplined.waits_or (h : Disciplined d Allowed state)
    (hcurrent : state.running t = some (call, routine)) : CanStep d state t ∨
      ∃ l rest t', routine = .lock l rest ∧ state.owner l = some t' ∧ t ≠ t' ∧
        ∀ l', state.owner l' = some t → d.rank l < d.rank l' := by
  have hensures := h.ensures t call routine hcurrent
  cases routine with
  | done value => exact Or.inl ⟨call, _, hcurrent, fun _ => rfl⟩
  | lock l rest =>
      cases htake : state.take t l with
      | some taken =>
          refine Or.inl ⟨call, _, hcurrent, fun _ => ?_⟩
          rw [Webcamd.Library.stepOf, htake]
          rfl
      | none =>
          obtain ⟨howned, hother⟩ := Threads.take_eq_none_iff.mp htake
          obtain ⟨t', howner⟩ := Option.ne_none_iff_exists'.mp howned
          refine Or.inr ⟨l, rest, t', rfl, howner, ?_, fun l' howner' => ?_⟩
          · rintro rfl
            exact hother howner
          · obtain hself | hbelow := hensures.1
            · exact absurd (Threads.owner_of_held hself) hother
            · refine hbelow l' ?_
              rw [Threads.held, if_pos howner']
              exact h.owned l' t howner'
  | tryLock l rest => exact Or.inl ⟨call, _, hcurrent, fun _ => rfl⟩
  | unlock l rest => exact Or.inl ⟨call, _, hcurrent, fun _ => rfl⟩
  | perform op rest => exact Or.inl ⟨call, _, hcurrent, fun _ => rfl⟩

/-- A thread that has a lock is in a call. -/
theorem Disciplined.running_of_owner (h : Disciplined d Allowed state)
    (howner : state.owner l = some t) :
    ∃ call routine, state.running t = some (call, routine) := by
  cases hcurrent : state.running t with
  | some current => exact ⟨current.1, current.2, rfl⟩
  | none =>
      have hpos := h.owned l t howner
      have hzero : state.held t l = 0 := congrFun (h.idle t hcurrent) l
      rw [Threads.held, if_pos howner] at hzero
      omega

/-- Who has a lock can take a step, or waits in the end for a thread that can.  Induction on the rank
of the lock: the lock that its owner waits for comes before it. -/
theorem Disciplined.owner_progress (h : Disciplined d Allowed state)
    (howner : state.owner l = some t) :
    ∃ t', Relation.ReflTransGen state.Waits t t' ∧ CanStep d state t' := by
  induction hrank : d.rank l using Nat.strong_induction_on generalizing l t with
  | _ n ih =>
      obtain ⟨call, routine, hcurrent⟩ := h.running_of_owner howner
      obtain hstep | ⟨l', rest, t', rfl, howner', hne, hbelow⟩ := h.waits_or hcurrent
      · exact ⟨t, .refl, hstep⟩
      · obtain ⟨last, hpath, hstep⟩ := ih _ (hrank ▸ hbelow l howner) howner' rfl
        exact ⟨last, .head ⟨call, l', rest, hcurrent, howner', hne⟩ hpath, hstep⟩

/-- **No deadlock.**  A thread that has something to do can do it, or it waits, through other
threads that wait, for one that can. -/
theorem Disciplined.progress (h : Disciplined d Allowed state)
    (hcurrent : state.running t = some (call, routine)) :
    ∃ t', Relation.ReflTransGen state.Waits t t' ∧ CanStep d state t' := by
  obtain hstep | ⟨l, rest, t', rfl, howner, hne, -⟩ := h.waits_or hcurrent
  · exact ⟨t, .refl, hstep⟩
  · obtain ⟨last, hpath, hstep⟩ := h.owner_progress howner
    exact ⟨last, .head ⟨call, l, rest, hcurrent, howner, hne⟩ hpath, hstep⟩

/-! ### All calls return -/

/-- However it goes on, it ends, and where it ends is final. -/
inductive Settles {σ : Type z} (Turn : σ → σ → Prop) (Final : σ → Prop) : σ → Prop where
  | intro {s : σ} (ends : Final s ∨ ∃ s', Turn s s')
      (goesOn : ∀ s', Turn s s' → Settles Turn Final s') : Settles Turn Final s

/-- A thread takes a step in its call. -/
def Turn (d : Discipline Lock Op Answer Var Value)
    (state next : Threads Thread Call Lock Op Answer Var Value) : Prop :=
  ∃ t answer events, ((state.running t).bind fun current =>
    stepOf d state t answer current.1 current.2) = some (next, events)

/-- No thread is in a call, and no lock is taken. -/
def Threads.Quiet (state : Threads Thread Call Lock Op Answer Var Value) : Prop :=
  (∀ t, state.running t = none) ∧ ∀ l, state.owner l = none

/-- What a step leaves of a call. -/
def Left (left current : Option (Call × Routine Lock Op Answer Unit)) : Prop :=
  ∃ call routine, current = some (call, routine) ∧
    (left = none ∨ ∃ rest, left = some (call, rest) ∧ Routine.Rest rest routine)

omit [DecidableEq Lock] in
theorem left_wellFounded : WellFounded (@Left Lock Op Answer Call) := by
  have hnone : Acc (@Left Lock Op Answer Call) none := by
    refine ⟨_, fun left h => ?_⟩
    obtain ⟨call, routine, hcurrent, -⟩ := h
    cases hcurrent
  refine ⟨fun current => ?_⟩
  obtain _ | ⟨call, routine⟩ := current
  · exact hnone
  · induction routine using Routine.rest_wellFounded.induction with
    | _ routine ih =>
        refine ⟨_, fun left h => ?_⟩
        obtain ⟨call', routine', hcurrent, hleft⟩ := h
        obtain ⟨rfl, rfl⟩ := Prod.mk.inj (Option.some.inj hcurrent)
        obtain rfl | ⟨rest, rfl, hrest⟩ := hleft
        · exact hnone
        · exact ih rest hrest

theorem stepOf_left (hcurrent : state.running t = some (call, routine))
    (hstep : stepOf d state t answer call routine = some (next, events)) :
    ∃ left, next.running = Function.update state.running t left ∧
      Left left (state.running t) := by
  rw [hcurrent]
  cases routine with
  | done value =>
      obtain ⟨rfl, -⟩ := Prod.mk.inj (Option.some.inj hstep)
      exact ⟨none, rfl, call, _, rfl, Or.inl rfl⟩
  | lock l rest =>
      obtain ⟨taken, htake, heq⟩ := Option.map_eq_some_iff.mp hstep
      obtain ⟨rfl, -⟩ := Prod.mk.inj heq
      refine ⟨some (call, rest), ?_, call, _, rfl, Or.inr ⟨rest, rfl, .lock l rest⟩⟩
      exact congrArg (Function.update · t _) (Threads.take_frame htake).2.1
  | tryLock l rest =>
      obtain ⟨rfl, -⟩ := Prod.mk.inj (Option.some.inj hstep)
      cases htake : state.take t l with
      | some taken =>
          refine ⟨some (call, rest true), ?_, call, _, rfl, Or.inr ⟨_, rfl, .tryLock l rest true⟩⟩
          exact congrArg (Function.update · t _) (Threads.take_frame htake).2.1
      | none =>
          exact ⟨some (call, rest false), rfl, call, _, rfl, Or.inr ⟨_, rfl, .tryLock l rest false⟩⟩
  | unlock l rest =>
      obtain ⟨rfl, -⟩ := Prod.mk.inj (Option.some.inj hstep)
      refine ⟨some (call, rest), ?_, call, _, rfl, Or.inr ⟨rest, rfl, .unlock l rest⟩⟩
      refine congrArg (Function.update · t _) ?_
      unfold Threads.give
      split <;> rfl
  | perform op rest =>
      obtain ⟨rfl, -⟩ := Prod.mk.inj (Option.some.inj hstep)
      exact ⟨some (call, rest answer), rfl, call, _, rfl, Or.inr ⟨_, rfl, .perform op rest answer⟩⟩

/-- The threads cannot go on for ever without a new call. -/
theorem turn_wellFounded [Finite Thread] : WellFounded
    fun next state : Threads Thread Call Lock Op Answer Var Value => Turn d state next := by
  have hlex := Pi.Lex.wellFounded WellOrderingRel
    fun _ : Thread => @left_wellFounded Lock Op Answer Call
  refine Subrelation.wf (fun {next state} h => ?_) (InvImage.wf Threads.running hlex)
  obtain ⟨t, answer, events, hstep⟩ := h
  obtain ⟨⟨call, routine⟩, hcurrent, hstep⟩ := Option.bind_eq_some_iff.mp hstep
  obtain ⟨left, hrunning, hleft⟩ := stepOf_left hcurrent hstep
  refine ⟨t, fun t' hless => ?_, ?_⟩
  · rw [hrunning, Function.update_of_ne]
    rintro rfl
    exact irrefl _ hless
  · rw [hrunning, Function.update_self]
    exact hleft

/-- **All calls return**, whatever the order of the threads' steps, and give back all locks. -/
theorem Disciplined.settles [Finite Thread] [Inhabited Answer] (h : Disciplined d Allowed state) :
    Settles (Turn d) Threads.Quiet state := by
  have hwell : WellFounded fun next state : Threads Thread Call Lock Op Answer Var Value =>
    Turn d state next := turn_wellFounded
  induction state using hwell.induction with
  | _ state ih =>
      refine ⟨?_, fun next hturn => ih next hturn ?_⟩
      · by_cases hquiet : ∀ t, state.running t = none
        · refine Or.inl ⟨hquiet, fun l => ?_⟩
          by_contra howned
          obtain ⟨t, howner⟩ := Option.ne_none_iff_exists'.mp howned
          obtain ⟨call, routine, hcurrent⟩ := h.running_of_owner howner
          rw [hquiet] at hcurrent
          cases hcurrent
        · obtain ⟨t, hbusy⟩ := not_forall.mp hquiet
          obtain ⟨⟨call, routine⟩, hcurrent⟩ := Option.ne_none_iff_exists'.mp hbusy
          obtain ⟨t', -, call, routine, hcurrent, hsteps⟩ := h.progress hcurrent
          obtain ⟨⟨next, events⟩, hstep⟩ := Option.isSome_iff_exists.mp (hsteps default)
          refine Or.inr ⟨next, t', default, events, ?_⟩
          rw [hcurrent]
          exact hstep
      · obtain ⟨t, answer, events, hstep⟩ := hturn
        obtain ⟨⟨call, routine⟩, hcurrent, hstep⟩ := Option.bind_eq_some_iff.mp hstep
        exact h.stepOf hcurrent hstep

/-! ### Runs -/

/-- No calls have been made. -/
def Threads.start (store : Var → Value) : Threads Thread Call Lock Op Answer Var Value where
  owner := fun _ => none
  depth := fun _ => 0
  store := store
  running := fun _ => none

/-- **The run rule**: in every state that is reached, the threads keep to the discipline. -/
theorem Disciplined.run (hbody : ∀ call store,
      (body call).Ensures d (Allowed call) 0 store fun _ held _ => held = 0)
    {store : Var → Value} {schedule : List (Move Thread Call Answer)}
    {history : List (Done Thread Op Answer)}
    (hrun : (threads d body).run (Threads.start store) schedule = some (state, history)) :
    Disciplined d Allowed state := by
  have hstart : Disciplined d Allowed
      (Threads.start store : Threads Thread Call Lock Op Answer Var Value) :=
    ⟨fun l t howner => (by cases howner), fun t _ => (by funext l; rfl),
      fun t call routine hcurrent => (by cases hcurrent)⟩
  exact ((threads d body).run_states (fun h hstep => h.step hbody hstep) hstart hrun).2

end machine

end Webcamd.Library
