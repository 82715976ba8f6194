import Webcamd.Library.Machine
import Webcamd.Library.Stack

/-!
# Deferred callbacks

`call_rcu` and the thread `rcu_exec` of `kernel/linux_task.c`.  The pending heads are a stack,
linked through their own `next` fields, and `call_rcu` takes a head to be pending if that field
is not `NULL`.  At the bottom of the stack it is `NULL` too.

A call of `call_rcu` is one lock section.  `rcu_exec` pops a head in one section and calls its
function after it, so that other threads, and the function itself, may call in between.

* `State`, `rcuMachine` — the heads and the thread; `call_rcu` may be called at any time.
* `Bottom` — a head that is pending and looks as if it were not.
* `RcuInv` — the links are a stack, and the accepted calls of every head are those whose
  callback has run, the one that is about to run, and the one that is pending.
* `call_rcu_iff` — the links are a stack throughout a run exactly if no call is made on the head
  at the bottom; and then every callback runs once for each call that found its head not pending.
-/

namespace Webcamd.Kernel.Rcu

open Webcamd.Library

/-- Where `rcu_exec` is. -/
inductive RcuPc (H : Type) where
  /-- At the top of its loop. -/
  | idle
  /-- It has popped the head and is about to call its function. -/
  | popped (head : H)
  | running (head : H)
  deriving DecidableEq

structure State (H F : Type) where
  /-- `rcu_head` -/
  rcuHead : Option H
  /-- `next` and `func` of every head -/
  next : H → Option H
  func : H → F
  thread : RcuPc H

inductive Action (H F : Type) where
  | callRcu (head : H) (func : F)
  | rcuExec

inductive Event (H F : Type) where
  /-- `call_rcu` put the head on the list … -/
  | accepted (head : H)
  /-- … or took it to be pending. -/
  | refused (head : H)
  /-- `rcu_exec` calls the function of the head. -/
  | ran (head : H) (func : F)
  deriving DecidableEq

namespace State

variable {H F : Type} [DecidableEq H]

/-- No head is pending, and all of them are initialised. -/
def init (func : H → F) : State H F where
  rcuHead := none
  next := fun _ => none
  func := func
  thread := .idle

/-- `call_rcu` -/
def callRcu (state : State H F) (head : H) (func : F) : State H F × List (Event H F) :=
  if state.next head = none then
    ({ state with
        next := Function.update state.next head state.rcuHead
        func := Function.update state.func head func
        rcuHead := some head }, [.accepted head])
  else (state, [.refused head])

/-- `rcu_exec` -/
def rcuExec (state : State H F) : State H F × List (Event H F) :=
  match state.thread with
  | .idle =>
      match state.rcuHead with
      | some head =>
          ({ state with
              rcuHead := state.next head
              next := Function.update state.next head none
              thread := .popped head }, [])
      | none => (state, [])
  | .popped head => ({ state with thread := .running head }, [.ran head (state.func head)])
  | .running _ => ({ state with thread := .idle }, [])

end State

variable {H F : Type} [DecidableEq H]

/-- **The machine.**  Every action is enabled in every state. -/
def rcuMachine (H F : Type) [DecidableEq H] : Machine (State H F) (Action H F) (Event H F) where
  step state
    | .callRcu head func => some (state.callRcu head func)
    | .rcuExec => some state.rcuExec

/-- The head is pending — something points to it — and its `next` is `NULL` all the same. -/
def Bottom (state : State H F) (head : H) : Prop :=
  state.next head = none ∧ (state.rcuHead = some head ∨ ∃ other, state.next other = some head)

/-- If the step is a `call_rcu`, it is not made on the head at the bottom. -/
def AvoidsBottom (state : State H F) : Action H F → Prop
  | .callRcu head _ => ¬ Bottom state head
  | .rcuExec => True

instance [Fintype H] (state : State H F) (head : H) : Decidable (Bottom state head) :=
  inferInstanceAs (Decidable (_ ∧ _))

instance [Fintype H] (state : State H F) : (action : Action H F) →
    Decidable (AvoidsBottom state action)
  | .callRcu head _ => inferInstanceAs (Decidable (¬ Bottom state head))
  | .rcuExec => inferInstanceAs (Decidable True)

/-- The pending heads are a stack. -/
def PendingOk (state : State H F) : Prop :=
  ∃ items, Stack.Represents state.next state.rcuHead items

variable {state next : State H F} {action : Action H F} {events history : List (Event H F)}
variable {items : List H} {head : H}

/-! ### One step -/

/-- The ways a step can go. -/
inductive RcuMove (state : State H F) : Action H F → State H F → List (Event H F) → Prop where
  | accept (head : H) (func : F) (hnone : state.next head = none) :
      RcuMove state (.callRcu head func)
        { state with
          next := Function.update state.next head state.rcuHead
          func := Function.update state.func head func
          rcuHead := some head } [.accepted head]
  | refuse (head : H) (func : F) (hsome : state.next head ≠ none) :
      RcuMove state (.callRcu head func) state [.refused head]
  | pop (head : H) (hthread : state.thread = .idle) (htop : state.rcuHead = some head) :
      RcuMove state .rcuExec
        { state with
          rcuHead := state.next head
          next := Function.update state.next head none
          thread := .popped head } []
  | sleep (hthread : state.thread = .idle) (htop : state.rcuHead = none) :
      RcuMove state .rcuExec state []
  | call (head : H) (hthread : state.thread = .popped head) :
      RcuMove state .rcuExec { state with thread := .running head } [.ran head (state.func head)]
  | back (head : H) (hthread : state.thread = .running head) :
      RcuMove state .rcuExec { state with thread := .idle } []

theorem RcuMove.of_step (hstep : (rcuMachine H F).step state action = some (next, events)) :
    RcuMove state action next events := by
  cases action with
  | callRcu head func =>
      replace hstep : some (state.callRcu head func) = some (next, events) := hstep
      unfold State.callRcu at hstep
      split at hstep
      · rename_i hnone
        obtain ⟨rfl, rfl⟩ := Prod.mk.inj (Option.some.inj hstep)
        exact .accept head func hnone
      · rename_i hsome
        obtain ⟨rfl, rfl⟩ := Prod.mk.inj (Option.some.inj hstep)
        exact .refuse head func hsome
  | rcuExec =>
      replace hstep : some state.rcuExec = some (next, events) := hstep
      unfold State.rcuExec at hstep
      split at hstep
      · rename_i hthread
        split at hstep
        · rename_i head htop
          obtain ⟨rfl, rfl⟩ := Prod.mk.inj (Option.some.inj hstep)
          exact .pop head hthread htop
        · rename_i htop
          obtain ⟨rfl, rfl⟩ := Prod.mk.inj (Option.some.inj hstep)
          exact .sleep hthread htop
      · rename_i head hthread
        obtain ⟨rfl, rfl⟩ := Prod.mk.inj (Option.some.inj hstep)
        exact .call head hthread
      · rename_i head hthread
        obtain ⟨rfl, rfl⟩ := Prod.mk.inj (Option.some.inj hstep)
        exact .back head hthread

omit [DecidableEq H] in
/-- A head that is not at the bottom is taken to be pending exactly if it is. -/
theorem next_eq_none_iff (h : Stack.Represents state.next state.rcuHead items)
    (hnot : ¬ Bottom state head) : state.next head = none ↔ head ∉ items :=
  ⟨fun hnone hmem => hnot ⟨hnone, h.mem_iff.mp hmem⟩, h.off head⟩

/-- **One step keeps the stack exactly if it is not a call on the bottom head.** -/
theorem PendingOk.step_iff (h : PendingOk state)
    (hstep : (rcuMachine H F).step state action = some (next, events)) :
    PendingOk next ↔ AvoidsBottom state action := by
  obtain ⟨items, hrep⟩ := h
  cases RcuMove.of_step hstep with
  | accept head func hnone =>
      constructor
      · rintro ⟨after, hafter⟩ hbottom
        exact hrep.not_represents_push (hrep.mem_iff.mpr hbottom.2) after hafter
      · intro hnot
        exact ⟨_, hrep.push ((next_eq_none_iff hrep hnot).mp hnone)⟩
  | refuse head func hsome =>
      exact iff_of_true ⟨items, hrep⟩ fun hbottom => hsome hbottom.1
  | pop head hthread htop =>
      rw [htop] at hrep
      obtain ⟨rest, -, -, hrest⟩ := hrep.pop
      exact iff_of_true ⟨rest, hrest⟩ trivial
  | sleep hthread htop => exact iff_of_true ⟨items, hrep⟩ trivial
  | call head hthread => exact iff_of_true ⟨items, hrep⟩ trivial
  | back head hthread => exact iff_of_true ⟨items, hrep⟩ trivial

/-! ### Accepted calls and callbacks -/

/-- How often the callback of the head has run. -/
def runs (head : H) (history : List (Event H F)) : ℕ :=
  history.countP fun
    | .ran other _ => other = head
    | _ => false

/-- How often a call put the head on the list. -/
def accepts (head : H) (history : List (Event H F)) : ℕ :=
  history.countP fun
    | .accepted other => other = head
    | _ => false

theorem runs_append (head : H) (past events : List (Event H F)) :
    runs head (past ++ events) = runs head past + runs head events :=
  List.countP_append

theorem accepts_append (head : H) (past events : List (Event H F)) :
    accepts head (past ++ events) = accepts head past + accepts head events :=
  List.countP_append

/-- The callback of the head is about to run. -/
def imminent (head : H) (state : State H F) : ℕ :=
  if state.thread = .popped head then 1 else 0

/-- The stack holds the heads whose calls have been accepted and whose callbacks have neither
run nor are about to. -/
structure RcuInv (state : State H F) (history : List (Event H F)) (items : List H) : Prop where
  links : Stack.Represents state.next state.rcuHead items
  account : ∀ head, accepts head history =
    runs head history + imminent head state + items.count head

theorem RcuInv.init (func : H → F) : RcuInv (.init func) [] [] where
  links := .empty
  account head := by simp [accepts, runs, imminent, State.init]

/-- **One step keeps the account**, if it is not a call on the bottom head. -/
theorem RcuInv.step (h : RcuInv state history items) (havoids : AvoidsBottom state action)
    (hstep : (rcuMachine H F).step state action = some (next, events)) :
    ∃ after, RcuInv next (history ++ events) after := by
  cases RcuMove.of_step hstep with
  | accept head func hnone =>
      have hout := (next_eq_none_iff h.links havoids).mp hnone
      refine ⟨head :: items, h.links.push hout, fun other => ?_⟩
      have hbefore := h.account other
      have haccepted : accepts other ([.accepted head] : List (Event H F)) =
          if head = other then 1 else 0 := by
        simp [accepts, List.countP_cons]
      have hran : runs other ([.accepted head] : List (Event H F)) = 0 := by
        simp [runs]
      rw [accepts_append, runs_append, haccepted, hran, List.count_cons]
      simp only [imminent, beq_iff_eq] at hbefore ⊢
      omega
  | refuse head func hsome =>
      refine ⟨items, h.links, fun other => ?_⟩
      rw [accepts_append, runs_append]
      simpa [accepts, runs] using h.account other
  | pop head hthread htop =>
      have hrep := h.links
      rw [htop] at hrep
      obtain ⟨rest, rfl, hnot, hrest⟩ := hrep.pop
      refine ⟨rest, hrest, fun other => ?_⟩
      have hbefore := h.account other
      rw [List.count_cons] at hbefore
      simp only [imminent, hthread, reduceCtorEq, if_false, beq_iff_eq] at hbefore
      simp only [List.append_nil, imminent, RcuPc.popped.injEq]
      omega
  | sleep hthread htop =>
      rw [List.append_nil]
      exact ⟨items, h⟩
  | call head hthread =>
      refine ⟨items, h.links, fun other => ?_⟩
      have hbefore := h.account other
      have haccepted : accepts other [.ran head (state.func head)] = 0 := by
        simp [accepts]
      have hran : runs other [.ran head (state.func head)] = if head = other then 1 else 0 := by
        simp [runs, List.countP_cons]
      rw [accepts_append, runs_append, haccepted, hran]
      simp only [imminent, hthread, RcuPc.popped.injEq, reduceCtorEq, if_false] at hbefore ⊢
      omega
  | back head hthread =>
      refine ⟨items, h.links, fun other => ?_⟩
      simpa [imminent, hthread] using h.account other

/-! ### The thread catches up -/

/-- `rcu_exec` alone, for some rounds. -/
def ranAlone (rounds : ℕ) : List (Action H F) := List.replicate rounds .rcuExec

/-- The calls of `rcu_exec` accept nothing. -/
theorem accepts_rcuExec (hstep : (rcuMachine H F).step state .rcuExec = some (next, events))
    (head : H) : accepts head events = 0 := by
  cases RcuMove.of_step hstep with
  | pop other hthread htop => rfl
  | sleep hthread htop => rfl
  | call other hthread => simp [accepts]
  | back other hthread => rfl

/-- They refuse nothing either. -/
theorem refused_rcuExec (hstep : (rcuMachine H F).step state .rcuExec = some (next, events))
    (head : H) : .refused head ∉ events := by
  cases RcuMove.of_step hstep with
  | pop other hthread htop => simp
  | sleep hthread htop => simp
  | call other hthread => simp
  | back other hthread => simp

/-- What `rcu_exec` comes to: every callback has run, and nothing is pending. -/
def CaughtUp (state : State H F) (history : List (Event H F)) : Prop :=
  ∃ rounds last events, (rcuMachine H F).run state (ranAlone rounds) = some (last, events) ∧
    RcuInv last (history ++ events) [] ∧ (∀ head, imminent head last = 0) ∧
    ∀ head, accepts head events = 0

/-- One more round before. -/
theorem CaughtUp.cons (hstep : (rcuMachine H F).step state .rcuExec = some (next, events))
    (h : CaughtUp next (history ++ events)) : CaughtUp state history := by
  obtain ⟨rounds, last, more, hrun, hinv, himminent, haccepts⟩ := h
  refine ⟨rounds + 1, last, events ++ more, ?_, ?_, himminent, fun head => ?_⟩
  · unfold ranAlone at hrun ⊢
    rw [List.replicate_succ, Machine.run_cons, hstep]
    show ((rcuMachine H F).run next _).map _ = _
    rw [hrun]
    rfl
  · rwa [← List.append_assoc]
  · rw [accepts_append, accepts_rcuExec hstep, haccepts]

/-- The thread goes on, and the pending heads stay as they are. -/
theorem RcuInv.exec_same (h : RcuInv state history items)
    (hstep : (rcuMachine H F).step state .rcuExec = some (next, events))
    (hhead : next.rcuHead = state.rcuHead) (hnext : next.next = state.next) :
    RcuInv next (history ++ events) items := by
  obtain ⟨after, hafter⟩ := h.step (show AvoidsBottom state .rcuExec from trivial) hstep
  have hlinked := hafter.links.linked
  rw [hhead, hnext] at hlinked
  rwa [h.links.linked.unique hlinked]

theorem RcuInv.caughtUp_running (h : RcuInv state history items)
    (hthread : state.thread = .running head)
    (hrest : ∀ {state : State H F} {history : List (Event H F)}, RcuInv state history items →
      state.thread = .idle → CaughtUp state history) : CaughtUp state history := by
  have hstep :
      (rcuMachine H F).step state .rcuExec = some ({ state with thread := .idle }, []) := by
    show some state.rcuExec = _
    unfold State.rcuExec
    rw [hthread]
  exact .cons hstep (hrest (h.exec_same hstep rfl rfl) rfl)

theorem RcuInv.caughtUp_popped (h : RcuInv state history items)
    (hthread : state.thread = .popped head)
    (hrest : ∀ {state : State H F} {history : List (Event H F)}, RcuInv state history items →
      state.thread = .idle → CaughtUp state history) : CaughtUp state history := by
  have hstep : (rcuMachine H F).step state .rcuExec =
      some ({ state with thread := .running head }, [.ran head (state.func head)]) := by
    show some state.rcuExec = _
    unfold State.rcuExec
    rw [hthread]
  exact .cons hstep ((h.exec_same hstep rfl rfl).caughtUp_running rfl hrest)

/-- Each pending head takes three rounds.  Induction on them. -/
theorem RcuInv.caughtUp_idle (h : RcuInv state history items) (hthread : state.thread = .idle) :
    CaughtUp state history := by
  induction items generalizing state history with
  | nil =>
      refine ⟨0, state, [], rfl, ?_, fun head => ?_, fun head => rfl⟩
      · rwa [List.append_nil]
      · simp [imminent, hthread]
  | cons head rest ih =>
      have htop : state.rcuHead = some head := h.links.linked.1
      have hstep : (rcuMachine H F).step state .rcuExec =
          some ({ state with
            rcuHead := state.next head
            next := Function.update state.next head none
            thread := .popped head }, []) := by
        show some state.rcuExec = _
        unfold State.rcuExec
        rw [hthread, htop]
      have hlinks := h.links
      rw [htop] at hlinks
      obtain ⟨rest', heq, -, hrest⟩ := hlinks.pop
      obtain ⟨-, rfl⟩ := List.cons.inj heq
      obtain ⟨after, hafter⟩ := h.step (show AvoidsBottom state .rcuExec from trivial) hstep
      rw [← hrest.linked.unique hafter.links.linked] at hafter
      exact .cons hstep (hafter.caughtUp_popped rfl fun hinv hidle => ih hinv hidle)

/-- **Left alone, `rcu_exec` runs every callback that is due.** -/
theorem RcuInv.caughtUp (h : RcuInv state history items) : CaughtUp state history := by
  cases hthread : state.thread with
  | idle => exact h.caughtUp_idle hthread
  | popped head => exact h.caughtUp_popped hthread fun hinv hidle => hinv.caughtUp_idle hidle
  | running head => exact h.caughtUp_running hthread fun hinv hidle => hinv.caughtUp_idle hidle

/-! ### Runs -/

/-- The pending heads are a stack throughout a run exactly if no call breaks it. -/
theorem pendingOk_run_iff {func : H → F} {schedule : List (Action H F)} {last : State H F}
    (hrun : (rcuMachine H F).run (.init func) schedule = some (last, history)) :
    ((∀ pair ∈ (rcuMachine H F).visited (.init func) schedule, PendingOk pair.1) ∧
        PendingOk last) ↔
      ∀ pair ∈ (rcuMachine H F).visited (.init func) schedule, AvoidsBottom pair.1 pair.2 :=
  @Machine.run_states_iff _ _ _ (rcuMachine H F) (fun _ => True) PendingOk AvoidsBottom
    (fun _ _ => trivial) (fun _ hok hstep => hok.step_iff hstep) (.init func) last history
    schedule trivial ⟨[], .empty⟩ hrun

/-- **Deferred callbacks.**  In every run, whatever the interleaving: the pending heads are a
stack throughout if and only if no `call_rcu` is made on the head at the bottom of it.  And
then, for the heads `items` that are pending: the accepted calls of a head are the runs of its
callback, one more if it is about to run, and one more if the head is pending; and a call that
is not made on the bottom head is accepted exactly if its head is not pending. -/
theorem call_rcu_iff {func : H → F} {schedule : List (Action H F)} {last : State H F}
    (hrun : (rcuMachine H F).run (.init func) schedule = some (last, history)) :
    (((∀ pair ∈ (rcuMachine H F).visited (.init func) schedule, PendingOk pair.1) ∧
        PendingOk last) ↔
      ∀ pair ∈ (rcuMachine H F).visited (.init func) schedule, AvoidsBottom pair.1 pair.2) ∧
    ((∀ pair ∈ (rcuMachine H F).visited (.init func) schedule, AvoidsBottom pair.1 pair.2) →
      ∃ items, Stack.Represents last.next last.rcuHead items ∧
        (∀ head, accepts head history =
          runs head history + imminent head last + if head ∈ items then 1 else 0) ∧
        ∀ head callback, ¬ Bottom last head →
          (.accepted head ∈ (last.callRcu head callback).2 ↔ head ∉ items)) := by
  refine ⟨pendingOk_run_iff hrun, fun havoids => ?_⟩
  have hinv := @Machine.run_invariant_of_visited _ _ _ (rcuMachine H F)
    (fun state past => ∃ items, RcuInv state past items) AvoidsBottom
    (fun hbefore hcondition hstep => by
      obtain ⟨items, hinv⟩ := hbefore
      exact hinv.step hcondition hstep)
    (.init func) last [] history schedule ⟨[], .init func⟩ hrun havoids
  rw [List.nil_append] at hinv
  obtain ⟨items, hlinks, haccount⟩ := hinv
  refine ⟨items, hlinks, fun head => ?_, fun head callback hnot => ?_⟩
  · rw [haccount head]
    by_cases hmem : head ∈ items
    · rw [List.count_eq_one_of_mem hlinks.nodup hmem, if_pos hmem]
    · rw [List.count_eq_zero_of_not_mem hmem, if_neg hmem]
  · rw [← next_eq_none_iff hlinks hnot]
    unfold State.callRcu
    split
    · rename_i hnone
      simp [hnone]
    · rename_i hsome
      simp [hsome]

/-- Two heads are called, one of them again while it is on top, and both callbacks run. -/
def calledAgain : List (Action Bool Unit) :=
  [.callRcu false (), .callRcu true (), .callRcu true (), .rcuExec, .rcuExec, .rcuExec, .rcuExec,
    .rcuExec]

def calledAgainHistory : List (Event Bool Unit) :=
  [.accepted false, .accepted true, .refused true, .ran true (), .ran false ()]

theorem call_rcu_calledAgain : ∃ last,
    (rcuMachine Bool Unit).run (.init fun _ => ()) calledAgain =
        some (last, calledAgainHistory) ∧
      PendingOk last := by
  have hrun := (rcuMachine Bool Unit).run_eq_after
    (by decide : ((rcuMachine Bool Unit).run (.init fun _ => ()) calledAgain).isSome = true)
    (by decide : _ = some calledAgainHistory)
  exact ⟨_, hrun, ((call_rcu_iff hrun).1.mpr (by decide)).2⟩

/-- One head is called twice, and its callback runs twice. -/
def calledTwice : List (Action Unit Unit) :=
  [.callRcu () (), .callRcu () (), .rcuExec, .rcuExec, .rcuExec, .rcuExec, .rcuExec]

def calledTwiceHistory : List (Event Unit Unit) :=
  [.accepted (), .accepted (), .ran () (), .ran () ()]

theorem call_rcu_calledTwice : ∃ last,
    (rcuMachine Unit Unit).run (.init fun _ => ()) calledTwice =
        some (last, calledTwiceHistory) ∧
      ¬ ((∀ pair ∈ (rcuMachine Unit Unit).visited (.init fun _ => ()) calledTwice,
        PendingOk pair.1) ∧ PendingOk last) := by
  have hrun := (rcuMachine Unit Unit).run_eq_after
    (by decide : ((rcuMachine Unit Unit).run (.init fun _ => ()) calledTwice).isSome = true)
    (by decide : _ = some calledTwiceHistory)
  refine ⟨_, hrun, ?_⟩
  rw [pendingOk_run_iff hrun]
  decide

end Webcamd.Kernel.Rcu
