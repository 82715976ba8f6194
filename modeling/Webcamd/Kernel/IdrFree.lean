import Webcamd.Kernel.IdrDestroy
import Webcamd.Kernel.Rcu

/-!
# Layers that are freed later

`free_layer` passes a layer to `call_rcu`.  The `rcu_head` of a layer is in the place of its
bitmap, and `call_rcu` takes a head to be pending if its `next` is not `NULL`: a layer whose first
word is not zero when it is passed is refused, and never freed.

An operation of the allocator takes its layers out of the tree and passes them one after another;
the thread `rcu_exec` may run between any two of the calls.

* `State`, `idrMachine` — the allocator, the layers that the operation at hand has still to pass,
  and the pending heads.
* `Acceptable` — the layers that are still to be passed will be accepted.
* `AcceptsFrees` — the condition on an operation: no removal shrinks the tree to a child that is
  full, and the tree is not destroyed while an id is given out whose bit is in the first word of its
  leaf.
* `FreeInv` — **no layer is in two places**: the tree, the free list, the layers still to be
  passed, and those that have been passed.
* `idr_free_iff` — the layers are acceptable throughout a run exactly if all operations meet the
  condition; and then every layer that is passed is accepted, and its callback runs once.
-/

namespace Webcamd.Kernel.IdrTree

open Bitmap Webcamd.Library

variable {P : Type}

/-- The allocator and the thread that frees its layers. -/
structure State (P : Type) where
  idr : Idr P
  /-- What the operation at hand has still to pass to `free_layer`. -/
  passing : List Layer
  rcu : Rcu.State ℕ Unit
  /-- The address of the next layer that is allocated. -/
  fresh : ℕ

inductive Action (P : Type) where
  /-- `idr_alloc`, with the outcomes of its allocations and a bound on the rounds of its loops. -/
  | alloc (value : Option P) (start limit : BitVec 32) (outcomes : List Bool) (rounds : ℕ)
  | remove (id : BitVec 32)
  | destroy
  /-- The next call of `free_layer`. -/
  | free
  | rcuExec

inductive Event where
  /-- What `idr_alloc` returned: an id, or an error. -/
  | allocated (id : Option ℕ)
  /-- A layer is passed to `free_layer`. -/
  | passed (addr : ℕ)
  | rcu (event : Rcu.Event ℕ Unit)
  deriving DecidableEq

/-- The pointer that is in the place of `rcu_head.next`. -/
def Layer.headNext (node : Layer) : Option ℕ :=
  if node.bitmap 0 = 0 then none else some (node.bitmap 0).toNat

namespace State

def init : State P where
  idr := idrInit
  passing := []
  rcu := .init fun _ => ()
  fresh := 0

/-- `free_layer`; the callback is `idr_layer_rcu_free`. -/
def freeLayer (state : State P) (node : Layer) (rest : List Layer) : State P × List Event :=
  let hint := if state.idr.hint = some node.addr then none else state.idr.hint
  let head : Rcu.State ℕ Unit :=
    { state.rcu with next := Function.update state.rcu.next node.addr node.headNext }
  let (rcu, events) := head.callRcu node.addr ()
  ({ state with idr := { state.idr with hint := hint }, passing := rest, rcu := rcu },
    .passed node.addr :: events.map .rcu)

end State

/-- **The machine.**  The caller sees to it that the operations exclude each other; the thread runs
at any time. -/
def idrMachine (P : Type) : Machine (State P) (Action P) Event where
  step state
    | .alloc value start limit outcomes rounds =>
        if state.passing = [] then
          (idrAlloc rounds state.idr value start limit ⟨outcomes, state.fresh⟩).map fun result =>
            ({ state with idr := result.1, fresh := result.2.1.fresh },
              [.allocated result.2.2.toOption])
        else none
    | .remove id =>
        if state.passing = [] then
          some ({ state with
            idr := (idrRemove state.idr id).1, passing := (idrRemove state.idr id).2 }, [])
        else none
    | .destroy =>
        if state.passing = [] then
          some ({ state with
            idr := (idrDestroy state.idr).1, passing := (idrDestroy state.idr).2 }, [])
        else none
    | .free =>
        match state.passing with
        | node :: rest => some (state.freeLayer node rest)
        | [] => none
    | .rcuExec => some ({ state with rcu := state.rcu.rcuExec.1 }, state.rcu.rcuExec.2.map .rcu)

/-- The layers that are still to be passed look as if they were not pending. -/
def Acceptable (state : State P) : Prop := ∀ node ∈ state.passing, node.bitmap 0 = 0

/-- **The condition.**  A removal does not shrink the tree to a child that is full, and the tree is
not destroyed while the bit of an id is in the first word of its leaf. -/
def AcceptsFrees (state : State P) : Action P → Prop
  | .remove id =>
      id.toInt < 0 ∨ above id.toNat state.idr.layers = true ∨ ¬ KeepsFull state.idr id.toNat
  | .destroy => NoFirstWord state.idr
  | _ => True

instance : (idr : Idr P) → (id : ℕ) → Decidable (KeepsFull idr id)
  | ⟨_, .layer _ _, _, _⟩, _ => inferInstanceAs (Decidable (_ ∧ _))
  | ⟨_, .null, _, _⟩, _ => inferInstanceAs (Decidable False)
  | ⟨_, .ptr _, _, _⟩, _ => inferInstanceAs (Decidable False)

instance (idr : Idr P) : Decidable (NoFirstWord idr) :=
  inferInstanceAs (Decidable (∀ id ≤ _, _))

instance (state : State P) : (action : Action P) → Decidable (AcceptsFrees state action)
  | .remove id => inferInstanceAs (Decidable (_ ∨ _ ∨ ¬ KeepsFull state.idr id.toNat))
  | .destroy => inferInstanceAs (Decidable (NoFirstWord state.idr))
  | .alloc .. => inferInstanceAs (Decidable True)
  | .free => inferInstanceAs (Decidable True)
  | .rcuExec => inferInstanceAs (Decidable True)

/-- What happened to the heads. -/
def rcuEvents (history : List Event) : List (Rcu.Event ℕ Unit) :=
  history.filterMap fun
    | .rcu event => some event
    | _ => none

/-- How often a layer has been passed to `free_layer`. -/
def passes (addr : ℕ) (history : List Event) : ℕ :=
  history.countP fun
    | .passed other => other = addr
    | _ => false

variable {state next : State P} {action : Action P} {events history : List Event}
variable {node : Layer} {rest : List Layer} {addr : ℕ}

/-! ### One step -/

/-- The ways a step can go. -/
inductive IdrMove (state : State P) : Action P → State P → List Event → Prop where
  | alloc (value : Option P) (start limit : BitVec 32) (outcomes : List Bool) (rounds : ℕ)
      (idr : Idr P) (memory : Memory) (result : Except Error ℕ) (hnone : state.passing = [])
      (halloc : idrAlloc rounds state.idr value start limit ⟨outcomes, state.fresh⟩ =
        some (idr, memory, result)) :
      IdrMove state (.alloc value start limit outcomes rounds)
        { state with idr := idr, fresh := memory.fresh } [.allocated result.toOption]
  | remove (id : BitVec 32) (hnone : state.passing = []) :
      IdrMove state (.remove id)
        { state with
          idr := (idrRemove state.idr id).1, passing := (idrRemove state.idr id).2 } []
  | destroy (hnone : state.passing = []) :
      IdrMove state .destroy
        { state with idr := (idrDestroy state.idr).1, passing := (idrDestroy state.idr).2 } []
  | free (node : Layer) (rest : List Layer) (hpassing : state.passing = node :: rest) :
      IdrMove state .free (state.freeLayer node rest).1 (state.freeLayer node rest).2
  | rcuExec :
      IdrMove state .rcuExec { state with rcu := state.rcu.rcuExec.1 }
        (state.rcu.rcuExec.2.map .rcu)

theorem IdrMove.of_step (hstep : (idrMachine P).step state action = some (next, events)) :
    IdrMove state action next events := by
  cases action with
  | alloc value start limit outcomes rounds =>
      replace hstep : (if state.passing = [] then _ else none) = some (next, events) := hstep
      split at hstep
      · rename_i hnone
        obtain ⟨⟨idr, memory, result⟩, halloc, heq⟩ := Option.map_eq_some_iff.mp hstep
        obtain ⟨rfl, rfl⟩ := Prod.mk.inj heq
        exact .alloc value start limit outcomes rounds idr memory result hnone halloc
      · cases hstep
  | remove id =>
      replace hstep : (if state.passing = [] then _ else none) = some (next, events) := hstep
      split at hstep
      · rename_i hnone
        obtain ⟨rfl, rfl⟩ := Prod.mk.inj (Option.some.inj hstep)
        exact .remove id hnone
      · cases hstep
  | destroy =>
      replace hstep : (if state.passing = [] then _ else none) = some (next, events) := hstep
      split at hstep
      · rename_i hnone
        obtain ⟨rfl, rfl⟩ := Prod.mk.inj (Option.some.inj hstep)
        exact .destroy hnone
      · cases hstep
  | free =>
      unfold idrMachine at hstep
      dsimp only at hstep
      split at hstep
      · rename_i node rest hpassing
        obtain ⟨rfl, rfl⟩ := Prod.mk.inj (Option.some.inj hstep)
        exact .free node rest hpassing
      · cases hstep
  | rcuExec =>
      obtain ⟨rfl, rfl⟩ := Prod.mk.inj (Option.some.inj hstep)
      exact .rcuExec

theorem passes_append (addr : ℕ) (past events : List Event) :
    passes addr (past ++ events) = passes addr past + passes addr events :=
  List.countP_append

theorem rcuEvents_append (past events : List Event) :
    rcuEvents (past ++ events) = rcuEvents past ++ rcuEvents events :=
  List.filterMap_append

theorem rcuEvents_map (events : List (Rcu.Event ℕ Unit)) :
    rcuEvents (events.map .rcu) = events := by
  unfold rcuEvents
  rw [List.filterMap_map]
  exact List.filterMap_some

theorem passes_map (addr : ℕ) (events : List (Rcu.Event ℕ Unit)) :
    passes addr (events.map .rcu) = 0 := by
  unfold passes
  rw [List.countP_map, List.countP_eq_zero]
  intro event _
  exact Bool.false_ne_true

/-- **No layer is in two places**, and a layer that is not allocated yet is in none. -/
structure PlaceInv (state : State P) (history : List Event) : Prop where
  ok : IdrOk state.idr
  once : ∀ addr, total state.idr addr + listed addr state.passing + passes addr history ≤ 1
  fresh : ∀ addr, state.fresh ≤ addr →
    total state.idr addr + listed addr state.passing + passes addr history = 0

theorem PlaceInv.init : PlaceInv (.init : State P) [] where
  ok := Or.inl ⟨rfl, rfl⟩
  once _ := Nat.zero_le 1
  fresh _ _ := rfl

/-- An operation that takes layers out of the tree. -/
theorem PlaceInv.remove {result : Idr P × List Layer} (h : PlaceInv state history)
    (hnone : state.passing = []) (hresult : RemoveOk state.idr result) :
    PlaceInv { state with idr := result.1, passing := result.2 } history where
  ok := hresult.ok
  once addr := by
    have hbefore := h.once addr
    have htotal := hresult.total addr
    rw [hnone] at hbefore
    dsimp only
    omega
  fresh addr hle := by
    have hbefore := h.fresh addr hle
    have htotal := hresult.total addr
    dsimp only
    omega

theorem PlaceInv.step (h : PlaceInv state history)
    (hstep : (idrMachine P).step state action = some (next, events)) :
    PlaceInv next (history ++ events) := by
  cases IdrMove.of_step hstep with
  | alloc value start limit outcomes rounds idr memory result hnone halloc =>
      have hbase : ∀ addr, state.fresh ≤ addr → total state.idr addr = 0 := by
        intro addr hle
        have hzero := h.fresh addr hle
        omega
      obtain ⟨hok, hle, htotal⟩ := idrAlloc_ok h.ok hbase halloc
      dsimp only at hle htotal
      refine ⟨hok, fun addr => ?_, fun addr hout => ?_⟩
      · have honce := h.once addr
        have hzero := h.fresh addr
        have hadded := htotal addr
        have hevents : passes addr ([.allocated result.toOption] : List Event) = 0 := rfl
        unfold between at hadded
        rw [passes_append, hevents]
        dsimp only
        split at hadded
        · rename_i hnew
          have hnothing := hzero hnew.1
          omega
        · omega
      · have hzero := h.fresh addr (hle.trans hout)
        have hadded := htotal addr
        have hevents : passes addr ([.allocated result.toOption] : List Event) = 0 := rfl
        have hnot : ¬ (state.fresh ≤ addr ∧ addr < memory.fresh) := by
          dsimp only at hout
          omega
        unfold between at hadded
        rw [if_neg hnot] at hadded
        rw [passes_append, hevents]
        dsimp only
        omega
  | remove id hnone =>
      rw [List.append_nil]
      exact h.remove hnone (idrRemove_ok h.ok id).1
  | destroy hnone =>
      rw [List.append_nil]
      exact h.remove hnone (idrDestroy_ok h.ok).1
  | free node rest hpassing =>
      have hplaces : ∀ addr, total (state.freeLayer node rest).1.idr addr +
          listed addr (state.freeLayer node rest).1.passing +
          passes addr (history ++ (state.freeLayer node rest).2) =
            total state.idr addr + listed addr state.passing + passes addr history := by
        intro addr
        have hhint : total (state.freeLayer node rest).1.idr addr = total state.idr addr := rfl
        have hrest : (state.freeLayer node rest).1.passing = rest := rfl
        have hevents : passes addr (state.freeLayer node rest).2 =
            if node.addr = addr then 1 else 0 := by
          unfold State.freeLayer
          dsimp only
          rw [← List.singleton_append, passes_append, passes_map]
          simp [passes, List.countP_cons]
        rw [hhint, hrest, passes_append, hevents, hpassing, listed_cons]
        omega
      refine ⟨h.ok, fun addr => ?_, fun addr hle => ?_⟩
      · rw [hplaces]
        exact h.once addr
      · rw [hplaces]
        exact h.fresh addr hle
  | rcuExec =>
      refine ⟨h.ok, fun addr => ?_, fun addr hle => ?_⟩
      · rw [passes_append, passes_map]
        exact h.once addr
      · rw [passes_append, passes_map]
        exact h.fresh addr hle

/-! ### What becomes of the layers that are passed -/

/-- **Every layer that has been passed has been accepted, once.** -/
structure FreeInv (state : State P) (history : List Event) : Prop where
  place : PlaceInv state history
  acceptable : Acceptable state
  heads : ∃ items, Rcu.RcuInv state.rcu (rcuEvents history) items
  accepted : ∀ addr, Rcu.accepts addr (rcuEvents history) = passes addr history
  never : ∀ addr, .refused addr ∉ rcuEvents history

theorem FreeInv.init : FreeInv (.init : State P) [] where
  place := .init
  acceptable _ hmem := by cases hmem
  heads := ⟨[], .init _⟩
  accepted _ := rfl
  never _ hmem := by cases hmem

/-- **The layers stay acceptable exactly if the step meets the condition.** -/
theorem Acceptable.step_iff (hok : IdrOk state.idr) (h : Acceptable state)
    (hstep : (idrMachine P).step state action = some (next, events)) :
    Acceptable next ↔ AcceptsFrees state action := by
  cases IdrMove.of_step hstep with
  | alloc value start limit outcomes rounds idr memory result hnone halloc =>
      exact iff_of_true h trivial
  | remove id hnone => exact (idrRemove_ok hok id).2
  | destroy hnone => exact (idrDestroy_ok hok).2
  | free node rest hpassing =>
      refine iff_of_true (fun other hmem => h other ?_) trivial
      rw [hpassing]
      exact List.mem_cons_of_mem _ hmem
  | rcuExec => exact iff_of_true h trivial

/-- A layer that is acceptable and not on the list is passed to `call_rcu` as it is. -/
theorem freeLayer_eq (hword : node.bitmap 0 = 0) (hnext : state.rcu.next node.addr = none) :
    (state.freeLayer node rest).1.rcu = (state.rcu.callRcu node.addr ()).1 ∧
      (state.freeLayer node rest).2 = [.passed node.addr, .rcu (.accepted node.addr)] := by
  have hhead : Function.update state.rcu.next node.addr node.headNext = state.rcu.next := by
    unfold Layer.headNext
    rw [if_pos hword, ← hnext, Function.update_eq_self]
  unfold State.freeLayer
  dsimp only
  rw [hhead]
  refine ⟨rfl, ?_⟩
  unfold Rcu.State.callRcu
  rw [if_pos hnext]
  rfl

/-- A layer that is passed is not on the list. -/
theorem FreeInv.not_pending (h : FreeInv state history) (hpassing : state.passing = node :: rest)
    {items : List ℕ} (hheads : Rcu.RcuInv state.rcu (rcuEvents history) items) :
    node.addr ∉ items := by
  intro hmem
  have honce := h.place.once node.addr
  rw [hpassing, listed_cons, if_pos rfl] at honce
  have haccount := hheads.account node.addr
  rw [h.accepted, List.count_eq_one_of_mem hheads.links.nodup hmem] at haccount
  omega

/-- **One step keeps the account**, if the layers stay acceptable. -/
theorem FreeInv.step (h : FreeInv state history) (hcondition : AcceptsFrees state action)
    (hstep : (idrMachine P).step state action = some (next, events)) :
    FreeInv next (history ++ events) := by
  have hplace := h.place.step hstep
  have hacceptable := (h.acceptable.step_iff h.place.ok hstep).mpr hcondition
  cases IdrMove.of_step hstep with
  | alloc value start limit outcomes rounds idr memory result hnone halloc =>
      have hevents : rcuEvents (history ++ [.allocated result.toOption]) = rcuEvents history := by
        rw [rcuEvents_append]
        exact List.append_nil _
      refine ⟨hplace, hacceptable, ?_, fun addr => ?_, fun addr => ?_⟩
      · rw [hevents]
        exact h.heads
      · rw [hevents, passes_append]
        exact h.accepted addr
      · rw [hevents]
        exact h.never addr
  | remove id hnone =>
      rw [List.append_nil] at hplace ⊢
      exact ⟨hplace, hacceptable, h.heads, h.accepted, h.never⟩
  | destroy hnone =>
      rw [List.append_nil] at hplace ⊢
      exact ⟨hplace, hacceptable, h.heads, h.accepted, h.never⟩
  | free node rest hpassing =>
      obtain ⟨items, hheads⟩ := h.heads
      have hout := h.not_pending hpassing hheads
      have hnext := hheads.links.off _ hout
      have hword : node.bitmap 0 = 0 := h.acceptable node (hpassing ▸ List.mem_cons_self)
      obtain ⟨hrcu, hevents⟩ := @freeLayer_eq _ state node rest hword hnext
      have havoids : Rcu.AvoidsBottom state.rcu (.callRcu node.addr ()) :=
        fun hbottom => hout (hheads.links.mem_iff.mpr hbottom.2)
      have hcall : (Rcu.rcuMachine ℕ Unit).step state.rcu (.callRcu node.addr ()) =
          some ((state.rcu.callRcu node.addr ()).1, [.accepted node.addr]) := by
        show some (state.rcu.callRcu node.addr ()) = _
        unfold Rcu.State.callRcu
        rw [if_pos hnext]
      have hadded : rcuEvents (history ++ (state.freeLayer node rest).2) =
          rcuEvents history ++ [.accepted node.addr] := by
        rw [hevents, rcuEvents_append]
        rfl
      refine ⟨hplace, hacceptable, ?_, fun addr => ?_, fun addr => ?_⟩
      · rw [hrcu, hadded]
        exact hheads.step havoids hcall
      · rw [hadded, Rcu.accepts_append, h.accepted, hevents, passes_append]
        simp [Rcu.accepts, passes, List.countP_cons]
      · rw [hadded, List.mem_append]
        rintro (hold | hnew)
        · exact h.never addr hold
        · cases List.mem_singleton.mp hnew
  | rcuExec =>
      obtain ⟨items, hheads⟩ := h.heads
      have hexec : (Rcu.rcuMachine ℕ Unit).step state.rcu .rcuExec =
          some (state.rcu.rcuExec.1, state.rcu.rcuExec.2) := rfl
      have hadded : rcuEvents (history ++ state.rcu.rcuExec.2.map .rcu) =
          rcuEvents history ++ state.rcu.rcuExec.2 := by
        rw [rcuEvents_append, rcuEvents_map]
      refine ⟨hplace, hacceptable, ?_, fun addr => ?_, fun addr => ?_⟩
      · rw [hadded]
        exact hheads.step (show Rcu.AvoidsBottom state.rcu .rcuExec from trivial) hexec
      · rw [hadded, Rcu.accepts_append, Rcu.accepts_rcuExec hexec, h.accepted, passes_append,
          passes_map]
      · rw [hadded, List.mem_append]
        rintro (hold | hnew)
        · exact h.never addr hold
        · exact Rcu.refused_rcuExec hexec addr hnew

/-! ### Runs -/

/-- `rcu_exec` alone, for some rounds. -/
def ranAlone (rounds : ℕ) : List (Action P) := List.replicate rounds .rcuExec

/-- The thread does to the heads what it does without the allocator. -/
theorem run_ranAlone {rounds : ℕ} {last : Rcu.State ℕ Unit}
    {more : List (Rcu.Event ℕ Unit)}
    (hrun : (Rcu.rcuMachine ℕ Unit).run state.rcu (Rcu.ranAlone rounds) = some (last, more)) :
    (idrMachine P).run state (ranAlone rounds) =
      some ({ state with rcu := last }, more.map .rcu) := by
  induction rounds generalizing state more with
  | zero =>
      obtain ⟨rfl, rfl⟩ := Prod.mk.inj (Option.some.inj hrun)
      rfl
  | succ rounds ih =>
      obtain ⟨next, events, tail, hfirst, hrest, rfl⟩ := Machine.run_cons_eq_some _ hrun
      obtain ⟨rfl, rfl⟩ := Prod.mk.inj (Option.some.inj hfirst)
      have hother := @ih { state with rcu := state.rcu.rcuExec.1 } _ hrest
      unfold ranAlone at hother ⊢
      rw [List.replicate_succ, Machine.run_cons, List.map_append]
      show ((idrMachine P).run { state with rcu := state.rcu.rcuExec.1 } _).map _ = _
      rw [hother]
      rfl

/-- **The layers of the id allocator that are freed later.**  In every run, whatever the
interleaving, the layers that are still to be passed to `call_rcu` look as if they were not pending
if and only if no removal shrinks the tree to a child that is full and the tree is never destroyed
while the bit of an id is in the first word of its leaf.  And then no call is refused; every layer
is passed at most once, every layer that is passed is accepted, and an accepted layer is one whose
callback has run, is about to run, or is pending; and when the thread goes on, the callback of every
layer that has been passed runs exactly once. -/
theorem idr_free_iff {schedule : List (Action P)} {last : State P}
    (hrun : (idrMachine P).run .init schedule = some (last, history)) :
    (((∀ pair ∈ (idrMachine P).visited .init schedule, Acceptable pair.1) ∧ Acceptable last) ↔
      ∀ pair ∈ (idrMachine P).visited .init schedule, AcceptsFrees pair.1 pair.2) ∧
    ((∀ pair ∈ (idrMachine P).visited .init schedule, AcceptsFrees pair.1 pair.2) →
      (∀ addr, .refused addr ∉ rcuEvents history) ∧
      (∀ addr, passes addr history ≤ 1 ∧
        Rcu.accepts addr (rcuEvents history) = passes addr history) ∧
      (∃ items, Stack.Represents last.rcu.next last.rcu.rcuHead items ∧
        ∀ addr, passes addr history = Rcu.runs addr (rcuEvents history) +
          Rcu.imminent addr last.rcu + items.count addr) ∧
      ∃ rounds final events,
        (idrMachine P).run last (ranAlone rounds) = some (final, events) ∧
          ∀ addr, Rcu.runs addr (rcuEvents (history ++ events)) = passes addr history) := by
  constructor
  · exact @Machine.run_states_iff _ _ _ (idrMachine P) (fun state => ∃ past, PlaceInv state past)
      Acceptable AcceptsFrees (fun ⟨past, hplace⟩ hstep => ⟨_, hplace.step hstep⟩)
      (fun ⟨_, hplace⟩ hok hstep => hok.step_iff hplace.ok hstep) .init last history schedule
      ⟨[], .init⟩ (fun _ hmem => by cases hmem) hrun
  · intro hcondition
    have hinv := @Machine.run_invariant_of_visited _ _ _ (idrMachine P) FreeInv AcceptsFrees
      (fun hbefore hhere hstep => hbefore.step hhere hstep) .init last [] history schedule .init
      hrun hcondition
    rw [List.nil_append] at hinv
    obtain ⟨items, hheads⟩ := hinv.heads
    refine ⟨hinv.never, fun addr => ⟨?_, hinv.accepted addr⟩, ⟨items, hheads.links, fun addr => ?_⟩,
      ?_⟩
    · have honce := hinv.place.once addr
      omega
    · rw [← hinv.accepted, hheads.account]
    · obtain ⟨rounds, final, events, hcaught, hdone, hidle, hnone⟩ := hheads.caughtUp
      refine ⟨rounds, _, _, run_ranAlone hcaught, fun addr => ?_⟩
      have haccount := hdone.account addr
      rw [Rcu.accepts_append, hnone, hinv.accepted, hidle, List.count_nil] at haccount
      rw [rcuEvents_append, rcuEvents_map]
      omega

/-- An id is given out and removed, and its leaf is freed. -/
def removedOnce : List (Action Unit) :=
  [.alloc (some ()) 0 0 [true] 2, .remove 0, .free, .rcuExec, .rcuExec]

def removedOnceHistory : List Event :=
  [.allocated (some 0), .passed 0, .rcu (.accepted 0), .rcu (.ran 0 ())]

theorem idr_free_removedOnce : ∃ last,
    (idrMachine Unit).run .init removedOnce = some (last, removedOnceHistory) ∧
      Acceptable last := by
  have hrun := (idrMachine Unit).run_eq_after
    (by decide : ((idrMachine Unit).run .init removedOnce).isSome = true)
    (by decide : _ = some removedOnceHistory)
  exact ⟨_, hrun, ((idr_free_iff hrun).1.mpr (by decide)).2⟩

/-- An id is given out, and the tree is destroyed. -/
def destroyedInUse : List (Action Unit) := [.alloc (some ()) 0 0 [true] 2, .destroy, .free]

def destroyedInUseHistory : List Event := [.allocated (some 0), .passed 0, .rcu (.refused 0)]

/-- The leaf that is passed is refused: the bit of the id is in the place of `rcu_head.next`. -/
theorem idr_free_destroyedInUse :
    ¬ ∀ schedule last history,
      (idrMachine Unit).run .init schedule = some (last, history) →
        ∀ addr, Rcu.accepts addr (rcuEvents history) = passes addr history := by
  intro hall
  have hrun := (idrMachine Unit).run_eq_after
    (by decide : ((idrMachine Unit).run .init destroyedInUse).isSome = true)
    (by decide : _ = some destroyedInUseHistory)
  exact absurd (hall _ _ _ hrun 0) (by decide)

end Webcamd.Kernel.IdrTree
