import Webcamd.Kernel.UsbPresence

/-!
# What is left of an URB when `usb_kill_urb` returns

A driver calls `usb_kill_urb` or `usb_poison_urb` before it frees an URB.  This module puts
the calls on top of the transfer path, with the place where each thread is in
`usb_kill_urb` — in particular *inside the completion handler* that it calls for an URB
that had not started yet, and at which of the two transfers it polls.

* `KillState`, `killMachine` — the state of the transfer path and the threads.  The
  transfer path moves as it likes between two moves of a thread; a handler may submit.
* `KillState.Inv` — what a thread knows at each place: once the URB is off its queue, it is
  not put back unless somebody submits it.
* `kill_leaves_nothing` — if no URB is submitted while a thread kills it, and the URB was
  not queued and in flight at once when the call began, then it is with no endpoint when
  the call returns.  For `usb_poison_urb`, which only counts up `reject`, it is with no
  endpoint when the call returns just when it was with none before.
* `kill_returns_resubmitted` — without this, both calls return while the URB is queued.

`usb_kill_urb` decides once, at its start, between *queued* and *in flight*; that is why
both conditions are needed.
-/

namespace Webcamd.Kernel.Usb

open Webcamd.Library

variable {U E T : Type} [DecidableEq U] [DecidableEq E] [DecidableEq T]

/-! ### The machine -/

/-- Where a thread is in `usb_kill_urb`. -/
inductive KillCall (U E : Type) where
  | idle
  /-- In the completion handler of the URB, which was taken off its queue. -/
  | handler (urb : U)
  /-- In `usb_unlink_bsd` on this transfer of the endpoint, with `drain`. -/
  | drain (urb : U) (uhe : E) (index : Fin 2)
  deriving DecidableEq

/-- The URB the thread kills. -/
def KillCall.urb? : KillCall U E → Option U
  | .idle => none
  | .handler urb => some urb
  | .drain urb _ _ => some urb

structure KillState (U E T : Type) where
  /-- The transfer path, in which nobody else kills. -/
  usb : State U E Empty
  calls : T → KillCall U E

inductive KillAction (U E T : Type) where
  /-- A move of the transfer path: another driver call, or `libusb20`. -/
  | usb (action : Action U E Empty)
  /-- A thread calls `usb_kill_urb`. -/
  | killUrb (thread : T) (urb : U)
  /-- The completion handler that `usb_kill_urb` called returns, and so does the call. -/
  | handlerReturn (thread : T)
  /-- The thread looks at the transfer it waits for. -/
  | killPoll (thread : T)
  | poisonUrb (urb : U)

inductive KillEvent (U E T : Type) where
  | usb (event : Event U E)
  | killReturned (thread : T) (urb : U)
  | poisonReturned (urb : U)
  deriving DecidableEq

namespace KillState

def init : KillState U E T where
  usb := .init
  calls := fun _ => .idle

def setCall (state : KillState U E T) (thread : T) (call : KillCall U E) : KillState U E T :=
  { state with calls := Function.update state.calls thread call }

variable (device : Device U E)

/-- `usb_kill_urb`, up to the call of the completion handler or to the first look at a
transfer. -/
def killUrb (state : KillState U E T) (thread : T) (urb : U) :
    Option (KillState U E T × List (KillEvent U E T)) :=
  if state.calls thread = .idle then
    match device.findHostEndpoint urb with
    | none => some (state, [.killReturned thread urb])
    | some uhe =>
        if ((state.usb.bsdUrbList uhe).prev urb).isSome then
          (state.usb.unlinkQueued device uhe urb).map fun next =>
            if device.complete urb then
              ({ state with usb := next.1 }.setCall thread (.handler urb),
                next.2.map .usb)
            else ({ state with usb := next.1 }, next.2.map .usb ++ [.killReturned thread urb])
        else some (state.setCall thread (.drain urb uhe 0), [])
  else none

/-- The return of the completion handler. -/
def handlerReturn (state : KillState U E T) (thread : T) :
    Option (KillState U E T × List (KillEvent U E T)) :=
  match state.calls thread with
  | .handler urb => some (state.setCall thread .idle, [.killReturned thread urb])
  | _ => none

/-- One round of `while (libusb20_tr_get_priv_sc1(xfer) == (void *)urb)`, first for
`bsd_xfer[0]`, then for `bsd_xfer[1]`. -/
def killPoll (state : KillState U E T) (thread : T) :
    Option (KillState U E T × List (KillEvent U E T)) :=
  match state.calls thread with
  | .drain urb uhe index =>
      if state.usb.opened uhe && state.usb.holds uhe index urb then
        some (state, (state.usb.restart uhe urb index).map .usb)
      else if index = 0 then some (state.setCall thread (.drain urb uhe 1), [])
      else some (state.setCall thread .idle, [.killReturned thread urb])
  | _ => none

/-- `usb_poison_urb` is `usb_block_urb`. -/
def poisonUrb (state : KillState U E T) (urb : U) : KillState U E T × List (KillEvent U E T) :=
  ({ state with usb := state.usb.setUrb urb fun fields =>
      { fields with reject := fields.reject + 1 } }, [.poisonReturned urb])

end KillState

/-- **The machine.** -/
def killMachine (device : Device U E) :
    Machine (KillState U E T) (KillAction U E T) (KillEvent U E T) where
  step state
    | .usb action => ((usbMachine device).step state.usb action).map fun next =>
        ({ state with usb := next.1 }, next.2.map .usb)
    | .killUrb thread urb => state.killUrb device thread urb
    | .handlerReturn thread => state.handlerReturn thread
    | .killPoll thread => state.killPoll thread
    | .poisonUrb urb => some (state.poisonUrb urb)

/-! ### What a step can do -/

/-- The transfer path as it is after the branch for an URB that had not started yet. -/
structure Withdrawn (device : Device U E) (usb after : State U E Empty) (urb : U) : Prop where
  step : ∃ events, (usbMachine device).step usb (.unlinkUrb urb) = some (after, events)
  priv : after.priv = usb.priv
  queuedOn : ∀ uhe, device.findHostEndpoint urb = some uhe →
    usb.queuedOn uhe urb ∧ (usb.ListsOk → ¬ after.queuedOn uhe urb)

/-- **What a step can do**, to the transfer path and to the thread that moves. -/
inductive KillMove (device : Device U E) (state : KillState U E T) :
    KillAction U E T → KillState U E T → List (KillEvent U E T) → Prop where
  | usb {action : Action U E Empty} {after : State U E Empty} {events : List (Event U E)}
      (hstep : (usbMachine device).step state.usb action = some (after, events)) :
      KillMove device state (.usb action) { state with usb := after } (events.map .usb)
  /-- The URB belongs to no endpoint. -/
  | nowhere {thread : T} {urb : U} (hfind : device.findHostEndpoint urb = none) :
      KillMove device state (.killUrb thread urb) state [.killReturned thread urb]
  /-- The URB is taken off its queue, and its completion handler is called, … -/
  | call {thread : T} {urb : U} {after : State U E Empty} {events : List (Event U E)}
      (hwithdrawn : Withdrawn device state.usb after urb) :
      KillMove device state (.killUrb thread urb)
        ({ state with usb := after }.setCall thread (.handler urb)) (events.map .usb)
  /-- … or there is none. -/
  | silent {thread : T} {urb : U} {after : State U E Empty} {events : List (Event U E)}
      (hwithdrawn : Withdrawn device state.usb after urb) :
      KillMove device state (.killUrb thread urb) { state with usb := after }
        (events.map .usb ++ [.killReturned thread urb])
  /-- The URB is not on its queue. -/
  | drain {thread : T} {urb : U} {uhe : E} (hfind : device.findHostEndpoint urb = some uhe)
      (hqueued : ¬ state.usb.queuedOn uhe urb) :
      KillMove device state (.killUrb thread urb) (state.setCall thread (.drain urb uhe 0)) []
  | handlerReturn {thread : T} {urb : U} (hcall : state.calls thread = .handler urb) :
      KillMove device state (.handlerReturn thread) (state.setCall thread .idle)
        [.killReturned thread urb]
  | stay {thread : T} {events : List (Event U E)} :
      KillMove device state (.killPoll thread) state (events.map .usb)
  /-- The first transfer does not, or no longer, work on the URB … -/
  | second {thread : T} {urb : U} {uhe : E} (hcall : state.calls thread = .drain urb uhe 0)
      (hheld : ¬ (state.usb.opened uhe = true ∧ state.usb.priv uhe 0 = some urb)) :
      KillMove device state (.killPoll thread) (state.setCall thread (.drain urb uhe 1)) []
  /-- … and neither does the second. -/
  | done {thread : T} {urb : U} {uhe : E} (hcall : state.calls thread = .drain urb uhe 1)
      (hheld : ¬ (state.usb.opened uhe = true ∧ state.usb.priv uhe 1 = some urb)) :
      KillMove device state (.killPoll thread) (state.setCall thread .idle)
        [.killReturned thread urb]
  | poison {urb : U} :
      KillMove device state (.poisonUrb urb) (state.poisonUrb urb).1 [.poisonReturned urb]

section Moves

variable {device : Device U E} {state next : KillState U E T} {action : KillAction U E T}
  {events : List (KillEvent U E T)}

theorem Withdrawn.of_unlinkQueued {usb after : State U E Empty} {uhe : E} {urb : U}
    {events : List (Event U E)} (hfind : device.findHostEndpoint urb = some uhe)
    (hqueued : usb.queuedOn uhe urb)
    (h : usb.unlinkQueued device uhe urb = some (after, events)) :
    Withdrawn device usb after urb := by
  obtain ⟨removed, hremove, hlist, hxfer, -⟩ := State.unlinkQueued_eq_some h
  refine ⟨⟨events ++ [.unlinkReturned urb .success], ?_⟩, State.priv_eq_of_bsdXfer hxfer, ?_⟩
  · have hprev : ((usb.bsdUrbList uhe).prev urb).isSome = true := hqueued
    simp only [usbMachine, State.unlinkUrb, hfind]
    rw [if_pos hprev, h]
    rfl
  · intro other hother
    obtain rfl : uhe = other := Option.some.inj (hfind.symm.trans hother)
    refine ⟨hqueued, fun hlists hafter => ?_⟩
    rw [State.queuedOn, hlist, Function.update_self, hlists.queuedOn_remove hremove] at hafter
    exact hafter.1 rfl

theorem KillMove.of_killUrb {thread : T} {urb : U}
    (h : state.killUrb device thread urb = some (next, events)) :
    KillMove device state (.killUrb thread urb) next events := by
  rw [KillState.killUrb] at h
  split at h
  · split at h
    · rename_i hfind
      obtain ⟨rfl, rfl⟩ := Prod.mk.inj (Option.some.inj h)
      exact .nowhere hfind
    · rename_i uhe hfind
      split at h
      · rename_i hqueued
        obtain ⟨⟨after, early⟩, hunlink, h⟩ := Option.map_eq_some_iff.mp h
        have hwithdrawn := Withdrawn.of_unlinkQueued hfind hqueued hunlink
        split at h
        · obtain ⟨rfl, rfl⟩ := Prod.mk.inj h
          exact .call hwithdrawn
        · obtain ⟨rfl, rfl⟩ := Prod.mk.inj h
          exact .silent hwithdrawn
      · rename_i hqueued
        obtain ⟨rfl, rfl⟩ := Prod.mk.inj (Option.some.inj h)
        exact .drain hfind hqueued
  · cases h

theorem KillMove.of_killPoll {thread : T}
    (h : state.killPoll thread = some (next, events)) :
    KillMove device state (.killPoll thread) next events := by
  rw [KillState.killPoll] at h
  split at h
  · rename_i urb uhe index hcall
    split at h
    · obtain ⟨rfl, rfl⟩ := Prod.mk.inj (Option.some.inj h)
      exact .stay
    · rename_i hheld
      rw [Bool.and_eq_true, State.holds_iff] at hheld
      split at h
      · rename_i hindex
        subst hindex
        obtain ⟨rfl, rfl⟩ := Prod.mk.inj (Option.some.inj h)
        exact .second hcall hheld
      · rename_i hindex
        obtain rfl : index = 1 := Fin.eq_one_of_ne_zero index hindex
        obtain ⟨rfl, rfl⟩ := Prod.mk.inj (Option.some.inj h)
        exact .done hcall hheld
  · cases h

theorem KillMove.of_step (h : (killMachine device).step state action = some (next, events)) :
    KillMove device state action next events := by
  cases action with
  | usb action =>
      obtain ⟨⟨after, produced⟩, hstep, h⟩ := Option.map_eq_some_iff.mp h
      obtain ⟨rfl, rfl⟩ := Prod.mk.inj h
      exact .usb hstep
  | killUrb thread urb => exact .of_killUrb h
  | handlerReturn thread =>
      simp only [killMachine, KillState.handlerReturn] at h
      split at h
      · rename_i urb hcall
        obtain ⟨rfl, rfl⟩ := Prod.mk.inj (Option.some.inj h)
        exact .handlerReturn hcall
      · cases h
  | killPoll thread => exact .of_killPoll h
  | poisonUrb urb =>
      obtain ⟨rfl, rfl⟩ := Prod.mk.inj (Option.some.inj h)
      exact .poison

end Moves

/-! ### What the threads know -/

/-- What is known of the URB at each place of `usb_kill_urb`. -/
def KillCall.Knows (device : Device U E) (usb : State U E Empty) : KillCall U E → Prop
  | .idle => True
  | .handler urb => usb.Absent urb
  | .drain urb uhe index => device.findHostEndpoint urb = some uhe ∧ ¬ usb.queuedOn uhe urb ∧
      (index = 1 → usb.priv uhe 0 ≠ some urb)

structure KillState.Inv (device : Device U E) (state : KillState U E T) : Prop where
  usb : ∃ ledgers, UsbInv device state.usb ledgers
  opened : state.usb.OpenedOk
  calls : ∀ thread, (state.calls thread).Knows device state.usb

/-- **The condition.**  No URB is submitted while a thread kills it, and `usb_kill_urb` is
not called for an URB that is queued and in flight at once. -/
def KillAction.Undisturbed (device : Device U E) (state : KillState U E T) :
    KillAction U E T → Prop
  | .usb (.submitUrb urb opens) => Accepts device state.usb urb opens →
      ∀ thread, (state.calls thread).urb? ≠ some urb
  | .killUrb _ urb => ∀ uhe, state.usb.queuedOn uhe urb → ∀ index,
      state.usb.priv uhe index ≠ some urb
  | _ => True

section Invariant

variable {device : Device U E} {state next : KillState U E T} {action : KillAction U E T}
  {events : List (KillEvent U E T)}

omit [DecidableEq U] [DecidableEq E] [DecidableEq T] in
theorem KillState.Inv.init : (KillState.init : KillState U E T).Inv device where
  usb := ⟨_, UsbInv.init⟩
  opened := State.OpenedOk.init
  calls := fun _ => trivial

omit [DecidableEq U] [DecidableEq E] [DecidableEq T] in
theorem KillState.Inv.listsOk (h : state.Inv device) : state.usb.ListsOk := by
  obtain ⟨ledgers, hinv⟩ := h.usb
  exact hinv.listsOk

/-- A move of the transfer path leaves what a thread knows, unless the URB is submitted. -/
theorem KillCall.Knows.step {usb after : State U E Empty} {call : KillCall U E}
    {action : Action U E Empty} {events : List (Event U E)} (h : call.Knows device usb)
    (hlists : usb.ListsOk) (houtcome : Outcome device usb action after events)
    (hsubmit : ∀ urb opens, action = .submitUrb urb opens → Accepts device usb urb opens →
      call.urb? ≠ some urb) : call.Knows device after := by
  cases call with
  | idle => trivial
  | handler urb =>
      exact houtcome.absent hlists h fun opens hcall haccepts =>
        hsubmit urb opens hcall haccepts rfl
  | drain urb uhe index =>
      obtain ⟨hfind, hqueued, hfirst⟩ := h
      refine ⟨hfind, fun hafter => ?_, fun hindex hheld => ?_⟩
      · rcases houtcome.queuedOn hlists hafter with hbefore | ⟨opens, hcall, haccepts, -⟩
        · exact hqueued hbefore
        · exact hsubmit urb opens hcall haccepts rfl
      · rcases houtcome.priv hlists hheld with hbefore | hbefore
        · exact hfirst hindex hbefore
        · exact hqueued hbefore

omit [DecidableEq T] in
/-- The transfer path moves, and then the thread does. -/
theorem KillState.Inv.move (h : state.Inv device) {action : Action U E Empty}
    {after : State U E Empty} {events : List (Event U E)}
    (hstep : (usbMachine device).step state.usb action = some (after, events))
    (hsubmit : ∀ urb opens, action = .submitUrb urb opens → Accepts device state.usb urb opens →
      ∀ thread, (state.calls thread).urb? ≠ some urb) :
    KillState.Inv device { state with usb := after } := by
  obtain ⟨ledgers, hinv⟩ := h.usb
  obtain ⟨ledgers', -, hinv'⟩ := hinv.step hstep
  obtain ⟨houtcome, -⟩ := Outcome.of_step hinv.xfers hstep
  refine ⟨⟨ledgers', hinv'⟩, h.opened.step hstep, fun thread => ?_⟩
  exact (h.calls thread).step h.listsOk houtcome fun urb opens hcall haccepts =>
    hsubmit urb opens hcall haccepts thread

omit [DecidableEq U] [DecidableEq E] in
theorem KillState.Inv.setCall (h : state.Inv device) (thread : T) {call : KillCall U E}
    (hcall : call.Knows device state.usb) : (state.setCall thread call).Inv device := by
  refine ⟨h.usb, h.opened, fun other => ?_⟩
  by_cases hother : other = thread
  · subst hother
    simpa [KillState.setCall] using hcall
  · simpa [KillState.setCall, hother] using h.calls other

omit [DecidableEq T] in
/-- An URB that was taken off its queue and is not in flight is gone. -/
theorem KillState.Inv.absent_of_withdrawn (h : state.Inv device) {urb : U}
    {after : State U E Empty} (hwithdrawn : Withdrawn device state.usb after urb)
    (hflight : ∀ uhe, state.usb.queuedOn uhe urb → ∀ index,
      state.usb.priv uhe index ≠ some urb) : after.Absent urb := by
  obtain ⟨ledgers, hinv⟩ := h.usb
  obtain ⟨produced, hstep⟩ := hwithdrawn.step
  obtain ⟨ledgers', -, hinv'⟩ := hinv.step hstep
  refine hinv'.absent fun uhe hfind => ?_
  obtain ⟨hqueued, hgone⟩ := hwithdrawn.queuedOn uhe hfind
  rw [hwithdrawn.priv]
  exact ⟨hgone h.listsOk, hflight uhe hqueued⟩

omit [DecidableEq U] [DecidableEq E] [DecidableEq T] in
/-- An URB whose transfers are both done with it is gone. -/
theorem KillState.Inv.absent_of_drained (h : state.Inv device) {thread : T} {urb : U} {uhe : E}
    (hcall : state.calls thread = .drain urb uhe 1)
    (hheld : ¬ (state.usb.opened uhe = true ∧ state.usb.priv uhe 1 = some urb)) :
    state.usb.Absent urb := by
  obtain ⟨ledgers, hinv⟩ := h.usb
  have hknows := h.calls thread
  rw [hcall] at hknows
  obtain ⟨hfind, hqueued, hfirst⟩ := hknows
  refine hinv.absent fun other hother => ?_
  obtain rfl : uhe = other := Option.some.inj (hfind.symm.trans hother)
  refine ⟨hqueued, Fin.forall_fin_two.mpr ⟨hfirst rfl, fun hsecond => ?_⟩⟩
  exact hheld ⟨h.opened.opened_of_priv hsecond, hsecond⟩

omit [DecidableEq T] in
/-- `usb_poison_urb` is a move of the transfer path. -/
theorem poisonUrb_step (state : KillState U E T) (urb : U) :
    (usbMachine device).step state.usb (.blockUrb urb) =
      some ((state.poisonUrb urb).1.usb, []) := rfl

/-- **One step**, under the condition: the threads' knowledge is kept, and a thread that
returns knows that its URB is gone. -/
theorem KillState.Inv.step (h : state.Inv device) (hcondition : action.Undisturbed device state)
    (hstep : (killMachine device).step state action = some (next, events)) :
    next.Inv device ∧ ∀ thread urb, .killReturned thread urb ∈ events → next.usb.Absent urb := by
  have hquiet : ∀ {usbEvents : List (Event U E)} {thread : T} {urb : U},
      (.killReturned thread urb : KillEvent U E T) ∉ usbEvents.map .usb := by
    intro usbEvents thread urb
    simp
  cases KillMove.of_step hstep with
  | usb hmove =>
      refine ⟨h.move hmove ?_, fun thread urb hmem => absurd hmem hquiet⟩
      rintro urb opens rfl haccepts
      exact hcondition haccepts
  | nowhere hfind =>
      obtain ⟨ledgers, hinv⟩ := h.usb
      refine ⟨h, fun thread urb hmem => ?_⟩
      obtain ⟨rfl, rfl⟩ := KillEvent.killReturned.inj (List.mem_singleton.mp hmem)
      exact hinv.absent fun uhe hother => by simp [hfind] at hother
  | @call thread urb after produced hwithdrawn =>
      obtain ⟨unlinkEvents, hunlink⟩ := hwithdrawn.step
      have hmoved := h.move hunlink nofun
      have hknows : (KillCall.handler urb).Knows device after :=
        h.absent_of_withdrawn hwithdrawn hcondition
      exact ⟨hmoved.setCall thread hknows, fun _ _ hmem => absurd hmem hquiet⟩
  | silent hwithdrawn =>
      obtain ⟨unlinkEvents, hunlink⟩ := hwithdrawn.step
      refine ⟨h.move hunlink nofun, fun thread urb hmem => ?_⟩
      rcases List.mem_append.mp hmem with hmem | hmem
      · exact absurd hmem hquiet
      · obtain ⟨rfl, rfl⟩ := KillEvent.killReturned.inj (List.mem_singleton.mp hmem)
        exact h.absent_of_withdrawn hwithdrawn hcondition
  | drain hfind hqueued =>
      exact ⟨h.setCall _ ⟨hfind, hqueued, nofun⟩, nofun⟩
  | @handlerReturn thread urb hcall =>
      have hknows := h.calls thread
      rw [hcall] at hknows
      refine ⟨h.setCall _ trivial, fun other urb' hmem => ?_⟩
      obtain ⟨rfl, rfl⟩ := KillEvent.killReturned.inj (List.mem_singleton.mp hmem)
      exact hknows
  | stay => exact ⟨h, fun _ _ hmem => absurd hmem hquiet⟩
  | @second thread urb uhe hcall hheld =>
      have hknows := h.calls thread
      rw [hcall] at hknows
      refine ⟨h.setCall _ ⟨hknows.1, hknows.2.1, fun _ hfirst => ?_⟩, nofun⟩
      exact hheld ⟨h.opened.opened_of_priv hfirst, hfirst⟩
  | done hcall hheld =>
      refine ⟨h.setCall _ trivial, fun other urb' hmem => ?_⟩
      obtain ⟨rfl, rfl⟩ := KillEvent.killReturned.inj (List.mem_singleton.mp hmem)
      exact h.absent_of_drained hcall hheld
  | poison => exact ⟨h.move (poisonUrb_step state _) nofun, by simp⟩

/-- **What is left of an URB.**  In a run in which no URB is submitted while a thread kills
it and none is queued and in flight at once when `usb_kill_urb` is called for it, an URB is
with no endpoint when `usb_kill_urb` returns.  When `usb_poison_urb` returns, it is with none
exactly if it was with none before. -/
theorem kill_leaves_nothing {schedule : List (KillAction U E T)}
    {history : List (KillEvent U E T)}
    (hrun : (killMachine device).run .init schedule = some (state, history))
    (hcondition : ∀ pair ∈ (killMachine device).visited .init schedule,
      pair.2.Undisturbed device pair.1)
    (hlast : action.Undisturbed device state)
    (hstep : (killMachine device).step state action = some (next, events)) :
    (∀ thread urb, .killReturned thread urb ∈ events → next.usb.Absent urb) ∧
      ∀ urb, .poisonReturned urb ∈ events → (next.usb.Absent urb ↔ state.usb.Absent urb) := by
  have hinv := (killMachine device).run_state_of_visited (P := fun state => state.Inv device)
    (fun h hhere hmove => (h.step hhere hmove).1) KillState.Inv.init hrun hcondition
  refine ⟨(hinv.step hlast hstep).2, fun urb hmem => ?_⟩
  cases KillMove.of_step hstep with
  | poison => exact Iff.rfl
  | usb | nowhere | call | silent | drain | handlerReturn | stay | second | done =>
      simp at hmem

end Invariant

/-- The URB is in flight when it is killed; the transfer is cancelled, and the completion
handler does nothing. -/
def drainSchedule : List (KillAction Unit Unit Unit) :=
  [.usb (.submitUrb () true), .usb (.callback () 0 .start ⟨0, fun _ => 0⟩),
    .usb (.trSetup () 0), .killUrb () (), .killPoll (),
    .usb (.callback () 0 .cancelled ⟨0, fun _ => 0⟩), .usb (.handlerReturn () 0), .killPoll ()]

theorem kill_leaves_nothing_drain : ∃ state history next events,
    (killMachine bulkDevice).run .init drainSchedule = some (state, history) ∧
      (killMachine bulkDevice).step state (.killPoll ()) = some (next, events) ∧
      .killReturned () () ∈ events ∧ next.usb.Absent () := by
  have hrun := Machine.run_eq_after (killMachine bulkDevice)
    (rfl : ((killMachine bulkDevice).run .init drainSchedule).isSome = true)
    rfl
  have hstep : (killMachine bulkDevice).step
      (Machine.after (killMachine bulkDevice) .init drainSchedule rfl) (.killPoll ()) =
        some (_, [.killReturned () ()]) := rfl
  have hlast : KillAction.Undisturbed bulkDevice
      (Machine.after (killMachine bulkDevice) .init drainSchedule rfl) (.killPoll ()) := trivial
  refine ⟨_, _, _, _, hrun, hstep, List.mem_singleton_self _,
    (kill_leaves_nothing hrun ?_ hlast hstep).1 () () (List.mem_singleton_self _)⟩
  refine List.forall_mem_cons.mpr ⟨fun _ () => nofun, ?_⟩
  refine List.forall_mem_cons.mpr ⟨trivial, ?_⟩
  refine List.forall_mem_cons.mpr ⟨trivial, ?_⟩
  refine List.forall_mem_cons.mpr ⟨fun () => nofun, ?_⟩
  refine List.forall_mem_cons.mpr ⟨trivial, ?_⟩
  refine List.forall_mem_cons.mpr ⟨trivial, ?_⟩
  refine List.forall_mem_cons.mpr ⟨trivial, ?_⟩
  exact List.forall_mem_singleton.mpr trivial

/-- The URB has not started when it is killed, and its completion handler, which
`usb_kill_urb` calls, submits it again. -/
def resubmittingSchedule : List (KillAction Unit Unit Unit) :=
  [.usb (.submitUrb () true), .killUrb () (), .usb (.submitUrb () true), .handlerReturn ()]

/-- Both calls return although the URB is on the queue of its endpoint. -/
theorem kill_returns_resubmitted :
    (∃ last history,
      (killMachine bulkDevice).run .init resubmittingSchedule = some (last, history) ∧
        history.getLast? = some (.killReturned () ()) ∧ last.usb.queuedOn () () ∧
        ¬ last.usb.Absent ()) ∧
    ∃ last history,
      (killMachine bulkDevice).run (.init : KillState Unit Unit Unit)
          [.usb (.submitUrb () true), .poisonUrb ()] = some (last, history) ∧
        history.getLast? = some (.poisonReturned ()) ∧ last.usb.queuedOn () () ∧
        ¬ last.usb.Absent () := by
  have hkill := Machine.run_eq_after (killMachine bulkDevice)
    (rfl : ((killMachine bulkDevice).run .init resubmittingSchedule).isSome = true)
    rfl
  have hpoison := Machine.run_eq_after (killMachine bulkDevice)
    (rfl : ((killMachine bulkDevice).run (.init : KillState Unit Unit Unit)
      [.usb (.submitUrb () true), .poisonUrb ()]).isSome = true)
    rfl
  exact ⟨⟨_, _, hkill, rfl, rfl, fun habsent => (habsent ()).1 rfl⟩,
    ⟨_, _, hpoison, rfl, rfl, fun habsent => (habsent ()).1 rfl⟩⟩

end Webcamd.Kernel.Usb
