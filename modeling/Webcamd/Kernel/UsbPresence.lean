import Webcamd.Kernel.UsbAccounting

/-!
# Where an URB can turn up

An URB *is with* an endpoint while it is linked in the endpoint's queue or is the private
data of one of its two transfers.  Drivers free an URB when it is with none, so what
matters is that it does not come back: a step can only move it from a queue into a
transfer (`Outcome.priv`), and only an accepted `usb_submit_urb` puts it on a queue
(`Outcome.queuedOn`).  Both are read off the outcomes of a step.

`State.OpenedOk` is the other fact that the drain loops rely on: an endpoint whose
transfers are not set up has no private data and no callback under way.
-/

namespace Webcamd.Kernel.Usb

open Webcamd.Library

variable {U E T : Type} [DecidableEq U] [DecidableEq E] [DecidableEq T]

/-- The URB is linked in the queue of the endpoint. -/
def State.queuedOn (state : State U E T) (uhe : E) (urb : U) : Prop :=
  ((state.bsdUrbList uhe).prev urb).isSome = true

/-- The URB is with no endpoint: in no queue, and the private data of no transfer. -/
def State.Absent (state : State U E T) (urb : U) : Prop :=
  ∀ uhe, ¬ state.queuedOn uhe urb ∧ ∀ index, state.priv uhe index ≠ some urb

/-- Every queue is a tail queue of some URBs. -/
def State.ListsOk (state : State U E T) : Prop :=
  ∀ uhe, ∃ items, (state.bsdUrbList uhe).Represents items

/-- An endpoint that is not set up has nothing under way. -/
def State.OpenedOk (state : State U E T) : Prop :=
  ∀ uhe index, state.opened uhe = false →
    state.priv uhe index = none ∧ (state.bsdXfer uhe index).callback = .idle

variable {device : Device U E} {state next : State U E T} {action : Action U E T}
  {events : List (Event U E)}

omit [DecidableEq U] [DecidableEq E] [DecidableEq T] in
theorem UsbInv.listsOk {ledgers : E → Ledger U} (h : UsbInv device state ledgers) :
    state.ListsOk :=
  fun uhe => ⟨_, (h.endpoints uhe).links⟩

/-! ### Queues and private data -/

omit [DecidableEq E] [DecidableEq T] in
/-- Taking an URB off a queue takes no other one off and puts none on. -/
theorem State.ListsOk.queuedOn_remove (h : state.ListsOk) {uhe : E} {urb other : U}
    {removed : TailQueue U} (hremove : (state.bsdUrbList uhe).remove urb = some removed) :
    ((removed.clearPrev urb).prev other).isSome = true ↔
      other ≠ urb ∧ state.queuedOn uhe other := by
  obtain ⟨items, hrep⟩ := h uhe
  have hmem : urb ∈ items := by
    by_contra hnot
    rw [hrep.remove_eq_none_of_notMem hnot] at hremove
    cases hremove
  obtain ⟨removed', hremove', hrep'⟩ := hrep.remove hmem
  obtain rfl : removed = removed' := Option.some.inj (hremove.symm.trans hremove')
  rw [hrep'.prev_isSome_iff, State.queuedOn, hrep.prev_isSome_iff, hrep.nodup.mem_erase_iff]

omit [DecidableEq T] in
/-- An URB that is on a queue was on it, or has just been submitted and linked. -/
theorem Outcome.queuedOn (h : Outcome device state action next events)
    (hlists : state.ListsOk) {uhe : E} {urb : U} (hqueued : next.queuedOn uhe urb) :
    state.queuedOn uhe urb ∨
      ∃ opens, action = .submitUrb urb opens ∧ Accepts device state urb opens ∧
        device.findHostEndpoint urb = some uhe ∧ .linked urb ∈ events := by
  -- some URB was taken off some queue
  have hremoved : ∀ {here : E} {other : U} {removed : TailQueue U},
      (state.bsdUrbList here).remove other = some removed →
      next.bsdUrbList = Function.update state.bsdUrbList here (removed.clearPrev other) →
      state.queuedOn uhe urb := by
    intro here other removed hremove hlist
    rw [State.queuedOn, hlist] at hqueued
    by_cases hhere : uhe = here
    · subst hhere
      rw [Function.update_self, hlists.queuedOn_remove hremove] at hqueued
      exact hqueued.2
    · rwa [Function.update_of_ne hhere] at hqueued
  cases h with
  | quiet hcall hlist hpriv hquiet => exact .inl (by rwa [State.queuedOn, hlist] at hqueued)
  | decline other opens value hcall hvalue hdeclines hlist hpriv =>
      exact .inl (by rwa [State.queuedOn, hlist] at hqueued)
  | again here other opens hcall haccepts howner hfound hlist hpriv hquiet =>
      exact .inl (by rwa [State.queuedOn, hlist] at hqueued)
  | finish hcall here index status other code hlist hheld hpriv =>
      exact .inl (by rwa [State.queuedOn, hlist] at hqueued)
  | link here other opens hcall haccepts howner hfresh hlist hpriv hquiet =>
      rw [State.queuedOn, hlist] at hqueued
      by_cases hhere : uhe = here
      · subst hhere
        obtain ⟨items, hrep⟩ := hlists uhe
        have hnotMem : other ∉ items := by
          rw [← hrep.prev_isSome_iff, hfresh]
          simp
        rw [Function.update_self, (hrep.insertTail hnotMem).prev_isSome_iff, List.mem_append,
          List.mem_singleton] at hqueued
        rcases hqueued with hmem | rfl
        · exact .inl ((hrep.prev_isSome_iff urb).mpr hmem)
        · exact .inr ⟨opens, hcall, haccepts, howner, List.mem_cons_self⟩
      · exact .inl (by rwa [Function.update_of_ne hhere] at hqueued)
  | withdraw hcall here other removed event status hevent hremove hlist hpriv hquiet =>
      exact .inl (hremoved hremove hlist)
  | start hcall here index other removed hfirst hremove hlist hfree hpriv =>
      exact .inl (hremoved hremove hlist)

omit [DecidableEq T] in
/-- An URB is linked only by its own `usb_submit_urb`, and only if it is not on the queue
of the endpoint that is found for it. -/
theorem Outcome.of_linked (h : Outcome device state action next events) {urb : U}
    (hlinked : .linked urb ∈ events) :
    ∃ uhe opens, action = .submitUrb urb opens ∧ device.findHostEndpoint urb = some uhe ∧
      ¬ state.queuedOn uhe urb := by
  have hnotQuiet : ∀ {rest : List (Event U E)}, (∀ event ∈ rest, event.Quiet) →
      .linked urb ∉ rest := fun hquiet hmem => hquiet _ hmem
  have hcompletion : ∀ {other : U} {status : Code},
      .linked urb ∉ device.completion other status := by
    intro other status
    rw [Device.completion]
    split <;> simp
  cases h with
  | quiet hcall hlist hpriv hquiet => exact absurd hlinked (hnotQuiet hquiet)
  | decline other opens value hcall hvalue hdeclines hlist hpriv => simp at hlinked
  | again here other opens hcall haccepts howner hfound hlist hpriv hquiet =>
      exact absurd hlinked (by simpa using hnotQuiet hquiet)
  | link here other opens hcall haccepts howner hfresh hlist hpriv hquiet =>
      obtain rfl : urb = other := by
        have hrest := hnotQuiet hquiet
        simpa [hrest] using hlinked
      exact ⟨here, opens, hcall, howner, by simp [State.queuedOn, hfresh]⟩
  | withdraw hcall here other removed event status hevent hremove hlist hpriv hquiet =>
      rw [List.cons_append, List.mem_cons, List.mem_append] at hlinked
      rcases hlinked with rfl | hmem | hmem
      · simp at hevent
      · exact absurd hmem hcompletion
      · exact absurd hmem (hnotQuiet hquiet)
  | start hcall here index other removed hfirst hremove hlist hfree hpriv => simp at hlinked
  | finish hcall here index status other code hlist hheld hpriv =>
      rw [List.mem_cons] at hlinked
      rcases hlinked with hmem | hmem
      · cases hmem
      · exact absurd hmem hcompletion

omit [DecidableEq U] in
/-- What a transfer holds after another value has been put into one: that value, or what it held
before. -/
theorem update_update_eq {priv : E → Fin 2 → Option U} {here uhe : E} {other index : Fin 2}
    {value held : Option U}
    (h : Function.update priv here (Function.update (priv here) other value) uhe index = held) :
    (uhe = here ∧ value = held) ∨ priv uhe index = held := by
  by_cases hhere : uhe = here
  · subst hhere
    rw [Function.update_self] at h
    by_cases hindex : index = other
    · subst hindex
      rw [Function.update_self] at h
      exact .inl ⟨rfl, h⟩
    · exact .inr (by rwa [Function.update_of_ne hindex] at h)
  · exact .inr (by rwa [Function.update_of_ne hhere] at h)

omit [DecidableEq T] in
/-- An URB that is the private data of a transfer was that before, or came from the
queue of the same endpoint. -/
theorem Outcome.priv (h : Outcome device state action next events)
    (hlists : state.ListsOk) {uhe : E} {index : Fin 2} {urb : U}
    (hheld : next.priv uhe index = some urb) :
    state.priv uhe index = some urb ∨ state.queuedOn uhe urb := by
  cases h with
  | quiet hcall hlist hpriv hquiet => exact .inl (hpriv ▸ hheld)
  | decline other opens value hcall hvalue hdeclines hlist hpriv => exact .inl (hpriv ▸ hheld)
  | again here other opens hcall haccepts howner hfound hlist hpriv hquiet =>
      exact .inl (hpriv ▸ hheld)
  | link here other opens hcall haccepts howner hfresh hlist hpriv hquiet =>
      exact .inl (hpriv ▸ hheld)
  | withdraw hcall here other removed event status hevent hremove hlist hpriv hquiet =>
      exact .inl (hpriv ▸ hheld)
  | start hcall here index' other removed hfirst hremove hlist hfree hpriv =>
      rw [hpriv] at hheld
      rcases update_update_eq hheld with ⟨rfl, hvalue⟩ | hbefore
      · obtain rfl := Option.some.inj hvalue
        obtain ⟨items, hrep⟩ := hlists uhe
        rw [hrep.first_eq] at hfirst
        exact .inr ((hrep.prev_isSome_iff other).mpr (List.mem_of_mem_head? hfirst))
      · exact .inl hbefore
  | finish hcall here index' status other code hlist hheld' hpriv =>
      rw [hpriv] at hheld
      rcases update_update_eq hheld with ⟨-, hvalue⟩ | hbefore
      · cases hvalue
      · exact .inl hbefore

omit [DecidableEq T] in
/-- **An URB that is with no endpoint stays so** until it is submitted. -/
theorem Outcome.absent (h : Outcome device state action next events)
    (hlists : state.ListsOk) {urb : U} (habsent : state.Absent urb)
    (hsubmit : ∀ opens, action = .submitUrb urb opens → ¬ Accepts device state urb opens) :
    next.Absent urb := by
  intro uhe
  obtain ⟨hqueued, hpriv⟩ := habsent uhe
  refine ⟨fun hnext => ?_, fun index hheld => ?_⟩
  · rcases h.queuedOn hlists hnext with hbefore | ⟨opens, hcall, haccepts, -⟩
    · exact hqueued hbefore
    · exact hsubmit opens hcall haccepts
  · rcases h.priv hlists hheld with hbefore | hbefore
    · exact hpriv index hbefore
    · exact hqueued hbefore

omit [DecidableEq U] [DecidableEq E] [DecidableEq T] in
/-- An URB is with its own endpoint or with none. -/
theorem UsbInv.absent {ledgers : E → Ledger U} (h : UsbInv device state ledgers) {urb : U}
    (hown : ∀ uhe, device.findHostEndpoint urb = some uhe →
      ¬ state.queuedOn uhe urb ∧ ∀ index, state.priv uhe index ≠ some urb) :
    state.Absent urb := by
  intro uhe
  refine ⟨fun hqueued => ?_, fun index hheld => ?_⟩
  · exact (hown uhe ((h.endpoints uhe).owner_of_queued hqueued)).1 hqueued
  · have hmem : urb ∈ state.inFlight uhe := State.mem_inFlight.mpr ⟨index, hheld⟩
    exact (hown uhe ((h.endpoints uhe).owner_of_inFlight hmem)).2 index hheld

/-! ### Endpoints that are not set up -/

/-- A step opens no transfer that a transfer does something with. -/
structure State.Frame (state next : State U E T) (uhe : E) : Prop where
  opened : next.opened = state.opened
  busy : state.OpenedOk → state.opened uhe = true
  others : ∀ other, other ≠ uhe → next.bsdXfer other = state.bsdXfer other

omit [DecidableEq U] [DecidableEq T] in
theorem State.setXfer_others (state : State U E T) (uhe : E) (index : Fin 2)
    (write : Xfer U → Xfer U) {other : E} (hne : other ≠ uhe) :
    (state.setXfer uhe index write).bsdXfer other = state.bsdXfer other := by
  simp [setXfer, hne]

omit [DecidableEq T] in
theorem State.usbLinuxComplete_frame {uhe : E} {index : Fin 2} {cancelled : Bool}
    (h : state.usbLinuxComplete device uhe index cancelled = some (next, events)) :
    next.opened = state.opened ∧
      ∀ other, other ≠ uhe → next.bsdXfer other = state.bsdXfer other := by
  rw [usbLinuxComplete] at h
  split at h
  · cases h
  · split at h
    · obtain ⟨rfl, -⟩ := Prod.mk.inj (Option.some.inj h)
      refine ⟨rfl, fun other hne => ?_⟩
      simp [setCallback, setPriv, setXfer_others, hne]
    · obtain ⟨rfl, -⟩ := Prod.mk.inj (Option.some.inj h)
      refine ⟨rfl, fun other hne => ?_⟩
      simp [resume, setCallback, setPriv, setXfer_others, hne]

omit [DecidableEq T] in
theorem State.callback_frame {uhe : E} {index : Fin 2} {status : Status} {report : Report}
    (h : state.callback device uhe index status report = some (next, events)) :
    state.Frame next uhe := by
  simp only [State.callback] at h
  split at h
  · rename_i hguard
    split at h
    · obtain ⟨rfl, -⟩ := Prod.mk.inj (Option.some.inj h)
      exact ⟨rfl, fun _ => hguard.1, fun other hne => setXfer_others _ _ _ _ hne⟩
    · split at h
      · cases h
      · obtain ⟨⟨middle, early⟩, hcomplete, h⟩ := Option.map_eq_some_iff.mp h
        obtain ⟨rfl, -⟩ := Prod.mk.inj h
        obtain ⟨hopened, hothers⟩ := usbLinuxComplete_frame hcomplete
        refine ⟨hopened, fun _ => hguard.1, fun other hne => ?_⟩
        rw [hothers other hne, setUrb_bsdXfer, setXfer_others _ _ _ _ hne]
  · cases h

omit [DecidableEq U] [DecidableEq E] [DecidableEq T] in
/-- A callback is under way only on an endpoint that is set up. -/
theorem State.OpenedOk.opened_of_callback (h : state.OpenedOk) {uhe : E} {index : Fin 2}
    (hcallback : (state.bsdXfer uhe index).callback ≠ .idle) : state.opened uhe = true := by
  by_contra hnot
  exact hcallback (h uhe index (by simpa using hnot)).2

omit [DecidableEq U] [DecidableEq E] [DecidableEq T] in
theorem State.OpenedOk.opened_of_priv (h : state.OpenedOk) {uhe : E} {index : Fin 2} {urb : U}
    (hheld : state.priv uhe index = some urb) : state.opened uhe = true := by
  by_contra hnot
  rw [(h uhe index (by simpa using hnot)).1] at hheld
  cases hheld

omit [DecidableEq T] in
theorem State.handlerReturn_frame {uhe : E} {index : Fin 2}
    (h : state.handlerReturn uhe index = some (next, events)) : state.Frame next uhe := by
  rw [State.handlerReturn] at h
  split at h
  · rename_i urb cancelled hcallback
    obtain ⟨rfl, -⟩ := Prod.mk.inj (Option.some.inj h)
    have hrunning : (state.bsdXfer uhe index).callback ≠ .idle := by simp [hcallback]
    refine ⟨rfl, fun hok => hok.opened_of_callback hrunning, fun other hne => ?_⟩
    rw [resume, setCallback, setXfer_others _ _ _ _ hne, setUrb_bsdXfer]
  · cases h

omit [DecidableEq T] in
theorem State.trSetup_frame {uhe : E} {index : Fin 2}
    (h : state.trSetup device uhe index = some (next, events)) : state.Frame next uhe := by
  rw [State.trSetup] at h
  split at h
  · rename_i hcallback
    have hrunning : (state.bsdXfer uhe index).callback ≠ .idle := by simp [hcallback]
    have hbusy : state.OpenedOk → state.opened uhe = true := fun hok =>
      hok.opened_of_callback hrunning
    split at h
    · obtain ⟨rfl, -⟩ := Prod.mk.inj (Option.some.inj h)
      exact ⟨rfl, hbusy, fun other hne => setXfer_others _ _ _ _ hne⟩
    · obtain ⟨removed, -, h⟩ := Option.bind_eq_some_iff.mp h
      simp only at h
      split at h
      · obtain ⟨⟨middle, early⟩, hcomplete, h⟩ := Option.map_eq_some_iff.mp h
        obtain ⟨rfl, -⟩ := Prod.mk.inj h
        obtain ⟨hopened, hothers⟩ := usbLinuxComplete_frame hcomplete
        refine ⟨hopened, hbusy, fun other hne => ?_⟩
        rw [hothers other hne, setUrb_bsdXfer, setPriv, setXfer_others _ _ _ _ hne,
          setUrb_bsdXfer, setList_bsdXfer]
      · obtain ⟨rfl, -⟩ := Prod.mk.inj (Option.some.inj h)
        refine ⟨rfl, hbusy, fun other hne => ?_⟩
        rw [setXfer_others _ _ _ _ hne, setPriv, setXfer_others _ _ _ _ hne,
          setUrb_bsdXfer, setList_bsdXfer]
  · cases h

omit [DecidableEq U] [DecidableEq E] [DecidableEq T] in
/-- A driver call leaves the transfers alone and closes none. -/
theorem State.OpenedOk.call (h : state.OpenedOk) (hxfer : next.bsdXfer = state.bsdXfer)
    (hopened : ∀ uhe, state.opened uhe = true → next.opened uhe = true) : next.OpenedOk := by
  intro uhe index hclosed
  rw [priv, hxfer]
  refine h uhe index ?_
  by_contra hnot
  rw [hopened uhe (by simpa using hnot)] at hclosed
  cases hclosed

omit [DecidableEq U] [DecidableEq E] [DecidableEq T] in
theorem State.OpenedOk.frame (h : state.OpenedOk) {uhe : E} (hframe : state.Frame next uhe) :
    next.OpenedOk := by
  intro other index hclosed
  rw [hframe.opened] at hclosed
  have hne : other ≠ uhe := by
    rintro rfl
    rw [hframe.busy h] at hclosed
    cases hclosed
  rw [priv, hframe.others other hne]
  exact h other index hclosed

omit [DecidableEq U] [DecidableEq T] in
/-- `usb_setup_endpoint` closes nothing. -/
theorem State.setupEndpoint_opened {here uhe : E} {opens : Bool}
    (h : state.setupEndpoint here opens = some next) (hopened : state.opened uhe = true) :
    next.opened uhe = true := by
  rw [setupEndpoint] at h
  split at h
  · obtain rfl := Option.some.inj h
    exact hopened
  · split at h
    · obtain rfl := Option.some.inj h
      by_cases hhere : uhe = here
      · subst hhere
        simp
      · simp [hhere, hopened]
    · cases h

omit [DecidableEq T] in
theorem State.submitUrb_opened {urb : U} {opens : Bool}
    (h : state.submitUrb device urb opens = (next, events)) {uhe : E}
    (hopened : state.opened uhe = true) : next.opened uhe = true := by
  rw [submitUrb] at h
  split at h
  · obtain ⟨rfl, -⟩ := Prod.mk.inj h
    exact hopened
  · split at h
    · obtain ⟨rfl, -⟩ := Prod.mk.inj h
      exact hopened
    · split at h
      · obtain ⟨rfl, -⟩ := Prod.mk.inj h
        exact hopened
      · rename_i ready hsetup
        have hready : ready.opened uhe = true := setupEndpoint_opened hsetup hopened
        rw [enqueue] at h
        split at h
        · obtain ⟨rfl, -⟩ := Prod.mk.inj h
          rw [linkUrb]
          split <;> exact hready
        · obtain ⟨rfl, -⟩ := Prod.mk.inj h
          exact hready

omit [DecidableEq T] in
theorem State.unlinkQueued_opened {uhe : E} {urb : U}
    (h : state.unlinkQueued device uhe urb = some (next, events)) :
    next.opened = state.opened := by
  rw [unlinkQueued, Option.map_eq_some_iff] at h
  obtain ⟨removed, -, h⟩ := h
  split at h
  · obtain ⟨rfl, -⟩ := Prod.mk.inj h
    rfl
  · obtain ⟨rfl, -⟩ := Prod.mk.inj h
    rfl

/-- **No step** closes an endpoint. -/
theorem State.step_opened
    (hstep : (usbMachine device).step state action = some (next, events)) {uhe : E}
    (hopened : state.opened uhe = true) : next.opened uhe = true := by
  cases action with
  | fill urb fields =>
      obtain ⟨rfl, -⟩ := Prod.mk.inj (Option.some.inj hstep)
      exact hopened
  | blockUrb urb =>
      obtain ⟨rfl, -⟩ := Prod.mk.inj (Option.some.inj hstep)
      exact hopened
  | unblockUrb urb =>
      obtain ⟨rfl, -⟩ := Prod.mk.inj (Option.some.inj hstep)
      exact hopened
  | submitUrb urb opens => exact submitUrb_opened (Option.some.inj hstep) hopened
  | unlinkUrb urb =>
      obtain ⟨-, rfl, -⟩ | ⟨uhe, -, ⟨-, early, hunlink, -⟩ | ⟨-, rfl, -⟩⟩ := unlinkUrb_cases hstep
      · exact hopened
      · rwa [unlinkQueued_opened hunlink]
      · exact hopened
  | killUrb thread urb =>
      obtain ⟨-, ⟨-, rfl, -⟩ | ⟨uhe, -, ⟨-, early, hunlink, -⟩ | ⟨-, rfl, -⟩⟩⟩ :=
        killUrb_cases hstep
      · exact hopened
      · rwa [unlinkQueued_opened hunlink]
      · exact hopened
  | killPoll thread =>
      simp only [usbMachine, killPoll] at hstep
      split at hstep
      · cases hstep
      · split_ifs at hstep <;>
          · obtain ⟨rfl, -⟩ := Prod.mk.inj (Option.some.inj hstep)
            exact hopened
  | callback here index status report =>
      rw [(callback_frame hstep).opened]
      exact hopened
  | handlerReturn here index =>
      rw [(handlerReturn_frame hstep).opened]
      exact hopened
  | trSetup here index =>
      rw [(trSetup_frame hstep).opened]
      exact hopened

/-- **Every step** leaves endpoints that are not set up alone. -/
theorem State.OpenedOk.step (h : state.OpenedOk)
    (hstep : (usbMachine device).step state action = some (next, events)) : next.OpenedOk := by
  have hcall : next.bsdXfer = state.bsdXfer → next.OpenedOk := fun hxfer =>
    h.call hxfer fun _ => step_opened hstep
  cases action with
  | fill urb fields =>
      obtain ⟨rfl, -⟩ := Prod.mk.inj (Option.some.inj hstep)
      exact hcall rfl
  | blockUrb urb =>
      obtain ⟨rfl, -⟩ := Prod.mk.inj (Option.some.inj hstep)
      exact hcall rfl
  | unblockUrb urb =>
      obtain ⟨rfl, -⟩ := Prod.mk.inj (Option.some.inj hstep)
      exact hcall rfl
  | submitUrb urb opens => exact hcall (submitUrb_eq (Option.some.inj hstep)).1
  | unlinkUrb urb => exact hcall (Outcome.unlinkUrb hstep).2
  | killUrb thread urb => exact hcall (Outcome.killUrb hstep).2
  | killPoll thread =>
      have houtcome : Outcome device state (.killPoll thread) next events ∧
          next.bsdXfer = state.bsdXfer := Outcome.killPoll hstep
      exact hcall houtcome.2
  | callback uhe index status report => exact h.frame (callback_frame hstep)
  | handlerReturn uhe index => exact h.frame (handlerReturn_frame hstep)
  | trSetup uhe index => exact h.frame (trSetup_frame hstep)

omit [DecidableEq U] [DecidableEq E] [DecidableEq T] in
theorem State.OpenedOk.init : (State.init : State U E T).OpenedOk :=
  fun _ _ _ => ⟨rfl, rfl⟩

end Webcamd.Kernel.Usb
