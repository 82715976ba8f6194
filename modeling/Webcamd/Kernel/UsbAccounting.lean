import Webcamd.Kernel.UsbQueue

/-!
# Where an URB is, and how often its completion handler runs

`usb_submit_urb` means to *check if URB is not already submitted*, but the field it
looks at, `tqe_prev`, only tells whether the URB is on the queue: a callback that takes
an URB into its transfer clears it.  So an URB that a transfer works on can be linked
again, and is then in two places.

* `one_place_iff` — in a run every URB is in at most one place throughout exactly if no
  URB is accepted while a transfer works on it.
* `handler_accounting` — in the runs of drivers that wait for the completion handler
  before they submit an URB again, the handler is called once for every accepted
  submission, and the URBs of an endpoint go to the hardware in the order in which they
  were accepted.

Both are about the ledgers that every run refines: the first about how often an URB is
waiting or active in them, the second about their laws of counting and of order.
-/

namespace Webcamd.Kernel.Usb

open Webcamd.Library

variable {U E T : Type} [DecidableEq U] [DecidableEq E] [DecidableEq T]

/-! ### One place -/

/-- **Every URB is in at most one place**: it is linked at most once in the queue of an
endpoint, or it is the private data of at most one of the endpoint's transfers, and
never both. -/
def OnePlace (state : State U E T) : Prop :=
  ∀ uhe, ∃ items, (state.bsdUrbList uhe).Represents items ∧
    ∀ urb, items.count urb + (state.inFlight uhe).count urb ≤ 1

/-- No URB is accepted while a transfer works on it. -/
def Proper (device : Device U E) (state : State U E T) : Action U E T → Prop
  | .submitUrb urb opens =>
      Accepts device state urb opens → ∀ uhe, urb ∉ state.inFlight uhe
  | _ => True

section OnePlace

variable {device : Device U E} {state next : State U E T} {uhe : E} {ledger : Ledger U}
  {ledgers : E → Ledger U} {action : Action U E T} {events : List (Event U E)}

omit [DecidableEq E] [DecidableEq T] in
theorem EndpointInv.countItem_active (h : EndpointInv device state uhe ledger) (urb : U) :
    Ledger.countItem ledger.active urb = (state.inFlight uhe).count urb :=
  h.active.count_eq urb

omit [DecidableEq E] [DecidableEq T] in
/-- An URB waits once if it is linked, and not at all otherwise. -/
theorem EndpointInv.countItem_waiting (h : EndpointInv device state uhe ledger) (urb : U) :
    Ledger.countItem ledger.waiting urb =
      if ((state.bsdUrbList uhe).prev urb).isSome then 1 else 0 := by
  by_cases hmem : urb ∈ ledger.waiting.map Ticket.item
  · rw [if_pos ((h.links.prev_isSome_iff urb).mpr hmem)]
    exact List.count_eq_one_of_mem h.links.nodup hmem
  · rw [if_neg fun hqueued => hmem ((h.links.prev_isSome_iff urb).mp hqueued)]
    exact List.count_eq_zero_of_not_mem hmem

omit [DecidableEq E] [DecidableEq T] in
theorem UsbInv.onePlace_iff (h : UsbInv device state ledgers) :
    OnePlace state ↔ ∀ uhe urb, (ledgers uhe).countOutstanding urb ≤ 1 := by
  constructor
  · intro hone uhe urb
    obtain ⟨items, hrep, hcount⟩ := hone uhe
    obtain rfl := hrep.unique (h.endpoints uhe).links
    rw [Ledger.countOutstanding, (h.endpoints uhe).countItem_active urb]
    exact hcount urb
  · intro hcount uhe
    refine ⟨_, (h.endpoints uhe).links, fun urb => ?_⟩
    rw [← (h.endpoints uhe).countItem_active urb]
    exact hcount uhe urb

/-- An event that only `usb_submit_urb` produces. -/
def Event.OfSubmit : Event U E → Prop
  | .linked _ | .submitted _ _ => True
  | _ => False

omit [DecidableEq U] [DecidableEq E] in
theorem not_ofSubmit_completion {urb : U} {status : Code} :
    ∀ event ∈ device.completion urb status, ¬ event.OfSubmit := by
  rw [Device.completion]
  split <;> simp [Event.OfSubmit]

omit [DecidableEq U] [DecidableEq E] in
theorem not_ofSubmit_of_quiet (hquiet : ∀ event ∈ events, event.Quiet) :
    ∀ event ∈ events, ¬ event.OfSubmit := by
  intro event hmem hsubmit
  have hevent := hquiet event hmem
  cases event <;> first | exact hevent | exact hsubmit

omit [DecidableEq T] in
theorem Outcome.not_ofSubmit (h : Outcome device state action next events)
    (hcall : action.NotSubmit) : ∀ event ∈ events, ¬ event.OfSubmit := by
  cases h with
  | quiet _ _ _ hquiet => exact not_ofSubmit_of_quiet hquiet
  | decline urb opens _ heq => exact absurd heq (hcall urb opens)
  | again _ urb opens heq => exact absurd heq (hcall urb opens)
  | link _ urb opens heq => exact absurd heq (hcall urb opens)
  | withdraw _ uhe urb removed withdrawn status hevent _ _ _ hquiet =>
      intro event hmem
      rcases List.mem_append.mp hmem with hmem | hmem
      · rcases List.mem_cons.mp hmem with rfl | hmem
        · rcases hevent with ⟨rfl, -⟩ | ⟨index, rfl⟩ <;> simp [Event.OfSubmit]
        · exact not_ofSubmit_completion event hmem
      · exact not_ofSubmit_of_quiet hquiet event hmem
  | start => simp [Event.OfSubmit]
  | finish =>
      intro event hmem
      rcases List.mem_cons.mp hmem with rfl | hmem
      · simp [Event.OfSubmit]
      · exact not_ofSubmit_completion event hmem

theorem op_eq_issue_iff {urb : U} (howner : device.findHostEndpoint urb = some uhe)
    (event : Event U E) : event.op device uhe = some (.issue urb) ↔ event = .linked urb := by
  cases event with
  | linked other =>
      by_cases hother : other = urb
      · simp [Event.op, hother, howner]
      · by_cases hhere : device.findHostEndpoint other = some uhe <;>
          simp [Event.op, hhere, hother]
  | unlinked other => by_cases hhere : device.findHostEndpoint other = some uhe <;>
      simp [Event.op, hhere]
  | refused other index urb => by_cases hhere : other = uhe <;> simp [Event.op, hhere]
  | trSubmit other index urb => by_cases hhere : other = uhe <;> simp [Event.op, hhere]
  | terminal other index status urb => by_cases hhere : other = uhe <;>
      simp [Event.op, hhere]
  | _ => simp [Event.op]

/-- The requests issued for an URB are counted by the events that link it. -/
theorem count_issue {urb : U} (howner : device.findHostEndpoint urb = some uhe)
    (history : List (Event U E)) :
    (endpointOps device uhe history).count (.issue urb) = history.count (.linked urb) := by
  rw [endpointOps, List.count]
  refine Ledger.count_filterMap (fun event => ?_) history
  rw [op_eq_issue_iff howner event, beq_iff_eq]

/-- Nothing is issued without such an event. -/
theorem count_issue_eq_zero (uhe : E) {urb : U} (hnot : .linked urb ∉ events) :
    (endpointOps device uhe events).count (.issue urb) = 0 := by
  rw [List.count_eq_zero]
  intro hmem
  obtain ⟨event, hevent, hop⟩ := List.mem_filterMap.mp hmem
  cases event with
  | linked other =>
      rw [Event.op] at hop
      split at hop
      · cases hop
        exact hnot hevent
      · cases hop
  | _ => simp [Event.op] at hop

omit [DecidableEq E] [DecidableEq T] in
/-- An URB in flight is in flight on its own endpoint. -/
theorem UsbInv.countItem_active_pos (h : UsbInv device state ledgers) {uhe other : E} {urb : U}
    (howner : device.findHostEndpoint urb = some uhe) (hmem : urb ∈ state.inFlight other) :
    0 < Ledger.countItem (ledgers uhe).active urb := by
  obtain rfl : uhe = other :=
    Option.some.inj (howner.symm.trans ((h.endpoints other).owner_of_inFlight hmem))
  rw [(h.endpoints uhe).countItem_active]
  exact List.count_pos_iff.mpr hmem

/-- **A step keeps every URB in one place exactly if it does not link one that is in
flight.** -/
theorem UsbInv.onePlace_step (h : UsbInv device state ledgers) (hone : OnePlace state)
    (hstep : (usbMachine device).step state action = some (next, events)) :
    OnePlace next ↔ Proper device state action := by
  obtain ⟨after, hreplay, hnext⟩ := h.step hstep
  obtain ⟨houtcome, -⟩ := Outcome.of_step h.xfers hstep
  rw [hnext.onePlace_iff]
  rw [h.onePlace_iff] at hone
  have hcount := fun uhe urb => Ledger.count_outstanding_replayFrom (hreplay uhe) urb
  -- where nothing is linked, the number of outstanding requests does not grow
  have hkeep : ∀ uhe urb, .linked urb ∉ events → (after uhe).countOutstanding urb ≤ 1 := by
    intro uhe urb hnot
    have hurb := hcount uhe urb
    rw [count_issue_eq_zero uhe hnot] at hurb
    have hbefore := hone uhe urb
    omega
  by_cases hcall : action.NotSubmit
  · refine iff_of_true (fun uhe urb => hkeep uhe urb fun hmem => ?_) ?_
    · exact houtcome.not_ofSubmit hcall _ hmem trivial
    · cases action with
      | submitUrb urb opens => exact absurd rfl (hcall urb opens)
      | _ => trivial
  · cases houtcome with
    | quiet hnot => exact absurd hnot hcall
    | withdraw hnot => exact absurd hnot hcall
    | start hnot => exact absurd hnot hcall
    | finish hnot => exact absurd hnot hcall
    | decline urb opens value heq hvalue hdeclines =>
        subst heq
        exact iff_of_true (fun uhe other => hkeep uhe other (by simp))
          fun haccepts => absurd haccepts hdeclines
    | again uhe urb opens heq haccepts howner hqueued hlist hpriv hquiet =>
        subst heq
        refine iff_of_true (fun other urb' => hkeep other urb' ?_) fun _ other hmem => ?_
        · rw [List.mem_cons, not_or]
          exact ⟨by simp, fun hmem => not_ofSubmit_of_quiet hquiet _ hmem trivial⟩
        · -- it is queued, so it cannot be in flight as well
          have hplace := hone uhe urb
          rw [Ledger.countOutstanding, (h.endpoints uhe).countItem_waiting, if_pos hqueued]
            at hplace
          have hactive := h.countItem_active_pos howner hmem
          omega
    | link uhe urb opens heq haccepts howner hfresh hlist hpriv hquiet =>
        subst heq
        have hafter : ∀ other urb', (after other).countOutstanding urb' =
            (ledgers other).countOutstanding urb' +
              if uhe = other ∧ urb = urb' then 1 else 0 := by
          intro other urb'
          have hmove := hcount other urb'
          rw [endpointOps_link device other howner hquiet] at hmove
          by_cases hhere : uhe = other <;> by_cases hurb : urb = urb' <;>
            simp [hhere, hurb] at hmove ⊢ <;> omega
        constructor
        · intro hplaces _ other hmem
          have hplace := hplaces uhe urb
          rw [hafter, if_pos ⟨rfl, rfl⟩, Ledger.countOutstanding] at hplace
          have hactive := h.countItem_active_pos howner hmem
          omega
        · intro hproper other urb'
          rw [hafter]
          split_ifs with hhere
          · obtain ⟨rfl, rfl⟩ := hhere
            rw [Ledger.countOutstanding, (h.endpoints uhe).countItem_waiting, hfresh,
              (h.endpoints uhe).countItem_active,
              List.count_eq_zero_of_not_mem (hproper haccepts uhe)]
            simp
          · exact hone other urb'

end OnePlace

/-- **Where URBs are.**  In a run, every URB is in at most one place in every state if
and only if no URB is accepted while a transfer works on it. -/
theorem one_place_iff {device : Device U E} {schedule : List (Action U E T)}
    {last : State U E T} {history : List (Event U E)}
    (hrun : (usbMachine device).run .init schedule = some (last, history)) :
    ((∀ pair ∈ (usbMachine device).visited .init schedule, OnePlace pair.1) ∧
        OnePlace last) ↔
      ∀ pair ∈ (usbMachine device).visited .init schedule, Proper device pair.1 pair.2 := by
  have hinv : ∀ {state next : State U E T} {action events},
      (∃ ledgers, UsbInv device state ledgers) →
      (usbMachine device).step state action = some (next, events) →
        ∃ ledgers, UsbInv device next ledgers := by
    rintro state next action events ⟨ledgers, hinv⟩ hstep
    obtain ⟨after, -, hnext⟩ := hinv.step hstep
    exact ⟨after, hnext⟩
  have hplace : ∀ {state next : State U E T} {action events},
      (∃ ledgers, UsbInv device state ledgers) → OnePlace state →
      (usbMachine device).step state action = some (next, events) →
        (OnePlace next ↔ Proper device state action) := by
    rintro state next action events ⟨ledgers, hinv⟩ hone hstep
    exact hinv.onePlace_step hone hstep
  have hinit : UsbInv device (State.init : State U E T) _ := .init
  have hstart : OnePlace (State.init : State U E T) :=
    hinit.onePlace_iff.mpr fun _ _ => Nat.zero_le 1
  exact (usbMachine device).run_states_iff hinv hplace ⟨_, hinit⟩ hstart hrun

/-- A bulk endpoint with one URB. -/
def bulkDevice : Device Unit Unit where
  findHostEndpoint := fun _ => some ()
  complete := fun _ => true
  xferType := fun _ => .bulk
  maxTotalLength := fun _ => 4096
  maxFrames := fun _ => 1

/-- The URB is submitted and the first transfer takes it; the second one finds the
queue empty.  Then the URB is submitted again, and the second transfer takes it too. -/
def resubmitSchedule : List (Action Unit Unit Unit) :=
  [.submitUrb () true, .callback () 0 .start ⟨0, fun _ => 0⟩, .trSetup () 0,
    .callback () 1 .start ⟨0, fun _ => 0⟩, .trSetup () 1,
    .submitUrb () true, .callback () 1 .start ⟨0, fun _ => 0⟩, .trSetup () 1]

theorem resubmit_two_places : ∃ last history,
    (usbMachine bulkDevice).run .init resubmitSchedule = some (last, history) ∧
      last.holds () 0 () = true ∧ last.holds () 1 () = true ∧ ¬ OnePlace last := by
  have hrun := Machine.run_eq_after (usbMachine bulkDevice)
    (rfl : ((usbMachine bulkDevice).run .init resubmitSchedule).isSome = true)
    rfl
  refine ⟨_, _, hrun, rfl, rfl, fun hone => ?_⟩
  obtain ⟨items, -, hcount⟩ := hone ()
  have hflight : ((Machine.after (usbMachine bulkDevice) .init resubmitSchedule
    rfl).inFlight ()).count () = 2 := rfl
  have hplace := hcount ()
  omega

/-- The URB is submitted, a transfer takes it, and its completion handler submits it
again. -/
def handlerSchedule : List (Action Unit Unit Unit) :=
  [.submitUrb () true, .callback () 0 .start ⟨0, fun _ => 0⟩, .trSetup () 0,
    .callback () 0 .completed ⟨0, fun _ => 0⟩, .submitUrb () true, .handlerReturn () 0,
    .trSetup () 0]

theorem one_place_iff_handler : ∃ last history,
    (usbMachine bulkDevice).run .init handlerSchedule = some (last, history) ∧
      OnePlace last := by
  have hrun := Machine.run_eq_after (usbMachine bulkDevice)
    (rfl : ((usbMachine bulkDevice).run .init handlerSchedule).isSome = true)
    rfl
  refine ⟨_, _, hrun, ((one_place_iff hrun).mpr ?_).2⟩
  refine List.forall_mem_cons.mpr ⟨fun _ () => List.not_mem_nil, ?_⟩
  refine List.forall_mem_cons.mpr ⟨trivial, ?_⟩
  refine List.forall_mem_cons.mpr ⟨trivial, ?_⟩
  refine List.forall_mem_cons.mpr ⟨trivial, ?_⟩
  refine List.forall_mem_cons.mpr ⟨fun _ () => List.not_mem_nil, ?_⟩
  refine List.forall_mem_cons.mpr ⟨trivial, ?_⟩
  exact List.forall_mem_singleton.mpr trivial

/-! ### Completion handlers -/

/-- A call of the URB's completion handler. -/
def Event.isHandler (urb : U) : Event U E → Bool
  | .handler other _ => decide (other = urb)
  | _ => false

/-- The URB an event puts on a queue. -/
def Event.linkedItem : Event U E → Option U
  | .linked urb => some urb
  | _ => none

/-- The URB whose submission was accepted. -/
def Event.acceptedItem : Event U E → Option U
  | .submitted urb value => if value = .success then some urb else none
  | _ => none

/-- **Drivers wait for the completion handler**: between two accepted submissions of an
URB its handler was called. -/
def Disciplined (history : List (Event U E)) : Prop :=
  ∀ urb before between after,
    history = before ++ .submitted urb .success ::
      (between ++ .submitted urb .success :: after) →
    ∃ status, .handler urb status ∈ between

omit [DecidableEq U] [DecidableEq E] in
theorem Disciplined.of_append {past events : List (Event U E)}
    (h : Disciplined (past ++ events)) : Disciplined past := by
  intro urb before between after heq
  refine h urb before between (after ++ events) ?_
  rw [heq]
  simp

/-- The last accepted submission has not been answered by a call of the handler. -/
def Awaits (history : List (Event U E)) (urb : U) : Prop :=
  ∃ before between, history = before ++ .submitted urb .success :: between ∧
    ∀ status, .handler urb status ∉ between

omit [DecidableEq U] [DecidableEq E] in
theorem Awaits.append_singleton {history : List (Event U E)} {urb : U} {event : Event U E}
    (h : Awaits history urb) (hevent : ∀ status, event ≠ .handler urb status) :
    Awaits (history ++ [event]) urb := by
  obtain ⟨before, between, rfl, hnot⟩ := h
  refine ⟨before, between ++ [event], by simp, fun status hmem => ?_⟩
  rcases List.mem_append.mp hmem with hmem | hmem
  · exact hnot status hmem
  · exact hevent status (List.mem_singleton.mp hmem).symm

/-- Under the discipline, acceptances and handler calls alternate. -/
theorem Disciplined.count_le {history : List (Event U E)} (h : Disciplined history)
    (urb : U) :
    history.count (.submitted urb .success) ≤ history.countP (Event.isHandler urb) + 1 ∧
      (¬ Awaits history urb →
        history.count (.submitted urb .success) ≤ history.countP (Event.isHandler urb)) := by
  induction history using List.reverseRecOn with
  | nil => simp
  | append_singleton history event ih =>
      obtain ⟨hle, hanswered⟩ := ih h.of_append
      by_cases haccept : event = .submitted urb .success
      · subst haccept
        have hnot : ¬ Awaits history urb := by
          rintro ⟨before, between, rfl, hnot⟩
          obtain ⟨status, hmem⟩ := h urb before between [] (by simp)
          exact hnot status hmem
        have hbefore := hanswered hnot
        have hawaits : Awaits (history ++ [.submitted urb .success]) urb :=
          ⟨history, [], rfl, by simp⟩
        refine ⟨?_, fun hno => absurd hawaits hno⟩
        simp [Event.isHandler]
        omega
      · by_cases hhandler : ∃ status, event = .handler urb status
        · obtain ⟨status, rfl⟩ := hhandler
          simp [Event.isHandler]
          omega
        · have hother : Event.isHandler urb event = false := by
            cases event with
            | handler other status =>
                exact decide_eq_false fun heq => hhandler ⟨status, by rw [heq]⟩
            | _ => rfl
          have hcount : [event].count (.submitted urb .success) = 0 :=
            List.count_eq_zero_of_not_mem (by simpa using Ne.symm haccept)
          rw [List.count_append, List.countP_append, hcount, List.countP_singleton, hother]
          refine ⟨hle, fun hno => hanswered fun hawaits => hno ?_⟩
          exact hawaits.append_singleton fun status heq => hhandler ⟨status, heq⟩

section Handlers

variable {device : Device U E} {state next : State U E T} {ledgers : E → Ledger U}
  {action : Action U E T} {events : List (Event U E)}

omit [DecidableEq E] in
theorem countP_isHandler_of_quiet (urb : U) (hquiet : ∀ event ∈ events, event.Quiet) :
    events.countP (Event.isHandler urb) = 0 := by
  rw [List.countP_eq_zero]
  intro event hmem
  have hevent := hquiet event hmem
  cases event <;> first | exact hevent.elim | exact Bool.false_ne_true

omit [DecidableEq E] in
theorem countP_isHandler_completion (hcomplete : ∀ urb, device.complete urb = true)
    (urb other : U) (status : Code) :
    (device.completion other status).countP (Event.isHandler urb) =
      if other = urb then 1 else 0 := by
  rw [Device.completion, if_pos (hcomplete other), List.countP_singleton]
  simp [Event.isHandler]

/-- How often a request for the URB was finished or dropped. -/
def retirements (device : Device U E) (urb : U) (events : List (Event U E)) : ℕ :=
  match device.findHostEndpoint urb with
  | none => 0
  | some uhe => (endpointOps device uhe events).count (.finish urb) +
      (endpointOps device uhe events).count (.drop urb)

theorem retirements_eq_zero {urb : U}
    (h : ∀ uhe, .finish urb ∉ endpointOps device uhe events ∧
      .drop urb ∉ endpointOps device uhe events) : retirements device urb events = 0 := by
  rw [retirements]
  cases device.findHostEndpoint urb with
  | none => rfl
  | some uhe =>
      show _ + _ = 0
      rw [List.count_eq_zero_of_not_mem (h uhe).1, List.count_eq_zero_of_not_mem (h uhe).2]

/-- Giving back an URB is one such move, on the URB's own endpoint. -/
theorem retirements_eq {here : E} {other : U} {op : Ledger.Op U} (urb : U)
    (howner : device.findHostEndpoint other = some here)
    (hop : op = .finish other ∨ op = .drop other)
    (h : ∀ uhe, endpointOps device uhe events = if here = uhe then [op] else []) :
    retirements device urb events = if other = urb then 1 else 0 := by
  by_cases hurb : other = urb
  · subst hurb
    rw [retirements, howner, if_pos rfl]
    show _ + _ = 1
    rw [h here, if_pos rfl]
    rcases hop with rfl | rfl <;> simp
  · rw [if_neg hurb]
    refine retirements_eq_zero fun uhe => ?_
    rw [h uhe]
    by_cases hhere : here = uhe <;> rcases hop with rfl | rfl <;>
      simp [hhere, Ne.symm hurb]

omit [DecidableEq T] in
/-- **A completion handler is called exactly when a request for its URB is finished or
dropped.** -/
theorem UsbInv.countP_isHandler (h : UsbInv device state ledgers)
    (hcomplete : ∀ urb, device.complete urb = true)
    (houtcome : Outcome device state action next events) (urb : U) :
    events.countP (Event.isHandler urb) = retirements device urb events := by
  cases houtcome with
  | quiet hcall hlist hpriv hquiet =>
      rw [countP_isHandler_of_quiet urb hquiet, retirements_eq_zero]
      intro uhe
      simp [endpointOps_quiet device uhe hquiet]
  | decline other opens value =>
      rw [retirements_eq_zero]
      · rfl
      · simp [endpointOps, Event.op]
  | again here other opens hcall haccepts howner hqueued hlist hpriv hquiet =>
      rw [List.countP_cons_of_neg (by simp [Event.isHandler]),
        countP_isHandler_of_quiet urb hquiet, retirements_eq_zero]
      intro uhe
      simp [endpointOps_cons, endpointOps_quiet device uhe hquiet, Event.op]
  | link here other opens hcall haccepts howner hfresh hlist hpriv hquiet =>
      rw [List.countP_cons_of_neg (by simp [Event.isHandler]),
        List.countP_cons_of_neg (by simp [Event.isHandler]),
        countP_isHandler_of_quiet urb hquiet, retirements_eq_zero]
      intro uhe
      rw [endpointOps_link device uhe howner hquiet]
      by_cases hhere : here = uhe <;> simp [hhere]
  | withdraw hcall here other removed event status hevent hremove hlist hpriv hquiet =>
      have howner : device.findHostEndpoint other = some here := by
        refine (h.endpoints here).owner_of_queued ?_
        by_contra hnot
        rw [Option.not_isSome_iff_eq_none] at hnot
        simp [TailQueue.remove, hnot] at hremove
      rw [retirements_eq urb howner (Or.inr rfl)
        fun uhe => endpointOps_withdraw device uhe hevent hquiet]
      have hother : Event.isHandler urb event = false := by
        rcases hevent with ⟨rfl, -⟩ | ⟨index, rfl⟩ <;> rfl
      rw [List.countP_append, countP_isHandler_of_quiet urb hquiet,
        List.countP_cons_of_neg (by simp [hother]),
        countP_isHandler_completion hcomplete, add_zero]
  | start hcall here index other removed hfirst hremove hlist hfree hpriv =>
      rw [retirements_eq_zero]
      · rfl
      · intro uhe
        rw [endpointOps_start]
        by_cases hhere : here = uhe <;> simp [hhere]
  | finish hcall here index status other code hlist hheld hpriv =>
      have howner : device.findHostEndpoint other = some here := by
        exact (h.endpoints here).owner_of_inFlight (State.mem_inFlight.mpr ⟨index, hheld⟩)
      rw [retirements_eq urb howner (Or.inl rfl)
        fun uhe => endpointOps_finish device uhe here index status other code,
        List.countP_cons_of_neg (by simp [Event.isHandler]),
        countP_isHandler_completion hcomplete]

theorem retirements_append (device : Device U E) (urb : U)
    (past events : List (Event U E)) :
    retirements device urb (past ++ events) =
      retirements device urb past + retirements device urb events := by
  unfold retirements
  cases device.findHostEndpoint urb with
  | none => rfl
  | some uhe =>
      simp only [endpointOps_append, List.count_append]
      omega

theorem count_linked (urb : U) (history : List (Event U E)) :
    history.count (.linked urb) = (history.filterMap Event.linkedItem).count urb := by
  rw [List.count]
  refine (Ledger.count_filterMap (fun event => ?_) history).symm
  cases event <;> simp [Event.linkedItem]

theorem count_accepted (urb : U) (history : List (Event U E)) :
    history.count (.submitted urb .success) =
      (history.filterMap Event.acceptedItem).count urb := by
  rw [List.count]
  refine (Ledger.count_filterMap (fun event => ?_) history).symm
  cases event with
  | submitted other value => by_cases hvalue : value = .success <;>
      simp [Event.acceptedItem, hvalue]
  | _ => simp [Event.acceptedItem]

/-- Where an URB is linked it is retired later, or outstanding. -/
theorem count_linked_eq {history : List (Event U E)} {uhe : E} {ledger : Ledger U} {urb : U}
    (howner : device.findHostEndpoint urb = some uhe)
    (hreplay : Ledger.replay (endpointOps device uhe history) = some ledger) :
    history.count (.linked urb) =
      retirements device urb history + ledger.countOutstanding urb := by
  have hcount := Ledger.count_outstanding_replayFrom hreplay urb
  rw [count_issue howner] at hcount
  rw [retirements, howner]
  exact hcount

/-- What a run leaves behind. -/
structure Account (device : Device U E) (state : State U E T) (history : List (Event U E))
    (ledgers : E → Ledger U) : Prop where
  replay : ∀ uhe, Ledger.replay (endpointOps device uhe history) = some (ledgers uhe)
  inv : UsbInv device state ledgers
  /-- Handlers are called for the requests that are retired. -/
  handlers : ∀ urb, history.countP (Event.isHandler urb) = retirements device urb history
  /-- Only URBs with an endpoint are linked. -/
  owned : ∀ urb ∈ history.filterMap Event.linkedItem,
    (device.findHostEndpoint urb).isSome = true
  /-- If drivers wait for the handlers, what is accepted is linked. -/
  linked : Disciplined history →
    history.filterMap Event.linkedItem = history.filterMap Event.acceptedItem

omit [DecidableEq U] [DecidableEq E] in
/-- Calls of other functions neither link nor accept. -/
theorem filterMap_of_not_ofSubmit (h : ∀ event ∈ events, ¬ event.OfSubmit) :
    events.filterMap Event.linkedItem = [] ∧ events.filterMap Event.acceptedItem = [] := by
  rw [List.filterMap_eq_nil_iff, List.filterMap_eq_nil_iff]
  constructor
  · intro event hmem
    have hevent := h event hmem
    cases event <;> first | rfl | exact absurd trivial hevent
  · intro event hmem
    have hevent := h event hmem
    cases event <;> first | rfl | exact absurd trivial hevent

omit [DecidableEq T] in
theorem Outcome.owned (h : Outcome device state action next events) :
    ∀ urb ∈ events.filterMap Event.linkedItem,
      (device.findHostEndpoint urb).isSome = true := by
  by_cases hcall : action.NotSubmit
  · rw [(filterMap_of_not_ofSubmit (h.not_ofSubmit hcall)).1]
    simp
  · cases h with
    | quiet hnot => exact absurd hnot hcall
    | withdraw hnot => exact absurd hnot hcall
    | start hnot => exact absurd hnot hcall
    | finish hnot => exact absurd hnot hcall
    | decline => simp [Event.linkedItem]
    | again uhe urb opens heq haccepts howner hqueued hlist hpriv hquiet =>
        have hrest := (filterMap_of_not_ofSubmit (not_ofSubmit_of_quiet hquiet)).1
        simp [List.filterMap_cons, Event.linkedItem, hrest]
    | link uhe urb opens heq haccepts howner hfresh hlist hpriv hquiet =>
        have hrest := (filterMap_of_not_ofSubmit (not_ofSubmit_of_quiet hquiet)).1
        simp [List.filterMap_cons, Event.linkedItem, hrest, howner]

omit [DecidableEq T] in
/-- Drivers that wait for the handler do not submit an URB that is on the queue. -/
theorem Account.not_disciplined_again {history rest : List (Event U E)} {uhe : E} {urb : U}
    (h : Account device state history ledgers)
    (howner : device.findHostEndpoint urb = some uhe)
    (hqueued : ((state.bsdUrbList uhe).prev urb).isSome = true)
    (hquiet : ∀ event ∈ rest, event.Quiet) :
    ¬ Disciplined (history ++ .submitted urb .success :: rest) := by
  intro hdisciplined
  have hle := (hdisciplined.count_le urb).1
  have haccepted : history.count (.submitted urb .success) = history.count (.linked urb) := by
    rw [count_accepted, count_linked, h.linked hdisciplined.of_append]
  have hlinked := count_linked_eq howner (h.replay uhe)
  have hwaiting := (h.inv.endpoints uhe).countItem_waiting urb
  rw [if_pos hqueued] at hwaiting
  have hnone : (.submitted urb .success :: rest).countP (Event.isHandler urb) = 0 := by
    rw [List.countP_cons_of_neg (by simp [Event.isHandler]),
      countP_isHandler_of_quiet urb hquiet]
  rw [List.count_append, List.count_cons_self, List.countP_append, hnone, haccepted, hlinked,
    h.handlers urb, Ledger.countOutstanding, hwaiting] at hle
  omega

omit [DecidableEq T] in
/-- Under the discipline a step links what it accepts. -/
theorem Account.linked_eq_accepted {history : List (Event U E)}
    (h : Account device state history ledgers)
    (houtcome : Outcome device state action next events)
    (hdisciplined : Disciplined (history ++ events)) :
    events.filterMap Event.linkedItem = events.filterMap Event.acceptedItem := by
  by_cases hcall : action.NotSubmit
  · obtain ⟨hlinked, haccepted⟩ := filterMap_of_not_ofSubmit (houtcome.not_ofSubmit hcall)
    rw [hlinked, haccepted]
  · cases houtcome with
    | quiet hnot => exact absurd hnot hcall
    | withdraw hnot => exact absurd hnot hcall
    | start hnot => exact absurd hnot hcall
    | finish hnot => exact absurd hnot hcall
    | decline urb opens value heq hvalue =>
        simp [Event.linkedItem, Event.acceptedItem, hvalue]
    | again uhe urb opens heq haccepts howner hqueued hlist hpriv hquiet =>
        exact absurd hdisciplined (h.not_disciplined_again howner hqueued hquiet)
    | link uhe urb opens heq haccepts howner hfresh hlist hpriv hquiet =>
        obtain ⟨hlinked, haccepted⟩ :=
          filterMap_of_not_ofSubmit (not_ofSubmit_of_quiet hquiet)
        simp [List.filterMap_cons, Event.linkedItem, Event.acceptedItem, hlinked, haccepted]

theorem Account.step {history : List (Event U E)} (h : Account device state history ledgers)
    (hcomplete : ∀ urb, device.complete urb = true)
    (hstep : (usbMachine device).step state action = some (next, events)) :
    ∃ after, Account device next (history ++ events) after := by
  obtain ⟨after, hreplay, hnext⟩ := h.inv.step hstep
  obtain ⟨houtcome, -⟩ := Outcome.of_step h.inv.xfers hstep
  refine ⟨after, ?_, hnext, ?_, ?_, ?_⟩
  · intro uhe
    rw [endpointOps_append]
    exact Ledger.replay_append (h.replay uhe) (hreplay uhe)
  · intro urb
    rw [List.countP_append, retirements_append, h.handlers urb,
      h.inv.countP_isHandler hcomplete houtcome urb]
  · intro urb hmem
    rw [List.filterMap_append, List.mem_append] at hmem
    exact hmem.elim (h.owned urb) (houtcome.owned urb)
  · intro hdisciplined
    rw [List.filterMap_append, List.filterMap_append, h.linked hdisciplined.of_append,
      h.linked_eq_accepted houtcome hdisciplined]

/-- **Every run of drivers with completion handlers has an account.** -/
theorem run_account {schedule : List (Action U E T)} {history : List (Event U E)}
    (hcomplete : ∀ urb, device.complete urb = true)
    (hrun : (usbMachine device).run .init schedule = some (state, history)) :
    ∃ ledgers, Account device state history ledgers := by
  have hstart : ∃ ledgers, Account device (State.init : State U E T) [] ledgers := by
    refine ⟨fun _ => .empty, fun _ => rfl, .init, fun urb => ?_, by simp, fun _ => rfl⟩
    rw [retirements_eq_zero (fun _ => by simp [endpointOps])]
    rfl
  have key := (usbMachine device).run_invariant
    (P := fun state past => ∃ ledgers, Account device state past ledgers)
    (fun {state past action next events} hpast hnext => by
      obtain ⟨ledgers, h⟩ := hpast
      exact h.step hcomplete hnext)
    hstart hrun
  simpa using key

/-- The URB is on the queue of its endpoint, or one of the endpoint's transfers works on
it. -/
def State.busy (state : State U E T) (device : Device U E) (urb : U) : Bool :=
  match device.findHostEndpoint urb with
  | none => false
  | some uhe => ((state.bsdUrbList uhe).prev urb).isSome || state.holds uhe 0 urb ||
      state.holds uhe 1 urb

omit [DecidableEq E] [DecidableEq T] in
theorem EndpointInv.busy_iff {uhe : E} {ledger : Ledger U} {urb : U}
    (h : EndpointInv device state uhe ledger)
    (howner : device.findHostEndpoint urb = some uhe) :
    state.busy device urb = true ↔ 0 < ledger.countOutstanding urb := by
  have hflight : (state.holds uhe 0 urb = true ∨ state.holds uhe 1 urb = true) ↔
      0 < (state.inFlight uhe).count urb := by
    rw [List.count_pos_iff, State.mem_inFlight, Fin.exists_fin_two, State.holds_iff,
      State.holds_iff]
  rw [State.busy, howner, Ledger.countOutstanding, h.countItem_active, h.countItem_waiting]
  simp only [Bool.or_eq_true, or_assoc, hflight]
  by_cases hqueued : ((state.bsdUrbList uhe).prev urb).isSome = true <;> simp [hqueued]

/-! ### Order -/

/-- The URB that was handed to the hardware on the endpoint. -/
def Event.handedItem (uhe : E) : Event U E → Option U
  | .trSubmit other _ urb => if other = uhe then some urb else none
  | _ => none

/-- The URB that left the queue of the endpoint without being handed to the hardware:
it was unlinked, or it is too big for the transfer. -/
def Event.withdrawnItem (device : Device U E) (uhe : E) : Event U E → Option U
  | .unlinked urb => if device.findHostEndpoint urb = some uhe then some urb else none
  | .refused other _ urb => if other = uhe then some urb else none
  | _ => none

omit [DecidableEq U] in
theorem Event.op_bind_issueItem (device : Device U E) (uhe : E) (event : Event U E) :
    (event.op device uhe).bind Ledger.Op.issueItem =
      event.linkedItem.filter fun urb => device.findHostEndpoint urb = some uhe := by
  cases event <;> simp only [Event.op, Event.linkedItem] <;> try rfl
  all_goals split_ifs <;> simp_all [Ledger.Op.issueItem, Option.filter]

omit [DecidableEq U] in
theorem Event.op_bind_startItem (device : Device U E) (uhe : E) (event : Event U E) :
    (event.op device uhe).bind Ledger.Op.startItem = event.handedItem uhe := by
  cases event <;> simp only [Event.op, Event.handedItem] <;> try rfl
  all_goals split_ifs <;> rfl

omit [DecidableEq U] in
theorem Event.op_bind_dropItem (device : Device U E) (uhe : E) (event : Event U E) :
    (event.op device uhe).bind Ledger.Op.dropItem = event.withdrawnItem device uhe := by
  cases event <;> simp only [Event.op, Event.withdrawnItem] <;> try rfl
  all_goals split_ifs <;> rfl

end Handlers

/-- **Completion handlers and order.**  Take a run in which every URB has a completion
handler and drivers wait for it before they submit the URB again.  Then

* the handler of an URB was called once for every accepted submission, except for the
  last one if the URB is still queued or in flight;
* number the accepted submissions of an endpoint.  What was handed to the hardware,
  followed by what is still on the queue, is what was accepted without what was
  withdrawn (unlinked while queued, or given back with `-EFBIG`), **in that order**. -/
theorem handler_accounting {device : Device U E} {schedule : List (Action U E T)}
    {state : State U E T} {history : List (Event U E)}
    (hcomplete : ∀ urb, device.complete urb = true)
    (hrun : (usbMachine device).run .init schedule = some (state, history))
    (hdisciplined : Disciplined history) :
    (∀ urb, (history.countP (Event.isHandler urb) : ℤ) =
      history.count (.submitted urb .success) - if state.busy device urb then 1 else 0) ∧
    ∀ uhe, ∃ ledger : Ledger U,
      Ledger.replay (endpointOps device uhe history) = some ledger ∧
      ledger.issued.map Ticket.item = (history.filterMap Event.acceptedItem).filter
        (fun urb => device.findHostEndpoint urb = some uhe) ∧
      ledger.issued.map Ticket.number = List.range ledger.issued.length ∧
      ledger.started.map Ticket.item = history.filterMap (Event.handedItem uhe) ∧
      ledger.dropped.map Ticket.item = history.filterMap (Event.withdrawnItem device uhe) ∧
      (state.bsdUrbList uhe).Represents (ledger.waiting.map Ticket.item) ∧
      ledger.started ++ ledger.waiting =
        ledger.issued.filter fun ticket => ticket ∉ ledger.dropped := by
  obtain ⟨ledgers, haccount⟩ := run_account hcomplete hrun
  have hlinked := haccount.linked hdisciplined
  refine ⟨fun urb => ?_, fun uhe => ?_⟩
  · have hhandlers := haccount.handlers urb
    have haccepted : history.count (.submitted urb .success) =
        history.count (.linked urb) := by rw [count_accepted, count_linked, hlinked]
    cases howner : device.findHostEndpoint urb with
    | none =>
        have hnone : history.count (.linked urb) = 0 := by
          rw [count_linked]
          refine List.count_eq_zero_of_not_mem fun hmem => ?_
          simpa [howner] using haccount.owned urb hmem
        simp [hhandlers, haccepted, hnone, retirements, State.busy, howner]
    | some uhe =>
        have hcount := count_linked_eq howner (haccount.replay uhe)
        have hle := (hdisciplined.count_le urb).1
        have hbusy := (haccount.inv.endpoints uhe).busy_iff howner
        by_cases hstate : state.busy device urb = true
        · have hpos := hbusy.mp hstate
          rw [if_pos hstate]
          omega
        · have hzero : ¬ 0 < (ledgers uhe).countOutstanding urb := fun hpos =>
            hstate (hbusy.mpr hpos)
          rw [if_neg hstate]
          omega
  · have hreplay := haccount.replay uhe
    have hbalanced := Ledger.balanced_of_replay hreplay
    obtain ⟨hissued, hstarted, hdropped⟩ := Ledger.items_replayFrom hreplay
    refine ⟨ledgers uhe, hreplay, ?_, hbalanced.numbered, ?_, ?_,
      (haccount.inv.endpoints uhe).links, hbalanced.fifo⟩
    · rw [hissued, ← hlinked, List.filter_filterMap, endpointOps, List.filterMap_filterMap]
      simp [Ledger.empty, Event.op_bind_issueItem]
    · rw [hstarted, endpointOps, List.filterMap_filterMap]
      simp [Ledger.empty, Event.op_bind_startItem]
    · rw [hdropped, endpointOps, List.filterMap_filterMap]
      simp [Ledger.empty, Event.op_bind_dropItem]

/-- A bulk endpoint with two URBs. -/
def pairDevice : Device Bool Unit where
  findHostEndpoint := fun _ => some ()
  complete := fun _ => true
  xferType := fun _ => .bulk
  maxTotalLength := fun _ => 4096
  maxFrames := fun _ => 1

/-- The first URB completes, and its handler submits it again, behind the second one,
which is then unlinked. -/
def pairSchedule : List (Action Bool Unit Unit) :=
  [.submitUrb true true, .callback () 0 .start ⟨0, fun _ => 0⟩, .trSetup () 0,
    .submitUrb false true, .callback () 0 .completed ⟨0, fun _ => 0⟩, .submitUrb true true,
    .unlinkUrb false, .handlerReturn () 0, .trSetup () 0]

def pairHistory : List (Event Bool Unit) :=
  [.linked true, .submitted true .success, .trStart () 0, .trStart () 1,
    .trSubmit () 0 true, .trStart () 1,
    .linked false, .submitted false .success, .trStart () 0, .trStart () 1,
    .terminal () 0 .completed true, .handler true .success,
    .linked true, .submitted true .success,
    .unlinked false, .handler false .econnreset, .unlinkReturned false .success,
    .trSubmit () 0 true, .trStart () 1]

theorem disciplined_pairHistory : Disciplined pairHistory := by
  intro urb before between after heq
  simp [pairHistory, List.cons_eq_append_iff] at heq
  obtain ⟨_, -, ⟨-, rfl, h⟩ | ⟨_, -, ⟨-, rfl, h⟩ | ⟨-, rfl, h⟩⟩⟩ := heq
  · simp [List.append_eq_cons_iff, List.cons_eq_append_iff] at h
    obtain ⟨rfl, -⟩ := h
    exact ⟨.success, by simp⟩
  · simp [List.append_eq_cons_iff, List.cons_eq_append_iff] at h
  · simp [List.append_eq_cons_iff, List.cons_eq_append_iff] at h

theorem handler_accounting_pair :
    ∃ state, (usbMachine pairDevice).run .init pairSchedule = some (state, pairHistory) ∧
      (pairHistory.countP (Event.isHandler true) : ℤ) =
        pairHistory.count (.submitted true .success) -
          if state.busy pairDevice true then 1 else 0 := by
  have hrun := Machine.run_eq_after (usbMachine pairDevice)
    (rfl : ((usbMachine pairDevice).run .init pairSchedule).isSome = true)
    (rfl : _ = some pairHistory)
  exact ⟨_, hrun, (handler_accounting (fun _ => rfl) hrun disciplined_pairHistory).1 true⟩

end Webcamd.Kernel.Usb
