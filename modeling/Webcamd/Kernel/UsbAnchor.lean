import Webcamd.Kernel.UsbKill

/-!
# Anchors, and a loop that waits for nobody

A driver that has many URBs under way *anchors* them: `usb_anchor_urb` takes a reference and
puts the URB on the anchor's list, `usb_unanchor_urb` takes it off and drops the reference.
`usb_kill_anchored_urbs` is to kill them all: while the list is not empty it takes the last
URB, kills it, and looks at the list again.

* `AnchorState`, `anchorMachine` — the anchor, the references, and the threads in the loop,
  on top of the machine of `usb_kill_urb`.
* `anchorMachine_step` — nothing on the way of an URB to its completion takes it off the
  list: only the driver's own calls do.
* `kill_anchored_iff` — so the loop can only end if the list was empty when it began, and
  then it ends at its first look.
-/

namespace Webcamd.Kernel.Usb

open Webcamd.Library

variable {U E T : Type} [DecidableEq U] [DecidableEq E] [DecidableEq T]

/-! ### The machine -/

/-- Where a thread is in `usb_kill_anchored_urbs`. -/
inductive AnchorPc (U : Type) where
  | idle
  /-- At `while (!list_empty(&anchor->urb_list))`. -/
  | head
  /-- It holds a reference to the URB and is about to kill it. -/
  | chosen (urb : U)
  /-- In `usb_kill_urb`. -/
  | killing (urb : U)
  deriving DecidableEq

structure AnchorState (U E T : Type) where
  kill : KillState U E T
  /-- `anchor->urb_list` -/
  urbList : List U
  /-- The reference count of every URB -/
  kref : U → ℤ
  loops : T → AnchorPc U

inductive AnchorAction (U E T : Type) where
  /-- A move of the transfer path, or of a thread in `usb_kill_urb`. -/
  | kill (action : KillAction U E T)
  | anchorUrb (urb : U)
  | unanchorUrb (urb : U)
  /-- A thread calls `usb_kill_anchored_urbs`. -/
  | killAnchoredUrbs (thread : T)
  /-- It looks at the list. -/
  | look (thread : T)
  /-- It calls `usb_kill_urb`. -/
  | killChosen (thread : T)
  /-- It returns from there and drops its reference. -/
  | putUrb (thread : T)

inductive AnchorEvent (U E T : Type) where
  | kill (event : KillEvent U E T)
  /-- `usb_kill_anchored_urbs` returns. -/
  | returned (thread : T)
  deriving DecidableEq

namespace AnchorState

def init : AnchorState U E T where
  kill := .init
  urbList := []
  kref := fun _ => 1
  loops := fun _ => .idle

/-- `usb_get_urb` with 1 and `usb_put_urb` with -1. -/
def count (state : AnchorState U E T) (urb : U) (value : ℤ) : AnchorState U E T :=
  { state with kref := Function.update state.kref urb (state.kref urb + value) }

def setLoop (state : AnchorState U E T) (thread : T) (pc : AnchorPc U) : AnchorState U E T :=
  { state with loops := Function.update state.loops thread pc }

/-- `usb_anchor_urb`, for an URB that is not anchored. -/
def anchorUrb (state : AnchorState U E T) (urb : U) : Option (AnchorState U E T) :=
  if urb ∈ state.urbList then none
  else some { state.count urb 1 with urbList := state.urbList ++ [urb] }

/-- `usb_unanchor_urb` -/
def unanchorUrb (state : AnchorState U E T) (urb : U) : AnchorState U E T :=
  if urb ∈ state.urbList then
    { state.count urb (-1) with urbList := state.urbList.erase urb }
  else state

/-- `usb_kill_anchored_urbs`, at the head of its loop: it returns, or takes
`anchor->urb_list.prev`. -/
def look (state : AnchorState U E T) (thread : T) : AnchorState U E T × List (AnchorEvent U E T) :=
  match state.urbList.getLast? with
  | none => (state.setLoop thread .idle, [.returned thread])
  | some urb => ((state.count urb 1).setLoop thread (.chosen urb), [])

/-- A thread that is in the loop calls `usb_kill_urb` only from there. -/
def mayKill (state : AnchorState U E T) : KillAction U E T → Bool
  | .killUrb thread _ => decide (state.loops thread = .idle)
  | _ => true

end AnchorState

/-- **The machine.** -/
def anchorMachine (device : Device U E) :
    Machine (AnchorState U E T) (AnchorAction U E T) (AnchorEvent U E T) where
  step state
    | .kill action =>
        if state.mayKill action then
          ((killMachine device).step state.kill action).map fun next =>
            ({ state with kill := next.1 }, next.2.map .kill)
        else none
    | .anchorUrb urb => (state.anchorUrb urb).map fun next => (next, [])
    | .unanchorUrb urb => some (state.unanchorUrb urb, [])
    | .killAnchoredUrbs thread =>
        if state.loops thread = .idle ∧ state.kill.calls thread = .idle then
          some (state.setLoop thread .head, [])
        else none
    | .look thread => if state.loops thread = .head then some (state.look thread) else none
    | .killChosen thread => match state.loops thread with
        | .chosen urb =>
            ((killMachine device).step state.kill (.killUrb thread urb)).map fun next =>
              ({ state with kill := next.1 }.setLoop thread (.killing urb), next.2.map .kill)
        | _ => none
    | .putUrb thread => match state.loops thread with
        | .killing urb =>
            if state.kill.calls thread = .idle then
              some ((state.count urb (-1)).setLoop thread .head, [])
            else none
        | _ => none

/-- The driver calls `usb_anchor_urb` or `usb_unanchor_urb`. -/
def AnchorAction.TouchesAnchor : AnchorAction U E T → Prop
  | .anchorUrb _ | .unanchorUrb _ => True
  | _ => False

/-! ### The list and the loop -/

section Loop

variable {device : Device U E} {state next : AnchorState U E T} {action : AnchorAction U E T}
  {events : List (AnchorEvent U E T)}

/-- Nothing but the driver's own calls changes the list, and only a look at an empty list
ends the loop. -/
theorem anchorMachine_step (htouches : ¬ action.TouchesAnchor)
    (hstep : (anchorMachine device).step state action = some (next, events)) :
    next.urbList = state.urbList ∧
      ∀ thread, .returned thread ∈ events → action = .look thread ∧ state.urbList = [] := by
  cases action with
  | kill action =>
      simp only [anchorMachine] at hstep
      split at hstep
      · obtain ⟨⟨after, produced⟩, -, heq⟩ := Option.map_eq_some_iff.mp hstep
        obtain ⟨rfl, rfl⟩ := Prod.mk.inj heq
        exact ⟨rfl, by simp⟩
      · cases hstep
  | anchorUrb urb => exact absurd trivial htouches
  | unanchorUrb urb => exact absurd trivial htouches
  | killAnchoredUrbs thread =>
      simp only [anchorMachine] at hstep
      split at hstep
      · obtain ⟨rfl, rfl⟩ := Prod.mk.inj (Option.some.inj hstep)
        exact ⟨rfl, nofun⟩
      · cases hstep
  | look thread =>
      simp only [anchorMachine] at hstep
      split at hstep
      · rw [AnchorState.look] at hstep
        split at hstep
        · rename_i hlast
          obtain ⟨rfl, rfl⟩ := Prod.mk.inj (Option.some.inj hstep)
          refine ⟨rfl, fun other hmem => ?_⟩
          obtain rfl := AnchorEvent.returned.inj (List.mem_singleton.mp hmem)
          exact ⟨rfl, List.getLast?_eq_none_iff.mp hlast⟩
        · obtain ⟨rfl, rfl⟩ := Prod.mk.inj (Option.some.inj hstep)
          exact ⟨rfl, nofun⟩
      · cases hstep
  | killChosen thread =>
      simp only [anchorMachine] at hstep
      split at hstep
      · obtain ⟨⟨after, produced⟩, -, heq⟩ := Option.map_eq_some_iff.mp hstep
        obtain ⟨rfl, rfl⟩ := Prod.mk.inj heq
        exact ⟨rfl, by simp⟩
      · cases hstep
  | putUrb thread =>
      simp only [anchorMachine] at hstep
      split at hstep
      · split at hstep
        · obtain ⟨rfl, rfl⟩ := Prod.mk.inj (Option.some.inj hstep)
          exact ⟨rfl, nofun⟩
        · cases hstep
      · cases hstep

/-- **As long as the driver leaves the anchor alone, its list does not change**, and no
loop over a list that is not empty ends. -/
theorem anchorMachine_run {schedule : List (AnchorAction U E T)}
    {last : AnchorState U E T} {history : List (AnchorEvent U E T)}
    (htouches : ∀ action ∈ schedule, ¬ action.TouchesAnchor)
    (hrun : (anchorMachine device).run state schedule = some (last, history)) :
    last.urbList = state.urbList ∧
      ∀ thread, .returned thread ∈ history → state.urbList = [] := by
  induction schedule generalizing state history with
  | nil =>
      obtain ⟨rfl, rfl⟩ := Prod.mk.inj (Option.some.inj hrun)
      exact ⟨rfl, nofun⟩
  | cons action rest ih =>
      obtain ⟨next, events, tail, hfirst, hrest, rfl⟩ :=
        (anchorMachine device).run_cons_eq_some hrun
      rw [List.forall_mem_cons] at htouches
      obtain ⟨hlist, hreturned⟩ := anchorMachine_step htouches.1 hfirst
      obtain ⟨hlast, hlater⟩ := ih htouches.2 hrest
      refine ⟨hlast.trans hlist, fun thread hmem => ?_⟩
      rcases List.mem_append.mp hmem with hmem | hmem
      · exact (hreturned thread hmem).2
      · exact hlist ▸ hlater thread hmem

/-- A thread at the head of the loop stays there until it looks at the list. -/
theorem anchorMachine_head {thread : T} (hhead : state.loops thread = .head)
    (hlook : action ≠ .look thread)
    (hstep : (anchorMachine device).step state action = some (next, events)) :
    next.loops thread = .head := by
  have hsetLoop : ∀ {other : T} {pc pc' : AnchorPc U} {before : AnchorState U E T},
      before.loops = state.loops → state.loops other = pc → pc ≠ .head →
      (before.setLoop other pc').loops thread = .head := by
    intro other pc pc' before hloops hother hpc
    have hne : thread ≠ other := by
      rintro rfl
      exact hpc (hother.symm.trans hhead)
    simp [AnchorState.setLoop, hne, hloops, hhead]
  cases action with
  | kill action =>
      simp only [anchorMachine] at hstep
      split at hstep
      · obtain ⟨⟨after, produced⟩, -, heq⟩ := Option.map_eq_some_iff.mp hstep
        obtain ⟨rfl, -⟩ := Prod.mk.inj heq
        exact hhead
      · cases hstep
  | anchorUrb urb =>
      obtain ⟨after, hanchor, heq⟩ := Option.map_eq_some_iff.mp hstep
      obtain ⟨rfl, -⟩ := Prod.mk.inj heq
      rw [AnchorState.anchorUrb] at hanchor
      split at hanchor
      · cases hanchor
      · obtain rfl := Option.some.inj hanchor
        exact hhead
  | unanchorUrb urb =>
      obtain ⟨rfl, -⟩ := Prod.mk.inj (Option.some.inj hstep)
      rw [AnchorState.unanchorUrb]
      split <;> exact hhead
  | killAnchoredUrbs other =>
      simp only [anchorMachine] at hstep
      split at hstep
      · rename_i hidle
        obtain ⟨rfl, -⟩ := Prod.mk.inj (Option.some.inj hstep)
        exact hsetLoop rfl hidle.1 nofun
      · cases hstep
  | look other =>
      simp only [anchorMachine] at hstep
      split at hstep
      · have hne : thread ≠ other := fun heq => hlook (heq ▸ rfl)
        rw [AnchorState.look] at hstep
        split at hstep
        · obtain ⟨rfl, -⟩ := Prod.mk.inj (Option.some.inj hstep)
          simpa [AnchorState.setLoop, hne] using hhead
        · obtain ⟨rfl, -⟩ := Prod.mk.inj (Option.some.inj hstep)
          simpa [AnchorState.setLoop, AnchorState.count, hne] using hhead
      · cases hstep
  | killChosen other =>
      simp only [anchorMachine] at hstep
      split at hstep
      · rename_i urb hchosen
        obtain ⟨⟨after, produced⟩, -, heq⟩ := Option.map_eq_some_iff.mp hstep
        obtain ⟨rfl, -⟩ := Prod.mk.inj heq
        exact hsetLoop rfl hchosen nofun
      · cases hstep
  | putUrb other =>
      simp only [anchorMachine] at hstep
      split at hstep
      · rename_i urb hkilling
        split at hstep
        · obtain ⟨rfl, -⟩ := Prod.mk.inj (Option.some.inj hstep)
          exact hsetLoop rfl hkilling nofun
        · cases hstep
      · cases hstep

/-- The first look at an empty list ends the loop. -/
theorem anchorMachine_look (hempty : state.urbList = []) {thread : T}
    (hhead : state.loops thread = .head) :
    (anchorMachine device).step state (.look thread) =
      some (state.setLoop thread .idle, [.returned thread]) := by
  simp [anchorMachine, hhead, AnchorState.look, hempty]

theorem anchorMachine_run_empty {schedule : List (AnchorAction U E T)}
    {last : AnchorState U E T} {history : List (AnchorEvent U E T)} {thread : T}
    (hempty : state.urbList = []) (hhead : state.loops thread = .head)
    (htouches : ∀ action ∈ schedule, ¬ action.TouchesAnchor)
    (hrun : (anchorMachine device).run state schedule = some (last, history))
    (hlook : .look thread ∈ schedule) : .returned thread ∈ history := by
  induction schedule generalizing state history with
  | nil => cases hlook
  | cons action rest ih =>
      obtain ⟨next, events, tail, hfirst, hrest, rfl⟩ :=
        (anchorMachine device).run_cons_eq_some hrun
      rw [List.forall_mem_cons] at htouches
      by_cases hnow : action = .look thread
      · subst hnow
        rw [anchorMachine_look hempty hhead] at hfirst
        obtain ⟨-, rfl⟩ := Prod.mk.inj (Option.some.inj hfirst)
        simp
      · have hlater : .look thread ∈ rest :=
          (List.mem_cons.mp hlook).resolve_left fun heq => hnow heq.symm
        refine List.mem_append_right _ (ih ?_ (anchorMachine_head hhead hnow hfirst)
          htouches.2 hrest hlater)
        rw [(anchorMachine_step htouches.1 hfirst).1, hempty]

/-- `usb_kill_anchored_urbs`, called by the thread in this state, can return with the list
empty and with one reference dropped for every URB that was on it. -/
def ReturnsEmpty (device : Device U E) (state : AnchorState U E T) (thread : T) : Prop :=
  ∃ rest last events, (∀ action ∈ rest, ¬ action.TouchesAnchor) ∧
    (anchorMachine device).run state (.killAnchoredUrbs thread :: rest) = some (last, events) ∧
    .returned thread ∈ events ∧ last.urbList = [] ∧
    ∀ urb, last.kref urb = state.kref urb - state.urbList.count urb

/-- A loop over a list that is not empty never ends. -/
theorem not_returnsEmpty (hlist : state.urbList ≠ []) (thread : T) :
    ¬ ReturnsEmpty device state thread := by
  rintro ⟨rest, last, events, htouches, hrun, hreturned, -⟩
  have hall : ∀ action ∈ .killAnchoredUrbs thread :: rest, ¬ action.TouchesAnchor :=
    List.forall_mem_cons.mpr ⟨id, htouches⟩
  exact hlist ((anchorMachine_run hall hrun).2 thread hreturned)

/-- **`usb_kill_anchored_urbs`** can return with an empty list and the references dropped
exactly if the list is empty when it is called, whatever the URBs on it are doing; and then
it returns as soon as it looks at the list.  The state may be any, reachable or not. -/
theorem kill_anchored_iff {thread : T}
    (hidle : state.loops thread = .idle ∧ state.kill.calls thread = .idle) :
    (ReturnsEmpty device state thread ↔ state.urbList = []) ∧
      (state.urbList = [] → ∀ rest last events, (∀ action ∈ rest, ¬ action.TouchesAnchor) →
        (anchorMachine device).run state (.killAnchoredUrbs thread :: rest) =
          some (last, events) → .look thread ∈ rest → .returned thread ∈ events) := by
  have hcall : (anchorMachine device).step state (.killAnchoredUrbs thread) =
      some (state.setLoop thread .head, []) := by
    simp [anchorMachine, hidle]
  have hhead : (state.setLoop thread .head).loops thread = .head := by
    simp [AnchorState.setLoop]
  refine ⟨⟨fun hreturns => ?_, fun hempty => ?_⟩, ?_⟩
  · by_contra hlist
    exact not_returnsEmpty hlist thread hreturns
  · have hstill : (state.setLoop thread .head).urbList = [] := hempty
    have hlook : (anchorMachine device).step (state.setLoop thread .head) (.look thread) =
        some (_, [.returned thread]) := anchorMachine_look hstill hhead
    refine ⟨[.look thread], (state.setLoop thread .head).setLoop thread .idle,
      [.returned thread], List.forall_mem_singleton.mpr id, ?_, List.mem_singleton_self _,
      hempty, fun urb => ?_⟩
    · rw [Machine.run_cons, hcall, Option.bind_some, Machine.run_cons, hlook]
      rfl
    · rw [hempty, List.count_nil, Nat.cast_zero, sub_zero]
      rfl
  · intro hempty rest last events htouches hrun hlook
    obtain ⟨next, early, tail, hfirst, hrest, rfl⟩ :=
      (anchorMachine device).run_cons_eq_some hrun
    rw [hcall] at hfirst
    obtain ⟨rfl, rfl⟩ := Prod.mk.inj (Option.some.inj hfirst)
    have hstill : (state.setLoop thread .head).urbList = [] := hempty
    exact anchorMachine_run_empty hstill hhead htouches hrest hlook

end Loop

/-- The driver anchors an URB and takes it off the anchor again. -/
def releasedSchedule : List (AnchorAction Unit Unit Unit) := [.anchorUrb (), .unanchorUrb ()]

theorem kill_anchored_iff_released : ∃ state history,
    (anchorMachine bulkDevice).run .init releasedSchedule = some (state, history) ∧
      ReturnsEmpty bulkDevice state () := by
  have hrun := Machine.run_eq_after (anchorMachine bulkDevice)
    (rfl : ((anchorMachine bulkDevice).run .init releasedSchedule).isSome = true)
    rfl
  exact ⟨_, _, hrun, (kill_anchored_iff ⟨rfl, rfl⟩).1.mpr rfl⟩

/-- One anchored URB that was never submitted: `usb_kill_urb` finds nothing to do, and after
it the loop is where it was before, with the same list. -/
theorem kill_anchored_loops : ∃ state history last events,
    (anchorMachine bulkDevice).run (.init : AnchorState Unit Unit Unit) [.anchorUrb ()] =
        some (state, history) ∧
      state.urbList = [()] ∧ ¬ ReturnsEmpty bulkDevice state () ∧
      (anchorMachine bulkDevice).run state [.killAnchoredUrbs (), .look (), .killChosen (),
        .kill (.killPoll ()), .kill (.killPoll ()), .putUrb ()] = some (last, events) ∧
      last.loops () = .head ∧ last.urbList = [()] ∧ last.kref () = state.kref () := by
  have hrun := Machine.run_eq_after (anchorMachine bulkDevice)
    (rfl : ((anchorMachine bulkDevice).run (.init : AnchorState Unit Unit Unit)
      [.anchorUrb ()]).isSome = true)
    rfl
  exact ⟨_, _, _, _, hrun, rfl, not_returnsEmpty (by decide) (), rfl, rfl, rfl, rfl⟩

end Webcamd.Kernel.Usb
