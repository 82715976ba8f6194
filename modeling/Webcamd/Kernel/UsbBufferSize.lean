import Webcamd.Kernel.UsbPresence
import Webcamd.Kernel.UsbTermination

/-!
# The size of an endpoint's transfers

`usb_submit_urb` sets an endpoint up when its first URB comes, and the length of that URB
decides how big its transfers are.  Later URBs are measured against that size, which stays as
it is.

* `Sizing` — what else decides the size: the module's parameter, the speed of the device, and
  `libusb20`.
* `sizedMachine` — the machine of `Webcamd.Kernel.Usb` with the size of the transfers in its
  state.
* `Treats` — some run submits an URB of this length first and treats one of that length so.
* `bulk_handling_iff` — an URB is handed over exactly when it fits into transfers opened for
  the first one, so the order of two URBs makes a difference exactly when one of them lies
  between the two sizes.
-/

namespace Webcamd.Kernel.Usb

open Webcamd.Library

variable {U E T : Type} [DecidableEq U] [DecidableEq E] [DecidableEq T]

/-- What the size of the transfers depends on, besides the first URB. -/
structure Sizing (E : Type) where
  /-- `min_bufsize` -/
  minBufsize : ℤ
  /-- `libusb20_dev_get_speed` -/
  speed : Speed
  /-- `libusb20_tr_get_max_total_length` of transfers that were opened with this buffer size -/
  maxTotalLength : E → ℤ → ℕ

/-- The buffer size `usb_setup_endpoint` opens the transfers with. -/
def Sizing.bufsize (sizing : Sizing E) (type : XferType) (transferBufferLength : ℕ) : ℤ :=
  match type with
  | .control => 65536 + 8
  | .isoc => 0
  | .bulk | .int =>
      setupBufsize sizing.minBufsize sizing.speed type (BitVec.ofNat 32 transferBufferLength)

/-- The state of the machine, with `libusb20_tr_get_max_total_length` of both transfers of
every endpoint that is set up. -/
structure Sized (U E T : Type) where
  usb : State U E T
  maxTotalLength : E → ℕ

/-- The endpoint that a submission sets up, and its URB. -/
def State.opening (device : Device U E) (state : State U E T) : Action U E T → Option (E × U)
  | .submitUrb urb true =>
      match device.findHostEndpoint urb with
      | none => none
      | some uhe =>
          if (state.urbs urb).reject = 0 ∧ state.opened uhe = false then some (uhe, urb) else none
  | _ => none

/-- The length of the biggest transfer that an endpoint set up for this length can do. -/
def Sizing.limit (sizing : Sizing E) (device : Device U E) (uhe : E) (length : ℕ) : ℕ :=
  sizing.maxTotalLength uhe (sizing.bufsize (device.xferType uhe) length)

/-- The sizes after the part of the action that sets up an endpoint. -/
def Sized.setUp (device : Device U E) (sizing : Sizing E) (sized : Sized U E T)
    (action : Action U E T) : E → ℕ :=
  match sized.usb.opening device action with
  | none => sized.maxTotalLength
  | some (uhe, urb) => Function.update sized.maxTotalLength uhe
      (sizing.limit device uhe (sized.usb.urbs urb).transferBufferLength)

/-- **The machine**; `maxTotalLength` of the device is of no account. -/
def sizedMachine (device : Device U E) (sizing : Sizing E) :
    Machine (Sized U E T) (Action U E T) (Event U E) where
  step sized action :=
    let maxTotalLength := sized.setUp device sizing action
    ((usbMachine { device with maxTotalLength := maxTotalLength }).step sized.usb action).map
      fun next => (⟨next.1, maxTotalLength⟩, next.2)

/-- No endpoint is set up; what there is in place of a size does not matter. -/
def Sized.init (maxTotalLength : E → ℕ) : Sized U E T := ⟨.init, maxTotalLength⟩

/-! ### What becomes of an URB -/

/-- What a round at `tr_setup` does with the URB that it takes. -/
inductive Handling where
  /-- It goes to the hardware. -/
  | handedOver
  /-- It is given back with `-EFBIG`. -/
  | tooBig
  deriving DecidableEq

/-- The events of the round. -/
def Handling.events (device : Device U E) (uhe : E) (index : Fin 2) (urb : U) :
    Handling → List (Event U E)
  | .handedOver => [.trSubmit uhe index urb, .trStart uhe (1 - index)]
  | .tooBig => .refused uhe index urb :: device.completion urb .efbig

/-- **How a freshly configured endpoint treats an URB**: in some run the submission of `first`,
then of length `firstLength`, sets the endpoint up, and a later round takes `urb`, then of length
`length`, and does this with it. -/
def Treats (T : Type) [DecidableEq T] (device : Device U E) (sizing : Sizing E) (uhe : E)
    (first : U) (firstLength : ℕ) (urb : U) (length : ℕ) (handling : Handling) : Prop :=
  ∃ (before after : List (Action U E T)) (fresh : E → ℕ) (start opened last next : Sized U E T)
    (history early late : List (Event U E)) (index : Fin 2),
    (sizedMachine device sizing).run (.init fresh) before = some (start, history) ∧
    start.usb.opening device (.submitUrb first true) = some (uhe, first) ∧
    (start.usb.urbs first).transferBufferLength = firstLength ∧
    (sizedMachine device sizing).step start (.submitUrb first true) = some (opened, early) ∧
    (sizedMachine device sizing).run opened after = some (last, late) ∧
    (last.usb.bsdUrbList uhe).first = some urb ∧
    (last.usb.urbs urb).transferBufferLength = length ∧
    (sizedMachine device sizing).step last (.trSetup uhe index) =
      some (next, handling.events device uhe index urb)

section Steps

variable {device : Device U E} {sizing : Sizing E} {uhe : E} {index : Fin 2} {urb : U}

omit [DecidableEq U] [DecidableEq E] [DecidableEq T] in
/-- A submission that sets up an endpoint, by its conditions. -/
theorem opening_eq_some {state : State U E T} {action : Action U E T}
    (h : state.opening device action = some (uhe, urb)) :
    action = .submitUrb urb true ∧ device.findHostEndpoint urb = some uhe ∧
      (state.urbs urb).reject = 0 ∧ state.opened uhe = false := by
  cases action with
  | submitUrb other opens =>
      cases opens with
      | false => cases h
      | true =>
          simp only [State.opening] at h
          split at h
          · cases h
          · rename_i here hfind
            split at h
            · rename_i hfresh
              obtain ⟨rfl, rfl⟩ := Prod.mk.inj (Option.some.inj h)
              exact ⟨rfl, hfind, hfresh.1, hfresh.2⟩
            · cases h
  | _ => cases h

omit [DecidableEq T] in
/-- It leaves the endpoint set up. -/
theorem submitUrb_opens {state : State U E T}
    (h : state.opening device (.submitUrb urb true) = some (uhe, urb)) :
    (state.submitUrb device urb true).1.opened uhe = true := by
  obtain ⟨-, hfind, hreject, hclosed⟩ := opening_eq_some h
  have hnot : ¬ state.opened uhe = true := by
    rw [hclosed]
    exact Bool.false_ne_true
  rw [State.submitUrb, if_neg (not_not.mpr hreject), hfind]
  simp only [State.setupEndpoint, if_neg hnot, if_true, State.enqueue, Function.update_self,
    State.linkUrb]
  split
  · exact Function.update_self _ _ _
  · exact Function.update_self _ _ _

/-- **A round at `tr_setup` that takes an URB** does what the length says. -/
theorem trSetup_handling {state next : State U E T} {events : List (Event U E)}
    (hbulk : (device.xferType uhe).callback = usbLinuxBulkIntrCallback)
    (hfirst : (state.bsdUrbList uhe).first = some urb)
    (hstep : (usbMachine device).step state (.trSetup uhe index) = some (next, events)) :
    events = Handling.events device uhe index urb
      (if (state.urbs urb).transferBufferLength ≤ device.maxTotalLength uhe then .handedOver
        else .tooBig) := by
  have hround : state.trSetup device uhe index = some (next, events) := hstep
  rw [State.trSetup] at hround
  split at hround
  · rw [hfirst] at hround
    obtain ⟨removed, -, hround⟩ := Option.bind_eq_some_iff.mp hround
    have htoo := taken_tooBig hbulk state index urb removed
    unfold State.taken at htoo
    simp only [htoo, decide_eq_true_eq] at hround
    by_cases hfits : (state.urbs urb).transferBufferLength ≤ device.maxTotalLength uhe
    · rw [if_neg (Nat.not_lt.mpr hfits)] at hround
      rw [if_pos hfits]
      exact (Prod.mk.inj (Option.some.inj hround)).2.symm
    · rw [if_pos (Nat.lt_of_not_le hfits)] at hround
      rw [if_neg hfits]
      obtain ⟨⟨given, completed⟩, hcomplete, hround⟩ := Option.map_eq_some_iff.mp hround
      obtain ⟨-, rfl⟩ := Prod.mk.inj hround
      simp only [State.usbLinuxComplete, State.setPriv, State.setUrb, State.setXfer,
        Function.update_self] at hcomplete
      rw [Handling.events, Device.completion]
      split at hcomplete
      · rename_i hcalled
        obtain ⟨-, rfl⟩ := Prod.mk.inj (Option.some.inj hcomplete)
        rw [if_pos hcalled]
      · rename_i hcalled
        obtain ⟨-, rfl⟩ := Prod.mk.inj (Option.some.inj hcomplete)
        rw [if_neg hcalled]
  · cases hround

/-- A step of the machine is a step for the sizes that it leaves. -/
theorem sizedMachine_step {sized next : Sized U E T} {action : Action U E T}
    {events : List (Event U E)}
    (h : (sizedMachine device sizing).step sized action = some (next, events)) :
    next.maxTotalLength = sized.setUp device sizing action ∧
      (usbMachine { device with maxTotalLength := next.maxTotalLength }).step sized.usb action =
        some (next.usb, events) := by
  obtain ⟨⟨usb, produced⟩, hstep, heq⟩ := Option.map_eq_some_iff.mp h
  obtain ⟨rfl, rfl⟩ := Prod.mk.inj heq
  exact ⟨rfl, hstep⟩

/-- The endpoint is set up, and its transfers have this size. -/
def Sized.SetUp (uhe : E) (size : ℕ) (sized : Sized U E T) : Prop :=
  sized.usb.opened uhe = true ∧ sized.maxTotalLength uhe = size

omit [DecidableEq U] [DecidableEq T] in
/-- An endpoint that is set up keeps its size. -/
theorem setUp_of_opened {sized : Sized U E T} (action : Action U E T)
    (hopened : sized.usb.opened uhe = true) :
    sized.setUp device sizing action uhe = sized.maxTotalLength uhe := by
  rw [Sized.setUp]
  cases hopening : sized.usb.opening device action with
  | none => rfl
  | some pair =>
      have hne : uhe ≠ pair.1 := by
        rintro rfl
        rw [(opening_eq_some hopening).2.2.2] at hopened
        cases hopened
      exact Function.update_of_ne hne _ _

/-- **A step** keeps the size. -/
theorem Sized.SetUp.step {size : ℕ} {sized next : Sized U E T} {action : Action U E T}
    {events : List (Event U E)} (h : sized.SetUp uhe size)
    (hstep : (sizedMachine device sizing).step sized action = some (next, events)) :
    next.SetUp uhe size := by
  obtain ⟨hsizes, husb⟩ := sizedMachine_step hstep
  refine ⟨State.step_opened husb h.1, ?_⟩
  rw [hsizes, setUp_of_opened action h.1]
  exact h.2

/-- The submission that sets the endpoint up. -/
theorem setUp_submitUrb {sized next : Sized U E T} {events : List (Event U E)}
    (hopening : sized.usb.opening device (.submitUrb urb true) = some (uhe, urb))
    (hstep : (sizedMachine device sizing).step sized (.submitUrb urb true) =
      some (next, events)) :
    next.SetUp uhe (sizing.limit device uhe (sized.usb.urbs urb).transferBufferLength) := by
  obtain ⟨hsizes, husb⟩ := sizedMachine_step hstep
  have hopens := @submitUrb_opens U E T _ _
    { device with maxTotalLength := next.maxTotalLength } uhe urb sized.usb hopening
  constructor
  · rw [Option.some.inj husb] at hopens
    exact hopens
  · rw [hsizes, Sized.setUp, hopening]
    exact Function.update_self _ _ _

end Steps

/-! ### The order of two URBs -/

section Order

variable {device : Device U E} {sizing : Sizing E} {uhe : E} {first urb other : U}
  {firstLength length otherLength : ℕ} {handling handling' : Handling}

/-- **An URB is handed over** exactly when it fits into the transfers that were opened for the
first URB. -/
theorem Treats.handling_eq (hbulk : device.xferType uhe = .bulk)
    (h : Treats T device sizing uhe first firstLength urb length handling) :
    handling = if length ≤ sizing.limit device uhe firstLength then .handedOver else .tooBig := by
  obtain ⟨before, after, fresh, start, opened, last, next, history, early, late, index, -,
    hopening, hfirstLength, hopen, hafter, htaken, hlength, hround⟩ := h
  have hkept : last.SetUp uhe (sizing.limit device uhe firstLength) :=
    ((sizedMachine device sizing).run_states Sized.SetUp.step
      (hfirstLength ▸ setUp_submitUrb hopening hopen) hafter).2
  obtain ⟨hsizes, husb⟩ := sizedMachine_step hround
  have hcallback : (device.xferType uhe).callback = usbLinuxBulkIntrCallback := by
    rw [hbulk]
    rfl
  have hevents := @trSetup_handling U E T _ _ _
    { device with maxTotalLength := next.maxTotalLength } uhe index urb last.usb next.usb _
    hcallback htaken husb
  have hsize : next.maxTotalLength uhe = sizing.limit device uhe firstLength := by
    rw [hsizes, setUp_of_opened _ hkept.1]
    exact hkept.2
  rw [hlength] at hevents
  simp only [hsize] at hevents
  -- the events tell the two outcomes apart
  cases handling with
  | handedOver =>
      split_ifs at hevents ⊢
      · rfl
      · cases hevents
  | tooBig =>
      split_ifs at hevents ⊢
      · cases hevents
      · rfl

/-- **Two runs** that set the endpoint up for different URBs treat an URB alike exactly when it
does not lie between the two sizes. -/
theorem bulk_handling_iff (hbulk : device.xferType uhe = .bulk)
    (h : Treats T device sizing uhe urb length urb length handling)
    (h' : Treats T device sizing uhe other otherLength urb length handling') :
    (handling = .handedOver ↔ length ≤ sizing.limit device uhe length) ∧
      (handling' = .handedOver ↔ length ≤ sizing.limit device uhe otherLength) ∧
      (handling = handling' ↔ (length ≤ sizing.limit device uhe length ↔
        length ≤ sizing.limit device uhe otherLength)) := by
  obtain rfl := h.handling_eq hbulk
  obtain rfl := h'.handling_eq hbulk
  by_cases hown : length ≤ sizing.limit device uhe length <;>
    by_cases hother : length ≤ sizing.limit device uhe otherLength <;>
    simp [hown, hother]

end Order

/-! ### A long URB after a short one -/

/-- Two URBs for a bulk endpoint. -/
def twoUrbDevice : Device Bool Unit where
  findHostEndpoint _ := some ()
  complete _ := true
  xferType _ := .bulk
  maxTotalLength _ := 0
  maxFrames _ := 1

/-- A high-speed device; the transfers are as long as their buffers. -/
def highSpeedSizing : Sizing Unit where
  minBufsize := 0
  speed := .faster
  maxTotalLength _ size := size.toNat

/-- Both URBs are filled in, and none is submitted. -/
def fillBoth : List (Action Bool Unit Unit) :=
  [.fill false (urbOfLength 512), .fill true (urbOfLength 200000)]

/-- The short URB was submitted; the long one follows, and the first transfer takes the short
one. -/
def shortTaken : List (Action Bool Unit Unit) :=
  [.submitUrb true true, .callback () 0 .start ⟨0, fun _ => 0⟩, .trSetup () 0,
    .callback () 1 .start ⟨0, fun _ => 0⟩]

/-- The long URB comes second, and is too big. -/
theorem long_second : Treats Unit twoUrbDevice highSpeedSizing () false 512 true 200000 .tooBig :=
  ⟨fillBoth, shortTaken, fun _ => 0, _, _, _, _, _, _, _, 1, rfl, rfl, rfl, rfl, rfl, rfl, rfl, rfl⟩

/-- The long URB comes first, and is handed over. -/
theorem long_first :
    Treats Unit twoUrbDevice highSpeedSizing () true 200000 true 200000 .handedOver :=
  ⟨fillBoth, [.callback () 0 .start ⟨0, fun _ => 0⟩], fun _ => 0, _, _, _, _, _, _, _, 0, rfl, rfl,
    rfl, rfl, rfl, rfl, rfl, rfl⟩

/-- The long URB lies between the two sizes. -/
theorem bulk_handling_iff_long :
    (Handling.handedOver = Handling.tooBig ↔
      (200000 ≤ highSpeedSizing.limit twoUrbDevice () 200000 ↔
        200000 ≤ highSpeedSizing.limit twoUrbDevice () 512)) :=
  (bulk_handling_iff rfl long_first long_second).2.2

/-- The same URB on the same endpoint, in two orders. -/
theorem bulk_handling_depends_on_order : twoUrbDevice.xferType () = .bulk ∧
    ∃ handling handling',
      Treats Unit twoUrbDevice highSpeedSizing () true 200000 true 200000 handling ∧
      Treats Unit twoUrbDevice highSpeedSizing () false 512 true 200000 handling' ∧
      handling ≠ handling' :=
  ⟨rfl, .handedOver, .tooBig, long_first, long_second, Handling.noConfusion⟩

end Webcamd.Kernel.Usb
