import Mathlib

/-!
# Probing the drivers for a device

`usb_linux_lookup_id` and `usb_linux_probe_p` of `kernel/linux_usb.c`.  The device is found by a
search that goes through its interfaces, and for each interface through the drivers, up to the
first pair that matches.  The driver is probed for the interface.  If its probe fails, the order
is turned around: the driver is tried for the interfaces that follow, and then every driver that
follows it in the list for all interfaces.

* `usbLinuxLookupId` — whether a table of identifiers matches an interface.
* `searchDevices` — the search for the first match.
* `tryInterface`, `tryDriver` — the loops after a failed probe.
* `usbLinuxProbeP` — the function, with the calls of the probe functions in its `Outcome`.
* `Tried`, `Exhausts` — calls in the order of the drivers and then of the interfaces, between
  two places of that order; what the loops do is put together from these.
* `probe_exhaustive_iff` — each pair is probed at most once and only if it matches; and when all
  probes have failed, all pairs that match have been probed if and only if no driver matches that
  comes before the one of the first match.

What the probe functions return is a parameter, and may depend on all calls before.  So are the
results of the functions of the USB library and of the creation of the device.
-/

namespace Webcamd.Kernel.UsbProbe

/-! ### Identifiers -/

/-- `struct usb_device_id` -/
structure UsbDeviceId where
  matchFlags : BitVec 16
  idVendor : BitVec 16
  idProduct : BitVec 16
  bcdDeviceLo : BitVec 16
  bcdDeviceHi : BitVec 16
  bDeviceClass : BitVec 8
  bDeviceSubClass : BitVec 8
  bDeviceProtocol : BitVec 8
  bInterfaceClass : BitVec 8
  bInterfaceSubClass : BitVec 8
  bInterfaceProtocol : BitVec 8
  deriving DecidableEq

/-- `struct LIBUSB20_DEVICE_DESC_DECODED` -/
structure DeviceDesc where
  idVendor : BitVec 16
  idProduct : BitVec 16
  bcdDevice : BitVec 16
  bDeviceClass : BitVec 8
  bDeviceSubClass : BitVec 8
  bDeviceProtocol : BitVec 8
  deriving DecidableEq

/-- `struct LIBUSB20_INTERFACE_DESC_DECODED` -/
structure InterfaceDesc where
  bInterfaceClass : BitVec 8
  bInterfaceSubClass : BitVec 8
  bInterfaceProtocol : BitVec 8
  deriving DecidableEq

/-- `USB_DEVICE_ID_MATCH_VENDOR` and the rest. -/
inductive MatchFlag where
  | vendor
  | product
  | devLo
  | devHi
  | devClass
  | devSubclass
  | devProtocol
  | intClass
  | intSubclass
  | intProtocol
  | intInfo

def MatchFlag.mask : MatchFlag → BitVec 16
  | .vendor => 0x0001
  | .product => 0x0002
  | .devLo => 0x0004
  | .devHi => 0x0008
  | .devClass => 0x0010
  | .devSubclass => 0x0020
  | .devProtocol => 0x0040
  | .intClass => 0x0080
  | .intSubclass => 0x0100
  | .intProtocol => 0x0200
  | .intInfo => 0x0380

/-- `id->match_flags & flag` -/
def UsbDeviceId.has (id : UsbDeviceId) (flag : MatchFlag) : Bool :=
  id.matchFlags &&& flag.mask != 0

/-- An entry of the table is passed over. -/
def UsbDeviceId.skipped (id : UsbDeviceId) (pdd : DeviceDesc) (pid : InterfaceDesc) : Bool :=
  (id.has .vendor && id.idVendor != pdd.idVendor) ||
  (id.has .product && id.idProduct != pdd.idProduct) ||
  (id.has .devLo && pdd.bcdDevice < id.bcdDeviceLo) ||
  (id.has .devHi && id.bcdDeviceHi < pdd.bcdDevice) ||
  (id.has .devClass && id.bDeviceClass != pdd.bDeviceClass) ||
  (id.has .devSubclass && id.bDeviceSubClass != pdd.bDeviceSubClass) ||
  (id.has .devProtocol && id.bDeviceProtocol != pdd.bDeviceProtocol) ||
  (pdd.bDeviceClass == 0xFF && !id.has .vendor && id.has .intInfo) ||
  (id.has .intClass && id.bInterfaceClass != pid.bInterfaceClass) ||
  (id.has .intSubclass && id.bInterfaceSubClass != pid.bInterfaceSubClass) ||
  (id.has .intProtocol && id.bInterfaceProtocol != pid.bInterfaceProtocol)

/-- The loop of `usb_linux_lookup_id`, up to the entry with no flags. -/
def lookupLoop (pdd : DeviceDesc) (pid : InterfaceDesc) : List UsbDeviceId → Option UsbDeviceId
  | [] => none
  | id :: rest =>
      if id.matchFlags = 0 then none
      else if id.skipped pdd pid then lookupLoop pdd pid rest
      else some id

/-- `usb_linux_lookup_id` -/
def usbLinuxLookupId (pdd : DeviceDesc) (pid : InterfaceDesc) (id : Option (List UsbDeviceId)) :
    Option UsbDeviceId :=
  match id with
  | none => none
  | some table => lookupLoop pdd pid table

/-! ### The search -/

/-- `struct usb_driver`; its `probe` is a parameter of the functions that call it. -/
structure UsbDriver where
  name : String
  idTable : Option (List UsbDeviceId)

inductive Speed where
  | low
  | full
  | high
  | super
  deriving DecidableEq

/-- `struct libusb20_device`, with what the functions of the library say about it. -/
structure Device where
  hostMode : Bool
  busNumber : BitVec 8
  address : BitVec 8
  /-- `libusb20_dev_open` succeeds. -/
  opens : Bool
  /-- The interfaces of what `libusb20_dev_alloc_config` returns. -/
  config : Option (List InterfaceDesc)
  desc : DeviceDesc
  speed : Speed

/-- `USB_CLASS_HUB` -/
def usbClassHub : BitVec 8 := 9

/-- `LIST_FOREACH`: the first driver that matches, and its place in the list. -/
def firstDriver (pdd : DeviceDesc) (pid : InterfaceDesc) :
    List UsbDriver → ℕ → Option (ℕ × UsbDeviceId)
  | [], _ => none
  | udrv :: rest, d =>
      match usbLinuxLookupId pdd pid udrv.idTable with
      | some id => some (d, id)
      | none => firstDriver pdd pid rest (d + 1)

/-- How the search in one device ends. -/
inductive Search where
  | found (i d : ℕ) (id : UsbDeviceId)
  /-- At `next_dev`, with what is left of the index. -/
  | nextDev (index : BitVec 8)

/-- The search through the interfaces of a device. -/
def searchInterfaces (drivers : List UsbDriver) (matchBusAddr : Bool) (pdd : DeviceDesc) :
    List InterfaceDesc → ℕ → BitVec 8 → Search
  | [], _, index => .nextDev index
  | pifc :: rest, i, index =>
      if pifc.bInterfaceClass = usbClassHub then
        searchInterfaces drivers matchBusAddr pdd rest (i + 1) index
      else
        match firstDriver pdd pifc drivers 0 with
        | none => searchInterfaces drivers matchBusAddr pdd rest (i + 1) index
        | some (d, id) =>
            if index = 0 then .found i d id
            else if matchBusAddr = false ∧ id.has .intInfo = false then .nextDev (index - 1)
            else searchInterfaces drivers matchBusAddr pdd rest (i + 1) (index - 1)

/-- The first match: a device, an interface and a driver. -/
structure Found where
  pdev : Device
  interfaces : List InterfaceDesc
  i : ℕ
  d : ℕ
  id : UsbDeviceId

/-- The search through the devices. -/
def searchDevices (drivers : List UsbDriver) (matchBusAddr : Bool) (bus addr : BitVec 8) :
    List Device → BitVec 8 → Option Found
  | [], _ => none
  | pdev :: rest, index =>
      if pdev.hostMode = false then searchDevices drivers matchBusAddr bus addr rest index
      else if matchBusAddr = true ∧ (pdev.busNumber ≠ bus ∨ pdev.address ≠ addr) then
        searchDevices drivers matchBusAddr bus addr rest index
      else if pdev.opens = false then searchDevices drivers matchBusAddr bus addr rest index
      else
        match pdev.config with
        | none => searchDevices drivers matchBusAddr bus addr rest index
        | some interfaces =>
            match searchInterfaces drivers matchBusAddr pdev.desc interfaces 0 index with
            | .found i d id => some ⟨pdev, interfaces, i, d, id⟩
            | .nextDev index => searchDevices drivers matchBusAddr bus addr rest index

/-! ### The probes -/

/-- A call of the probe function of driver `d` for interface `i`. -/
structure Call where
  d : ℕ
  i : ℕ
  id : UsbDeviceId
  retval : ℤ
  deriving DecidableEq

/-- What the probe functions return, given the calls made before. -/
abbrev Probe := List Call → ℕ → ℕ → UsbDeviceId → ℤ

/-- The loop at `try_interface` for one driver: the interface it attaches to, if any, and all
calls made so far. -/
def tryInterface (probe : Probe) (pdd : DeviceDesc) (udrv : UsbDriver) (d : ℕ) :
    List InterfaceDesc → ℕ → List Call → Option ℕ × List Call
  | [], _, calls => (none, calls)
  | pifc :: rest, i, calls =>
      if pifc.bInterfaceClass = usbClassHub then
        tryInterface probe pdd udrv d rest (i + 1) calls
      else
        match usbLinuxLookupId pdd pifc udrv.idTable with
        | none => tryInterface probe pdd udrv d rest (i + 1) calls
        | some id =>
            let retval := probe calls d i id
            if retval = 0 then (some i, calls ++ [⟨d, i, id, retval⟩])
            else tryInterface probe pdd udrv d rest (i + 1) (calls ++ [⟨d, i, id, retval⟩])

/-- How the loops end. -/
structure Tries where
  /-- The driver and the interface it attaches to. -/
  attached : Option (ℕ × ℕ)
  /-- `*pp_desc` -/
  desc : String
  calls : List Call

/-- The loop over the drivers, from the one that `udrv` is at. -/
def tryDriver (probe : Probe) (pdd : DeviceDesc) (interfaces : List InterfaceDesc) :
    String → List UsbDriver → ℕ → List InterfaceDesc → ℕ → List Call → Tries
  | desc, [], _, _, _, calls => ⟨none, desc, calls⟩
  | _, udrv :: next, d, remaining, i, calls =>
      match tryInterface probe pdd udrv d remaining i calls with
      | (some i, calls) => ⟨some (d, i), udrv.name, calls⟩
      | (none, calls) =>
          tryDriver probe pdd interfaces udrv.name next (d + 1) interfaces 0 calls

/-- The first probe, and the loops after it. -/
def probeFound (probe : Probe) (drivers : List UsbDriver) (found : Found) : Tries :=
  let desc := ((drivers[found.d]?).map UsbDriver.name).getD ""
  let retval := probe [] found.d found.i found.id
  let calls : List Call := [⟨found.d, found.i, found.id, retval⟩]
  if retval = 0 then ⟨some (found.d, found.i), desc, calls⟩
  else
    tryDriver probe found.pdev.desc found.interfaces desc (drivers.drop found.d) found.d
      (found.interfaces.drop (found.i + 1)) (found.i + 1) calls

/-- How `usb_linux_probe_p` ends. -/
inductive Result where
  /-- `-ENOMEM` -/
  | noMemory
  /-- `-ENXIO`, without a match. -/
  | noMatch
  /-- `exit(1)`, as the program already runs for the device. -/
  | exited
  /-- `-ENXIO`, after a match. -/
  | noDriver
  /-- The index of the slot; the driver is attached to the interface. -/
  | attached (deviceIndex d i : ℕ)
  deriving DecidableEq

/-- `*p_bus`, `*p_addr`, `*p_index` and `*pp_desc`, and the global variables about the device. -/
structure Outputs where
  bus : BitVec 8
  addr : BitVec 8
  index : BitVec 8
  desc : String
  webcamdSpeed : ℕ
  webcamdVendor : BitVec 16
  webcamdProduct : BitVec 16

/-- The result, what is stored if a match was found, and the calls. -/
structure Outcome where
  result : Result
  outputs : Option Outputs
  calls : List Call

/-- What the function finds in place, and what the functions it calls return. -/
structure Environment where
  /-- The drivers in the order of their list. -/
  drivers : List UsbDriver
  /-- Which slots of `uls` are in use. -/
  uls : List Bool
  /-- `libusb20_be_alloc_default` succeeds. -/
  backend : Bool
  devices : List Device
  /-- `pidfile_create` succeeds. -/
  pidfile : Bool
  /-- `usb_linux_create_usb_device` succeeds. -/
  creates : Bool
  probe : Probe

/-- `webcamd_speed` -/
def Speed.mbit : Speed → ℕ
  | .low => 1
  | .full => 12
  | .super => 5000
  | .high => 480

/-- **`usb_linux_probe_p`** -/
def usbLinuxProbeP (env : Environment) (pBus pAddr pIndex : BitVec 32) : Outcome :=
  let bus := pBus.setWidth 8
  let addr := pAddr.setWidth 8
  match env.uls.findIdx? (· = false) with
  | none => ⟨.noMemory, none, []⟩
  | some deviceIndex =>
      let matchBusAddr := addr != 0
      let index := if matchBusAddr then pIndex.setWidth 8 else bus
      if env.backend = false then ⟨.noMatch, none, []⟩
      else
        match searchDevices env.drivers matchBusAddr bus addr env.devices index with
        | none => ⟨.noMatch, none, []⟩
        | some found =>
            let outputs (desc : String) : Outputs :=
              ⟨found.pdev.busNumber, found.pdev.address, index, desc, found.pdev.speed.mbit,
                found.pdev.desc.idVendor, found.pdev.desc.idProduct⟩
            let name := ((env.drivers[found.d]?).map UsbDriver.name).getD ""
            if env.pidfile = false then ⟨.exited, some (outputs name), []⟩
            else if env.creates = false then ⟨.noMemory, some (outputs name), []⟩
            else
              let tries := probeFound env.probe env.drivers found
              match tries.attached with
              | some (d, i) => ⟨.attached deviceIndex d i, some (outputs tries.desc), tries.calls⟩
              | none => ⟨.noDriver, some (outputs tries.desc), tries.calls⟩

/-! ### Matches, and the order of the calls -/

/-- Driver `d` matches interface `i`, by the entry `id` of its table. -/
def Matches (drivers : List UsbDriver) (pdd : DeviceDesc) (interfaces : List InterfaceDesc)
    (d i : ℕ) (id : UsbDeviceId) : Prop :=
  ∃ udrv pifc, drivers[d]? = some udrv ∧ interfaces[i]? = some pifc ∧
    pifc.bInterfaceClass ≠ usbClassHub ∧ usbLinuxLookupId pdd pifc udrv.idTable = some id

/-- A pair, in the order of the drivers and then of the interfaces. -/
abbrev Place := ℕ ×ₗ ℕ

def place (d i : ℕ) : Place := toLex (d, i)

def Call.place (call : Call) : Place := UsbProbe.place call.d call.i

theorem place_le_iff {d i d' i' : ℕ} : place d i ≤ place d' i' ↔ d < d' ∨ d = d' ∧ i ≤ i' :=
  Prod.Lex.le_iff

theorem place_lt_iff {d i d' i' : ℕ} : place d i < place d' i' ↔ d < d' ∨ d = d' ∧ i < i' :=
  Prod.Lex.lt_iff

variable {drivers next : List UsbDriver} {pdd : DeviceDesc}
variable {interfaces remaining : List InterfaceDesc}
variable {start mid stop : Place} {calls new more : List Call} {probe : Probe} {udrv : UsbDriver}
variable {d i : ℕ} {id : UsbDeviceId}

/-- **Calls between two places**: each is of a pair that matches, and their pairs ascend. -/
structure Tried (drivers : List UsbDriver) (pdd : DeviceDesc) (interfaces : List InterfaceDesc)
    (start stop : Place) (new : List Call) : Prop where
  matched : ∀ call ∈ new, Matches drivers pdd interfaces call.d call.i call.id
  between : ∀ call ∈ new, start ≤ call.place ∧ call.place < stop
  ascending : new.Pairwise fun call other => call.place < other.place

/-- **All between two places**: every pair that matches has been probed in vain. -/
def Exhausts (drivers : List UsbDriver) (pdd : DeviceDesc) (interfaces : List InterfaceDesc)
    (start stop : Place) (new : List Call) : Prop :=
  ∀ d i id, Matches drivers pdd interfaces d i id → start ≤ place d i → place d i < stop →
    ∃ call ∈ new, call.d = d ∧ call.i = i ∧ call.retval ≠ 0

theorem Tried.nil : Tried drivers pdd interfaces start stop [] where
  matched _ h := by cases h
  between _ h := by cases h
  ascending := .nil

theorem Tried.single (h : Matches drivers pdd interfaces d i id) (retval : ℤ) :
    Tried drivers pdd interfaces (place d i) (place d (i + 1)) [⟨d, i, id, retval⟩] where
  matched call hcall := by
    obtain rfl := List.mem_singleton.mp hcall
    exact h
  between call hcall := by
    obtain rfl := List.mem_singleton.mp hcall
    exact ⟨le_rfl, place_lt_iff.mpr (.inr ⟨rfl, Nat.lt_succ_self i⟩)⟩
  ascending := List.pairwise_singleton ..

theorem Tried.mono (h : Tried drivers pdd interfaces mid stop new) (hstart : start ≤ mid)
    {last : Place} (hstop : stop ≤ last) : Tried drivers pdd interfaces start last new where
  matched := h.matched
  between call hcall :=
    ⟨hstart.trans (h.between call hcall).1, (h.between call hcall).2.trans_le hstop⟩
  ascending := h.ascending

theorem Tried.append (h : Tried drivers pdd interfaces start mid new)
    (h' : Tried drivers pdd interfaces mid stop more) (hstart : start ≤ mid) (hstop : mid ≤ stop) :
    Tried drivers pdd interfaces start stop (new ++ more) where
  matched call hcall := by
    obtain hcall | hcall := List.mem_append.mp hcall
    · exact h.matched call hcall
    · exact h'.matched call hcall
  between call hcall := by
    obtain hcall | hcall := List.mem_append.mp hcall
    · exact ⟨(h.between call hcall).1, (h.between call hcall).2.trans_le hstop⟩
    · exact ⟨hstart.trans (h'.between call hcall).1, (h'.between call hcall).2⟩
  ascending := List.pairwise_append.mpr ⟨h.ascending, h'.ascending, fun call hcall other hother =>
    (h.between call hcall).2.trans_le (h'.between other hother).1⟩

theorem Tried.nodup (h : Tried drivers pdd interfaces start stop new) :
    (new.map Call.place).Nodup := by
  rw [List.Nodup, List.pairwise_map]
  exact h.ascending.imp fun hlt => hlt.ne

theorem Exhausts.append (h : Exhausts drivers pdd interfaces start mid new)
    (h' : Exhausts drivers pdd interfaces mid stop more) :
    Exhausts drivers pdd interfaces start stop (new ++ more) := by
  intro d i id hmatches hstart hstop
  obtain hlt | hle := lt_or_ge (place d i) mid
  · obtain ⟨call, hcall, hfailed⟩ := h d i id hmatches hstart hlt
    exact ⟨call, List.mem_append_left _ hcall, hfailed⟩
  · obtain ⟨call, hcall, hfailed⟩ := h' d i id hmatches hle hstop
    exact ⟨call, List.mem_append_right _ hcall, hfailed⟩

theorem Exhausts.single {retval : ℤ} (hfailed : retval ≠ 0) :
    Exhausts drivers pdd interfaces (place d i) (place d (i + 1)) [⟨d, i, id, retval⟩] := by
  intro d' i' id' hmatches hstart hstop
  rw [place_le_iff] at hstart
  rw [place_lt_iff] at hstop
  obtain ⟨rfl, rfl⟩ : d = d' ∧ i = i' := by omega
  exact ⟨_, List.mem_singleton_self _, rfl, rfl, hfailed⟩

/-- A pair that does not match need not be probed. -/
theorem Exhausts.skip (hnot : ∀ id, ¬ Matches drivers pdd interfaces d i id) :
    Exhausts drivers pdd interfaces (place d i) (place d (i + 1)) [] := by
  intro d' i' id' hmatches hstart hstop
  rw [place_le_iff] at hstart
  rw [place_lt_iff] at hstop
  obtain ⟨rfl, rfl⟩ : d = d' ∧ i = i' := by omega
  exact absurd hmatches (hnot id')

/-- What a loop does: it adds calls, and if it ends in vain, it has exhausted its part of the
order. -/
def Does (drivers : List UsbDriver) (pdd : DeviceDesc) (interfaces : List InterfaceDesc)
    (start stop : Place) (calls after : List Call) (vain : Prop) : Prop :=
  ∃ new, after = calls ++ new ∧ Tried drivers pdd interfaces start stop new ∧
    (vain → Exhausts drivers pdd interfaces start stop new)

theorem Does.nil {vain : Prop} (h : Exhausts drivers pdd interfaces start stop []) :
    Does drivers pdd interfaces start stop calls calls vain :=
  ⟨[], (List.append_nil calls).symm, .nil, fun _ => h⟩

/-- A part that is exhausted, and then the rest. -/
theorem Does.cons {after : List Call} {vain : Prop}
    (htried : Tried drivers pdd interfaces start mid new)
    (hexhausts : Exhausts drivers pdd interfaces start mid new)
    (hrest : Does drivers pdd interfaces mid stop (calls ++ new) after vain)
    (hstart : start ≤ mid) (hstop : mid ≤ stop) :
    Does drivers pdd interfaces start stop calls after vain := by
  obtain ⟨more, rfl, htried', hexhausts'⟩ := hrest
  exact ⟨new ++ more, List.append_assoc .., htried.append htried' hstart hstop,
    fun hvain => hexhausts.append (hexhausts' hvain)⟩

theorem place_le_succ (d i : ℕ) : place d i ≤ place d (i + 1) :=
  place_le_iff.mpr (.inr ⟨rfl, Nat.le_succ i⟩)

theorem place_le_next (d i : ℕ) : place d i ≤ place (d + 1) 0 :=
  place_le_iff.mpr (.inl (Nat.lt_succ_self d))

theorem getElem?_of_drop_eq_cons {α : Type} {list rest : List α} {first : α} {n : ℕ}
    (h : list.drop n = first :: rest) : list[n]? = some first ∧ list.drop (n + 1) = rest := by
  constructor
  · rw [← List.head?_drop, h, List.head?_cons]
  · rw [← List.tail_drop, h, List.tail_cons]

/-- **The loop over the interfaces.** -/
theorem tryInterface_does (hdriver : drivers[d]? = some udrv)
    (hremaining : interfaces.drop i = remaining) :
    Does drivers pdd interfaces (place d i) (place (d + 1) 0) calls
      (tryInterface probe pdd udrv d remaining i calls).2
      ((tryInterface probe pdd udrv d remaining i calls).1 = none) := by
  induction remaining generalizing i calls with
  | nil =>
      refine .nil fun d' i' id' hmatches hstart hstop => ?_
      obtain ⟨-, pifc, -, hiface, -⟩ := hmatches
      rw [place_le_iff] at hstart
      rw [place_lt_iff] at hstop
      have hlt := (List.getElem?_eq_some_iff.mp hiface).1
      have hdone := List.drop_eq_nil_iff.mp hremaining
      omega
  | cons pifc rest ih =>
      obtain ⟨hiface, hrest⟩ := getElem?_of_drop_eq_cons hremaining
      have hcall : ∀ {id'}, Matches drivers pdd interfaces d i id' →
          pifc.bInterfaceClass ≠ usbClassHub ∧
            usbLinuxLookupId pdd pifc udrv.idTable = some id' := by
        rintro id' ⟨udrv', pifc', hdriver', hiface', hhub, hlookup⟩
        obtain rfl := Option.some.inj (hdriver.symm.trans hdriver')
        obtain rfl := Option.some.inj (hiface.symm.trans hiface')
        exact ⟨hhub, hlookup⟩
      -- a pair that is passed over
      have hskip : (∀ id', ¬ Matches drivers pdd interfaces d i id') →
          Does drivers pdd interfaces (place d i) (place (d + 1) 0) calls
            (tryInterface probe pdd udrv d rest (i + 1) calls).2
            ((tryInterface probe pdd udrv d rest (i + 1) calls).1 = none) := by
        intro hnot
        refine .cons .nil (.skip hnot) ?_ (place_le_succ d i) (place_le_next d (i + 1))
        rw [List.append_nil]
        exact ih hrest
      unfold tryInterface
      split
      · rename_i hhub
        exact hskip fun id' hmatches => (hcall hmatches).1 hhub
      · rename_i hhub
        split
        · rename_i hnone
          refine hskip fun id' hmatches => ?_
          rw [(hcall hmatches).2] at hnone
          cases hnone
        · rename_i id' hsome
          have hmatches : Matches drivers pdd interfaces d i id' :=
            ⟨udrv, pifc, hdriver, hiface, hhub, hsome⟩
          dsimp only
          split
          · rename_i hzero
            refine ⟨_, rfl, (Tried.single hmatches _).mono le_rfl (place_le_next d (i + 1)), ?_⟩
            intro hvain
            cases hvain
          · rename_i hfailed
            exact .cons (.single hmatches _) (.single hfailed) (ih hrest) (place_le_succ d i)
              (place_le_next d (i + 1))

/-- **The loop over the drivers.** -/
theorem tryDriver_does {desc : String} (hdrivers : drivers.drop d = next)
    (hremaining : interfaces.drop i = remaining) :
    Does drivers pdd interfaces (place d i) (place drivers.length 0) calls
      (tryDriver probe pdd interfaces desc next d remaining i calls).calls
      ((tryDriver probe pdd interfaces desc next d remaining i calls).attached = none) := by
  induction next generalizing d i remaining desc calls with
  | nil =>
      refine .nil fun d' i' id' hmatches hstart hstop => ?_
      rw [place_le_iff] at hstart
      rw [place_lt_iff] at hstop
      have hdone := List.drop_eq_nil_iff.mp hdrivers
      omega
  | cons udrv next ih =>
      obtain ⟨hdriver, hnext⟩ := getElem?_of_drop_eq_cons hdrivers
      have hlt := (List.getElem?_eq_some_iff.mp hdriver).1
      have hstop : place (d + 1) 0 ≤ place drivers.length 0 := by
        rw [place_le_iff]
        omega
      obtain ⟨new, hcalls, htried, hexhausts⟩ :=
        @tryInterface_does drivers pdd interfaces remaining calls probe udrv d i hdriver hremaining
      unfold tryDriver
      split
      · rename_i iface calls' heq
        rw [heq] at hcalls
        obtain rfl : calls' = calls ++ new := hcalls
        exact ⟨new, rfl, htried.mono le_rfl hstop, fun hvain => by cases hvain⟩
      · rename_i calls' heq
        rw [heq] at hcalls hexhausts
        obtain rfl : calls' = calls ++ new := hcalls
        exact .cons htried (hexhausts rfl) (ih hnext rfl) (place_le_next d i) hstop

/-! ### The first match -/

/-- The device is the one with the numbers, it can be opened, and these are its interfaces. -/
structure Selected (bus addr : BitVec 8) (pdev : Device) (interfaces : List InterfaceDesc) :
    Prop where
  hostMode : pdev.hostMode = true
  busNumber : pdev.busNumber = bus
  address : pdev.address = addr
  opens : pdev.opens = true
  config : pdev.config = some interfaces

/-- The device is the first one with the numbers that a driver matches. -/
structure FirstSelected (drivers : List UsbDriver) (devices : List Device) (bus addr : BitVec 8)
    (pdev : Device) (interfaces : List InterfaceDesc) : Prop where
  selected : Selected bus addr pdev interfaces
  matched : ∃ d i id, Matches drivers pdev.desc interfaces d i id
  first : ∃ front back, devices = front ++ pdev :: back ∧
    ∀ other ∈ front, ∀ interfaces', Selected bus addr other interfaces' →
      ∀ d i id, ¬ Matches drivers other.desc interfaces' d i id

/-- The pair is the first one that matches, in the order of the interfaces and then of the
drivers. -/
structure FirstMatch (drivers : List UsbDriver) (pdd : DeviceDesc)
    (interfaces : List InterfaceDesc) (d i : ℕ) : Prop where
  matched : ∃ id, Matches drivers pdd interfaces d i id
  first : ∀ d' i' id', Matches drivers pdd interfaces d' i' id' → i < i' ∨ i = i' ∧ d ≤ d'

theorem FirstMatch.unique {d' i' : ℕ} (h : FirstMatch drivers pdd interfaces d i)
    (h' : FirstMatch drivers pdd interfaces d' i') : d = d' ∧ i = i' := by
  obtain ⟨id, hmatched⟩ := h.matched
  obtain ⟨id', hmatched'⟩ := h'.matched
  have hle := h.first d' i' id' hmatched'
  have hge := h'.first d i id hmatched
  omega

theorem firstDriver_spec {pid : InterfaceDesc} (hnext : drivers.drop d = next) :
    match firstDriver pdd pid next d with
    | some (found, id) => d ≤ found ∧
        (∃ udrv, drivers[found]? = some udrv ∧
          usbLinuxLookupId pdd pid udrv.idTable = some id) ∧
        ∀ other udrv, d ≤ other → other < found → drivers[other]? = some udrv →
          usbLinuxLookupId pdd pid udrv.idTable = none
    | none => ∀ other udrv, d ≤ other → drivers[other]? = some udrv →
        usbLinuxLookupId pdd pid udrv.idTable = none := by
  induction next generalizing d with
  | nil =>
      intro other udrv hle hother
      have hlt := (List.getElem?_eq_some_iff.mp hother).1
      have hdone := List.drop_eq_nil_iff.mp hnext
      omega
  | cons udrv rest ih =>
      obtain ⟨hdriver, hrest⟩ := getElem?_of_drop_eq_cons hnext
      unfold firstDriver
      cases hlookup : usbLinuxLookupId pdd pid udrv.idTable with
      | some id =>
          exact ⟨le_rfl, ⟨udrv, hdriver, hlookup⟩, fun other _ hle hlt => by omega⟩
      | none =>
          have hlater := ih hrest
          have hhere : ∀ {other udrv'}, d ≤ other → drivers[other]? = some udrv' →
              (d + 1 ≤ other → usbLinuxLookupId pdd pid udrv'.idTable = none) →
              usbLinuxLookupId pdd pid udrv'.idTable = none := by
            intro other udrv' hle hother hafter
            obtain rfl | hlt := hle.eq_or_lt
            · obtain rfl := Option.some.inj (hdriver.symm.trans hother)
              exact hlookup
            · exact hafter hlt
          dsimp only
          cases hfound : firstDriver pdd pid rest (d + 1) with
          | some found =>
              rw [hfound] at hlater
              obtain ⟨hle, hmatches, hfirst⟩ := hlater
              exact ⟨by omega, hmatches, fun other udrv' hother hlt hdriver' =>
                hhere hother hdriver' fun hafter => hfirst other udrv' hafter hlt hdriver'⟩
          | none =>
              rw [hfound] at hlater
              exact fun other udrv' hother hdriver' =>
                hhere hother hdriver' fun hafter => hlater other udrv' hafter hdriver'

/-- The search through the interfaces from the `i`-th one finds the first match there, or there
is none and the index is still 0. -/
def Search.Finds (drivers : List UsbDriver) (pdd : DeviceDesc) (interfaces : List InterfaceDesc)
    (i : ℕ) : Search → Prop
  | .found i' d' id' => Matches drivers pdd interfaces d' i' id' ∧
      ∀ d'' i'' id'', Matches drivers pdd interfaces d'' i'' id'' → i ≤ i'' →
        i' < i'' ∨ i' = i'' ∧ d' ≤ d''
  | .nextDev index => index = 0 ∧
      ∀ d'' i'' id'', i ≤ i'' → ¬ Matches drivers pdd interfaces d'' i'' id''

/-- An interface that no driver matches. -/
theorem Search.Finds.skip {search : Search}
    (hnot : ∀ d' id', ¬ Matches drivers pdd interfaces d' i id')
    (h : search.Finds drivers pdd interfaces (i + 1)) : search.Finds drivers pdd interfaces i := by
  have hne : ∀ {d'' i'' id''}, Matches drivers pdd interfaces d'' i'' id'' → i ≤ i'' →
      i + 1 ≤ i'' := by
    intro d'' i'' id'' hmatches hle
    obtain rfl | hlt := hle.eq_or_lt
    · exact absurd hmatches (hnot d'' id'')
    · exact hlt
  cases search with
  | found i' d' id' =>
      exact ⟨h.1, fun d'' i'' id'' hmatches hle => h.2 d'' i'' id'' hmatches (hne hmatches hle)⟩
  | nextDev index =>
      exact ⟨h.1, fun d'' i'' id'' hle hmatches => h.2 d'' i'' id'' (hne hmatches hle) hmatches⟩

theorem searchInterfaces_spec (hremaining : interfaces.drop i = remaining) :
    (searchInterfaces drivers true pdd remaining i 0).Finds drivers pdd interfaces i := by
  induction remaining generalizing i with
  | nil =>
      refine ⟨rfl, ?_⟩
      rintro d'' i'' id'' hle ⟨-, pifc, -, hiface, -⟩
      have hlt := (List.getElem?_eq_some_iff.mp hiface).1
      have hdone := List.drop_eq_nil_iff.mp hremaining
      omega
  | cons pifc rest ih =>
      obtain ⟨hiface, hrest⟩ := getElem?_of_drop_eq_cons hremaining
      have hhere : ∀ {d' id'}, Matches drivers pdd interfaces d' i id' →
          pifc.bInterfaceClass ≠ usbClassHub ∧ ∃ udrv, drivers[d']? = some udrv ∧
            usbLinuxLookupId pdd pifc udrv.idTable = some id' := by
        rintro d' id' ⟨udrv, pifc', hdriver, hiface', hhub, hlookup⟩
        obtain rfl := Option.some.inj (hiface.symm.trans hiface')
        exact ⟨hhub, udrv, hdriver, hlookup⟩
      unfold searchInterfaces
      split
      · rename_i hhub
        exact (ih hrest).skip fun d' id' hmatches => (hhere hmatches).1 hhub
      · rename_i hhub
        have hspec := @firstDriver_spec drivers drivers pdd 0 pifc rfl
        cases hfirst : firstDriver pdd pifc drivers 0 with
        | none =>
            rw [hfirst] at hspec
            refine (ih hrest).skip fun d' id' hmatches => ?_
            obtain ⟨-, udrv, hdriver, hlookup⟩ := hhere hmatches
            rw [hspec d' udrv (Nat.zero_le d') hdriver] at hlookup
            cases hlookup
        | some found =>
            rw [hfirst] at hspec
            obtain ⟨d', id'⟩ := found
            obtain ⟨-, ⟨udrv, hdriver, hlookup⟩, hbefore⟩ := hspec
            simp only [if_true]
            refine ⟨⟨udrv, pifc, hdriver, hiface, hhub, hlookup⟩, ?_⟩
            intro d'' i'' id'' hmatches hle
            obtain rfl | hlt := hle.eq_or_lt
            · refine .inr ⟨rfl, ?_⟩
              by_contra hnot
              obtain ⟨-, udrv', hdriver', hlookup'⟩ := hhere hmatches
              rw [hbefore d'' udrv' (Nat.zero_le d'') (by omega) hdriver'] at hlookup'
              cases hlookup'
            · exact .inl hlt

variable {devices : List Device} {bus addr : BitVec 8} {pdev : Device}

theorem FirstSelected.skip {other : Device}
    (hnot : ∀ interfaces', Selected bus addr other interfaces' →
      ∀ d i id, ¬ Matches drivers other.desc interfaces' d i id)
    (h : FirstSelected drivers devices bus addr pdev interfaces) :
    FirstSelected drivers (other :: devices) bus addr pdev interfaces := by
  refine ⟨h.selected, h.matched, ?_⟩
  obtain ⟨front, back, rfl, hfront⟩ := h.first
  refine ⟨other :: front, back, rfl, ?_⟩
  rw [List.forall_mem_cons]
  exact ⟨hnot, hfront⟩

/-- The search through the devices finds the first match of the first device that has one. -/
def FindsDevice (drivers : List UsbDriver) (devices : List Device) (bus addr : BitVec 8) :
    Option Found → Prop
  | some found => FirstSelected drivers devices bus addr found.pdev found.interfaces ∧
      FirstMatch drivers found.pdev.desc found.interfaces found.d found.i ∧
      Matches drivers found.pdev.desc found.interfaces found.d found.i found.id
  | none => ∀ pdev ∈ devices, ∀ interfaces, Selected bus addr pdev interfaces →
      ∀ d i id, ¬ Matches drivers pdev.desc interfaces d i id

/-- A device that is passed over. -/
theorem FindsDevice.skip {search : Option Found}
    (hnot : ∀ interfaces', Selected bus addr pdev interfaces' →
      ∀ d i id, ¬ Matches drivers pdev.desc interfaces' d i id)
    (h : FindsDevice drivers devices bus addr search) :
    FindsDevice drivers (pdev :: devices) bus addr search := by
  cases search with
  | some found => exact ⟨h.1.skip hnot, h.2⟩
  | none => exact List.forall_mem_cons.mpr ⟨hnot, h⟩

theorem searchDevices_spec :
    FindsDevice drivers devices bus addr (searchDevices drivers true bus addr devices 0) := by
  induction devices with
  | nil =>
      intro pdev hmem
      cases hmem
  | cons pdev rest ih =>
      unfold searchDevices
      split
      · rename_i hmode
        exact ih.skip fun _ hselected => absurd hselected.hostMode (by simp [hmode])
      · rename_i hmode
        split
        · rename_i hother
          refine ih.skip fun _ hselected => ?_
          obtain hbus | haddr := hother.2
          · exact absurd hselected.busNumber hbus
          · exact absurd hselected.address haddr
        · rename_i hnumbers
          split
          · rename_i hclosed
            exact ih.skip fun _ hselected => absurd hselected.opens (by simp [hclosed])
          · rename_i hopens
            split
            · rename_i hconfig
              exact ih.skip fun _ hselected =>
                absurd (hconfig.symm.trans hselected.config) (by simp)
            · rename_i interfaces hconfig
              have hselected : Selected bus addr pdev interfaces := by
                refine ⟨by simpa using hmode, ?_, ?_, by simpa using hopens, hconfig⟩
                · by_contra hne
                  exact hnumbers ⟨rfl, .inl hne⟩
                · by_contra hne
                  exact hnumbers ⟨rfl, .inr hne⟩
              have hspec := @searchInterfaces_spec drivers pdev.desc interfaces interfaces 0 rfl
              cases hsearch : searchInterfaces drivers true pdev.desc interfaces 0 0 with
              | found i d id =>
                  rw [hsearch] at hspec
                  obtain ⟨hmatches, hfirst⟩ := hspec
                  refine ⟨⟨hselected, ⟨d, i, id, hmatches⟩, [], rest, rfl, by simp⟩,
                    ⟨⟨id, hmatches⟩, ?_⟩, hmatches⟩
                  exact fun d' i' id' hother => hfirst d' i' id' hother (Nat.zero_le i')
              | nextDev index =>
                  rw [hsearch] at hspec
                  obtain ⟨rfl, hnone⟩ := hspec
                  refine ih.skip fun interfaces' hselected' d i id hmatches => ?_
                  obtain rfl := Option.some.inj (hconfig.symm.trans hselected'.config)
                  exact hnone d i id (Nat.zero_le i) hmatches

theorem FirstSelected.unique {pdev' : Device} {interfaces' : List InterfaceDesc}
    (h : FirstSelected drivers devices bus addr pdev interfaces)
    (h' : FirstSelected drivers devices bus addr pdev' interfaces') :
    pdev = pdev' ∧ interfaces = interfaces' := by
  obtain ⟨front, back, rfl, hfront⟩ := h.first
  obtain ⟨front', back', heq, hfront'⟩ := h'.first
  obtain ⟨d, i, id, hmatches⟩ := h.matched
  obtain ⟨d', i', id', hmatches'⟩ := h'.matched
  have hsame : pdev = pdev' := by
    obtain ⟨between, rfl, hback⟩ | ⟨between, rfl, hback⟩ := List.append_eq_append_iff.mp heq
    · cases between with
      | nil => exact (List.cons.inj hback).1
      | cons first between =>
          obtain ⟨rfl, -⟩ := List.cons.inj hback
          exact absurd hmatches (hfront' pdev (by simp) interfaces h.selected d i id)
    · cases between with
      | nil => exact (List.cons.inj hback).1.symm
      | cons first between =>
          obtain ⟨rfl, -⟩ := List.cons.inj hback
          exact absurd hmatches' (hfront pdev' (by simp) interfaces' h'.selected d' i' id')
  subst hsame
  exact ⟨rfl, Option.some.inj (h.selected.config.symm.trans h'.selected.config)⟩

/-! ### The whole function -/

/-- The first probe and the loops go from the first match to the end of the order. -/
theorem probeFound_does {found : Found}
    (hmatches : Matches drivers found.pdev.desc found.interfaces found.d found.i found.id) :
    Does drivers found.pdev.desc found.interfaces (place found.d found.i)
      (place drivers.length 0) [] (probeFound probe drivers found).calls
      ((probeFound probe drivers found).attached = none) := by
  have hlt : found.d < drivers.length := by
    obtain ⟨udrv, -, hdriver, -⟩ := hmatches
    exact (List.getElem?_eq_some_iff.mp hdriver).1
  have hstop : place found.d (found.i + 1) ≤ place drivers.length 0 := by
    rw [place_le_iff]
    omega
  unfold probeFound
  dsimp only
  split
  · rename_i hzero
    refine ⟨_, rfl, (Tried.single hmatches _).mono le_rfl hstop, fun hvain => ?_⟩
    cases hvain
  · rename_i hfailed
    exact .cons (.single hmatches _) (.single hfailed) (tryDriver_does rfl rfl)
      (place_le_succ found.d found.i) hstop

variable {env : Environment} {pBus pAddr pIndex : BitVec 32}

/-- How a call ends that makes probes. -/
inductive ProbeMove (env : Environment) (bus addr : BitVec 8) : Outcome → Prop where
  | early (outcome : Outcome) (hcalls : outcome.calls = []) (hresult : outcome.result ≠ .noDriver) :
      ProbeMove env bus addr outcome
  | probed (found : Found) (outcome : Outcome)
      (hfirst : FirstSelected env.drivers env.devices bus addr found.pdev found.interfaces)
      (hmatch : FirstMatch env.drivers found.pdev.desc found.interfaces found.d found.i)
      (hdoes : Does env.drivers found.pdev.desc found.interfaces (place found.d found.i)
        (place env.drivers.length 0) [] outcome.calls (outcome.result = .noDriver)) :
      ProbeMove env bus addr outcome

theorem ProbeMove.of_probe (haddr : (pAddr.setWidth 8 : BitVec 8) ≠ 0)
    (hindex : (pIndex.setWidth 8 : BitVec 8) = 0) :
    ProbeMove env (pBus.setWidth 8) (pAddr.setWidth 8) (usbLinuxProbeP env pBus pAddr pIndex) := by
  have hmatchBusAddr : ((pAddr.setWidth 8 : BitVec 8) != 0) = true := bne_iff_ne.mpr haddr
  unfold usbLinuxProbeP
  dsimp only
  split
  · exact .early _ rfl (by simp)
  · split
    · exact .early _ rfl (by simp)
    · rw [hmatchBusAddr, hindex]
      have hspec := @searchDevices_spec env.drivers env.devices (pBus.setWidth 8)
        (pAddr.setWidth 8)
      cases hsearch : searchDevices env.drivers true (pBus.setWidth 8) (pAddr.setWidth 8)
          env.devices 0 with
      | none => exact .early _ rfl (by simp)
      | some found =>
          rw [hsearch] at hspec
          obtain ⟨hfirst, hmatch, hmatches⟩ := hspec
          have hdoes := @probeFound_does env.drivers env.probe found hmatches
          dsimp only
          split
          · exact .early _ rfl (by simp)
          · split
            · exact .early _ rfl (by simp)
            · split
              · rename_i hattached
                rw [hattached] at hdoes
                refine .probed found _ hfirst hmatch ?_
                obtain ⟨new, hcalls, htried, -⟩ := hdoes
                exact ⟨new, hcalls, htried, fun hvain => by cases hvain⟩
              · rename_i hattached
                rw [hattached] at hdoes
                refine .probed found _ hfirst hmatch ?_
                obtain ⟨new, hcalls, htried, hexhausts⟩ := hdoes
                exact ⟨new, hcalls, htried, fun _ => hexhausts rfl⟩

/-- **Which pairs are probed.**  For all drivers and devices, whatever the probe functions return,
and a device given by its bus and address and the index 0: no pair of a driver and an interface is
probed twice; only pairs of the device that match are probed, and not on a hub; and when the
function gives up after a match, every pair that matches has been probed in vain if and only if no
driver that matches comes before the driver of the first match. -/
theorem probe_exhaustive_iff (env : Environment) (pBus : BitVec 32)
    (haddr : (pAddr.setWidth 8 : BitVec 8) ≠ 0)
    (hindex : (pIndex.setWidth 8 : BitVec 8) = 0) :
    ((usbLinuxProbeP env pBus pAddr pIndex).calls.map Call.place).Nodup ∧
    (∀ call ∈ (usbLinuxProbeP env pBus pAddr pIndex).calls, ∃ pdev interfaces,
      FirstSelected env.drivers env.devices (pBus.setWidth 8) (pAddr.setWidth 8) pdev interfaces ∧
      Matches env.drivers pdev.desc interfaces call.d call.i call.id) ∧
    ∀ pdev interfaces,
      FirstSelected env.drivers env.devices (pBus.setWidth 8) (pAddr.setWidth 8) pdev interfaces →
      (usbLinuxProbeP env pBus pAddr pIndex).result = .noDriver →
      ((∀ d i id, Matches env.drivers pdev.desc interfaces d i id →
          ∃ call ∈ (usbLinuxProbeP env pBus pAddr pIndex).calls,
            call.d = d ∧ call.i = i ∧ call.retval ≠ 0) ↔
        ∀ d i d' i' id', FirstMatch env.drivers pdev.desc interfaces d i →
          Matches env.drivers pdev.desc interfaces d' i' id' → d ≤ d') := by
  have hmove := @ProbeMove.of_probe env pBus pAddr pIndex haddr hindex
  generalize usbLinuxProbeP env pBus pAddr pIndex = outcome at hmove
  cases hmove with
  | early _ hcalls hresult =>
      rw [hcalls]
      exact ⟨List.nodup_nil, by simp, fun _ _ _ h => absurd h hresult⟩
  | probed found _ hfirst hmatch hdoes =>
      obtain ⟨new, hcalls, htried, hexhausts⟩ := hdoes
      rw [List.nil_append] at hcalls
      rw [hcalls]
      refine ⟨htried.nodup, fun call hcall => ⟨_, _, hfirst, htried.matched call hcall⟩, ?_⟩
      intro pdev interfaces hfirst' hvain
      obtain ⟨rfl, rfl⟩ := hfirst.unique hfirst'
      constructor
      · intro hall d i d' i' id' hmatch' hmatches'
        obtain ⟨rfl, rfl⟩ := hmatch.unique hmatch'
        obtain ⟨call, hcall, rfl, rfl, -⟩ := hall d' i' id' hmatches'
        have hafter := (htried.between call hcall).1
        rw [Call.place, place_le_iff] at hafter
        omega
      · intro hnone d i id hmatches
        refine hexhausts hvain d i id hmatches ?_ ?_
        · have hdriver := hnone _ _ d i id hmatch hmatches
          have hiface := hmatch.first d i id hmatches
          rw [place_le_iff]
          omega
        · obtain ⟨udrv, -, hdriver, -⟩ := hmatches
          exact place_lt_iff.mpr (.inl (List.getElem?_eq_some_iff.mp hdriver).1)

/-- Two drivers by the class of the interface: the first is for class 14, the second for 1. -/
def classId (bInterfaceClass : BitVec 8) : UsbDeviceId :=
  ⟨0x0080, 0, 0, 0, 0, 0, 0, 0, bInterfaceClass, 0, 0⟩

/-- An audio interface, and then a video interface; all probes fail. -/
def audioVideo (drivers : List UsbDriver) : Environment where
  drivers := drivers
  uls := [false]
  backend := true
  devices := [{
    hostMode := true
    busNumber := 1
    address := 2
    opens := true
    config := some [⟨1, 1, 0⟩, ⟨14, 1, 0⟩]
    desc := ⟨0x046d, 0x0825, 0, 0, 0, 0⟩
    speed := .high }]
  pidfile := true
  creates := true
  probe := fun _ _ _ _ => -19

/-- The driver for audio is the first to match, for the first interface, and comes second in the
list: the driver for video is never probed for the second interface. -/
theorem probe_exhaustive_misses :
    let env := audioVideo [⟨"uvcvideo", some [classId 14]⟩, ⟨"audio", some [classId 1]⟩]
    Matches env.drivers ⟨0x046d, 0x0825, 0, 0, 0, 0⟩ [⟨1, 1, 0⟩, ⟨14, 1, 0⟩] 0 1 (classId 14) ∧
    (usbLinuxProbeP env 1 2 0).result = .noDriver ∧
    (usbLinuxProbeP env 1 2 0).calls = [⟨1, 0, classId 1, -19⟩] := by
  refine ⟨⟨_, _, rfl, rfl, by decide, by decide⟩, by decide, by decide⟩

theorem probe_exhaustive_both :
    let env := audioVideo [⟨"audio", some [classId 1]⟩, ⟨"uvcvideo", some [classId 14]⟩]
    (usbLinuxProbeP env 1 2 0).calls = [⟨0, 0, classId 1, -19⟩, ⟨1, 1, classId 14, -19⟩] ∧
    ((usbLinuxProbeP env 1 2 0).calls.map Call.place).Nodup :=
  ⟨by decide, (probe_exhaustive_iff _ 1 (by decide) (by decide)).1⟩

end Webcamd.Kernel.UsbProbe
