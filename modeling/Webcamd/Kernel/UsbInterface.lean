import Webcamd.Kernel.Usb
import Webcamd.Kernel.UsbConstruct

/-!
# Alternate settings and the endpoint table

`kernel/linux_usb.c` keeps the answer to *which endpoint has this address?* twice.
`usb_find_host_endpoint` searches the current alternate setting of every interface; the
arrays `ep_in` and `ep_out`, which `usb_pipe_endpoint` and `usb_maxpacket` consult, are
filled when the device is built and filled again, by `usb_linux_fill_ep_info`, each time
`usb_set_interface` selects another alternate setting.

* `UsbConfig.filling` — the arrays of `Webcamd.Kernel.UsbConstruct` that the settings and
  their endpoints are looked up in.  A pointer to a setting is a place in them: an interface
  with 255 alternates, whose `num_altsetting` is zero, has none of its own there, and points
  at the first setting of another interface.
* `UsbDevice` — the current settings and the two arrays; `createUsbDevice` and
  `usbSetInterface` are the functions that write them.
* `findHostEndpoint`, `usbPipeEndpoint`, `usbMaxpacket` — the functions that read them.
* `UsbDevice.InSync` — the table holds exactly what the current settings hold.  Building
  a device establishes it (`inSync_createUsbDevice`); a switch only *adds* entries, so it
  keeps it just when no address is lost (`UsbDevice.InSync.switch_iff`).
* `endpoint_table_iff` — over every sequence of calls, the two answers agree throughout
  exactly when every switch is of that kind and no two control endpoints with one number
  are selected, which the search by number alone cannot tell apart; and the device is built
  inside its arrays exactly when there is room for the endpoints.
-/

namespace Webcamd.Kernel.Usb

open Webcamd.Library
open UsbConstruct (EndpointDescriptor Filling Libusb20Config Libusb20Interface Setting firstPass
  secondPass)

/-! ### Endpoints -/

/-- Where a `struct usb_host_endpoint` is stored: pointers to it are equal when the
places are. -/
inductive Place where
  /-- `dev->ep0` -/
  | ep0
  /-- `bsd_endpoint_start + index` -/
  | array (index : ℕ)
  deriving DecidableEq

/-- `struct usb_host_endpoint` -/
structure UsbHostEndpoint where
  place : Place
  desc : EndpointDescriptor
  deriving DecidableEq

/-- Direction (`true` for in) and number, the two parts of `bEndpointAddress`. -/
def UsbHostEndpoint.address (uhe : UsbHostEndpoint) : Bool × ℕ :=
  (uhe.desc.bEndpointAddress &&& 0x80#8 ≠ 0#8, (uhe.desc.bEndpointAddress &&& 0x0F#8).toNat)

/-- The type of an endpoint, `bmAttributes & USB_ENDPOINT_XFERTYPE_MASK`. -/
def UsbHostEndpoint.type (uhe : UsbHostEndpoint) : BitVec 8 :=
  uhe.desc.bmAttributes &&& 3#8

/-- What `usb_linux_create_usb_device` is given. -/
structure UsbConfig where
  pcfg : Libusb20Config
  /-- `wMaxPacketSize` of the control endpoint, by the speed of the device -/
  maxPacketSize0 : BitVec 16
  /-- `addr` -/
  devnum : BitVec 32

namespace UsbConfig

variable (config : UsbConfig)

/-- What the second pass has written. -/
def filling : Filling :=
  (secondPass config.pcfg).getD ⟨[], [], [], []⟩

/-- `bsd_iface_start` up to `bsd_iface_end` -/
def bsdIface : List UsbConstruct.UsbInterface :=
  config.filling.ui

def ep0 : UsbHostEndpoint :=
  ⟨.ep0, ⟨0, 0, config.maxPacketSize0⟩⟩

/-- `uhi->endpoint` up to `uhi->endpoint + uhi->desc.bNumEndpoints` -/
def endpointsOf (uhi : UsbConstruct.UsbHostInterface) : List UsbHostEndpoint :=
  (uhi.endpoints config.filling.uhe).mapIdx fun index uhe =>
    ⟨.array (uhi.endpoint + index), uhe.desc⟩

/-- The endpoints of the setting at a place, while `uhi` are the settings that are written.
Behind these there are zeros. -/
def endpointsIn (uhi : List UsbConstruct.UsbHostInterface) (place : ℕ) : List UsbHostEndpoint :=
  match uhi[place]? with
  | none => []
  | some setting => config.endpointsOf setting

/-- The endpoints of the setting at a place, when all settings are written. -/
def endpoints (place : ℕ) : List UsbHostEndpoint :=
  config.endpointsIn config.filling.uhi place

/-- `altsetting->desc.bInterfaceNumber` -/
def bInterfaceNumber (altsetting : ℕ) : BitVec 8 :=
  (config.filling.uhi[altsetting]?.map fun uhi => uhi.desc.bInterfaceNumber).getD 0

end UsbConfig

/-! ### The device -/

/-- The part of `struct usb_device` that switching settings changes. -/
structure UsbDevice where
  /-- `cur_altsetting` of every interface -/
  curAltsetting : ℕ → ℕ
  /-- `ep_in`, at `(true, n)`, and `ep_out`, at `(false, n)` -/
  ep : Bool × ℕ → Option UsbHostEndpoint

/-- One round of the loop in `usb_linux_fill_ep_info`; "bogus control endpoints" are
skipped. -/
def UsbDevice.fillEp (dev : UsbDevice) (uhe : UsbHostEndpoint) : UsbDevice :=
  if uhe.address.2 = 0 then dev
  else { dev with ep := Function.update dev.ep uhe.address (some uhe) }

/-- `usb_linux_fill_ep_info` -/
def UsbDevice.fillEpInfo (dev : UsbDevice) (endpoints : List UsbHostEndpoint) : UsbDevice :=
  endpoints.foldl UsbDevice.fillEp dev

section Device

variable (config : UsbConfig)

/-- What `usb_linux_fill_ep_info` is given for an interface while the device is built: the
settings of the interfaces behind it are not written yet. -/
def UsbConfig.builtEndpoints (ui : UsbConstruct.UsbInterface) : List UsbHostEndpoint :=
  config.endpointsIn (config.filling.uhi.take (ui.altsetting + ui.numAltsetting.toNat))
    ui.curAltsetting

/-- `usb_linux_create_usb_device` -/
def createUsbDevice : UsbDevice :=
  config.bsdIface.foldl (fun dev ui => dev.fillEpInfo (config.builtEndpoints ui))
    { curAltsetting := fun iface =>
        (config.bsdIface[iface]?.map UsbConstruct.UsbInterface.curAltsetting).getD 0
      ep := fun address => if address.2 = 0 then some config.ep0 else none }

/-- The endpoints of the current settings, in the order in which the loops of
`usb_find_host_endpoint` meet them. -/
def selected (curAltsetting : ℕ → ℕ) : List UsbHostEndpoint :=
  config.bsdIface.zipIdx.flatMap fun ui => config.endpoints (curAltsetting ui.2)

/-- `usb_create_host_endpoint`, the common part of the macros that build a pipe. -/
def usbCreateHostEndpoint (type ep : BitVec 8) : BitVec 32 :=
  (type.setWidth 32 <<< 30) ||| ((ep.setWidth 32 &&& 0xFF#32) <<< 15) |||
    ((config.devnum &&& 0x7F#32) <<< 8) ||| (ep.setWidth 32 &&& 0x80#32)

/-- `usb_find_host_endpoint` -/
def findHostEndpoint (dev : UsbDevice) (pipe : BitVec 32) : Option UsbHostEndpoint :=
  let type : BitVec 8 := ((pipe >>> 30) &&& 3#32).setWidth 8
  let mask : BitVec 8 := if type = 0#8 then 0x0F#8 else 0x8F#8
  let ep : BitVec 8 := ((pipe >>> 15) &&& 255#32).setWidth 8 &&& mask
  match config.bsdIface.zipIdx.findSome? fun ui =>
      (config.endpoints (dev.curAltsetting ui.2)).find? fun uhe =>
        uhe.desc.bEndpointAddress &&& mask = ep ∧ uhe.type = type with
  | some uhe => some uhe
  | none => if type = 0#8 ∧ ep &&& 0x0F#8 = 0#8 then some config.ep0 else none

/-- `usb_pipe_endpoint` -/
def usbPipeEndpoint (dev : UsbDevice) (pipe : BitVec 32) : Option UsbHostEndpoint :=
  dev.ep (pipe &&& 0x80#32 ≠ 0#32, ((pipe >>> 15) &&& 0xF#32).toNat)

/-- `usb_maxpacket` -/
def usbMaxpacket (dev : UsbDevice) (pipe : BitVec 32) (isOut : Bool) : BitVec 16 :=
  match dev.ep (!isOut, ((pipe >>> 15) &&& 15#32).toNat) with
  | none => 0
  | some ep => ep.desc.wMaxPacketSize

/-- `usb_ifnum_to_if`, and the place where the interface is stored. -/
def usbIfnumToIf (ifaceNo : BitVec 8) : Option (UsbConstruct.UsbInterface × ℕ) :=
  config.bsdIface.zipIdx.find? fun ui =>
    0#8 < ui.1.numAltsetting ∧ config.bInterfaceNumber ui.1.altsetting = ifaceNo

/-- A call of `usb_set_interface`, with what `libusb20_dev_set_alt_index` answers. -/
structure SetInterface where
  ifaceNo : BitVec 8
  altIndex : BitVec 8
  err : Bool
  deriving DecidableEq

/-- The interface that a call switches, if it gets past its tests and `libusb20` does not
refuse. -/
def SetInterface.switches (call : SetInterface) : Option (UsbConstruct.UsbInterface × ℕ) :=
  if call.err then none
  else (usbIfnumToIf config call.ifaceNo).filter fun ui => call.altIndex < ui.1.numAltsetting

/-- The current settings after an interface was switched. -/
def UsbDevice.curAltsettingAfter (dev : UsbDevice) (iface place : ℕ) : ℕ → ℕ :=
  Function.update dev.curAltsetting iface place

/-- The device after a switch. -/
def UsbDevice.switch (dev : UsbDevice) (iface place : ℕ) : UsbDevice :=
  UsbDevice.fillEpInfo { dev with curAltsetting := dev.curAltsettingAfter iface place }
    (config.endpoints place)

/-- `usb_set_interface`, as far as it concerns the settings and the table. -/
def usbSetInterface (dev : UsbDevice) (call : SetInterface) : UsbDevice × Code :=
  match usbIfnumToIf config call.ifaceNo with
  | none => (dev, .einval)
  | some ui =>
      if ui.1.numAltsetting ≤ call.altIndex then (dev, .einval)
      else if call.err then (dev, .epipe)
      else (dev.switch config ui.2 (ui.1.altsetting + call.altIndex.toNat), .success)

/-- A device on which `usb_set_interface` is called again and again. -/
def interfaceMachine : Machine UsbDevice SetInterface Code where
  step dev call := some ((usbSetInterface config dev call).1, [(usbSetInterface config dev call).2])

end Device

/-! ### What filling does to the table -/

@[simp] theorem UsbDevice.fillEp_curAltsetting (dev : UsbDevice) (uhe : UsbHostEndpoint) :
    (dev.fillEp uhe).curAltsetting = dev.curAltsetting := by
  unfold UsbDevice.fillEp
  split <;> rfl

theorem UsbDevice.fillEp_ep (dev : UsbDevice) (uhe : UsbHostEndpoint) {address : Bool × ℕ}
    (hnumber : address.2 ≠ 0) :
    (dev.fillEp uhe).ep address = if uhe.address = address then some uhe else dev.ep address := by
  unfold UsbDevice.fillEp
  by_cases haddress : uhe.address = address
  · subst haddress
    simp [hnumber]
  · rw [if_neg haddress]
    split
    · rfl
    · exact Function.update_of_ne (Ne.symm haddress) _ _

@[simp] theorem UsbDevice.fillEpInfo_curAltsetting (dev : UsbDevice)
    (endpoints : List UsbHostEndpoint) :
    (dev.fillEpInfo endpoints).curAltsetting = dev.curAltsetting := by
  unfold UsbDevice.fillEpInfo
  induction endpoints generalizing dev with
  | nil => rfl
  | cons uhe endpoints ih => rw [List.foldl_cons, ih, fillEp_curAltsetting]

/-- The last endpoint with an address is the one that stays in the table; what the table
had there before stays if there is none. -/
theorem UsbDevice.fillEpInfo_ep (dev : UsbDevice) (endpoints : List UsbHostEndpoint)
    {address : Bool × ℕ} (hnumber : address.2 ≠ 0) :
    (dev.fillEpInfo endpoints).ep address =
      (endpoints.reverse.find? fun uhe => uhe.address = address).or (dev.ep address) := by
  unfold UsbDevice.fillEpInfo
  induction endpoints generalizing dev with
  | nil => rfl
  | cons uhe endpoints ih =>
      rw [List.foldl_cons, ih, fillEp_ep dev uhe hnumber, List.reverse_cons, List.find?_append,
        Option.or_assoc]
      by_cases haddress : uhe.address = address <;> simp [haddress]

/-- Where no two endpoints share an address there is no last one: the table has exactly
the endpoints it was given, and what it had before elsewhere. -/
theorem UsbDevice.fillEpInfo_ep_eq_some_iff {dev : UsbDevice} {endpoints : List UsbHostEndpoint}
    (hdistinct : ∀ uhe ∈ endpoints, ∀ other ∈ endpoints, uhe.address = other.address →
      uhe = other)
    {uhe : UsbHostEndpoint} {address : Bool × ℕ} (hnumber : address.2 ≠ 0) :
    (dev.fillEpInfo endpoints).ep address = some uhe ↔
      (uhe ∈ endpoints ∧ uhe.address = address) ∨
        ((∀ other ∈ endpoints, other.address ≠ address) ∧ dev.ep address = some uhe) := by
  rw [fillEpInfo_ep dev endpoints hnumber, Option.or_eq_some_iff]
  refine or_congr ⟨fun h => ?_, fun h => ?_⟩ (and_congr_left' ?_)
  · exact ⟨List.mem_reverse.mp (List.mem_of_find?_eq_some h),
      by simpa using List.find?_some h⟩
  · obtain ⟨found, hfound⟩ : ∃ found, (endpoints.reverse.find? fun uhe => uhe.address = address) =
        some found := by
      rw [← Option.isSome_iff_exists, List.find?_isSome]
      exact ⟨uhe, List.mem_reverse.mpr h.1, by simpa using h.2⟩
    have hfoundAddress : found.address = address := by simpa using List.find?_some hfound
    rw [hfound, hdistinct found (List.mem_reverse.mp (List.mem_of_find?_eq_some hfound)) uhe h.1
      (hfoundAddress.trans h.2.symm)]
  · rw [List.find?_eq_none]
    simp

/-! ### The settings that are stored -/

section Device

variable (config : UsbConfig)

theorem UsbConfig.secondPass_filling : secondPass config.pcfg = some config.filling := by
  rw [UsbConfig.filling, UsbConstruct.secondPass_eq]
  rfl

/-- The entry of an interface. -/
theorem UsbConfig.bsdIface_getElem? (iface : ℕ) :
    config.bsdIface[iface]? = config.pcfg.configured[iface]?.map fun id => id.record iface
      ((config.pcfg.configured.take iface).flatMap Libusb20Interface.visited).length := by
  have h := UsbConstruct.interfaceRecords_getElem? 0 0 config.pcfg.configured iface
  rw [Nat.zero_add, Nat.zero_add] at h
  rw [← h, UsbConfig.bsdIface, UsbConfig.filling, UsbConstruct.secondPass_eq]
  rfl

/-- The entry of a setting. -/
theorem UsbConfig.uhi_getElem? (place : ℕ) :
    config.filling.uhi[place]? = config.pcfg.visited[place]?.map fun id =>
      id.record (firstPass config.pcfg).ifaceIndex
        ((config.pcfg.visited.take place).flatMap Setting.endpoints).length := by
  have h := @UsbConstruct.settingRecords_getElem? (firstPass config.pcfg).ifaceIndex 0
    config.pcfg.visited place
  rw [Nat.zero_add] at h
  rw [← h, UsbConfig.filling, UsbConstruct.secondPass_eq]
  rfl

/-- The endpoints that are written are those of the settings that are visited. -/
theorem UsbConfig.uhe_source : config.filling.uhe.map UsbConstruct.UsbHostEndpoint.source =
    config.pcfg.visited.flatMap Setting.endpoints := by
  rw [UsbConfig.filling, UsbConstruct.secondPass_eq]
  exact UsbConstruct.endpointRecords_source 0 config.pcfg.configured

/-- **What is found at a place** are the endpoints of the setting that is stored there. -/
theorem UsbConfig.endpoints_desc {place : ℕ} {id : Setting}
    (hid : config.pcfg.visited[place]? = some id) :
    (config.endpoints place).map UsbHostEndpoint.desc =
      id.endpoints.map UsbConstruct.Libusb20Endpoint.desc := by
  have hnum : (BitVec.ofNat 8 id.endpoints.length).toNat = id.endpoints.length := by
    rw [BitVec.toNat_ofNat]
    exact Nat.mod_eq_of_lt id.num_endpoints_lt
  have hsplit : config.pcfg.visited = config.pcfg.visited.take place ++
      id :: config.pcfg.visited.drop (place + 1) := by
    obtain ⟨hlt, rfl⟩ := List.getElem?_eq_some_iff.mp hid
    rw [List.getElem_cons_drop, List.take_append_drop]
  have hsource : ((config.filling.uhe.drop
      ((config.pcfg.visited.take place).flatMap Setting.endpoints).length).take
        id.endpoints.length).map UsbConstruct.UsbHostEndpoint.source = id.endpoints := by
    rw [List.map_take, List.map_drop, config.uhe_source]
    nth_rewrite 2 [hsplit]
    rw [List.flatMap_append, List.flatMap_cons, List.drop_left, List.take_left]
  have hdesc : UsbConstruct.Libusb20Endpoint.desc ∘ UsbConstruct.UsbHostEndpoint.source =
      UsbConstruct.UsbHostEndpoint.desc := rfl
  simp only [UsbConfig.endpoints, UsbConfig.endpointsIn, config.uhi_getElem?, hid, Option.map_some,
    UsbConfig.endpointsOf, UsbConstruct.UsbHostInterface.endpoints, Setting.record, hnum]
  nth_rewrite 2 [← hsource]
  rw [List.map_map, hdesc]
  refine List.ext_getElem? fun index => ?_
  simp only [List.getElem?_map, List.getElem?_mapIdx, Option.map_map]
  rfl

/-- A setting of an interface is stored behind those of the interfaces before it, unless the
interface has 255 alternates. -/
theorem UsbConfig.visited_getElem? {iface index : ℕ} {id : Libusb20Interface}
    (hid : config.pcfg.configured[iface]? = some id) (hmany : id.altsetting.length ≠ 255)
    (hindex : index < id.settings.length) :
    config.pcfg.visited[((config.pcfg.configured.take iface).flatMap
      Libusb20Interface.visited).length + index]? = id.settings[index]? := by
  obtain ⟨hlt, rfl⟩ := List.getElem?_eq_some_iff.mp hid
  have hvisited : config.pcfg.configured[iface].visited =
      config.pcfg.configured[iface].settings := by
    rw [UsbConstruct.visited_eq, if_neg hmany]
  have hsplit : config.pcfg.visited =
      (config.pcfg.configured.take iface).flatMap Libusb20Interface.visited ++
        (config.pcfg.configured[iface].settings ++
          (config.pcfg.configured.drop (iface + 1)).flatMap Libusb20Interface.visited) := by
    rw [← hvisited, ← List.flatMap_cons, List.getElem_cons_drop, ← List.flatMap_append,
      List.take_append_drop]
    rfl
  rw [hsplit, List.getElem?_append_right (Nat.le_add_right _ _), Nat.add_sub_cancel_left,
    List.getElem?_append_left hindex]

/-- **What `usb_set_interface` selects**: the endpoints of the setting with that index. -/
theorem UsbConfig.endpoints_altsetting {iface index : ℕ} {ui : UsbConstruct.UsbInterface}
    {id : Libusb20Interface} {setting : Setting} (hui : config.bsdIface[iface]? = some ui)
    (hid : config.pcfg.configured[iface]? = some id) (hmany : id.altsetting.length ≠ 255)
    (hsetting : id.settings[index]? = some setting) :
    (config.endpoints (ui.altsetting + index)).map UsbHostEndpoint.desc =
      setting.endpoints.map UsbConstruct.Libusb20Endpoint.desc := by
  rw [config.bsdIface_getElem?, hid] at hui
  obtain rfl := Option.some.inj hui
  obtain ⟨hindex, -⟩ := List.getElem?_eq_some_iff.mp hsetting
  exact config.endpoints_desc ((config.visited_getElem? hid hmany hindex).trans hsetting)

variable {config} in
/-- What an interface's endpoints are while the device is built: those that are found later, or
none. -/
theorem UsbConfig.builtEndpoints_eq {iface : ℕ} {ui : UsbConstruct.UsbInterface}
    (hui : config.bsdIface[iface]? = some ui) :
    config.builtEndpoints ui =
      if ui.numAltsetting = 0#8 then [] else config.endpoints ui.curAltsetting := by
  have hcur : ui.curAltsetting = ui.altsetting := by
    rw [config.bsdIface_getElem?, Option.map_eq_some_iff] at hui
    obtain ⟨id, -, rfl⟩ := hui
    rfl
  rw [UsbConfig.builtEndpoints, UsbConfig.endpoints, UsbConfig.endpointsIn, UsbConfig.endpointsIn,
    hcur, List.getElem?_take]
  by_cases hnum : ui.numAltsetting = 0#8
  · have hnothing : ¬ ui.altsetting < ui.altsetting + ui.numAltsetting.toNat := by
      rw [hnum]
      exact Nat.lt_irrefl _
    rw [if_pos hnum, if_neg hnothing]
  · have hpos : 0 < ui.numAltsetting.toNat := by
      rw [Nat.pos_iff_ne_zero]
      exact fun hzero => hnum (BitVec.eq_of_toNat_eq hzero)
    rw [if_neg hnum, if_pos (Nat.lt_add_of_pos_right hpos)]

/-- Where settings are written at all, there is a first interface that has some of them. -/
theorem exists_visited (ids : List Libusb20Interface)
    (hids : ids.flatMap Libusb20Interface.visited ≠ []) : ∃ (index : ℕ) (id : Libusb20Interface),
      ids[index]? = some id ∧ id.visited ≠ [] ∧
        (ids.take index).flatMap Libusb20Interface.visited = [] := by
  induction ids with
  | nil => exact absurd rfl hids
  | cons id ids ih =>
      by_cases hid : id.visited = []
      · rw [List.flatMap_cons, hid] at hids
        obtain ⟨index, other, hother, hvisited, hbefore⟩ := ih hids
        refine ⟨index + 1, other, hother, hvisited, ?_⟩
        rw [List.take_succ_cons, List.flatMap_cons, hid, hbefore]
        rfl
      · exact ⟨0, id, rfl, hid, rfl⟩

/-- **An interface without settings** points at the first setting of one that has some, or at
zeros. -/
theorem UsbConfig.exists_owner {iface : ℕ} {ui : UsbConstruct.UsbInterface}
    (hui : config.bsdIface[iface]? = some ui) {uhe : UsbHostEndpoint}
    (hmem : uhe ∈ config.endpoints ui.curAltsetting) :
    ∃ (owner : ℕ) (other : UsbConstruct.UsbInterface), config.bsdIface[owner]? = some other ∧
      other.numAltsetting ≠ 0#8 ∧ other.curAltsetting = ui.curAltsetting := by
  rw [config.bsdIface_getElem?, Option.map_eq_some_iff] at hui
  obtain ⟨id, hid, rfl⟩ := hui
  let place := ((config.pcfg.configured.take iface).flatMap Libusb20Interface.visited).length
  have hplace : config.pcfg.visited[place]? ≠ none := by
    intro hnone
    change uhe ∈ config.endpoints place at hmem
    rw [UsbConfig.endpoints, UsbConfig.endpointsIn, config.uhi_getElem?, hnone] at hmem
    exact List.not_mem_nil hmem
  have hsplit : config.pcfg.visited =
      (config.pcfg.configured.take iface).flatMap Libusb20Interface.visited ++
        (config.pcfg.configured.drop iface).flatMap Libusb20Interface.visited := by
    rw [← List.flatMap_append, List.take_append_drop]
    rfl
  have hrest : (config.pcfg.configured.drop iface).flatMap Libusb20Interface.visited ≠ [] := by
    intro hnil
    rw [hsplit, hnil, List.append_nil] at hplace
    exact hplace (List.getElem?_eq_none le_rfl)
  obtain ⟨index, other, hother, hvisited, hbefore⟩ := exists_visited _ hrest
  rw [List.getElem?_drop] at hother
  refine ⟨iface + index, _, by rw [config.bsdIface_getElem?, hother, Option.map_some], ?_, ?_⟩
  · intro hzero
    have hnone : other.visited = [] := by
      change other.numAltsetting = 0#8 at hzero
      rw [Libusb20Interface.visited, hzero]
      rfl
    exact hvisited hnone
  · show ((config.pcfg.configured.take (iface + index)).flatMap _).length = _
    rw [List.take_add, List.flatMap_append, hbefore, List.append_nil]
    rfl

/-! ### The selected endpoints -/

theorem mem_selected {curAltsetting : ℕ → ℕ} {uhe : UsbHostEndpoint} :
    uhe ∈ selected config curAltsetting ↔
      ∃ (ui : UsbConstruct.UsbInterface) (iface : ℕ), config.bsdIface[iface]? = some ui ∧
        uhe ∈ config.endpoints (curAltsetting iface) := by
  simp [selected, List.mem_zipIdx_iff_getElem?]

/-- No two endpoints of the current settings have the same address. -/
def Distinct (curAltsetting : ℕ → ℕ) : Prop :=
  ∀ uhe ∈ selected config curAltsetting, ∀ other ∈ selected config curAltsetting,
    uhe.address = other.address → uhe = other

/-- **The table holds what the current settings hold**, and nothing else. -/
def UsbDevice.InSync (dev : UsbDevice) : Prop :=
  ∀ uhe address, address.2 ≠ 0 →
    (dev.ep address = some uhe ↔
      uhe ∈ selected config dev.curAltsetting ∧ uhe.address = address)

theorem createUsbDevice_eq : createUsbDevice config =
    UsbDevice.fillEpInfo
      { curAltsetting := fun iface =>
          (config.bsdIface[iface]?.map UsbConstruct.UsbInterface.curAltsetting).getD 0
        ep := fun address => if address.2 = 0 then some config.ep0 else none }
      (config.bsdIface.flatMap config.builtEndpoints) := by
  rw [createUsbDevice, UsbDevice.fillEpInfo, List.foldl_flatMap]
  rfl

@[simp] theorem createUsbDevice_curAltsetting :
    (createUsbDevice config).curAltsetting = fun iface =>
      (config.bsdIface[iface]?.map UsbConstruct.UsbInterface.curAltsetting).getD 0 := by
  rw [createUsbDevice_eq, UsbDevice.fillEpInfo_curAltsetting]

/-- **All that is selected at first is filled in**, although some interfaces look for their
settings too early. -/
theorem mem_builtEndpoints {uhe : UsbHostEndpoint} :
    uhe ∈ config.bsdIface.flatMap config.builtEndpoints ↔
      uhe ∈ selected config (createUsbDevice config).curAltsetting := by
  rw [createUsbDevice_curAltsetting, mem_selected, List.mem_flatMap]
  constructor
  · rintro ⟨ui, hui, hmem⟩
    obtain ⟨iface, hiface⟩ := List.getElem?_of_mem hui
    refine ⟨ui, iface, hiface, ?_⟩
    rw [UsbConfig.builtEndpoints_eq hiface] at hmem
    rw [hiface]
    split_ifs at hmem
    · exact absurd hmem List.not_mem_nil
    · exact hmem
  · rintro ⟨ui, iface, hiface, hmem⟩
    rw [hiface] at hmem
    obtain ⟨owner, other, howner, hnum, hcur⟩ := config.exists_owner hiface hmem
    refine ⟨other, List.mem_of_getElem? howner, ?_⟩
    rw [UsbConfig.builtEndpoints_eq howner, if_neg hnum, hcur]
    exact hmem

variable {config}

theorem inSync_createUsbDevice
    (hdistinct : Distinct config (createUsbDevice config).curAltsetting) :
    (createUsbDevice config).InSync config := by
  intro uhe address hnumber
  have hbuilt : ∀ uhe ∈ config.bsdIface.flatMap config.builtEndpoints,
      ∀ other ∈ config.bsdIface.flatMap config.builtEndpoints,
        uhe.address = other.address → uhe = other := fun uhe huhe other hother =>
    hdistinct uhe ((mem_builtEndpoints config).mp huhe) other
      ((mem_builtEndpoints config).mp hother)
  rw [← mem_builtEndpoints, createUsbDevice_eq,
    UsbDevice.fillEpInfo_ep_eq_some_iff hbuilt hnumber]
  simp [hnumber]

@[simp] theorem UsbDevice.switch_curAltsetting (dev : UsbDevice) (iface place : ℕ) :
    (dev.switch config iface place).curAltsetting = dev.curAltsettingAfter iface place :=
  fillEpInfo_curAltsetting _ _

/-- What a switch does to the endpoints of the current settings: those of the other interfaces
stay. -/
theorem mem_selected_switch {dev : UsbDevice} {ui : UsbConstruct.UsbInterface} {iface place : ℕ}
    (hiface : config.bsdIface[iface]? = some ui) {uhe : UsbHostEndpoint} :
    uhe ∈ selected config (dev.curAltsettingAfter iface place) ↔
      uhe ∈ config.endpoints place ∨
        ∃ (ui' : UsbConstruct.UsbInterface) (iface' : ℕ), iface' ≠ iface ∧
          config.bsdIface[iface']? = some ui' ∧
            uhe ∈ config.endpoints (dev.curAltsetting iface') := by
  simp only [mem_selected, UsbDevice.curAltsettingAfter]
  constructor
  · rintro ⟨ui', iface', hiface', hmem⟩
    by_cases hne : iface' = iface
    · rw [hne, Function.update_self] at hmem
      exact .inl hmem
    · rw [Function.update_of_ne hne] at hmem
      exact .inr ⟨ui', iface', hne, hiface', hmem⟩
  · rintro (hnew | ⟨ui', iface', hne, hiface', hmem⟩)
    · exact ⟨ui, iface, hiface, by rwa [Function.update_self]⟩
    · exact ⟨ui', iface', hiface', by rwa [Function.update_of_ne hne]⟩

variable (config) in
/-- After the switch, every address that is selected now is selected still. -/
def UsbDevice.Keeps (dev : UsbDevice) (iface place : ℕ) : Prop :=
  ∀ uhe ∈ selected config dev.curAltsetting, uhe.address.2 ≠ 0 →
    ∃ other ∈ selected config (dev.curAltsettingAfter iface place), other.address = uhe.address

/-- **A switch adds entries and removes none**: the table stays right just when it had
none to remove. -/
theorem UsbDevice.InSync.switch_iff {dev : UsbDevice} (hsync : dev.InSync config)
    (hdistinct : Distinct config dev.curAltsetting) {ui : UsbConstruct.UsbInterface}
    {iface place : ℕ} (hiface : config.bsdIface[iface]? = some ui)
    (hafter : Distinct config (dev.curAltsettingAfter iface place)) :
    (dev.switch config iface place).InSync config ↔ dev.Keeps config iface place := by
  have hselected : ∀ uhe ∈ config.endpoints place,
      uhe ∈ selected config (dev.curAltsettingAfter iface place) := fun uhe hmem =>
    (mem_selected_switch hiface).mpr (.inl hmem)
  have hendpoints : ∀ uhe ∈ config.endpoints place, ∀ other ∈ config.endpoints place,
      uhe.address = other.address → uhe = other := fun uhe huhe other hother =>
    hafter uhe (hselected uhe huhe) other (hselected other hother)
  constructor
  · intro hnext uhe hmem hnumber
    by_contra! hnone
    -- the entry of the old endpoint survives the switch
    have hstays : (dev.switch config iface place).ep uhe.address = some uhe :=
      (fillEpInfo_ep_eq_some_iff hendpoints hnumber).mpr
        (.inr ⟨fun other hother => hnone other (hselected other hother),
          (hsync uhe uhe.address hnumber).mpr ⟨hmem, rfl⟩⟩)
    have hstill := ((hnext uhe uhe.address hnumber).mp hstays).1
    rw [switch_curAltsetting] at hstill
    exact hnone uhe hstill rfl
  · intro hkeeps uhe address hnumber
    rw [switch_curAltsetting, switch, fillEpInfo_ep_eq_some_iff hendpoints hnumber]
    constructor
    · rintro (⟨hnew, haddress⟩ | ⟨hnone, hentry⟩)
      · exact ⟨hselected uhe hnew, haddress⟩
      · obtain ⟨hmem, rfl⟩ := (hsync uhe address hnumber).mp hentry
        obtain ⟨other, hother, hsame⟩ := hkeeps uhe hmem hnumber
        -- what has the address afterwards belongs to another interface, and had it before
        rcases (mem_selected_switch hiface).mp hother with hnew | ⟨ui', iface', -, hiface', hold⟩
        · exact absurd hsame (hnone other hnew)
        · have hbefore : other ∈ selected config dev.curAltsetting :=
            (mem_selected config).mpr ⟨ui', iface', hiface', hold⟩
          exact ⟨hdistinct other hbefore uhe hmem hsame ▸ hother, rfl⟩
    · rintro ⟨hmem, haddress⟩
      by_cases hnone : ∀ other ∈ config.endpoints place, other.address ≠ address
      · rcases (mem_selected_switch hiface).mp hmem with hnew | ⟨ui', iface', -, hiface', hold⟩
        · exact absurd haddress (hnone uhe hnew)
        · exact .inr ⟨hnone, (hsync uhe address hnumber).mpr
            ⟨(mem_selected config).mpr ⟨ui', iface', hiface', hold⟩, haddress⟩⟩
      · push Not at hnone
        obtain ⟨other, hother, hsame⟩ := hnone
        have heq : other = uhe := hafter other (hselected other hother) uhe hmem
          (hsame.trans haddress.symm)
        exact .inl ⟨heq ▸ hother, haddress⟩

end Device

/-! ### What the search finds -/

section Device

variable (config : UsbConfig)

/-- The pipe for an endpoint: its type and its address. -/
def pipeOf (uhe : UsbHostEndpoint) : BitVec 32 :=
  usbCreateHostEndpoint config uhe.type uhe.desc.bEndpointAddress

theorem usbCreateHostEndpoint_type (type ep : BitVec 8) :
    ((usbCreateHostEndpoint config type ep >>> 30) &&& 3#32).setWidth 8 = type &&& 3#8 := by
  ext i hi
  interval_cases i <;> simp [usbCreateHostEndpoint]

theorem usbCreateHostEndpoint_ep (type ep : BitVec 8) :
    ((usbCreateHostEndpoint config type ep >>> 15) &&& 255#32).setWidth 8 = ep := by
  ext i hi
  interval_cases i <;> simp [usbCreateHostEndpoint]

/-- The number alone for a control endpoint, the whole address for the others. -/
def UsbHostEndpoint.SameTarget (uhe other : UsbHostEndpoint) : Prop :=
  other.type = uhe.type ∧ other.address.2 = uhe.address.2 ∧
    (uhe.type = 0#8 ∨ other.address.1 = uhe.address.1)

instance (uhe other : UsbHostEndpoint) : Decidable (uhe.SameTarget other) :=
  inferInstanceAs (Decidable (_ ∧ _ ∧ (_ ∨ _)))

theorem and_0x0F_eq_iff (ea ep : BitVec 8) :
    ea &&& 0x0F#8 = ep &&& 0x0F#8 ↔ (ea &&& 0x0F#8).toNat = (ep &&& 0x0F#8).toNat :=
  BitVec.toNat_inj.symm

theorem and_0x80 : ∀ ea : BitVec 8,
    ea &&& 0x80#8 = if decide (ea &&& 0x80#8 ≠ 0#8) then 0x80#8 else 0#8 := by
  decide

theorem and_0x8F_eq_iff (ea ep : BitVec 8) :
    ea &&& 0x8F#8 = ep &&& 0x8F#8 ↔
      (ea &&& 0x0F#8).toNat = (ep &&& 0x0F#8).toNat ∧
        decide (ea &&& 0x80#8 ≠ 0#8) = decide (ep &&& 0x80#8 ≠ 0#8) := by
  have hsplit : ∀ a : BitVec 8, a &&& 0x8F#8 = (a &&& 0x80#8) ||| (a &&& 0x0F#8) := fun a => by
    rw [← BitVec.and_or_distrib_left]
    rfl
  constructor
  · intro h
    have hnumber : ea &&& 0x0F#8 = ep &&& 0x0F#8 := by
      simpa [BitVec.and_assoc] using congrArg (· &&& 0x0F#8) h
    have hdir : ea &&& 0x80#8 = ep &&& 0x80#8 := by
      simpa [BitVec.and_assoc] using congrArg (· &&& 0x80#8) h
    exact ⟨congrArg BitVec.toNat hnumber, by rw [hdir]⟩
  · rintro ⟨hnumber, hdir⟩
    rw [hsplit, hsplit, and_0x80 ea, and_0x80 ep, hdir, (and_0x0F_eq_iff ea ep).mpr hnumber]

/-- The search for the pipe of an endpoint: the first of the current settings that is of
the same type and has the same number, and the same direction unless it is of the type
control. -/
theorem findHostEndpoint_pipeOf (dev : UsbDevice) {uhe : UsbHostEndpoint}
    (hnumber : uhe.address.2 ≠ 0) :
    findHostEndpoint config dev (pipeOf config uhe) =
      (selected config dev.curAltsetting).find? fun other => uhe.SameTarget other := by
  have htype : uhe.type &&& 3#8 = uhe.type := by
    simp [UsbHostEndpoint.type, BitVec.and_assoc]
  have hep0 : uhe.desc.bEndpointAddress &&& 0x0F#8 ≠ 0#8 := fun h => hnumber (by
    simp [UsbHostEndpoint.address, h])
  simp only [findHostEndpoint, pipeOf, usbCreateHostEndpoint_type, usbCreateHostEndpoint_ep, htype]
  rw [selected, List.find?_flatMap]
  by_cases hcontrol : uhe.type = 0#8
  · have htarget : ∀ other : UsbHostEndpoint,
        (other.desc.bEndpointAddress &&& 0x0F#8 = uhe.desc.bEndpointAddress &&& 0x0F#8 ∧
          other.type = 0#8) ↔ uhe.SameTarget other := fun other => by
      rw [and_0x0F_eq_iff, UsbHostEndpoint.SameTarget, hcontrol]
      simp [UsbHostEndpoint.address, and_comm]
    simp only [hcontrol, if_true, htarget, true_and, BitVec.and_assoc, BitVec.and_self]
    rw [if_neg hep0]
    split <;> exact Eq.symm ‹_›
  · have htarget : ∀ other : UsbHostEndpoint,
        (other.desc.bEndpointAddress &&& 0x8F#8 = uhe.desc.bEndpointAddress &&& 0x8F#8 ∧
          other.type = uhe.type) ↔ uhe.SameTarget other := fun other => by
      rw [and_0x8F_eq_iff, UsbHostEndpoint.SameTarget]
      simp only [hcontrol, false_or, UsbHostEndpoint.address]
      tauto
    simp only [hcontrol, if_false, htarget, false_and]
    split <;> exact Eq.symm ‹_›

/-! ### The two answers agree -/

/-- `ep_in[n]` and `ep_out[n]` are set exactly where the current settings have an endpoint,
and it is then the one that the search finds. -/
def UsbDevice.Agrees (dev : UsbDevice) : Prop :=
  ∀ address : Bool × ℕ, 1 ≤ address.2 → address.2 ≤ 15 →
    ((dev.ep address).isSome ↔
      ∃ uhe ∈ selected config dev.curAltsetting, uhe.address = address) ∧
    ∀ uhe, dev.ep address = some uhe →
      findHostEndpoint config dev (pipeOf config uhe) = some uhe

/-- No two control endpoints of the current settings have the same number, except zero. -/
def ControlDistinct (curAltsetting : ℕ → ℕ) : Prop :=
  ∀ uhe ∈ selected config curAltsetting, ∀ other ∈ selected config curAltsetting,
    uhe.type = 0#8 → other.type = 0#8 → uhe.address.2 = other.address.2 →
      uhe.address.2 ≠ 0 → uhe = other

/-- Every entry of the table stands at its own address. -/
def UsbDevice.Placed (dev : UsbDevice) : Prop :=
  ∀ uhe address, address.2 ≠ 0 → dev.ep address = some uhe → uhe.address = address

theorem UsbHostEndpoint.number_lt (uhe : UsbHostEndpoint) : uhe.address.2 ≤ 15 := by
  have h : ∀ ea : BitVec 8, (ea &&& 0x0F#8).toNat ≤ 15 := by decide
  exact h _

theorem UsbHostEndpoint.sameTarget_self (uhe : UsbHostEndpoint) : uhe.SameTarget uhe :=
  ⟨rfl, rfl, .inr rfl⟩

variable {config}

/-- Where only one endpoint answers to a pipe, the search finds it. -/
theorem findHostEndpoint_eq_self {dev : UsbDevice}
    (hdistinct : Distinct config dev.curAltsetting)
    (hcontrol : ControlDistinct config dev.curAltsetting) {uhe : UsbHostEndpoint}
    (hmem : uhe ∈ selected config dev.curAltsetting) (hnumber : uhe.address.2 ≠ 0) :
    findHostEndpoint config dev (pipeOf config uhe) = some uhe := by
  rw [findHostEndpoint_pipeOf config dev hnumber]
  obtain ⟨found, hfound⟩ : ∃ found, ((selected config dev.curAltsetting).find? fun other =>
      uhe.SameTarget other) = some found := by
    rw [← Option.isSome_iff_exists, List.find?_isSome]
    exact ⟨uhe, hmem, by simpa using uhe.sameTarget_self⟩
  obtain ⟨htype, hsame, hdir⟩ : uhe.SameTarget found := by simpa using List.find?_some hfound
  have hfoundMem := List.mem_of_find?_eq_some hfound
  rw [hfound]
  rcases hdir with hzero | hdir
  · rw [hcontrol uhe hmem found hfoundMem hzero (htype.trans hzero) hsame.symm hnumber]
  · rw [hdistinct found hfoundMem uhe hmem (Prod.ext hdir hsame)]

theorem UsbDevice.agrees_iff {dev : UsbDevice} (hplaced : dev.Placed)
    (hdistinct : Distinct config dev.curAltsetting) :
    dev.Agrees config ↔ dev.InSync config ∧ ControlDistinct config dev.curAltsetting := by
  constructor
  · intro hagrees
    have hsync : dev.InSync config := by
      intro uhe address hnumber
      constructor
      · intro hentry
        have haddress := hplaced uhe address hnumber hentry
        subst haddress
        have hfound := (hagrees uhe.address (Nat.one_le_iff_ne_zero.mpr hnumber)
          uhe.number_lt).2 uhe hentry
        rw [findHostEndpoint_pipeOf config dev hnumber] at hfound
        exact ⟨List.mem_of_find?_eq_some hfound, rfl⟩
      · rintro ⟨hmem, rfl⟩
        obtain ⟨hsome, hfind⟩ := hagrees uhe.address (Nat.one_le_iff_ne_zero.mpr hnumber)
          uhe.number_lt
        obtain ⟨entry, hentry⟩ := Option.isSome_iff_exists.mp (hsome.mpr ⟨uhe, hmem, rfl⟩)
        have haddress := hplaced entry uhe.address hnumber hentry
        have hfound := hfind entry hentry
        rw [findHostEndpoint_pipeOf config dev (haddress ▸ hnumber)] at hfound
        rw [hentry, hdistinct entry (List.mem_of_find?_eq_some hfound) uhe hmem haddress]
    refine ⟨hsync, fun uhe huhe other hother htype htype' hsame hnumber => ?_⟩
    -- the searches for the two pipes are one search
    have hfind : ∀ e ∈ selected config dev.curAltsetting, e.address.2 ≠ 0 →
        findHostEndpoint config dev (pipeOf config e) = some e := fun e hmem hne =>
      (hagrees e.address (Nat.one_le_iff_ne_zero.mpr hne) e.number_lt).2 e
        ((hsync e e.address hne).mpr ⟨hmem, rfl⟩)
    have hfirst := hfind uhe huhe hnumber
    have hsecond := hfind other hother (hsame ▸ hnumber)
    rw [findHostEndpoint_pipeOf config dev hnumber] at hfirst
    rw [findHostEndpoint_pipeOf config dev (hsame ▸ hnumber)] at hsecond
    have htarget : ∀ e, uhe.SameTarget e ↔ other.SameTarget e := fun e => by
      simp [UsbHostEndpoint.SameTarget, htype, htype', hsame]
    simp only [htarget] at hfirst
    exact Option.some.inj (hfirst.symm.trans hsecond)
  · rintro ⟨hsync, hcontrol⟩ address hpos -
    have hnumber := Nat.one_le_iff_ne_zero.mp hpos
    refine ⟨⟨fun hsome => ?_, ?_⟩, fun uhe hentry => ?_⟩
    · obtain ⟨uhe, hentry⟩ := Option.isSome_iff_exists.mp hsome
      exact ⟨uhe, (hsync uhe address hnumber).mp hentry⟩
    · rintro ⟨uhe, hmem⟩
      rw [(hsync uhe address hnumber).mpr hmem]
      rfl
    · obtain ⟨hmem, rfl⟩ := (hsync uhe address hnumber).mp hentry
      exact findHostEndpoint_eq_self hdistinct hcontrol hmem hnumber

end Device

theorem usbCreateHostEndpoint_dir (config : UsbConfig) (type ep : BitVec 8) :
    usbCreateHostEndpoint config type ep &&& 0x80#32 = (ep &&& 0x80#8).setWidth 32 := by
  ext i hi
  interval_cases i <;> simp [usbCreateHostEndpoint]

theorem usbCreateHostEndpoint_number (config : UsbConfig) (type ep : BitVec 8) :
    (usbCreateHostEndpoint config type ep >>> 15) &&& 0xF#32 = (ep &&& 0x0F#8).setWidth 32 := by
  ext i hi
  interval_cases i <;> simp [usbCreateHostEndpoint]

/-- As long as the two answers agree, a driver that asks for the packet size of a selected
endpoint is told that of its descriptor. -/
theorem UsbDevice.InSync.usbMaxpacket {config : UsbConfig} {dev : UsbDevice}
    (hsync : dev.InSync config) {uhe : UsbHostEndpoint}
    (hmem : uhe ∈ selected config dev.curAltsetting) (hnumber : uhe.address.2 ≠ 0) :
    usbPipeEndpoint dev (pipeOf config uhe) = some uhe ∧
      usbMaxpacket dev (pipeOf config uhe) (!uhe.address.1) = uhe.desc.wMaxPacketSize := by
  have hentry := (hsync uhe uhe.address hnumber).mpr ⟨hmem, rfl⟩
  have hindex : ((pipeOf config uhe >>> 15) &&& 0xF#32).toNat = uhe.address.2 := by
    rw [pipeOf, usbCreateHostEndpoint_number, BitVec.toNat_setWidth_of_le (by omega)]
    rfl
  have hdir : decide (pipeOf config uhe &&& 0x80#32 ≠ 0#32) = uhe.address.1 := by
    have h : ∀ ea : BitVec 8, decide ((ea &&& 0x80#8).setWidth 32 ≠ 0#32) =
        decide (ea &&& 0x80#8 ≠ 0#8) := by decide
    rw [pipeOf, usbCreateHostEndpoint_dir, h]
    rfl
  constructor
  · rw [usbPipeEndpoint, hindex, hdir]
    exact hentry
  · rw [Usb.usbMaxpacket, Bool.not_not, hindex, hentry]

/-! ### Runs -/

section Device

variable {config : UsbConfig}

theorem UsbDevice.Placed.fillEpInfo {dev : UsbDevice} (hplaced : dev.Placed)
    (endpoints : List UsbHostEndpoint) : (dev.fillEpInfo endpoints).Placed := by
  intro uhe address hnumber hentry
  rw [fillEpInfo_ep dev endpoints hnumber, Option.or_eq_some_iff] at hentry
  rcases hentry with hfound | ⟨-, hentry⟩
  · simpa using List.find?_some hfound
  · exact hplaced uhe address hnumber hentry

theorem placed_createUsbDevice : (createUsbDevice config).Placed := by
  rw [createUsbDevice_eq]
  refine UsbDevice.Placed.fillEpInfo ?_ _
  intro uhe address hnumber hentry
  simp [hnumber] at hentry

/-- A call does nothing, or it switches an interface. -/
theorem usbSetInterface_fst (dev : UsbDevice) (call : SetInterface) :
    (usbSetInterface config dev call).1 =
      match call.switches config with
      | none => dev
      | some ui => dev.switch config ui.2 (ui.1.altsetting + call.altIndex.toNat) := by
  unfold usbSetInterface SetInterface.switches
  cases usbIfnumToIf config call.ifaceNo with
  | none => simp
  | some ui =>
      by_cases hnum : ui.1.numAltsetting ≤ call.altIndex
      · simp [hnum, Option.filter_some, BitVec.not_lt.mpr hnum]
      · cases call.err with
        | true => simp [hnum]
        | false => simp [hnum, Option.filter_some, BitVec.not_le.mp hnum]

theorem SetInterface.bsdIface_of_switches {call : SetInterface}
    {ui : UsbConstruct.UsbInterface} {iface : ℕ}
    (hswitches : call.switches config = some (ui, iface)) :
    config.bsdIface[iface]? = some ui := by
  unfold SetInterface.switches at hswitches
  split at hswitches
  · cases hswitches
  · have hfound := (Option.filter_eq_some_iff.mp hswitches).1
    exact List.mem_zipIdx_iff_getElem?.mp (List.mem_of_find?_eq_some hfound)

variable (config)

/-- If the call switches an interface, then the selection that results has every address of
the one before, and no two control endpoints with one number. -/
def SetInterface.Safe (dev : UsbDevice) (call : SetInterface) : Prop :=
  ∀ ui iface, call.switches config = some (ui, iface) →
    dev.Keeps config iface (ui.altsetting + call.altIndex.toNat) ∧
      ControlDistinct config
        (dev.curAltsettingAfter iface (ui.altsetting + call.altIndex.toNat))

variable {config}

theorem UsbDevice.Placed.step {dev next : UsbDevice} {call : SetInterface} {events : List Code}
    (hplaced : dev.Placed) (hstep : (interfaceMachine config).step dev call = some (next, events)) :
    next.Placed := by
  obtain ⟨rfl, -⟩ := Prod.mk.inj (Option.some.inj hstep)
  rw [usbSetInterface_fst]
  split
  · exact hplaced
  · next ui _ =>
      have hsettings : UsbDevice.Placed
          { dev with
            curAltsetting := dev.curAltsettingAfter ui.2
              (ui.1.altsetting + call.altIndex.toNat) } := hplaced
      exact hsettings.fillEpInfo _

/-- One call keeps the two answers equal just when it is safe. -/
theorem UsbDevice.Agrees.step_iff {dev next : UsbDevice} {call : SetInterface}
    {events : List Code} (hplaced : dev.Placed) (hdistinct : Distinct config dev.curAltsetting)
    (hafter : Distinct config next.curAltsetting) (hagrees : dev.Agrees config)
    (hstep : (interfaceMachine config).step dev call = some (next, events)) :
    next.Agrees config ↔ call.Safe config dev := by
  obtain ⟨hsync, hcontrol⟩ := (agrees_iff hplaced hdistinct).mp hagrees
  rw [agrees_iff (hplaced.step hstep) hafter]
  obtain ⟨rfl, -⟩ := Prod.mk.inj (Option.some.inj hstep)
  rw [usbSetInterface_fst] at hafter ⊢
  unfold SetInterface.Safe
  cases hswitches : call.switches config with
  | none => simp [hsync, hcontrol]
  | some target =>
      obtain ⟨ui, iface⟩ := target
      rw [hswitches] at hafter
      simp only [switch_curAltsetting] at hafter ⊢
      rw [hsync.switch_iff hdistinct (SetInterface.bsdIface_of_switches hswitches) hafter]
      constructor
      · rintro hkeeps ui' iface' htarget
        obtain ⟨rfl, rfl⟩ := Prod.mk.inj (Option.some.inj htarget)
        exact hkeeps
      · exact fun hsafe => hsafe ui iface rfl

/-- **The two endpoint lookups.**  On a device on which no two selected endpoints ever
share an address, the arrays are big enough, and the table and the search agree after every
call of a sequence, exactly when there is room for the endpoints, the first selection has no
two control endpoints with one number, and every call that switches an interface is `Safe`:
the selection that results has every address of the one before, and again no two control
endpoints with one number are selected. -/
theorem endpoint_table_iff {schedule : List SetInterface} {last : UsbDevice}
    {history : List Code}
    (hrun : (interfaceMachine config).run (createUsbDevice config) schedule = some (last, history))
    (hvisited : ∀ pair ∈ (interfaceMachine config).visited (createUsbDevice config) schedule,
      Distinct config pair.1.curAltsetting)
    (hlast : Distinct config last.curAltsetting) :
    (config.filling.Inside (firstPass config.pcfg) ∧
      (∀ pair ∈ (interfaceMachine config).visited (createUsbDevice config) schedule,
        pair.1.Agrees config) ∧ last.Agrees config) ↔
      (config.pcfg.visited.flatMap Setting.endpoints).length ≤
          config.pcfg.endpoints.length % 2 ^ 16 ∧
        ControlDistinct config (createUsbDevice config).curAltsetting ∧
        ∀ pair ∈ (interfaceMachine config).visited (createUsbDevice config) schedule,
          pair.2.Safe config pair.1 := by
  rw [UsbConstruct.secondPass_inside_iff config.secondPass_filling]
  refine and_congr_right' ?_
  obtain ⟨hplaced, hplacedLast⟩ := (interfaceMachine config).run_states
    UsbDevice.Placed.step placed_createUsbDevice hrun
  have hstart : Distinct config (createUsbDevice config).curAltsetting :=
    (interfaceMachine config).of_visited (P := fun dev => Distinct config dev.curAltsetting)
      hrun hvisited hlast
  have hfirst : (createUsbDevice config).Agrees config ↔
      ControlDistinct config (createUsbDevice config).curAltsetting := by
    rw [UsbDevice.agrees_iff placed_createUsbDevice hstart]
    exact and_iff_right (inSync_createUsbDevice hstart)
  have hiff := fun hP => @Machine.run_reached_iff _ _ _ (interfaceMachine config)
    (fun dev => dev.Placed ∧ Distinct config dev.curAltsetting) (fun dev => dev.Agrees config)
    (fun dev call => call.Safe config dev)
    (fun hhere hnext hagrees hstep => hagrees.step_iff hhere.1 hhere.2 hnext.2 hstep)
    _ last history schedule (fun pair hpair => ⟨hplaced pair hpair, hvisited pair hpair⟩)
    ⟨hplacedLast, hlast⟩ hP hrun
  constructor
  · intro hagrees
    have hagreesFirst := (interfaceMachine config).of_visited
      (P := fun dev => dev.Agrees config) hrun hagrees.1 hagrees.2
    exact ⟨hfirst.mp hagreesFirst, (hiff hagreesFirst).mp hagrees⟩
  · rintro ⟨hcontrol, hsafe⟩
    exact (hiff (hfirst.mpr hcontrol)).mpr hsafe

end Device

/-- A setting of the interface 0, with these endpoints. -/
def cameraSetting (altIndex : BitVec 8) (endpoints : List EndpointDescriptor)
    (hfew : endpoints.length < 256) : Setting where
  desc := ⟨⟨0x0E, 2, 0⟩, 0, altIndex, BitVec.ofNat 8 endpoints.length, 0⟩
  extra := []
  endpoints := endpoints.map fun desc => ⟨desc, []⟩
  num_endpoints_lt := by rwa [List.length_map]

/-- A camera: one interface, number 0, whose setting 0 has the interrupt endpoint `0x81`
and whose setting 1 has the endpoints `endpoint`. -/
def camera (endpoint : List EndpointDescriptor) (hfew : endpoint.length < 256) : UsbConfig where
  pcfg :=
    { extra := []
      interface :=
        [{ toSetting := cameraSetting 0 [⟨0x81#8, 3#8, 8#16⟩] (by decide)
           altsetting := [cameraSetting 1 endpoint hfew]
           num_altsetting_lt := (by decide : 1 < 256) }]
      num_interface_lt := (by decide : 1 < 256) }
  maxPacketSize0 := 64#16
  devnum := 1#32

/-- Setting 1 of interface 0 is selected. -/
def selectSecond : SetInterface := ⟨0#8, 1#8, false⟩

/-- Setting 1 has the same endpoint, with bigger packets. -/
def bigPackets : UsbConfig := camera [⟨0x81#8, 3#8, 64#16⟩] (by decide)

/-- Setting 1 has no endpoints. -/
def noEndpoints : UsbConfig := camera [] (by decide)

theorem endpoint_table_iff_bigPackets :
    ∃ last, (interfaceMachine bigPackets).run (createUsbDevice bigPackets) [selectSecond] =
        some (last, [.success]) ∧ last.Agrees bigPackets := by
  have hvisited : (interfaceMachine bigPackets).visited (createUsbDevice bigPackets)
      [selectSecond] = [(createUsbDevice bigPackets, selectSecond)] := rfl
  have hrun : (interfaceMachine bigPackets).run (createUsbDevice bigPackets) [selectSecond] =
      some ((usbSetInterface bigPackets (createUsbDevice bigPackets) selectSecond).1,
        [.success]) := rfl
  refine ⟨_, hrun, ((endpoint_table_iff hrun ?_ ?_).mpr ⟨?_, ?_, ?_⟩).2.2⟩
  · rw [hvisited]
    unfold Distinct
    decide
  · unfold Distinct
    decide
  · decide
  · unfold ControlDistinct
    decide
  · rw [hvisited, List.forall_mem_singleton]
    intro ui iface hswitches
    obtain ⟨rfl, rfl⟩ := Prod.mk.inj (Option.some.inj hswitches)
    refine ⟨?_, ?_⟩
    · unfold UsbDevice.Keeps
      decide
    · unfold ControlDistinct
      decide

/-- The entry of the endpoint `0x81` survives the switch to a setting that has none. -/
theorem endpoint_table_stale :
    ∃ last, (interfaceMachine noEndpoints).run (createUsbDevice noEndpoints) [selectSecond] =
        some (last, [.success]) ∧
      Distinct noEndpoints (createUsbDevice noEndpoints).curAltsetting ∧
      Distinct noEndpoints last.curAltsetting ∧
      (last.ep (true, 1)).isSome ∧
      (¬ ∃ uhe ∈ selected noEndpoints last.curAltsetting, uhe.address = (true, 1)) ∧
      ¬ last.Agrees noEndpoints := by
  refine ⟨(usbSetInterface noEndpoints (createUsbDevice noEndpoints) selectSecond).1, rfl,
    ?_, ?_, rfl, ?_, fun hagrees => ?_⟩
  · unfold Distinct
    decide
  · unfold Distinct
    decide
  · decide
  · obtain ⟨uhe, hmem, -⟩ := (hagrees (true, 1) (by decide) (by decide)).1.mp rfl
    revert uhe
    decide

end Webcamd.Kernel.Usb
