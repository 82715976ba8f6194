import Webcamd.Kernel.UsbProbe

/-!
# Building a USB device

`usb_linux_create_usb_device` of `kernel/linux_usb.c` goes over the configuration that
`libusb20` has parsed twice.  The first pass counts endpoints, interfaces and settings, for one
allocation that holds an array of each; the second pass fills the three arrays.

* `Libusb20Config` — what `libusb20` has parsed.
* `firstPass` — the counts, in sixteen bits.
* `secondPass` — what is written to the three arrays, in order, and the interface association
  descriptors that are collected on the way.
* `secondPass_eq` — what is written, as a function of the configuration.  The settings of an
  interface with 255 alternates are not visited, since `num_altsetting` has eight bits.
* `secondPass_builtAsCounted_iff` — the passes agree, and the arrays are what they are for,
  exactly when there is no such interface and the endpoints can be counted in sixteen bits.

`usb_linux_fill_ep_info`, called for the first setting of every interface, writes the arrays
`ep_in` and `ep_out` only; `Webcamd.Kernel.UsbInterface` is about these.
-/

namespace Webcamd.Kernel.UsbConstruct

open UsbProbe (InterfaceDesc)

/-! ### What is parsed -/

/-- A descriptor that `libusb20_desc_foreach` finds in an `extra` block. -/
structure ExtraDescriptor where
  /-- Where it is stored: `pdesc`. -/
  pdesc : ℕ
  bLength : BitVec 8
  bDescriptorType : BitVec 8
  /-- The other bytes. -/
  body : List (BitVec 8)
  deriving DecidableEq

/-- `struct LIBUSB20_INTERFACE_DESC_DECODED` -/
structure InterfaceDescriptor extends InterfaceDesc where
  bInterfaceNumber : BitVec 8
  bAlternateSetting : BitVec 8
  bNumEndpoints : BitVec 8
  iInterface : BitVec 8
  deriving DecidableEq

/-- `struct LIBUSB20_ENDPOINT_DESC_DECODED` -/
structure EndpointDescriptor where
  bEndpointAddress : BitVec 8
  bmAttributes : BitVec 8
  wMaxPacketSize : BitVec 16
  deriving DecidableEq

/-- `struct libusb20_endpoint` -/
structure Libusb20Endpoint where
  desc : EndpointDescriptor
  extra : List ExtraDescriptor
  deriving DecidableEq

/-- `struct libusb20_interface`, as an alternate of another one -/
structure Setting where
  desc : InterfaceDescriptor
  extra : List ExtraDescriptor
  endpoints : List Libusb20Endpoint
  /-- `num_endpoints` is a `uint8_t`. -/
  num_endpoints_lt : endpoints.length < 256
  deriving DecidableEq

/-- `struct libusb20_interface` -/
structure Libusb20Interface extends Setting where
  altsetting : List Setting
  /-- `num_altsetting` is a `uint8_t`. -/
  num_altsetting_lt : altsetting.length < 256
  deriving DecidableEq

/-- `struct libusb20_config` -/
structure Libusb20Config where
  extra : List ExtraDescriptor
  interface : List Libusb20Interface
  /-- `num_interface` is a `uint8_t`. -/
  num_interface_lt : interface.length < 256

/-- All settings of an interface, itself first. -/
def Libusb20Interface.settings (id : Libusb20Interface) : List Setting :=
  id.toSetting :: id.altsetting

/-- The interfaces up to `num_config_iface`: at most `USB_LINUX_IFACE_MAX`. -/
def Libusb20Config.configured (pcfg : Libusb20Config) : List Libusb20Interface :=
  pcfg.interface.take 32

/-! ### The first pass -/

structure Counts where
  nedesc : BitVec 16
  ifaceIndex : BitVec 16
  nifaceTotal : BitVec 16

/-- The inner loop of the first pass. -/
def Counts.alternate (counts : Counts) (aid : Setting) : Counts :=
  { counts with
    nedesc := counts.nedesc + BitVec.ofNat 16 aid.endpoints.length
    nifaceTotal := counts.nifaceTotal + 1 }

def Counts.interface (counts : Counts) (id : Libusb20Interface) : Counts :=
  id.altsetting.foldl Counts.alternate
    { ifaceIndex := counts.ifaceIndex + 1
      nifaceTotal := counts.nifaceTotal + 1
      nedesc := counts.nedesc + BitVec.ofNat 16 id.endpoints.length }

/-- **The first pass.** -/
def firstPass (pcfg : Libusb20Config) : Counts :=
  pcfg.configured.foldl Counts.interface ⟨0, 0, 0⟩

/-! ### The second pass -/

/-- `struct usb_host_endpoint` -/
structure UsbHostEndpoint where
  desc : EndpointDescriptor
  /-- The six bytes of `ss_ep_comp`. -/
  ssEpComp : List (BitVec 8)
  extra : List ExtraDescriptor
  bsdIfaceIndex : BitVec 8

/-- `struct usb_host_interface` -/
structure UsbHostInterface where
  desc : InterfaceDescriptor
  /-- `endpoint - bsd_endpoint_start` -/
  endpoint : ℕ
  extra : List ExtraDescriptor
  bsdIfaceIndex : BitVec 8

/-- `struct usb_interface`; its settings are counted from the first one of all. -/
structure UsbInterface where
  altsetting : ℕ
  curAltsetting : ℕ
  numAltsetting : BitVec 8
  bsdIfaceIndex : BitVec 8
  intfAssoc : Option ExtraDescriptor

/-- What has been written to the three arrays, in order, and to `intf_assoc`.  The next entries
are those that `p_uhe`, `p_ui`, `p_uhi` and `num_iad` point at. -/
structure Filling where
  uhe : List UsbHostEndpoint
  ui : List UsbInterface
  uhi : List UsbHostInterface
  intfAssoc : List ExtraDescriptor

/-- A descriptor that is long enough and has the type of an interface association. -/
def ExtraDescriptor.isIad (pdesc : ExtraDescriptor) : Bool :=
  8#8 ≤ pdesc.bLength && pdesc.bDescriptorType == 0x0B

/-- *Look for interface association descriptors*, one of them; `USB_MAXIADS` is sixteen. -/
def Filling.collectIad (filling : Filling) (pdesc : ExtraDescriptor) : Filling :=
  if pdesc.isIad ∧ filling.intfAssoc.length ≠ 16 then
    { filling with intfAssoc := filling.intfAssoc ++ [pdesc] }
  else filling

/-- *Look for the SuperSpeed endpoint companion descriptor*; there are zeros if there is none. -/
def findSsEpComp (extra : List ExtraDescriptor) : List (BitVec 8) :=
  match extra.find? fun pdesc => 6#8 ≤ pdesc.bLength && pdesc.bDescriptorType == 0x30 with
  | some pdesc => pdesc.bLength :: pdesc.bDescriptorType :: pdesc.body.take 4
  | none => List.replicate 6 0

/-- What the second pass writes for an endpoint of the `i`-th interface. -/
def Libusb20Endpoint.record (i : ℕ) (ed : Libusb20Endpoint) : UsbHostEndpoint where
  desc := ed.desc
  ssEpComp := findSsEpComp ed.extra
  extra := ed.extra
  bsdIfaceIndex := BitVec.ofNat 8 i

/-- What it writes for a setting, with its first endpoint at a place. -/
def Setting.record (ifaceIndex : BitVec 16) (endpoint : ℕ) (id : Setting) : UsbHostInterface where
  desc := { id.desc with bNumEndpoints := BitVec.ofNat 8 id.endpoints.length }
  endpoint := endpoint
  extra := id.extra
  bsdIfaceIndex := ifaceIndex.setWidth 8

/-- The innermost loop. -/
def Filling.endpoint (i : ℕ) (filling : Filling) (ed : Libusb20Endpoint) : Filling :=
  let collected := ed.extra.foldl Filling.collectIad filling
  { collected with uhe := collected.uhe ++ [ed.record i] }

/-- A round of the loop over the settings. -/
def Filling.setting (ifaceIndex : BitVec 16) (i : ℕ) (filling : Filling) (id : Setting) :
    Filling :=
  id.endpoints.foldl (Filling.endpoint i)
    (id.extra.foldl Filling.collectIad
      { filling with uhi := filling.uhi ++ [id.record ifaceIndex filling.uhe.length] })

/-- Where `id` points in the loop over the settings. -/
inductive SettingPtr where
  | interface
  | altsetting (j : ℕ)

def Libusb20Interface.deref (id : Libusb20Interface) : SettingPtr → Option Setting
  | .interface => some id.toSetting
  | .altsetting j => id.altsetting[j]?

/-- `if (j == 0) id = id->altsetting; else id++;` -/
def SettingPtr.next : SettingPtr → SettingPtr
  | .interface => .altsetting 0
  | .altsetting j => .altsetting (j + 1)

/-- The loop over the settings, for this many rounds.  `none` is a setting that is not there. -/
def Filling.settings (ifaceIndex : BitVec 16) (i : ℕ) (iface : Libusb20Interface) :
    ℕ → SettingPtr → Filling → Option Filling
  | 0, _, filling => some filling
  | rounds + 1, ptr, filling =>
      (iface.deref ptr).bind fun id =>
        Filling.settings ifaceIndex i iface rounds ptr.next (filling.setting ifaceIndex i id)

/-- `id->num_altsetting + 1`, as `p_ui->num_altsetting` holds it. -/
def Libusb20Interface.numAltsetting (id : Libusb20Interface) : BitVec 8 :=
  BitVec.ofNat 8 id.altsetting.length + 1

/-- What the second pass writes for an interface, with its first setting at a place. -/
def Libusb20Interface.record (i altsetting : ℕ) (id : Libusb20Interface) : UsbInterface where
  altsetting := altsetting
  curAltsetting := altsetting
  numAltsetting := id.numAltsetting
  bsdIfaceIndex := BitVec.ofNat 8 i
  intfAssoc := none

/-- The loop over the interfaces. -/
def Filling.interfaces (ifaceIndex : BitVec 16) :
    ℕ → List Libusb20Interface → Filling → Option Filling
  | _, [], filling => some filling
  | i, id :: rest, filling =>
      (filling.settings ifaceIndex i id id.numAltsetting.toNat .interface).bind fun next =>
        Filling.interfaces ifaceIndex (i + 1) rest
          { next with ui := next.ui ++ [id.record i filling.uhi.length] }

/-- **The second pass.** -/
def secondPass (pcfg : Libusb20Config) : Option Filling :=
  Filling.interfaces (firstPass pcfg).ifaceIndex 0 pcfg.configured
    (pcfg.extra.foldl Filling.collectIad ⟨[], [], [], []⟩)

/-- What was written is inside the arrays. -/
def Filling.Inside (counts : Counts) (filling : Filling) : Prop :=
  filling.uhe.length ≤ counts.nedesc.toNat ∧ filling.ui.length ≤ counts.ifaceIndex.toNat ∧
    filling.uhi.length ≤ counts.nifaceTotal.toNat

instance (counts : Counts) (filling : Filling) : Decidable (filling.Inside counts) :=
  inferInstanceAs (Decidable (_ ∧ _ ∧ _))

/-! ### What it is for -/

/-- The settings of all interfaces, in order. -/
def Libusb20Config.settings (pcfg : Libusb20Config) : List Setting :=
  pcfg.configured.flatMap Libusb20Interface.settings

/-- The endpoints of all settings, in order. -/
def Libusb20Config.endpoints (pcfg : Libusb20Config) : List Libusb20Endpoint :=
  pcfg.settings.flatMap Setting.endpoints

/-- What an entry of the endpoint array was made of. -/
def UsbHostEndpoint.source (uhe : UsbHostEndpoint) : Libusb20Endpoint :=
  ⟨uhe.desc, uhe.extra⟩

/-- The endpoints that a setting points at. -/
def UsbHostInterface.endpoints (uhe : List UsbHostEndpoint) (uhi : UsbHostInterface) :
    List UsbHostEndpoint :=
  (uhe.drop uhi.endpoint).take uhi.desc.bNumEndpoints.toNat

/-- The settings that an interface points at. -/
def UsbInterface.settings (uhi : List UsbHostInterface) (ui : UsbInterface) :
    List UsbHostInterface :=
  (uhi.drop ui.altsetting).take ui.numAltsetting.toNat

/-- An entry describes a setting, and its endpoint pointer covers exactly its endpoints. -/
structure Describes (uhe : List UsbHostEndpoint) (id : Setting) (uhi : UsbHostInterface) :
    Prop where
  desc : uhi.desc = { id.desc with bNumEndpoints := BitVec.ofNat 8 id.endpoints.length }
  extra : uhi.extra = id.extra
  endpoints : (uhi.endpoints uhe).map UsbHostEndpoint.source = id.endpoints

/-- An entry describes an interface with all its settings. -/
structure DescribesInterface (filling : Filling) (id : Libusb20Interface) (ui : UsbInterface) :
    Prop where
  numAltsetting : ui.numAltsetting.toNat = 1 + id.altsetting.length
  settings : List.Forall₂ (Describes filling.uhe) id.settings (ui.settings filling.uhi)

/-- **The two passes agree**, and the arrays hold what they are for. -/
structure BuiltAsCounted (pcfg : Libusb20Config) (counts : Counts) (filling : Filling) :
    Prop where
  nedesc : filling.uhe.length = counts.nedesc.toNat
  ifaceIndex : filling.ui.length = counts.ifaceIndex.toNat
  nifaceTotal : filling.uhi.length = counts.nifaceTotal.toNat
  /-- The endpoints are written in order, each once. -/
  uhe : filling.uhe.map UsbHostEndpoint.source = pcfg.endpoints
  /-- So are the settings … -/
  uhi : List.Forall₂ (Describes filling.uhe) pcfg.settings filling.uhi
  /-- … and the interfaces. -/
  ui : List.Forall₂ (DescribesInterface filling) pcfg.configured filling.ui
  /-- The endpoints of a setting are behind those of the settings before it, … -/
  endpoint : ∀ (k : ℕ) (uhi : UsbHostInterface), filling.uhi[k]? = some uhi →
    uhi.endpoint = ((pcfg.settings.take k).flatMap Setting.endpoints).length
  /-- … and the settings of an interface behind those of the interfaces before it. -/
  altsetting : ∀ (i : ℕ) (ui : UsbInterface), filling.ui[i]? = some ui →
    ui.altsetting = ((pcfg.configured.take i).flatMap Libusb20Interface.settings).length ∧
      ui.curAltsetting = ui.altsetting

/-! ### What the second pass writes -/

/-- The settings that the loop over them visits. -/
def Libusb20Interface.visited (id : Libusb20Interface) : List Setting :=
  id.settings.take id.numAltsetting.toNat

/-- The entries for a row of settings whose first endpoint is at a place. -/
def settingRecords (ifaceIndex : BitVec 16) : ℕ → List Setting → List UsbHostInterface
  | _, [] => []
  | endpoint, id :: rest =>
      id.record ifaceIndex endpoint ::
        settingRecords ifaceIndex (endpoint + id.endpoints.length) rest

/-- The entries for a row of interfaces whose first setting is at a place. -/
def interfaceRecords : ℕ → ℕ → List Libusb20Interface → List UsbInterface
  | _, _, [] => []
  | i, altsetting, id :: rest =>
      id.record i altsetting :: interfaceRecords (i + 1) (altsetting + id.visited.length) rest

/-- The entries for the endpoints of a row of interfaces. -/
def endpointRecords : ℕ → List Libusb20Interface → List UsbHostEndpoint
  | _, [] => []
  | i, id :: rest =>
      (id.visited.flatMap Setting.endpoints).map (Libusb20Endpoint.record i) ++
        endpointRecords (i + 1) rest

/-- All descriptors in the `extra` blocks of a setting, in the order in which they are looked
at. -/
def Setting.extras (id : Setting) : List ExtraDescriptor :=
  id.extra ++ id.endpoints.flatMap Libusb20Endpoint.extra

/-- What is written between two states of the second pass: these entries, and the associations
among these descriptors as far as there is room. -/
structure Filling.Adds (filling next : Filling) (uhe : List UsbHostEndpoint)
    (ui : List UsbInterface) (uhi : List UsbHostInterface) (extra : List ExtraDescriptor) :
    Prop where
  uhe_eq : next.uhe = filling.uhe ++ uhe
  ui_eq : next.ui = filling.ui ++ ui
  uhi_eq : next.uhi = filling.uhi ++ uhi
  intfAssoc_eq : next.intfAssoc = (extra.foldl Filling.collectIad filling).intfAssoc

/-- What is collected depends on what was collected before. -/
theorem collectIads_intfAssoc (extra : List ExtraDescriptor) {filling other : Filling}
    (h : other.intfAssoc = filling.intfAssoc) :
    (extra.foldl Filling.collectIad other).intfAssoc =
      (extra.foldl Filling.collectIad filling).intfAssoc := by
  induction extra generalizing filling other with
  | nil => exact h
  | cons pdesc extra ih =>
      refine ih ?_
      simp only [Filling.collectIad, h]
      split <;> simp [h]

theorem Filling.Adds.trans {filling middle next : Filling} {uhe uhe' : List UsbHostEndpoint}
    {ui ui' : List UsbInterface} {uhi uhi' : List UsbHostInterface}
    {extra extra' : List ExtraDescriptor} (h : filling.Adds middle uhe ui uhi extra)
    (h' : middle.Adds next uhe' ui' uhi' extra') :
    filling.Adds next (uhe ++ uhe') (ui ++ ui') (uhi ++ uhi') (extra ++ extra') where
  uhe_eq := by rw [h'.uhe_eq, h.uhe_eq, List.append_assoc]
  ui_eq := by rw [h'.ui_eq, h.ui_eq, List.append_assoc]
  uhi_eq := by rw [h'.uhi_eq, h.uhi_eq, List.append_assoc]
  intfAssoc_eq := by
    rw [h'.intfAssoc_eq, List.foldl_append]
    exact collectIads_intfAssoc extra' h.intfAssoc_eq

section Loops

variable {ifaceIndex : BitVec 16} {i : ℕ}

/-- Collecting from a block leaves the arrays alone. -/
theorem collectIads_adds (extra : List ExtraDescriptor) (filling : Filling) :
    filling.Adds (extra.foldl Filling.collectIad filling) [] [] [] extra := by
  suffices h : (extra.foldl Filling.collectIad filling).uhe = filling.uhe ∧
      (extra.foldl Filling.collectIad filling).ui = filling.ui ∧
      (extra.foldl Filling.collectIad filling).uhi = filling.uhi by
    refine ⟨?_, ?_, ?_, rfl⟩
    · rw [h.1, List.append_nil]
    · rw [h.2.1, List.append_nil]
    · rw [h.2.2, List.append_nil]
  induction extra generalizing filling with
  | nil => exact ⟨rfl, rfl, rfl⟩
  | cons pdesc extra ih =>
      have hone : (filling.collectIad pdesc).uhe = filling.uhe ∧
          (filling.collectIad pdesc).ui = filling.ui ∧
          (filling.collectIad pdesc).uhi = filling.uhi := by
        rw [Filling.collectIad]
        split <;> exact ⟨rfl, rfl, rfl⟩
      obtain ⟨huhe, hui, huhi⟩ := ih (filling.collectIad pdesc)
      exact ⟨huhe.trans hone.1, hui.trans hone.2.1, huhi.trans hone.2.2⟩

theorem endpoint_adds (ed : Libusb20Endpoint) (filling : Filling) :
    filling.Adds (filling.endpoint i ed) [ed.record i] [] [] ed.extra := by
  have hcollect := collectIads_adds ed.extra filling
  refine ⟨?_, hcollect.ui_eq, hcollect.uhi_eq, hcollect.intfAssoc_eq⟩
  rw [Filling.endpoint, hcollect.uhe_eq, List.append_nil]

/-- **The innermost loop**, as a whole. -/
theorem endpoints_adds (eds : List Libusb20Endpoint) (filling : Filling) :
    filling.Adds (eds.foldl (Filling.endpoint i) filling)
      (eds.map (Libusb20Endpoint.record i)) [] [] (eds.flatMap Libusb20Endpoint.extra) := by
  induction eds generalizing filling with
  | nil => exact collectIads_adds [] filling
  | cons ed eds ih => exact (endpoint_adds ed filling).trans (ih _)

/-- **A round of the loop over the settings.** -/
theorem setting_adds (id : Setting) (filling : Filling) :
    filling.Adds (filling.setting ifaceIndex i id) (id.endpoints.map (Libusb20Endpoint.record i))
      [] [id.record ifaceIndex filling.uhe.length] id.extras := by
  have hpush : filling.Adds
      { filling with uhi := filling.uhi ++ [id.record ifaceIndex filling.uhe.length] }
      [] [] [id.record ifaceIndex filling.uhe.length] [] :=
    ⟨(List.append_nil _).symm, (List.append_nil _).symm, rfl, rfl⟩
  exact hpush.trans ((collectIads_adds id.extra _).trans (endpoints_adds id.endpoints _))

/-- A row of settings. -/
theorem settings_foldl_adds (ids : List Setting) (filling : Filling) :
    filling.Adds (ids.foldl (Filling.setting ifaceIndex i) filling)
      ((ids.flatMap Setting.endpoints).map (Libusb20Endpoint.record i)) []
      (settingRecords ifaceIndex filling.uhe.length ids) (ids.flatMap Setting.extras) := by
  induction ids generalizing filling with
  | nil => exact collectIads_adds [] filling
  | cons id ids ih =>
      have hfirst : filling.Adds (filling.setting ifaceIndex i id)
          (id.endpoints.map (Libusb20Endpoint.record i)) []
          [id.record ifaceIndex filling.uhe.length] id.extras := setting_adds id filling
      have hrest := ih (filling.setting ifaceIndex i id)
      rw [hfirst.uhe_eq, List.length_append, List.length_map] at hrest
      rw [List.flatMap_cons, List.map_append]
      exact hfirst.trans hrest

/-- Where the pointer of the loop is after some rounds. -/
def SettingPtr.index : SettingPtr → ℕ
  | .interface => 0
  | .altsetting j => j + 1

theorem deref_eq (iface : Libusb20Interface) (ptr : SettingPtr) :
    iface.deref ptr = iface.settings[ptr.index]? := by
  cases ptr <;> rfl

theorem index_next (ptr : SettingPtr) : ptr.next.index = ptr.index + 1 := by
  cases ptr <;> rfl

/-- **The loop over the settings** finds the settings that it visits. -/
theorem settings_eq {iface : Libusb20Interface} (rounds : ℕ) (ptr : SettingPtr)
    (filling : Filling) (hrounds : ptr.index + rounds ≤ iface.settings.length) :
    filling.settings ifaceIndex i iface rounds ptr =
      some (((iface.settings.drop ptr.index).take rounds).foldl
        (Filling.setting ifaceIndex i) filling) := by
  induction rounds generalizing ptr filling with
  | zero => rfl
  | succ rounds ih =>
      have hlt : ptr.index < iface.settings.length := by omega
      have hnext : ptr.next.index + rounds ≤ iface.settings.length := by
        rw [index_next]
        omega
      rw [Filling.settings, deref_eq, List.getElem?_eq_getElem hlt, Option.bind_some,
        ih ptr.next _ hnext, index_next, List.drop_eq_getElem_cons hlt]
      rfl

theorem settingRecords_length (endpoint : ℕ) (ids : List Setting) :
    (settingRecords ifaceIndex endpoint ids).length = ids.length := by
  induction ids generalizing endpoint with
  | nil => rfl
  | cons id ids ih => rw [settingRecords, List.length_cons, ih, List.length_cons]

theorem settingRecords_append (endpoint : ℕ) (ids ids' : List Setting) :
    settingRecords ifaceIndex endpoint (ids ++ ids') =
      settingRecords ifaceIndex endpoint ids ++
        settingRecords ifaceIndex (endpoint + (ids.flatMap Setting.endpoints).length) ids' := by
  induction ids generalizing endpoint with
  | nil => rfl
  | cons id ids ih =>
      rw [List.flatMap_cons, List.length_append, ← Nat.add_assoc]
      exact congrArg _ (ih _)

/-- An interface has at most as many settings as it is visited for. -/
theorem numAltsetting_le (id : Libusb20Interface) :
    id.numAltsetting.toNat ≤ id.settings.length := by
  have hlt := id.num_altsetting_lt
  rw [Libusb20Interface.numAltsetting, BitVec.toNat_add, BitVec.toNat_ofNat,
    Libusb20Interface.settings, List.length_cons]
  exact (Nat.mod_le _ _).trans (Nat.add_le_add_right (Nat.mod_le _ _) 1)

/-- **The loop over the interfaces**, as a whole. -/
theorem interfaces_adds (ids : List Libusb20Interface) (i : ℕ) (filling : Filling) :
    ∃ last, filling.interfaces ifaceIndex i ids = some last ∧
      filling.Adds last (endpointRecords i ids) (interfaceRecords i filling.uhi.length ids)
        (settingRecords ifaceIndex filling.uhe.length (ids.flatMap Libusb20Interface.visited))
        ((ids.flatMap Libusb20Interface.visited).flatMap Setting.extras) := by
  induction ids generalizing i filling with
  | nil => exact ⟨filling, rfl, collectIads_adds [] filling⟩
  | cons id ids ih =>
      have hloop : filling.settings ifaceIndex i id id.numAltsetting.toNat .interface =
          some (id.visited.foldl (Filling.setting ifaceIndex i) filling) := by
        refine settings_eq id.numAltsetting.toNat .interface filling ?_
        rw [SettingPtr.index, Nat.zero_add]
        exact numAltsetting_le id
      have hrow := @settings_foldl_adds ifaceIndex i id.visited filling
      let next := id.visited.foldl (Filling.setting ifaceIndex i) filling
      let pushed : Filling := { next with ui := next.ui ++ [id.record i filling.uhi.length] }
      have hpushed : filling.Adds pushed
          ((id.visited.flatMap Setting.endpoints).map (Libusb20Endpoint.record i))
          [id.record i filling.uhi.length]
          (settingRecords ifaceIndex filling.uhe.length id.visited)
          (id.visited.flatMap Setting.extras) := by
        refine ⟨hrow.uhe_eq, ?_, hrow.uhi_eq, hrow.intfAssoc_eq⟩
        show next.ui ++ _ = _
        rw [hrow.ui_eq, List.append_nil]
      obtain ⟨last, hlast, hrest⟩ := ih (i + 1) pushed
      rw [hpushed.uhe_eq, hpushed.uhi_eq, List.length_append, List.length_append,
        List.length_map, settingRecords_length] at hrest
      refine ⟨last, ?_, ?_⟩
      · rw [Filling.interfaces, hloop]
        exact hlast
      · rw [List.flatMap_cons, List.flatMap_append, settingRecords_append]
        exact hpushed.trans hrest

end Loops

/-- **What the second pass writes**, for every configuration. -/
theorem secondPass_eq (pcfg : Libusb20Config) : secondPass pcfg = some
    { uhe := endpointRecords 0 pcfg.configured
      ui := interfaceRecords 0 0 pcfg.configured
      uhi := settingRecords (firstPass pcfg).ifaceIndex 0
        (pcfg.configured.flatMap Libusb20Interface.visited)
      intfAssoc :=
        ((pcfg.extra ++ (pcfg.configured.flatMap Libusb20Interface.visited).flatMap
          Setting.extras).foldl Filling.collectIad ⟨[], [], [], []⟩).intfAssoc } := by
  have hcollect := collectIads_adds pcfg.extra ⟨[], [], [], []⟩
  obtain ⟨last, hlast, hadds⟩ := @interfaces_adds (firstPass pcfg).ifaceIndex pcfg.configured 0
    (pcfg.extra.foldl Filling.collectIad ⟨[], [], [], []⟩)
  rw [hcollect.uhe_eq, hcollect.uhi_eq] at hadds
  have hall := hcollect.trans hadds
  rw [secondPass, hlast]
  obtain ⟨uhe, ui, uhi, intfAssoc⟩ := last
  obtain ⟨rfl, rfl, rfl, rfl⟩ := hall
  rfl

/-! ### What the first pass counts -/

theorem alternates_eq (aids : List Setting) (counts : Counts) :
    aids.foldl Counts.alternate counts =
      { counts with
        nedesc := counts.nedesc + BitVec.ofNat 16 (aids.flatMap Setting.endpoints).length
        nifaceTotal := counts.nifaceTotal + BitVec.ofNat 16 aids.length } := by
  induction aids generalizing counts with
  | nil => simp
  | cons aid aids ih =>
      rw [List.foldl_cons, ih, List.flatMap_cons, List.length_append, List.length_cons,
        BitVec.ofNat_add, BitVec.ofNat_add, Counts.alternate]
      simp only [BitVec.add_assoc, BitVec.add_comm (BitVec.ofNat 16 aids.length)]
      rfl

/-- A round of the first pass counts an interface with its settings and their endpoints. -/
theorem interface_eq (id : Libusb20Interface) (counts : Counts) :
    counts.interface id =
      { nedesc := counts.nedesc +
          BitVec.ofNat 16 (id.settings.flatMap Setting.endpoints).length
        ifaceIndex := counts.ifaceIndex + 1
        nifaceTotal := counts.nifaceTotal + BitVec.ofNat 16 id.settings.length } := by
  rw [Counts.interface, alternates_eq, Libusb20Interface.settings, List.flatMap_cons,
    List.length_append, List.length_cons, BitVec.ofNat_add, BitVec.ofNat_add]
  simp only [BitVec.add_assoc, BitVec.add_comm (BitVec.ofNat 16 id.altsetting.length)]
  rfl

theorem interfaces_foldl_eq (ids : List Libusb20Interface) (counts : Counts) :
    ids.foldl Counts.interface counts =
      { nedesc := counts.nedesc + BitVec.ofNat 16
          ((ids.flatMap Libusb20Interface.settings).flatMap Setting.endpoints).length
        ifaceIndex := counts.ifaceIndex + BitVec.ofNat 16 ids.length
        nifaceTotal := counts.nifaceTotal +
          BitVec.ofNat 16 (ids.flatMap Libusb20Interface.settings).length } := by
  induction ids generalizing counts with
  | nil => simp
  | cons id ids ih =>
      rw [List.foldl_cons, ih, interface_eq, List.flatMap_cons, List.flatMap_append,
        List.length_append, List.length_append, List.length_cons, BitVec.ofNat_add,
        BitVec.ofNat_add, BitVec.ofNat_add]
      simp only [BitVec.add_assoc, BitVec.add_comm (BitVec.ofNat 16 ids.length)]
      rfl

/-- **The first pass counts** everything, in sixteen bits. -/
theorem firstPass_eq (pcfg : Libusb20Config) : firstPass pcfg =
    ⟨BitVec.ofNat 16 pcfg.endpoints.length, BitVec.ofNat 16 pcfg.configured.length,
      BitVec.ofNat 16 pcfg.settings.length⟩ := by
  rw [firstPass, interfaces_foldl_eq]
  simp [Libusb20Config.endpoints, Libusb20Config.settings]

/-- There are at most thirty-two interfaces … -/
theorem configured_length_le (pcfg : Libusb20Config) : pcfg.configured.length ≤ 32 :=
  List.length_take_le 32 pcfg.interface

/-- … so the settings can be counted. -/
theorem settings_length_le (pcfg : Libusb20Config) : pcfg.settings.length ≤ 32 * 256 := by
  have hall : ∀ ids : List Libusb20Interface,
      (ids.flatMap Libusb20Interface.settings).length ≤ ids.length * 256 := by
    intro ids
    induction ids with
    | nil => exact le_rfl
    | cons id ids ih =>
        have hlt := id.num_altsetting_lt
        rw [List.flatMap_cons, List.length_append, List.length_cons, Libusb20Interface.settings,
          List.length_cons]
        omega
  exact (hall pcfg.configured).trans (Nat.mul_le_mul_right 256 (configured_length_le pcfg))

/-! ### Whether the passes agree -/

/-- All settings of an interface are visited, unless there are 256 of them. -/
theorem visited_eq (id : Libusb20Interface) :
    id.visited = if id.altsetting.length = 255 then [] else id.settings := by
  have hlt := id.num_altsetting_lt
  have hnum : id.numAltsetting.toNat = (id.altsetting.length + 1) % 256 := by
    rw [Libusb20Interface.numAltsetting, BitVec.toNat_add, BitVec.toNat_ofNat]
    show (id.altsetting.length % 256 + 1) % 256 = _
    rw [Nat.mod_eq_of_lt hlt]
  rw [Libusb20Interface.visited, hnum]
  split_ifs with hmany
  · rw [hmany]
    rfl
  · refine List.take_of_length_le ?_
    rw [Libusb20Interface.settings, List.length_cons]
    omega

/-- The entries of the endpoints were made of the endpoints. -/
theorem endpointRecords_source (i : ℕ) (ids : List Libusb20Interface) :
    (endpointRecords i ids).map UsbHostEndpoint.source =
      (ids.flatMap Libusb20Interface.visited).flatMap Setting.endpoints := by
  induction ids generalizing i with
  | nil => rfl
  | cons iface ids ih =>
      have hsource : UsbHostEndpoint.source ∘ Libusb20Endpoint.record i = id := rfl
      rw [endpointRecords, List.map_append, ih, List.map_map, hsource, List.map_id,
        List.flatMap_cons, List.flatMap_append]

/-- The entry of an interface. -/
theorem interfaceRecords_getElem? (i altsetting : ℕ) (ids : List Libusb20Interface) (j : ℕ) :
    (interfaceRecords i altsetting ids)[j]? = ids[j]?.map fun id => id.record (i + j)
      (altsetting + ((ids.take j).flatMap Libusb20Interface.visited).length) := by
  induction ids generalizing i altsetting j with
  | nil => rfl
  | cons id ids ih =>
      cases j with
      | zero => rfl
      | succ j =>
          rw [interfaceRecords, List.getElem?_cons_succ, ih, List.getElem?_cons_succ,
            List.take_succ_cons, List.flatMap_cons, List.length_append, Nat.add_right_comm i 1 j,
            Nat.add_assoc altsetting]
          rfl

/-- The entry of a setting. -/
theorem settingRecords_getElem? {ifaceIndex : BitVec 16} (endpoint : ℕ) (ids : List Setting)
    (k : ℕ) : (settingRecords ifaceIndex endpoint ids)[k]? = ids[k]?.map fun id =>
      id.record ifaceIndex (endpoint + ((ids.take k).flatMap Setting.endpoints).length) := by
  induction ids generalizing endpoint k with
  | nil => rfl
  | cons id ids ih =>
      cases k with
      | zero => rfl
      | succ k =>
          rw [settingRecords, List.getElem?_cons_succ, ih, List.getElem?_cons_succ,
            List.take_succ_cons, List.flatMap_cons, List.length_append, Nat.add_assoc]

theorem interfaceRecords_length (i altsetting : ℕ) (ids : List Libusb20Interface) :
    (interfaceRecords i altsetting ids).length = ids.length := by
  induction ids generalizing i altsetting with
  | nil => rfl
  | cons id ids ih => rw [interfaceRecords, List.length_cons, ih, List.length_cons]

/-- **The entries describe the settings**, if the endpoints are where they are looked for. -/
theorem settingRecords_describe {ifaceIndex : BitVec 16} {uhe : List UsbHostEndpoint}
    (ids : List Setting) (before after : List Libusb20Endpoint)
    (huhe : uhe.map UsbHostEndpoint.source =
      before ++ (ids.flatMap Setting.endpoints ++ after)) :
    List.Forall₂ (Describes uhe) ids (settingRecords ifaceIndex before.length ids) := by
  induction ids generalizing before with
  | nil => exact .nil
  | cons id ids ih =>
      rw [List.flatMap_cons, List.append_assoc] at huhe
      refine .cons ⟨rfl, rfl, ?_⟩ ?_
      · have hnum : (BitVec.ofNat 8 id.endpoints.length).toNat = id.endpoints.length := by
          rw [BitVec.toNat_ofNat]
          exact Nat.mod_eq_of_lt id.num_endpoints_lt
        show ((uhe.drop before.length).take (BitVec.ofNat 8 id.endpoints.length).toNat).map _ = _
        rw [hnum, List.map_take, List.map_drop, huhe, List.drop_left, List.take_left]
      · rw [← List.length_append]
        refine ih (before ++ id.endpoints) ?_
        rw [huhe, List.append_assoc]

/-- **The entries describe the interfaces**, if the settings are where they are looked for. -/
theorem interfaceRecords_describe {filling : Filling} (ids : List Libusb20Interface) (i : ℕ)
    (before : List Setting) (hmany : ∀ id ∈ ids, id.altsetting.length ≠ 255)
    (huhi : List.Forall₂ (Describes filling.uhe)
      (before ++ ids.flatMap Libusb20Interface.settings) filling.uhi) :
    List.Forall₂ (DescribesInterface filling) ids (interfaceRecords i before.length ids) := by
  induction ids generalizing i before with
  | nil => exact .nil
  | cons id ids ih =>
      have hvisited : id.visited = id.settings := by
        rw [visited_eq, if_neg (hmany id List.mem_cons_self)]
      have hnum : id.numAltsetting.toNat = id.settings.length := by
        refine le_antisymm (numAltsetting_le id) ?_
        rw [← hvisited]
        exact List.length_take_le _ _
      rw [List.flatMap_cons] at huhi
      refine .cons ⟨?_, ?_⟩ ?_
      · show id.numAltsetting.toNat = _
        rw [hnum, Libusb20Interface.settings, List.length_cons, Nat.add_comm]
      · show List.Forall₂ _ _ ((filling.uhi.drop before.length).take id.numAltsetting.toNat)
        have hhere := List.forall₂_take id.settings.length
          (List.forall₂_drop before.length huhi)
        rwa [List.drop_left, List.take_left, ← hnum] at hhere
      · rw [hvisited, ← List.length_append]
        refine ih (i + 1) (before ++ id.settings) (fun other hmem => ?_) ?_
        · exact hmany other (List.mem_cons_of_mem id hmem)
        · rwa [List.append_assoc]

/-- What a device that is built as counted says about the number of alternates … -/
theorem BuiltAsCounted.altsetting_ne {pcfg : Libusb20Config} {filling : Filling}
    (hpass : secondPass pcfg = some filling)
    (h : BuiltAsCounted pcfg (firstPass pcfg) filling) {id : Libusb20Interface}
    (hmem : id ∈ pcfg.configured) : id.altsetting.length ≠ 255 := by
  intro hmany
  rw [secondPass_eq] at hpass
  obtain rfl := Option.some.inj hpass
  obtain ⟨j, hj⟩ := List.getElem?_of_mem hmem
  obtain ⟨hlength, hall⟩ := List.forall₂_iff_get.mp h.ui
  obtain ⟨hlt, hid⟩ := List.getElem?_eq_some_iff.mp hj
  have hui := interfaceRecords_getElem? 0 0 pcfg.configured j
  rw [hj] at hui
  obtain ⟨hlt', hrecord⟩ := List.getElem?_eq_some_iff.mp hui
  have hnum := (hall j hlt hlt').numAltsetting
  simp only [List.get_eq_getElem] at hnum
  rw [hrecord, hid, hmany] at hnum
  -- the number of settings has wrapped around
  have hzero : id.numAltsetting.toNat = 0 := by
    rw [Libusb20Interface.numAltsetting, hmany]
    rfl
  exact absurd (hzero.symm.trans hnum) (by decide)

/-- … and about the number of endpoints. -/
theorem BuiltAsCounted.endpoints_lt {pcfg : Libusb20Config} {filling : Filling}
    (h : BuiltAsCounted pcfg (firstPass pcfg) filling) : pcfg.endpoints.length < 2 ^ 16 := by
  have hcount := h.nedesc
  rw [firstPass_eq, BitVec.toNat_ofNat, ← List.length_map UsbHostEndpoint.source, h.uhe]
    at hcount
  rw [hcount]
  exact Nat.mod_lt _ (Nat.two_pow_pos 16)

/-- **The passes agree** exactly when no interface has 255 alternates and there are less than
65536 endpoints. -/
theorem secondPass_builtAsCounted_iff (pcfg : Libusb20Config) :
    (∃ filling, secondPass pcfg = some filling ∧
        BuiltAsCounted pcfg (firstPass pcfg) filling) ↔
      (∀ id ∈ pcfg.configured, id.altsetting.length ≠ 255) ∧ pcfg.endpoints.length < 2 ^ 16 := by
  constructor
  · rintro ⟨filling, hpass, h⟩
    exact ⟨fun id => h.altsetting_ne hpass, h.endpoints_lt⟩
  · rintro ⟨hmany, hcount⟩
    have hall : ∀ id ∈ pcfg.configured, id.visited = id.settings := by
      intro id hmem
      rw [visited_eq, if_neg (hmany id hmem)]
    have hvisited : pcfg.configured.flatMap Libusb20Interface.visited = pcfg.settings :=
      List.flatMap_congr hall
    have huhe : (endpointRecords 0 pcfg.configured).map UsbHostEndpoint.source =
        pcfg.endpoints := by
      rw [endpointRecords_source, hvisited]
      rfl
    have huhi : List.Forall₂ (Describes (endpointRecords 0 pcfg.configured)) pcfg.settings
        (settingRecords (firstPass pcfg).ifaceIndex 0 pcfg.settings) := by
      refine settingRecords_describe pcfg.settings [] [] ?_
      rw [huhe, List.append_nil]
      rfl
    refine ⟨_, secondPass_eq pcfg, ?_, ?_, ?_, huhe, ?_, ?_, fun k uhi hk => ?_,
      fun i ui hi => ?_⟩
    · show (endpointRecords 0 pcfg.configured).length = _
      rw [← List.length_map UsbHostEndpoint.source, huhe, firstPass_eq, BitVec.toNat_ofNat,
        Nat.mod_eq_of_lt hcount]
    · have hle := configured_length_le pcfg
      show (interfaceRecords 0 0 pcfg.configured).length = _
      rw [interfaceRecords_length, firstPass_eq, BitVec.toNat_ofNat, Nat.mod_eq_of_lt (by omega)]
    · have hle := settings_length_le pcfg
      show (settingRecords _ 0 (pcfg.configured.flatMap Libusb20Interface.visited)).length = _
      rw [settingRecords_length, hvisited, firstPass_eq, BitVec.toNat_ofNat,
        Nat.mod_eq_of_lt (by omega)]
    · show List.Forall₂ _ _ (settingRecords _ 0 (pcfg.configured.flatMap _))
      rw [hvisited]
      exact huhi
    · refine interfaceRecords_describe pcfg.configured 0 [] hmany ?_
      show List.Forall₂ _ _ (settingRecords _ 0 (pcfg.configured.flatMap _))
      rw [hvisited]
      exact huhi
    · rw [settingRecords_getElem?, Option.map_eq_some_iff] at hk
      obtain ⟨id, -, rfl⟩ := hk
      rw [hvisited]
      exact Nat.zero_add _
    · rw [interfaceRecords_getElem?, Option.map_eq_some_iff] at hi
      obtain ⟨id, -, rfl⟩ := hi
      refine ⟨?_, rfl⟩
      rw [← List.flatMap_congr fun id hmem => hall id (List.mem_of_mem_take hmem)]
      exact Nat.zero_add _

/-- The settings that the second pass visits, in order. -/
def Libusb20Config.visited (pcfg : Libusb20Config) : List Setting :=
  pcfg.configured.flatMap Libusb20Interface.visited

/-- **The second pass stays inside the arrays** exactly when there is room for the endpoints that
it visits, among all endpoints as they are counted. -/
theorem secondPass_inside_iff {pcfg : Libusb20Config} {filling : Filling}
    (h : secondPass pcfg = some filling) : filling.Inside (firstPass pcfg) ↔
      (pcfg.visited.flatMap Setting.endpoints).length ≤ pcfg.endpoints.length % 2 ^ 16 := by
  rw [secondPass_eq] at h
  obtain rfl := Option.some.inj h
  have hle := configured_length_le pcfg
  have hsettings := settings_length_le pcfg
  have huhe : (endpointRecords 0 pcfg.configured).length =
      (pcfg.visited.flatMap Setting.endpoints).length := by
    rw [← List.length_map UsbHostEndpoint.source, endpointRecords_source]
    rfl
  have hvisited : pcfg.visited.length ≤ pcfg.settings.length := by
    rw [Libusb20Config.visited, Libusb20Config.settings, List.length_flatMap,
      List.length_flatMap]
    exact List.sum_le_sum fun id _ => List.length_take_le' _ _
  rw [Filling.Inside, firstPass_eq, BitVec.toNat_ofNat, BitVec.toNat_ofNat, BitVec.toNat_ofNat,
    Nat.mod_eq_of_lt (show pcfg.configured.length < 2 ^ 16 by omega),
    Nat.mod_eq_of_lt (show pcfg.settings.length < 2 ^ 16 by omega), interfaceRecords_length,
    settingRecords_length, huhe]
  exact ⟨fun hall => hall.1, fun hroom => ⟨hroom, le_rfl, hvisited⟩⟩

/-- A setting without endpoints. -/
def emptySetting : Setting where
  desc := ⟨⟨0xFF, 0, 0⟩, 0, 0, 0, 0⟩
  extra := []
  endpoints := []
  num_endpoints_lt := Nat.succ_pos 255

/-- A device with one interface, which has 256 settings. -/
def manySettings : Libusb20Config where
  extra := []
  interface :=
    [{ toSetting := emptySetting
       altsetting := List.replicate 255 emptySetting
       num_altsetting_lt := by
         rw [List.length_replicate]
         exact Nat.lt_succ_self 255 }]
  num_interface_lt := by decide

/-- The second pass writes none of them. -/
theorem manySettings_not_builtAsCounted : ¬ ∃ filling, secondPass manySettings = some filling ∧
    BuiltAsCounted manySettings (firstPass manySettings) filling := by
  rintro ⟨filling, hpass, h⟩
  exact h.altsetting_ne hpass (List.mem_singleton.mpr rfl) List.length_replicate

end Webcamd.Kernel.UsbConstruct
