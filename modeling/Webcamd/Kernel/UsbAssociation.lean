import Webcamd.Kernel.UsbConstruct

/-!
# Interface associations

An interface association descriptor groups interfaces with consecutive numbers into one function
of the device.  `usb_linux_create_usb_device` collects these descriptors in its second pass, from
the configuration, the settings and the endpoints, and then looks up one for every interface.

* `associations` — the descriptors that are collected, as a function of the configuration.
* `findIad`, `createUsbDevice` — the search, and the loop that resolves the associations.  The
  number that it looks up is that of the first *alternate* of the interface.
* `createUsbDevice_associated_iff` — every interface gets the association of its own number
  exactly when every one has an alternate whose number finds the same association.
-/

namespace Webcamd.Kernel.UsbConstruct

/-! ### Ranges of interface numbers -/

def ExtraDescriptor.bFirstInterface (pdesc : ExtraDescriptor) : BitVec 8 := pdesc.body.getD 0 0

def ExtraDescriptor.bInterfaceCount (pdesc : ExtraDescriptor) : BitVec 8 := pdesc.body.getD 1 0

/-- `usb_find_iad`; the arithmetic is that of `int`. -/
def findIad (inum : BitVec 8) : List ExtraDescriptor → Option ExtraDescriptor
  | [] => none
  | intfAssoc :: rest =>
      if intfAssoc.bInterfaceCount = 0 then findIad inum rest
      else
        let firstIntf : ℤ := intfAssoc.bFirstInterface.toNat
        let lastIntf : ℤ := firstIntf + intfAssoc.bInterfaceCount.toNat - 1
        if firstIntf ≤ inum.toNat ∧ inum.toNat ≤ lastIntf then some intfAssoc
        else findIad inum rest

/-- The range of a descriptor contains an interface number. -/
def ExtraDescriptor.Contains (pdesc : ExtraDescriptor) (inum : BitVec 8) : Prop :=
  ∃ k < pdesc.bInterfaceCount.toNat, pdesc.bFirstInterface.toNat + k = inum.toNat

theorem contains_iff {pdesc : ExtraDescriptor} {inum : BitVec 8} : pdesc.Contains inum ↔
    pdesc.bFirstInterface.toNat ≤ inum.toNat ∧
      inum.toNat < pdesc.bFirstInterface.toNat + pdesc.bInterfaceCount.toNat := by
  constructor
  · rintro ⟨k, hk, hsum⟩
    omega
  · rintro ⟨hfirst, hlast⟩
    exact ⟨inum.toNat - pdesc.bFirstInterface.toNat, by omega, by omega⟩

instance (pdesc : ExtraDescriptor) (inum : BitVec 8) : Decidable (pdesc.Contains inum) :=
  decidable_of_iff' _ contains_iff

/-- The first descriptor whose range contains the number. -/
def firstContaining (intfAssoc : List ExtraDescriptor) (inum : BitVec 8) :
    Option ExtraDescriptor :=
  intfAssoc.find? fun pdesc => decide (pdesc.Contains inum)

/-- **The search finds the first range** that contains the number. -/
theorem findIad_eq (intfAssoc : List ExtraDescriptor) (inum : BitVec 8) :
    findIad inum intfAssoc = firstContaining intfAssoc inum := by
  induction intfAssoc with
  | nil => rfl
  | cons pdesc rest ih =>
      rw [findIad, firstContaining, List.find?_cons]
      by_cases hempty : pdesc.bInterfaceCount = 0
      · have hnot : ¬ pdesc.Contains inum := by
          rintro ⟨k, hk, -⟩
          rw [hempty] at hk
          exact Nat.not_lt_zero k hk
        rw [if_pos hempty, decide_eq_false hnot]
        exact ih
      · have hrange : ((pdesc.bFirstInterface.toNat : ℤ) ≤ inum.toNat ∧
            (inum.toNat : ℤ) ≤
              pdesc.bFirstInterface.toNat + pdesc.bInterfaceCount.toNat - 1) ↔
            pdesc.Contains inum := by
          rw [contains_iff]
          omega
        rw [if_neg hempty]
        by_cases hin : pdesc.Contains inum
        · rw [decide_eq_true hin]
          exact if_pos (hrange.mpr hin)
        · rw [decide_eq_false hin]
          exact (if_neg (mt hrange.mp hin)).trans ih

/-! ### What is collected -/

/-- **The associations of a device**: the first `USB_MAXIADS` of the configuration and of the
settings that are visited. -/
def Libusb20Config.associations (pcfg : Libusb20Config) : List ExtraDescriptor :=
  ((pcfg.extra ++ pcfg.visited.flatMap Setting.extras).filter ExtraDescriptor.isIad).take 16

theorem collectIads_eq (extra : List ExtraDescriptor) (filling : Filling)
    (hroom : filling.intfAssoc.length ≤ 16) :
    (extra.foldl Filling.collectIad filling).intfAssoc =
      (filling.intfAssoc ++ extra.filter ExtraDescriptor.isIad).take 16 := by
  induction extra generalizing filling with
  | nil =>
      rw [List.filter_nil, List.append_nil]
      exact (List.take_of_length_le hroom).symm
  | cons pdesc extra ih =>
      rw [List.foldl_cons, List.filter_cons]
      by_cases hiad : pdesc.isIad = true
      · by_cases hfull : filling.intfAssoc.length = 16
        · -- there is no room, for this one or a later one
          have hstays : filling.collectIad pdesc = filling := if_neg fun h => h.2 hfull
          rw [hstays, ih filling hroom, if_pos hiad, List.take_append_of_le_length hfull.ge,
            List.take_append_of_le_length hfull.ge]
        · have hcollects : filling.collectIad pdesc =
              { filling with intfAssoc := filling.intfAssoc ++ [pdesc] } := if_pos ⟨hiad, hfull⟩
          rw [hcollects, ih _ ?_, if_pos hiad, List.append_assoc, List.singleton_append]
          rw [List.length_append, List.length_singleton]
          omega
      · have hstays : filling.collectIad pdesc = filling := if_neg fun h => hiad h.1
        rw [hstays, ih filling hroom, if_neg hiad]

/-- **The second pass collects the associations.** -/
theorem secondPass_intfAssoc {pcfg : Libusb20Config} {filling : Filling}
    (h : secondPass pcfg = some filling) : filling.intfAssoc = pcfg.associations := by
  rw [secondPass_eq] at h
  obtain rfl := Option.some.inj h
  exact collectIads_eq _ ⟨[], [], [], []⟩ (Nat.zero_le 16)

/-! ### Resolving them -/

/-- *resolve all IADs*: `id->altsetting[0]` may not be there. -/
def resolveIads (intfAssoc : List ExtraDescriptor) :
    List Libusb20Interface → List UsbInterface → Option (List UsbInterface)
  | [], _ => some []
  | _ :: _, [] => none
  | id :: ids, ui :: uis =>
      id.altsetting[0]?.bind fun alt =>
        (resolveIads intfAssoc ids uis).map fun rest =>
          { ui with intfAssoc := findIad alt.desc.bInterfaceNumber intfAssoc } :: rest

/-- `usb_linux_create_usb_device`, from the first pass up to the associations.  `none` is an
access beyond an array. -/
def createUsbDevice (pcfg : Libusb20Config) : Option Filling :=
  (secondPass pcfg).bind fun filling =>
    if filling.Inside (firstPass pcfg) then
      (resolveIads filling.intfAssoc pcfg.configured filling.ui).map fun ui =>
        { filling with ui := ui }
    else none

/-- **Every interface has the association of its own number**, and only alternates that exist
were read. -/
def Associated (pcfg : Libusb20Config) : Prop :=
  ∃ built, createUsbDevice pcfg = some built ∧
    ∀ (i : ℕ) (id : Libusb20Interface), pcfg.configured[i]? = some id →
      ∃ ui, built.ui[i]? = some ui ∧
        ui.intfAssoc = firstContaining built.intfAssoc id.desc.bInterfaceNumber

/-- The first alternate of an interface finds what the interface itself would find. -/
def SameAssociation (intfAssoc : List ExtraDescriptor) (id : Libusb20Interface) : Prop :=
  ∃ alt, id.altsetting[0]? = some alt ∧
    firstContaining intfAssoc alt.desc.bInterfaceNumber =
      firstContaining intfAssoc id.desc.bInterfaceNumber

/-- **The loop** resolves all associations, as long as there are alternates to read. -/
theorem resolveIads_iff {intfAssoc : List ExtraDescriptor} (ids : List Libusb20Interface)
    (uis : List UsbInterface) (hlength : ids.length = uis.length) :
    (∃ resolved, resolveIads intfAssoc ids uis = some resolved ∧
        ∀ (i : ℕ) (id : Libusb20Interface), ids[i]? = some id →
          ∃ ui, resolved[i]? = some ui ∧
            ui.intfAssoc = firstContaining intfAssoc id.desc.bInterfaceNumber) ↔
      ∀ id ∈ ids, SameAssociation intfAssoc id := by
  induction ids generalizing uis with
  | nil =>
      refine iff_of_true ⟨[], rfl, fun i id hid => ?_⟩ fun id hmem => absurd hmem List.not_mem_nil
      cases hid
  | cons id ids ih =>
      cases uis with
      | nil => cases hlength
      | cons ui uis =>
          have hrest := ih uis (Nat.succ.inj hlength)
          rw [List.forall_mem_cons, ← hrest, resolveIads]
          constructor
          · rintro ⟨resolved, hresolve, hall⟩
            obtain ⟨alt, halt, hresolve⟩ := Option.bind_eq_some_iff.mp hresolve
            obtain ⟨rest, hloop, rfl⟩ := Option.map_eq_some_iff.mp hresolve
            refine ⟨⟨alt, halt, ?_⟩, rest, hloop, fun i other hother => hall (i + 1) other hother⟩
            obtain ⟨first, hfirst, hassoc⟩ := hall 0 id rfl
            obtain rfl := Option.some.inj hfirst
            rw [← findIad_eq]
            exact hassoc
          · rintro ⟨⟨alt, halt, hsame⟩, rest, hloop, hall⟩
            rw [halt, hloop]
            refine ⟨_, rfl, fun i other hother => ?_⟩
            cases i with
            | zero =>
                obtain rfl := Option.some.inj hother
                refine ⟨_, rfl, ?_⟩
                rw [← hsame]
                exact findIad_eq _ _
            | succ i => exact hall i other hother

/-- **Every interface gets the association of its own number** exactly when there is room for the
endpoints, every interface has an alternate, and the number of the first one finds the same
association. -/
theorem createUsbDevice_associated_iff (pcfg : Libusb20Config) :
    Associated pcfg ↔
      (pcfg.visited.flatMap Setting.endpoints).length ≤ pcfg.endpoints.length % 2 ^ 16 ∧
        ∀ id ∈ pcfg.configured, SameAssociation pcfg.associations id := by
  obtain ⟨filling, hpass⟩ : ∃ filling, secondPass pcfg = some filling := ⟨_, secondPass_eq pcfg⟩
  have hlength : pcfg.configured.length = filling.ui.length := by
    rw [secondPass_eq] at hpass
    obtain rfl := Option.some.inj hpass
    exact (interfaceRecords_length 0 0 pcfg.configured).symm
  rw [← secondPass_intfAssoc hpass, ← resolveIads_iff pcfg.configured filling.ui hlength,
    ← secondPass_inside_iff hpass]
  constructor
  · rintro ⟨built, hcreate, hall⟩
    rw [createUsbDevice, hpass, Option.bind_some] at hcreate
    split at hcreate
    · rename_i hinside
      obtain ⟨ui, hresolve, rfl⟩ := Option.map_eq_some_iff.mp hcreate
      exact ⟨hinside, ui, hresolve, hall⟩
    · cases hcreate
  · rintro ⟨hinside, ui, hresolve, hall⟩
    refine ⟨{ filling with ui := ui }, ?_, hall⟩
    rw [createUsbDevice, hpass, Option.bind_some, if_pos hinside, hresolve]
    rfl

/-- A camera: its control interface has no alternates, and is associated with the next one. -/
def camera : Libusb20Config where
  extra := [⟨0, 8, 0x0B, [0, 2, 14, 3, 0, 0]⟩]
  interface :=
    [{ emptySetting with
       altsetting := []
       num_altsetting_lt := emptySetting.num_endpoints_lt }]
  num_interface_lt := by decide

/-- Its resolution reads an alternate that does not exist. -/
theorem camera_not_associated : ¬ Associated camera := by
  rintro ⟨built, hcreate, -⟩
  have hreads : createUsbDevice camera = none := rfl
  rw [hreads] at hcreate
  cases hcreate

end Webcamd.Kernel.UsbConstruct
