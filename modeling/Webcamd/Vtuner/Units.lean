import Webcamd.Kernel.Cdev

/-!
# Unit numbers

A program opens a registered device by a *unit number*, which is a class, an adapter and the
number of a device of that adapter in one.  Three places compute with it.

* `cdevGetDevice`, `cdevGetMm`, `linuxOpen` — `cdev_get_device`, `cdev_get_mm` and `linux_open`
  take it apart again.
* `v4bCreate` — how `v4b_create` of `webcamd.c` counts through all of them, to name what it can
  open.
* `vtunersInit` — `vtuners_init` of `vtuner/vtuner_server.c`: what the server opens for the front
  end, the recorder and the demultiplexer of each adapter.

`mem_v4bCreate_iff` is the agreement of the first two.  The server multiplies the class by the
number of adapters only, not by the number of devices of an adapter as well, and addresses
another class: `vtuner_units_iff` says when that makes no difference.

Which names and unit numbers the character device library hands out is left out, and so are the
sockets of the server; a configuration is there if it could listen on its two ports.
-/

namespace Webcamd.Vtuner.Units

open Webcamd.Kernel.Cdev

/-- The value of an enumerator. -/
def code : DevClass → ℕ
  | .video => 0
  | .dvbAudio => 1
  | .dvbCa => 2
  | .dvbDemux => 3
  | .dvbDvr => 4
  | .dvbFrontend => 5
  | .dvbOsd => 6
  | .dvbSec => 7
  | .dvbVideo => 8
  | .lirc => 9
  | .evdev => 10
  | .joydev => 11
  | .roccat => 12

/-- `F_V4B_MAX` -/
def v4bMax : ℕ := 13

/-- `F_V4B_SUBSUBDEV_MAX` -/
def subsubdevMax : ℕ := 4

/-- The row of the arrays `cdev_registry` and `cdev_mm`, if the number is one of a row. -/
def ofCode : ℕ → Option DevClass
  | 0 => some .video
  | 1 => some .dvbAudio
  | 2 => some .dvbCa
  | 3 => some .dvbDemux
  | 4 => some .dvbDvr
  | 5 => some .dvbFrontend
  | 6 => some .dvbOsd
  | 7 => some .dvbSec
  | 8 => some .dvbVideo
  | 9 => some .lirc
  | 10 => some .evdev
  | 11 => some .joydev
  | 12 => some .roccat
  | _ => none

/-- `fflags` -/
inductive OpenFlags where
  | rdonly
  | rdwr
  deriving DecidableEq

/-- `struct cdev_handle` -/
structure Handle (D : Type) where
  /-- `fixed_inode.i_cdev`, which `f_op` is from -/
  cdev : D
  /-- `fixed_inode.d_inode` -/
  mm : BitVec 32
  /-- `fixed_file.f_flags` -/
  flags : OpenFlags
  deriving DecidableEq

/-- `ops->open` of every device, if it has one: its result for a device number. -/
abbrev OpenOps (D : Type) := D → Option (BitVec 32 → OpenFlags → ℤ)

section

variable {D : Type}

/-- `cdev_get_device` -/
def cdevGetDevice (state : State D) (unit : ℕ) : Option D :=
  match ofCode (unit / subMax) with
  | some devClass => state.registry (devClass, unit % subMax)
  | none => none

/-- `cdev_get_mm` -/
def cdevGetMm (state : State D) (unit : ℕ) : BitVec 32 :=
  match ofCode (unit / subMax) with
  | some devClass => state.mm (devClass, unit % subMax)
  | none => 0

/-- `linux_open`; `hasMemory` is whether `malloc` succeeds. -/
def linuxOpen (ops : OpenOps D) (hasMemory : Bool) (state : State D) (unit : ℕ)
    (fflags : OpenFlags) : Option (Handle D) :=
  match cdevGetDevice state unit with
  | none => none
  | some cdev =>
      if hasMemory then
        let handle : Handle D := ⟨cdev, cdevGetMm state unit, fflags⟩
        match ops cdev with
        | none => some handle
        | some openOp => if openOp handle.mm handle.flags = 0 then some handle else none
      else none

end

/-- What `v4b_create` makes of the numbers it counts through: the name of a class with the number
of the adapter and of the device. -/
structure V4bName where
  devClass : Option DevClass
  adapter : ℕ
  device : ℕ

/-- The class, `p` and `q`. -/
def v4bName (n : ℕ) : V4bName where
  devClass := ofCode (n / (subsubdevMax * subdevMax))
  adapter := n % subdevMax
  device := n / subdevMax % subsubdevMax

/-- The loop of `v4b_create`: the numbers it makes a device for, and what it names them by. -/
def v4bCreate {D : Type} (ops : OpenOps D) (hasMemory : Bool) (state : State D) :
    List (ℕ × V4bName) :=
  ((List.range (v4bMax * subdevMax * subsubdevMax)).filter fun n =>
    (linuxOpen ops hasMemory state n .rdonly).isSome).map fun n => (n, v4bName n)

/-- `struct vtuners_config`, less its sockets. -/
structure Config where
  unit : ℕ
  mode : OpenFlags
  /-- the numbers that `cport` and `dport` spell -/
  cport : BitVec 32
  dport : BitVec 32
  deriving DecidableEq

/-- `vtuners_make_config`; `port` is the number in `vtuner_port`, and `listens` says where
`vtuners_listen` succeeds. -/
def vtunersMakeConfig (listens : BitVec 32 → Bool) (port : BitVec 32) (off unit : ℕ)
    (mode : OpenFlags) : Option Config :=
  let cport := port + BitVec.ofNat 32 off
  let dport := port + BitVec.ofNat 32 off + 1
  if listens cport = true ∧ listens dport = true then some ⟨unit, mode, cport, dport⟩ else none

/-- A configuration that a thread of the server listens for. -/
structure Served where
  adapter : ℕ
  devClass : DevClass
  config : Config
  deriving DecidableEq

/-- `CONFIG_DVB_MAX_ADAPTERS` -/
def dvbMaxAdapters : ℕ := 8

/-- The number of adapters that `vtuner_max_unit` stands for. -/
def servedAdapters (vtunerMaxUnit : ℤ) : ℕ :=
  if vtunerMaxUnit < 0 ∨ vtunerMaxUnit > dvbMaxAdapters then dvbMaxAdapters
  else vtunerMaxUnit.toNat

/-- `vtuners_init` -/
def vtunersInit (listens : BitVec 32 → Bool) (port : BitVec 32) (vtunerMaxUnit : ℤ) :
    List Served :=
  (List.range (servedAdapters vtunerMaxUnit)).flatMap fun u =>
    ((vtunersMakeConfig listens port (0 + 8 * u) (subdevMax * code .dvbFrontend + u) .rdwr).map
        (Served.mk u .dvbFrontend)).toList ++
      ((vtunersMakeConfig listens port (2 + 8 * u) (subdevMax * code .dvbDvr + u) .rdonly).map
        (Served.mk u .dvbDvr)).toList ++
      ((vtunersMakeConfig listens port (4 + 8 * u) (subdevMax * code .dvbDemux + u) .rdwr).map
        (Served.mk u .dvbDemux)).toList

/-! ### The numbering of the registry -/

/-- The number of a device of an adapter. -/
def unitOf (devClass : DevClass) (adapter device : ℕ) : ℕ :=
  subMax * code devClass + subdevMax * device + adapter

theorem ofCode_code (devClass : DevClass) : ofCode (code devClass) = some devClass := by
  cases devClass <;> rfl

theorem ofCode_eq_some_iff {n : ℕ} {devClass : DevClass} :
    ofCode n = some devClass ↔ n = code devClass := by
  constructor
  · intro h
    unfold ofCode at h
    split at h <;> cases h <;> rfl
  · rintro rfl
    exact ofCode_code devClass

theorem code_lt (devClass : DevClass) : code devClass < v4bMax := by
  cases devClass <;> decide

section

variable {D : Type} {ops : OpenOps D} {hasMemory : Bool} {state : State D}
variable {place place' : DevClass × ℕ} {fflags : OpenFlags} {handle : Handle D}

/-- A device's `open` accepts a number. -/
def Accepts (ops : OpenOps D) (cdev : D) (mm : BitVec 32) (fflags : OpenFlags) : Prop :=
  ∀ openOp, ops cdev = some openOp → openOp mm fflags = 0

/-- The handle is of the device in a place, and it could be opened. -/
structure OpensAt (ops : OpenOps D) (hasMemory : Bool) (state : State D) (place : DevClass × ℕ)
    (fflags : OpenFlags) (handle : Handle D) : Prop where
  memory : hasMemory = true
  holds : state.registry place = some handle.cdev
  number : handle.mm = state.mm place
  flags : handle.flags = fflags
  accepts : Accepts ops handle.cdev handle.mm fflags

/-- There is a device in a place, and it can be opened. -/
def Openable (ops : OpenOps D) (hasMemory : Bool) (state : State D) (place : DevClass × ℕ)
    (fflags : OpenFlags) : Prop :=
  hasMemory = true ∧ ∃ cdev, state.registry place = some cdev ∧
    Accepts ops cdev (state.mm place) fflags

theorem openable_iff :
    Openable ops hasMemory state place fflags ↔
      ∃ handle, OpensAt ops hasMemory state place fflags handle := by
  constructor
  · rintro ⟨hmemory, cdev, hholds, haccepts⟩
    exact ⟨⟨cdev, state.mm place, fflags⟩, hmemory, hholds, rfl, rfl, haccepts⟩
  · rintro ⟨handle, h⟩
    exact ⟨h.memory, handle.cdev, h.holds, h.number ▸ h.accepts⟩

/-- **What `linux_open` opens.** -/
theorem linuxOpen_eq_some_iff {devClass : DevClass} {place unit : ℕ} (hplace : place < subMax)
    (hunit : unit = subMax * code devClass + place) :
    linuxOpen ops hasMemory state unit fflags = some handle ↔
      OpensAt ops hasMemory state (devClass, place) fflags handle := by
  have hcode : ofCode (unit / subMax) = some devClass := by
    rw [ofCode_eq_some_iff]
    unfold subMax at *
    omega
  have hmod : unit % subMax = place := by
    unfold subMax at *
    omega
  unfold linuxOpen cdevGetDevice cdevGetMm
  rw [hcode, hmod]
  constructor
  · intro hopen
    dsimp only at hopen
    split at hopen
    · cases hopen
    · rename_i cdev hholds
      split at hopen
      · rename_i hmemory
        split at hopen
        · rename_i hops
          obtain rfl := Option.some.inj hopen
          exact ⟨hmemory, hholds, rfl, rfl, fun openOp h => absurd (hops.symm.trans h) (by simp)⟩
        · rename_i openOp hops
          split at hopen
          · rename_i hzero
            obtain rfl := Option.some.inj hopen
            refine ⟨hmemory, hholds, rfl, rfl, fun other h => ?_⟩
            obtain rfl := Option.some.inj (hops.symm.trans h)
            exact hzero
          · cases hopen
      · cases hopen
  · rintro ⟨hmemory, hholds, hnumber, rfl, haccepts⟩
    obtain ⟨cdev, mm, flags⟩ := handle
    obtain rfl : mm = state.mm (devClass, place) := hnumber
    dsimp only at hholds ⊢
    rw [hholds]
    dsimp only
    rw [if_pos hmemory]
    cases hops : ops cdev with
    | none => rfl
    | some openOp =>
        have hzero := haccepts openOp hops
        dsimp only at hzero ⊢
        rw [if_pos hzero]

theorem linuxOpen_isSome_iff {devClass : DevClass} {place unit : ℕ} (hplace : place < subMax)
    (hunit : unit = subMax * code devClass + place) :
    (linuxOpen ops hasMemory state unit fflags).isSome = true ↔
      Openable ops hasMemory state (devClass, place) fflags := by
  rw [openable_iff, Option.isSome_iff_exists]
  exact exists_congr fun handle => linuxOpen_eq_some_iff hplace hunit

theorem v4bName_unitOf (devClass : DevClass) {adapter device : ℕ} (hadapter : adapter < subdevMax)
    (hdevice : device < subsubdevMax) :
    v4bName (unitOf devClass adapter device) = ⟨some devClass, adapter, device⟩ := by
  have hcode : unitOf devClass adapter device / (subsubdevMax * subdevMax) = code devClass := by
    unfold unitOf subMax subdevMax subsubdevMax at *
    omega
  have hmod : unitOf devClass adapter device % subdevMax = adapter := by
    unfold unitOf subMax subdevMax subsubdevMax at *
    omega
  have hdiv : unitOf devClass adapter device / subdevMax % subsubdevMax = device := by
    unfold unitOf subMax subdevMax subsubdevMax at *
    omega
  unfold v4bName
  rw [hcode, hmod, hdiv, ofCode_code]

/-- A number that `v4b_create` counts through is the one of its name. -/
theorem eq_unitOf_of_lt {n : ℕ} (hn : n < v4bMax * subdevMax * subsubdevMax) :
    ∃ devClass adapter device, adapter < subdevMax ∧ device < subsubdevMax ∧
      n = unitOf devClass adapter device := by
  have hclass : ∃ devClass, code devClass = n / subMax := by
    have hlt : n / subMax < v4bMax := by
      unfold v4bMax subMax subdevMax subsubdevMax at *
      omega
    unfold v4bMax at hlt
    interval_cases n / subMax
    · exact ⟨.video, rfl⟩
    · exact ⟨.dvbAudio, rfl⟩
    · exact ⟨.dvbCa, rfl⟩
    · exact ⟨.dvbDemux, rfl⟩
    · exact ⟨.dvbDvr, rfl⟩
    · exact ⟨.dvbFrontend, rfl⟩
    · exact ⟨.dvbOsd, rfl⟩
    · exact ⟨.dvbSec, rfl⟩
    · exact ⟨.dvbVideo, rfl⟩
    · exact ⟨.lirc, rfl⟩
    · exact ⟨.evdev, rfl⟩
    · exact ⟨.joydev, rfl⟩
    · exact ⟨.roccat, rfl⟩
  obtain ⟨devClass, hclass⟩ := hclass
  refine ⟨devClass, n % subdevMax, n / subdevMax % subsubdevMax, Nat.mod_lt _ (by decide),
    Nat.mod_lt _ (by decide), ?_⟩
  unfold unitOf
  rw [hclass]
  unfold subMax subdevMax subsubdevMax
  omega

/-- **`v4b_create` and the registry number alike**: a device is made, under the name of a class,
an adapter and a device, just if what the registry has there can be opened. -/
theorem mem_v4bCreate_iff {n : ℕ} {name : V4bName} :
    (n, name) ∈ v4bCreate ops hasMemory state ↔
      ∃ devClass, name.devClass = some devClass ∧ name.adapter < subdevMax ∧
        name.device < subsubdevMax ∧ n = unitOf devClass name.adapter name.device ∧
        Openable ops hasMemory state (devClass, subdevMax * name.device + name.adapter)
          .rdonly := by
  unfold v4bCreate
  simp only [List.mem_map, List.mem_filter, List.mem_range, Prod.mk.injEq]
  have hplace : ∀ {adapter device : ℕ}, adapter < subdevMax → device < subsubdevMax →
      subdevMax * device + adapter < subMax := by
    unfold subMax subdevMax subsubdevMax
    omega
  have hunit : ∀ (devClass : DevClass) (adapter device : ℕ), unitOf devClass adapter device =
      subMax * code devClass + (subdevMax * device + adapter) :=
    fun devClass adapter device => Nat.add_assoc ..
  constructor
  · rintro ⟨other, ⟨hlt, hopens⟩, rfl, rfl⟩
    obtain ⟨devClass, adapter, device, hadapter, hdevice, rfl⟩ := eq_unitOf_of_lt hlt
    rw [v4bName_unitOf devClass hadapter hdevice]
    exact ⟨devClass, rfl, hadapter, hdevice, rfl,
      (linuxOpen_isSome_iff (hplace hadapter hdevice) (hunit ..)).mp hopens⟩
  · rintro ⟨devClass, hclass, hadapter, hdevice, rfl, hopens⟩
    have hlt := code_lt devClass
    refine ⟨_, ⟨?_, ?_⟩, rfl, ?_⟩
    · rw [hunit]
      have hinside := hplace hadapter hdevice
      unfold v4bMax subMax subdevMax subsubdevMax at *
      omega
    · exact (linuxOpen_isSome_iff (hplace hadapter hdevice) (hunit ..)).mpr hopens
    · rw [v4bName_unitOf devClass hadapter hdevice, ← hclass]

end

/-! ### What `cdev_add` leaves in the registry -/

section

variable {D : Type} {majors : Majors} {swapFe : BitVec 32} {state : State D}

/-- A place that holds a device was written for the place's number. -/
def Stored (majors : Majors) (swapFe : BitVec 32) (state : State D) : Prop :=
  ∀ place cdev, state.registry place = some cdev →
    slot majors swapFe (state.mm place) = some place

variable [DecidableEq D]

/-- What a sequence of `cdev_add` leads to. -/
def addAll (majors : Majors) (swapFe : BitVec 32) (calls : List (D × Range)) : State D :=
  calls.foldl (fun state call =>
    (cdevAdd majors swapFe call.1 call.2.start call.2.count state).1) .init

theorem Stored.cdevAdd (h : Stored majors swapFe state) (cdev : D) (mm count : BitVec 32) :
    Stored majors swapFe (cdevAdd majors swapFe cdev mm count state).1 := by
  intro place other hplace
  obtain ⟨-, hslot, -⟩ | ⟨-, hregistry, hmm⟩ := (setRange_writes _ _ _ _).holds hplace
  · exact hslot
  · have hbefore := h place other hregistry
    rw [← hbefore]
    exact congrArg (slot majors swapFe) hmm

theorem stored_addAll (calls : List (D × Range)) :
    Stored majors swapFe (addAll majors swapFe calls) := by
  unfold addAll
  have hinit : Stored majors swapFe (State.init : State D) := fun _ _ h => by cases h
  revert hinit
  generalize (State.init : State D) = state
  induction calls generalizing state with
  | nil => exact id
  | cons call rest ih => exact fun h => ih _ (h.cdevAdd call.1 call.2.start call.2.count)

end

/-! ### The units of the server -/

section

variable {D : Type} {majors : Majors} {swapFe : BitVec 32} {state : State D}
variable {ops : OpenOps D} {hasMemory : Bool} {place place' : DevClass × ℕ} {fflags : OpenFlags}

/-- Two places give the same handles only if neither can be opened: the numbers of the places
differ. -/
theorem Stored.opensAt_iff (h : Stored majors swapFe state) (hne : place ≠ place') :
    (∀ handle, OpensAt ops hasMemory state place fflags handle ↔
      OpensAt ops hasMemory state place' fflags handle) ↔
    ¬ Openable ops hasMemory state place fflags ∧
      ¬ Openable ops hasMemory state place' fflags := by
  rw [openable_iff, openable_iff]
  constructor
  · intro hsame
    have hboth : ∀ handle, OpensAt ops hasMemory state place fflags handle →
        ¬ OpensAt ops hasMemory state place' fflags handle := by
      intro handle hopens hopens'
      have hslot := h place handle.cdev hopens.holds
      have hslot' := h place' handle.cdev hopens'.holds
      rw [← hopens.number] at hslot
      rw [← hopens'.number] at hslot'
      exact hne (Option.some.inj (hslot.symm.trans hslot'))
    constructor
    · rintro ⟨handle, hopens⟩
      exact hboth handle hopens ((hsame handle).mp hopens)
    · rintro ⟨handle, hopens⟩
      exact hboth handle ((hsame handle).mpr hopens) hopens
  · rintro ⟨hnot, hnot'⟩ handle
    exact iff_of_false (fun hopens => hnot ⟨handle, hopens⟩) fun hopens => hnot' ⟨handle, hopens⟩

/-- Video devices are only in the first places. -/
theorem Stored.not_openable_video (h : Stored majors swapFe state) {place : ℕ}
    (hplace : subdevMax ≤ place) : ¬ Openable ops hasMemory state (.video, place) fflags := by
  rintro ⟨-, cdev, hholds, -⟩
  obtain ⟨-, hfits, heq⟩ := slot_eq_some_iff.mp (h _ cdev hholds)
  simp only [Fits, placeIn] at hfits heq
  omega

/-- The ways a configuration comes about. -/
inductive ServedMove (served : Served) : Prop where
  | frontend (hclass : served.devClass = .dvbFrontend)
      (hunit : served.config.unit = subdevMax * code .dvbFrontend + served.adapter)
      (hmode : served.config.mode = .rdwr)
  | dvr (hclass : served.devClass = .dvbDvr)
      (hunit : served.config.unit = subdevMax * code .dvbDvr + served.adapter)
      (hmode : served.config.mode = .rdonly)
  | demux (hclass : served.devClass = .dvbDemux)
      (hunit : served.config.unit = subdevMax * code .dvbDemux + served.adapter)
      (hmode : served.config.mode = .rdwr)

variable {listens : BitVec 32 → Bool} {port : BitVec 32} {vtunerMaxUnit : ℤ} {served : Served}

theorem servedAdapters_le (vtunerMaxUnit : ℤ) : servedAdapters vtunerMaxUnit ≤ dvbMaxAdapters := by
  unfold servedAdapters
  split
  · rfl
  · omega

theorem vtunersMakeConfig_eq_some {off unit : ℕ} {mode : OpenFlags} {config : Config}
    (h : vtunersMakeConfig listens port off unit mode = some config) :
    config.unit = unit ∧ config.mode = mode := by
  unfold vtunersMakeConfig at h
  dsimp only at h
  split at h
  · obtain rfl := Option.some.inj h
    exact ⟨rfl, rfl⟩
  · cases h

theorem ServedMove.of_mem (hmem : served ∈ vtunersInit listens port vtunerMaxUnit) :
    served.adapter < dvbMaxAdapters ∧ ServedMove served := by
  unfold vtunersInit at hmem
  obtain ⟨u, hu, hmem⟩ := List.mem_flatMap.mp hmem
  have hlt : u < dvbMaxAdapters :=
    (List.mem_range.mp hu).trans_le (servedAdapters_le vtunerMaxUnit)
  simp only [List.mem_append, Option.mem_toList, Option.map_eq_some_iff] at hmem
  obtain (⟨config, hconfig, rfl⟩ | ⟨config, hconfig, rfl⟩) | ⟨config, hconfig, rfl⟩ := hmem
  · obtain ⟨hunit, hmode⟩ := vtunersMakeConfig_eq_some hconfig
    exact ⟨hlt, .frontend rfl hunit hmode⟩
  · obtain ⟨hunit, hmode⟩ := vtunersMakeConfig_eq_some hconfig
    exact ⟨hlt, .dvr rfl hunit hmode⟩
  · obtain ⟨hunit, hmode⟩ := vtunersMakeConfig_eq_some hconfig
    exact ⟨hlt, .demux rfl hunit hmode⟩

/-- The place of the first device of a class and an adapter, and the one that the unit number of
the server is of; that of a demultiplexer is a place no video device is put in. -/
def placesOf (devClass : DevClass) (adapter : ℕ) : List (DevClass × ℕ) :=
  match devClass with
  | .dvbFrontend => [(.dvbFrontend, adapter), (.dvbAudio, subdevMax + adapter)]
  | .dvbDvr => [(.dvbDvr, adapter), (.dvbAudio, adapter)]
  | other => [(other, adapter)]

/-- **What the server opens.**  Whatever `cdev_add` was called for: what `linux_open` gives the
server for a class and an adapter is the first device of that class and adapter if and only if
there is none that could be opened, and none in the place that the server's unit number
addresses either: an audio device for the front end and the recorder, and a place without a
device for the demultiplexer. -/
theorem vtuner_units_iff [DecidableEq D] (ops : OpenOps D) (hasMemory : Bool)
    (calls : List (D × Range)) (hserved : served ∈ vtunersInit listens port vtunerMaxUnit) :
    (∀ handle, linuxOpen ops hasMemory (addAll majors swapFe calls) served.config.unit
          served.config.mode = some handle ↔
        OpensAt ops hasMemory (addAll majors swapFe calls) (served.devClass, served.adapter)
          served.config.mode handle) ↔
      ∀ place ∈ placesOf served.devClass served.adapter,
        ¬ Openable ops hasMemory (addAll majors swapFe calls) place served.config.mode := by
  have hstored := @stored_addAll D majors swapFe _ calls
  obtain ⟨hlt, hmove⟩ := ServedMove.of_mem hserved
  have hinto : ∀ (devClass : DevClass) (place : ℕ), place < subMax →
      served.config.unit = subMax * code devClass + place →
      (devClass, place) ≠ (served.devClass, served.adapter) →
      ((∀ handle, linuxOpen ops hasMemory (addAll majors swapFe calls) served.config.unit
            served.config.mode = some handle ↔
          OpensAt ops hasMemory (addAll majors swapFe calls) (served.devClass, served.adapter)
            served.config.mode handle) ↔
        ¬ Openable ops hasMemory (addAll majors swapFe calls) (devClass, place)
            served.config.mode ∧
          ¬ Openable ops hasMemory (addAll majors swapFe calls)
            (served.devClass, served.adapter) served.config.mode) := by
    intro devClass place hplace hunit hne
    rw [← hstored.opensAt_iff hne]
    exact forall_congr' fun handle => by rw [linuxOpen_eq_some_iff hplace hunit]
  unfold dvbMaxAdapters at hlt
  cases hmove with
  | frontend hclass hunit hmode =>
      rw [hinto .dvbAudio (subdevMax + served.adapter) (by unfold subMax subdevMax; omega)
        (by rw [hunit]; simp only [subMax, subdevMax, code]; omega) (by simp [hclass]), hclass]
      simp [placesOf, and_comm]
  | dvr hclass hunit hmode =>
      rw [hinto .dvbAudio served.adapter (by unfold subMax; omega)
        (by rw [hunit]; simp only [subMax, subdevMax, code]) (by simp [hclass]), hclass]
      simp [placesOf, and_comm]
  | demux hclass hunit hmode =>
      rw [hinto .video (3 * subdevMax + served.adapter) (by unfold subMax subdevMax; omega)
        (by rw [hunit]; simp only [subMax, subdevMax, code]; omega) (by simp [hclass]), hclass]
      have hvideo := @Stored.not_openable_video D majors swapFe _ ops hasMemory
        served.config.mode hstored (3 * subdevMax + served.adapter) (by unfold subdevMax; omega)
      simp [placesOf, hvideo]

end

/-- A front end and an audio device of the first adapter; the audio device is its second one. -/
def oneAdapter : List (Bool × Range) :=
  [(false, ⟨mkdev 212 3, 1⟩), (true, ⟨mkdev 212 17, 1⟩)]

/-- All devices accept what they are opened for. -/
def openOps : OpenOps Bool := fun _ => none

theorem addAll_oneAdapter :
    addAll linuxMajors 0 oneAdapter =
      { registry := Function.update (Function.update (fun _ => none) (.dvbFrontend, 0)
          (some false)) (.dvbAudio, 8) (some true)
        mm := Function.update (Function.update (fun _ => 0) (.dvbFrontend, 0) (mkdev 212 3))
          (.dvbAudio, 8) (mkdev 212 17)
        mmStart := Function.update (Function.update (fun _ => 0) false (mkdev 212 3))
          true (mkdev 212 17)
        mmEnd := Function.update (Function.update (fun _ => 0) false (mkdev 212 3 + 1))
          true (mkdev 212 17 + 1) } := by
  have hfrontend : slot linuxMajors 0 (mkdev 212 3) = some (.dvbFrontend, 0) := by decide
  have haudio : slot linuxMajors 0 (mkdev 212 17) = some (.dvbAudio, 8) := by decide
  simp only [addAll, oneAdapter, List.foldl, cdevAdd, setRange_one,
    cdevSetDevice_of_slot hfrontend, cdevSetDevice_of_slot haudio]
  rfl

/-- The unit number for the front end of the first adapter is that of its second audio device:
both are registered, and the server exports the audio device. -/
theorem vtuner_units_audio :
    ∃ served ∈ vtunersInit (fun _ => true) 5100 1,
      served.devClass = .dvbFrontend ∧ served.adapter = 0 ∧
      linuxOpen openOps true (addAll linuxMajors 0 oneAdapter) served.config.unit
          served.config.mode = some ⟨true, mkdev 212 17, .rdwr⟩ ∧
      linuxOpen openOps true (addAll linuxMajors 0 oneAdapter) (unitOf .dvbFrontend 0 0)
          served.config.mode = some ⟨false, mkdev 212 3, .rdwr⟩ := by
  rw [addAll_oneAdapter]
  exact ⟨⟨0, .dvbFrontend, ⟨40, .rdwr, 5100, 5101⟩⟩, by decide, rfl, rfl, by decide, by decide⟩

theorem vtuner_units_one :
    ∃ served ∈ vtunersInit (fun _ => true) 5100 1,
      ((∀ handle, linuxOpen openOps true (addAll linuxMajors 0 oneAdapter) served.config.unit
            served.config.mode = some handle ↔
          OpensAt openOps true (addAll linuxMajors 0 oneAdapter) (served.devClass, served.adapter)
            served.config.mode handle) ↔
        ∀ place ∈ placesOf served.devClass served.adapter,
          ¬ Openable openOps true (addAll linuxMajors 0 oneAdapter) place served.config.mode) :=
  have hserved : ⟨0, .dvbFrontend, ⟨40, .rdwr, 5100, 5101⟩⟩ ∈
      vtunersInit (fun _ => true) 5100 1 := by decide
  ⟨_, hserved, vtuner_units_iff openOps true oneAdapter hserved⟩

end Webcamd.Vtuner.Units
