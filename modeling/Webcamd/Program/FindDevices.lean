import Mathlib

/-!
# Finding a device by its name

`find_devices` of `webcamd.c`.  In list mode it prints, for every device, the options that select
it: its name, its serial number, and how many devices of the same name and serial number come
before it.  Without list mode it takes such options and looks for the device.

* `stringFilter` — `string_filter`, which makes a word of a text.
* `newMatch` — `new_match`, which keeps the numbers of the names that have come up.
* `deviceLoop`, `findDevices` — the loop over the devices in either mode, and the function.
* `MatchInv` — the list of matches holds, for every name, how often it has come up.
* `find_devices_inverse` — the options printed for a device select that device.

A text is the list of its characters without the terminating NUL.  Counters are not bounded: the
numbers of a bus and of a device on it are bytes, so that there are fewer devices than an `int`
counts.  The library's back end and memory for the list of matches are taken to be there.
-/

namespace Webcamd.Program.FindDevices

/-- A string, without its NUL. -/
abbrev Text := List Char

/-- `string_unknown` -/
def stringUnknown : Text := ['u', 'n', 'k', 'n', 'o', 'w', 'n']

/-- `string_filter` -/
def stringFilter (text : Text) : Text :=
  let replaced := text.map fun ch => if ch.isAlphanum then ch else '-'
  let trimmed := (replaced.rdropWhile (· = '-')).dropWhile (· = '-')
  if trimmed = [] then stringUnknown else trimmed

/-- `strchr`: the text from the character on. -/
def strchr (text : Text) (ch : Char) : Option Text :=
  match text.dropWhile (· ≠ ch) with
  | [] => none
  | first :: rest => some (first :: rest)

/-- `isspace` -/
def isspace (ch : Char) : Bool := ch ∈ [' ', '\t', '\n', '\x0b', '\x0c', '\r']

/-- `atoi`, for a text that is not too long for an `int`. -/
def atoi (text : Text) : ℤ :=
  let number (digits : Text) : ℤ := Nat.ofDigitChars 10 (digits.takeWhile Char.isDigit) 0
  match text.dropWhile isspace with
  | '-' :: digits => -number digits
  | '+' :: digits => number digits
  | digits => number digits

/-- `struct find_match` -/
structure FindMatch where
  ser : Text
  txt : Text
  matchNum : ℕ
  deriving DecidableEq

/-- The loop of `new_match`: the list with the match counted up, and its number. -/
def countUp (ser txt : Text) : List FindMatch → Option (List FindMatch × ℕ)
  | [] => none
  | ptr :: next =>
      if ptr.ser = ser ∧ ptr.txt = txt then
        some ({ ptr with matchNum := ptr.matchNum + 1 } :: next, ptr.matchNum + 1)
      else (countUp ser txt next).map fun found => (ptr :: found.1, found.2)

/-- `new_match`: the list after it, and the number of the match. -/
def newMatch (first : List FindMatch) (ser txt : Text) : List FindMatch × ℕ :=
  match countUp ser txt first with
  | some found => found
  | none => (⟨ser, txt, 0⟩ :: first, 0)

/-- `struct libusb20_device`, with what the functions of the library say about it. -/
structure Device where
  hostMode : Bool
  busNumber : ℕ
  address : ℕ
  /-- `libusb20_dev_get_desc` -/
  desc : Option Text
  /-- `iSerialNumber` of the device descriptor, if there is one -/
  iSerialNumber : Option ℕ
  /-- `libusb20_dev_open` succeeds. -/
  opens : Bool
  /-- What `libusb20_dev_req_string_simple_sync` reads of the serial number. -/
  string : Option Text

/-- The buffers `ser` and `txt`. -/
def bufferSize : ℕ := 128

/-- `txt`, before it is filtered. -/
def Device.txt (pdev : Device) : Text :=
  match pdev.desc with
  | some ptr =>
      let copied := match strchr ptr '<' with
        | none => stringUnknown
        | some sub => sub.tail.take (bufferSize - 1)
      copied.takeWhile (· ≠ '>')
  | none => stringUnknown

/-- `ser`, before it is filtered. -/
def Device.ser (pdev : Device) : Text :=
  match pdev.iSerialNumber with
  | none => stringUnknown
  | some number =>
      if number = 0 ∨ pdev.opens = false then stringUnknown
      else pdev.string.getD stringUnknown

/-- What is printed for a device, with its number as `%d` spells it. -/
structure Line where
  busNumber : ℕ
  address : ℕ
  /-- after `-N`, `-S` and `-M` -/
  txt : Text
  ser : Text
  matchNum : Text

/-- The options that the function reads. -/
structure Options where
  doList : Bool
  uDevicename : Option Text
  uSerialname : Option Text
  uMatchIndex : ℤ
  uUnit : ℤ
  uAddr : ℤ

/-- The device is one that the options ask for. -/
def Options.Accepts (options : Options) (pdev : Device) (ser txt : Text) : Prop :=
  (options.uDevicename = none ∨ options.uDevicename = some txt) ∧
  (options.uSerialname = none ∨ options.uSerialname = some ser) ∧
  (options.uAddr = 0 ∨ (pdev.address = options.uAddr ∧ pdev.busNumber = options.uUnit))

instance (options : Options) (pdev : Device) (ser txt : Text) :
    Decidable (options.Accepts pdev ser txt) :=
  inferInstanceAs (Decidable (_ ∧ _))

/-- The loop over the devices, with the list of matches and the number of devices found: what is
printed, and the bus and address of the device that is selected. -/
def deviceLoop (options : Options) :
    List Device → List FindMatch → ℕ → List Line × Option (ℕ × ℕ)
  | [], _, _ => ([], none)
  | pdev :: rest, firstMatch, found =>
      if pdev.hostMode = false then deviceLoop options rest firstMatch found
      else
        let ser := stringFilter pdev.ser
        let txt := stringFilter pdev.txt
        if options.doList then
          let currMatch := newMatch firstMatch ser txt
          let last := deviceLoop options rest currMatch.1 found
          (⟨pdev.busNumber, pdev.address, txt, ser, Nat.toDigits 10 currMatch.2⟩ :: last.1, last.2)
        else if options.Accepts pdev ser txt then
          if (found : ℤ) = options.uMatchIndex then ([], some (pdev.busNumber, pdev.address))
          else deviceLoop options rest firstMatch (found + 1)
        else deviceLoop options rest firstMatch found

/-- How the function ends. -/
inductive Ending where
  /-- It returns, with `u_unit` and `u_addr` set. -/
  | selected (uUnit uAddr : ℕ)
  /-- `exit(0)`, after the list. -/
  | listed
  /-- No device match found. -/
  | failed
  deriving DecidableEq

/-- `find_devices` -/
def findDevices (options : Options) (devices : List Device) : List Line × Ending :=
  let ended := deviceLoop options devices [] 0
  match ended.2 with
  | some (uUnit, uAddr) => (ended.1, .selected uUnit uAddr)
  | none => (ended.1, if options.doList = true ∧ ended.1 ≠ [] then .listed else .failed)

/-- The options of a second run, as `main` reads them from the values of a line. -/
def Line.options (line : Line) : Options where
  doList := false
  uDevicename := some line.txt
  uSerialname := some line.ser
  uMatchIndex := atoi line.matchNum
  uUnit := 0
  uAddr := 0

/-! ### The numbers of the matches -/

/-- A number is read as it is spelled. -/
theorem atoi_toDigits (n : ℕ) : atoi (Nat.toDigits 10 n) = n := by
  have hdigits : ∀ ch ∈ Nat.toDigits 10 n, ch.isDigit = true :=
    fun ch hmem => Nat.isDigit_of_mem_toDigits (by decide) (by decide) hmem
  have htake : (Nat.toDigits 10 n).takeWhile Char.isDigit = Nat.toDigits 10 n :=
    List.takeWhile_eq_self_iff.mpr hdigits
  have hvalue : Nat.ofDigitChars 10 (Nat.toDigits 10 n) 0 = n := Nat.ofDigitChars_ten_toDigits
  cases hspelled : Nat.toDigits 10 n with
  | nil => exact absurd hspelled Nat.toDigits_ne_nil
  | cons first rest =>
      rw [hspelled] at hdigits htake hvalue
      have hfirst := hdigits first (by simp)
      have hspace : isspace first = false := by
        by_contra hspace
        simp only [isspace, List.mem_cons, List.not_mem_nil, or_false, Bool.not_eq_false,
          decide_eq_true_eq] at hspace
        obtain rfl | rfl | rfl | rfl | rfl | rfl := hspace <;> exact absurd hfirst (by decide)
      unfold atoi
      rw [List.dropWhile_cons_of_neg (by simp [hspace])]
      dsimp only
      split
      · rename_i heq
        obtain ⟨rfl, -⟩ := List.cons.inj heq
        exact absurd hfirst (by decide)
      · rename_i heq
        obtain ⟨rfl, -⟩ := List.cons.inj heq
        exact absurd hfirst (by decide)
      · rw [htake, hvalue]

/-- The number a name has in the list of matches. -/
def numberOf (ser txt : Text) (first : List FindMatch) : Option ℕ :=
  (first.find? fun ptr => ptr.ser = ser ∧ ptr.txt = txt).map FindMatch.matchNum

theorem countUp_snd (ser txt : Text) (first : List FindMatch) :
    (countUp ser txt first).map Prod.snd = (numberOf ser txt first).map (· + 1) := by
  induction first with
  | nil => rfl
  | cons ptr next ih =>
      unfold countUp
      by_cases hsame : ptr.ser = ser ∧ ptr.txt = txt
      · simp [numberOf, hsame]
      · rw [if_neg hsame, Option.map_map]
        simpa [numberOf, hsame, Function.comp_def] using ih

theorem numberOf_countUp {ser txt : Text} {first after : List FindMatch} {num : ℕ}
    (h : countUp ser txt first = some (after, num)) (ser' txt' : Text) :
    numberOf ser' txt' after =
      if ser' = ser ∧ txt' = txt then some num else numberOf ser' txt' first := by
  induction first generalizing after num with
  | nil => cases h
  | cons ptr next ih =>
      unfold countUp at h
      split at h
      · rename_i hsame
        obtain ⟨rfl, rfl⟩ := Prod.mk.inj (Option.some.inj h)
        obtain ⟨rfl, rfl⟩ := hsame
        by_cases hname : ptr.ser = ser' ∧ ptr.txt = txt'
        · obtain ⟨rfl, rfl⟩ := hname
          simp [numberOf]
        · have hne : ¬ (ser' = ptr.ser ∧ txt' = ptr.txt) :=
            fun heq => hname ⟨heq.1.symm, heq.2.symm⟩
          simp [numberOf, hname, hne]
      · rename_i hother
        obtain ⟨⟨after', num'⟩, hrest, heq⟩ := Option.map_eq_some_iff.mp h
        obtain ⟨rfl, rfl⟩ := Prod.mk.inj heq
        by_cases hname : ptr.ser = ser' ∧ ptr.txt = txt'
        · obtain ⟨rfl, rfl⟩ := hname
          simp [numberOf, hother]
        · have hlater := ih hrest
          simpa [numberOf, hname] using hlater

/-- **`new_match`**: the number goes up by one, from 0 for a new name, and no other changes. -/
theorem newMatch_spec (first : List FindMatch) (ser txt : Text) :
    (newMatch first ser txt).2 = ((numberOf ser txt first).map (· + 1)).getD 0 ∧
    ∀ ser' txt', numberOf ser' txt' (newMatch first ser txt).1 =
      if ser' = ser ∧ txt' = txt then some (newMatch first ser txt).2
      else numberOf ser' txt' first := by
  have hnum := countUp_snd ser txt first
  unfold newMatch
  cases hcount : countUp ser txt first with
  | some found =>
      rw [hcount] at hnum
      refine ⟨?_, numberOf_countUp hcount⟩
      rw [← hnum]
      rfl
  | none =>
      rw [hcount] at hnum
      refine ⟨?_, fun ser' txt' => ?_⟩
      · rw [← hnum]
        rfl
      · by_cases hname : ser' = ser ∧ txt' = txt
        · obtain ⟨rfl, rfl⟩ := hname
          simp [numberOf]
        · have hne : ¬ (ser = ser' ∧ txt = txt') := fun heq => hname ⟨heq.1.symm, heq.2.symm⟩
          simp [numberOf, hname, hne]

/-! ### The two modes -/

/-- How many devices of a name there are. -/
def countName (ser txt : Text) (devices : List Device) : ℕ :=
  devices.countP fun pdev => pdev.hostMode = true ∧ stringFilter pdev.ser = ser ∧
    stringFilter pdev.txt = txt

/-- **The invariant of the list mode**: a name has come up once more than its number says, and
one that has no number has not come up. -/
def MatchInv (first : List FindMatch) (past : List Device) : Prop :=
  ∀ ser txt, ((numberOf ser txt first).map (· + 1)).getD 0 = countName ser txt past

theorem MatchInv.nil : MatchInv [] [] := fun _ _ => rfl

variable {first : List FindMatch} {past front back devices : List Device} {pdev : Device}
variable {ser txt : Text}

theorem countName_concat (ser txt : Text) (past : List Device) (pdev : Device) :
    countName ser txt (past ++ [pdev]) = countName ser txt past +
      if pdev.hostMode = true ∧ stringFilter pdev.ser = ser ∧ stringFilter pdev.txt = txt then 1
      else 0 := by
  simp [countName, List.countP_append, List.countP_cons]

theorem MatchInv.skip (h : MatchInv first past) (hmode : pdev.hostMode = false) :
    MatchInv first (past ++ [pdev]) := by
  intro ser txt
  rw [countName_concat, h ser txt]
  simp [hmode]

/-- The number printed for a device is that of the devices of its name before it. -/
theorem MatchInv.count (h : MatchInv first past) (hmode : pdev.hostMode = true) :
    (newMatch first (stringFilter pdev.ser) (stringFilter pdev.txt)).2 =
        countName (stringFilter pdev.ser) (stringFilter pdev.txt) past ∧
      MatchInv (newMatch first (stringFilter pdev.ser) (stringFilter pdev.txt)).1
        (past ++ [pdev]) := by
  obtain ⟨hnum, hothers⟩ :=
    newMatch_spec first (stringFilter pdev.ser) (stringFilter pdev.txt)
  have hcount := hnum.trans (h _ _)
  refine ⟨hcount, fun ser txt => ?_⟩
  rw [countName_concat, hothers]
  by_cases hname : ser = stringFilter pdev.ser ∧ txt = stringFilter pdev.txt
  · obtain ⟨rfl, rfl⟩ := hname
    simp [hmode, hcount]
  · have hne : ¬ (stringFilter pdev.ser = ser ∧ stringFilter pdev.txt = txt) :=
      fun heq => hname ⟨heq.1.symm, heq.2.symm⟩
    simp [hname, hne, h ser txt]

/-- Without list mode, the device whose name has come up as often as the options say. -/
theorem deviceLoop_select {line : Line} {found : ℕ} (hmode : pdev.hostMode = true)
    (hser : stringFilter pdev.ser = line.ser) (htxt : stringFilter pdev.txt = line.txt)
    (hcount : ((found + countName line.ser line.txt front : ℕ) : ℤ) = atoi line.matchNum) :
    deviceLoop line.options (front ++ pdev :: back) first found =
      ([], some (pdev.busNumber, pdev.address)) := by
  have haccepts : ∀ other : Device, line.options.Accepts other (stringFilter other.ser)
      (stringFilter other.txt) ↔
        stringFilter other.ser = line.ser ∧ stringFilter other.txt = line.txt := by
    intro other
    simp only [Options.Accepts, Line.options, reduceCtorEq, Option.some.injEq, false_or, true_or,
      and_true]
    tauto
  induction front generalizing found with
  | nil =>
      rw [List.nil_append]
      unfold deviceLoop
      have hfound : (found : ℤ) = line.options.uMatchIndex := hcount
      rw [if_neg (by simp [hmode])]
      dsimp only
      rw [if_neg (by simp [Line.options]), if_pos ((haccepts pdev).mpr ⟨hser, htxt⟩),
        if_pos hfound]
  | cons other front ih =>
      rw [List.cons_append]
      unfold deviceLoop
      have hcons : countName line.ser line.txt (other :: front) =
          countName line.ser line.txt front + if other.hostMode = true ∧
            stringFilter other.ser = line.ser ∧ stringFilter other.txt = line.txt then 1 else 0 := by
        simp [countName, List.countP_cons]
      rw [hcons] at hcount
      by_cases hother : other.hostMode = false
      · rw [if_pos hother]
        exact ih (by simpa [hother] using hcount)
      · rw [if_neg hother]
        dsimp only
        rw [if_neg (by simp [Line.options])]
        simp only [haccepts]
        by_cases hname : stringFilter other.ser = line.ser ∧ stringFilter other.txt = line.txt
        · -- an earlier device of the name: it is counted, and is not the one
          rw [if_pos ⟨by simpa using hother, hname⟩] at hcount
          have hnot : ¬ (found : ℤ) = line.options.uMatchIndex := by
            intro hfound
            have hindex : (found : ℤ) = atoi line.matchNum := hfound
            omega
          rw [if_pos hname, if_neg hnot]
          refine ih ?_
          rw [← hcount]
          congr 1
          omega
        · rw [if_neg hname]
          exact ih (by simpa [hname] using hcount)

/-- A printed line belongs to a device, and its options select it. -/
structure Selects (devices : List Device) (line : Line) (pdev : Device) : Prop where
  busNumber : line.busNumber = pdev.busNumber
  address : line.address = pdev.address
  selected : (findDevices line.options devices).2 = .selected pdev.busNumber pdev.address

/-- What is printed from a point of the list on. -/
theorem deviceLoop_list {options : Options} (hlist : options.doList = true)
    (hinv : MatchInv first front) (found : ℕ) :
    List.Forall₂ (Selects (front ++ back)) (deviceLoop options back first found).1
      (back.filter Device.hostMode) := by
  induction back generalizing front first with
  | nil => exact .nil
  | cons pdev back ih =>
      have hsplit : front ++ pdev :: back = (front ++ [pdev]) ++ back := by simp
      unfold deviceLoop
      by_cases hmode : pdev.hostMode = false
      · rw [if_pos hmode, List.filter_cons_of_neg (by simp [hmode]), hsplit]
        exact ih (hinv.skip hmode)
      · replace hmode : pdev.hostMode = true := by simpa using hmode
        obtain ⟨hnum, hnext⟩ := hinv.count hmode
        rw [if_neg (by simp [hmode]), List.filter_cons_of_pos hmode]
        dsimp only
        rw [if_pos hlist]
        refine .cons ⟨rfl, rfl, ?_⟩ ?_
        · unfold findDevices
          rw [deviceLoop_select hmode rfl rfl]
          rw [atoi_toDigits, hnum, Nat.zero_add]
        · rw [hsplit]
          exact ih hnext

theorem findDevices_lines (options : Options) (devices : List Device) :
    (findDevices options devices).1 = (deviceLoop options devices [] 0).1 := by
  unfold findDevices
  dsimp only
  cases (deviceLoop options devices [] 0).2 <;> rfl

/-- **Listing and selecting are inverse.**  For every list of devices, whatever their texts: list
mode prints one line for each device in host mode, with its bus and address; and in a second run
over the same list the options of the line select the device with that bus and address. -/
theorem find_devices_inverse (options : Options) (devices : List Device) :
    List.Forall₂ (Selects devices) (findDevices { options with doList := true } devices).1
      (devices.filter Device.hostMode) := by
  rw [findDevices_lines]
  exact @deviceLoop_list [] [] devices { options with doList := true } rfl .nil 0

/-- Two devices that have the same name once it is cut out and filtered. -/
example :
    let camera (address : ℕ) (desc : Text) : Device :=
      ⟨true, 1, address, some desc, none, true, none⟩
    ((findDevices ⟨true, none, none, 0, 0, 0⟩
      [camera 2 ['<', '-', 'C', '>'], camera 3 ['<', 'C', '.', '>', 'x']]).1.map Line.matchNum) =
        [['0'], ['1']] := by
  decide

end Webcamd.Program.FindDevices
