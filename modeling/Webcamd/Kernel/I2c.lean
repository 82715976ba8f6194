import Mathlib

/-!
# Binding of I2C clients

`i2c_new_device` of `kernel/linux_i2c.c` offers a new client to the registered drivers whose table
lists its name.  The outcome is carried in a variable, through a loop over the drivers and one over
the table of each.

* `scanTable`, `bindDrivers`, `i2cNewDevice` — the two loops, and the function.
* `offers` — what is asked of the drivers and what they answer, as events.
* `bindDrivers_eq` — the loops do what the events say, and the last event decides.
* `Bound` — a client is returned just if a driver accepted it, and no driver is asked afterwards.
* `i2cNewDevice_bound_iff` — this is so just if no driver after the first that accepts lists the
  name.

The name of the device is left out, as nothing below reads it.
-/

namespace Webcamd.Kernel.I2c

/-- A string, without its NUL. -/
abbrev Text := List Char

/-- `struct i2c_driver`: the names in its table, and its two probe functions.  A probe function is
given by what it returns when it is called for an entry of the table. -/
structure Driver where
  idTable : Option (List Text)
  probe : Option (ℕ → ℤ)
  probeNew : Option (ℕ → ℤ)

/-- `struct i2c_board_info` -/
structure BoardInfo where
  type : Text
  flags : BitVec 16
  addr : BitVec 16
  irq : ℤ
  platformData : BitVec 64

/-- `struct i2c_client`; `driver` is the place of the driver in the list. -/
structure Client where
  adapter : ℕ
  name : Text
  flags : BitVec 16
  addr : BitVec 16
  irq : ℤ
  platformData : BitVec 64
  driver : Option ℕ

/-- A client was offered to a driver, for an entry of its table: what the probe function returned,
or `none` if there is none. -/
structure Event where
  driver : ℕ
  entry : ℕ
  returned : Option ℤ
deriving DecidableEq

/-- What the loops carry along: `status`, `client->dev.driver`, and the events so far. -/
structure Binding where
  status : ℤ
  driver : Option ℕ
  trace : List Event

/-- The loop over the table of a driver, from the entry `i` on.  It ends at an empty name. -/
def scanTable (driver : Driver) (index : ℕ) (name : Text) : ℕ → List Text → Binding → Binding
  | _, [], binding => binding
  | i, entry :: rest, binding =>
      if entry = [] then binding
      else if entry ≠ name then scanTable driver index name (i + 1) rest binding
      else
        match driver.probeNew, driver.probe with
        | none, none => ⟨0, some index, binding.trace ++ [⟨index, i, none⟩]⟩
        | some probeNew, _ =>
            let status := probeNew i
            let trace := binding.trace ++ [⟨index, i, some status⟩]
            if status = 0 then ⟨status, some index, trace⟩
            else scanTable driver index name (i + 1) rest ⟨status, none, trace⟩
        | none, some probe =>
            let status := probe i
            let trace := binding.trace ++ [⟨index, i, some status⟩]
            if status = 0 then ⟨status, some index, trace⟩
            else scanTable driver index name (i + 1) rest ⟨status, none, trace⟩

/-- The loop over the drivers.  The `break` in the table of one does not leave it. -/
def bindDrivers (name : Text) : ℕ → List Driver → Binding → Binding
  | _, [], binding => binding
  | index, driver :: rest, binding =>
      let scanned :=
        match driver.idTable with
        | none => binding
        | some table => scanTable driver index name 0 table binding
      bindDrivers name (index + 1) rest scanned

/-- `client->name` after `strlcpy`, where `nameSize` is the size of the field. -/
def clientName (nameSize : ℕ) (info : BoardInfo) : Text := info.type.take (nameSize - 1)

/-- `i2c_new_device`: the client, and the events.  `memory` says whether `kzalloc` has some. -/
def i2cNewDevice (nameSize : ℕ) (drivers : List Driver) (memory : Bool) (adapter : ℕ)
    (info : BoardInfo) : Option Client × List Event :=
  if memory = false then (none, [])
  else
    let name := clientName nameSize info
    let binding := bindDrivers name 0 drivers ⟨-1, none, []⟩
    if binding.status ≠ 0 then (none, binding.trace)
    else
      (some ⟨adapter, name, info.flags, info.addr, info.irq, info.platformData, binding.driver⟩,
        binding.trace)

/-! ### What a driver is asked and answers -/

/-- What the driver returns for an entry, `none` without a probe function. -/
def Driver.answer (driver : Driver) (i : ℕ) : Option ℤ :=
  match driver.probeNew, driver.probe with
  | none, none => none
  | some probeNew, _ => some (probeNew i)
  | none, some probe => some (probe i)

/-- The names that the loop over the table gets to. -/
def Driver.names (driver : Driver) : List Text :=
  (driver.idTable.getD []).takeWhile (· ≠ [])

/-- The driver's table lists the name. -/
def Driver.Lists (driver : Driver) (name : Text) : Prop := name ∈ driver.names

/-- **The driver accepts** a client of this name: for some entry with the name it returns zero, or
it has no probe function. -/
def Driver.Accepts (driver : Driver) (name : Text) : Prop :=
  ∃ i, driver.names[i]? = some name ∧ (driver.answer i).getD 0 = 0

/-- An event by which the client was accepted. -/
def Event.Accepts (event : Event) : Prop := event.returned.getD 0 = 0

instance (event : Event) : Decidable event.Accepts :=
  inferInstanceAs (Decidable (_ = _))

/-- The events of a table, from the entry `i` on. -/
def tableEvents (driver : Driver) (index : ℕ) (name : Text) : ℕ → List Text → List Event
  | _, [] => []
  | i, entry :: rest =>
      if entry ≠ name then tableEvents driver index name (i + 1) rest
      else
        let event : Event := ⟨index, i, driver.answer i⟩
        event :: if event.Accepts then [] else tableEvents driver index name (i + 1) rest

/-- The events of the drivers from `index` on. -/
def offers (name : Text) : ℕ → List Driver → List Event
  | _, [] => []
  | index, driver :: rest =>
      tableEvents driver index name 0 driver.names ++ offers name (index + 1) rest

/-- **What is promised** of a client with this name. -/
structure Bound (name : Text) (drivers : List Driver) (memory : Bool)
    (outcome : Option Client × List Event) : Prop where
  returned : outcome.1.isSome = true ↔ memory = true ∧ ∃ driver ∈ drivers, driver.Accepts name
  /-- No probe function is called after the first acceptance. -/
  quiet : ∀ pre event post, outcome.2 = pre ++ event :: post → event.Accepts →
    ∀ later ∈ post, later.returned = none
  /-- The driver of the client is the one that accepted it. -/
  driver : ∀ client, outcome.1 = some client → ∃ before driver after,
    drivers = before ++ driver :: after ∧ (∀ other ∈ before, ¬ other.Accepts name) ∧
      driver.Accepts name ∧ client.driver = some before.length

/-- No driver after the first that accepts the client lists its name. -/
def Unrivalled (name : Text) (drivers : List Driver) : Prop :=
  ∀ before driver after, drivers = before ++ driver :: after →
    (∀ other ∈ before, ¬ other.Accepts name) → driver.Accepts name →
    ∀ later ∈ after, ¬ later.Lists name

/-- What an event does. -/
def Binding.apply (binding : Binding) (event : Event) : Binding where
  status := event.returned.getD 0
  driver := if event.Accepts then some event.driver else none
  trace := binding.trace ++ [event]

/-! ### The loops and the events -/

section Loops

variable {driver : Driver} {name : Text} {index : ℕ}

/-- The events of an entry with another name are those of the entries after it. -/
theorem tableEvents_of_ne {entry : Text} {rest : List Text} {i : ℕ} (h : entry ≠ name) :
    tableEvents driver index name i (entry :: rest) =
      tableEvents driver index name (i + 1) rest := by
  rw [tableEvents, if_pos h]

/-- An entry with the name is an event, and the last one if the client is accepted. -/
theorem tableEvents_self (driver : Driver) (index i : ℕ) (name : Text) (rest : List Text) :
    tableEvents driver index name i (name :: rest) =
      ⟨index, i, driver.answer i⟩ ::
        if (⟨index, i, driver.answer i⟩ : Event).Accepts then []
        else tableEvents driver index name (i + 1) rest := by
  rw [tableEvents, if_neg (not_not.mpr rfl)]

/-- An entry with the name: the driver is asked, and the loop ends if the client is accepted. -/
theorem scanTable_self (hname : name ≠ []) (i : ℕ) (rest : List Text) (binding : Binding) :
    scanTable driver index name i (name :: rest) binding =
      if (⟨index, i, driver.answer i⟩ : Event).Accepts then
        binding.apply ⟨index, i, driver.answer i⟩
      else
        scanTable driver index name (i + 1) rest (binding.apply ⟨index, i, driver.answer i⟩) := by
  rw [scanTable, if_neg hname, if_neg (not_not.mpr rfl)]
  -- with a probe function the status decides, and without one the client is accepted
  cases hnew : driver.probeNew with
  | none =>
      cases hold : driver.probe with
      | none => simp [Driver.answer, hnew, hold, Event.Accepts, Binding.apply]
      | some probe =>
          by_cases hzero : probe i = 0 <;>
            simp [Driver.answer, hnew, hold, Event.Accepts, Binding.apply, hzero]
  | some probeNew =>
      by_cases hzero : probeNew i = 0 <;>
        simp [Driver.answer, hnew, Event.Accepts, Binding.apply, hzero]

/-- The loop over a table does what its events say. -/
theorem scanTable_eq (table : List Text) (i : ℕ) (binding : Binding) :
    scanTable driver index name i table binding =
      (tableEvents driver index name i (table.takeWhile (· ≠ []))).foldl Binding.apply
        binding := by
  induction table generalizing i binding with
  | nil => rfl
  | cons entry rest ih =>
      by_cases hend : entry = []
      · rw [scanTable, if_pos hend, List.takeWhile_cons_of_neg (by simp [hend])]
        rfl
      · rw [List.takeWhile_cons_of_pos (by simp [hend])]
        by_cases hname : entry = name
        · subst hname
          rw [scanTable_self hend, tableEvents_self, List.foldl_cons]
          split
          · rfl
          · exact ih _ _
        · rw [scanTable, if_neg hend, if_pos hname, tableEvents_of_ne hname, ih]

/-- **The loops** do what the events say. -/
theorem bindDrivers_eq (drivers : List Driver) (index : ℕ) (binding : Binding) :
    bindDrivers name index drivers binding =
      (offers name index drivers).foldl Binding.apply binding := by
  induction drivers generalizing index binding with
  | nil => rfl
  | cons driver rest ih =>
      rw [bindDrivers, offers, List.foldl_append, ih]
      congr 1
      cases htable : driver.idTable with
      | none => simp [Driver.names, htable, tableEvents]
      | some table => simp [Driver.names, htable, scanTable_eq]

theorem offers_append (drivers others : List Driver) (index : ℕ) :
    offers name index (drivers ++ others) =
      offers name index drivers ++ offers name (index + drivers.length) others := by
  induction drivers generalizing index with
  | nil => rfl
  | cons driver rest ih =>
      rw [List.cons_append, offers, offers, ih, List.append_assoc, List.length_cons]
      congr 3
      omega

/-- The events name the driver. -/
theorem driver_of_mem {table : List Text} {i : ℕ} {event : Event}
    (h : event ∈ tableEvents driver index name i table) : event.driver = index := by
  induction table generalizing i with
  | nil => cases h
  | cons entry rest ih =>
      by_cases hname : entry = name
      · subst hname
        rw [tableEvents_self] at h
        rcases List.mem_cons.mp h with rfl | hmem
        · rfl
        · split at hmem
          · cases hmem
          · exact ih hmem
      · rw [tableEvents_of_ne hname] at h
        exact ih h

/-- The drivers of the events are those of the list. -/
theorem le_driver_of_mem {drivers : List Driver} {event : Event}
    (h : event ∈ offers name index drivers) : index ≤ event.driver := by
  induction drivers generalizing index with
  | nil => cases h
  | cons driver rest ih =>
      rcases List.mem_append.mp h with hmem | hmem
      · exact (driver_of_mem hmem).ge
      · exact (Nat.le_succ index).trans (ih hmem)

/-- A driver that does not list the name is asked nothing, … -/
theorem tableEvents_eq_nil_iff {table : List Text} {i : ℕ} :
    tableEvents driver index name i table = [] ↔ name ∉ table := by
  induction table generalizing i with
  | nil => simp [tableEvents]
  | cons entry rest ih =>
      by_cases hname : entry = name
      · subst hname
        simp [tableEvents_self]
      · rw [tableEvents_of_ne hname, ih]
        simp [Ne.symm hname]

/-- … and the drivers that do not list it either. -/
theorem offers_eq_nil_iff {drivers : List Driver} :
    offers name index drivers = [] ↔ ∀ driver ∈ drivers, ¬ driver.Lists name := by
  induction drivers generalizing index with
  | nil => simp [offers]
  | cons driver rest ih =>
      rw [offers, List.append_eq_nil_iff, tableEvents_eq_nil_iff, ih, List.forall_mem_cons]
      rfl

/-- A table is asked until the client is accepted: the events before the last one are refusals. -/
theorem tableEvents_split {table : List Text} {i : ℕ}
    (h : ∃ event ∈ tableEvents driver index name i table, event.Accepts) :
    ∃ pre event, tableEvents driver index name i table = pre ++ [event] ∧
      (∀ other ∈ pre, ¬ other.Accepts) ∧ event.Accepts := by
  induction table generalizing i with
  | nil =>
      obtain ⟨event, hmem, -⟩ := h
      cases hmem
  | cons entry rest ih =>
      by_cases hname : entry = name
      · subst hname
        rw [tableEvents_self] at h ⊢
        by_cases haccepts : (⟨index, i, driver.answer i⟩ : Event).Accepts
        · rw [if_pos haccepts]
          exact ⟨[], _, rfl, by simp, haccepts⟩
        · rw [if_neg haccepts] at h ⊢
          obtain ⟨event, hmem, hevent⟩ := h
          have hlater : event ∈ tableEvents driver index entry (i + 1) rest := by
            rcases List.mem_cons.mp hmem with rfl | hmem
            · exact absurd hevent haccepts
            · exact hmem
          obtain ⟨pre, last, hsplit, hpre, hlast⟩ := ih ⟨event, hlater, hevent⟩
          refine ⟨_ :: pre, last, congrArg (_ :: ·) hsplit, ?_, hlast⟩
          exact List.forall_mem_cons.mpr ⟨haccepts, hpre⟩
      · rw [tableEvents_of_ne hname] at h ⊢
        exact ih h

/-- The client is accepted by some event just if an entry with the name is answered so. -/
theorem exists_accepts_iff {table : List Text} {i : ℕ} :
    (∃ event ∈ tableEvents driver index name i table, event.Accepts) ↔
      ∃ j, table[j]? = some name ∧ (driver.answer (i + j)).getD 0 = 0 := by
  induction table generalizing i with
  | nil => simp [tableEvents]
  | cons entry rest ih =>
      -- the places in the rest of the table are one further
      have hrest : (∃ j, (entry :: rest)[j + 1]? = some name ∧
            (driver.answer (i + (j + 1))).getD 0 = 0) ↔
          ∃ event ∈ tableEvents driver index name (i + 1) rest, event.Accepts := by
        rw [ih]
        simp only [List.getElem?_cons_succ, Nat.add_assoc, Nat.add_comm 1]
      by_cases hname : entry = name
      · subst hname
        rw [tableEvents_self]
        by_cases haccepts : (⟨index, i, driver.answer i⟩ : Event).Accepts
        · rw [if_pos haccepts]
          exact ⟨fun _ => ⟨0, rfl, haccepts⟩, fun _ => ⟨_, List.mem_singleton_self _, haccepts⟩⟩
        · rw [if_neg haccepts]
          constructor
          · rintro ⟨event, hmem, hevent⟩
            rcases List.mem_cons.mp hmem with rfl | hmem
            · exact absurd hevent haccepts
            · obtain ⟨j, hj⟩ := hrest.mpr ⟨event, hmem, hevent⟩
              exact ⟨j + 1, hj⟩
          · rintro ⟨j, hentry, hanswer⟩
            cases j with
            | zero => exact absurd hanswer haccepts
            | succ j =>
                obtain ⟨event, hmem, hevent⟩ := hrest.mp ⟨j, hentry, hanswer⟩
                exact ⟨event, List.mem_cons_of_mem _ hmem, hevent⟩
      · rw [tableEvents_of_ne hname, ← hrest]
        constructor
        · rintro ⟨j, hj⟩
          exact ⟨j + 1, hj⟩
        · rintro ⟨j, hentry, hanswer⟩
          cases j with
          | zero => exact absurd (Option.some.inj hentry) hname
          | succ j => exact ⟨j, hentry, hanswer⟩

/-- A driver accepts just if one of its events does. -/
theorem accepts_iff (driver : Driver) (index : ℕ) (name : Text) :
    driver.Accepts name ↔
      ∃ event ∈ tableEvents driver index name 0 driver.names, event.Accepts := by
  rw [exists_accepts_iff]
  simp only [Nat.zero_add]
  rfl

/-- Drivers that do not accept refuse. -/
theorem offers_refused {drivers : List Driver} (h : ∀ driver ∈ drivers, ¬ driver.Accepts name) :
    ∀ event ∈ offers name index drivers, ¬ event.Accepts := by
  induction drivers generalizing index with
  | nil =>
      intro event hmem
      cases hmem
  | cons driver rest ih =>
      obtain ⟨hfirst, hrest⟩ := List.forall_mem_cons.mp h
      intro event hmem haccepts
      rcases List.mem_append.mp hmem with hmem | hmem
      · exact hfirst ((accepts_iff driver index name).mpr ⟨event, hmem, haccepts⟩)
      · exact ih hrest event hmem haccepts

end Loops

/-! ### The last event decides -/

section Outcome

variable {name : Text} {drivers : List Driver} {events : List Event} {binding : Binding}

theorem trace_foldl (events : List Event) (binding : Binding) :
    (events.foldl Binding.apply binding).trace = binding.trace ++ events := by
  induction events generalizing binding with
  | nil => simp
  | cons event rest ih =>
      rw [List.foldl_cons, ih]
      simp [Binding.apply]

/-- After refusals the status is not zero. -/
theorem status_of_refused (h : ∀ event ∈ events, ¬ event.Accepts) (hstatus : binding.status ≠ 0) :
    (events.foldl Binding.apply binding).status ≠ 0 := by
  induction events generalizing binding with
  | nil => exact hstatus
  | cons event rest ih =>
      obtain ⟨hfirst, hrest⟩ := List.forall_mem_cons.mp h
      exact ih hrest hfirst

/-- After an acceptance it is, and the client has that driver. -/
theorem foldl_concat_accepts {event : Event} (haccepts : event.Accepts) :
    ((events ++ [event]).foldl Binding.apply binding).status = 0 ∧
      ((events ++ [event]).foldl Binding.apply binding).driver = some event.driver := by
  rw [List.foldl_append]
  exact ⟨haccepts, if_pos haccepts⟩

variable (nameSize : ℕ) (adapter : ℕ) (info : BoardInfo)

/-- The events of the function. -/
theorem trace_i2cNewDevice (drivers : List Driver) :
    (i2cNewDevice nameSize drivers true adapter info).2 =
      offers (clientName nameSize info) 0 drivers := by
  have htrace := trace_foldl (offers (clientName nameSize info) 0 drivers) ⟨-1, none, []⟩
  unfold i2cNewDevice
  simp only [bindDrivers_eq]
  split
  · rename_i hfalse
    exact absurd hfalse (by decide)
  · split <;> simpa using htrace

/-- Without an acceptance there is no client. -/
theorem i2cNewDevice_refused
    (h : ∀ event ∈ offers (clientName nameSize info) 0 drivers, ¬ event.Accepts) :
    (i2cNewDevice nameSize drivers true adapter info).1 = none := by
  have hstatus := @status_of_refused _ ⟨-1, none, []⟩ h (by decide)
  unfold i2cNewDevice
  simp only [bindDrivers_eq]
  rw [if_neg (by decide), if_pos hstatus]

/-- If the last event is an acceptance, there is a client with that driver. -/
theorem i2cNewDevice_accepted {event : Event}
    (hsplit : offers (clientName nameSize info) 0 drivers = events ++ [event])
    (haccepts : event.Accepts) :
    ∃ client, (i2cNewDevice nameSize drivers true adapter info).1 = some client ∧
      client.driver = some event.driver := by
  obtain ⟨hstatus, hdriver⟩ := @foldl_concat_accepts events ⟨-1, none, []⟩ event haccepts
  rw [← hsplit] at hstatus hdriver
  unfold i2cNewDevice
  simp only [bindDrivers_eq]
  rw [if_neg (by decide), if_neg (not_not.mpr hstatus)]
  exact ⟨_, rfl, hdriver⟩

end Outcome

/-! ### The drivers and the outcome -/

section Drivers

variable {name : Text} {drivers before after : List Driver} {driver : Driver}

/-- Some driver accepts, and then a first one does, or none. -/
theorem exists_first_accepts (name : Text) (drivers : List Driver) :
    (∀ driver ∈ drivers, ¬ driver.Accepts name) ∨
      ∃ before driver after, drivers = before ++ driver :: after ∧
        (∀ other ∈ before, ¬ other.Accepts name) ∧ driver.Accepts name := by
  induction drivers with
  | nil => exact .inl (by simp)
  | cons first rest ih =>
      by_cases hfirst : first.Accepts name
      · exact .inr ⟨[], first, rest, rfl, by simp, hfirst⟩
      · rcases ih with hnone | ⟨before, driver, after, rfl, hbefore, haccepts⟩
        · exact .inl (List.forall_mem_cons.mpr ⟨hfirst, hnone⟩)
        · exact .inr ⟨first :: before, driver, after, rfl,
            List.forall_mem_cons.mpr ⟨hfirst, hbefore⟩, haccepts⟩

/-- The events at the first driver that accepts: refusals, its acceptance, and what the drivers
after it are asked all the same. -/
theorem offers_at_first (hbefore : ∀ other ∈ before, ¬ other.Accepts name)
    (haccepts : driver.Accepts name) :
    ∃ pre event, offers name 0 (before ++ driver :: after) =
        (pre ++ [event]) ++ offers name (before.length + 1) after ∧
      (∀ other ∈ pre, ¬ other.Accepts) ∧ event.Accepts ∧ event.driver = before.length := by
  obtain ⟨refusals, event, hsplit, hrefusals, hevent⟩ :=
    tableEvents_split ((accepts_iff driver before.length name).mp haccepts)
  have hmem : event ∈ tableEvents driver before.length name 0 driver.names := by
    rw [hsplit]
    exact List.mem_append_right _ (List.mem_singleton_self _)
  refine ⟨offers name 0 before ++ refusals, event, ?_, ?_, hevent, driver_of_mem hmem⟩
  · rw [offers_append, Nat.zero_add, offers, hsplit]
    simp only [List.append_assoc]
  · intro other hother
    rcases List.mem_append.mp hother with hother | hother
    · exact offers_refused hbefore other hother
    · exact hrefusals other hother

/-- Nothing that has the property comes before the first that has it. -/
theorem length_le_of_first {α : Type*} {p : α → Prop} {pre pre' post post' : List α} {x x' : α}
    (hsplit : pre ++ x :: post = pre' ++ x' :: post') (hpre : ∀ y ∈ pre, ¬ p y) (hx' : p x') :
    pre.length ≤ pre'.length := by
  by_contra hlt
  have hlt : pre'.length < pre.length := by omega
  have hget : pre[pre'.length]? = some x' := by
    rw [← @List.getElem?_append_left _ pre (x :: post) _ hlt, hsplit]
    simp
  exact hpre x' (List.mem_of_getElem? hget) hx'

/-- There is only one first driver that accepts. -/
theorem first_accepts_unique {before' after' : List Driver} {driver' : Driver}
    (hsplit : before ++ driver :: after = before' ++ driver' :: after')
    (hbefore : ∀ other ∈ before, ¬ other.Accepts name) (haccepts : driver.Accepts name)
    (hbefore' : ∀ other ∈ before', ¬ other.Accepts name) (haccepts' : driver'.Accepts name) :
    before.length = before'.length ∧ after = after' := by
  have hlength : before.length = before'.length := le_antisymm
    (@length_le_of_first _ (Driver.Accepts · name) _ _ _ _ _ _ hsplit hbefore haccepts')
    (@length_le_of_first _ (Driver.Accepts · name) _ _ _ _ _ _ hsplit.symm hbefore' haccepts)
  exact ⟨hlength, (List.cons.inj (List.append_inj_right hsplit hlength)).2⟩

/-- It is enough to look at the drivers after that one. -/
theorem unrivalled_iff (hbefore : ∀ other ∈ before, ¬ other.Accepts name)
    (haccepts : driver.Accepts name) :
    Unrivalled name (before ++ driver :: after) ↔ ∀ later ∈ after, ¬ later.Lists name := by
  constructor
  · intro h
    exact h before driver after rfl hbefore haccepts
  · intro h before' driver' after' hsplit hbefore' haccepts'
    obtain ⟨-, rfl⟩ := first_accepts_unique hsplit hbefore haccepts hbefore' haccepts'
    exact h

variable (nameSize : ℕ) (adapter : ℕ) (info : BoardInfo)

/-- Drivers that all refuse: nothing is returned, and nothing is to be said about acceptances. -/
theorem bound_of_refused
    (h : ∀ driver ∈ drivers, ¬ driver.Accepts (clientName nameSize info)) :
    Bound (clientName nameSize info) drivers true
      (i2cNewDevice nameSize drivers true adapter info) := by
  have hevents := @offers_refused (clientName nameSize info) 0 drivers h
  have hnone := i2cNewDevice_refused nameSize adapter info hevents
  constructor
  case returned =>
    rw [hnone]
    refine ⟨fun hsome => absurd hsome (by decide), ?_⟩
    rintro ⟨-, driver, hmem, haccepts⟩
    exact absurd haccepts (h driver hmem)
  case quiet =>
    intro pre event post htrace haccepts
    rw [trace_i2cNewDevice] at htrace
    exact absurd haccepts (hevents event (by simp [htrace]))
  case driver =>
    intro client hclient
    rw [hnone] at hclient
    cases hclient

/-- **Without a rival** the acceptance is the last event. -/
theorem bound_of_unrivalled
    (hbefore : ∀ other ∈ before, ¬ other.Accepts (clientName nameSize info))
    (haccepts : driver.Accepts (clientName nameSize info))
    (hafter : ∀ later ∈ after, ¬ later.Lists (clientName nameSize info)) :
    Bound (clientName nameSize info) (before ++ driver :: after) true
      (i2cNewDevice nameSize (before ++ driver :: after) true adapter info) := by
  obtain ⟨pre, event, hsplit, hpre, hevent, hdriver⟩ :=
    @offers_at_first (clientName nameSize info) before after driver hbefore haccepts
  rw [offers_eq_nil_iff.mpr hafter, List.append_nil] at hsplit
  obtain ⟨client, hclient, hbound⟩ :=
    i2cNewDevice_accepted nameSize adapter info hsplit hevent
  constructor
  case returned =>
    rw [hclient]
    exact ⟨fun _ => ⟨rfl, driver, by simp, haccepts⟩, fun _ => rfl⟩
  case quiet =>
    intro first other post htrace hother later hlater
    rw [trace_i2cNewDevice, hsplit] at htrace
    -- the acceptance is not among the refusals, so nothing comes after it
    have hle := @length_le_of_first _ Event.Accepts _ _ _ _ _ _ htrace hpre hother
    have hlength := congrArg List.length htrace
    have hpos := List.length_pos_of_mem hlater
    simp only [List.length_append, List.length_cons, List.length_nil] at hlength
    omega
  case driver =>
    intro other hother
    obtain rfl := Option.some.inj (hclient.symm.trans hother)
    exact ⟨before, driver, after, rfl, hbefore, haccepts, hbound.trans (congrArg some hdriver)⟩

/-- **With a rival** either a probe function is called after the acceptance, or the client has the
driver of the rival. -/
theorem not_bound_of_rival
    (hbefore : ∀ other ∈ before, ¬ other.Accepts (clientName nameSize info))
    (haccepts : driver.Accepts (clientName nameSize info))
    (hafter : ∃ later ∈ after, later.Lists (clientName nameSize info)) :
    ¬ Bound (clientName nameSize info) (before ++ driver :: after) true
      (i2cNewDevice nameSize (before ++ driver :: after) true adapter info) := by
  intro h
  obtain ⟨pre, event, hsplit, -, hevent, -⟩ :=
    @offers_at_first (clientName nameSize info) before after driver hbefore haccepts
  have hne : offers (clientName nameSize info) (before.length + 1) after ≠ [] := by
    intro hnil
    obtain ⟨later, hmem, hlists⟩ := hafter
    exact offers_eq_nil_iff.mp hnil later hmem hlists
  obtain ⟨others, last, hothers⟩ := (List.eq_nil_or_concat' _).resolve_left hne
  have hlast : last ∈ offers (clientName nameSize info) (before.length + 1) after := by
    rw [hothers]
    simp
  -- no probe function is called, so the last event is an acceptance by a driver without one
  have hunprobed : last.returned = none := by
    refine h.quiet pre event _ ?_ hevent last hlast
    rw [trace_i2cNewDevice, hsplit, List.append_assoc, List.singleton_append]
  have hlastAccepts : last.Accepts := by
    rw [Event.Accepts, hunprobed]
    rfl
  have hconcat : offers (clientName nameSize info) 0 (before ++ driver :: after) =
      (pre ++ [event] ++ others) ++ [last] := by
    rw [hsplit, hothers, List.append_assoc (pre ++ [event])]
  obtain ⟨client, hclient, hbound⟩ :=
    i2cNewDevice_accepted nameSize adapter info hconcat hlastAccepts
  obtain ⟨before', driver', after', hdrivers, hbefore', haccepts', hfirst⟩ :=
    h.driver client hclient
  obtain ⟨hplace, -⟩ := first_accepts_unique hdrivers hbefore haccepts hbefore' haccepts'
  have hlater := le_driver_of_mem hlast
  have hsame := Option.some.inj (hbound.symm.trans hfirst)
  omega

end Drivers

/-- **What is promised of a client** is kept just if no driver after the first that accepts it lists
its name. -/
theorem i2cNewDevice_bound_iff (nameSize : ℕ) (drivers : List Driver) (memory : Bool)
    (adapter : ℕ) (info : BoardInfo) :
    Bound (clientName nameSize info) drivers memory
        (i2cNewDevice nameSize drivers memory adapter info) ↔
      memory = false ∨ Unrivalled (clientName nameSize info) drivers := by
  cases memory with
  | false =>
      have hnone : i2cNewDevice nameSize drivers false adapter info = (none, []) := if_pos rfl
      rw [hnone]
      refine iff_of_true ⟨by simp, ?_, ?_⟩ (.inl rfl)
      · intro pre event post htrace
        simp at htrace
      · intro client hclient
        cases hclient
  | true =>
      rw [or_iff_right (by decide)]
      rcases exists_first_accepts (clientName nameSize info) drivers with hnone |
        ⟨before, driver, after, rfl, hbefore, haccepts⟩
      · refine iff_of_true (bound_of_refused nameSize adapter info hnone) ?_
        intro before driver after hsplit _ haccepts
        exact absurd haccepts (hnone driver (by simp [hsplit]))
      · rw [unrivalled_iff hbefore haccepts]
        constructor
        · intro hbound later hmem hlists
          exact not_bound_of_rival nameSize adapter info hbefore haccepts ⟨later, hmem, hlists⟩
            hbound
        · exact bound_of_unrivalled nameSize adapter info hbefore haccepts

/-- Two drivers with the same entry: the first accepts the client, the second is asked all the same
and refuses it with `-ENODEV`, and nothing is returned. -/
theorem i2cNewDevice_two_drivers :
    ¬ ∀ (nameSize : ℕ) (drivers : List Driver) (memory : Bool) (adapter : ℕ) (info : BoardInfo),
      Bound (clientName nameSize info) drivers memory
        (i2cNewDevice nameSize drivers memory adapter info) := by
  intro h
  have hbound := h 20
    [⟨some [['x']], some fun _ => 0, none⟩, ⟨some [['x']], some fun _ => -19, none⟩]
    true 0 ⟨['x'], 0, 0x20, 0, 0⟩
  have hsome := hbound.returned.mpr ⟨rfl, _, List.mem_cons_self, 0, rfl, rfl⟩
  exact absurd hsome (by decide)

end Webcamd.Kernel.I2c
