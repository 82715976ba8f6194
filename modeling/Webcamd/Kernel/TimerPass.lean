import Webcamd.Kernel.TimerList

/-!
# Arming timers again, and one pass over them

`mod_timer` writes the expiry of a timer and says whether the timer is pending.  The timer thread
goes over the list in passes: it takes the first timer off that has expired, calls its handler,
and starts again from the head of the list, until no timer on it has expired.

* `modTimer_rearms_iff` — `mod_timer` does what `del_timer`, an assignment and `add_timer` do
  exactly for a timer that is pending.
* `JiffiesClock` — the time that `get_jiffies_64` reads, which does not go back.
* `TimerOp`, `Allowed` — what a handler does to timers, and that it arms them in the future only.
* `Pass` — one pass, with the handlers that it calls.
* `State.Due` — the timers that are pending and have expired: a call takes one out
  (`scan_call`), and no handler puts one in (`handler_keepsDue`).
* `timer_pass` — so a pass ends, has called the handler of every timer that was due once, unless
  a handler deleted or armed it, and leaves none that is due.
-/

namespace Webcamd.Kernel

open Webcamd.Library

variable {W T C : Type} [DecidableEq W] [DecidableEq T] [DecidableEq C]

/-! ### `mod_timer` -/

/-- `del_timer(t)`, `t->expires = e` and `add_timer(t)`, one after the other. -/
def State.rearm (state : State W T C) (timer : T) (expires : BitVec 64) : State W T C :=
  let deleted := (state.delTimer timer).1
  let written := { deleted with expires := Function.update deleted.expires timer expires }
  (written.delTimer timer).1.linkTimer timer

/-- The same timers are pending, in whatever order, and all have the same expiries. -/
def SameTimers (state other : State W T C) : Prop :=
  ∃ items others, state.timerHead.Represents items ∧ other.timerHead.Represents others ∧
    items.Perm others ∧ state.expires = other.expires

/-- **`mod_timer` arms the timer again** and says whether it was pending. -/
def ModTimerRearms (dwork : T → Option W) (thread : Thread C) (state : State W T C) (timer : T)
    (expires : BitVec 64) : Prop :=
  ∃ next value, state.enter dwork thread (.modTimer timer expires) =
      some (next, [.ret thread (.modTimer timer expires) value]) ∧
    (value = 1 ↔ state.pending timer = true) ∧ SameTimers next (state.rearm timer expires)

section ModTimer

variable {state : State W T C} {timer : T} {expires : BitVec 64} {items : List T}

omit [DecidableEq W] [DecidableEq C] in
/-- Arming a timer again puts it at the end of the list, once. -/
theorem rearm_represents (h : state.timerHead.Represents items) (timer : T)
    (expires : BitVec 64) :
    (state.rearm timer expires).timerHead.Represents (items.erase timer ++ [timer]) := by
  have hnot : timer ∉ items.erase timer := h.nodup.not_mem_erase
  have htwice : ((state.timerHead.takeOut timer).1.takeOut timer).1.Represents
      (items.erase timer) := by
    have htaken := (h.takeOut timer).takeOut timer
    rwa [List.erase_of_not_mem hnot] at htaken
  exact htwice.insertTail hnot

/-- **`mod_timer` arms a timer again** exactly if it is pending. -/
theorem modTimer_rearms_iff {dwork : T → Option W} {thread : Thread C}
    (h : TimersLinked state) :
    ModTimerRearms dwork thread state timer expires ↔ state.pending timer = true := by
  obtain ⟨items, hrep⟩ := h
  have hrearmed := rearm_represents hrep timer expires
  constructor
  · rintro ⟨next, value, henter, -, after, others, hafter, hothers, hperm, -⟩
    obtain ⟨rfl, -⟩ := Prod.mk.inj (Option.some.inj henter)
    obtain rfl := hafter.unique hrep
    obtain rfl := hothers.unique hrearmed
    refine (hrep.prev_isSome_iff timer).mpr (hperm.mem_iff.mpr ?_)
    exact List.mem_append_right _ (List.mem_singleton.mpr rfl)
  · intro hpending
    have hmem : timer ∈ items := (hrep.prev_isSome_iff timer).mp hpending
    refine ⟨_, _, rfl, ?_, items, _, hrep, hrearmed, ?_, rfl⟩
    · simp [hpending]
    · exact (List.perm_cons_erase hmem).trans (List.perm_append_singleton _ _).symm

end ModTimer

/-- Of two pending timers the first one is armed again. -/
theorem modTimer_rearms_iff_pending :
    ModTimerRearms (fun _ : Bool => (none : Option Unit)) (.client ())
      (((State.init : State Unit Bool Unit).linkTimer false).linkTimer true) false 7 :=
  (modTimer_rearms_iff ⟨[false, true],
    (TailQueue.Represents.empty.insertTail List.not_mem_nil).insertTail (by decide)⟩).mpr rfl

/-- A timer that is not pending is not. -/
theorem modTimer_not_rearms :
    ¬ ModTimerRearms (fun _ : Unit => (none : Option Unit)) (.client ())
      (State.init : State Unit Unit Unit) () 7 := by
  rintro ⟨next, value, henter, -, after, others, hafter, hothers, hperm, -⟩
  obtain ⟨rfl, -⟩ := Prod.mk.inj (Option.some.inj henter)
  obtain rfl := hafter.unique TailQueue.Represents.empty
  obtain rfl := hothers.unique (rearm_represents TailQueue.Represents.empty () 7)
  exact absurd hperm.length_eq (by decide)

/-! ### The time -/

/-- `timer_last.tv_nsec`, `timer_nsec_rem` and `jiffies64`. -/
structure JiffiesClock where
  timerLast : ℤ
  timerNsecRem : ℕ
  jiffies64 : BitVec 64

/-- The `delta` of `get_jiffies_64` after its range check. -/
def JiffiesClock.delta (clock : JiffiesClock) (nsec : ℤ) : ℤ :=
  let delta := (BitVec.ofInt 32 (nsec - clock.timerLast)).toInt
  let delta := if delta < 0 then delta + 1000000000 else delta
  let delta := if delta < 0 then 0 else delta
  if 999999999 < delta then 999999999 else delta

/-- `get_jiffies_64`, where `clock_gettime` gives `nsec` for the nanoseconds. -/
def JiffiesClock.getJiffies64 (clock : JiffiesClock) (nsec : ℤ) : JiffiesClock :=
  let timerNsecRem := (clock.timerNsecRem + (clock.delta nsec).toNat) % 2 ^ 32
  let ticks := timerNsecRem / 1000000
  if 0 < ticks then ⟨nsec, timerNsecRem % 1000000, clock.jiffies64 + BitVec.ofNat 64 ticks⟩
  else ⟨nsec, timerNsecRem, clock.jiffies64⟩

/-- One reading moves the time on, and not far. -/
theorem JiffiesClock.getJiffies64_advance (clock : JiffiesClock) (nsec : ℤ) :
    ∃ ticks < 2 ^ 13,
      (clock.getJiffies64 nsec).jiffies64 = clock.jiffies64 + BitVec.ofNat 64 ticks := by
  unfold JiffiesClock.getJiffies64
  dsimp only
  split
  · exact ⟨_, by omega, rfl⟩
  · exact ⟨0, by decide, (BitVec.add_zero _).symm⟩

/-- **The time does not go back**, for as long as 2^50 readings. -/
theorem JiffiesClock.jiffies64_not_before (clock : JiffiesClock) (readings : List ℤ)
    (hlength : readings.length < 2 ^ 50) :
    ((readings.foldl getJiffies64 clock).jiffies64 - clock.jiffies64).msb = false := by
  -- the induction counts the ticks, of which there are less than 2^13 in each reading
  have hticks : ∀ (readings : List ℤ) (clock : JiffiesClock), ∃ ticks ≤ readings.length * 2 ^ 13,
      (readings.foldl getJiffies64 clock).jiffies64 =
        clock.jiffies64 + BitVec.ofNat 64 ticks := by
    intro readings
    induction readings with
    | nil => exact fun clock => ⟨0, le_rfl, (BitVec.add_zero _).symm⟩
    | cons nsec readings ih =>
        intro clock
        obtain ⟨first, hfirst, hnext⟩ := clock.getJiffies64_advance nsec
        obtain ⟨rest, hrest, hlast⟩ := ih (clock.getJiffies64 nsec)
        refine ⟨first + rest, ?_, ?_⟩
        · rw [List.length_cons]
          omega
        · rw [List.foldl_cons, hlast, hnext, BitVec.ofNat_add, BitVec.add_assoc]
  obtain ⟨ticks, hle, hlast⟩ := hticks readings clock
  rw [hlast, add_sub_cancel_left, BitVec.msb_eq_decide, BitVec.toNat_ofNat,
    decide_eq_false_iff_not]
  omega

/-! ### One pass -/

/-- What a handler does to a timer. -/
inductive TimerOp (T : Type) where
  | delTimer (timer : T)
  /-- `mod_timer`, or an assignment to `expires` -/
  | setExpires (timer : T) (expires : BitVec 64)
  | addTimer (timer : T)

/-- The timer it is about. -/
def TimerOp.timer : TimerOp T → T
  | .delTimer timer | .setExpires timer _ | .addTimer timer => timer

/-- The operation, as nobody else interferes. -/
def State.operate (state : State W T C) : TimerOp T → State W T C
  | .delTimer timer => (state.delTimer timer).1
  | .setExpires timer expires =>
      { state with expires := Function.update state.expires timer expires }
  | .addTimer timer => (state.delTimer timer).1.linkTimer timer

/-- An expiry between `now` and 2^62 after it, within 2^62 of `last_jiffies`. -/
def InFuture (lastJiffies now expires : BitVec 64) : Prop :=
  (expires - now).toNat ≤ 2 ^ 62 ∧ (expires - lastJiffies).toInt.natAbs ≤ 2 ^ 62

/-- The operation does not arm a timer but in the future. -/
def Allowed (lastJiffies now : BitVec 64) (state : State W T C) : TimerOp T → Prop
  | .delTimer _ => True
  | .setExpires timer expires =>
      state.pending timer = true → InFuture lastJiffies now expires
  | .addTimer timer => InFuture lastJiffies now (state.expires timer)

/-- All operations of a handler are such. -/
def AllAllowed (lastJiffies now : BitVec 64) (state : State W T C) : List (TimerOp T) → Prop
  | [] => True
  | op :: ops =>
      Allowed lastJiffies now state op ∧ AllAllowed lastJiffies now (state.operate op) ops

/-- What the handler of a timer does when it is called in a state, as the `n`-th of the pass.
The function of a delayed work does nothing to timers. -/
abbrev TimerHandlers (W T C : Type) := ℕ → T → State W T C → List (TimerOp T)

/-- A call of a handler, with the expiry of its timer and with what it did. -/
structure HandlerCall (T : Type) where
  timer : T
  expires : BitVec 64
  ops : List (TimerOp T)

/-- **One pass** of the timer thread, from `restart` to the end of the list, with the calls that
it makes. -/
inductive Pass (lastJiffies : BitVec 64) (handlers : TimerHandlers W T C) :
    ℕ → State W T C → List (HandlerCall T) → State W T C → Prop where
  | done {n fuel : ℕ} {state last : State W T C}
      (hscan : state.scanTimers (fun _ => none) lastJiffies fuel = some (last, [])) :
      Pass lastJiffies handlers n state [] last
  | call {n fuel : ℕ} {state fired last : State W T C} {timer : T} {calls : List (HandlerCall T)}
      (hscan : state.scanTimers (fun _ => none) lastJiffies fuel =
        some (fired, [.fired timer]))
      (rest : Pass lastJiffies handlers (n + 1)
        ((handlers n timer fired).foldl State.operate fired) calls last) :
      Pass lastJiffies handlers n state
        (⟨timer, state.expires timer, handlers n timer fired⟩ :: calls) last

/-- The timer is pending and has expired. -/
def State.Due (state : State W T C) (lastJiffies : BitVec 64) (timer : T) : Prop :=
  state.pending timer = true ∧ state.expired lastJiffies timer = true

/-- **A pass is complete**: what it has called, and what is left. -/
structure PassComplete (lastJiffies : BitVec 64) (state : State W T C)
    (calls : List (HandlerCall T)) (last : State W T C) : Prop where
  /-- Only timers that were due are called, … -/
  due : ∀ call ∈ calls, state.Due lastJiffies call.timer
  /-- … when they expire before `last_jiffies`, … -/
  expired : ∀ call ∈ calls, (call.expires - lastJiffies).msb = true
  /-- … and no timer is called twice. -/
  once : (calls.map HandlerCall.timer).Nodup
  /-- One that was due is called, or a handler has deleted or armed it. -/
  called : ∀ timer, state.Due lastJiffies timer → timer ∈ calls.map HandlerCall.timer ∨
    ∃ call ∈ calls, ∃ op ∈ call.ops, op.timer = timer
  /-- No timer is due. -/
  nothing : ∀ timer, ¬ last.Due lastJiffies timer

section Pass

variable {lastJiffies now : BitVec 64} {state next : State W T C} {items : List T} {timer : T}

/-- An expiry in the future is not before `last_jiffies`. -/
theorem InFuture.not_expired {expires : BitVec 64} (h : InFuture lastJiffies now expires)
    (hnow : (now - lastJiffies).msb = false) : (expires - lastJiffies).msb = false := by
  obtain ⟨hlow, hnear⟩ := h
  have hsum : expires - lastJiffies = (expires - now) + (now - lastJiffies) :=
    (sub_add_sub_cancel expires now lastJiffies).symm
  have hnowLt : (now - lastJiffies).toNat < 2 ^ 63 := by
    rw [BitVec.msb_eq_decide] at hnow
    simpa using hnow
  rw [BitVec.msb_eq_decide, decide_eq_false_iff_not, not_le]
  rw [BitVec.toInt_eq_toNat_cond] at hnear
  have hvalue : (expires - lastJiffies).toNat =
      (expires - now).toNat + (now - lastJiffies).toNat := by
    rw [hsum, BitVec.toNat_add]
    omega
  split at hnear <;> omega

omit [DecidableEq W] [DecidableEq T] [DecidableEq C] in
/-- **The scan** finds the first timer of the list that has expired … -/
theorem findExpired_eq (h : state.timerHead.Represents items) :
    state.findExpired lastJiffies items.length state.timerHead.first =
      some (items.find? (state.expired lastJiffies)) := by
  suffices key : ∀ (items : List T) (cell : Cell T),
      state.timerHead.Segment cell items state.timerHead.last →
        state.findExpired lastJiffies items.length (state.timerHead.load cell) =
          some (items.find? (state.expired lastJiffies)) from
    key items .head h.segment
  intro items
  induction items with
  | nil =>
      rintro cell rfl
      rw [h.terminated]
      rfl
  | cons timer items ih =>
      rintro cell ⟨hload, -, hrest⟩
      rw [hload, List.length_cons, State.findExpired, List.find?_cons]
      cases hexpired : state.expired lastJiffies timer with
      | true => rfl
      | false => exact ih (.next timer) hrest

omit [DecidableEq W] [DecidableEq T] [DecidableEq C] in
/-- … and nothing else, however long it may take. -/
theorem findExpired_unique {fuel other : ℕ} {start found found' : Option T}
    (h : state.findExpired lastJiffies fuel start = some found)
    (h' : state.findExpired lastJiffies other start = some found') : found = found' := by
  induction fuel generalizing other start with
  | zero =>
      cases start with
      | none => exact Option.some.inj (h.symm.trans (by cases other <;> exact h'))
      | some timer => cases h
  | succ fuel ih =>
      cases start with
      | none => exact Option.some.inj (h.symm.trans (by cases other <;> exact h'))
      | some timer =>
          cases other with
          | zero => cases h'
          | succ other =>
              rw [State.findExpired] at h h'
              split at h
              · rename_i hexpired
                rw [if_pos hexpired] at h'
                exact Option.some.inj (h.symm.trans h')
              · rename_i hexpired
                rw [if_neg hexpired] at h'
                exact ih h h'

omit [DecidableEq W] [DecidableEq T] [DecidableEq C] in
/-- **A timer is due** if it is among those that the scan is about. -/
theorem due_iff (h : state.timerHead.Represents items) :
    state.Due lastJiffies timer ↔ timer ∈ items ∧ state.expired lastJiffies timer = true :=
  and_congr_left' (h.prev_isSome_iff timer)

omit [DecidableEq W] in
/-- What a scan that finds nothing has found out. -/
theorem scan_done {fuel : ℕ} (hlinked : TimersLinked state)
    (hscan : state.scanTimers (fun _ => none) lastJiffies fuel = some (next, [])) :
    (∀ timer, ¬ state.Due lastJiffies timer) ∧ ∀ timer, ¬ next.Due lastJiffies timer := by
  obtain ⟨items, hrep⟩ := hlinked
  unfold State.scanTimers at hscan
  split at hscan
  · cases hscan
  · rename_i hfind
    obtain ⟨rfl, -⟩ := Prod.mk.inj (Option.some.inj hscan)
    have hnone := findExpired_unique (findExpired_eq hrep) hfind
    have hall : ∀ timer, ¬ state.Due lastJiffies timer := by
      intro timer hdue
      obtain ⟨hmem, hexpired⟩ := (due_iff hrep).mp hdue
      exact List.find?_eq_none.mp hnone timer hmem hexpired
    exact ⟨hall, hall⟩
  · obtain ⟨removed, -, heq⟩ := Option.map_eq_some_iff.mp hscan
    cases (Prod.mk.inj heq).2

/-- What a scan does that finds a timer. -/
structure Taken (lastJiffies : BitVec 64) (state fired : State W T C) (timer : T) : Prop where
  linked : TimersLinked fired
  due : state.Due lastJiffies timer
  unlinked : ¬ fired.Due lastJiffies timer
  others : ∀ other, other ≠ timer →
    (fired.Due lastJiffies other ↔ state.Due lastJiffies other)

omit [DecidableEq W] in
theorem scan_call {fuel : ℕ} (hlinked : TimersLinked state)
    (hscan : state.scanTimers (fun _ => none) lastJiffies fuel =
      some (next, [.fired timer])) : Taken lastJiffies state next timer := by
  obtain ⟨items, hrep⟩ := hlinked
  unfold State.scanTimers at hscan
  split at hscan
  · cases hscan
  · cases (Prod.mk.inj (Option.some.inj hscan)).2
  · rename_i found hfind
    obtain ⟨removed, hremove, heq⟩ := Option.map_eq_some_iff.mp hscan
    obtain ⟨rfl, hevents⟩ := Prod.mk.inj heq
    obtain rfl : found = timer := by simpa using hevents
    have hfound := findExpired_unique (findExpired_eq hrep) hfind
    have hmem : found ∈ items := List.mem_of_find?_eq_some hfound
    obtain ⟨removed', hremove', hrest⟩ := hrep.remove hmem
    obtain rfl := Option.some.inj (hremove.symm.trans hremove')
    have hnext : (({ state with
        timerHead := removed.clearPrev found
        timerThread := .running found lastJiffies } : State W T C)).timerHead.Represents
        (items.erase found) := hrest
    refine ⟨⟨_, hrest⟩, (due_iff hrep).mpr ⟨hmem, List.find?_some hfound⟩, fun hdue => ?_,
      fun other hother => ?_⟩
    · exact hrep.nodup.not_mem_erase ((due_iff hnext).mp hdue).1
    · rw [due_iff hnext, due_iff hrep, List.mem_erase_of_ne hother]
      exact Iff.rfl

/-- What handlers do to the timers that are due: none becomes due, and those that nothing is done
to stay so. -/
structure KeepsDue (lastJiffies : BitVec 64) (state next : State W T C)
    (ops : List (TimerOp T)) : Prop where
  linked : TimersLinked next
  due : ∀ timer, next.Due lastJiffies timer → state.Due lastJiffies timer
  others : ∀ timer, (∀ op ∈ ops, op.timer ≠ timer) → state.Due lastJiffies timer →
    next.Due lastJiffies timer

omit [DecidableEq W] [DecidableEq C] in
/-- An operation keeps what is due if it leaves the other timers alone and does not make its own
due. -/
theorem keepsDue_of_others {op : TimerOp T} {others : List T}
    (hrep : state.timerHead.Represents items) (hnext : next.timerHead.Represents others)
    (hothers : ∀ other, other ≠ op.timer → (other ∈ others ↔ other ∈ items) ∧
      next.expired lastJiffies other = state.expired lastJiffies other)
    (hown : next.Due lastJiffies op.timer → state.Due lastJiffies op.timer) :
    KeepsDue lastJiffies state next [op] := by
  have hsame : ∀ other, other ≠ op.timer →
      (next.Due lastJiffies other ↔ state.Due lastJiffies other) := by
    intro other hne
    obtain ⟨hmem, hexpired⟩ := hothers other hne
    rw [due_iff hnext, due_iff hrep, hmem, hexpired]
  refine ⟨⟨_, hnext⟩, fun other hdue => ?_, fun other htouched hdue => ?_⟩
  · by_cases heq : other = op.timer
    · subst heq
      exact hown hdue
    · exact (hsame other heq).mp hdue
  · have hne : other ≠ op.timer := Ne.symm (htouched op (List.mem_singleton.mpr rfl))
    exact (hsame other hne).mpr hdue

omit [DecidableEq W] [DecidableEq C] in
/-- **One operation of a handler.** -/
theorem operate_keepsDue {op : TimerOp T} (hlinked : TimersLinked state)
    (hnow : (now - lastJiffies).msb = false) (hallowed : Allowed lastJiffies now state op) :
    KeepsDue lastJiffies state (state.operate op) [op] := by
  obtain ⟨items, hrep⟩ := hlinked
  cases op with
  | delTimer timer =>
      have hnext : (state.operate (.delTimer timer)).timerHead.Represents
          (items.erase timer) := hrep.takeOut timer
      refine keepsDue_of_others hrep hnext (fun other (hne : other ≠ timer) => ⟨?_, rfl⟩)
        fun hdue => ?_
      · exact List.mem_erase_of_ne hne
      · exact absurd ((due_iff hnext).mp hdue).1 hrep.nodup.not_mem_erase
  | setExpires timer expires =>
      have hnext : (state.operate (.setExpires timer expires)).timerHead.Represents items := hrep
      refine keepsDue_of_others hrep hnext (fun other (hne : other ≠ timer) => ⟨Iff.rfl, ?_⟩)
        fun hdue => ?_
      · show ((Function.update state.expires timer expires) other - lastJiffies).msb = _
        rw [Function.update_of_ne hne]
        rfl
      · -- a pending timer is written in the future
        obtain ⟨hmem, hexpired⟩ := (due_iff hnext).mp hdue
        have hfuture := (hallowed ((hrep.prev_isSome_iff timer).mpr hmem)).not_expired hnow
        have hwritten : (Function.update state.expires timer expires timer -
            lastJiffies).msb = true := hexpired
        rw [Function.update_self, hfuture] at hwritten
        cases hwritten
  | addTimer timer =>
      have hnot : timer ∉ items.erase timer := hrep.nodup.not_mem_erase
      have hnext : (state.operate (.addTimer timer)).timerHead.Represents
          (items.erase timer ++ [timer]) := (hrep.takeOut timer).insertTail hnot
      refine keepsDue_of_others hrep hnext (fun other (hne : other ≠ timer) => ⟨?_, rfl⟩)
        fun hdue => ?_
      · rw [List.mem_append, List.mem_singleton, List.mem_erase_of_ne hne]
        exact or_iff_left hne
      · have hfuture : (state.expires timer - lastJiffies).msb = false :=
          InFuture.not_expired hallowed hnow
        exact absurd (hfuture.symm.trans ((due_iff hnext).mp hdue).2) Bool.false_ne_true

omit [DecidableEq W] [DecidableEq C] in
/-- **A whole handler.** -/
theorem handler_keepsDue (ops : List (TimerOp T)) (hlinked : TimersLinked state)
    (hnow : (now - lastJiffies).msb = false) (hallowed : AllAllowed lastJiffies now state ops) :
    KeepsDue lastJiffies state (ops.foldl State.operate state) ops := by
  induction ops generalizing state with
  | nil => exact ⟨hlinked, fun _ hdue => hdue, fun _ _ hdue => hdue⟩
  | cons op ops ih =>
      have hone := operate_keepsDue hlinked hnow hallowed.1
      have hrest := ih hone.linked hallowed.2
      refine ⟨hrest.linked, fun timer hdue => hone.due timer (hrest.due timer hdue),
        fun timer hothers hdue => ?_⟩
      rw [List.forall_mem_cons] at hothers
      refine hrest.others timer hothers.2 (hone.others timer (fun first hmem => ?_) hdue)
      rw [List.mem_singleton.mp hmem]
      exact hothers.1

omit [DecidableEq W] [DecidableEq T] [DecidableEq C] in
/-- After a call the timer is no longer due, and no other one is that was not. -/
theorem Taken.due_of_handled {fired : State W T C} {ops : List (TimerOp T)} {other : T}
    (htaken : Taken lastJiffies state fired timer)
    (hhandler : KeepsDue lastJiffies fired next ops) (hdue : next.Due lastJiffies other) :
    other ≠ timer ∧ state.Due lastJiffies other := by
  have hfired : fired.Due lastJiffies other := hhandler.due other hdue
  have hne : other ≠ timer := by
    rintro rfl
    exact htaken.unlinked hfired
  exact ⟨hne, (htaken.others other hne).mp hfired⟩

variable {handlers : TimerHandlers W T C} {clock : ℕ → BitVec 64}

omit [DecidableEq W] in
/-- **A pass ends**: every call takes a timer out of those that are due. -/
theorem pass_ends (hclock : ∀ n, (clock n - lastJiffies).msb = false)
    (hallowed : ∀ n timer fired, AllAllowed lastJiffies (clock n) fired (handlers n timer fired))
    (bound : List T) (n : ℕ) (hlinked : TimersLinked state)
    (hbound : ∀ timer, state.Due lastJiffies timer → timer ∈ bound) :
    ∃ calls last, Pass lastJiffies handlers n state calls last := by
  induction hlength : bound.length using Nat.strong_induction_on generalizing bound n state with
  | h length ih =>
      obtain ⟨items, hrep⟩ := id hlinked
      have hfind : state.findExpired lastJiffies items.length state.timerHead.first = _ :=
        findExpired_eq hrep
      cases hfound : items.find? (state.expired lastJiffies) with
      | none =>
          rw [hfound] at hfind
          have hscan : state.scanTimers (fun _ => none) lastJiffies items.length =
              some ({ state with timerThread := .idle }, []) := by
            rw [State.scanTimers, hfind]
          exact ⟨[], _, .done hscan⟩
      | some timer =>
          rw [hfound] at hfind
          have hmem : timer ∈ items := List.mem_of_find?_eq_some hfound
          obtain ⟨removed, hremove, -⟩ := hrep.remove hmem
          let fired : State W T C := { state with
            timerHead := removed.clearPrev timer
            timerThread := .running timer lastJiffies }
          have hscan : state.scanTimers (fun _ => none) lastJiffies items.length =
              some (fired, [.fired timer]) := by
            rw [State.scanTimers, hfind]
            simp only [hremove, Option.map_some]
            rfl
          have htaken := scan_call hlinked hscan
          have hhandler := handler_keepsDue (handlers n timer fired) htaken.linked (hclock n)
            (hallowed n timer fired)
          -- the timer was among those that are due, and is no longer
          have hshorter : (bound.filter fun other => decide (other ≠ timer)).length <
              length := by
            rw [← hlength]
            refine List.length_filter_lt_length_iff_exists.mpr
              ⟨timer, hbound timer htaken.due, by simp⟩
          have hstill : ∀ other,
              ((handlers n timer fired).foldl State.operate fired).Due lastJiffies other →
                other ∈ bound.filter fun other => decide (other ≠ timer) := by
            intro other hdue
            obtain ⟨hne, hbefore⟩ := htaken.due_of_handled hhandler hdue
            exact List.mem_filter.mpr ⟨hbound other hbefore, decide_eq_true hne⟩
          obtain ⟨calls, last, hrest⟩ :=
            ih _ hshorter _ (n + 1) hhandler.linked hstill rfl
          exact ⟨_, last, .call hscan hrest⟩

omit [DecidableEq W] in
/-- **A pass that ends is complete.** -/
theorem pass_complete (hclock : ∀ n, (clock n - lastJiffies).msb = false)
    (hallowed : ∀ n timer fired, AllAllowed lastJiffies (clock n) fired (handlers n timer fired))
    {n : ℕ} {calls : List (HandlerCall T)} {last : State W T C} (hlinked : TimersLinked state)
    (hpass : Pass lastJiffies handlers n state calls last) :
    PassComplete lastJiffies state calls last := by
  induction hpass with
  | done hscan =>
      obtain ⟨hnow, hlast⟩ := scan_done hlinked hscan
      exact ⟨by simp, by simp, List.nodup_nil, fun timer hdue => absurd hdue (hnow timer), hlast⟩
  | @call n fuel state fired last timer calls hscan rest ih =>
      have htaken := scan_call hlinked hscan
      have hhandler := handler_keepsDue (handlers n timer fired) htaken.linked (hclock n)
        (hallowed n timer fired)
      have hrest := ih hhandler.linked
      refine ⟨?_, ?_, ?_, fun other hdue => ?_, hrest.nothing⟩
      · rw [List.forall_mem_cons]
        exact ⟨htaken.due, fun call hmem =>
          (htaken.due_of_handled hhandler (hrest.due call hmem)).2⟩
      · rw [List.forall_mem_cons]
        exact ⟨htaken.due.2, hrest.expired⟩
      · rw [List.map_cons, List.nodup_cons]
        refine ⟨fun hmem => ?_, hrest.once⟩
        obtain ⟨call, hcall, rfl⟩ := List.mem_map.mp hmem
        exact (htaken.due_of_handled hhandler (hrest.due call hcall)).1 rfl
      · rw [List.map_cons, List.mem_cons]
        by_cases heq : other = timer
        · exact .inl (.inl heq)
        by_cases htouched : ∃ op ∈ handlers n timer fired, op.timer = other
        · exact .inr ⟨_, List.mem_cons_self, htouched⟩
        -- nothing is done to it, so that it is due for the rest of the pass
        have hother : ∀ op ∈ handlers n timer fired, op.timer ≠ other :=
          fun op hmem hop => htouched ⟨op, hmem, hop⟩
        have hstill := hhandler.others other hother ((htaken.others other heq).mpr hdue)
        rcases hrest.called other hstill with hcalled | ⟨call, hcall, hop⟩
        · exact .inl (.inr hcalled)
        · exact .inr ⟨call, List.mem_cons_of_mem _ hcall, hop⟩

omit [DecidableEq W] in
/-- A scan that ends has come to a result. -/
theorem scan_found {fuel : ℕ} {result : State W T C × List (Event W T C)}
    (h : state.scanTimers (fun _ => none) lastJiffies fuel = some result) :
    ∃ found, state.findExpired lastJiffies fuel state.timerHead.first = some found := by
  refine Option.ne_none_iff_exists'.mp fun hnone => ?_
  rw [State.scanTimers, hnone] at h
  cases h

omit [DecidableEq W] in
/-- A scan does one thing only, however long it may take. -/
theorem scan_unique {fuel other : ℕ} {result result' : State W T C × List (Event W T C)}
    (h : state.scanTimers (fun _ => none) lastJiffies fuel = some result)
    (h' : state.scanTimers (fun _ => none) lastJiffies other = some result') :
    result = result' := by
  obtain ⟨found, hfound⟩ := scan_found h
  obtain ⟨found', hfound'⟩ := scan_found h'
  cases findExpired_unique hfound hfound'
  rw [State.scanTimers, hfound] at h
  rw [State.scanTimers, hfound'] at h'
  exact Option.some.inj (h.symm.trans h')

omit [DecidableEq W] in
/-- And so does a pass. -/
theorem pass_unique {n : ℕ} {calls others : List (HandlerCall T)} {last last' : State W T C}
    (h : Pass lastJiffies handlers n state calls last)
    (h' : Pass lastJiffies handlers n state others last') : others = calls ∧ last' = last := by
  induction h generalizing others last' with
  | done hscan =>
      cases h' with
      | done hscan' => exact ⟨rfl, (Prod.mk.inj (scan_unique hscan' hscan)).1⟩
      | call hscan' rest' => cases (Prod.mk.inj (scan_unique hscan' hscan)).2
  | call hscan rest ih =>
      cases h' with
      | done hscan' => cases (Prod.mk.inj (scan_unique hscan' hscan)).2
      | call hscan' rest' =>
          obtain ⟨rfl, hevents⟩ := Prod.mk.inj (scan_unique hscan' hscan)
          obtain rfl := Event.fired.inj (List.cons.inj hevents).1
          obtain ⟨rfl, rfl⟩ := ih rest'
          exact ⟨rfl, rfl⟩

omit [DecidableEq W] in
/-- **One timer pass** ends, in one way only, and is complete: whatever the handlers delete and
arm again, if they arm nothing in the past. -/
theorem timer_pass (hlinked : TimersLinked state)
    (hclock : ∀ n, (clock n - lastJiffies).msb = false)
    (hallowed : ∀ n timer fired,
      AllAllowed lastJiffies (clock n) fired (handlers n timer fired)) :
    ∃ calls last, Pass lastJiffies handlers 0 state calls last ∧
      PassComplete lastJiffies state calls last ∧
      ∀ others last', Pass lastJiffies handlers 0 state others last' →
        others = calls ∧ last' = last := by
  obtain ⟨items, hrep⟩ := id hlinked
  have hbound : ∀ timer, state.Due lastJiffies timer → timer ∈ items :=
    fun timer hdue => ((due_iff hrep).mp hdue).1
  obtain ⟨calls, last, hpass⟩ := pass_ends hclock hallowed items 0 hlinked hbound
  exact ⟨calls, last, hpass, pass_complete hclock hallowed hlinked hpass,
    fun others last' => pass_unique hpass⟩

end Pass

/-- Two timers that have expired; the handler of one deletes the other and arms its own again. -/
theorem timer_pass_rearming :
    let state : State Unit Bool Unit := (State.init.linkTimer false).linkTimer true
    let handlers : TimerHandlers Unit Bool Unit := fun _ timer _ =>
      [.delTimer (!timer), .setExpires timer 15, .addTimer timer]
    ∃ calls last, Pass 5 handlers 0 state calls last ∧ PassComplete 5 state calls last ∧
      ∀ others last', Pass 5 handlers 0 state others last' → others = calls ∧ last' = last := by
  intro state handlers
  have hlinked : TimersLinked state :=
    ⟨[false, true], (TailQueue.Represents.empty.insertTail List.not_mem_nil).insertTail
      (by decide)⟩
  have hfuture : InFuture 5 5 15 := by unfold InFuture; decide
  refine @timer_pass Unit Bool Unit _ _ 5 state handlers (fun _ => 5) hlinked
    (fun n => by decide) fun n timer fired => ⟨trivial, fun _ => hfuture, ?_, trivial⟩
  show InFuture 5 5 ((Function.update _ timer 15 : Bool → BitVec 64) timer)
  rwa [Function.update_self]

end Webcamd.Kernel
