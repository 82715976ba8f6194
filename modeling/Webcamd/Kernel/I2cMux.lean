import Webcamd.Library.LockOrder

/-!
# Transfers over I2C multiplexers

A model of `kernel/linux_i2c_mux.c` and of the transfers and locks of `kernel/linux_i2c.c`.  An
adapter is that of a driver, or a channel of a multiplexer on another adapter.  A transfer on a
channel switches the multiplexer, is done on the parent, and lets the multiplexer go.  Locking an
adapter means locking up to the next multiplexer that is `mux_locked`, whose transfers lock the rest
on their own; or up to the root with `I2C_LOCK_ROOT_ADAPTER`.

* `lockBus`, `unlockBus`, `trylockBus` — the three functions of all kinds of adapters.
* `masterXfer`, `i2cTransfer`, `smbusXfer`, `i2cSmbusXfer` — the transfers, as routines of a thread.
* `discipline` — a lock comes before those of the adapters further down, and the `mux_lock` of an
  adapter guards what the multiplexers on it are switched to.
* `masterXfer_ensures`, `body_ensures` — every call keeps to the discipline.
* `calls_return` — **no deadlock**: any number of threads on any tree, in any order.
* `transfer_routed` — **the hardware is asked by one thread at a time**, and only while all
  multiplexers on the way are switched to the channels of the adapter that is meant.

The locks are recursive, as in `Mutex.lean`.  What the driver and its callbacks return is the answer
to an operation, and may be anything; so are the data and the clock.
-/

namespace Webcamd.Kernel.I2cMux

open Webcamd.Library

/-- `struct i2c_adapter`.  What `i2c_mux_add_adapter` makes is a channel. -/
inductive Adapter where
  /-- which of the two functions of `struct i2c_algorithm` the driver has, and `retries` -/
  | root (nr : ℕ) (masterXfer smbusXfer : Bool) (retries : ℤ)
  /-- the multiplexer, by its number, with `mux_locked` and whether it has `deselect` -/
  | channel (parent : Adapter) (mux : ℕ) (muxLocked deselect : Bool) (chanId : BitVec 32)
  deriving DecidableEq

/-- `struct i2c_mux_core` -/
structure MuxCore where
  parent : Adapter
  mux : ℕ
  muxLocked : Bool
  deselect : Bool
  deriving DecidableEq

namespace Adapter

/-- `i2c_root_adapter` -/
def rootAdapter : Adapter → Adapter
  | root nr masterXfer smbusXfer retries => root nr masterXfer smbusXfer retries
  | channel parent _ _ _ _ => parent.rootAdapter

/-- `adap->algo->master_xfer` is there: a channel has it if its parent has. -/
def hasMasterXfer : Adapter → Bool
  | root _ masterXfer _ _ => masterXfer
  | channel parent _ _ _ _ => parent.hasMasterXfer

/-- `adap->algo->smbus_xfer` is there. -/
def hasSmbusXfer : Adapter → Bool
  | root _ _ smbusXfer _ => smbusXfer
  | channel parent _ _ _ _ => parent.hasSmbusXfer

/-- `adap->retries`, which a channel has from its parent -/
def retries : Adapter → ℤ
  | root _ _ _ retries => retries
  | channel parent _ _ _ _ => parent.retries

def depth : Adapter → ℕ
  | root _ _ _ _ => 0
  | channel parent _ _ _ _ => parent.depth + 1

/-- The multiplexers from an adapter to the root, and the channels they have to be switched to. -/
def path : Adapter → List (MuxCore × BitVec 32)
  | root _ _ _ _ => []
  | channel parent mux muxLocked deselect chanId =>
      (⟨parent, mux, muxLocked, deselect⟩, chanId) :: parent.path

end Adapter

/-- The two locks of an adapter; `bus_lock` is used of a root only. -/
inductive Lock where
  | busLock (adapter : Adapter)
  | muxLock (adapter : Adapter)
  deriving DecidableEq

/-- What is asked of the drivers, and what depends on the data and on the clock. -/
inductive Op where
  /-- `adap->algo->master_xfer` of a root -/
  | masterXfer (adapter : Adapter)
  /-- `adap->algo->smbus_xfer` of a root -/
  | smbusXfer (adapter : Adapter)
  | select (muxc : MuxCore) (chanId : BitVec 32)
  | deselect (muxc : MuxCore) (chanId : BitVec 32)
  /-- `time_after(jiffies, end_jiffies)` -/
  | timeAfter
  /-- what `i2c_smbus_xfer_emulated` makes of its arguments -/
  | prepare
  /-- what `i2c_smbus_xfer_emulated` makes of the messages that it gets -/
  | reply

abbrev Routine := Webcamd.Library.Routine Lock Op ℤ

def lock (l : Lock) : Routine Unit := .lock l (.done ())

def tryLock (l : Lock) : Routine Bool := .tryLock l .done

def unlock (l : Lock) : Routine Unit := .unlock l (.done ())

def perform (op : Op) : Routine ℤ := .perform op .done

def lockRootAdapter : BitVec 32 := 1#32

def lockSegment : BitVec 32 := 2#32

/-- `EAGAIN` -/
def eagain : ℤ := 35

/-- `EOPNOTSUPP` -/
def eopnotsupp : ℤ := 45

/-- `flags & I2C_LOCK_ROOT_ADAPTER` -/
def wantsRoot (flags : BitVec 32) : Bool := decide (flags &&& lockRootAdapter ≠ 0#32)

/-- `i2c_lock_bus`: `i2c_adapter_lock_bus`, `i2c_mux_lock_bus` or `i2c_parent_lock_bus` -/
def lockBus : Adapter → BitVec 32 → Routine Unit
  | .root nr masterXfer smbusXfer retries, _ => lock (.busLock (.root nr masterXfer smbusXfer retries))
  | .channel parent _ muxLocked _ _, flags => do
      lock (.muxLock parent)
      if muxLocked && !wantsRoot flags then pure ()
      else lockBus parent flags

/-- `i2c_unlock_bus`: `i2c_adapter_unlock_bus`, `i2c_mux_unlock_bus` or `i2c_parent_unlock_bus` -/
def unlockBus : Adapter → BitVec 32 → Routine Unit
  | .root nr masterXfer smbusXfer retries, _ =>
      unlock (.busLock (.root nr masterXfer smbusXfer retries))
  | .channel parent _ muxLocked _ _, flags => do
      if muxLocked && !wantsRoot flags then pure ()
      else unlockBus parent flags
      unlock (.muxLock parent)

/-- `adapter->trylock_bus`: `i2c_adapter_trylock_bus`, `i2c_mux_trylock_bus` or
`i2c_parent_trylock_bus` -/
def trylockBus : Adapter → BitVec 32 → Routine Bool
  | .root nr masterXfer smbusXfer retries, _ =>
      tryLock (.busLock (.root nr masterXfer smbusXfer retries))
  | .channel parent _ muxLocked _ _, flags => do
      let taken ← tryLock (.muxLock parent)
      if taken then
        if muxLocked && !wantsRoot flags then pure true
        else
          let rest ← trylockBus parent flags
          if rest then pure true
          else
            unlock (.muxLock parent)
            pure false
      else pure false

/-- The loop over `try` in `i2c_transfer`, `__i2c_transfer` and `i2c_smbus_xfer`, with the tries that
are left. -/
def retry (xfer : Routine ℤ) : ℕ → ℤ → Routine ℤ
  | 0, ret => pure ret
  | tries + 1, _ => do
      let ret ← xfer
      if ret ≠ -eagain then pure ret
      else
        let late ← perform .timeAfter
        if late ≠ 0 then pure ret
        else retry xfer tries ret

/-- The loop, as often as `retries` says. -/
def retries (adap : Adapter) (xfer : Routine ℤ) : Routine ℤ := retry xfer (adap.retries + 1).toNat 0

/-- The loop with the segment locked. -/
def lockedRetries (adap : Adapter) (xfer : Routine ℤ) : Routine ℤ := do
  lockBus adap lockSegment
  let ret ← retries adap xfer
  unlockBus adap lockSegment
  pure ret

/-- `muxc->deselect`, if there is one, when the transfer has returned -/
def deselected (muxc : MuxCore) (chanId : BitVec 32) (ret : ℤ) : Routine ℤ :=
  if muxc.deselect then do
    let _ ← perform (.deselect muxc chanId)
    pure ret
  else pure ret

/-- `muxc->select`, a transfer on the parent, and `muxc->deselect`: the body of
`i2c_mux_master_xfer`, `i2c_mux_smbus_xfer` and of their variants with `__`. -/
def selected (muxc : MuxCore) (chanId : BitVec 32) (xfer : Routine ℤ) : Routine ℤ := do
  let ret ← perform (.select muxc chanId)
  if 0 ≤ ret then
    let ret ← xfer
    deselected muxc chanId ret
  else deselected muxc chanId ret

/-- `i2c_transfer`, around `adap->algo->master_xfer` -/
def transferWith (adap : Adapter) (xfer : Routine ℤ) : Routine ℤ :=
  if adap.hasMasterXfer then lockedRetries adap xfer else pure (-eopnotsupp)

/-- `adap->algo->master_xfer`: that of the driver, `i2c_mux_master_xfer` or
`__i2c_mux_master_xfer` -/
def masterXfer : Adapter → Routine ℤ
  | .root nr hasMaster hasSmbus retries => perform (.masterXfer (.root nr hasMaster hasSmbus retries))
  | .channel parent mux muxLocked deselect chanId =>
      selected ⟨parent, mux, muxLocked, deselect⟩ chanId
        (if muxLocked then transferWith parent (masterXfer parent)
        else retries parent (masterXfer parent))

/-- `i2c_transfer` -/
def i2cTransfer (adap : Adapter) : Routine ℤ := transferWith adap (masterXfer adap)

/-- `__i2c_transfer`, with the segment locked by the caller -/
def i2cTransferUnlocked (adap : Adapter) : Routine ℤ := retries adap (masterXfer adap)

/-- `i2c_smbus_xfer_emulated`: one transfer, if the arguments are valid. -/
def emulated (adap : Adapter) : Routine ℤ := do
  let status ← perform .prepare
  if status < 0 then pure status
  else
    let status ← i2cTransfer adap
    if status < 0 then pure status else perform .reply

/-- `i2c_smbus_xfer`, around `adapter->algo->smbus_xfer` -/
def smbusXferWith (adap : Adapter) (xfer : Routine ℤ) : Routine ℤ :=
  if adap.hasSmbusXfer then do
    let res ← lockedRetries adap xfer
    if res ≠ -eopnotsupp ∨ ¬ adap.hasMasterXfer then pure res
    else emulated adap
  else emulated adap

/-- `adapter->algo->smbus_xfer`: that of the driver, `i2c_mux_smbus_xfer` or
`__i2c_mux_smbus_xfer` -/
def smbusXfer : Adapter → Routine ℤ
  | .root nr hasMaster hasSmbus retries => perform (.smbusXfer (.root nr hasMaster hasSmbus retries))
  | .channel parent mux muxLocked deselect chanId =>
      selected ⟨parent, mux, muxLocked, deselect⟩ chanId
        (if muxLocked then smbusXferWith parent (smbusXfer parent) else smbusXfer parent)

/-- `i2c_smbus_xfer` -/
def i2cSmbusXfer (adap : Adapter) : Routine ℤ := smbusXferWith adap (smbusXfer adap)

/-! ### Calls -/

/-- What the drivers call, for an adapter. -/
inductive Call where
  | transfer (adap : Adapter)
  | smbus (adap : Adapter)
  /-- `i2c_lock_bus`, so many calls of `__i2c_transfer`, and `i2c_unlock_bus` -/
  | locked (adap : Adapter) (flags : BitVec 32) (count : ℕ)
  /-- the same with `trylock_bus`, if that succeeds -/
  | tryLocked (adap : Adapter) (flags : BitVec 32) (count : ℕ)

def Call.adapter : Call → Adapter
  | transfer adap | smbus adap | locked adap _ _ | tryLocked adap _ _ => adap

/-- `__i2c_transfer`, again and again.  Only for adapters that have a `master_xfer`. -/
def transfers (adap : Adapter) : ℕ → Routine Unit
  | 0 => pure ()
  | count + 1 => do
      let _ ← i2cTransferUnlocked adap
      transfers adap count

/-- What a thread does in a call. -/
def body : Call → Routine Unit
  | .transfer adap => do
      let _ ← i2cTransfer adap
      pure ()
  | .smbus adap => do
      let _ ← i2cSmbusXfer adap
      pure ()
  | .locked adap flags count => do
      lockBus adap flags
      if adap.hasMasterXfer then transfers adap count else pure ()
      unlockBus adap flags
  | .tryLocked adap flags count => do
      let taken ← trylockBus adap flags
      if taken then
        if adap.hasMasterXfer then transfers adap count else pure ()
        unlockBus adap flags
      else pure ()

/-! ### The discipline -/

/-- The locks are taken from the leaves to the root. -/
def rank : Lock → ℕ
  | .busLock adapter => adapter.depth
  | .muxLock adapter => adapter.depth + 1

/-- What a multiplexer is switched to: a channel, or it is not known. -/
abbrev Selection := MuxCore → Option (BitVec 32)

/-- `select` switches the multiplexer, if it succeeds. -/
def write : Op → ℤ → Selection → Selection
  | .select muxc chanId, ret, selection =>
      Function.update selection muxc (if 0 ≤ ret then some chanId else none)
  | .deselect muxc _, _, selection => Function.update selection muxc none
  | _, _, selection => selection

/-- **The locks of the adapters**, and what they guard. -/
def discipline : Discipline Lock Op ℤ MuxCore (Option (BitVec 32)) where
  rank := rank
  guard muxc := .muxLock muxc.parent
  write := write

/-- All multiplexers on the way from an adapter are switched to its channels. -/
def Routed (adapter : Adapter) (selection : Selection) : Prop :=
  ∀ hop ∈ adapter.path, selection hop.1 = some hop.2

/-- The hardware is asked to transfer something for an adapter: it is its root, the function is
there, its bus is locked, and so is the adapter's way to it. -/
def AtHardware (adapter root : Adapter) (held : Lock → ℕ) (selection : Selection) : Prop :=
  root = adapter.rootAdapter ∧ 0 < held (.busLock root) ∧ Routed adapter selection ∧
    ∀ hop ∈ adapter.path, 0 < held (.muxLock hop.1.parent)

/-- **When an operation is allowed** in a call for an adapter. -/
def Allowed (adapter : Adapter) : Op → (Lock → ℕ) → Selection → Prop
  | .masterXfer root, held, selection =>
      AtHardware adapter root held selection ∧ root.hasMasterXfer = true
  | .smbusXfer root, held, selection =>
      AtHardware adapter root held selection ∧ root.hasSmbusXfer = true
  | .select muxc chanId, held, _ =>
      (muxc, chanId) ∈ adapter.path ∧ 0 < held (.muxLock muxc.parent)
  | .deselect muxc chanId, held, _ =>
      (muxc, chanId) ∈ adapter.path ∧ 0 < held (.muxLock muxc.parent)
  | _, _, _ => True

/-! ### Which locks a call takes -/

/-- The locks that `lockBus` takes, each as often as it takes it. -/
def taken : Adapter → BitVec 32 → Lock → ℕ
  | .root nr masterXfer smbusXfer retries, _ =>
      Pi.single (.busLock (.root nr masterXfer smbusXfer retries)) 1
  | .channel parent _ muxLocked _ _, flags =>
      Pi.single (.muxLock parent) 1 + if muxLocked && !wantsRoot flags then 0 else taken parent flags

/-- The rank of the last lock of a segment. -/
def Adapter.floor : Adapter → ℕ
  | .root _ _ _ _ => 0
  | .channel parent _ muxLocked _ _ => if muxLocked then parent.depth + 1 else parent.floor

variable {adapter parent target : Adapter} {mux : ℕ} {muxLocked deselect : Bool}
variable {chanId flags : BitVec 32} {l : Lock} {held : Lock → ℕ} {store store' : Selection}
variable {A : Op → (Lock → ℕ) → Selection → Prop} {front : List (MuxCore × BitVec 32)}

theorem taken_channel (parent : Adapter) (mux : ℕ) (muxLocked deselect : Bool)
    (chanId flags : BitVec 32) : taken (.channel parent mux muxLocked deselect chanId) flags =
      Pi.single (.muxLock parent) 1 +
        if muxLocked && !wantsRoot flags then 0 else taken parent flags := rfl

theorem muxLock_taken (parent : Adapter) (mux : ℕ) (muxLocked deselect : Bool)
    (chanId flags : BitVec 32) :
    0 < taken (.channel parent mux muxLocked deselect chanId) flags (.muxLock parent) := by
  rw [taken_channel, Pi.add_apply, Pi.single_eq_same]
  exact Nat.lt_of_lt_of_le Nat.one_pos (Nat.le_add_right _ _)

/-- A channel that locks its parent locks whatever that locks. -/
theorem taken_of_parent (hlocks : (muxLocked && !wantsRoot flags) = false)
    (h : 0 < taken parent flags l) :
    0 < taken (.channel parent mux muxLocked deselect chanId) flags l := by
  rw [taken_channel, hlocks, Pi.add_apply, if_neg Bool.false_ne_true]
  omega

theorem taken_channel_cases (h : 0 < taken (.channel parent mux muxLocked deselect chanId) flags l) :
    l = .muxLock parent ∨ (muxLocked && !wantsRoot flags) = false ∧ 0 < taken parent flags l := by
  obtain rfl | hne := eq_or_ne l (.muxLock parent)
  · exact Or.inl rfl
  · rw [taken_channel, Pi.add_apply, Pi.single_eq_of_ne hne, Nat.zero_add] at h
    cases hlocks : muxLocked && !wantsRoot flags with
    | true =>
        rw [hlocks] at h
        exact absurd h (lt_irrefl 0)
    | false =>
        rw [hlocks] at h
        exact Or.inr ⟨rfl, h⟩

theorem wantsRoot_lockRootAdapter : wantsRoot lockRootAdapter = true := rfl

theorem wantsRoot_lockSegment : wantsRoot lockSegment = false := rfl

/-- With `I2C_LOCK_ROOT_ADAPTER` no lock is left out. -/
theorem taken_root_of_taken (h : 0 < taken adapter flags l) :
    0 < taken adapter lockRootAdapter l := by
  induction adapter with
  | root nr hasMaster hasSmbus retries => exact h
  | channel parent mux muxLocked deselect chanId ih =>
      obtain rfl | ⟨-, hparent⟩ := taken_channel_cases h
      · exact muxLock_taken _ _ _ _ _ _
      · refine taken_of_parent ?_ (ih hparent)
        rw [wantsRoot_lockRootAdapter, Bool.not_true, Bool.and_false]

/-- All flags without `I2C_LOCK_ROOT_ADAPTER` mean the segment. -/
theorem taken_eq_segment (hflags : wantsRoot flags = false) :
    taken adapter flags = taken adapter lockSegment := by
  induction adapter with
  | root nr hasMaster hasSmbus retries => rfl
  | channel parent mux muxLocked deselect chanId ih =>
      rw [taken_channel, taken_channel, ih, hflags, wantsRoot_lockSegment]

/-- A segment is locked in any case. -/
theorem taken_of_segment (h : 0 < taken adapter lockSegment l) : 0 < taken adapter flags l := by
  cases hflags : wantsRoot flags with
  | false => rwa [taken_eq_segment hflags]
  | true =>
      induction adapter with
      | root nr hasMaster hasSmbus retries => exact h
      | channel parent mux muxLocked deselect chanId ih =>
          obtain rfl | ⟨-, hparent⟩ := taken_channel_cases h
          · exact muxLock_taken _ _ _ _ _ _
          · refine taken_of_parent ?_ (ih hparent)
            rw [hflags, Bool.not_true, Bool.and_false]

theorem floor_le_depth (adapter : Adapter) : adapter.floor ≤ adapter.depth := by
  induction adapter with
  | root nr hasMaster hasSmbus retries => exact le_rfl
  | channel parent mux muxLocked deselect chanId ih =>
      unfold Adapter.floor
      split
      · exact le_rfl
      · exact ih.trans (Nat.le_succ _)

theorem floor_le_rank (h : 0 < taken adapter lockSegment l) : adapter.floor ≤ rank l := by
  induction adapter with
  | root nr hasMaster hasSmbus retries => exact Nat.zero_le _
  | channel parent mux muxLocked deselect chanId ih =>
      obtain rfl | ⟨hlocks, hparent⟩ := taken_channel_cases h
      · exact floor_le_depth (.channel parent mux muxLocked deselect chanId)
      · rw [wantsRoot_lockSegment, Bool.not_false, Bool.and_true] at hlocks
        rw [Adapter.floor, if_neg (Bool.eq_false_iff.mp hlocks)]
        exact ih hparent

/-- An adapter may be locked: all locks up to the root are held, or all that are held come after. -/
def Lockable (adapter : Adapter) (held : Lock → ℕ) : Prop :=
  (∀ l, 0 < taken adapter lockRootAdapter l → 0 < held l) ∨ ∀ l, 0 < held l → adapter.depth < rank l

/-- An adapter is locked, so that `master_xfer` and `smbus_xfer` may be called. -/
structure Ready (adapter : Adapter) (held : Lock → ℕ) : Prop where
  segment : ∀ l, 0 < taken adapter lockSegment l → 0 < held l
  order : (∀ l, 0 < taken adapter lockRootAdapter l → 0 < held l) ∨
    ∀ l, 0 < held l → adapter.floor ≤ rank l

/-- `lockBus` makes an adapter ready. -/
theorem Lockable.ready (h : Lockable adapter held) (flags : BitVec 32) :
    Ready adapter (held + taken adapter flags) where
  segment l hl := Nat.add_pos_right _ (taken_of_segment hl)
  order := by
    obtain hroot | hbelow := h
    · exact Or.inl fun l hl => Nat.add_pos_left (hroot l hl) _
    · cases hflags : wantsRoot flags with
      | true =>
          refine Or.inl fun l hl => Nat.add_pos_right _ ?_
          suffices htaken : taken adapter flags = taken adapter lockRootAdapter by rwa [htaken]
          clear hl hbelow
          induction adapter with
          | root nr hasMaster hasSmbus retries => rfl
          | channel parent mux muxLocked deselect chanId ih =>
              rw [taken_channel, taken_channel, ih, hflags, wantsRoot_lockRootAdapter]
      | false =>
          refine Or.inr fun l hl => ?_
          rw [taken_eq_segment hflags, Pi.add_apply] at hl
          obtain hheld | htaken := Nat.add_pos_iff_pos_or_pos.mp hl
          · exact (floor_le_depth adapter).trans (hbelow l hheld).le
          · exact floor_le_rank htaken

/-- Behind a multiplexer that is `mux_locked`, the parent may be locked. -/
theorem Ready.lockable (h : Ready (.channel parent mux true deselect chanId) held) :
    Lockable parent held := by
  obtain hroot | hfloor := h.order
  · refine Or.inl fun l hl => hroot l (taken_of_parent ?_ hl)
    rw [wantsRoot_lockRootAdapter, Bool.not_true, Bool.and_false]
  · exact Or.inr hfloor

/-- Behind any other one, the parent is locked. -/
theorem Ready.behind (h : Ready (.channel parent mux false deselect chanId) held) :
    Ready parent held where
  segment l hl := h.segment l (taken_of_parent (Bool.false_and _) hl)
  order := by
    obtain hroot | hfloor := h.order
    · exact Or.inl fun l hl => hroot l (taken_of_parent (Bool.false_and _) hl)
    · exact Or.inr hfloor

theorem Ready.muxLock (h : Ready (.channel parent mux muxLocked deselect chanId) held) :
    0 < held (.muxLock parent) :=
  h.segment _ (muxLock_taken _ _ _ _ _ _)

/-- A thread that has no locks may lock any adapter. -/
theorem lockable_zero (adapter : Adapter) : Lockable adapter 0 :=
  Or.inr fun _ hl => absurd hl (lt_irrefl 0)

/-! ### What the routines ensure -/

theorem lock_ensures (hnext : discipline.Next held l) :
    (lock l).Ensures discipline A held store fun _ held' store' =>
      held' = held + Pi.single l 1 ∧ discipline.Agree held store store' := by
  refine ⟨hnext, fun store' hagree store'' hagree' => ⟨rfl, hagree.trans (hagree'.of_le ?_)⟩⟩
  exact le_self_add

theorem tryLock_ensures : (tryLock l).Ensures discipline A held store fun ok held' store' =>
    held' = (if ok then held + Pi.single l 1 else held) ∧ discipline.Agree held store store' := by
  refine fun store' hagree => ⟨fun store'' hagree' => ⟨rfl, ?_⟩,
    fun _ store'' hagree' => ⟨rfl, hagree.trans hagree'⟩⟩
  exact hagree.trans (hagree'.of_le le_self_add)

theorem unlock_ensures : (unlock l).Ensures discipline A (held + Pi.single l 1) store
    fun _ held' store' => held' = held ∧ discipline.Agree held store store' := by
  refine ⟨?_, fun store' hagree => ?_⟩
  · rw [Pi.add_apply, Pi.single_eq_same]
    exact Nat.succ_pos _
  · rw [add_tsub_cancel_right] at hagree ⊢
    exact ⟨rfl, hagree⟩

/-- **Locking an adapter** keeps to the order, and takes `taken`. -/
theorem lockBus_ensures (hlock : Lockable adapter held) :
    (lockBus adapter flags).Ensures discipline A held store fun _ held' store' =>
      held' = held + taken adapter flags ∧ discipline.Agree held store store' := by
  induction adapter generalizing held store with
  | root nr hasMaster hasSmbus retries =>
      refine lock_ensures ?_
      obtain hroot | hbelow := hlock
      · exact Or.inl (hroot _ (by rw [taken, Pi.single_eq_same]; exact Nat.one_pos))
      · exact Or.inr hbelow
  | channel parent mux muxLocked deselect chanId ih =>
      have hnext : discipline.Next held (.muxLock parent) := by
        obtain hroot | hbelow := hlock
        · exact Or.inl (hroot _ (muxLock_taken _ _ _ _ _ _))
        · exact Or.inr hbelow
      refine (lock_ensures hnext).bind fun _ held' store' ⟨hheld, hagree⟩ => ?_
      subst hheld
      cases hlocks : muxLocked && !wantsRoot flags with
      | true =>
          rw [taken_channel, hlocks, if_pos rfl, if_pos rfl, add_zero]
          exact fun store'' hagree' => ⟨rfl, hagree.trans (hagree'.of_le le_self_add)⟩
      | false =>
          rw [taken_channel, hlocks, if_neg Bool.false_ne_true, if_neg Bool.false_ne_true]
          have hparent : Lockable parent (held + Pi.single (.muxLock parent) 1) := by
            obtain hroot | hbelow := hlock
            · refine Or.inl fun l hl => Nat.add_pos_left (hroot l ?_) _
              refine taken_of_parent ?_ hl
              rw [wantsRoot_lockRootAdapter, Bool.not_true, Bool.and_false]
            · refine Or.inr fun l hl => ?_
              obtain rfl | hne := eq_or_ne l (.muxLock parent)
              · exact Nat.lt_succ_self _
              · rw [Pi.add_apply, Pi.single_eq_of_ne hne, Nat.add_zero] at hl
                exact (Nat.lt_succ_self _).trans (hbelow l hl)
          refine (ih hparent).mono fun _ held' store'' ⟨hheld, hagree'⟩ => ⟨?_, ?_⟩
          · rw [hheld, add_assoc]
          · exact hagree.trans (hagree'.of_le le_self_add)

/-- **Unlocking an adapter** gives back just what locking it took. -/
theorem unlockBus_ensures : (unlockBus adapter flags).Ensures discipline A
    (held + taken adapter flags) store fun _ held' store' =>
      held' = held ∧ discipline.Agree held store store' := by
  induction adapter generalizing held store with
  | root nr hasMaster hasSmbus retries => exact unlock_ensures
  | channel parent mux muxLocked deselect chanId ih =>
      rw [taken_channel, unlockBus, ← add_assoc]
      cases hlocks : muxLocked && !wantsRoot flags with
      | true =>
          rw [if_pos rfl, if_pos rfl, add_zero]
          exact unlock_ensures
      | false =>
          rw [if_neg Bool.false_ne_true, if_neg Bool.false_ne_true]
          refine ih.bind fun _ held' store' ⟨hheld, hagree⟩ => ?_
          subst hheld
          refine unlock_ensures.mono fun _ held' store'' ⟨hheld, hagree'⟩ => ⟨hheld, ?_⟩
          exact (hagree.of_le le_self_add).trans hagree'

/-- **`trylock_bus` takes all or nothing**, whatever locks the thread has. -/
theorem trylockBus_ensures : (trylockBus adapter flags).Ensures discipline A held store
    fun ok held' store' => held' = (if ok then held + taken adapter flags else held) ∧
      discipline.Agree held store store' := by
  induction adapter generalizing held store with
  | root nr hasMaster hasSmbus retries => exact tryLock_ensures
  | channel parent mux muxLocked deselect chanId ih =>
      rw [taken_channel, trylockBus]
      refine tryLock_ensures.bind fun ok held₁ store₁ ⟨hheld, hagree⟩ => ?_
      cases ok with
      | false =>
          subst hheld
          exact fun store₂ hagree' => ⟨rfl, hagree.trans hagree'⟩
      | true =>
          replace hheld : held₁ = held + Pi.single (.muxLock parent) 1 := hheld
          subst hheld
          rw [if_pos rfl]
          cases hlocks : muxLocked && !wantsRoot flags with
          | true =>
              rw [if_pos rfl, if_pos rfl, add_zero]
              exact fun store₂ hagree' => ⟨rfl, hagree.trans (hagree'.of_le le_self_add)⟩
          | false =>
              rw [if_neg Bool.false_ne_true, if_neg Bool.false_ne_true]
              refine ih.bind fun ok held₂ store₂ ⟨hheld, hagree'⟩ => ?_
              replace hagree := hagree.trans (hagree'.of_le le_self_add)
              rw [add_assoc] at hheld
              cases ok with
              | true =>
                  subst hheld
                  exact fun store₃ hagree' => ⟨rfl, hagree.trans (hagree'.of_le le_self_add)⟩
              | false =>
                  replace hheld : held₂ = held + Pi.single (.muxLock parent) 1 := hheld
                  subst hheld
                  refine unlock_ensures.bind fun _ held₃ store₃ ⟨hheld, hagree'⟩ => ?_
                  subst hheld
                  exact fun store₄ hagree'' => ⟨rfl, (hagree.trans hagree').trans hagree''⟩

/-- The multiplexers between the target and an adapter are switched, and their locks are held. -/
structure Behind (front : List (MuxCore × BitVec 32)) (adapter : Adapter) (held : Lock → ℕ) :
    Prop where
  locked : ∀ hop ∈ front, 0 < held (.muxLock hop.1.parent)
  deeper : ∀ hop ∈ front, adapter.depth ≤ hop.1.parent.depth

def Switched (front : List (MuxCore × BitVec 32)) (selection : Selection) : Prop :=
  ∀ hop ∈ front, selection hop.1 = some hop.2

theorem Switched.agree (h : Switched front store)
    (hlocked : ∀ hop ∈ front, 0 < held (.muxLock hop.1.parent))
    (hagree : discipline.Agree held store store') : Switched front store' :=
  fun hop hmem => (hagree hop.1 (hlocked hop hmem)).trans (h hop hmem)

/-- **What a transfer ensures**: the locks are what they were, and the multiplexers in front still
are switched. -/
def Transfers (A : Op → (Lock → ℕ) → Selection → Prop) (front : List (MuxCore × BitVec 32))
    (held : Lock → ℕ) (xfer : Routine ℤ) : Prop :=
  ∀ store, Switched front store → xfer.Ensures discipline A held store
    fun _ held' store' => held' = held ∧ Switched front store'

theorem Transfers.done (hlocked : ∀ hop ∈ front, 0 < held (.muxLock hop.1.parent)) (ret : ℤ) :
    Transfers A front held (.done ret) :=
  fun _ hswitched _ hagree => ⟨rfl, hswitched.agree hlocked hagree⟩

theorem Transfers.bind {xfer : Routine ℤ} {next : ℤ → Routine ℤ} (h : Transfers A front held xfer)
    (hnext : ∀ ret, Transfers A front held (next ret)) :
    Transfers A front held (xfer >>= next) := by
  intro store hswitched
  refine (h store hswitched).bind fun ret held' store' hpost => ?_
  obtain ⟨rfl, hswitched'⟩ := hpost
  exact hnext ret store' hswitched'

/-- An operation that asks for data or for the time. -/
theorem Transfers.perform {op : Op} (hlocked : ∀ hop ∈ front, 0 < held (.muxLock hop.1.parent))
    (hallowed : ∀ store, Switched front store → A op held store)
    (hwrite : ∀ ret store, write op ret store = store) :
    Transfers A front held (perform op) := by
  intro store hswitched store' hagree
  have hswitched' := hswitched.agree hlocked hagree
  refine ⟨hallowed store' hswitched', fun ret => ⟨fun _ _ => congrFun (hwrite ret store') _, ?_⟩⟩
  intro store'' hagree'
  refine ⟨rfl, hswitched'.agree hlocked ?_⟩
  rwa [show discipline.write op ret store' = store' from hwrite ret store'] at hagree'

variable {xfer : Routine ℤ}

/-- The loop over `try` ends with the locks that it began with, however often it goes round. -/
theorem Transfers.retry (hlocked : ∀ hop ∈ front, 0 < held (.muxLock hop.1.parent))
    (htime : ∀ held store, A .timeAfter held store) (h : Transfers A front held xfer)
    (tries : ℕ) (ret : ℤ) : Transfers A front held (retry xfer tries ret) := by
  induction tries generalizing ret with
  | zero => exact .done hlocked ret
  | succ tries ih =>
      refine h.bind fun ret => ?_
      split
      · exact .done hlocked ret
      · refine Transfers.bind (.perform hlocked (fun store _ => htime held store)
          fun _ _ => rfl) fun late => ?_
        split
        · exact .done hlocked ret
        · exact ih ret

/-- The loop with the segment locked. -/
theorem Transfers.lockedRetries (hlocked : ∀ hop ∈ front, 0 < held (.muxLock hop.1.parent))
    (htime : ∀ held store, A .timeAfter held store) (hlockable : Lockable adapter held)
    (h : Transfers A front (held + taken adapter lockSegment) xfer) :
    Transfers A front held (lockedRetries adapter xfer) := by
  intro store hswitched
  refine (lockBus_ensures hlockable).bind fun _ held' store' hpost => ?_
  obtain ⟨rfl, hagree⟩ := hpost
  have hlocked' : ∀ hop ∈ front,
      0 < (held + taken adapter lockSegment) (.muxLock hop.1.parent) :=
    fun hop hmem => Nat.add_pos_left (hlocked hop hmem) _
  refine (Transfers.retry hlocked' htime h _ _ store' (hswitched.agree hlocked hagree)).bind
    fun ret held' store'' hpost => ?_
  obtain ⟨rfl, hswitched'⟩ := hpost
  refine unlockBus_ensures.bind fun _ held' store''' hpost => ?_
  obtain ⟨rfl, hagree'⟩ := hpost
  exact Transfers.done hlocked ret store''' (hswitched'.agree hlocked hagree')

theorem Transfers.transferWith (hlocked : ∀ hop ∈ front, 0 < held (.muxLock hop.1.parent))
    (htime : ∀ held store, A .timeAfter held store) (hlockable : Lockable adapter held)
    (h : adapter.hasMasterXfer = true →
      Transfers A front (held + taken adapter lockSegment) xfer) :
    Transfers A front held (transferWith adapter xfer) := by
  unfold I2cMux.transferWith
  split
  · exact .lockedRetries hlocked htime hlockable (h ‹_›)
  · exact .done hlocked _

/-- **A multiplexer is switched, and the parent used**: the multiplexers in front stay as they are,
as they are further down. -/
theorem Transfers.selected {muxc : MuxCore} (hbehind : Behind front adapter held)
    (hdepth : muxc.parent.depth < adapter.depth) (hmux : 0 < held (.muxLock muxc.parent))
    (hselect : ∀ store, A (.select muxc chanId) held store)
    (hdeselect : ∀ store, A (.deselect muxc chanId) held store)
    (h : Transfers A (front ++ [(muxc, chanId)]) held xfer) :
    Transfers A front held (selected muxc chanId xfer) := by
  have hkeep : ∀ store value, Switched front store →
      Switched front (Function.update store muxc value) := by
    intro store value hswitched hop hmem
    rw [Function.update_of_ne, hswitched hop hmem]
    rintro rfl
    exact absurd (hbehind.deeper hop hmem) (not_le.mpr hdepth)
  have hwrites : ∀ op ret store value, write op ret store = Function.update store muxc value →
      discipline.Writes held op ret store := by
    intro op ret store value hwrite v hfree
    show write op ret store v = store v
    rw [hwrite, Function.update_of_ne]
    rintro rfl
    exact absurd hfree hmux.ne'
  have hlast : ∀ ret, Transfers A front held (deselected muxc chanId ret) := by
    intro ret store hswitched
    unfold deselected
    split
    · intro store' hagree
      have hswitched' := hswitched.agree hbehind.locked hagree
      refine ⟨hdeselect store', fun _ => ⟨hwrites _ _ _ none rfl, ?_⟩⟩
      exact fun store'' hagree' => ⟨rfl, (hkeep _ none hswitched').agree hbehind.locked hagree'⟩
    · exact Transfers.done hbehind.locked ret store hswitched
  intro store hswitched store' hagree
  have hswitched' := hswitched.agree hbehind.locked hagree
  refine ⟨hselect store', fun ret => ⟨hwrites _ _ _ _ rfl, ?_⟩⟩
  show (if 0 ≤ ret then xfer >>= deselected muxc chanId
    else deselected muxc chanId ret : Routine ℤ).Ensures _ _ _ _ _
  have hfront := hkeep store' (if 0 ≤ ret then some chanId else none) hswitched'
  split
  · rename_i hret
    have hall : Switched (front ++ [(muxc, chanId)])
        (Function.update store' muxc (some chanId)) := by
      intro hop hmem
      obtain hmem | hmem := List.mem_append.mp hmem
      · exact hkeep store' _ hswitched' hop hmem
      · obtain rfl := List.mem_singleton.mp hmem
        exact Function.update_self _ _ _
    have hstore : discipline.write (.select muxc chanId) ret store' =
        Function.update store' muxc (some chanId) := by
      show Function.update _ _ _ = _
      rw [if_pos hret]
    rw [hstore]
    refine (h _ hall).bind fun ret held' store'' hpost => ?_
    obtain ⟨rfl, hswitched''⟩ := hpost
    exact hlast ret store'' fun hop hmem => hswitched'' hop (List.mem_append_left _ hmem)
  · exact hlast ret _ hfront

/-- An adapter is on the way of the target, behind the multiplexers in front. -/
structure OnWay (target : Adapter) (front : List (MuxCore × BitVec 32)) (adapter : Adapter)
    (held : Lock → ℕ) : Prop extends Behind front adapter held where
  path : target.path = front ++ adapter.path
  root : adapter.rootAdapter = target.rootAdapter

theorem OnWay.start (target : Adapter) (held : Lock → ℕ) : OnWay target [] target held where
  locked _ hmem := absurd hmem List.not_mem_nil
  deeper _ hmem := absurd hmem List.not_mem_nil
  path := rfl
  root := rfl

theorem OnWay.mono {held' : Lock → ℕ} (h : OnWay target front adapter held) (hle : held ≤ held') :
    OnWay target front adapter held' where
  locked hop hmem := (h.locked hop hmem).trans_le (hle _)
  deeper := h.deeper
  path := h.path
  root := h.root

/-- The parent is behind one multiplexer more. -/
theorem OnWay.behind
    (h : OnWay target front (.channel adapter mux muxLocked deselect chanId) held)
    (hmux : 0 < held (.muxLock adapter)) :
    OnWay target (front ++ [(⟨adapter, mux, muxLocked, deselect⟩, chanId)]) adapter held where
  locked hop hmem := by
    obtain hmem | hmem := List.mem_append.mp hmem
    · exact h.locked hop hmem
    · obtain rfl := List.mem_singleton.mp hmem
      exact hmux
  deeper hop hmem := by
    obtain hmem | hmem := List.mem_append.mp hmem
    · exact (Nat.le_succ _).trans (h.deeper hop hmem)
    · obtain rfl := List.mem_singleton.mp hmem
      exact le_rfl
  path := by
    rw [h.path, List.append_assoc]
    rfl
  root := h.root

/-- At the root, the whole way is switched. -/
theorem OnWay.atHardware {nr : ℕ} {hasMaster hasSmbus : Bool} {retries : ℤ}
    (h : OnWay target front (.root nr hasMaster hasSmbus retries) held)
    (hready : Ready (.root nr hasMaster hasSmbus retries) held) (hswitched : Switched front store) :
    AtHardware target (.root nr hasMaster hasSmbus retries) held store := by
  have hpath : target.path = front := h.path.trans (List.append_nil front)
  refine ⟨h.root, hready.segment _ ?_, ?_, ?_⟩
  · rw [taken, Pi.single_eq_same]
    exact Nat.one_pos
  · unfold Routed
    rw [hpath]
    exact hswitched
  · rw [hpath]
    exact h.locked

/-- A channel, if what it does on its parent is right. -/
theorem Transfers.channel (h : OnWay target front (.channel adapter mux muxLocked deselect chanId) held)
    (hmux : 0 < held (.muxLock adapter))
    (hxfer : OnWay target (front ++ [(⟨adapter, mux, muxLocked, deselect⟩, chanId)]) adapter held →
      Transfers (Allowed target) (front ++ [(⟨adapter, mux, muxLocked, deselect⟩, chanId)]) held
        xfer) :
    Transfers (Allowed target) front held
      (I2cMux.selected ⟨adapter, mux, muxLocked, deselect⟩ chanId xfer) := by
  have hmem : (⟨adapter, mux, muxLocked, deselect⟩, chanId) ∈ target.path := by
    rw [h.path]
    exact List.mem_append_right _ List.mem_cons_self
  exact .selected h.toBehind (Nat.lt_succ_self _) hmux (fun _ => ⟨hmem, hmux⟩)
    (fun _ => ⟨hmem, hmux⟩) (hxfer (h.behind hmux))

/-- **`master_xfer`** of an adapter that is locked.  Induction on the adapter: behind a multiplexer
that is `mux_locked` the parent is locked first, behind any other one it is locked. -/
theorem masterXfer_ensures (h : OnWay target front adapter held) (hready : Ready adapter held)
    (hmaster : adapter.hasMasterXfer = true) :
    Transfers (Allowed target) front held (masterXfer adapter) := by
  induction adapter generalizing front held with
  | root nr hasMaster hasSmbus retries =>
      exact .perform h.locked (fun store hswitched => ⟨h.atHardware hready hswitched, hmaster⟩)
        fun _ _ => rfl
  | channel parent mux muxLocked deselect chanId ih =>
      refine .channel h hready.muxLock fun hparent => ?_
      cases muxLocked with
      | true =>
          refine .transferWith hparent.locked (fun _ _ => trivial) hready.lockable fun _ => ?_
          exact ih (hparent.mono le_self_add) (hready.lockable.ready _) hmaster
      | false =>
          exact .retry hparent.locked (fun _ _ => trivial) (ih hparent hready.behind hmaster) _ _

theorem i2cTransfer_ensures (h : OnWay target front adapter held) (hlockable : Lockable adapter held) :
    Transfers (Allowed target) front held (i2cTransfer adapter) :=
  .transferWith h.locked (fun _ _ => trivial) hlockable fun hmaster =>
    masterXfer_ensures (h.mono le_self_add) (hlockable.ready _) hmaster

theorem emulated_ensures (h : OnWay target front adapter held) (hlockable : Lockable adapter held) :
    Transfers (Allowed target) front held (emulated adapter) := by
  refine .bind (.perform h.locked (fun _ _ => trivial) fun _ _ => rfl) fun status => ?_
  split
  · exact .done h.locked status
  · refine (i2cTransfer_ensures h hlockable).bind fun status => ?_
    split
    · exact .done h.locked status
    · exact .perform h.locked (fun _ _ => trivial) fun _ _ => rfl

theorem smbusXferWith_ensures (h : OnWay target front adapter held)
    (hlockable : Lockable adapter held) (hxfer : adapter.hasSmbusXfer = true →
      Transfers (Allowed target) front (held + taken adapter lockSegment) xfer) :
    Transfers (Allowed target) front held (smbusXferWith adapter xfer) := by
  unfold smbusXferWith
  split
  · refine .bind (.lockedRetries h.locked (fun _ _ => trivial) hlockable (hxfer ‹_›)) fun res => ?_
    split
    · exact .done h.locked res
    · exact emulated_ensures h hlockable
  · exact emulated_ensures h hlockable

/-- **`smbus_xfer`** of an adapter that is locked, in the same way. -/
theorem smbusXfer_ensures (h : OnWay target front adapter held) (hready : Ready adapter held)
    (hsmbus : adapter.hasSmbusXfer = true) :
    Transfers (Allowed target) front held (smbusXfer adapter) := by
  induction adapter generalizing front held with
  | root nr hasMaster hasSmbus retries =>
      exact .perform h.locked (fun store hswitched => ⟨h.atHardware hready hswitched, hsmbus⟩)
        fun _ _ => rfl
  | channel parent mux muxLocked deselect chanId ih =>
      refine .channel h hready.muxLock fun hparent => ?_
      cases muxLocked with
      | true =>
          refine smbusXferWith_ensures hparent hready.lockable fun _ => ?_
          exact ih (hparent.mono le_self_add) (hready.lockable.ready _) hsmbus
      | false => exact ih hparent hready.behind hsmbus

theorem transfers_ensures (hready : Ready target held) (hmaster : target.hasMasterXfer = true)
    (count : ℕ) : (transfers target count).Ensures discipline (Allowed target) held store
      fun _ held' _ => held' = held := by
  induction count generalizing store with
  | zero => exact fun _ _ => rfl
  | succ count ih =>
      have hxfer : Transfers (Allowed target) [] held (i2cTransferUnlocked target) :=
        .retry (OnWay.start target held).locked (fun _ _ => trivial)
          (masterXfer_ensures (.start target held) hready hmaster) _ _
      refine (hxfer store fun _ hmem => absurd hmem List.not_mem_nil).bind
        fun _ held' store' hpost => ?_
      obtain ⟨rfl, -⟩ := hpost
      exact ih

/-- What is done between locking and unlocking. -/
theorem transfers_unlockBus_ensures (flags : BitVec 32) (count : ℕ) :
    (do
      if target.hasMasterXfer then transfers target count else pure ()
      unlockBus target flags : Routine Unit).Ensures discipline (Allowed target)
        (0 + taken target flags) store fun _ held _ => held = 0 := by
  have hunlock : ∀ store, (unlockBus target flags).Ensures discipline (Allowed target)
      (0 + taken target flags) store fun _ held _ => held = 0 :=
    fun store => unlockBus_ensures.mono fun _ _ _ hpost => hpost.1
  split
  · refine (transfers_ensures ((lockable_zero target).ready flags) ‹_› count).bind
      fun _ held' store' hpost => ?_
    subst hpost
    exact hunlock store'
  · exact hunlock store

/-- **Every call keeps to the discipline**, and ends without a lock. -/
theorem body_ensures (call : Call) (store : Selection) :
    (body call).Ensures discipline (Allowed call.adapter) 0 store fun _ held _ => held = 0 := by
  have hnone : Switched [] store := fun _ hmem => absurd hmem List.not_mem_nil
  cases call with
  | transfer adap =>
      refine (i2cTransfer_ensures (.start adap 0) (lockable_zero adap) store hnone).bind
        fun _ held' store' hpost => ?_
      exact fun _ _ => hpost.1
  | smbus adap =>
      have hxfer : Transfers (Allowed adap) [] 0 (i2cSmbusXfer adap) :=
        smbusXferWith_ensures (.start adap 0) (lockable_zero adap) fun hsmbus =>
          smbusXfer_ensures (.start adap _) ((lockable_zero adap).ready _) hsmbus
      exact (hxfer store hnone).bind fun _ held' store' hpost _ _ => hpost.1
  | locked adap flags count =>
      refine (lockBus_ensures (lockable_zero adap)).bind fun _ held' store' hpost => ?_
      obtain ⟨rfl, -⟩ := hpost
      exact transfers_unlockBus_ensures flags count
  | tryLocked adap flags count =>
      refine trylockBus_ensures.bind fun ok held' store' hpost => ?_
      obtain ⟨rfl, -⟩ := hpost
      cases ok with
      | true => exact transfers_unlockBus_ensures flags count
      | false => exact fun _ _ => rfl

/-! ### Runs -/

/-- Any number of threads that make calls, for adapters of any number of trees. -/
abbrev bus (T : Type) [DecidableEq T] :
    Machine (Threads T Call Lock Op ℤ MuxCore (Option (BitVec 32))) (Move T Call ℤ) (Done T Op ℤ) :=
  threads discipline body

variable {T : Type} [DecidableEq T] {schedule : List (Move T Call ℤ)} {history : List (Done T Op ℤ)}
variable {state : Threads T Call Lock Op ℤ MuxCore (Option (BitVec 32))}

theorem run_disciplined (hrun : (bus T).run (.start store) schedule = some (state, history)) :
    Disciplined discipline (fun call => Allowed call.adapter) state :=
  .run body_ensures hrun

/-- **No deadlock.**  Whatever calls have been made and whatever the drivers have answered, from then
on all calls return, in any order of the threads' steps, and leave no lock behind. -/
theorem calls_return [Finite T]
    (hrun : (bus T).run (.start store) schedule = some (state, history)) :
    Settles (Turn discipline) Threads.Quiet state :=
  (run_disciplined hrun).settles

/-- Two channels of one multiplexer, which is not `mux_locked`. -/
def channelOf (chanId : BitVec 32) : Adapter := .channel (.root 0 true false 0) 1 false true chanId

/-- One thread has a channel locked, the other one waits for the multiplexer. -/
def waiting : List (Move Bool Call ℤ) :=
  [.call false (.locked (channelOf 3#32) lockSegment 2), .step false 0, .step false 0,
    .call true (.smbus (channelOf 4#32))]

theorem calls_return_waiting : ∃ h, Settles (Turn discipline) Threads.Quiet
    ((bus Bool).after (.start fun _ => none) waiting h) :=
  ⟨rfl, calls_return ((bus Bool).run_eq_after rfl rfl)⟩

/-- **The way is switched** when a thread asks the hardware for an adapter: the bus and all
multiplexers on the way are its own, and they are switched to the channels of the adapter. -/
theorem transfer_routed {t : T} {call : Call} {root : Adapter} {rest : ℤ → Routine Unit}
    (hrun : (bus T).run (.start store) schedule = some (state, history))
    (hcurrent : state.running t = some (call, .perform (.masterXfer root) rest) ∨
      state.running t = some (call, .perform (.smbusXfer root) rest)) :
    root = call.adapter.rootAdapter ∧ state.owner (.busLock root) = some t ∧
      ∀ hop ∈ call.adapter.path, state.store hop.1 = some hop.2 ∧
        state.owner (.muxLock hop.1.parent) = some t := by
  have hardware : AtHardware call.adapter root (state.held t) state.store := by
    obtain hcurrent | hcurrent := hcurrent
    · exact ((run_disciplined hrun).allowed hcurrent).1
    · exact ((run_disciplined hrun).allowed hcurrent).1
  obtain ⟨hroot, hbus, hrouted, hmuxes⟩ := hardware
  exact ⟨hroot, Threads.owner_of_held hbus, fun hop hmem =>
    ⟨hrouted hop hmem, Threads.owner_of_held (hmuxes hop hmem)⟩⟩

/-- One thread has a channel locked, switched the multiplexer, and is at the hardware. -/
def transferring : List (Move Bool Call ℤ) :=
  [.call false (.transfer (channelOf 3#32)), .step false 0, .step false 0, .step false 0]

theorem transfer_routed_channel : ∃ h,
    let state := (bus Bool).after (.start fun _ => none) transferring h
    state.owner (.busLock (channelOf 3#32).rootAdapter) = some false ∧
      ∀ hop ∈ (channelOf 3#32).path,
        state.store hop.1 = some hop.2 ∧ state.owner (.muxLock hop.1.parent) = some false :=
  ⟨rfl, (@transfer_routed _ _ _ _ _ _ _ (.transfer (channelOf 3#32)) (channelOf 3#32).rootAdapter _
    ((bus Bool).run_eq_after rfl rfl) (Or.inl rfl)).2⟩

end Webcamd.Kernel.I2cMux
