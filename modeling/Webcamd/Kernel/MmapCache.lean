import Webcamd.Library.KeyedSlots
import Webcamd.Library.Machine

/-!
# The mapping cache of a file handle

`linux_mmap` and `linux_get_user_pages` of `kernel/linux_file.c`.  A handle has `LINUX_VMA_MAX`
slots for the memory that the driver maps.  A call with the length and offset of a mapping that is
there gets its address again; any other call takes a slot that is free and asks the driver.

* `Vma.Active` — whether a slot holds a mapping: the one pointer `vm_buffer_address` is `NULL`
  in a slot never used, `MAP_FAILED` in one whose mapping failed, and an address otherwise.
  A failed slot keeps the length and offset of the call that failed.
* `linuxMmap`, `mmapMachine` — the call, and the sequences of calls on one handle.
* `linuxMmap_cases` — all that a call can do.
* `CacheInv` — every active slot was made by a call of the sequence, and no two of them have one
  length and offset.
* `linuxGetUserPages` — the pages of a user address, looked up in the same slots
  (`linuxGetUserPages_inside`).
* `mmap_cache` — the four facts about every sequence of calls.

Addresses, lengths and page numbers are 64-bit words, and `off_t` is a word read as a signed
number.  Whatever the driver answers, and the address and flags that it leaves in the slot, are
values that the caller of a step picks.  The other fields of a slot (`vm_ops` and the like) are
not looked at by these functions and are left out.
-/

namespace Webcamd.Kernel.MmapCache

open Webcamd.Library

/-- `LINUX_VMA_MAX` -/
abbrev linuxVmaMax : ℕ := 128

/-- `MAP_FAILED` -/
def mapFailed : BitVec 64 := BitVec.allOnes 64

/-- `PAGE_SHIFT`: the size of a page is a power of two that `getpagesize` returns as an `int`. -/
structure PageShift where
  shift : ℕ
  fits : shift < 31

/-- `PAGE_SIZE` -/
def PageShift.size (pages : PageShift) : BitVec 64 := BitVec.twoPow 64 pages.shift

/-- `PAGE_MASK` -/
def PageShift.mask (pages : PageShift) : BitVec 64 := ~~~(pages.size - 1)

/-- `VM_WRITE | VM_READ | VM_SHARED` -/
def vmFlagsMapped : BitVec 32 := 0x0001#32 ||| 0x0002#32 ||| 0x0004#32

/-- `struct vm_area_struct` -/
structure Vma where
  vmStart : BitVec 64
  vmEnd : BitVec 64
  vmPgoff : BitVec 64
  vmFlags : BitVec 32
  vmBufferAddress : BitVec 64
  deriving DecidableEq

/-- The slot holds a mapping. -/
def Vma.Active (vma : Vma) : Prop := vma.vmBufferAddress ≠ 0 ∧ vma.vmBufferAddress ≠ mapFailed

instance (vma : Vma) : Decidable vma.Active :=
  inferInstanceAs (Decidable (_ ∧ _))

/-- `struct cdev_handle`: whether its `f_op->mmap` is not `NULL`, and its `fixed_vma`. -/
structure Handle where
  mmap : Bool
  fixedVma : Fin linuxVmaMax → Vma

/-- The handle that `linux_open` makes, with every slot `NULL`. -/
def linuxOpen (mmap : Bool) : Handle := ⟨mmap, fun _ => ⟨0, 0, 0, 0, 0⟩⟩

/-- What the driver's `mmap` returns, and what it leaves in the slot. -/
structure DriverReply where
  err : BitVec 32
  vmBufferAddress : BitVec 64
  vmFlags : BitVec 32

/-- The arguments of a call, and the driver's reply in case it is asked. -/
structure Request where
  addr : BitVec 64
  len : BitVec 64
  offset : BitVec 64
  reply : DriverReply

/-- The driver is asked to fill a slot; the call returns. -/
inductive Event where
  | mmap (i : Fin linuxVmaMax) (vma : Vma)
  | returned (address : BitVec 64)
  deriving DecidableEq

/-- The length rounded up to whole pages. -/
def roundLen (pages : PageShift) (len : BitVec 64) : BitVec 64 :=
  if len &&& (pages.size - 1) ≠ 0 then (len + pages.size) &&& pages.mask else len

/-- The tests of the first loop: the slot holds this length of this offset. -/
def Vma.Holds (pages : PageShift) (len offset : BitVec 64) (vma : Vma) : Prop :=
  vma.vmEnd - vma.vmStart = len ∧ vma.vmPgoff = offset.sshiftRight pages.shift ∧ vma.Active

instance (pages : PageShift) (len offset : BitVec 64) (vma : Vma) :
    Decidable (vma.Holds pages len offset) :=
  inferInstanceAs (Decidable (_ ∧ _ ∧ _))

/-- The first loop: the slot where the mapping is already. -/
def findMapped (pages : PageShift) (handle : Handle) (len offset : BitVec 64) :
    Option (Fin linuxVmaMax) :=
  (List.finRange linuxVmaMax).find? fun i => (handle.fixedVma i).Holds pages len offset

/-- The second loop: a slot for a new mapping. -/
def findFree (handle : Handle) : Option (Fin linuxVmaMax) :=
  (List.finRange linuxVmaMax).find? fun i => ¬(handle.fixedVma i).Active

/-- The information that is filled in before the driver is asked. -/
def newVma (pages : PageShift) (request : Request) : Vma where
  vmStart := request.addr
  vmEnd := request.addr + roundLen pages request.len
  vmPgoff := request.offset.sshiftRight pages.shift
  vmFlags := vmFlagsMapped
  vmBufferAddress := mapFailed

/-- The slot after the driver's reply. -/
def Vma.answered (vma : Vma) (reply : DriverReply) : Vma :=
  { vma with
    vmFlags := reply.vmFlags
    vmBufferAddress := if reply.err ≠ 0 then mapFailed else reply.vmBufferAddress }

/-- **`linux_mmap`**, with what it does to the handle. -/
def linuxMmap (pages : PageShift) (handle : Option Handle) (request : Request) :
    Option Handle × List Event :=
  match handle with
  | none => (none, [.returned mapFailed])
  | some handle =>
    if handle.mmap = false then (some handle, [.returned mapFailed])
    else if request.len = 0 then (some handle, [.returned mapFailed])
    else if request.offset &&& (pages.size - 1) ≠ 0 then (some handle, [.returned mapFailed])
    else
      match findMapped pages handle (roundLen pages request.len) request.offset with
      | some i => (some handle, [.returned (handle.fixedVma i).vmBufferAddress])
      | none =>
        match findFree handle with
        | none => (some handle, [.returned mapFailed])
        | some i =>
          let vma := newVma pages request
          let after := vma.answered request.reply
          (some { handle with fixedVma := Function.update handle.fixedVma i after },
            [.mmap i vma, .returned after.vmBufferAddress])

/-- The calls on one handle, one after another. -/
def mmapMachine (pages : PageShift) : Machine (Option Handle) Request Event where
  step handle request := some (linuxMmap pages handle request)

/-- What `linux_get_user_pages` returns, and what it writes to `ppages` and `pvm`. -/
structure UserPages where
  count : ℤ
  ppages : List (BitVec 64)
  pvm : List (BitVec 64)

/-- The page addresses, with `off` one page further each time. -/
def pageLoop (pages : PageShift) (buffer off : BitVec 64) : ℕ → List (BitVec 64)
  | 0 => []
  | npages + 1 => (buffer + off) :: pageLoop pages buffer (off + pages.size) npages

/-- The tests of the loop over the slots: the slot has all the pages. -/
def Vma.Covers (pages : PageShift) (start : BitVec 64) (npages : BitVec 32) (vma : Vma) : Prop :=
  vma.Active ∧ ¬(start < vma.vmStart ∨ start > vma.vmEnd) ∧
    ¬npages.signExtend 64 > (vma.vmEnd - start) >>> pages.shift

instance (pages : PageShift) (start : BitVec 64) (npages : BitVec 32) (vma : Vma) :
    Decidable (vma.Covers pages start npages) :=
  inferInstanceAs (Decidable (_ ∧ _ ∧ _))

/-- **`linux_get_user_pages`** with the handle of the current call; `ppages` and `pvm` say which
of the two is not `NULL`. -/
def linuxGetUserPages (pages : PageShift) (handle : Option Handle) (start : BitVec 64)
    (npages : BitVec 32) (ppages pvm : Bool) : UserPages :=
  if npages.toInt ≤ 0 then ⟨-1, [], []⟩
  else if start &&& (pages.size - 1) ≠ 0 then ⟨-1, [], []⟩
  else
    match handle with
    | none => ⟨-1, [], []⟩
    | some handle =>
      match (List.finRange linuxVmaMax).find? fun i =>
          (handle.fixedVma i).Covers pages start npages with
      | none => ⟨-1, [], []⟩
      | some i =>
        let vma := handle.fixedVma i
        { count := npages.toInt
          ppages := if ppages then
            pageLoop pages vma.vmBufferAddress (start - vma.vmStart) npages.toNat else []
          pvm := if pvm then List.replicate npages.toNat 0 else [] }

/-! ### Whole pages -/

theorem toNat_size (pages : PageShift) : pages.size.toNat = 2 ^ pages.shift := by
  have hfits := pages.fits
  exact BitVec.toNat_twoPow_of_lt (by omega)

theorem toNat_low (pages : PageShift) : (pages.size - 1).toNat = 2 ^ pages.shift - 1 := by
  have hlow : (1 : BitVec 64) ≤ pages.size := by
    rw [BitVec.le_def, toNat_size]
    exact Nat.one_le_two_pow
  rw [BitVec.toNat_sub_of_le hlow, toNat_size]
  rfl

/-- `PAGE_SIZE - 1` cuts out the place within a page. -/
theorem toNat_and_low (pages : PageShift) (x : BitVec 64) :
    (x &&& (pages.size - 1)).toNat = x.toNat % 2 ^ pages.shift := by
  rw [BitVec.toNat_and, toNat_low, Nat.and_two_pow_sub_one_eq_mod]

theorem and_low_eq_zero_iff (pages : PageShift) (x : BitVec 64) :
    x &&& (pages.size - 1) = 0 ↔ 2 ^ pages.shift ∣ x.toNat := by
  rw [← BitVec.toNat_inj, toNat_and_low, Nat.dvd_iff_mod_eq_zero]
  rfl

/-- `PAGE_MASK` cuts off the place within a page. -/
theorem toNat_and_mask (pages : PageShift) (x : BitVec 64) :
    (x &&& pages.mask).toNat = x.toNat / 2 ^ pages.shift * 2 ^ pages.shift := by
  have hapart : (x &&& pages.mask) &&& (x &&& (pages.size - 1)) = 0#64 := by
    unfold PageShift.mask
    ext i
    simp
    tauto
  have hjoin : (x &&& pages.mask) ||| (x &&& (pages.size - 1)) = x := by
    unfold PageShift.mask
    ext i
    simp only [BitVec.getElem_or, BitVec.getElem_and, BitVec.getElem_not]
    cases x[i] <;> cases (pages.size - 1)[i] <;> rfl
  have hsplit := BitVec.toNat_add_of_and_eq_zero hapart
  rw [BitVec.add_eq_or_of_and_eq_zero _ _ hapart, hjoin, toNat_and_low] at hsplit
  have hdiv := Nat.div_add_mod' x.toNat (2 ^ pages.shift)
  omega

/-- A number of bytes rounded up to whole pages. -/
def pageCeil (pages : PageShift) (len : ℕ) : ℕ :=
  (len + (2 ^ pages.shift - 1)) / 2 ^ pages.shift * 2 ^ pages.shift

theorem pageCeil_of_dvd {pages : PageShift} {len : ℕ} (h : 2 ^ pages.shift ∣ len) :
    pageCeil pages len = len := by
  obtain ⟨count, rfl⟩ := h
  have hpos : 0 < 2 ^ pages.shift := Nat.two_pow_pos _
  unfold pageCeil
  rw [Nat.mul_add_div hpos, Nat.div_eq_of_lt (by omega), Nat.add_zero, mul_comm]

theorem pageCeil_of_not_dvd {pages : PageShift} {len : ℕ} (h : ¬2 ^ pages.shift ∣ len) :
    pageCeil pages len = (len + 2 ^ pages.shift) / 2 ^ pages.shift * 2 ^ pages.shift := by
  have hpos : 0 < 2 ^ pages.shift := Nat.two_pow_pos _
  rw [Nat.dvd_iff_mod_eq_zero] at h
  have hdiv := Nat.div_add_mod len (2 ^ pages.shift)
  have hlt := Nat.mod_lt len hpos
  unfold pageCeil
  congr 1
  rw [Nat.add_div_right _ hpos]
  apply Nat.div_eq_of_lt_le
  · rw [Nat.succ_mul, mul_comm]
    omega
  · rw [Nat.succ_mul, Nat.succ_mul, mul_comm]
    omega

theorem le_pageCeil (pages : PageShift) (len : ℕ) : len ≤ pageCeil pages len := by
  have hpos : 0 < 2 ^ pages.shift := Nat.two_pow_pos _
  have hdiv := Nat.div_add_mod' (len + (2 ^ pages.shift - 1)) (2 ^ pages.shift)
  have hlt := Nat.mod_lt (len + (2 ^ pages.shift - 1)) hpos
  unfold pageCeil
  omega

/-- **The length that the cache is asked for** is the number of whole pages, without a wrap. -/
theorem toNat_roundLen (pages : PageShift) {len : BitVec 64} (h : len.toNat < 2 ^ 62) :
    (roundLen pages len).toNat = pageCeil pages len.toNat := by
  have hpage : 2 ^ pages.shift < 2 ^ 31 := Nat.pow_lt_pow_right (by decide) pages.fits
  unfold roundLen
  by_cases haligned : 2 ^ pages.shift ∣ len.toNat
  · rw [if_neg (not_not.mpr ((and_low_eq_zero_iff pages len).mpr haligned)),
      pageCeil_of_dvd haligned]
  · rw [if_pos (mt (and_low_eq_zero_iff pages len).mp haligned), toNat_and_mask,
      BitVec.toNat_add, toNat_size, Nat.mod_eq_of_lt (by omega), pageCeil_of_not_dvd haligned]

/-- The page number of an offset of whole pages gives the offset back. -/
theorem pgoff_mul (pages : PageShift) {offset : BitVec 64}
    (h : offset &&& (pages.size - 1) = 0) :
    (offset.sshiftRight pages.shift).toInt * 2 ^ pages.shift = offset.toInt := by
  have hfits := pages.fits
  have hnat : (2 ^ pages.shift : ℤ) ∣ offset.toNat := by
    exact_mod_cast (and_low_eq_zero_iff pages offset).mp h
  have hdvd : (2 ^ pages.shift : ℤ) ∣ offset.toInt := by
    rw [BitVec.toInt_eq_toNat_cond]
    split
    · exact hnat
    · push_cast
      exact dvd_sub hnat (pow_dvd_pow 2 (show pages.shift ≤ 64 by omega))
  rw [BitVec.toInt_sshiftRight, Int.shiftRight_eq_div_pow]
  exact Int.ediv_mul_cancel (by exact_mod_cast hdvd)

/-! ### What a call does -/

/-- The length and the offset of the mapping in a slot. -/
def Vma.key (pages : PageShift) (vma : Vma) : ℕ × ℤ :=
  ((vma.vmEnd - vma.vmStart).toNat, vma.vmPgoff.toInt * 2 ^ pages.shift)

/-- The length and the offset that a call asks for, in whole pages. -/
def Request.key (pages : PageShift) (request : Request) : ℕ × ℤ :=
  (pageCeil pages request.len.toNat, request.offset.toInt)

/-- The call gets past the checks before the loops. -/
def Request.Admitted (pages : PageShift) (handle : Handle) (request : Request) : Prop :=
  handle.mmap = true ∧ request.len ≠ 0 ∧ request.offset &&& (pages.size - 1) = 0

/-- The slots after a new mapping was tried in one of them. -/
def Handle.tried (pages : PageShift) (handle : Handle) (i : Fin linuxVmaMax) (request : Request) :
    Handle :=
  { handle with
    fixedVma := Function.update handle.fixedVma i ((newVma pages request).answered request.reply) }

/-- **The ways a call can go.** -/
inductive Served (pages : PageShift) (handle : Handle) (request : Request) :
    Handle → List Event → Prop where
  | refused (h : ¬request.Admitted pages handle) :
      Served pages handle request handle [.returned mapFailed]
  | repeated (i : Fin linuxVmaMax) (hadmitted : request.Admitted pages handle)
      (hholds : (handle.fixedVma i).Holds pages (roundLen pages request.len) request.offset) :
      Served pages handle request handle [.returned (handle.fixedVma i).vmBufferAddress]
  | full (hnew : ∀ i, ¬(handle.fixedVma i).Holds pages (roundLen pages request.len) request.offset)
      (hfull : ∀ i, (handle.fixedVma i).Active) :
      Served pages handle request handle [.returned mapFailed]
  | tried (i : Fin linuxVmaMax) (hadmitted : request.Admitted pages handle)
      (hnew : ∀ i, ¬(handle.fixedVma i).Holds pages (roundLen pages request.len) request.offset)
      (hfree : ¬(handle.fixedVma i).Active) :
      Served pages handle request (handle.tried pages i request)
        [.mmap i (newVma pages request),
          .returned ((newVma pages request).answered request.reply).vmBufferAddress]

theorem holds_of_findMapped {pages : PageShift} {handle : Handle} {len offset : BitVec 64}
    {i : Fin linuxVmaMax} (h : findMapped pages handle len offset = some i) :
    (handle.fixedVma i).Holds pages len offset := by
  have hfound := List.find?_some h
  exact of_decide_eq_true hfound

theorem not_holds_of_findMapped {pages : PageShift} {handle : Handle} {len offset : BitVec 64}
    (h : findMapped pages handle len offset = none) (i : Fin linuxVmaMax) :
    ¬(handle.fixedVma i).Holds pages len offset := by
  have hmissed := List.find?_eq_none.mp h i (List.mem_finRange i)
  simpa using hmissed

theorem not_active_of_findFree {handle : Handle} {i : Fin linuxVmaMax}
    (h : findFree handle = some i) : ¬(handle.fixedVma i).Active := by
  have hfound := List.find?_some h
  exact of_decide_eq_true hfound

theorem active_of_findFree {handle : Handle} (h : findFree handle = none) (i : Fin linuxVmaMax) :
    (handle.fixedVma i).Active := by
  have hmissed := List.find?_eq_none.mp h i (List.mem_finRange i)
  simpa using hmissed

/-- A call on a handle goes one of these ways. -/
theorem linuxMmap_served (pages : PageShift) (handle : Handle) (request : Request) :
    ∃ next events, linuxMmap pages (some handle) request = (some next, events) ∧
      Served pages handle request next events := by
  by_cases hmmap : handle.mmap = false
  · refine ⟨handle, _, by rw [linuxMmap, if_pos hmmap], .refused fun h => ?_⟩
    exact absurd h.1 (by simp [hmmap])
  by_cases hlen : request.len = 0
  · refine ⟨handle, _, by rw [linuxMmap, if_neg hmmap, if_pos hlen], .refused fun h => ?_⟩
    exact h.2.1 hlen
  by_cases hoffset : request.offset &&& (pages.size - 1) ≠ 0
  · refine ⟨handle, _, by rw [linuxMmap, if_neg hmmap, if_neg hlen, if_pos hoffset],
      .refused fun h => ?_⟩
    exact hoffset h.2.2
  have hadmitted : request.Admitted pages handle :=
    ⟨by simpa using hmmap, hlen, not_not.mp hoffset⟩
  cases hfind : findMapped pages handle (roundLen pages request.len) request.offset with
  | some i =>
      refine ⟨handle, _, by rw [linuxMmap, if_neg hmmap, if_neg hlen, if_neg hoffset, hfind],
        .repeated i hadmitted ?_⟩
      exact holds_of_findMapped hfind
  | none =>
      have hnew := not_holds_of_findMapped hfind
      cases hfree : findFree handle with
      | none =>
          refine ⟨handle, _, by
            rw [linuxMmap, if_neg hmmap, if_neg hlen, if_neg hoffset, hfind, hfree], .full hnew ?_⟩
          exact active_of_findFree hfree
      | some i =>
          refine ⟨_, _, by
            rw [linuxMmap, if_neg hmmap, if_neg hlen, if_neg hoffset, hfind, hfree]
            rfl, .tried i hadmitted hnew ?_⟩
          exact not_active_of_findFree hfree

/-- The tests of the first loop compare the two keys. -/
theorem holds_iff {pages : PageShift} {handle : Handle} {request : Request} {vma : Vma}
    (hadmitted : request.Admitted pages handle) (hlen : request.len.toNat < 2 ^ 62) :
    vma.Holds pages (roundLen pages request.len) request.offset ↔
      vma.Active ∧ vma.key pages = request.key pages := by
  have hpos : (2 ^ pages.shift : ℤ) ≠ 0 := by positivity
  unfold Vma.Holds Vma.key Request.key
  rw [Prod.mk.injEq, ← BitVec.toNat_inj, toNat_roundLen pages hlen, ← BitVec.toInt_inj,
    ← pgoff_mul pages hadmitted.2.2, mul_left_inj' hpos]
  tauto

/-- The new slot has the key of its call. -/
theorem key_newVma {pages : PageShift} {handle : Handle} {request : Request} (reply : DriverReply)
    (hadmitted : request.Admitted pages handle) (hlen : request.len.toNat < 2 ^ 62) :
    ((newVma pages request).answered reply).key pages = request.key pages := by
  unfold Vma.key Request.key Vma.answered newVma
  rw [add_sub_cancel_left, toNat_roundLen pages hlen, pgoff_mul pages hadmitted.2.2]

/-! ### The invariant -/

/-- **The slots after a sequence of calls**: every active one was made by one of the calls, which
got past the checks, and no two have one key. -/
structure CacheInv (pages : PageShift) (handle : Handle) (calls : List Request) : Prop where
  distinct : KeysDistinct Vma.Active (Vma.key pages) handle.fixedVma
  made : ∀ i, (handle.fixedVma i).Active → ∃ request ∈ calls, request.Admitted pages handle ∧
    (handle.fixedVma i).key pages = request.key pages

theorem cacheInv_linuxOpen (pages : PageShift) (mmap : Bool) :
    CacheInv pages (linuxOpen mmap) [] := by
  have hnone : ∀ i, ¬((linuxOpen mmap).fixedVma i).Active := fun i h => h.1 rfl
  exact ⟨keysDistinct_of_not_live hnone, fun i hactive => absurd hactive (hnone i)⟩

theorem CacheInv.mono {pages : PageShift} {handle : Handle} {calls calls' : List Request}
    (h : CacheInv pages handle calls) (hsub : calls ⊆ calls') : CacheInv pages handle calls' := by
  refine ⟨h.distinct, fun i hactive => ?_⟩
  obtain ⟨request, hmem, hmade⟩ := h.made i hactive
  exact ⟨request, hsub hmem, hmade⟩

/-- **One call** keeps the invariant. -/
theorem CacheInv.served {pages : PageShift} {handle next : Handle} {calls : List Request}
    {request : Request} {events : List Event} (h : CacheInv pages handle calls)
    (hlen : request.len.toNat < 2 ^ 62) (hserved : Served pages handle request next events) :
    CacheInv pages next (calls ++ [request]) := by
  have hold := h.mono (List.subset_append_left calls [request])
  cases hserved with
  | refused => exact hold
  | repeated => exact hold
  | full => exact hold
  | tried i hadmitted hnew hfree =>
      have hkey := key_newVma request.reply hadmitted hlen
      refine ⟨h.distinct.update fun _ j hji hactive heq => ?_, fun j hactive => ?_⟩
      · exact hnew j ((holds_iff hadmitted hlen).mpr ⟨hactive, heq.trans hkey⟩)
      · simp only [Handle.tried] at hactive ⊢
        by_cases hji : j = i
        · subst hji
          rw [Function.update_self]
          exact ⟨request, by simp, hadmitted, hkey⟩
        · rw [Function.update_of_ne hji] at hactive ⊢
          exact hold.made j hactive

/-- **Every sequence of calls** keeps it. -/
theorem cacheInv_of_run {pages : PageShift} {mmap : Bool} {schedule : List Request}
    {handle : Handle} {history : List Event}
    (hlen : ∀ request ∈ schedule, request.len.toNat < 2 ^ 62)
    (hrun : (mmapMachine pages).run (some (linuxOpen mmap)) schedule =
      some (some handle, history)) : CacheInv pages handle schedule := by
  let P : Option Handle → List Event → List Request → Prop := fun handle _ calls =>
    (∀ request ∈ calls, request.len.toNat < 2 ^ 62) →
      ∃ handle', handle = some handle' ∧ CacheInv pages handle' calls
  have hkept : P (some handle) ([] ++ history) ([] ++ schedule) := by
    refine (mmapMachine pages).run_invariant_of_schedule ?_
      (fun _ => ⟨_, rfl, cacheInv_linuxOpen pages mmap⟩) hrun
    intro state history calls request next events hstate hstep hbound
    obtain ⟨handle', rfl, hinv⟩ := hstate fun request hmem =>
      hbound request (List.mem_append_left _ hmem)
    obtain ⟨next', events', hcall, hserved⟩ := linuxMmap_served pages handle' request
    obtain ⟨rfl, rfl⟩ := Prod.mk.inj (hcall.symm.trans (Option.some.inj hstep))
    exact ⟨next', rfl, hinv.served (hbound request (by simp)) hserved⟩
  obtain ⟨handle', heq, hinv⟩ := hkept hlen
  rwa [Option.some.inj heq]

/-! ### Calls in a reachable state -/

/-- A call with the key of a mapping that is there gets past the checks. -/
theorem CacheInv.admitted {pages : PageShift} {handle : Handle} {calls : List Request}
    {request : Request} {i : Fin linuxVmaMax} (h : CacheInv pages handle calls)
    (hactive : (handle.fixedVma i).Active)
    (hkey : (handle.fixedVma i).key pages = request.key pages) :
    request.Admitted pages handle := by
  obtain ⟨earlier, -, ⟨hmmap, hlen, hoffset⟩, hmade⟩ := h.made i hactive
  obtain ⟨hsame, hplace⟩ := Prod.mk.inj (hkey.symm.trans hmade)
  refine ⟨hmmap, fun hzero => hlen ?_, BitVec.eq_of_toInt_eq hplace ▸ hoffset⟩
  have hempty : pageCeil pages request.len.toNat = 0 := by
    rw [hzero]
    exact pageCeil_of_dvd (dvd_zero _)
  have hle := le_pageCeil pages earlier.len.toNat
  exact BitVec.eq_of_toNat_eq (Nat.le_zero.mp (by rwa [← hsame, hempty] at hle))

/-- **A call with the key of a mapping that is there** gets its address, and the driver is not
asked. -/
theorem CacheInv.repeated {pages : PageShift} {handle : Handle} {calls : List Request}
    {request : Request} {i : Fin linuxVmaMax} (h : CacheInv pages handle calls)
    (hlen : request.len.toNat < 2 ^ 62) (hactive : (handle.fixedVma i).Active)
    (hkey : (handle.fixedVma i).key pages = request.key pages) :
    linuxMmap pages (some handle) request =
      (some handle, [.returned (handle.fixedVma i).vmBufferAddress]) := by
  have hadmitted := h.admitted hactive hkey
  have hholds := (holds_iff hadmitted hlen).mpr ⟨hactive, hkey⟩
  obtain ⟨next, events, hcall, hserved⟩ := linuxMmap_served pages handle request
  rw [hcall]
  cases hserved with
  | refused hrefused => exact absurd hadmitted hrefused
  | repeated j _ hj =>
      obtain ⟨hjactive, hjkey⟩ := (holds_iff hadmitted hlen).mp hj
      rw [h.distinct hjactive hactive (hjkey.trans hkey.symm)]
  | full hnew => exact absurd hholds (hnew i)
  | tried _ _ hnew => exact absurd hholds (hnew i)

/-- **A call that fails** changes no mapping, and none is there that was not before. -/
theorem Served.failed {pages : PageShift} {handle next : Handle} {request : Request}
    {events : List Event} (h : Served pages handle request next events)
    (hfailed : .returned mapFailed ∈ events) (i : Fin linuxVmaMax) :
    ((handle.fixedVma i).Active → next.fixedVma i = handle.fixedVma i) ∧
      ((next.fixedVma i).Active → (handle.fixedVma i).Active) := by
  cases h with
  | refused => exact ⟨fun _ => rfl, id⟩
  | repeated => exact ⟨fun _ => rfl, id⟩
  | full => exact ⟨fun _ => rfl, id⟩
  | tried j _ _ hfree =>
      have haddress :
          ((newVma pages request).answered request.reply).vmBufferAddress = mapFailed := by
        simpa [eq_comm] using hfailed
      unfold Handle.tried
      by_cases hij : i = j
      · subst hij
        refine ⟨fun hactive => absurd hactive hfree, fun hactive => ?_⟩
        simp only [Function.update_self] at hactive
        exact absurd haddress hactive.2
      · simp only [Function.update_of_ne hij]
        exact ⟨fun _ => trivial, id⟩

/-! ### The pages of a user address -/

theorem length_pageLoop (pages : PageShift) (buffer off : BitVec 64) (npages : ℕ) :
    (pageLoop pages buffer off npages).length = npages := by
  induction npages generalizing off with
  | zero => rfl
  | succ npages ih => rw [pageLoop, List.length_cons, ih]

/-- The loop steps from one page to the next, as long as the displacement fits in a word. -/
theorem pageLoop_getElem? (pages : PageShift) (buffer : BitVec 64) {off : BitVec 64} {npages : ℕ}
    (hfits : off.toNat + npages * 2 ^ pages.shift < 2 ^ 64) {j : ℕ} (hj : j < npages) :
    ∃ page, (pageLoop pages buffer off npages)[j]? = some page ∧
      (page - buffer).toNat = off.toNat + j * 2 ^ pages.shift := by
  induction npages generalizing off j with
  | zero => exact absurd hj (Nat.not_lt_zero j)
  | succ npages ih =>
      cases j with
      | zero =>
          refine ⟨buffer + off, rfl, ?_⟩
          rw [add_sub_cancel_left, Nat.zero_mul, Nat.add_zero]
      | succ j =>
          rw [Nat.succ_mul] at hfits
          have hnext : (off + pages.size).toNat = off.toNat + 2 ^ pages.shift := by
            rw [BitVec.toNat_add, toNat_size]
            exact Nat.mod_eq_of_lt (by omega)
          obtain ⟨page, hpage, hplace⟩ := @ih (off + pages.size) (by omega) j (by omega)
          refine ⟨page, hpage, ?_⟩
          rw [hplace, hnext, Nat.succ_mul]
          omega

/-- **The reported pages lie in the buffer of a mapping**, one after another from the displacement
of `start` on. -/
structure Inside (pages : PageShift) (start : BitVec 64) (ppages : Bool) (reply : UserPages)
    (vma : Vma) : Prop where
  active : vma.Active
  starts : vma.vmStart.toNat ≤ start.toNat
  fits : ∀ j : ℕ, (j : ℤ) < reply.count →
    start.toNat - vma.vmStart.toNat + j * 2 ^ pages.shift + 2 ^ pages.shift ≤ (vma.key pages).1
  number : ppages = true → (reply.ppages.length : ℤ) = reply.count
  page : ppages = true → ∀ j : ℕ, (j : ℤ) < reply.count → ∃ page, reply.ppages[j]? = some page ∧
    (page - vma.vmBufferAddress).toNat =
      start.toNat - vma.vmStart.toNat + j * 2 ^ pages.shift

/-- A positive `int` as an `unsigned long`. -/
theorem toNat_signExtend_of_pos {npages : BitVec 32} (h : 0 < npages.toInt) :
    (npages.signExtend 64).toNat = npages.toNat ∧ npages.toInt = npages.toNat := by
  have hlt := npages.isLt
  have hmsb : npages.msb = false := by
    rw [BitVec.msb_eq_toInt]
    exact decide_eq_false (by omega)
  rw [BitVec.signExtend_eq_setWidth_of_msb_false hmsb, BitVec.toNat_setWidth,
    BitVec.toInt_eq_toNat_of_msb hmsb]
  exact ⟨Nat.mod_eq_of_lt (by omega), rfl⟩

/-- What the tests of the loop over the slots say in numbers. -/
theorem Vma.Covers.fits {pages : PageShift} {start : BitVec 64} {npages : BitVec 32} {vma : Vma}
    (h : vma.Covers pages start npages) (hpos : 0 < npages.toInt) :
    vma.vmStart.toNat ≤ start.toNat ∧
      start.toNat - vma.vmStart.toNat + npages.toNat * 2 ^ pages.shift ≤ (vma.key pages).1 := by
  obtain ⟨-, hrange, hcount⟩ := h
  rw [not_or, gt_iff_lt, BitVec.not_lt, BitVec.not_lt, BitVec.le_def, BitVec.le_def] at hrange
  obtain ⟨hstart, hend⟩ := hrange
  rw [gt_iff_lt, BitVec.not_lt, BitVec.le_def, BitVec.toNat_ushiftRight,
    BitVec.toNat_sub_of_le (BitVec.le_def.mpr hend), Nat.shiftRight_eq_div_pow,
    Nat.le_div_iff_mul_le (Nat.two_pow_pos _), (toNat_signExtend_of_pos hpos).1] at hcount
  have hlength : (vma.key pages).1 = vma.vmEnd.toNat - vma.vmStart.toNat :=
    BitVec.toNat_sub_of_le (BitVec.le_def.mpr (hstart.trans hend))
  refine ⟨hstart, ?_⟩
  omega

/-- The pages found in a slot that covers them. -/
theorem Vma.Covers.inside {pages : PageShift} {start : BitVec 64} {npages : BitVec 32} {vma : Vma}
    (h : vma.Covers pages start npages) (hpos : 0 < npages.toInt) (ppages : Bool)
    (pvm : List (BitVec 64)) :
    Inside pages start ppages
      { count := npages.toInt
        ppages := if ppages then
          pageLoop pages vma.vmBufferAddress (start - vma.vmStart) npages.toNat else []
        pvm } vma := by
  obtain ⟨hstart, hfits⟩ := h.fits hpos
  have hcount := (toNat_signExtend_of_pos hpos).2
  have hoff : (start - vma.vmStart).toNat = start.toNat - vma.vmStart.toNat :=
    BitVec.toNat_sub_of_le (BitVec.le_def.mpr hstart)
  have hword : (vma.key pages).1 < 2 ^ 64 := (vma.vmEnd - vma.vmStart).isLt
  refine ⟨h.1, hstart, fun j hj => ?_, fun hreported => ?_, fun hreported j hj => ?_⟩
  · have hle : j + 1 ≤ npages.toNat := by
      have hlt : (j : ℤ) < npages.toInt := hj
      omega
    have hnext := Nat.mul_le_mul_right (2 ^ pages.shift) hle
    rw [Nat.succ_mul] at hnext
    omega
  · rw [if_pos hreported, length_pageLoop, hcount]
  · have hlt : (j : ℤ) < npages.toInt := hj
    rw [if_pos hreported, ← hoff]
    exact pageLoop_getElem? pages _ (by omega) (by omega)

/-- **A count of pages that `linux_get_user_pages` returns** stands for pages of one mapping. -/
theorem linuxGetUserPages_inside {pages : PageShift} {handle : Handle} {start : BitVec 64}
    {npages : BitVec 32} {ppages pvm : Bool}
    (h : 0 < (linuxGetUserPages pages (some handle) start npages ppages pvm).count) :
    ∃ i, Inside pages start ppages
      (linuxGetUserPages pages (some handle) start npages ppages pvm) (handle.fixedVma i) := by
  unfold linuxGetUserPages at h ⊢
  by_cases hpos : npages.toInt ≤ 0
  · rw [if_pos hpos] at h
    exact absurd h (by decide)
  rw [if_neg hpos] at h ⊢
  by_cases haligned : start &&& (pages.size - 1) ≠ 0
  · rw [if_pos haligned] at h
    exact absurd h (by decide)
  rw [if_neg haligned] at h ⊢
  cases hfind : (List.finRange linuxVmaMax).find? fun i =>
      (handle.fixedVma i).Covers pages start npages with
  | none =>
      simp only [hfind] at h
      exact absurd h (by decide)
  | some i =>
      have hfound := List.find?_some hfind
      have hcovers : (handle.fixedVma i).Covers pages start npages := of_decide_eq_true hfound
      simp only [hfind]
      exact ⟨i, hcovers.inside (not_le.mp hpos) ppages _⟩

/-! ### Every sequence of calls -/

/-- **The mapping cache**, after any sequence of calls on one handle: no two mappings have one
length and offset, and those of each were asked for by one of the calls; a call that asks for them
again gets the address without the driver; a call that fails leaves the mappings as they are; and
pages that are reported lie in one mapping. -/
theorem mmap_cache {pages : PageShift} {mmap : Bool} {schedule : List Request} {handle : Handle}
    {history : List Event} (hlen : ∀ request ∈ schedule, request.len.toNat < 2 ^ 62)
    (hrun : (mmapMachine pages).run (some (linuxOpen mmap)) schedule =
      some (some handle, history)) :
    Set.InjOn (fun i => (handle.fixedVma i).key pages) {i | (handle.fixedVma i).Active} ∧
      (∀ i, (handle.fixedVma i).Active →
        ∃ request ∈ schedule, (handle.fixedVma i).key pages = request.key pages) ∧
      (∀ request : Request, request.len.toNat < 2 ^ 62 → ∀ i, (handle.fixedVma i).Active →
        (handle.fixedVma i).key pages = request.key pages →
        linuxMmap pages (some handle) request =
          (some handle, [.returned (handle.fixedVma i).vmBufferAddress])) ∧
      (∀ request next events, linuxMmap pages (some handle) request = (some next, events) →
        .returned mapFailed ∈ events → ∀ i,
        ((handle.fixedVma i).Active → next.fixedVma i = handle.fixedVma i) ∧
          ((next.fixedVma i).Active → (handle.fixedVma i).Active)) ∧
      (∀ start npages ppages pvm,
        0 < (linuxGetUserPages pages (some handle) start npages ppages pvm).count →
        ∃ i, Inside pages start ppages
          (linuxGetUserPages pages (some handle) start npages ppages pvm)
          (handle.fixedVma i)) := by
  have hinv := cacheInv_of_run hlen hrun
  refine ⟨hinv.distinct, fun i hactive => ?_, fun request hrequest i hactive hkey => ?_,
    fun request next events hcall hfailed i => ?_, fun start npages ppages pvm hcount => ?_⟩
  · obtain ⟨request, hmem, -, hmade⟩ := hinv.made i hactive
    exact ⟨request, hmem, hmade⟩
  · exact hinv.repeated hrequest hactive hkey
  · obtain ⟨next', events', hcall', hserved⟩ := linuxMmap_served pages handle request
    obtain ⟨hnext, rfl⟩ := Prod.mk.inj (hcall'.symm.trans hcall)
    obtain rfl := Option.some.inj hnext
    exact hserved.failed hfailed i
  · exact linuxGetUserPages_inside hcount

/-- Pages of 4096 bytes. -/
def smallPages : PageShift := ⟨12, by decide⟩

/-- 5000 bytes at offset `0x3000`, which the driver maps at `0x7000`. -/
def firstRequest : Request := ⟨0x10000, 5000, 0x3000, ⟨0, 0x7000, 7⟩⟩

/-- The slots after it. -/
def firstHandle : Handle := (linuxOpen true).tried smallPages 0 firstRequest

/-- 8000 bytes at this offset are as many pages, and get the address of the mapping. -/
theorem mmap_cache_first : linuxMmap smallPages (some firstHandle)
    { firstRequest with len := 8000 } = (some firstHandle, [.returned 0x7000]) := by
  have hmapped : findMapped smallPages (linuxOpen true) (roundLen smallPages firstRequest.len)
      firstRequest.offset = none := by decide +kernel
  have hfree : findFree (linuxOpen true) = some 0 := by decide +kernel
  have hcall : linuxMmap smallPages (some (linuxOpen true)) firstRequest =
      (some firstHandle, [.mmap 0 (newVma smallPages firstRequest), .returned 0x7000]) := by
    rw [linuxMmap, if_neg (by decide), if_neg (by decide), if_neg (by decide), hmapped, hfree]
    rfl
  have hrun : (mmapMachine smallPages).run (some (linuxOpen true)) [firstRequest] =
      some (some firstHandle, [.mmap 0 (newVma smallPages firstRequest), .returned 0x7000]) := by
    rw [Machine.run_cons]
    simp [mmapMachine, hcall]
  exact (mmap_cache (by decide) hrun).2.2.1 _ (by decide) 0 (by decide) (by decide)

end Webcamd.Kernel.MmapCache
