import Mathlib
import Webcamd.Library.Machine

/-!
# Memory for the 32-bit compatibility layer

While a thread is in a 32-bit `ioctl`, `compat_alloc_user_space` gives out pieces of one buffer
under addresses that no user process has, and the copy functions find the buffer again by the
address.

* `Window` — the addresses, with what the source checks about them when it is compiled.
* `compatAllocUserSpace`, `compatFreeAllUserSpace`, `compatCopyToUser`, `compatCopyFromUser` — the
  functions of these names, on the memory of the thread.
* `blocks` — the blocks that have been given out since the last free.
* `lastCopied` — the byte that was last copied to an address, since it was given out.
* `compat_copy_bounds_iff` — the copy functions keep their bounds just if the range of the copy does
  not wrap around, apart from what they refuse.
* `compat_window` — in every run, the blocks are apart and inside the window, a new block is zero,
  and what is read from a block is what was last copied there.

Words have 64 bits.  A copy that leaves the buffer has no defined effect, and the model has no step
for it: part of the results is when it does not come up.
-/

namespace Webcamd.Kernel.Compat32

open Webcamd.Library

abbrev Byte := BitVec 8

/-- The values of an `unsigned long`. -/
def wordSize : ℕ := 2 ^ 64

/-- `WEBCAMD_USER_ALLOC_MAX` -/
def userAllocMax : ℕ := 4096

/-- `ERANGE` -/
def erange : ℤ := 34

/-- `CUSE_BUF_MIN_PTR` and `CUSE_BUF_MAX_PTR`, for which the source compiles. -/
structure Window where
  cuseBufMinPtr : ℕ
  cuseBufMaxPtr : ℕ
  /-- The CUSE IOCTL allocation window is not too small. -/
  large : ¬ (cuseBufMaxPtr - cuseBufMinPtr) / 2 < userAllocMax
  word : cuseBufMaxPtr < wordSize

/-- `WEBCAMD_USER_ALLOC_ADDR` -/
def Window.userAllocAddr (window : Window) : ℕ := window.cuseBufMaxPtr - userAllocMax

/-- `struct tls_memory`, with the bytes that `ptr` points to. -/
structure TlsMemory where
  ptr : Option (ℕ → Byte)
  offset : ℕ

/-- `linux_tls_memory` of a new thread. -/
def TlsMemory.start : TlsMemory := ⟨none, 0⟩

/-- The bytes of a range are set. -/
def put (bytes : ℕ → Byte) (start : ℕ) (source : List Byte) : ℕ → Byte := fun k =>
  if start ≤ k ∧ k < start + source.length then source.getD (k - start) 0 else bytes k

/-- The bytes of a range. -/
def get (bytes : ℕ → Byte) (start len : ℕ) : List Byte :=
  (List.range len).map fun k => bytes (start + k)

/-- The part of `compat_alloc_user_space` that has a buffer: the memory after it, and the pointer, 0
for `NULL`. -/
def takeBlock (window : Window) (bytes : ℕ → Byte) (offset len : ℕ) : TlsMemory × ℕ :=
  let rem := (userAllocMax + wordSize - offset) % wordSize
  if rem < len then (⟨some bytes, offset⟩, 0)
  else
    (⟨some (put bytes offset (List.replicate len 0)), (offset + len) % wordSize⟩,
      (offset + window.userAllocAddr) % wordSize)

/-- `compat_alloc_user_space`, with what `malloc` would return. -/
def compatAllocUserSpace (window : Window) (tls : TlsMemory) (inCompatSyscall : Bool) (len : ℕ)
    (malloc : Option (ℕ → Byte)) : TlsMemory × ℕ :=
  if inCompatSyscall = false ∨ userAllocMax < len then (tls, 0)
  else
    match tls.ptr with
    | some bytes => takeBlock window bytes tls.offset len
    | none =>
        match malloc with
        | none => (⟨none, 0⟩, 0)
        | some bytes => takeBlock window bytes 0 len

/-- `compat_free_all_user_space` -/
def compatFreeAllUserSpace (tls : TlsMemory) : TlsMemory := { tls with ptr := none }

/-- The checks of both copy functions. -/
def Window.OutOfRange (window : Window) (address len : ℕ) : Prop :=
  userAllocMax < len ∨ address < window.userAllocAddr ∨
    (window.userAllocAddr + userAllocMax) % wordSize < (address + len) % wordSize

instance (window : Window) (address len : ℕ) : Decidable (window.OutOfRange address len) :=
  inferInstanceAs (Decidable (_ ∨ _))

/-- `compat_copy_to_user`: the memory after it, and the result. -/
def compatCopyToUser (window : Window) (tls : TlsMemory) (target : ℕ) (source : List Byte) :
    Option (TlsMemory × ℤ) :=
  match tls.ptr with
  | none => some (tls, -erange)
  | some bytes =>
      if window.OutOfRange target source.length then some (tls, -erange)
      else
        let start := target - window.userAllocAddr
        if userAllocMax < start + source.length then none
        else some ({ tls with ptr := some (put bytes start source) }, 0)

/-- `compat_copy_from_user`: the result, and the bytes that are copied if it is 0. -/
def compatCopyFromUser (window : Window) (tls : TlsMemory) (source len : ℕ) :
    Option (ℤ × List Byte) :=
  match tls.ptr with
  | none => some (-erange, [])
  | some bytes =>
      if window.OutOfRange source len then some (-erange, [])
      else
        let start := source - window.userAllocAddr
        if userAllocMax < start + len then none else some (0, get bytes start len)

/-! ### Runs -/

/-- A call of the thread. -/
inductive Call where
  | alloc (inCompatSyscall : Bool) (len : ℕ) (malloc : Option (ℕ → Byte))
  | free
  | copyTo (target : ℕ) (source : List Byte)
  | copyFrom (source len : ℕ)

/-- What a call does that counts for the blocks. -/
inductive Event where
  /-- A pointer other than `NULL` is returned. -/
  | allocated (start len : ℕ)
  | freed
  /-- A copy that returns 0. -/
  | copied (target : ℕ) (source : List Byte)
  deriving DecidableEq

/-- The range of a copy does not wrap around the address space. -/
def Call.NoWrap : Call → Prop
  | alloc _ _ _ => True
  | free => True
  | copyTo target source => target + source.length < wordSize
  | copyFrom source len => source + len < wordSize

instance : (call : Call) → Decidable call.NoWrap
  | .alloc _ _ _ => inferInstanceAs (Decidable True)
  | .free => inferInstanceAs (Decidable True)
  | .copyTo _ _ => inferInstanceAs (Decidable (_ < _))
  | .copyFrom _ _ => inferInstanceAs (Decidable (_ < _))

def TlsMemory.step (window : Window) (tls : TlsMemory) :
    Call → Option (TlsMemory × List Event)
  | .alloc inCompatSyscall len malloc =>
      let done := compatAllocUserSpace window tls inCompatSyscall len malloc
      some (done.1, if done.2 = 0 then [] else [.allocated done.2 len])
  | .free => some (compatFreeAllUserSpace tls, [.freed])
  | .copyTo target source =>
      (compatCopyToUser window tls target source).map fun done =>
        (done.1, if done.2 = 0 then [.copied target source] else [])
  | .copyFrom source len =>
      (compatCopyFromUser window tls source len).map fun _ => (tls, [])

/-- The thread. -/
def machine (window : Window) : Machine TlsMemory Call Event := ⟨TlsMemory.step window⟩

/-- A block that has been given out. -/
structure Block where
  start : ℕ
  len : ℕ
  deriving DecidableEq

/-- The address is in the block. -/
def Block.Has (block : Block) (address : ℕ) : Prop :=
  block.start ≤ address ∧ address < block.start + block.len

/-- The blocks after an event. -/
def blocksStep (given : List Block) : Event → List Block
  | .allocated start len => given ++ [⟨start, len⟩]
  | .freed => []
  | .copied _ _ => given

/-- The blocks that have been given out since the last free. -/
def blocks (history : List Event) : List Block := history.foldl blocksStep []

/-- The byte of an address after an event. -/
def copiedStep (address : ℕ) (byte : Byte) : Event → Byte
  | .allocated start len => if start ≤ address ∧ address < start + len then 0 else byte
  | .freed => byte
  | .copied target source =>
      if target ≤ address ∧ address < target + source.length then
        source.getD (address - target) 0
      else byte

/-- The byte that was last copied to an address since it was given out, 0 if there is none. -/
def lastCopied (history : List Event) (address : ℕ) : Byte :=
  history.foldl (copiedStep address) 0

/-- What is promised about the window after a run. -/
structure Kept (window : Window) (tls : TlsMemory) (history : List Event) : Prop where
  disjoint : (blocks history).Pairwise fun first second =>
    ∀ address, first.Has address → ¬ second.Has address
  inside : ∀ block ∈ blocks history, window.userAllocAddr ≤ block.start ∧
    block.start + block.len ≤ window.userAllocAddr + userAllocMax
  /-- A block is zero when it is returned. -/
  zeroed : ∀ inCompatSyscall len malloc next start,
    compatAllocUserSpace window tls inCompatSyscall len malloc = (next, start) → start ≠ 0 →
    compatCopyFromUser window next start len = some (0, List.replicate len 0)
  /-- What is read from a block has been copied there. -/
  reads : ∀ block ∈ blocks history, ∀ source len, block.start ≤ source →
    source + len ≤ block.start + block.len →
    compatCopyFromUser window tls source len =
      some (0, (List.range len).map fun k => lastCopied history (source + k))

/-- The range is in the window, over the integers. -/
def Window.Inside (window : Window) (address len : ℕ) : Prop :=
  window.userAllocAddr ≤ address ∧ address + len ≤ window.userAllocAddr + userAllocMax

/-- **What is promised of the bounds** of a copy, given what it does and what it does when it
refuses. -/
structure Bounded {α : Type} (window : Window) (address len : ℕ) (returned : α → ℤ) (refusal : α)
    (outcome : Option α) : Prop where
  /-- 0 is returned only for a range in the window, … -/
  inside : ∀ result, outcome = some result → returned result = 0 → window.Inside address len
  /-- … and for any other one `-ERANGE`, and nothing is copied. -/
  refused : ¬ window.Inside address len → outcome = some refusal
  /-- No byte outside the buffer is copied. -/
  buffer : outcome ≠ none

/-! ### The functions -/

/-- The window is in the address space, and `NULL` is not in it. -/
theorem Window.bounds (window : Window) :
    0 < window.userAllocAddr ∧ window.userAllocAddr + userAllocMax < wordSize := by
  have hlarge := window.large
  have hword := window.word
  unfold userAllocAddr
  unfold userAllocMax at hlarge ⊢
  omega

/-- A range that does not wrap around is refused just when it is not in the window. -/
theorem Window.outOfRange_iff (window : Window) {address len : ℕ}
    (hwrap : address + len < wordSize) :
    ¬ window.OutOfRange address len ↔ window.userAllocAddr ≤ address ∧
      address + len ≤ window.userAllocAddr + userAllocMax := by
  obtain ⟨-, hbound⟩ := window.bounds
  unfold OutOfRange
  rw [Nat.mod_eq_of_lt hwrap, Nat.mod_eq_of_lt hbound]
  omega

/-- A range that wraps around is not in the window, and is not refused either. -/
theorem Window.wraps (window : Window) {address len : ℕ} (hword : address < wordSize)
    (hlen : len ≤ userAllocMax) (hwrap : wordSize ≤ address + len) :
    ¬ window.Inside address len ∧ ¬ window.OutOfRange address len := by
  obtain ⟨-, hbound⟩ := window.bounds
  have hlarge := window.large
  constructor
  · rintro ⟨-, hhigh⟩
    omega
  · -- the sum of the words starts again at zero, far below the end of the window
    have hsum : (address + len) % wordSize = address + len - wordSize := by
      rw [Nat.mod_eq_sub_mod hwrap, Nat.mod_eq_of_lt]
      omega
    unfold OutOfRange
    rw [hsum, Nat.mod_eq_of_lt hbound]
    unfold userAllocAddr at hbound ⊢
    unfold userAllocMax at hlarge hlen hbound ⊢
    omega

/-- What the copy functions have in common: the checks, and then what is done with the buffer from
some place on. -/
def checkedCopy {α : Type} (window : Window) (tls : TlsMemory) (address len : ℕ) (refusal : α)
    (copy : (ℕ → Byte) → ℕ → α) : Option α :=
  match tls.ptr with
  | none => some refusal
  | some bytes =>
      if window.OutOfRange address len then some refusal
      else
        let start := address - window.userAllocAddr
        if userAllocMax < start + len then none else some (copy bytes start)

theorem compatCopyToUser_checked (window : Window) (tls : TlsMemory) (target : ℕ)
    (source : List Byte) :
    compatCopyToUser window tls target source =
      checkedCopy window tls target source.length (tls, -erange) fun bytes start =>
        ({ tls with ptr := some (put bytes start source) }, 0) := rfl

theorem compatCopyFromUser_checked (window : Window) (tls : TlsMemory) (source len : ℕ) :
    compatCopyFromUser window tls source len =
      checkedCopy window tls source len (-erange, []) fun bytes start =>
        (0, get bytes start len) := rfl

section Checked

variable {α : Type} {window : Window} {tls : TlsMemory} {address len : ℕ} {refusal : α}
  {copy : (ℕ → Byte) → ℕ → α}

/-- A copy whose range does not wrap around stays in the buffer, and is refused if its range is not
in the window. -/
theorem checkedCopy_cases (hwrap : address + len < wordSize) :
    checkedCopy window tls address len refusal copy = some refusal ∨
      ∃ bytes start, window.Inside address len ∧
        checkedCopy window tls address len refusal copy = some (copy bytes start) := by
  unfold checkedCopy
  cases tls.ptr with
  | none => exact .inl rfl
  | some bytes =>
      by_cases hrange : window.OutOfRange address len
      · exact .inl (if_pos hrange)
      · obtain ⟨hlow, hhigh⟩ := (window.outOfRange_iff hwrap).mp hrange
        refine .inr ⟨bytes, address - window.userAllocAddr, ⟨hlow, hhigh⟩, ?_⟩
        dsimp only
        rw [if_neg hrange, if_neg (by omega)]

theorem checkedCopy_isSome (hwrap : address + len < wordSize) :
    ∃ done, checkedCopy window tls address len refusal copy = some done := by
  rcases @checkedCopy_cases α window tls address len refusal copy hwrap with hsame |
    ⟨bytes, start, -, hsame⟩
  · exact ⟨refusal, hsame⟩
  · exact ⟨copy bytes start, hsame⟩

/-- **The bounds are kept** just if there is no buffer, or the length is refused, or the range does
not wrap around. -/
theorem checkedCopy_bounded_iff {returned : α → ℤ} (hrefusal : returned refusal ≠ 0)
    (hword : address < wordSize) :
    Bounded window address len returned refusal
        (checkedCopy window tls address len refusal copy) ↔
      tls.ptr = none ∨ userAllocMax < len ∨ address + len < wordSize := by
  have hbounded : checkedCopy window tls address len refusal copy = some refusal →
      Bounded window address len returned refusal
        (checkedCopy window tls address len refusal copy) := by
    intro hsame
    rw [hsame]
    refine ⟨?_, fun _ => rfl, Option.some_ne_none _⟩
    intro result hresult hzero
    obtain rfl := Option.some.inj hresult
    exact absurd hzero hrefusal
  constructor
  · intro h
    by_contra hwraps
    push Not at hwraps
    obtain ⟨hptr, hlen, hwrap⟩ := hwraps
    obtain ⟨bytes, hbytes⟩ := Option.ne_none_iff_exists'.mp hptr
    obtain ⟨-, hbound⟩ := window.bounds
    obtain ⟨-, hpasses⟩ := window.wraps hword hlen hwrap
    refine h.buffer ?_
    unfold checkedCopy
    rw [hbytes]
    dsimp only
    rw [if_neg hpasses, if_pos (by omega)]
  · rintro (hptr | hlen | hwrap)
    · refine hbounded ?_
      unfold checkedCopy
      rw [hptr]
    · refine hbounded ?_
      unfold checkedCopy
      cases tls.ptr with
      | none => rfl
      | some bytes => exact if_pos (.inl hlen)
    · rcases @checkedCopy_cases α window tls address len refusal copy hwrap with hsame |
        ⟨bytes, start, hinside, hsame⟩
      · exact hbounded hsame
      · rw [hsame]
        exact ⟨fun _ _ _ => hinside, fun houtside => absurd hinside houtside,
          Option.some_ne_none _⟩

end Checked

/-- All that an allocation can do: a block is given out behind the others, maybe of a new buffer, or
`NULL` is returned. -/
inductive Allocates (window : Window) (tls : TlsMemory) (len : ℕ) (next : TlsMemory) (start : ℕ) :
    Prop where
  | refused (hnext : next = tls ∨ (tls.ptr = none ∧ next.offset = 0)) (hstart : start = 0)
  | given (bytes : ℕ → Byte) (offset : ℕ)
      (hbytes : tls = ⟨some bytes, offset⟩ ∨ (tls.ptr = none ∧ offset = 0))
      (hroom : offset + len ≤ userAllocMax)
      (hnext : next = ⟨some (put bytes offset (List.replicate len 0)), offset + len⟩)
      (hstart : start = window.userAllocAddr + offset)

theorem takeBlock_cases {window : Window} {bytes : ℕ → Byte} {offset len start : ℕ}
    {next : TlsMemory} (hoffset : offset ≤ userAllocMax)
    (h : takeBlock window bytes offset len = (next, start)) :
    (next = ⟨some bytes, offset⟩ ∧ start = 0) ∨
      (offset + len ≤ userAllocMax ∧
        next = ⟨some (put bytes offset (List.replicate len 0)), offset + len⟩ ∧
        start = window.userAllocAddr + offset) := by
  obtain ⟨-, hbound⟩ := window.bounds
  have hrem : (userAllocMax + wordSize - offset) % wordSize = userAllocMax - offset := by
    rw [Nat.sub_add_comm hoffset, Nat.add_mod_right, Nat.mod_eq_of_lt]
    omega
  unfold takeBlock at h
  rw [hrem] at h
  dsimp only at h
  split at h
  · obtain ⟨rfl, rfl⟩ := Prod.mk.inj h
    exact .inl ⟨rfl, rfl⟩
  · rename_i hroom
    have hlen : offset + len ≤ userAllocMax := by omega
    rw [Nat.mod_eq_of_lt (by omega), Nat.mod_eq_of_lt (by omega),
      Nat.add_comm offset window.userAllocAddr] at h
    obtain ⟨rfl, rfl⟩ := Prod.mk.inj h
    exact .inr ⟨hlen, rfl, rfl⟩

theorem Allocates.of_alloc {window : Window} {tls next : TlsMemory} {inCompatSyscall : Bool}
    {len start : ℕ} {malloc : Option (ℕ → Byte)} (hoffset : tls.offset ≤ userAllocMax)
    (h : compatAllocUserSpace window tls inCompatSyscall len malloc = (next, start)) :
    Allocates window tls len next start := by
  unfold compatAllocUserSpace at h
  split at h
  · obtain ⟨rfl, rfl⟩ := Prod.mk.inj h
    exact .refused (.inl rfl) rfl
  · split at h
    · rename_i bytes hptr
      have htls : tls = ⟨some bytes, tls.offset⟩ := by rw [← hptr]
      obtain ⟨hnext, hstart⟩ | ⟨hroom, hnext, hstart⟩ := takeBlock_cases hoffset h
      · exact .refused (.inl (hnext.trans htls.symm)) hstart
      · exact .given bytes tls.offset (.inl htls) hroom hnext hstart
    · rename_i hptr
      split at h
      · obtain ⟨rfl, rfl⟩ := Prod.mk.inj h
        exact .refused (.inr ⟨hptr, rfl⟩) rfl
      · rename_i bytes
        obtain ⟨hnext, hstart⟩ | ⟨hroom, hnext, hstart⟩ := takeBlock_cases (Nat.zero_le _) h
        · exact .refused (.inr ⟨hptr, by rw [hnext]⟩) hstart
        · exact .given bytes 0 (.inr ⟨hptr, rfl⟩) hroom hnext hstart

/-- A read of the window gives the bytes there. -/
theorem compatCopyFromUser_eq {window : Window} {tls : TlsMemory} {bytes : ℕ → Byte}
    {source len : ℕ} (hptr : tls.ptr = some bytes) (hlow : window.userAllocAddr ≤ source)
    (hhigh : source + len ≤ window.userAllocAddr + userAllocMax) :
    compatCopyFromUser window tls source len =
      some (0, (List.range len).map fun k => bytes (source + k - window.userAllocAddr)) := by
  obtain ⟨-, hbound⟩ := window.bounds
  have hrange := (window.outOfRange_iff (by omega)).mpr ⟨hlow, hhigh⟩
  have hstart : source - window.userAllocAddr + len ≤ userAllocMax := by omega
  unfold compatCopyFromUser
  rw [hptr]
  dsimp only
  rw [if_neg hrange, if_neg (by omega), get]
  refine congrArg (fun read => some (0, read)) (List.map_congr_left ?_)
  intro k _
  rw [Nat.sub_add_comm hlow]

/-! ### The history -/

theorem blocks_append (history : List Event) (event : Event) :
    blocks (history ++ [event]) = blocksStep (blocks history) event := by
  simp [blocks]

theorem lastCopied_append (history : List Event) (event : Event) (address : ℕ) :
    lastCopied (history ++ [event]) address =
      copiedStep address (lastCopied history address) event := by
  simp [lastCopied]

/-- **The invariant**: the blocks are one behind the other from the start of the buffer to `offset`,
and the buffer has for each of their bytes what was copied there. -/
structure Inv (window : Window) (tls : TlsMemory) (history : List Event) : Prop where
  room : tls.offset ≤ userAllocMax
  given : ∀ block ∈ blocks history, tls.ptr.isSome = true ∧
    window.userAllocAddr ≤ block.start ∧
    block.start + block.len ≤ window.userAllocAddr + tls.offset
  disjoint : (blocks history).Pairwise fun first second =>
    ∀ address, first.Has address → ¬ second.Has address
  content : ∀ bytes, tls.ptr = some bytes → ∀ block ∈ blocks history, ∀ address,
    block.Has address → bytes (address - window.userAllocAddr) = lastCopied history address

namespace Inv

variable {window : Window} {tls next : TlsMemory} {history : List Event}

theorem start (window : Window) : Inv window .start [] where
  room := Nat.zero_le _
  given := by simp [blocks]
  disjoint := List.Pairwise.nil
  content := by simp [blocks]

/-- Without a buffer there are no blocks. -/
theorem blocks_eq_nil (h : Inv window tls history) (hptr : tls.ptr = none) :
    blocks history = [] := by
  rw [List.eq_nil_iff_forall_not_mem]
  intro block hblock
  have hsome := (h.given block hblock).1
  rw [hptr] at hsome
  cases hsome

theorem refused (h : Inv window tls history)
    (hnext : next = tls ∨ (tls.ptr = none ∧ next.offset = 0)) : Inv window next history := by
  obtain rfl | ⟨hptr, hoffset⟩ := hnext
  · exact h
  · have hnone := h.blocks_eq_nil hptr
    constructor
    case room => rw [hoffset]; exact Nat.zero_le _
    case given => simp [hnone]
    case disjoint => exact h.disjoint
    case content => simp [hnone]

theorem free (h : Inv window tls history) :
    Inv window (compatFreeAllUserSpace tls) (history ++ [.freed]) where
  room := h.room
  given := by simp [blocks_append, blocksStep]
  disjoint := by
    rw [blocks_append]
    exact List.Pairwise.nil
  content := by simp [blocks_append, blocksStep]

/-- **A new block is behind the others**, and setting it to zero leaves them alone. -/
theorem allocated (h : Inv window tls history) {bytes : ℕ → Byte} {offset len : ℕ}
    (hbytes : tls = ⟨some bytes, offset⟩ ∨ (tls.ptr = none ∧ offset = 0))
    (hroom : offset + len ≤ userAllocMax) :
    Inv window ⟨some (put bytes offset (List.replicate len 0)), offset + len⟩
      (history ++ [.allocated (window.userAllocAddr + offset) len]) := by
  have hbefore : ∀ block ∈ blocks history, window.userAllocAddr ≤ block.start ∧
      block.start + block.len ≤ window.userAllocAddr + offset := by
    obtain rfl | ⟨hptr, -⟩ := hbytes
    · exact fun block hblock => (h.given block hblock).2
    · simp [h.blocks_eq_nil hptr]
  have hcontent : ∀ block ∈ blocks history, ∀ address, block.Has address →
      bytes (address - window.userAllocAddr) = lastCopied history address := by
    obtain rfl | ⟨hptr, -⟩ := hbytes
    · exact h.content bytes rfl
    · simp [h.blocks_eq_nil hptr]
  constructor
  case room => exact hroom
  case given =>
    intro block hblock
    rw [blocks_append, blocksStep, List.mem_append, List.mem_singleton] at hblock
    refine ⟨rfl, ?_⟩
    obtain hblock | rfl := hblock
    · obtain ⟨hlow, hhigh⟩ := hbefore block hblock
      exact ⟨hlow, by dsimp only; omega⟩
    · dsimp only
      omega
  case disjoint =>
    rw [blocks_append, blocksStep, List.pairwise_append]
    refine ⟨h.disjoint, List.pairwise_singleton _ _, ?_⟩
    intro block hblock new hnew address hhas
    obtain rfl := List.mem_singleton.mp hnew
    obtain ⟨-, hhigh⟩ := hbefore block hblock
    obtain ⟨-, hlt⟩ := hhas
    rintro ⟨hle, -⟩
    dsimp only at hle
    omega
  case content =>
    intro after hafter block hblock address hhas
    obtain rfl := Option.some.inj hafter
    rw [blocks_append, blocksStep, List.mem_append, List.mem_singleton] at hblock
    rw [lastCopied_append, copiedStep, put, List.length_replicate]
    obtain hblock | rfl := hblock
    · obtain ⟨hlow, hhigh⟩ := hbefore block hblock
      have hcopied := hcontent block hblock address hhas
      obtain ⟨hfirst, hlast⟩ := hhas
      rw [if_neg (by omega), if_neg (by omega), hcopied]
    · obtain ⟨hfirst, hlast⟩ := hhas
      dsimp only at hfirst hlast
      rw [if_pos (by omega), if_pos ⟨hfirst, hlast⟩, List.getD_replicate]
      omega

/-- **A copy reaches the bytes of its range**, whatever block they are in. -/
theorem copied (h : Inv window tls history) {bytes : ℕ → Byte} (hptr : tls.ptr = some bytes)
    {target : ℕ} {source : List Byte} (hlow : window.userAllocAddr ≤ target) :
    Inv window { tls with ptr := some (put bytes (target - window.userAllocAddr) source) }
      (history ++ [.copied target source]) := by
  constructor
  case room => exact h.room
  case given =>
    intro block hblock
    rw [blocks_append] at hblock
    exact ⟨rfl, (h.given block hblock).2⟩
  case disjoint =>
    rw [blocks_append]
    exact h.disjoint
  case content =>
    intro after hafter block hblock address hhas
    obtain rfl := Option.some.inj hafter
    rw [blocks_append] at hblock
    obtain ⟨-, hstart, -⟩ := h.given block hblock
    have hcopied := h.content bytes hptr block hblock address hhas
    have hfirst := hhas.1
    rw [lastCopied_append, copiedStep, put]
    by_cases hin : target ≤ address ∧ address < target + source.length
    · have hindex : address - window.userAllocAddr - (target - window.userAllocAddr) =
          address - target := by omega
      rw [if_pos (by omega), if_pos hin, hindex]
    · rw [if_neg (by omega), if_neg hin, hcopied]

/-- Every block is inside the window. -/
theorem inside (h : Inv window tls history) {block : Block} (hblock : block ∈ blocks history) :
    window.userAllocAddr ≤ block.start ∧
      block.start + block.len ≤ window.userAllocAddr + userAllocMax := by
  have hroom := h.room
  obtain ⟨-, hlow, hhigh⟩ := h.given block hblock
  exact ⟨hlow, by omega⟩

theorem reads (h : Inv window tls history) {block : Block} (hblock : block ∈ blocks history)
    {source len : ℕ} (hlow : block.start ≤ source)
    (hhigh : source + len ≤ block.start + block.len) :
    compatCopyFromUser window tls source len =
      some (0, (List.range len).map fun k => lastCopied history (source + k)) := by
  obtain ⟨hstart, hend⟩ := h.inside hblock
  obtain ⟨bytes, hptr⟩ := Option.isSome_iff_exists.mp (h.given block hblock).1
  rw [compatCopyFromUser_eq hptr (by omega) (by omega)]
  refine congrArg (fun read => some (0, read)) (List.map_congr_left ?_)
  intro k hk
  have hlt := List.mem_range.mp hk
  exact h.content bytes hptr block hblock (source + k) ⟨by omega, by omega⟩

theorem alloc (h : Inv window tls history) {inCompatSyscall : Bool} {len start : ℕ}
    {malloc : Option (ℕ → Byte)}
    (halloc : compatAllocUserSpace window tls inCompatSyscall len malloc = (next, start)) :
    Inv window next (history ++ if start = 0 then [] else [.allocated start len]) := by
  cases Allocates.of_alloc h.room halloc with
  | refused hnext hstart =>
      rw [if_pos hstart, List.append_nil]
      exact h.refused hnext
  | given bytes offset hbytes hroom hnext hstart =>
      have hpos := window.bounds.1
      rw [if_neg (by omega), hstart, hnext]
      exact h.allocated hbytes hroom

/-- What the thread does next keeps the invariant. -/
theorem step (h : Inv window tls history) {call : Call} {events : List Event}
    (hstep : tls.step window call = some (next, events)) :
    Inv window next (history ++ events) := by
  cases call with
  | alloc inCompatSyscall len malloc =>
      obtain ⟨rfl, rfl⟩ := Prod.mk.inj (Option.some.inj hstep)
      exact h.alloc rfl
  | free =>
      obtain ⟨rfl, rfl⟩ := Prod.mk.inj (Option.some.inj hstep)
      exact h.free
  | copyTo target source =>
      obtain ⟨⟨after, result⟩, hcopy, heq⟩ := Option.map_eq_some_iff.mp hstep
      obtain ⟨rfl, rfl⟩ := Prod.mk.inj heq
      unfold compatCopyToUser at hcopy
      split at hcopy
      · obtain ⟨rfl, rfl⟩ := Prod.mk.inj (Option.some.inj hcopy)
        simpa [erange] using h
      · rename_i bytes hptr
        split at hcopy
        · obtain ⟨rfl, rfl⟩ := Prod.mk.inj (Option.some.inj hcopy)
          simpa [erange] using h
        · rename_i hrange
          dsimp only at hcopy
          split at hcopy
          · cases hcopy
          · obtain ⟨rfl, rfl⟩ := Prod.mk.inj (Option.some.inj hcopy)
            have hlow : window.userAllocAddr ≤ target := by
              unfold Window.OutOfRange at hrange
              omega
            exact h.copied hptr hlow
  | copyFrom source len =>
      obtain ⟨read, -, heq⟩ := Option.map_eq_some_iff.mp hstep
      obtain ⟨rfl, rfl⟩ := Prod.mk.inj heq
      rwa [List.append_nil]

/-- What the invariant promises. -/
theorem kept (h : Inv window tls history) : Kept window tls history where
  disjoint := h.disjoint
  inside := fun _ hblock => h.inside hblock
  zeroed := by
    intro inCompatSyscall len malloc next start halloc hnull
    have hnext := h.alloc halloc
    rw [if_neg hnull] at hnext
    have hblock : (⟨start, len⟩ : Block) ∈ blocks (history ++ [.allocated start len]) := by
      rw [blocks_append]
      exact List.mem_append_right _ (List.mem_singleton_self _)
    rw [hnext.reads hblock le_rfl le_rfl]
    refine congrArg (fun read => some (0, read)) (List.eq_replicate_iff.mpr ⟨by simp, ?_⟩)
    intro byte hbyte
    obtain ⟨k, hk, rfl⟩ := List.mem_map.mp hbyte
    have hlt := List.mem_range.mp hk
    rw [lastCopied_append, copiedStep]
    exact if_pos ⟨Nat.le_add_right start k, Nat.add_lt_add_left hlt start⟩
  reads := fun _ hblock _ _ => h.reads hblock

end Inv

/-! ### Every run -/

/-- A copy whose range does not wrap around stays in the buffer. -/
theorem step_isSome (window : Window) (tls : TlsMemory) {call : Call} (hwrap : call.NoWrap) :
    ∃ next events, tls.step window call = some (next, events) := by
  cases call with
  | alloc inCompatSyscall len malloc => exact ⟨_, _, rfl⟩
  | free => exact ⟨_, _, rfl⟩
  | copyTo target source =>
      have hcopy : ∃ done, compatCopyToUser window tls target source = some done := by
        rw [compatCopyToUser_checked]
        exact checkedCopy_isSome hwrap
      obtain ⟨done, hdone⟩ := hcopy
      exact ⟨_, _, by rw [TlsMemory.step, hdone]; rfl⟩
  | copyFrom source len =>
      have hcopy : ∃ done, compatCopyFromUser window tls source len = some done := by
        rw [compatCopyFromUser_checked]
        exact checkedCopy_isSome hwrap
      obtain ⟨done, hdone⟩ := hcopy
      exact ⟨_, _, by rw [TlsMemory.step, hdone]; rfl⟩

theorem run_isSome (window : Window) (tls : TlsMemory) (calls : List Call)
    (hwrap : ∀ call ∈ calls, call.NoWrap) :
    ∃ last history, (machine window).run tls calls = some (last, history) := by
  induction calls generalizing tls with
  | nil => exact ⟨tls, [], rfl⟩
  | cons call rest ih =>
      rw [List.forall_mem_cons] at hwrap
      obtain ⟨next, events, hstep⟩ := step_isSome window tls hwrap.1
      obtain ⟨last, history, hrun⟩ := ih next hwrap.2
      refine ⟨last, events ++ history, ?_⟩
      rw [Machine.run_cons, show (machine window).step tls call = _ from hstep]
      change ((machine window).run next rest).map _ = _
      rw [hrun]
      rfl

/-- **Blocks are apart, zero at first, and keep what is copied to them**, in every run of a thread
whose copies do not wrap around the address space. -/
theorem compat_window (window : Window) (calls : List Call)
    (hwrap : ∀ call ∈ calls, call.NoWrap) :
    ∃ last history, (machine window).run .start calls = some (last, history) ∧
      Kept window last history := by
  obtain ⟨last, history, hrun⟩ := run_isSome window .start calls hwrap
  have hinv := @Machine.run_invariant _ _ _ (machine window) (Inv window)
    (fun hhere hstep => hhere.step hstep) .start last [] history calls (Inv.start window) hrun
  exact ⟨last, history, hrun, hinv.kept⟩

/-- A window of 64 kilobytes. -/
def cuseWindow : Window where
  cuseBufMinPtr := 0x10000
  cuseBufMaxPtr := 0x20000
  large := by decide
  word := by decide

/-- Two blocks, a copy to the first one, a read, a free, and a block again. -/
theorem compat_window_twoBlocks :
    ∃ last history, (machine cuseWindow).run .start
      [.alloc true 8 (some fun _ => 0xFF), .alloc true 4 none, .copyTo 0x1F000 [1, 2, 3],
        .copyFrom 0x1F000 4, .free, .alloc true 4096 (some fun _ => 0xFF)] = some (last, history) ∧
      Kept cuseWindow last history :=
  compat_window cuseWindow _ (by decide)

/-! ### The bounds of a copy -/

/-- **The bounds of both copy functions are kept** just if the range does not wrap around the
address space, or it is refused for its length or for want of a buffer. -/
theorem compat_copy_bounds_iff (window : Window) (tls : TlsMemory) (pointer : BitVec 64) :
    (∀ source : List Byte,
      Bounded window pointer.toNat source.length Prod.snd (tls, -erange)
          (compatCopyToUser window tls pointer.toNat source) ↔
        tls.ptr = none ∨ userAllocMax < source.length ∨
          pointer.toNat + source.length < wordSize) ∧
    ∀ len : ℕ,
      Bounded window pointer.toNat len Prod.fst (-erange, [])
          (compatCopyFromUser window tls pointer.toNat len) ↔
        tls.ptr = none ∨ userAllocMax < len ∨ pointer.toNat + len < wordSize := by
  have hword : pointer.toNat < wordSize := pointer.isLt
  have hrefusal : -erange ≠ 0 := by decide
  constructor
  · intro source
    rw [compatCopyToUser_checked]
    exact checkedCopy_bounded_iff hrefusal hword
  · intro len
    rw [compatCopyFromUser_checked]
    exact checkedCopy_bounded_iff hrefusal hword

/-- One byte at the last address of all: the sum is zero, and the byte is not in the buffer. -/
theorem compat_copy_lastAddress :
    ¬ ∀ (window : Window) (tls : TlsMemory) (pointer : BitVec 64) (source : List Byte),
      Bounded window pointer.toNat source.length Prod.snd (tls, -erange)
        (compatCopyToUser window tls pointer.toNat source) := by
  intro h
  have hbounded := h cuseWindow ⟨some fun _ => 0, 0⟩ 0xFFFFFFFFFFFFFFFF [1]
  exact hbounded.buffer (by decide)

end Webcamd.Kernel.Compat32
