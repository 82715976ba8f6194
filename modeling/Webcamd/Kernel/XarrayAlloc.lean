import Webcamd.Kernel.RadixTreeMemory
import Webcamd.Kernel.Xarray

/-!
# Allocating indices of an xarray

`__xa_alloc` and `__xa_alloc_cyclic` of `kernel/linux_xarray.c` look for a free index by trying
to insert at one index after the other: as long as an insertion fails with `-EEXIST`, the next
index is tried.  Such an insertion neither allocates nor changes anything, so that only the last
one matters.

`__xa_alloc_cyclic` is to go on where the last call has stopped, at `*pnext_index`.  It sets
`*pnext_index` to zero first.

* `xaAllocLoop_eq` — the first loop inserts at the least free index from its start on.
* `xaAlloc_least` — `__xa_alloc` allocates the least free index, when there is memory for it.
* `xaAllocCyclic_right_iff` — what `__xa_alloc_cyclic` allocates is the first free index in
  cyclic order unless there are free indices before `*pnext_index` and from it on.

Each attempt comes with answers of `malloc` of its own.
-/

namespace Webcamd.Kernel

open Webcamd.Library

variable {V : Type}

/-! ### The functions -/

/-- What an allocation returns and leaves: the status, `*pindex`, and the xarray. -/
structure XaAllocated (V : Type) where
  status : RadixStatus
  pindex : BitVec 32
  xa : Xarray V

/-- The loop of `__xa_alloc`; `attempt` counts the insertions, and `fuel` bounds them. -/
def xaAllocLoop (ptr : Option V) (mask : BitVec 32) (answers : ℕ → MallocAnswers) :
    (fuel attempt : ℕ) → (pindex : BitVec 32) → Xarray V → Option (XaAllocated V)
  | 0, _, _, _ => none
  | fuel + 1, attempt, pindex, xa =>
      (radixTreeInsert xa.root (pindex.setWidth 64) ptr (answers attempt)).bind fun inserted =>
        match inserted.1 with
        | .eexist =>
            if pindex ≠ mask then
              xaAllocLoop ptr mask answers fuel (attempt + 1) (pindex + 1) ⟨inserted.2⟩
            else some ⟨.enomem, pindex, ⟨inserted.2⟩⟩
        | retval => some ⟨retval, pindex, ⟨inserted.2⟩⟩

/-- `__xa_alloc`.  It makes at most one attempt for each index. -/
def xaAlloc (xa : Xarray V) (ptr : Option V) (mask : BitVec 32)
    (answers : ℕ → MallocAnswers) : Option (XaAllocated V) :=
  xaAllocLoop ptr mask answers (2 ^ 32) 0 0 xa

/-- The loop of `__xa_alloc_cyclic`. -/
def xaAllocCyclicLoop (ptr : Option V) (mask : BitVec 32) (answers : ℕ → MallocAnswers) :
    (fuel attempt : ℕ) → (timeout : ℤ) → (pnextIndex : BitVec 32) → Xarray V →
      Option (XaAllocated V)
  | 0, _, _, _, _ => none
  | fuel + 1, attempt, timeout, pnextIndex, xa =>
      (radixTreeInsert xa.root (pnextIndex.setWidth 64) ptr (answers attempt)).bind fun inserted =>
        match inserted.1 with
        | .eexist =>
            if pnextIndex = mask ∧ timeout = 0 then
              some ⟨.enomem, pnextIndex, ⟨inserted.2⟩⟩
            else
              xaAllocCyclicLoop ptr mask answers fuel (attempt + 1)
                (if pnextIndex = mask then timeout - 1 else timeout)
                ((pnextIndex + 1) &&& mask) ⟨inserted.2⟩
        | retval => some ⟨retval, pnextIndex, ⟨inserted.2⟩⟩

/-- `__xa_alloc_cyclic`; `*pnext_index` is the same as `*pindex` afterwards.  It goes through
the indices at most twice. -/
def xaAllocCyclic (xa : Xarray V) (ptr : Option V) (mask : BitVec 32)
    (_pnextIndex : BitVec 32) (answers : ℕ → MallocAnswers) : Option (XaAllocated V) :=
  -- `*pnext_index = 0;`
  xaAllocCyclicLoop ptr mask answers (2 ^ 33) 0 1 0 xa

/-! ### One attempt -/

/-- There is nothing at the index. -/
def IndexFree (root : RadixTreeRoot V) (index : BitVec 32) : Prop :=
  radixTreeLookup root (index.setWidth 64) = some none

/-- There is memory for an insertion at the index. -/
def MemoryFor (root : RadixTreeRoot V) (index : BitVec 32) (answers : MallocAnswers) : Prop :=
  mallocsSucceed (nodesNeeded root (index.setWidth 64)) root.heap answers = true

/-- The lookups of `root'` are those of `root`, with a value at an index. -/
def BindsOnly (root root' : RadixTreeRoot V) (index : BitVec 32) (value : V) : Prop :=
  ∀ key, radixTreeLookup root' key =
    if key = index.setWidth 64 then some (some value) else radixTreeLookup root key

/-- The lookups are the same. -/
def SameLookups (root root' : RadixTreeRoot V) : Prop :=
  ∀ key, radixTreeLookup root' key = radixTreeLookup root key

section

variable {root : RadixTreeRoot V} {map : BitVec 64 → Option V} {index mask : BitVec 32}

theorem RadixMap.indexFree_iff (h : RadixMap root map) :
    IndexFree root index ↔ map (index.setWidth 64) = none := by
  rw [IndexFree, h.lookup_eq, Option.some.injEq]

theorem setWidth_lt (index : BitVec 32) : (index.setWidth 64).toNat < 2 ^ 60 := by
  have hlt := index.isLt
  rw [BitVec.toNat_setWidth]
  omega

/-- An attempt at an index in use. -/
theorem RadixMap.attempt_used (h : RadixMap root map) (hused : ¬ IndexFree root index)
    (value : V) (answers : MallocAnswers) :
    radixTreeInsert root (index.setWidth 64) (some value) answers = some (.eexist, root) :=
  h.insert_bound (mt h.indexFree_iff.mpr hused) value answers

/-- **An attempt at a free index**, which ends the loops. -/
theorem RadixMap.attempt_free (h : RadixMap root map) (hfree : IndexFree root index) (value : V)
    (answers : MallocAnswers) :
    ∃ status root', radixTreeInsert root (index.setWidth 64) (some value) answers =
        some (status, root') ∧
      ((MemoryFor root index answers ∧ status = .ok ∧ BindsOnly root root' index value) ∨
        (¬ MemoryFor root index answers ∧ status = .enomem ∧ SameLookups root root')) := by
  obtain ⟨status, root', hinsert, ⟨hmemory, hstatus, h'⟩ | ⟨hmemory, hstatus, h'⟩⟩ :=
    h.insert_free (setWidth_lt index) (h.indexFree_iff.mp hfree) value answers
  · refine ⟨status, root', hinsert, Or.inl ⟨hmemory, hstatus, fun key => ?_⟩⟩
    rw [h.lookup_eq, h'.lookup_eq, some_update]
  · refine ⟨status, root', hinsert, Or.inr ⟨by simp [MemoryFor, hmemory], hstatus, ?_⟩⟩
    intro key
    rw [h.lookup_eq, h'.lookup_eq]

/-- An attempt that ends in anything but `-EEXIST`. -/
theorem RadixMap.attempt_free_ne (h : RadixMap root map) (hfree : IndexFree root index)
    (value : V) (answers : MallocAnswers) :
    ∃ inserted, radixTreeInsert root (index.setWidth 64) (some value) answers = some inserted ∧
      inserted.1 ≠ .eexist := by
  obtain ⟨status, root', hinsert, ⟨-, rfl, -⟩ | ⟨-, rfl, -⟩⟩ := h.attempt_free hfree value answers
  · exact ⟨_, hinsert, fun heq => nomatch heq⟩
  · exact ⟨_, hinsert, fun heq => nomatch heq⟩

/-! ### Going through the indices -/

/-- The index behind one that is not the last. -/
theorem toNat_succ_of_lt {pindex : BitVec 32} (hlt : pindex < mask) :
    (pindex + 1).toNat = pindex.toNat + 1 := by
  have hmask := mask.isLt
  rw [BitVec.lt_def] at hlt
  rw [BitVec.toNat_add]
  exact Nat.mod_eq_of_lt (by simp; omega)

theorem lt_iff_succ_le_of_lt {pindex : BitVec 32} (hlt : pindex < mask) (key : BitVec 32) :
    pindex < key ↔ pindex + 1 ≤ key := by
  rw [BitVec.lt_def, BitVec.le_def, toNat_succ_of_lt hlt]
  omega

/-- A free index up to the mask. -/
def FreeUpTo (root : RadixTreeRoot V) (mask index : BitVec 32) : Prop :=
  index ≤ mask ∧ IndexFree root index

/-- What an allocation does when the next free index is this one; the attempts are counted from
index zero on. -/
def allocAt (root : RadixTreeRoot V) (value : V) (mask : BitVec 32)
    (answers : ℕ → MallocAnswers) : Option (BitVec 32) → Option (XaAllocated V)
  | none => some ⟨.enomem, mask, ⟨root⟩⟩
  | some index =>
      (radixTreeInsert root (index.setWidth 64) (some value) (answers index.toNat)).map
        fun inserted => ⟨inserted.1, index, ⟨inserted.2⟩⟩

/-- **The loop of `__xa_alloc`** inserts at the next free index. -/
theorem xaAllocLoop_eq (h : RadixMap root map) (value : V) (answers : ℕ → MallocAnswers)
    {free : Option (BitVec 32)} {fuel : ℕ} {pindex : BitVec 32} (hle : pindex ≤ mask)
    (hfuel : mask.toNat < fuel + pindex.toNat) (hnext : IsNext (FreeUpTo root mask) pindex free) :
    xaAllocLoop (some value) mask answers fuel pindex.toNat pindex ⟨root⟩ =
      allocAt root value mask answers free := by
  induction fuel generalizing pindex with
  | zero =>
      rw [BitVec.le_def] at hle
      omega
  | succ fuel ih =>
      rw [xaAllocLoop]
      by_cases hfree : IndexFree root pindex
      · obtain rfl := hnext.eq_of_here ⟨hle, hfree⟩
        obtain ⟨inserted, hinsert, hne⟩ := h.attempt_free_ne hfree value (answers pindex.toNat)
        rw [allocAt, hinsert, Option.bind_some, Option.map_some]
        split
        · rename_i heq
          exact absurd heq hne
        · rfl
      · rw [h.attempt_used hfree, Option.bind_some]
        by_cases hlast : pindex = mask
        · subst hlast
          have hnone : free = none := by
            cases free with
            | none => rfl
            | some index =>
                have heq : index = pindex :=
                  BitVec.le_antisymm hnext.2.1.1 hnext.1
                exact absurd (heq ▸ hnext.2.1.2) hfree
          rw [hnone]
          simp [allocAt]
        · have hlt : pindex < mask := BitVec.lt_of_le_ne hle hlast
          have hsucc := lt_iff_succ_le_of_lt hlt
          have hgrow := toNat_succ_of_lt hlt
          have hrest := @ih (pindex + 1) ((hsucc mask).mp hlt) (by omega)
            (hnext.tail hsucc fun hthere => hfree hthere.2)
          rw [hgrow] at hrest
          simp only [ne_eq, hlast, not_false_eq_true, if_true, hrest]

/-! ### The least free index -/

/-- The least free index up to the mask. -/
def LeastFree (root : RadixTreeRoot V) (mask index : BitVec 32) : Prop :=
  FreeUpTo root mask index ∧ ∀ other < index, ¬ IndexFree root other

theorem zero_le_index (index : BitVec 32) : 0 ≤ index :=
  BitVec.le_def.mpr (Nat.zero_le _)

/-- The search from index zero on. -/
theorem exists_next (root : RadixTreeRoot V) (mask : BitVec 32) :
    ∃ free, IsNext (FreeUpTo root mask) 0 free :=
  exists_isNext (InvImage.wf BitVec.toNat Nat.lt_wfRel.wf) _ _

theorem leastFree_of_next (hnext : IsNext (FreeUpTo root mask) 0 (some index)) :
    LeastFree root mask index := by
  obtain ⟨-, hfree, hleast⟩ := hnext
  refine ⟨hfree, fun other hlt hother => hleast other (zero_le_index other) hlt ⟨?_, hother⟩⟩
  rw [BitVec.lt_def] at hlt
  have hle := BitVec.le_def.mp hfree.1
  exact BitVec.le_def.mpr (by omega)

/-- What `__xa_alloc` promises. -/
structure AllocatesLeast (root : RadixTreeRoot V) (value : V) (mask : BitVec 32)
    (answers : ℕ → MallocAnswers) (result : XaAllocated V) : Prop where
  free : (∃ index, FreeUpTo root mask index) → ∃ least, LeastFree root mask least ∧
    (MemoryFor root least (answers least.toNat) →
      result.status = .ok ∧ result.pindex = least ∧
        BindsOnly root result.xa.root least value) ∧
    (¬ MemoryFor root least (answers least.toNat) →
      result.status = .enomem ∧ SameLookups root result.xa.root)
  full : (∀ index ≤ mask, ¬ IndexFree root index) →
    result.status = .enomem ∧ SameLookups root result.xa.root

/-- Inserting at the next free index is what `__xa_alloc` promises. -/
theorem RadixMap.allocAt_least (h : RadixMap root map) (value : V) (answers : ℕ → MallocAnswers)
    {free : Option (BitVec 32)} (hnext : IsNext (FreeUpTo root mask) 0 free) :
    ∃ result, allocAt root value mask answers free = some result ∧
      AllocatesLeast root value mask answers result := by
  cases free with
  | none =>
      refine ⟨_, rfl, ?_, fun _ => ⟨rfl, fun _ => rfl⟩⟩
      rintro ⟨index, hfree⟩
      exact absurd hfree (hnext index (zero_le_index index))
  | some index =>
      have hleast := leastFree_of_next hnext
      obtain ⟨status, root', hinsert, hends⟩ :=
        h.attempt_free hleast.1.2 value (answers index.toNat)
      refine ⟨⟨status, index, ⟨root'⟩⟩, by rw [allocAt, hinsert]; rfl, fun _ => ?_, fun hfull => ?_⟩
      · refine ⟨index, hleast, fun hmemory => ?_, fun hmemory => ?_⟩
        · rcases hends with ⟨-, hstatus, hbinds⟩ | ⟨hnot, -⟩
          · exact ⟨hstatus, rfl, hbinds⟩
          · exact absurd hmemory hnot
        · rcases hends with ⟨hyes, -⟩ | ⟨-, hstatus, hsame⟩
          · exact absurd hyes hmemory
          · exact ⟨hstatus, hsame⟩
      · exact absurd hleast.1.2 (hfull index hleast.1.1)

/-- **`__xa_alloc`.** -/
theorem RadixMap.alloc_eq (h : RadixMap root map) (value : V) (mask : BitVec 32)
    (answers : ℕ → MallocAnswers) :
    ∃ result, xaAlloc ⟨root⟩ (some value) mask answers = some result ∧
      AllocatesLeast root value mask answers result := by
  obtain ⟨free, hnext⟩ := exists_next root mask
  have hmask := mask.isLt
  have hloop := @xaAllocLoop_eq V root map mask h value answers free (2 ^ 32) 0
    (zero_le_index mask) (by simpa using hmask) hnext
  obtain ⟨result, hresult, hleast⟩ := h.allocAt_least value answers hnext
  exact ⟨result, hloop.trans hresult, hleast⟩

/-! ### The cyclic order -/

/-- The index behind another one, in cyclic order. -/
theorem wrap_of_lt {k : ℕ} (hmask : mask.toNat + 1 = 2 ^ k) (hlt : index < mask) :
    ((index + 1) &&& mask).toNat = index.toNat + 1 := by
  have hsucc := toNat_succ_of_lt hlt
  rw [BitVec.lt_def] at hlt
  have hpow : mask.toNat = 2 ^ k - 1 := by omega
  rw [BitVec.toNat_and, hsucc, hpow, Nat.and_two_pow_sub_one_eq_mod, Nat.mod_eq_of_lt (by omega)]

theorem wrap_mask {k : ℕ} (hmask : mask.toNat + 1 = 2 ^ k) : (mask + 1) &&& mask = 0 := by
  have hbound := mask.isLt
  have hpow : mask.toNat = 2 ^ k - 1 := by omega
  apply BitVec.eq_of_toNat_eq
  rw [BitVec.toNat_and, BitVec.toNat_add]
  show (mask.toNat + 1) % 2 ^ 32 &&& mask.toNat = 0
  rw [hmask]
  conv_lhs => rw [hpow]
  rw [Nat.and_two_pow_sub_one_eq_mod, Nat.mod_mod_of_dvd]
  · exact Nat.mod_self _
  · have hle : 2 ^ k ≤ 2 ^ 32 := by omega
    exact pow_dvd_pow 2 ((Nat.pow_le_pow_iff_right Nat.one_lt_two).mp hle)

/-- **The loop of `__xa_alloc_cyclic`** inserts at the next free index, if there is one before
the end. -/
theorem xaAllocCyclicLoop_free (h : RadixMap root map) (value : V) (answers : ℕ → MallocAnswers)
    {k : ℕ} (hmask : mask.toNat + 1 = 2 ^ k) {timeout : ℤ} {fuel : ℕ} {pnext : BitVec 32}
    (hfuel : index.toNat < fuel + pnext.toNat)
    (hnext : IsNext (FreeUpTo root mask) pnext (some index)) :
    xaAllocCyclicLoop (some value) mask answers fuel pnext.toNat timeout pnext ⟨root⟩ =
      allocAt root value mask answers (some index) := by
  induction fuel generalizing pnext with
  | zero =>
      have hle := BitVec.le_def.mp hnext.1
      omega
  | succ fuel ih =>
      rw [xaAllocCyclicLoop]
      by_cases hfree : IndexFree root pnext
      · have hle : pnext ≤ mask := BitVec.le_trans hnext.1 hnext.2.1.1
        obtain rfl := Option.some.inj (hnext.eq_of_here ⟨hle, hfree⟩)
        obtain ⟨inserted, hinsert, hne⟩ := h.attempt_free_ne hfree value (answers index.toNat)
        rw [allocAt, hinsert, Option.bind_some, Option.map_some]
        split
        · rename_i heq
          exact absurd heq hne
        · rfl
      · have hne : pnext ≠ index := fun heq => hfree (heq ▸ hnext.2.1.2)
        have hlt : pnext < mask :=
          Std.lt_of_lt_of_le (BitVec.lt_of_le_ne hnext.1 hne) hnext.2.1.1
        have hlast : pnext ≠ mask := fun heq => absurd (heq ▸ hlt) (BitVec.lt_irrefl mask)
        have hwrap := wrap_of_lt hmask hlt
        have hsucc : ∀ key, pnext < key ↔ (pnext + 1) &&& mask ≤ key := fun key => by
          rw [BitVec.lt_def, BitVec.le_def, hwrap]
          omega
        have hrest := @ih ((pnext + 1) &&& mask) (by omega)
          (hnext.tail hsucc fun hthere => hfree hthere.2)
        rw [hwrap] at hrest
        rw [h.attempt_used hfree, Option.bind_some]
        simp only [hlast, false_and, if_false]
        exact hrest

/-- With all indices in use the loop comes to the last one twice. -/
theorem xaAllocCyclicLoop_full (h : RadixMap root map) (value : V) (answers : ℕ → MallocAnswers)
    {k : ℕ} (hmask : mask.toNat + 1 = 2 ^ k) (hfull : ∀ index ≤ mask, ¬ IndexFree root index)
    {timeout fuel attempt : ℕ} {pnext : BitVec 32} (hle : pnext ≤ mask)
    (hfuel : mask.toNat + timeout * (mask.toNat + 1) < fuel + pnext.toNat) :
    xaAllocCyclicLoop (some value) mask answers fuel attempt timeout pnext ⟨root⟩ =
      some ⟨.enomem, mask, ⟨root⟩⟩ := by
  induction fuel generalizing timeout attempt pnext with
  | zero =>
      rw [BitVec.le_def] at hle
      omega
  | succ fuel ih =>
      rw [xaAllocCyclicLoop, h.attempt_used (hfull pnext hle), Option.bind_some]
      by_cases hlast : pnext = mask
      · subst hlast
        cases timeout with
        | zero => simp
        | succ timeout =>
            rw [Nat.succ_mul] at hfuel
            have hrest := @ih timeout (attempt + 1) ((pnext + 1) &&& pnext)
              (by rw [wrap_mask hmask]; exact zero_le_index pnext)
              (by rw [wrap_mask hmask]; simp; omega)
            have hcount : ((timeout + 1 : ℕ) : ℤ) - 1 = timeout := by simp
            have hmore : ((timeout + 1 : ℕ) : ℤ) ≠ 0 := by omega
            simp only [hmore, and_false, if_false, if_true, hcount, hrest]
      · have hlt : pnext < mask := BitVec.lt_of_le_ne hle hlast
        have hwrap := wrap_of_lt hmask hlt
        have hrest := @ih timeout (attempt + 1) ((pnext + 1) &&& mask)
          (by rw [BitVec.le_def, hwrap]; exact BitVec.lt_def.mp hlt) (by omega)
        simp only [hlast, false_and, if_false, hrest]

/-- **`__xa_alloc_cyclic` allocates the least free index**, wherever it is to begin. -/
theorem RadixMap.allocCyclic_eq (h : RadixMap root map) (value : V) {k : ℕ}
    (hmask : mask.toNat + 1 = 2 ^ k) (next : BitVec 32) (answers : ℕ → MallocAnswers) :
    ∃ result, xaAllocCyclic ⟨root⟩ (some value) mask next answers = some result ∧
      AllocatesLeast root value mask answers result := by
  obtain ⟨free, hnext⟩ := exists_next root mask
  obtain ⟨result, hresult, hleast⟩ := h.allocAt_least value answers hnext
  refine ⟨result, ?_, hleast⟩
  rw [← hresult]
  have hbound := mask.isLt
  cases free with
  | none =>
      have hfull : ∀ index ≤ mask, ¬ IndexFree root index := fun index hle hfree =>
        hnext index (zero_le_index index) ⟨hle, hfree⟩
      exact @xaAllocCyclicLoop_full V root map mask h value answers k hmask hfull 1 (2 ^ 33) 0 0
        (zero_le_index mask) (by simp; omega)
  | some index =>
      have hindex := index.isLt
      exact @xaAllocCyclicLoop_free V root map index mask h value answers k hmask 1 (2 ^ 33) 0
        (by simp; omega) hnext

/-- How many indices come before this one in the order `next`, `next + 1`, …, `mask`, `0`, …,
`next - 1`. -/
def cyclicRank (next mask index : BitVec 32) : ℕ :=
  if next ≤ index then index.toNat - next.toNat
  else index.toNat + (mask.toNat + 1) - next.toNat

/-- The first free index in cyclic order. -/
def FirstCyclic (root : RadixTreeRoot V) (mask next index : BitVec 32) : Prop :=
  FreeUpTo root mask index ∧
    ∀ other, FreeUpTo root mask other → cyclicRank next mask index ≤ cyclicRank next mask other

/-- What `__xa_alloc_cyclic` is to do when there is memory. -/
structure AllocatesCyclic (root : RadixTreeRoot V) (value : V) (mask next : BitVec 32)
    (result : XaAllocated V) : Prop where
  first : ∀ index, FirstCyclic root mask next index →
    result.status = .ok ∧ result.pindex = index ∧ BindsOnly root result.xa.root index value
  full_iff : result.status = .enomem ↔ ∀ index ≤ mask, ¬ IndexFree root index

/-- The first free index in cyclic order is the least one, unless there are free indices on
both sides of where the order begins. -/
theorem firstCyclic_eq_least {next first least : BitVec 32} (hnext : next ≤ mask)
    (hfirst : FirstCyclic root mask next first) (hleast : LeastFree root mask least)
    (hside : ¬ ((∃ index, FreeUpTo root mask index ∧ index < next) ∧
      ∃ index, FreeUpTo root mask index ∧ next ≤ index)) : first = least := by
  have hle : least.toNat ≤ first.toNat := by
    by_contra hlt
    exact hleast.2 first (BitVec.lt_def.mpr (by omega)) hfirst.1.2
  have hrank := hfirst.2 least hleast.1
  have hsame : next ≤ first ↔ next ≤ least := by
    constructor
    · intro hafter
      by_contra hbefore
      exact hside ⟨⟨least, hleast.1, BitVec.not_le.mp hbefore⟩, first, hfirst.1, hafter⟩
    · intro hafter
      by_contra hbefore
      exact hside ⟨⟨first, hfirst.1, BitVec.not_le.mp hbefore⟩, least, hleast.1, hafter⟩
  rw [BitVec.le_def] at hnext
  apply BitVec.eq_of_toNat_eq
  unfold cyclicRank at hrank
  by_cases hafter : next ≤ first
  · have hother := BitVec.le_def.mp (hsame.mp hafter)
    rw [if_pos hafter, if_pos (hsame.mp hafter)] at hrank
    omega
  · rw [if_neg hafter, if_neg (mt hsame.mpr hafter)] at hrank
    omega

/-- With free indices on both sides it is not the least one. -/
theorem firstCyclic_ne_least {next first least : BitVec 32} (hnext : next ≤ mask)
    (hfirst : FirstCyclic root mask next first) (hleast : LeastFree root mask least)
    {before after : BitVec 32} (hbefore : FreeUpTo root mask before) (hlt : before < next)
    (hafter : FreeUpTo root mask after) (hge : next ≤ after) : first ≠ least := by
  have hrank := hfirst.2 after hafter
  have hle : least.toNat ≤ before.toNat := by
    by_contra hgt
    exact hleast.2 before (BitVec.lt_def.mpr (by omega)) hbefore.2
  have hmask := BitVec.le_def.mp hafter.1
  rw [BitVec.le_def] at hnext
  rw [BitVec.lt_def] at hlt
  rw [cyclicRank, cyclicRank, if_pos hge] at hrank
  rintro rfl
  by_cases hfirstAfter : next ≤ first
  · rw [BitVec.le_def] at hfirstAfter
    omega
  · rw [if_neg hfirstAfter] at hrank
    rw [BitVec.le_def] at hge
    omega

theorem exists_firstCyclic (next : BitVec 32) (hfree : ∃ index, FreeUpTo root mask index) :
    ∃ first, FirstCyclic root mask next first := by
  obtain ⟨first, hfirst, hleast⟩ :=
    (measure (cyclicRank next mask)).wf.has_min {index | FreeUpTo root mask index} hfree
  exact ⟨first, hfirst, fun other hother => not_lt.mp (hleast other hother)⟩

/-- There is memory for an insertion at every free index. -/
def MemoryAvailable (root : RadixTreeRoot V) (mask : BitVec 32) (answers : ℕ → MallocAnswers) :
    Prop :=
  ∀ index, FreeUpTo root mask index → MemoryFor root index (answers index.toNat)

/-- **What `__xa_alloc_cyclic` does is what it is to do exactly when not both sides of
`*pnext_index` have a free index.** -/
theorem RadixMap.allocCyclic_right_iff (h : RadixMap root map) (value : V) {k : ℕ}
    (hmask : mask.toNat + 1 = 2 ^ k) {next : BitVec 32} (hnext : next ≤ mask)
    {answers : ℕ → MallocAnswers} (hmemory : MemoryAvailable root mask answers) :
    ∃ result, xaAllocCyclic ⟨root⟩ (some value) mask next answers = some result ∧
      (AllocatesCyclic root value mask next result ↔
        ¬ ((∃ index, FreeUpTo root mask index ∧ index < next) ∧
          ∃ index, FreeUpTo root mask index ∧ next ≤ index)) := by
  obtain ⟨result, hresult, hallocates⟩ := h.allocCyclic_eq value hmask next answers
  refine ⟨result, hresult, ?_⟩
  by_cases hfree : ∃ index, FreeUpTo root mask index
  · obtain ⟨least, hleast, hright, -⟩ := hallocates.free hfree
    obtain ⟨hstatus, hpindex, hbinds⟩ := hright (hmemory least hleast.1)
    constructor
    · rintro hcyclic ⟨⟨before, hbefore, hlt⟩, after, hafter, hge⟩
      obtain ⟨first, hfirst⟩ := exists_firstCyclic next hfree
      refine firstCyclic_ne_least hnext hfirst hleast hbefore hlt hafter hge ?_
      rw [← (hcyclic.first first hfirst).2.1, hpindex]
    · intro hside
      refine ⟨fun first hfirst => ?_, ?_⟩
      · obtain rfl := firstCyclic_eq_least hnext hfirst hleast hside
        exact ⟨hstatus, hpindex, hbinds⟩
      · rw [hstatus]
        exact iff_of_false (fun heq => nomatch heq) fun hfull => hfull least hleast.1.1 hleast.1.2
  · have hfull : ∀ index ≤ mask, ¬ IndexFree root index := fun index hle hindex =>
      hfree ⟨index, hle, hindex⟩
    refine ⟨?_, fun _ => ⟨fun first hfirst => absurd ⟨first, hfirst.1⟩ hfree, ?_⟩⟩
    · rintro - ⟨⟨before, hbefore, -⟩, -⟩
      exact hfree ⟨before, hbefore⟩
    · exact iff_of_true (hallocates.full hfull).1 hfull

end

/-! ### Sequences of calls -/

/-- **`__xa_alloc` allocates the least free index.**  Whatever calls have been made on the tree
of the xarray, for every mask and whatever `malloc` answers: the loop ends; if an index up to the
mask is free, the least one is bound to the pointer and nothing else changes, provided that
there is memory for the nodes this takes; otherwise the result is `-ENOMEM`, and all lookups are
as before. -/
theorem xaAlloc_least {calls : List (RadixCall V)} {root : RadixTreeRoot V}
    {rets : List (RadixReturn V)} (hrun : (radixMachine V).run .init calls = some (root, rets))
    (value : V) (mask : BitVec 32) (answers : ℕ → MallocAnswers) :
    ∃ result, xaAlloc ⟨root⟩ (some value) mask answers = some result ∧
      AllocatesLeast root value mask answers result := by
  obtain ⟨map, h⟩ := radixMap_of_run hrun
  exact h.alloc_eq value mask answers

/-- An xarray with an entry at index zero. -/
def insertFirst : List (RadixCall ℕ) := [.insert 0 (some 1) [some 10]]

theorem xaAlloc_least_second : ∃ root rets,
    (radixMachine ℕ).run .init insertFirst = some (root, rets) ∧
      ∃ result, xaAlloc ⟨root⟩ (some 7) 3 (fun _ => []) = some result ∧
        AllocatesLeast root 7 3 (fun _ => []) result := by
  have hindex : ∀ call ∈ insertFirst, call.index.toNat < 2 ^ 60 := by
    intro call hmem
    obtain rfl := List.mem_singleton.mp hmem
    decide
  obtain ⟨root, rets, -, hrun, -⟩ := radixMap_run insertFirst hindex
  exact ⟨root, rets, hrun, xaAlloc_least hrun 7 3 fun _ => []⟩

/-- **`__xa_alloc_cyclic` and the cyclic order.**  Whatever calls have been made on the tree of
the xarray, for a mask that is a power of two minus one, and where there is memory: the loop
ends, and it allocates the first free index in the cyclic order that begins at `*pnext_index`
exactly when not both an index before `*pnext_index` and one from it on are free. -/
theorem xaAllocCyclic_right_iff {calls : List (RadixCall V)} {root : RadixTreeRoot V}
    {rets : List (RadixReturn V)} (hrun : (radixMachine V).run .init calls = some (root, rets))
    (value : V) {mask : BitVec 32} {k : ℕ} (hmask : mask.toNat + 1 = 2 ^ k) {next : BitVec 32}
    (hnext : next ≤ mask) {answers : ℕ → MallocAnswers}
    (hmemory : MemoryAvailable root mask answers) :
    ∃ result, xaAllocCyclic ⟨root⟩ (some value) mask next answers = some result ∧
      (AllocatesCyclic root value mask next result ↔
        ¬ ((∃ index, FreeUpTo root mask index ∧ index < next) ∧
          ∃ index, FreeUpTo root mask index ∧ next ≤ index)) := by
  obtain ⟨map, h⟩ := radixMap_of_run hrun
  exact h.allocCyclic_right_iff value hmask hnext hmemory

/-- In an empty xarray one node is enough for a small index. -/
theorem memoryAvailable_init :
    MemoryAvailable (.init : RadixTreeRoot ℕ) 3 fun _ => [some 10] := by
  rintro index ⟨hle, -⟩
  have hsmall : (index.setWidth 64).toNat < 64 := by
    have hbound : index.toNat ≤ 3 := BitVec.le_def.mp hle
    rw [BitVec.toNat_setWidth]
    omega
  have hlevels : levelsFor (index.setWidth 64) = 1 := by
    rw [levelsFor, Nat.log_of_lt hsmall]
  show mallocsSucceed (levelsFor (index.setWidth 64)) _ _ = true
  rw [hlevels]
  rfl

/-- An xarray with entries at the indices zero and one. -/
def insertTwo : List (RadixCall ℕ) := [.insert 0 (some 1) [some 10], .insert 1 (some 2) []]

/-- Both indices that are left are from the next one on, and there is room for them in the node. -/
theorem xaAllocCyclic_right_iff_third : ∃ root rets,
    (radixMachine ℕ).run .init insertTwo = some (root, rets) ∧
      ∃ result, xaAllocCyclic ⟨root⟩ (some 7) 3 2 (fun _ => []) = some result ∧
        AllocatesCyclic root 7 3 2 result := by
  have hindex : ∀ call ∈ insertTwo, call.index.toNat < 2 ^ 60 := by decide
  obtain ⟨root, rets, -, hrun, -⟩ := radixMap_run insertTwo hindex
  have hfound : ((radixMachine ℕ).run .init insertTwo).map (fun ended =>
      (radixTreeLookup ended.1 0, radixTreeLookup ended.1 1,
        nodesNeeded ended.1 2, nodesNeeded ended.1 3)) =
      some (some (some 1), some (some 2), 0, 0) := by
    decide +kernel
  rw [hrun] at hfound
  obtain ⟨hzero, hone, htwo, hthree⟩ :
      radixTreeLookup root 0 = some (some 1) ∧ radixTreeLookup root 1 = some (some 2) ∧
        nodesNeeded root 2 = 0 ∧ nodesNeeded root 3 = 0 := by
    simpa using hfound
  have hfree : ∀ index, FreeUpTo root 3 index → index = 2 ∨ index = 3 := by
    rintro index ⟨hle, hindexFree⟩
    have hcases : index = 0 ∨ index = 1 ∨ index = 2 ∨ index = 3 := by bv_omega
    obtain rfl | rfl | hlast := hcases
    · cases hzero.symm.trans hindexFree
    · cases hone.symm.trans hindexFree
    · exact hlast
  have hmemory : MemoryAvailable root 3 fun _ => [] := by
    intro index hindexFree
    unfold MemoryFor
    obtain rfl | rfl := hfree index hindexFree
    · exact (congrArg (fun count => mallocsSucceed count root.heap []) htwo).trans rfl
    · exact (congrArg (fun count => mallocsSucceed count root.heap []) hthree).trans rfl
  obtain ⟨result, hresult, hright⟩ :=
    @xaAllocCyclic_right_iff ℕ insertTwo root rets hrun 7 3 2 rfl 2 (by decide) _ hmemory
  refine ⟨root, rets, hrun, result, hresult, hright.mpr ?_⟩
  rintro ⟨⟨index, hindexFree, hlt⟩, -⟩
  obtain rfl | rfl := hfree index hindexFree
  · exact absurd hlt (by decide)
  · exact absurd hlt (by decide)

/-- All four indices are free, the next one is to be two, and the allocation returns zero. -/
theorem xaAllocCyclic_restarts :
    MemoryAvailable (.init : RadixTreeRoot ℕ) 3 (fun _ => [some 10]) ∧
    ∃ result, xaAllocCyclic (⟨.init⟩ : Xarray ℕ) (some 7) 3 2 (fun _ => [some 10]) =
        some result ∧
      result.status = .ok ∧ result.pindex = 0 ∧ ¬ AllocatesCyclic .init 7 3 2 result := by
  have hnext : (2 : BitVec 32) ≤ 3 := by decide
  obtain ⟨result, hresult, hiff⟩ :=
    RadixMap.init.allocCyclic_right_iff 7 (k := 2) rfl hnext memoryAvailable_init
  have hends : (xaAllocCyclic (⟨.init⟩ : Xarray ℕ) (some 7) 3 2 (fun _ => [some 10])).map
      (fun result => (result.status, result.pindex)) = some (.ok, 0) := by
    decide +kernel
  rw [hresult] at hends
  obtain ⟨hstatus, hpindex⟩ := Prod.mk.inj (Option.some.inj hends)
  refine ⟨memoryAvailable_init, result, hresult, hstatus, hpindex, ?_⟩
  rw [hiff, not_not]
  have hfree : ∀ index ≤ (3 : BitVec 32), FreeUpTo (.init : RadixTreeRoot ℕ) 3 index :=
    fun index hle => ⟨hle, RadixMap.init.indexFree_iff.mpr rfl⟩
  exact ⟨⟨0, hfree 0 (by decide), by decide⟩, 2, hfree 2 (by decide), by decide⟩

end Webcamd.Kernel
