import Webcamd.Library.CheckedBuffer
import Webcamd.Library.HeapSort

/-!
# Sorting

A model of `sort` of `kernel/linux_func.c`, with `u32_swap` and `generic_swap`: a heap sort of
`num` elements of `size` bytes.  All places are numbers of bytes, which the source keeps in
variables of type `int` and compares as `size_t`; an overflow of `r * 2` and an access outside of
the array are failures.

* `siftLoop`, `heapifyLoop`, `sortLoop` — the loops; they have fuel.
* `Holds` — the elements of an array of bytes, and `Holds.swap`, in which two change places.
* `siftLoop_eq`, `heapifyLoop_eq`, `sortLoop_eq` — the loops do to the bytes what those of
  `HeapSort.lean` do to the elements.
* `sort_sorts` — **the array is sorted**, if the comparison is one, and in any case it has the
  elements that it had.
-/

namespace Webcamd.Kernel.Sort

open Webcamd.Library CheckedBuffer

abbrev Byte := BitVec 8

/-! ### The model -/

/-- `(int)` of a `size_t` -/
def toInt (x : BitVec 64) : ℤ := (x.setWidth 32).toInt

/-- `(size_t)` of an `int` -/
def toSize (x : ℤ) : BitVec 64 := BitVec.ofInt 64 x

/-- The result of an operation on `int`, if it is one. -/
def checked (x : ℤ) : Option ℤ := if -2 ^ 31 ≤ x ∧ x < 2 ^ 31 then some x else none

/-- Some bytes, if they are in the array. -/
def loadBlock (buffer : List Byte) (place : ℤ) (size : ℕ) : Option (List Byte) :=
  if 0 ≤ place ∧ place + size ≤ buffer.length then some ((buffer.drop place.toNat).take size)
  else none

/-- Some bytes are written, if they are in the array. -/
def storeBlock (buffer : List Byte) (place : ℤ) (block : List Byte) : Option (List Byte) :=
  if 0 ≤ place ∧ place + block.length ≤ buffer.length then
    some (buffer.take place.toNat ++ block ++ buffer.drop (place.toNat + block.length))
  else none

/-- `swap_fn`: an array, two places and a size -/
abbrev Swap := List Byte → ℤ → ℤ → ℤ → Option (List Byte)

/-- `u32_swap` -/
def u32Swap : Swap := fun buffer a b _ =>
  (loadBlock buffer a 4).bind fun t => (loadBlock buffer b 4).bind fun u =>
    (storeBlock buffer a u).bind fun buffer => storeBlock buffer b t

/-- The loop of `generic_swap`, so many times. -/
def swapLoop : ℕ → ℤ → ℤ → List Byte → Option (List Byte)
  | 0, _, _, buffer => some buffer
  | size + 1, a, b, buffer =>
      (load buffer a).bind fun t => (load buffer b).bind fun u =>
        (store buffer a u).bind fun buffer => (store buffer b t).bind fun buffer =>
          swapLoop size (a + 1) (b + 1) buffer

/-- `generic_swap`; the test comes at the end of the loop. -/
def genericSwap : Swap := fun buffer a b size => swapLoop (max 1 size.toNat) a b buffer

section Loops

variable (cmp : List Byte → List Byte → ℤ) (swapFn : Swap) (size : BitVec 64)

/-- `cmp(base + a, base + b)` -/
def compareAt (buffer : List Byte) (a b : ℤ) : Option ℤ :=
  (loadBlock buffer a size.toNat).bind fun x => (loadBlock buffer b size.toNat).map (cmp x)

/-- `c`, where `twice` is `r * 2` -/
def childAt (limit twice : ℤ) (buffer : List Byte) : Option ℤ :=
  let c := toInt (toSize twice + size)
  if toSize c < toSize limit - size then
    (compareAt cmp size buffer c (c + size.toNat)).map fun order =>
      if order < 0 then toInt (toSize c + size) else c
  else some c

/-- Both inner loops. -/
def siftLoop (limit : ℤ) : ℕ → ℤ → List Byte → Option (List Byte)
  | 0, _, _ => none
  | fuel + 1, r, buffer =>
      (checked (r * 2)).bind fun twice =>
        if toSize twice + size < toSize limit then
          (childAt cmp size limit twice buffer).bind fun c =>
            (compareAt cmp size buffer r c).bind fun order =>
              if 0 ≤ order then some buffer
              else (swapFn buffer r c (toInt size)).bind (siftLoop limit fuel c)
        else some buffer

/-- The loop under `heapify`. -/
def heapifyLoop (n : ℤ) (fuel : ℕ) : ℕ → ℤ → List Byte → Option (List Byte)
  | 0, _, _ => none
  | steps + 1, i, buffer =>
      if 0 ≤ i then
        (siftLoop cmp swapFn size n fuel i buffer).bind
          (heapifyLoop n fuel steps (toInt (toSize i - size)))
      else some buffer

/-- The loop under `sort`. -/
def sortLoop (fuel : ℕ) : ℕ → ℤ → List Byte → Option (List Byte)
  | 0, _, _ => none
  | steps + 1, i, buffer =>
      if 0 < i then
        (swapFn buffer 0 i (toInt size)).bind fun buffer =>
          (siftLoop cmp swapFn size i fuel 0 buffer).bind
            (sortLoop fuel steps (toInt (toSize i - size)))
      else some buffer

/-- **`sort`** -/
def sort (fuel : ℕ) (base : List Byte) (num : BitVec 64) (swapFn : Option Swap) :
    Option (List Byte) :=
  let swapFn := swapFn.getD (if size = 4 then u32Swap else genericSwap)
  let n := toInt (num * size)
  (heapifyLoop cmp swapFn size n fuel fuel (toInt ((num / 2 - 1) * size)) base).bind
    (sortLoop cmp swapFn size fuel fuel (toInt (toSize n - size)))

end Loops

/-! ### Numbers -/

theorem toSize_natCast (k : ℕ) : toSize k = BitVec.ofNat 64 k := by
  unfold toSize
  exact BitVec.ofInt_natCast 64 k

theorem toInt_ofNat {k : ℕ} (hk : k < 2 ^ 31) : toInt (BitVec.ofNat 64 k) = k := by
  unfold toInt
  rw [BitVec.toInt_eq_toNat_of_lt]
  · simp
    omega
  · simp
    omega

theorem checked_of_lt {k : ℕ} (hk : k < 2 ^ 31) : checked k = some (k : ℤ) := by
  unfold checked
  rw [if_pos (by omega)]

/-! ### Exchanging two elements -/

/-- A function that exchanges the bytes of two elements that do not overlap. -/
def Swaps (size : ℕ) (swapFn : Swap) : Prop :=
  ∀ pre x mid y post : List Byte, x.length = size → y.length = size →
    swapFn (pre ++ x ++ mid ++ y ++ post) pre.length (pre ++ x ++ mid).length size =
      some (pre ++ y ++ mid ++ x ++ post)

theorem loadBlock_append (pre post : List Byte) {block : List Byte} {size : ℕ}
    (hblock : block.length = size) :
    loadBlock (pre ++ block ++ post) pre.length size = some block := by
  unfold loadBlock
  rw [if_pos (by simp; omega), Int.toNat_natCast, List.append_assoc, List.drop_left, ← hblock,
    List.take_left]

theorem storeBlock_append (pre post : List Byte) {block block' : List Byte}
    (hblock : block'.length = block.length) :
    storeBlock (pre ++ block ++ post) pre.length block' = some (pre ++ block' ++ post) := by
  have htake : (pre ++ block ++ post).take pre.length = pre := by
    rw [List.append_assoc, List.take_left]
  have hdrop : (pre ++ block ++ post).drop (pre.length + block.length) = post := by
    rw [List.append_assoc, ← List.drop_drop, List.drop_left, List.drop_left]
  unfold storeBlock
  rw [if_pos (by simp; omega), Int.toNat_natCast, hblock, htake, hdrop]

theorem u32Swap_swaps : Swaps 4 u32Swap := by
  intro pre x mid y post hx hy
  have hloadx := loadBlock_append pre (mid ++ y ++ post) hx
  have hloady := loadBlock_append (pre ++ x ++ mid) post hy
  have hstorey := storeBlock_append pre (mid ++ y ++ post) (hy.trans hx.symm)
  have hstorex := storeBlock_append (pre ++ y ++ mid) post (hx.trans hy.symm)
  have hlength : (pre ++ x ++ mid).length = (pre ++ y ++ mid).length := by simp [hx, hy]
  unfold u32Swap
  simp only [List.append_assoc] at *
  rw [hloadx, Option.bind_some, hloady, Option.bind_some, hstorey, Option.bind_some, hlength,
    hstorex]

theorem swapLoop_eq (x y pre mid post : List Byte) (hlength : x.length = y.length) :
    swapLoop x.length pre.length (pre ++ x ++ mid).length (pre ++ x ++ mid ++ y ++ post) =
      some (pre ++ y ++ mid ++ x ++ post) := by
  induction x generalizing y pre mid with
  | nil =>
      rw [List.length_nil, eq_comm, List.length_eq_zero_iff] at hlength
      rw [hlength]
      rfl
  | cons byte x ih =>
      obtain ⟨byte', y, rfl⟩ := List.exists_cons_of_length_eq_add_one hlength.symm
      have hfirst : pre ++ byte :: x ++ mid ++ byte' :: y ++ post =
          pre ++ byte :: (x ++ mid ++ byte' :: y ++ post) := by simp
      have hsecond : pre ++ byte :: x ++ mid ++ byte' :: y ++ post =
          (pre ++ byte :: x ++ mid) ++ byte' :: (y ++ post) := by simp
      have hbetween : pre ++ byte' :: (x ++ mid ++ byte' :: y ++ post) =
          (pre ++ byte' :: x ++ mid) ++ byte' :: (y ++ post) := by simp
      have hsame : (pre ++ byte :: x ++ mid).length = (pre ++ byte' :: x ++ mid).length := by simp
      have hloadx := load_append pre byte (x ++ mid ++ byte' :: y ++ post)
      have hloady := load_append (pre ++ byte :: x ++ mid) byte' (y ++ post)
      have hstorey := store_append pre byte (x ++ mid ++ byte' :: y ++ post) byte'
      have hstorex := store_append (pre ++ byte' :: x ++ mid) byte' (y ++ post) byte
      rw [← hfirst] at hloadx hstorey
      rw [← hsecond] at hloady
      rw [← hbetween, ← hsame] at hstorex
      rw [List.length_cons, swapLoop, hloadx, Option.bind_some, hloady, Option.bind_some, hstorey,
        Option.bind_some, hstorex, Option.bind_some]
      have hnext := ih y (pre ++ [byte']) (mid ++ [byte]) (Nat.succ_injective hlength)
      have hplace : ((pre ++ [byte']).length : ℤ) = pre.length + 1 := by simp
      have hplace' : ((pre ++ [byte'] ++ x ++ (mid ++ [byte])).length : ℤ) =
          (pre ++ byte :: x ++ mid).length + 1 := by
        simp
        omega
      rw [hplace, hplace'] at hnext
      simpa using hnext

theorem genericSwap_swaps {size : ℕ} (hsize : 0 < size) : Swaps size genericSwap := by
  intro pre x mid y post hx hy
  unfold genericSwap
  rw [Int.toNat_natCast, Nat.max_eq_right hsize, ← hx]
  exact swapLoop_eq x y pre mid post (hx.trans hy.symm)

/-! ### The elements of an array -/

/-- Some elements, one after the other. -/
def blocks (a : ℕ → List Byte) (first count : ℕ) : List Byte :=
  (List.range' first count).flatMap a

theorem blocks_add (a : ℕ → List Byte) (first m n : ℕ) :
    blocks a first (m + n) = blocks a first m ++ blocks a (first + m) n := by
  unfold blocks
  rw [← List.flatMap_append, List.range'_append_1]

theorem blocks_split (a : ℕ → List Byte) (first m n : ℕ) :
    blocks a first (m + 1 + n) =
      blocks a first m ++ a (first + m) ++ blocks a (first + m + 1) n := by
  have hone : blocks a (first + m) 1 = a (first + m) := by simp [blocks]
  rw [blocks_add, blocks_add, hone]
  rfl

theorem length_blocks {a : ℕ → List Byte} {size first count : ℕ}
    (h : ∀ k, first ≤ k → k < first + count → (a k).length = size) :
    (blocks a first count).length = count * size := by
  induction count with
  | zero => simp [blocks]
  | succ count ih =>
      have hlast := h (first + count) (Nat.le_add_right _ _) (by omega)
      have hsplit := blocks_split a first count 0
      rw [Nat.add_zero] at hsplit
      rw [hsplit, List.length_append, List.length_append,
        ih fun k hk hk' => h k hk (by omega), hlast]
      simp [blocks, Nat.succ_mul]

theorem blocks_congr {a b : ℕ → List Byte} (first count : ℕ)
    (h : ∀ k, first ≤ k → k < first + count → a k = b k) :
    blocks a first count = blocks b first count := by
  unfold blocks
  rw [List.flatMap_def, List.flatMap_def, List.map_congr_left]
  intro k hk
  rw [List.mem_range'_1] at hk
  exact h k hk.1 hk.2

/-- An array of bytes has these elements. -/
structure Holds (size num : ℕ) (a : ℕ → List Byte) (buffer : List Byte) : Prop where
  eq : buffer = blocks a 0 num
  length : ∀ k < num, (a k).length = size

theorem Holds.load {size num k : ℕ} {a : ℕ → List Byte} {buffer : List Byte}
    (h : Holds size num a buffer) (hk : k < num) :
    loadBlock buffer (k * size : ℕ) size = some (a k) := by
  obtain ⟨rest, rfl⟩ := Nat.exists_eq_add_of_le (Nat.succ_le_of_lt hk)
  have hlength : (blocks a 0 k).length = k * size :=
    length_blocks fun j _ hj => h.length j (by omega)
  rw [h.eq, blocks_split, ← hlength, Nat.zero_add]
  exact loadBlock_append _ _ (h.length k hk)

theorem blocks_split_twice (a : ℕ → List Byte) (i m n : ℕ) :
    blocks a 0 (i + 1 + m + 1 + n) =
      blocks a 0 i ++ a i ++ blocks a (i + 1) m ++ a (i + 1 + m) ++ blocks a (i + 1 + m + 1) n := by
  rw [blocks_split, blocks_split, Nat.zero_add, Nat.zero_add]

/-- Two elements change places. -/
theorem Holds.swap {size num i j : ℕ} {a : ℕ → List Byte} {buffer : List Byte} {swapFn : Swap}
    (h : Holds size num a buffer) (hswap : Swaps size swapFn) (hij : i < j) (hj : j < num) :
    ∃ after, swapFn buffer (i * size : ℕ) (j * size : ℕ) size = some after ∧
      Holds size num (a ∘ Equiv.swap i j) after := by
  obtain ⟨m, rfl⟩ := Nat.exists_eq_add_of_le (Nat.succ_le_of_lt hij)
  obtain ⟨n, rfl⟩ := Nat.exists_eq_add_of_le (Nat.succ_le_of_lt hj)
  have hpre : (blocks a 0 i).length = i * size :=
    length_blocks fun k _ hk => h.length k (by omega)
  have hmid : (blocks a (i + 1) m).length = m * size :=
    length_blocks fun k _ hk => h.length k (by omega)
  have hx := h.length i (by omega)
  have hy := h.length (i + 1 + m) (by omega)
  have hplace : (blocks a 0 i ++ a i ++ blocks a (i + 1) m).length = (i + 1 + m) * size := by
    rw [List.length_append, List.length_append, hpre, hmid, hx]
    ring
  have hdone := hswap (blocks a 0 i) (a i) (blocks a (i + 1) m) (a (i + 1 + m))
    (blocks a (i + 1 + m + 1) n) hx hy
  rw [hplace, hpre, ← blocks_split_twice, ← h.eq] at hdone
  have hother : ∀ k, k ≠ i → k ≠ i + 1 + m → (a ∘ Equiv.swap i (i + 1 + m)) k = a k :=
    fun k hki hkj => by rw [Function.comp_apply, Equiv.swap_apply_of_ne_of_ne hki hkj]
  have hleft : (a ∘ Equiv.swap i (i + 1 + m)) i = a (i + 1 + m) := by
    rw [Function.comp_apply, Equiv.swap_apply_left]
  have hright : (a ∘ Equiv.swap i (i + 1 + m)) (i + 1 + m) = a i := by
    rw [Function.comp_apply, Equiv.swap_apply_right]
  refine ⟨_, hdone, ?_, fun k hk => ?_⟩
  · rw [blocks_split_twice, hleft, hright,
      blocks_congr 0 i fun k _ hk => hother k (by omega) (by omega),
      blocks_congr (i + 1) m fun k hk hk' => hother k (by omega) (by omega),
      blocks_congr (i + 1 + m + 1) n fun k hk _ => hother k (by omega) (by omega)]
  · by_cases hki : k = i
    · rw [hki, hleft, hy]
    · by_cases hkj : k = i + 1 + m
      · rw [hkj, hright, hx]
      · rw [hother k hki hkj, h.length k hk]

/-! ### Places -/

section Places

variable {size : BitVec 64}

theorem toInt_eq (hsize : size.toNat < 2 ^ 31) : toInt size = size.toNat := by
  have h := toInt_ofNat hsize
  rwa [BitVec.ofNat_toNat, BitVec.setWidth_eq] at h

theorem toSize_add (size : BitVec 64) (k : ℕ) : toSize k + size = toSize (k + size.toNat : ℕ) := by
  rw [toSize_natCast, toSize_natCast, BitVec.ofNat_add, BitVec.ofNat_toNat, BitVec.setWidth_eq]

theorem toSize_sub {k : ℕ} (hk : size.toNat ≤ k) :
    toSize k - size = toSize (k - size.toNat : ℕ) := by
  have h := toSize_add size (k - size.toNat)
  rw [Nat.sub_add_cancel hk] at h
  rw [← h]
  exact BitVec.add_sub_cancel _ _

theorem toSize_lt_toSize {k l : ℕ} (hk : k < 2 ^ 64) (hl : l < 2 ^ 64) :
    toSize k < toSize l ↔ k < l := by
  rw [toSize_natCast, toSize_natCast, BitVec.lt_def, BitVec.toNat_ofNat, BitVec.toNat_ofNat,
    Nat.mod_eq_of_lt hk, Nat.mod_eq_of_lt hl]

theorem toInt_toSize {k : ℕ} (hk : k < 2 ^ 31) : toInt (toSize k) = k := by
  rw [toSize_natCast, toInt_ofNat hk]

theorem toInt_neg (hsize : 0 < size.toNat) (hsize' : size.toNat < 2 ^ 31) :
    toInt (toSize (0 : ℕ) - size) = -size.toNat := by
  unfold toInt
  rw [toSize_natCast, BitVec.toInt_eq_toNat_cond]
  simp only [BitVec.toNat_setWidth, BitVec.toNat_sub, BitVec.toNat_ofNat]
  split
  · omega
  · omega

/-- One element further down. -/
theorem toInt_back (hsize : 0 < size.toNat) {r : ℕ} (hr : r * size.toNat < 2 ^ 31)
    (hsize' : size.toNat < 2 ^ 31) :
    toInt (toSize (r * size.toNat : ℕ) - size) = (r * size.toNat : ℕ) - size.toNat := by
  obtain _ | r := r
  · rw [Nat.zero_mul, toInt_neg hsize hsize']
    simp
  · have hle : size.toNat ≤ (r + 1) * size.toNat := Nat.le_mul_of_pos_left _ (Nat.succ_pos r)
    rw [toSize_sub hle, toInt_toSize (by omega), Nat.cast_sub hle]

theorem mul_eq_toSize (num : BitVec 64) :
    num * size = toSize (num.toNat * size.toNat : ℕ) := by
  rw [toSize_natCast, BitVec.ofNat_mul, BitVec.ofNat_toNat, BitVec.ofNat_toNat, BitVec.setWidth_eq,
    BitVec.setWidth_eq]

theorem half_eq_toSize (num : BitVec 64) :
    (num / 2 - 1) * size = toSize (num.toNat / 2 * size.toNat : ℕ) - size := by
  have hhalf : (num / 2).toNat = num.toNat / 2 := by simp
  rw [sub_mul, one_mul, mul_eq_toSize, hhalf]

end Places

/-! ### The loops -/

/-- What the comparison says. -/
def Before (cmp : List Byte → List Byte → ℤ) (x y : List Byte) : Prop := cmp x y < 0

instance (cmp : List Byte → List Byte → ℤ) : DecidableRel (Before cmp) :=
  fun x y => inferInstanceAs (Decidable (cmp x y < 0))

/-- The elements have a size, and twice a place in the array is an `int`. -/
structure Small (size : BitVec 64) (num : ℕ) : Prop where
  pos : 0 < size.toNat
  size_lt : size.toNat < 2 ^ 31
  bound : num * size.toNat ≤ 2 ^ 30

theorem Small.le {size : BitVec 64} {num k : ℕ} (h : Small size num) (hk : k ≤ num) :
    k * size.toNat ≤ 2 ^ 30 :=
  (Nat.mul_le_mul_right _ hk).trans h.bound

section Refinement

variable (cmp : List Byte → List Byte → ℤ) {swapFn : Swap} {size : BitVec 64} {num : ℕ}
  {a : ℕ → List Byte} {buffer : List Byte}

theorem Holds.compare (h : Holds size.toNat num a buffer) {i j : ℕ} (hi : i < num) (hj : j < num) :
    compareAt cmp size buffer (i * size.toNat : ℕ) (j * size.toNat : ℕ) =
      some (cmp (a i) (a j)) := by
  unfold compareAt
  rw [h.load hi, Option.bind_some, h.load hj, Option.map_some]

theorem childAt_eq (hsmall : Small size num) (h : Holds size.toNat num a buffer) {limit r : ℕ}
    (hlimit : limit ≤ num) (hchild : 2 * r + 1 < limit) :
    childAt cmp size (limit * size.toNat : ℕ) (2 * r * size.toNat : ℕ) buffer =
      some ((largerChild (Before cmp) limit a r * size.toNat : ℕ) : ℤ) := by
  have hend := hsmall.le hlimit
  have hfirst := hsmall.le (k := 2 * r + 1) (by omega)
  have hsize := hsmall.size_lt
  have hsecond : (2 * r + 1) * size.toNat + size.toNat = (2 * r + 2) * size.toNat := by ring
  have hc : toInt (toSize (2 * r * size.toNat : ℕ) + size) = ((2 * r + 1) * size.toNat : ℕ) := by
    rw [toSize_add, ← Nat.add_one_mul, toInt_toSize (by omega)]
  have htest : toSize ((2 * r + 1) * size.toNat : ℕ) < toSize (limit * size.toNat : ℕ) - size ↔
      2 * r + 2 < limit := by
    rw [toSize_sub (Nat.le_mul_of_pos_left _ (by omega)), toSize_lt_toSize (by omega) (by omega),
      Nat.lt_sub_iff_add_lt, hsecond, Nat.mul_lt_mul_right hsmall.pos]
  unfold childAt largerChild
  simp only [hc, htest]
  by_cases hmore : 2 * r + 2 < limit
  · have hend' := hsmall.le (k := 2 * r + 2) (by omega)
    have hcompare : compareAt cmp size buffer ((2 * r + 1) * size.toNat : ℕ)
        (((2 * r + 1) * size.toNat : ℕ) + size.toNat) =
          some (cmp (a (2 * r + 1)) (a (2 * r + 2))) := by
      rw [← Nat.cast_add, hsecond]
      exact h.compare cmp (by omega) (by omega)
    rw [if_pos hmore, hcompare, Option.map_some, toSize_add, toInt_toSize (by omega), hsecond]
    by_cases hless : cmp (a (2 * r + 1)) (a (2 * r + 2)) < 0
    · rw [if_pos hless, if_pos ⟨hmore, hless⟩]
    · rw [if_neg hless, if_neg fun hboth => hless hboth.2]
  · rw [if_neg hmore, if_neg fun hboth => hmore hboth.1]

/-- Both inner loops let an element go down. -/
theorem siftLoop_eq (hsmall : Small size num) (hswap : Swaps size.toNat swapFn) {limit fuel r : ℕ}
    (hlimit : limit ≤ num) (hr : r < num) (hfuel : limit - r < fuel)
    (h : Holds size.toNat num a buffer) :
    ∃ after, siftLoop cmp swapFn size (limit * size.toNat : ℕ) fuel (r * size.toNat : ℕ) buffer =
        some after ∧ Holds size.toNat num (siftDown (Before cmp) limit a r) after := by
  -- Each round goes to a larger place, and the fuel is enough for all that are left.
  induction fuel generalizing r a buffer with
  | zero => omega
  | succ fuel ih =>
      have hend := hsmall.le hlimit
      have hplace := hsmall.le (Nat.succ_le_of_lt hr)
      have hsize := hsmall.size_lt
      rw [Nat.succ_mul] at hplace
      have hpos := hsmall.pos
      have hdouble : 2 * r * size.toNat = 2 * (r * size.toNat) := Nat.mul_assoc _ _ _
      have htwice : ((r * size.toNat : ℕ) : ℤ) * 2 = (2 * r * size.toNat : ℕ) := by
        push_cast
        ring
      have htest : toSize (2 * r * size.toNat : ℕ) + size < toSize (limit * size.toNat : ℕ) ↔
          2 * r + 1 < limit := by
        rw [toSize_add, toSize_lt_toSize (by omega) (by omega), ← Nat.add_one_mul,
          Nat.mul_lt_mul_right hpos]
      rw [siftLoop, htwice, checked_of_lt (by omega), Option.bind_some, siftDown]
      by_cases hchild : 2 * r + 1 < limit
      · have hgt := largerChild_gt (Before cmp) limit a r
        have hlt := largerChild_lt (Before cmp) hchild a
        rw [if_pos (htest.mpr hchild), dif_pos hchild, childAt_eq cmp hsmall h hlimit hchild,
          Option.bind_some, h.compare cmp hr (hlt.trans_le hlimit), Option.bind_some]
        by_cases hless : Before cmp (a r) (a (largerChild (Before cmp) limit a r))
        · obtain ⟨next, hnext, hholds⟩ := h.swap hswap hgt (hlt.trans_le hlimit)
          rw [if_neg (not_le.mpr hless), if_pos hless, toInt_eq hsize, hnext, Option.bind_some]
          exact ih (hlt.trans_le hlimit) (by omega) hholds
        · rw [if_pos (not_lt.mp hless), if_neg hless]
          exact ⟨buffer, rfl, h⟩
      · rw [if_neg (htest.not.mpr hchild), dif_neg hchild]
        exact ⟨buffer, rfl, h⟩

theorem heapifyLoop_eq (hsmall : Small size num) (hswap : Swaps size.toNat swapFn)
    {fuel steps r : ℕ} (hr : r ≤ num) (hfuel : num < fuel) (hsteps : r < steps)
    (h : Holds size.toNat num a buffer) :
    ∃ after, heapifyLoop cmp swapFn size (num * size.toNat : ℕ) fuel steps
        ((r * size.toNat : ℕ) - size.toNat) buffer = some after ∧
      Holds size.toNat num (heapify (Before cmp) num r a) after := by
  have hpos := hsmall.pos
  induction r generalizing steps a buffer with
  | zero =>
      obtain ⟨steps, rfl⟩ := Nat.exists_eq_add_one.mpr hsteps
      rw [heapifyLoop, if_neg (by omega)]
      exact ⟨buffer, rfl, h⟩
  | succ r ih =>
      obtain ⟨steps, rfl⟩ := Nat.exists_eq_add_one.mpr (Nat.zero_lt_of_lt hsteps)
      have hsize := hsmall.size_lt
      have hplace := hsmall.le (Nat.le_of_succ_le hr)
      have hi : (((r + 1) * size.toNat : ℕ) : ℤ) - size.toNat = (r * size.toNat : ℕ) := by
        push_cast
        ring
      obtain ⟨next, hnext, hholds⟩ := siftLoop_eq cmp hsmall hswap le_rfl
        (Nat.lt_of_succ_le hr) (by omega : num - r < fuel) h
      rw [heapifyLoop, hi, if_pos (Int.natCast_nonneg _), hnext, Option.bind_some,
        toInt_back hpos (by omega) hsize]
      exact ih (Nat.le_of_succ_le hr) (by omega) hholds

theorem sortLoop_eq (hsmall : Small size num) (hswap : Swaps size.toNat swapFn)
    {fuel steps last : ℕ} (hlast : last < num) (hfuel : num < fuel) (hsteps : last < steps)
    (h : Holds size.toNat num a buffer) :
    ∃ after, sortLoop cmp swapFn size fuel steps (last * size.toNat : ℕ) buffer = some after ∧
      Holds size.toNat num (drain (Before cmp) last a) after := by
  induction last generalizing steps a buffer with
  | zero =>
      obtain ⟨steps, rfl⟩ := Nat.exists_eq_add_one.mpr hsteps
      rw [sortLoop, if_neg (by simp)]
      exact ⟨buffer, rfl, h⟩
  | succ last ih =>
      obtain ⟨steps, rfl⟩ := Nat.exists_eq_add_one.mpr (Nat.zero_lt_of_lt hsteps)
      have hpos := hsmall.pos
      have hsize := hsmall.size_lt
      have hplace := hsmall.le hlast.le
      have hi : 0 < (last + 1) * size.toNat := Nat.mul_pos (Nat.succ_pos last) hpos
      have hback : (((last + 1) * size.toNat : ℕ) : ℤ) - size.toNat = (last * size.toNat : ℕ) := by
        push_cast
        ring
      obtain ⟨swapped, hswapped, hholds⟩ := h.swap hswap (Nat.succ_pos last) hlast
      obtain ⟨next, hnext, hholds⟩ := siftLoop_eq cmp hsmall hswap hlast.le
        (Nat.zero_lt_of_lt hlast) (by omega : last + 1 - 0 < fuel) hholds
      rw [Nat.zero_mul, Nat.cast_zero] at hswapped hnext
      rw [sortLoop, if_pos (by omega), toInt_eq hsize, hswapped, Option.bind_some, hnext,
        Option.bind_some, toInt_back hpos (by omega) hsize, hback]
      exact ih (by omega) (by omega) hholds

theorem sort_holds {num : BitVec 64} (hsmall : Small size num.toNat) {swapFn : Option Swap}
    (hswap : ∀ swap, swapFn = some swap → Swaps size.toNat swap) {fuel : ℕ}
    (hfuel : num.toNat < fuel) (h : Holds size.toNat num.toNat a buffer) :
    ∃ after, sort cmp size fuel buffer num swapFn = some after ∧
      Holds size.toNat num.toNat (heapSort (Before cmp) num.toNat a) after := by
  have hpos := hsmall.pos
  have hlength := hsmall.bound
  have hswaps : Swaps size.toNat (swapFn.getD (if size = 4 then u32Swap else genericSwap)) := by
    obtain _ | swap := swapFn
    · rw [Option.getD_none]
      split
      · rename_i hfour
        rw [hfour]
        exact u32Swap_swaps
      · exact genericSwap_swaps hpos
    · exact hswap swap rfl
  have hsize := hsmall.size_lt
  have hhalf := hsmall.le (Nat.div_le_self num.toNat 2)
  obtain ⟨heap, hheap, hholds⟩ := heapifyLoop_eq cmp hsmall hswaps
    (Nat.div_le_self num.toNat 2) hfuel (by omega : num.toNat / 2 < fuel) h
  unfold sort
  simp only
  rw [mul_eq_toSize, toInt_toSize (by omega), half_eq_toSize, toInt_back hpos (by omega) hsize,
    hheap, Option.bind_some, toInt_back hpos (by omega) hsize]
  unfold heapSort
  by_cases hnum : num.toNat = 0
  · -- Both loops begin at a negative place.
    obtain ⟨steps, rfl⟩ := Nat.exists_eq_add_one.mpr (Nat.zero_lt_of_lt hfuel)
    rw [hnum] at hholds ⊢
    rw [sortLoop, if_neg (by omega)]
    exact ⟨heap, rfl, hholds⟩
  · obtain ⟨last, hnum⟩ := Nat.exists_eq_succ_of_ne_zero hnum
    have hlast : ((num.toNat * size.toNat : ℕ) : ℤ) - size.toNat = (last * size.toNat : ℕ) := by
      rw [hnum]
      push_cast
      ring
    have hpred : num.toNat - 1 = last := by omega
    rw [hlast, hpred]
    exact sortLoop_eq cmp hsmall hswaps (by omega) hfuel (by omega) hholds

end Refinement

/-! ### Sorting -/

/-- A comparison says the same both ways round, and what it says is transitive. -/
structure Consistent (cmp : List Byte → List Byte → ℤ) : Prop where
  flip : ∀ x y, cmp x y < 0 ↔ 0 < cmp y x
  trans : ∀ x y z, cmp x y ≤ 0 → cmp y z ≤ 0 → cmp x z ≤ 0

theorem Consistent.not_before {cmp : List Byte → List Byte → ℤ} (h : Consistent cmp)
    (x y : List Byte) : ¬ Before cmp x y ↔ cmp y x ≤ 0 := by
  unfold Before
  rw [h.flip, not_lt]

theorem Consistent.weakOrder {cmp : List Byte → List Byte → ℤ} (h : Consistent cmp) :
    WeakOrder (Before cmp) where
  asymm x y hxy := (h.not_before y x).mpr (le_of_lt hxy)
  trans x y z hxy hyz := by
    rw [h.not_before] at hxy hyz ⊢
    exact h.trans z y x hyz hxy

/-- The elements, by their numbers. -/
def element (elements : List (List Byte)) (k : ℕ) : List Byte := elements.getD k []

theorem blocks_eq_flatten (a : ℕ → List Byte) (num : ℕ) :
    blocks a 0 num = ((List.range num).map a).flatten := by
  unfold blocks
  rw [List.flatMap_def, List.range_eq_range']

theorem map_element (elements : List (List Byte)) :
    (List.range elements.length).map (element elements) = elements := by
  refine List.ext_getElem (by simp) fun k hk hk' => ?_
  rw [List.getElem_map, List.getElem_range, element, List.getD_eq_getElem _ _ hk']

theorem holds_flatten {size : ℕ} {elements : List (List Byte)}
    (hlength : ∀ x ∈ elements, x.length = size) :
    Holds size elements.length (element elements) elements.flatten := by
  refine ⟨by rw [blocks_eq_flatten, map_element], fun k hk => ?_⟩
  rw [element, List.getD_eq_getElem _ _ hk]
  exact hlength _ (List.getElem_mem hk)

/-- **The array is sorted** if the comparison is consistent.  In any case `sort` returns, it does
not leave the array, and the array has the elements that it had. -/
theorem sort_sorts {cmp : List Byte → List Byte → ℤ} {size num : BitVec 64}
    {swapFn : Option Swap} {fuel : ℕ} {elements : List (List Byte)} (hsmall : Small size num.toNat)
    (hswap : ∀ swap, swapFn = some swap → Swaps size.toNat swap) (hfuel : num.toNat < fuel)
    (hnum : elements.length = num.toNat) (hlength : ∀ x ∈ elements, x.length = size.toNat) :
    ∃ after : List (List Byte), sort cmp size fuel elements.flatten num swapFn =
        some after.flatten ∧
      after.Perm elements ∧ (Consistent cmp → after.Pairwise fun x y => cmp x y ≤ 0) := by
  have hholds := holds_flatten hlength
  rw [hnum] at hholds
  obtain ⟨after, hafter, hsorted⟩ := sort_holds cmp hsmall hswap hfuel hholds
  refine ⟨(List.range num.toNat).map (heapSort (Before cmp) num.toNat (element elements)), ?_, ?_,
    fun hcmp => ?_⟩
  · rw [hafter, hsorted.eq, blocks_eq_flatten]
  · have hrearranges : Rearranges 0 num.toNat (element elements)
        (heapSort (Before cmp) num.toNat (element elements)) := heapSort_rearranges _ _
    have hperm := hrearranges.perm
    rwa [← hnum, map_element, hnum] at hperm
  · rw [List.pairwise_iff_getElem]
    intro i j hi hj hij
    rw [List.length_map, List.length_range] at hj
    rw [List.getElem_map, List.getElem_map, List.getElem_range, List.getElem_range,
      ← hcmp.not_before]
    exact heapSort_sorted hcmp.weakOrder num.toNat (element elements) hij hj

/-- A comparison of elements by their first byte. -/
def compareFirst (x y : List Byte) : ℤ := ((x.headD 0).toNat : ℤ) - (y.headD 0).toNat

theorem compareFirst_consistent : Consistent compareFirst := by
  unfold compareFirst
  constructor
  · intro x y
    omega
  · intro x y z
    omega

theorem sort_sorts_bytes : Consistent compareFirst ∧
    ∃ after : List (List Byte), sort compareFirst 1 4 [3, 1, 2] 3 none = some after.flatten ∧
      after.Perm [[3], [1], [2]] ∧
      (Consistent compareFirst → after.Pairwise fun x y => compareFirst x y ≤ 0) := by
  have hsmall : Small 1 (3 : BitVec 64).toNat := ⟨by decide, by decide, by decide⟩
  have hswap : ∀ swap, (none : Option Swap) = some swap → Swaps (1 : BitVec 64).toNat swap :=
    fun _ h => by cases h
  have hlength : ∀ x ∈ ([[3], [1], [2]] : List (List Byte)), x.length = (1 : BitVec 64).toNat := by
    decide
  exact ⟨compareFirst_consistent, sort_sorts hsmall hswap (by decide) rfl hlength⟩

end Webcamd.Kernel.Sort
