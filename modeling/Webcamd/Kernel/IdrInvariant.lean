import Webcamd.Kernel.Idr

/-!
# What holds of the tree of the id allocator

* `LayerOk` — the counter of a layer and the bits of its bitmap are what its slots say, and so on
  for the layers below.
* `FrameOk`, `PathOk` — the same of the layers above one that is being changed.
* `Slot.occ` — how often a layer is in a tree.
* `IdrOk`, `total` — the tree as a whole, and how often a layer is in it or on its free list.
* `idrAlloc_ok` — whatever `idr_alloc` returns, the tree is well-formed after it, and it holds no
  layer that it has not had and that has not been allocated.
-/

namespace Webcamd.Kernel.IdrTree

open Bitmap

variable {P : Type}

/-! ### Digits -/

theorem digit_eq (l id : ℕ) : digit l id = id / 2 ^ (8 * l) % 256 := by
  unfold digit
  rw [Nat.shiftRight_eq_div_pow]
  exact Nat.and_two_pow_sub_one_eq_mod _ 8

theorem digit_lt (l id : ℕ) : digit l id < idrSize := by
  rw [digit_eq]
  exact Nat.mod_lt _ (by decide)

theorem and_idrMask (id : ℕ) : id &&& idrMask = digit 0 id := by
  unfold digit
  rw [Nat.mul_zero, Nat.shiftRight_zero]

/-- The digits from a level on are those of the shifted id. -/
theorem digit_shiftRight (l k id : ℕ) : digit l (id >>> (idrBits * k)) = digit (l + k) id := by
  unfold digit
  rw [← Nat.shiftRight_add, ← Nat.mul_add, Nat.add_comm k l]

/-- Ids that are the same from a level on have the same digits there. -/
theorem digit_congr {k l id other : ℕ} (hsame : id >>> (idrBits * k) = other >>> (idrBits * k))
    (hle : k ≤ l) : digit l id = digit l other := by
  obtain ⟨rest, rfl⟩ := Nat.exists_eq_add_of_le hle
  rw [Nat.add_comm k rest, ← digit_shiftRight, hsame, digit_shiftRight]

theorem idrMax_eq {layers : ℕ} (hle : layers ≤ 3) : idrMax layers = 2 ^ (8 * layers) - 1 := by
  unfold idrMax
  rw [Nat.min_eq_left (by unfold idrBits maxIdrShift; omega), Nat.shiftLeft_eq, Nat.one_mul,
    Nat.mul_comm]
  rfl

/-- An id that is too large for the tree leaves room for one more layer. -/
theorem above_lt {id layers : ℕ} (habove : above id layers = true) : layers < 4 := by
  by_contra hnot
  have hmax : idrMax layers = 2 ^ 31 - 1 := by
    unfold idrMax
    rw [Nat.min_eq_right (by unfold idrBits maxIdrShift; omega)]
    rfl
  have hbit : maxIdrBit = 2 ^ 31 := rfl
  unfold above at habove
  rw [Bool.and_eq_true, decide_eq_true_eq, decide_eq_true_eq] at habove
  omega

/-- What `sub_alloc` does to the id when it goes on at another slot of a layer. -/
theorem replace_digit {id n m sh : ℕ} (hn : n = id >>> sh &&& idrMask) (hm : m < idrSize) :
    (((id >>> sh) ^^^ n ^^^ m) <<< sh) >>> sh = (id >>> (sh + idrBits)) * 256 + m := by
  have hhigh : (id >>> sh) ^^^ n = 2 ^ 8 * (id >>> (sh + idrBits)) := by
    subst hn
    refine Nat.eq_of_testBit_eq fun k => ?_
    rw [Nat.testBit_xor, Nat.testBit_and, Nat.testBit_two_pow_mul, Nat.shiftRight_add]
    have hmask : idrMask.testBit k = decide (k < 8) := Nat.testBit_two_pow_sub_one 8 k
    rw [hmask, Nat.testBit_shiftRight (id >>> sh)]
    by_cases hk : k < 8
    · have hnot : ¬ 8 ≤ k := by omega
      simp [hk, hnot]
    · have hle : 8 ≤ k := by omega
      have hsum : idrBits + (k - 8) = k := by
        unfold idrBits
        omega
      simp [hk, hle, hsum]
  rw [Nat.shiftLeft_shiftRight, hhigh, Nat.mul_comm _ 256]
  have hlow : m < 2 ^ 8 := hm
  refine Nat.eq_of_testBit_eq fun k => ?_
  rw [show 256 = 2 ^ 8 from rfl, Nat.testBit_xor, Nat.testBit_two_pow_mul,
    Nat.testBit_two_pow_mul_add _ hlow]
  by_cases hk : k < 8
  · have hnot : ¬ 8 ≤ k := by omega
    simp [hk, hnot]
  · have hle : 8 ≤ k := by omega
    have hzero : m.testBit k = false :=
      Nat.testBit_lt_two_pow (hlow.trans_le (Nat.pow_le_pow_right (by decide) hle))
    simp [hk, hle, hzero]

/-! ### Layers -/

/-- How many slots of a layer have the property. -/
def slotCount (p : ℕ → Bool) : ℤ := (((Finset.range idrSize).filter fun n => p n = true).card : ℤ)

/-- The bitmap has no free slot. -/
def Slot.full : Slot P → Bool
  | .layer node _ => bitmapFull node.bitmap idrSize
  | _ => false

/-- **A layer is well-formed**: a leaf counts the bits of its bitmap, and has pointers only where
one is set; another layer counts its children, and its bits are set for those that are full. -/
def LayerOk : ℕ → Slot P → Prop
  | 0, .layer node ary =>
      node.count = slotCount (fun n => testBit n node.bitmap) ∧
        ∀ n < idrSize, testBit n node.bitmap = false → ary n = .null
  | l + 1, .layer node ary =>
      node.count = slotCount (fun n => !(ary n).isNull) ∧
        ∀ n < idrSize, (ary n = .null ∨ LayerOk l (ary n)) ∧
          testBit n node.bitmap = (ary n).full
  | _, _ => False

/-- A layer is well-formed apart from the child at the slot `m`, which is there and not full. -/
structure FrameOk (l : ℕ) (frame : Frame P) : Prop where
  lt : frame.m < idrSize
  bit : testBit frame.m frame.node.bitmap = false
  count : frame.node.count = slotCount fun n => decide (n = frame.m) || !(frame.ary n).isNull
  others : ∀ n < idrSize, n ≠ frame.m → (frame.ary n = .null ∨ LayerOk l (frame.ary n)) ∧
    testBit n frame.node.bitmap = (frame.ary n).full

/-- So are the layers above a layer of level `l`, up to the top. -/
def PathOk (layers : ℕ) : ℕ → List (Frame P) → Prop
  | l, [] => l + 1 = layers
  | l, frame :: rest => FrameOk l frame ∧ PathOk layers (l + 1) rest

/-- The path is the one to the id. -/
def OnPath (id : ℕ) : ℕ → List (Frame P) → Prop
  | _, [] => True
  | l, frame :: rest => frame.m = digit (l + 1) id ∧ OnPath id (l + 1) rest

variable {l layers id m : ℕ} {node : Layer} {ary : ℕ → Slot P} {child p : Slot P}
variable {frame : Frame P} {pa : List (Frame P)}

theorem slotCount_congr {p q : ℕ → Bool} (hsame : ∀ n < idrSize, p n = q n) :
    slotCount p = slotCount q := by
  unfold slotCount
  congr 2
  refine Finset.filter_congr fun n hn => ?_
  rw [hsame n (Finset.mem_range.mp hn)]

theorem slotCount_insert {p q : ℕ → Bool} (hm : m < idrSize) (hp : p m = false) (hq : q m = true)
    (hsame : ∀ n < idrSize, n ≠ m → p n = q n) : slotCount q = slotCount p + 1 := by
  have hfilter : (Finset.range idrSize).filter (fun n => q n = true) =
      insert m ((Finset.range idrSize).filter fun n => p n = true) := by
    ext n
    rw [Finset.mem_insert, Finset.mem_filter, Finset.mem_filter, Finset.mem_range]
    by_cases hn : n = m
    · subst hn
      simp [hm, hq]
    · constructor
      · rintro ⟨hlt, hset⟩
        rw [← hsame n hlt hn] at hset
        exact Or.inr ⟨hlt, hset⟩
      · rintro (heq | ⟨hlt, hset⟩)
        · exact absurd heq hn
        · rw [hsame n hlt hn] at hset
          exact ⟨hlt, hset⟩
  have hnot : m ∉ (Finset.range idrSize).filter fun n => p n = true := by
    rw [Finset.mem_filter]
    rintro ⟨-, hset⟩
    rw [hp] at hset
    cases hset
  unfold slotCount
  rw [hfilter, Finset.card_insert_of_notMem hnot]
  push_cast
  rfl

theorem slotCount_eq_zero_iff {p : ℕ → Bool} :
    slotCount p = 0 ↔ ∀ n < idrSize, p n = false := by
  unfold slotCount
  rw [Nat.cast_eq_zero, Finset.card_eq_zero, Finset.filter_eq_empty_iff]
  simp only [Finset.mem_range, Bool.not_eq_true]

theorem LayerOk.exists_layer (h : LayerOk l p) : ∃ node ary, p = .layer node ary := by
  cases p with
  | null => cases l <;> exact h.elim
  | ptr value => cases l <;> exact h.elim
  | layer node ary => exact ⟨node, ary, rfl⟩

theorem LayerOk.isNull (h : LayerOk l p) : p.isNull = false := by
  obtain ⟨node, ary, rfl⟩ := h.exists_layer
  rfl

/-- A slot of a branch is `NULL` or not, as its child is. -/
theorem isNull_eq_true_iff (p : Slot P) : p.isNull = true ↔ p = .null := by
  cases p <;> simp [Slot.isNull]

/-- A layer in which nothing is set is well-formed at every level. -/
theorem LayerOk.of_empty (hcount : node.count = 0) (hnull : ∀ n < idrSize, ary n = .null)
    (hbits : ∀ n < idrSize, testBit n node.bitmap = false) : LayerOk l (.layer node ary) := by
  cases l with
  | zero =>
      refine ⟨?_, fun n hn _ => hnull n hn⟩
      rw [hcount, eq_comm, slotCount_eq_zero_iff]
      exact hbits
  | succ l =>
      refine ⟨?_, fun n hn => ⟨Or.inl (hnull n hn), ?_⟩⟩
      · rw [hcount, eq_comm, slotCount_eq_zero_iff]
        intro n hn
        rw [hnull n hn]
        rfl
      · rw [hbits n hn, hnull n hn]
        rfl

/-- Nothing is set in a layer that counts nothing. -/
theorem LayerOk.empty (h : LayerOk l (.layer node ary)) (hcount : node.count = 0) :
    (∀ n < idrSize, ary n = .null) ∧ ∀ n < idrSize, testBit n node.bitmap = false := by
  cases l with
  | zero =>
      obtain ⟨hcounts, hfree⟩ := h
      rw [hcount, eq_comm, slotCount_eq_zero_iff] at hcounts
      exact ⟨fun n hn => hfree n hn (hcounts n hn), hcounts⟩
  | succ l =>
      obtain ⟨hcounts, hchildren⟩ := h
      rw [hcount, eq_comm, slotCount_eq_zero_iff] at hcounts
      have hnull : ∀ n < idrSize, ary n = .null := by
        intro n hn
        have hslot := hcounts n hn
        rwa [Bool.not_eq_false', isNull_eq_true_iff] at hslot
      refine ⟨hnull, fun n hn => ?_⟩
      rw [(hchildren n hn).2, hnull n hn]
      rfl

/-- A layer whose bitmap has a bit that is not set is not full. -/
theorem full_eq_false (hm : m < idrSize) (hbit : testBit m node.bitmap = false) :
    (Slot.layer node ary).full = false := by
  rw [← Bool.not_eq_true]
  intro hfull
  rw [(bitmapFull_iff _ _).mp hfull m hm] at hbit
  cases hbit

/-! ### Layers on a path -/

/-- **A child is put into its frame**: the layer is well-formed if its bit says whether the child
is full. -/
theorem FrameOk.layerOk (h : FrameOk l frame) (hchild : LayerOk l child) {bitmap : Words}
    (hbit : testBit frame.m bitmap = child.full)
    (hsame : ∀ n < idrSize, n ≠ frame.m → testBit n bitmap = testBit n frame.node.bitmap) :
    LayerOk (l + 1) (.layer { frame.node with bitmap := bitmap }
      (Function.update frame.ary frame.m child)) := by
  refine ⟨?_, fun n hn => ?_⟩
  · show frame.node.count = _
    rw [h.count]
    refine slotCount_congr fun n hn => ?_
    by_cases heq : n = frame.m
    · subst heq
      rw [Function.update_self, hchild.isNull]
      simp
    · rw [Function.update_of_ne heq]
      simp [heq]
  · by_cases heq : n = frame.m
    · subst heq
      rw [Function.update_self]
      exact ⟨Or.inr hchild, hbit⟩
    · rw [Function.update_of_ne heq, hsame n hn heq]
      exact h.others n hn heq

theorem FrameOk.plug (h : FrameOk l frame) (hchild : LayerOk l child)
    (hfull : child.full = false) : LayerOk (l + 1) (frame.plug child) :=
  h.layerOk hchild (h.bit.trans hfull.symm) fun _ _ _ => rfl

theorem FrameOk.plug_full (h : FrameOk l frame) : (frame.plug child).full = false :=
  full_eq_false h.lt h.bit

/-- The tree around a layer. -/
theorem PathOk.plugAll (h : PathOk layers l pa) (hchild : LayerOk l child)
    (hfull : pa = [] ∨ child.full = false) : LayerOk (layers - 1) (plugAll child pa) := by
  induction pa generalizing l child with
  | nil =>
      obtain rfl : l + 1 = layers := h
      exact hchild
  | cons frame rest ih =>
      have hnot : child.full = false := hfull.resolve_left (List.cons_ne_nil _ _)
      exact ih h.2 (h.1.plug hchild hnot) (Or.inr h.1.plug_full)

/-- A well-formed layer is a frame for a child of it, once the bit of the child is not set. -/
theorem LayerOk.frameOk (h : LayerOk (l + 1) (.layer node ary)) (hm : m < idrSize)
    (hsome : ary m ≠ .null) {bitmap : Words} (hbit : testBit m bitmap = false)
    (hsame : ∀ n < idrSize, n ≠ m → testBit n bitmap = testBit n node.bitmap) :
    FrameOk l ⟨{ node with bitmap := bitmap }, ary, m⟩ where
  lt := hm
  bit := hbit
  count := by
    show node.count = _
    rw [h.1]
    refine slotCount_congr fun n hn => ?_
    by_cases heq : n = m
    · subst heq
      have hnull : (ary n).isNull = false := by
        rw [← Bool.not_eq_true, isNull_eq_true_iff]
        exact hsome
      simp [hnull]
    · simp [heq]
  others n hn hne := by
    rw [hsame n hn hne]
    exact h.2 n hn

/-- So is one that has just got a new child. -/
theorem LayerOk.frameOk_new (h : LayerOk (l + 1) (.layer node ary)) (hm : m < idrSize)
    (hnull : ary m = .null) (hbit : testBit m node.bitmap = false) :
    FrameOk l ⟨{ node with count := node.count + 1 }, ary, m⟩ where
  lt := hm
  bit := hbit
  count := by
    show node.count + 1 = _
    rw [h.1, eq_comm]
    refine slotCount_insert hm ?_ ?_ fun n hn hne => ?_
    · rw [hnull]
      rfl
    · simp
    · simp [hne]
  others n hn _ := h.2 n hn

/-- The child goes. -/
theorem FrameOk.release (h : FrameOk l frame) :
    LayerOk (l + 1) (.layer { frame.node with count := frame.node.count - 1 }
      (Function.update frame.ary frame.m .null)) := by
  refine ⟨?_, fun n hn => ?_⟩
  · show frame.node.count - 1 = _
    have hcount := @slotCount_insert frame.m
      (fun n => !(Function.update frame.ary frame.m .null n).isNull)
      (fun n => decide (n = frame.m) || !(frame.ary n).isNull) h.lt (by simp [Slot.isNull])
      (by simp) (fun n hn hne => by simp [hne])
    rw [h.count, hcount]
    ring
  · by_cases heq : n = frame.m
    · subst heq
      rw [Function.update_self, h.bit]
      exact ⟨Or.inl rfl, rfl⟩
    · rw [Function.update_of_ne heq]
      exact h.others n hn heq

/-! ### Where a layer is -/

/-- How often the layer at the address is in the tree. -/
def Slot.occ (addr : ℕ) : Slot P → ℕ
  | .layer node ary =>
      (if node.addr = addr then 1 else 0) + ∑ n ∈ Finset.range idrSize, (ary n).occ addr
  | _ => 0

/-- How often it is in a frame, without the child at `m`. -/
def Frame.occ (addr : ℕ) (frame : Frame P) : ℕ :=
  (if frame.node.addr = addr then 1 else 0) +
    ∑ n ∈ (Finset.range idrSize).erase frame.m, (frame.ary n).occ addr

/-- How often it is in a list. -/
def listed (addr : ℕ) (layers : List Layer) : ℕ := layers.countP fun node => node.addr = addr

/-- The addresses that `kmem_cache_zalloc` has returned between two states. -/
def between (first last addr : ℕ) : ℕ := if first ≤ addr ∧ addr < last then 1 else 0

variable {addr : ℕ}

theorem listed_append (addr : ℕ) (front back : List Layer) :
    listed addr (front ++ back) = listed addr front + listed addr back :=
  List.countP_append

theorem listed_cons (addr : ℕ) (first : Layer) (rest : List Layer) :
    listed addr (first :: rest) = listed addr rest + if first.addr = addr then 1 else 0 := by
  unfold listed
  rw [List.countP_cons]
  simp

theorem listed_singleton (addr : ℕ) (node : Layer) :
    listed addr [node] = if node.addr = addr then 1 else 0 := by
  rw [listed_cons]
  simp [listed]

/-- The occurrences in a layer: in the child at `m`, and elsewhere. -/
theorem occ_layer (addr : ℕ) (node : Layer) (ary : ℕ → Slot P) (hm : m < idrSize) :
    (Slot.layer node ary).occ addr = (ary m).occ addr + Frame.occ addr ⟨node, ary, m⟩ := by
  unfold Frame.occ
  rw [Slot.occ, ← Finset.add_sum_erase _ _ (Finset.mem_range.mpr hm)]
  dsimp only
  omega

/-- The child of a frame is not counted. -/
theorem frame_occ_update (addr : ℕ) (node : Layer) (ary : ℕ → Slot P) (m : ℕ) (child : Slot P) :
    Frame.occ addr ⟨node, Function.update ary m child, m⟩ = Frame.occ addr ⟨node, ary, m⟩ := by
  unfold Frame.occ
  congr 1
  refine Finset.sum_congr rfl fun n hn => ?_
  show (Function.update ary m child n).occ addr = _
  rw [Function.update_of_ne (Finset.ne_of_mem_erase hn)]

theorem occ_plug (addr : ℕ) (frame : Frame P) (child : Slot P) (hm : frame.m < idrSize) :
    (frame.plug child).occ addr = child.occ addr + frame.occ addr := by
  unfold Frame.plug
  rw [occ_layer addr _ _ hm, Function.update_self, frame_occ_update]

/-- Only the address of a layer matters. -/
theorem occ_congr (addr : ℕ) (ary : ℕ → Slot P) {first second : Layer}
    (hsame : first.addr = second.addr) :
    (Slot.layer first ary).occ addr = (Slot.layer second ary).occ addr := by
  rw [Slot.occ, Slot.occ, hsame]

theorem occ_plugAll (addr : ℕ) (child : Slot P) (h : PathOk layers l pa) :
    (plugAll child pa).occ addr = child.occ addr + (pa.map (Frame.occ addr)).sum := by
  induction pa generalizing l child with
  | nil => simp [plugAll]
  | cons frame rest ih =>
      rw [plugAll, ih _ h.2, occ_plug addr frame child h.1.lt, List.map_cons, List.sum_cons]
      omega

/-- A layer whose slots are all `NULL`. -/
theorem occ_of_null (addr : ℕ) (hnull : ∀ n < idrSize, ary n = .null) :
    (Slot.layer node ary).occ addr = if node.addr = addr then 1 else 0 := by
  rw [Slot.occ, Finset.sum_eq_zero]
  · simp
  · intro n hn
    rw [hnull n (Finset.mem_range.mp hn)]
    rfl

/-- One more allocation. -/
theorem between_succ {first last : ℕ} (hle : first ≤ last) (addr : ℕ) :
    between first (last + 1) addr = between first last addr + if last = addr then 1 else 0 := by
  unfold between
  split_ifs <;> omega

theorem between_trans {first second third : ℕ} (hfirst : first ≤ second) (hsecond : second ≤ third)
    (addr : ℕ) :
    between first third addr = between first second addr + between second third addr := by
  unfold between
  split_ifs <;> omega

theorem idrLayerAlloc_none {memory memory' : Memory}
    (halloc : idrLayerAlloc memory = (none, memory')) : memory'.fresh = memory.fresh := by
  unfold idrLayerAlloc at halloc
  split at halloc
  · cases (Prod.mk.inj halloc).1
  · exact (congrArg Memory.fresh (Prod.mk.inj halloc).2).symm
  · exact (congrArg Memory.fresh (Prod.mk.inj halloc).2).symm

/-- A layer that `idr_layer_alloc` returns is cleared, and at the next address. -/
theorem idrLayerAlloc_some {memory memory' : Memory} {new : Layer}
    (halloc : idrLayerAlloc memory = (some new, memory')) :
    memory'.fresh = memory.fresh + 1 ∧ new.addr = memory.fresh ∧ new.count = 0 ∧
      ∀ n, testBit n new.bitmap = false := by
  unfold idrLayerAlloc at halloc
  split at halloc
  · obtain ⟨hnew, rfl⟩ := Prod.mk.inj halloc
    obtain rfl := Option.some.inj hnew
    refine ⟨rfl, rfl, rfl, fun n => ?_⟩
    rw [testBit_eq]
    exact BitVec.getLsbD_zero
  · cases (Prod.mk.inj halloc).1
  · cases (Prod.mk.inj halloc).1

/-! ### The search -/

/-- **A tree in the middle of an allocation**: it is well-formed, and the layers in it are those
that `base` counts and those allocated from the address `first` on. -/
structure TreeOk (first : ℕ) (base : ℕ → ℕ) (layers : ℕ) (top : Slot P) (memory : Memory) :
    Prop where
  layerOk : LayerOk (layers - 1) top
  le : first ≤ memory.fresh
  occ : ∀ addr, top.occ addr ≤ base addr + between first memory.fresh addr

/-- What the loop of `sub_alloc` is at. -/
structure SearchOk (first : ℕ) (base : ℕ → ℕ) (layers : ℕ) (p : Slot P) (pa : List (Frame P))
    (l id : ℕ) (memory : Memory) : Prop where
  layerOk : LayerOk l p
  path : PathOk layers l pa
  onPath : OnPath id l pa
  full : pa = [] ∨ p.full = false
  le : first ≤ memory.fresh
  occ : ∀ addr, (plugAll p pa).occ addr ≤ base addr + between first memory.fresh addr

/-- What it may end with. -/
def SubAlloc.Ok (first : ℕ) (base : ℕ → ℕ) (layers : ℕ) : SubAlloc P → Prop
  | .found leaf ary pa id memory =>
      SearchOk first base layers (.layer leaf ary) pa 0 id memory ∧
        testBit (digit 0 id) leaf.bitmap = false
  | .again top _ memory => TreeOk first base layers top memory
  | .failed top _ memory => TreeOk first base layers top memory

section Search

variable {first : ℕ} {base : ℕ → ℕ} {memory : Memory}

theorem PathOk.lt (h : PathOk layers l pa) : l < layers := by
  induction pa generalizing l with
  | nil =>
      obtain rfl : l + 1 = layers := h
      exact Nat.lt_succ_self l
  | cons frame rest ih => exact (Nat.lt_succ_self l).trans (ih h.2)

theorem OnPath.congr {other : ℕ} (h : OnPath id l pa)
    (hsame : id >>> (idrBits * (l + 1)) = other >>> (idrBits * (l + 1))) : OnPath other l pa := by
  induction pa generalizing l with
  | nil => trivial
  | cons frame rest ih =>
      refine ⟨h.1.trans (digit_congr hsame le_rfl), ih h.2 ?_⟩
      have hnext := congrArg (fun id => id >>> idrBits) hsame
      simpa only [← Nat.shiftRight_add, ← Nat.mul_succ] using hnext

/-- The id after a free slot has been found: its digit is the slot, and it is as before above. -/
theorem advance_id {n m l id : ℕ} (hn : n = digit l id) (hm : m < idrSize) :
    let next := if m ≠ n then ((id >>> (idrBits * l)) ^^^ n ^^^ m) <<< (idrBits * l) else id
    digit l next = m ∧ next >>> (idrBits * (l + 1)) = id >>> (idrBits * (l + 1)) := by
  dsimp only
  split
  · have hshift := replace_digit hn hm
    have hlow : (id >>> (idrBits * l + idrBits) * 256 + m) / 2 ^ 8 =
        id >>> (idrBits * l + idrBits) := by
      have hlt : m < 256 := hm
      omega
    constructor
    · rw [← Nat.zero_add l, ← digit_shiftRight, Nat.zero_add, hshift, digit_eq]
      have hlt : m < 256 := hm
      omega
    · rw [Nat.mul_succ, Nat.shiftRight_add, hshift, Nat.shiftRight_eq_div_pow]
      exact hlow
  · rename_i heq
    rw [not_not] at heq
    exact ⟨by rw [heq, hn], rfl⟩

theorem SearchOk.treeOk (h : SearchOk first base layers p pa l id memory) :
    TreeOk first base layers (plugAll p pa) memory where
  layerOk := h.path.plugAll h.layerOk h.full
  le := h.le
  occ := h.occ

/-- The search starts at the top. -/
theorem TreeOk.searchOk (h : TreeOk first base layers p memory) (hpos : 0 < layers) (id : ℕ) :
    SearchOk first base layers p [] (layers - 1) id memory where
  layerOk := h.layerOk
  path := Nat.sub_add_cancel hpos
  onPath := trivial
  full := Or.inl rfl
  le := h.le
  occ := h.occ

/-- It is where it was when there is no memory. -/
theorem SearchOk.noMemory {memory' : Memory} (h : SearchOk first base layers p pa l id memory)
    (halloc : idrLayerAlloc memory = (none, memory')) :
    SearchOk first base layers p pa l id memory' :=
  { h with
    le := (idrLayerAlloc_none halloc).symm ▸ h.le
    occ := (idrLayerAlloc_none halloc).symm ▸ h.occ }

/-- It goes up to the previous layer. -/
theorem SearchOk.up {other : ℕ} (h : SearchOk first base layers p (frame :: pa) l id memory)
    (hsame : id >>> (idrBits * (l + 1 + 1)) = other >>> (idrBits * (l + 1 + 1))) :
    SearchOk first base layers (frame.plug p) pa (l + 1) other memory where
  layerOk := h.path.1.plug h.layerOk (h.full.resolve_left (List.cons_ne_nil _ _))
  path := h.path.2
  onPath := h.onPath.2.congr hsame
  full := Or.inr h.path.1.plug_full
  le := h.le
  occ := h.occ

/-- It goes down to a child. -/
theorem SearchOk.down {other : ℕ}
    (h : SearchOk first base layers (.layer node ary) pa (l + 1) id memory)
    (hm : m < idrSize) (hbit : testBit m node.bitmap = false) (hsome : ary m ≠ .null)
    (hdigit : digit (l + 1) other = m)
    (hsame : other >>> (idrBits * (l + 1 + 1)) = id >>> (idrBits * (l + 1 + 1))) :
    SearchOk first base layers (ary m) (⟨node, ary, m⟩ :: pa) l other memory where
  layerOk := (h.layerOk.2 m hm).1.resolve_left hsome
  path := ⟨h.layerOk.frameOk hm hsome hbit fun _ _ _ => rfl, h.path⟩
  onPath := ⟨hdigit.symm, h.onPath.congr hsame.symm⟩
  full := Or.inr ((h.layerOk.2 m hm).2.symm.trans hbit)
  le := h.le
  occ addr := by
    have hsame : Frame.plug ⟨node, ary, m⟩ (ary m) = .layer node ary := by
      unfold Frame.plug
      rw [Function.update_eq_self]
    show (plugAll (Frame.plug ⟨node, ary, m⟩ (ary m)) pa).occ addr ≤ _
    rw [hsame]
    exact h.occ addr

/-- It goes down to a child that has just been allocated. -/
theorem SearchOk.down_new {other : ℕ} {memory' : Memory} {new : Layer}
    (h : SearchOk first base layers (.layer node ary) pa (l + 1) id memory)
    (hm : m < idrSize) (hbit : testBit m node.bitmap = false) (hnull : ary m = .null)
    (hdigit : digit (l + 1) other = m)
    (hsame : other >>> (idrBits * (l + 1 + 1)) = id >>> (idrBits * (l + 1 + 1)))
    (hfresh : memory'.fresh = memory.fresh + 1) (haddr : new.addr = memory.fresh)
    (hcount : new.count = 0) (hbits : ∀ n, testBit n new.bitmap = false) :
    SearchOk first base layers (.layer new fun _ => .null)
      (⟨{ node with count := node.count + 1 }, ary, m⟩ :: pa) l other memory' where
  layerOk := .of_empty hcount (fun _ _ => rfl) fun n _ => hbits n
  path := ⟨h.layerOk.frameOk_new hm hnull hbit, h.path⟩
  onPath := ⟨hdigit.symm, h.onPath.congr hsame.symm⟩
  full := Or.inr (full_eq_false (show 0 < idrSize by decide) (hbits 0))
  le := by
    rw [hfresh]
    exact h.le.trans (Nat.le_succ _)
  occ addr := by
    have hbefore := h.occ addr
    have hlayer := occ_layer addr node ary hm
    have hpath : PathOk layers (l + 1) pa := h.path
    rw [occ_plugAll addr _ hpath, hlayer, hnull] at hbefore
    rw [plugAll, occ_plugAll addr _ hpath, occ_plug addr _ _ hm,
      occ_of_null addr (fun _ _ => rfl), haddr, hfresh, between_succ h.le]
    have hframe : Frame.occ addr ⟨{ node with count := node.count + 1 }, ary, m⟩ =
        Frame.occ addr ⟨node, ary, m⟩ := rfl
    have hzero : (Slot.null : Slot P).occ addr = 0 := rfl
    rw [hzero] at hbefore
    rw [hframe]
    omega

/-- **Whatever `sub_alloc` ends with, the tree is well-formed**, and an id that it has found is
free.  Induction on the rounds; the cases are those of one round. -/
theorem subAllocLoop_ok {rounds : ℕ} {result : SubAlloc P}
    (h : SearchOk first base layers p pa l id memory)
    (hresult : subAllocLoop layers rounds p pa l id memory = some result) :
    result.Ok first base layers := by
  induction rounds generalizing p pa l id memory with
  | zero => cases hresult
  | succ rounds ih =>
      cases p with
      | null => cases hresult
      | ptr value => cases hresult
      | layer node ary =>
          rw [subAllocLoop] at hresult
          dsimp only at hresult
          split at hresult
          · split at hresult
            · obtain rfl := Option.some.inj hresult
              exact h.treeOk
            · split at hresult
              · cases hresult
              · rename_i frame rest
                split at hresult
                · rename_i hsame
                  exact ih (h.up hsame) hresult
                · exact ih (h.treeOk.searchOk (Nat.zero_lt_of_lt h.path.lt) _) hresult
          · rename_i hfound
            have hle := findNextZeroBit_le node.bitmap idrSize (digit l id)
            have hm : findNextZeroBit node.bitmap idrSize (digit l id) < idrSize := by omega
            obtain ⟨-, hbit⟩ := findNextZeroBit_spec node.bitmap idrSize (digit l id) hm
            obtain ⟨hdigit, hsame⟩ := @advance_id _ _ l id rfl hm
            generalize findNextZeroBit node.bitmap idrSize (digit l id) = m at *
            generalize (if m ≠ digit l id then
              ((id >>> (idrBits * l)) ^^^ digit l id ^^^ m) <<< (idrBits * l) else id) = next at *
            split at hresult
            · obtain rfl := Option.some.inj hresult
              exact h.treeOk
            · cases l with
              | zero =>
                  obtain rfl := Option.some.inj hresult
                  refine ⟨{ h with onPath := h.onPath.congr hsame.symm }, ?_⟩
                  rw [hdigit]
                  exact hbit
              | succ l =>
                  dsimp only at hresult
                  split at hresult
                  · rename_i hnull
                    split at hresult
                    · rename_i memory' halloc
                      obtain rfl := Option.some.inj hresult
                      exact (h.noMemory halloc).treeOk
                    · rename_i new memory' halloc
                      obtain ⟨hfresh, haddr, hcount, hbits⟩ := idrLayerAlloc_some halloc
                      refine ih (h.down_new hm hbit hnull hdigit hsame hfresh ?_ ?_ ?_) hresult
                      · exact haddr
                      · exact hcount
                      · exact hbits
                  · rename_i hsome
                    exact ih (h.down hm hbit hsome hdigit hsame) hresult

/-! ### The slot is filled -/

/-- A leaf in which one more id is given out. -/
theorem LayerOk.fill (h : LayerOk 0 (.layer node ary)) (hm : m < idrSize)
    (hbit : testBit m node.bitmap = false) (value : Slot P) :
    LayerOk 0 (.layer
      { node with count := node.count + 1, bitmap := setBit m node.bitmap }
      (Function.update ary m value)) := by
  refine ⟨?_, fun n hn hfree => ?_⟩
  · show node.count + 1 = _
    rw [h.1, eq_comm]
    refine slotCount_insert hm hbit ?_ fun n hn hne => ?_
    · rw [testBit_setBit]
      simp
    · rw [testBit_setBit]
      simp [hne.symm]
  · replace hfree : testBit n (setBit m node.bitmap) = false := hfree
    rw [testBit_setBit, Bool.or_eq_false_iff, decide_eq_false_iff_not] at hfree
    rw [Function.update_of_ne (Ne.symm hfree.1)]
    exact h.2 n hn hfree.2

/-- **`idr_mark_full` sets the bits of the layers that have become full**, from the leaf up.  The
digits of the id are the slots of the path. -/
theorem markFullLoop_ok (h : LayerOk l (.layer node ary)) (hpath : PathOk layers l pa)
    (honPath : OnPath id l pa) :
    LayerOk (layers - 1) (markFullLoop node ary pa (id >>> (idrBits * l))) ∧
      ∀ addr, (markFullLoop node ary pa (id >>> (idrBits * l))).occ addr =
        (plugAll (.layer node ary) pa).occ addr := by
  induction pa generalizing l node ary with
  | nil =>
      obtain rfl : l + 1 = layers := hpath
      exact ⟨h, fun _ => rfl⟩
  | cons frame rest ih =>
      rw [markFullLoop]
      split
      · rename_i hfull
        have hshift : id >>> (idrBits * l) >>> idrBits = id >>> (idrBits * (l + 1)) := by
          rw [← Nat.shiftRight_add, Nat.mul_succ]
        have hdigit : id >>> (idrBits * (l + 1)) &&& idrMask = frame.m := honPath.1.symm
        dsimp only
        rw [hshift, hdigit]
        have hlayer : LayerOk (l + 1) (.layer
            { frame.node with bitmap := setBit frame.m frame.node.bitmap }
            (Function.update frame.ary frame.m (.layer node ary))) := by
          refine hpath.1.layerOk h ?_ fun n hn hne => ?_
          · rw [testBit_setBit]
            simpa [Slot.full] using hfull.symm
          · rw [testBit_setBit]
            simp [hne.symm]
        obtain ⟨hok, hocc⟩ := ih hlayer hpath.2 honPath.2
        refine ⟨hok, fun addr => ?_⟩
        rw [hocc addr, plugAll, occ_plugAll addr _ hpath.2, occ_plugAll addr _ hpath.2]
        rfl
      · rename_i hfull
        refine ⟨hpath.plugAll h (Or.inr ?_), fun _ => rfl⟩
        simpa [Slot.full] using hfull

theorem idrFillSlot_ok (h : SearchOk first base layers (.layer node ary) pa 0 id memory)
    (hbit : testBit (digit 0 id) node.bitmap = false) (idr : Idr P) (value : Option P) :
    LayerOk (layers - 1) (idrFillSlot idr value id node ary pa).top ∧
      ∀ addr, (idrFillSlot idr value id node ary pa).top.occ addr ≤
        (plugAll (.layer node ary) pa).occ addr := by
  have hfill := h.layerOk.fill (digit_lt 0 id) hbit (Slot.ofPointer value)
  obtain ⟨hok, hocc⟩ := markFullLoop_ok hfill h.path h.onPath
  have htop : (idrFillSlot idr value id node ary pa).top =
      markFullLoop { node with count := node.count + 1, bitmap := setBit (digit 0 id) node.bitmap }
        (Function.update ary (digit 0 id) (Slot.ofPointer value)) pa (id >>> (idrBits * 0)) := by
    show idrMarkFull _ _ _ _ = _
    unfold idrMarkFull
    rw [and_idrMask]
    rfl
  rw [htop]
  refine ⟨hok, fun addr => ?_⟩
  have hvalue : (Slot.ofPointer value).occ addr = 0 := by
    cases value <;> rfl
  have hsame : Frame.occ addr ⟨{ node with
      count := node.count + 1, bitmap := setBit (digit 0 id) node.bitmap }, ary, digit 0 id⟩ =
        Frame.occ addr ⟨node, ary, digit 0 id⟩ := rfl
  rw [hocc addr, occ_plugAll addr _ h.path, occ_plugAll addr _ h.path,
    occ_layer addr _ _ (digit_lt 0 id), occ_layer addr node ary (digit_lt 0 id),
    Function.update_self, hvalue, frame_occ_update, hsame]
  omega

/-! ### The tree grows -/

/-- The layer is `old`, or stands on it through leftmost slots. -/
inductive BuiltOn (old : Slot P) : Slot P → Prop where
  | same : BuiltOn old old
  | above (node : Layer) (ary : ℕ → Slot P) (hne : some node.addr ≠ old.addr)
      (hbuilt : BuiltOn old (ary 0)) : BuiltOn old (.layer node ary)

/-- **The tear-down takes the layers that had been built**, and none of the old tree. -/
theorem tearDown_listed {old : Slot P} (hbuilt : BuiltOn old p) (idFree : List Layer)
    (addr : ℕ) :
    listed addr (tearDown old.addr p idFree) + old.occ addr ≤ listed addr idFree + p.occ addr := by
  induction hbuilt generalizing idFree with
  | same =>
      cases old with
      | null => exact le_rfl
      | ptr value => exact le_rfl
      | layer node ary =>
          rw [tearDown, if_pos (show some node.addr = (Slot.layer node ary).addr from rfl)]
  | above node ary hne hbuilt ih =>
      rw [tearDown, if_neg hne]
      have hrest := ih ({ node with
        count := 0, bitmap := bitmapClear node.bitmap 0 idrSize } :: idFree)
      rw [listed_cons] at hrest
      have hlayer := occ_layer addr node ary (show 0 < idrSize by decide)
      have hown : (if node.addr = addr then 1 else 0) ≤ Frame.occ addr ⟨node, ary, 0⟩ :=
        Nat.le_add_right _ _
      dsimp only at hrest
      omega

/-- What the loop is at that adds layers on top. -/
structure BuildOk (idr : Idr P) (first : ℕ) (p : Layer) (ary : ℕ → Slot P) (layers : ℕ)
    (memory : Memory) : Prop where
  pos : 0 < layers
  le_four : layers ≤ 4
  tree : TreeOk first (fun addr => idr.top.occ addr) layers (.layer p ary) memory
  built : p.count = 0 ∨ BuiltOn idr.top (.layer p ary)

/-- What it may end with. -/
def BuildUp.Ok (idr : Idr P) (first : ℕ) : BuildUp P → Prop
  | .built p ary layers memory => BuildOk idr first p ary layers memory
  | .torn idFree memory => first ≤ memory.fresh ∧
      ∀ addr, listed addr idFree ≤ listed addr idr.idFree + between first memory.fresh addr

variable {idr : Idr P}

/-- The top node moves upwards. -/
theorem BuildOk.move (h : BuildOk idr first node ary layers memory) (hlt : layers < 4)
    (hcount : node.count = 0) :
    BuildOk idr first { node with layer := node.layer + 1 } ary (layers + 1) memory := by
  obtain ⟨hnull, hbits⟩ := h.tree.layerOk.empty hcount
  exact
    { pos := Nat.succ_pos _
      le_four := hlt
      tree :=
        { layerOk := .of_empty hcount hnull hbits
          le := h.tree.le
          occ := h.tree.occ }
      built := Or.inl hcount }

/-- A layer with one child, at its leftmost slot. -/
theorem FrameOk.onTop {new : Layer} (hcount : new.count = 1)
    (hbits : ∀ n, testBit n new.bitmap = false) :
    FrameOk l (⟨new, fun _ => .null, 0⟩ : Frame P) where
  lt := show 0 < idrSize by decide
  bit := hbits 0
  count := by
    have hone := @slotCount_insert 0 (fun _ => false)
      (fun n => decide (n = 0) || !(Slot.null : Slot P).isNull) (by decide) rfl (by simp)
      (fun n _ hne => by simp [hne, Slot.isNull])
    rw [hcount, hone, slotCount_eq_zero_iff.mpr fun _ _ => rfl]
    rfl
  others n _ _ := ⟨Or.inl rfl, hbits n⟩

/-- A new layer on top of the tree. -/
theorem BuildOk.grow {memory' : Memory} {new : Layer}
    (h : BuildOk idr first node ary layers memory) (hlt : layers < 4)
    (hbase : ∀ addr, first ≤ addr → idr.top.occ addr = 0) (hcount : node.count ≠ 0)
    (halloc : idrLayerAlloc memory = (some new, memory')) (id : ℕ) :
    BuildOk idr first (new.onTop node id layers)
      (Function.update (fun _ => .null) 0 (.layer node ary)) (layers + 1) memory' := by
  obtain ⟨hfresh, haddr, -, hbits⟩ := idrLayerAlloc_some halloc
  have hlevel : layers - 1 + 1 = layers := Nat.sub_add_cancel h.pos
  have hzero : 0 < idrSize := by decide
  have hlayer : LayerOk (layers - 1 + 1) (.layer (new.onTop node id layers)
      (Function.update (fun _ => .null) 0 (.layer node ary))) := by
    have hframe : FrameOk (layers - 1) (⟨{ new.onTop node id layers with bitmap := new.bitmap },
        fun _ => .null, 0⟩ : Frame P) := .onTop rfl hbits
    refine hframe.layerOk h.tree.layerOk ?_ fun n _ hne => ?_
    · cases hfull : bitmapFull node.bitmap idrSize with
      | false => simp [Slot.full, hfull, hbits]
      | true => simp [Slot.full, hfull, testBit_setBit]
    · have hother : 0 ≠ n := Ne.symm hne
      unfold Layer.onTop
      dsimp only
      split
      · rw [testBit_setBit]
        simp [hother]
      · rfl
  have hnot : some new.addr ≠ idr.top.addr := by
    intro heq
    have hocc := hbase new.addr (haddr.symm ▸ h.tree.le)
    cases htop : idr.top with
    | null => simp [htop, Slot.addr] at heq
    | ptr value => simp [htop, Slot.addr] at heq
    | layer top ary =>
        rw [htop, Slot.occ] at hocc
        simp [htop, Slot.addr] at heq
        simp [heq] at hocc
  exact
    { pos := Nat.succ_pos _
      le_four := hlt
      tree :=
        { layerOk := by
            rw [hlevel] at hlayer
            exact hlayer
          le := by
            rw [hfresh]
            exact h.tree.le.trans (Nat.le_succ _)
          occ := fun addr => by
            have hbefore := h.tree.occ addr
            have hown : Frame.occ addr (⟨new.onTop node id layers, fun _ => .null, 0⟩ : Frame P) =
                if memory.fresh = addr then 1 else 0 := by
              have hnone :
                  ∑ n ∈ (Finset.range idrSize).erase 0, (Slot.null : Slot P).occ addr = 0 :=
                Finset.sum_eq_zero fun _ _ => rfl
              show (if new.addr = addr then 1 else 0) + _ = _
              rw [hnone, haddr]
              rfl
            rw [occ_layer addr _ _ hzero, Function.update_self, frame_occ_update, hown, hfresh,
              between_succ h.tree.le]
            omega }
      built := Or.inr (.above _ _ hnot (by
        rw [Function.update_self]
        exact h.built.resolve_left hcount)) }

theorem buildUpLoop_ok {rounds : ℕ} {result : BuildUp P}
    (h : BuildOk idr first node ary layers memory)
    (hbase : ∀ addr, first ≤ addr → idr.top.occ addr = 0)
    (hresult : buildUpLoop idr id rounds node ary layers memory = some result) :
    result.Ok idr first := by
  induction rounds generalizing node ary layers memory with
  | zero => cases hresult
  | succ rounds ih =>
      rw [buildUpLoop] at hresult
      split at hresult
      · rename_i habove
        split at hresult
        · rename_i hcount
          exact ih (h.move (above_lt habove) hcount) hresult
        · rename_i hcount
          split at hresult
          · rename_i memory' halloc
            obtain rfl := Option.some.inj hresult
            have hfresh := idrLayerAlloc_none halloc
            refine ⟨hfresh.symm ▸ h.tree.le, fun addr => ?_⟩
            have htorn := tearDown_listed (h.built.resolve_left hcount) idr.idFree addr
            have hocc := h.tree.occ addr
            rw [hfresh]
            omega
          · rename_i new memory' halloc
            exact ih (h.grow (above_lt habove) hbase hcount halloc id) hresult
      · obtain rfl := Option.some.inj hresult
        exact h

/-! ### `idr_alloc` -/

/-- The tree as a whole is well-formed. -/
def IdrOk (idr : Idr P) : Prop :=
  (idr.top = .null ∧ idr.layers = 0) ∨
    (0 < idr.layers ∧ idr.layers ≤ 4 ∧ LayerOk (idr.layers - 1) idr.top)

/-- How often the layer is in the tree or on the free list. -/
def total (idr : Idr P) (addr : ℕ) : ℕ := idr.top.occ addr + listed addr idr.idFree

/-- **What an allocation leaves behind**: a well-formed tree, of layers that were there before and
of those that it has allocated. -/
structure AllocOk (before after : Idr P) (first : ℕ) (memory : Memory) : Prop where
  ok : IdrOk after
  le : first ≤ memory.fresh
  total : ∀ addr, total after addr ≤ total before addr + between first memory.fresh addr

/-- What `idr_get_empty_slot` may end with. -/
def EmptySlot.Ok (before : Idr P) (first : ℕ) : EmptySlot P → Prop
  | .found idr leaf ary pa id memory =>
      AllocOk before idr first memory ∧ idr.top = plugAll (.layer leaf ary) pa ∧
        (∃ base, SearchOk first base idr.layers (.layer leaf ary) pa 0 id memory) ∧
        testBit (digit 0 id) leaf.bitmap = false
  | .failed idr _ memory => AllocOk before idr first memory

/-- A tree with a new top and the old free list. -/
theorem TreeOk.allocOk {top : Slot P}
    (h : TreeOk first (fun addr => idr.top.occ addr) layers top memory)
    (hpos : 0 < layers) (hle : layers ≤ 4) :
    AllocOk idr { idr with top := top, layers := layers } first memory where
  ok := Or.inr ⟨hpos, hle, h.layerOk⟩
  le := h.le
  total addr := by
    have hocc := h.occ addr
    unfold total
    dsimp only
    omega

/-- An allocation after an allocation. -/
theorem AllocOk.trans {before middle after : Idr P} {memory' : Memory}
    (h : AllocOk before middle first memory) (hnext : AllocOk middle after memory.fresh memory') :
    AllocOk before after first memory' where
  ok := hnext.ok
  le := h.le.trans hnext.le
  total addr := by
    have hfirst := h.total addr
    have hsecond := hnext.total addr
    rw [between_trans h.le hnext.le]
    omega

theorem EmptySlot.Ok.trans {before middle : Idr P} {result : EmptySlot P}
    (h : AllocOk before middle first memory) (hnext : result.Ok middle memory.fresh) :
    result.Ok before first := by
  cases result with
  | failed idr error memory' => exact h.trans hnext
  | found idr leaf ary pa id memory' =>
      obtain ⟨halloc, htop, ⟨base, hsearch⟩, hbit⟩ := hnext
      refine ⟨h.trans halloc, htop, ⟨fun addr => base addr + between first memory.fresh addr,
        { hsearch with le := h.le.trans hsearch.le, occ := fun addr => ?_ }⟩, hbit⟩
      have hocc := hsearch.occ addr
      rw [between_trans h.le halloc.le]
      omega

theorem emptySlotFrom_ok {rounds : ℕ} {result : EmptySlot P}
    {again : Idr P → ℕ → Memory → Option (EmptySlot P)}
    (h : BuildOk idr first node ary layers memory)
    (hshape : IdrOk idr)
    (hbase : ∀ addr, first ≤ addr → total idr addr = 0)
    (hagain : ∀ {middle id memory result}, AllocOk idr middle first memory →
      again middle id memory = some result → result.Ok middle memory.fresh)
    (hresult : emptySlotFrom idr id rounds node ary layers memory again = some result) :
    result.Ok idr first := by
  have htop : ∀ addr, first ≤ addr → idr.top.occ addr = 0 := by
    intro addr hle
    have hzero := hbase addr hle
    unfold total at hzero
    omega
  unfold emptySlotFrom at hresult
  split at hresult
  · cases hresult
  · rename_i idFree memory' hbuild
    obtain rfl := Option.some.inj hresult
    obtain ⟨hle, hlisted⟩ := buildUpLoop_ok h htop hbuild
    refine ⟨hshape, hle, fun addr => ?_⟩
    have hadded := hlisted addr
    unfold total
    dsimp only
    omega
  · rename_i top ary' layers' memory' hbuild
    have hbuilt : BuildOk idr first top ary' layers' memory' := buildUpLoop_ok h htop hbuild
    have hsearch := hbuilt.tree.searchOk hbuilt.pos id
    dsimp only at hresult
    split at hresult
    · cases hresult
    · rename_i after next memory'' hfound
      have hok : TreeOk first _ layers' after memory'' := subAllocLoop_ok hsearch hfound
      have halloc := hok.allocOk hbuilt.pos hbuilt.le_four
      exact .trans halloc (hagain halloc hresult)
    · rename_i after error memory'' hfound
      obtain rfl := Option.some.inj hresult
      have hok : TreeOk first _ layers' after memory'' := subAllocLoop_ok hsearch hfound
      exact hok.allocOk hbuilt.pos hbuilt.le_four
    · rename_i leaf ary'' pa next memory'' hfound
      obtain rfl := Option.some.inj hresult
      obtain ⟨hok, hbit⟩ : SearchOk first _ layers' (.layer leaf ary'') pa 0 next memory'' ∧ _ :=
        subAllocLoop_ok hsearch hfound
      exact ⟨hok.treeOk.allocOk hbuilt.pos hbuilt.le_four, rfl, ⟨_, hok⟩, hbit⟩

theorem idrGetEmptySlot_ok {rounds jumps : ℕ} {result : EmptySlot P} (hshape : IdrOk idr)
    (hbase : ∀ addr, memory.fresh ≤ addr → total idr addr = 0)
    (hresult : idrGetEmptySlot rounds jumps idr id memory = some result) :
    result.Ok idr memory.fresh := by
  induction jumps generalizing idr id memory result with
  | zero => cases hresult
  | succ jumps ih =>
      have hagain : ∀ {first middle id memory' result},
          (∀ addr, first ≤ addr → total idr addr = 0) → AllocOk idr middle first memory' →
            idrGetEmptySlot rounds jumps middle id memory' = some result →
              result.Ok middle memory'.fresh := by
        intro first middle id memory' result hzero halloc hnext
        refine ih halloc.ok (fun addr hle => ?_) hnext
        have htotal := halloc.total addr
        have hout : between first memory'.fresh addr = 0 := if_neg (by omega)
        rw [hzero addr (halloc.le.trans hle), hout] at htotal
        omega
      rw [idrGetEmptySlot] at hresult
      split at hresult
      · rename_i p ary htop
        obtain ⟨hnull, -⟩ | ⟨hpos, hle, hlayer⟩ := hshape
        · rw [hnull] at htop
          cases htop
        · refine emptySlotFrom_ok ?_ (Or.inr ⟨hpos, hle, hlayer⟩) hbase (hagain hbase) hresult
          rw [htop] at hlayer
          exact
            { pos := hpos
              le_four := hle
              tree :=
                { layerOk := hlayer
                  le := le_rfl
                  occ := fun addr => by
                    rw [htop]
                    exact Nat.le_add_right _ _ }
              built := Or.inr (htop ▸ .same) }
      · split at hresult
        · rename_i memory' halloc
          obtain rfl := Option.some.inj hresult
          have hfresh := idrLayerAlloc_none halloc
          exact ⟨hshape, hfresh.ge, fun addr => Nat.le_add_right _ _⟩
        · rename_i new memory' halloc
          obtain ⟨hfresh, haddr, hcount, hbits⟩ := idrLayerAlloc_some halloc
          refine emptySlotFrom_ok ?_ hshape hbase (hagain hbase) hresult
          exact
            { pos := Nat.one_pos
              le_four := by decide
              tree :=
                { layerOk := .of_empty hcount (fun _ _ => rfl) fun n _ => hbits n
                  le := hfresh.symm ▸ Nat.le_succ _
                  occ := fun addr => by
                    rw [occ_of_null addr fun _ _ => rfl, hfresh, between_succ le_rfl, haddr]
                    omega }
              built := Or.inl hcount }

/-- **`idr_alloc` keeps the tree well-formed**, whatever it returns. -/
theorem idrAlloc_ok {rounds : ℕ} {value : Option P} {start limit : BitVec 32} {after : Idr P}
    {memory' : Memory} {result : Except Error ℕ} (hshape : IdrOk idr)
    (hbase : ∀ addr, memory.fresh ≤ addr → total idr addr = 0)
    (hresult : idrAlloc rounds idr value start limit memory = some (after, memory', result)) :
    AllocOk idr after memory.fresh memory' := by
  have hsame : AllocOk idr idr memory.fresh memory :=
    ⟨hshape, le_rfl, fun addr => Nat.le_add_right _ _⟩
  unfold idrAlloc at hresult
  dsimp only at hresult
  generalize (if 0 < limit.toInt then limit.toInt - 1 else 2 ^ 31 - 1) = max at hresult
  split at hresult
  · obtain ⟨rfl, rfl, -⟩ : _ ∧ _ ∧ _ := by simpa using hresult
    exact hsame
  · split at hresult
    · obtain ⟨rfl, rfl, -⟩ : _ ∧ _ ∧ _ := by simpa using hresult
      exact hsame
    · split at hresult
      · cases hresult
      · rename_i idr' error memory'' hslot
        obtain ⟨rfl, rfl, -⟩ : _ ∧ _ ∧ _ := by simpa using hresult
        exact idrGetEmptySlot_ok hshape hbase hslot
      · rename_i idr' leaf ary pa id memory'' hslot
        obtain ⟨halloc, htop, ⟨base, hsearch⟩, hbit⟩ := idrGetEmptySlot_ok hshape hbase hslot
        split at hresult
        · obtain ⟨rfl, rfl, -⟩ : _ ∧ _ ∧ _ := by simpa using hresult
          exact halloc
        · obtain ⟨rfl, rfl, -⟩ : _ ∧ _ ∧ _ := by simpa using hresult
          obtain ⟨hlayer, hocc⟩ := idrFillSlot_ok hsearch hbit idr' value
          have hlt := hsearch.path.lt
          refine ⟨Or.inr ⟨Nat.zero_lt_of_lt hlt, ?_, hlayer⟩, halloc.le, fun addr => ?_⟩
          · obtain ⟨-, hzero⟩ | ⟨-, hle, -⟩ := halloc.ok
            · show idr'.layers ≤ 4
              omega
            · exact hle
          · have hle := halloc.total addr
            have hfill := hocc addr
            unfold total at hle ⊢
            rw [htop] at hle
            show (idrFillSlot idr' value id leaf ary pa).top.occ addr + listed addr idr'.idFree ≤ _
            omega

end Search

end Webcamd.Kernel.IdrTree
