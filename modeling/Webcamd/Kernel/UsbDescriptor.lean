import Webcamd.Library.Loop

/-!
# Descriptor lists

A USB device describes itself by a list of *descriptors*, one after the other in a buffer; the
first byte of each is its length and the second its type.  `__usb_get_extra_descriptor` looks for
the first one of a type.

* `DescriptorWalk` — the variables of the walk, with the bytes that it has read.
* `Descriptors` — a part of the buffer is a list of descriptors, which start at these places.
* `getExtraDescriptor_eq` — what the walk does: it turns around at the first descriptor of any
  buffer with something behind that descriptor.
* `getExtraDescriptor_parses_iff` — so it does what it is for exactly when no list of two or more
  has the type, and the first descriptor does not reach past the end with another type.
-/

namespace Webcamd.Kernel.Usb

open Webcamd.Library

/-- Where the walk is: in the loop, or back with `*ptr` and `0`, or with `-1`. -/
inductive WalkPc where
  | walking
  | returned (ptr : Option ℕ)
  deriving DecidableEq

/-- The variables of `__usb_get_extra_descriptor`. -/
structure DescriptorWalk where
  pc : WalkPc
  /-- `buffer`, counted from where it pointed first -/
  buffer : ℕ
  size : BitVec 32
  /-- The places of the bytes that have been read. -/
  reads : List ℕ
  deriving DecidableEq

/-- `return` -/
def DescriptorWalk.stop (walk : DescriptorWalk) (ptr : Option ℕ) : DescriptorWalk :=
  { walk with pc := .returned ptr }

def DescriptorWalk.read (walk : DescriptorWalk) (place : ℕ) : DescriptorWalk :=
  { walk with reads := walk.reads ++ [place] }

/-- One round of the loop. -/
def DescriptorWalk.step (memory : ℕ → BitVec 8) (type : BitVec 8) (walk : DescriptorWalk) :
    Option DescriptorWalk :=
  match walk.pc with
  | .returned _ => none
  | .walking =>
      if walk.size.toNat < 2 then some (walk.stop none)
      else
        let bLength := memory walk.buffer
        let header := walk.read walk.buffer
        if bLength.toNat < 2 then some (header.stop none)
        else if bLength.toNat < walk.size.toNat then some (header.stop none)
        else
          let typed := header.read (walk.buffer + 1)
          if memory (walk.buffer + 1) = type then some (typed.stop (some walk.buffer))
          else some
            { typed with
              buffer := walk.buffer + bLength.toNat
              size := walk.size - bLength.zeroExtend 32 }

/-- The size only grows by wrapping around, and then no descriptor is that long. -/
def DescriptorWalk.work (walk : DescriptorWalk) : ℕ :=
  match walk.pc with
  | .returned _ => 0
  | .walking => if walk.size.toNat < 2 then 1 else if 255 < walk.size.toNat then 2 else 3

/-- What is left of the size behind a descriptor that is at least that long. -/
theorem toNat_sub_bLength {size : BitVec 32} {bLength : BitVec 8}
    (h : size.toNat ≤ bLength.toNat) :
    (size - bLength.zeroExtend 32).toNat = 0 ∧ size.toNat = bLength.toNat ∨
      255 < (size - bLength.zeroExtend 32).toNat ∧ size.toNat < bLength.toNat := by
  have hlength := bLength.isLt
  have hextend : (bLength.zeroExtend 32).toNat = bLength.toNat := by
    rw [BitVec.toNat_setWidth]
    omega
  rw [BitVec.toNat_sub, hextend]
  omega

/-- A round that goes on makes the size zero, or wraps it around. -/
theorem DescriptorWalk.work_lt {memory : ℕ → BitVec 8} {type : BitVec 8}
    {walk next : DescriptorWalk} (h : walk.step memory type = some next) :
    next.work < walk.work := by
  have hwalking : walk.pc = .walking := by
    cases hpc : walk.pc with
    | walking => rfl
    | returned ptr => simp [step, hpc] at h
  have hpos : 0 < walk.work := by
    rw [work, hwalking]
    show 0 < if walk.size.toNat < 2 then 1 else _
    split_ifs <;> omega
  simp only [step, hwalking] at h
  split_ifs at h with hsmall hshort hbehind htype
  · obtain rfl := Option.some.inj h
    exact hpos
  · obtain rfl := Option.some.inj h
    exact hpos
  · obtain rfl := Option.some.inj h
    exact hpos
  · obtain rfl := Option.some.inj h
    exact hpos
  · obtain rfl := Option.some.inj h
    have hlength := (memory walk.buffer).isLt
    have hnot : ¬ 255 < walk.size.toNat := by omega
    have hwork : walk.work = 3 := by
      simp [work, hwalking, hsmall, hnot]
    rw [hwork]
    simp only [work, read, hwalking]
    rcases toNat_sub_bLength (Nat.le_of_not_lt hbehind) with ⟨hzero, -⟩ | ⟨hwrapped, -⟩
    · rw [hzero]
      decide
    · rw [if_neg (by omega), if_pos hwrapped]
      decide

/-- The loop of `__usb_get_extra_descriptor`; it terminates. -/
def descriptorLoop (memory : ℕ → BitVec 8) (type : BitVec 8) : Loop DescriptorWalk where
  step := DescriptorWalk.step memory type
  work := DescriptorWalk.work
  work_lt := DescriptorWalk.work_lt

/-- `__usb_get_extra_descriptor`, with the bytes that it has read. -/
def getExtraDescriptor (memory : ℕ → BitVec 8) (size : BitVec 32) (type : BitVec 8) :
    DescriptorWalk :=
  (descriptorLoop memory type).finish ⟨.walking, 0, size, []⟩

/-! ### What it is for -/

/-- From one place to another the buffer is a list of descriptors, which start at these
places. -/
inductive Descriptors (memory : ℕ → BitVec 8) : ℕ → ℕ → List ℕ → Prop where
  | nil (place : ℕ) : Descriptors memory place place []
  | cons {place last : ℕ} {starts : List ℕ} (hlength : 2 ≤ (memory place).toNat)
      (rest : Descriptors memory (place + (memory place).toNat) last starts) :
      Descriptors memory place last (place :: starts)

/-- The first descriptor of the type. -/
def firstOfType (memory : ℕ → BitVec 8) (type : BitVec 8) (starts : List ℕ) : Option ℕ :=
  starts.find? fun start => decide (memory (start + 1) = type)

/-- **What the function is for.** -/
structure ParsesDescriptors (memory : ℕ → BitVec 8) (size : BitVec 32) (type : BitVec 8)
    (walk : DescriptorWalk) : Prop where
  /-- It returns. -/
  returns : ∃ ptr, walk.pc = .returned ptr
  /-- It reads the buffer only. -/
  inside : ∀ place ∈ walk.reads, place < size.toNat
  /-- In a list of descriptors it finds the first one of the type. -/
  finds : ∀ starts, Descriptors memory 0 size.toNat starts →
    walk.pc = .returned (firstOfType memory type starts)

/-! ### What it does -/

section Walk

variable {memory : ℕ → BitVec 8} {size : BitVec 32} {type : BitVec 8}

/-- The loop ends with the round that returns. -/
theorem finish_of_stop {walk last : DescriptorWalk} {ptr : Option ℕ}
    (h : walk.step memory type = some (last.stop ptr)) :
    (descriptorLoop memory type).finish walk = last.stop ptr := by
  rw [(descriptorLoop memory type).finish_of_some h]
  exact (descriptorLoop memory type).finish_of_none rfl

theorem finish_of_size {walk : DescriptorWalk} (hwalking : walk.pc = .walking)
    (hsmall : walk.size.toNat < 2) :
    (descriptorLoop memory type).finish walk = walk.stop none := by
  apply finish_of_stop
  simp only [DescriptorWalk.step, hwalking, if_pos hsmall]

/-- The walk turns around at a descriptor with something behind it. -/
theorem finish_of_bLength {walk : DescriptorWalk} (hwalking : walk.pc = .walking)
    (hsize : 2 ≤ walk.size.toNat)
    (hlength : (memory walk.buffer).toNat < 2 ∨
      (memory walk.buffer).toNat < walk.size.toNat) :
    (descriptorLoop memory type).finish walk = (walk.read walk.buffer).stop none := by
  apply finish_of_stop
  simp only [DescriptorWalk.step, hwalking, if_neg (Nat.not_lt.mpr hsize)]
  rcases hlength with hshort | hbehind
  · rw [if_pos hshort]
  · by_cases hshort : (memory walk.buffer).toNat < 2
    · rw [if_pos hshort]
    · rw [if_neg hshort, if_pos hbehind]

/-- The first round, for a descriptor that fills the buffer or reaches past its end. -/
theorem step_of_filling {walk : DescriptorWalk} (hwalking : walk.pc = .walking)
    (hsize : 2 ≤ walk.size.toNat) (hfills : walk.size.toNat ≤ (memory walk.buffer).toNat) :
    walk.step memory type =
      let typed := (walk.read walk.buffer).read (walk.buffer + 1)
      if memory (walk.buffer + 1) = type then some (typed.stop (some walk.buffer))
      else some
        { typed with
          buffer := walk.buffer + (memory walk.buffer).toNat
          size := walk.size - (memory walk.buffer).zeroExtend 32 } := by
  simp only [DescriptorWalk.step, hwalking, if_neg (Nat.not_lt.mpr hsize),
    if_neg (Nat.not_lt.mpr hfills), if_neg (Nat.not_lt.mpr (hsize.trans hfills))]

theorem getExtraDescriptor_of_size (hsmall : size.toNat < 2) :
    getExtraDescriptor memory size type = ⟨.returned none, 0, size, []⟩ :=
  finish_of_size rfl hsmall

theorem getExtraDescriptor_of_bLength (hsize : 2 ≤ size.toNat)
    (hlength : (memory 0).toNat < 2 ∨ (memory 0).toNat < size.toNat) :
    getExtraDescriptor memory size type = ⟨.returned none, 0, size, [0]⟩ :=
  finish_of_bLength rfl hsize hlength

theorem getExtraDescriptor_of_type (hsize : 2 ≤ size.toNat)
    (hfills : size.toNat ≤ (memory 0).toNat) (htype : memory 1 = type) :
    getExtraDescriptor memory size type = ⟨.returned (some 0), 0, size, [0, 1]⟩ := by
  refine @finish_of_stop memory type _ ⟨.walking, 0, size, [0, 1]⟩ (some 0) ?_
  rw [step_of_filling rfl hsize hfills]
  exact if_pos htype

/-- Behind a descriptor of another type that fills the buffer the walk ends; behind one that
reaches past the end it looks at one more byte. -/
theorem getExtraDescriptor_of_ne (hsize : 2 ≤ size.toNat)
    (hfills : size.toNat ≤ (memory 0).toNat) (htype : memory 1 ≠ type) :
    (getExtraDescriptor memory size type).pc = .returned none ∧
      (getExtraDescriptor memory size type).reads =
        if size.toNat = (memory 0).toNat then [0, 1] else [0, 1, (memory 0).toNat] := by
  let next : DescriptorWalk :=
    ⟨.walking, 0 + (memory 0).toNat, size - (memory 0).zeroExtend 32, [0, 1]⟩
  have hstep : (⟨.walking, 0, size, []⟩ : DescriptorWalk).step memory type = some next := by
    rw [step_of_filling rfl hsize hfills]
    exact if_neg htype
  have hgoes : getExtraDescriptor memory size type =
      (descriptorLoop memory type).finish next :=
    (descriptorLoop memory type).finish_of_some hstep
  rcases toNat_sub_bLength hfills with ⟨hzero, hequal⟩ | ⟨hwrapped, hlt⟩
  · have hsmall : next.size.toNat < 2 := by
      show (size - (memory 0).zeroExtend 32).toNat < 2
      omega
    rw [hgoes, finish_of_size rfl hsmall, if_pos hequal]
    exact ⟨rfl, rfl⟩
  · -- the size has wrapped around, and no descriptor is that long
    have hbehind : (memory next.buffer).toNat < next.size.toNat := by
      have hlength := (memory next.buffer).isLt
      show _ < (size - (memory 0).zeroExtend 32).toNat
      omega
    have hlarge : 2 ≤ next.size.toNat := by
      show 2 ≤ (size - (memory 0).zeroExtend 32).toNat
      omega
    rw [hgoes, finish_of_bLength rfl hlarge (Or.inr hbehind), if_neg hlt.ne]
    refine ⟨rfl, ?_⟩
    show [0, 1] ++ [0 + (memory 0).toNat] = _
    rw [Nat.zero_add]
    rfl

/-- A list of descriptors ends where its places end. -/
theorem Descriptors.le {place last : ℕ} {starts : List ℕ}
    (h : Descriptors memory place last starts) : place ≤ last := by
  induction h with
  | nil place => exact le_rfl
  | cons hlength rest ih => exact (Nat.le_add_right _ _).trans ih

/-- A list of one descriptor, or none, fills the buffer with it. -/
theorem Descriptors.short {last : ℕ} {starts : List ℕ}
    (h : Descriptors memory 0 last starts) :
    starts = [] ∧ last = 0 ∨
      2 ≤ (memory 0).toNat ∧ (starts = [0] ∧ last = (memory 0).toNat ∨
        2 ≤ starts.length ∧ (memory 0).toNat + 2 ≤ last) := by
  cases h with
  | nil => exact Or.inl ⟨rfl, rfl⟩
  | @cons _ _ starts hlength rest =>
      refine Or.inr ⟨hlength, ?_⟩
      rw [Nat.zero_add] at rest
      cases rest with
      | nil => exact Or.inl ⟨rfl, rfl⟩
      | @cons _ _ starts hnext rest =>
          have hle := rest.le
          refine Or.inr ⟨?_, by omega⟩
          simp

/-- The first descriptor reaches past the end of the buffer, and has another type. -/
def RunsPast (memory : ℕ → BitVec 8) (size : BitVec 32) (type : BitVec 8) : Prop :=
  2 ≤ size.toNat ∧ size.toNat < (memory 0).toNat ∧ memory 1 ≠ type

/-- There is no first descriptor where there is none of the type. -/
theorem firstOfType_eq_none_iff {starts : List ℕ} :
    firstOfType memory type starts = none ↔ ∀ start ∈ starts, memory (start + 1) ≠ type := by
  simp [firstOfType]

/-- **The walk always returns.** -/
theorem getExtraDescriptor_returns :
    ∃ ptr, (getExtraDescriptor memory size type).pc = .returned ptr := by
  have hend : DescriptorWalk.step memory type (getExtraDescriptor memory size type) = none :=
    (descriptorLoop memory type).step_finish _
  cases hpc : (getExtraDescriptor memory size type).pc with
  | returned ptr => exact ⟨ptr, rfl⟩
  | walking =>
      simp only [DescriptorWalk.step, hpc] at hend
      split_ifs at hend

/-- **It reads the buffer only**, but for a first descriptor that reaches past the end. -/
theorem getExtraDescriptor_inside_iff :
    (∀ place ∈ (getExtraDescriptor memory size type).reads, place < size.toNat) ↔
      ¬ RunsPast memory size type := by
  by_cases hsize : 2 ≤ size.toNat
  · by_cases hfills : size.toNat ≤ (memory 0).toNat
    · by_cases htype : memory 1 = type
      · rw [getExtraDescriptor_of_type hsize hfills htype]
        refine iff_of_true (fun place hplace => ?_) fun hpast => hpast.2.2 htype
        rcases List.mem_pair.mp hplace with rfl | rfl <;> omega
      · rw [(getExtraDescriptor_of_ne hsize hfills htype).2]
        by_cases hequal : size.toNat = (memory 0).toNat
        · rw [if_pos hequal]
          refine iff_of_true (fun place hplace => ?_) fun hpast => hpast.2.1.ne hequal
          rcases List.mem_pair.mp hplace with rfl | rfl <;> omega
        · rw [if_neg hequal]
          refine iff_of_false (fun hall => ?_) (not_not.mpr ⟨hsize, by omega, htype⟩)
          have hread := hall (memory 0).toNat (by simp)
          omega
    · rw [getExtraDescriptor_of_bLength hsize (Or.inr (Nat.lt_of_not_le hfills))]
      refine iff_of_true (fun place hplace => ?_) fun hpast => hfills hpast.2.1.le
      obtain rfl := List.mem_singleton.mp hplace
      omega
  · rw [getExtraDescriptor_of_size (Nat.lt_of_not_le hsize)]
    exact iff_of_true (fun place hplace => absurd hplace List.not_mem_nil) fun hpast =>
      hsize hpast.1

/-- **What it finds in a list of descriptors**: nothing, if there are two or more. -/
theorem getExtraDescriptor_of_descriptors {starts : List ℕ}
    (h : Descriptors memory 0 size.toNat starts) :
    (getExtraDescriptor memory size type).pc =
      .returned (if 2 ≤ starts.length then none else firstOfType memory type starts) := by
  rcases h.short with ⟨rfl, hsize⟩ | ⟨hlength, ⟨rfl, hsize⟩ | ⟨hmany, hsize⟩⟩
  · rw [getExtraDescriptor_of_size (by omega)]
    rfl
  · have hlarge : 2 ≤ size.toNat := by omega
    by_cases htype : memory 1 = type
    · rw [getExtraDescriptor_of_type hlarge hsize.le htype]
      simp [firstOfType, htype]
    · rw [(getExtraDescriptor_of_ne hlarge hsize.le htype).1]
      simp [firstOfType, htype]
  · rw [getExtraDescriptor_of_bLength (by omega) (Or.inr (by omega)), if_pos hmany]

/-- **`__usb_get_extra_descriptor` does what it is for** exactly when no list of two or more
descriptors has the type, and the first descriptor does not reach past the end of the buffer
with another type. -/
theorem getExtraDescriptor_parses_iff :
    ParsesDescriptors memory size type (getExtraDescriptor memory size type) ↔
      ¬ RunsPast memory size type ∧
        ∀ starts, Descriptors memory 0 size.toNat starts → 2 ≤ starts.length →
          ∀ start ∈ starts, memory (start + 1) ≠ type := by
  constructor
  · intro h
    refine ⟨getExtraDescriptor_inside_iff.mp h.inside, fun starts hstarts hmany => ?_⟩
    have hfound := h.finds starts hstarts
    rw [getExtraDescriptor_of_descriptors hstarts, if_pos hmany] at hfound
    exact firstOfType_eq_none_iff.mp (WalkPc.returned.inj hfound).symm
  · rintro ⟨hpast, hnone⟩
    refine ⟨getExtraDescriptor_returns, getExtraDescriptor_inside_iff.mpr hpast,
      fun starts hstarts => ?_⟩
    rw [getExtraDescriptor_of_descriptors hstarts]
    split_ifs with hmany
    · rw [firstOfType_eq_none_iff.mpr (hnone starts hstarts hmany)]
    · rfl

end Walk

/-- Two descriptors of two bytes, with the types five and seven. -/
def twoDescriptors : ℕ → BitVec 8
  | 1 => 5
  | 3 => 7
  | _ => 2

/-- The first of them is not found. -/
theorem getExtraDescriptor_misses :
    ¬ ParsesDescriptors twoDescriptors 4 5 (getExtraDescriptor twoDescriptors 4 5) := by
  intro h
  have hlist : Descriptors twoDescriptors 0 4 [0, 2] :=
    .cons (by decide) (.cons (by decide) (.nil 4))
  have hfound := h.finds [0, 2] hlist
  rw [getExtraDescriptor_of_bLength (by decide) (Or.inr (by decide))] at hfound
  exact absurd hfound (by decide)

end Webcamd.Kernel.Usb
