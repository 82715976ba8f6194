import Webcamd.Library.NextKey
import Webcamd.Kernel.IdrSearch

/-!
# Going through the ids

`idr_for_each` and `idr_get_next` go down to the slot of an id, and go on behind it, or behind the
part of the tree that is missing.  Both keep the way from the top in `pa[]`, and go back up by as
many layers as the new id has changed.

* `iterDescend`, `iterPop` — the two inner loops, which both functions have.  There is no result
  where an element before `pa[0]` would be read, or a pointer of the user would be taken for a layer.
* `idrForEach`, `idrGetNext`, `idrIsEmpty` — the functions.
* `content` — the pointer that is stored below a slot.
* `Spine` — **what `pa[]` has**: the slots on the way to the id, from a height on.
* `Cursor`, `Cursor.next` — what holds at the head of the loops, and is kept by a round.
* `idrForEach_visits`, `idrGetNext_isNext` — every pointer is visited once, in ascending order of the
  ids; the next one is that of the least id.
-/

namespace Webcamd.Kernel.IdrTree

open Bitmap Webcamd.Library

variable {P σ : Type}

/-! ### The functions -/

/-- `while (n > 0 && p)`; `n` is counted in layers. -/
def iterDescend (id : ℕ) : (n : ℕ) → List (Slot P) → Option (ℕ × List (Slot P))
  | n + 1, .layer node ary :: pa =>
      iterDescend id n (ary (digit n id) :: .layer node ary :: pa)
  | _ + 1, .ptr _ :: _ => none
  | _, [] => none
  | n, pa => some (n, pa)

/-- `while (n < fls(id))` -/
def iterPop (id : ℕ) : (n : ℕ) → List (Slot P) → ℕ × List (Slot P)
  | n, [] => (n, [])
  | n, p :: pa =>
      if idrBits * n < fls (BitVec.ofNat 32 id) then iterPop id (n + 1) pa else (n, p :: pa)

/-- The loop of `idr_for_each`.  The callback gets the id and the pointer, and changes what `data`
points to. -/
def forEachLoop (fn : σ → ℕ → P → σ × ℤ) (max : ℕ) :
    ℕ → σ → (id n : ℕ) → List (Slot P) → Option (σ × ℤ)
  | 0, _, _, _, _ => none
  | rounds + 1, data, id, n, pa =>
      if id < maxIdrBit ∧ id ≤ max then
        match iterDescend id n pa with
        | some (n, .null :: pa) =>
            let id := id + 1 <<< (idrBits * n)
            let (n, pa) := iterPop id n (.null :: pa)
            forEachLoop fn max rounds data id n pa
        | some (n, .ptr value :: pa) =>
            let (data, error) := fn data id value
            if error ≠ 0 then some (data, error)
            else
              let id := id + 1 <<< (idrBits * n)
              let (n, pa) := iterPop id n (.ptr value :: pa)
              forEachLoop fn max rounds data id n pa
        | _ => none -- a layer would be taken for a pointer of the user
      else some (data, 0)

/-- `idr_for_each`; every round adds to the id, so that one for each id is enough. -/
def idrForEach (fn : σ → ℕ → P → σ × ℤ) (data : σ) (idr : Idr P) : Option (σ × ℤ) :=
  let max := idrMax idr.layers
  forEachLoop fn max (max + 2) data 0 idr.layers [idr.top]

/-- `idr_is_empty`, with the callback `idr_has_entry` -/
def idrIsEmpty (idr : Idr P) : Option Bool :=
  (idrForEach (fun (data : Unit) _ _ => (data, 1)) () idr).map fun result => result.2 = 0

/-- The loop of `idr_get_next`. -/
def getNextLoop (max : ℕ) : ℕ → (id n : ℕ) → List (Slot P) → Option (Option (ℕ × P))
  | 0, _, _, _ => none
  | rounds + 1, id, n, pa =>
      if id < maxIdrBit ∧ id ≤ max then
        match iterDescend id n pa with
        | some (n, .null :: pa) =>
            -- `round_up(id + 1, 1 << n)`
            let id := (id ||| (1 <<< (idrBits * n) - 1)) + 1
            let (n, pa) := iterPop id n (.null :: pa)
            getNextLoop max rounds id n pa
        | some (_, .ptr value :: _) => some (some (id, value))
        | _ => none
      else some none

/-- `idr_get_next`: the pointer, with the id for `*nextidp`. -/
def idrGetNext (idr : Idr P) (nextId : BitVec 32) : Option (Option (ℕ × P)) :=
  match idr.top with
  | .null => some none
  | .ptr _ => none
  | .layer node ary =>
      if nextId.toInt < 0 then some none
      else
        let max := idrMax (node.layer + 1)
        getNextLoop max (max + 2) nextId.toNat (node.layer + 1) [.layer node ary]

/-! ### What is stored below a slot -/

/-- The pointer of an id below a slot at a height, if it is not `NULL`. -/
def content (id : ℕ) : (n : ℕ) → Slot P → Option P
  | 0, .ptr value => some value
  | n + 1, .layer _ ary => content id n (ary (digit n id))
  | _, _ => none

variable {l layers id other n m k base max : ℕ} {node : Layer} {ary : ℕ → Slot P}
variable {p top : Slot P} {pa : List (Slot P)} {idr : Idr P}

theorem content_null (id n : ℕ) : content id n (.null : Slot P) = none := by
  cases n <;> rfl

theorem content_succ (id n : ℕ) (node : Layer) (ary : ℕ → Slot P) :
    content id (n + 1) (.layer node ary) = content id n (ary (digit n id)) := rfl

/-- The pointers of a layer are those that are stored. -/
theorem content_eq (hok : LayerOk l p) (h : Placed l base p) (id : ℕ) :
    content id (l + 1) p = (lookup id l p).join := by
  induction l generalizing p base with
  | zero =>
      obtain ⟨node, ary, rfl⟩ := h.exists_layer
      have hpointer := h.2.2 _ (digit_lt 0 id)
      have hfree := hok.2 _ (digit_lt 0 id)
      rw [content_succ, lookup]
      cases hslot : ary (digit 0 id) with
      | null => cases testBit (digit 0 id) node.bitmap <;> rfl
      | layer node' ary' =>
          rw [hslot] at hpointer
          cases hpointer
      | ptr value =>
          have hbit : testBit (digit 0 id) node.bitmap = true := by
            rw [← Bool.not_eq_false]
            intro hclear
            cases (hfree hclear).symm.trans hslot
          rw [if_pos hbit]
          rfl
  | succ l ih =>
      obtain ⟨node, ary, rfl⟩ := h.exists_layer
      rw [content_succ, lookup_succ]
      obtain ⟨hchild, -⟩ := hok.2 _ (digit_lt (l + 1) id)
      obtain hnull | ⟨hplaced, -⟩ := h.2 _ (digit_lt (l + 1) id)
      · rw [hnull, content_null, lookup_null]
        rfl
      · obtain ⟨child, slots, hlayer⟩ := hplaced.exists_layer
        exact ih (hchild.resolve_left fun hnull => by cases hnull.symm.trans hlayer) hplaced

/-- A slot at a height: what there is at the height of the pointers is a pointer, and above it a
layer. -/
def SlotOk (n : ℕ) (p : Slot P) : Prop :=
  match n with
  | 0 => p.pointer.isSome = true
  | l + 1 => p = .null ∨ ∃ base, Placed l base p

theorem SlotOk.child (h : SlotOk (n + 1) (.layer node ary)) (id : ℕ) :
    SlotOk n (ary (digit n id)) := by
  obtain hnull | ⟨base, hplaced⟩ := h
  · cases hnull
  · cases n with
    | zero => exact hplaced.2.2 _ (digit_lt 0 id)
    | succ l =>
        exact (hplaced.2 _ (digit_lt (l + 1) id)).imp_right fun hchild => ⟨_, hchild.1⟩

/-! ### The way from the top -/

/-- **What `pa[]` has**: the slots on the way from the top to the id, that at the height `n` first. -/
inductive Spine (id layers : ℕ) (top : Slot P) : ℕ → List (Slot P) → Prop where
  | top : Spine id layers top layers [top]
  | down {n : ℕ} {node : Layer} {ary : ℕ → Slot P} {pa : List (Slot P)}
      (h : Spine id layers top (n + 1) (.layer node ary :: pa)) :
      Spine id layers top n (ary (digit n id) :: .layer node ary :: pa)

theorem Spine.le (h : Spine id layers top n pa) : n ≤ layers := by
  induction h with
  | top => exact le_rfl
  | down h ih => exact Nat.le_of_succ_le ih

theorem Spine.ne_nil (h : Spine id layers top n []) : False := by
  cases h

theorem Spine.eq_layers (h : Spine id layers top n [p]) : n = layers := by
  cases h with
  | top => rfl

theorem Spine.pop {q : Slot P} (h : Spine id layers top n (p :: q :: pa)) :
    Spine id layers top (n + 1) (q :: pa) := by
  cases h with
  | down h => exact h

/-- Only the digits from the height on matter. -/
theorem Spine.congr (h : Spine id layers top n pa)
    (hsame : id / 2 ^ (8 * n) = other / 2 ^ (8 * n)) : Spine other layers top n pa := by
  induction h with
  | top => exact .top
  | @down n node ary pa h ih =>
      have hdigit : digit n id = digit n other := by
        rw [digit_eq, digit_eq, hsame]
      rw [hdigit]
      exact .down (ih (div_congr hsame (Nat.le_succ n)))

theorem Spine.unique {pa' : List (Slot P)} (h : Spine id layers top n pa)
    (h' : Spine id layers top n pa') : pa = pa' := by
  induction h generalizing pa' with
  | top =>
      cases h' with
      | top => rfl
      | down h' => exact absurd h'.le (Nat.not_succ_le_self _)
  | @down n node ary pa h ih =>
      cases h' with
      | top => exact absurd h.le (Nat.not_succ_le_self _)
      | down h' =>
          obtain ⟨hlayer, rfl⟩ := List.cons.inj (ih h')
          obtain ⟨rfl, rfl⟩ := Slot.layer.inj hlayer
          rfl

/-- Above a slot on the way there are layers. -/
theorem Spine.above (h : Spine id layers top n pa) (hlt : n < m) (hle : m ≤ layers) :
    ∃ node ary rest, Spine id layers top m (.layer node ary :: rest) := by
  induction h with
  | top => exact absurd hlt (not_lt.mpr hle)
  | @down n node ary pa h ih =>
      obtain hmore | rfl := (Nat.succ_le_of_lt hlt).lt_or_eq
      · exact ih hmore
      · exact ⟨node, ary, pa, h⟩

theorem Spine.slotOk (htop : SlotOk layers top) (h : Spine id layers top n (p :: pa)) :
    SlotOk n p := by
  obtain ⟨slots, hslots⟩ : ∃ slots, slots = p :: pa := ⟨_, rfl⟩
  rw [← hslots] at h
  induction h generalizing p pa with
  | top =>
      obtain ⟨rfl, -⟩ := List.cons.inj hslots
      exact htop
  | down h ih =>
      obtain ⟨rfl, -⟩ := List.cons.inj hslots
      exact (ih rfl).child id

/-- What is below a slot on the way is what is in the tree. -/
theorem Spine.content (h : Spine id layers top n (p :: pa))
    (hsame : k / 2 ^ (8 * n) = id / 2 ^ (8 * n)) : content k layers top = content k n p := by
  obtain ⟨slots, hslots⟩ : ∃ slots, slots = p :: pa := ⟨_, rfl⟩
  rw [← hslots] at h
  induction h generalizing p pa with
  | top =>
      obtain ⟨rfl, -⟩ := List.cons.inj hslots
      rfl
  | @down n node ary pa h ih =>
      obtain ⟨rfl, -⟩ := List.cons.inj hslots
      have hdigit : digit n k = digit n id := by
        rw [digit_eq, digit_eq, hsame]
      rw [ih (div_congr hsame (Nat.le_succ n)) rfl, content_succ, hdigit]

/-- **The way down** ends at a pointer, or where there is nothing. -/
theorem iterDescend_spine (htop : SlotOk layers top) (h : Spine id layers top n (p :: pa)) :
    ∃ m q rest, iterDescend id n (p :: pa) = some (m, q :: rest) ∧
      Spine id layers top m (q :: rest) ∧ (q = .null ∨ (m = 0 ∧ ∃ value, q = .ptr value)) := by
  induction n generalizing p pa with
  | zero =>
      have hpointer : p.pointer.isSome = true := h.slotOk htop
      refine ⟨0, p, pa, rfl, h, ?_⟩
      cases p with
      | null => exact Or.inl rfl
      | ptr value => exact Or.inr ⟨rfl, value, rfl⟩
      | layer node ary => cases hpointer
  | succ n ih =>
      obtain rfl | ⟨base, hplaced⟩ := h.slotOk htop
      · exact ⟨n + 1, .null, pa, rfl, h, Or.inl rfl⟩
      · obtain ⟨node, ary, rfl⟩ := hplaced.exists_layer
        exact ih h.down

/-- **The way up** ends where the new id has the same way from the top as the old one. -/
theorem iterPop_spine (h : Spine id layers top n pa) (hlt : id < other)
    (hfits : other < 2 ^ (8 * layers)) (hsmall : other < 2 ^ 32) :
    ∃ m rest, iterPop other n pa = (m, rest) ∧ Spine other layers top m rest := by
  have htest : ∀ n, idrBits * n < fls (BitVec.ofNat 32 other) ↔ 2 ^ (8 * n) ≤ other := by
    intro n
    rw [fls_eq_size, BitVec.toNat_ofNat, Nat.mod_eq_of_lt hsmall]
    exact Nat.lt_size
  induction pa generalizing n with
  | nil => exact h.ne_nil.elim
  | cons p rest ih =>
      rw [iterPop]
      by_cases hpop : 2 ^ (8 * n) ≤ other
      · rw [if_pos ((htest n).mpr hpop)]
        cases rest with
        | nil =>
            rw [h.eq_layers] at hpop
            exact absurd hfits (not_lt.mpr hpop)
        | cons q rest => exact ih h.pop
      · rw [if_neg (mt (htest n).mp hpop)]
        have hzero := not_le.mp hpop
        refine ⟨n, p :: rest, rfl, h.congr ?_⟩
        rw [Nat.div_eq_of_lt hzero, Nat.div_eq_of_lt (hlt.trans hzero)]

/-! ### The next id -/

theorem lt_next (id n : ℕ) : id < (id / 2 ^ (8 * n) + 1) * 2 ^ (8 * n) :=
  Nat.lt_mul_of_div_lt (Nat.lt_succ_self _) (Nat.two_pow_pos _)

/-- The ids before the next one are below the same slot. -/
theorem div_of_lt_next (hk : id ≤ k) (hlt : k < (id / 2 ^ (8 * n) + 1) * 2 ^ (8 * n)) :
    k / 2 ^ (8 * n) = id / 2 ^ (8 * n) := by
  have hlow := Nat.div_le_div_right (c := 2 ^ (8 * n)) hk
  have hup := (Nat.div_lt_iff_lt_mul (Nat.two_pow_pos _)).mpr hlt
  omega

/-- Where the ids begin that are below a slot, the next one is one size further on. -/
theorem add_size_eq (hdvd : 2 ^ (8 * n) ∣ id) :
    id + 1 <<< (idrBits * n) = (id / 2 ^ (8 * n) + 1) * 2 ^ (8 * n) := by
  rw [Nat.shiftLeft_eq, Nat.one_mul]
  show id + 2 ^ (8 * n) = _
  rw [Nat.add_mul (id / 2 ^ (8 * n)) 1, Nat.div_mul_cancel hdvd, Nat.one_mul]

/-- **Where there is nothing on the way to the id, the ids begin that are below.** -/
def Aligned (layers : ℕ) (top : Slot P) (id : ℕ) : Prop :=
  ∀ n rest, Spine id layers top n (.null :: rest) → 2 ^ (8 * n) ∣ id

/-- The next id is in another place only where it begins one. -/
theorem Aligned.next (h : Spine id layers top n (p :: pa)) :
    Aligned layers top ((id / 2 ^ (8 * n) + 1) * 2 ^ (8 * n)) := by
  intro m rest hnull
  have hpos := Nat.two_pow_pos (8 * n)
  obtain hle | hmore := le_or_gt m n
  · exact Dvd.dvd.mul_left (Nat.pow_dvd_pow 2 (Nat.mul_le_mul_left 8 hle)) _
  · by_contra hnot
    obtain ⟨node, ary, rest', hlayer⟩ := h.above hmore hnull.le
    obtain ⟨more, rfl⟩ := Nat.exists_eq_add_of_lt hmore
    have hsplit : 2 ^ (8 * (n + more + 1)) = 2 ^ (8 * n) * 2 ^ (8 * (more + 1)) := by
      rw [← pow_add, Nat.add_assoc, Nat.mul_add]
    have hinside : ¬ 2 ^ (8 * (more + 1)) ∣ id / 2 ^ (8 * n) + 1 := by
      intro hend
      refine hnot ?_
      rw [hsplit, Nat.mul_comm]
      exact Nat.mul_dvd_mul_right hend _
    have hsame : id / 2 ^ (8 * (n + more + 1)) =
        (id / 2 ^ (8 * n) + 1) * 2 ^ (8 * n) / 2 ^ (8 * (n + more + 1)) := by
      rw [hsplit, ← Nat.div_div_eq_div_mul, ← Nat.div_div_eq_div_mul,
        Nat.mul_div_cancel _ hpos, Nat.succ_div, if_neg hinside]
      rfl
    cases (hlayer.congr hsame).unique hnull

/-- **What holds at the head of the loops**: `pa[]` has the way to the id, if there is one more. -/
def Cursor (layers : ℕ) (top : Slot P) (id n : ℕ) (pa : List (Slot P)) : Prop :=
  id ≤ idrMax layers → Spine id layers top n pa

theorem Cursor.next (h : Spine id layers top n (p :: pa)) (hlt : id < other) :
    ∃ m rest, iterPop other n (p :: pa) = (m, rest) ∧ Cursor layers top other m rest := by
  by_cases hmax : other ≤ idrMax layers
  · have hsmall := hmax.trans_lt (idrMax_lt layers)
    obtain ⟨m, rest, hpop, hspine⟩ :=
      iterPop_spine h hlt (hmax.trans_lt (idrMax_lt_pow layers)) (by omega)
    exact ⟨m, rest, hpop, fun _ => hspine⟩
  · exact ⟨_, _, rfl, fun hle => absurd hle hmax⟩

/-- The pointer that is stored under an id, if it is not `NULL`. -/
def Idr.pointerAt (idr : Idr P) (id : ℕ) : Option P := (idr.entry id).join

theorem pointerAt_of_lt (hmax : idrMax idr.layers < id) : idr.pointerAt id = none := by
  unfold Idr.pointerAt Idr.entry
  rw [if_neg (not_le.mpr hmax)]
  rfl

/-- The tree of an allocator in order, with what is in it. -/
theorem IdrPlaced.content (h : IdrPlaced idr) :
    SlotOk idr.layers idr.top ∧
      ∀ id ≤ idrMax idr.layers, content id idr.layers idr.top = idr.pointerAt id := by
  unfold Idr.pointerAt Idr.entry
  obtain ⟨hnull, hlayers⟩ | ⟨l, node, ary, hlayers, -, -, hok, hplaced, -⟩ := h.cases
  · rw [hnull, hlayers]
    refine ⟨rfl, fun id hid => ?_⟩
    rw [if_pos hid, lookup_null, content_null]
    rfl
  · rw [hlayers]
    refine ⟨Or.inr ⟨0, hplaced⟩, fun id hid => ?_⟩
    rw [if_pos hid]
    exact content_eq hok hplaced id

/-- The pointers of a tree. -/
structure Pointers (layers : ℕ) (top : Slot P) (f : ℕ → Option P) : Prop where
  slot : SlotOk layers top
  content : ∀ id ≤ idrMax layers, content id layers top = f id
  above : ∀ id, idrMax layers < id → f id = none

theorem IdrPlaced.pointers (h : IdrPlaced idr) : Pointers idr.layers idr.top idr.pointerAt :=
  ⟨h.content.1, h.content.2, fun _ hid => pointerAt_of_lt hid⟩

variable {f : ℕ → Option P}

/-- **One round**: the pointer of the id, or no pointer below the slot that the way ends at. -/
theorem Pointers.round (h : Pointers layers top f) (hspine : Spine id layers top n pa)
    (hid : id ≤ idrMax layers) :
    ∃ m q rest, iterDescend id n pa = some (m, q :: rest) ∧ Spine id layers top m (q :: rest) ∧
      ((q = .null ∧ ∀ k, id ≤ k → k < (id / 2 ^ (8 * m) + 1) * 2 ^ (8 * m) → f k = none) ∨
        (m = 0 ∧ ∃ value, q = .ptr value ∧ f id = some value)) := by
  obtain ⟨p, pa, rfl⟩ : ∃ p rest, pa = p :: rest := by
    cases pa with
    | nil => exact hspine.ne_nil.elim
    | cons p rest => exact ⟨p, rest, rfl⟩
  obtain ⟨m, q, rest, hdescend, hway, hend⟩ := iterDescend_spine h.slot hspine
  refine ⟨m, q, rest, hdescend, hway, hend.imp ?_ ?_⟩
  · rintro rfl
    refine ⟨rfl, fun k hk hlt => ?_⟩
    by_cases hin : k ≤ idrMax layers
    · rw [← h.content k hin, hway.content (div_of_lt_next hk hlt), content_null]
    · exact h.above k (not_le.mp hin)
  · rintro ⟨rfl, value, rfl⟩
    refine ⟨rfl, value, rfl, ?_⟩
    rw [← h.content id hid, hway.content rfl]
    rfl

theorem not_done (hid : id ≤ idrMax layers) : id < maxIdrBit ∧ id ≤ idrMax layers :=
  ⟨hid.trans_lt (idrMax_lt layers), hid⟩

/-! ### `idr_get_next` -/

/-- The loop ends with the least id that has a pointer. -/
theorem getNextLoop_isNext {rounds : ℕ} (h : Pointers layers top f)
    (hcursor : Cursor layers top id n pa) (hrounds : idrMax layers + 1 - id < rounds) :
    ∃ found, getNextLoop (idrMax layers) rounds id n pa = some found ∧
      IsNext (fun k => (f k).isSome = true) id (found.map Prod.fst) ∧
      ∀ entry ∈ found, f entry.1 = some entry.2 := by
  induction rounds generalizing id n pa with
  | zero => omega
  | succ rounds ih =>
      rw [getNextLoop]
      by_cases hid : id ≤ idrMax layers
      · rw [if_pos (not_done hid)]
        obtain ⟨m, q, rest, hdescend, hway, hend⟩ := h.round (hcursor hid) hid
        rw [hdescend]
        obtain ⟨rfl, hnone⟩ | ⟨rfl, value, rfl, hvalue⟩ := hend
        · have hlt := lt_next id m
          obtain ⟨m', rest', hpop, hnext⟩ := Cursor.next hway hlt
          dsimp only
          rw [skip_eq, hpop]
          obtain ⟨found, hfound, hleast, hentry⟩ := ih hnext (by omega)
          refine ⟨found, hfound, hleast.skip hlt.le fun k hk hless hsome => ?_, hentry⟩
          rw [hnone k hk hless] at hsome
          cases hsome
        · refine ⟨some (id, value), rfl, IsNext.here ?_, ?_⟩
          · rw [hvalue]
            rfl
          · rintro entry ⟨⟩
            exact hvalue
      · rw [if_neg fun hmore => hid hmore.2]
        refine ⟨none, rfl, fun k hk => ?_, by simp⟩
        simp only [h.above k ((not_le.mp hid).trans_le hk), Option.isSome_none]
        exact Bool.false_ne_true

/-- **`idr_get_next`** returns the pointer of the least id from the given one on, of those that are
not `NULL`. -/
theorem idrGetNext_isNext (h : IdrPlaced idr) (nextId : BitVec 32) :
    ∃ found, idrGetNext idr nextId = some found ∧
      (nextId.toInt < 0 → found = none) ∧
      (0 ≤ nextId.toInt →
        IsNext (fun k => (idr.pointerAt k).isSome = true) nextId.toNat (found.map Prod.fst)) ∧
      ∀ entry ∈ found, idr.pointerAt entry.1 = some entry.2 := by
  have hpointers := h.pointers
  unfold idrGetNext
  obtain ⟨hnull, hlayers⟩ | ⟨l, node, ary, hlayers, -, htop, -, -, hlevel⟩ := h.cases
  · rw [hnull]
    refine ⟨none, rfl, fun _ => rfl, fun _ k _ => ?_, by simp⟩
    have hnone : idr.pointerAt k = none := by
      unfold Idr.pointerAt Idr.entry
      rw [hnull, lookup_null, ite_self]
      rfl
    simp only [hnone, Option.isSome_none]
    exact Bool.false_ne_true
  · rw [htop]
    dsimp only
    by_cases hneg : nextId.toInt < 0
    · rw [if_pos hneg]
      exact ⟨none, rfl, fun _ => rfl, fun hpos => absurd hneg (not_lt.mpr hpos), by simp⟩
    · have hsize : node.layer + 1 = idr.layers := by rw [hlevel, hlayers]
      rw [if_neg hneg, hsize]
      rw [htop] at hpointers
      have hcursor : Cursor idr.layers (.layer node ary) nextId.toNat idr.layers
          [.layer node ary] := fun _ => .top
      have hrounds : idrMax idr.layers + 1 - nextId.toNat < idrMax idr.layers + 2 := by omega
      obtain ⟨found, hfound, hleast, hentry⟩ := getNextLoop_isNext hpointers hcursor hrounds
      exact ⟨found, hfound, fun hlt => absurd hlt hneg, fun _ => hleast, hentry⟩

/-! ### `idr_for_each` -/

/-- The callback is called for the entries, until it returns something else than zero. -/
def visit (fn : σ → ℕ → P → σ × ℤ) (data : σ) : List (ℕ × P) → σ × ℤ
  | [] => (data, 0)
  | (id, value) :: rest =>
      let (data, error) := fn data id value
      if error ≠ 0 then (data, error) else visit fn data rest

/-- **The entries from an id on**, in ascending order. -/
structure Lists (f : ℕ → Option P) (start : ℕ) (entries : List (ℕ × P)) : Prop where
  sorted : entries.Pairwise fun first second => first.1 < second.1
  mem_iff : ∀ id value, (id, value) ∈ entries ↔ start ≤ id ∧ f id = some value

variable {start : ℕ} {entries : List (ℕ × P)}

theorem Lists.eq_nil (h : Lists f start entries) (hnone : ∀ id, start ≤ id → f id = none) :
    entries = [] := by
  refine List.eq_nil_iff_forall_not_mem.mpr fun entry hmem => ?_
  obtain ⟨hid, hvalue⟩ := (h.mem_iff entry.1 entry.2).mp hmem
  rw [hnone entry.1 hid] at hvalue
  cases hvalue

/-- What has no pointer is passed by. -/
theorem Lists.skip (h : Lists f start entries) (hle : start ≤ k)
    (hnone : ∀ id, start ≤ id → id < k → f id = none) : Lists f k entries where
  sorted := h.sorted
  mem_iff id value := by
    rw [h.mem_iff]
    refine ⟨fun ⟨hid, hvalue⟩ => ⟨?_, hvalue⟩, fun ⟨hid, hvalue⟩ => ⟨hle.trans hid, hvalue⟩⟩
    by_contra hbefore
    rw [hnone id hid (not_le.mp hbefore)] at hvalue
    cases hvalue

/-- The entry of the first id is the first one. -/
theorem Lists.uncons {value : P} (h : Lists f start entries) (hvalue : f start = some value) :
    ∃ rest, entries = (start, value) :: rest ∧ Lists f (start + 1) rest := by
  have hmem := (h.mem_iff start value).mpr ⟨le_rfl, hvalue⟩
  cases entries with
  | nil => exact absurd hmem List.not_mem_nil
  | cons first rest =>
      obtain ⟨hfirst, hrest⟩ := List.pairwise_cons.mp h.sorted
      obtain ⟨hle, hentry⟩ := (h.mem_iff first.1 first.2).mp List.mem_cons_self
      have heq : (start, value) = first := by
        refine (List.mem_cons.mp hmem).resolve_right fun hlater => ?_
        have hless := hfirst _ hlater
        dsimp only at hless
        omega
      subst heq
      refine ⟨rest, rfl, hrest, fun id other => ?_⟩
      have hiff := h.mem_iff id other
      rw [List.mem_cons, Prod.mk.injEq] at hiff
      constructor
      · intro hlater
        exact ⟨hfirst _ hlater, (hiff.mp (Or.inr hlater)).2⟩
      · rintro ⟨hid, hother⟩
        refine (hiff.mpr ⟨Nat.le_of_succ_le hid, hother⟩).resolve_left fun hsame => ?_
        omega

/-- The entries of the allocator. -/
def Idr.listing (idr : Idr P) : List (ℕ × P) :=
  (List.range (idrMax idr.layers + 1)).filterMap fun id =>
    (idr.pointerAt id).map fun value => (id, value)

theorem lists_listing (idr : Idr P) : Lists idr.pointerAt 0 idr.listing where
  sorted := by
    refine List.pairwise_filterMap.mpr (List.pairwise_lt_range.imp fun hlt => ?_)
    intro first hfirst second hsecond
    obtain ⟨value, -, rfl⟩ := Option.map_eq_some_iff.mp hfirst
    obtain ⟨value, -, rfl⟩ := Option.map_eq_some_iff.mp hsecond
    exact hlt
  mem_iff id value := by
    rw [Idr.listing, List.mem_filterMap]
    constructor
    · rintro ⟨other, -, hentry⟩
      obtain ⟨found, hfound, heq⟩ := Option.map_eq_some_iff.mp hentry
      obtain ⟨rfl, rfl⟩ := Prod.mk.inj heq
      exact ⟨Nat.zero_le _, hfound⟩
    · rintro ⟨-, hvalue⟩
      refine ⟨id, List.mem_range.mpr ?_, Option.map_eq_some_iff.mpr ⟨value, hvalue, rfl⟩⟩
      by_contra habove
      rw [pointerAt_of_lt (by omega)] at hvalue
      cases hvalue

theorem listing_isEmpty_iff (idr : Idr P) :
    idr.listing.isEmpty = true ↔ ∀ id, idr.pointerAt id = none := by
  rw [List.isEmpty_iff]
  constructor
  · intro hnil id
    rw [Option.eq_none_iff_forall_ne_some]
    intro value hvalue
    have hmem := ((lists_listing idr).mem_iff id value).mpr ⟨Nat.zero_le id, hvalue⟩
    rw [hnil] at hmem
    exact absurd hmem List.not_mem_nil
  · exact fun hnone => (lists_listing idr).eq_nil fun id _ => hnone id

/-- **The loop visits the entries**, each of them once.  Induction on the rounds, of which one is
spent on every pointer and on every place where there is nothing. -/
theorem forEachLoop_visits {rounds : ℕ} (fn : σ → ℕ → P → σ × ℤ) (data : σ)
    (h : Pointers layers top f) (hcursor : Cursor layers top id n pa)
    (haligned : Aligned layers top id) (hlists : Lists f id entries)
    (hrounds : idrMax layers + 1 - id < rounds) :
    forEachLoop fn (idrMax layers) rounds data id n pa = some (visit fn data entries) := by
  induction rounds generalizing data id n pa entries with
  | zero => omega
  | succ rounds ih =>
      rw [forEachLoop]
      by_cases hid : id ≤ idrMax layers
      · rw [if_pos (not_done hid)]
        obtain ⟨m, q, rest, hdescend, hway, hend⟩ := h.round (hcursor hid) hid
        have hlt := lt_next id m
        obtain ⟨m', rest', hpop, hnext⟩ := Cursor.next hway hlt
        rw [hdescend]
        obtain ⟨rfl, hnone⟩ | ⟨rfl, value, rfl, hvalue⟩ := hend
        · dsimp only
          rw [add_size_eq (haligned m rest hway), hpop]
          exact ih data hnext (.next hway) (hlists.skip hlt.le hnone) (by omega)
        · obtain ⟨later, rfl, hlater⟩ := hlists.uncons hvalue
          have hone : id + 1 <<< (idrBits * 0) = (id / 2 ^ (8 * 0) + 1) * 2 ^ (8 * 0) :=
            add_size_eq (one_dvd id)
          dsimp only
          rw [hone, hpop, visit]
          dsimp only
          split
          · rfl
          · exact ih _ hnext (.next hway) (by simpa using hlater) (by omega)
      · rw [if_neg fun hmore => hid hmore.2,
          hlists.eq_nil fun k hk => h.above k ((not_le.mp hid).trans_le hk)]
        rfl

/-- **`idr_for_each`** calls the callback for every pointer that is not `NULL`, in ascending order of
the ids, until it returns something else than zero. -/
theorem idrForEach_visits (h : IdrPlaced idr) (fn : σ → ℕ → P → σ × ℤ) (data : σ) :
    idrForEach fn data idr = some (visit fn data idr.listing) :=
  forEachLoop_visits fn data h.pointers (fun _ => .top) (fun _ _ _ => Nat.dvd_zero _)
    (lists_listing idr) (by omega)

/-- **`idr_is_empty`** is right about the pointers that are not `NULL`. -/
theorem idrIsEmpty_eq (h : IdrPlaced idr) :
    idrIsEmpty idr = some idr.listing.isEmpty := by
  unfold idrIsEmpty
  rw [idrForEach_visits h]
  cases idr.listing with
  | nil => rfl
  | cons entry rest => rfl

end Webcamd.Kernel.IdrTree
