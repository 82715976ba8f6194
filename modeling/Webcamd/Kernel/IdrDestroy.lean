import Webcamd.Kernel.IdrRemove

/-!
# Destruction of the tree of the id allocator

`__idr_remove_all` counts through the ids, goes down to the leaf of each and up again as far as a
layer ends with it.

* `postorder` — a tree of layers in the order in which they are passed to `free_layer`.
* `pop_test` — the test of the inner loop: the layer ends at the id.
* `loop_subtree` — the loop passes a whole subtree, in this order.
* `idrRemoveAll_freed` — **every layer is passed once**, but for the top of a tree with four
  layers: the id has become negative before that is left.
* `destroyed_words` — the first words of these layers are zero exactly if no id is given out whose
  bit is in the first word of its leaf.
* `idrDestroy_ok` — what `idr_destroy` leaves, and what it takes out.
-/

namespace Webcamd.Kernel.IdrTree

open Bitmap

variable {P : Type}

/-- The layers of a tree, those below a layer before it. -/
def postorder : (l : ℕ) → Slot P → List Layer
  | 0, .layer node _ => [node]
  | l + 1, .layer node ary =>
      ((List.range idrSize).flatMap fun n => postorder l (ary n)) ++ [node]
  | _, _ => []

/-- The layers below a layer. -/
def below : (l : ℕ) → Slot P → List Layer
  | l + 1, .layer _ ary => (List.range idrSize).flatMap fun n => postorder l (ary n)
  | _, _ => []

/-- The layers that `__idr_remove_all` passes to `free_layer`. -/
def destroyed (layers : ℕ) (top : Slot P) : List Layer :=
  match layers, top with
  | 0, _ => []
  | 4, .layer _ ary => (List.range 128).flatMap fun n => postorder 2 (ary n)
  | layers + 1, top => postorder layers top

/-- The inner loop, with the test that it amounts to. -/
def popAligned (id : ℕ) : (n : ℕ) → List (Slot P) → List Layer → ℕ × List (Slot P) × List Layer
  | n, [], freed => (n, [], freed)
  | n, p :: pa, freed =>
      if 2 ^ (8 * n) ∣ id then popAligned id (n + 1) pa (freed ++ p.toFree) else (n, p :: pa, freed)

/-- The head of the loop after the inner one. -/
def settled (id n : ℕ) (pa : List (Slot P)) (freed : List Layer) : Walk P :=
  ⟨id, (popAligned id n pa freed).1, (popAligned id n pa freed).2.1,
    (popAligned id n pa freed).2.2⟩

variable {l layers id n k max : ℕ} {node : Layer} {ary : ℕ → Slot P} {p : Slot P}
variable {pa : List (Slot P)} {freed : List Layer} {idr : Idr P}

/-! ### The inner loop -/

theorem postorder_eq (h : p = .null ∨ LayerOk l p) : postorder l p = below l p ++ p.toFree := by
  obtain rfl | hlayer := h
  · cases l <;> rfl
  · obtain ⟨node, ary, rfl⟩ := hlayer.exists_layer
    cases l <;> rfl

/-- Two numbers differ in a bit from `j` on just if they differ after the shift. -/
theorem lt_size_xor_iff (a b j : ℕ) : j < (a ^^^ b).size ↔ a / 2 ^ j ≠ b / 2 ^ j := by
  have hshift : (a ^^^ b) / 2 ^ j = 0 ↔ a / 2 ^ j = b / 2 ^ j := by
    rw [Nat.xor_div_two_pow, Nat.xor_eq_zero_iff]
  have hpos := Nat.two_pow_pos j
  rw [Nat.lt_size, ← not_lt, ← Nat.div_eq_zero_iff_lt hpos, hshift]

/-- **The test of the inner loop**: `n < fls(id ^ bt_mask)` just if a layer of that size ends at
the id. -/
theorem pop_test (hdvd : 2 ^ (8 * n) ∣ id) (hle : id + 2 ^ (8 * n) ≤ 2 ^ 31) (hk : n ≤ k) :
    idrBits * k < fls (BitVec.ofNat 32 (id + 2 ^ (8 * n)) ^^^ BitVec.ofNat 32 id) ↔
      2 ^ (8 * k) ∣ id + 2 ^ (8 * n) := by
  have hpos := Nat.two_pow_pos (8 * n)
  have hxor : (BitVec.ofNat 32 (id + 2 ^ (8 * n)) ^^^ BitVec.ofNat 32 id).toNat =
      (id + 2 ^ (8 * n)) ^^^ id := by
    rw [BitVec.toNat_xor, BitVec.toNat_ofNat, BitVec.toNat_ofNat, Nat.mod_eq_of_lt (by omega),
      Nat.mod_eq_of_lt (by omega)]
  rw [fls_eq_size, hxor]
  show 8 * k < _ ↔ _
  rw [lt_size_xor_iff]
  obtain ⟨q, rfl⟩ := hdvd
  obtain ⟨rest, rfl⟩ := Nat.exists_eq_add_of_le hk
  have hsplit : 2 ^ (8 * (n + rest)) = 2 ^ (8 * n) * 2 ^ (8 * rest) := by
    rw [← pow_add, Nat.mul_add]
  have hnext : 2 ^ (8 * n) * q + 2 ^ (8 * n) = 2 ^ (8 * n) * (q + 1) := by ring
  rw [hsplit, hnext, ← Nat.div_div_eq_div_mul, ← Nat.div_div_eq_div_mul,
    Nat.mul_div_cancel_left _ hpos, Nat.mul_div_cancel_left _ hpos, Nat.succ_div,
    Nat.mul_dvd_mul_iff_left hpos]
  split
  · rename_i hend
    exact iff_of_true (by omega) hend
  · rename_i hend
    exact iff_of_false (by omega) hend

theorem removeAllPop_eq (hdvd : 2 ^ (8 * n) ∣ id) (hle : id + 2 ^ (8 * n) ≤ 2 ^ 31) (hk : n ≤ k) :
    removeAllPop (fls (BitVec.ofNat 32 (id + 2 ^ (8 * n)) ^^^ BitVec.ofNat 32 id)) k pa freed =
      popAligned (id + 2 ^ (8 * n)) k pa freed := by
  induction pa generalizing k freed with
  | nil => rfl
  | cons p rest ih =>
      rw [removeAllPop, popAligned]
      by_cases hend : 2 ^ (8 * k) ∣ id + 2 ^ (8 * n)
      · rw [if_pos hend, if_pos ((pop_test hdvd hle hk).mpr hend)]
        exact ih (Nat.le_succ_of_le hk)
      · rw [if_neg hend, if_neg fun htest => hend ((pop_test hdvd hle hk).mp htest)]

/-! ### The outer loop -/

/-- A round from a slot below which the path does not go. -/
theorem round_stop (hstop : removeAllDescend id n pa = (n, pa)) (hdvd : 2 ^ (8 * n) ∣ id)
    (hle : id + 2 ^ (8 * n) ≤ 2 ^ 31) :
    Walk.round ⟨id, n, pa, freed⟩ = settled (id + 2 ^ (8 * n)) n pa freed := by
  have hone : 1 <<< (idrBits * n) = 2 ^ (8 * n) := Nat.one_shiftLeft _
  unfold Walk.round settled
  dsimp only
  rw [hstop]
  dsimp only
  rw [hone, removeAllPop_eq hdvd hle le_rfl]

/-- A round from a layer is a round from the child that it goes down to. -/
theorem round_descend (rest : List (Slot P)) :
    Walk.round ⟨id, n + 2, .layer node ary :: rest, freed⟩ =
      Walk.round ⟨id, n + 1, ary (digit (n + 1) id) :: .layer node ary :: rest, freed⟩ := by
  unfold Walk.round
  dsimp only
  rw [removeAllDescend]

theorem loop_round {walk : Walk P} {fuel : ℕ} (hid : walk.id ≤ max) (hmax : max < 2 ^ 31) :
    Walk.loop max (fuel + 1) walk = Walk.loop max fuel walk.round := by
  have hbit : maxIdrBit = 2 ^ 31 := rfl
  rw [Walk.loop, if_pos ⟨by omega, hid⟩]

/-- The loop ends. -/
theorem loop_done {walk : Walk P} (hid : max < walk.id) (fuel : ℕ) :
    Walk.loop max fuel walk = walk := by
  cases fuel with
  | zero => rfl
  | succ fuel =>
      rw [Walk.loop, if_neg]
      rintro ⟨-, hle⟩
      omega

/-- The loop passes the subtree of a slot of level `l`, in some number of rounds. -/
def Passes (max l : ℕ) (p : Slot P) : Prop :=
  ∀ id, 2 ^ (8 * (l + 1)) ∣ id → id + 2 ^ (8 * (l + 1)) ≤ max + 1 →
    ∃ rounds, 0 < rounds ∧ rounds ≤ 2 ^ (8 * (l + 1)) ∧ ∀ fuel rest freed,
      Walk.loop max (fuel + rounds) ⟨id, l + 1, p :: rest, freed⟩ =
        Walk.loop max fuel
          (settled (id + 2 ^ (8 * (l + 1))) (l + 1) (p :: rest) (freed ++ below l p))

/-- A slot below which the path does not go takes one round. -/
theorem passes_stop (hmax : max < 2 ^ 31) (hbelow : below l p = [])
    (hstop : ∀ id (rest : List (Slot P)),
      removeAllDescend id (l + 1) (p :: rest) = (l + 1, p :: rest)) : Passes max l p := by
  intro id hdvd hle
  have hpos := Nat.two_pow_pos (8 * (l + 1))
  refine ⟨1, Nat.one_pos, hpos, fun fuel rest freed => ?_⟩
  rw [loop_round (by dsimp only; omega) hmax, round_stop (hstop id rest) hdvd (by omega), hbelow,
    List.append_nil]

/-- The digit of an id inside a layer. -/
theorem digit_inside (hdvd : 2 ^ (8 * (l + 2)) ∣ id) {count : ℕ} (hcount : count < idrSize) :
    digit (l + 1) (id + count * 2 ^ (8 * (l + 1))) = count := by
  have hlt : count < 256 := hcount
  have hpos := Nat.two_pow_pos (8 * (l + 1))
  obtain ⟨q, rfl⟩ := hdvd
  have hsplit : 2 ^ (8 * (l + 2)) * q + count * 2 ^ (8 * (l + 1)) =
      2 ^ (8 * (l + 1)) * (256 * q + count) := by
    have hpow : 2 ^ (8 * (l + 2)) = 2 ^ (8 * (l + 1)) * 256 := by
      rw [Nat.mul_add 8 (l + 1) 1, pow_add]
      rfl
    rw [hpow]
    ring
  rw [digit_eq, hsplit, Nat.mul_div_cancel_left _ hpos]
  omega

/-- A layer ends in the middle of its parent, unless it is the last child. -/
theorem not_dvd_inside (hdvd : 2 ^ (8 * (l + 2)) ∣ id) {count : ℕ} (hpos : 0 < count)
    (hcount : count < idrSize) : ¬ 2 ^ (8 * (l + 2)) ∣ id + count * 2 ^ (8 * (l + 1)) := by
  have hlt : count < 256 := hcount
  have hpow : 2 ^ (8 * (l + 2)) = 2 ^ (8 * (l + 1)) * 256 := by
    rw [Nat.mul_add 8 (l + 1) 1, pow_add]
    rfl
  rw [Nat.dvd_add_right hdvd, hpow, Nat.mul_comm count,
    Nat.mul_dvd_mul_iff_left (Nat.two_pow_pos _)]
  intro hle
  have hmore := Nat.le_of_dvd hpos hle
  omega

/-- A child is passed from the head of the loop at its parent. -/
theorem loop_child (hmax : max < 2 ^ 31) {child : Slot P} (hchild : Passes max l child)
    (hdigit : ary (digit (l + 1) id) = child) (hdvd : 2 ^ (8 * (l + 1)) ∣ id)
    (hle : id + 2 ^ (8 * (l + 1)) ≤ max + 1) :
    ∃ rounds, 0 < rounds ∧ rounds ≤ 2 ^ (8 * (l + 1)) ∧ ∀ fuel rest freed,
      Walk.loop max (fuel + rounds) ⟨id, l + 2, .layer node ary :: rest, freed⟩ =
        Walk.loop max fuel (settled (id + 2 ^ (8 * (l + 1))) (l + 1)
          (child :: .layer node ary :: rest) (freed ++ below l child)) := by
  have hpos := Nat.two_pow_pos (8 * (l + 1))
  obtain ⟨rounds, hrounds, hbound, hloop⟩ := hchild id hdvd hle
  refine ⟨rounds, hrounds, hbound, fun fuel rest freed => ?_⟩
  have hsame := hloop fuel (.layer node ary :: rest) freed
  obtain ⟨more, rfl⟩ : ∃ more, rounds = more + 1 := ⟨rounds - 1, by omega⟩
  rw [← Nat.add_assoc, loop_round (by dsimp only; omega) hmax] at hsame ⊢
  rw [round_descend, hdigit]
  exact hsame

/-- **The children of a layer**: each is passed with what is below it, before the next one. -/
theorem loop_children (hmax : max < 2 ^ 31)
    (hok : ∀ n < idrSize, ary n = .null ∨ LayerOk l (ary n))
    (hchildren : ∀ n < idrSize, Passes max l (ary n)) (hdvd : 2 ^ (8 * (l + 2)) ∣ id) {count : ℕ}
    (hcount : count < idrSize) (hle : id + count * 2 ^ (8 * (l + 1)) ≤ max + 1) :
    ∃ rounds, rounds ≤ count * 2 ^ (8 * (l + 1)) ∧ ∀ fuel rest freed,
      Walk.loop max (fuel + rounds) ⟨id, l + 2, .layer node ary :: rest, freed⟩ =
        Walk.loop max fuel ⟨id + count * 2 ^ (8 * (l + 1)), l + 2, .layer node ary :: rest,
          freed ++ (List.range count).flatMap fun n => postorder l (ary n)⟩ := by
  have hdvd' : 2 ^ (8 * (l + 1)) ∣ id :=
    (pow_dvd_pow 2 (by omega : 8 * (l + 1) ≤ 8 * (l + 2))).trans hdvd
  induction count with
  | zero =>
      refine ⟨0, Nat.zero_le _, fun fuel rest freed => ?_⟩
      rw [List.range_zero, List.flatMap_nil, List.append_nil, Nat.zero_mul, Nat.add_zero fuel,
        Nat.add_zero id]
  | succ count ih =>
      have hstep : (count + 1) * 2 ^ (8 * (l + 1)) =
          count * 2 ^ (8 * (l + 1)) + 2 ^ (8 * (l + 1)) := by
        ring
      have hlt : count < idrSize := by omega
      obtain ⟨before, hbefore, hfirst⟩ := ih hlt (by omega)
      have hhere : 2 ^ (8 * (l + 1)) ∣ id + count * 2 ^ (8 * (l + 1)) :=
        Nat.dvd_add hdvd' (Nat.dvd_mul_left _ _)
      obtain ⟨rounds, hrounds, hbound, hloop⟩ := @loop_child _ _ _ _ node _ hmax _
        (hchildren count hlt) (congrArg ary (digit_inside hdvd hlt)) hhere (by omega)
      refine ⟨rounds + before, by omega, fun fuel rest freed => ?_⟩
      rw [← Nat.add_assoc, hfirst, hloop, Nat.add_assoc, ← hstep]
      have hend : 2 ^ (8 * (l + 1)) ∣ id + (count + 1) * 2 ^ (8 * (l + 1)) :=
        Nat.dvd_add hdvd' (Nat.dvd_mul_left _ _)
      have hinside := not_dvd_inside hdvd (Nat.succ_pos count) hcount
      unfold settled
      rw [popAligned, if_pos hend, popAligned, if_neg hinside, List.range_succ,
        List.flatMap_append, List.flatMap_singleton, postorder_eq (hok count hlt)]
      simp only [List.append_assoc]

/-- **The loop passes a subtree.**  Induction on its levels. -/
theorem loop_subtree (hmax : max < 2 ^ 31) (h : p = .null ∨ LayerOk l p) : Passes max l p := by
  induction l generalizing p with
  | zero =>
      refine passes_stop hmax ?_ fun id rest => ?_
      · cases p <;> rfl
      · cases p <;> rfl
  | succ l ih =>
      obtain rfl | hlayer := h
      · exact passes_stop hmax rfl fun id rest => rfl
      · obtain ⟨node, ary, rfl⟩ := hlayer.exists_layer
        have hok : ∀ n < idrSize, ary n = .null ∨ LayerOk l (ary n) :=
          fun n hn => (hlayer.2 n hn).1
        intro id hdvd hle
        have hpow : 2 ^ (8 * (l + 1 + 1)) = 256 * 2 ^ (8 * (l + 1)) := by
          rw [Nat.mul_add 8 (l + 1) 1, pow_add, Nat.mul_comm]
          rfl
        have hlast : 255 < idrSize := by decide
        have hdvd' : 2 ^ (8 * (l + 1)) ∣ id :=
          (pow_dvd_pow 2 (by omega : 8 * (l + 1) ≤ 8 * (l + 2))).trans hdvd
        obtain ⟨before, hbefore, hfirst⟩ := @loop_children _ _ _ _ node _ hmax hok
          (fun n hn => ih (hok n hn)) hdvd _ hlast (by omega)
        obtain ⟨rounds, hrounds, hbound, hloop⟩ := @loop_child _ _ _ _ node _ hmax _
          (ih (hok 255 hlast)) (congrArg ary (digit_inside hdvd hlast))
          (Nat.dvd_add hdvd' (Nat.dvd_mul_left _ _)) (by omega)
        refine ⟨rounds + before, by omega, by omega, fun fuel rest freed => ?_⟩
        have hend : id + 255 * 2 ^ (8 * (l + 1)) + 2 ^ (8 * (l + 1)) =
            id + 2 ^ (8 * (l + 1 + 1)) := by
          omega
        have hpop : 2 ^ (8 * (l + 1)) ∣ id + 2 ^ (8 * (l + 1 + 1)) := by
          rw [hpow]
          exact Nat.dvd_add hdvd' (Nat.dvd_mul_left _ _)
        have hbelow : below (l + 1) (.layer node ary) =
            ((List.range 255).flatMap fun n => postorder l (ary n)) ++ postorder l (ary 255) := by
          show ((List.range (255 + 1)).flatMap fun n => postorder l (ary n)) = _
          rw [List.range_succ, List.flatMap_append, List.flatMap_singleton]
        rw [← Nat.add_assoc, hfirst, hloop, hend, hbelow, postorder_eq (hok 255 hlast)]
        unfold settled
        rw [popAligned, if_pos hpop]
        simp only [List.append_assoc]

/-! ### What is passed -/

/-- **`__idr_remove_all` passes the layers of the tree**, each after those below it. -/
theorem idrRemoveAll_freed (h : IdrOk idr) :
    (idrRemoveAll idr).2 = destroyed idr.layers idr.top := by
  obtain ⟨hint, top, layers, idFree⟩ := idr
  unfold idrRemoveAll
  dsimp only
  obtain ⟨hnull, hlayers⟩ | ⟨hpos, hle, hlayer⟩ := h
  · obtain rfl : top = .null := hnull
    obtain rfl : layers = 0 := hlayers
    have hmax : idrMax 0 = 0 := rfl
    rw [hmax, @loop_round P 0 ⟨0, 0, [.null], []⟩ 0 le_rfl (by decide),
      round_stop rfl (Nat.dvd_zero _) (by decide)]
    rfl
  · dsimp only at hpos hle hlayer
    obtain ⟨node, ary, rfl⟩ := hlayer.exists_layer
    obtain hfour | hless : layers = 4 ∨ layers ≤ 3 := by omega
    · subst hfour
      replace hlayer : LayerOk 3 (.layer node ary) := hlayer
      have hmax : idrMax 4 = 2 ^ 31 - 1 := rfl
      have hok : ∀ n < idrSize, ary n = .null ∨ LayerOk 2 (ary n) := fun n hn => (hlayer.2 n hn).1
      -- the id is negative after half of the children
      obtain ⟨rounds, hrounds, hloop⟩ := @loop_children _ 2 0 (2 ^ 31 - 1) node ary (by decide)
        hok (fun n hn => loop_subtree (by decide) (hok n hn)) (Nat.dvd_zero _) 128 (by decide)
        (by decide)
      obtain ⟨fuel, hfuel⟩ := Nat.exists_eq_add_of_le' hrounds
      have hsum : 2 ^ 31 - 1 + 1 = fuel + rounds := by omega
      rw [hmax, hsum, hloop fuel [] [],
        loop_done (show 2 ^ 31 - 1 < 0 + 128 * 2 ^ (8 * (2 + 1)) by decide)]
      rfl
    · obtain ⟨l, rfl⟩ : ∃ l, layers = l + 1 := ⟨layers - 1, by omega⟩
      replace hlayer : LayerOk l (.layer node ary) := hlayer
      have hmax := idrMax_eq hless
      have hpow := Nat.two_pow_pos (8 * (l + 1))
      have hbound : 2 ^ (8 * (l + 1)) ≤ 2 ^ 24 := Nat.pow_le_pow_right (by decide) (by omega)
      obtain ⟨rounds, -, hrounds, hloop⟩ := @loop_subtree _ l (idrMax (l + 1)) _ (by omega)
        (Or.inr hlayer) 0 (Nat.dvd_zero _) (by omega)
      obtain ⟨fuel, hfuel⟩ := Nat.exists_eq_add_of_le' hrounds
      have hsum : idrMax (l + 1) + 1 = fuel + rounds := by omega
      have hend : 2 ^ (8 * (l + 1)) ∣ 0 + 2 ^ (8 * (l + 1)) := by rw [Nat.zero_add]
      have hdestroyed : destroyed (l + 1) (.layer node ary) = postorder l (.layer node ary) := by
        obtain rfl | rfl | rfl : l = 0 ∨ l = 1 ∨ l = 2 := by omega
        · rfl
        · rfl
        · rfl
      rw [hsum, hloop fuel [] [], loop_done]
      · unfold settled
        rw [popAligned, if_pos hend, popAligned, List.nil_append,
          ← postorder_eq (Or.inr hlayer), hdestroyed]
      · show idrMax (l + 1) < 0 + 2 ^ (8 * (l + 1))
        omega

theorem listed_flatMap_le {addr count : ℕ} {f : ℕ → List Layer} {g : ℕ → ℕ}
    (hle : ∀ n < count, listed addr (f n) ≤ g n) :
    listed addr ((List.range count).flatMap f) ≤ ∑ n ∈ Finset.range count, g n := by
  induction count with
  | zero => exact le_rfl
  | succ count ih =>
      have hlast := hle count (Nat.lt_succ_self count)
      have hrest := ih fun n hn => hle n (Nat.lt_succ_of_lt hn)
      rw [List.range_succ, List.flatMap_append, List.flatMap_singleton, listed_append,
        Finset.sum_range_succ]
      omega

/-- No layer is passed more often than it is in the tree. -/
theorem postorder_listed (addr l : ℕ) (p : Slot P) : listed addr (postorder l p) ≤ p.occ addr := by
  induction l generalizing p with
  | zero =>
      cases p with
      | null => exact Nat.zero_le _
      | ptr value => exact Nat.zero_le _
      | layer node ary =>
          rw [postorder, listed_singleton, Slot.occ]
          exact Nat.le_add_right _ _
  | succ l ih =>
      cases p with
      | null => exact Nat.zero_le _
      | ptr value => exact Nat.zero_le _
      | layer node ary =>
          have hchildren := @listed_flatMap_le addr idrSize (fun n => postorder l (ary n)) _
            fun n _ => ih (ary n)
          rw [postorder, listed_append, listed_singleton, Slot.occ]
          omega

theorem destroyed_listed (addr : ℕ) (layers : ℕ) (top : Slot P) :
    listed addr (destroyed layers top) ≤ top.occ addr := by
  unfold destroyed
  split
  · exact Nat.zero_le _
  · rename_i node ary
    have hchildren := @listed_flatMap_le addr 128 (fun n => postorder 2 (ary n)) _
      fun n _ => postorder_listed addr 2 (ary n)
    have hsub : ∑ n ∈ Finset.range 128, (ary n).occ addr ≤
        ∑ n ∈ Finset.range idrSize, (ary n).occ addr :=
      Finset.sum_le_sum_of_subset (Finset.range_mono (by decide))
    rw [Slot.occ]
    omega
  · exact postorder_listed addr _ _

/-! ### Their first words -/

theorem allocated_congr {other : ℕ} (hsame : ∀ k ≤ l, digit k id = digit k other) :
    allocated id l p = allocated other l p := by
  induction l generalizing p with
  | zero =>
      cases p with
      | null => rfl
      | ptr value => rfl
      | layer node ary =>
          rw [allocated, allocated, hsame 0 le_rfl]
  | succ l ih =>
      cases p with
      | null => rfl
      | ptr value => rfl
      | layer node ary =>
          rw [allocated, allocated, hsame (l + 1) le_rfl]
          exact ih fun k hk => hsame k (Nat.le_succ_of_le hk)

/-- The id with the digit `n` above level `l`, and the digits of `id` below. -/
def place (l n id : ℕ) : ℕ := n * 2 ^ (8 * (l + 1)) + id % 2 ^ (8 * (l + 1))

theorem digit_place_low {n : ℕ} (hk : k ≤ l) : digit k (place l n id) = digit k id := by
  obtain ⟨rest, rfl⟩ := Nat.exists_eq_add_of_le hk
  have hsplit : 2 ^ (8 * (k + rest + 1)) = 2 ^ (8 * k) * (256 * 2 ^ (8 * rest)) := by
    rw [show 8 * (k + rest + 1) = 8 * k + (8 + 8 * rest) by ring, pow_add, pow_add 2 8]
    rfl
  have hmod : id % (2 ^ (8 * k) * (256 * 2 ^ (8 * rest))) / 2 ^ (8 * k) =
      id / 2 ^ (8 * k) % (256 * 2 ^ (8 * rest)) := Nat.mod_mul_right_div_self _ _ _
  rw [digit_eq, digit_eq]
  unfold place
  rw [hsplit, show n * (2 ^ (8 * k) * (256 * 2 ^ (8 * rest))) =
    2 ^ (8 * k) * (256 * (n * 2 ^ (8 * rest))) by ring,
    Nat.mul_add_div (Nat.two_pow_pos _), hmod, Nat.mul_add_mod, Nat.mod_mul_right_mod]

theorem digit_place_high {n : ℕ} (hn : n < idrSize) : digit (l + 1) (place l n id) = n := by
  have hlt : n < 256 := hn
  have hpos := Nat.two_pow_pos (8 * (l + 1))
  rw [digit_eq]
  unfold place
  rw [Nat.mul_comm, Nat.mul_add_div hpos, Nat.div_eq_of_lt (Nat.mod_lt _ hpos)]
  omega

/-- The bit of the id is not in the first word of its leaf. -/
def OutOfFirstWord (id : ℕ) : Prop := bitsPerLong ≤ digit 0 id

instance (id : ℕ) : Decidable (OutOfFirstWord id) := inferInstanceAs (Decidable (_ ≤ _))

/-- **The first words of the layers below a layer**, of its first children. -/
theorem children_words {count : ℕ} (hcount : count ≤ idrSize)
    (hok : ∀ n < idrSize, ary n = .null ∨ LayerOk l (ary n))
    (hchildren : ∀ n < idrSize, LayerOk l (ary n) →
      ((∀ node ∈ postorder l (ary n), node.bitmap 0 = 0) ↔
        ∀ id, allocated id l (ary n) = true → OutOfFirstWord id)) :
    (∀ node ∈ (List.range count).flatMap fun n => postorder l (ary n), node.bitmap 0 = 0) ↔
      ∀ id, digit (l + 1) id < count → allocated id (l + 1) (.layer node ary) = true →
        OutOfFirstWord id := by
  simp only [List.mem_flatMap, List.mem_range]
  constructor
  · intro hall id hlt halloc
    replace halloc : allocated id l (ary (digit (l + 1) id)) = true := halloc
    obtain hnull | hlayer := hok _ (digit_lt (l + 1) id)
    · rw [hnull, allocated_null] at halloc
      cases halloc
    · exact (hchildren _ (digit_lt (l + 1) id) hlayer).mp
        (fun node hmem => hall node ⟨_, hlt, hmem⟩) id halloc
  · rintro hall node ⟨n, hn, hmem⟩
    have hlt : n < idrSize := by omega
    obtain hnull | hlayer := hok n hlt
    · rw [hnull] at hmem
      cases l <;> cases hmem
    · refine (hchildren n hlt hlayer).mpr (fun id halloc => ?_) node hmem
      have hout := hall (place l n id) ((digit_place_high hlt).symm ▸ hn) (by
        show allocated _ l (ary (digit (l + 1) (place l n id))) = true
        rw [digit_place_high hlt, ← halloc]
        exact allocated_congr fun k hk => digit_place_low hk)
      unfold OutOfFirstWord at hout ⊢
      rwa [digit_place_low (Nat.zero_le l)] at hout

/-- **The first words of the layers of a tree** are zero exactly if all ids that are given out have
their bits in other words. -/
theorem postorder_words (h : LayerOk l p) :
    (∀ node ∈ postorder l p, node.bitmap 0 = 0) ↔
      ∀ id, allocated id l p = true → OutOfFirstWord id := by
  induction l generalizing p with
  | zero =>
      obtain ⟨node, ary, rfl⟩ := h.exists_layer
      simp only [postorder, List.mem_singleton, forall_eq, word_zero_iff]
      constructor
      · intro hbits id halloc
        unfold OutOfFirstWord
        by_contra hlt
        have hbit := hbits (digit 0 id) (by omega)
        replace halloc : testBit (digit 0 id) node.bitmap = true := halloc
        rw [hbit] at halloc
        cases halloc
      · intro hall n hn
        have hdigit : digit 0 n = n := by
          have hlt : n < 64 := hn
          rw [digit_eq]
          omega
        rw [← Bool.not_eq_true]
        intro hbit
        have hout := hall n (by
          show testBit (digit 0 n) node.bitmap = true
          rwa [hdigit])
        unfold OutOfFirstWord at hout
        omega
  | succ l ih =>
      obtain ⟨node, ary, rfl⟩ := h.exists_layer
      have hwords := @children_words _ _ node _ _ le_rfl (fun n hn => (h.2 n hn).1)
        (fun n _ hlayer => ih hlayer)
      simp only [postorder, List.mem_append, List.mem_singleton]
      constructor
      · intro hall id halloc
        exact hwords.mp (fun node hmem => hall node (Or.inl hmem)) id (digit_lt _ _) halloc
      · rintro hall other (hmem | rfl)
        · exact hwords.mpr (fun id _ halloc => hall id halloc) other hmem
        · -- a child that is full has an id whose bit is the first one
          rw [word_zero_iff]
          intro n hn
          have hlt : n < idrSize := hn.trans (by decide)
          rw [(h.2 n hlt).2, ← Bool.not_eq_true]
          intro hfull
          have hlayer := (h.2 n hlt).1.resolve_left fun hnull => by
            rw [hnull] at hfull
            cases hfull
          have hout := hall (place l n 0) (by
            show allocated _ l (ary (digit (l + 1) (place l n 0))) = true
            rw [digit_place_high hlt]
            exact hlayer.allocated_of_full hfull _)
          unfold OutOfFirstWord at hout
          rw [digit_place_low (Nat.zero_le l)] at hout
          exact absurd hout (by decide)

/-- What `idr_destroy` needs: the bits of the ids that are given out are not in first words. -/
def NoFirstWord (idr : Idr P) : Prop :=
  ∀ id ≤ idrMax idr.layers, allocated id (idr.layers - 1) idr.top = true → OutOfFirstWord id

/-- The ids of a tree with up to three layers. -/
theorem noFirstWord_iff (hle : layers ≤ 3) (hpos : 0 < layers) (top : Slot P) :
    (∀ id ≤ idrMax layers, allocated id (layers - 1) top = true → OutOfFirstWord id) ↔
      ∀ id, allocated id (layers - 1) top = true → OutOfFirstWord id := by
  refine ⟨fun hall id halloc => ?_, fun hall id _ => hall id⟩
  obtain ⟨l, rfl⟩ : ∃ l, layers = l + 1 := ⟨layers - 1, by omega⟩
  have hlow : ∀ k ≤ l, digit k (place l 0 id) = digit k id := fun k hk => digit_place_low hk
  have hout := hall (place l 0 id) (by
    have hlt := Nat.mod_lt id (Nat.two_pow_pos (8 * (l + 1)))
    rw [idrMax_eq hle]
    unfold place
    omega) (by
    rw [← halloc]
    exact allocated_congr hlow)
  unfold OutOfFirstWord at hout ⊢
  rwa [hlow 0 (Nat.zero_le l)] at hout

/-- **The first words of the layers that `__idr_remove_all` passes** are zero exactly if no id is
given out whose bit is in the first word of its leaf. -/
theorem destroyed_words (h : IdrOk idr) :
    (∀ node ∈ destroyed idr.layers idr.top, node.bitmap 0 = 0) ↔ NoFirstWord idr := by
  obtain ⟨hint, top, layers, idFree⟩ := idr
  unfold NoFirstWord
  dsimp only
  obtain ⟨hnull, hlayers⟩ | ⟨hpos, hle, hlayer⟩ := h
  · obtain rfl : top = .null := hnull
    obtain rfl : layers = 0 := hlayers
    refine iff_of_true (fun node hmem => by cases hmem) fun id _ halloc => ?_
    rw [allocated_null] at halloc
    cases halloc
  · dsimp only at hpos hle hlayer
    obtain ⟨node, ary, rfl⟩ := hlayer.exists_layer
    obtain hfour | hless : layers = 4 ∨ layers ≤ 3 := by omega
    · subst hfour
      replace hlayer : LayerOk 3 (.layer node ary) := hlayer
      have hwords := @children_words _ 2 node ary 128 (by decide) (fun n hn => (hlayer.2 n hn).1)
        (fun n _ hchild => postorder_words hchild)
      show (∀ node ∈ (List.range 128).flatMap fun n => postorder 2 (ary n), _) ↔ _
      rw [hwords]
      have hmax : idrMax 4 = 2 ^ 31 - 1 := rfl
      rw [hmax]
      constructor
      · intro hall id hid halloc
        refine hall id ?_ halloc
        rw [digit_eq]
        show id / 2 ^ 24 % 256 < 128
        omega
      · intro hall id hdigit halloc
        have hlow : ∀ k ≤ 3, digit k (place 3 0 id) = digit k id := fun k hk => digit_place_low hk
        have hout := hall (place 3 0 id) (by
          rw [← hlow 3 le_rfl, digit_eq] at hdigit
          replace hdigit : place 3 0 id / 2 ^ 24 % 256 < 128 := hdigit
          have hlt : place 3 0 id < 2 ^ 32 := by
            have hmod := Nat.mod_lt id (Nat.two_pow_pos (8 * (3 + 1)))
            unfold place
            omega
          omega) (by
          rw [← halloc]
          exact allocated_congr hlow)
        unfold OutOfFirstWord at hout ⊢
        rwa [hlow 0 (by decide)] at hout
    · rw [noFirstWord_iff hless hpos]
      obtain ⟨l, rfl⟩ : ∃ l, layers = l + 1 := ⟨layers - 1, by omega⟩
      replace hlayer : LayerOk l (.layer node ary) := hlayer
      show _ ↔ ∀ id, allocated id l (.layer node ary) = true → _
      rw [← postorder_words hlayer]
      obtain rfl | rfl | rfl : l = 0 ∨ l = 1 ∨ l = 2 := by omega
      · rfl
      · rfl
      · rfl

/-- **`idr_destroy`** leaves an empty tree, and every layer that it passes is one that was there.
The first words of these layers are zero exactly if the bits of the ids that are given out are not
in first words. -/
theorem idrDestroy_ok (h : IdrOk idr) :
    RemoveOk idr (idrDestroy idr) ∧
      ((∀ node ∈ (idrDestroy idr).2, node.bitmap 0 = 0) ↔ NoFirstWord idr) := by
  have hfreed : (idrDestroy idr).2 = destroyed idr.layers idr.top := idrRemoveAll_freed h
  rw [hfreed]
  refine ⟨⟨Or.inl ⟨rfl, rfl⟩, fun addr => ?_⟩, destroyed_words h⟩
  have hlisted := destroyed_listed addr idr.layers idr.top
  have htotal : total (idrDestroy idr).1 addr = 0 := rfl
  rw [htotal, hfreed]
  unfold total
  omega

end Webcamd.Kernel.IdrTree
