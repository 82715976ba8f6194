import Mathlib

/-!
# Tries of a fixed height

A trie of height `n` over a set `ι` of digits is nothing at all, or — at height zero —
a value, or — at height `n + 1` — a node with one trie of height `n` for every digit.
Keys are digit sequences `ℕ → ι`, most significant digit at the highest level: the node
at height `n + 1` looks at digit `n`.

Nodes carry a **label**, which a program that keeps the trie in memory uses for the
node's address.  Labels play no part in what the trie contains (`lookup`); they are
there for `labels`, the set of addresses in use, and `Separated`, which says that no
address occurs at two places.

`insertAt` and `deleteAt` are the operations one expects, on values.  Both only touch
the path of their key: `insertAt` grows a missing path with the labels it is given
(`build`), `deleteAt` removes the nodes of the path that become empty.  `Full` — no
node is empty — is what makes the latter the inverse of the former.

`Below` relates a trie to the tries that a walk to a key comes through.
-/

namespace Webcamd.Library

/-- A trie of a given height, with labelled nodes. -/
inductive Trie (ι A V : Type) : ℕ → Type where
  | nil {n : ℕ} : Trie ι A V n
  | item (value : V) : Trie ι A V 0
  | node {n : ℕ} (label : A) (slots : ι → Trie ι A V n) : Trie ι A V (n + 1)

namespace Trie

variable {ι A V : Type}

/-- There is nothing. -/
def isNil : {n : ℕ} → Trie ι A V n → Bool
  | _, .nil => true
  | _, .item _ => false
  | _, .node _ _ => false

@[simp] theorem isNil_nil {n : ℕ} : (nil : Trie ι A V n).isNil = true := rfl

@[simp] theorem isNil_item (value : V) : (item value : Trie ι A V 0).isNil = false := rfl

@[simp] theorem isNil_node {n : ℕ} (label : A) (slots : ι → Trie ι A V n) :
    (node label slots).isNil = false := rfl

theorem isNil_iff {n : ℕ} (trie : Trie ι A V n) : trie.isNil = true ↔ trie = nil := by
  cases trie <;> simp

/-- The value under a key. -/
def lookup (key : ℕ → ι) : {n : ℕ} → Trie ι A V n → Option V
  | _, .nil => none
  | _, .item value => some value
  | n + 1, .node _ slots => (slots (key n)).lookup key

@[simp] theorem lookup_nil {n : ℕ} (key : ℕ → ι) :
    (nil : Trie ι A V n).lookup key = none := rfl

@[simp] theorem lookup_item (key : ℕ → ι) (value : V) :
    (item value : Trie ι A V 0).lookup key = some value := rfl

@[simp] theorem lookup_node {n : ℕ} (key : ℕ → ι) (label : A)
    (slots : ι → Trie ι A V n) :
    (node label slots).lookup key = (slots (key n)).lookup key := rfl

/-- The labels in use. -/
def labels : {n : ℕ} → Trie ι A V n → Set A
  | _, .nil => ∅
  | _, .item _ => ∅
  | _, .node label slots => {other | other = label ∨ ∃ i, other ∈ (slots i).labels}

@[simp] theorem labels_nil {n : ℕ} : (nil : Trie ι A V n).labels = ∅ := rfl

@[simp] theorem labels_item (value : V) : (item value : Trie ι A V 0).labels = ∅ := rfl

theorem mem_labels_node {n : ℕ} {label other : A} {slots : ι → Trie ι A V n} :
    other ∈ (node label slots).labels ↔ other = label ∨ ∃ i, other ∈ (slots i).labels :=
  Iff.rfl

/-- No label occurs at two places. -/
def Separated : {n : ℕ} → Trie ι A V n → Prop
  | _, .nil => True
  | _, .item _ => True
  | _, .node label slots => (∀ i, label ∉ (slots i).labels) ∧
      (∀ i j other, other ∈ (slots i).labels → other ∈ (slots j).labels → i = j) ∧
      ∀ i, (slots i).Separated

theorem separated_node {n : ℕ} {label : A} {slots : ι → Trie ι A V n} :
    (node label slots).Separated ↔ (∀ i, label ∉ (slots i).labels) ∧
      (∀ i j other, other ∈ (slots i).labels → other ∈ (slots j).labels → i = j) ∧
      ∀ i, (slots i).Separated := Iff.rfl

/-- No node is empty. -/
def Full : {n : ℕ} → Trie ι A V n → Prop
  | _, .nil => True
  | _, .item _ => True
  | _, .node _ slots => (∃ i, (slots i).isNil = false) ∧ ∀ i, (slots i).Full

theorem full_node {n : ℕ} {label : A} {slots : ι → Trie ι A V n} :
    (node label slots).Full ↔ (∃ i, (slots i).isNil = false) ∧ ∀ i, (slots i).Full :=
  Iff.rfl

/-- What is under a key only depends on the digits the trie looks at. -/
theorem lookup_congr {key other : ℕ → ι} {n : ℕ} (trie : Trie ι A V n)
    (hsame : ∀ k < n, other k = key k) : trie.lookup other = trie.lookup key := by
  induction trie with
  | nil => rfl
  | item value => rfl
  | @node n label slots ih =>
      rw [lookup_node, lookup_node, hsame n (Nat.lt_succ_self n)]
      exact ih _ fun k hk => hsame k (Nat.lt_succ_of_lt hk)

/-- A trie in which no node is empty has a value, unless it is nothing at all. -/
theorem Full.exists_lookup [Inhabited ι] {n : ℕ} {trie : Trie ι A V n} (h : trie.Full)
    (hne : trie.isNil = false) : ∃ key, trie.lookup key ≠ none := by
  induction trie with
  | nil => simp at hne
  | item value => exact ⟨fun _ => default, by simp⟩
  | @node n label slots ih =>
      obtain ⟨⟨i, hi⟩, hslots⟩ := h
      obtain ⟨key, hkey⟩ := ih i (hslots i) hi
      refine ⟨Function.update key n i, ?_⟩
      rw [lookup_node, Function.update_self, lookup_congr (slots i) fun k hk => ?_]
      · exact hkey
      · exact Function.update_of_ne (Nat.ne_of_lt hk) i key

/-! ### On the way to a key -/

/-- On the way from a trie to a key there is the trie `sub`. -/
inductive Below (key : ℕ → ι) {m : ℕ} (sub : Trie ι A V m) :
    {n : ℕ} → Trie ι A V n → Prop where
  | here : Below key sub sub
  | down {n : ℕ} {label : A} {slots : ι → Trie ι A V n} (rest : Below key sub (slots (key n))) :
      Below key sub (.node label slots)

section Below

variable {key other : ℕ → ι} {m n : ℕ} {sub : Trie ι A V m} {trie : Trie ι A V n}

theorem Below.le (h : Below key sub trie) : m ≤ n := by
  induction h with
  | here => exact Nat.le_refl m
  | down rest ih => exact Nat.le_succ_of_le ih

/-- What is under the key is under it in the trie on the way. -/
theorem Below.lookup_eq (h : Below key sub trie) : trie.lookup key = sub.lookup key := by
  induction h with
  | here => rfl
  | down rest ih => rw [lookup_node, ih]

/-- The way to `sub` only depends on the digits above it. -/
theorem Below.congr (h : Below key sub trie)
    (hsame : ∀ k, m ≤ k → k < n → other k = key k) : Below other sub trie := by
  induction h with
  | here => exact .here
  | @down n label slots rest ih =>
      refine .down ?_
      rw [hsame n rest.le (Nat.lt_succ_self n)]
      exact ih fun k hm hk => hsame k hm (Nat.lt_succ_of_lt hk)

/-- One level further. -/
theorem Below.child {label : A} {slots : ι → Trie ι A V m}
    (h : Below key (.node label slots) trie) : Below key (slots (key m)) trie := by
  induction h with
  | here => exact .down .here
  | down rest ih => exact .down ih

end Below

variable [DecidableEq ι]

/-- A node stays separated when a subtrie is exchanged for one that shares no label with
the rest of it. -/
theorem separated_update {n : ℕ} {label : A} {slots : ι → Trie ι A V n} {i : ι}
    {new : Trie ι A V n} (h : (node label slots).Separated) (hnew : new.Separated)
    (hlabel : label ∉ new.labels)
    (hsiblings : ∀ j other, j ≠ i → other ∈ (slots j).labels → other ∉ new.labels) :
    (node label (Function.update slots i new)).Separated := by
  obtain ⟨hlabels, hdisjoint, hslots⟩ := separated_node.mp h
  refine separated_node.mpr ⟨fun j => ?_, fun j k other hjmem hkmem => ?_, fun j => ?_⟩
  · by_cases hj : j = i
    · subst hj
      rwa [Function.update_self]
    · rw [Function.update_of_ne hj]
      exact hlabels j
  · by_cases hj : j = i
    · by_cases hk : k = i
      · rw [hj, hk]
      · rw [hj, Function.update_self] at hjmem
        rw [Function.update_of_ne hk] at hkmem
        exact absurd hjmem (hsiblings k other hk hkmem)
    · rw [Function.update_of_ne hj] at hjmem
      by_cases hk : k = i
      · rw [hk, Function.update_self] at hkmem
        exact absurd hkmem (hsiblings j other hj hjmem)
      · rw [Function.update_of_ne hk] at hkmem
        exact hdisjoint j k other hjmem hkmem
  · by_cases hj : j = i
    · subst hj
      rwa [Function.update_self]
    · rw [Function.update_of_ne hj]
      exact hslots j

/-! ### Growing a path -/

/-- A path to a value and nothing else; `fresh k` labels its node of height `k + 1`. -/
def build (key : ℕ → ι) (fresh : ℕ → A) (value : V) : (n : ℕ) → Trie ι A V n
  | 0 => .item value
  | n + 1 => .node (fresh n)
      (Function.update (fun _ => .nil) (key n) (build key fresh value n))

theorem build_succ (key : ℕ → ι) (fresh : ℕ → A) (value : V) (n : ℕ) :
    build key fresh value (n + 1) = .node (fresh n)
      (Function.update (fun _ => .nil) (key n) (build key fresh value n)) := rfl

@[simp] theorem isNil_build (key : ℕ → ι) (fresh : ℕ → A) (value : V) (n : ℕ) :
    (build key fresh value n).isNil = false := by
  cases n <;> rfl

theorem mem_labels_build {key : ℕ → ι} {fresh : ℕ → A} {value : V} {n : ℕ} {label : A} :
    label ∈ (build key fresh value n).labels ↔ ∃ k < n, label = fresh k := by
  induction n with
  | zero => simp [build]
  | succ n ih =>
      rw [build_succ, mem_labels_node]
      constructor
      · rintro (rfl | ⟨i, hmem⟩)
        · exact ⟨n, Nat.lt_succ_self n, rfl⟩
        · by_cases hi : i = key n
          · subst hi
            rw [Function.update_self, ih] at hmem
            obtain ⟨k, hk, rfl⟩ := hmem
            exact ⟨k, Nat.lt_succ_of_lt hk, rfl⟩
          · rw [Function.update_of_ne hi] at hmem
            exact absurd hmem (Set.notMem_empty _)
      · rintro ⟨k, hk, rfl⟩
        rcases Nat.lt_succ_iff_lt_or_eq.mp hk with hlt | rfl
        · refine Or.inr ⟨key n, ?_⟩
          rw [Function.update_self, ih]
          exact ⟨k, hlt, rfl⟩
        · exact Or.inl rfl

theorem separated_build {key : ℕ → ι} {fresh : ℕ → A} {value : V} {n : ℕ}
    (hfresh : ∀ j < n, ∀ k < n, fresh j = fresh k → j = k) :
    (build key fresh value n).Separated := by
  induction n with
  | zero => trivial
  | succ n ih =>
      have hempty : (node (fresh n) fun _ => (nil : Trie ι A V n)).Separated :=
        ⟨fun _ => Set.notMem_empty _, fun _ _ _ hmem => absurd hmem (Set.notMem_empty _),
          fun _ => trivial⟩
      rw [build_succ]
      refine separated_update hempty (ih fun j hj k hk =>
        hfresh j (Nat.lt_succ_of_lt hj) k (Nat.lt_succ_of_lt hk)) ?_ ?_
      · intro hmem
        obtain ⟨k, hk, heq⟩ := mem_labels_build.mp hmem
        have := hfresh n (Nat.lt_succ_self n) k (Nat.lt_succ_of_lt hk) heq
        omega
      · exact fun _ _ _ hmem => absurd hmem (Set.notMem_empty _)

theorem full_build (key : ℕ → ι) (fresh : ℕ → A) (value : V) (n : ℕ) :
    (build key fresh value n).Full := by
  induction n with
  | zero => trivial
  | succ n ih =>
      refine ⟨⟨key n, by simp⟩, fun i => ?_⟩
      by_cases hi : i = key n
      · subst hi
        rw [Function.update_self]
        exact ih
      · rw [Function.update_of_ne hi]
        trivial

theorem lookup_build_self (key : ℕ → ι) (fresh : ℕ → A) (value : V) (n : ℕ) :
    (build key fresh value n).lookup key = some value := by
  induction n with
  | zero => rfl
  | succ n ih => simpa [build] using ih

theorem lookup_build_of_ne {key other : ℕ → ι} (fresh : ℕ → A) (value : V) {n : ℕ}
    (hne : ∃ k < n, other k ≠ key k) :
    (build key fresh value n).lookup other = none := by
  induction n with
  | zero =>
      obtain ⟨k, hk, -⟩ := hne
      omega
  | succ n ih =>
      rw [build_succ, lookup_node]
      by_cases hdigit : other n = key n
      · rw [hdigit, Function.update_self]
        obtain ⟨k, hk, hk'⟩ := hne
        refine ih ⟨k, ?_, hk'⟩
        rcases Nat.lt_succ_iff_lt_or_eq.mp hk with hlt | rfl
        · exact hlt
        · exact absurd hdigit hk'
      · rw [Function.update_of_ne hdigit, lookup_nil]

/-! ### Insertion -/

/-- Put a value under a key, whatever is there. -/
def insertAt (key : ℕ → ι) (fresh : ℕ → A) (value : V) :
    {n : ℕ} → Trie ι A V n → Trie ι A V n
  | n, .nil => build key fresh value n
  | _, .item _ => .item value
  | n + 1, .node label slots => .node label
      (Function.update slots (key n) ((slots (key n)).insertAt key fresh value))

theorem insertAt_nil (key : ℕ → ι) (fresh : ℕ → A) (value : V) {n : ℕ} :
    (nil : Trie ι A V n).insertAt key fresh value = build key fresh value n := by
  cases n <;> rfl

@[simp] theorem insertAt_item (key : ℕ → ι) (fresh : ℕ → A) (value old : V) :
    (item old : Trie ι A V 0).insertAt key fresh value = item value := rfl

theorem insertAt_node (key : ℕ → ι) (fresh : ℕ → A) (value : V) {n : ℕ} (label : A)
    (slots : ι → Trie ι A V n) :
    (node label slots).insertAt key fresh value = .node label
      (Function.update slots (key n) ((slots (key n)).insertAt key fresh value)) := rfl

@[simp] theorem isNil_insertAt (key : ℕ → ι) (fresh : ℕ → A) (value : V) {n : ℕ}
    (trie : Trie ι A V n) : (trie.insertAt key fresh value).isNil = false := by
  cases trie with
  | nil => simp [insertAt_nil]
  | item old => rfl
  | node label slots => rfl

theorem lookup_insertAt_self (key : ℕ → ι) (fresh : ℕ → A) (value : V) {n : ℕ}
    (trie : Trie ι A V n) : (trie.insertAt key fresh value).lookup key = some value := by
  induction trie with
  | nil => rw [insertAt_nil, lookup_build_self]
  | item old => rfl
  | node label slots ih =>
      rw [insertAt_node, lookup_node, Function.update_self]
      exact ih _

theorem lookup_insertAt_of_ne {key other : ℕ → ι} (fresh : ℕ → A) (value : V) {n : ℕ}
    (trie : Trie ι A V n) (hne : ∃ k < n, other k ≠ key k) :
    (trie.insertAt key fresh value).lookup other = trie.lookup other := by
  induction trie with
  | nil => rw [insertAt_nil, lookup_build_of_ne fresh value hne, lookup_nil]
  | item old =>
      obtain ⟨k, hk, -⟩ := hne
      omega
  | @node n label slots ih =>
      rw [insertAt_node, lookup_node, lookup_node]
      by_cases hdigit : other n = key n
      · rw [hdigit, Function.update_self]
        obtain ⟨k, hk, hk'⟩ := hne
        refine ih _ ⟨k, ?_, hk'⟩
        rcases Nat.lt_succ_iff_lt_or_eq.mp hk with hlt | rfl
        · exact hlt
        · exact absurd hdigit hk'
      · rw [Function.update_of_ne hdigit]

/-- Insertion leaves no empty node, also in a node that was empty before. -/
theorem full_insertAt_node {key : ℕ → ι} (fresh : ℕ → A) (value : V) {n : ℕ} {label : A}
    {slots : ι → Trie ι A V n} (hslots : ∀ i, (slots i).Full)
    (hslot : ((slots (key n)).insertAt key fresh value).Full) :
    ((node label slots).insertAt key fresh value).Full := by
  rw [insertAt_node, full_node]
  refine ⟨⟨key n, by simp⟩, fun i => ?_⟩
  by_cases hi : i = key n
  · subst hi
    rw [Function.update_self]
    exact hslot
  · rw [Function.update_of_ne hi]
    exact hslots i

theorem Full.insertAt {key : ℕ → ι} (fresh : ℕ → A) (value : V) {n : ℕ}
    {trie : Trie ι A V n} (h : trie.Full) : (trie.insertAt key fresh value).Full := by
  induction trie with
  | nil =>
      rw [insertAt_nil]
      exact full_build key fresh value _
  | item old => trivial
  | node label slots ih =>
      exact full_insertAt_node fresh value h.2 (ih _ (h.2 _))

/-! ### Deletion -/

variable [Fintype ι]

/-- Remove what is under a key, and the nodes on the way that become empty. -/
def deleteAt (key : ℕ → ι) : {n : ℕ} → Trie ι A V n → Trie ι A V n
  | _, .nil => .nil
  | _, .item _ => .nil
  | n + 1, .node label slots =>
      if ∀ i, (Function.update slots (key n) ((slots (key n)).deleteAt key) i).isNil = true
      then .nil
      else .node label (Function.update slots (key n) ((slots (key n)).deleteAt key))

theorem deleteAt_node (key : ℕ → ι) {n : ℕ} (label : A) (slots : ι → Trie ι A V n) :
    (node label slots).deleteAt key =
      if ∀ i, (Function.update slots (key n) ((slots (key n)).deleteAt key) i).isNil = true
      then .nil
      else .node label (Function.update slots (key n) ((slots (key n)).deleteAt key)) := rfl

/-- What is removed is not there, and everything else still is. -/
theorem lookup_deleteAt (key other : ℕ → ι) {n : ℕ} (trie : Trie ι A V n) :
    (trie.deleteAt key).lookup other =
      if ∀ k < n, other k = key k then none else trie.lookup other := by
  induction trie with
  | nil => simp [deleteAt]
  | item old => simp [deleteAt]
  | @node n label slots ih =>
      -- also when the node goes away: then its slots were empty
      have hnode : ((node label slots).deleteAt key).lookup other =
          (Function.update slots (key n) ((slots (key n)).deleteAt key) (other n)).lookup
            other := by
        rw [deleteAt_node]
        split
        · rename_i hempty
          rw [(isNil_iff _).mp (hempty (other n)), lookup_nil, lookup_nil]
        · rw [lookup_node]
      rw [hnode, lookup_node]
      by_cases hdigit : other n = key n
      · rw [hdigit, Function.update_self, ih]
        refine if_congr ⟨fun h k hk => ?_, fun h k hk => h k (Nat.lt_succ_of_lt hk)⟩ rfl rfl
        rcases Nat.lt_succ_iff_lt_or_eq.mp hk with hlt | rfl
        · exact h k hlt
        · exact hdigit
      · rw [Function.update_of_ne hdigit, if_neg]
        exact fun h => hdigit (h n (Nat.lt_succ_self n))

theorem full_deleteAt {key : ℕ → ι} {n : ℕ} {trie : Trie ι A V n} (h : trie.Full) :
    (trie.deleteAt key).Full := by
  induction trie with
  | nil => trivial
  | item old => trivial
  | @node n label slots ih =>
      rw [deleteAt_node]
      split
      · trivial
      · rename_i hkeep
        rw [not_forall] at hkeep
        obtain ⟨i, hi⟩ := hkeep
        refine ⟨⟨i, by simpa using hi⟩, fun j => ?_⟩
        by_cases hj : j = key n
        · subst hj
          rw [Function.update_self]
          exact ih _ (h.2 _)
        · rw [Function.update_of_ne hj]
          exact h.2 j

end Trie

end Webcamd.Library
