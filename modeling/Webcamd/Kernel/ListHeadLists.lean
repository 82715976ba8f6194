import Webcamd.Kernel.ListHead

/-!
# The lists of doubly linked lists

What the changes of lists do to them.

* `Lists.drop_eq_some` and so on — the lists after a change.
* `Lists.linked_drop` and so on — what is linked after it.
* `Lists.WellFormed.drop` and so on — no head is in a list then, and nothing is in two lists.
-/

namespace Webcamd.Kernel.ListHead

variable {α : Type} [DecidableEq α] {lists : Lists α} {a e head : α} {xs : List α}

namespace Lists

omit [DecidableEq α] in
theorem linked_of_mem (hhead : lists head = some xs) (ha : a ∈ head :: xs) : lists.Linked a := by
  obtain rfl | ha := List.mem_cons.mp ha
  · exact .inl ⟨xs, hhead⟩
  · exact .inr ⟨head, xs, hhead, ha⟩

omit [DecidableEq α] in
/-- What a loop comes to is linked. -/
theorem linked_headD {kept rest : List α} (hhead : lists head = some (kept ++ rest)) :
    lists.Linked (rest.headD head) := by
  refine linked_of_mem hhead ?_
  cases rest with
  | nil => exact List.mem_cons_self
  | cons x rest => exact List.mem_cons_of_mem head (List.mem_append_right kept List.mem_cons_self)

omit [DecidableEq α] in
theorem Free.not_mem (he : lists.Free e) {h : α} (hxs : lists h = some xs) : e ∉ xs :=
  fun hmem => he.1 ⟨h, xs, hxs, hmem⟩

theorem drop_eq_some {h : α} :
    lists.drop e h = some xs ↔ h ≠ e ∧ ∃ ys, lists h = some ys ∧ xs = ys.filter (· ≠ e) := by
  unfold drop
  by_cases hhe : h = e
  · simp [hhe]
  · rw [if_neg hhe, Option.map_eq_some_iff]
    constructor
    · rintro ⟨ys, hys, rfl⟩
      exact ⟨hhe, ys, hys, rfl⟩
    · rintro ⟨-, ys, hys, rfl⟩
      exact ⟨ys, hys, rfl⟩

/-- An entry that has been dropped is not linked, and all others still are. -/
theorem linked_drop (hempty : ∀ xs, lists e = some xs → xs = []) :
    (lists.drop e).Linked a ↔ lists.Linked a ∧ a ≠ e := by
  constructor
  · rintro (⟨xs, hxs⟩ | ⟨h, xs, hxs, hmem⟩)
    · obtain ⟨hne, ys, hys, -⟩ := drop_eq_some.mp hxs
      exact ⟨.inl ⟨ys, hys⟩, hne⟩
    · obtain ⟨-, ys, hys, rfl⟩ := drop_eq_some.mp hxs
      rw [List.mem_filter, decide_eq_true_eq] at hmem
      exact ⟨.inr ⟨h, ys, hys, hmem.1⟩, hmem.2⟩
  · rintro ⟨⟨xs, hxs⟩ | ⟨h, xs, hxs, hmem⟩, hne⟩
    · exact .inl ⟨_, drop_eq_some.mpr ⟨hne, xs, hxs, rfl⟩⟩
    · have hhe : h ≠ e := by
        rintro rfl
        rw [hempty xs hxs] at hmem
        cases hmem
      refine .inr ⟨h, _, drop_eq_some.mpr ⟨hhe, xs, hxs, rfl⟩, ?_⟩
      rw [List.mem_filter, decide_eq_true_eq]
      exact ⟨hmem, hne⟩

theorem WellFormed.drop (hwf : lists.WellFormed) (e : α) : (lists.drop e).WellFormed where
  entry h xs x hxs hmem := by
    obtain ⟨-, ys, hys, rfl⟩ := drop_eq_some.mp hxs
    unfold Lists.drop
    rw [hwf.entry h ys x hys (List.mem_of_mem_filter hmem)]
    simp
  nodup h xs hxs := by
    obtain ⟨-, ys, hys, rfl⟩ := drop_eq_some.mp hxs
    exact (hwf.nodup h ys hys).filter _
  unique h h' xs xs' x hxs hxs' hmem hmem' := by
    obtain ⟨-, ys, hys, rfl⟩ := drop_eq_some.mp hxs
    obtain ⟨-, ys', hys', rfl⟩ := drop_eq_some.mp hxs'
    exact hwf.unique h h' ys ys' x hys hys' (List.mem_of_mem_filter hmem)
      (List.mem_of_mem_filter hmem')

omit [DecidableEq α] in
theorem WellFormed.nodup_cons (hwf : lists.WellFormed) (hxs : lists head = some xs) :
    (head :: xs).Nodup := by
  refine List.nodup_cons.mpr ⟨fun hmem => ?_, hwf.nodup head xs hxs⟩
  rw [hwf.entry head xs head hxs hmem] at hxs
  cases hxs

theorem modify_eq_some {place : List α → List α} {h : α} {ys : List α}
    (hhead : lists head = some xs) :
    lists.modify head place h = some ys ↔
      h = head ∧ ys = place xs ∨ h ≠ head ∧ lists h = some ys := by
  unfold modify
  by_cases hh : h = head
  · simp [hh, hhead, eq_comm]
  · simp [hh]

theorem linked_modify {place : List α → List α} {zs : List α} (hhead : lists head = some xs)
    (hplace : (place xs).Perm (zs ++ xs)) :
    (lists.modify head place).Linked a ↔ lists.Linked a ∨ a ∈ zs := by
  constructor
  · rintro (⟨ys, hys⟩ | ⟨h, ys, hys, hmem⟩)
    · obtain ⟨rfl, -⟩ | ⟨-, hys⟩ := (modify_eq_some hhead).mp hys
      · exact .inl (.inl ⟨xs, hhead⟩)
      · exact .inl (.inl ⟨ys, hys⟩)
    · obtain ⟨rfl, rfl⟩ | ⟨-, hys⟩ := (modify_eq_some hhead).mp hys
      · obtain hmem | hmem := List.mem_append.mp (hplace.mem_iff.mp hmem)
        · exact .inr hmem
        · exact .inl (.inr ⟨h, xs, hhead, hmem⟩)
      · exact .inl (.inr ⟨h, ys, hys, hmem⟩)
  · rintro ((⟨ys, hys⟩ | ⟨h, ys, hys, hmem⟩) | hmem)
    · by_cases hah : a = head
      · exact .inl ⟨_, (modify_eq_some hhead).mpr (.inl ⟨hah, rfl⟩)⟩
      · exact .inl ⟨_, (modify_eq_some hhead).mpr (.inr ⟨hah, hys⟩)⟩
    · by_cases hh : h = head
      · obtain rfl : ys = xs := Option.some.inj (hys.symm.trans (hh ▸ hhead))
        refine .inr ⟨h, _, (modify_eq_some hhead).mpr (.inl ⟨hh, rfl⟩), ?_⟩
        exact hplace.mem_iff.mpr (List.mem_append_right zs hmem)
      · exact .inr ⟨h, ys, (modify_eq_some hhead).mpr (.inr ⟨hh, hys⟩), hmem⟩
    · refine .inr ⟨head, _, (modify_eq_some hhead).mpr (.inl ⟨rfl, rfl⟩), ?_⟩
      exact hplace.mem_iff.mpr (List.mem_append_left xs hmem)

/-- What was not linked comes into a list. -/
theorem WellFormed.modify (hwf : lists.WellFormed) {place : List α → List α} {zs : List α}
    (hhead : lists head = some xs) (hplace : (place xs).Perm (zs ++ xs)) (hzs : zs.Nodup)
    (hnew : ∀ z ∈ zs, ¬ lists.Linked z) : (lists.modify head place).WellFormed := by
  have hnone : ∀ x, lists x = none → lists.modify head place x = none := fun x hx => by
    unfold Lists.modify
    rw [hx]
    split <;> rfl
  have hplaced : ∀ x, x ∈ place xs → x ∈ zs ∨ x ∈ xs := fun x hx =>
    List.mem_append.mp (hplace.mem_iff.mp hx)
  constructor
  · intro h ys x hys hmem
    obtain ⟨rfl, rfl⟩ | ⟨-, hys⟩ := (modify_eq_some hhead).mp hys
    · obtain hmem | hmem := hplaced x hmem
      · exact hnone x (Option.eq_none_iff_forall_ne_some.mpr fun zs' hzs' =>
          hnew x hmem (.inl ⟨zs', hzs'⟩))
      · exact hnone x (hwf.entry h xs x hhead hmem)
    · exact hnone x (hwf.entry h ys x hys hmem)
  · intro h ys hys
    obtain ⟨rfl, rfl⟩ | ⟨-, hys⟩ := (modify_eq_some hhead).mp hys
    · refine hplace.nodup_iff.mpr (List.nodup_append.mpr ⟨hzs, hwf.nodup h xs hhead, ?_⟩)
      rintro z hz x hx rfl
      exact hnew z hz (.inr ⟨h, xs, hhead, hx⟩)
    · exact hwf.nodup h ys hys
  · intro h h' ys ys' x hys hys' hmem hmem'
    obtain ⟨rfl, rfl⟩ | ⟨-, hold⟩ := (modify_eq_some hhead).mp hys
    · obtain ⟨rfl, -⟩ | ⟨-, hold'⟩ := (modify_eq_some hhead).mp hys'
      · rfl
      · obtain hmem | hmem := hplaced x hmem
        · exact absurd (.inr ⟨h', ys', hold', hmem'⟩) (hnew x hmem)
        · exact hwf.unique h h' xs ys' x hhead hold' hmem hmem'
    · obtain ⟨rfl, rfl⟩ | ⟨-, hold'⟩ := (modify_eq_some hhead).mp hys'
      · obtain hmem' | hmem' := hplaced x hmem'
        · exact absurd (.inr ⟨h, ys, hold, hmem⟩) (hnew x hmem')
        · exact hwf.unique h h' ys xs x hold hhead hmem hmem'
      · exact hwf.unique h h' ys ys' x hold hold' hmem hmem'

theorem fresh_eq_some {h : α} :
    lists.fresh e h = some xs ↔ h = e ∧ xs = [] ∨ h ≠ e ∧ lists h = some xs := by
  unfold fresh
  by_cases hhe : h = e
  · simp [hhe, eq_comm]
  · simp [hhe]

theorem linked_fresh (he : ¬ lists.Linked e) :
    (lists.fresh e).Linked a ↔ lists.Linked a ∨ a = e := by
  constructor
  · rintro (⟨xs, hxs⟩ | ⟨h, xs, hxs, hmem⟩)
    · obtain ⟨rfl, -⟩ | ⟨-, hxs⟩ := fresh_eq_some.mp hxs
      · exact .inr rfl
      · exact .inl (.inl ⟨xs, hxs⟩)
    · obtain ⟨-, rfl⟩ | ⟨-, hxs⟩ := fresh_eq_some.mp hxs
      · cases hmem
      · exact .inl (.inr ⟨h, xs, hxs, hmem⟩)
  · rintro ((⟨xs, hxs⟩ | ⟨h, xs, hxs, hmem⟩) | rfl)
    · exact .inl ⟨xs, fresh_eq_some.mpr (.inr ⟨fun hae => he (.inl ⟨xs, hae ▸ hxs⟩), hxs⟩)⟩
    · exact .inr ⟨h, xs, fresh_eq_some.mpr
        (.inr ⟨fun hhe => he (.inl ⟨xs, hhe ▸ hxs⟩), hxs⟩), hmem⟩
    · exact .inl ⟨[], fresh_eq_some.mpr (.inl ⟨rfl, rfl⟩)⟩

theorem WellFormed.fresh (hwf : lists.WellFormed) (he : ¬ lists.Linked e) :
    (lists.fresh e).WellFormed where
  entry h xs x hxs hmem := by
    obtain ⟨-, rfl⟩ | ⟨-, hold⟩ := fresh_eq_some.mp hxs
    · cases hmem
    · have hxe : x ≠ e := fun hxe => he (.inr ⟨h, xs, hold, hxe ▸ hmem⟩)
      unfold Lists.fresh
      rw [if_neg hxe]
      exact hwf.entry h xs x hold hmem
  nodup h xs hxs := by
    obtain ⟨-, rfl⟩ | ⟨-, hold⟩ := fresh_eq_some.mp hxs
    · exact List.nodup_nil
    · exact hwf.nodup h xs hold
  unique h h' xs xs' x hxs hxs' hmem hmem' := by
    obtain ⟨-, rfl⟩ | ⟨-, hold⟩ := fresh_eq_some.mp hxs
    · cases hmem
    · obtain ⟨-, rfl⟩ | ⟨-, hold'⟩ := fresh_eq_some.mp hxs'
      · cases hmem'
      · exact hwf.unique h h' xs xs' x hold hold' hmem hmem'

theorem without_eq_some {h : α} :
    lists.without e h = some xs ↔ h ≠ e ∧ lists h = some xs := by
  unfold without
  by_cases hhe : h = e
  · simp [hhe]
  · simp [hhe]

theorem WellFormed.without (hwf : lists.WellFormed) (e : α) : (lists.without e).WellFormed where
  entry h xs x hxs hmem := by
    unfold Lists.without
    rw [hwf.entry h xs x (without_eq_some.mp hxs).2 hmem, ite_self]
  nodup h xs hxs := hwf.nodup h xs (without_eq_some.mp hxs).2
  unique h h' xs xs' x hxs hxs' :=
    hwf.unique h h' xs xs' x (without_eq_some.mp hxs).2 (without_eq_some.mp hxs').2

theorem cut_eq_some {list : α} {front back : List α} {h : α} :
    lists.cut list head front back h = some xs ↔
      h = list ∧ xs = front ∨ h ≠ list ∧ h = head ∧ xs = back ∨
        h ≠ list ∧ h ≠ head ∧ lists h = some xs := by
  unfold cut
  by_cases hl : h = list
  · simp [hl, eq_comm]
  · by_cases hh : h = head
    · rw [if_neg hl, if_pos hh, Option.some_inj]
      constructor
      · rintro rfl
        exact .inr (.inl ⟨hl, hh, rfl⟩)
      · rintro (⟨hl', -⟩ | ⟨-, -, rfl⟩ | ⟨-, hh', -⟩)
        · exact absurd hl' hl
        · rfl
        · exact absurd hh hh'
    · simp [hl, hh]

/-- What is in the lists afterwards was in them before. -/
theorem entry_of_cut {list : α} {front back : List α} (hhead : lists head = some (front ++ back))
    (ha : (lists.cut list head front back).Entry a) : lists.Entry a := by
  obtain ⟨h, xs, hxs, hmem⟩ := ha
  obtain ⟨-, rfl⟩ | ⟨-, -, rfl⟩ | ⟨-, -, hold⟩ := cut_eq_some.mp hxs
  · exact ⟨head, _, hhead, List.mem_append_left back hmem⟩
  · exact ⟨head, _, hhead, List.mem_append_right front hmem⟩
  · exact ⟨h, xs, hold, hmem⟩

theorem linked_cut {list : α} {front back : List α} (hhead : lists head = some (front ++ back))
    (hlist : ¬ lists.Linked list) :
    (lists.cut list head front back).Linked a ↔ lists.Linked a ∨ a = list := by
  have hlh : head ≠ list := fun hlh => hlist (.inl ⟨_, hlh ▸ hhead⟩)
  constructor
  · rintro (⟨xs, hxs⟩ | hentry)
    · obtain ⟨hal, -⟩ | ⟨-, rfl, -⟩ | ⟨-, -, hold⟩ := cut_eq_some.mp hxs
      · exact .inr hal
      · exact .inl (.inl ⟨_, hhead⟩)
      · exact .inl (.inl ⟨xs, hold⟩)
    · exact .inl (.inr (entry_of_cut hhead hentry))
  · rintro ((⟨xs, hxs⟩ | ⟨h, xs, hxs, hmem⟩) | rfl)
    · have hal : a ≠ list := fun hal => hlist (.inl ⟨xs, hal ▸ hxs⟩)
      by_cases hah : a = head
      · exact .inl ⟨back, cut_eq_some.mpr (.inr (.inl ⟨hal, hah, rfl⟩))⟩
      · exact .inl ⟨xs, cut_eq_some.mpr (.inr (.inr ⟨hal, hah, hxs⟩))⟩
    · have hhl : h ≠ list := fun hhl => hlist (.inl ⟨xs, hhl ▸ hxs⟩)
      by_cases hh : h = head
      · obtain rfl : xs = front ++ back := Option.some.inj (hxs.symm.trans (hh ▸ hhead))
        obtain hmem | hmem := List.mem_append.mp hmem
        · exact .inr ⟨list, front, cut_eq_some.mpr (.inl ⟨rfl, rfl⟩), hmem⟩
        · exact .inr ⟨head, back, cut_eq_some.mpr (.inr (.inl ⟨hlh, rfl, rfl⟩)), hmem⟩
      · exact .inr ⟨h, xs, cut_eq_some.mpr (.inr (.inr ⟨hhl, hh, hxs⟩)), hmem⟩
    · exact .inl ⟨front, cut_eq_some.mpr (.inl ⟨rfl, rfl⟩)⟩

theorem WellFormed.cut (hwf : lists.WellFormed) {list : α} {front back : List α}
    (hhead : lists head = some (front ++ back)) (hlist : ¬ lists.Linked list) :
    (lists.cut list head front back).WellFormed := by
  have hnodup := List.nodup_append.mp (hwf.nodup head _ hhead)
  have hfront : ∀ x ∈ front, x ∈ front ++ back := fun x hx => List.mem_append_left back hx
  have hback : ∀ x ∈ back, x ∈ front ++ back := fun x hx => List.mem_append_right front hx
  constructor
  · intro h xs x hxs hmem
    obtain ⟨k, ys, hys, hin⟩ := entry_of_cut hhead ⟨h, xs, hxs, hmem⟩
    have hnone := hwf.entry k ys x hys hin
    refine Option.eq_none_iff_forall_ne_some.mpr fun zs hzs => ?_
    obtain ⟨rfl, -⟩ | ⟨-, rfl, -⟩ | ⟨-, -, hold⟩ := cut_eq_some.mp hzs
    · exact hlist (.inr ⟨k, ys, hys, hin⟩)
    · rw [hnone] at hhead
      cases hhead
    · rw [hnone] at hold
      cases hold
  · intro h xs hxs
    obtain ⟨-, rfl⟩ | ⟨-, -, rfl⟩ | ⟨-, -, hold⟩ := cut_eq_some.mp hxs
    · exact hnodup.1
    · exact hnodup.2.1
    · exact hwf.nodup h xs hold
  · intro h h' xs xs' x hxs hxs' hmem hmem'
    obtain ⟨hh, rfl⟩ | ⟨-, hh, rfl⟩ | ⟨-, hh, hold⟩ := cut_eq_some.mp hxs
    · obtain ⟨hh', -⟩ | ⟨-, -, rfl⟩ | ⟨-, hne, hold'⟩ := cut_eq_some.mp hxs'
      · rw [hh, hh']
      · exact absurd rfl (hnodup.2.2 x hmem x hmem')
      · exact absurd (hwf.unique _ _ _ _ x hhead hold' (hfront x hmem) hmem').symm hne
    · obtain ⟨-, rfl⟩ | ⟨-, hh', -⟩ | ⟨-, hne, hold'⟩ := cut_eq_some.mp hxs'
      · exact absurd rfl (hnodup.2.2 x hmem' x hmem)
      · rw [hh, hh']
      · exact absurd (hwf.unique _ _ _ _ x hhead hold' (hback x hmem) hmem').symm hne
    · obtain ⟨-, rfl⟩ | ⟨-, -, rfl⟩ | ⟨-, -, hold'⟩ := cut_eq_some.mp hxs'
      · exact absurd (hwf.unique _ _ _ _ x hold hhead hmem (hfront x hmem')) hh
      · exact absurd (hwf.unique _ _ _ _ x hold hhead hmem (hback x hmem')) hh
      · exact hwf.unique h h' xs xs' x hold hold' hmem hmem'

omit [DecidableEq α] in
theorem rename_eq_some {f : Equiv.Perm α} {h : α} :
    lists.rename f h = some xs ↔ ∃ ys, lists (f.symm h) = some ys ∧ ys.map f = xs :=
  Option.map_eq_some_iff

omit [DecidableEq α] in
theorem linked_rename {f : Equiv.Perm α} : (lists.rename f).Linked a ↔ lists.Linked (f.symm a) := by
  constructor
  · rintro (⟨xs, hxs⟩ | ⟨h, xs, hxs, hmem⟩)
    · obtain ⟨ys, hys, -⟩ := rename_eq_some.mp hxs
      exact .inl ⟨ys, hys⟩
    · obtain ⟨ys, hys, rfl⟩ := rename_eq_some.mp hxs
      obtain ⟨y, hy, rfl⟩ := List.mem_map.mp hmem
      rw [f.symm_apply_apply]
      exact .inr ⟨_, ys, hys, hy⟩
  · rintro (⟨ys, hys⟩ | ⟨h, ys, hys, hmem⟩)
    · exact .inl ⟨_, rename_eq_some.mpr ⟨ys, hys, rfl⟩⟩
    · refine .inr ⟨f h, _, rename_eq_some.mpr ⟨ys, ?_, rfl⟩, ?_⟩
      · rwa [f.symm_apply_apply]
      · exact List.mem_map.mpr ⟨_, hmem, f.apply_symm_apply a⟩

omit [DecidableEq α] in
theorem WellFormed.rename (hwf : lists.WellFormed) (f : Equiv.Perm α) :
    (lists.rename f).WellFormed where
  entry h xs x hxs hmem := by
    obtain ⟨ys, hys, rfl⟩ := rename_eq_some.mp hxs
    obtain ⟨y, hy, rfl⟩ := List.mem_map.mp hmem
    unfold Lists.rename
    rw [f.symm_apply_apply, hwf.entry _ ys y hys hy, Option.map_none]
  nodup h xs hxs := by
    obtain ⟨ys, hys, rfl⟩ := rename_eq_some.mp hxs
    exact (hwf.nodup _ ys hys).map f.injective
  unique h h' xs xs' x hxs hxs' hmem hmem' := by
    obtain ⟨ys, hys, rfl⟩ := rename_eq_some.mp hxs
    obtain ⟨ys', hys', rfl⟩ := rename_eq_some.mp hxs'
    obtain ⟨y, hy, rfl⟩ := List.mem_map.mp hmem
    obtain ⟨y', hy', hsame⟩ := List.mem_map.mp hmem'
    obtain rfl := f.injective hsame
    exact f.symm.injective (hwf.unique _ _ ys ys' y' hys hys' hy hy')

omit [DecidableEq α] in
/-- Two lists have nothing in common, nor have their heads. -/
theorem WellFormed.disjoint (hwf : lists.WellFormed) {h k : α} {ys : List α}
    (hxs : lists h = some xs) (hys : lists k = some ys) (hne : h ≠ k) (ha : a ∈ h :: xs) :
    a ∉ k :: ys := by
  intro ha'
  obtain rfl | ha := List.mem_cons.mp ha
  · obtain rfl | ha' := List.mem_cons.mp ha'
    · exact hne rfl
    · rw [hwf.entry k ys a hys ha'] at hxs
      cases hxs
  · obtain rfl | ha' := List.mem_cons.mp ha'
    · rw [hwf.entry h xs a hxs ha] at hys
      cases hys
    · exact hne (hwf.unique h k xs ys a hxs hys ha ha')

theorem linked_without (hwf : lists.WellFormed) (hxs : lists e = some xs) :
    (lists.without e).Linked a ↔ lists.Linked a ∧ a ∉ e :: xs := by
  constructor
  · rintro (⟨ys, hys⟩ | ⟨h, ys, hys, hmem⟩)
    · obtain ⟨hne, hys⟩ := without_eq_some.mp hys
      exact ⟨.inl ⟨ys, hys⟩, hwf.disjoint hys hxs hne List.mem_cons_self⟩
    · obtain ⟨hne, hys⟩ := without_eq_some.mp hys
      exact ⟨.inr ⟨h, ys, hys, hmem⟩, hwf.disjoint hys hxs hne (List.mem_cons_of_mem h hmem)⟩
  · rintro ⟨⟨ys, hys⟩ | ⟨h, ys, hys, hmem⟩, hnot⟩
    · exact .inl ⟨ys, without_eq_some.mpr ⟨fun hae => hnot (hae ▸ List.mem_cons_self), hys⟩⟩
    · refine .inr ⟨h, ys, without_eq_some.mpr ⟨fun hhe => hnot ?_, hys⟩, hmem⟩
      obtain rfl : ys = xs := Option.some.inj (hys.symm.trans (hhe ▸ hxs))
      exact List.mem_cons_of_mem e hmem

end Lists

end Webcamd.Kernel.ListHead
