import Webcamd.Kernel.ListHeadLists

/-!
# Doubly linked lists, in every run

* `Represents` — the pointers are those of the lists, and each list is a ring.
* `Represents.delete`, `Represents.insert`, `Represents.splice`, `Represents.replace` and
  `Represents.cut` — what is done to the rings.
* `represents_step` — a call that is allowed does what it means.
* `lists_kept` — **after every run of calls** the loops go through the lists, forwards and
  backwards, and entries may be deleted on the way.
-/

namespace Webcamd.Kernel.ListHead

open Webcamd.Library

variable {α : Type} [DecidableEq α]

/-! ### The lists and the permutation -/

section Meaning

variable {m : Memory α} {σ : Equiv.Perm α} {lists : Lists α} {a e head : α} {xs : List α}

/-- **The pointers are those of the lists.** -/
structure Represents (m : Memory α) (lists : Lists α) (σ : Equiv.Perm α) : Prop where
  wf : lists.WellFormed
  stores : Stores m σ lists.Linked
  way : ∀ h xs, lists h = some xs → Way σ h xs h

namespace Represents

theorem filter_append {l l' : List α} (hnodup : (l ++ e :: l').Nodup) :
    (l ++ e :: l').filter (· ≠ e) = l ++ l' := by
  have hnot := List.nodup_cons.mp (List.nodup_middle.mp hnodup)
  have hl : ∀ y ∈ l ++ l', y ≠ e := fun y hy hye => hnot.1 (hye ▸ hy)
  rw [List.filter_append, List.filter_cons_of_neg (by simp), ← List.filter_append]
  exact List.filter_eq_self.mpr fun y hy => decide_eq_true (hl y hy)

theorem filter_of_not_mem (hmem : e ∉ xs) : xs.filter (· ≠ e) = xs :=
  List.filter_eq_self.mpr fun _ hy => decide_eq_true fun hye => hmem (hye ▸ hy)

/-- A list without an entry, which may be in another one. -/
theorem way_drop (h : Represents m lists σ) {k : α} (hk : lists k = some xs) (hke : k ≠ e) :
    Way (σ * Equiv.swap (σ.symm e) e) k (xs.filter (· ≠ e)) k := by
  have hway := h.way k xs hk
  by_cases hmem : e ∈ xs
  · obtain ⟨l, l', rfl⟩ := List.append_of_mem hmem
    have hnodup := h.wf.nodup_cons hk
    rw [filter_append (List.nodup_cons.mp hnodup).2]
    exact hway.remove (Way.append.mp hway).1.symm_end.symm hnodup
  · -- What is before the entry is not in this ring, since one does not leave a ring.
    rw [filter_of_not_mem hmem]
    have hnot : e ∉ k :: xs := fun hin => (List.mem_cons.mp hin).elim (fun hek => hke hek.symm) hmem
    refine hway.congr fun y hy => Way.mul_swap_of_ne σ (fun hye => ?_) fun hye => hnot (hye ▸ hy)
    have hnext := hway.apply_mem hy
    rw [hye, σ.apply_symm_apply] at hnext
    exact hnot (hnext.elim (List.mem_cons_of_mem k) fun hek => hek ▸ List.mem_cons_self)

/-- **An entry is taken out.** -/
theorem delete (h : Represents m lists σ) (he : lists.Entry e ∨ lists e = some []) :
    ∃ after σ', m.listDelEntry e = some after ∧ Represents after (lists.drop e) σ' ∧
      ¬ (lists.drop e).Linked e := by
  have hempty : ∀ xs, lists e = some xs → xs = [] := by
    intro xs hxs
    obtain ⟨k, ys, hys, hmem⟩ | hnil := he
    · rw [h.wf.entry k ys e hys hmem] at hxs
      cases hxs
    · exact Option.some.inj (hxs.symm.trans hnil)
  have hlinked : lists.Linked e := he.elim .inr fun hnil => .inl ⟨[], hnil⟩
  obtain ⟨after, hafter, hstores⟩ := h.stores.delete hlinked
  refine ⟨after, _, hafter, ⟨h.wf.drop e, hstores.congr fun a => Lists.linked_drop hempty,
    fun k ys hk => ?_⟩, fun hl => ((Lists.linked_drop hempty).mp hl).2 rfl⟩
  obtain ⟨hke, xs, hxs, rfl⟩ := Lists.drop_eq_some.mp hk
  exact h.way_drop hxs hke

/-- The head of an empty list need not be known as one. -/
theorem forget (h : Represents m lists σ) (he : lists.Free e) :
    Represents m (lists.drop e) σ ∧ ¬ (lists.drop e).Linked e := by
  refine ⟨⟨h.wf.drop e, ⟨fun a ha => ?_, fun a ha => ?_, fun a ha => ?_⟩, fun k ys hk => ?_⟩,
    fun hl => ((Lists.linked_drop he.2).mp hl).2 rfl⟩
  · exact h.stores.next a ((Lists.linked_drop he.2).mp ha).1
  · exact h.stores.prev a ((Lists.linked_drop he.2).mp ha).1
  · by_cases hlinked : lists.Linked a
    · have hae : a = e := by
        by_contra hne
        exact ha ((Lists.linked_drop he.2).mpr ⟨hlinked, hne⟩)
      rw [hae] at hlinked ⊢
      obtain ⟨xs, hxs⟩ := hlinked.resolve_right he.1
      rw [he.2 xs hxs] at hxs
      exact h.way e [] hxs
    · exact h.stores.fixed a hlinked
  · obtain ⟨-, xs, hxs, rfl⟩ := Lists.drop_eq_some.mp hk
    rw [filter_of_not_mem (he.not_mem hxs)]
    exact h.way k xs hxs

theorem clear (h : Represents m lists σ) (he : ¬ lists.Linked e) :
    Represents ((m.setNext e none).setPrev e none) lists σ :=
  ⟨h.wf, h.stores.clear he, h.way⟩

theorem fresh (h : Represents m lists σ) (he : ¬ lists.Linked e) :
    Represents (m.initListHead e) (lists.fresh e) σ := by
  refine ⟨h.wf.fresh he, (h.stores.fresh he).congr fun a => Lists.linked_fresh he,
    fun k xs hk => ?_⟩
  obtain ⟨rfl, rfl⟩ | ⟨-, hold⟩ := Lists.fresh_eq_some.mp hk
  · exact h.stores.fixed k he
  · exact h.way k xs hold

/-- **Something comes into a list**, behind the entry that was last of some. -/
theorem insert (h : Represents m lists σ) (place : List α → List α) {new : α} {l l' : List α}
    (hnew : ¬ lists.Linked new) (hhead : lists head = some (l ++ l'))
    (hplace : place (l ++ l') = l ++ new :: l') :
    Represents (m.listAddBetween new (l.getLastD head) (σ (l.getLastD head)))
      (lists.modify head place) (σ * Equiv.swap (l.getLastD head) new) := by
  have hperm : (place (l ++ l')).Perm ([new] ++ (l ++ l')) := by
    rw [hplace]
    exact List.perm_middle
  have hlast : l.getLastD head ∈ head :: (l ++ l') :=
    List.mem_append_left l' List.getLastD_mem_cons
  refine ⟨h.wf.modify hhead hperm (List.nodup_singleton new) fun z hz => ?_, ?_, fun k ys hk => ?_⟩
  · rw [List.mem_singleton.mp hz]
    exact hnew
  · refine (h.stores.insert (Lists.linked_of_mem hhead hlast) hnew).congr fun a => ?_
    rw [Lists.linked_modify hhead hperm, List.mem_singleton]
  · obtain ⟨rfl, rfl⟩ | ⟨hne, hold⟩ := (Lists.modify_eq_some hhead).mp hk
    · -- What is new is a ring with no entries.
      have hself : Way σ new [] new := h.stores.fixed new hnew
      have hmerged := (h.way k _ hhead).merge hself rfl (h.wf.nodup_cons hhead)
        (fun hin => hnew (Lists.linked_of_mem hhead hin)) List.not_mem_nil fun x hx => by cases hx
      rw [List.append_nil] at hmerged
      rwa [hplace]
    · refine (h.way k ys hold).congr fun y hy => Way.mul_swap_of_ne σ (fun hyl => ?_) fun hyn => ?_
      · exact h.wf.disjoint hold hhead hne hy (hyl ▸ hlast)
      · exact hnew (Lists.linked_of_mem hold (hyn ▸ hy))

/-- **A list is put into another one**, behind the entry that was last of some. -/
theorem splice (h : Represents m lists σ) (place : List α → List α) {list : α}
    {l l' zs : List α} (hlist : lists list = some zs) (hzs : zs ≠ [])
    (hhead : lists head = some (l ++ l')) (hne : list ≠ head)
    (hplace : place (l ++ l') = l ++ zs ++ l') :
    ∃ after σ', m.listSpliceBetween list (l.getLastD head) (σ (l.getLastD head)) = some after ∧
      Represents after ((lists.without list).modify head place) σ' ∧
      ¬ ((lists.without list).modify head place).Linked list := by
  have hlast : l.getLastD head ∈ head :: (l ++ l') :=
    List.mem_append_left l' List.getLastD_mem_cons
  have hapart : ∀ y ∈ list :: zs, y ∉ head :: (l ++ l') := fun y =>
    h.wf.disjoint hlist hhead hne
  have hend := (h.way list zs hlist).symm_end
  have hmem : σ.symm list ∈ list :: zs := hend ▸ List.getLastD_mem_cons
  have hp : l.getLastD head ≠ list := fun hsame =>
    hapart list List.mem_cons_self (hsame ▸ hlast)
  have hp' : l.getLastD head ≠ σ.symm list := fun hsame => hapart _ hmem (hsame ▸ hlast)
  have hnodup := h.wf.nodup_cons hlist
  have hopen : σ list ≠ list := by
    obtain ⟨z, zs, rfl⟩ := List.exists_cons_of_ne_nil hzs
    rw [(h.way list _ hlist).1]
    rintro rfl
    exact (List.nodup_cons.mp hnodup).1 List.mem_cons_self
  obtain ⟨after, hafter, hstores⟩ := h.stores.splice (Lists.linked_of_mem hlist List.mem_cons_self)
    (Lists.linked_of_mem hhead hlast) hp hp' hopen
  have hhead' : lists.without list head = some (l ++ l') :=
    Lists.without_eq_some.mpr ⟨hne.symm, hhead⟩
  have hperm : (place (l ++ l')).Perm (zs ++ (l ++ l')) := by
    rw [hplace, ← List.append_assoc zs]
    exact List.perm_append_comm.append_right l'
  have hnew : ∀ z ∈ zs, ¬ (lists.without list).Linked z := fun z hz hlinked =>
    ((Lists.linked_without h.wf hlist).mp hlinked).2 (List.mem_cons_of_mem list hz)
  have hlinked : ∀ a, ((lists.without list).modify head place).Linked a ↔
      lists.Linked a ∧ a ≠ list := by
    intro a
    rw [Lists.linked_modify hhead' hperm, Lists.linked_without h.wf hlist, List.mem_cons, not_or]
    constructor
    · rintro (⟨hlinked, hne, -⟩ | hin)
      · exact ⟨hlinked, hne⟩
      · exact ⟨.inr ⟨list, zs, hlist, hin⟩, fun hal => (List.nodup_cons.mp hnodup).1 (hal ▸ hin)⟩
    · rintro ⟨hlinked, hne⟩
      by_cases hin : a ∈ zs
      · exact .inr hin
      · exact .inl ⟨hlinked, hne, hin⟩
  have hwf := (h.wf.without list).modify hhead' hperm (List.nodup_cons.mp hnodup).2 hnew
  refine ⟨after, _, hafter, ⟨hwf, hstores.congr hlinked, fun k ys hk => ?_⟩,
    fun hl => ((hlinked list).mp hl).2 rfl⟩
  obtain ⟨rfl, rfl⟩ | ⟨hkh, hold⟩ := (Lists.modify_eq_some hhead').mp hk
  · -- The ring is merged with the other one, head and all, and then its head is taken out.
    have hmerged := (h.way k _ hhead).merge (h.way list zs hlist) rfl (h.wf.nodup_cons hhead)
      (hapart list List.mem_cons_self) (List.nodup_cons.mp hnodup).1
      fun z hz => hapart z (List.mem_cons_of_mem list hz)
    have hbefore : (l ++ zs).getLastD k = σ.symm list := by
      rw [← (Way.append.mp hmerged).1.symm_end, Equiv.symm_apply_eq,
        Way.mul_swap_of_ne σ hp'.symm (fun hsame => hopen ((Equiv.symm_apply_eq σ).mp hsame).symm),
        σ.apply_symm_apply]
    have hall := hwf.nodup_cons hk
    rw [hplace] at hall ⊢
    refine hmerged.remove hbefore ?_
    rw [← List.cons_append, List.nodup_middle, List.cons_append]
    refine List.nodup_cons.mpr ⟨fun hin => ?_, hall⟩
    have hout := (hlinked list).not.mpr fun hboth => hboth.2 rfl
    rw [← hplace] at hin
    obtain rfl | hin := List.mem_cons.mp hin
    · exact hne rfl
    · exact hout (.inr ⟨k, _, hk, hin⟩)
  · obtain ⟨hkl, hold⟩ := Lists.without_eq_some.mp hold
    refine (h.way k ys hold).congr fun y hy => ?_
    have hylist := h.wf.disjoint hold hlist hkl hy
    have hye : y ≠ σ.symm list := fun hye => hylist (hye ▸ hmem)
    have hyl : y ≠ list := fun hyl => hylist (hyl ▸ List.mem_cons_self)
    have hyp : y ≠ l.getLastD head := fun hyp =>
      h.wf.disjoint hold hhead hkh hy (hyp ▸ hlast)
    rw [Way.mul_swap_of_ne _ hye hyl, Way.mul_swap_of_ne σ hyp hyl]

theorem add (h : Represents m lists σ) {new : α} (hnew : ¬ lists.Linked new)
    (hhead : lists head = some xs) :
    ∃ after σ', m.listAdd new head = some after ∧
      Represents after (lists.modify head (new :: ·)) σ' := by
  have hhead' : lists head = some ([] ++ xs) := hhead
  refine ⟨_, _, ?_, h.insert (new :: ·) hnew hhead' rfl⟩
  unfold Memory.listAdd
  rw [h.stores.next head (.inl ⟨xs, hhead⟩)]
  rfl

theorem addTail (h : Represents m lists σ) {new : α} (hnew : ¬ lists.Linked new)
    (hhead : lists head = some xs) :
    ∃ after σ', m.listAddTail new head = some after ∧
      Represents after (lists.modify head (· ++ [new])) σ' := by
  have hhead' : lists head = some (xs ++ []) := by rw [hhead, List.append_nil]
  refine ⟨_, _, ?_, h.insert (· ++ [new]) hnew hhead' (by simp)⟩
  unfold Memory.listAddTail
  rw [h.stores.prev_eq (.inl ⟨xs, hhead⟩), Option.map_some, ← (h.way head xs hhead).symm_end,
    σ.apply_symm_apply]

theorem spliceFront (h : Represents m lists σ) {list : α} {zs : List α}
    (hlist : lists list = some zs) (hzs : zs ≠ []) (hhead : lists head = some xs)
    (hne : list ≠ head) :
    ∃ after σ', m.spliceFront list head = some after ∧
      Represents after ((lists.without list).modify head (zs ++ ·)) σ' ∧
      ¬ ((lists.without list).modify head (zs ++ ·)).Linked list := by
  have hhead' : lists head = some ([] ++ xs) := hhead
  unfold Memory.spliceFront
  rw [h.stores.next head (.inl ⟨xs, hhead⟩), Option.bind_some]
  exact h.splice (zs ++ ·) hlist hzs hhead' hne rfl

theorem spliceBack (h : Represents m lists σ) {list : α} {zs : List α}
    (hlist : lists list = some zs) (hzs : zs ≠ []) (hhead : lists head = some xs)
    (hne : list ≠ head) :
    ∃ after σ', m.spliceBack list head = some after ∧
      Represents after ((lists.without list).modify head (· ++ zs)) σ' ∧
      ¬ ((lists.without list).modify head (· ++ zs)).Linked list := by
  have hhead' : lists head = some (xs ++ []) := by rw [hhead, List.append_nil]
  have hend := (h.way head xs hhead).symm_end
  have hplace : (fun ys => ys ++ zs) (xs ++ []) = xs ++ zs ++ [] := by simp
  have hsplice := h.splice (· ++ zs) hlist hzs hhead' hne hplace
  rw [← hend, σ.apply_symm_apply] at hsplice
  unfold Memory.spliceBack
  rw [h.stores.prev_eq (.inl ⟨xs, hhead⟩), Option.bind_some]
  exact hsplice

/-- **An entry or a head takes the place of another one.** -/
theorem replace (h : Represents m lists σ) {old new : α} (hold : lists.Linked old)
    (hnew : ¬ lists.Linked new) :
    ∃ after σ', m.listReplace old new = some after ∧
      Represents after (lists.rename (Equiv.swap old new)) σ' ∧
      ¬ (lists.rename (Equiv.swap old new)).Linked old := by
  obtain ⟨after, hafter, hstores⟩ := h.stores.replace hold hnew
  refine ⟨after, _, hafter, ⟨h.wf.rename _, hstores.congr fun a => Lists.linked_rename,
    fun k xs hk => ?_⟩, ?_⟩
  · obtain ⟨ys, hys, rfl⟩ := Lists.rename_eq_some.mp hk
    have hway := (h.way _ ys hys).rename (Equiv.swap old new)
    rwa [Equiv.apply_symm_apply] at hway
  · rw [Lists.linked_rename, Equiv.symm_swap, Equiv.swap_apply_left]
    exact hnew

/-- **A list is cut in two**, behind an entry. -/
theorem cut (h : Represents m lists σ) {list : α} {front back : List α}
    (hhead : lists head = some (front ++ e :: back)) (hlist : ¬ lists.Linked list) :
    ∃ after σ', m.listCutBetween list head e = some after ∧
      Represents after (lists.cut list head (front ++ [e]) back) σ' := by
  have hhead' : lists head = some (front ++ [e] ++ back) := by
    rw [hhead, List.append_assoc, List.singleton_append]
  have hnodup := h.wf.nodup_cons hhead
  have hmem : e ∈ head :: (front ++ e :: back) := by simp
  have hne : e ≠ head := fun hsame => (List.nodup_cons.mp hnodup).1 (by simp [hsame])
  have hle : e ≠ list := fun hsame => hlist (hsame ▸ Lists.linked_of_mem hhead hmem)
  have hlh : list ≠ head := fun hsame => hlist (.inl ⟨_, hsame ▸ hhead⟩)
  obtain ⟨after, hafter, hstores⟩ := h.stores.cut (.inl ⟨_, hhead⟩)
    (Lists.linked_of_mem hhead hmem) hne hlist
  have hother : ∀ y, y ≠ head → y ≠ e → y ≠ list →
      (σ * Equiv.swap head list * Equiv.swap head e) y = σ y := fun y hyh hye hyl => by
    rw [Way.mul_swap_of_ne _ hyh hye, Way.mul_swap_of_ne σ hyh hyl]
  have hrest := List.nodup_cons.mp (List.nodup_middle.mp (List.nodup_cons.mp hnodup).2)
  have hinside : ∀ y ∈ front ++ back,
      (σ * Equiv.swap head list * Equiv.swap head e) y = σ y := by
    intro y hy
    have hin : y ∈ front ++ e :: back := by
      rw [List.mem_append, List.mem_cons]
      exact (List.mem_append.mp hy).imp_right .inr
    refine hother y (fun hyh => (List.nodup_cons.mp hnodup).1 (hyh ▸ hin))
      (fun hye => hrest.1 (hye ▸ hy)) fun hyl => hlist ?_
    exact hyl ▸ Lists.linked_of_mem hhead (List.mem_cons_of_mem head hin)
  obtain ⟨hfront, hback⟩ := Way.append.mp (h.way head _ hhead)
  refine ⟨after, _, hafter, ⟨h.wf.cut hhead' hlist, hstores.congr fun a =>
    Lists.linked_cut hhead' hlist, fun k ys hk => ?_⟩⟩
  obtain ⟨rfl, rfl⟩ | ⟨-, rfl, rfl⟩ | ⟨hkl, hkh, hold⟩ := Lists.cut_eq_some.mp hk
  · refine Way.append.mpr ⟨hfront.start ?_ fun y hy => hinside y (List.mem_append_left back hy), ?_⟩
    · rw [Way.mul_swap_of_ne _ hlh hle.symm, Way.mul_swap_right]
    · show (σ * Equiv.swap head k * Equiv.swap head e) e = k
      rw [Way.mul_swap_right, Way.mul_swap_left, h.stores.fixed k hlist]
  · refine hback.start ?_ fun y hy => hinside y (List.mem_append_right front hy)
    rw [Way.mul_swap_left, Way.mul_swap_of_ne σ hne hle]
  · refine (h.way k ys hold).congr fun y hy => ?_
    have hout := h.wf.disjoint hold hhead hkh hy
    exact hother y (fun hyh => hout (hyh ▸ List.mem_cons_self)) (fun hye => hout (hye ▸ hmem))
      fun hyl => hlist (hyl ▸ Lists.linked_of_mem hold hy)

/-- The only entry of a list is the first one. -/
theorem next_of_singular (h : Represents m lists σ) (hhead : lists head = some xs)
    (he : e ∈ xs) (hsingular : m.listIsSingular head = true) : m.next head = some e := by
  unfold Memory.listIsSingular at hsingular
  rw [Bool.and_eq_true, decide_eq_true_eq] at hsingular
  have hsame := hsingular.2
  have hway := h.way head xs hhead
  rw [h.stores.next head (.inl ⟨xs, hhead⟩), h.stores.prev_eq (.inl ⟨xs, hhead⟩),
    Option.some_inj, hway.symm_end, hway.apply_start] at hsame
  rw [h.stores.next head (.inl ⟨xs, hhead⟩), hway.apply_start]
  obtain _ | ⟨x, rest⟩ := xs
  · cases he
  · obtain rfl | he := List.mem_cons.mp he
    · rfl
    · obtain _ | ⟨y, rest⟩ := rest
      · cases he
      · rw [List.headD_cons, List.getLastD_cons, List.getLastD_cons] at hsame
        have hnot := (List.nodup_cons.mp (h.wf.nodup head _ hhead)).1
        exact absurd (hsame ▸ List.getLastD_mem_cons) hnot

theorem listEmpty_iff (h : Represents m lists σ) (hhead : lists head = some xs) :
    m.listEmpty head = true ↔ xs = [] := by
  unfold Memory.listEmpty
  rw [decide_eq_true_eq, h.stores.next head (.inl ⟨xs, hhead⟩), Option.some_inj]
  have hway := h.way head xs hhead
  obtain _ | ⟨x, xs⟩ := xs
  · exact iff_of_true hway rfl
  · refine iff_of_false (fun hself => ?_) (List.cons_ne_nil x xs)
    rw [hway.1] at hself
    exact (List.nodup_cons.mp (h.wf.nodup_cons hhead)).1 (hself ▸ List.mem_cons_self)

omit [DecidableEq α] in
theorem head_free (h : Represents m lists σ) (hhead : lists head = some []) :
    lists.Free head := by
  refine ⟨fun ⟨k, ys, hys, hmem⟩ => ?_, fun xs hxs => Option.some.inj (hxs.symm.trans hhead)⟩
  rw [h.wf.entry k ys head hys hmem] at hhead
  cases hhead

/-- The head of an empty list is given up. -/
theorem without (h : Represents m lists σ) (hhead : lists head = some []) :
    Represents m (lists.without head) σ := by
  have hfree := h.head_free hhead
  have hsame : lists.drop head = lists.without head := by
    funext k
    unfold Lists.drop Lists.without
    split
    · rfl
    · cases hk : lists k with
      | none => rfl
      | some xs => rw [Option.map_some, filter_of_not_mem (hfree.not_mem hk)]
  exact hsame ▸ (h.forget hfree).1

end Represents

/-! ### Calls -/

theorem Lists.modify_id {place : List α → List α} (hplace : ∀ xs, place xs = xs) :
    lists.modify head place = lists := by
  funext k
  unfold Lists.modify
  split
  · cases lists k with
    | none => rfl
    | some xs => rw [Option.map_some, hplace]
  · rfl

theorem Lists.fresh_without (hhead : lists head = some []) :
    (lists.without head).fresh head = lists := by
  funext k
  unfold Lists.fresh Lists.without
  split
  · rename_i hk
    rw [hk, hhead]
  · rfl

/-- The functions that splice, with their test and with what two of them do at the end. -/
theorem Represents.unlessEmpty (h : Represents m lists σ) {list : α} {zs : List α}
    {place : List α → List α} {spliced : Option (Memory α)} (hlist : lists list = some zs)
    (hempty : zs = [] → ∀ xs, place xs = xs)
    (hspliced : zs ≠ [] → ∃ after σ', spliced = some after ∧
      Represents after ((lists.without list).modify head place) σ' ∧
      ¬ ((lists.without list).modify head place).Linked list) :
    (∃ after σ', (if m.listEmpty list then some m else spliced) = some after ∧
        Represents after ((lists.without list).modify head place) σ') ∧
      ∃ after σ', (if m.listEmpty list then some m
          else spliced.map fun m => m.initListHead list) = some after ∧
        Represents after (((lists.without list).modify head place).fresh list) σ' := by
  by_cases hnil : zs = []
  · rw [if_pos ((h.listEmpty_iff hlist).mpr hnil), if_pos ((h.listEmpty_iff hlist).mpr hnil),
      Lists.modify_id (hempty hnil), Lists.fresh_without (hnil ▸ hlist)]
    exact ⟨⟨m, σ, rfl, h.without (hnil ▸ hlist)⟩, m, σ, rfl, h⟩
  · have hopen := (h.listEmpty_iff hlist).not.mpr hnil
    obtain ⟨after, σ', rfl, hrepresents, hnot⟩ := hspliced hnil
    rw [if_neg hopen, if_neg hopen]
    exact ⟨⟨after, σ', rfl, hrepresents⟩, _, σ', rfl, hrepresents.fresh hnot⟩

theorem Lists.drop_head (he : e ≠ head) (hhead : (lists head).isSome) :
    ∃ xs, lists.drop e head = some xs := by
  obtain ⟨xs, hxs⟩ := Option.isSome_iff_exists.mp hhead
  exact ⟨_, Lists.drop_eq_some.mpr ⟨he.symm, xs, hxs, rfl⟩⟩

theorem Represents.listCutPosition (h : Represents m lists σ) {list : α}
    (hxs : lists head = some xs) (hfree : lists.Free list) (hne : list ≠ head)
    (hentry : e ∈ head :: xs) :
    ∃ after σ', m.listCutPosition list head e = some after ∧
      Represents after ((Call.cut list head e).apply lists) σ' := by
  unfold Memory.listCutPosition Call.apply
  dsimp only
  rw [hxs, Option.getD_some]
  by_cases hnil : xs = []
  · rw [if_pos hnil, if_pos ((h.listEmpty_iff hxs).mpr hnil)]
    exact ⟨m, σ, rfl, h⟩
  · rw [if_neg hnil, if_neg ((h.listEmpty_iff hxs).not.mpr hnil)]
    obtain ⟨hdropped, hnot⟩ := h.forget hfree
    by_cases heh : e = head
    · rw [if_neg fun hboth => hboth.2.2 heh.symm, if_pos heh, if_pos heh]
      exact ⟨_, σ, rfl, hdropped.fresh hnot⟩
    · have hmem := (List.mem_cons.mp hentry).resolve_left heh
      have hhead' : lists.drop list head = some xs := Lists.drop_eq_some.mpr
        ⟨hne.symm, xs, hxs, (Represents.filter_of_not_mem (hfree.not_mem hxs)).symm⟩
      have hsingular : ¬ (m.listIsSingular head = true ∧ m.next head ≠ some e ∧ head ≠ e) :=
        fun hboth => hboth.2.1 (h.next_of_singular hxs hmem hboth.1)
      obtain ⟨front, back, rfl, hfront⟩ := List.eq_append_cons_of_mem hmem
      have hpos : ∀ y ∈ front, decide (y ≠ e) = true := fun y hy =>
        decide_eq_true fun hye => hfront (hye ▸ hy)
      have htake : (front ++ e :: back).takeWhile (· ≠ e) = front := by
        rw [List.takeWhile_append_of_pos hpos, List.takeWhile_cons_of_neg (by simp),
          List.append_nil]
      have hdrop : (front ++ e :: back).dropWhile (· ≠ e) = e :: back := by
        rw [List.dropWhile_append_of_pos hpos, List.dropWhile_cons_of_neg (by simp)]
      rw [if_neg hsingular, if_neg heh, if_neg heh, htake, hdrop, List.tail_cons]
      exact hdropped.cut hhead' hnot

/-- **A call does what it means.** -/
theorem represents_step (h : Represents m lists σ) (call : Call α) (hallowed : call.Allowed lists) :
    ∃ after σ', call.run m = some after ∧ Represents after (call.apply lists) σ' := by
  cases call with
  | init list =>
      obtain ⟨hdropped, hnot⟩ := h.forget hallowed
      exact ⟨_, _, rfl, hdropped.fresh hnot⟩
  | add new head =>
      obtain ⟨hfree, hne, hhead⟩ := hallowed
      obtain ⟨hdropped, hnot⟩ := h.forget hfree
      obtain ⟨xs, hxs⟩ := Lists.drop_head hne hhead
      exact hdropped.add hnot hxs
  | addTail new head =>
      obtain ⟨hfree, hne, hhead⟩ := hallowed
      obtain ⟨hdropped, hnot⟩ := h.forget hfree
      obtain ⟨xs, hxs⟩ := Lists.drop_head hne hhead
      exact hdropped.addTail hnot hxs
  | del entry =>
      obtain ⟨after, σ', hafter, hdropped, hnot⟩ := h.delete hallowed
      refine ⟨_, σ', ?_, hdropped.clear hnot⟩
      exact congrArg (Option.map _) hafter
  | delInit entry =>
      obtain ⟨after, σ', hafter, hdropped, hnot⟩ := h.delete hallowed
      refine ⟨_, σ', ?_, hdropped.fresh hnot⟩
      exact congrArg (Option.map _) hafter
  | move list head =>
      obtain ⟨hentry, hne, hhead⟩ := hallowed
      obtain ⟨after, σ', hafter, hdropped, hnot⟩ := h.delete hentry
      obtain ⟨xs, hxs⟩ := Lists.drop_head hne hhead
      obtain ⟨last, σ', hlast, hadded⟩ := hdropped.add hnot hxs
      refine ⟨last, σ', ?_, hadded⟩
      show (m.listDelEntry list).bind (fun m => m.listAdd list head) = some last
      rw [hafter]
      exact hlast
  | moveTail list head =>
      obtain ⟨hentry, hne, hhead⟩ := hallowed
      obtain ⟨after, σ', hafter, hdropped, hnot⟩ := h.delete hentry
      obtain ⟨xs, hxs⟩ := Lists.drop_head hne hhead
      obtain ⟨last, σ', hlast, hadded⟩ := hdropped.addTail hnot hxs
      refine ⟨last, σ', ?_, hadded⟩
      show (m.listDelEntry list).bind (fun m => m.listAddTail list head) = some last
      rw [hafter]
      exact hlast
  | splice list head =>
      obtain ⟨hne, hlist, hhead⟩ := hallowed
      obtain ⟨zs, hzs⟩ := Option.isSome_iff_exists.mp hlist
      obtain ⟨xs, hxs⟩ := Option.isSome_iff_exists.mp hhead
      unfold Call.apply
      dsimp only
      rw [hzs]
      exact (h.unlessEmpty hzs (fun hempty => hempty ▸ List.nil_append)
        fun hnonempty => h.spliceFront hzs hnonempty hxs hne).1
  | spliceTail list head =>
      obtain ⟨hne, hlist, hhead⟩ := hallowed
      obtain ⟨zs, hzs⟩ := Option.isSome_iff_exists.mp hlist
      obtain ⟨xs, hxs⟩ := Option.isSome_iff_exists.mp hhead
      unfold Call.apply
      dsimp only
      rw [hzs]
      exact (h.unlessEmpty hzs (fun hempty => hempty ▸ List.append_nil)
        fun hnonempty => h.spliceBack hzs hnonempty hxs hne).1
  | spliceInit list head =>
      obtain ⟨hne, hlist, hhead⟩ := hallowed
      obtain ⟨zs, hzs⟩ := Option.isSome_iff_exists.mp hlist
      obtain ⟨xs, hxs⟩ := Option.isSome_iff_exists.mp hhead
      unfold Call.apply
      dsimp only
      rw [hzs]
      exact (h.unlessEmpty hzs (fun hempty => hempty ▸ List.nil_append)
        fun hnonempty => h.spliceFront hzs hnonempty hxs hne).2
  | spliceTailInit list head =>
      obtain ⟨hne, hlist, hhead⟩ := hallowed
      obtain ⟨zs, hzs⟩ := Option.isSome_iff_exists.mp hlist
      obtain ⟨xs, hxs⟩ := Option.isSome_iff_exists.mp hhead
      unfold Call.apply
      dsimp only
      rw [hzs]
      exact (h.unlessEmpty hzs (fun hempty => hempty ▸ List.append_nil)
        fun hnonempty => h.spliceBack hzs hnonempty hxs hne).2
  | replace old new =>
      obtain ⟨hfree, hne, hold⟩ := hallowed
      obtain ⟨hdropped, hnot⟩ := h.forget hfree
      obtain ⟨after, σ', hafter, hreplaced, -⟩ :=
        hdropped.replace ((Lists.linked_drop hfree.2).mpr ⟨hold, hne.symm⟩) hnot
      exact ⟨after, σ', hafter, hreplaced⟩
  | replaceInit old new =>
      obtain ⟨hfree, hne, hold⟩ := hallowed
      obtain ⟨hdropped, hnot⟩ := h.forget hfree
      obtain ⟨after, σ', hafter, hreplaced, hnot'⟩ :=
        hdropped.replace ((Lists.linked_drop hfree.2).mpr ⟨hold, hne.symm⟩) hnot
      refine ⟨_, σ', ?_, hreplaced.fresh hnot'⟩
      exact congrArg (Option.map _) hafter
  | cut list head entry =>
      obtain ⟨hfree, hne, xs, hxs, hentry⟩ := hallowed
      exact h.listCutPosition hxs hfree hne hentry

/-- Through what a loop goes. -/
theorem walkLoop_eq {link : α → Option α} {fuel : ℕ} (h : Way σ a xs head)
    (hlink : ∀ x ∈ xs, link x = some (σ x)) (hhead : head ∉ xs) (hfuel : xs.length < fuel) :
    Memory.walkLoop link head fuel (σ a) = some xs := by
  induction xs generalizing a fuel with
  | nil =>
      obtain ⟨fuel, rfl⟩ := Nat.exists_eq_add_one.mpr hfuel
      rw [Memory.walkLoop, if_pos (show σ a = head from h)]
  | cons x xs ih =>
      obtain ⟨fuel, rfl⟩ := Nat.exists_eq_add_one.mpr (Nat.zero_lt_of_lt hfuel)
      have hne : x ≠ head := fun hxh => hhead (hxh ▸ List.mem_cons_self)
      rw [Memory.walkLoop, h.1, if_neg hne, hlink x List.mem_cons_self, Option.bind_some,
        ih h.2 (fun y hy => hlink y (List.mem_cons_of_mem x hy))
          (fun hin => hhead (List.mem_cons_of_mem x hin)) (Nat.lt_of_succ_lt_succ hfuel)]
      rfl

theorem Represents.forEach (h : Represents m lists σ) (hhead : lists head = some xs) {fuel : ℕ}
    (hfuel : xs.length < fuel) :
    m.listForEach head fuel = some xs ∧ m.listForEachPrev head fuel = some xs.reverse := by
  have hnot := (List.nodup_cons.mp (h.wf.nodup_cons hhead)).1
  have hlinked : ∀ x ∈ xs, lists.Linked x := fun x hx => .inr ⟨head, xs, hhead, hx⟩
  have hway := h.way head xs hhead
  unfold Memory.listForEach Memory.listForEachPrev
  rw [h.stores.next head (.inl ⟨xs, hhead⟩), h.stores.prev_eq (.inl ⟨xs, hhead⟩), Option.bind_some,
    Option.bind_some]
  constructor
  · exact walkLoop_eq hway (fun x hx => h.stores.next x (hlinked x hx)) hnot hfuel
  · refine walkLoop_eq hway.reverse (fun x hx => ?_) (fun hin => hnot (List.mem_reverse.mp hin))
      (List.length_reverse.trans_lt hfuel)
    exact h.stores.prev_eq (hlinked x (List.mem_reverse.mp hx))

/-- The loop is at the first entry of the rest, and knows the one behind it. -/
theorem Represents.safeLoop_eq (h : Represents m lists σ) {kept rest : List α}
    (hhead : lists head = some (kept ++ rest)) (remove : α → Bool) {fuel : ℕ}
    (hfuel : rest.length < fuel) :
    ∃ after lists' σ', Memory.safeLoop remove head fuel (rest.headD head) (σ (rest.headD head)) m =
        some (after, rest) ∧ Represents after lists' σ' ∧
      lists' head = some (kept ++ rest.filter fun x => !remove x) := by
  induction rest generalizing m lists σ kept fuel with
  | nil =>
      obtain ⟨fuel, rfl⟩ := Nat.exists_eq_add_one.mpr hfuel
      exact ⟨m, lists, σ, by rw [Memory.safeLoop, List.headD_nil, if_pos rfl], h, hhead⟩
  | cons x rest ih =>
      obtain ⟨fuel, rfl⟩ := Nat.exists_eq_add_one.mpr (Nat.zero_lt_of_lt hfuel)
      have hnodup := h.wf.nodup_cons hhead
      have hxh : x ≠ head := fun hxh => (List.nodup_cons.mp hnodup).1 (by simp [hxh])
      -- The loop has read the next entry before its body, which may delete this one.
      have hnext := (Way.append.mp (h.way head _ hhead)).2.apply_start
      rw [List.headD_cons, Memory.safeLoop, if_neg hxh, hnext]
      by_cases hremove : remove x = true
      · have hentry : lists.Entry x := ⟨head, _, hhead, by simp⟩
        obtain ⟨between, τ, hbetween, hdropped, hnot⟩ := h.delete (.inl hentry)
        have hhead' : lists.drop x head = some (kept ++ rest) :=
          Lists.drop_eq_some.mpr ⟨hxh.symm, _, hhead,
            (filter_append (List.nodup_cons.mp hnodup).2).symm⟩
        have hcleared := hdropped.clear hnot
        have hn := Lists.linked_headD hhead'
        obtain ⟨after, lists', σ', hafter, hrepresents, hkept⟩ :=
          ih hcleared hhead' (Nat.lt_of_succ_lt_succ hfuel)
        refine ⟨after, lists', σ', ?_, hrepresents, ?_⟩
        · rw [if_pos hremove, Memory.listDel, hbetween, Option.map_some, Option.bind_some,
            hcleared.stores.next _ hn, Option.bind_some, hafter]
          rfl
        · rw [hkept, List.filter_cons_of_neg (by simp [hremove])]
      · have hhead' : lists head = some (kept ++ [x] ++ rest) := by
          rw [hhead, List.append_assoc, List.singleton_append]
        have hn := Lists.linked_headD hhead'
        obtain ⟨after, lists', σ', hafter, hrepresents, hkept⟩ :=
          ih h hhead' (Nat.lt_of_succ_lt_succ hfuel)
        refine ⟨after, lists', σ', ?_, hrepresents, ?_⟩
        · rw [if_neg hremove, Option.bind_some, h.stores.next _ hn, Option.bind_some, hafter]
          rfl
        · rw [hkept, List.filter_cons_of_pos (by simp [hremove]), List.append_assoc,
            List.singleton_append]

/-- **Entries may be deleted on the way.** -/
theorem Represents.forEachSafe (h : Represents m lists σ) (hhead : lists head = some xs)
    (remove : α → Bool) {fuel : ℕ} (hfuel : xs.length < fuel) :
    ∃ after lists' σ', m.listForEachSafe remove head fuel = some (after, xs) ∧
      Represents after lists' σ' ∧ lists' head = some (xs.filter fun x => !remove x) := by
  have hfirst := (h.way head xs hhead).apply_start
  have hhead' : lists head = some ([] ++ xs) := hhead
  have hlinked := Lists.linked_headD hhead'
  obtain ⟨after, lists', σ', hafter, hrepresents, hkept⟩ := h.safeLoop_eq hhead' remove hfuel
  refine ⟨after, lists', σ', ?_, hrepresents, hkept⟩
  unfold Memory.listForEachSafe
  rw [h.stores.next head (.inl ⟨xs, hhead⟩), Option.bind_some, hfirst, h.stores.next _ hlinked,
    Option.bind_some, hafter]

end Meaning

/-! ### Runs -/

/-- One call after the other. -/
def runAll (m : Memory α) : List (Call α) → Option (Memory α)
  | [] => some m
  | call :: calls => (call.run m).bind fun m => runAll m calls

/-- What they mean. -/
def applyAll (lists : Lists α) : List (Call α) → Lists α
  | [] => lists
  | call :: calls => applyAll (call.apply lists) calls

/-- Every one of them is allowed when it is made. -/
def AllowedAll (lists : Lists α) : List (Call α) → Prop
  | [] => True
  | call :: calls => call.Allowed lists ∧ AllowedAll (call.apply lists) calls

/-- There is no list. -/
def Lists.empty : Lists α := fun _ => none

omit [DecidableEq α] in
theorem represents_empty (m : Memory α) : Represents m Lists.empty 1 where
  wf := ⟨fun _ _ _ h => (by cases h), fun _ _ h => (by cases h), fun _ _ _ _ _ h => (by cases h)⟩
  stores := by
    have hnot : ∀ a : α, ¬ Lists.empty.Linked a := by
      rintro a (⟨xs, hxs⟩ | ⟨h, xs, hxs, hmem⟩)
      · cases hxs
      · cases hxs
    exact ⟨fun a ha => absurd ha (hnot a), fun a ha => absurd ha (hnot a), fun a _ => rfl⟩
  way _ _ h := by cases h

theorem represents_run {m : Memory α} {lists : Lists α} {σ : Equiv.Perm α}
    (h : Represents m lists σ) (calls : List (Call α)) (hallowed : AllowedAll lists calls) :
    ∃ after σ', runAll m calls = some after ∧ Represents after (applyAll lists calls) σ' := by
  induction calls generalizing m lists σ with
  | nil => exact ⟨m, σ, rfl, h⟩
  | cons call calls ih =>
      obtain ⟨next, τ, hnext, hrepresents⟩ := represents_step h call hallowed.1
      obtain ⟨after, σ', hafter, hall⟩ := ih hrepresents hallowed.2
      refine ⟨after, σ', ?_, hall⟩
      rw [runAll, hnext, Option.bind_some, hafter]

/-- **The lists are kept**, whatever was in the memory before: after every run of calls that are
allowed, none of which fails, each list is found to be empty if it is, and the loops go through its
entries, forwards and backwards, also if some of them are deleted on the way. -/
theorem lists_kept (m : Memory α) (calls : List (Call α)) (h : AllowedAll Lists.empty calls) :
    ∃ after, runAll m calls = some after ∧
      ∀ head xs, applyAll Lists.empty calls head = some xs →
        (after.listEmpty head = true ↔ xs = []) ∧
        ∀ fuel, xs.length < fuel →
          after.listForEach head fuel = some xs ∧
          after.listForEachPrev head fuel = some xs.reverse ∧
          ∀ remove, ∃ last, after.listForEachSafe remove head fuel = some (last, xs) ∧
            last.listForEach head fuel = some (xs.filter fun x => !remove x) := by
  obtain ⟨after, σ, hafter, hrepresents⟩ := represents_run (represents_empty m) calls h
  refine ⟨after, hafter, fun head xs hxs => ⟨hrepresents.listEmpty_iff hxs, fun fuel hfuel => ?_⟩⟩
  obtain ⟨hnext, hprev⟩ := hrepresents.forEach hxs hfuel
  refine ⟨hnext, hprev, fun remove => ?_⟩
  obtain ⟨last, lists, σ', hlast, hkept, hhead⟩ := hrepresents.forEachSafe hxs remove hfuel
  exact ⟨last, hlast, (hkept.forEach hhead ((List.length_filter_le _ xs).trans_lt hfuel)).1⟩

/-- Two entries come into a list, and the first one goes to its end. -/
theorem lists_kept_move : ∃ after,
    runAll (⟨fun _ => none, fun _ => none⟩ : Memory ℕ)
        [.init 0, .add 1 0, .addTail 2 0, .moveTail 1 0] = some after ∧
      ∀ head xs, applyAll Lists.empty [.init 0, .add 1 0, .addTail 2 0, .moveTail 1 0] head =
          some xs →
        (after.listEmpty head = true ↔ xs = []) ∧
        ∀ fuel, xs.length < fuel →
          after.listForEach head fuel = some xs ∧
          after.listForEachPrev head fuel = some xs.reverse ∧
          ∀ remove, ∃ last, after.listForEachSafe remove head fuel = some (last, xs) ∧
            last.listForEach head fuel = some (xs.filter fun x => !remove x) := by
  refine lists_kept _ _ ⟨?_, ?_, ?_, ⟨.inl ⟨0, [1, 2], rfl, by simp⟩, by decide, rfl⟩, trivial⟩
  · simp [Call.Allowed, Lists.Free, Lists.Entry, Lists.empty]
  · simp [Call.Allowed, Call.apply, Lists.Free, Lists.Entry, Lists.empty, Lists.drop, Lists.fresh]
  · refine ⟨⟨?_, fun xs hxs => (by cases hxs)⟩, by decide, rfl⟩
    rintro ⟨head, xs, hxs, hmem⟩
    by_cases hhead : head = 0
    · subst hhead
      obtain rfl : xs = [1] := (Option.some.inj hxs).symm
      simp at hmem
    · simp [Call.apply, Lists.empty, Lists.drop, Lists.fresh, Lists.modify, hhead] at hxs

end Webcamd.Kernel.ListHead
