import Webcamd.Vtuner.Client

/-!
# Property lists in a message

Both sides copy a property list into the body of a message and out of it again, one
property after the other.

* `Bytes.prop_setProp`, `Bytes.prop_setProp_of_ne` — a property is found where it was put,
  and the other properties stay.
* `copyProperty_copyProperty` — of a property that was copied, the next copy loses nothing
  more.
* `propLoop_induct` — the rule for the server's loops: what holds before the loop and is
  kept by an iteration holds after it.
-/

namespace Webcamd.Vtuner

/-! ### Writing a property -/

section

variable {body another : Bytes} {order : ByteOrder} {prop : DtvProperty} {i j k : ℕ}

/-- A property has fifty-six bytes. -/
theorem Bytes.setProp_of_disjoint (h : k < propOffset i ∨ propOffset i + 56 ≤ k) :
    body.setProp order i prop k = body k := by
  simp only [Bytes.setProp]
  rw [Bytes.store32_of_disjoint _ _ _ (by omega), Bytes.store32_of_disjoint _ _ _ (by omega),
    Bytes.overlay_of_disjoint _ _ (by omega), Bytes.store32_of_disjoint _ _ _ (by omega),
    Bytes.store32_of_disjoint _ _ _ (by omega), Bytes.store32_of_disjoint _ _ _ (by omega),
    Bytes.store32_of_disjoint _ _ _ (by omega)]

/-- A property is its fifty-six bytes. -/
theorem Bytes.prop_congr
    (h : ∀ k < 56, body (propOffset i + k) = another (propOffset i + k)) :
    body.prop order i = another.prop order i := by
  have hload : ∀ start, propOffset i ≤ start → start + 4 ≤ propOffset i + 56 →
      body.load32 order start = another.load32 order start := by
    intro start hlow hhigh
    refine Bytes.load32_congr fun k hk => ?_
    have hshift : start + k = propOffset i + (start - propOffset i + k) := by omega
    rw [hshift]
    exact h _ (by omega)
  have hdata : ∀ k : Fin 32, body (propOffset i + 16 + k) = another (propOffset i + 16 + k) := by
    intro k
    rw [Nat.add_assoc]
    exact h _ (by omega)
  have hreserved : ∀ j : Fin 3, body.load32 order (propOffset i + 4 + 4 * j) =
      another.load32 order (propOffset i + 4 + 4 * j) :=
    fun j => hload _ (by omega) (by omega)
  simp only [Bytes.prop, hload _ le_rfl (by omega), hload (propOffset i + 48) (by omega) (by omega),
    hload (propOffset i + 52) (by omega) (by omega), hreserved, hdata]

/-- A property is found where it was put. -/
theorem Bytes.prop_setProp (body : Bytes) (order : ByteOrder) (i : ℕ) (prop : DtvProperty) :
    (body.setProp order i prop).prop order i = prop := by
  obtain ⟨cmd, reserved, bufferData, bufferLen, result⟩ := prop
  have hoverlay : ∀ (bytes source : Bytes) (start : ℕ),
      start + 4 ≤ propOffset i + 16 ∨ propOffset i + 48 ≤ start →
      (bytes.overlay (propOffset i + 16) 32 source).load32 order start =
        bytes.load32 order start := by
    intro bytes source start hdisjoint
    exact Bytes.load32_congr fun k hk => Bytes.overlay_of_disjoint _ _ (by omega)
  simp only [Bytes.prop, Bytes.setProp, DtvProperty.mk.injEq]
  refine ⟨?_, ?_, ?_, ?_, ?_⟩
  · simp (disch := omega) only [Bytes.load32_store32_of_disjoint, hoverlay,
      Bytes.load32_store32]
  · funext j
    fin_cases j <;>
      simp (disch := omega) [Bytes.load32_store32_of_disjoint, hoverlay, Bytes.load32_store32]
  · funext k
    rw [Bytes.store32_of_disjoint _ _ _ (by omega), Bytes.store32_of_disjoint _ _ _ (by omega)]
    simp [Bytes.overlay]
  · simp (disch := omega) only [Bytes.load32_store32_of_disjoint, Bytes.load32_store32]
  · simp only [Bytes.load32_store32]

/-- The other properties stay. -/
theorem Bytes.prop_setProp_of_ne (h : j ≠ i) :
    (body.setProp order i prop).prop order j = body.prop order j := by
  refine Bytes.prop_congr fun k hk => Bytes.setProp_of_disjoint ?_
  simp only [propOffset]
  omega

/-- The number of properties is in front of them. -/
theorem Bytes.num_setProp : (body.setProp order i prop).num order = body.num order := by
  refine Bytes.load32_congr fun k hk => Bytes.setProp_of_disjoint ?_
  simp only [propOffset]
  omega

end

/-! ### Copying properties -/

/-- Of a property that was copied, the next copy loses nothing more. -/
@[simp] theorem copyProperty_copyProperty (uapi : Uapi) (prop : DtvProperty) :
    copyProperty uapi (copyProperty uapi prop) = copyProperty uapi prop := by
  simp only [copyProperty, DtvProperty.mk.injEq, true_and, and_true]
  refine ⟨?_, ?_⟩
  · funext k
    split <;> rfl
  · split <;> rfl

section

variable (uapi : Uapi) (order : ByteOrder) (props : ℕ → LinuxProperty)

theorem putProps_succ (max : ℕ) (body : Bytes) :
    putProps uapi order props (max + 1) body =
      (putProps uapi order props max body).setProp order max
        (copyProperty uapi (props max).toDtvProperty) := by
  simp only [putProps, List.range_succ, List.foldl_append, List.foldl_cons, List.foldl_nil]

theorem num_putProps (max : ℕ) (body : Bytes) :
    (putProps uapi order props max body).num order = body.num order := by
  induction max with
  | zero => rfl
  | succ max ih => rw [putProps_succ, Bytes.num_setProp, ih]

/-- The message has the copies of the properties. -/
theorem prop_putProps {max i : ℕ} (hi : i < max) (body : Bytes) :
    (putProps uapi order props max body).prop order i =
      copyProperty uapi (props i).toDtvProperty := by
  induction max with
  | zero => exact absurd hi (Nat.not_lt_zero i)
  | succ max ih =>
      rw [putProps_succ]
      by_cases hlast : i = max
      · subst hlast
        exact Bytes.prop_setProp _ _ _ _
      · rw [Bytes.prop_setProp_of_ne hlast]
        exact ih (by omega)

end

/-! ### The loops of the server -/

/-- The rule for a loop that has come to the index `propMax - remaining`. -/
theorem propLoop_induct_from {S : Type} {max : ℕ} {iterate : Fin propMax → S → S}
    (hmax : max ≤ propMax) (P : ℕ → S → Prop)
    (hstep : ∀ (i : Fin propMax) (state : S), i.val < max → P i state →
      P (i + 1) (iterate i state))
    {remaining : ℕ} {state : S} (hremaining : remaining ≤ propMax)
    (hlow : propMax - remaining ≤ max) (hstart : P (propMax - remaining) state) :
    ∃ final, (propLoop (max : ℤ) iterate remaining state).2 = some final ∧ P max final := by
  induction remaining generalizing state with
  | zero =>
      have hend : max = propMax := by omega
      subst hend
      exact ⟨state, by simp [propLoop], hstart⟩
  | succ remaining ih =>
      by_cases hend : propMax - (remaining + 1) = max
      · refine ⟨state, ?_, hend ▸ hstart⟩
        have hint : ((propMax - (remaining + 1) : ℕ) : ℤ) = max := by exact_mod_cast hend
        simp only [propLoop, hint, if_true]
      · have hint : ¬ ((propMax - (remaining + 1) : ℕ) : ℤ) = max := by exact_mod_cast hend
        have hindex : propMax - (remaining + 1) + 1 = propMax - remaining := by omega
        simp only [propLoop, hint, if_false]
        refine ih (by omega) (by omega) ?_
        have hnext := hstep ⟨propMax - (remaining + 1), by omega⟩ state
          (show propMax - (remaining + 1) < max by omega) hstart
        exact hindex ▸ hnext

/-- **The rule for the loops over the properties**: what holds before the loop and is kept by
an iteration holds after it. -/
theorem propLoop_induct {S : Type} {max : ℕ} {iterate : Fin propMax → S → S} {state : S}
    (hmax : max ≤ propMax) (P : ℕ → S → Prop) (hstart : P 0 state)
    (hstep : ∀ (i : Fin propMax) (state : S), i.val < max → P i state →
      P (i + 1) (iterate i state)) :
    ∃ final, (propLoop (max : ℤ) iterate propMax state).2 = some final ∧ P max final :=
  propLoop_induct_from hmax P hstep le_rfl (by omega) (by rwa [Nat.sub_self])

/-- The loop that copies the properties out of the message. -/
theorem propLoop_copy (uapi : Uapi) {max : ℕ} (hmax : max ≤ propMax)
    (source : ℕ → DtvProperty) (state : Fin propMax → DtvProperty) :
    ∃ final, (propLoop (max : ℤ)
        (fun i props => Function.update props i (copyProperty uapi (source i))) propMax
        state).2 = some final ∧
      ∀ i : Fin propMax, i.val < max → final i = copyProperty uapi (source i) := by
  refine propLoop_induct hmax
    (fun j (props : Fin propMax → DtvProperty) => ∀ i : Fin propMax, i.val < j →
      props i = copyProperty uapi (source i))
    (fun i hi => absurd hi (Nat.not_lt_zero _)) ?_
  intro i props _ hprops another hanother
  by_cases heq : another = i
  · subst heq
    rw [Function.update_self]
  · have hne : another.val ≠ i.val := fun hval => heq (Fin.ext hval)
    rw [Function.update_of_ne heq]
    exact hprops another (by omega)

/-- The loop that copies the properties into the message. -/
theorem propLoop_setProp (uapi : Uapi) (order : ByteOrder) {max : ℕ} (hmax : max ≤ propMax)
    (source : Fin propMax → DtvProperty) (body : Bytes) :
    ∃ final, (propLoop (max : ℤ)
        (fun i bytes => bytes.setProp order i (copyProperty uapi (source i))) propMax
        body).2 = some final ∧
      ∀ i : Fin propMax, i.val < max → final.prop order i = copyProperty uapi (source i) := by
  refine propLoop_induct hmax
    (fun j bytes => ∀ i : Fin propMax, i.val < j →
      Bytes.prop order bytes i = copyProperty uapi (source i))
    (fun i hi => absurd hi (Nat.not_lt_zero _)) ?_
  intro i bytes _ hbytes another hanother
  by_cases heq : another = i
  · subst heq
    exact Bytes.prop_setProp _ _ _ _
  · have hne : another.val ≠ i.val := fun hval => heq (Fin.ext hval)
    rw [Bytes.prop_setProp_of_ne hne]
    exact hbytes another (by omega)

/-- A number of properties that fits is taken as it is. -/
theorem toInt_of_le {num : BitVec 32} (h : num.toNat ≤ propMax) : num.toInt = num.toNat := by
  rw [propMax] at h
  rw [BitVec.toInt_eq_toNat_cond]
  split <;> omega

theorem clampNum_of_le {num : BitVec 32} (h : num.toNat ≤ propMax) : clampNum num = num := by
  have hsmall : ¬ (propMax : ℤ) < num.toInt := by
    rw [toInt_of_le h]
    omega
  rw [clampNum, if_neg hsmall]

end Webcamd.Vtuner
