import CrossLookup.Circuit.Gate
import CrossLookup.Proofs.Traversal

/-!
# Witnesses that agree with an assignment

A witness whose values are those of a total assignment can be extended by more
of its values without conflict. A gate whose inputs hold their values assigns
to its outputs what it computes from them.
-/

namespace CrossLookup

/-- The value of an extension element under an assignment of the wires. -/
def CubicWire.valueIn (σ : Wire → Goldilocks) (wires : CubicWire) : Cubic :=
  ⟨σ wires.c0, σ wires.c1, σ wires.c2⟩

namespace Witness

variable {w w' : Witness} {wire : Wire} {a : Goldilocks}

theorem get_eq_ok_iff : w.get wire = .ok a ↔ w.get? wire = some a := by
  unfold get
  cases w.get? wire with
  | none =>
      constructor
      · intro h
        cases h
      · intro h
        cases h
  | some b => exact ⟨fun h => congrArg some (Except.ok.inj h), fun h =>
      congrArg Except.ok (Option.some.inj h)⟩

theorem getElem?_grow (cells : Array (Option Goldilocks)) (wire other : Wire) :
    ((grow cells wire)[other.index]?).getD none = (cells[other.index]?).getD none := by
  rw [grow, Array.getElem?_append]
  split
  · rfl
  · next h =>
    rw [Array.getElem?_eq_none (Nat.le_of_not_lt h), Array.getElem?_replicate]
    split <;> rfl

theorem size_grow_gt (cells : Array (Option Goldilocks)) (wire : Wire) :
    wire.index < (grow cells wire).size := by
  rw [grow, Array.size_append, Array.size_replicate]
  omega

/-- An assignment succeeds unless the wire already holds another value. -/
theorem exists_set (h : ∀ held, w.get? wire = some held → held = a) :
    ∃ w', w.set wire a = .ok w' := by
  unfold set
  cases hget : w.get? wire with
  | none => exact ⟨_, rfl⟩
  | some held => exact ⟨w, if_pos (h held hget)⟩

/-- After an assignment its wire holds the value and the others are unchanged. -/
theorem get?_set (h : w.set wire a = .ok w') (other : Wire) :
    w'.get? other = if other = wire then some a else w.get? other := by
  unfold set at h
  cases hget : w.get? wire with
  | some held =>
      simp only [hget] at h
      by_cases heq : held = a
      · rw [if_pos heq] at h
        cases h
        split
        · next hother => rw [hother, hget, heq]
        · rfl
      · rw [if_neg heq] at h
        cases h
  | none =>
      simp only [hget] at h
      cases h
      unfold get?
      simp only [Array.getElem?_setIfInBounds]
      by_cases hother : other = wire
      · rw [if_pos hother, if_pos (congrArg Wire.index hother.symm),
          if_pos (size_grow_gt w.cells wire)]
        rfl
      · have hindex : wire.index ≠ other.index := by
          intro h
          apply hother
          cases wire
          cases other
          exact congrArg Wire.mk h.symm
        rw [if_neg hother, if_neg hindex]
        exact getElem?_grow w.cells wire other

/-- Every value of a witness is the one that a total assignment gives. -/
def AgreesWith (w : Witness) (σ : Wire → Goldilocks) : Prop :=
  ∀ wire a, w.get? wire = some a → σ wire = a

variable {σ : Wire → Goldilocks}

theorem agreesWith_empty (σ : Wire → Goldilocks) : empty.AgreesWith σ := by
  intro wire a h
  cases h

/-- Values of one assignment are added to a witness that agrees with it. -/
theorem exists_setAll {values : List (Wire × Goldilocks)} (hw : w.AgreesWith σ)
    (hvalues : ∀ value ∈ values, σ value.1 = value.2) :
    ∃ w', w.setAll values = .ok w' ∧ ∀ wire,
      w'.get? wire = if wire ∈ values.map Prod.fst then some (σ wire) else w.get? wire := by
  induction values generalizing w with
  | nil =>
      refine ⟨w, rfl, fun wire => ?_⟩
      rw [List.map_nil, if_neg List.not_mem_nil]
  | cons value rest ih =>
      obtain ⟨hvalue, hrest⟩ := List.forall_mem_cons.mp hvalues
      obtain ⟨w₁, hset⟩ : ∃ w₁, w.set value.1 value.2 = .ok w₁ :=
        exists_set fun held hheld => (hw value.1 held hheld).symm.trans hvalue
      have hget := get?_set hset
      have hagrees : w₁.AgreesWith σ := by
        intro wire a h
        rw [hget] at h
        split at h
        · next heq =>
          rw [heq, hvalue]
          exact Option.some.inj h
        · exact hw wire a h
      obtain ⟨w', hall, hw'⟩ := ih hagrees hrest
      refine ⟨w', ?_, fun wire => ?_⟩
      · rw [setAll, List.foldlM_cons, hset]
        exact hall
      · rw [hw', hget, List.map_cons]
        by_cases hmem : wire ∈ rest.map Prod.fst
        · rw [if_pos hmem, if_pos (List.mem_cons_of_mem _ hmem)]
        · rw [if_neg hmem]
          by_cases heq : wire = value.1
          · rw [if_pos heq, if_pos (List.mem_cons.mpr (Or.inl heq)), heq, hvalue]
          · rw [if_neg heq, if_neg]
            intro h
            rcases List.mem_cons.mp h with h | h
            · exact heq h
            · exact hmem h

theorem agreesWith_of_get? {p : Wire → Prop} [DecidablePred p] (hw : w.AgreesWith σ)
    (h : ∀ wire, w'.get? wire = if p wire then some (σ wire) else w.get? wire) :
    w'.AgreesWith σ := by
  intro wire a ha
  rw [h] at ha
  split at ha
  · exact Option.some.inj ha
  · exact hw wire a ha

theorem getCubic_eq (wires : CubicWire) (h : ∀ wire ∈ wires.parts, w.get? wire = some (σ wire)) :
    w.getCubic wires = .ok (wires.valueIn σ) := by
  have hc0 := get_eq_ok_iff.mpr (h wires.c0 (by simp [CubicWire.parts]))
  have hc1 := get_eq_ok_iff.mpr (h wires.c1 (by simp [CubicWire.parts]))
  have hc2 := get_eq_ok_iff.mpr (h wires.c2 (by simp [CubicWire.parts]))
  rw [getCubic, hc0, hc1, hc2]
  rfl

theorem mapM_get_eq {n : Nat} {wires : Vector Wire n}
    (h : ∀ wire ∈ wires.toList, w.get? wire = some (σ wire)) :
    wires.mapM w.get = .ok (wires.map σ) := by
  have hlist : Vector.toList <$> wires.mapM w.get = .ok (wires.map σ).toList := by
    rw [Vector.toList_mapM, Vector.toList_map]
    exact Except.mapM_eq_ok_map fun wire hwire => get_eq_ok_iff.mpr (h wire hwire)
  cases hresult : wires.mapM w.get with
  | error e =>
      rw [hresult] at hlist
      cases hlist
  | ok values =>
      rw [hresult] at hlist
      exact congrArg Except.ok (Vector.toList_inj.mp (Except.ok.inj hlist))

end Witness

namespace Gate

/-- The wires that a gate reads. -/
def reads : Gate → List Wire
  | constant .. => []
  | arithmetic _ _ left right addend _ => [left, right, addend]
  | extension _ _ left right addend _ => left.parts ++ right.parts ++ addend.parts
  | permutation inputs _ => inputs.toList

/-- The wires that a gate assigns, in order. -/
def writes : Gate → List Wire
  | constant _ out => [out]
  | arithmetic _ _ _ _ _ out => [out]
  | extension _ _ _ _ _ out => out.parts
  | permutation _ outputs => outputs.toList

/-- The values that a gate computes under an assignment, in the order of its outputs. -/
def computed (σ : Wire → Goldilocks) : Gate → List Goldilocks
  | constant value _ => [value]
  | arithmetic c0 c1 left right addend _ =>
      [arithmeticValue c0 c1 (σ left) (σ right) (σ addend)]
  | extension c0 c1 left right addend _ =>
      (extensionValue c0 c1 (left.valueIn σ) (right.valueIn σ) (addend.valueIn σ)).coefficients
  | permutation inputs _ => (SpongeState.permute (inputs.map σ)).toList

/-- A gate whose inputs are assigned assigns to its outputs what it computes. -/
theorem run_eq {gate : Gate} {w : Witness} {σ : Wire → Goldilocks}
    (h : ∀ wire ∈ gate.reads, w.get? wire = some (σ wire)) :
    gate.run w = w.setAll (gate.writes.zip (gate.computed σ)) := by
  cases gate with
  | constant value out => exact (bind_pure (w.set out value)).symm
  | arithmetic c0 c1 left right addend out =>
      have hleft := Witness.get_eq_ok_iff.mpr (h left (by simp [reads]))
      have hright := Witness.get_eq_ok_iff.mpr (h right (by simp [reads]))
      have haddend := Witness.get_eq_ok_iff.mpr (h addend (by simp [reads]))
      rw [run, hleft, hright, haddend]
      exact (bind_pure (w.set out _)).symm
  | extension c0 c1 left right addend out =>
      have hleft := Witness.getCubic_eq left fun wire hwire => h wire (by
        simp [reads, hwire])
      have hright := Witness.getCubic_eq right fun wire hwire => h wire (by
        simp [reads, hwire])
      have haddend := Witness.getCubic_eq addend fun wire hwire => h wire (by
        simp [reads, hwire])
      rw [run, hleft, hright, haddend]
      rfl
  | permutation inputs outputs =>
      rw [run, Witness.mapM_get_eq h]
      rfl

/-- A gate that computes what an assignment gives its outputs runs on a witness that agrees. -/
theorem exists_run {gate : Gate} {w : Witness} {σ : Wire → Goldilocks} (hw : w.AgreesWith σ)
    (hreads : ∀ wire ∈ gate.reads, w.get? wire = some (σ wire))
    (hwrites : List.Forall₂ (fun wire a => σ wire = a) gate.writes (gate.computed σ)) :
    ∃ w', gate.run w = .ok w' ∧ ∀ wire,
      w'.get? wire = if wire ∈ gate.writes then some (σ wire) else w.get? wire := by
  have hvalues : ∀ value ∈ gate.writes.zip (gate.computed σ), σ value.1 = value.2 :=
    fun _ hvalue => (List.forall₂_iff_zip.mp hwrites).2 hvalue
  obtain ⟨w', hset, hget⟩ := Witness.exists_setAll hw hvalues
  rw [List.map_fst_zip (Nat.le_of_eq hwrites.length_eq)] at hget
  exact ⟨w', (run_eq hreads).trans hset, hget⟩

end Gate

end CrossLookup
