import CrossLookup.Proofs.Circuit.Reading

/-!
# Emitted constraints inside a circuit

A circuit that emits constraints in any order and of any kind folds them as they
are folded over values, so each of its accumulators holds the weighted sum of
the residuals under its `alpha`.
-/

namespace CrossLookup

namespace CircuitAccumulator

/-- Fold in residuals on wires in order. -/
def emitAll (acc : CircuitAccumulator) (residuals : List (ConstraintRows × CubicWire)) :
    Build CircuitAccumulator :=
  residuals.foldlM (fun acc residual => acc.emit residual.1 residual.2) acc

/-- Start with factors and selectors on wires and fold in residuals on wires. -/
def emitFrom (alphas : List Wire) (selectors : Selectors CubicWire)
    (residuals : List (ConstraintRows × CubicWire)) : Build CircuitAccumulator := do
  let acc ← start alphas selectors
  acc.emitAll residuals

/-- Start with factors and selectors that are inputs of the circuit and fold in residuals, each
an input that is allocated when it is emitted. -/
def emitFromGiven (alphas : List Goldilocks) (selectors : Selectors Cubic)
    (residuals : List (ConstraintRows × Cubic)) : Given CircuitAccumulator := do
  let acc ← startGiven alphas selectors
  let (_, acc) ← acc.emitGiven residuals
  return acc

/-- The wires of a residual hold it, and it is of the same rows. -/
structure ResidualHolds (values : List Goldilocks) (wires : ConstraintRows × CubicWire)
    (residual : ConstraintRows × Cubic) : Prop where
  rows_eq : wires.1 = residual.1
  holds : wires.2.Holds values residual.2

variable {values : List Goldilocks}

theorem ResidualHolds.mono {wires : ConstraintRows × CubicWire}
    {residual : ConstraintRows × Cubic} {values' : List Goldilocks}
    (h : ResidualHolds values wires residual) (hle : values <+: values') :
    ResidualHolds values' wires residual :=
  ⟨h.rows_eq, h.holds.mono hle⟩

/-- Emitting constraints over wires one after the other emits their residuals over values. -/
theorem yields_emitAll {wires : CircuitAccumulator} {acc : Accumulator Cubic}
    {residualWires : List (ConstraintRows × CubicWire)} {residuals : List (ConstraintRows × Cubic)}
    (hacc : wires.Holds values acc)
    (hresiduals : List.Forall₂ (ResidualHolds values) residualWires residuals) :
    Build.Yields (wires.emitAll residualWires) values fun out values' =>
      out.Holds values' (acc.emitAll residuals) := by
  refine Build.yields_foldlM Holds ResidualHolds (fun h hle => h.mono hle)
    (fun _ hacc hresidual => ?_) hacc hresiduals
  rw [hresidual.rows_eq]
  exact Build.yields_emit _ hacc hresidual.holds

theorem yields_emitFrom {alphaWires : List Wire} {alphas : List Goldilocks}
    {selectorWires : Selectors CubicWire} {selectors : Selectors Cubic}
    {residualWires : List (ConstraintRows × CubicWire)} {residuals : List (ConstraintRows × Cubic)}
    (halphas : List.Forall₂ (Wire.Holds values) alphaWires alphas)
    (hselectors : selectorWires.Holds values selectors)
    (hresiduals : List.Forall₂ (ResidualHolds values) residualWires residuals) :
    Build.Yields (emitFrom alphaWires selectorWires residualWires) values fun out values' =>
      out.Holds values' ((Accumulator.start alphas selectors).emitAll residuals) :=
  (Build.yields_start halphas hselectors).bind fun _ _ hle hacc =>
    yields_emitAll hacc (hresiduals.imp fun _ _ hholds => hholds.mono hle)

theorem yields_emitFromGiven (alphas : List Goldilocks) (selectors : Selectors Cubic)
    (residuals : List (ConstraintRows × Cubic)) :
    Given.Yields (emitFromGiven alphas selectors residuals) values fun out values' =>
      out.Holds values' ((Accumulator.start alphas selectors).emitAll residuals) := by
  refine (Given.yields_startGiven alphas selectors).bind fun acc values₁ _ hacc => ?_
  exact (Given.yields_emitGiven hacc residuals).bind fun _ _ _ hout => Given.Connects.pure hout

section Reading

variable {v : Witness} (hv : ∀ wire, v.get? wire = values[wire.index]?)
include hv

theorem holds_selectors_of_map {selectorWires : Selectors CubicWire}
    {selectors : Selectors Cubic} (h : selectorWires.map v.getCubic = selectors.map .ok) :
    selectorWires.Holds values selectors := by
  obtain ⟨hzLast, hfirst, hlast⟩ := Selectors.mk.inj h
  exact ⟨CubicWire.holds_of_getCubic hv hzLast, CubicWire.holds_of_getCubic hv hfirst,
    CubicWire.holds_of_getCubic hv hlast⟩

theorem residualHolds_of_map {residualWires : List (ConstraintRows × CubicWire)}
    {residuals : List (ConstraintRows × Cubic)}
    (h : residualWires.map (Prod.map id v.getCubic) = residuals.map (Prod.map id .ok)) :
    List.Forall₂ (ResidualHolds values) residualWires residuals :=
  (forall₂_of_map_eq_map h).imp fun _ _ hread =>
    ⟨congrArg Prod.fst hread, CubicWire.holds_of_getCubic hv (congrArg Prod.snd hread)⟩

end Reading

/-- After constraints of any kinds in any order, each accumulator is the sum of the residuals, each
times the factor of its rows and times its power of `alpha`, over values and on the wires of a
circuit. The circuit may allocate inputs of its own as it emits, or come after any calls and
read any wires that the completed witness reads as the alphas, the selectors and the residuals. -/
theorem emitted_eq_weightedResiduals (alphas : List Goldilocks) (selectors : Selectors Cubic)
    (residuals : List (ConstraintRows × Cubic)) :
    ((Accumulator.start alphas selectors).emitAll residuals).values = alphas.map (fun alpha =>
      ∑ j : Fin residuals.length, selectors.factor residuals[j].1 * residuals[j].2 *
        Cubic.ofBase alpha ^ (residuals.length - 1 - j)) ∧
    (∃ solved, (emitFromGiven alphas selectors residuals).pose.solve = .ok solved ∧
      solved.result.values.map solved.witness.getCubic =
        ((Accumulator.start alphas selectors).emitAll residuals).values.map .ok) ∧
    ∀ (calls : List Call) (inputs v : Witness), Call.Completes calls inputs v →
      ∀ (alphaWires : List Wire) (selectorWires : Selectors CubicWire)
        (residualWires : List (ConstraintRows × CubicWire)),
        alphaWires.map v.get = alphas.map .ok →
        selectorWires.map v.getCubic = selectors.map .ok →
        residualWires.map (Prod.map id v.getCubic) = residuals.map (Prod.map id .ok) →
        Call.CompletesAfter calls inputs (emitFrom alphaWires selectorWires residualWires)
          fun out v' => out.values.map v'.getCubic =
            ((Accumulator.start alphas selectors).emitAll residuals).values.map .ok := by
  refine ⟨Accumulator.values_emitAll alphas selectors residuals,
    exists_solve_accumulator (yields_emitFromGiven alphas selectors residuals), ?_⟩
  intro calls inputs v hcompletes alphaWires selectorWires residualWires halphas hselectors
    hresiduals
  obtain ⟨values, hv, hstep⟩ := hcompletes.exists_step
  obtain ⟨v', values', hv', hget, hout⟩ :=
    hstep (yields_emitFrom (forall₂_holds_of_get hv halphas)
      (holds_selectors_of_map hv hselectors) (residualHolds_of_map hv hresiduals))
  exact ⟨v', hv', (hout.readsAs fun wire a hwire => (hget wire).trans hwire).values⟩

section Shared

/-- Selectors on the wires of two inputs, a constant and a product. -/
def mixedSelectors : Selectors CubicWire :=
  ⟨⟨⟨1⟩, ⟨3⟩, ⟨2⟩⟩, ⟨⟨0⟩, ⟨0⟩, ⟨0⟩⟩, ⟨⟨2⟩, ⟨1⟩, ⟨2⟩⟩⟩

/-- Constraints of every kind on the same wires. -/
def mixedResiduals : List (ConstraintRows × CubicWire) :=
  [(.first, ⟨⟨0⟩, ⟨1⟩, ⟨3⟩⟩), (.every, ⟨⟨3⟩, ⟨2⟩, ⟨0⟩⟩), (.transition, ⟨⟨1⟩, ⟨1⟩, ⟨1⟩⟩),
    (.last, ⟨⟨0⟩, ⟨2⟩, ⟨3⟩⟩)]

/-- Constraints of every kind are folded under two alphas, on wires that they share with the alphas
and the selectors. -/
theorem emitted_eq_weightedResiduals_mixed :
    Call.Completes Call.productCalls Call.productInputs Call.productValues ∧
    [⟨3⟩, ⟨0⟩].map Call.productValues.get = [-.ofWord 2, .ofWord 2].map .ok ∧
    mixedSelectors.map Call.productValues.getCubic =
      Selectors.map .ok ⟨⟨-1, -.ofWord 2, 0⟩, ⟨.ofWord 2, .ofWord 2, .ofWord 2⟩, ⟨0, -1, 0⟩⟩ ∧
    mixedResiduals.map (Prod.map id Call.productValues.getCubic) =
      [(.first, ⟨.ofWord 2, -1, -.ofWord 2⟩), (.every, ⟨-.ofWord 2, 0, .ofWord 2⟩),
        (.transition, ⟨-1, -1, -1⟩), (.last, ⟨.ofWord 2, 0, -.ofWord 2⟩)].map (Prod.map id .ok) ∧
    Call.CompletesAfter Call.productCalls Call.productInputs
      (emitFrom [⟨3⟩, ⟨0⟩] mixedSelectors mixedResiduals) fun out v =>
        out.values.map v.getCubic =
          [.ok ⟨-.ofWord 88, -.ofWord 10, .ofWord 50⟩,
            .ok ⟨.ofWord 68, .ofWord 10, -.ofWord 34⟩] := by
  have halphas : [⟨3⟩, ⟨0⟩].map Call.productValues.get = [-.ofWord 2, .ofWord 2].map .ok := by
    decide +kernel
  have hselectors : mixedSelectors.map Call.productValues.getCubic =
      Selectors.map .ok ⟨⟨-1, -.ofWord 2, 0⟩, ⟨.ofWord 2, .ofWord 2, .ofWord 2⟩, ⟨0, -1, 0⟩⟩ := by
    decide +kernel
  have hresiduals : mixedResiduals.map (Prod.map id Call.productValues.getCubic) =
      [(.first, ⟨.ofWord 2, -1, -.ofWord 2⟩), (.every, ⟨-.ofWord 2, 0, .ofWord 2⟩),
        (.transition, ⟨-1, -1, -1⟩), (.last, ⟨.ofWord 2, 0, -.ofWord 2⟩)].map
          (Prod.map id .ok) := by
    decide +kernel
  obtain ⟨v, hv, hout⟩ := (emitted_eq_weightedResiduals _ _ _).2.2 Call.productCalls
    Call.productInputs Call.productValues Call.completes_product [⟨3⟩, ⟨0⟩] mixedSelectors
    mixedResiduals halphas hselectors hresiduals
  exact ⟨Call.completes_product, halphas, hselectors, hresiduals, v, hv,
    hout.trans (by decide +kernel)⟩

end Shared

end CircuitAccumulator

end CrossLookup
