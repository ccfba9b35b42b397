import CrossLookup.Proofs.Circuit.Compilation
import CrossLookup.Proofs.Circuit.Lookup
import CrossLookup.Proofs.Constraint.Folding

/-!
# Accumulators read from a witness

A witness reads an accumulator over wires as one over values. What a step over
an accumulator yields is what the completed witness reads, whether the step
comes after inputs of its own or after any calls, and whatever has been folded
in before.
-/

namespace CrossLookup

/-- A witness reads the wires of an accumulator as an accumulator over values. -/
structure CircuitAccumulator.ReadsAs (v : Witness) (wires : CircuitAccumulator)
    (acc : Accumulator Cubic) : Prop where
  alphas : wires.alphas.map v.get = acc.alphas.map .ok
  values : wires.values.map v.getCubic = acc.values.map .ok
  zLast : v.getCubic wires.selectors.zLast = .ok acc.selectors.zLast
  first : v.getCubic wires.selectors.first = .ok acc.selectors.first
  last : v.getCubic wires.selectors.last = .ok acc.selectors.last

section Reading

variable {values : List Goldilocks} {v : Witness}

theorem Witness.get?_of_getCubic {wires : CubicWire} {x : Cubic}
    (h : v.getCubic wires = .ok x) :
    v.get? wires.c0 = some x.c0 ∧ v.get? wires.c1 = some x.c1 ∧ v.get? wires.c2 = some x.c2 := by
  obtain ⟨c2, h2, h⟩ := Except.bind_eq_ok_iff.mp h
  obtain ⟨c1, h1, h⟩ := Except.bind_eq_ok_iff.mp h
  obtain ⟨c0, h0, h⟩ := Except.bind_eq_ok_iff.mp h
  cases h
  exact ⟨get_eq_ok_iff.mp h0, get_eq_ok_iff.mp h1, get_eq_ok_iff.mp h2⟩

section Holding

variable (hv : ∀ wire, v.get? wire = values[wire.index]?)
include hv

theorem CubicWire.holds_of_getCubic {wires : CubicWire} {x : Cubic}
    (h : v.getCubic wires = .ok x) : wires.Holds values x := by
  obtain ⟨h0, h1, h2⟩ := Witness.get?_of_getCubic h
  exact ⟨(hv _).symm.trans h0, (hv _).symm.trans h1, (hv _).symm.trans h2⟩

theorem forall₂_holds_of_get {wires : List Wire} {as : List Goldilocks}
    (h : wires.map v.get = as.map .ok) : List.Forall₂ (Wire.Holds values) wires as :=
  (forall₂_of_map_eq_map h).imp fun _ _ hread =>
    (hv _).symm.trans (Witness.get_eq_ok_iff.mp hread)

theorem forall₂_cubic_of_getCubic {wires : List CubicWire} {xs : List Cubic}
    (h : wires.map v.getCubic = xs.map .ok) : List.Forall₂ (CubicWire.Holds values) wires xs :=
  (forall₂_of_map_eq_map h).imp fun _ _ hread => CubicWire.holds_of_getCubic hv hread

namespace CircuitAccumulator

variable {wires : CircuitAccumulator} {acc : Accumulator Cubic}

theorem ReadsAs.holds (h : wires.ReadsAs v acc) : wires.Holds values acc where
  alphas := forall₂_holds_of_get hv h.alphas
  values := forall₂_cubic_of_getCubic hv h.values
  selectors :=
    ⟨CubicWire.holds_of_getCubic hv h.zLast, CubicWire.holds_of_getCubic hv h.first,
      CubicWire.holds_of_getCubic hv h.last⟩

end CircuitAccumulator

end Holding

theorem CircuitAccumulator.Holds.readsAs {wires : CircuitAccumulator} {acc : Accumulator Cubic}
    (h : wires.Holds values acc)
    (hv : ∀ wire a, Wire.Holds values wire a → v.get? wire = some a) : wires.ReadsAs v acc where
  alphas := map_eq_map_of_forall₂ (fun _ _ hholds => Witness.get_eq_ok_iff.mpr (hv _ _ hholds))
    h.alphas
  values := map_eq_map_of_forall₂ (fun _ _ hholds => hholds.getCubic hv) h.values
  zLast := h.selectors.zLast.getCubic hv
  first := h.selectors.first.getCubic hv
  last := h.selectors.last.getCubic hv

end Reading

namespace Call

/-- The builder that calls leave. -/
def builder (calls : List Call) : Builder :=
  ((runAll calls).run .empty).run.2

/-- A witness of exactly the inputs of calls is completed; the calls take only wires that earlier
ones returned. -/
structure Completes (calls : List Call) (inputs v : Witness) : Prop where
  wellScoped : Scoped [] (trace .empty calls)
  isSome_iff : ∀ wire, (inputs.get? wire).isSome = true ↔ wire ∈ inputWires (trace .empty calls)
  complete_eq_ok : (builder calls).circuit.complete inputs = .ok v

/-- After any calls, the completed witness holds one value on each wire, and a step that yields
something from these values yields it in the witness of the circuit with the step. -/
theorem Completes.exists_step {calls : List Call} {inputs v : Witness}
    (h : Completes calls inputs v) :
    ∃ values, (∀ wire, v.get? wire = values[wire.index]?) ∧
      ∀ {α : Type} {step : Build α} {post : α → List Goldilocks → Prop},
        Build.Yields step values post → ∃ v' values',
          (step.run (builder calls)).run.2.circuit.complete inputs = .ok v' ∧
            (∀ wire, v'.get? wire = values'[wire.index]?) ∧
            post (step.run (builder calls)).run.1 values' := by
  have hinputs := mem_valued_iff h.isSome_iff
  obtain ⟨values, pairs, -, hb, -⟩ :=
    computes_runAll inputs.value 0 Builder.computes_empty (List.forall_mem_nil _) h.wellScoped
  obtain ⟨completed, hcomplete, hget⟩ := hb.complete_inputs hinputs
  cases h.complete_eq_ok.symm.trans hcomplete
  refine ⟨values, hget, fun {α step post} hstep => ?_⟩
  obtain ⟨values', -, hb', hpost⟩ := hstep hb
  obtain ⟨v', hcomplete', hget'⟩ := hb'.complete_inputs hinputs
  exact ⟨v', values', hcomplete', hget', hpost⟩

/-- The circuit of calls and a step after them completes a witness of the inputs to one in which
the result of the step has a property. -/
def CompletesAfter {α : Type} (calls : List Call) (inputs : Witness) (step : Build α)
    (post : α → Witness → Prop) : Prop :=
  ∃ v, (step.run (builder calls)).run.2.circuit.complete inputs = .ok v ∧
    post (step.run (builder calls)).run.1 v

/-- Calls that leave two inputs, the constant zero and the product of the inputs. -/
def productCalls : List Call :=
  [.inputs 2, .zero, .mulAdd ⟨0⟩ ⟨1⟩ ⟨2⟩]

/-- The values of the inputs. -/
def productInputs : Witness :=
  ⟨#[some (.ofWord 2), some (-1)]⟩

/-- The values of all wires that the calls leave. -/
def productValues : Witness :=
  ⟨#[some (.ofWord 2), some (-1), some 0, some (-.ofWord 2)]⟩

theorem completes_product : Completes productCalls productInputs productValues where
  wellScoped := by decide +kernel
  isSome_iff := by
    have hinputs : inputWires (trace .empty productCalls) = [⟨0⟩, ⟨1⟩] := by
      decide +kernel
    rw [hinputs]
    rintro ⟨_ | _ | index⟩ <;> simp [productInputs, Witness.get?]
  complete_eq_ok := by decide +kernel

end Call

/-- Residuals that are inputs are folded in as over values. -/
theorem Given.yields_emitGiven {values : List Goldilocks} {wires : CircuitAccumulator}
    {acc : Accumulator Cubic} (hacc : wires.Holds values acc)
    (residuals : List (ConstraintRows × Cubic)) :
    Yields (wires.emitGiven residuals) values fun out values' =>
      out.2.Holds values' (acc.emitAll residuals) := by
  induction residuals generalizing values wires acc with
  | nil => exact Connects.pure hacc
  | cons residual rest ih =>
      refine (yields_cubic residual.2).bind fun residualWires values₁ hle₁ hresidual => ?_
      refine (Connects.lift (Build.yields_emit residual.1 (hacc.mono hle₁) hresidual)).bind
        fun folded values₂ _ hfolded => ?_
      exact (ih hfolded).bind fun _ _ _ hrest => Connects.pure hrest

end CrossLookup
