import CrossLookup.Proofs.Circuit.Reading

/-!
# A step with calls around it

A step of a construction may stand anywhere in a circuit: after any calls and
before any others, which may allocate inputs of their own and use what the step
has returned. Completing a witness of the inputs of all these calls gives the
result of the step the value that it has on the wires allocated before it.
-/

namespace CrossLookup

section Allocated

variable {values : List Goldilocks}

theorem Wire.holds_valueAt {wire : Wire} (h : wire.index < values.length) :
    wire.Holds values (valueAt values wire) := by
  rw [Wire.Holds, valueAt, List.getElem?_eq_getElem h, List.getD_eq_getElem _ _ h]

/-- The wires of a row have been allocated. -/
def RowAllocated (b : Builder) (wires : Array CubicWire) : Prop :=
  ∀ wire ∈ wires, ∀ part ∈ wire.parts, part.index < b.wireCount

instance (b : Builder) (wires : Array CubicWire) : Decidable (RowAllocated b wires) :=
  inferInstanceAs (Decidable (∀ wire ∈ wires, ∀ part ∈ wire.parts, part.index < b.wireCount))

/-- Allocated wires hold a row of values. -/
theorem RowAllocated.holds {b : Builder} {wires : Array CubicWire} (h : RowAllocated b wires)
    (hcount : b.wireCount = values.length) :
    RowHolds values wires (wires.map (CubicWire.valueIn (valueAt values))) := by
  rw [RowHolds, Array.toList_map, List.forall₂_map_right_iff, List.forall₂_same]
  intro wire hwire
  apply CubicWire.holds_valueIn
  intro part hpart
  exact Wire.holds_valueAt ((h wire (Array.mem_toList_iff.mp hwire) part hpart).trans_eq hcount)

/-- A witness reads the wires of a row as the values that they hold. -/
theorem RowHolds.map_getCubic {wires : Array CubicWire} {row : Array Cubic} {v : Witness}
    (h : RowHolds values wires row)
    (hv : ∀ wire a, Wire.Holds values wire a → v.get? wire = some a) :
    wires.map v.getCubic = row.map .ok := by
  rw [← Array.toList_inj, Array.toList_map, Array.toList_map]
  exact map_eq_map_of_forall₂ (fun _ _ hholds => hholds.getCubic hv) h

end Allocated

namespace Call

variable {α : Type} {before after : List Call} {step : Build α} {inputs : Witness}

/-- The builder that calls and a step after them leave. -/
def builderAfter (before : List Call) (step : Build α) : Builder :=
  (step.run (builder before)).run.2

/-- The calls around a step with what they return. -/
def traceAround (before : List Call) (step : Build α) (after : List Call) :
    List (Call × CallResult) :=
  trace .empty before ++ trace (builderAfter before step) after

/-- The circuit of a step with calls before and after it. -/
def compiledAround (before : List Call) (step : Build α) (after : List Call) : Circuit :=
  ((runAll after).run (builderAfter before step)).run.2.circuit

/-- Calls may stand around a step over a witness of exactly their inputs: those before it take only
wires that earlier ones returned, those after it any wires that have been allocated. -/
structure Surrounds (before : List Call) (step : Build α) (after : List Call)
    (inputs : Witness) : Prop where
  scoped_before : Scoped [] (trace .empty before)
  scoped_after : Scoped (nextWires 0 (builderAfter before step).wireCount)
    (trace (builderAfter before step) after)
  isSome_iff : ∀ wire,
    (inputs.get? wire).isSome = true ↔ wire ∈ inputWires (traceAround before step after)

/-- The circuit of a step with calls around it completes a witness of their inputs to one in which
the result of the step has a property. -/
def CompletesAround (before : List Call) (step : Build α) (after : List Call) (inputs : Witness)
    (post : α → Witness → Prop) : Prop :=
  ∃ v, (compiledAround before step after).complete inputs = .ok v ∧
    post (step.run (builder before)).run.1 v

theorem valued_inputWires_append (given : Wire → Goldilocks)
    (before after : List (Call × CallResult)) :
    valued given (inputWires (before ++ after)) =
      valued given (inputWires before) ++ valued given (inputWires after) := by
  rw [inputWires, List.flatMap_append, valued, List.map_append]
  rfl

/-- The wires allocated before a step hold values. What the step yields from these the completed
witness reads, whatever calls come after. -/
theorem Surrounds.exists_complete (h : Surrounds before step after inputs) :
    ∃ values, (builder before).wireCount = values.length ∧
      ∀ {post : α → List Goldilocks → Prop}, Build.Yields step values post →
        ∃ v values', values <+: values' ∧
          (compiledAround before step after).complete inputs = .ok v ∧
          (∀ wire a, Wire.Holds values' wire a → v.get? wire = some a) ∧
          post (step.run (builder before)).run.1 values' := by
  obtain ⟨values, pairs, -, hb, -⟩ :=
    computes_runAll inputs.value 0 Builder.computes_empty (List.forall_mem_nil _) h.scoped_before
  refine ⟨values, hb.wireCount_eq, fun hstep => ?_⟩
  obtain ⟨values', hle, hb', hpost⟩ := hstep hb
  -- The calls after the step read any wires, so every allocated one stands for its value.
  have hallocated : Follows values' (nextWires 0 (builderAfter before step).wireCount)
      (valueAt values') := by
    intro wire hwire
    rw [mem_nextWires, Nat.zero_add] at hwire
    exact Wire.holds_valueAt (hwire.2.trans_eq hb'.wireCount_eq)
  obtain ⟨values'', pairs', hle', hb'', -⟩ :=
    computes_runAll inputs.value (valueAt values') hb' hallocated h.scoped_after
  rw [List.nil_append, ← valued_inputWires_append] at hb''
  obtain ⟨v, hcomplete, hget⟩ := hb''.complete_inputs (mem_valued_iff h.isSome_iff)
  refine ⟨v, values', hle, hcomplete, fun wire a hholds => ?_, hpost⟩
  exact (hget wire).trans (hholds.mono hle')

end Call

end CrossLookup
