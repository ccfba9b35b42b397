import CrossLookup.MemoryBus.Constraints
import CrossLookup.Proofs.Circuit.Reading
import CrossLookup.Proofs.MemoryBus.Layout

/-!
# The memory bus inside a circuit folds the same residuals

The circuit rearranges the residual of the code context and computes that of a
used flag in one gate. Both are the residuals over values for any extension
elements, so after the constraints of a row the wires of the accumulators hold
the accumulators over values.
-/

namespace CrossLookup.MemoryBus

open Build

variable {values : List Goldilocks}

/-- The wires of a row that its constraints read hold their values. -/
structure CpuRow.Holds (values : List Goldilocks) (wires : CpuRow CubicWire) (row : CpuRow Cubic) :
    Prop where
  isKernelMode : wires.isKernelMode.Holds values row.isKernelMode
  context : wires.context.Holds values row.context
  codeContext : wires.codeContext.Holds values row.codeContext
  used : List.Forall₂ (fun wires channel => wires.used.Holds values channel.used)
    wires.channels.toList row.channels.toList

section Residuals

variable {accWires : CircuitAccumulator} {acc : Accumulator Cubic}

/-- The residual of the code context as a product less a difference. -/
theorem codeContext_residual (isKernelMode context codeContext : Cubic) :
    isKernelMode * context - (context - codeContext) =
      codeContext - (1 - isKernelMode) * context := by
  ring

/-- A channel folds in the residual of its used flag. -/
theorem yields_constrainChannel {used : CubicWire} {x : Cubic} (hacc : accWires.Holds values acc)
    (hused : used.Holds values x) :
    Yields (do
      let residual ← mulSubCubic used used used
      accWires.emit .every residual) values fun out values' =>
        out.Holds values' (acc.emit .every (x * (x - 1))) := by
  rw [mul_sub_one]
  exact (yields_mulSubCubic hused hused hused).bind fun _ _ hle hresidual =>
    yields_emit .every (hacc.mono hle) hresidual

theorem yields_constrainChannels {wires : List (Channel CubicWire)}
    {channels : List (Channel Cubic)} (hacc : accWires.Holds values acc)
    (hused : List.Forall₂ (fun wires channel => wires.used.Holds values channel.used)
      wires channels) :
    Yields (wires.foldlM (fun acc channel => do
      let residual ← mulSubCubic channel.used channel.used channel.used
      acc.emit .every residual) accWires) values fun out values' =>
        out.Holds values' (channels.foldl (fun acc channel =>
          acc.emit .every (channel.used * (channel.used - 1))) acc) := by
  exact yields_foldlM CircuitAccumulator.Holds
    (fun values wires channel => wires.used.Holds values channel.used) (fun h hle => h.mono hle)
    (fun _ => yields_constrainChannel) hacc hused

/-- The constraints of a row of wires fold in the residuals of the row. -/
theorem yields_constrainCircuit {wires : CpuRow CubicWire} {row : CpuRow Cubic}
    (hrow : wires.Holds values row) (hacc : accWires.Holds values acc) :
    Yields (constrainCircuit wires accWires) values fun out values' =>
      out.Holds values' (constrain row acc) := by
  refine (yields_subCubic hrow.context hrow.codeContext).bind
    fun difference values₁ hle₁ hdifference => ?_
  refine (yields_mulSubCubic (hrow.isKernelMode.mono hle₁) (hrow.context.mono hle₁)
    hdifference).bind fun residual values₂ hle₂ hresidual => ?_
  rw [codeContext_residual] at hresidual
  have hle₁₂ := hle₁.trans hle₂
  refine (yields_emit .every (hacc.mono hle₁₂) hresidual).bind fun folded values₃ hle₃ hfolded => ?_
  exact yields_constrainChannels hfolded
    (hrow.used.imp fun _ _ hholds => hholds.mono (hle₁₂.trans hle₃))

end Residuals

section Rows

/-- The wires of a row are named as its values are. -/
theorem exists_ofRow {wires : Array CubicWire} {row : Array Cubic} {named : CpuRow Cubic}
    (hrow : RowHolds values wires row) (hnamed : CpuRow.ofRow row = .ok named) :
    ∃ namedWires, CpuRow.ofRow wires = .ok namedWires ∧ namedWires.Holds values named := by
  have hsize : row.size = 42 := size_of_ofRow hnamed
  have hwires : wires.size = 42 := hrow.size_eq.trans hsize
  have hcell : ∀ i (hi : i < wires.size) (hi' : i < row.size), wires[i].Holds values row[i] :=
    fun i hi hi' => hrow.get hi hi'
  rw [CpuRow.ofRow, dif_pos hsize] at hnamed
  obtain rfl := Except.ok.inj hnamed
  refine ⟨_, dif_pos hwires, hcell _ _ _, hcell _ _ _, hcell _ _ _, ?_⟩
  rw [List.forall₂_iff_get]
  refine ⟨by simp, fun i hi hi' => ?_⟩
  simp only [List.get_eq_getElem, Vector.getElem_toList, Vector.getElem_ofFn]
  exact hcell _ _ _

/-- Name the values of a row and fold in its constraints. -/
def constrainRow {V : Type} [BaseAlgebra V] (row : Array V) (acc : Accumulator V) :
    Except Violation (Accumulator V) := do
  return constrain (← CpuRow.ofRow row) acc

/-- Name the wires of a row and fold in its constraints. -/
def constrainRowCircuit (wires : Array CubicWire) (acc : CircuitAccumulator) :
    Build (Except Violation CircuitAccumulator) :=
  match CpuRow.ofRow wires with
  | .error e => return .error e
  | .ok row => return .ok (← constrainCircuit row acc)

theorem exists_constrainRow {row : Array Cubic} (hwidth : row.size = cpuWidth)
    (acc : Accumulator Cubic) : ∃ folded, constrainRow row acc = .ok folded := by
  have hnamed : CpuRow.ofRow row = .ok _ := dif_pos hwidth
  exact ⟨constrain _ acc, Except.bind_eq_ok_iff.mpr ⟨_, hnamed, rfl⟩⟩

variable {row : Array Cubic} {acc folded : Accumulator Cubic}

/-- What a row folds in over values it folds in over wires. -/
theorem yields_constrainRowCircuit {wires : Array CubicWire} {accWires : CircuitAccumulator}
    (hrow : RowHolds values wires row) (hacc : accWires.Holds values acc)
    (hfolded : constrainRow row acc = .ok folded) :
    Yields (constrainRowCircuit wires accWires) values fun out values' =>
      ∃ foldedWires, out = .ok foldedWires ∧ foldedWires.Holds values' folded := by
  obtain ⟨named, hnamed, hfolded⟩ := Except.bind_eq_ok_iff.mp hfolded
  cases hfolded
  obtain ⟨namedWires, hwires, hholds⟩ := exists_ofRow hrow hnamed
  rw [constrainRowCircuit, hwires]
  exact (yields_constrainCircuit hholds hacc).bind fun out _ _ hout =>
    Connects.pure ⟨out, rfl, hout⟩

/-- The constraints of a row on inputs of their own, after residuals on inputs of their own. -/
def constrainGiven (row : Array Cubic) (alphas : List Goldilocks) (selectors : Selectors Cubic)
    (earlier : List (ConstraintRows × Cubic)) : Given (Except Violation CircuitAccumulator) := do
  let wires ← Given.cubics row.toList
  let acc ← CircuitAccumulator.startGiven alphas selectors
  let (_, acc) ← acc.emitGiven earlier
  constrainRowCircuit wires.toArray acc

theorem yields_constrainGiven {alphas : List Goldilocks} {selectors : Selectors Cubic}
    {earlier : List (ConstraintRows × Cubic)}
    (hfolded : constrainRow row ((Accumulator.start alphas selectors).emitAll earlier) =
      .ok folded) :
    Given.Yields (constrainGiven row alphas selectors earlier) values fun out values' =>
      ∃ foldedWires, out = .ok foldedWires ∧ foldedWires.Holds values' folded := by
  refine (Given.yields_cubics row.toList).bind fun wires values₁ _ hwires => ?_
  refine (Given.yields_startGiven alphas selectors).bind fun started values₂ hle₂ hstarted => ?_
  refine (Given.yields_emitGiven hstarted earlier).bind fun emitted values₃ hle₃ hemitted => ?_
  have hrow : RowHolds values₃ wires.toArray row :=
    forall₂_cubic_mono hwires (hle₂.trans hle₃)
  exact Given.Connects.lift (yields_constrainRowCircuit hrow hemitted hfolded)

/-- Over wires a row folds in what it folds in over values. After any calls, a row and an
accumulator that the completed witness reads as values are taken to an accumulator that the witness
of the larger circuit reads as the one over values, whatever was folded in before and whichever
wires are shared. On inputs of their own, this is the case for every row, all alphas, all selectors
and all earlier residuals. -/
theorem constrainRowCircuit_reads_constrainRow :
    (∀ (calls : List Call) (inputs v : Witness), Call.Completes calls inputs v →
      ∀ (row : Array Cubic) (acc : Accumulator Cubic) (wires : Array CubicWire)
        (accWires : CircuitAccumulator), row.size = cpuWidth →
        wires.toList.map v.getCubic = row.toList.map .ok → accWires.ReadsAs v acc →
        ∃ folded foldedWires v', constrainRow row acc = .ok folded ∧
          ((constrainRowCircuit wires accWires).run (Call.builder calls)).run.1 =
            .ok foldedWires ∧
          ((constrainRowCircuit wires accWires).run (Call.builder calls)).run.2.circuit.complete
            inputs = .ok v' ∧
          foldedWires.ReadsAs v' folded) ∧
    ∀ (row : Array Cubic) (alphas : List Goldilocks) (selectors : Selectors Cubic)
      (earlier : List (ConstraintRows × Cubic)), row.size = cpuWidth →
      ∃ folded foldedWires solved,
        constrainRow row ((Accumulator.start alphas selectors).emitAll earlier) = .ok folded ∧
          (constrainGiven row alphas selectors earlier).pose.solve = .ok solved ∧
          solved.result = .ok foldedWires ∧ foldedWires.ReadsAs solved.witness folded := by
  constructor
  · intro calls inputs v hcompletes row acc wires accWires hwidth hwires hacc
    obtain ⟨values, hget, hstep⟩ := hcompletes.exists_step
    obtain ⟨folded, hfolded⟩ := exists_constrainRow hwidth acc
    have hrow : RowHolds values wires row := forall₂_cubic_of_getCubic hget hwires
    obtain ⟨v', values', hv', hget', foldedWires, hout, hholds⟩ :=
      hstep (yields_constrainRowCircuit hrow (hacc.holds hget) hfolded)
    have hread := hholds.readsAs fun wire a hwire => (hget' wire).trans hwire
    exact ⟨folded, foldedWires, v', hfolded, hout, hv', hread⟩
  · intro row alphas selectors earlier hwidth
    obtain ⟨folded, hfolded⟩ :=
      exists_constrainRow hwidth ((Accumulator.start alphas selectors).emitAll earlier)
    obtain ⟨solved, values, hsolve, ⟨foldedWires, hout, hholds⟩, hget⟩ :=
      (yields_constrainGiven hfolded).exists_solve
    exact ⟨folded, foldedWires, solved, hfolded, hsolve, hout, hholds.readsAs hget⟩

end Rows

section Shared

/-- Calls that leave three inputs, a constant and an extension element computed from them. -/
def sharedCalls : List Call :=
  [.cubicInput, .constant (.ofWord 7),
    .mulSubCubic ⟨⟨0⟩, ⟨1⟩, ⟨2⟩⟩ ⟨⟨1⟩, ⟨2⟩, ⟨3⟩⟩ ⟨⟨3⟩, ⟨3⟩, ⟨0⟩⟩]

/-- The values of the inputs. -/
def sharedInputs : Witness :=
  ⟨#[some (.ofWord 2), some (.ofWord 3), some (.ofWord 5)]⟩

/-- The values of all wires that the calls leave. -/
def sharedValues : Witness :=
  ⟨#[some (.ofWord 2), some (.ofWord 3), some (.ofWord 5), some (.ofWord 7),
    some (.ofWord 18446744069414584274), some (.ofWord 23), some (.ofWord 77)]⟩

/-- A row on seven wires, with flags that are not binary. -/
def sharedWires : Array CubicWire :=
  Array.ofFn fun i : Fin 42 => ⟨⟨i % 7⟩, ⟨(i + 2) % 7⟩, ⟨(i + 3) % 7⟩⟩

/-- The values of the row. -/
def sharedRow : Array Cubic :=
  sharedWires.map (CubicWire.valueIn sharedValues.value)

/-- An accumulator on the same wires. -/
def sharedAccumulator : CircuitAccumulator :=
  ⟨[⟨3⟩, ⟨4⟩], [⟨⟨4⟩, ⟨5⟩, ⟨6⟩⟩, ⟨⟨0⟩, ⟨0⟩, ⟨3⟩⟩],
    ⟨⟨⟨1⟩, ⟨1⟩, ⟨1⟩⟩, ⟨⟨3⟩, ⟨4⟩, ⟨0⟩⟩, ⟨⟨5⟩, ⟨2⟩, ⟨2⟩⟩⟩⟩

/-- The values of the accumulator. -/
def earlierAccumulator : Accumulator Cubic :=
  ⟨sharedAccumulator.alphas.map sharedValues.value,
    sharedAccumulator.values.map (CubicWire.valueIn sharedValues.value),
    sharedAccumulator.selectors.map (CubicWire.valueIn sharedValues.value)⟩

theorem completes_shared : Call.Completes sharedCalls sharedInputs sharedValues where
  wellScoped := by decide +kernel
  isSome_iff := by
    have hinputs : Call.inputWires (Call.trace .empty sharedCalls) = [⟨0⟩, ⟨1⟩, ⟨2⟩] := by
      decide +kernel
    rw [hinputs]
    rintro ⟨_ | _ | _ | index⟩ <;> simp [sharedInputs, Witness.get?]
  complete_eq_ok := by decide +kernel

theorem readsAs_shared : sharedAccumulator.ReadsAs sharedValues earlierAccumulator where
  alphas := by decide +kernel
  values := by decide +kernel
  zLast := by decide +kernel
  first := by decide +kernel
  last := by decide +kernel

/-- A row that does not keep the constraints is folded on wires that it shares with the
accumulator, and on inputs of its own after a residual of the last row. -/
theorem constrainRowCircuit_reads_constrainRow_shared :
    (Call.Completes sharedCalls sharedInputs sharedValues ∧ sharedRow.size = cpuWidth ∧
      sharedWires.toList.map sharedValues.getCubic = sharedRow.toList.map .ok ∧
      sharedAccumulator.ReadsAs sharedValues earlierAccumulator ∧ ∃ foldedWires v',
        ((constrainRowCircuit sharedWires sharedAccumulator).run
          (Call.builder sharedCalls)).run.1 = .ok foldedWires ∧
        ((constrainRowCircuit sharedWires sharedAccumulator).run
          (Call.builder sharedCalls)).run.2.circuit.complete sharedInputs = .ok v' ∧
        foldedWires.values.map v'.getCubic =
          [.ok ⟨.ofWord 18446744069198598753, .ofWord 426202850, .ofWord 18446744069315077473⟩,
            .ok ⟨.ofWord 18446716359628525324, .ofWord 35692535268881,
              .ofWord 18446723933982627587⟩]) ∧
    ∃ solved, (constrainGiven sharedRow [.ofWord 3] earlierAccumulator.selectors
      [(.last, ⟨.ofWord 4, 0, 1⟩)]).pose.solve = .ok solved := by
  have hwidth : sharedRow.size = cpuWidth := by decide +kernel
  have hwires : sharedWires.toList.map sharedValues.getCubic = sharedRow.toList.map .ok := by
    decide +kernel
  obtain ⟨folded, foldedWires, v', hfolded, hout, hv', hread⟩ :=
    constrainRowCircuit_reads_constrainRow.1 sharedCalls sharedInputs sharedValues completes_shared
      sharedRow earlierAccumulator sharedWires sharedAccumulator hwidth hwires readsAs_shared
  obtain ⟨_, _, solved, _, hsolve, _⟩ := constrainRowCircuit_reads_constrainRow.2 sharedRow
    [.ofWord 3] earlierAccumulator.selectors [(.last, ⟨.ofWord 4, 0, 1⟩)] hwidth
  have hvalues : (constrainRow sharedRow earlierAccumulator).map (fun acc => acc.values) = .ok
      [⟨.ofWord 18446744069198598753, .ofWord 426202850, .ofWord 18446744069315077473⟩,
        ⟨.ofWord 18446716359628525324, .ofWord 35692535268881,
          .ofWord 18446723933982627587⟩] := by
    decide +kernel
  rw [hfolded] at hvalues
  have hread : foldedWires.values.map v'.getCubic = _ :=
    hread.values.trans (congrArg (List.map Except.ok) (Except.ok.inj hvalues))
  exact ⟨⟨completes_shared, hwidth, hwires, readsAs_shared, foldedWires, v', hout, hv', hread⟩,
    solved, hsolve⟩

end Shared

end CrossLookup.MemoryBus
