import CrossLookup.Proofs.Circuit.Surroundings
import CrossLookup.Proofs.Column
import CrossLookup.Proofs.Constraint.Openings

/-!
# A column has one value however it is evaluated

On a trace a column is evaluated as on the rows that it reads, in lanes as in
each lane, and in the extension as before the embedding. On the wires of a
circuit it yields wires that hold its value on the rows that the wires hold,
wherever in the circuit it is evaluated.
-/

namespace CrossLookup

namespace Column

variable (column : Column)

theorem eval_eq_affineValue (row : Array Goldilocks) :
    column.eval row = column.affineValue (row.getD · 0) fun _ => 0 := by
  rw [eval, addTerms_eq, affineValue, termSum_zero, add_zero]
  rfl

theorem evalWithNext_eq_affineValue (row next : Array Goldilocks) :
    column.evalWithNext row next = column.affineValue (row.getD · 0) (next.getD · 0) := by
  rw [evalWithNext, eval, addTerms_eq, addTerms_eq]
  rfl

section Trace

variable {trace : Trace} {row : ℕ}

theorem evalTrace_of_lt (h : row + 1 < trace.height) :
    column.evalTrace trace row = column.evalWithNext (trace.row row) (trace.row (row + 1)) := by
  rw [← evalWithNext_frame (Or.inl h), Trace.frame, Trace.cyclicNext_of_lt h]

theorem evalTrace_of_not_lt (h : ¬row + 1 < trace.height) :
    column.evalTrace trace row = column.eval (trace.row row) := by
  rw [evalTrace, if_neg fun hreads => h hreads.2]
  exact (addTerms_row row column.terms column.constant).symm

end Trace

section Given

variable {column}

/-- Evaluate a column on rows that are inputs of the circuit: on the first alone, then on both. -/
def evalGiven (column : Column) (row next : Array Cubic) : Given (CubicWire × CubicWire) := do
  let wires ← Given.cubics row.toList
  let nextWires ← Given.cubics next.toList
  let alone ← column.evalCircuit wires.toArray
  let both ← column.evalWithNextCircuit wires.toArray nextWires.toArray
  return (alone, both)

theorem yields_evalGiven {row next : Array Cubic}
    (hreads : column.ReadsWithin row.size next.size) :
    Given.Yields (column.evalGiven row next) [] fun out values =>
      out.1.Holds values (column.eval row) ∧ out.2.Holds values (column.evalWithNext row next) := by
  refine (Given.yields_cubics row.toList).bind fun wires values₁ _ hwires => ?_
  refine (Given.yields_cubics next.toList).bind fun nextWires values₂ hle₂ hnext => ?_
  have hrow : RowHolds values₂ wires.toArray row := forall₂_cubic_mono hwires hle₂
  have hnextRow : RowHolds values₂ nextWires.toArray next := hnext
  refine (Given.Connects.lift (Build.yields_evalCircuit hrow hreads.terms)).bind
    fun alone values₃ hle₃ halone => ?_
  refine (Given.Connects.lift (Build.yields_evalWithNextCircuit (hrow.mono hle₃)
    (hnextRow.mono hle₃) hreads)).bind fun both values₄ hle₄ hboth => Given.Connects.pure ?_
  exact ⟨halone.mono hle₄, hboth⟩

end Given

section Around

variable {column} {before after : List Call} {inputs : Witness} {wires nextWires : Array CubicWire}

/-- With any calls around it, a column on allocated wires gives its value on the row that the
completed witness reads there. -/
theorem completesAround_evalCircuit (hwires : RowAllocated (Call.builder before) wires)
    (hterms : ∀ term ∈ column.terms, term.1 < wires.size)
    (h : Call.Surrounds before (column.evalCircuit wires) after inputs) :
    Call.CompletesAround before (column.evalCircuit wires) after inputs fun out v =>
      ∃ row, wires.map v.getCubic = row.map .ok ∧ v.getCubic out = .ok (column.eval row) := by
  obtain ⟨values, hcount, hstep⟩ := h.exists_complete
  have hrow := hwires.holds hcount
  rw [hrow.size_eq] at hterms
  obtain ⟨v, values', hle, hcomplete, hread, hout⟩ :=
    hstep (Build.yields_evalCircuit hrow hterms)
  exact ⟨v, hcomplete, _, (hrow.mono hle).map_getCubic hread, hout.getCubic hread⟩

theorem completesAround_evalWithNextCircuit (hwires : RowAllocated (Call.builder before) wires)
    (hnextWires : RowAllocated (Call.builder before) nextWires)
    (hreads : column.ReadsWithin wires.size nextWires.size)
    (h : Call.Surrounds before (column.evalWithNextCircuit wires nextWires) after inputs) :
    Call.CompletesAround before (column.evalWithNextCircuit wires nextWires) after inputs
      fun out v => ∃ row next, wires.map v.getCubic = row.map .ok ∧
        nextWires.map v.getCubic = next.map .ok ∧
          v.getCubic out = .ok (column.evalWithNext row next) := by
  obtain ⟨values, hcount, hstep⟩ := h.exists_complete
  have hrow := hwires.holds hcount
  have hnext := hnextWires.holds hcount
  rw [hrow.size_eq, hnext.size_eq] at hreads
  obtain ⟨v, values', hle, hcomplete, hread, hout⟩ :=
    hstep (Build.yields_evalWithNextCircuit hrow hnext hreads)
  exact ⟨v, hcomplete, _, _, (hrow.mono hle).map_getCubic hread,
    (hnext.mono hle).map_getCubic hread, hout.getCubic hread⟩

end Around

/-- However a column is evaluated it has one value, that of its affine combination. On a row of a
trace this is its value on the row and the row after it, and on the last row, which no other
follows, that on the row alone. A lane of packed rows has the value on the rows in that lane, and
embedded rows have the embedded value. The wires returned in a circuit hold its value on any rows
that are inputs, and, with any calls before and after, its value on what the completed witness
reads on the wires of the rows. -/
theorem evaluators_agree :
    (∀ row next : Array Goldilocks,
      column.eval row = column.affineValue (row.getD · 0) (fun _ => 0) ∧
        column.evalWithNext row next = column.affineValue (row.getD · 0) (next.getD · 0)) ∧
    (∀ (trace : Trace) (row : ℕ), column.evalTrace trace row =
      if row + 1 < trace.height then column.evalWithNext (trace.row row) (trace.row (row + 1))
      else column.eval (trace.row row)) ∧
    (∀ (row next : Array Lanes) (i : Fin 4), (column.evalWithNext row next).lane i =
      column.evalWithNext (row.map (Lanes.lane i)) (next.map (Lanes.lane i))) ∧
    (∀ row next : Array Goldilocks,
      column.evalWithNext (row.map Cubic.ofBase) (next.map Cubic.ofBase) =
        .ofBase (column.evalWithNext row next)) ∧
    (∀ row next : Array Cubic, column.ReadsWithin row.size next.size → ∃ solved,
      (column.evalGiven row next).pose.solve = .ok solved ∧
        solved.witness.getCubic solved.result.1 = .ok (column.eval row) ∧
        solved.witness.getCubic solved.result.2 = .ok (column.evalWithNext row next)) ∧
    ∀ (before after : List Call) (inputs : Witness) (wires : Array CubicWire),
      RowAllocated (Call.builder before) wires →
        ((∀ term ∈ column.terms, term.1 < wires.size) →
          Call.Surrounds before (column.evalCircuit wires) after inputs →
            Call.CompletesAround before (column.evalCircuit wires) after inputs fun out v =>
              ∃ row, wires.map v.getCubic = row.map .ok ∧
                v.getCubic out = .ok (column.eval row)) ∧
        ∀ nextWires : Array CubicWire, RowAllocated (Call.builder before) nextWires →
          column.ReadsWithin wires.size nextWires.size →
          Call.Surrounds before (column.evalWithNextCircuit wires nextWires) after inputs →
            Call.CompletesAround before (column.evalWithNextCircuit wires nextWires) after inputs
              fun out v => ∃ row next, wires.map v.getCubic = row.map .ok ∧
                nextWires.map v.getCubic = next.map .ok ∧
                v.getCubic out = .ok (column.evalWithNext row next) := by
  refine ⟨fun row next => ⟨column.eval_eq_affineValue row,
    column.evalWithNext_eq_affineValue row next⟩, fun trace row => ?_, fun row next i => ?_,
    fun row next => ?_, fun row next hreads => ?_, ?_⟩
  · split
    · next h => exact column.evalTrace_of_lt h
    · next h => exact column.evalTrace_of_not_lt h
  · exact (Lanes.isMorphism_lane i).map_evalWithNext column row next
  · exact (Cubic.isMorphism_ofBase.map_evalWithNext column row next).symm
  · obtain ⟨solved, values, hsolve, ⟨halone, hboth⟩, hget⟩ := (yields_evalGiven hreads).exists_solve
    exact ⟨solved, hsolve, halone.getCubic hget, hboth.getCubic hget⟩
  · intro before after inputs wires hwires
    exact ⟨completesAround_evalCircuit hwires, fun nextWires hnextWires =>
      completesAround_evalWithNextCircuit hwires hnextWires⟩

section Shared

/-- A column of both rows. -/
def sharedColumn : Column :=
  ⟨[(1, .ofWord 3), (0, -1)], [(0, .ofWord 7)], .ofWord 2, by decide⟩

/-- A row on two inputs, their product and a constant. -/
def sharedRow : Array CubicWire :=
  #[⟨⟨0⟩, ⟨1⟩, ⟨3⟩⟩, ⟨⟨2⟩, ⟨2⟩, ⟨1⟩⟩]

/-- A row on some of the same wires. -/
def sharedNextRow : Array CubicWire :=
  #[⟨⟨3⟩, ⟨3⟩, ⟨0⟩⟩]

/-- Calls that allocate an input, multiply a value that the evaluation has left and connect a
coefficient of it. -/
def laterCalls : List Call :=
  [.input, .mulCubic ⟨⟨10⟩, ⟨11⟩, ⟨12⟩⟩ ⟨⟨0⟩, ⟨12⟩, ⟨1⟩⟩, .connect ⟨0⟩ ⟨11⟩]

/-- The values of two inputs and of one that is allocated later. -/
def laterInputs (between : ℕ) : Witness :=
  ⟨(some (.ofWord 2) :: some (-1) :: (List.replicate between none ++ [some (.ofWord 9)])).toArray⟩

theorem isSome_laterInputs (between : ℕ) (wire : Wire) :
    ((laterInputs between).get? wire).isSome = true ↔
      wire ∈ [⟨0⟩, ⟨1⟩, (⟨between + 2⟩ : Wire)] := by
  obtain ⟨_ | _ | index⟩ := wire
  · simp [laterInputs, Witness.get?]
  · simp [laterInputs, Witness.get?]
  · rcases Nat.lt_trichotomy index between with hlt | rfl | hgt
    · simp [laterInputs, Witness.get?, List.getElem?_append, hlt, hlt.ne]
    · simp [laterInputs, Witness.get?]
    · have hbeyond : (List.replicate between none ++ [some (Goldilocks.ofWord 9)])[index]? = none :=
        List.getElem?_eq_none (by simpa using hgt)
      simp [laterInputs, Witness.get?, hbeyond, hgt.ne']

/-- The later calls may stand after a step when the wires that they take are allocated and their
input is the one that has a value. -/
theorem surrounds_laterCalls {step : Build CubicWire} {between : ℕ}
    (hscoped : Call.Scoped (nextWires 0 (Call.builderAfter Call.productCalls step).wireCount)
      (Call.trace (Call.builderAfter Call.productCalls step) laterCalls))
    (hinputs : Call.inputWires (Call.traceAround Call.productCalls step laterCalls) =
      [⟨0⟩, ⟨1⟩, ⟨between + 2⟩]) :
    Call.Surrounds Call.productCalls step laterCalls (laterInputs between) where
  scoped_before := Call.completes_product.wellScoped
  scoped_after := hscoped
  isSome_iff wire := by
    rw [hinputs]
    exact isSome_laterInputs between wire

/-- What a completed witness reads on a row of wires is found by completing it. -/
theorem eq_of_map_getCubic {c : Circuit} {w v : Witness} {wires : Array CubicWire}
    {row found : Array Cubic} (hcomplete : c.complete w = .ok v)
    (hread : wires.map v.getCubic = row.map .ok)
    (hfound : (c.complete w).map (fun v => wires.map v.getCubic) = .ok (found.map .ok)) :
    row = found := by
  rw [hcomplete] at hfound
  exact (Array.map_inj_right fun _ _ => Except.ok.inj).mp
    (hread.symm.trans (Except.ok.inj hfound))

/-- A column is evaluated on rows that are inputs of their own, and between calls on rows that share
wires with each other and with the later calls. -/
theorem evaluators_agree_shared :
    (sharedColumn.ReadsWithin 2 1 ∧ ∃ solved,
      (sharedColumn.evalGiven #[1, ⟨.ofWord 2, 0, -1⟩] #[⟨0, 1, .ofWord 4⟩]).pose.solve =
          .ok solved ∧
        solved.witness.getCubic solved.result.1 = .ok ⟨.ofWord 7, 0, -.ofWord 3⟩ ∧
        solved.witness.getCubic solved.result.2 = .ok ⟨.ofWord 7, .ofWord 7, .ofWord 25⟩) ∧
    (RowAllocated (Call.builder Call.productCalls) sharedRow ∧
      (∀ term ∈ sharedColumn.terms, term.1 < sharedRow.size) ∧
      Call.Surrounds Call.productCalls (sharedColumn.evalCircuit sharedRow) laterCalls
        (laterInputs 11) ∧
      Call.CompletesAround Call.productCalls (sharedColumn.evalCircuit sharedRow) laterCalls
        (laterInputs 11) fun out v => v.getCubic out = .ok ⟨0, 1, -1⟩) ∧
    RowAllocated (Call.builder Call.productCalls) sharedNextRow ∧
      sharedColumn.ReadsWithin sharedRow.size sharedNextRow.size ∧
      Call.Surrounds Call.productCalls (sharedColumn.evalWithNextCircuit sharedRow sharedNextRow)
        laterCalls (laterInputs 15) ∧
      Call.CompletesAround Call.productCalls
        (sharedColumn.evalWithNextCircuit sharedRow sharedNextRow) laterCalls (laterInputs 15)
        fun out v => v.getCubic out = .ok ⟨-.ofWord 14, -.ofWord 13, .ofWord 13⟩ := by
  obtain ⟨-, -, -, -, hgiven, haround⟩ := evaluators_agree sharedColumn
  have hrow : RowAllocated (Call.builder Call.productCalls) sharedRow := by decide +kernel
  have hnext : RowAllocated (Call.builder Call.productCalls) sharedNextRow := by decide +kernel
  have hterms : ∀ term ∈ sharedColumn.terms, term.1 < sharedRow.size := by decide +kernel
  have hreads : sharedColumn.ReadsWithin 2 1 := by decide +kernel
  have halone : Call.Surrounds Call.productCalls (sharedColumn.evalCircuit sharedRow) laterCalls
      (laterInputs 11) :=
    surrounds_laterCalls (by decide +kernel) (by decide +kernel)
  have hboth : Call.Surrounds Call.productCalls
      (sharedColumn.evalWithNextCircuit sharedRow sharedNextRow) laterCalls (laterInputs 15) :=
    surrounds_laterCalls (by decide +kernel) (by decide +kernel)
  refine ⟨⟨hreads, ?_⟩, ⟨hrow, hterms, halone, ?_⟩, hnext, hreads, hboth, ?_⟩
  · obtain ⟨solved, hsolve, hout, houtBoth⟩ :=
      hgiven #[1, ⟨.ofWord 2, 0, -1⟩] #[⟨0, 1, .ofWord 4⟩] hreads
    exact ⟨solved, hsolve, hout.trans (by decide +kernel), houtBoth.trans (by decide +kernel)⟩
  · obtain ⟨v, hv, row, hread, hout⟩ :=
      (haround Call.productCalls laterCalls (laterInputs 11) sharedRow hrow).1 hterms halone
    have hvalue : row = #[⟨.ofWord 2, -1, -.ofWord 2⟩, ⟨0, 0, -1⟩] :=
      eq_of_map_getCubic hv hread (by decide +kernel)
    rw [hvalue] at hout
    exact ⟨v, hv, hout.trans (by decide +kernel)⟩
  · obtain ⟨v, hv, row, next, hread, hreadNext, hout⟩ :=
      (haround Call.productCalls laterCalls (laterInputs 15) sharedRow hrow).2 sharedNextRow hnext
        hreads hboth
    have hvalue : row = #[⟨.ofWord 2, -1, -.ofWord 2⟩, ⟨0, 0, -1⟩] :=
      eq_of_map_getCubic hv hread (by decide +kernel)
    have hnextValue : next = #[⟨-.ofWord 2, -.ofWord 2, .ofWord 2⟩] :=
      eq_of_map_getCubic hv hreadNext (by decide +kernel)
    rw [hvalue, hnextValue] at hout
    exact ⟨v, hv, hout.trans (by decide +kernel)⟩

end Shared

end Column

end CrossLookup
