import CrossLookup.Circuit.Builder
import CrossLookup.Opening.Basic

/-!
# Openings inside a circuit

The openings of a table as input wires, and their assignment from openings of
the same shape.
-/

namespace CrossLookup

/-- The openings of one table as wires. -/
abbrev OpeningWires := Openings CubicWire Wire

/-- A reason why openings cannot be assigned to wires. -/
inductive AssignError
  | opening (error : OpeningError)
  | witness (error : WitnessError)
deriving DecidableEq

namespace OpeningWires

/-- Allocate wires for the openings of a table of a given shape. -/
def allocate (columns auxiliaryColumns products : Nat) : Build OpeningWires := do
  let current ← Build.cubicInputs columns
  let next ← Build.cubicInputs columns
  let auxiliary ← Build.cubicInputs auxiliaryColumns
  let auxiliaryNext ← Build.cubicInputs auxiliaryColumns
  let firstProducts ← Build.inputs products
  return ⟨current.toArray, next.toArray, auxiliary, auxiliaryNext, firstProducts⟩

/-- Assign values to as many wires. -/
def assignAll (w : Witness) (wires : List CubicWire) (values : List Cubic) :
    Except AssignError Witness :=
  if wires.length ≠ values.length then
    .error (.opening .shape)
  else
    (w.setAll ((wires.zip values).flatMap fun entry =>
      Witness.coefficientValues entry.1 entry.2)).mapError .witness

/-- Assign openings to wires of the same shape. -/
def assign (wires : OpeningWires) (w : Witness) (openings : Openings Cubic Goldilocks) :
    Except AssignError Witness := do
  let w ← assignAll w wires.current.toList openings.current.toList
  let w ← assignAll w wires.next.toList openings.next.toList
  let w ← assignAll w wires.auxiliary openings.auxiliary
  let w ← assignAll w wires.auxiliaryNext openings.auxiliaryNext
  if wires.firstProducts.length ≠ openings.firstProducts.length then
    .error (.opening .firstShape)
  else
    (w.setAll (wires.firstProducts.zip openings.firstProducts)).mapError .witness

end OpeningWires

end CrossLookup
