import CrossLookup.Circuit.Accumulator
import CrossLookup.Circuit.Column
import CrossLookup.Constraint.Lookup

/-!
# Constraints of a lookup inside a circuit

The same constraints as over values. The filter is evaluated before the
payload, and an absent filter is the constant one.
-/

namespace CrossLookup

namespace OpenedProduct

/-- The wires of the combined payload where the filter is one, and of one where it is zero. -/
def selectCircuit (opened : OpenedProduct CubicWire Wire) (frame : Frame CubicWire)
    (one : CubicWire) : Build CubicWire := do
  let filter ← match opened.filter with
    | some column => column.evalWithNextCircuit frame.current frame.next
    | none => pure one
  let values ← Column.evalAllCircuit frame.current frame.next opened.columns
  let combined ← opened.challenge.combineCircuit values
  let unfiltered ← Build.subCubic one filter
  Build.mulAddCubic filter combined unfiltered

/-- Fold in the constraints of one running product. -/
def checkCircuit (frame : Frame CubicWire) (one : CubicWire) (acc : CircuitAccumulator)
    (opened : OpenedProduct CubicWire Wire) : Build CircuitAccumulator := do
  let s ← opened.selectCircuit frame one
  let last ← Build.subCubic opened.z s
  let acc ← acc.emit .last last
  let transition ← Build.mulSubCubic opened.nextZ s opened.z
  acc.emit .transition transition

/-- Allocate the input wires of an opened running product. -/
def given (opened : OpenedProduct Cubic Goldilocks) : Given (OpenedProduct CubicWire Wire) := do
  let z ← Given.cubic opened.z
  let nextZ ← Given.cubic opened.nextZ
  let challenge ← Given.challenge opened.challenge
  return ⟨z, nextZ, challenge, opened.columns, opened.filter⟩

end OpenedProduct

/-- Fold in the constraints of every running product of a table. -/
def checkLookupsCircuit (frame : Frame CubicWire) (opened : List (OpenedProduct CubicWire Wire))
    (acc : CircuitAccumulator) : Build CircuitAccumulator := do
  let one ← Build.oneCubic
  opened.foldlM (OpenedProduct.checkCircuit frame one) acc

end CrossLookup
