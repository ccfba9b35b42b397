import CrossLookup.Challenge.Basic
import CrossLookup.Circuit.Builder
import CrossLookup.Column

/-!
# Columns and challenges inside a circuit

A column is evaluated as an inner product of row wires with constant wires. A
challenge over wires combines payload wires by the same Horner scheme as over
values.
-/

namespace CrossLookup

namespace Column

/-- Pair the row wires of terms with their coefficients as constants. -/
def termPairs (row : Array CubicWire) : List Term → Build (List (CubicWire × CubicWire))
  | [] => return []
  | term :: rest => do
      let coefficient ← Build.constantCubic (.ofBase term.2)
      let pairs ← termPairs row rest
      return (row.getD term.1 default, coefficient) :: pairs

/-- The value on a row of wires, next-row terms left out. -/
def evalCircuit (column : Column) (row : Array CubicWire) : Build CubicWire := do
  let pairs ← termPairs row column.terms
  let start ← Build.constantCubic (.ofBase column.constant)
  Build.innerProductCubic 1 start pairs

/-- The value on a row of wires and its successor. -/
def evalWithNextCircuit (column : Column) (row next : Array CubicWire) :
    Build CubicWire := do
  let pairs ← termPairs row column.terms
  let nextPairs ← termPairs next column.nextTerms
  let start ← Build.constantCubic (.ofBase column.constant)
  Build.innerProductCubic 1 start (pairs ++ nextPairs)

/-- Evaluate columns in order on a row of wires and its successor. -/
def evalAllCircuit (row next : Array CubicWire) : List Column → Build (List CubicWire)
  | [] => return []
  | column :: rest => do
      let value ← column.evalWithNextCircuit row next
      let values ← evalAllCircuit row next rest
      return value :: values

end Column

namespace Challenge

/-- Combine extension wires. -/
def combineCircuit (challenge : Challenge Wire) (terms : List CubicWire) :
    Build CubicWire := do
  let start ← Build.zeroCubic
  let sum ← terms.foldrM (fun term acc => Build.scalarMulAddCubic challenge.beta acc term) start
  let gamma ← Build.toCubic challenge.gamma
  Build.addCubic sum gamma

/-- Combine base wires. -/
def combineBaseCircuit (challenge : Challenge Wire) (terms : List Wire) : Build Wire := do
  let start ← Build.zero
  let sum ← terms.foldrM (fun term acc => Build.mulAdd acc challenge.beta term) start
  Build.add sum challenge.gamma

end Challenge

end CrossLookup
