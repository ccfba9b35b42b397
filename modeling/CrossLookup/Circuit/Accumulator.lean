import CrossLookup.Circuit.Given
import CrossLookup.Constraint.Accumulator

/-!
# Folding of constraints inside a circuit

The same combinations as over values, with the `alpha`s on base wires and the
residuals and selectors on extension wires.
-/

namespace CrossLookup

/-- The random combinations of the residuals so far, as wires. -/
structure CircuitAccumulator where
  alphas : List Wire
  values : List CubicWire
  selectors : Selectors CubicWire
deriving DecidableEq

namespace CircuitAccumulator

/-- Nothing folded yet; every combination is the constant zero. -/
def start (alphas : List Wire) (selectors : Selectors CubicWire) :
    Build CircuitAccumulator := do
  let z ← Build.zeroCubic
  return ⟨alphas, alphas.map fun _ => z, selectors⟩

/-- Fold a residual into every combination, in order. -/
def foldValues (residual : CubicWire) :
    List CubicWire → List Wire → Build (List CubicWire)
  | value :: values, alpha :: alphas => do
      let folded ← Build.scalarMulAddCubic alpha value residual
      let rest ← foldValues residual values alphas
      return folded :: rest
  | _, _ => return []

/-- Fold a residual in. -/
def fold (acc : CircuitAccumulator) (residual : CubicWire) : Build CircuitAccumulator := do
  let values ← foldValues residual acc.values acc.alphas
  return { acc with values }

/-- Fold in a residual times a selector. -/
def foldSelected (acc : CircuitAccumulator) (selector residual : CubicWire) :
    Build CircuitAccumulator := do
  let scaled ← Build.mulCubic residual selector
  acc.fold scaled

/-- Fold in the residual of a constraint on some rows. -/
def emit (acc : CircuitAccumulator) (rows : ConstraintRows) (residual : CubicWire) :
    Build CircuitAccumulator :=
  match rows with
  | .every => acc.fold residual
  | .transition => acc.foldSelected acc.selectors.zLast residual
  | .first => acc.foldSelected acc.selectors.first residual
  | .last => acc.foldSelected acc.selectors.last residual

/-- Start with factors and selectors that are inputs of the circuit. -/
def startGiven (alphas : List Goldilocks) (selectors : Selectors Cubic) :
    Given CircuitAccumulator := do
  let alphas ← Given.wires alphas
  let zLast ← Given.cubic selectors.zLast
  let first ← Given.cubic selectors.first
  let last ← Given.cubic selectors.last
  start alphas ⟨zLast, first, last⟩

/-- Fold in residuals that are inputs, with the combinations after each of them. -/
def emitGiven (acc : CircuitAccumulator) : List (ConstraintRows × Cubic) →
    Given (List (List CubicWire) × CircuitAccumulator)
  | [] => return ([], acc)
  | (rows, residual) :: rest => do
      let wires ← Given.cubic residual
      let acc ← acc.emit rows wires
      let (others, last) ← acc.emitGiven rest
      return (acc.values :: others, last)

end CircuitAccumulator

end CrossLookup
