import CrossLookup.Constraint.Lookup
import CrossLookup.Product.Running

/-!
# Scanning a trace for broken constraints

The lookup constraints of a table are evaluated on every row of its trace, four
rows at a time in any order of the groups and one by one for the rows that do
not fill a group. The least broken row is reported.
-/

namespace CrossLookup

/-- A running product at a row and its cyclic successor. -/
def RunningProduct.openAt (product : RunningProduct) (trace : Trace) (row : Nat) :
    OpenedProduct Goldilocks Goldilocks where
  z := product.values.getD row 0
  nextZ := product.values.getD (trace.cyclicNext row) 0
  challenge := product.challenge
  columns := product.columns
  filter := product.filter

namespace Trace

/-- A row and its cyclic successor. -/
def frame (trace : Trace) (row : Nat) : Frame Goldilocks :=
  ⟨trace.row row, trace.row (trace.cyclicNext row)⟩

/-- The lookup constraints at a row, folded as scalars. -/
def foldRow (trace : Trace) (products : List RunningProduct) (alphas : List Goldilocks)
    (row : Nat) : Accumulator Goldilocks :=
  checkLookups (trace.frame row) (products.map fun product => product.openAt trace row)
    (.start alphas (.ofRow row trace.height))

/-- Whether the lookup constraints hold at a row. -/
def rowHolds (trace : Trace) (products : List RunningProduct) (alphas : List Goldilocks)
    (row : Nat) : Bool :=
  (trace.foldRow products alphas row).allZero

end Trace

/-- The rows of a group of four. -/
def groupRows (group : Nat) : Vector Nat 4 :=
  Vector.ofFn fun lane => group * 4 + lane

/-- The values of a column at four rows. -/
def gather (column : Array Goldilocks) (rows : Vector Nat 4) : Lanes :=
  ⟨rows.map fun row => column.getD row 0⟩

/-- The selectors of four rows of a trace of `n` rows. -/
def Selectors.ofRows (rows : Vector Nat 4) (n : Nat) : Selectors Lanes where
  zLast := ⟨rows.map fun row => indicator (row + 1 != n)⟩
  first := ⟨rows.map fun row => indicator (row == 0)⟩
  last := ⟨rows.map fun row => indicator (row + 1 == n)⟩

namespace Trace

/-- The lookup constraints at four rows, folded in lanes. -/
def foldGroup (trace : Trace) (products : List RunningProduct) (alphas : List Goldilocks)
    (group : Nat) : Accumulator Lanes :=
  let rows := groupRows group
  let nextRows := rows.map trace.cyclicNext
  let frame : Frame Lanes :=
    ⟨trace.columns.map fun column => gather column rows,
      trace.columns.map fun column => gather column nextRows⟩
  let opened := products.map fun product =>
    (⟨gather product.values rows, gather product.values nextRows, product.challenge,
      product.columns, product.filter⟩ : OpenedProduct Lanes Goldilocks)
  checkLookups frame opened (.start alphas (.ofRows rows trace.height))

/-- The rows of a group at which some lane is not zero. -/
def brokenInGroup (trace : Trace) (products : List RunningProduct)
    (alphas : List Goldilocks) (group : Nat) : List Nat :=
  let acc := trace.foldGroup products alphas group
  (List.finRange 4).filterMap fun (lane : Fin 4) =>
    if acc.values.any fun value => !(value.lanes.get lane).isZero then
      some ((groupRows group).get lane)
    else
      none

end Trace

/-- Keep the least of the rows found so far. -/
def keepLeast (best : Option Nat) (row : Nat) : Option Nat :=
  match best with
  | some least => some (min least row)
  | none => some row

namespace Trace

/-- The least broken row, with the groups of four visited in a given order. -/
def scanGroups (trace : Trace) (products : List RunningProduct) (alphas : List Goldilocks)
    (order : List Nat) : Option Nat :=
  let inGroups := order.foldl (fun best group =>
    (trace.brokenInGroup products alphas group).foldl keepLeast best) none
  let start := trace.height / 4 * 4
  let rest := List.range' start (trace.height - start)
  match rest.find? fun row => !trace.rowHolds products alphas row with
  | some row => keepLeast inGroups row
  | none => inGroups

/-- The least row at which the lookup constraints of a table fail. -/
def firstBroken (trace : Trace) (products : List RunningProduct)
    (alphas : List Goldilocks) : Except Violation (Option Nat) :=
  if trace.isEmpty then
    .error .checkWithoutColumns
  else if products.isEmpty then
    .ok none
  else
    .ok (trace.scanGroups products alphas (List.range (trace.height / 4)))

end Trace

end CrossLookup
