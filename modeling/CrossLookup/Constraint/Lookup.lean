import CrossLookup.Challenge.Basic
import CrossLookup.Column
import CrossLookup.Constraint.Accumulator

/-!
# Constraints of a lookup

A running product `z` satisfies two constraints. With
`select = filter * combine payload + 1 - filter`, the last row has `z = select`
and every other row has `z = next z * select`.
-/

namespace CrossLookup

/-- The two consecutive rows that a constraint can read. -/
structure Frame (V : Type) where
  current : Array V
  next : Array V
deriving DecidableEq

/-- A running product at two consecutive rows with the side it was built from. -/
structure OpenedProduct (V α : Type) where
  z : V
  nextZ : V
  challenge : Challenge α
  columns : List Column
  filter : Option Column
deriving DecidableEq

variable {V : Type} [BaseAlgebra V]

namespace OpenedProduct

/-- The combined payload where the filter is one, and one where it is zero. -/
def select (opened : OpenedProduct V Goldilocks) (frame : Frame V) : V :=
  let values := opened.columns.map fun column => column.evalWithNext frame.current frame.next
  let combined := opened.challenge.combine values
  let filter := match opened.filter with
    | some column => column.evalWithNext frame.current frame.next
    | none => 1
  filter * combined + 1 - filter

/-- Fold in the constraints of one running product. -/
def check (frame : Frame V) (acc : Accumulator V) (opened : OpenedProduct V Goldilocks) :
    Accumulator V :=
  let s := opened.select frame
  (acc.emit .last (opened.z - s)).emit .transition (opened.nextZ * s - opened.z)

end OpenedProduct

/-- Fold in the constraints of every running product of a table. -/
def checkLookups (frame : Frame V) (opened : List (OpenedProduct V Goldilocks))
    (acc : Accumulator V) : Accumulator V :=
  opened.foldl (OpenedProduct.check frame) acc

end CrossLookup
