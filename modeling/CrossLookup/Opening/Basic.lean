import CrossLookup.Field.Cubic
import CrossLookup.Trace

/-!
# Openings

The values of a table's trace and auxiliary columns at a point and at its
successor. The auxiliary columns begin with those reserved for the table's own
lookups; the running products follow, and their first rows are opened too.
-/

namespace CrossLookup

/-- The openings of one table, over values `V` with base values `B`. -/
structure Openings (V B : Type) where
  current : Array V
  next : Array V
  auxiliary : List V
  auxiliaryNext : List V
  /-- The first rows of the running products. -/
  firstProducts : List B
deriving DecidableEq

/-- A reason to refuse an opening. -/
inductive OpeningError
  /-- More columns are reserved than there are auxiliary columns. -/
  | reservedTooMany
  /-- Openings do not have the shape of their wires. -/
  | shape
  /-- First rows do not have the shape of their wires. -/
  | firstShape
deriving DecidableEq, Repr

/-- The wording of a refusal. -/
def OpeningError.message : OpeningError → String
  | .reservedTooMany => "StarkOpeningSet: lookup prefix exceeds auxiliary column count"
  | .shape => "StarkProofTarget: opening count mismatch"
  | .firstShape => "StarkProofTarget: ctl_zs_first count mismatch"

namespace Openings

/-- No openings. -/
def empty {V B : Type} : Openings V B := ⟨#[], #[], [], [], []⟩

/-- The values of every column at a row, embedded in the extension. -/
def embedRow (trace : Trace) (row : Nat) : Array Cubic :=
  trace.columns.map fun column => .ofBase (column.getD row 0)

/-- The values of every column at the cyclic successor of a row, embedded. -/
def embedNextRow (trace : Trace) (row : Nat) : Array Cubic :=
  trace.columns.map fun column => .ofBase (column.getD ((row + 1) % column.size) 0)

/-- Open a trace and its auxiliary columns at a row of its domain. -/
def atRow (trace auxiliary : Trace) (row reserved : Nat) : Openings Cubic Goldilocks where
  current := embedRow trace row
  next := embedNextRow trace row
  auxiliary := (embedRow auxiliary row).toList
  auxiliaryNext := (embedNextRow auxiliary row).toList
  firstProducts := (auxiliary.columns.toList.drop reserved).map fun column => column.getD 0 0

/-- Open at a row, with no more columns reserved than there are. -/
def atRow? (trace auxiliary : Trace) (row reserved : Nat) :
    Except OpeningError (Openings Cubic Goldilocks) :=
  if reserved > auxiliary.columns.size then
    .error .reservedTooMany
  else
    .ok (atRow trace auxiliary row reserved)

end Openings

end CrossLookup
