import CrossLookup.Field.Goldilocks
import CrossLookup.Violation

/-!
# Traces

The execution trace of one table, stored by columns: one value per row of the
trace domain in each column.
-/

namespace CrossLookup

/-- A column-major trace. -/
structure Trace where
  columns : Array (Array Goldilocks)
deriving DecidableEq, Inhabited

namespace Trace

/-- The trace without columns. -/
def empty : Trace := ⟨#[]⟩

/-- Whether a trace has no columns. -/
def isEmpty (t : Trace) : Bool :=
  t.columns.isEmpty

/-- The number of rows, read off the first column. -/
def height (t : Trace) : Nat :=
  (t.columns.getD 0 #[]).size

/-- The value in a column at a row. -/
def cell (t : Trace) (column row : Nat) : Goldilocks :=
  (t.columns.getD column #[]).getD row 0

/-- The values of every column at a row. -/
def row (t : Trace) (r : Nat) : Array Goldilocks :=
  t.columns.map fun column => column.getD r 0

/-- The row after a row, wrapping past the last. -/
def cyclicNext (t : Trace) (r : Nat) : Nat :=
  (r + 1) % t.height

/-- Every column has the height of the first. -/
def Rectangular (t : Trace) : Prop :=
  ∀ column ∈ t.columns, column.size = t.height

/-- Transpose rows of one width into a trace. -/
def ofRows (rows : List (List Goldilocks)) : Except Violation Trace :=
  match rows with
  | [] => .error .noRows
  | first :: _ =>
      if rows.all fun row => row.length == first.length then
        .ok ⟨(Array.range first.length).map fun c =>
          (rows.map fun row => row.getD c 0).toArray⟩
      else
        .error .raggedRows

/-- A trace from columns of unreduced words. -/
def ofColumns (columns : List (List UInt64)) : Trace :=
  ⟨(columns.map fun column => (column.map Goldilocks.ofWord).toArray).toArray⟩

end Trace

end CrossLookup
