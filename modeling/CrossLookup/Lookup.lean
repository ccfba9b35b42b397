import CrossLookup.Column
import CrossLookup.Table

/-!
# Cross-table lookups

A lookup states that the filtered payload rows of its looking sides, taken
together, are the filtered payload rows of its looked side as a multiset.
-/

namespace CrossLookup

/-- A table's part in a lookup: its payload columns and an optional filter. -/
structure Side where
  table : Table
  columns : List Column
  /-- Zero or one on every row; absent when every row takes part. -/
  filter : Option Column
deriving DecidableEq

/-- A lookup of several looking sides into one looked side. -/
structure Lookup where
  looking : List Side
  looked : Side
  /-- Every side carries payloads of one width. -/
  width_eq : ∀ side ∈ looking, side.columns.length = looked.columns.length
deriving DecidableEq

namespace Lookup

/-- A lookup whose sides agree in width. -/
def make (looking : List Side) (looked : Side) : Except Violation Lookup :=
  if h : ∀ side ∈ looking, side.columns.length = looked.columns.length then
    .ok ⟨looking, looked, h⟩
  else
    .error .payloadWidth

/-- All sides, the looked one last. -/
def sides (lookup : Lookup) : List Side :=
  lookup.looking ++ [lookup.looked]

end Lookup

/-- The number of sides over all lookups that belong to a table. -/
def occurrences (lookups : List Lookup) (table : Table) : Nat :=
  (lookups.flatMap Lookup.sides).countP fun side => side.table = table

/-- The number of running products a table commits to, as a machine word. -/
def productCount (lookups : List Lookup) (table : Table) (challenges : UInt64) : UInt64 :=
  .ofNat (occurrences lookups table) * challenges

end CrossLookup
