import CrossLookup.Challenge.Basic
import CrossLookup.Lookup

/-!
# Running products

For each side of a lookup and each challenge a table commits to the products of
its combined payload rows, accumulated from the last row upwards over the rows
that the filter selects. The first value is the product over the whole table.
-/

namespace CrossLookup

/-- The value of an optional filter on a row of a trace; one when absent. -/
def filterValue (filter : Option Column) (trace : Trace) (row : Nat) : Goldilocks :=
  match filter with
  | some column => column.evalTrace trace row
  | none => 1

/-- The payload values of a row of a trace. -/
def payload (columns : List Column) (trace : Trace) (row : Nat) : List Goldilocks :=
  columns.map fun column => column.evalTrace trace row

/-- Multiply by the combined payload of a row if the filter selects it. -/
def multiplySelected (trace : Trace) (columns : List Column) (filter : Option Column)
    (challenge : Challenge Goldilocks) (row : Nat) (product : Goldilocks) :
    Except Violation Goldilocks :=
  let f := filterValue filter trace row
  if f.isOne then
    .ok (product * challenge.combine (payload columns trace row))
  else if f.isZero then
    .ok product
  else
    .error .nonBinaryFilter

/-- Accumulate a product over the rows below a bound, from the last one up. -/
def accumulateUp (multiply : Nat → Goldilocks → Except Violation Goldilocks) :
    Nat → Goldilocks → List Goldilocks → Except Violation (List Goldilocks)
  | 0, _, values => .ok values
  | row + 1, product, values => do
      let product ← multiply row product
      accumulateUp multiply row product (product :: values)

/-- The running product of one side under one challenge, a value per row. -/
def runningProduct (trace : Trace) (columns : List Column) (filter : Option Column)
    (challenge : Challenge Goldilocks) : Except Violation (List Goldilocks) :=
  if trace.isEmpty then
    .error .productWithoutColumns
  else
    accumulateUp (multiplySelected trace columns filter challenge) trace.height 1 []

/-- A committed running product with what is needed to check it again. -/
structure RunningProduct where
  /-- The value at every row. -/
  values : Array Goldilocks
  challenge : Challenge Goldilocks
  columns : List Column
  filter : Option Column
deriving DecidableEq

/-- Every side with every challenge: by lookup, then challenge, then side. -/
def schedule {α : Type} (lookups : List Lookup) (challenges : List α) : List (Side × α) :=
  lookups.flatMap fun lookup =>
    challenges.flatMap fun challenge =>
      lookup.sides.map fun side => (side, challenge)

/-- Collect values by table, in their order. -/
def groupByTable {α : Type} (entries : List (Table × α)) : PerTable (List α) :=
  .ofFn fun table => (entries.filter fun entry => entry.1 = table).map Prod.snd

/-- The running product of a side, with the table it belongs to. -/
def sideProduct (traces : PerTable Trace) (entry : Side × Challenge Goldilocks) :
    Except Violation (Table × RunningProduct) := do
  let (side, challenge) := entry
  let values ← runningProduct (traces.get side.table) side.columns side.filter challenge
  return (side.table, ⟨values.toArray, challenge, side.columns, side.filter⟩)

/-- Every running product of the lookups, by table. -/
def lookupProducts (traces : PerTable Trace) (lookups : List Lookup)
    (challenges : ChallengeSet Goldilocks) :
    Except Violation (PerTable (List RunningProduct)) := do
  let products ← (schedule lookups challenges).mapM (sideProduct traces)
  return groupByTable products

end CrossLookup
