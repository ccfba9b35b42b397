import CrossLookup.Product.Running
import CrossLookup.Verification.Identities

/-!
# Direct consistency of lookups

A check without randomness: for each lookup the selected rows of all looking
sides, with the rows fed in from outside, are compared as a multiset with the
selected rows of the looked side. The first row that differs in number is
reported with every place where it occurs.
-/

namespace CrossLookup

/-- A payload row with the place it comes from. -/
structure LocatedRow where
  row : List Goldilocks
  table : Table
  index : Nat
deriving DecidableEq

/-- A way in which traces fail their lookups. -/
inductive Inconsistency
  /-- A table that takes part has no columns. -/
  | noColumns (table : Table)
  /-- A filter is neither zero nor one. -/
  | nonBinaryFilter (value : Goldilocks) (table : Table) (row : Nat)
  /-- A row occurs a different number of times on the two sides of a lookup. -/
  | mismatch (lookup : Nat) (row : List Goldilocks) (looking looked : List LocatedRow)
deriving DecidableEq

namespace Inconsistency

/-- The places of rows, one per line. -/
def places (rows : List LocatedRow) : String :=
  String.join (rows.map fun r =>
    "\n    (" ++ r.table.name ++ ", " ++ toString r.index ++ ")")

/-- The wording of an inconsistency. -/
def message : Inconsistency → String
  | noColumns table => "Table " ++ table.name ++ " has no columns"
  | nonBinaryFilter value table row =>
      "Non-binary filter " ++ toString value ++ " in " ++ table.name ++ " row " ++ toString row
  | mismatch lookup row looking looked =>
      "CTL #" ++ toString lookup ++ ":\nRow [" ++ ", ".intercalate (row.map toString) ++
        "] is present " ++ toString looking.length ++ " times in the looking tables:" ++
        places looking ++ "\nbut " ++ toString looked.length ++ " times in the looked table:" ++
        places looked

end Inconsistency

/-- The payload row of a side, if its filter selects it. -/
def selectRow (trace : Trace) (side : Side) (index : Nat) :
    Except Inconsistency (Option LocatedRow) :=
  let f := filterValue side.filter trace index
  if f.isOne then
    .ok (some ⟨payload side.columns trace index, side.table, index⟩)
  else if f.isZero then
    .ok none
  else
    .error (.nonBinaryFilter f side.table index)

/-- The selected payload rows of a side. -/
def selectedRows (traces : PerTable Trace) (side : Side) :
    Except Inconsistency (List LocatedRow) := do
  let trace := traces.get side.table
  if trace.isEmpty then
    .error (.noColumns side.table)
  else
    let rows ← (List.range trace.height).mapM (selectRow trace side)
    return rows.filterMap id

/-- Rows in lexicographic order, a row before its extensions. -/
def rowLe (a b : List Goldilocks) : Bool :=
  !List.lex b a fun x y => decide (x < y)

/-- The distinct payload rows in rising order. -/
def distinctRows (rows : List LocatedRow) : List (List Goldilocks) :=
  ((rows.map LocatedRow.row).mergeSort rowLe).eraseReps

/-- Require a payload row to occur as often on both sides. -/
def compareRow (lookup : Nat) (looking looked : List LocatedRow) (row : List Goldilocks) :
    Except Inconsistency Unit :=
  let inLooking := looking.filter fun r => r.row = row
  let inLooked := looked.filter fun r => r.row = row
  if inLooking.length = inLooked.length then
    .ok ()
  else
    .error (.mismatch lookup row inLooking inLooked)

/-- Check one lookup. -/
def checkLookup (traces : PerTable Trace) (extraRows : ExtraRows) (index : Nat)
    (lookup : Lookup) : Except Inconsistency Unit := do
  let fromTraces ← lookup.looking.mapM (selectedRows traces)
  let looked ← selectedRows traces lookup.looked
  let table := lookup.looked.table
  let fromOutside := (extraRows.get table).zipIdx.map fun entry =>
    (⟨entry.1, table, entry.2⟩ : LocatedRow)
  let looking := fromTraces.flatten ++ fromOutside
  (distinctRows looking).forM (compareRow index looking looked)
  (distinctRows looked).forM (compareRow index looking looked)

/-- Check every lookup in order. -/
def checkConsistency (traces : PerTable Trace) (lookups : List Lookup)
    (extraRows : ExtraRows) : Except Inconsistency Unit :=
  lookups.zipIdx.forM fun entry => checkLookup traces extraRows entry.2 entry.1

end CrossLookup
