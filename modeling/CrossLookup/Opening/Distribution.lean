import CrossLookup.Constraint.Lookup
import CrossLookup.Opening.Basic
import CrossLookup.Opening.Queues
import CrossLookup.Product.Running

/-!
# Distribution of openings

The auxiliary openings of every table, past its reserved columns, are dealt to
the lookup sides in the order in which the running products were committed: by
lookup, then challenge, then side.
-/

namespace CrossLookup

/-- A reason why openings do not fit the lookups. -/
inductive DistributionError
  /-- The openings at the point and at its successor differ in number. -/
  | uneven (table : Table)
  /-- There are fewer openings than reserved columns. -/
  | reservedTooMany (table : Table)
  /-- A lookup side finds no opening left. -/
  | exhausted (table : Table)
  /-- Openings are left that no lookup side takes. -/
  | leftOver (table : Table) (count : Nat)
deriving DecidableEq, Repr

/-- The wording of a misfit. -/
def DistributionError.message : DistributionError → String
  | .uneven table =>
      "CTL openings of " ++ table.name ++ ": auxiliary and auxiliary-next counts differ"
  | .reservedTooMany table =>
      "CTL openings of " ++ table.name ++ ": fewer auxiliary openings than reserved lookup columns"
  | .exhausted table =>
      "CTL openings of " ++ table.name ++ " exhausted"
  | .leftOver table count =>
      "CTL openings of " ++ table.name ++ ": " ++ toString count ++ " left unconsumed"

variable {V B α : Type}

/-- The opening pairs of a table past its reserved columns. -/
def Openings.productPairs (openings : Openings V B) (table : Table) (reserved : Nat) :
    Except DistributionError (List (V × V)) :=
  if openings.auxiliary.length ≠ openings.auxiliaryNext.length then
    .error (.uneven table)
  else if reserved > openings.auxiliary.length then
    .error (.reservedTooMany table)
  else
    .ok ((openings.auxiliary.zip openings.auxiliaryNext).drop reserved)

/-- The running product of a side at an opening pair. -/
def Side.opened (side : Side) (challenge : Challenge α) (pair : V × V) : OpenedProduct V α :=
  ⟨pair.1, pair.2, challenge, side.columns, side.filter⟩

/-- Deal opening pairs to sides in order, each from the queue of its table. -/
def deal (queues : PerTable (List (V × V))) : List (Side × Challenge α) →
    Except DistributionError (List (Table × OpenedProduct V α) × PerTable (List (V × V)))
  | [] => .ok ([], queues)
  | (side, challenge) :: rest =>
      match queues.pop? side.table with
      | none => .error (.exhausted side.table)
      | some (pair, queues) => do
          let (opened, queues) ← deal queues rest
          return ((side.table, side.opened challenge pair) :: opened, queues)

/-- Distribute the openings of all tables over the lookups. -/
def distribute (openings : PerTable (Openings V B)) (lookups : List Lookup)
    (challenges : ChallengeSet α) (reserved : PerTable Nat) :
    Except DistributionError (PerTable (List (OpenedProduct V α))) := do
  let pairs ← Table.all.mapM fun table =>
    (openings.get table).productPairs table (reserved.get table)
  let (opened, queues) ← deal ⟨pairs⟩ (schedule lookups challenges)
  match queues.leftOver? with
  | some (table, count) => throw (.leftOver table count)
  | none => return groupByTable opened

/-- Deal the opening pairs of one table to its sides in order. -/
def dealOne (table : Table) : List (V × V) → List (Side × Challenge α) →
    Except DistributionError (List (OpenedProduct V α))
  | [], [] => .ok []
  | pairs, [] => .error (.leftOver table pairs.length)
  | [], _ :: _ => .error (.exhausted table)
  | pair :: pairs, (side, challenge) :: rest => do
      let opened ← dealOne table pairs rest
      return side.opened challenge pair :: opened

/-- Distribute the openings of one table over its sides of the lookups. -/
def distributeOne (table : Table) (openings : Openings V B) (lookups : List Lookup)
    (challenges : ChallengeSet α) (reserved : Nat) :
    Except DistributionError (List (OpenedProduct V α)) := do
  let pairs ← openings.productPairs table reserved
  dealOne table pairs ((schedule lookups challenges).filter fun entry => entry.1.table = table)

end CrossLookup
