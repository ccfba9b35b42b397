import CrossLookup.Table

/-!
# Queues of openings

Each table hands out its openings one by one, in the order in which the
lookups ask for them, and must have none left at the end.
-/

namespace CrossLookup

namespace PerTable

variable {α : Type}

/-- Take the next value of a table, if it has one. -/
def pop? (queues : PerTable (List α)) (table : Table) : Option (α × PerTable (List α)) :=
  match queues.get table with
  | [] => none
  | a :: rest => some (a, queues.set table rest)

/-- The first table with values left, and their number. -/
def leftOver? (queues : PerTable (List α)) : Option (Table × Nat) :=
  Table.all.toList.findSome? fun table =>
    match queues.get table with
    | [] => none
    | rest => some (table, rest.length)

end PerTable

end CrossLookup
