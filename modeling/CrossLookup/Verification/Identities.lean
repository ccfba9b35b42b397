import CrossLookup.Challenge.Basic
import CrossLookup.Lookup
import CrossLookup.Opening.Queues

/-!
# Grand-product identities

For each lookup and each challenge the first rows of the looking products,
times the product of rows fed in from outside, must equal the first row of the
looked product. `forEachIdentity` hands the parts of every identity to a
visitor; the native verifier compares them.
-/

namespace CrossLookup

/-- A reason to reject a lookup argument. -/
inductive VerifyError
  /-- A table has fewer first rows than the lookups ask for. -/
  | exhausted (table : Table)
  /-- A table has first rows that no lookup takes. -/
  | leftOver (table : Table) (count : Nat)
  /-- A looked table lacks the outside product of a challenge. -/
  | missingExtra (table : Table) (challenge : Nat)
  /-- The two products of a lookup differ. -/
  | rejected (lookup : Nat)
deriving DecidableEq, Repr

/-- The wording of a rejection. -/
def VerifyError.message : VerifyError → String
  | .exhausted table =>
      "Cross-table lookup openings of " ++ table.name ++ " exhausted"
  | .leftOver table count =>
      "Cross-table lookup openings of " ++ table.name ++ ": " ++ toString count ++
        " left unconsumed"
  | .missingExtra table challenge =>
      "Missing extra looking product for " ++ table.name ++ ", challenge " ++ toString challenge
  | .rejected lookup =>
      "Cross-table lookup " ++ toString lookup ++ " verification failed."

section Visit

variable {α : Type} {m : Type → Type} [Monad m] [MonadExceptOf VerifyError m]

/-- Take the next first row of a table. -/
def takeFirst (queues : PerTable (List α)) (table : Table) : m (α × PerTable (List α)) :=
  match queues.pop? table with
  | some result => pure result
  | none => throw (.exhausted table)

/-- Take the next first rows of tables in order. -/
def takeFirsts (queues : PerTable (List α)) : List Table → m (List α × PerTable (List α))
  | [] => pure ([], queues)
  | table :: rest => do
      let (a, queues) ← takeFirst queues table
      let (others, queues) ← takeFirsts queues rest
      pure (a :: others, queues)

/-- The outside product of a table under a challenge. -/
def extraProduct (extras : PerTable (List α)) (table : Table) (challenge : Nat) : m α :=
  match (extras.get table)[challenge]? with
  | some a => pure a
  | none => throw (.missingExtra table challenge)

variable (visit : Nat → List α → α → α → m Unit)

/-- Visit the identity of a lookup under one challenge. -/
def visitIdentity (index : Nat) (lookup : Lookup) (extras : PerTable (List α))
    (challenge : Nat) (queues : PerTable (List α)) : m (PerTable (List α)) := do
  let (looking, queues) ← takeFirsts queues (lookup.looking.map Side.table)
  let extra ← extraProduct extras lookup.looked.table challenge
  let (looked, queues) ← takeFirst queues lookup.looked.table
  visit index looking extra looked
  pure queues

/-- Visit the identities of a lookup under `count` challenges from one on. -/
def visitChallenges (index : Nat) (lookup : Lookup) (extras : PerTable (List α))
    (challenge : Nat) : Nat → PerTable (List α) → m (PerTable (List α))
  | 0, queues => pure queues
  | count + 1, queues => do
      let queues ← visitIdentity visit index lookup extras challenge queues
      visitChallenges index lookup extras (challenge + 1) count queues

/-- Visit the identities of lookups numbered from one on. -/
def visitLookups (extras : PerTable (List α)) (challenges : Nat) :
    Nat → List Lookup → PerTable (List α) → m (PerTable (List α))
  | _, [], queues => pure queues
  | index, lookup :: rest, queues => do
      let queues ← visitChallenges visit index lookup extras 0 challenges queues
      visitLookups extras challenges (index + 1) rest queues

/-- Visit every identity in order, then require that no first row is left. -/
def forEachIdentity (lookups : List Lookup) (firstRows extras : PerTable (List α))
    (challenges : Nat) : m Unit := do
  let queues ← visitLookups visit extras challenges 0 lookups firstRows
  match queues.leftOver? with
  | some (table, count) => throw (.leftOver table count)
  | none => pure ()

end Visit

/-- Compare the two products of an identity. -/
def compareProducts (index : Nat) (looking : List Goldilocks) (extra looked : Goldilocks) :
    Except VerifyError Unit :=
  if looking.foldl (· * ·) 1 * extra = looked then
    .ok ()
  else
    .error (.rejected index)

/-- Verify every lookup from the first rows of the running products. -/
def verifyLookups (lookups : List Lookup) (firstRows extras : PerTable (List Goldilocks))
    (challenges : Nat) : Except VerifyError Unit :=
  forEachIdentity compareProducts lookups firstRows extras challenges

/-- Outside products of tables into which nothing is fed. -/
def defaultExtraProducts (challenges : Nat) : PerTable (List Goldilocks) :=
  .const (List.replicate challenges 1)

/-- The product of combined rows under each challenge. -/
def rowProducts (rows : List (List Goldilocks)) (challenges : ChallengeSet Goldilocks) :
    List Goldilocks :=
  challenges.map fun challenge =>
    rows.foldl (fun product row => product * challenge.combine row) 1

/-- Rows fed into the lookups on each table from outside the traces. -/
abbrev ExtraRows := PerTable (List (List Goldilocks))

/-- The outside products of every table. -/
def extraProducts (extraRows : ExtraRows) (challenges : ChallengeSet Goldilocks) :
    PerTable (List Goldilocks) :=
  extraRows.map fun rows => rowProducts rows challenges

end CrossLookup
