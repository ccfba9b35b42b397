import CrossLookup.Opening.Distribution
import CrossLookup.Verification.Identities

/-!
# The prover

The prover observes every trace cell, draws the challenges, builds the running
products of all lookups and opens each table at a row of its domain.
-/

namespace CrossLookup

/-- Observe every cell of the traces, column by column, and draw challenges. -/
def deriveChallenges (traces : PerTable Trace) (count : Nat) : ChallengeSet Goldilocks :=
  let observed := traces.entries.foldl (fun t entry =>
    entry.2.columns.foldl (fun t column => t.observeAll column.toList) t) Transcript.fresh
  (observed.drawChallenges count).1

/-- A stand-in for a column of a table's own lookup argument. -/
def fillerColumn (index height : Nat) : Array Goldilocks :=
  (Array.range height).map fun row => .ofWord (.ofNat (1000 * (index + 1) + row))

/-- The auxiliary columns of a table: the reserved ones, then its running products. -/
def auxiliaryTrace (trace : Trace) (products : List RunningProduct) (reserved : Nat) : Trace :=
  if trace.isEmpty then
    .empty
  else
    ⟨(Array.range reserved).map (fillerColumn · trace.height) ++
      (products.map RunningProduct.values).toArray⟩

/-- Everything a prover pass produces. -/
structure ProverRun where
  challenges : ChallengeSet Goldilocks
  products : PerTable (List RunningProduct)
  auxiliary : PerTable Trace
  reserved : PerTable Nat
  openings : PerTable (Openings Cubic Goldilocks)
  extraProducts : PerTable (List Goldilocks)
deriving DecidableEq

/-- The first rows of the running products that a run opened. -/
def ProverRun.firstRows (run : ProverRun) : PerTable (List Goldilocks) :=
  run.openings.map Openings.firstProducts

/-- A prover pass over traces under given challenges; tables without columns are left out. -/
def proveUnder (traces : PerTable Trace) (lookups : List Lookup)
    (challenges : ChallengeSet Goldilocks) (extraRows : ExtraRows)
    (reserved openingRow : Nat) : Except Violation ProverRun := do
  let products ← lookupProducts traces lookups challenges
  let reservedOf := traces.map fun trace => if trace.isEmpty then 0 else reserved
  let auxiliary := PerTable.ofFn fun table =>
    auxiliaryTrace (traces.get table) (products.get table) reserved
  let openings := PerTable.ofFn fun table =>
    let trace := traces.get table
    if trace.isEmpty then
      .empty
    else
      .atRow trace (auxiliary.get table) (openingRow % trace.height) reserved
  return {
    challenges
    products
    auxiliary
    reserved := reservedOf
    openings
    extraProducts := extraProducts extraRows challenges }

/-- A prover pass under as many challenges from the transcript as are asked for. -/
def prove (traces : PerTable Trace) (lookups : List Lookup) (challengeCount : Nat)
    (extraRows : ExtraRows) (reserved openingRow : Nat) : Except Violation ProverRun :=
  proveUnder traces lookups (deriveChallenges traces challengeCount) extraRows reserved
    openingRow

end CrossLookup
