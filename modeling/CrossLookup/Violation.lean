/-!
# Contract violations

The ways in which a caller can break the contract of columns, lookups, traces
and their checks. A violation ends the whole computation.
-/

namespace CrossLookup

/-- A broken contract. -/
inductive Violation
  /-- A linear combination has no term. -/
  | noTerms
  /-- A combination over two rows has no term in either. -/
  | noTermsInEitherRow
  /-- A linear combination names a column twice. -/
  | repeatedColumn
  /-- The next-row part of a combination names a column twice. -/
  | repeatedNextColumn
  /-- A looking side is not as wide as the looked side. -/
  | payloadWidth
  /-- A running product is asked of a table without columns. -/
  | productWithoutColumns
  /-- A filter is neither zero nor one. -/
  | nonBinaryFilter
  /-- Constraints are checked on a table without columns. -/
  | checkWithoutColumns
  /-- A trace is built from no rows. -/
  | noRows
  /-- The rows of a trace differ in width. -/
  | raggedRows
  /-- A CPU row does not have one value per CPU column. -/
  | cpuRowWidth
deriving DecidableEq, Repr

/-- The wording of a violation. -/
def Violation.message : Violation → String
  | .noTerms => "linear combination needs at least one term"
  | .noTermsInEitherRow => "linear combination needs at least one current or next row term"
  | .repeatedColumn => "repeated column in linear combination"
  | .repeatedNextColumn => "repeated column in next row linear combination"
  | .payloadWidth => "looking and looked tables must have the same payload width"
  | .productWithoutColumns => "cannot build a Z polynomial over a table without columns"
  | .nonBinaryFilter => "Non-binary filter?"
  | .checkWithoutColumns => "cannot check CTL constraints of a table without columns"
  | .noRows => "trace needs at least one row"
  | .raggedRows => "ragged trace rows"
  | .cpuRowWidth => "CPU row has the wrong number of columns"

end CrossLookup
