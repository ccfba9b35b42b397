import CrossLookup.Field.Algebra
import CrossLookup.Trace

/-!
# Columns of a lookup

An affine combination of trace columns at a row and at the row after it. It
serves as a payload element of a lookup and as a filter. The factories refuse
empty combinations and repeated columns.
-/

namespace CrossLookup

/-- A trace column with its coefficient. -/
abbrev Term := Nat × Goldilocks

/-- An affine combination of a row and its successor. -/
structure Column where
  /-- The terms that read the row. -/
  terms : List Term
  /-- The terms that read the row after it. -/
  nextTerms : List Term
  constant : Goldilocks
  /-- No row is read twice at one column. -/
  distinct : (terms.map Prod.fst).Nodup ∧ (nextTerms.map Prod.fst).Nodup
deriving DecidableEq

namespace Column

/-- One column of the row. -/
def single (c : Nat) : Column :=
  ⟨[(c, 1)], [], 0, by simp⟩

/-- One column of the next row. -/
def singleNextRow (c : Nat) : Column :=
  ⟨[], [(c, 1)], 0, by simp⟩

/-- One column of the row for each index. -/
def singles (cs : List Nat) : List Column :=
  cs.map single

/-- One column of the next row for each index. -/
def singlesNextRow (cs : List Nat) : List Column :=
  cs.map singleNextRow

/-- The same value on every row. -/
def ofConstant (a : Goldilocks) : Column :=
  ⟨[], [], a, by simp⟩

/-- Zero on every row. -/
def zero : Column := ofConstant 0

/-- One on every row. -/
def one : Column := ofConstant 1

/-- A combination of columns of the row plus a constant. -/
def combination (terms : List Term) (constant : Goldilocks) : Except Violation Column :=
  if terms = [] then
    .error .noTerms
  else if h : (terms.map Prod.fst).Nodup then
    .ok ⟨terms, [], constant, h, by simp⟩
  else
    .error .repeatedColumn

/-- A combination of columns of the row and the next row plus a constant. -/
def twoRowCombination (terms nextTerms : List Term) (constant : Goldilocks) :
    Except Violation Column :=
  if terms = [] ∧ nextTerms = [] then
    .error .noTermsInEitherRow
  else if h : (terms.map Prod.fst).Nodup then
    if h' : (nextTerms.map Prod.fst).Nodup then
      .ok ⟨terms, nextTerms, constant, h, h'⟩
    else
      .error .repeatedNextColumn
  else
    .error .repeatedColumn

/-- The columns weighted by successive powers of a base. -/
def weighted (cs : List Nat) (base : Goldilocks) : Except Violation Column :=
  combination (cs.zip (base.powers cs.length)) 0

/-- Bits put together, the lowest first. -/
def leBits (cs : List Nat) : Except Violation Column :=
  weighted cs (.ofWord 2)

/-- Bytes put together, the lowest first. -/
def leBytes (cs : List Nat) : Except Violation Column :=
  weighted cs (.ofWord 256)

/-- The sum of columns. -/
def sum (cs : List Nat) : Except Violation Column :=
  weighted cs 1

variable {V : Type} [BaseAlgebra V]

/-- Add every term, read from a row of values. -/
def addTerms (row : Array V) (terms : List Term) (start : V) : V :=
  terms.foldl (fun acc term => acc + BaseAlgebra.scale (row.getD term.1 0) term.2) start

/-- The value on a row, next-row terms left out. -/
def eval (column : Column) (row : Array V) : V :=
  addTerms row column.terms (BaseAlgebra.ofBase column.constant)

/-- The value on a row and its successor. -/
def evalWithNext (column : Column) (row next : Array V) : V :=
  addTerms next column.nextTerms (column.eval row)

/-- Add every term, read from a row of a trace. -/
def addTraceTerms (trace : Trace) (row : Nat) (terms : List Term) (start : Goldilocks) :
    Goldilocks :=
  terms.foldl (fun acc term => acc + trace.cell term.1 row * term.2) start

/-- The value on a row of a trace; past the last row every cell reads zero. -/
def evalTrace (column : Column) (trace : Trace) (row : Nat) : Goldilocks :=
  let current := addTraceTerms trace row column.terms column.constant
  if column.nextTerms ≠ [] ∧ row + 1 < trace.height then
    addTraceTerms trace (row + 1) column.nextTerms current
  else
    current

end Column

end CrossLookup
