import CrossLookup.Field.Algebra

/-!
# Folding of constraints

Constraint residuals are folded into one random combination for each `alpha`:
every residual updates `acc` to `acc * alpha + residual`. A selector scales the
residuals that concern only some of the rows.
-/

namespace CrossLookup

/-- The rows that a constraint concerns. -/
inductive ConstraintRows
  | every
  | transition
  | first
  | last
deriving DecidableEq, Repr

/-- The factors of constraints that do not concern every row. -/
structure Selectors (V : Type) where
  /-- Vanishes on the last row. -/
  zLast : V
  /-- Vanishes except on the first row. -/
  first : V
  /-- Vanishes except on the last row. -/
  last : V
deriving DecidableEq

/-- The random combinations of the residuals so far. -/
structure Accumulator (V : Type) where
  alphas : List Goldilocks
  values : List V
  selectors : Selectors V
deriving DecidableEq

/-- One on a condition and zero otherwise. -/
def indicator (b : Bool) : Goldilocks :=
  if b then 1 else 0

variable {V : Type} [BaseAlgebra V]

namespace Selectors

/-- The selectors of a row that may be the first or the last. -/
def ofFlags (isFirst isLast : Bool) : Selectors V where
  zLast := BaseAlgebra.ofBase (indicator !isLast)
  first := BaseAlgebra.ofBase (indicator isFirst)
  last := BaseAlgebra.ofBase (indicator isLast)

/-- The selectors of a row of a trace of `n` rows. -/
def ofRow (row n : Nat) : Selectors V :=
  ofFlags (row == 0) (row + 1 == n)

/-- The selectors of a row counted in words; the row after the greatest word is row zero. -/
def ofWords (row n : UInt64) : Selectors V :=
  ofFlags (row == 0) (row + 1 == n)

theorem ofWords_eq_ofRow (row n : UInt64) (h : row.toNat + 1 < UInt64.size) :
    (ofWords row n : Selectors V) = ofRow row.toNat n.toNat := by
  have hfirst : (row == 0) = (row.toNat == 0) := by
    rw [Bool.eq_iff_iff, beq_iff_eq, beq_iff_eq, ← UInt64.toNat_inj]
    rfl
  have hnext : (row + 1).toNat = row.toNat + 1 := by
    rw [UInt64.toNat_add]
    exact Nat.mod_eq_of_lt h
  have hlast : (row + 1 == n) = (row.toNat + 1 == n.toNat) := by
    rw [Bool.eq_iff_iff, beq_iff_eq, beq_iff_eq, ← UInt64.toNat_inj, hnext]
  rw [ofWords, ofRow, hfirst, hlast]

end Selectors

namespace Accumulator

/-- Nothing folded yet. -/
def start (alphas : List Goldilocks) (selectors : Selectors V) : Accumulator V :=
  ⟨alphas, alphas.map fun _ => 0, selectors⟩

/-- Fold a residual in. -/
def fold (acc : Accumulator V) (residual : V) : Accumulator V :=
  { acc with
    values := List.zipWith (fun value alpha => BaseAlgebra.scale value alpha + residual)
      acc.values acc.alphas }

/-- Fold in the residual of a constraint on some rows. -/
def emit (acc : Accumulator V) (rows : ConstraintRows) (residual : V) : Accumulator V :=
  match rows with
  | .every => acc.fold residual
  | .transition => acc.fold (residual * acc.selectors.zLast)
  | .first => acc.fold (residual * acc.selectors.first)
  | .last => acc.fold (residual * acc.selectors.last)

/-- Whether every combination is zero. -/
def allZero (acc : Accumulator V) : Bool :=
  acc.values.all BaseAlgebra.isZero

end Accumulator

end CrossLookup
