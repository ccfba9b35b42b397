import CrossLookup.Constraint.Accumulator
import CrossLookup.Proofs.Field.Cubic
import CrossLookup.Proofs.Field.Horner

/-!
# Folded constraints as weighted sums

Every combination is folded on its own. Under its `alpha` the residual of a
constraint counts by the factor of the rows that the constraint concerns and by
the power of `alpha` for the number of residuals after it.
-/

namespace CrossLookup

/-- The factor of the residuals of constraints on some rows; one on every row. -/
def Selectors.factor {V : Type} [One V] (selectors : Selectors V) : ConstraintRows → V
  | .every => 1
  | .transition => selectors.zLast
  | .first => selectors.first
  | .last => selectors.last

namespace Accumulator

section Fold

variable {V : Type} [BaseAlgebra V]

/-- Each combination is folded under its own `alpha`, whatever it starts from. -/
theorem foldl_fold_map (alphas : List Goldilocks) (selectors : Selectors V) (f : Goldilocks → V)
    (residuals : List V) :
    residuals.foldl fold ⟨alphas, alphas.map f, selectors⟩ =
      ⟨alphas, alphas.map fun alpha =>
        residuals.foldl (fun value residual => BaseAlgebra.scale value alpha + residual) (f alpha),
        selectors⟩ := by
  induction residuals generalizing f with
  | nil => rfl
  | cons residual rest ih =>
      rw [List.foldl_cons, fold, List.zipWith_map_left, List.zipWith_self]
      exact ih _

/-- Fold in residuals of constraints in order. -/
def emitAll (acc : Accumulator V) (residuals : List (ConstraintRows × V)) : Accumulator V :=
  residuals.foldl (fun acc residual => acc.emit residual.1 residual.2) acc

end Fold

theorem emit_eq_fold (acc : Accumulator Cubic) (rows : ConstraintRows) (residual : Cubic) :
    acc.emit rows residual = acc.fold (residual * acc.selectors.factor rows) := by
  cases rows with
  | every => exact congrArg acc.fold (mul_one residual).symm
  | transition => rfl
  | first => rfl
  | last => rfl

theorem emitAll_eq_foldl (acc : Accumulator Cubic) (residuals : List (ConstraintRows × Cubic)) :
    acc.emitAll residuals =
      (residuals.map fun residual => residual.2 * acc.selectors.factor residual.1).foldl fold
        acc := by
  unfold emitAll
  induction residuals generalizing acc with
  | nil => rfl
  | cons residual rest ih =>
      rw [List.foldl_cons, ih, emit_eq_fold, List.map_cons, List.foldl_cons]
      rfl

/-- A combination is the sum of the residuals, each times its factor and a power of `alpha`. -/
theorem values_emitAll (alphas : List Goldilocks) (selectors : Selectors Cubic)
    (residuals : List (ConstraintRows × Cubic)) :
    ((start alphas selectors).emitAll residuals).values = alphas.map fun alpha =>
      ∑ j : Fin residuals.length, selectors.factor (residuals.get j).1 * (residuals.get j).2 *
        Cubic.ofBase alpha ^ (residuals.length - 1 - j) := by
  have hscale : ∀ (value : Cubic) (alpha : Goldilocks), BaseAlgebra.scale value alpha =
      value * Cubic.ofBase alpha := Cubic.scale_eq_mul
  rw [emitAll_eq_foldl, start, foldl_fold_map]
  apply List.map_congr_left
  intro alpha _
  simp only [hscale, List.foldl_map]
  refine (foldl_horner (Cubic.ofBase alpha) 0
    (fun residual : ConstraintRows × Cubic => residual.2 * selectors.factor residual.1)
    residuals).trans ?_
  rw [zero_mul, zero_add]
  exact Finset.sum_congr rfl fun j _ => congrArg (· * _) (mul_comm _ _)

end Accumulator

end CrossLookup
