import CrossLookup.Column
import CrossLookup.Proofs.Field.Residue
import Mathlib.Algebra.BigOperators.Group.List.Basic

/-!
# Columns as affine combinations

The value of a column on a row of a trace is its constant plus its terms over
the row and over the row after it, which reads as zero past the last row.
-/

namespace CrossLookup

/-- The value in a column on the row after a row; past the last row zero. -/
def Trace.cellAfter (trace : Trace) (column row : Nat) : Goldilocks :=
  if row + 1 < trace.height then trace.cell column (row + 1) else 0

namespace Column

/-- The sum of terms over the values of a row. -/
def termSum (terms : List Term) (value : Nat → Goldilocks) : Goldilocks :=
  (terms.map fun term => term.2 * value term.1).sum

/-- The affine combination over the values of a row and of its successor. -/
def affineValue (column : Column) (current next : Nat → Goldilocks) : Goldilocks :=
  column.constant + termSum column.terms current + termSum column.nextTerms next

theorem termSum_zero (terms : List Term) : termSum terms (fun _ => 0) = 0 := by
  apply List.sum_eq_zero
  rw [List.forall_mem_map]
  exact fun term _ => mul_zero term.2

theorem foldl_terms (value : Nat → Goldilocks) (terms : List Term) (start : Goldilocks) :
    terms.foldl (fun acc term => acc + value term.1 * term.2) start =
      start + termSum terms value := by
  unfold termSum
  induction terms generalizing start with
  | nil => exact (add_zero start).symm
  | cons term rest ih =>
      rw [List.foldl_cons, ih, List.map_cons, List.sum_cons]
      ring

theorem addTerms_eq (row : Array Goldilocks) (terms : List Term) (start : Goldilocks) :
    addTerms row terms start = start + termSum terms (row.getD · 0) :=
  foldl_terms (row.getD · 0) terms start

theorem addTraceTerms_eq (trace : Trace) (row : Nat) (terms : List Term) (start : Goldilocks) :
    addTraceTerms trace row terms start = start + termSum terms (trace.cell · row) :=
  foldl_terms (trace.cell · row) terms start

/-- A column evaluates on a row of a trace to its affine combination there. -/
theorem evalTrace_eq_affineValue (column : Column) (trace : Trace) (row : Nat) :
    column.evalTrace trace row =
      column.affineValue (trace.cell · row) (trace.cellAfter · row) := by
  unfold evalTrace affineValue Trace.cellAfter
  by_cases hrow : row + 1 < trace.height
  · by_cases hterms : column.nextTerms = []
    · simp only [hterms, ne_eq, not_true_eq_false, false_and, if_false, addTraceTerms_eq]
      exact (add_zero _).symm
    · simp only [hterms, hrow, ne_eq, not_false_eq_true, and_self, if_true, addTraceTerms_eq]
  · simp only [hrow, and_false, if_false, addTraceTerms_eq, termSum_zero, add_zero]

end Column

end CrossLookup
