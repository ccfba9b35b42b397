import CrossLookup.Proofs.Field.Residue
import Mathlib.Algebra.Polynomial.Roots
import Mathlib.Data.List.GetD

/-!
# Rows as polynomials

A row compressed by a base element is the value of its polynomial there. A row
is determined by its compressed values at as many points as it is long.
-/

namespace CrossLookup

open Polynomial

/-- A row read as the coefficients of a polynomial, the lowest first. -/
noncomputable def rowPolynomial (row : List Goldilocks) : Goldilocks[X] :=
  row.foldr (fun term acc => acc * X + C term) 0

theorem rowPolynomial_nil : rowPolynomial [] = 0 := rfl

theorem rowPolynomial_cons (term : Goldilocks) (rest : List Goldilocks) :
    rowPolynomial (term :: rest) = rowPolynomial rest * X + C term :=
  rfl

theorem coeff_rowPolynomial (row : List Goldilocks) (i : Nat) :
    (rowPolynomial row).coeff i = row.getD i 0 := by
  induction row generalizing i with
  | nil => rfl
  | cons term rest ih =>
      rw [rowPolynomial, List.foldr_cons, coeff_add]
      cases i with
      | zero => rw [coeff_mul_X_zero, coeff_C_zero, zero_add, List.getD_cons_zero]
      | succ i => rw [coeff_mul_X, coeff_C_succ, add_zero, List.getD_cons_succ, ← ih i]; rfl

theorem natDegree_rowPolynomial_le {row : List Goldilocks} {width : Nat}
    (h : row.length = width) : (rowPolynomial row).natDegree ≤ width - 1 := by
  apply natDegree_le_iff_coeff_eq_zero.mpr
  intro i hi
  rw [coeff_rowPolynomial, List.getD_eq_default _ _ (by omega)]

theorem rowPolynomial_injective {row row' : List Goldilocks} (hlength : row.length = row'.length)
    (h : rowPolynomial row = rowPolynomial row') : row = row' := by
  apply List.ext_getElem hlength
  intro i hi hi'
  have hcoeff := congrArg (coeff · i) h
  simp only [coeff_rowPolynomial] at hcoeff
  rwa [List.getD_eq_getElem _ _ hi, List.getD_eq_getElem _ _ hi'] at hcoeff

/-- The value to which `beta` compresses a row. -/
def compressed (beta : Goldilocks) (row : List Goldilocks) : Goldilocks :=
  row.foldr (fun term acc => acc * beta + term) 0

theorem eval_rowPolynomial (beta : Goldilocks) (row : List Goldilocks) :
    (rowPolynomial row).eval beta = compressed beta row := by
  induction row with
  | nil => exact eval_zero
  | cons term rest ih =>
      rw [rowPolynomial, List.foldr_cons, eval_add, eval_mul, eval_X, eval_C]
      exact congrArg (· * beta + term) ih

/-- A nonzero polynomial has no more roots in the field than its degree. -/
theorem card_roots_le {p : Goldilocks[X]} (hp : p ≠ 0) {degree : Nat}
    (hdegree : p.natDegree ≤ degree) :
    (Finset.univ.filter fun a => p.eval a = 0).card ≤ degree := by
  have hroots : (Finset.univ.filter fun a => p.eval a = 0) ⊆ p.roots.toFinset := by
    intro a ha
    rw [Multiset.mem_toFinset, mem_roots hp]
    exact (Finset.mem_filter.mp ha).2
  calc
    (Finset.univ.filter fun a => p.eval a = 0).card ≤ p.roots.toFinset.card :=
      Finset.card_le_card hroots
    _ ≤ p.roots.card := Multiset.toFinset_card_le _
    _ ≤ p.natDegree := card_roots' p
    _ ≤ degree := hdegree

/-- Different rows of one width are compressed to one value at fewer points than the width. -/
theorem card_compressed_eq_le {row row' : List Goldilocks} {width : Nat}
    (hrow : row.length = width) (hrow' : row'.length = width) (hne : row ≠ row') :
    (Finset.univ.filter fun beta => compressed beta row = compressed beta row').card ≤
      width - 1 := by
  have hdiff : rowPolynomial row - rowPolynomial row' ≠ 0 := by
    intro h
    exact hne (rowPolynomial_injective (hrow.trans hrow'.symm) (sub_eq_zero.mp h))
  have hdegree : (rowPolynomial row - rowPolynomial row').natDegree ≤ width - 1 :=
    (natDegree_sub_le _ _).trans (max_le (natDegree_rowPolynomial_le hrow)
      (natDegree_rowPolynomial_le hrow'))
  have hcard := card_roots_le hdiff hdegree
  simpa only [eval_sub, eval_rowPolynomial, sub_eq_zero] using hcard

/-- A row that is compressed to zero at as many points as it is long is zero throughout. -/
theorem eq_zero_of_compressed_eq_zero {row : List Goldilocks} {points : Finset Goldilocks}
    (hzero : ∀ beta ∈ points, compressed beta row = 0) (hcard : row.length ≤ points.card) :
    ∀ term ∈ row, term = 0 := by
  intro term hterm
  have hdegree : (rowPolynomial row).natDegree < points.card := by
    have hpos := List.length_pos_of_mem hterm
    have hle : (rowPolynomial row).natDegree ≤ row.length - 1 := natDegree_rowPolynomial_le rfl
    omega
  have hpolynomial : rowPolynomial row = 0 := by
    apply eq_zero_of_natDegree_lt_card_of_eval_eq_zero' _ points _ hdegree
    intro beta hbeta
    rw [eval_rowPolynomial]
    exact hzero beta hbeta
  obtain ⟨i, hi, rfl⟩ := List.getElem_of_mem hterm
  rw [← List.getD_eq_getElem row 0 hi, ← coeff_rowPolynomial, hpolynomial, coeff_zero]

end CrossLookup
