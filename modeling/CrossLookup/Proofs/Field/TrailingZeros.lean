import CrossLookup.Proofs.Field.Polynomial
import Mathlib.Data.List.DropRight

/-!
# Rows up to trailing zeros

The zeros at the end of a row add nothing to its polynomial. Rows that agree
without these zeros agree in every coefficient, and every element compresses
them to one value.
-/

namespace CrossLookup

/-- A row without the zeros at its end. -/
def trimmed (row : List Goldilocks) : List Goldilocks :=
  row.rdropWhile (· = 0)

theorem trimmed_append_zero (row : List Goldilocks) : trimmed (row ++ [0]) = trimmed row :=
  List.rdropWhile_concat_pos _ _ _ (decide_eq_true rfl)

theorem trimmed_append_singleton {a : Goldilocks} (h : a ≠ 0) (row : List Goldilocks) :
    trimmed (row ++ [a]) = row ++ [a] :=
  List.rdropWhile_concat_neg _ _ _ (by simpa using h)

theorem trimmed_append_replicate (row : List Goldilocks) (n : Nat) :
    trimmed (row ++ List.replicate n 0) = trimmed row := by
  induction n with
  | zero => rw [List.replicate_zero, List.append_nil]
  | succ n ih => rw [List.replicate_succ', ← List.append_assoc, trimmed_append_zero, ih]

/-- A row is what is left of it with its trailing zeros put back. -/
theorem exists_eq_trimmed_append (row : List Goldilocks) :
    ∃ n, row = trimmed row ++ List.replicate n 0 := by
  induction row using List.reverseRecOn with
  | nil => exact ⟨0, rfl⟩
  | append_singleton row a ih =>
      by_cases h : a = 0
      · obtain ⟨n, hn⟩ := ih
        refine ⟨n + 1, ?_⟩
        rw [h, trimmed_append_zero, List.replicate_succ', ← List.append_assoc, ← hn]
      · exact ⟨0, by rw [trimmed_append_singleton h, List.replicate_zero, List.append_nil]⟩

theorem getD_append_replicate (row : List Goldilocks) (n i : Nat) :
    (row ++ List.replicate n 0).getD i 0 = row.getD i 0 := by
  rcases Nat.lt_or_ge i row.length with h | h
  · exact List.getD_append _ _ _ _ h
  · rw [List.getD_append_right _ _ _ _ h, List.getD_eq_default _ _ h, List.getD_eq_getElem?_getD,
      List.getElem?_getD_replicate_default_eq]

theorem getD_trimmed (row : List Goldilocks) (i : Nat) :
    (trimmed row).getD i 0 = row.getD i 0 := by
  obtain ⟨n, hn⟩ := exists_eq_trimmed_append row
  calc
    (trimmed row).getD i 0 = (trimmed row ++ List.replicate n 0).getD i 0 :=
      (getD_append_replicate _ n i).symm
    _ = row.getD i 0 := by rw [← hn]

section Agree

variable {row row' : List Goldilocks}

/-- The longer of two rows with the same coefficients is the shorter one followed by zeros. -/
theorem eq_append_of_getD (hlength : row.length ≤ row'.length)
    (h : ∀ i, row.getD i 0 = row'.getD i 0) :
    row' = row ++ List.replicate (row'.length - row.length) 0 := by
  apply List.ext_getElem
  · rw [List.length_append, List.length_replicate, Nat.add_sub_cancel' hlength]
  · intro i hi hi'
    rw [← List.getD_eq_getElem _ 0 hi, ← List.getD_eq_getElem _ 0 hi', getD_append_replicate, h]

/-- Rows that agree in every coefficient differ by zeros at the end of one of them. -/
theorem exists_append_of_getD (h : ∀ i, row.getD i 0 = row'.getD i 0) :
    ∃ n, row = row' ++ List.replicate n 0 ∨ row' = row ++ List.replicate n 0 := by
  rcases Nat.le_total row.length row'.length with hlength | hlength
  · exact ⟨_, Or.inr (eq_append_of_getD hlength h)⟩
  · exact ⟨_, Or.inl (eq_append_of_getD hlength fun i => (h i).symm)⟩

theorem trimmed_eq_iff_append :
    trimmed row = trimmed row' ↔
      ∃ n, row = row' ++ List.replicate n 0 ∨ row' = row ++ List.replicate n 0 := by
  constructor
  · intro h
    apply exists_append_of_getD
    intro i
    rw [← getD_trimmed row, h, getD_trimmed]
  · rintro ⟨n, rfl | rfl⟩
    · exact trimmed_append_replicate row' n
    · exact (trimmed_append_replicate row n).symm

theorem trimmed_eq_iff_getD :
    trimmed row = trimmed row' ↔ ∀ i, row.getD i 0 = row'.getD i 0 := by
  constructor
  · intro h i
    rw [← getD_trimmed row, h, getD_trimmed]
  · intro h
    exact trimmed_eq_iff_append.mpr (exists_append_of_getD h)

end Agree

theorem rowPolynomial_trimmed (row : List Goldilocks) :
    rowPolynomial (trimmed row) = rowPolynomial row := by
  apply Polynomial.ext
  intro i
  rw [coeff_rowPolynomial, coeff_rowPolynomial, getD_trimmed]

/-- Trailing zeros do not change the value to which a row is compressed. -/
theorem compressed_trimmed (beta : Goldilocks) (row : List Goldilocks) :
    compressed beta (trimmed row) = compressed beta row := by
  rw [← eval_rowPolynomial, rowPolynomial_trimmed, eval_rowPolynomial]

theorem trimmed_rightpad (width : Nat) (row : List Goldilocks) :
    trimmed (row.rightpad width 0) = trimmed row :=
  trimmed_append_replicate row _

end CrossLookup
