import CrossLookup.Proofs.Column
import CrossLookup.Proofs.Field.Horner
import CrossLookup.Proofs.Field.Polynomial
import CrossLookup.Proofs.SelectedRows
import Mathlib.Algebra.BigOperators.Fin
import Mathlib.Order.Interval.Finset.Nat

/-!
# Running products as suffix products

A running product exists exactly when its filter is binary. Its value on a row
is then the product, over all selected rows from there on, of the payload
weighted by the powers of `beta` and shifted by `gamma`.
-/

namespace CrossLookup

section Filter

variable {filter : Option Column} {trace : Trace}

/-- A row is selected when the filter, if there is one, is one there. -/
theorem filterValue_eq_one_iff {row : Nat} :
    filterValue filter trace row = 1 ↔ ∀ column ∈ filter, column.evalTrace trace row = 1 := by
  cases filter with
  | none =>
      constructor
      · exact fun _ column hcolumn => absurd hcolumn (Option.not_mem_none column)
      · exact fun _ => rfl
  | some column =>
      constructor
      · intro h _ hcolumn
        exact Option.mem_some_iff.mp hcolumn ▸ h
      · exact fun h => h column rfl

theorem binaryFilter_iff : BinaryFilter filter trace ↔ ∀ column ∈ filter, ∀ row < trace.height,
    column.evalTrace trace row = 0 ∨ column.evalTrace trace row = 1 := by
  cases filter with
  | none =>
      constructor
      · exact fun _ column hcolumn => absurd hcolumn (Option.not_mem_none column)
      · exact fun _ _ _ => Or.inr rfl
  | some column =>
      constructor
      · intro h _ hcolumn
        exact Option.mem_some_iff.mp hcolumn ▸ h
      · exact fun h => h column rfl

end Filter

section Failure

variable {trace : Trace} {columns : List Column} {filter : Option Column}
  {challenge : Challenge Goldilocks}

/-- A row is refused for its filter only. -/
theorem not_binary_of_multiplySelected {row : Nat} {product : Goldilocks} {e : Violation}
    (h : multiplySelected trace columns filter challenge row product = .error e) :
    e = .nonBinaryFilter ∧
      ¬(filterValue filter trace row = 0 ∨ filterValue filter trace row = 1) := by
  have hbinary : ¬(filterValue filter trace row = 0 ∨ filterValue filter trace row = 1) := by
    intro hbinary
    rw [multiplySelected_eq columns challenge hbinary] at h
    cases h
  refine ⟨?_, hbinary⟩
  obtain ⟨hzero, hone⟩ := not_or.mp hbinary
  simp only [multiplySelected, Goldilocks.isOne_iff, Goldilocks.isZero_iff, hzero, hone,
    if_false] at h
  exact (Except.error.inj h).symm

/-- Accumulation fails only with the error of one of its rows. -/
theorem exists_error_of_accumulateUp {multiply : Nat → Goldilocks → Except Violation Goldilocks}
    {n : Nat} {product : Goldilocks} {values : List Goldilocks} {e : Violation}
    (h : accumulateUp multiply n product values = .error e) :
    ∃ row < n, ∃ before, multiply row before = .error e := by
  induction n generalizing product values with
  | zero => cases h
  | succ n ih =>
      rcases Except.bind_eq_error_iff.mp h with hlast | ⟨next, _, hrest⟩
      · exact ⟨n, n.lt_succ_self, product, hlast⟩
      · obtain ⟨row, hrow, before, he⟩ := ih hrest
        exact ⟨row, hrow.trans n.lt_succ_self, before, he⟩

theorem not_binary_of_runningProduct (hcolumns : trace.isEmpty = false) {e : Violation}
    (h : runningProduct trace columns filter challenge = .error e) :
    e = .nonBinaryFilter ∧ ¬BinaryFilter filter trace := by
  rw [runningProduct, if_neg (Bool.eq_false_iff.mp hcolumns)] at h
  obtain ⟨row, hrow, before, hfailed⟩ := exists_error_of_accumulateUp h
  obtain ⟨he, hvalue⟩ := not_binary_of_multiplySelected hfailed
  exact ⟨he, fun hbinary => hvalue (hbinary row hrow)⟩

/-- Over a trace with columns the only way to fail is a filter that is not binary. -/
theorem runningProduct_eq_error_iff (hcolumns : trace.isEmpty = false) :
    runningProduct trace columns filter challenge = .error .nonBinaryFilter ↔
      ¬BinaryFilter filter trace := by
  constructor
  · intro h
    exact (not_binary_of_runningProduct hcolumns h).2
  · intro hbinary
    cases h : runningProduct trace columns filter challenge with
    | ok values => exact absurd (binary_of_runningProduct h).2 hbinary
    | error e => rw [(not_binary_of_runningProduct hcolumns h).1]

end Failure

section Values

variable {trace : Trace} {filter : Option Column} (columns : List Column)
  (challenge : Challenge Goldilocks)

/-- Horner's rule weights the terms by the powers of the base. -/
theorem compressed_map {α : Type} (beta : Goldilocks) (f : α → Goldilocks) (as : List α) :
    compressed beta (as.map f) = ∑ i : Fin as.length, beta ^ (i : Nat) * f as[i] := by
  unfold compressed
  rw [List.foldr_map]
  exact foldr_horner beta f as

/-- The payload of a row weighted by the powers of `beta` and shifted by `gamma`. -/
def weightedPayload (trace : Trace) (columns : List Column) (challenge : Challenge Goldilocks)
    (row : Nat) : Goldilocks :=
  ∑ j : Fin columns.length, challenge.beta ^ (j : Nat) *
    columns[j].affineValue (trace.cell · row) (trace.cellAfter · row) + challenge.gamma

theorem combine_payload (trace : Trace) (row : Nat) :
    challenge.combine (payload columns trace row) =
      weightedPayload trace columns challenge row := by
  have hcombine : challenge.combine (payload columns trace row) =
      compressed challenge.beta (payload columns trace row) + challenge.gamma := rfl
  rw [hcombine, payload, compressed_map, weightedPayload]
  simp only [Column.evalTrace_eq_affineValue]

/-- The factors of a range of rows are the weighted payloads of its selected rows. -/
theorem prod_rowFactor_range' (start n : Nat) :
    ((List.range' start (n - start)).map (rowFactor trace columns filter challenge)).prod =
      ∏ row ∈ Finset.Ico start n with ∀ column ∈ filter, column.evalTrace trace row = 1,
        weightedPayload trace columns challenge row := by
  have hfactor : ∀ row, rowFactor trace columns filter challenge row =
      if ∀ column ∈ filter, column.evalTrace trace row = 1 then
        weightedPayload trace columns challenge row
      else
        1 := by
    intro row
    simp only [rowFactor, selects, Goldilocks.isOne_iff, filterValue_eq_one_iff, combine_payload]
  rw [Finset.prod_filter, ← Finset.prod_congr rfl fun row _ => hfactor row]
  rfl

end Values

/-- A running product fails exactly when the filter is neither zero nor one on some row, and
otherwise holds on every row the product, over the selected rows from there on, of the payload
weighted by the powers of `beta` plus `gamma`. -/
theorem runningProduct_suffixProducts {trace : Trace} (hcolumns : trace.isEmpty = false)
    (columns : List Column) (filter : Option Column) (challenge : Challenge Goldilocks) :
    (runningProduct trace columns filter challenge = .error .nonBinaryFilter ↔
      ∃ column ∈ filter, ∃ row < trace.height,
        column.evalTrace trace row ≠ 0 ∧ column.evalTrace trace row ≠ 1) ∧
    ((∀ column ∈ filter, ∀ row < trace.height,
        column.evalTrace trace row = 0 ∨ column.evalTrace trace row = 1) →
      ∃ values, runningProduct trace columns filter challenge = .ok values ∧
        values.length = trace.height ∧
        ∀ start < trace.height, values[start]? =
          some (∏ row ∈ Finset.Ico start trace.height with
              ∀ column ∈ filter, column.evalTrace trace row = 1,
            (∑ j : Fin columns.length, challenge.beta ^ (j : Nat) *
                columns[j].affineValue (trace.cell · row) (trace.cellAfter · row) +
              challenge.gamma))) := by
  constructor
  · rw [runningProduct_eq_error_iff hcolumns, binaryFilter_iff]
    push Not
    rfl
  · intro hbinary
    refine ⟨_, runningProduct_eq_factors columns challenge hcolumns (binaryFilter_iff.mpr hbinary),
      ?_, ?_⟩
    · rw [List.length_map, List.length_range]
    · intro start hstart
      rw [List.getElem?_map, List.getElem?_range hstart, Option.map_some, prod_rowFactor_range']
      rfl

/-- Five rows, of which each is selected whose successor has a one in the second column. -/
def markedTrace : Trace :=
  .ofColumns [[3, 4, 5, 6, 7], [0, 1, 0, 1, 1]]

/-- From the third row on the third and the fourth are selected, each read with its successor;
the first column is no filter. -/
theorem runningProduct_suffixProducts_marked :
    markedTrace.isEmpty = false ∧
    runningProduct markedTrace [.single 0] (some (.single 0)) ⟨.ofWord 2, .ofWord 3⟩ =
      .error .nonBinaryFilter ∧
    (∀ column ∈ some (Column.singleNextRow 1), ∀ row < markedTrace.height,
      column.evalTrace markedTrace row = 0 ∨ column.evalTrace markedTrace row = 1) ∧
    ∃ values, runningProduct markedTrace [.single 0, .singleNextRow 0] (some (.singleNextRow 1))
        ⟨.ofWord 2, .ofWord 3⟩ = .ok values ∧
      values.length = 5 ∧
      values[2]? = some (.ofWord ((5 + 2 * 6 + 3) * (6 + 2 * 7 + 3))) := by
  have hcolumns : markedTrace.isEmpty = false := rfl
  have hbinary : ∀ column ∈ some (Column.singleNextRow 1), ∀ row < markedTrace.height,
      column.evalTrace markedTrace row = 0 ∨ column.evalTrace markedTrace row = 1 := by
    decide +kernel
  refine ⟨hcolumns, ?_, hbinary, ?_⟩
  · rw [(runningProduct_suffixProducts hcolumns _ _ _).1]
    exact ⟨.single 0, rfl, 2, by decide, by decide +kernel⟩
  · obtain ⟨values, hvalues, hlength, hproducts⟩ :=
      (runningProduct_suffixProducts hcolumns [.single 0, .singleNextRow 0]
        (some (.singleNextRow 1)) ⟨.ofWord 2, .ofWord 3⟩).2 hbinary
    refine ⟨values, hvalues, hlength, ?_⟩
    rw [hproducts 2 (by decide)]
    decide +kernel

end CrossLookup
