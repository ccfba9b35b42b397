import CrossLookup.MemoryBus.Constraints
import CrossLookup.Proofs.Constraint.Residuals
import CrossLookup.Proofs.MemoryBus.Layout
import CrossLookup.Proofs.Transposition

/-!
# What the memory bus asks of a CPU row

A CPU row has one residual for its code context and one for the used flag of
each channel. Folded for more different alphas than there are channels, they
vanish exactly on the rows that keep the constraints.
-/

namespace CrossLookup.MemoryBus

/-- A row keeps the constraints of the memory bus. -/
structure CpuRow.Keeps (row : CpuRow Goldilocks) : Prop where
  codeContext_eq : row.codeContext = (1 - row.isKernelMode) * row.context
  used_binary : ∀ channel ∈ row.channels.toList, channel.used = 0 ∨ channel.used = 1

/-- The residuals of the constraints of a row, in the order they are folded. -/
def CpuRow.residuals (row : CpuRow Goldilocks) : List Goldilocks :=
  (row.codeContext - (1 - row.isKernelMode) * row.context) ::
    row.channels.toList.map fun channel => channel.used * (channel.used - 1)

theorem CpuRow.length_residuals (row : CpuRow Goldilocks) :
    row.residuals.length = channelCount + 1 := by
  rw [residuals, List.length_cons, List.length_map, Vector.length_toList]
  rfl

/-- The residuals of a row vanish together exactly when it keeps the constraints. -/
theorem CpuRow.keeps_iff {row : CpuRow Goldilocks} :
    row.Keeps ↔ ∀ residual ∈ row.residuals, residual = 0 := by
  have hused : (∀ channel ∈ row.channels.toList, channel.used * (channel.used - 1) = 0) ↔
      ∀ channel ∈ row.channels.toList, channel.used = 0 ∨ channel.used = 1 :=
    forall₂_congr fun channel _ => by rw [mul_eq_zero, sub_eq_zero]
  rw [residuals, List.forall_mem_cons, List.forall_mem_map, sub_eq_zero, hused]
  exact ⟨fun h => ⟨h.codeContext_eq, h.used_binary⟩, fun h => ⟨h.1, h.2⟩⟩

theorem constrain_eq_foldl (row : CpuRow Goldilocks) (acc : Accumulator Goldilocks) :
    constrain row acc = row.residuals.foldl Accumulator.fold acc := by
  rw [CpuRow.residuals, List.foldl_cons, List.foldl_map]
  rfl

variable {row : CpuRow Goldilocks} {alphas : List Goldilocks} {selectors : Selectors Goldilocks}

/-- On a row that keeps the constraints they fold to zero. -/
theorem allZero_constrain (h : row.Keeps) (alphas : List Goldilocks)
    (selectors : Selectors Goldilocks) :
    (constrain row (.start alphas selectors)).allZero = true := by
  rw [constrain_eq_foldl]
  exact allZero_foldl_fold (CpuRow.keeps_iff.mp h)

/-- Under one more different `alpha` than there are channels, constraints cannot cancel. -/
theorem keeps_of_allZero_constrain (halphas : channelCount + 1 ≤ alphas.toFinset.card)
    (h : (constrain row (.start alphas selectors)).allZero = true) : row.Keeps := by
  rw [constrain_eq_foldl] at h
  rw [← row.length_residuals] at halphas
  exact CpuRow.keeps_iff.mpr (eq_zero_of_allZero_foldl_fold halphas h)

/-- On a table made of rows that keep the constraints they fold to zero on every row. -/
theorem constrained_transposed {rows : List (CpuRow Goldilocks)} (h : ∀ row ∈ rows, row.Keeps)
    (alphas : List Goldilocks) :
    ∀ r < (Trace.transposed (rows.map CpuRow.toList) cpuWidth).height, ∃ row,
      CpuRow.ofRow ((Trace.transposed (rows.map CpuRow.toList) cpuWidth).row r) = .ok row ∧
        ∀ selectors, (constrain row (.start alphas selectors)).allZero = true := by
  rw [Trace.height_transposed (by decide), List.length_map]
  intro r hr
  have hrow : (rows.map CpuRow.toList)[r]? = some rows[r].toList := by
    rw [List.getElem?_map, List.getElem?_eq_getElem hr]
    rfl
  have hwidth : ∀ row ∈ rows.map CpuRow.toList, row.length = cpuWidth :=
    List.forall_mem_map.mpr fun row _ => length_toList row
  refine ⟨rows[r], ?_, allZero_constrain (h _ (List.getElem_mem hr)) alphas⟩
  rw [Trace.row_transposed hwidth hrow, ofRow_toList]

end CrossLookup.MemoryBus
