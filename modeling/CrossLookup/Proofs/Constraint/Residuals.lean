import CrossLookup.Proofs.Constraint.Folding
import CrossLookup.Constraint.Lookup
import CrossLookup.Proofs.Field.Polynomial
import CrossLookup.Proofs.SelectedRows

/-!
# Folded residuals

The residuals of the running products folded for an `alpha` are the row of
residuals compressed by it. Folded for as many different alphas as there are
residuals, they vanish only together.
-/

namespace CrossLookup

/-- The residuals of the constraints of a running product, scaled to the rows they concern. -/
def OpenedProduct.residuals (frame : Frame Goldilocks) (selectors : Selectors Goldilocks)
    (opened : OpenedProduct Goldilocks Goldilocks) : List Goldilocks :=
  [(opened.z - opened.select frame) * selectors.last,
    (opened.nextZ * opened.select frame - opened.z) * selectors.zLast]

/-- The residuals of all running products, in the order they are folded. -/
def lookupResiduals (frame : Frame Goldilocks) (selectors : Selectors Goldilocks)
    (opened : List (OpenedProduct Goldilocks Goldilocks)) : List Goldilocks :=
  opened.flatMap (OpenedProduct.residuals frame selectors)

variable {frame : Frame Goldilocks} {selectors : Selectors Goldilocks}
  {opened : List (OpenedProduct Goldilocks Goldilocks)} {alphas : List Goldilocks}

theorem length_lookupResiduals :
    (lookupResiduals frame selectors opened).length = 2 * opened.length := by
  induction opened with
  | nil => rfl
  | cons product rest ih =>
      rw [lookupResiduals, List.flatMap_cons, List.length_append, ← lookupResiduals, ih]
      simp only [OpenedProduct.residuals, List.length_cons, List.length_nil]
      omega

theorem compressed_of_forall_eq_zero {row : List Goldilocks} (h : ∀ term ∈ row, term = 0)
    (beta : Goldilocks) : compressed beta row = 0 := by
  induction row with
  | nil => rfl
  | cons term rest ih =>
      obtain ⟨hterm, hrest⟩ := List.forall_mem_cons.mp h
      rw [compressed, List.foldr_cons, ← compressed, ih hrest, hterm, zero_mul, zero_add]

variable (alphas selectors) in
/-- Folding residuals one after the other compresses them, the last one lowest. -/
theorem foldl_fold (residuals : List Goldilocks) :
    residuals.foldl Accumulator.fold (.start alphas selectors) =
      ⟨alphas, alphas.map fun alpha => compressed alpha residuals.reverse, selectors⟩ := by
  unfold Accumulator.start compressed
  rw [Accumulator.foldl_fold_map]
  simp only [List.foldr_reverse]
  rfl

section Fold

variable {residuals : List Goldilocks}

/-- Folded residuals vanish exactly under the alphas that compress them to zero. -/
theorem allZero_foldl_fold_iff :
    (residuals.foldl Accumulator.fold (.start alphas selectors)).allZero = true ↔
      ∀ alpha ∈ alphas, compressed alpha residuals.reverse = 0 := by
  rw [foldl_fold, Accumulator.allZero, List.all_eq_true, List.forall_mem_map]
  exact forall₂_congr fun alpha _ => Goldilocks.isZero_iff

/-- Residuals that vanish are folded to zero for every `alpha`. -/
theorem allZero_foldl_fold (h : ∀ residual ∈ residuals, residual = 0) :
    (residuals.foldl Accumulator.fold (.start alphas selectors)).allZero = true := by
  rw [allZero_foldl_fold_iff]
  intro alpha _
  apply compressed_of_forall_eq_zero
  simpa only [List.mem_reverse] using h

/-- Folded for as many different alphas as there are residuals, they vanish only together. -/
theorem eq_zero_of_allZero_foldl_fold (halphas : residuals.length ≤ alphas.toFinset.card)
    (h : (residuals.foldl Accumulator.fold (.start alphas selectors)).allZero = true) :
    ∀ residual ∈ residuals, residual = 0 := by
  rw [allZero_foldl_fold_iff] at h
  have hroots : ∀ alpha ∈ alphas.toFinset, compressed alpha residuals.reverse = 0 :=
    fun alpha halpha => h alpha (List.mem_toFinset.mp halpha)
  have hlength : residuals.reverse.length ≤ alphas.toFinset.card := by
    rw [List.length_reverse]
    exact halphas
  simpa only [List.mem_reverse] using eq_zero_of_compressed_eq_zero hroots hlength

end Fold

theorem checkLookups_eq_foldl (acc : Accumulator Goldilocks) :
    checkLookups frame opened acc =
      (lookupResiduals frame acc.selectors opened).foldl Accumulator.fold acc := by
  unfold checkLookups lookupResiduals
  induction opened generalizing acc with
  | nil => rfl
  | cons product rest ih =>
      rw [List.foldl_cons, ih, List.flatMap_cons, List.foldl_append]
      rfl

/-- The constraints hold under an `alpha` when the residuals are compressed to zero by it. -/
theorem allZero_checkLookups_iff :
    (checkLookups frame opened (.start alphas selectors)).allZero = true ↔
      ∀ alpha ∈ alphas,
        compressed alpha (lookupResiduals frame selectors opened).reverse = 0 := by
  rw [checkLookups_eq_foldl]
  exact allZero_foldl_fold_iff

/-- The constraints hold for every `alpha` when their residuals vanish. -/
theorem allZero_of_lookupResiduals
    (h : ∀ residual ∈ lookupResiduals frame selectors opened, residual = 0) :
    (checkLookups frame opened (.start alphas selectors)).allZero = true := by
  rw [checkLookups_eq_foldl]
  exact allZero_foldl_fold h

/-- Under two alphas for each running product, all residuals vanish if their folds do. -/
theorem lookupResiduals_of_allZero (halphas : 2 * opened.length ≤ alphas.toFinset.card)
    (h : (checkLookups frame opened (.start alphas selectors)).allZero = true) :
    ∀ residual ∈ lookupResiduals frame selectors opened, residual = 0 := by
  rw [checkLookups_eq_foldl] at h
  apply eq_zero_of_allZero_foldl_fold _ h
  rw [Accumulator.start, length_lookupResiduals]
  exact halphas

end CrossLookup
