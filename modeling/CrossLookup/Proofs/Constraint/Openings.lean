import CrossLookup.Proofs.Constraint.RunningProduct
import CrossLookup.Proofs.Field.Cubic
import CrossLookup.Proofs.Layout

/-!
# Constraints at the openings

The openings of a table at a row of its domain are the values of the row in the
extension, and evaluation commutes with the embedding. Constraints therefore
fold at the openings to the embedding of what they fold to on the row.
-/

namespace CrossLookup

theorem Cubic.isMorphism_ofBase : IsMorphism Cubic.ofBase where
  zero := rfl
  one := rfl
  add := map_add embedding
  sub := map_sub embedding
  mul := map_mul embedding
  ofBase _ := rfl
  scale a s := (map_mul embedding a s).trans (scale_eq_mul (ofBase a) s).symm
  addBase a s := (map_add embedding a s).trans (addBase_eq_add (ofBase a) s).symm

variable {trace : Trace}

/-- The opened trace columns are the row and its successor, embedded. -/
theorem frame_atRow (hrectangular : trace.Rectangular) (auxiliary : Trace) (row reserved : Nat) :
    (⟨(Openings.atRow trace auxiliary row reserved).current,
        (Openings.atRow trace auxiliary row reserved).next⟩ : Frame Cubic) =
      (trace.frame row).map Cubic.ofBase := by
  have hcurrent : Openings.embedRow trace row = (trace.row row).map Cubic.ofBase := by
    rw [Openings.embedRow, Trace.row, Array.map_map]
    rfl
  have hnext : Openings.embedNextRow trace row =
      (trace.row (trace.cyclicNext row)).map Cubic.ofBase := by
    rw [Openings.embedNextRow, Trace.row, Array.map_map]
    apply Array.map_congr_left
    intro column hcolumn
    rw [hrectangular column hcolumn]
    rfl
  rw [Openings.atRow, hcurrent, hnext]
  rfl

theorem map_openAt (product : RunningProduct) (trace : Trace) (row : Nat) :
    (product.openAt trace row).map Cubic.ofBase id = product.embedAt trace row :=
  rfl

theorem map_ofRow (row n : Nat) :
    (Selectors.ofRow row n : Selectors Goldilocks).map Cubic.ofBase = .ofRow row n :=
  rfl

theorem isZero_ofBase (a : Goldilocks) : (Cubic.ofBase a).isZero = a.isZero := by
  rw [Cubic.isZero, Cubic.ofBase, Goldilocks.isZero_iff.mpr rfl, Bool.and_true, Bool.and_true]

/-- Embedding the combinations makes none of them vanish and keeps none from vanishing. -/
theorem allZero_map_ofBase (acc : Accumulator Goldilocks) :
    (acc.map Cubic.ofBase).allZero = acc.allZero := by
  rw [Accumulator.allZero, Accumulator.map, List.all_map]
  exact congrArg acc.values.all (funext isZero_ofBase)

/-- At the openings of a row the constraints fold to what they fold to on the row, embedded. -/
theorem checkLookups_atRow (hrectangular : trace.Rectangular) (products : List RunningProduct)
    (alphas : List Goldilocks) (auxiliary : Trace) (row reserved : Nat) :
    checkLookups ⟨(Openings.atRow trace auxiliary row reserved).current,
        (Openings.atRow trace auxiliary row reserved).next⟩
      (products.map fun product => product.embedAt trace row)
      (.start alphas (.ofRow row trace.height)) =
        (trace.foldRow products alphas row).map Cubic.ofBase := by
  have hopened : products.map (fun product => product.embedAt trace row) =
      (products.map fun product => product.openAt trace row).map
        (OpenedProduct.map Cubic.ofBase id) := by
    rw [List.map_map]
    exact List.map_congr_left fun product _ => (map_openAt product trace row).symm
  rw [frame_atRow hrectangular, hopened, Trace.foldRow, Cubic.isMorphism_ofBase.map_checkLookups,
    Cubic.isMorphism_ofBase.map_start, map_ofRow]

section Run

variable {traces : PerTable Trace} {lookups : List Lookup} {extraRows : ExtraRows}
  {reserved openingRow : Nat} {run : ProverRun}

/-- The products of a run, opened where the run opens them, fold to the embedding of what they
fold to on that row; a table without columns has none and opens nothing. -/
theorem checkLookups_of_proveUnder {challenges : ChallengeSet Goldilocks}
    (hrun : proveUnder traces lookups challenges extraRows reserved openingRow = .ok run)
    {table : Table} (hrectangular : (traces.get table).Rectangular) (alphas : List Goldilocks) :
    checkLookups ⟨(run.openings.get table).current, (run.openings.get table).next⟩
      ((run.products.get table).map fun product =>
        product.embedAt (traces.get table) (openingRow % (traces.get table).height))
      (.start alphas (.ofRow (openingRow % (traces.get table).height)
        (traces.get table).height)) =
        ((traces.get table).foldRow (run.products.get table) alphas
          (openingRow % (traces.get table).height)).map Cubic.ofBase := by
  cases hempty : (traces.get table).isEmpty with
  | true =>
      obtain ⟨hproducts, _⟩ := lookupProducts_of_proveUnder hrun
      rw [get_products_of_isEmpty hproducts hempty, ← map_ofRow]
      exact (Cubic.isMorphism_ofBase.map_start alphas _).symm
  | false =>
      rw [(openings_of_nonempty hrun hempty).2]
      exact checkLookups_atRow hrectangular _ alphas _ _ reserved

/-- The openings of a run are distributed, and what the constraints fold to there is, for every
table and all alphas, the embedding of what they fold to on the opened row; so they hold at the
openings exactly when they hold on the row. -/
theorem checkLookups_opened_eq_map_foldRow {challengeCount : Nat}
    (hrun : prove traces lookups challengeCount extraRows reserved openingRow = .ok run) :
    ∃ opened, distribute run.openings lookups run.challenges run.reserved = .ok opened ∧
      ∀ table, (traces.get table).Rectangular → ∀ alphas : List Goldilocks,
        let row := openingRow % (traces.get table).height
        let atOpenings := checkLookups
          ⟨(run.openings.get table).current, (run.openings.get table).next⟩ (opened.get table)
          (.start alphas (.ofRow row (traces.get table).height))
        atOpenings = ((traces.get table).foldRow (run.products.get table) alphas row).map
            Cubic.ofBase ∧
          (atOpenings.allZero = true ↔
            (traces.get table).rowHolds (run.products.get table) alphas row = true) := by
  obtain ⟨opened, hopened, hvalues⟩ := distribute_of_proveUnder hrun
  refine ⟨opened, hopened, ?_⟩
  intro table hrectangular alphas row atOpenings
  have heq : atOpenings =
      ((traces.get table).foldRow (run.products.get table) alphas row).map Cubic.ofBase := by
    simp only [atOpenings, hvalues]
    exact checkLookups_of_proveUnder hrun hrectangular alphas
  refine ⟨heq, ?_⟩
  rw [heq, allZero_map_ofBase]
  exact Iff.rfl

/-- Five CPU rows opened on the last one, whose successor is the first; the side reads both. -/
theorem checkLookups_opened_wrapping :
    (nextRowTraces.get .cpu).Rectangular ∧ 9 % (nextRowTraces.get .cpu).height = 4 ∧
    ∃ run, prove nextRowTraces [nextRowLookup] 2 (.const []) 1 9 = .ok run ∧
      ∃ opened, distribute run.openings [nextRowLookup] run.challenges run.reserved =
          .ok opened ∧
        ∀ alphas, checkLookups
          ⟨(run.openings.get .cpu).current, (run.openings.get .cpu).next⟩ (opened.get .cpu)
          (.start alphas (.ofRow 4 5)) =
            ((nextRowTraces.get .cpu).foldRow (run.products.get .cpu) alphas 4).map
              Cubic.ofBase := by
  have hrectangular : (nextRowTraces.get .cpu).Rectangular := by
    unfold Trace.Rectangular
    decide
  obtain ⟨run, hrun, _⟩ := proveUnder_of_lookupProducts
    (lookupProducts_of_selectable (deriveChallenges nextRowTraces 2) nextRow_selectable)
    (.const []) 1 9
  obtain ⟨opened, hopened, hfolds⟩ := checkLookups_opened_eq_map_foldRow hrun
  exact ⟨hrectangular, rfl, run, hrun, opened, hopened,
    fun alphas => (hfolds .cpu hrectangular alphas).1⟩

end Run

end CrossLookup
