import CrossLookup.Proofs.Prover

/-!
# Completeness

Traces that pass the direct check are proved without an error, and the verifier
accepts the first rows that the prover opened, under any challenges.
-/

namespace CrossLookup

/-- Every run over consistent traces is completed and accepted. -/
theorem proveUnder_accepted {traces : PerTable Trace} {lookups : List Lookup}
    {extraRows : ExtraRows}
    (hheight : ∀ table, (traces.get table).isEmpty = false → 0 < (traces.get table).height)
    (hconsistent : ∀ lookup ∈ lookups, lookup.Consistent traces extraRows)
    (challenges : ChallengeSet Goldilocks) (reserved openingRow : Nat) :
    ∃ run, proveUnder traces lookups challenges extraRows reserved openingRow = .ok run ∧
      verifyLookups lookups run.firstRows run.extraProducts challenges.length = .ok () := by
  have hselectable : ∀ lookup ∈ lookups, ∀ side ∈ lookup.sides, side.Selectable traces :=
    fun lookup hlookup => (hconsistent lookup hlookup).selectable
  have hrows : ∀ lookup ∈ lookups, ∀ side ∈ lookup.sides,
      0 < (traces.get side.table).height :=
    fun lookup hlookup side hside =>
      hheight side.table (hselectable lookup hlookup side hside).nonempty
  obtain ⟨run, hrun, hfirst, hextra⟩ := proveUnder_of_lookupProducts
    (lookupProducts_of_selectable challenges hselectable) extraRows reserved openingRow
  refine ⟨run, hrun, ?_⟩
  rw [hfirst, hextra, firstValues_running challenges hrows]
  apply verifyLookups_honest_iff.mpr
  intro lookup hlookup challenge _
  exact challenge.product_perm (hconsistent lookup hlookup).perm

/-- Traces that pass the direct check are proved and accepted, whatever the challenges. -/
theorem prove_accepted_of_checkConsistency (traces : PerTable Trace) (lookups : List Lookup)
    (extraRows : ExtraRows)
    (hheight : ∀ table, (traces.get table).isEmpty = false → 0 < (traces.get table).height)
    (hcheck : checkConsistency traces lookups extraRows = .ok ())
    (reserved openingRow : Nat) :
    (∀ challengeCount, ∃ run,
      prove traces lookups challengeCount extraRows reserved openingRow = .ok run ∧
        verifyLookups lookups run.firstRows run.extraProducts challengeCount = .ok ()) ∧
    ∀ challenges : ChallengeSet Goldilocks, ∃ run,
      proveUnder traces lookups challenges extraRows reserved openingRow = .ok run ∧
        verifyLookups lookups run.firstRows run.extraProducts challenges.length = .ok () := by
  have haccepted := proveUnder_accepted hheight (checkConsistency_eq_ok_iff.mp hcheck)
  constructor
  · intro challengeCount
    obtain ⟨run, hrun, hverify⟩ :=
      haccepted (deriveChallenges traces challengeCount) reserved openingRow
    rw [length_deriveChallenges] at hverify
    exact ⟨run, hrun, hverify⟩
  · intro challenges
    exact haccepted challenges reserved openingRow

theorem sample_heights (table : Table) :
    (sampleTraces.get table).isEmpty = false → 0 < (sampleTraces.get table).height := by
  cases table <;> decide

/-- Two CPU rows are looked up in two memory rows with one row fed in. -/
theorem prove_accepted_sample :
    (∀ table, (sampleTraces.get table).isEmpty = false → 0 < (sampleTraces.get table).height) ∧
    checkConsistency sampleTraces [sampleLookup] sampleExtraRows = .ok () ∧
    ∃ run, prove sampleTraces [sampleLookup] 2 sampleExtraRows 1 3 = .ok run ∧
      verifyLookups [sampleLookup] run.firstRows run.extraProducts 2 = .ok () :=
  ⟨sample_heights, sample_consistent,
    (prove_accepted_of_checkConsistency sampleTraces [sampleLookup] sampleExtraRows
      sample_heights sample_consistent 1 3).1 2⟩

end CrossLookup
