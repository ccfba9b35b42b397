import CrossLookup.Proofs.Circuit.Verification
import CrossLookup.Proofs.Constraint.Openings
import CrossLookup.Proofs.MemoryBus.Consistency

/-!
# Samples of the memory bus are provable

A sample passes every check from its constraints to the verifier circuit, under
any number of challenges, any reserved columns, any opening row and any alphas.
-/

namespace CrossLookup

namespace MemoryBus

/-- A run over a sample passes the checks of its products, its openings and its identities. -/
structure RunPasses (sample : Sample) (run : ProverRun) (challenges openingRow : Nat)
    (alphas : List Goldilocks) : Prop where
  /-- The constraints of the products hold on every row. -/
  unbroken : ∀ table ∈ [Table.cpu, .memory],
    (sample.traces.get table).firstBroken (run.products.get table) alphas = .ok none
  /-- The openings are distributed, and the constraints hold there. -/
  opened : ∃ opened, distribute run.openings [memoryLookup] run.challenges run.reserved =
      .ok opened ∧
    ∀ table ∈ [Table.cpu, .memory],
      (checkLookups ⟨(run.openings.get table).current, (run.openings.get table).next⟩
        (opened.get table) (.start alphas (.ofRow
          (openingRow % (sample.traces.get table).height)
          (sample.traces.get table).height))).allZero = true
  verified : verifyLookups [memoryLookup] run.firstRows run.extraProducts challenges = .ok ()
  /-- The verifier circuit is built, and the openings satisfy it. -/
  satisfied :
    (posedVerifier [memoryLookup] run.firstRows run.extraProducts challenges).result = .ok () ∧
      ∃ w, (posedVerifier [memoryLookup] run.firstRows run.extraProducts challenges).assigned =
          .ok w ∧
        (posedVerifier [memoryLookup] run.firstRows run.extraProducts challenges).circuit.isSatisfied
          w = true

/-- A sample keeps its constraints, agrees under its lookup, and is proved. -/
structure Sample.Passes (sample : Sample) (challenges reserved openingRow : Nat)
    (alphas : List Goldilocks) : Prop where
  /-- On every CPU row the constraints of the memory bus fold to zero. -/
  constrained : ∀ r < (sample.traces.get .cpu).height, ∃ row,
    CpuRow.ofRow ((sample.traces.get .cpu).row r) = .ok row ∧
      ∀ selectors, (constrain row (.start alphas selectors)).allZero = true
  consistent : checkConsistency sample.traces [memoryLookup] sample.outsideRows = .ok ()
  proved : ∃ run,
    prove sample.traces [memoryLookup] challenges sample.outsideRows reserved openingRow =
        .ok run ∧
      RunPasses sample run challenges openingRow alphas

namespace SampleRows

variable (rows : SampleRows)

theorem height_cpu : (rows.sample.traces.get .cpu).height = rows.cpu.length := by
  rw [get_cpu, Trace.height_transposed (by decide), List.length_map]

theorem constrained (alphas : List Goldilocks) :
    ∀ r < (rows.sample.traces.get .cpu).height, ∃ row,
      CpuRow.ofRow ((rows.sample.traces.get .cpu).row r) = .ok row ∧
        ∀ selectors, (constrain row (.start alphas selectors)).allZero = true := by
  rw [get_cpu]
  exact constrained_transposed rows.cpu_keeps alphas

theorem get_other {table : Table} (hcpu : table ≠ .cpu) (hmemory : table ≠ .memory) :
    rows.sample.traces.get table = .empty := by
  rw [SampleRows.sample, PerTable.get_set, if_neg hmemory.symm, PerTable.get_set,
    if_neg hcpu.symm, PerTable.get_const]

theorem height_cpu_pos : 0 < (rows.sample.traces.get .cpu).height := by
  rw [height_cpu]
  exact List.length_pos_iff.mpr rows.cpu_ne_nil

theorem height_memory_pos : 0 < (rows.sample.traces.get .memory).height := by
  rw [get_memory, Trace.height_transposed (by decide)]
  exact List.length_pos_iff.mpr (List.append_ne_nil_of_right_ne_nil _ rows.padding_ne_nil)

/-- The tables that take part have rows, and all others are empty. -/
theorem height_pos (table : Table) (hnonempty : (rows.sample.traces.get table).isEmpty = false) :
    0 < (rows.sample.traces.get table).height := by
  by_cases hcpu : table = .cpu
  · exact hcpu ▸ rows.height_cpu_pos
  · by_cases hmemory : table = .memory
    · exact hmemory ▸ rows.height_memory_pos
    · rw [rows.get_other hcpu hmemory] at hnonempty
      cases hnonempty

theorem rectangular : ∀ table ∈ [Table.cpu, .memory],
    (rows.sample.traces.get table).Rectangular := by
  rw [List.forall_mem_cons, List.forall_mem_singleton, get_cpu, get_memory]
  exact ⟨Trace.rectangular_transposed (by decide), Trace.rectangular_transposed (by decide)⟩

theorem participants : ∀ table ∈ [Table.cpu, .memory],
    0 < (rows.sample.traces.get table).height := by
  rw [List.forall_mem_cons, List.forall_mem_singleton]
  exact ⟨rows.height_cpu_pos, rows.height_memory_pos⟩

/-- No side of the memory lookup reads the next row. -/
theorem not_readsNextRow :
    ∀ side ∈ memoryLookup.sides, ¬ReadsNextRow side.columns side.filter := by
  decide

variable {challenges : ChallengeSet Goldilocks} {reserved openingRow : Nat} {run : ProverRun}

/-- The committed products hold their constraints on every row. -/
theorem unbroken {products : PerTable (List RunningProduct)}
    (hproducts : lookupProducts rows.sample.traces [memoryLookup] challenges = .ok products)
    (alphas : List Goldilocks) : ∀ table ∈ [Table.cpu, .memory],
      (rows.sample.traces.get table).firstBroken (products.get table) alphas = .ok none := by
  intro table htable
  have hlast : ∀ lookup ∈ [memoryLookup], ∀ side ∈ lookup.sides, side.table = table →
      LastRowRule (rows.sample.traces.get table) side.columns side.filter := by
    rw [List.forall_mem_singleton]
    exact fun side hside _ hreads => absurd hreads (not_readsNextRow side hside)
  have hhonest := honest_of_mem_products hproducts hlast
  apply firstBroken_of_runningProduct (rows.participants table htable)
  · exact fun product h => (hhonest product h).1
  · exact fun product h => (hhonest product h).2

/-- Where the products are opened, their constraints hold at the openings. -/
theorem opened (hrun : proveUnder rows.sample.traces [memoryLookup] challenges
      rows.sample.outsideRows reserved openingRow = .ok run) (alphas : List Goldilocks) :
    ∃ opened, distribute run.openings [memoryLookup] run.challenges run.reserved = .ok opened ∧
      ∀ table ∈ [Table.cpu, .memory],
        (checkLookups ⟨(run.openings.get table).current, (run.openings.get table).next⟩
          (opened.get table) (.start alphas (.ofRow
            (openingRow % (rows.sample.traces.get table).height)
            (rows.sample.traces.get table).height))).allZero = true := by
  obtain ⟨hproducts, _⟩ := lookupProducts_of_proveUnder hrun
  obtain ⟨opened, hopened, hvalues⟩ := distribute_of_proveUnder hrun
  refine ⟨opened, hopened, fun table htable => ?_⟩
  have hheight := rows.participants table htable
  have hnonempty := Trace.isEmpty_of_height_pos hheight
  have hholds := (firstBroken_eq_none_iff hnonempty).mp
    (rows.unbroken hproducts alphas table htable) _ (Nat.mod_lt openingRow hheight)
  rw [hvalues, checkLookups_of_proveUnder hrun (rows.rectangular table htable),
    allZero_map_ofBase]
  exact hholds

/-- A sample of rows passes every check. -/
theorem passes (challenges reserved openingRow : Nat) (alphas : List Goldilocks) :
    rows.sample.Passes challenges reserved openingRow alphas where
  constrained := rows.constrained alphas
  consistent := checkConsistency_eq_ok_iff.mpr
    (List.forall_mem_singleton.mpr rows.consistent)
  proved := by
    obtain ⟨run, hrun, hverify⟩ := proveUnder_accepted rows.height_pos
      (List.forall_mem_singleton.mpr rows.consistent)
      (deriveChallenges rows.sample.traces challenges) reserved openingRow
    rw [length_deriveChallenges] at hverify
    refine ⟨run, hrun, ?_⟩
    constructor
    case unbroken => exact rows.unbroken (lookupProducts_of_proveUnder hrun).1 alphas
    case opened => exact rows.opened hrun alphas
    case verified => exact hverify
    case satisfied => exact verifyLookups_eq_ok_iff_satisfied.mp hverify

end SampleRows

end MemoryBus

end CrossLookup
