import CrossLookup.Demo
import CrossLookup.Proofs.MemoryBus.Provable

/-!
# The demonstration succeeds

Whatever the seed, the steps of the demonstration succeed one after the other on
every machine that grants room for the rows and the challenges.
-/

namespace CrossLookup

open MemoryBus

namespace Demo

/-- A part of a run gives a value, whatever was written before. -/
def Succeeds {α : Type} (part : Run α) (a : α) : Prop :=
  ∀ output, ∃ output', part.run output = (.ok a, output')

section Parts

variable {α β : Type}

theorem succeeds_pure (a : α) : Succeeds (pure a) a :=
  fun output => ⟨output, rfl⟩

theorem succeeds_say (line : String) : Succeeds (say line) () :=
  fun output => ⟨output ++ line ++ "\n", rfl⟩

theorem Succeeds.bind {part : Run α} {a : α} (hpart : Succeeds part a) {next : α → Run β} {b : β}
    (hnext : Succeeds (next a) b) : Succeeds (part >>= next) b := by
  intro output
  obtain ⟨output₁, hrun⟩ := hpart output
  obtain ⟨output₂, hrest⟩ := hnext output₁
  exact ⟨output₂, ExceptT.run_bind_state_eq_ok_iff.mpr ⟨a, output₁, hrun, hrest⟩⟩

/-- Lifting a result writes nothing and succeeds as the result does. -/
theorem run_orFail_eq_ok_iff {ε : Type} {wording : ε → String} {result : Except ε α} {a : α}
    {output output' : String} :
    (orFail wording result).run output = (.ok a, output') ↔ result = .ok a ∧ output = output' := by
  cases result with
  | error e =>
      constructor
      · intro h
        cases h
      · rintro ⟨h, _⟩
        cases h
  | ok b =>
      constructor
      · intro h
        cases h
        exact ⟨rfl, rfl⟩
      · rintro ⟨h, rfl⟩
        cases h
        rfl

/-- A run that lifts a result first goes on only from a value. -/
theorem exists_of_run_orFail_bind {ε : Type} {wording : ε → String} {result : Except ε α}
    {next : α → Run β} {b : β} {output output' : String}
    (h : (orFail wording result >>= next).run output = (.ok b, output')) :
    ∃ a, result = .ok a := by
  obtain ⟨a, _, hlifted, _⟩ := ExceptT.run_bind_state_eq_ok_iff.mp h
  exact ⟨a, (run_orFail_eq_ok_iff.mp hlifted).1⟩

theorem succeeds_orFail {ε : Type} {wording : ε → String} {result : Except ε α} {a : α}
    (h : result = .ok a) : Succeeds (orFail wording result) a :=
  fun output => ⟨output, run_orFail_eq_ok_iff.mpr ⟨h, rfl⟩⟩

theorem succeeds_forM {part : α → Run Unit} {as : List α} (h : ∀ a ∈ as, Succeeds (part a) ()) :
    Succeeds (as.forM part) () := by
  rw [List.forM_eq_forM]
  induction as with
  | nil => exact succeeds_pure ()
  | cons a rest ih =>
      obtain ⟨hfirst, hrest⟩ := List.forall_mem_cons.mp h
      rw [List.forM_cons]
      exact hfirst.bind (ih hrest)

end Parts

section Steps

variable {allocate : Allocator}

theorem succeeds_generateSample {rows : Nat} {seed : UInt64} {sample : Sample}
    (hroom : allocate (rows * rowBytes) = .ok ())
    (hsample : seededSample rows 2 seed = .ok sample) :
    Succeeds (generateSample allocate rows seed) sample :=
  (succeeds_orFail hroom).bind (succeeds_orFail hsample)

/-- A sample is generated only if its CPU rows are granted room. -/
theorem room_of_run_generateSample {rows : Nat} {seed : UInt64} {sample : Sample}
    {output output' : String}
    (h : (generateSample allocate rows seed).run output = (.ok sample, output')) :
    allocate (rows * rowBytes) = .ok () := by
  obtain ⟨_, hroom⟩ := exists_of_run_orFail_bind h
  exact hroom

theorem succeeds_proveSample {sample : Sample} {lookups : List Lookup} {challenges : Nat}
    {run : ProverRun} (hroom : allocate (challenges * challengeBytes) = .ok ())
    (hprove : prove sample.traces lookups challenges sample.outsideRows 1 0 = .ok run) :
    Succeeds (proveSample allocate sample lookups challenges) run :=
  (succeeds_orFail hroom).bind (succeeds_orFail hprove)

/-- A sample is proved only if the challenges are granted room. -/
theorem room_of_run_proveSample {sample : Sample} {lookups : List Lookup} {challenges : Nat}
    {run : ProverRun} {output output' : String}
    (h : (proveSample allocate sample lookups challenges).run output = (.ok run, output')) :
    allocate (challenges * challengeBytes) = .ok () := by
  obtain ⟨_, hroom⟩ := exists_of_run_orFail_bind h
  exact hroom

theorem succeeds_requireBusConstraints (trace : Trace)
    (h : ∀ r < trace.height, ∃ row, CpuRow.ofRow (trace.row r) = .ok row ∧
      ∀ selectors, (constrain row (.start [.ofWord 7] selectors)).allZero = true) :
    Succeeds (requireBusConstraints trace) () := by
  apply succeeds_forM
  intro r hr
  obtain ⟨row, hrow, hzero⟩ := h r (List.mem_range.mp hr)
  simp only [hrow, hzero, if_true]
  exact succeeds_pure ()

theorem succeeds_requireRowConstraints {traces : PerTable Trace} {run : ProverRun} {table : Table}
    (h : (traces.get table).firstBroken (run.products.get table) alphas = .ok none) :
    Succeeds (requireRowConstraints traces run table) () := by
  rw [requireRowConstraints, h]
  exact succeeds_pure ()

theorem succeeds_requireOpenedConstraints {traces : PerTable Trace} {run : ProverRun}
    {opened : PerTable (List (OpenedProduct Cubic Goldilocks))} {table : Table}
    (h : (checkLookups ⟨(run.openings.get table).current, (run.openings.get table).next⟩
      (opened.get table) (.start alphas (.ofRow 0 (traces.get table).height))).allZero = true) :
    Succeeds (requireOpenedConstraints traces run opened table) () := by
  rw [requireOpenedConstraints, if_pos h]
  exact succeeds_pure ()

theorem succeeds_verifierCircuit {lookups : List Lookup}
    {firstRows extras : PerTable (List Goldilocks)} {challenges : Nat}
    (h : (posedVerifier lookups firstRows extras challenges).result = .ok () ∧
      ∃ w, (posedVerifier lookups firstRows extras challenges).assigned = .ok w ∧
        (posedVerifier lookups firstRows extras challenges).circuit.isSatisfied w = true) :
    ∃ gates, Succeeds (verifierCircuit lookups firstRows extras challenges) gates := by
  obtain ⟨hresult, w, hassigned, hsatisfied⟩ := h
  refine ⟨(posedVerifier lookups firstRows extras challenges).circuit.gates.size, ?_⟩
  refine (succeeds_orFail hresult).bind ((succeeds_orFail hassigned).bind ?_)
  rw [if_pos hsatisfied]
  exact succeeds_pure _

end Steps

section Whole

/-- The sample of a seed consists of rows. -/
theorem seededSample_rows {cpuRows : Nat} (hrows : 0 < cpuRows) (extraRows : Nat)
    (seed : UInt64) :
    ∃ rows : SampleRows, seededSample cpuRows extraRows seed = .ok rows.sample := by
  obtain ⟨rows, _, _, hdraw⟩ := drawSample_rows MersenneTwister.source
    MersenneTwister.source_permutes hrows extraRows (.ofSeed seed)
  rw [StateT.run] at hdraw
  exact ⟨rows, hdraw⟩

variable {allocate : Allocator} (options : Options) (config : Config) (threads : Int32)

/-- A refusal of room for the rows or the challenges stops a run. -/
theorem room_of_run_steps {output output' : String}
    (h : (steps allocate options config threads).run output = (.ok (), output')) :
    allocate (options.rows.toNat * rowBytes) = .ok () ∧
      allocate (config.challenges.toNat * challengeBytes) = .ok () := by
  unfold steps at h
  -- The third part generates the sample and the seventh proves it; all before them succeeded.
  obtain ⟨_, _, _, h⟩ := ExceptT.run_bind_state_eq_ok_iff.mp h
  obtain ⟨_, _, _, h⟩ := ExceptT.run_bind_state_eq_ok_iff.mp h
  obtain ⟨_, _, hsample, h⟩ := ExceptT.run_bind_state_eq_ok_iff.mp h
  obtain ⟨_, _, _, h⟩ := ExceptT.run_bind_state_eq_ok_iff.mp h
  obtain ⟨_, _, _, h⟩ := ExceptT.run_bind_state_eq_ok_iff.mp h
  obtain ⟨_, _, _, h⟩ := ExceptT.run_bind_state_eq_ok_iff.mp h
  obtain ⟨_, _, hprove, _⟩ := ExceptT.run_bind_state_eq_ok_iff.mp h
  exact ⟨room_of_run_generateSample hsample, room_of_run_proveSample hprove⟩

/-- With room for the rows and the challenges, every step succeeds. -/
theorem succeeds_steps (hrows : 0 < options.rows.toNat)
    (hrowsRoom : allocate (options.rows.toNat * rowBytes) = .ok ())
    (hchallengesRoom : allocate (config.challenges.toNat * challengeBytes) = .ok ()) :
    Succeeds (steps allocate options config threads) () := by
  obtain ⟨rows, hsample⟩ := seededSample_rows hrows 2 options.seed
  -- One run of the prover passes all checks, so every later part is a fact about it.
  obtain ⟨run, hprove, hrun⟩ := (rows.passes config.challenges.toNat 1 0 alphas).proved
  obtain ⟨opened, hopened, hzero⟩ := hrun.opened
  obtain ⟨gates, hgates⟩ := succeeds_verifierCircuit hrun.satisfied
  unfold steps
  apply (succeeds_say _).bind
  apply (succeeds_say _).bind
  apply (succeeds_generateSample hrowsRoom hsample).bind
  apply (succeeds_say _).bind
  apply (succeeds_requireBusConstraints _ (rows.constrained [.ofWord 7])).bind
  apply (succeeds_say _).bind
  apply (succeeds_proveSample hchallengesRoom hprove).bind
  apply (succeeds_say _).bind
  apply (succeeds_forM fun table htable =>
    succeeds_requireRowConstraints (hrun.unbroken table htable)).bind
  apply (succeeds_say _).bind
  apply (succeeds_orFail hopened).bind
  apply (succeeds_forM fun table htable =>
    succeeds_requireOpenedConstraints (hzero table htable)).bind
  apply (succeeds_say _).bind
  apply (succeeds_orFail hrun.verified).bind
  apply (succeeds_say _).bind
  apply hgates.bind
  apply (succeeds_say _).bind
  exact succeeds_say _

/-- Whatever words a source draws, and however it shuffles, its sample has the rows asked for
and passes every check. On any machine the demonstration of a positive number of rows succeeds
exactly when room is granted for the rows and for the challenges. -/
theorem sample_always_provable :
    (∀ {σ : Type} (source : RandomSource σ), source.Permutes →
      ∀ cpuRows extraRows state, 0 < cpuRows →
        ∃ sample, ((drawSample source cpuRows extraRows).run state).1 = .ok sample ∧
          (sample.traces.get .cpu).height = cpuRows ∧ sample.extraRows.length = extraRows ∧
          ∀ challenges reserved openingRow alphas,
            sample.Passes challenges reserved openingRow alphas) ∧
      ∀ allocate options config threads output, options.rows ≠ 0 →
        (((steps allocate options config threads).run output).1 = .ok () ↔
          allocate (options.rows.toNat * rowBytes) = .ok () ∧
            allocate (config.challenges.toNat * challengeBytes) = .ok ()) := by
  constructor
  · intro σ source hshuffle cpuRows extraRows state hrows
    obtain ⟨rows, hcpu, hextra, hdraw⟩ := drawSample_rows source hshuffle hrows extraRows state
    refine ⟨rows.sample, hdraw, ?_, hextra, rows.passes⟩
    rw [rows.height_cpu, hcpu]
  · intro allocate options config threads output hrows
    constructor
    · intro hok
      apply room_of_run_steps options config threads
      exact Prod.ext hok rfl
    · rintro ⟨hrowsRoom, hchallengesRoom⟩
      have hpos : 0 < options.rows.toNat := UInt64.pos_iff_ne_zero.mpr hrows
      obtain ⟨output', hrun⟩ :=
        succeeds_steps options config threads hpos hrowsRoom hchallengesRoom output
      rw [hrun]

/-- A machine that grants lists of no more than a mebibyte. -/
def mebibyte : Allocator := fun bytes =>
  if bytes ≤ 0x100000 then .ok () else .error "std::bad_alloc"

/-- Three CPU rows and two further payloads of seed 1 pass under two challenges, and the
standard demonstration succeeds on a machine that grants lists of a mebibyte. -/
theorem sample_provable_seed_one :
    MersenneTwister.source.Permutes ∧ 0 < 3 ∧
      (∃ sample, ((drawSample MersenneTwister.source 3 2).run (.ofSeed 1)).1 = .ok sample ∧
        (sample.traces.get .cpu).height = 3 ∧ sample.extraRows.length = 2 ∧
        sample.Passes 2 1 5 alphas) ∧
      Options.standard.rows ≠ 0 ∧
      ((steps mebibyte .standard .standard 4).run "").1 = .ok () := by
  have hshuffle : MersenneTwister.source.Permutes := MersenneTwister.source_permutes
  have hrows : Options.standard.rows ≠ 0 := by decide
  obtain ⟨sample, hdraw, hcpu, hextra, hpasses⟩ :=
    sample_always_provable.1 MersenneTwister.source hshuffle 3 2 (.ofSeed 1) (by decide)
  refine ⟨hshuffle, by decide, ⟨sample, hdraw, hcpu, hextra, hpasses 2 1 5 alphas⟩, hrows, ?_⟩
  exact (sample_always_provable.2 mebibyte .standard .standard 4 "" hrows).mpr ⟨rfl, rfl⟩

end Whole

end Demo

end CrossLookup
