import CrossLookup.Proofs.Completeness

/-!
# The layout of a run

Running products are committed, opened, distributed and verified in one order:
by lookup, then challenge, then side. Every opening therefore meets the side and
challenge of its product, and the verifier takes for each side and challenge the
first row of exactly their product.
-/

namespace CrossLookup

variable {traces : PerTable Trace} {lookups : List Lookup} {extraRows : ExtraRows}
  {reserved openingRow : Nat} {challenges : ChallengeSet Goldilocks} {run : ProverRun}

/-- What is computed from the running product of each scheduled side, by table. -/
theorem get_map_products {β : Type} (f : Table → RunningProduct → β)
    {products : PerTable (List RunningProduct)}
    (hproducts : lookupProducts traces lookups challenges = .ok products) (table : Table) :
    (groupByTable ((schedule lookups challenges).map fun entry =>
        (entry.1.table, f entry.1.table (entry.1.running traces entry.2)))).get table =
      (products.get table).map (f table) := by
  obtain ⟨_, rfl⟩ := lookupProducts_eq_ok_iff.mp hproducts
  rw [← get_groupByTable_map, List.map_map]
  rfl

theorem length_get_products {products : PerTable (List RunningProduct)}
    (hproducts : lookupProducts traces lookups challenges = .ok products) (table : Table) :
    (products.get table).length = occurrences lookups table * challenges.length := by
  obtain ⟨_, rfl⟩ := lookupProducts_eq_ok_iff.mp hproducts
  exact length_get_scheduled (fun entry => entry.1.running traces entry.2) lookups challenges table

/-- Every opening is distributed to the side and challenge of its running product. -/
theorem distribute_of_proveUnder
    (h : proveUnder traces lookups challenges extraRows reserved openingRow = .ok run) :
    ∃ opened, distribute run.openings lookups run.challenges run.reserved = .ok opened ∧
      ∀ table, opened.get table = (run.products.get table).map fun product =>
        product.embedAt (traces.get table) (openingRow % (traces.get table).height) := by
  obtain ⟨hproducts, hchallenges, _⟩ := lookupProducts_of_proveUnder h
  let openedAt := fun (table : Table) (product : RunningProduct) =>
    product.embedAt (traces.get table) (openingRow % (traces.get table).height)
  let pairAt := fun (table : Table) (product : RunningProduct) =>
    ((openedAt table product).z, (openedAt table product).nextZ)
  have hpairs : ∀ table, (run.openings.get table).productPairs table (run.reserved.get table) =
      .ok ((groupByTable ((schedule lookups challenges).map fun entry =>
        (entry.1.table, pairAt entry.1.table (entry.1.running traces entry.2)))).get table) := by
    intro table
    rw [get_map_products pairAt hproducts]
    exact productPairs_of_proveUnder h table
  rw [hchallenges]
  refine ⟨_, distribute_scheduled _ hpairs, fun table => ?_⟩
  exact get_map_products openedAt hproducts table

theorem height_pos_of_scheduled
    (hheight : ∀ table, (traces.get table).isEmpty = false → 0 < (traces.get table).height)
    {products : PerTable (List RunningProduct)}
    (hproducts : lookupProducts traces lookups challenges = .ok products) :
    ∀ entry ∈ schedule lookups challenges, 0 < (traces.get entry.1.table).height :=
  fun entry hentry =>
    hheight _ ((lookupProducts_eq_ok_iff.mp hproducts).1 entry hentry).nonempty

/-- The first row of the product of a scheduled side is there to be taken. -/
theorem head?_runningProduct
    (hheight : ∀ table, (traces.get table).isEmpty = false → 0 < (traces.get table).height)
    {products : PerTable (List RunningProduct)}
    (hproducts : lookupProducts traces lookups challenges = .ok products) :
    ∀ entry ∈ schedule lookups challenges, ∃ values,
      runningProduct (traces.get entry.1.table) entry.1.columns entry.1.filter entry.2 =
          .ok values ∧
        values.head? = some (entry.1.product traces entry.2) := by
  intro entry hentry
  have hside := (lookupProducts_eq_ok_iff.mp hproducts).1 entry hentry
  exact ⟨_, entry.1.runningProduct_eq entry.2 hside,
    entry.1.head?_running entry.2 (hheight _ hside.nonempty)⟩

/-- The identities of a run take for each side the first row of its own product. -/
theorem identities_of_proveUnder
    (hheight : ∀ table, (traces.get table).isEmpty = false → 0 < (traces.get table).height)
    (h : proveUnder traces lookups challenges extraRows reserved openingRow = .ok run) :
    identities lookups run.firstRows run.extraProducts challenges.length =
      (dueIdentities (Side.product · traces)
        (fun table challenge => challenge.product (extraRows.get table)) challenges 0 lookups,
        .ok ()) := by
  obtain ⟨hproducts, _, hextra⟩ := lookupProducts_of_proveUnder h
  rw [firstRows_of_proveUnder h, (lookupProducts_eq_ok_iff.mp hproducts).2,
    firstValues_scheduled (height_pos_of_scheduled hheight hproducts), hextra]
  exact identities_scheduled _ _ lookups challenges (get_extraProducts extraRows challenges)

theorem forEachIdentity_of_identities {lookups : List Lookup}
    {firstRows extras : PerTable (List Goldilocks)} {count : Nat}
    {due : List (Identity Goldilocks)}
    (h : identities lookups firstRows extras count = (due, .ok ()))
    (visit : Nat → List Goldilocks → Goldilocks → Goldilocks → Except VerifyError Unit) :
    forEachIdentity visit lookups firstRows extras count = due.forM (Identity.visit visit) := by
  rw [forEachIdentity_eq throwStops_except, h]
  exact bind_pure_unit

theorem verifyLookups_of_identities {lookups : List Lookup}
    {firstRows extras : PerTable (List Goldilocks)} {count : Nat}
    {due : List (Identity Goldilocks)}
    (h : identities lookups firstRows extras count = (due, .ok ())) :
    verifyLookups lookups firstRows extras count = .ok () ∨
      ∃ index, verifyLookups lookups firstRows extras count = .error (.rejected index) := by
  rw [verifyLookups, forEachIdentity_of_identities h]
  exact (forM_compareProducts due).imp And.left And.left

/-- How a run over traces is laid out for the verifier and for the check of its openings. -/
structure ProverRun.LaidOut (run : ProverRun) (traces : PerTable Trace) (lookups : List Lookup)
    (extraRows : ExtraRows) (challengeCount openingRow : Nat) : Prop where
  /-- A table commits to one product, of a value per row, for each place in the schedule. -/
  products : ∀ table,
    (run.products.get table).length = occurrences lookups table * challengeCount ∧
      ∀ product ∈ run.products.get table, product.values.size = (traces.get table).height
  firstRows : ∀ table,
    (run.firstRows.get table).length = occurrences lookups table * challengeCount
  /-- Below the word size these lengths are the number that the lookups announce. -/
  productCount : ∀ table, occurrences lookups table * challengeCount < UInt64.size →
    (productCount lookups table (.ofNat challengeCount)).toNat =
      occurrences lookups table * challengeCount
  /-- Each opening meets the challenge, columns and filter of its own product. -/
  opened : ∃ opened, distribute run.openings lookups run.challenges run.reserved = .ok opened ∧
    ∀ table, (opened.get table).length = occurrences lookups table * challengeCount ∧
      opened.get table = (run.products.get table).map fun product =>
        product.embedAt (traces.get table) (openingRow % (traces.get table).height)
  /-- Each identity is visited with the first rows of the products of its own sides, and the
  verifier compares just these. -/
  identities : ∃ first : Side → Challenge Goldilocks → Goldilocks,
    (∀ lookup ∈ lookups, ∀ challenge ∈ run.challenges, ∀ side ∈ lookup.sides, ∃ values,
      runningProduct (traces.get side.table) side.columns side.filter challenge = .ok values ∧
        values.head? = some (first side challenge)) ∧
    (∀ visit : Nat → List Goldilocks → Goldilocks → Goldilocks → Except VerifyError Unit,
      forEachIdentity visit lookups run.firstRows run.extraProducts challengeCount =
        (dueIdentities first (fun table challenge => challenge.product (extraRows.get table))
          run.challenges 0 lookups).forM (Identity.visit visit)) ∧
    verifyLookups lookups run.firstRows run.extraProducts challengeCount =
      (dueIdentities first (fun table challenge => challenge.product (extraRows.get table))
        run.challenges 0 lookups).forM (Identity.visit compareProducts)
  /-- The verifier never finds a first row missing or left over. -/
  verified : verifyLookups lookups run.firstRows run.extraProducts challengeCount = .ok () ∨
    ∃ index, verifyLookups lookups run.firstRows run.extraProducts challengeCount =
      .error (.rejected index)

/-- Every completed run is laid out as the distribution and the verification expect. -/
theorem laidOut_of_prove {challengeCount : Nat}
    (hheight : ∀ table, (traces.get table).isEmpty = false → 0 < (traces.get table).height)
    (hrun : prove traces lookups challengeCount extraRows reserved openingRow = .ok run) :
    run.LaidOut traces lookups extraRows challengeCount openingRow := by
  have hcount := length_deriveChallenges traces challengeCount
  obtain ⟨hproducts, hchallenges, _⟩ := lookupProducts_of_proveUnder hrun
  have hlength : ∀ table, (run.products.get table).length =
      occurrences lookups table * challengeCount := by
    intro table
    rw [length_get_products hproducts, hcount]
  have hidentities := identities_of_proveUnder hheight hrun
  rw [hcount, ← hchallenges] at hidentities
  obtain ⟨opened, hopened, hvalues⟩ := distribute_of_proveUnder hrun
  constructor
  case products => exact fun table => ⟨hlength table, size_of_mem_products hproducts⟩
  case firstRows =>
    intro table
    rw [firstRows_of_proveUnder hrun, firstValues, PerTable.get_map, List.length_map, hlength]
  case productCount => exact fun table => toNat_productCount
  case opened =>
    refine ⟨opened, hopened, fun table => ⟨?_, hvalues table⟩⟩
    rw [hvalues, List.length_map, hlength]
  case identities =>
    refine ⟨_, ?_, forEachIdentity_of_identities hidentities,
      forEachIdentity_of_identities hidentities compareProducts⟩
    rw [hchallenges]
    exact forall_mem_schedule.mp (head?_runningProduct hheight hproducts)
  case verified => exact verifyLookups_of_identities hidentities

/-- The memory is looked up from the CPU and from itself, and the CPU from both. -/
def crossingLookups : List Lookup :=
  [{ looking := [⟨.cpu, [.single 0], some (.single 1)⟩, ⟨.memory, [.single 0], none⟩]
     looked := ⟨.memory, [.single 0], none⟩
     width_eq := by decide },
    { looking := [⟨.memory, [.single 0], none⟩, ⟨.cpu, [.single 1], none⟩]
      looked := ⟨.cpu, [.single 0], some (.single 1)⟩
      width_eq := by decide }]

theorem crossing_selectable :
    ∀ lookup ∈ crossingLookups, ∀ side ∈ lookup.sides, side.Selectable sampleTraces := by
  decide

/-- Both tables occur three times, on either side of two lookups that do not balance. -/
theorem laidOut_of_prove_crossing :
    (∀ table, (sampleTraces.get table).isEmpty = false → 0 < (sampleTraces.get table).height) ∧
    ∃ run, prove sampleTraces crossingLookups 2 sampleExtraRows 1 3 = .ok run ∧
      run.LaidOut sampleTraces crossingLookups sampleExtraRows 2 3 := by
  obtain ⟨run, hrun, _⟩ := proveUnder_of_lookupProducts
    (lookupProducts_of_selectable (deriveChallenges sampleTraces 2) crossing_selectable)
    sampleExtraRows 1 3
  exact ⟨sample_heights, run, hrun, laidOut_of_prove sample_heights hrun⟩

end CrossLookup
