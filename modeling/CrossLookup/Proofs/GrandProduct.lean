import CrossLookup.Prover
import CrossLookup.Proofs.Consistency
import CrossLookup.Proofs.Verification.Schedule

/-!
# The grand products of honest traces

Over traces from which every side can be selected, the prover commits for each
side and challenge to the product of its combined rows. The verifier then
compares, lookup by lookup, the products of the looking and of the looked rows.
-/

namespace CrossLookup

/-- The product of the combined rows under a challenge. -/
def Challenge.product (challenge : Challenge Goldilocks) (rows : List (List Goldilocks)) :
    Goldilocks :=
  (rows.map challenge.combine).prod

namespace Challenge

variable (challenge : Challenge Goldilocks)

theorem product_append (rows rows' : List (List Goldilocks)) :
    challenge.product (rows ++ rows') = challenge.product rows * challenge.product rows' := by
  rw [product, List.map_append, List.prod_append]
  rfl

theorem product_flatMap {α : Type} (f : α → List (List Goldilocks)) (as : List α) :
    challenge.product (as.flatMap f) = (as.map fun a => challenge.product (f a)).prod := by
  induction as with
  | nil => rfl
  | cons a rest ih =>
      rw [List.flatMap_cons, product_append, ih, List.map_cons, List.prod_cons]

theorem product_perm {rows rows' : List (List Goldilocks)} (h : rows.Perm rows') :
    challenge.product rows = challenge.product rows' :=
  (h.map challenge.combine).prod_eq

theorem foldl_eq_product (rows : List (List Goldilocks)) :
    rows.foldl (fun product row => product * challenge.combine row) 1 =
      challenge.product rows := by
  rw [product, List.prod_eq_foldl, List.foldl_map]

end Challenge

theorem get_extraProducts (extraRows : ExtraRows) (challenges : ChallengeSet Goldilocks)
    (table : Table) :
    (extraProducts extraRows challenges).get table =
      challenges.map fun challenge => challenge.product (extraRows.get table) := by
  rw [extraProducts, PerTable.get_map, rowProducts]
  simp only [Challenge.foldl_eq_product]

/-- The value on the first row. -/
def RunningProduct.first (product : RunningProduct) : Goldilocks :=
  product.values.getD 0 0

/-- The values on the first rows of all running products. -/
def firstValues (products : PerTable (List RunningProduct)) : PerTable (List Goldilocks) :=
  mapQueues RunningProduct.first products

/-- The product to which an honest prover commits on the first row. -/
def Side.product (side : Side) (traces : PerTable Trace) (challenge : Challenge Goldilocks) :
    Goldilocks :=
  challenge.product (side.rows traces)

/-- The running product of a side that can be selected from. -/
def Side.running (side : Side) (traces : PerTable Trace) (challenge : Challenge Goldilocks) :
    RunningProduct where
  values := ((List.range (traces.get side.table).height).map fun row =>
    challenge.product (selectedFrom (traces.get side.table) side.columns side.filter row)).toArray
  challenge := challenge
  columns := side.columns
  filter := side.filter

theorem Side.size_running {side : Side} {traces : PerTable Trace}
    (challenge : Challenge Goldilocks) :
    (side.running traces challenge).values.size = (traces.get side.table).height := by
  rw [running, List.size_toArray, List.length_map, List.length_range]

theorem Side.head?_running {side : Side} {traces : PerTable Trace}
    (challenge : Challenge Goldilocks) (h : 0 < (traces.get side.table).height) :
    (side.running traces challenge).values.toList.head? =
      some (side.product traces challenge) := by
  obtain ⟨n, hn⟩ := Nat.exists_eq_succ_of_ne_zero h.ne'
  rw [running, hn, List.range_succ_eq_map]
  rfl

theorem Side.first_running {side : Side} {traces : PerTable Trace}
    (challenge : Challenge Goldilocks) (h : 0 < (traces.get side.table).height) :
    (side.running traces challenge).first = side.product traces challenge := by
  have hhead := side.head?_running challenge h
  rw [List.head?_eq_getElem?, Array.getElem?_toList] at hhead
  rw [RunningProduct.first, Array.getD_eq_getD_getElem?, hhead]
  rfl

theorem Side.runningProduct_eq {side : Side} {traces : PerTable Trace}
    (challenge : Challenge Goldilocks) (h : side.Selectable traces) :
    runningProduct (traces.get side.table) side.columns side.filter challenge =
      .ok (side.running traces challenge).values.toList :=
  CrossLookup.runningProduct_eq side.columns challenge h.nonempty h.binary

theorem sideProduct_of_selectable {traces : PerTable Trace} {side : Side}
    (challenge : Challenge Goldilocks) (h : side.Selectable traces) :
    sideProduct traces (side, challenge) = .ok (side.table, side.running traces challenge) := by
  simp only [sideProduct, side.runningProduct_eq challenge h]
  rfl

theorem selectable_of_sideProduct {traces : PerTable Trace}
    {entry : Side × Challenge Goldilocks} {result : Table × RunningProduct}
    (h : sideProduct traces entry = .ok result) : entry.1.Selectable traces := by
  obtain ⟨values, hvalues, _⟩ := Except.bind_eq_ok_iff.mp h
  obtain ⟨hnonempty, hbinary⟩ := binary_of_runningProduct hvalues
  exact ⟨hnonempty, hbinary⟩

theorem forall_mem_schedule {α : Type} {lookups : List Lookup} {challenges : List α}
    {P : Side × α → Prop} :
    (∀ entry ∈ schedule lookups challenges, P entry) ↔
      ∀ lookup ∈ lookups, ∀ challenge ∈ challenges, ∀ side ∈ lookup.sides,
        P (side, challenge) := by
  simp only [schedule, List.forall_mem_flatMap, List.forall_mem_map]

/-- The products of the lookups exist when every scheduled side can be selected from. -/
theorem lookupProducts_eq_ok_iff {traces : PerTable Trace} {lookups : List Lookup}
    {challenges : ChallengeSet Goldilocks} {products : PerTable (List RunningProduct)} :
    lookupProducts traces lookups challenges = .ok products ↔
      (∀ entry ∈ schedule lookups challenges, entry.1.Selectable traces) ∧
        products = groupByTable ((schedule lookups challenges).map fun entry =>
          (entry.1.table, entry.1.running traces entry.2)) := by
  have hproducts (h : ∀ entry ∈ schedule lookups challenges, entry.1.Selectable traces) :
      lookupProducts traces lookups challenges =
        .ok (groupByTable ((schedule lookups challenges).map fun entry =>
          (entry.1.table, entry.1.running traces entry.2))) := by
    rw [lookupProducts, Except.mapM_eq_ok_map fun entry hentry =>
      sideProduct_of_selectable entry.2 (h entry hentry)]
    rfl
  constructor
  · intro hok
    obtain ⟨entries, hentries, _⟩ := Except.bind_eq_ok_iff.mp hok
    have hselectable : ∀ entry ∈ schedule lookups challenges, entry.1.Selectable traces := by
      intro entry hentry
      obtain ⟨result, hresult⟩ := Except.exists_ok_of_mapM_eq_ok hentries entry hentry
      exact selectable_of_sideProduct hresult
    rw [hproducts hselectable] at hok
    exact ⟨hselectable, (Except.ok.inj hok).symm⟩
  · rintro ⟨hselectable, rfl⟩
    exact hproducts hselectable

/-- Every running product of a table is that of a scheduled side on it. -/
theorem exists_side_of_mem_products {traces : PerTable Trace} {lookups : List Lookup}
    {challenges : ChallengeSet Goldilocks} {products : PerTable (List RunningProduct)}
    (hproducts : lookupProducts traces lookups challenges = .ok products) {table : Table}
    {product : RunningProduct} (hproduct : product ∈ products.get table) :
    ∃ entry ∈ schedule lookups challenges, entry.1.table = table ∧
      entry.1.Selectable traces ∧ entry.1.running traces entry.2 = product := by
  obtain ⟨hselectable, rfl⟩ := lookupProducts_eq_ok_iff.mp hproducts
  obtain ⟨entry, hentry, heq⟩ := List.mem_map.mp (mem_get_groupByTable.mp hproduct)
  obtain ⟨htable, hrunning⟩ := Prod.mk.inj heq
  exact ⟨entry, hentry, htable, hselectable entry hentry, hrunning⟩

theorem lookupProducts_of_selectable {traces : PerTable Trace} {lookups : List Lookup}
    (challenges : ChallengeSet Goldilocks)
    (h : ∀ lookup ∈ lookups, ∀ side ∈ lookup.sides, side.Selectable traces) :
    lookupProducts traces lookups challenges =
      .ok (groupByTable ((schedule lookups challenges).map fun entry =>
        (entry.1.table, entry.1.running traces entry.2))) :=
  lookupProducts_eq_ok_iff.mpr
    ⟨forall_mem_schedule.mpr fun lookup hlookup _ _ => h lookup hlookup, rfl⟩

theorem mapQueues_groupByTable {α β : Type} (f : α → β) (entries : List (Table × α)) :
    mapQueues f (groupByTable entries) =
      groupByTable (entries.map (Prod.map id f)) := by
  refine PerTable.ext fun table => ?_
  rw [PerTable.get_map]
  exact (get_groupByTable_map (fun _ => f) entries table).symm

/-- The first values of the running products are the products of the scheduled sides. -/
theorem firstValues_scheduled {traces : PerTable Trace} {lookups : List Lookup}
    {challenges : ChallengeSet Goldilocks}
    (h : ∀ entry ∈ schedule lookups challenges, 0 < (traces.get entry.1.table).height) :
    firstValues (groupByTable ((schedule lookups challenges).map fun entry =>
        (entry.1.table, entry.1.running traces entry.2))) =
      scheduledOpenings (Side.product · traces) lookups challenges := by
  rw [firstValues, mapQueues_groupByTable, scheduledOpenings, List.map_map]
  congr 1
  apply List.map_congr_left
  intro entry hentry
  exact congrArg (Prod.mk entry.1.table) (entry.1.first_running entry.2 (h entry hentry))

theorem firstValues_running {traces : PerTable Trace} {lookups : List Lookup}
    (challenges : ChallengeSet Goldilocks)
    (h : ∀ lookup ∈ lookups, ∀ side ∈ lookup.sides, 0 < (traces.get side.table).height) :
    firstValues (groupByTable ((schedule lookups challenges).map fun entry =>
        (entry.1.table, entry.1.running traces entry.2))) =
      scheduledOpenings (Side.product · traces) lookups challenges :=
  firstValues_scheduled (forall_mem_schedule.mpr fun lookup hlookup _ _ => h lookup hlookup)

/-- The verifier accepts the honest first values when the products agree for each lookup. -/
theorem verifyLookups_honest_iff {traces : PerTable Trace} {lookups : List Lookup}
    {extraRows : ExtraRows} {challenges : ChallengeSet Goldilocks} :
    verifyLookups lookups (scheduledOpenings (Side.product · traces) lookups challenges)
        (extraProducts extraRows challenges) challenges.length = .ok () ↔
      ∀ lookup ∈ lookups, ∀ challenge ∈ challenges,
        challenge.product (lookup.lookingRows traces extraRows) =
          challenge.product (lookup.lookedRows traces) := by
  rw [verifyLookups_scheduled_iff (get_extraProducts extraRows challenges)]
  simp only [Lookup.lookingRows, Challenge.product_append, Challenge.product_flatMap]
  rfl

end CrossLookup
