import CrossLookup.Proofs.GrandProduct
import CrossLookup.Proofs.Opening.Distribution

/-!
# What a prover pass produces

The auxiliary columns of a table are the reserved ones followed by its running
products, so past the reserved openings each running product is opened in turn.
Tables without columns have no products and nothing to open.
-/

namespace CrossLookup

variable {traces : PerTable Trace} {lookups : List Lookup} {extraRows : ExtraRows}
  {reserved openingRow : Nat}

/-- A running product on a row of its trace and on the cyclic successor, embedded. -/
def RunningProduct.embedAt (product : RunningProduct) (trace : Trace) (row : Nat) :
    OpenedProduct Cubic Goldilocks where
  z := .ofBase (product.values.getD row 0)
  nextZ := .ofBase (product.values.getD ((row + 1) % trace.height) 0)
  challenge := product.challenge
  columns := product.columns
  filter := product.filter

section Products

variable {challenges : ChallengeSet Goldilocks} {products : PerTable (List RunningProduct)}

/-- A table without columns is on no side that can be multiplied up. -/
theorem get_products_of_isEmpty
    (hproducts : lookupProducts traces lookups challenges = .ok products)
    {table : Table} (hempty : (traces.get table).isEmpty = true) : products.get table = [] := by
  rw [List.eq_nil_iff_forall_not_mem]
  intro product hproduct
  obtain ⟨entry, _, rfl, hselectable, _⟩ := exists_side_of_mem_products hproducts hproduct
  have hnonempty := hselectable.nonempty
  rw [hempty] at hnonempty
  cases hnonempty

/-- A running product has a value for every row of its trace. -/
theorem size_of_mem_products (hproducts : lookupProducts traces lookups challenges = .ok products)
    {table : Table} :
    ∀ product ∈ products.get table, product.values.size = (traces.get table).height := by
  intro product hproduct
  obtain ⟨entry, _, rfl, _, rfl⟩ := exists_side_of_mem_products hproducts hproduct
  exact entry.1.size_running entry.2

end Products

section Auxiliary

variable {trace : Trace} (products : List RunningProduct) (reserved : Nat)

/-- The auxiliary columns are as many reserved ones, then the running products. -/
theorem toList_auxiliaryTrace (h : trace.isEmpty = false) :
    ∃ fillers : List (Array Goldilocks), fillers.length = reserved ∧
      (auxiliaryTrace trace products reserved).columns.toList =
        fillers ++ products.map RunningProduct.values := by
  refine ⟨((Array.range reserved).map (fillerColumn · trace.height)).toList, ?_, ?_⟩
  · rw [Array.length_toList, Array.size_map, Array.size_range]
  · rw [auxiliaryTrace, if_neg (Bool.eq_false_iff.mp h), Array.toList_append]

theorem firstProducts_atRow (h : trace.isEmpty = false) (row : Nat) :
    (Openings.atRow trace (auxiliaryTrace trace products reserved) row reserved).firstProducts =
      products.map RunningProduct.first := by
  obtain ⟨fillers, hlength, hcolumns⟩ := toList_auxiliaryTrace products reserved h
  rw [Openings.atRow, hcolumns, List.drop_left' hlength, List.map_map]
  rfl

/-- Past the reserved columns the running products are opened at the row and its successor. -/
theorem productPairs_atRow (h : trace.isEmpty = false) (row : Nat) (table : Table) :
    (Openings.atRow trace (auxiliaryTrace trace products reserved) row reserved).productPairs
        table reserved =
      .ok (products.map fun product => (.ofBase (product.values.getD row 0),
        .ofBase (product.values.getD ((row + 1) % product.values.size) 0))) := by
  obtain ⟨fillers, hlength, hcolumns⟩ := toList_auxiliaryTrace products reserved h
  have hle : reserved ≤ (fillers ++ products.map RunningProduct.values).length := by
    rw [List.length_append, hlength]
    exact Nat.le_add_right _ _
  simp only [Openings.productPairs, Openings.atRow, Openings.embedRow, Openings.embedNextRow,
    Array.toList_map, hcolumns, List.length_map, List.zip_map', ne_eq, not_true_eq_false, if_false,
    if_neg (Nat.not_lt.mpr hle), ← List.map_drop, List.drop_left' hlength, List.map_map]
  rfl

end Auxiliary

section Run

variable {challenges : ChallengeSet Goldilocks} {run : ProverRun}

/-- The parts of a run that depend on more than one table. -/
theorem lookupProducts_of_proveUnder
    (h : proveUnder traces lookups challenges extraRows reserved openingRow = .ok run) :
    lookupProducts traces lookups challenges = .ok run.products ∧
      run.challenges = challenges ∧ run.extraProducts = extraProducts extraRows challenges := by
  obtain ⟨products, hproducts, hrun⟩ := Except.bind_eq_ok_iff.mp h
  cases hrun
  exact ⟨hproducts, rfl, rfl⟩

theorem openings_of_isEmpty
    (h : proveUnder traces lookups challenges extraRows reserved openingRow = .ok run)
    {table : Table} (hempty : (traces.get table).isEmpty = true) :
    run.reserved.get table = 0 ∧ run.openings.get table = .empty := by
  obtain ⟨products, _, hrun⟩ := Except.bind_eq_ok_iff.mp h
  cases hrun
  simp only [PerTable.get_map, PerTable.get_ofFn, hempty, if_true, and_self]

theorem openings_of_nonempty
    (h : proveUnder traces lookups challenges extraRows reserved openingRow = .ok run)
    {table : Table} (hnonempty : (traces.get table).isEmpty = false) :
    run.reserved.get table = reserved ∧
      run.openings.get table =
        .atRow (traces.get table)
          (auxiliaryTrace (traces.get table) (run.products.get table) reserved)
          (openingRow % (traces.get table).height) reserved := by
  obtain ⟨products, _, hrun⟩ := Except.bind_eq_ok_iff.mp h
  cases hrun
  simp only [PerTable.get_map, PerTable.get_ofFn, hnonempty, Bool.false_eq_true, if_false,
    and_self]

/-- A run opens the first values of its running products. -/
theorem firstRows_of_proveUnder
    (h : proveUnder traces lookups challenges extraRows reserved openingRow = .ok run) :
    run.firstRows = firstValues run.products := by
  obtain ⟨hproducts, _⟩ := lookupProducts_of_proveUnder h
  refine PerTable.ext fun table => ?_
  rw [ProverRun.firstRows, firstValues, PerTable.get_map, PerTable.get_map]
  cases hempty : (traces.get table).isEmpty with
  | true =>
      rw [(openings_of_isEmpty h hempty).2, get_products_of_isEmpty hproducts hempty]
      rfl
  | false => rw [(openings_of_nonempty h hempty).2, firstProducts_atRow _ _ hempty]

/-- A pass over lookups that have products opens their first values. -/
theorem proveUnder_of_lookupProducts {products : PerTable (List RunningProduct)}
    (hproducts : lookupProducts traces lookups challenges = .ok products)
    (extraRows : ExtraRows) (reserved openingRow : Nat) :
    ∃ run, proveUnder traces lookups challenges extraRows reserved openingRow = .ok run ∧
      run.firstRows = firstValues products ∧
      run.extraProducts = extraProducts extraRows challenges := by
  obtain ⟨run, hrun⟩ : ∃ run,
      proveUnder traces lookups challenges extraRows reserved openingRow = .ok run := by
    rw [proveUnder, hproducts]
    exact ⟨_, rfl⟩
  obtain ⟨hrunProducts, _, hextra⟩ := lookupProducts_of_proveUnder hrun
  rw [hproducts] at hrunProducts
  cases hrunProducts
  exact ⟨run, hrun, firstRows_of_proveUnder hrun, hextra⟩

/-- A run opens its running products past the reserved columns of every table. -/
theorem productPairs_of_proveUnder
    (h : proveUnder traces lookups challenges extraRows reserved openingRow = .ok run)
    (table : Table) :
    (run.openings.get table).productPairs table (run.reserved.get table) =
      .ok ((run.products.get table).map fun product =>
        let opened := product.embedAt (traces.get table)
          (openingRow % (traces.get table).height)
        (opened.z, opened.nextZ)) := by
  obtain ⟨hproducts, _⟩ := lookupProducts_of_proveUnder h
  cases hempty : (traces.get table).isEmpty with
  | true =>
      obtain ⟨hreserved, hopenings⟩ := openings_of_isEmpty h hempty
      rw [hreserved, hopenings, get_products_of_isEmpty hproducts hempty]
      rfl
  | false =>
      obtain ⟨hreserved, hopenings⟩ := openings_of_nonempty h hempty
      rw [hreserved, hopenings, productPairs_atRow _ _ hempty]
      congr 1
      apply List.map_congr_left
      intro product hproduct
      rw [size_of_mem_products hproducts product hproduct]
      rfl

end Run

theorem length_drawChallenges (t : Transcript) (n : Nat) : (t.drawChallenges n).1.length = n := by
  induction n generalizing t with
  | zero => rfl
  | succ n ih => exact congrArg Nat.succ (ih _)

theorem length_deriveChallenges (traces : PerTable Trace) (count : Nat) :
    (deriveChallenges traces count).length = count :=
  length_drawChallenges _ count

end CrossLookup
