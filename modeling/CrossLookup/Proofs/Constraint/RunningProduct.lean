import CrossLookup.Proofs.Constraint.Residuals
import CrossLookup.Proofs.Constraint.Scan
import CrossLookup.Proofs.GrandProduct

/-!
# Running products and their constraints

On a row the constraints of a running product are a recurrence with the factor
of the row, and on the last row they give its start. A side that reads the next
row must not select the last one: there the constraints read the first row,
while a product reads nothing. Honest running products then satisfy their
constraints, and under enough alphas no other values do.
-/

namespace CrossLookup

variable {trace : Trace}

namespace Trace

theorem isEmpty_of_height_pos (h : 0 < trace.height) : trace.isEmpty = false := by
  apply Bool.eq_false_iff.mpr
  intro hempty
  rw [height, Array.isEmpty_iff.mp hempty] at h
  exact absurd h (Nat.lt_irrefl 0)

theorem getD_row (trace : Trace) (r c : Nat) : (trace.row r).getD c 0 = trace.cell c r := by
  simp only [row, cell, Array.getD_eq_getD_getElem?, Array.getElem?_map]
  cases trace.columns[c]? with
  | none => rfl
  | some column => rfl

theorem cyclicNext_of_lt {row : Nat} (h : row + 1 < trace.height) :
    trace.cyclicNext row = row + 1 :=
  Nat.mod_eq_of_lt h

end Trace

/-- Some column of the payload or the filter of a side reads the next row. -/
def ReadsNextRow (columns : List Column) (filter : Option Column) : Prop :=
  ∃ column ∈ columns ++ filter.toList, column.nextTerms ≠ []

instance (columns : List Column) (filter : Option Column) :
    Decidable (ReadsNextRow columns filter) :=
  inferInstanceAs (Decidable (∃ column ∈ columns ++ filter.toList, column.nextTerms ≠ []))

/-- A side that reads the next row does not select the last row, whether the row after it
reads as zero or as the first row. -/
def LastRowRule (trace : Trace) (columns : List Column) (filter : Option Column) : Prop :=
  ReadsNextRow columns filter →
    filterValue filter trace (trace.height - 1) = 0 ∧
      (trace.frame (trace.height - 1)).filterValue filter = 0

instance (trace : Trace) (columns : List Column) (filter : Option Column) :
    Decidable (LastRowRule trace columns filter) :=
  inferInstanceAs (Decidable (_ → _))

theorem addTerms_row (row : Nat) (terms : List Term) (start : Goldilocks) :
    Column.addTerms (trace.row row) terms start =
      Column.addTraceTerms trace row terms start := by
  simp only [Column.addTerms, Column.addTraceTerms, Trace.getD_row]
  rfl

/-- A column reads the same from a frame as from the trace, up to the last row. -/
theorem Column.evalWithNext_frame {column : Column} {row : Nat}
    (h : row + 1 < trace.height ∨ column.nextTerms = []) :
    column.evalWithNext (trace.frame row).current (trace.frame row).next =
      column.evalTrace trace row := by
  rw [evalWithNext, eval, Trace.frame, addTerms_row, addTerms_row, evalTrace]
  by_cases hterms : column.nextTerms = []
  · rw [hterms, if_neg fun h => h.1 rfl]
    rfl
  · have hrow := h.resolve_right hterms
    rw [if_pos ⟨hterms, hrow⟩, Trace.cyclicNext_of_lt hrow]
    rfl

theorem filterValue_frame {filter : Option Column} {row : Nat}
    (h : ∀ column ∈ filter.toList, row + 1 < trace.height ∨ column.nextTerms = []) :
    (trace.frame row).filterValue filter = filterValue filter trace row := by
  cases filter with
  | none => rfl
  | some column => exact Column.evalWithNext_frame (h column (List.mem_singleton_self column))

theorem payload_frame {columns : List Column} {row : Nat}
    (h : ∀ column ∈ columns, row + 1 < trace.height ∨ column.nextTerms = []) :
    (columns.map fun column =>
        column.evalWithNext (trace.frame row).current (trace.frame row).next) =
      payload columns trace row := by
  apply List.map_congr_left
  intro column hcolumn
  exact Column.evalWithNext_frame (h column hcolumn)

/-- Only on the last row a side may read a row that the trace does not have. -/
theorem reads_or_wraps (columns : List Column) (filter : Option Column) {row : Nat}
    (hrow : row < trace.height) :
    (∀ column ∈ columns ++ filter.toList,
      row + 1 < trace.height ∨ column.nextTerms = []) ∨
    trace.height - 1 = row ∧ ReadsNextRow columns filter := by
  by_cases hreads : ReadsNextRow columns filter
  · rcases Nat.lt_or_ge (row + 1) trace.height with hlt | hge
    · exact Or.inl fun _ _ => Or.inl hlt
    · exact Or.inr ⟨by omega, hreads⟩
  · left
    intro column hcolumn
    by_contra h
    exact hreads ⟨column, hcolumn, (not_or.mp h).2⟩

theorem Selectors.last_ofRow (row n : Nat) :
    (ofRow row n : Selectors Goldilocks).last = if row + 1 = n then 1 else 0 := by
  simp only [ofRow, ofFlags, indicator, beq_iff_eq]
  rfl

theorem Selectors.zLast_ofRow (row n : Nat) :
    (ofRow row n : Selectors Goldilocks).zLast = if row + 1 = n then 0 else 1 := by
  simp only [ofRow, ofFlags, indicator, Bool.not_eq_true', beq_eq_false_iff_ne, ite_not]
  rfl

namespace RunningProduct

variable {product : RunningProduct} {row : Nat}

/-- What a row contributes to a running product. -/
def factor (product : RunningProduct) (trace : Trace) (row : Nat) : Goldilocks :=
  rowFactor trace product.columns product.filter product.challenge row

/-- A value for every row of a trace, on which the filter is binary and the last-row rule kept. -/
structure WellPosed (trace : Trace) (product : RunningProduct) : Prop where
  binary : BinaryFilter product.filter trace
  lastRow : LastRowRule trace product.columns product.filter
  size_eq : product.values.size = trace.height

instance (trace : Trace) (product : RunningProduct) : Decidable (product.WellPosed trace) :=
  decidable_of_iff _ ⟨fun h => ⟨h.1, h.2.1, h.2.2⟩,
    fun h => And.intro h.binary (And.intro h.lastRow h.size_eq)⟩

theorem z_openAt : (product.openAt trace row).z = product.values.getD row 0 := rfl

theorem nextZ_openAt :
    (product.openAt trace row).nextZ = product.values.getD (trace.cyclicNext row) 0 := rfl

theorem filter_openAt : (product.openAt trace row).filter = product.filter := rfl

theorem select_of_zero (h : (trace.frame row).filterValue product.filter = 0) :
    (product.openAt trace row).select (trace.frame row) = 1 := by
  rw [OpenedProduct.select_eq, filter_openAt, h, zero_mul, zero_add, sub_zero]

theorem select_of_one (h : (trace.frame row).filterValue product.filter = 1) :
    (product.openAt trace row).select (trace.frame row) =
      product.challenge.combine (product.columns.map fun column =>
        column.evalWithNext (trace.frame row).current (trace.frame row).next) := by
  rw [OpenedProduct.select_eq, filter_openAt, h, one_mul, add_sub_cancel_right]
  rfl

/-- The constraints multiply by the factor of the row. -/
theorem select_openAt (hposed : product.WellPosed trace) (hrow : row < trace.height) :
    (product.openAt trace row).select (trace.frame row) = product.factor trace row := by
  rcases reads_or_wraps product.columns product.filter hrow with hreads | ⟨hlast, hreads⟩
  · obtain ⟨hcolumns, hfilter⟩ := List.forall_mem_append.mp hreads
    have hvalue := filterValue_frame hfilter
    rcases hposed.binary row hrow with h | h
    · rw [select_of_zero (hvalue.trans h), factor, rowFactor_of_zero _ _ h]
    · rw [select_of_one (hvalue.trans h), payload_frame hcolumns, factor, rowFactor_of_one _ _ h]
  · -- The constraints read the first row here and the product none, but neither selects.
    obtain ⟨hvalue, hcyclic⟩ := hposed.lastRow hreads
    rw [hlast] at hvalue hcyclic
    rw [select_of_zero hcyclic, factor, rowFactor_of_zero _ _ hvalue]

/-- The residuals vanish on a row exactly when the values there obey the recurrence. -/
theorem residuals_eq_zero_iff (hposed : product.WellPosed trace) (hrow : row < trace.height) :
    (∀ residual ∈ (product.openAt trace row).residuals (trace.frame row)
        (.ofRow row trace.height), residual = 0) ↔
      if row + 1 = trace.height then
        product.values.getD row 0 = product.factor trace row
      else
        product.values.getD row 0 =
          product.values.getD (row + 1) 0 * product.factor trace row := by
  simp only [OpenedProduct.residuals, select_openAt hposed hrow, List.forall_mem_cons,
    List.not_mem_nil, false_implies, implies_true, and_true, Selectors.last_ofRow,
    Selectors.zLast_ofRow, z_openAt, nextZ_openAt]
  by_cases hlast : row + 1 = trace.height
  · rw [if_pos hlast, if_pos hlast, if_pos hlast, mul_one, mul_zero, sub_eq_zero]
    exact and_iff_left rfl
  · have hlt : row + 1 < trace.height := by omega
    rw [if_neg hlast, if_neg hlast, if_neg hlast, mul_one, mul_zero, sub_eq_zero,
      Trace.cyclicNext_of_lt hlt]
    exact (and_iff_right rfl).trans eq_comm

end RunningProduct

/-- The product of the factors of a row and of all rows after it. -/
def suffixProduct (factor : Nat → Goldilocks) (n row : Nat) : Goldilocks :=
  ((List.range' row (n - row)).map factor).prod

section Recurrence

variable {z factor : Nat → Goldilocks} {n row : Nat}

theorem suffixProduct_of_last (h : row + 1 = n) : suffixProduct factor n row = factor row := by
  rw [suffixProduct, ← h, Nat.add_sub_cancel_left, List.range'_one, List.map_singleton,
    List.prod_singleton]

theorem suffixProduct_of_lt (h : row < n) :
    suffixProduct factor n row = suffixProduct factor n (row + 1) * factor row := by
  obtain ⟨rest, rfl⟩ : ∃ rest, n = row + 1 + rest := ⟨n - (row + 1), by omega⟩
  rw [suffixProduct, suffixProduct, Nat.add_sub_cancel_left, Nat.add_assoc,
    Nat.add_sub_cancel_left, Nat.add_comm 1, List.range'_succ, List.map_cons, List.prod_cons,
    mul_comm]

/-- Values that obey the recurrence are suffix products, by induction from the last row up. -/
theorem eq_suffixProduct
    (h : ∀ row < n, if row + 1 = n then z row = factor row else z row = z (row + 1) * factor row)
    {distance : Nat} (hrow : row + distance + 1 = n) : z row = suffixProduct factor n row := by
  induction distance generalizing row with
  | zero =>
      have hz := h row (by omega)
      rw [if_pos hrow] at hz
      exact hz.trans (suffixProduct_of_last hrow).symm
  | succ distance ih =>
      have hlt : row < n := by omega
      have hz := h row hlt
      rw [if_neg (by omega)] at hz
      calc
        z row = z (row + 1) * factor row := hz
        _ = suffixProduct factor n (row + 1) * factor row := by rw [ih (by omega)]
        _ = suffixProduct factor n row := (suffixProduct_of_lt hlt).symm

/-- A recurrence from the last row up determines all values. -/
theorem recurrence_iff :
    (∀ row < n, if row + 1 = n then z row = factor row else z row = z (row + 1) * factor row) ↔
      ∀ row < n, z row = suffixProduct factor n row := by
  constructor
  · intro h row hrow
    have hdistance : row + (n - (row + 1)) + 1 = n := by omega
    exact eq_suffixProduct h hdistance
  · intro h row hrow
    split
    · next hlast => exact (h row hrow).trans (suffixProduct_of_last hlast)
    · next hlast =>
      rw [h row hrow, h (row + 1) (by omega)]
      exact suffixProduct_of_lt hrow

end Recurrence

theorem toList_eq_map_range_iff {values : Array Goldilocks} {f : Nat → Goldilocks} {n : Nat}
    (h : values.size = n) :
    values.toList = (List.range n).map f ↔ ∀ row < n, values.getD row 0 = f row := by
  subst h
  have hget : ∀ row (hrow : row < values.size), values.getD row 0 = values[row] :=
    fun row hrow => (Array.getElem_eq_getD 0).symm
  constructor
  · intro heq row hrow
    have hvalue := List.getElem_of_eq heq hrow
    rw [Array.getElem_toList, List.getElem_map, List.getElem_range] at hvalue
    rw [hget row hrow, hvalue]
  · intro hvalues
    apply List.ext_getElem
    · rw [List.length_map, List.length_range, Array.length_toList]
    · intro row hrow _
      rw [Array.getElem_toList, List.getElem_map, List.getElem_range, ← hget row hrow,
        hvalues row hrow]

/-- The residuals vanish on all rows exactly for the running product of the side. -/
theorem residuals_iff_runningProduct {product : RunningProduct} (hheight : 0 < trace.height)
    (hposed : product.WellPosed trace) :
    (∀ row < trace.height, ∀ residual ∈ (product.openAt trace row).residuals (trace.frame row)
        (.ofRow row trace.height), residual = 0) ↔
      runningProduct trace product.columns product.filter product.challenge =
        .ok product.values.toList := by
  rw [runningProduct_eq_factors _ _ (Trace.isEmpty_of_height_pos hheight) hposed.binary,
    Except.ok.injEq, eq_comm, toList_eq_map_range_iff hposed.size_eq]
  refine Iff.trans ?_ recurrence_iff
  exact forall₂_congr fun row hrow => product.residuals_eq_zero_iff hposed hrow

section Check

variable {products : List RunningProduct} {alphas : List Goldilocks}

theorem forall_mem_lookupResiduals {row : Nat} :
    (∀ residual ∈ lookupResiduals (trace.frame row) (.ofRow row trace.height)
        (products.map fun product => product.openAt trace row), residual = 0) ↔
      ∀ product ∈ products, ∀ residual ∈ (product.openAt trace row).residuals (trace.frame row)
        (.ofRow row trace.height), residual = 0 := by
  rw [lookupResiduals, List.forall_mem_flatMap, List.forall_mem_map]

/-- The running products of their sides pass the check under any alphas. -/
theorem firstBroken_of_runningProduct (hheight : 0 < trace.height)
    (hposed : ∀ product ∈ products, product.WellPosed trace)
    (hproducts : ∀ product ∈ products,
      runningProduct trace product.columns product.filter product.challenge =
        .ok product.values.toList) :
    trace.firstBroken products alphas = .ok none := by
  rw [firstBroken_eq_none_iff (Trace.isEmpty_of_height_pos hheight)]
  intro row hrow
  apply allZero_of_lookupResiduals
  rw [forall_mem_lookupResiduals]
  intro product hproduct
  exact (residuals_iff_runningProduct hheight (hposed product hproduct)).mpr
    (hproducts product hproduct) row hrow

/-- Under two alphas for each of them, only the running products of their sides pass. -/
theorem runningProduct_of_firstBroken (hheight : 0 < trace.height)
    (hposed : ∀ product ∈ products, product.WellPosed trace)
    (halphas : 2 * products.length ≤ alphas.toFinset.card)
    (hcheck : trace.firstBroken products alphas = .ok none) :
    ∀ product ∈ products,
      runningProduct trace product.columns product.filter product.challenge =
        .ok product.values.toList := by
  rw [firstBroken_eq_none_iff (Trace.isEmpty_of_height_pos hheight)] at hcheck
  intro product hproduct
  apply (residuals_iff_runningProduct hheight (hposed product hproduct)).mp
  intro row hrow
  have hresiduals := lookupResiduals_of_allZero (by rwa [List.length_map]) (hcheck row hrow)
  exact forall_mem_lookupResiduals.mp hresiduals product hproduct

/-- Under two alphas for each product, whatever passes the check is the running product. -/
theorem firstBroken_eq_none_iff_runningProduct (hheight : 0 < trace.height)
    (hposed : ∀ product ∈ products, product.WellPosed trace)
    (halphas : 2 * products.length ≤ alphas.toFinset.card) :
    trace.firstBroken products alphas = .ok none ↔
      ∀ product ∈ products,
        runningProduct trace product.columns product.filter product.challenge =
          .ok product.values.toList :=
  ⟨runningProduct_of_firstBroken hheight hposed halphas,
    firstBroken_of_runningProduct hheight hposed⟩

end Check

section Honest

variable {traces : PerTable Trace} {lookups : List Lookup}

theorem Side.wellPosed_running {side : Side} (challenge : Challenge Goldilocks)
    (h : side.Selectable traces)
    (hlast : LastRowRule (traces.get side.table) side.columns side.filter) :
    (side.running traces challenge).WellPosed (traces.get side.table) where
  binary := h.binary
  lastRow := hlast
  size_eq := side.size_running challenge

/-- The products of a table whose sides keep the last-row rule are the running products of
their sides. -/
theorem honest_of_mem_products {challenges : ChallengeSet Goldilocks}
    {products : PerTable (List RunningProduct)}
    (hproducts : lookupProducts traces lookups challenges = .ok products) {table : Table}
    (hlast : ∀ lookup ∈ lookups, ∀ side ∈ lookup.sides, side.table = table →
      LastRowRule (traces.get table) side.columns side.filter) :
    ∀ product ∈ products.get table,
      product.WellPosed (traces.get table) ∧
        runningProduct (traces.get table) product.columns product.filter product.challenge =
          .ok product.values.toList := by
  have hrule : ∀ entry ∈ schedule lookups challenges, entry.1.table = table →
      LastRowRule (traces.get table) entry.1.columns entry.1.filter :=
    forall_mem_schedule.mpr fun lookup hlookup _ _ => hlast lookup hlookup
  intro product hproduct
  obtain ⟨entry, hentry, rfl, hside, rfl⟩ := exists_side_of_mem_products hproducts hproduct
  exact ⟨Side.wellPosed_running entry.2 hside (hrule entry hentry rfl),
    entry.1.runningProduct_eq entry.2 hside⟩

/-- The running products of a table whose sides keep the last-row rule pass the check. -/
theorem firstBroken_lookupProducts {challenges : ChallengeSet Goldilocks}
    {products : PerTable (List RunningProduct)}
    (hproducts : lookupProducts traces lookups challenges = .ok products) {table : Table}
    (hheight : 0 < (traces.get table).height)
    (hlast : ∀ lookup ∈ lookups, ∀ side ∈ lookup.sides, side.table = table →
      LastRowRule (traces.get table) side.columns side.filter)
    (alphas : List Goldilocks) :
    (traces.get table).firstBroken (products.get table) alphas = .ok none := by
  have hhonest := honest_of_mem_products hproducts hlast
  exact firstBroken_of_runningProduct hheight (fun product h => (hhonest product h).1)
    fun product h => (hhonest product h).2

end Honest

/-- Five CPU rows, of which each is selected whose successor has a one in the second column. -/
def nextRowTraces : PerTable Trace :=
  ⟨#v[.empty, .empty, .ofColumns [[3, 4, 5, 6, 7], [0, 1, 0, 1, 1]], .empty, .empty, .empty,
    .ofColumns [[3, 5, 6], [4, 6, 7]]]⟩

/-- Every selected CPU value is looked up in the memory together with the next one. -/
def nextRowLookup : Lookup where
  looking := [⟨.cpu, [.single 0, .singleNextRow 0], some (.singleNextRow 1)⟩]
  looked := ⟨.memory, [.single 0, .single 1], none⟩
  width_eq := by decide

theorem nextRow_selectable :
    ∀ lookup ∈ [nextRowLookup], ∀ side ∈ lookup.sides, side.Selectable nextRowTraces := by
  decide

theorem nextRow_lastRowRule :
    ∀ lookup ∈ [nextRowLookup], ∀ side ∈ lookup.sides, side.table = .cpu →
      LastRowRule (nextRowTraces.get .cpu) side.columns side.filter := by
  decide +kernel

/-- The side that reads the next row keeps the rule, and its products pass the check. -/
theorem firstBroken_lookupProducts_nextRow :
    0 < (nextRowTraces.get .cpu).height ∧
    (∀ lookup ∈ [nextRowLookup], ∀ side ∈ lookup.sides, side.table = .cpu →
      LastRowRule (nextRowTraces.get .cpu) side.columns side.filter) ∧
    ∃ products,
      lookupProducts nextRowTraces [nextRowLookup] [⟨.ofWord 2, .ofWord 3⟩] = .ok products ∧
        (nextRowTraces.get .cpu).firstBroken (products.get .cpu) [.ofWord 5, .ofWord 7] =
          .ok none := by
  have hheight : 0 < (nextRowTraces.get .cpu).height := by decide
  have hproducts := lookupProducts_of_selectable [⟨.ofWord 2, .ofWord 3⟩] nextRow_selectable
  exact ⟨hheight, nextRow_lastRowRule, _, hproducts,
    firstBroken_lookupProducts hproducts hheight nextRow_lastRowRule _⟩

/-- Products of the CPU side with ones in place of all its values. -/
def flatProduct : RunningProduct where
  values := Array.replicate 5 1
  challenge := ⟨.ofWord 2, .ofWord 3⟩
  columns := nextRowLookup.looked.columns
  filter := some (.singleNextRow 1)

/-- Products of the same side, altered by `-25` times what alters the flat ones. -/
def counterProduct : RunningProduct :=
  { flatProduct with values := #[13703, 2263, 2263, 261, 1].map .ofWord }

/-- Two altered products cancel each other under one alpha, but not under four. -/
theorem firstBroken_flatProduct :
    0 < (nextRowTraces.get .cpu).height ∧
    (∀ product ∈ [flatProduct, counterProduct], product.WellPosed (nextRowTraces.get .cpu)) ∧
    2 * [flatProduct, counterProduct].length ≤
      [Goldilocks.ofWord 5, .ofWord 7, .ofWord 11, .ofWord 13].toFinset.card ∧
    (nextRowTraces.get .cpu).firstBroken [flatProduct, counterProduct] [.ofWord 5] = .ok none ∧
    (nextRowTraces.get .cpu).firstBroken [flatProduct, counterProduct]
      [.ofWord 5, .ofWord 7, .ofWord 11, .ofWord 13] ≠ .ok none := by
  have hheight : 0 < (nextRowTraces.get .cpu).height := by decide
  have hposed : ∀ product ∈ [flatProduct, counterProduct],
      product.WellPosed (nextRowTraces.get .cpu) := by decide +kernel
  have halphas : 2 * [flatProduct, counterProduct].length ≤
      [Goldilocks.ofWord 5, .ofWord 7, .ofWord 11, .ofWord 13].toFinset.card := by decide
  refine ⟨hheight, hposed, halphas, by decide +kernel, ?_⟩
  rw [Ne, firstBroken_eq_none_iff_runningProduct hheight hposed halphas, List.forall_mem_cons,
    not_and_or]
  left
  decide

end CrossLookup
