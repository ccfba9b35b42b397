import CrossLookup.Proofs.Constraint.RunningProduct

/-!
# Locating a tampered running product

On every row one of the two constraints of a running product is switched off.
When the values of a single product are replaced, a row therefore has at most
one residual that is not zero, and no fold by an alpha other than zero hides it.
The check reports the first row at which the new values break their recurrence.
-/

namespace CrossLookup

theorem compressed_append (alpha : Goldilocks) (before after : List Goldilocks) :
    compressed alpha (before ++ after) =
      compressed alpha after * alpha ^ before.length + compressed alpha before := by
  induction before with
  | nil =>
      rw [List.nil_append, List.length_nil, pow_zero, mul_one]
      exact (add_zero _).symm
  | cons first rest ih =>
      calc
        compressed alpha (first :: rest ++ after) =
            compressed alpha (rest ++ after) * alpha + first := rfl
        _ = compressed alpha after * alpha ^ (rest.length + 1) +
            (compressed alpha rest * alpha + first) := by rw [ih]; ring
        _ = compressed alpha after * alpha ^ (first :: rest).length +
            compressed alpha (first :: rest) := rfl

section Fold

variable {frame : Frame Goldilocks} {selectors : Selectors Goldilocks} {alphas : List Goldilocks}
  {before after : List (OpenedProduct Goldilocks Goldilocks)}
  {opened : OpenedProduct Goldilocks Goldilocks}

/-- Beside residuals that vanish, those of a single product are folded to a multiple of their own
fold by a power. -/
theorem compressed_lookupResiduals_single (alpha : Goldilocks)
    (hbefore : ∀ residual ∈ lookupResiduals frame selectors before, residual = 0)
    (hafter : ∀ residual ∈ lookupResiduals frame selectors after, residual = 0) :
    compressed alpha (lookupResiduals frame selectors (before ++ opened :: after)).reverse =
      compressed alpha (opened.residuals frame selectors).reverse *
        alpha ^ (lookupResiduals frame selectors after).length := by
  have hzero {residuals : List Goldilocks} (h : ∀ residual ∈ residuals, residual = 0) :
      compressed alpha residuals.reverse = 0 :=
    compressed_of_forall_eq_zero (by simpa only [List.mem_reverse] using h) alpha
  have hsplit : lookupResiduals frame selectors (before ++ opened :: after) =
      lookupResiduals frame selectors before ++
        (opened.residuals frame selectors ++ lookupResiduals frame selectors after) := by
    rw [lookupResiduals, List.flatMap_append, List.flatMap_cons]
    rfl
  rw [hsplit, List.reverse_append, List.reverse_append, List.append_assoc, compressed_append,
    compressed_append, hzero hbefore, hzero hafter, zero_mul, zero_add, add_zero,
    List.length_reverse]

/-- Residuals of a single product, one of whose constraints is switched off, are not hidden by an
alpha other than zero. -/
theorem residuals_of_allZero (halphas : ∃ alpha ∈ alphas, alpha ≠ 0)
    (hselectors : selectors.last = 0 ∨ selectors.zLast = 0)
    (hbefore : ∀ residual ∈ lookupResiduals frame selectors before, residual = 0)
    (hafter : ∀ residual ∈ lookupResiduals frame selectors after, residual = 0)
    (h : (checkLookups frame (before ++ opened :: after) (.start alphas selectors)).allZero =
      true) :
    ∀ residual ∈ opened.residuals frame selectors, residual = 0 := by
  obtain ⟨alpha, halpha, hne⟩ := halphas
  let last := (opened.z - opened.select frame) * selectors.last
  let transition := (opened.nextZ * opened.select frame - opened.z) * selectors.zLast
  have hfold := allZero_checkLookups_iff.mp h alpha halpha
  rw [compressed_lookupResiduals_single alpha hbefore hafter, mul_eq_zero] at hfold
  have hpair : last * alpha + transition = 0 := by
    calc
      last * alpha + transition = (0 * alpha + last) * alpha + transition := by ring
      _ = compressed alpha (opened.residuals frame selectors).reverse := rfl
      _ = 0 := hfold.resolve_right (pow_ne_zero _ hne)
  have hboth : last = 0 ∧ transition = 0 := by
    rcases hselectors with hoff | hoff
    · have hlast : last = 0 := by simp only [last, hoff, mul_zero]
      rw [hlast, zero_mul, zero_add] at hpair
      exact ⟨hlast, hpair⟩
    · have htransition : transition = 0 := by simp only [transition, hoff, mul_zero]
      rw [htransition, add_zero, mul_eq_zero] at hpair
      exact ⟨hpair.resolve_right hne, htransition⟩
  exact List.forall_mem_cons.mpr ⟨hboth.1, List.forall_mem_singleton.mpr hboth.2⟩

end Fold

namespace RunningProduct

/-- The same side and challenge with other values. -/
def withValues (product : RunningProduct) (values : Array Goldilocks) : RunningProduct :=
  { product with values := values }

/-- The combined payload of a row where the filter is one, and one where it is zero. Past the last
row every cell reads zero, which under the last-row rule is the same as reading the first row. -/
def selectAt (product : RunningProduct) (trace : Trace) (row : Nat) : Goldilocks :=
  filterValue product.filter trace row *
      product.challenge.combine (payload product.columns trace row) +
    1 - filterValue product.filter trace row

/-- The value on a row is not the one that the row and the value after it determine. -/
def BreaksAt (product : RunningProduct) (trace : Trace) (row : Nat) : Prop :=
  row + 1 < trace.height ∧
      product.values.getD row 0 ≠
        product.values.getD (row + 1) 0 * product.selectAt trace row ∨
    row + 1 = trace.height ∧ product.values.getD row 0 ≠ product.selectAt trace row

instance (product : RunningProduct) (trace : Trace) (row : Nat) :
    Decidable (product.BreaksAt trace row) :=
  inferInstanceAs (Decidable (_ ∨ _))

variable {trace : Trace} {product : RunningProduct} {row : Nat}

theorem selectAt_eq_factor (hbinary : BinaryFilter product.filter trace)
    (hrow : row < trace.height) : product.selectAt trace row = product.factor trace row := by
  rcases hbinary row hrow with h | h
  · rw [selectAt, factor, rowFactor_of_zero _ _ h, h, zero_mul, zero_add, sub_zero]
  · rw [selectAt, factor, rowFactor_of_one _ _ h, h, one_mul, add_sub_cancel_right]

theorem lt_height_of_breaksAt (h : product.BreaksAt trace row) : row < trace.height := by
  rcases h with ⟨hlt, _⟩ | ⟨hlast, _⟩
  · exact Nat.lt_of_succ_lt hlt
  · exact Nat.lt_of_succ_le hlast.le

/-- The residuals vanish on the rows that the values do not break. -/
theorem residuals_eq_zero_iff_not_breaksAt (hposed : product.WellPosed trace)
    (hrow : row < trace.height) :
    (∀ residual ∈ (product.openAt trace row).residuals (trace.frame row)
        (.ofRow row trace.height), residual = 0) ↔ ¬product.BreaksAt trace row := by
  rw [residuals_eq_zero_iff hposed hrow, BreaksAt, selectAt_eq_factor hposed.binary hrow]
  by_cases hlast : row + 1 = trace.height
  · simp only [hlast, lt_irrefl, if_true, false_and, true_and, false_or, not_not]
  · have hlt : row + 1 < trace.height := Nat.lt_of_le_of_ne hrow hlast
    simp only [hlast, hlt, if_false, false_and, true_and, or_false, not_not]

theorem WellPosed.withValues (hposed : product.WellPosed trace) {values : Array Goldilocks}
    (hsize : values.size = trace.height) : (product.withValues values).WellPosed trace where
  binary := hposed.binary
  lastRow := hposed.lastRow
  size_eq := hsize

/-- Only the running product of the side breaks no row. -/
theorem not_breaksAt_iff_eq (hposed : product.WellPosed trace)
    (hproduct : runningProduct trace product.columns product.filter product.challenge =
      .ok product.values.toList)
    {values : Array Goldilocks} (hsize : values.size = trace.height) :
    (∀ row < trace.height, ¬(product.withValues values).BreaksAt trace row) ↔
      values = product.values := by
  have hposed' := hposed.withValues hsize
  rcases Nat.eq_zero_or_pos trace.height with hempty | hheight
  · refine iff_of_true (fun row hrow => absurd (hempty ▸ hrow) row.not_lt_zero) ?_
    rw [Array.eq_empty_of_size_eq_zero (hsize.trans hempty),
      Array.eq_empty_of_size_eq_zero (hposed.size_eq.trans hempty)]
  · calc
      (∀ row < trace.height, ¬(product.withValues values).BreaksAt trace row) ↔
          ∀ row < trace.height,
            ∀ residual ∈ ((product.withValues values).openAt trace row).residuals
              (trace.frame row) (.ofRow row trace.height), residual = 0 :=
        forall₂_congr fun row hrow => (residuals_eq_zero_iff_not_breaksAt hposed' hrow).symm
      _ ↔ runningProduct trace product.columns product.filter product.challenge =
          .ok values.toList :=
        residuals_iff_runningProduct hheight hposed'
      _ ↔ values = product.values := by
        rw [hproduct, Except.ok.injEq, Array.toList_inj, eq_comm]

end RunningProduct

section Single

variable {trace : Trace} {alphas : List Goldilocks} {before after : List RunningProduct}
  {product : RunningProduct} {row : Nat}

/-- Beside running products of their sides, a single product decides whether a row holds. -/
theorem rowHolds_iff_not_breaksAt (halphas : ∃ alpha ∈ alphas, alpha ≠ 0)
    (hothers : ∀ other ∈ before ++ after, other.WellPosed trace ∧
      runningProduct trace other.columns other.filter other.challenge = .ok other.values.toList)
    (hposed : product.WellPosed trace) (hrow : row < trace.height) :
    trace.rowHolds (before ++ product :: after) alphas row = true ↔
      ¬product.BreaksAt trace row := by
  have hheight : 0 < trace.height := Nat.zero_lt_of_lt hrow
  have hzero (others : List RunningProduct) (h : ∀ other ∈ others, other ∈ before ++ after) :
      ∀ residual ∈ lookupResiduals (trace.frame row) (.ofRow row trace.height)
        (others.map fun other => other.openAt trace row), residual = 0 := by
    rw [forall_mem_lookupResiduals]
    intro other hother
    obtain ⟨hposed, hproduct⟩ := hothers other (h other hother)
    exact (residuals_iff_runningProduct hheight hposed).mpr hproduct row hrow
  have hbefore := hzero before fun _ => List.mem_append_left after
  have hafter := hzero after fun _ => List.mem_append_right before
  have hselectors : (Selectors.ofRow row trace.height : Selectors Goldilocks).last = 0 ∨
      (Selectors.ofRow row trace.height : Selectors Goldilocks).zLast = 0 := by
    rw [Selectors.last_ofRow, Selectors.zLast_ofRow]
    by_cases hlast : row + 1 = trace.height
    · exact Or.inr (if_pos hlast)
    · exact Or.inl (if_neg hlast)
  rw [← product.residuals_eq_zero_iff_not_breaksAt hposed hrow, Trace.rowHolds, Trace.foldRow,
    List.map_append, List.map_cons]
  constructor
  · exact residuals_of_allZero halphas hselectors hbefore hafter
  · intro h
    apply allZero_of_lookupResiduals
    rw [lookupResiduals, List.flatMap_append, List.flatMap_cons]
    exact List.forall_mem_append.mpr ⟨hbefore, List.forall_mem_append.mpr ⟨h, hafter⟩⟩

/-- Beside running products of their sides, the check reports the first row that a single product
breaks. -/
theorem firstBroken_single (hcolumns : trace.isEmpty = false)
    (halphas : ∃ alpha ∈ alphas, alpha ≠ 0)
    (hothers : ∀ other ∈ before ++ after, other.WellPosed trace ∧
      runningProduct trace other.columns other.filter other.challenge = .ok other.values.toList)
    (hposed : product.WellPosed trace) :
    ∃ result, trace.firstBroken (before ++ product :: after) alphas = .ok result ∧
      (∀ row, result = some row ↔ IsLeast {row | product.BreaksAt trace row} row) ∧
      (result = none ↔ ∀ row < trace.height, ¬product.BreaksAt trace row) := by
  have hholds : ∀ row < trace.height,
      (trace.rowHolds (before ++ product :: after) alphas row = true ↔
        ¬product.BreaksAt trace row) :=
    fun row hrow => rowHolds_iff_not_breaksAt halphas hothers hposed hrow
  have hbroken : ∀ row, (row < trace.height ∧
      (!trace.rowHolds (before ++ product :: after) alphas row) = true) ↔
        product.BreaksAt trace row := by
    intro row
    constructor
    · rintro ⟨hrow, hnot⟩
      by_contra h
      rw [(hholds row hrow).mpr h] at hnot
      cases hnot
    · intro h
      have hrow := RunningProduct.lt_height_of_breaksAt h
      refine ⟨hrow, ?_⟩
      rw [Bool.not_eq_true', ← Bool.not_eq_true, hholds row hrow]
      exact not_not_intro h
  refine ⟨_, firstBroken_eq hcolumns, ?_, ?_⟩
  · intro row
    rw [find?_range_eq_some_iff_isLeast]
    simp only [hbroken]
  · rw [List.find?_range_eq_none]
    apply forall₂_congr
    intro row hrow
    rw [Bool.not_not, hholds row hrow]

end Single

/-- When the values of one running product of a table are replaced, the check returns the least
row that the new values break, and nothing exactly when they are the old ones. -/
theorem firstBroken_tampered {traces : PerTable Trace} {lookups : List Lookup}
    {challenges : ChallengeSet Goldilocks} {products : PerTable (List RunningProduct)}
    (hproducts : lookupProducts traces lookups challenges = .ok products) {table : Table}
    (hlast : ∀ lookup ∈ lookups, ∀ side ∈ lookup.sides, side.table = table →
      LastRowRule (traces.get table) side.columns side.filter)
    {index : Nat} {product : RunningProduct}
    (hproduct : (products.get table)[index]? = some product)
    {values : Array Goldilocks} (hsize : values.size = (traces.get table).height)
    {alphas : List Goldilocks} (halphas : ∃ alpha ∈ alphas, alpha ≠ 0) :
    ∃ result, (traces.get table).firstBroken
        ((products.get table).set index (product.withValues values)) alphas = .ok result ∧
      (∀ row, result = some row ↔
        IsLeast {row | (product.withValues values).BreaksAt (traces.get table) row} row) ∧
      (result = none ↔ values = product.values) := by
  have hhonest := honest_of_mem_products hproducts hlast
  obtain ⟨hindex, hget⟩ := List.getElem?_eq_some_iff.mp hproduct
  obtain ⟨hposed, hrunning⟩ := hhonest product (hget ▸ List.getElem_mem hindex)
  have hothers : ∀ other ∈
      (products.get table).take index ++ (products.get table).drop (index + 1),
      other.WellPosed (traces.get table) ∧
        runningProduct (traces.get table) other.columns other.filter other.challenge =
          .ok other.values.toList :=
    List.forall_mem_append.mpr ⟨fun other h => hhonest other (List.mem_of_mem_take h),
      fun other h => hhonest other (List.mem_of_mem_drop h)⟩
  rw [List.set_eq_take_append_cons_drop, if_pos hindex,
    ← RunningProduct.not_breaksAt_iff_eq hposed hrunning hsize]
  exact firstBroken_single (binary_of_runningProduct hrunning).1 halphas hothers
    (hposed.withValues hsize)

/-- The running product of the CPU side that reads the next row. -/
def nextRowProduct : RunningProduct :=
  Side.running ⟨.cpu, [.single 0, .singleNextRow 0], some (.singleNextRow 1)⟩ nextRowTraces
    ⟨.ofWord 2, .ofWord 3⟩

/-- Zeros on the first three rows hide that the first two were changed. -/
theorem firstBroken_tampered_nextRow :
    (∀ lookup ∈ [nextRowLookup], ∀ side ∈ lookup.sides, side.table = .cpu →
      LastRowRule (nextRowTraces.get .cpu) side.columns side.filter) ∧
    (∃ alpha ∈ [0, Goldilocks.ofWord 5], alpha ≠ 0) ∧
    ∃ products,
      lookupProducts nextRowTraces [nextRowLookup] [⟨.ofWord 2, .ofWord 3⟩] = .ok products ∧
        (products.get .cpu)[0]? = some nextRowProduct ∧
        (nextRowTraces.get .cpu).firstBroken ((products.get .cpu).set 0
            (nextRowProduct.withValues #[0, 0, 0, 1, 1])) [0, .ofWord 5] = .ok (some 2) := by
  have halphas : ∃ alpha ∈ [0, Goldilocks.ofWord 5], alpha ≠ 0 := by decide
  have hproducts := lookupProducts_of_selectable [⟨.ofWord 2, .ofWord 3⟩] nextRow_selectable
  have hsize : (#[0, 0, 0, 1, 1] : Array Goldilocks).size = (nextRowTraces.get .cpu).height := by
    decide
  have hproduct : ((groupByTable ((schedule [nextRowLookup]
      [(⟨.ofWord 2, .ofWord 3⟩ : Challenge Goldilocks)]).map fun entry =>
        (entry.1.table, entry.1.running nextRowTraces entry.2))).get .cpu)[0]? =
      some nextRowProduct := by
    decide +kernel
  refine ⟨nextRow_lastRowRule, halphas, _, hproducts, hproduct, ?_⟩
  obtain ⟨result, hresult, hleast, _⟩ :=
    firstBroken_tampered hproducts nextRow_lastRowRule hproduct hsize halphas
  rw [hresult, (hleast 2).mpr]
  refine ⟨by decide +kernel, ?_⟩
  intro row hbroken
  by_contra hlt
  have hkept : ∀ earlier < 2, ¬(nextRowProduct.withValues #[0, 0, 0, 1, 1]).BreaksAt
      (nextRowTraces.get .cpu) earlier := by
    decide +kernel
  exact hkept row (Nat.lt_of_not_le hlt) hbroken

end CrossLookup
