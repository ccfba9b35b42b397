import CrossLookup.Constraint.Scan
import CrossLookup.Proofs.Constraint.Map
import CrossLookup.Proofs.Field.Lanes

/-!
# The scan over all rows

Each lane of a group folds the constraints of its own row. In whatever order
the groups are visited, the row reported is the first at which the constraints
do not hold.
-/

namespace CrossLookup

theorem Lanes.isMorphism_lane (i : Fin 4) : IsMorphism (lane i) where
  zero := lane_zero i
  one := lane_one i
  add := lane_add i
  sub := lane_sub i
  mul := lane_mul i
  ofBase := lane_broadcast i
  scale a s := (lane_mul i a (broadcast s)).trans (congrArg _ (lane_broadcast i s))
  addBase a s := (lane_add i a (broadcast s)).trans (congrArg _ (lane_broadcast i s))

section Lane

variable (i : Fin 4)

theorem get_groupRows (group : Nat) : (groupRows group).get i = group * 4 + i :=
  Vector.getElem_ofFn i.isLt

theorem lane_map (f : Nat → Goldilocks) (rows : Vector Nat 4) :
    (⟨rows.map f⟩ : Lanes).lane i = f (rows.get i) :=
  Vector.getElem_map f i.isLt

theorem lane_gather (column : Array Goldilocks) (rows : Vector Nat 4) :
    (gather column rows).lane i = column.getD (rows.get i) 0 :=
  lane_map i _ rows

theorem map_lane_gather (trace : Trace) (rows : Vector Nat 4) :
    (trace.columns.map fun column => gather column rows).map (Lanes.lane i) =
      trace.row (rows.get i) := by
  rw [Array.map_map]
  exact Array.map_congr_left fun column _ => lane_gather i column rows

theorem map_lane_ofRows (rows : Vector Nat 4) (n : Nat) :
    (Selectors.ofRows rows n).map (Lanes.lane i) = Selectors.ofRow (rows.get i) n := by
  simp only [Selectors.map, Selectors.ofRows, lane_map]
  rfl

/-- A lane of a group folds the constraints of its row. -/
theorem map_lane_foldGroup (trace : Trace) (products : List RunningProduct)
    (alphas : List Goldilocks) (group : Nat) :
    (trace.foldGroup products alphas group).map (Lanes.lane i) =
      trace.foldRow products alphas (group * 4 + i) := by
  have hnext : ((groupRows group).map trace.cyclicNext).get i =
      trace.cyclicNext (group * 4 + i) := by
    rw [← get_groupRows i group]
    exact Vector.getElem_map _ i.isLt
  simp only [Trace.foldGroup, Trace.foldRow, (Lanes.isMorphism_lane i).map_checkLookups,
    (Lanes.isMorphism_lane i).map_start, map_lane_ofRows, Frame.map, map_lane_gather, hnext,
    get_groupRows, List.map_map]
  congr 1
  apply List.map_congr_left
  intro product _
  simp only [Function.comp_apply, OpenedProduct.map, lane_gather, hnext, get_groupRows]
  rfl

end Lane

variable {trace : Trace} {products : List RunningProduct} {alphas : List Goldilocks}

/-- A group reports those of its rows at which the constraints do not hold. -/
theorem mem_brokenInGroup {group row : Nat} :
    row ∈ trace.brokenInGroup products alphas group ↔
      row / 4 = group ∧ trace.rowHolds products alphas row = false := by
  have hlane : ∀ i : Fin 4,
      ((trace.foldGroup products alphas group).values.any fun value =>
          !(value.lanes.get i).isZero) =
        !trace.rowHolds products alphas (group * 4 + i) := by
    intro i
    rw [Trace.rowHolds, Accumulator.allZero, ← map_lane_foldGroup i, Accumulator.map,
      List.all_map, List.not_all_eq_any_not]
    rfl
  simp only [Trace.brokenInGroup, List.mem_filterMap, List.mem_finRange, true_and,
    Option.ite_none_right_eq_some, Option.some.injEq, hlane, Bool.not_eq_true', get_groupRows]
  constructor
  · rintro ⟨i, hbroken, rfl⟩
    exact ⟨by omega, hbroken⟩
  · rintro ⟨rfl, hbroken⟩
    have hrow : row / 4 * 4 + row % 4 = row := Nat.div_add_mod' row 4
    refine ⟨⟨row % 4, Nat.mod_lt row (by decide)⟩, ?_, hrow⟩
    rw [hrow]
    exact hbroken

/-- Keeping the least row found takes the minimum. -/
theorem foldl_keepLeast (best : Option Nat) (rows : List Nat) :
    rows.foldl keepLeast best = (best.toList ++ rows).min? := by
  induction rows generalizing best with
  | nil => cases best <;> rfl
  | cons row rest ih =>
      rw [List.foldl_cons, ih]
      cases best with
      | none => rfl
      | some least => rfl

/-- The least of some broken rows is the first broken row when an earlier one is never missed. -/
theorem min?_eq_find?_range {broken : Nat → Bool} {n : Nat} {found : List Nat}
    (hsound : ∀ row ∈ found, row < n ∧ broken row = true)
    (hcover : ∀ row < n, broken row = true → ∃ earlier ∈ found, earlier ≤ row) :
    found.min? = (List.range n).find? broken := by
  cases h : (List.range n).find? broken with
  | none =>
      rw [List.min?_eq_none_iff, List.eq_nil_iff_forall_not_mem]
      intro row hrow
      obtain ⟨hlt, hbroken⟩ := hsound row hrow
      exact List.find?_eq_none.mp h row (List.mem_range.mpr hlt) hbroken
  | some first =>
      obtain ⟨hbroken, hfirst, hbefore⟩ := List.find?_range_eq_some.mp h
      have hle : ∀ row ∈ found, first ≤ row := by
        intro row hrow
        by_contra hlt
        have hholds := hbefore row (Nat.lt_of_not_le hlt)
        rw [(hsound row hrow).2] at hholds
        cases hholds
      obtain ⟨earlier, hmem, hearlier⟩ := hcover first (List.mem_range.mp hfirst) hbroken
      have heq : first = earlier := Nat.le_antisymm (hle earlier hmem) hearlier
      exact List.min?_eq_some_iff.mpr ⟨heq ▸ hmem, hle⟩

/-- The rows that do not fill a group. -/
def Trace.restRows (trace : Trace) : List Nat :=
  List.range' (trace.height / 4 * 4) (trace.height - trace.height / 4 * 4)

theorem Trace.mem_restRows {row : Nat} :
    row ∈ trace.restRows ↔ trace.height / 4 ≤ row / 4 ∧ row < trace.height := by
  rw [restRows, List.mem_range'_1]
  omega

variable (trace products alphas) in
theorem scanGroups_eq_min? (order : List Nat) :
    trace.scanGroups products alphas order =
      (order.flatMap (trace.brokenInGroup products alphas) ++
        (trace.restRows.find? fun row => !trace.rowHolds products alphas row).toList).min? := by
  have hfold := foldl_keepLeast none (order.flatMap (trace.brokenInGroup products alphas) ++
    (trace.restRows.find? fun row => !trace.rowHolds products alphas row).toList)
  rw [List.foldl_append, List.foldl_flatMap, Option.toList_none, List.nil_append] at hfold
  rw [← hfold, Trace.restRows]
  simp only [Trace.scanGroups]
  split
  · next row h =>
    rw [h]
    rfl
  · next h =>
    rw [h]
    rfl

/-- The scan finds the first broken row, in whatever order the groups are visited. -/
theorem scanGroups_eq_find? {order : List Nat}
    (horder : ∀ group, group ∈ order ↔ group < trace.height / 4) :
    trace.scanGroups products alphas order =
      (List.range trace.height).find? fun row => !trace.rowHolds products alphas row := by
  rw [scanGroups_eq_min?]
  apply min?_eq_find?_range
  · intro row hrow
    rcases List.mem_append.mp hrow with hgroup | hrest
    · obtain ⟨group, hmem, hrow⟩ := List.mem_flatMap.mp hgroup
      obtain ⟨rfl, hholds⟩ := mem_brokenInGroup.mp hrow
      have hlt := (horder _).mp hmem
      exact ⟨by omega, congrArg not hholds⟩
    · obtain ⟨hbroken, hmem, _⟩ := List.find?_range'_eq_some.mp (Option.mem_toList.mp hrest)
      exact ⟨(Trace.mem_restRows.mp hmem).2, hbroken⟩
  · intro row hlt hbroken
    rcases Nat.lt_or_ge (row / 4) (trace.height / 4) with hgroup | hrest
    · have hmem : row ∈ trace.brokenInGroup products alphas (row / 4) :=
        mem_brokenInGroup.mpr ⟨rfl, (Bool.not_eq_true' _).mp hbroken⟩
      exact ⟨row, List.mem_append_left _ (List.mem_flatMap.mpr ⟨_, (horder _).mpr hgroup, hmem⟩),
        le_rfl⟩
    · have hmem : row ∈ trace.restRows := Trace.mem_restRows.mpr ⟨hrest, hlt⟩
      cases hfind : trace.restRows.find? fun row => !trace.rowHolds products alphas row with
      | none => exact absurd hbroken (List.find?_eq_none.mp hfind row hmem)
      | some first =>
          refine ⟨first, List.mem_append_right _ (List.mem_singleton_self first), ?_⟩
          by_contra hlater
          obtain ⟨_, hfirst, hbefore⟩ := List.find?_range'_eq_some.mp hfind
          have hholds := hbefore row (List.mem_range'_1.mp hmem).1 (Nat.lt_of_not_le hlater)
          rw [hbroken] at hholds
          cases hholds

theorem rowHolds_of_isEmpty (h : products.isEmpty = true) (row : Nat) :
    trace.rowHolds products alphas row = true := by
  rw [List.isEmpty_iff.mp h, Trace.rowHolds, Trace.foldRow, Accumulator.allZero]
  exact List.all_eq_true.mpr (List.forall_mem_map.mpr fun _ _ => rfl)

/-- The constraints of a table with columns are checked on every row. -/
theorem firstBroken_eq (h : trace.isEmpty = false) :
    trace.firstBroken products alphas =
      .ok ((List.range trace.height).find? fun row => !trace.rowHolds products alphas row) := by
  unfold Trace.firstBroken
  rw [if_neg (Bool.eq_false_iff.mp h)]
  split
  · next hproducts =>
    have hnone : ((List.range trace.height).find? fun row =>
        !trace.rowHolds products alphas row) = none := by
      rw [List.find?_range_eq_none]
      intro row _
      rw [rowHolds_of_isEmpty hproducts]
      rfl
    rw [hnone]
  · rw [scanGroups_eq_find? fun group => List.mem_range]

/-- No row is reported exactly when the constraints hold at every row. -/
theorem firstBroken_eq_none_iff (h : trace.isEmpty = false) :
    trace.firstBroken products alphas = .ok none ↔
      ∀ row < trace.height, trace.rowHolds products alphas row = true := by
  rw [firstBroken_eq h, Except.ok.injEq, List.find?_range_eq_none]
  simp only [Bool.not_not]

/-- The first index found below a bound is the least of those that satisfy the predicate. -/
theorem find?_range_eq_some_iff_isLeast {p : Nat → Bool} {n index : Nat} :
    (List.range n).find? p = some index ↔ IsLeast {i | i < n ∧ p i = true} index := by
  rw [List.find?_range_eq_some, List.mem_range]
  constructor
  · rintro ⟨hp, hlt, hbefore⟩
    refine ⟨⟨hlt, hp⟩, ?_⟩
    rintro i ⟨_, hi⟩
    by_contra hle
    have hnot := hbefore i (Nat.lt_of_not_le hle)
    rw [hi] at hnot
    cases hnot
  · rintro ⟨⟨hlt, hp⟩, hleast⟩
    refine ⟨hp, hlt, ?_⟩
    intro i hi
    rw [Bool.not_eq_true', ← Bool.not_eq_true]
    intro hpi
    exact Nat.not_lt_of_le (hleast ⟨hi.trans hlt, hpi⟩) hi

/-- In whatever order the groups of four are visited, the check reports the least row at which the
constraints evaluated as scalars do not hold, and nothing when they hold at every row. -/
theorem scanGroups_reports_least (hcolumns : trace.isEmpty = false) {order : List Nat}
    (horder : order.Perm (List.range (trace.height / 4))) :
    trace.firstBroken products alphas = .ok (trace.scanGroups products alphas order) ∧
    (∀ row, trace.scanGroups products alphas order = some row ↔
      IsLeast {row | row < trace.height ∧ trace.rowHolds products alphas row = false} row) ∧
    (trace.scanGroups products alphas order = none ↔
      ∀ row < trace.height, trace.rowHolds products alphas row = true) := by
  have hscan : trace.scanGroups products alphas order =
      (List.range trace.height).find? fun row => !trace.rowHolds products alphas row :=
    scanGroups_eq_find? fun group => horder.mem_iff.trans List.mem_range
  refine ⟨?_, ?_, ?_⟩
  · rw [firstBroken_eq hcolumns, hscan]
  · intro row
    rw [hscan, find?_range_eq_some_iff_isLeast]
    simp only [Bool.not_eq_true']
  · rw [hscan, List.find?_range_eq_none]
    simp only [Bool.not_not]

/-- Nine rows, of which the third and the seventh are selected. -/
def scannedTrace : Trace :=
  .ofColumns [[3, 1, 4, 1, 5, 9, 2, 6, 5], [0, 0, 1, 0, 0, 0, 1, 0, 0]]

/-- Ones in place of the running product of the selected rows. -/
def scannedProduct : RunningProduct where
  values := Array.replicate 9 1
  challenge := ⟨.ofWord 2, .ofWord 3⟩
  columns := [.single 0]
  filter := some (.single 1)

/-- With the second group visited first, the row of the first group is reported. -/
theorem scanGroups_reports_least_reversed :
    scannedTrace.isEmpty = false ∧ [1, 0].Perm (List.range (scannedTrace.height / 4)) ∧
    scannedTrace.rowHolds [scannedProduct] [.ofWord 5] 6 = false ∧
    scannedTrace.scanGroups [scannedProduct] [.ofWord 5] [1, 0] = some 2 := by
  have hcolumns : scannedTrace.isEmpty = false := by decide
  have horder : [1, 0].Perm (List.range (scannedTrace.height / 4)) := by decide
  refine ⟨hcolumns, horder, by decide +kernel, ?_⟩
  rw [(scanGroups_reports_least hcolumns horder).2.1]
  refine ⟨by decide +kernel, ?_⟩
  rintro row ⟨_, hbroken⟩
  by_contra hlt
  have hholds : ∀ earlier < 2,
      scannedTrace.rowHolds [scannedProduct] [.ofWord 5] earlier = true := by
    decide +kernel
  rw [hholds row (Nat.lt_of_not_le hlt)] at hbroken
  cases hbroken

end CrossLookup
