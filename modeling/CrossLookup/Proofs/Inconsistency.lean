import CrossLookup.Proofs.Consistency

/-!
# What the direct check reports

The check without randomness answers either way with evidence: it accepts when
the lookups agree as multisets, and an inconsistency that it reports is found in
the traces, under the lookup it names and with the numbers it gives.
-/

namespace CrossLookup

variable {traces : PerTable Trace} {extraRows : ExtraRows} {lookup : Lookup} {index : Nat}

/-- What an inconsistency says of a lookup and of its place among the lookups. -/
def Inconsistency.Describes (traces : PerTable Trace) (extraRows : ExtraRows) (lookup : Lookup)
    (index : Nat) : Inconsistency → Prop
  | .noColumns table =>
      ∃ side ∈ lookup.sides, side.table = table ∧ (traces.get table).isEmpty = true
  | .nonBinaryFilter value table row =>
      value ≠ 0 ∧ value ≠ 1 ∧ row < (traces.get table).height ∧
        ∃ side ∈ lookup.sides, side.table = table ∧
          filterValue side.filter (traces.get table) row = value
  | .mismatch reported row looking looked =>
      reported = index ∧ looking.length ≠ looked.length ∧
        looking.length = (lookup.lookingRows traces extraRows).count row ∧
        looked.length = (lookup.lookedRows traces).count row

theorem not_binary_of_selectRow {trace : Trace} {side : Side} {row : Nat} {e : Inconsistency}
    (h : selectRow trace side row = .error e) :
    e = .nonBinaryFilter (filterValue side.filter trace row) side.table row ∧
      filterValue side.filter trace row ≠ 0 ∧ filterValue side.filter trace row ≠ 1 := by
  have hbinary : ¬(filterValue side.filter trace row = 0 ∨
      filterValue side.filter trace row = 1) := by
    intro hbinary
    rw [selectRow_of_binary hbinary] at h
    cases h
  obtain ⟨hzero, hone⟩ := not_or.mp hbinary
  simp only [selectRow, Goldilocks.isOne_iff, Goldilocks.isZero_iff, hzero, hone, if_false] at h
  exact ⟨(Except.error.inj h).symm, hzero, hone⟩

/-- A side from which nothing can be selected lacks its columns or has a filter to blame. -/
theorem describes_of_selectedRows {side : Side} (hside : side ∈ lookup.sides)
    {e : Inconsistency} (h : selectedRows traces side = .error e) :
    e.Describes traces extraRows lookup index := by
  cases hempty : (traces.get side.table).isEmpty with
  | true =>
      simp only [selectedRows, hempty, if_true] at h
      cases h
      exact ⟨side, hside, rfl, hempty⟩
  | false =>
      simp only [selectedRows, hempty, Bool.false_eq_true, if_false] at h
      rcases Except.bind_eq_error_iff.mp h with hrows | ⟨_, _, h⟩
      · obtain ⟨row, hrow, hselect⟩ := Except.exists_error_of_mapM_eq_error hrows
        obtain ⟨rfl, hzero, hone⟩ := not_binary_of_selectRow hselect
        exact ⟨hzero, hone, List.mem_range.mp hrow, side, hside, rfl, rfl⟩
      · cases h

/-- A row at which comparison stops differs in number, as reported. -/
theorem describes_of_compareRows {looking looked : List LocatedRow}
    (hlooking : looking.map LocatedRow.row = lookup.lookingRows traces extraRows)
    (hlooked : looked.map LocatedRow.row = lookup.lookedRows traces)
    {rows : List (List Goldilocks)} {e : Inconsistency}
    (h : rows.forM (compareRow index looking looked) = .error e) :
    e.Describes traces extraRows lookup index := by
  obtain ⟨row, _, hrow⟩ := Except.exists_error_of_forM_eq_error h
  rw [compareRow] at hrow
  by_cases hequal : (looking.filter fun r => r.row = row).length =
      (looked.filter fun r => r.row = row).length
  · rw [if_pos hequal] at hrow
    cases hrow
  · rw [if_neg hequal] at hrow
    cases hrow
    refine ⟨rfl, hequal, ?_, ?_⟩
    · rw [length_filter_row, hlooking]
    · rw [length_filter_row, hlooked]

/-- A lookup is refused only for an inconsistency that it has. -/
theorem describes_of_checkLookup {e : Inconsistency}
    (h : checkLookup traces extraRows index lookup = .error e) :
    e.Describes traces extraRows lookup index := by
  rcases Except.bind_eq_error_iff.mp h with hfrom | ⟨fromTraces, hfrom, h⟩
  · obtain ⟨side, hside, hselect⟩ := Except.exists_error_of_mapM_eq_error hfrom
    exact describes_of_selectedRows (List.mem_append_left _ hside) hselect
  rcases Except.bind_eq_error_iff.mp h with hlooked | ⟨looked, hlooked, h⟩
  · exact describes_of_selectedRows
      (List.mem_append_right _ (List.mem_singleton_self _)) hlooked
  obtain ⟨_, rfl⟩ := mapM_selectedRows_eq_ok_iff.mp hfrom
  obtain ⟨_, rfl⟩ := selectedRows_eq_ok_iff.mp hlooked
  have hlooking := map_row_looking lookup traces extraRows
  have hlooked := lookup.looked.map_row_locatedRows traces
  rcases Except.bind_eq_error_iff.mp h with hfirst | ⟨_, _, hsecond⟩
  · exact describes_of_compareRows hlooking hlooked hfirst
  · exact describes_of_compareRows hlooking hlooked hsecond

/-- The check of all lookups reports an inconsistency of the lookup at the place it names. -/
theorem describes_of_checkConsistency {lookups : List Lookup} {e : Inconsistency}
    (h : checkConsistency traces lookups extraRows = .error e) :
    ∃ index lookup, lookups[index]? = some lookup ∧
      e.Describes traces extraRows lookup index := by
  obtain ⟨⟨lookup, index⟩, hentry, hlookup⟩ := Except.exists_error_of_forM_eq_error h
  exact ⟨index, lookup, List.mem_zipIdx_iff_getElem?.mp hentry,
    describes_of_checkLookup hlookup⟩

theorem Trace.isEmpty_eq_false_iff {trace : Trace} :
    trace.isEmpty = false ↔ 0 < trace.columns.size := by
  rw [isEmpty, Array.isEmpty_eq_false_iff, Array.size_pos_iff]

/-- The check accepts exactly when every participating table has columns, every filter is zero or
one on every row, and for each lookup the selected looking rows with the rows fed in are a
permutation of the selected looked rows; otherwise it reports an inconsistency of a lookup. -/
theorem checkConsistency_decides_multisets (traces : PerTable Trace) (lookups : List Lookup)
    (extraRows : ExtraRows) :
    (checkConsistency traces lookups extraRows = .ok () ↔
      ∀ lookup ∈ lookups,
        (∀ side ∈ lookup.sides, 0 < (traces.get side.table).columns.size ∧
          ∀ row < (traces.get side.table).height,
            filterValue side.filter (traces.get side.table) row = 0 ∨
              filterValue side.filter (traces.get side.table) row = 1) ∧
        ((lookup.looking.flatMap fun side => side.rows traces) ++
          extraRows.get lookup.looked.table).Perm (lookup.looked.rows traces)) ∧
    (checkConsistency traces lookups extraRows = .ok () ∨
      ∃ e, checkConsistency traces lookups extraRows = .error e ∧
        ∃ index lookup, lookups[index]? = some lookup ∧
          e.Describes traces extraRows lookup index) := by
  constructor
  · rw [checkConsistency_eq_ok_iff]
    apply forall₂_congr
    intro lookup _
    constructor
    · intro h
      exact ⟨fun side hside => ⟨Trace.isEmpty_eq_false_iff.mp (h.selectable side hside).nonempty,
        (h.selectable side hside).binary⟩, h.perm⟩
    · rintro ⟨hsides, hperm⟩
      exact ⟨fun side hside => ⟨Trace.isEmpty_eq_false_iff.mpr (hsides side hside).1,
        (hsides side hside).2⟩, hperm⟩
  · cases h : checkConsistency traces lookups extraRows with
    | ok _ => exact Or.inl rfl
    | error e => exact Or.inr ⟨e, rfl, describes_of_checkConsistency h⟩

end CrossLookup
