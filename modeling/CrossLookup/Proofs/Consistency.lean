import CrossLookup.Consistency
import CrossLookup.Proofs.SelectedRows
import CrossLookup.Proofs.Traversal
import Mathlib.Data.List.Perm.Basic

/-!
# What the direct check decides

The check without randomness accepts a lookup exactly when every side can be
selected from and the selected looking rows, with the rows fed in from outside,
are a permutation of the selected looked rows.
-/

namespace CrossLookup

namespace Lookup

/-- The rows that look something up: those selected from the looking sides, then those fed in. -/
def lookingRows (lookup : Lookup) (traces : PerTable Trace) (extraRows : ExtraRows) :
    List (List Goldilocks) :=
  (lookup.looking.flatMap fun side => side.rows traces) ++ extraRows.get lookup.looked.table

/-- The rows that are looked up. -/
def lookedRows (lookup : Lookup) (traces : PerTable Trace) : List (List Goldilocks) :=
  lookup.looked.rows traces

/-- Every side can be selected from, and looking and looked rows agree as multisets. -/
structure Consistent (lookup : Lookup) (traces : PerTable Trace) (extraRows : ExtraRows) :
    Prop where
  selectable : ∀ side ∈ lookup.sides, side.Selectable traces
  perm : (lookup.lookingRows traces extraRows).Perm (lookup.lookedRows traces)

instance (lookup : Lookup) (traces : PerTable Trace) (extraRows : ExtraRows) :
    Decidable (lookup.Consistent traces extraRows) :=
  decidable_of_iff _ ⟨fun h => ⟨h.1, h.2⟩, fun h => And.intro h.selectable h.perm⟩

end Lookup

namespace Side

/-- The payload row of a side at an index with its place, if the filter selects it. -/
def locate (side : Side) (trace : Trace) (index : Nat) : Option LocatedRow :=
  if selects side.filter trace index then
    some ⟨payload side.columns trace index, side.table, index⟩
  else
    none

/-- The selected rows of a side with the places they come from. -/
def locatedRows (side : Side) (traces : PerTable Trace) : List LocatedRow :=
  (List.range (traces.get side.table).height).filterMap (side.locate (traces.get side.table))

theorem map_row_filterMap_locate (side : Side) (trace : Trace) (indices : List Nat) :
    (indices.filterMap (side.locate trace)).map LocatedRow.row =
      (indices.filter (selects side.filter trace)).map (payload side.columns trace) := by
  induction indices with
  | nil => rfl
  | cons index rest ih =>
      rw [List.filterMap_cons, List.filter_cons]
      by_cases h : selects side.filter trace index = true
      · simp only [locate, h, if_true, List.map_cons, ih]
      · simp only [locate, h, Bool.false_eq_true, if_false, ih]

theorem map_row_locatedRows (side : Side) (traces : PerTable Trace) :
    (side.locatedRows traces).map LocatedRow.row = side.rows traces := by
  rw [locatedRows, map_row_filterMap_locate, List.range_eq_range']
  rfl

end Side

theorem selectRow_of_binary {trace : Trace} {side : Side} {index : Nat}
    (h : filterValue side.filter trace index = 0 ∨ filterValue side.filter trace index = 1) :
    selectRow trace side index = .ok (side.locate trace index) := by
  have hzero : (0 : Goldilocks).isOne = false := by decide
  rcases h with h | h
  · simp only [selectRow, Side.locate, selects, h, hzero, Bool.false_eq_true, if_false,
      Goldilocks.isZero_iff.mpr rfl, if_true]
  · simp only [selectRow, Side.locate, selects, h, Goldilocks.isOne_iff.mpr rfl, if_true]

theorem binary_of_selectRow {trace : Trace} {side : Side} {index : Nat}
    {result : Option LocatedRow} (h : selectRow trace side index = .ok result) :
    filterValue side.filter trace index = 0 ∨ filterValue side.filter trace index = 1 := by
  by_contra hne
  obtain ⟨hzero, hone⟩ := not_or.mp hne
  have hzero' : ¬(filterValue side.filter trace index).isZero = true :=
    fun e => hzero (Goldilocks.isZero_iff.mp e)
  have hone' : ¬(filterValue side.filter trace index).isOne = true :=
    fun e => hone (Goldilocks.isOne_iff.mp e)
  simp only [selectRow, hone', hzero'] at h
  cases h

theorem selectedRows_of_selectable {traces : PerTable Trace} {side : Side}
    (h : side.Selectable traces) :
    selectedRows traces side = .ok (side.locatedRows traces) := by
  have hrows : (List.range (traces.get side.table).height).mapM
      (selectRow (traces.get side.table) side) =
        .ok ((List.range (traces.get side.table).height).map
          (side.locate (traces.get side.table))) :=
    Except.mapM_eq_ok_map fun index hindex =>
      selectRow_of_binary (h.binary index (List.mem_range.mp hindex))
  simp only [selectedRows, h.nonempty, Bool.false_eq_true, if_false]
  rw [hrows]
  exact congrArg Except.ok List.filterMap_map

theorem selectable_of_selectedRows {traces : PerTable Trace} {side : Side}
    {rows : List LocatedRow} (h : selectedRows traces side = .ok rows) :
    side.Selectable traces := by
  cases hne : (traces.get side.table).isEmpty with
  | true =>
      simp only [selectedRows, hne, if_true] at h
      cases h
  | false =>
      simp only [selectedRows, hne, Bool.false_eq_true, if_false] at h
      obtain ⟨found, hfound, _⟩ := Except.bind_eq_ok_iff.mp h
      refine ⟨hne, fun index hindex => ?_⟩
      obtain ⟨result, hresult⟩ :=
        Except.exists_ok_of_mapM_eq_ok hfound index (List.mem_range.mpr hindex)
      exact binary_of_selectRow hresult

/-- Selecting from a side succeeds exactly on a table with columns under a binary filter. -/
theorem selectedRows_eq_ok_iff {traces : PerTable Trace} {side : Side}
    {rows : List LocatedRow} :
    selectedRows traces side = .ok rows ↔
      side.Selectable traces ∧ rows = side.locatedRows traces := by
  constructor
  · intro h
    have hs := selectable_of_selectedRows h
    rw [selectedRows_of_selectable hs] at h
    exact ⟨hs, (Except.ok.inj h).symm⟩
  · rintro ⟨hs, rfl⟩
    exact selectedRows_of_selectable hs

/-- Selecting from several sides succeeds exactly when each can be selected from. -/
theorem mapM_selectedRows_eq_ok_iff {traces : PerTable Trace} {sides : List Side}
    {found : List (List LocatedRow)} :
    sides.mapM (selectedRows traces) = .ok found ↔
      (∀ side ∈ sides, side.Selectable traces) ∧
        found = sides.map fun side => side.locatedRows traces := by
  have hfound (h : ∀ side ∈ sides, side.Selectable traces) : sides.mapM (selectedRows traces) =
      .ok (sides.map fun side => side.locatedRows traces) :=
    Except.mapM_eq_ok_map fun side hside => selectedRows_of_selectable (h side hside)
  constructor
  · intro h
    have hselectable : ∀ side ∈ sides, side.Selectable traces := by
      intro side hside
      obtain ⟨rows, hrows⟩ := Except.exists_ok_of_mapM_eq_ok h side hside
      exact selectable_of_selectedRows hrows
    rw [hfound hselectable] at h
    exact ⟨hselectable, (Except.ok.inj h).symm⟩
  · rintro ⟨hselectable, rfl⟩
    exact hfound hselectable

theorem mem_eraseRepsBy_loop {α : Type} [BEq α] [LawfulBEq α] {a head : α}
    {rest kept : List α} :
    a ∈ List.eraseRepsBy.loop (· == ·) head rest kept ↔ a ∈ kept ∨ a ∈ head :: rest := by
  induction rest generalizing head kept with
  | nil => simp [List.eraseRepsBy.loop, or_comm]
  | cons next rest ih =>
      rw [List.eraseRepsBy.loop]
      by_cases h : (head == next) = true
      · rw [h, ih, beq_iff_eq.mp h]
        simp
      · rw [Bool.eq_false_iff.mpr h, ih]
        simp [or_left_comm, or_assoc]

/-- Dropping repeated neighbours keeps one of each. -/
theorem mem_eraseReps {α : Type} [BEq α] [LawfulBEq α] {a : α} {as : List α} :
    a ∈ as.eraseReps ↔ a ∈ as := by
  cases as with
  | nil => exact Iff.rfl
  | cons head rest =>
      rw [List.eraseReps, List.eraseRepsBy, mem_eraseRepsBy_loop]
      exact or_iff_right List.not_mem_nil

theorem mem_distinctRows {rows : List LocatedRow} {row : List Goldilocks} :
    row ∈ distinctRows rows ↔ row ∈ rows.map LocatedRow.row := by
  rw [distinctRows, mem_eraseReps, List.mem_mergeSort]

theorem length_filter_row (rows : List LocatedRow) (row : List Goldilocks) :
    (rows.filter fun r => r.row = row).length = (rows.map LocatedRow.row).count row := by
  rw [List.count, List.countP_map, List.countP_eq_length_filter]
  simp only [Function.comp_def, beq_eq_decide]

theorem compareRow_eq_ok_iff {index : Nat} {looking looked : List LocatedRow}
    {row : List Goldilocks} :
    compareRow index looking looked row = .ok () ↔
      (looking.map LocatedRow.row).count row = (looked.map LocatedRow.row).count row := by
  rw [← length_filter_row, ← length_filter_row, compareRow]
  constructor
  · intro h
    by_contra hne
    rw [if_neg hne] at h
    cases h
  · intro h
    rw [if_pos h]

/-- Comparing every row that occurs on one of the sides compares the sides as multisets. -/
theorem compareRows_eq_ok_iff (index : Nat) {looking looked : List LocatedRow} :
    ((distinctRows looking).forM (compareRow index looking looked) = .ok () ∧
      (distinctRows looked).forM (compareRow index looking looked) = .ok ()) ↔
      (looking.map LocatedRow.row).Perm (looked.map LocatedRow.row) := by
  simp only [Except.forM_eq_ok_iff, compareRow_eq_ok_iff, mem_distinctRows, List.perm_iff_count]
  constructor
  · rintro ⟨hlooking, hlooked⟩ row
    by_cases h : row ∈ looking.map LocatedRow.row
    · exact hlooking row h
    · by_cases h' : row ∈ looked.map LocatedRow.row
      · exact hlooked row h'
      · rw [List.count_eq_zero_of_not_mem h, List.count_eq_zero_of_not_mem h']
  · intro h
    exact ⟨fun row _ => h row, fun row _ => h row⟩

/-- The rows fed in from outside with the places they are reported at. -/
def outsideRows (table : Table) (rows : List (List Goldilocks)) : List LocatedRow :=
  rows.zipIdx.map fun entry => ⟨entry.1, table, entry.2⟩

theorem map_row_outsideRows (table : Table) (rows : List (List Goldilocks)) :
    (outsideRows table rows).map LocatedRow.row = rows := by
  rw [outsideRows, List.map_map]
  exact List.zipIdx_map_fst 0 rows

theorem map_row_looking (lookup : Lookup) (traces : PerTable Trace) (extraRows : ExtraRows) :
    ((lookup.looking.map fun side => side.locatedRows traces).flatten ++
      outsideRows lookup.looked.table (extraRows.get lookup.looked.table)).map LocatedRow.row =
        lookup.lookingRows traces extraRows := by
  rw [List.map_append, map_row_outsideRows, ← List.flatMap_def, List.map_flatMap]
  simp only [Side.map_row_locatedRows]
  rfl

/-- The check of one lookup decides its consistency. -/
theorem checkLookup_eq_ok_iff {traces : PerTable Trace} {extraRows : ExtraRows} {index : Nat}
    {lookup : Lookup} :
    checkLookup traces extraRows index lookup = .ok () ↔ lookup.Consistent traces extraRows := by
  have hlooked : lookup.looked ∈ lookup.sides :=
    List.mem_append_right _ (List.mem_singleton_self _)
  constructor
  · intro h
    obtain ⟨fromTraces, hfrom, h⟩ := Except.bind_eq_ok_iff.mp h
    obtain ⟨looked, hlookedRows, h⟩ := Except.bind_eq_ok_iff.mp h
    obtain ⟨⟨⟩, hfirst, hsecond⟩ := Except.bind_eq_ok_iff.mp h
    obtain ⟨hlooking, rfl⟩ := mapM_selectedRows_eq_ok_iff.mp hfrom
    obtain ⟨hselectable, rfl⟩ := selectedRows_eq_ok_iff.mp hlookedRows
    have hperm := (compareRows_eq_ok_iff index).mp ⟨hfirst, hsecond⟩
    refine ⟨List.forall_mem_append.mpr ⟨hlooking, List.forall_mem_singleton.mpr hselectable⟩, ?_⟩
    rw [Lookup.lookedRows, ← Side.map_row_locatedRows, ← map_row_looking]
    exact hperm
  · intro h
    have hlooking : lookup.looking.mapM (selectedRows traces) =
        .ok (lookup.looking.map fun side => side.locatedRows traces) :=
      mapM_selectedRows_eq_ok_iff.mpr
        ⟨fun side hside => h.selectable side (List.mem_append_left _ hside), rfl⟩
    have hperm := h.perm
    rw [Lookup.lookedRows, ← Side.map_row_locatedRows, ← map_row_looking] at hperm
    obtain ⟨hfirst, hsecond⟩ := (compareRows_eq_ok_iff index).mpr hperm
    unfold checkLookup
    rw [hlooking, selectedRows_of_selectable (h.selectable _ hlooked)]
    exact Except.bind_eq_ok_iff.mpr ⟨_, rfl, Except.bind_eq_ok_iff.mpr ⟨_, rfl,
      Except.bind_eq_ok_iff.mpr ⟨(), hfirst, hsecond⟩⟩⟩

/-- The check of all lookups decides the consistency of each. -/
theorem checkConsistency_eq_ok_iff {traces : PerTable Trace} {lookups : List Lookup}
    {extraRows : ExtraRows} :
    checkConsistency traces lookups extraRows = .ok () ↔
      ∀ lookup ∈ lookups, lookup.Consistent traces extraRows := by
  rw [checkConsistency, Except.forM_eq_ok_iff]
  simp only [checkLookup_eq_ok_iff]
  rw [← List.forall_mem_map (f := Prod.fst) (P := fun lookup : Lookup =>
    lookup.Consistent traces extraRows), List.zipIdx_map_fst]

/-- A lookup that is not consistent is reported. -/
theorem exists_error_of_not_consistent {traces : PerTable Trace} {lookups : List Lookup}
    {extraRows : ExtraRows} {lookup : Lookup} (hlookup : lookup ∈ lookups)
    (h : ¬lookup.Consistent traces extraRows) :
    ∃ e, checkConsistency traces lookups extraRows = .error e := by
  cases hcheck : checkConsistency traces lookups extraRows with
  | error e => exact ⟨e, rfl⟩
  | ok _ => exact absurd (checkConsistency_eq_ok_iff.mp hcheck lookup hlookup) h

/-- Two CPU rows, of which a filter may select the first, and two memory rows. -/
def sampleTraces : PerTable Trace :=
  ⟨#v[.empty, .empty, .ofColumns [[3, 4], [1, 0]], .empty, .empty, .empty, .ofColumns [[9, 3]]]⟩

/-- The selected CPU rows look up the memory rows. -/
def sampleLookup : Lookup where
  looking := [⟨.cpu, [.single 0], some (.single 1)⟩]
  looked := ⟨.memory, [.single 0], none⟩
  width_eq := by decide

/-- The memory row that no CPU row looks up is fed in. -/
def sampleExtraRows : ExtraRows :=
  ⟨#v[[], [], [], [], [], [], [[.ofWord 9]]]⟩

theorem sample_consistent :
    checkConsistency sampleTraces [sampleLookup] sampleExtraRows = .ok () := by
  apply checkConsistency_eq_ok_iff.mpr
  rw [List.forall_mem_singleton]
  decide

end CrossLookup
