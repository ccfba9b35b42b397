import CrossLookup.Proofs.SelectedRows

/-!
# Traces of given rows

A trace made of rows holds in each column what the rows hold at its place. Over
such a trace, columns read without combination select and pick from the rows
themselves.
-/

namespace CrossLookup

namespace Trace

variable (rows : List (List Goldilocks)) (width : Nat)

/-- The trace whose columns hold the values of rows of some width. -/
def transposed : Trace :=
  ⟨(Array.range width).map fun c => (rows.map fun row => row.getD c 0).toArray⟩

variable {rows width}

/-- Rows of one width are transposed. -/
theorem ofRows_eq_ok (hrows : rows ≠ []) (hwidth : ∀ row ∈ rows, row.length = width) :
    ofRows rows = .ok (transposed rows width) := by
  cases rows with
  | nil => exact absurd rfl hrows
  | cons first rest =>
      have hfirst : first.length = width := hwidth first List.mem_cons_self
      have hall : ((first :: rest).all fun row => row.length == first.length) = true := by
        apply List.all_eq_true.mpr
        intro row hrow
        rw [hwidth row hrow, hfirst, beq_self_eq_true]
      rw [ofRows, if_pos hall, hfirst]
      rfl

theorem getD_columns_transposed {c : Nat} (hc : c < width) :
    (transposed rows width).columns.getD c #[] = (rows.map fun row => row.getD c 0).toArray := by
  have hsize : c < (transposed rows width).columns.size := by
    rw [transposed, Array.size_map, Array.size_range]
    exact hc
  rw [← Array.getElem_eq_getD (h := hsize)]
  simp only [transposed, Array.getElem_map, Array.getElem_range]

theorem isEmpty_transposed (hwidth : 0 < width) : (transposed rows width).isEmpty = false := by
  rw [isEmpty, Array.isEmpty_eq_false_iff, transposed, Ne, Array.map_eq_empty_iff,
    Array.range_eq_empty_iff]
  exact Nat.ne_of_gt hwidth

theorem height_transposed (hwidth : 0 < width) : (transposed rows width).height = rows.length := by
  rw [height, getD_columns_transposed hwidth, List.size_toArray, List.length_map]

theorem cell_transposed {c : Nat} (hc : c < width) (r : Nat) :
    (transposed rows width).cell c r = (rows.getD r []).getD c 0 := by
  rw [cell, getD_columns_transposed hc, Array.getD_eq_getD_getElem?, List.getElem?_toArray,
    List.getElem?_map, @List.getD_eq_getElem?_getD _ rows]
  cases rows[r]? with
  | none => rfl
  | some row => rfl

theorem row_transposed (hwidth : ∀ row ∈ rows, row.length = width) {r : Nat}
    {row : List Goldilocks} (hrow : rows[r]? = some row) :
    (transposed rows width).row r = row.toArray := by
  have hlength : row.length = width := hwidth row (List.mem_of_getElem? hrow)
  apply Array.ext
  · rw [Trace.row, transposed, Array.size_map, Array.size_map, Array.size_range,
      List.size_toArray, hlength]
  · intro c hc hc'
    simp only [Trace.row, transposed, Array.getElem_map, Array.getElem_range,
      Array.getD_eq_getD_getElem?, List.getElem?_toArray, List.getElem?_map, hrow,
      Option.map_some, Option.getD_some, List.getElem_toArray]
    exact (List.getElem_eq_getD 0).symm

theorem rectangular_transposed (hwidth : 0 < width) : (transposed rows width).Rectangular := by
  intro column hcolumn
  obtain ⟨c, _, rfl⟩ := Array.mem_map.mp hcolumn
  rw [height_transposed hwidth, List.size_toArray, List.length_map]

end Trace

section Selection

variable {rows : List (List Goldilocks)} {width filter : Nat} {columns : List Nat}

theorem evalTrace_single (c : Nat) (trace : Trace) (row : Nat) :
    (Column.single c).evalTrace trace row = trace.cell c row := by
  have hvalue : (Column.single c).evalTrace trace row = 0 + trace.cell c row * 1 := rfl
  rw [hvalue, zero_add, mul_one]

theorem payload_singles (columns : List Nat) (trace : Trace) (row : Nat) :
    payload (Column.singles columns) trace row = columns.map fun c => trace.cell c row := by
  rw [payload, Column.singles, List.map_map]
  exact List.map_congr_left fun c _ => evalTrace_single c trace row

/-- A single column selects from a trace of rows what it selects from the rows. -/
theorem selectedFrom_transposed (hfilter : filter < width) (hcolumns : ∀ c ∈ columns, c < width) :
    selectedFrom (.transposed rows width) (Column.singles columns) (some (.single filter)) 0 =
      (rows.filter fun row => (row.getD filter 0).isOne).map fun row =>
        columns.map fun c => row.getD c 0 := by
  have hheight : (Trace.transposed rows width).height = rows.length :=
    Trace.height_transposed (Nat.zero_lt_of_lt hfilter)
  have hselects : selects (some (.single filter)) (.transposed rows width) =
      (fun row => (row.getD filter 0).isOne) ∘ fun r => rows.getD r [] := by
    funext r
    rw [selects, filterValue, evalTrace_single, Trace.cell_transposed hfilter]
    rfl
  have hpayload : payload (Column.singles columns) (.transposed rows width) =
      (fun row => columns.map fun c => row.getD c 0) ∘ fun r => rows.getD r [] := by
    funext r
    rw [payload_singles]
    exact List.map_congr_left fun c hc => Trace.cell_transposed (hcolumns c hc) r
  have hrows : (List.range rows.length).map (fun r => rows.getD r []) = rows := by
    apply List.ext_getElem
    · rw [List.length_map, List.length_range]
    · intro r hr hr'
      rw [List.getElem_map, List.getElem_range]
      exact (List.getElem_eq_getD []).symm
  rw [selectedFrom, hheight, hselects, hpayload, ← List.map_map, ← List.filter_map, Nat.sub_zero,
    ← List.range_eq_range', hrows]

theorem binaryFilter_transposed (hfilter : filter < width)
    (hrows : ∀ row ∈ rows, row.getD filter 0 = 0 ∨ row.getD filter 0 = 1) :
    BinaryFilter (some (.single filter)) (.transposed rows width) := by
  intro r hr
  rw [Trace.height_transposed (Nat.zero_lt_of_lt hfilter)] at hr
  have hrow : rows.getD r [] = rows[r] := (List.getElem_eq_getD []).symm
  rw [filterValue, evalTrace_single, Trace.cell_transposed hfilter, hrow]
  exact hrows _ (List.getElem_mem hr)

/-- A side reads single columns of a table that is made of rows. -/
structure Side.ReadsRows (side : Side) (traces : PerTable Trace) (rows : List (List Goldilocks))
    (width filter : Nat) (columns : List Nat) : Prop where
  trace_eq : traces.get side.table = .transposed rows width
  columns_eq : side.columns = Column.singles columns
  filter_eq : side.filter = some (.single filter)
  filter_lt : filter < width
  columns_lt : ∀ c ∈ columns, c < width

variable {side : Side} {traces : PerTable Trace}

theorem Side.ReadsRows.rows_eq (h : side.ReadsRows traces rows width filter columns) :
    side.rows traces = (rows.filter fun row => (row.getD filter 0).isOne).map fun row =>
      columns.map fun c => row.getD c 0 := by
  rw [Side.rows, h.trace_eq, h.columns_eq, h.filter_eq]
  exact selectedFrom_transposed h.filter_lt h.columns_lt

theorem Side.ReadsRows.selectable (h : side.ReadsRows traces rows width filter columns)
    (hrows : ∀ row ∈ rows, row.getD filter 0 = 0 ∨ row.getD filter 0 = 1) :
    side.Selectable traces := by
  constructor
  case nonempty =>
    rw [h.trace_eq]
    exact Trace.isEmpty_transposed (Nat.zero_lt_of_lt h.filter_lt)
  case binary =>
    rw [h.trace_eq, h.filter_eq]
    exact binaryFilter_transposed h.filter_lt hrows

end Selection

end CrossLookup
