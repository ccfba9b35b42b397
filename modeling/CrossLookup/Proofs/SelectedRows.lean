import CrossLookup.Product.Running
import CrossLookup.Proofs.Field.Residue
import CrossLookup.Proofs.Traversal
import Mathlib.Algebra.BigOperators.Group.List.Basic

/-!
# Selected rows

The payload rows that a filter selects on a trace. A running product over a
binary filter is, at every row, the product of the combined payloads selected
from that row on.
-/

namespace CrossLookup

namespace Goldilocks

theorem isOne_iff {a : Goldilocks} : a.isOne = true ↔ a = 1 := by
  constructor
  · intro h
    exact ext (beq_iff_eq.mp h)
  · rintro rfl
    rfl

theorem isZero_iff {a : Goldilocks} : a.isZero = true ↔ a = 0 := by
  constructor
  · intro h
    exact ext (beq_iff_eq.mp h)
  · rintro rfl
    rfl

end Goldilocks

/-- A filter is zero or one on every row of a trace. -/
def BinaryFilter (filter : Option Column) (trace : Trace) : Prop :=
  ∀ row < trace.height, filterValue filter trace row = 0 ∨ filterValue filter trace row = 1

instance (filter : Option Column) (trace : Trace) : Decidable (BinaryFilter filter trace) :=
  inferInstanceAs (Decidable (∀ row < trace.height, _))

/-- Whether a filter selects a row of a trace. -/
def selects (filter : Option Column) (trace : Trace) (row : Nat) : Bool :=
  (filterValue filter trace row).isOne

/-- The payload rows that a filter selects from a row of a trace on. -/
def selectedFrom (trace : Trace) (columns : List Column) (filter : Option Column)
    (start : Nat) : List (List Goldilocks) :=
  ((List.range' start (trace.height - start)).filter (selects filter trace)).map
    (payload columns trace)

/-- The payload rows of a side that take part in its lookups. -/
def Side.rows (side : Side) (traces : PerTable Trace) : List (List Goldilocks) :=
  selectedFrom (traces.get side.table) side.columns side.filter 0

/-- The table of a side has columns, and its filter is binary there. -/
structure Side.Selectable (side : Side) (traces : PerTable Trace) : Prop where
  nonempty : (traces.get side.table).isEmpty = false
  binary : BinaryFilter side.filter (traces.get side.table)

instance (side : Side) (traces : PerTable Trace) : Decidable (side.Selectable traces) :=
  decidable_of_iff _ ⟨fun h => ⟨h.1, h.2⟩, fun h => And.intro h.nonempty h.binary⟩

/-- The factor that a row contributes to a running product. -/
def rowFactor (trace : Trace) (columns : List Column) (filter : Option Column)
    (challenge : Challenge Goldilocks) (row : Nat) : Goldilocks :=
  if selects filter trace row then challenge.combine (payload columns trace row) else 1

section Factor

variable {trace : Trace} {filter : Option Column} {row : Nat} (columns : List Column)
  (challenge : Challenge Goldilocks)

theorem rowFactor_of_zero (h : filterValue filter trace row = 0) :
    rowFactor trace columns filter challenge row = 1 := by
  rw [rowFactor, selects, h]
  rfl

theorem rowFactor_of_one (h : filterValue filter trace row = 1) :
    rowFactor trace columns filter challenge row =
      challenge.combine (payload columns trace row) := by
  rw [rowFactor, selects, h]
  rfl

theorem multiplySelected_eq
    (hrow : filterValue filter trace row = 0 ∨ filterValue filter trace row = 1)
    (product : Goldilocks) :
    multiplySelected trace columns filter challenge row product =
      .ok (product * rowFactor trace columns filter challenge row) := by
  rcases hrow with h | h
  · rw [rowFactor_of_zero columns challenge h, mul_one, multiplySelected, h]
    rfl
  · rw [rowFactor_of_one columns challenge h, multiplySelected, h]
    rfl

variable {columns challenge} in
theorem binary_of_multiplySelected {product product' : Goldilocks}
    (h : multiplySelected trace columns filter challenge row product = .ok product') :
    filterValue filter trace row = 0 ∨ filterValue filter trace row = 1 := by
  simp only [multiplySelected, Goldilocks.isOne_iff, Goldilocks.isZero_iff] at h
  by_cases hone : filterValue filter trace row = 1
  · exact Or.inr hone
  · by_cases hzero : filterValue filter trace row = 0
    · exact Or.inl hzero
    · rw [if_neg hone, if_neg hzero] at h
      cases h

end Factor

/-- Accumulating upwards collects, for every row, the factors from that row on. -/
theorem accumulateUp_eq {multiply : Nat → Goldilocks → Except Violation Goldilocks}
    {factor : Nat → Goldilocks} {n : Nat}
    (h : ∀ row < n, ∀ product, multiply row product = .ok (product * factor row))
    (product : Goldilocks) (values : List Goldilocks) :
    accumulateUp multiply n product values =
      .ok ((List.range n).map (fun row =>
        product * ((List.range' row (n - row)).map factor).prod) ++ values) := by
  induction n generalizing product values with
  | zero => rfl
  | succ n ih =>
      have hlast : multiply n product = .ok (product * factor n) := h n n.lt_succ_self product
      have hrest := ih (fun row hrow => h row (hrow.trans n.lt_succ_self))
        (product * factor n) (product * factor n :: values)
      have hfactors : ∀ row ∈ List.range n,
          product * factor n * ((List.range' row (n - row)).map factor).prod =
            product * ((List.range' row (n + 1 - row)).map factor).prod := by
        intro row hrow
        have hle : row ≤ n := (List.mem_range.mp hrow).le
        have hrange : List.range' row (n + 1 - row) = List.range' row (n - row) ++ [n] := by
          rw [Nat.succ_sub hle, List.range'_1_concat, Nat.add_sub_cancel' hle]
        rw [hrange, List.map_append, List.prod_append, List.map_singleton, List.prod_singleton]
        ring
      have htop : (List.range' n (n + 1 - n)).map factor = [factor n] := by
        rw [Nat.add_sub_cancel_left, List.range'_one, List.map_singleton]
      simp only [accumulateUp, hlast, List.range_succ, List.map_append, List.map_singleton, htop,
        List.prod_singleton, ← List.map_congr_left hfactors, List.append_assoc,
        List.singleton_append]
      exact hrest

theorem prod_rowFactor (trace : Trace) (columns : List Column) (filter : Option Column)
    (challenge : Challenge Goldilocks) (indices : List Nat) :
    (indices.map (rowFactor trace columns filter challenge)).prod =
      (((indices.filter (selects filter trace)).map (payload columns trace)).map
        challenge.combine).prod := by
  induction indices with
  | nil => rfl
  | cons row rest ih =>
      rw [List.map_cons, List.prod_cons, ih, List.filter_cons]
      by_cases h : selects filter trace row = true
      · simp [rowFactor, h]
      · simp [rowFactor, h]

/-- Accumulation gets past every row from which it starts. -/
theorem exists_ok_of_accumulateUp {multiply : Nat → Goldilocks → Except Violation Goldilocks}
    {n : Nat} {product : Goldilocks} {values result : List Goldilocks}
    (h : accumulateUp multiply n product values = .ok result) :
    ∀ row < n, ∃ before after, multiply row before = .ok after := by
  induction n generalizing product values with
  | zero => exact fun row hrow => absurd hrow row.not_lt_zero
  | succ n ih =>
      rw [accumulateUp] at h
      obtain ⟨next, hnext, hrest⟩ := Except.bind_eq_ok_iff.mp h
      intro row hrow
      rcases Nat.lt_succ_iff_lt_or_eq.mp hrow with hlt | rfl
      · exact ih hrest row hlt
      · exact ⟨product, next, hnext⟩

section Product

variable {trace : Trace} {filter : Option Column} (columns : List Column)
  (challenge : Challenge Goldilocks)

/-- A running product holds at every row the product of the factors from there on. -/
theorem runningProduct_eq_factors (hne : trace.isEmpty = false)
    (hbinary : BinaryFilter filter trace) :
    runningProduct trace columns filter challenge =
      .ok ((List.range trace.height).map fun row =>
        ((List.range' row (trace.height - row)).map
          (rowFactor trace columns filter challenge)).prod) := by
  have h := accumulateUp_eq
    (fun row hrow => multiplySelected_eq columns challenge (hbinary row hrow)) 1 []
  simp only [one_mul, List.append_nil] at h
  rw [runningProduct, if_neg (Bool.eq_false_iff.mp hne), h]

/-- A running product holds at every row the product over what is selected from there on. -/
theorem runningProduct_eq (hne : trace.isEmpty = false) (hbinary : BinaryFilter filter trace) :
    runningProduct trace columns filter challenge =
      .ok ((List.range trace.height).map fun row =>
        ((selectedFrom trace columns filter row).map challenge.combine).prod) := by
  rw [runningProduct_eq_factors columns challenge hne hbinary]
  simp only [prod_rowFactor]
  rfl

variable {columns challenge} in
/-- A running product exists only over a trace with columns on which its filter is binary. -/
theorem binary_of_runningProduct {values : List Goldilocks}
    (h : runningProduct trace columns filter challenge = .ok values) :
    trace.isEmpty = false ∧ BinaryFilter filter trace := by
  rw [runningProduct] at h
  by_cases hempty : trace.isEmpty = true
  · rw [if_pos hempty] at h
    cases h
  · rw [if_neg hempty] at h
    refine ⟨Bool.eq_false_iff.mpr hempty, ?_⟩
    intro row hrow
    obtain ⟨before, after, hrow⟩ := exists_ok_of_accumulateUp h row hrow
    exact binary_of_multiplySelected hrow

end Product

end CrossLookup
