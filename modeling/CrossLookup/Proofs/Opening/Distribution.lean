import CrossLookup.Opening.Distribution
import CrossLookup.Proofs.Traversal
import CrossLookup.Proofs.Verification.Schedule

/-!
# Distribution of openings in schedule order

Opening pairs that every table queues in schedule order are dealt to the very
sides and challenges they belong to, and none is left.
-/

namespace CrossLookup

variable {V B α β : Type}

/-- Each side receives the pair queued for it. -/
theorem deal_groupByTable (pair : Side × Challenge α → V × V)
    (due : List (Side × Challenge α)) :
    deal (groupByTable (due.map fun entry => (entry.1.table, pair entry))) due =
      .ok (due.map fun entry => (entry.1.table, entry.1.opened entry.2 (pair entry)),
        groupByTable []) := by
  induction due with
  | nil => rfl
  | cons entry rest ih =>
      obtain ⟨side, challenge⟩ := entry
      rw [List.map_cons, deal, pop?_groupByTable]
      simp only [ih]
      rfl

theorem ofFn_get (p : PerTable α) : PerTable.ofFn p.get = p :=
  PerTable.ext fun table => PerTable.get_ofFn p.get table

/-- Openings that queue one pair for each scheduled side are distributed over these sides. -/
theorem distribute_scheduled {openings : PerTable (Openings V B)} {reserved : PerTable Nat}
    {lookups : List Lookup} {challenges : ChallengeSet α} (pair : Side × Challenge α → V × V)
    (hpairs : ∀ table, (openings.get table).productPairs table (reserved.get table) =
      .ok ((groupByTable ((schedule lookups challenges).map fun entry =>
        (entry.1.table, pair entry))).get table)) :
    distribute openings lookups challenges reserved =
      .ok (groupByTable ((schedule lookups challenges).map fun entry =>
        (entry.1.table, entry.1.opened entry.2 (pair entry)))) := by
  let queues := groupByTable ((schedule lookups challenges).map fun entry =>
    (entry.1.table, pair entry))
  have hqueues : (Table.all.mapM fun table =>
      (openings.get table).productPairs table (reserved.get table)) =
        .ok (Table.all.map queues.get) := by
    simp only [hpairs]
    exact Vector.mapM_pure queues.get
  have hvalues : (⟨Table.all.map queues.get⟩ : PerTable (List (V × V))) = queues :=
    ofFn_get queues
  unfold distribute
  rw [hqueues]
  refine Except.bind_eq_ok_iff.mpr ⟨_, rfl, ?_⟩
  rw [hvalues, deal_groupByTable]
  refine Except.bind_eq_ok_iff.mpr ⟨_, rfl, ?_⟩
  simp only [leftOver?_groupByTable_nil]
  rfl

section Count

/-- A table has one place in the schedule for each of its sides and each challenge. -/
theorem countP_schedule (lookups : List Lookup) (challenges : List α) (table : Table) :
    ((schedule lookups challenges).countP fun entry => entry.1.table = table) =
      occurrences lookups table * challenges.length := by
  have hlookup (lookup : Lookup) :
      ((challenges.flatMap fun challenge =>
          lookup.sides.map fun side => (side, challenge)).countP fun entry =>
        entry.1.table = table) =
        (lookup.sides.countP fun side => side.table = table) * challenges.length := by
    simp only [List.countP_flatMap, Function.comp_def, List.countP_map]
    change (challenges.map fun _ =>
      lookup.sides.countP fun side => side.table = table).sum = _
    rw [List.map_const', List.sum_const_nat, Nat.mul_comm]
  induction lookups with
  | nil => exact (Nat.zero_mul _).symm
  | cons lookup rest ih =>
      rw [schedule, List.flatMap_cons, List.countP_append, hlookup, ← schedule, ih, occurrences,
        occurrences, List.flatMap_cons, List.countP_append, Nat.add_mul]

/-- A queue filled in schedule order is as long as the lookups ask for. -/
theorem length_get_scheduled (value : Side × α → β) (lookups : List Lookup)
    (challenges : List α) (table : Table) :
    ((groupByTable ((schedule lookups challenges).map fun entry =>
        (entry.1.table, value entry))).get table).length =
      occurrences lookups table * challenges.length := by
  rw [length_get_groupByTable, List.countP_map, ← countP_schedule]
  rfl

end Count

/-- The number of running products in machine words is exact below the word size. -/
theorem toNat_productCount {lookups : List Lookup} {table : Table} {challenges : Nat}
    (h : occurrences lookups table * challenges < UInt64.size) :
    (productCount lookups table (.ofNat challenges)).toNat =
      occurrences lookups table * challenges := by
  rw [productCount, UInt64.toNat_mul, UInt64.toNat_ofNat', UInt64.toNat_ofNat', ← Nat.mul_mod]
  exact Nat.mod_eq_of_lt h

end CrossLookup
