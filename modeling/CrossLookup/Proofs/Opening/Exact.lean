import CrossLookup.Opening.Wires
import CrossLookup.Proofs.Opening.Distribution

/-!
# Openings that can be distributed

The openings of all tables are dealt out exactly as those of each table are for
itself. A table's openings are accepted exactly when, past the reserved columns,
there is one pair for each place of the table in the schedule, and each place
then receives the pair at its position.
-/

namespace CrossLookup

variable {V B α : Type}

namespace PerTable

/-- A traversal of the tables succeeds exactly with the result of every table. -/
theorem mapM_all_eq_ok_iff {ε : Type} {f : Table → Except ε α} {values : Vector α 7} :
    Table.all.mapM f = .ok values ↔ ∀ table, f table = .ok ((mk values).get table) := by
  have hof : ∀ p : PerTable α, (∀ table, f table = .ok (p.get table)) →
      Table.all.mapM f = .ok p.values := by
    intro p hp
    rw [funext hp]
    have hvalues : Table.all.map p.get = p.values := congrArg PerTable.values (ofFn_get p)
    exact (Vector.mapM_pure p.get).trans (congrArg Except.ok hvalues)
  constructor
  · intro hrun
    have hlist : Table.all.toList.mapM f = .ok values.toList := by
      rw [← Vector.toList_mapM, hrun]
      rfl
    choose g hg using fun table =>
      Except.exists_ok_of_mapM_eq_ok hlist table (Table.mem_all table)
    have hmap := hof (ofFn g) fun table => by rw [get_ofFn, hg]
    rw [hrun] at hmap
    cases hmap
    exact fun table => (hg table).trans (congrArg Except.ok (get_ofFn g table).symm)
  · exact hof (mk values)

end PerTable

section OneTable

theorem dealOne_cons_eq_ok_iff {table : Table} {pair : V × V} {pairs : List (V × V)} {side : Side}
    {challenge : Challenge α} {due : List (Side × Challenge α)}
    {opened : List (OpenedProduct V α)} :
    dealOne table (pair :: pairs) ((side, challenge) :: due) = .ok opened ↔
      ∃ others, dealOne table pairs due = .ok others ∧
        opened = side.opened challenge pair :: others := by
  rw [dealOne, Except.bind_eq_ok_iff]
  simp only [Except.pure_eq_ok_iff, @eq_comm _ opened]

/-- The pairs of a table are dealt in order and must be as many as its sides. -/
theorem dealOne_eq_ok_iff {table : Table} {pairs : List (V × V)}
    {due : List (Side × Challenge α)} {opened : List (OpenedProduct V α)} :
    dealOne table pairs due = .ok opened ↔ pairs.length = due.length ∧
      opened = List.zipWith (fun pair entry => entry.1.opened entry.2 pair) pairs due := by
  induction due generalizing pairs opened with
  | nil =>
      cases pairs with
      | nil =>
          rw [dealOne, Except.ok.injEq, eq_comm]
          exact ⟨fun h => ⟨rfl, h⟩, fun h => h.2⟩
      | cons pair rest =>
          constructor
          · intro h
            cases h
          · rintro ⟨h, _⟩
            cases h
  | cons entry due ih =>
      cases pairs with
      | nil =>
          constructor
          · intro h
            cases h
          · rintro ⟨h, _⟩
            cases h
      | cons pair rest =>
          rw [dealOne_cons_eq_ok_iff, List.zipWith_cons_cons, List.length_cons, List.length_cons,
            Nat.succ_inj]
          constructor
          · rintro ⟨others, hothers, rfl⟩
            obtain ⟨hlength, rfl⟩ := ih.mp hothers
            exact ⟨hlength, rfl⟩
          · rintro ⟨hlength, rfl⟩
            exact ⟨_, ih.mpr ⟨hlength, rfl⟩, rfl⟩

/-- The auxiliary openings of a table come in pairs, of which some are reserved and as many
others as are due follow. -/
structure Openings.Fits (openings : Openings V B) (reserved due : Nat) : Prop where
  even : openings.auxiliary.length = openings.auxiliaryNext.length
  reserved_le : reserved ≤ openings.auxiliary.length
  due_eq : openings.auxiliary.length - reserved = due

theorem productPairs_eq_ok_iff {openings : Openings V B} {table : Table} {reserved : Nat}
    {pairs : List (V × V)} :
    openings.productPairs table reserved = .ok pairs ↔
      openings.auxiliary.length = openings.auxiliaryNext.length ∧
        reserved ≤ openings.auxiliary.length ∧
          pairs = (openings.auxiliary.zip openings.auxiliaryNext).drop reserved := by
  unfold Openings.productPairs
  split_ifs with hodd hmany
  · constructor
    · intro h
      cases h
    · exact fun h => absurd h.1 hodd
  · constructor
    · intro h
      cases h
    · exact fun h => absurd h.2.1 (Nat.not_le.mpr hmany)
  · rw [Except.ok.injEq, eq_comm]
    exact ⟨fun h => ⟨not_not.mp hodd, Nat.le_of_not_lt hmany, h⟩, fun h => h.2.2⟩

/-- The sides of a table with the numbers of their challenges, in the order of the schedule. -/
def places (lookups : List Lookup) (challenges : Nat) (table : Table) : List (Side × Nat) :=
  (schedule lookups (List.range challenges)).filter fun entry => entry.1.table = table

/-- Every place has received the opening pair at its position, past the reserved columns. -/
structure Pairs (openings : Openings V B) (reserved : Nat) (challenges : ChallengeSet α)
    (places : List (Side × Nat)) (opened : List (OpenedProduct V α)) : Prop where
  length_eq : opened.length = places.length
  paired : ∀ (i : Nat) (side : Side) (c : Nat), places[i]? = some (side, c) →
    ∃ z nextZ challenge, openings.auxiliary[reserved + i]? = some z ∧
      openings.auxiliaryNext[reserved + i]? = some nextZ ∧ challenges[c]? = some challenge ∧
        opened[i]? = some ⟨z, nextZ, challenge, side.columns, side.filter⟩

theorem schedule_map {β : Type} (f : α → β) (lookups : List Lookup) (challenges : List α) :
    schedule lookups (challenges.map f) = (schedule lookups challenges).map (Prod.map id f) := by
  simp only [schedule, List.map_flatMap, List.flatMap_map, List.map_map]
  rfl

theorem mem_challenges_of_mem_schedule {lookups : List Lookup} {challenges : List α} {side : Side}
    {challenge : α} (h : (side, challenge) ∈ schedule lookups challenges) :
    challenge ∈ challenges := by
  simp only [schedule, List.mem_flatMap, List.mem_map] at h
  obtain ⟨_, _, challenge', hmem, _, _, heq⟩ := h
  cases heq
  exact hmem

/-- The sides of a table are due with the challenges of the numbers at its places. -/
theorem exists_numbered (lookups : List Lookup) (challenges : List α) (table : Table) :
    ∃ numbered : List (Side × α × Nat),
      ((schedule lookups challenges).filter fun entry => entry.1.table = table) =
          numbered.map (fun entry => (entry.1, entry.2.1)) ∧
        places lookups challenges.length table =
          numbered.map (fun entry => (entry.1, entry.2.2)) ∧
        ∀ entry ∈ numbered, challenges[entry.2.2]? = some entry.2.1 := by
  have hfst : challenges = challenges.zipIdx.map Prod.fst := (List.zipIdx_map_fst 0 challenges).symm
  have hsnd : List.range challenges.length = challenges.zipIdx.map Prod.snd := by
    rw [List.zipIdx_map_snd, List.range_eq_range']
  refine ⟨(schedule lookups challenges.zipIdx).filter fun entry => entry.1.table = table,
    ?_, ?_, ?_⟩
  · conv_lhs => rw [hfst, schedule_map, List.filter_map]
    rfl
  · rw [places, hsnd, schedule_map, List.filter_map]
    rfl
  · rintro ⟨side, challenge, c⟩ hentry
    have hmem := mem_challenges_of_mem_schedule (List.mem_of_mem_filter hentry)
    exact List.mk_mem_zipIdx_iff_getElem?.mp hmem

theorem length_due (lookups : List Lookup) (challenges : List α) (table : Table) :
    ((schedule lookups challenges).filter fun entry => entry.1.table = table).length =
      occurrences lookups table * challenges.length := by
  rw [← List.countP_eq_length_filter, countP_schedule]

/-- Openings of one table are distributed exactly when they fit its places. -/
theorem exists_distributeOne_iff {table : Table} {openings : Openings V B}
    {lookups : List Lookup} {challenges : ChallengeSet α} {reserved : Nat} :
    (∃ opened, distributeOne table openings lookups challenges reserved = .ok opened) ↔
      openings.Fits reserved (occurrences lookups table * challenges.length) := by
  simp only [distributeOne, Except.bind_eq_ok_iff, productPairs_eq_ok_iff, dealOne_eq_ok_iff,
    length_due]
  constructor
  · rintro ⟨_, _, ⟨heven, hle, rfl⟩, hlength, _⟩
    rw [List.length_drop, List.length_zip, ← heven, Nat.min_self] at hlength
    exact ⟨heven, hle, hlength⟩
  · rintro ⟨heven, hle, hlength⟩
    refine ⟨_, _, ⟨heven, hle, rfl⟩, ?_, rfl⟩
    rw [List.length_drop, List.length_zip, ← heven, Nat.min_self]
    exact hlength

/-- What is distributed pairs the openings with the places of the table. -/
theorem pairs_of_distributeOne {table : Table} {openings : Openings V B} {lookups : List Lookup}
    {challenges : ChallengeSet α} {reserved : Nat} {opened : List (OpenedProduct V α)}
    (h : distributeOne table openings lookups challenges reserved = .ok opened) :
    Pairs openings reserved challenges (places lookups challenges.length table) opened := by
  obtain ⟨numbered, hdue, hplaces, hnumbered⟩ := exists_numbered lookups challenges table
  rw [distributeOne, Except.bind_eq_ok_iff] at h
  obtain ⟨pairs, hpairs, hdeal⟩ := h
  obtain ⟨heven, hle, rfl⟩ := productPairs_eq_ok_iff.mp hpairs
  rw [hdue, dealOne_eq_ok_iff, List.length_map] at hdeal
  obtain ⟨hlength, rfl⟩ := hdeal
  rw [hplaces]
  constructor
  case length_eq =>
    rw [List.length_zipWith, List.length_map, List.length_map, hlength, Nat.min_self]
  case paired =>
    intro i side c hplace
    rw [List.getElem?_map, Option.map_eq_some_iff] at hplace
    obtain ⟨⟨_, challenge, _⟩, hentry, heq⟩ := hplace
    cases heq
    have hi : i < ((openings.auxiliary.zip openings.auxiliaryNext).drop reserved).length := by
      rw [hlength]
      exact (List.getElem?_eq_some_iff.mp hentry).1
    have hpair := List.getElem?_eq_getElem hi
    have hopenings := List.getElem?_zip_eq_some.mp (List.getElem?_drop.symm.trans hpair)
    refine ⟨_, _, challenge, hopenings.1, hopenings.2,
      hnumbered _ (List.mem_of_getElem? hentry), ?_⟩
    apply List.getElem?_zipWith_eq_some.mpr
    refine ⟨_, (_, challenge), hpair, ?_, rfl⟩
    rw [List.getElem?_map, hentry]
    rfl

end OneTable

section AllTables

theorem filter_cons_own (side : Side) (challenge : α) (due : List (Side × α)) :
    ((side, challenge) :: due).filter (fun entry => entry.1.table = side.table) =
      (side, challenge) :: due.filter fun entry => entry.1.table = side.table :=
  List.filter_cons_of_pos (decide_eq_true rfl)

theorem filter_cons_other {side : Side} {table : Table} (h : side.table ≠ table) (challenge : α)
    (due : List (Side × α)) :
    ((side, challenge) :: due).filter (fun entry => entry.1.table = table) =
      due.filter fun entry => entry.1.table = table :=
  List.filter_cons_of_neg (Bool.not_eq_true _ ▸ decide_eq_false h)

/-- All opening pairs are dealt, to the sides of each table as in a result. -/
def Dealt (queues : PerTable (List (V × V))) (due : List (Side × Challenge α))
    (result : PerTable (List (OpenedProduct V α))) : Prop :=
  ∃ opened rest, deal queues due = .ok (opened, rest) ∧ (∀ table, rest.get table = []) ∧
    groupByTable opened = result

/-- The pairs of each table are dealt to its own sides as in a result. -/
def DealtApart (queues : PerTable (List (V × V))) (due : List (Side × Challenge α))
    (result : PerTable (List (OpenedProduct V α))) : Prop :=
  ∀ table, dealOne table (queues.get table) (due.filter fun entry => entry.1.table = table) =
    .ok (result.get table)

variable {queues : PerTable (List (V × V))} {side : Side} {challenge : Challenge α}
  {due : List (Side × Challenge α)} {result : PerTable (List (OpenedProduct V α))}

theorem dealt_nil_iff : Dealt queues ([] : List (Side × Challenge α)) result ↔
    DealtApart queues [] result := by
  constructor
  · rintro ⟨opened, rest, hdeal, hempty, rfl⟩ table
    cases hdeal
    rw [hempty, List.filter_nil, get_groupByTable_nil]
    rfl
  · intro hapart
    have hnil : ∀ table, queues.get table = [] ∧ result.get table = [] := by
      intro table
      obtain ⟨hlength, hopened⟩ := dealOne_eq_ok_iff.mp (hapart table)
      exact ⟨List.eq_nil_of_length_eq_zero hlength, hopened.trans List.zipWith_nil_right⟩
    refine ⟨[], queues, rfl, fun table => (hnil table).1, ?_⟩
    ext1 table
    rw [get_groupByTable_nil, (hnil table).2]

theorem not_dealt_cons (hqueue : queues.get side.table = []) :
    ¬Dealt queues ((side, challenge) :: due) result := by
  rintro ⟨opened, rest, hdeal, _⟩
  rw [deal, PerTable.pop?, hqueue] at hdeal
  cases hdeal

theorem not_dealtApart_cons (hqueue : queues.get side.table = []) :
    ¬DealtApart queues ((side, challenge) :: due) result := by
  intro hapart
  have hside := hapart side.table
  rw [hqueue, filter_cons_own] at hside
  cases hside

variable {pair : V × V} {others : List (V × V)}

/-- The first side spends a pair of its table; the queues of other tables stay as they are. -/
theorem dealt_cons_iff (hqueue : queues.get side.table = pair :: others) :
    Dealt queues ((side, challenge) :: due) result ↔ ∃ openedRest,
      result.get side.table = side.opened challenge pair :: openedRest ∧
        Dealt (queues.set side.table others) due (result.set side.table openedRest) := by
  have hpop : queues.pop? side.table = some (pair, queues.set side.table others) := by
    rw [PerTable.pop?, hqueue]
  constructor
  · rintro ⟨_, rest, hrun, hempty, rfl⟩
    rw [deal, hpop] at hrun
    obtain ⟨⟨opened, rest⟩, hrun, hcons⟩ := Except.bind_eq_ok_iff.mp hrun
    cases hcons
    refine ⟨(groupByTable opened).get side.table, ?_, opened, rest, hrun, hempty, ?_⟩
    · rw [get_groupByTable_cons, if_pos rfl]
    · ext1 table
      rw [PerTable.get_set, get_groupByTable_cons]
      by_cases h : side.table = table
      · rw [if_pos h, h]
      · rw [if_neg h, if_neg h]
  · rintro ⟨openedRest, hfirst, opened, rest, hrun, hempty, hgroup⟩
    refine ⟨(side.table, side.opened challenge pair) :: opened, rest, ?_, hempty, ?_⟩
    · rw [deal, hpop]
      exact Except.bind_eq_ok_iff.mpr ⟨_, hrun, rfl⟩
    · ext1 table
      rw [get_groupByTable_cons, hgroup, PerTable.get_set]
      by_cases h : side.table = table
      · rw [if_pos h, if_pos h, ← h, hfirst]
      · rw [if_neg h, if_neg h]

theorem dealtApart_cons_iff (hqueue : queues.get side.table = pair :: others) :
    DealtApart queues ((side, challenge) :: due) result ↔ ∃ openedRest,
      result.get side.table = side.opened challenge pair :: openedRest ∧
        DealtApart (queues.set side.table others) due (result.set side.table openedRest) := by
  have hside : dealOne side.table (queues.get side.table)
      (((side, challenge) :: due).filter fun entry => entry.1.table = side.table) =
        .ok (result.get side.table) ↔ ∃ openedRest, dealOne side.table others
          (due.filter fun entry => entry.1.table = side.table) = .ok openedRest ∧
            result.get side.table = side.opened challenge pair :: openedRest := by
    rw [hqueue, filter_cons_own, dealOne_cons_eq_ok_iff]
  constructor
  · intro hapart
    obtain ⟨openedRest, hrest, hfirst⟩ := hside.mp (hapart side.table)
    refine ⟨openedRest, hfirst, fun table => ?_⟩
    rw [PerTable.get_set, PerTable.get_set]
    by_cases h : side.table = table
    · subst h
      rw [if_pos rfl, if_pos rfl, hrest]
    · rw [if_neg h, if_neg h, ← filter_cons_other h challenge due, hapart table]
  · rintro ⟨openedRest, hfirst, hapart⟩ table
    have htable := hapart table
    rw [PerTable.get_set, PerTable.get_set] at htable
    by_cases h : side.table = table
    · subst h
      rw [if_pos rfl, if_pos rfl] at htable
      exact hside.mpr ⟨openedRest, htable, hfirst⟩
    · rw [if_neg h, if_neg h, ← filter_cons_other h challenge due] at htable
      exact htable

/-- Dealing from all queues deals from the queue of every table by itself. -/
theorem dealt_iff_dealtApart : Dealt queues due result ↔ DealtApart queues due result := by
  induction due generalizing queues result with
  | nil => exact dealt_nil_iff
  | cons entry due ih =>
      obtain ⟨side, challenge⟩ := entry
      cases hqueue : queues.get side.table with
      | nil => exact iff_of_false (not_dealt_cons hqueue) (not_dealtApart_cons hqueue)
      | cons pair others => simp only [dealt_cons_iff hqueue, dealtApart_cons_iff hqueue, ih]

theorem distribute_eq_ok_iff_dealt {openings : PerTable (Openings V B)} {lookups : List Lookup}
    {challenges : ChallengeSet α} {reserved : PerTable Nat} :
    distribute openings lookups challenges reserved = .ok result ↔
      ∃ queues, (∀ table, (openings.get table).productPairs table (reserved.get table) =
        .ok (queues.get table)) ∧ Dealt queues (schedule lookups challenges) result := by
  unfold distribute
  rw [Except.bind_eq_ok_iff]
  constructor
  · rintro ⟨pairs, hpairs, hrun⟩
    obtain ⟨⟨opened, rest⟩, hdeal, hleft⟩ := Except.bind_eq_ok_iff.mp hrun
    refine ⟨⟨pairs⟩, PerTable.mapM_all_eq_ok_iff.mp hpairs, opened, rest, hdeal, ?_⟩
    cases hrest : rest.leftOver? with
    | none =>
        simp only [hrest, Except.pure_eq_ok_iff] at hleft
        exact ⟨PerTable.leftOver?_eq_none_iff.mp hrest, hleft⟩
    | some left =>
        simp only [hrest] at hleft
        cases hleft
  · rintro ⟨⟨pairs⟩, hpairs, opened, rest, hdeal, hempty, hgroup⟩
    refine ⟨pairs, PerTable.mapM_all_eq_ok_iff.mpr hpairs, ?_⟩
    refine Except.bind_eq_ok_iff.mpr ⟨(opened, rest), hdeal, ?_⟩
    simp only [PerTable.leftOver?_eq_none_iff.mpr hempty, Except.pure_eq_ok_iff]
    exact hgroup

/-- Openings of all tables are distributed as those of every table by itself. -/
theorem distribute_eq_ok_iff {openings : PerTable (Openings V B)} {lookups : List Lookup}
    {challenges : ChallengeSet α} {reserved : PerTable Nat} :
    distribute openings lookups challenges reserved = .ok result ↔
      ∀ table, distributeOne table (openings.get table) lookups challenges (reserved.get table) =
        .ok (result.get table) := by
  rw [distribute_eq_ok_iff_dealt]
  simp only [dealt_iff_dealtApart, distributeOne, Except.bind_eq_ok_iff]
  constructor
  · rintro ⟨queues, hpairs, hapart⟩ table
    exact ⟨_, hpairs table, hapart table⟩
  · intro hone
    choose pairs hpairs hapart using hone
    refine ⟨.ofFn pairs, fun table => ?_, fun table => ?_⟩
    · rw [PerTable.get_ofFn, hpairs]
    · rw [PerTable.get_ofFn]
      exact hapart table

end AllTables

/-- Openings of all tables are distributed exactly when those of every table fit its places, and
openings of one table on wires of the same shape exactly when those of this table do. Both pair
the same openings with the same challenges and columns. -/
theorem distribution_exact (openings : PerTable (Openings Cubic Goldilocks))
    (lookups : List Lookup) (challenges : ChallengeSet Goldilocks) (reserved : PerTable Nat) :
    ((∃ opened, distribute openings lookups challenges reserved = .ok opened) ↔
      ∀ table, (openings.get table).Fits (reserved.get table)
        (challenges.length * occurrences lookups table)) ∧
    (∀ opened, distribute openings lookups challenges reserved = .ok opened →
      ∀ table, Pairs (openings.get table) (reserved.get table) challenges
        (places lookups challenges.length table) (opened.get table)) ∧
    ∀ (table : Table) (wires : OpeningWires) (wireChallenges : ChallengeSet Wire),
      wires.auxiliary.length = (openings.get table).auxiliary.length →
      wires.auxiliaryNext.length = (openings.get table).auxiliaryNext.length →
      wireChallenges.length = challenges.length →
        ((∃ opened, distributeOne table wires lookups wireChallenges (reserved.get table) =
            .ok opened) ↔
          (openings.get table).Fits (reserved.get table)
            (challenges.length * occurrences lookups table)) ∧
        ∀ opened, distributeOne table wires lookups wireChallenges (reserved.get table) =
            .ok opened →
          Pairs wires (reserved.get table) wireChallenges
            (places lookups challenges.length table) opened := by
  refine ⟨?_, ?_, ?_⟩
  · simp only [distribute_eq_ok_iff, Nat.mul_comm challenges.length]
    constructor
    · rintro ⟨opened, hopened⟩ table
      exact exists_distributeOne_iff.mp ⟨_, hopened table⟩
    · intro hfits
      choose opened hopened using fun table => exists_distributeOne_iff.mpr (hfits table)
      refine ⟨.ofFn opened, fun table => ?_⟩
      rw [PerTable.get_ofFn]
      exact hopened table
  · intro opened hopened table
    exact pairs_of_distributeOne (distribute_eq_ok_iff.mp hopened table)
  · intro table wires wireChallenges hauxiliary hnext hcount
    constructor
    · rw [exists_distributeOne_iff, hcount, Nat.mul_comm]
      constructor
      · rintro ⟨heven, hle, hdue⟩
        exact ⟨hauxiliary ▸ hnext ▸ heven, hauxiliary ▸ hle, hauxiliary ▸ hdue⟩
      · rintro ⟨heven, hle, hdue⟩
        exact ⟨hauxiliary ▸ hnext ▸ heven, hauxiliary ▸ hle, hauxiliary ▸ hdue⟩
    · intro opened hopened
      rw [← hcount]
      exact pairs_of_distributeOne hopened

/-- The memory is looked up from itself and from the CPU. -/
def selfLookup : Lookup where
  looking := [⟨.memory, [.single 0], none⟩, ⟨.cpu, [.single 0], some (.single 1)⟩]
  looked := ⟨.memory, [.single 1], none⟩
  width_eq := by decide

/-- Wires for one reserved column and four running products of the memory. -/
def selfWires : OpeningWires where
  current := #[]
  next := #[]
  auxiliary := (List.range 5).map fun i => ⟨⟨3 * i⟩, ⟨3 * i + 1⟩, ⟨3 * i + 2⟩⟩
  auxiliaryNext := (List.range 5).map fun i => ⟨⟨3 * i + 15⟩, ⟨3 * i + 16⟩, ⟨3 * i + 17⟩⟩
  firstProducts := []

/-- Two challenges pair four openings of a table that occurs on both sides of a lookup. -/
theorem distribution_exact_self :
    let openings : Openings Cubic Goldilocks :=
      ⟨#[], #[], List.replicate 5 0, List.replicate 5 0, []⟩
    let challenges : ChallengeSet Goldilocks := [⟨2, 3⟩, ⟨5, 7⟩]
    let wireChallenges : ChallengeSet Wire := [⟨⟨30⟩, ⟨31⟩⟩, ⟨⟨32⟩, ⟨33⟩⟩]
    (selfWires.auxiliary.length = openings.auxiliary.length ∧
      selfWires.auxiliaryNext.length = openings.auxiliaryNext.length ∧
      wireChallenges.length = challenges.length) ∧
    (∃ opened, distributeOne .memory selfWires [selfLookup] wireChallenges 1 = .ok opened) ∧
    ∀ opened, distributeOne .memory selfWires [selfLookup] wireChallenges 1 = .ok opened →
      Pairs selfWires 1 wireChallenges (places [selfLookup] 2 .memory) opened := by
  intro openings challenges wireChallenges
  have hmemory := (distribution_exact (.const openings) [selfLookup] challenges
    (.const 1)).2.2 .memory selfWires wireChallenges
  rw [PerTable.get_const, PerTable.get_const] at hmemory
  obtain ⟨haccepted, hpairs⟩ := hmemory rfl rfl rfl
  exact ⟨⟨rfl, rfl, rfl⟩, haccepted.mpr ⟨rfl, by decide, rfl⟩, hpairs⟩

end CrossLookup
