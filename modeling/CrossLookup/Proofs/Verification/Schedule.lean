import CrossLookup.Product.Running
import CrossLookup.Proofs.Verification.Identities

/-!
# Openings committed in schedule order

When every table hands out one opening for each of its places in the schedule,
the verifier takes exactly the openings of the side and challenge it asks for,
and none is left.
-/

namespace CrossLookup

variable {α β γ : Type}

@[simp] theorem get_groupByTable_nil (table : Table) :
    (groupByTable ([] : List (Table × α))).get table = [] := by
  rw [groupByTable, PerTable.get_ofFn]
  rfl

theorem get_groupByTable_cons (table t : Table) (a : α) (rest : List (Table × α)) :
    (groupByTable ((table, a) :: rest)).get t =
      if table = t then a :: (groupByTable rest).get t else (groupByTable rest).get t := by
  simp only [groupByTable, PerTable.get_ofFn, List.filter_cons, decide_eq_true_eq]
  split <;> rfl

theorem mem_get_groupByTable {table : Table} {a : α} {entries : List (Table × α)} :
    a ∈ (groupByTable entries).get table ↔ (table, a) ∈ entries := by
  rw [groupByTable, PerTable.get_ofFn, List.mem_map]
  simp only [List.mem_filter, decide_eq_true_eq]
  constructor
  · rintro ⟨entry, ⟨hentry, rfl⟩, rfl⟩
    exact hentry
  · intro hentry
    exact ⟨_, ⟨hentry, rfl⟩, rfl⟩

theorem length_get_groupByTable (entries : List (Table × α)) (table : Table) :
    ((groupByTable entries).get table).length =
      entries.countP fun entry => entry.1 = table := by
  rw [groupByTable, PerTable.get_ofFn, List.length_map, List.countP_eq_length_filter]

theorem get_groupByTable_map (f : Table → α → β) (entries : List (Table × α)) (table : Table) :
    (groupByTable (entries.map fun entry => (entry.1, f entry.1 entry.2))).get table =
      ((groupByTable entries).get table).map (f table) := by
  induction entries with
  | nil => rw [List.map_nil, get_groupByTable_nil, get_groupByTable_nil, List.map_nil]
  | cons entry rest ih =>
      rw [List.map_cons, get_groupByTable_cons, get_groupByTable_cons, ih]
      by_cases h : entry.1 = table
      · rw [if_pos h, if_pos h, List.map_cons, h]
      · rw [if_neg h, if_neg h]

/-- The queue of the first entry's table hands out that entry and leaves the others. -/
theorem pop?_groupByTable (table : Table) (a : α) (rest : List (Table × α)) :
    (groupByTable ((table, a) :: rest)).pop? table = some (a, groupByTable rest) := by
  have hset : (groupByTable ((table, a) :: rest)).set table ((groupByTable rest).get table) =
      groupByTable rest := by
    ext t
    rw [PerTable.get_set, get_groupByTable_cons]
    by_cases h : table = t
    · rw [if_pos h, h]
    · rw [if_neg h, if_neg h]
  unfold PerTable.pop?
  rw [get_groupByTable_cons, if_pos rfl]
  simp only [hset]

/-- Queues have nothing left exactly when that of every table is empty. -/
theorem PerTable.leftOver?_eq_none_iff {queues : PerTable (List α)} :
    queues.leftOver? = none ↔ ∀ table, queues.get table = [] := by
  rw [PerTable.leftOver?, List.findSome?_eq_none_iff]
  constructor
  · intro hnone table
    have htable := hnone table (Table.mem_all table)
    cases hqueue : queues.get table with
    | nil => rfl
    | cons a rest =>
        rw [hqueue] at htable
        cases htable
  · intro hempty table _
    rw [hempty table]

theorem leftOver?_groupByTable_nil : (groupByTable ([] : List (Table × α))).leftOver? = none :=
  PerTable.leftOver?_eq_none_iff.mpr get_groupByTable_nil

theorem takeFirst_groupByTable (table : Table) (a : α) (rest : List (Table × α)) :
    takeFirst (m := Except VerifyError) (groupByTable ((table, a) :: rest)) table =
      .ok (a, groupByTable rest) := by
  unfold takeFirst
  rw [pop?_groupByTable]
  rfl

theorem takeFirsts_groupByTable (entries rest : List (Table × α)) :
    takeFirsts (m := Except VerifyError) (groupByTable (entries ++ rest))
        (entries.map Prod.fst) = .ok (entries.map Prod.snd, groupByTable rest) := by
  induction entries with
  | nil => rfl
  | cons entry entries ih =>
      rw [List.map_cons, takeFirsts, List.cons_append, takeFirst_groupByTable]
      change (takeFirsts (m := Except VerifyError) (groupByTable (entries ++ rest))
        (entries.map Prod.fst) >>= _) = _
      rw [ih]
      rfl

section Schedule

variable (value : Side → γ → α) (extra : Table → γ → α)

/-- The openings of the sides of a lookup under a challenge, with their tables. -/
def sideEntries (lookup : Lookup) (challenge : γ) : List (Table × α) :=
  lookup.sides.map fun side => (side.table, value side challenge)

/-- The identity of a lookup under a challenge with the openings meant for it. -/
def dueIdentity (index : Nat) (lookup : Lookup) (challenge : γ) : Identity α :=
  ⟨index, lookup.looking.map (value · challenge), extra lookup.looked.table challenge,
    value lookup.looked challenge⟩

/-- The identities of lookups numbered from one on, under every challenge. -/
def dueIdentities (challenges : List γ) : Nat → List Lookup → List (Identity α)
  | _, [] => []
  | index, lookup :: rest =>
      challenges.map (dueIdentity value extra index lookup) ++
        dueIdentities challenges (index + 1) rest

theorem takeIdentity_groupByTable {extras : PerTable (List α)} {index : Nat} {lookup : Lookup}
    {place : Nat} {challenge : γ} (rest : List (Table × α))
    (hextra : (extras.get lookup.looked.table)[place]? =
      some (extra lookup.looked.table challenge)) :
    takeIdentity extras ⟨index, lookup, place⟩
        (groupByTable (sideEntries value lookup challenge ++ rest)) =
      .ok (dueIdentity value extra index lookup challenge, groupByTable rest) := by
  let lookingEntries := lookup.looking.map fun side => (side.table, value side challenge)
  have hentries : sideEntries value lookup challenge ++ rest =
      lookingEntries ++ ((lookup.looked.table, value lookup.looked challenge) :: rest) := by
    rw [sideEntries, Lookup.sides, List.map_append, List.append_assoc]
    rfl
  have hlooking := takeFirsts_groupByTable lookingEntries
    ((lookup.looked.table, value lookup.looked challenge) :: rest)
  rw [List.map_map, List.map_map] at hlooking
  unfold takeIdentity extraProduct
  rw [hentries, hextra]
  have htables : lookup.looking.map Side.table = lookup.looking.map
      (Prod.fst ∘ fun side => (side.table, value side challenge)) := rfl
  rw [htables, hlooking]
  change (takeFirst (m := Except VerifyError) (groupByTable (_ :: rest)) _ >>= _) = _
  rw [takeFirst_groupByTable]
  rfl

theorem takeIdentities_append {extras : PerTable (List α)} {due due' : List Slot}
    {queues queues' : PerTable (List α)}
    (h : (takeIdentities extras due queues).2 = .ok queues') :
    takeIdentities extras (due ++ due') queues =
      ((takeIdentities extras due queues).1 ++ (takeIdentities extras due' queues').1,
        (takeIdentities extras due' queues').2) := by
  induction due generalizing queues with
  | nil =>
      cases h
      rfl
  | cons slot rest ih =>
      rw [List.cons_append, takeIdentities, takeIdentities]
      rw [takeIdentities] at h
      cases hslot : takeIdentity extras slot queues with
      | error e =>
          rw [hslot] at h
          cases h
      | ok taken =>
          rw [hslot] at h
          simp only [ih h]
          rfl

/-- Under the challenges from one on, the entries committed for a lookup are taken in turn. -/
theorem takeIdentities_challenges {extras : PerTable (List α)} (index : Nat) (lookup : Lookup)
    (challenges : List γ) (start : Nat) (rest : List (Table × α))
    (hextras : (extras.get lookup.looked.table).drop start =
      challenges.map (extra lookup.looked.table)) :
    takeIdentities extras ((List.range' start challenges.length).map (Slot.mk index lookup))
        (groupByTable (challenges.flatMap (sideEntries value lookup) ++ rest)) =
      (challenges.map (dueIdentity value extra index lookup), .ok (groupByTable rest)) := by
  induction challenges generalizing start with
  | nil => rfl
  | cons challenge others ih =>
      have hextra : (extras.get lookup.looked.table)[start]? =
          some (extra lookup.looked.table challenge) := by
        rw [← List.head?_drop, hextras]
        rfl
      have hothers : (extras.get lookup.looked.table).drop (start + 1) =
          others.map (extra lookup.looked.table) := by
        rw [← List.drop_drop, hextras]
        rfl
      rw [List.length_cons, List.range'_succ, List.map_cons, List.flatMap_cons,
        List.append_assoc, takeIdentities, takeIdentity_groupByTable value extra _ hextra]
      simp only [ih (start + 1) hothers]
      rfl

theorem takeIdentities_lookups {extras : PerTable (List α)} (challenges : List γ)
    (hextras : ∀ table, extras.get table = challenges.map (extra table)) (index : Nat)
    (lookups : List Lookup) (rest : List (Table × α)) :
    takeIdentities extras (slots challenges.length index lookups)
        (groupByTable ((lookups.flatMap fun lookup =>
          challenges.flatMap (sideEntries value lookup)) ++ rest)) =
      (dueIdentities value extra challenges index lookups, .ok (groupByTable rest)) := by
  induction lookups generalizing index with
  | nil => rfl
  | cons lookup others ih =>
      have hfirst := takeIdentities_challenges value extra index lookup challenges 0
        ((others.flatMap fun lookup => challenges.flatMap (sideEntries value lookup)) ++ rest)
        (hextras lookup.looked.table)
      rw [List.flatMap_cons, List.append_assoc, slots,
        takeIdentities_append (congrArg Prod.snd hfirst), hfirst, ih]
      rfl

/-- The openings of every place in the schedule, by table. -/
def scheduledOpenings (lookups : List Lookup) (challenges : List γ) : PerTable (List α) :=
  groupByTable ((schedule lookups challenges).map fun entry =>
    (entry.1.table, value entry.1 entry.2))

theorem map_schedule (lookups : List Lookup) (challenges : List γ) :
    ((schedule lookups challenges).map fun entry =>
        (entry.1.table, value entry.1 entry.2)) =
      lookups.flatMap fun lookup => challenges.flatMap (sideEntries value lookup) := by
  simp only [schedule, List.map_flatMap, List.map_map, Function.comp_def]
  rfl

/-- Openings in schedule order give every identity its own parts, and none is left over. -/
theorem identities_scheduled {extras : PerTable (List α)} (lookups : List Lookup)
    (challenges : List γ) (hextras : ∀ table, extras.get table = challenges.map (extra table)) :
    identities lookups (scheduledOpenings value lookups challenges) extras challenges.length =
      (dueIdentities value extra challenges 0 lookups, .ok ()) := by
  have h := takeIdentities_lookups value extra challenges hextras 0 lookups []
  rw [List.append_nil, ← map_schedule] at h
  unfold identities scheduledOpenings
  rw [h]
  change (_, requireEmpty (groupByTable [])) = _
  rw [requireEmpty, leftOver?_groupByTable_nil]

end Schedule

theorem forall_mem_dueIdentities {value : Side → γ → Goldilocks}
    {extra : Table → γ → Goldilocks} {challenges : List γ} {index : Nat}
    {lookups : List Lookup} :
    (∀ identity ∈ dueIdentities value extra challenges index lookups, identity.Balanced) ↔
      ∀ lookup ∈ lookups, ∀ challenge ∈ challenges,
        (lookup.looking.map (value · challenge)).prod * extra lookup.looked.table challenge =
          value lookup.looked challenge := by
  induction lookups generalizing index with
  | nil => exact ⟨fun _ => List.forall_mem_nil _, fun _ => List.forall_mem_nil _⟩
  | cons lookup rest ih =>
      rw [dueIdentities, List.forall_mem_append, ih, List.forall_mem_cons, List.forall_mem_map]
      rfl

/-- Verification of openings in schedule order compares the products of every lookup. -/
theorem verifyLookups_scheduled_iff {value : Side → γ → Goldilocks}
    {extra : Table → γ → Goldilocks} {extras : PerTable (List Goldilocks)}
    {lookups : List Lookup} {challenges : List γ}
    (hextras : ∀ table, extras.get table = challenges.map (extra table)) :
    verifyLookups lookups (scheduledOpenings value lookups challenges) extras
        challenges.length = .ok () ↔
      ∀ lookup ∈ lookups, ∀ challenge ∈ challenges,
        (lookup.looking.map (value · challenge)).prod * extra lookup.looked.table challenge =
          value lookup.looked challenge := by
  rw [verifyLookups_eq_ok_iff, identities_scheduled value extra lookups challenges hextras,
    forall_mem_dueIdentities]
  exact ⟨fun h => h.1, fun h => ⟨h, rfl⟩⟩

end CrossLookup
