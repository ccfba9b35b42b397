import CrossLookup.Proofs.Opening.Distribution

/-!
# The first rows at their positions

A side of a lookup under a challenge takes the first row of its table whose
position is the number of earlier sides of that table. A verification thereby
accepts exactly when every table has one first row for each of its sides and
challenges, every outside product is there, and the first rows at their positions
satisfy every identity.
-/

namespace CrossLookup

variable {α : Type}

/-- The number of sides that belong to a table. -/
def sidesOf (table : Table) (sides : List Side) : Nat :=
  sides.countP fun side => side.table = table

section Queues

/-- The first rows left of queues when some sides have been served. -/
def PerTable.after (queues : PerTable (List α)) (served : List Side) : PerTable (List α) :=
  .ofFn fun table => (queues.get table).drop (sidesOf table served)

/-- No more sides are served than the queues have first rows. -/
def PerTable.Covers (queues : PerTable (List α)) (served : List Side) : Prop :=
  ∀ table, sidesOf table served ≤ (queues.get table).length

variable {queues : PerTable (List α)} {served : List Side} {side : Side}

theorem sidesOf_append (table : Table) (front back : List Side) :
    sidesOf table (front ++ back) = sidesOf table front + sidesOf table back :=
  List.countP_append

theorem sidesOf_own (side : Side) : sidesOf side.table [side] = 1 :=
  List.countP_singleton.trans (if_pos (decide_eq_true rfl))

theorem sidesOf_other {table : Table} (h : side.table ≠ table) : sidesOf table [side] = 0 :=
  List.countP_singleton.trans (if_neg (Bool.not_eq_true _ ▸ decide_eq_false h))

theorem after_nil (queues : PerTable (List α)) : queues.after [] = queues := by
  ext1 table
  exact PerTable.get_ofFn _ table

theorem covers_nil (queues : PerTable (List α)) : queues.Covers [] :=
  fun table => Nat.zero_le (queues.get table).length

theorem covers_of_covers_append {sides : List Side} (h : queues.Covers (served ++ sides)) :
    queues.Covers served := by
  intro table
  apply le_trans _ (h table)
  rw [sidesOf_append]
  exact Nat.le_add_right _ _

theorem covers_append_singleton_iff (hserved : queues.Covers served) :
    queues.Covers (served ++ [side]) ↔
      sidesOf side.table served < (queues.get side.table).length := by
  constructor
  · intro h
    have htable := h side.table
    rwa [sidesOf_append, sidesOf_own] at htable
  · intro h table
    rw [sidesOf_append]
    by_cases ht : side.table = table
    · subst ht
      rw [sidesOf_own]
      exact h
    · rw [sidesOf_other ht]
      exact hserved table

theorem set_after {a : α} {rest : List α}
    (h : (queues.get side.table).drop (sidesOf side.table served) = a :: rest) :
    (queues.after served).set side.table rest = queues.after (served ++ [side]) := by
  ext1 table
  rw [PerTable.get_set, PerTable.after, PerTable.get_ofFn, PerTable.after, PerTable.get_ofFn,
    sidesOf_append]
  by_cases ht : side.table = table
  · subst ht
    rw [if_pos rfl, sidesOf_own, ← List.drop_drop, h]
    rfl
  · rw [if_neg ht, sidesOf_other ht, Nat.add_zero]

variable [Inhabited α]

/-- The first row that is next for a side. -/
def PerTable.upcoming (queues : PerTable (List α)) (served : List Side) (side : Side) : α :=
  (queues.get side.table).getD (sidesOf side.table served) default

/-- A first row is handed out exactly when there is one more than were served before. -/
theorem takeFirst_after_eq_ok_iff (hserved : queues.Covers served)
    {result : α × PerTable (List α)} :
    takeFirst (m := Except VerifyError) (queues.after served) side.table = .ok result ↔
      queues.Covers (served ++ [side]) ∧
        (queues.upcoming served side, queues.after (served ++ [side])) = result := by
  have hget : (queues.after served).get side.table =
      (queues.get side.table).drop (sidesOf side.table served) := PerTable.get_ofFn _ side.table
  rw [covers_append_singleton_iff hserved, takeFirst, PerTable.pop?, hget]
  cases hleft : (queues.get side.table).drop (sidesOf side.table served) with
  | nil =>
      have hle := List.drop_eq_nil_iff.mp hleft
      constructor
      · intro h
        cases h
      · exact fun h => absurd h.1 (Nat.not_lt.mpr hle)
  | cons a rest =>
      have hfirst : (queues.get side.table)[sidesOf side.table served]? = some a := by
        rw [← List.head?_drop, hleft]
        rfl
      have hupcoming : queues.upcoming served side = a := by
        rw [PerTable.upcoming, List.getD_eq_getElem?_getD, hfirst]
        rfl
      simp only [set_after hleft, hupcoming]
      rw [Except.pure_eq_ok_iff]
      exact ⟨fun h => ⟨(List.getElem?_eq_some_iff.mp hfirst).1, h⟩, fun h => h.2⟩

/-- The first rows that are next for sides in order. -/
def PerTable.upcomings (queues : PerTable (List α)) (served sides : List Side) : List α :=
  sides.mapIdx fun j side => queues.upcoming (served ++ sides.take j) side

theorem upcomings_cons (side : Side) (rest : List Side) :
    queues.upcomings served (side :: rest) =
      queues.upcoming served side :: queues.upcomings (served ++ [side]) rest := by
  rw [PerTable.upcomings, List.mapIdx_cons, List.take_zero, List.append_nil]
  simp only [PerTable.upcomings, List.take_succ_cons, List.append_assoc, List.singleton_append]

theorem takeFirsts_after_eq_ok_iff (hserved : queues.Covers served) {sides : List Side}
    {result : List α × PerTable (List α)} :
    takeFirsts (m := Except VerifyError) (queues.after served) (sides.map Side.table) =
        .ok result ↔
      queues.Covers (served ++ sides) ∧
        (queues.upcomings served sides, queues.after (served ++ sides)) = result := by
  induction sides generalizing served result with
  | nil =>
      rw [List.append_nil, List.map_nil, takeFirsts, Except.pure_eq_ok_iff]
      exact ⟨fun h => ⟨hserved, h⟩, fun h => h.2⟩
  | cons side rest ih =>
      rw [List.map_cons, takeFirsts, Except.bind_eq_ok_iff, List.append_cons, upcomings_cons]
      simp only [takeFirst_after_eq_ok_iff hserved, Except.bind_eq_ok_iff]
      constructor
      · rintro ⟨_, ⟨hside, rfl⟩, _, hrest, hresult⟩
        obtain ⟨hcovers, rfl⟩ := (ih hside).mp hrest
        exact ⟨hcovers, Except.ok.inj hresult⟩
      · rintro ⟨hcovers, rfl⟩
        have hside := covers_of_covers_append hcovers
        exact ⟨_, ⟨hside, rfl⟩, _, (ih hside).mpr ⟨hcovers, rfl⟩, rfl⟩

end Queues

section Slots

variable {queues extras : PerTable (List α)} {served : List Side}

/-- The sides of the lookup of a slot. -/
def Slot.sides (slot : Slot) : List Side :=
  slot.lookup.sides

/-- There is an outside product for the identity of a slot. -/
def Slot.HasExtra (extras : PerTable (List α)) (slot : Slot) : Prop :=
  slot.challenge < (extras.get slot.lookup.looked.table).length

variable [Inhabited α]

theorem extraProduct_eq_ok_iff {table : Table} {challenge : Nat} {extra : α} :
    extraProduct (m := Except VerifyError) extras table challenge = .ok extra ↔
      challenge < (extras.get table).length ∧
        (extras.get table).getD challenge default = extra := by
  rw [extraProduct, List.getD_eq_getElem?_getD]
  cases h : (extras.get table)[challenge]? with
  | none =>
      constructor
      · intro hthrow
        cases hthrow
      · exact fun hlt => absurd hlt.1 (Nat.not_lt.mpr (List.getElem?_eq_none_iff.mp h))
  | some a =>
      rw [Except.pure_eq_ok_iff]
      exact ⟨fun ha => ⟨(List.getElem?_eq_some_iff.mp h).1, ha⟩, fun ha => ha.2⟩

/-- The identity of a slot over the first rows that are next. -/
def Slot.identity (queues extras : PerTable (List α)) (served : List Side) (slot : Slot) :
    Identity α :=
  ⟨slot.index, queues.upcomings served slot.lookup.looking,
    (extras.get slot.lookup.looked.table).getD slot.challenge default,
    queues.upcoming (served ++ slot.lookup.looking) slot.lookup.looked⟩

/-- A slot is served exactly when there is a first row for each side and an outside product. -/
theorem takeIdentity_after_eq_ok_iff (hserved : queues.Covers served) {slot : Slot}
    {result : Identity α × PerTable (List α)} :
    takeIdentity extras slot (queues.after served) = .ok result ↔
      queues.Covers (served ++ slot.sides) ∧ slot.HasExtra extras ∧
        (slot.identity queues extras served, queues.after (served ++ slot.sides)) = result := by
  rw [Slot.sides, Lookup.sides, ← List.append_assoc, takeIdentity, Except.bind_eq_ok_iff]
  simp only [takeFirsts_after_eq_ok_iff hserved, Except.bind_eq_ok_iff, extraProduct_eq_ok_iff]
  constructor
  · rintro ⟨_, ⟨hlooking, rfl⟩, _, ⟨hextra, rfl⟩, _, hlooked, hresult⟩
    obtain ⟨hcovers, rfl⟩ := (takeFirst_after_eq_ok_iff hlooking).mp hlooked
    exact ⟨hcovers, hextra, Except.ok.inj hresult⟩
  · rintro ⟨hcovers, hextra, rfl⟩
    have hlooking := covers_of_covers_append hcovers
    exact ⟨_, ⟨hlooking, rfl⟩, _, ⟨hextra, rfl⟩, _,
      (takeFirst_after_eq_ok_iff hlooking).mpr ⟨hcovers, rfl⟩, rfl⟩

/-- The identities of slots over the first rows that are next. -/
def slotIdentities (queues extras : PerTable (List α)) : List Side → List Slot → List (Identity α)
  | _, [] => []
  | served, slot :: rest =>
      slot.identity queues extras served ::
        slotIdentities queues extras (served ++ slot.sides) rest

theorem takeIdentities_after_eq_iff (hserved : queues.Covers served) {due : List Slot}
    {taken : List (Identity α)} {left : PerTable (List α)} :
    takeIdentities extras due (queues.after served) = (taken, .ok left) ↔
      queues.Covers (served ++ due.flatMap Slot.sides) ∧ (∀ slot ∈ due, slot.HasExtra extras) ∧
        slotIdentities queues extras served due = taken ∧
          queues.after (served ++ due.flatMap Slot.sides) = left := by
  induction due generalizing served taken with
  | nil =>
      rw [takeIdentities, List.flatMap_nil, List.append_nil, Prod.mk.injEq, Except.ok.injEq]
      exact ⟨fun h => ⟨hserved, List.forall_mem_nil _, h⟩, fun h => h.2.2⟩
  | cons slot rest ih =>
      rw [takeIdentities, List.flatMap_cons, ← List.append_assoc, List.forall_mem_cons]
      cases hslot : takeIdentity extras slot (queues.after served) with
      | error e =>
          constructor
          · intro h
            cases h
          · rintro ⟨hcovers, ⟨hextra, _⟩, _⟩
            have hok := (takeIdentity_after_eq_ok_iff hserved).mpr
              ⟨covers_of_covers_append hcovers, hextra, rfl⟩
            rw [hslot] at hok
            cases hok
      | ok result =>
          obtain ⟨hsides, hextra, rfl⟩ := (takeIdentity_after_eq_ok_iff hserved).mp hslot
          constructor
          · intro h
            obtain ⟨htaken, hleft⟩ := Prod.mk.inj h
            obtain ⟨hcovers, hextras, hothers, hrest⟩ := (ih hsides).mp (Prod.ext rfl hleft)
            exact ⟨hcovers, ⟨hextra, hextras⟩, (congrArg _ hothers).trans htaken, hrest⟩
          · rintro ⟨hcovers, ⟨_, hextras⟩, rfl, rfl⟩
            have hrest := (ih hsides).mpr ⟨hcovers, hextras, rfl, rfl⟩
            simp only [hrest]
            rfl

omit [Inhabited α] in
theorem requireEmpty_after_eq_ok_iff :
    requireEmpty (queues.after served) = .ok () ↔
      ∀ table, (queues.get table).length ≤ sidesOf table served := by
  have hempty : (∀ table, (queues.get table).length ≤ sidesOf table served) ↔
      (queues.after served).leftOver? = none := by
    simp only [PerTable.leftOver?_eq_none_iff, PerTable.after, PerTable.get_ofFn,
      List.drop_eq_nil_iff]
  rw [hempty, requireEmpty]
  cases (queues.after served).leftOver? with
  | none => exact iff_of_true rfl rfl
  | some left =>
      constructor
      · intro h
        cases h
      · intro h
        cases h

/-- All identities are taken exactly when every table has a first row for each of its sides and
no more, and every outside product is there. -/
theorem identities_eq_iff {lookups : List Lookup} {challenges : Nat}
    {taken : List (Identity α)} :
    identities lookups queues extras challenges = (taken, .ok ()) ↔
      (∀ table, (queues.get table).length =
        sidesOf table ((slots challenges 0 lookups).flatMap Slot.sides)) ∧
      (∀ slot ∈ slots challenges 0 lookups, slot.HasExtra extras) ∧
        slotIdentities queues extras [] (slots challenges 0 lookups) = taken := by
  have htake := @takeIdentities_after_eq_iff _ queues extras [] _ (covers_nil queues)
    (slots challenges 0 lookups)
  simp only [after_nil, List.nil_append] at htake
  rw [identities, Prod.mk.injEq]
  constructor
  · rintro ⟨htaken, hrun⟩
    obtain ⟨left, hleft, hempty⟩ := Except.bind_eq_ok_iff.mp hrun
    obtain ⟨hcovers, hextras, hidentities, rfl⟩ := htake.mp (Prod.ext htaken hleft)
    have hle := requireEmpty_after_eq_ok_iff.mp hempty
    exact ⟨fun table => Nat.le_antisymm (hle table) (hcovers table), hextras, hidentities⟩
  · rintro ⟨hlength, hextras, hidentities⟩
    have hrun := htake.mpr ⟨fun table => (hlength table).ge, hextras, hidentities, rfl⟩
    rw [hrun]
    refine ⟨rfl, ?_⟩
    exact Except.bind_eq_ok_iff.mpr
      ⟨_, rfl, requireEmpty_after_eq_ok_iff.mpr fun table => (hlength table).le⟩

end Slots

section Positions

/-- The sides of a lookup in turn under each of some challenges. -/
def sidesUnder (challenges : Nat) (lookup : Lookup) : List Side :=
  (List.range challenges).flatMap fun _ => lookup.sides

/-- The sides that are served before lookup `l` under challenge `c`. -/
def servedSides (lookups : List Lookup) (challenges l c : Nat) : List Side :=
  (lookups.take l).flatMap (sidesUnder challenges) ++ lookups[l]?.toList.flatMap (sidesUnder c)

/-- The position, among the first rows of its table, of that of a side which comes after `j`
looking sides in lookup `l` under challenge `c`: the number of earlier sides of its table. -/
def position (lookups : List Lookup) (challenges l c j : Nat) (side : Side) : Nat :=
  sidesOf side.table (servedSides lookups challenges l c ++
    (lookups[l]?.toList.flatMap Lookup.looking).take j)

theorem map_fst_schedule (lookups : List Lookup) (challenges : Nat) :
    (schedule lookups (List.range challenges)).map Prod.fst =
      lookups.flatMap (sidesUnder challenges) := by
  simp only [schedule, List.map_flatMap, List.map_map, Function.comp_def, List.map_id']
  rfl

theorem sidesUnder_zero (lookup : Lookup) : sidesUnder 0 lookup = [] :=
  rfl

theorem sidesUnder_succ_left (challenges : Nat) (lookup : Lookup) :
    sidesUnder (challenges + 1) lookup = lookup.sides ++ sidesUnder challenges lookup := by
  rw [sidesUnder, List.range_succ_eq_map, List.flatMap_cons, List.flatMap_map]
  rfl

theorem sidesUnder_succ (challenges : Nat) (lookup : Lookup) :
    sidesUnder (challenges + 1) lookup = sidesUnder challenges lookup ++ lookup.sides := by
  rw [sidesUnder, List.range_succ, List.flatMap_append, List.flatMap_singleton]
  rfl

theorem sidesUnder_isPrefix {c challenges : Nat} (h : c ≤ challenges) (lookup : Lookup) :
    sidesUnder c lookup <+: sidesUnder challenges lookup := by
  apply List.IsPrefix.flatMap
  rw [← Nat.min_eq_left h, ← List.take_range]
  exact List.take_prefix c _

theorem servedSides_zero (lookup : Lookup) (rest : List Lookup) (challenges c : Nat) :
    servedSides (lookup :: rest) challenges 0 c = sidesUnder c lookup :=
  List.flatMap_singleton ..

theorem servedSides_succ (lookup : Lookup) (rest : List Lookup) (challenges l c : Nat) :
    servedSides (lookup :: rest) challenges (l + 1) c =
      sidesUnder challenges lookup ++ servedSides rest challenges l c := by
  rw [servedSides, List.take_succ_cons, List.flatMap_cons, List.append_assoc]
  rfl

/-- A table has a first row for each of its sides and each challenge. -/
theorem sidesOf_flatMap_sidesUnder (lookups : List Lookup) (challenges : Nat) (table : Table) :
    sidesOf table (lookups.flatMap (sidesUnder challenges)) =
      challenges * occurrences lookups table := by
  have hcount := countP_schedule lookups (List.range challenges) table
  rw [List.length_range, Nat.mul_comm] at hcount
  rw [← hcount, ← map_fst_schedule, sidesOf, List.countP_map]
  rfl

/-- The sides served before a lookup and its own are the first ones in the schedule. -/
theorem servedSides_append_isPrefix {lookups : List Lookup} {challenges l c : Nat} {lookup : Lookup}
    (hlookup : lookups[l]? = some lookup) (hc : c < challenges) :
    servedSides lookups challenges l c ++ lookup.sides <+:
      lookups.flatMap (sidesUnder challenges) := by
  have hlookups : (lookups.take l).flatMap (sidesUnder challenges) ++ sidesUnder challenges lookup
      <+: lookups.flatMap (sidesUnder challenges) := by
    have htake := List.IsPrefix.flatMap ( List.take_prefix (l + 1) lookups)
      (sidesUnder challenges)
    rw [List.take_add_one, hlookup, List.flatMap_append] at htake
    simpa using htake
  have hserved : servedSides lookups challenges l c ++ lookup.sides =
      (lookups.take l).flatMap (sidesUnder challenges) ++ sidesUnder (c + 1) lookup := by
    rw [servedSides, hlookup, sidesUnder_succ, List.append_assoc]
    simp
  rw [hserved]
  apply List.IsPrefix.trans _ hlookups
  rw [List.prefix_append_right_inj]
  exact sidesUnder_isPrefix hc lookup

/-- Every position is among the first rows that its table must have. -/
theorem position_lt {lookups : List Lookup} {challenges l c j : Nat} {lookup : Lookup}
    {side : Side} (hlookup : lookups[l]? = some lookup) (hc : c < challenges)
    (hside : lookup.sides[j]? = some side) :
    position lookups challenges l c j side < challenges * occurrences lookups side.table := by
  have hsides : lookup.looking.take j ++ [side] <+: lookup.sides := by
    have hj : j ≤ lookup.looking.length := by
      have hlt := (List.getElem?_eq_some_iff.mp hside).1
      rw [Lookup.sides, List.length_append, List.length_singleton] at hlt
      exact Nat.le_of_lt_succ hlt
    have htake : lookup.sides.take j = lookup.looking.take j := List.take_append_of_le_length hj
    have hfirst := List.take_prefix (j + 1) lookup.sides
    rwa [List.take_add_one, htake, hside] at hfirst
  have hserved : servedSides lookups challenges l c ++ (lookup.looking.take j ++ [side]) <+:
      lookups.flatMap (sidesUnder challenges) := by
    apply List.IsPrefix.trans _ (servedSides_append_isPrefix hlookup hc)
    rw [List.prefix_append_right_inj]
    exact hsides
  calc
    position lookups challenges l c j side
      < position lookups challenges l c j side + sidesOf side.table [side] := by
        rw [sidesOf_own]
        exact Nat.lt_succ_self _
    _ = sidesOf side.table
          (servedSides lookups challenges l c ++ (lookup.looking.take j ++ [side])) := by
        rw [position, hlookup, ← sidesOf_append, List.append_assoc]
        simp
    _ ≤ sidesOf side.table (lookups.flatMap (sidesUnder challenges)) :=
        hserved.sublist.countP_le
    _ = challenges * occurrences lookups side.table :=
        sidesOf_flatMap_sidesUnder lookups challenges side.table

theorem flatMap_sides_slots (challenges index : Nat) (lookups : List Lookup) :
    (slots challenges index lookups).flatMap Slot.sides =
      lookups.flatMap (sidesUnder challenges) := by
  induction lookups generalizing index with
  | nil => rfl
  | cons lookup rest ih =>
      rw [slots, List.flatMap_append, ih, List.flatMap_map, List.flatMap_cons, sidesUnder,
        List.range_eq_range']
      rfl

theorem forall_hasExtra_iff (extras : PerTable (List α)) (challenges index : Nat)
    (lookups : List Lookup) :
    (∀ slot ∈ slots challenges index lookups, slot.HasExtra extras) ↔
      (0 < challenges → ∀ lookup ∈ lookups,
        challenges ≤ (extras.get lookup.looked.table).length) := by
  have hchallenges : ∀ n : Nat, (∀ c ∈ List.range' 0 challenges, c < n) ↔
      (0 < challenges → challenges ≤ n) := by
    intro n
    simp only [List.mem_range'_1, Nat.zero_le, true_and, Nat.zero_add]
    constructor
    · intro h hpos
      exact Nat.le_of_pred_lt (h _ (Nat.pred_lt_of_lt hpos))
    · intro h c hc
      exact hc.trans_le (h (Nat.zero_lt_of_lt hc))
  induction lookups generalizing index with
  | nil => exact iff_of_true (List.forall_mem_nil _) fun _ => List.forall_mem_nil _
  | cons lookup rest ih =>
      rw [slots, List.forall_mem_append, List.forall_mem_map]
      refine (and_congr (hchallenges (extras.get lookup.looked.table).length)
        (ih (index + 1))).trans ?_
      rw [List.forall_mem_cons, imp_and]

variable [Inhabited α] {queues extras : PerTable (List α)} {P : Identity α → Prop}

theorem slotIdentities_append (served : List Side) (due due' : List Slot) :
    slotIdentities queues extras served (due ++ due') =
      slotIdentities queues extras served due ++
        slotIdentities queues extras (served ++ due.flatMap Slot.sides) due' := by
  induction due generalizing served with
  | nil => rw [List.flatMap_nil, List.append_nil, List.nil_append]; rfl
  | cons slot rest ih =>
      rw [List.cons_append, slotIdentities, slotIdentities, ih, List.cons_append,
        List.flatMap_cons, List.append_assoc]

theorem forall_mem_challengeIdentities (served : List Side) (index start n : Nat)
    (lookup : Lookup) :
    (∀ identity ∈ slotIdentities queues extras served
        ((List.range' start n).map (Slot.mk index lookup)), P identity) ↔
      ∀ c < n, P ((Slot.mk index lookup (start + c)).identity queues extras
        (served ++ sidesUnder c lookup)) := by
  induction n generalizing served start with
  | zero => exact iff_of_true (List.forall_mem_nil _) fun c hc => absurd hc (Nat.not_lt_zero c)
  | succ n ih =>
      rw [List.range'_succ, List.map_cons, slotIdentities, List.forall_mem_cons, ih,
        Nat.forall_lt_succ_left]
      simp only [sidesUnder_zero, sidesUnder_succ_left, Slot.sides, List.append_assoc,
        List.append_nil, Nat.add_assoc, Nat.add_comm 1, Nat.add_zero]

/-- The identities of lookups are those of every lookup under every challenge, over what the
sides before leave. -/
theorem forall_mem_slotIdentities (served : List Side) (challenges index : Nat)
    (lookups : List Lookup) :
    (∀ identity ∈ slotIdentities queues extras served (slots challenges index lookups),
        P identity) ↔
      ∀ l lookup, lookups[l]? = some lookup → ∀ c < challenges,
        P ((Slot.mk (index + l) lookup c).identity queues extras
          (served ++ servedSides lookups challenges l c)) := by
  induction lookups generalizing served index with
  | nil =>
      apply iff_of_true (List.forall_mem_nil _)
      intro l lookup hlookup
      cases hlookup
  | cons lookup rest ih =>
      have hsides : ((List.range' 0 challenges).map (Slot.mk index lookup)).flatMap Slot.sides =
          sidesUnder challenges lookup := by
        rw [List.flatMap_map, sidesUnder, List.range_eq_range']
        rfl
      rw [slots, slotIdentities_append, List.forall_mem_append, forall_mem_challengeIdentities,
        hsides, ih (served ++ sidesUnder challenges lookup) (index + 1)]
      apply Iff.trans _ Nat.and_forall_add_one
      simp only [List.getElem?_cons_zero, List.getElem?_cons_succ, Option.some.injEq,
        forall_eq', servedSides_zero, servedSides_succ, List.append_assoc, Nat.zero_add,
        Nat.add_zero, Nat.add_assoc, Nat.add_comm 1]

/-- The identity of a lookup under a challenge balances when the first rows at its positions
do. -/
theorem balanced_slot_iff {lookups : List Lookup} {l : Nat} {lookup : Lookup}
    (hlookup : lookups[l]? = some lookup) (firstRows extras : PerTable (List Goldilocks))
    (challenges index c : Nat) :
    ((Slot.mk index lookup c).identity firstRows extras
        (servedSides lookups challenges l c)).Balanced ↔
      (lookup.looking.mapIdx fun j side =>
          (firstRows.get side.table).getD (position lookups challenges l c j side) 0).prod *
        (extras.get lookup.looked.table).getD c 0 =
      (firstRows.get lookup.looked.table).getD
        (position lookups challenges l c lookup.looking.length lookup.looked) 0 := by
  have hlooking : lookups[l]?.toList.flatMap Lookup.looking = lookup.looking := by
    rw [hlookup]
    exact List.flatMap_singleton ..
  simp only [position, hlooking, List.take_length]
  rfl

/-- Verification accepts exactly when every table has one first row for each of its sides and
challenges, every looked table has an outside product for each challenge, and in each lookup
under each challenge the first rows of the looking sides times the outside product are that of
the looked side, each taken at its position. These positions lie within the first rows that a
table must have. -/
theorem verifyLookups_iff_positions (lookups : List Lookup)
    (firstRows extras : PerTable (List Goldilocks)) (challenges : Nat) :
    (verifyLookups lookups firstRows extras challenges = .ok () ↔
      (∀ table, (firstRows.get table).length = challenges * occurrences lookups table) ∧
      (0 < challenges → ∀ lookup ∈ lookups,
        challenges ≤ (extras.get lookup.looked.table).length) ∧
      ∀ l lookup, lookups[l]? = some lookup → ∀ c < challenges,
        (lookup.looking.mapIdx fun j side =>
            (firstRows.get side.table).getD (position lookups challenges l c j side) 0).prod *
          (extras.get lookup.looked.table).getD c 0 =
        (firstRows.get lookup.looked.table).getD
          (position lookups challenges l c lookup.looking.length lookup.looked) 0) ∧
    ∀ l lookup, lookups[l]? = some lookup → ∀ c < challenges,
      ∀ j side, lookup.sides[j]? = some side →
        position lookups challenges l c j side < challenges * occurrences lookups side.table := by
  refine ⟨?_, fun l lookup hlookup c hc j side => position_lt hlookup hc⟩
  have hidentities : (∀ identity ∈ slotIdentities firstRows extras []
      (slots challenges 0 lookups), identity.Balanced) ↔ _ :=
    (forall_mem_slotIdentities [] challenges 0 lookups).trans
      (forall_congr' fun l => forall_congr' fun lookup => forall_congr' fun hlookup =>
        forall_congr' fun c => imp_congr_right fun _ =>
          balanced_slot_iff hlookup firstRows extras challenges (0 + l) c)
  have htaken := @identities_eq_iff _ firstRows extras _ lookups challenges
  simp only [flatMap_sides_slots, sidesOf_flatMap_sidesUnder, forall_hasExtra_iff] at htaken
  rw [verifyLookups_eq_ok_iff, ← hidentities]
  constructor
  · rintro ⟨hall, hok⟩
    obtain ⟨hlength, hextras, hslots⟩ := htaken.mp (Prod.ext rfl hok)
    exact ⟨hlength, hextras, hslots ▸ hall⟩
  · rintro ⟨hlength, hextras, hall⟩
    rw [htaken.mpr ⟨hlength, hextras, rfl⟩]
    exact ⟨hall, rfl⟩

end Positions

end CrossLookup
