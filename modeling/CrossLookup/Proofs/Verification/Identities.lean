import CrossLookup.Proofs.Traversal
import CrossLookup.Proofs.Field.Residue
import CrossLookup.Verification.Identities
import Mathlib.Algebra.BigOperators.Group.List.Basic

/-!
# The identities that a verification visits

What the queues hand out does not depend on the visitor. Visiting every identity
is a loop over the identities taken from the queues, followed by the error, if
any, that ended the taking.
-/

namespace CrossLookup

/-- The parts of one grand-product identity. -/
structure Identity (α : Type) where
  /-- The number of the lookup. -/
  index : Nat
  looking : List α
  extra : α
  looked : α

/-- A lookup with its number under one challenge, for which an identity is due. -/
structure Slot where
  index : Nat
  lookup : Lookup
  challenge : Nat

variable {α β : Type}

/-- Apply a function to every part of an identity. -/
def Identity.map (f : α → β) (identity : Identity α) : Identity β :=
  ⟨identity.index, identity.looking.map f, f identity.extra, f identity.looked⟩

/-- The slots of lookups numbered from one on, in the order of their visits. -/
def slots (challenges : Nat) : Nat → List Lookup → List Slot
  | _, [] => []
  | index, lookup :: rest =>
      (List.range' 0 challenges).map (Slot.mk index lookup) ++ slots challenges (index + 1) rest

/-- Take the parts of the identity of a slot. -/
def takeIdentity (extras : PerTable (List α)) (slot : Slot) (queues : PerTable (List α)) :
    Except VerifyError (Identity α × PerTable (List α)) := do
  let (looking, queues) ← takeFirsts queues (slot.lookup.looking.map Side.table)
  let extra ← extraProduct extras slot.lookup.looked.table slot.challenge
  let (looked, queues) ← takeFirst queues slot.lookup.looked.table
  return (⟨slot.index, looking, extra, looked⟩, queues)

/-- Take identities up to the first that is not complete, with the queues or the error left. -/
def takeIdentities (extras : PerTable (List α)) :
    List Slot → PerTable (List α) → List (Identity α) × Except VerifyError (PerTable (List α))
  | [], queues => ([], .ok queues)
  | slot :: rest, queues =>
      match takeIdentity extras slot queues with
      | .error e => ([], .error e)
      | .ok (identity, queues) =>
          let (others, result) := takeIdentities extras rest queues
          (identity :: others, result)

/-- Accept queues from which nothing is left. -/
def requireEmpty (queues : PerTable (List α)) : Except VerifyError Unit :=
  match queues.leftOver? with
  | some (table, count) => .error (.leftOver table count)
  | none => .ok ()

/-- The identities of lookups, and whether the openings are as many as they ask for. -/
def identities (lookups : List Lookup) (firstRows extras : PerTable (List α))
    (challenges : Nat) : List (Identity α) × Except VerifyError Unit :=
  let (taken, result) := takeIdentities extras (slots challenges 0 lookups) firstRows
  (taken, result >>= requireEmpty)

section Visit

variable {m : Type → Type} [Monad m] [MonadExceptOf VerifyError m]

/-- What follows an error is not performed. -/
def ThrowStops (m : Type → Type) [Monad m] [MonadExceptOf VerifyError m] : Prop :=
  ∀ {α β : Type} (e : VerifyError) (f : α → m β), (throw e : m α) >>= f = throw e

variable [LawfulMonad m]

omit [LawfulMonad m] in
theorem ofExcept_takeFirst (queues : PerTable (List α)) (table : Table) :
    (takeFirst queues table : m _) = MonadExcept.ofExcept (takeFirst queues table) := by
  unfold takeFirst
  cases queues.pop? table with
  | none => rfl
  | some result => rfl

omit [LawfulMonad m] in
theorem ofExcept_extraProduct (extras : PerTable (List α)) (table : Table) (challenge : Nat) :
    (extraProduct extras table challenge : m _) =
      MonadExcept.ofExcept (extraProduct extras table challenge) := by
  unfold extraProduct
  cases (extras.get table)[challenge]? with
  | none => rfl
  | some a => rfl

omit [LawfulMonad m] in
theorem ofExcept_ok (a : α) :
    (MonadExcept.ofExcept (.ok a : Except VerifyError α) : m α) = pure a :=
  rfl

omit [LawfulMonad m] in
theorem ofExcept_pure (a : α) :
    (MonadExcept.ofExcept (pure a : Except VerifyError α) : m α) = pure a :=
  rfl

omit [LawfulMonad m] in
theorem ofExcept_error (e : VerifyError) :
    (MonadExcept.ofExcept (.error e : Except VerifyError α) : m α) = throw e :=
  rfl

theorem ofExcept_bind (hstops : ThrowStops m) (x : Except VerifyError α)
    (f : α → Except VerifyError β) :
    (MonadExcept.ofExcept (x >>= f) : m β) =
      MonadExcept.ofExcept x >>= fun a => MonadExcept.ofExcept (f a) := by
  cases x with
  | error e => exact (hstops e _).symm
  | ok a =>
      rw [ofExcept_ok, pure_bind]
      rfl

theorem ofExcept_takeFirsts (hstops : ThrowStops m) (queues : PerTable (List α))
    (tables : List Table) :
    (takeFirsts queues tables : m _) = MonadExcept.ofExcept (takeFirsts queues tables) := by
  induction tables generalizing queues with
  | nil => rfl
  | cons table rest ih =>
      simp only [takeFirsts, ofExcept_takeFirst (m := m), ofExcept_bind hstops]
      congr 1
      funext taken
      rw [ih]
      congr 1

/-- A visit takes an identity and hands it to the visitor. -/
theorem visitIdentity_eq (hstops : ThrowStops m) (visit : Nat → List α → α → α → m Unit)
    (extras : PerTable (List α)) (slot : Slot) (queues : PerTable (List α)) :
    visitIdentity visit slot.index slot.lookup extras slot.challenge queues = (do
      let (identity, queues) ← MonadExcept.ofExcept (takeIdentity extras slot queues)
      visit identity.index identity.looking identity.extra identity.looked
      pure queues) := by
  simp only [visitIdentity, takeIdentity, ofExcept_takeFirsts hstops, ofExcept_takeFirst (m := m),
    ofExcept_extraProduct (m := m), ofExcept_bind hstops, bind_assoc]
  congr 1
  funext looking
  congr 1
  funext extra
  congr 1
  funext looked
  rw [ofExcept_pure, pure_bind]

omit [LawfulMonad m] in
theorem visitChallenges_eq (visit : Nat → List α → α → α → m Unit) (index : Nat)
    (lookup : Lookup) (extras : PerTable (List α)) (challenge count : Nat)
    (queues : PerTable (List α)) :
    visitChallenges visit index lookup extras challenge count queues =
      ((List.range' challenge count).map (Slot.mk index lookup)).foldlM (fun queues slot =>
        visitIdentity visit slot.index slot.lookup extras slot.challenge queues) queues := by
  induction count generalizing challenge queues with
  | zero => rfl
  | succ count ih =>
      rw [visitChallenges, List.range'_succ, List.map_cons, List.foldlM_cons]
      congr 1
      funext queues
      exact ih (challenge + 1) queues

theorem visitLookups_eq (visit : Nat → List α → α → α → m Unit) (extras : PerTable (List α))
    (challenges index : Nat) (lookups : List Lookup) (queues : PerTable (List α)) :
    visitLookups visit extras challenges index lookups queues =
      (slots challenges index lookups).foldlM (fun queues slot =>
        visitIdentity visit slot.index slot.lookup extras slot.challenge queues) queues := by
  induction lookups generalizing index queues with
  | nil => rfl
  | cons lookup rest ih =>
      rw [visitLookups, slots, List.foldlM_append, visitChallenges_eq]
      congr 1
      funext queues
      exact ih (index + 1) queues

/-- Hand an identity to a visitor. -/
def Identity.visit (visit : Nat → List α → α → α → m Unit) (identity : Identity α) : m Unit :=
  visit identity.index identity.looking identity.extra identity.looked

theorem foldlM_visitIdentity (hstops : ThrowStops m) (visit : Nat → List α → α → α → m Unit)
    (extras : PerTable (List α)) (due : List Slot) (queues : PerTable (List α)) :
    due.foldlM (fun queues slot =>
        visitIdentity visit slot.index slot.lookup extras slot.challenge queues) queues = (do
      (takeIdentities extras due queues).1.forM (Identity.visit visit)
      MonadExcept.ofExcept (takeIdentities extras due queues).2) := by
  induction due generalizing queues with
  | nil =>
      simp only [takeIdentities, List.foldlM_nil, List.forM_eq_forM, List.forM_nil, ofExcept_ok,
        pure_bind]
  | cons slot rest ih =>
      rw [List.foldlM_cons, visitIdentity_eq hstops, bind_assoc]
      cases h : takeIdentity extras slot queues with
      | error e =>
          simp only [takeIdentities, h]
          simp only [ofExcept_error, List.forM_eq_forM, List.forM_nil, pure_bind]
          exact hstops e _
      | ok taken =>
          simp only [takeIdentities, h, ofExcept_ok, List.forM_eq_forM, List.forM_cons, bind_assoc,
            pure_bind, ih]
          rfl

/-- Visiting every identity loops over the identities taken and then reports the error left. -/
theorem forEachIdentity_eq (hstops : ThrowStops m) (visit : Nat → List α → α → α → m Unit)
    (lookups : List Lookup) (firstRows extras : PerTable (List α)) (challenges : Nat) :
    forEachIdentity visit lookups firstRows extras challenges = (do
      (identities lookups firstRows extras challenges).1.forM (Identity.visit visit)
      MonadExcept.ofExcept (identities lookups firstRows extras challenges).2) := by
  unfold forEachIdentity identities
  rw [visitLookups_eq, foldlM_visitIdentity hstops, bind_assoc]
  congr 1
  funext _
  rw [ofExcept_bind hstops]
  congr 1
  funext queues
  unfold requireEmpty
  cases queues.leftOver? with
  | none => rfl
  | some left => rfl

end Visit

section Natural

variable (f : α → β)

/-- Apply a function to everything that queues hold. -/
abbrev mapQueues (queues : PerTable (List α)) : PerTable (List β) :=
  queues.map (List.map f)

theorem set_map (queues : PerTable (List α)) (table : Table) (as : List α) :
    mapQueues f (queues.set table as) = (mapQueues f queues).set table (as.map f) := by
  ext t
  rw [PerTable.get_map, PerTable.get_set, PerTable.get_set, PerTable.get_map]
  split <;> rfl

theorem pop?_map (queues : PerTable (List α)) (table : Table) :
    (mapQueues f queues).pop? table =
      (queues.pop? table).map (Prod.map f (mapQueues f)) := by
  unfold PerTable.pop?
  rw [PerTable.get_map]
  cases queues.get table with
  | nil => rfl
  | cons a rest =>
      rw [List.map_cons, Option.map_some, Prod.map_apply, set_map]

theorem takeFirst_map (queues : PerTable (List α)) (table : Table) :
    takeFirst (m := Except VerifyError) (mapQueues f queues) table =
      (takeFirst (m := Except VerifyError) queues table).map (Prod.map f (mapQueues f)) := by
  unfold takeFirst
  rw [pop?_map]
  cases queues.pop? table with
  | none => rfl
  | some taken => rfl

theorem takeFirsts_map (queues : PerTable (List α)) (tables : List Table) :
    takeFirsts (m := Except VerifyError) (mapQueues f queues) tables =
      (takeFirsts (m := Except VerifyError) queues tables).map
        (Prod.map (List.map f) (mapQueues f)) := by
  induction tables generalizing queues with
  | nil => rfl
  | cons table rest ih =>
      rw [takeFirsts, takeFirsts, takeFirst_map]
      cases takeFirst (m := Except VerifyError) queues table with
      | error e => rfl
      | ok taken =>
          change (takeFirsts (m := Except VerifyError) (mapQueues f taken.2) rest >>= _) =
            Except.map _ (takeFirsts (m := Except VerifyError) taken.2 rest >>= _)
          rw [ih]
          cases takeFirsts (m := Except VerifyError) taken.2 rest with
          | error e => rfl
          | ok others => rfl

theorem extraProduct_map (extras : PerTable (List α)) (table : Table) (challenge : Nat) :
    extraProduct (m := Except VerifyError) (mapQueues f extras) table challenge =
      (extraProduct (m := Except VerifyError) extras table challenge).map f := by
  unfold extraProduct
  rw [PerTable.get_map, List.getElem?_map]
  cases (extras.get table)[challenge]? with
  | none => rfl
  | some a => rfl

theorem takeIdentity_map (extras : PerTable (List α)) (slot : Slot)
    (queues : PerTable (List α)) :
    takeIdentity (mapQueues f extras) slot (mapQueues f queues) =
      (takeIdentity extras slot queues).map (Prod.map (Identity.map f) (mapQueues f)) := by
  unfold takeIdentity
  rw [takeFirsts_map, extraProduct_map]
  cases takeFirsts (m := Except VerifyError) queues (slot.lookup.looking.map Side.table) with
  | error e => rfl
  | ok looking =>
      cases extraProduct (m := Except VerifyError) extras slot.lookup.looked.table
        slot.challenge with
      | error e => rfl
      | ok extra =>
          change (takeFirst (m := Except VerifyError) (mapQueues f looking.2)
            slot.lookup.looked.table >>= _) =
              Except.map _ (takeFirst (m := Except VerifyError) looking.2
                slot.lookup.looked.table >>= _)
          rw [takeFirst_map]
          cases takeFirst (m := Except VerifyError) looking.2 slot.lookup.looked.table with
          | error e => rfl
          | ok looked => rfl

theorem takeIdentities_map (extras : PerTable (List α)) (due : List Slot)
    (queues : PerTable (List α)) :
    takeIdentities (mapQueues f extras) due (mapQueues f queues) =
      Prod.map (List.map (Identity.map f)) (Except.map (mapQueues f))
        (takeIdentities extras due queues) := by
  induction due generalizing queues with
  | nil => rfl
  | cons slot rest ih =>
      rw [takeIdentities, takeIdentities, takeIdentity_map]
      cases takeIdentity extras slot queues with
      | error e => rfl
      | ok taken =>
          have h := ih taken.2
          simp only [Except.map, Prod.map, h]
          rfl

theorem leftOver?_map (queues : PerTable (List α)) :
    (mapQueues f queues).leftOver? = queues.leftOver? := by
  unfold PerTable.leftOver?
  congr 1
  funext table
  rw [PerTable.get_map]
  cases queues.get table with
  | nil => rfl
  | cons a rest => simp

/-- The identities depend on the openings only through their places. -/
theorem identities_map (lookups : List Lookup) (firstRows extras : PerTable (List α))
    (challenges : Nat) :
    identities lookups (mapQueues f firstRows) (mapQueues f extras) challenges =
      Prod.map (List.map (Identity.map f)) id
        (identities lookups firstRows extras challenges) := by
  unfold identities
  rw [takeIdentities_map]
  cases h : (takeIdentities extras (slots challenges 0 lookups) firstRows).2 with
  | error e => simp only [Prod.map, h, Except.map]; rfl
  | ok queues =>
      simp only [Prod.map, h, Except.map]
      change (_, requireEmpty (mapQueues f queues)) = (_, requireEmpty queues)
      unfold requireEmpty
      rw [leftOver?_map]

end Natural

/-- The looking products times the outside product are the looked product. -/
def Identity.Balanced (identity : Identity Goldilocks) : Prop :=
  identity.looking.prod * identity.extra = identity.looked

theorem compareProducts_eq (index : Nat) (looking : List Goldilocks)
    (extra looked : Goldilocks) :
    compareProducts index looking extra looked =
      if looking.prod * extra = looked then .ok () else .error (.rejected index) := by
  rw [compareProducts, List.prod_eq_foldl]

theorem throwStops_except : ThrowStops (Except VerifyError) :=
  fun _ _ => rfl

/-- Comparing the products of identities stops at the first that does not balance. -/
theorem forM_compareProducts (taken : List (Identity Goldilocks)) :
    (taken.forM (Identity.visit compareProducts) = .ok () ∧ ∀ identity ∈ taken,
        identity.Balanced) ∨
      (∃ index, taken.forM (Identity.visit compareProducts) = .error (.rejected index)) ∧
        ∃ identity ∈ taken, ¬identity.Balanced := by
  rw [List.forM_eq_forM]
  induction taken with
  | nil => exact Or.inl ⟨rfl, List.forall_mem_nil _⟩
  | cons identity rest ih =>
      rw [List.forM_cons, Identity.visit, compareProducts_eq]
      by_cases h : identity.looking.prod * identity.extra = identity.looked
      · rw [if_pos h]
        rcases ih with ⟨hok, hall⟩ | ⟨herror, other, hmem, hother⟩
        · exact Or.inl ⟨hok, List.forall_mem_cons.mpr ⟨h, hall⟩⟩
        · exact Or.inr ⟨herror, other, List.mem_cons_of_mem _ hmem, hother⟩
      · rw [if_neg h]
        exact Or.inr ⟨⟨identity.index, rfl⟩, identity, List.mem_cons_self, h⟩

theorem verifyLookups_eq (lookups : List Lookup) (firstRows extras : PerTable (List Goldilocks))
    (challenges : Nat) :
    verifyLookups lookups firstRows extras challenges = (do
      (identities lookups firstRows extras challenges).1.forM (Identity.visit compareProducts)
      (identities lookups firstRows extras challenges).2) := by
  rw [verifyLookups, forEachIdentity_eq throwStops_except]
  congr 1
  funext _
  cases (identities lookups firstRows extras challenges).2 with
  | error e => rfl
  | ok _ => rfl

/-- Verification accepts exactly when all openings are there and every identity balances. -/
theorem verifyLookups_eq_ok_iff {lookups : List Lookup}
    {firstRows extras : PerTable (List Goldilocks)} {challenges : Nat} :
    verifyLookups lookups firstRows extras challenges = .ok () ↔
      (∀ identity ∈ (identities lookups firstRows extras challenges).1, identity.Balanced) ∧
        (identities lookups firstRows extras challenges).2 = .ok () := by
  rw [verifyLookups_eq]
  rcases forM_compareProducts (identities lookups firstRows extras challenges).1 with
    ⟨hok, hall⟩ | ⟨⟨index, herror⟩, identity, hmem, hne⟩
  · rw [hok]
    exact ⟨fun h => ⟨hall, h⟩, fun h => h.2⟩
  · rw [herror]
    constructor
    · intro h
      cases h
    · intro h
      exact absurd (h.1 identity hmem) hne

/-- Openings that are too few or too many are never accepted. -/
theorem verifyLookups_of_error {lookups : List Lookup}
    {firstRows extras : PerTable (List Goldilocks)} {challenges : Nat} {e : VerifyError}
    (h : (identities lookups firstRows extras challenges).2 = .error e) :
    verifyLookups lookups firstRows extras challenges = .error e ∨
      ∃ index, verifyLookups lookups firstRows extras challenges = .error (.rejected index) := by
  rw [verifyLookups_eq, h]
  rcases forM_compareProducts (identities lookups firstRows extras challenges).1 with
    ⟨hok, _⟩ | ⟨⟨index, herror⟩, _⟩
  · rw [hok]
    exact Or.inl rfl
  · rw [herror]
    exact Or.inr ⟨index, rfl⟩

end CrossLookup
