import CrossLookup.Circuit.Verification
import CrossLookup.Proofs.Circuit.Given
import CrossLookup.Proofs.Verification.Identities

/-!
# Verification inside a circuit decides as outside

Both verifiers take the same identities from openings of the same shape. The
one outside compares the products of an identity when it visits it, the one
inside connects wires that hold them; a shape that is refused is refused alike.
-/

namespace CrossLookup

open Build

theorem throwStops_checkedBuild : ThrowStops CheckedBuild :=
  fun _ _ => rfl

/-- Connect the two products of an identity. -/
def Identity.connect (identity : Identity Wire) : Build Unit := do
  let product ← Build.mulMany identity.looking
  let product ← Build.mul product identity.extra
  Build.connect product identity.looked

theorem visit_connectProducts (identity : Identity Wire) :
    (Identity.visit connectProducts identity : CheckedBuild Unit) =
      ExceptT.lift identity.connect := by
  rfl

theorem run_forM_connectProducts (taken : List (Identity Wire)) (result : Except VerifyError Unit) :
    (do taken.forM (Identity.visit connectProducts)
        MonadExcept.ofExcept result : CheckedBuild Unit).run = (do
      taken.forM Identity.connect
      pure result) := by
  rw [List.forM_eq_forM, List.forM_eq_forM]
  induction taken with
  | nil =>
      cases result with
      | error e => rfl
      | ok _ => rfl
  | cons identity rest ih =>
      rw [List.forM_cons, List.forM_cons, bind_assoc, bind_assoc, ← ih, visit_connectProducts,
        ExceptT.run_bind_lift]

variable {values : List Goldilocks}

/-- The wires of an identity hold the parts of an identity over values. -/
structure Identity.Holds (values : List Goldilocks) (wires : Identity Wire)
    (identity : Identity Goldilocks) : Prop where
  looking : List.Forall₂ (Wire.Holds values) wires.looking identity.looking
  extra : wires.extra.Holds values identity.extra
  looked : wires.looked.Holds values identity.looked

theorem Identity.Holds.mono {wires : Identity Wire} {identity : Identity Goldilocks}
    (h : wires.Holds values identity) {values' : List Goldilocks} (hle : values <+: values') :
    wires.Holds values' identity :=
  ⟨forall₂_holds_mono h.looking hle, h.extra.mono hle, h.looked.mono hle⟩

/-- The products of an identity that must agree. -/
def Identity.products (identity : Identity Goldilocks) : Goldilocks × Goldilocks :=
  (identity.looking.prod * identity.extra, identity.looked)

theorem connects_identity {wires : Identity Wire} {identity : Identity Goldilocks}
    (h : wires.Holds values identity) :
    Connects wires.connect values [identity.products] fun _ _ => True := by
  refine (yields_mulMany h.looking).bind fun product values₁ hle₁ hproduct => ?_
  refine (yields_mul hproduct (h.extra.mono hle₁)).bind fun product values₂ hle₂ hproduct => ?_
  exact connects_connect hproduct (h.looked.mono (hle₁.trans hle₂))

theorem connects_identities {wires : List (Identity Wire)} {taken : List (Identity Goldilocks)}
    (h : List.Forall₂ (Identity.Holds values) wires taken) :
    Connects (wires.forM Identity.connect) values (taken.map Identity.products)
      fun _ _ => True := by
  rw [List.forM_eq_forM]
  induction wires generalizing values taken with
  | nil =>
      cases h
      exact Connects.pure trivial
  | cons identity rest ih =>
      cases h with
      | cons hfirst hrest =>
          rw [List.forM_cons, List.map_cons]
          refine (connects_identity hfirst).bind fun _ values' hle _ => ?_
          exact ih (hrest.imp fun _ _ hholds => hholds.mono hle)

/-- A wire with the value that it holds. -/
def HeldWire (values : List Goldilocks) : Type :=
  { pair : Wire × Goldilocks // pair.1.Holds values pair.2 }

namespace HeldWire

def wire (held : HeldWire values) : Wire := held.1.1

def value (held : HeldWire values) : Goldilocks := held.1.2

theorem holds (held : HeldWire values) : held.wire.Holds values held.value :=
  held.2

theorem exists_list {wires : List Wire} {as : List Goldilocks}
    (h : List.Forall₂ (Wire.Holds values) wires as) :
    ∃ held : List (HeldWire values), held.map wire = wires ∧ held.map value = as := by
  induction h with
  | nil => exact ⟨[], rfl, rfl⟩
  | @cons wire a wires as hholds _ ih =>
      obtain ⟨held, rfl, rfl⟩ := ih
      exact ⟨⟨(wire, a), hholds⟩ :: held, rfl, rfl⟩

theorem exists_queues {wires : PerTable (List Wire)} {queues : PerTable (List Goldilocks)}
    (h : ∀ table, List.Forall₂ (Wire.Holds values) (wires.get table) (queues.get table)) :
    ∃ held : PerTable (List (HeldWire values)),
      mapQueues wire held = wires ∧ mapQueues value held = queues := by
  choose held hwires hvalues using fun table => exists_list (h table)
  refine ⟨.ofFn held, PerTable.ext fun table => ?_, PerTable.ext fun table => ?_⟩
  · rw [PerTable.get_map, PerTable.get_ofFn, hwires]
  · rw [PerTable.get_map, PerTable.get_ofFn, hvalues]

theorem holds_identity (identity : Identity (HeldWire values)) :
    Identity.Holds values (identity.map wire) (identity.map value) := by
  refine ⟨?_, identity.extra.holds, identity.looked.holds⟩
  rw [Identity.map, Identity.map, List.forall₂_map_left_iff, List.forall₂_map_right_iff,
    List.forall₂_same]
  exact fun held _ => held.holds

end HeldWire

/-- The identities over wires hold those over values, and end alike. -/
theorem identities_hold {firstWires extraWires : PerTable (List Wire)}
    {firstRows extras : PerTable (List Goldilocks)} (lookups : List Lookup) (challenges : Nat)
    (hfirst : ∀ table,
      List.Forall₂ (Wire.Holds values) (firstWires.get table) (firstRows.get table))
    (hextra : ∀ table,
      List.Forall₂ (Wire.Holds values) (extraWires.get table) (extras.get table)) :
    List.Forall₂ (Identity.Holds values) (identities lookups firstWires extraWires challenges).1
        (identities lookups firstRows extras challenges).1 ∧
      (identities lookups firstWires extraWires challenges).2 =
        (identities lookups firstRows extras challenges).2 := by
  obtain ⟨first, rfl, rfl⟩ := HeldWire.exists_queues hfirst
  obtain ⟨extra, rfl, rfl⟩ := HeldWire.exists_queues hextra
  rw [identities_map, identities_map]
  refine ⟨?_, rfl⟩
  simp only [Prod.map, List.forall₂_map_left_iff, List.forall₂_map_right_iff, List.forall₂_same]
  exact fun identity _ => HeldWire.holds_identity identity

/-- The verifier circuit connects the products of every identity taken from its inputs, and is
refused when the openings outside are. -/
theorem connects_verifyGivenLookups (lookups : List Lookup)
    (firstRows extras : PerTable (List Goldilocks)) (challenges : Nat) :
    Given.Connects (verifyGivenLookups lookups firstRows extras challenges) []
      ((identities lookups firstRows extras challenges).1.map Identity.products)
      fun result _ => result = (identities lookups firstRows extras challenges).2 := by
  let holds : List Goldilocks → List Goldilocks → List Wire → Prop :=
    fun as values wires => List.Forall₂ (Wire.Holds values) wires as
  have hmono : ∀ {as values values' wires}, holds as values wires → values <+: values' →
      holds as values' wires := fun h hle => forall₂_holds_mono h hle
  refine (Given.yields_mapM_perTable holds hmono (fun as _ => Given.yields_wires as)
    firstRows).bind fun firstWires values₁ _ hfirst => ?_
  refine (Given.yields_mapM_perTable holds hmono (fun as _ => Given.yields_wires as)
    extras).bind fun extraWires values₂ hle hextra => ?_
  obtain ⟨hholds, hend⟩ := identities_hold lookups challenges
    (fun table => hmono (hfirst table) hle) hextra
  have hconnects := (connects_identities hholds).bind fun _ _ _ _ =>
    (Connects.pure rfl : Yields _ _ fun result _ =>
      result = (identities lookups firstRows extras challenges).2)
  rw [List.append_nil] at hconnects
  rw [verifyLookupsCircuit, forEachIdentity_eq throwStops_checkedBuild,
    run_forM_connectProducts, hend]
  exact Given.Connects.lift hconnects

/-- The verifier circuit of openings with its inputs. -/
abbrev posedVerifier (lookups : List Lookup) (firstRows extras : PerTable (List Goldilocks))
    (challenges : Nat) : Posed (Except VerifyError Unit) :=
  (verifyGivenLookups lookups firstRows extras challenges).pose

theorem verifyLookups_eq_ok_iff_satisfied {lookups : List Lookup}
    {firstRows extras : PerTable (List Goldilocks)} {challenges : Nat} :
    verifyLookups lookups firstRows extras challenges = .ok () ↔
      (posedVerifier lookups firstRows extras challenges).result = .ok () ∧
        ∃ w, (posedVerifier lookups firstRows extras challenges).assigned = .ok w ∧
          (posedVerifier lookups firstRows extras challenges).circuit.isSatisfied w = true := by
  have hconnects := connects_verifyGivenLookups lookups firstRows extras challenges
  obtain ⟨_, _, _, _, hresult⟩ := hconnects.pose
  rw [verifyLookups_eq_ok_iff, hresult, hconnects.isSatisfied_iff, List.forall_mem_map]
  exact and_comm

/-- The verifier outside accepts exactly when the circuit is built and satisfied by the openings.
Openings with which no circuit is built are refused outside for the same reason, unless a lookup
is rejected before. -/
theorem verifyLookups_iff_posedVerifier (lookups : List Lookup)
    (firstRows extras : PerTable (List Goldilocks)) (challenges : Nat) :
    (verifyLookups lookups firstRows extras challenges = .ok () ↔
      (posedVerifier lookups firstRows extras challenges).result = .ok () ∧
        ∃ w, (posedVerifier lookups firstRows extras challenges).assigned = .ok w ∧
          (posedVerifier lookups firstRows extras challenges).circuit.isSatisfied w = true) ∧
    ((posedVerifier lookups firstRows extras challenges).result = .ok () ∨
      ∃ e e', (posedVerifier lookups firstRows extras challenges).result = .error e ∧
        verifyLookups lookups firstRows extras challenges = .error e' ∧
          (e'.message = e.message ∨ ∃ index : Nat, e'.message =
            "Cross-table lookup " ++ toString index ++ " verification failed.")) := by
  have hconnects := connects_verifyGivenLookups lookups firstRows extras challenges
  obtain ⟨_, _, _, _, hresult⟩ := hconnects.pose
  constructor
  · exact verifyLookups_eq_ok_iff_satisfied
  · cases hend : (identities lookups firstRows extras challenges).2 with
    | ok _ => exact Or.inl (hresult.trans hend)
    | error e =>
        right
        rcases verifyLookups_of_error hend with hsame | ⟨index, hrejected⟩
        · exact ⟨e, e, hresult.trans hend, hsame, Or.inl rfl⟩
        · exact ⟨e, _, hresult.trans hend, hrejected, Or.inr ⟨index, rfl⟩⟩

end CrossLookup
