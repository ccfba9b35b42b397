import CrossLookup.Proofs.Field.TrailingZeros
import CrossLookup.Proofs.Soundness
import Mathlib.Data.List.MinMax

/-!
# Rows of another width

A row fed in from outside may be wider or narrower than the payload it is to
match. Since rows are compressed as polynomials, the verifier sees them without
their trailing zeros: it accepts under every challenge when the two sides of
every lookup then agree as multisets, and under some challenge it does not when
they still differ, as long as the rows are few beside the field.
-/

namespace CrossLookup

/-- Two lists of rows are the same multiset when the zeros at the end of each row are dropped. -/
def AgreeTrimmed (rows rows' : List (List Goldilocks)) : Prop :=
  (rows.map trimmed).Perm (rows'.map trimmed)

instance (rows rows' : List (List Goldilocks)) : Decidable (AgreeTrimmed rows rows') :=
  inferInstanceAs (Decidable (List.Perm _ _))

/-- The greatest width among rows. -/
def widest (rows : List (List Goldilocks)) : Nat :=
  (rows.map List.length).foldr max 0

theorem length_le_widest {rows : List (List Goldilocks)} {row : List Goldilocks}
    (h : row ∈ rows) : row.length ≤ widest rows :=
  List.le_max_of_le' 0 (List.mem_map_of_mem h) le_rfl

/-- For so many values of `beta` or of `gamma` the products of different rows may still agree. -/
def collisionBound (rows rows' : List (List Goldilocks)) : Nat :=
  (rows.length + rows'.length) * (widest (rows ++ rows') - 1) + max rows.length rows'.length

section Trimmed

variable {rows rows' : List (List Goldilocks)}

/-- A row with a value other than zero past a width is no row of that width with zeros after it. -/
theorem not_agreeTrimmed_of_overhang {width : Nat} {row : List Goldilocks} (hrow : row ∈ rows)
    (hwidth : ∀ other ∈ rows', other.length = width)
    {value : Goldilocks} (hvalue : value ∈ row.drop width) (hne : value ≠ 0) :
    ¬AgreeTrimmed rows rows' := by
  intro hagree
  have hmem := hagree.mem_iff.mp (List.mem_map_of_mem hrow)
  obtain ⟨other, hother, heq⟩ := List.mem_map.mp hmem
  obtain ⟨i, hi, rfl⟩ := List.getElem_of_mem hvalue
  have hcoefficient := trimmed_eq_iff_getD.mp heq (width + i)
  apply hne
  rw [List.getElem_drop, ← List.getD_eq_getElem _ 0, ← hcoefficient,
    List.getD_eq_default _ _ ((hwidth other hother).le.trans (Nat.le_add_right _ _))]

namespace Challenge

theorem combine_trimmed (challenge : Challenge Goldilocks) (row : List Goldilocks) :
    challenge.combine (trimmed row) = challenge.combine row :=
  congrArg (· + challenge.gamma) (compressed_trimmed challenge.beta row)

theorem combine_rightpad (challenge : Challenge Goldilocks) (width : Nat)
    (row : List Goldilocks) : challenge.combine (row.rightpad width 0) = challenge.combine row := by
  rw [← combine_trimmed, trimmed_rightpad, combine_trimmed]

/-- Rows that agree without trailing zeros have one product under every challenge. -/
theorem product_eq_of_agreeTrimmed (challenge : Challenge Goldilocks)
    (h : AgreeTrimmed rows rows') : challenge.product rows = challenge.product rows' := by
  have htrimmed (rows : List (List Goldilocks)) :
      challenge.product (rows.map trimmed) = challenge.product rows := by
    rw [product, List.map_map]
    exact congrArg List.prod (List.map_congr_left fun row _ => challenge.combine_trimmed row)
  rw [← htrimmed rows, ← htrimmed rows', challenge.product_perm h]

theorem product_map_rightpad (challenge : Challenge Goldilocks) (width : Nat)
    (rows : List (List Goldilocks)) :
    challenge.product (rows.map (·.rightpad width 0)) = challenge.product rows := by
  rw [product, List.map_map]
  exact congrArg List.prod (List.map_congr_left fun row _ => challenge.combine_rightpad width row)

/-- Few challenges make rows collide that still differ without trailing zeros. -/
theorem card_collisions_le_of_not_agreeTrimmed (h : ¬AgreeTrimmed rows rows') :
    (collisions rows rows').card ≤ Goldilocks.modulus * collisionBound rows rows' := by
  let width := widest (rows ++ rows')
  let pad (row : List Goldilocks) : List Goldilocks := row.rightpad width 0
  have hwidth : ∀ row ∈ rows.map pad ++ rows'.map pad, row.length = width := by
    rw [← List.map_append, List.forall_mem_map]
    intro row hrow
    rw [List.length_rightpad, Nat.max_eq_left (length_le_widest hrow)]
  have hne : ¬(rows.map pad).Perm (rows'.map pad) := by
    intro hperm
    have htrimmed := hperm.map trimmed
    simp only [List.map_map, Function.comp_def, pad, trimmed_rightpad] at htrimmed
    exact h htrimmed
  have hcollisions : collisions (rows.map pad) (rows'.map pad) = collisions rows rows' := by
    simp only [collisions, pad, product_map_rightpad]
  have hcard := card_collisions_le hwidth hne
  rwa [hcollisions, List.length_map, List.length_map] at hcard

theorem card_eq_modulus_sq :
    Fintype.card (Challenge Goldilocks) = Goldilocks.modulus * Goldilocks.modulus := by
  rw [Fintype.card_congr equivProd, Fintype.card_prod, Goldilocks.card_eq_modulus]

/-- Rows that still differ without trailing zeros, and are few, do not collide everywhere. -/
theorem exists_not_mem_collisions (h : ¬AgreeTrimmed rows rows')
    (hfew : collisionBound rows rows' < Goldilocks.modulus) :
    ∃ challenge, challenge ∉ collisions rows rows' := by
  have hlt : (collisions rows rows').card < Fintype.card (Challenge Goldilocks) := by
    calc
      (collisions rows rows').card ≤ Goldilocks.modulus * collisionBound rows rows' :=
        card_collisions_le_of_not_agreeTrimmed h
      _ < Goldilocks.modulus * Goldilocks.modulus :=
        Nat.mul_lt_mul_of_pos_left hfew (Nat.zero_lt_of_lt hfew)
      _ = Fintype.card (Challenge Goldilocks) := card_eq_modulus_sq.symm
  obtain ⟨challenge, _, hnot⟩ := Finset.exists_mem_notMem_of_card_lt_card
    (hlt.trans_eq Finset.card_univ.symm)
  exact ⟨challenge, hnot⟩

end Challenge

end Trimmed

section Verifier

variable {traces : PerTable Trace} {lookups : List Lookup} {extraRows : ExtraRows}

/-- Under a single challenge, honest first values are built and accepted when every side can be
selected from and every lookup collides. -/
theorem singleton_mem_acceptedChallenges_iff
    (hheight : ∀ lookup ∈ lookups, ∀ side ∈ lookup.sides, 0 < (traces.get side.table).height)
    {challenge : Challenge Goldilocks} :
    [challenge] ∈ acceptedChallenges traces lookups extraRows 1 ↔
      ∀ lookup ∈ lookups, (∀ side ∈ lookup.sides, side.Selectable traces) ∧
        challenge ∈ Challenge.collisions (lookup.lookingRows traces extraRows)
          (lookup.lookedRows traces) := by
  rw [forall₂_and]
  constructor
  · intro h
    obtain ⟨_, products, hproducts, _⟩ := id h
    have hscheduled := forall_mem_schedule.mp (lookupProducts_eq_ok_iff.mp hproducts).1
    have hselectable : ∀ lookup ∈ lookups, ∀ side ∈ lookup.sides, side.Selectable traces :=
      fun lookup hlookup => hscheduled lookup hlookup challenge (List.mem_singleton_self _)
    refine ⟨hselectable, fun lookup hlookup => ?_⟩
    exact ((mem_acceptedChallenges_iff hselectable hheight).mp h).2 lookup hlookup challenge
      (List.mem_singleton_self _)
  · rintro ⟨hselectable, hcollide⟩
    rw [mem_acceptedChallenges_iff hselectable hheight]
    refine ⟨rfl, fun lookup hlookup => ?_⟩
    rw [List.forall_mem_singleton]
    exact hcollide lookup hlookup

/-- Tables that hold every element are accepted whatever else they hold: the bound on the number
of rows is needed. -/
theorem accepted_of_every_element
    (hheight : ∀ lookup ∈ lookups, ∀ side ∈ lookup.sides, 0 < (traces.get side.table).height)
    (hselectable : ∀ lookup ∈ lookups, ∀ side ∈ lookup.sides, side.Selectable traces)
    (helements : ∀ lookup ∈ lookups, ∀ a : Goldilocks,
      [a] ∈ lookup.lookingRows traces extraRows ∧ [a] ∈ lookup.lookedRows traces)
    (challenge : Challenge Goldilocks) :
    [challenge] ∈ acceptedChallenges traces lookups extraRows 1 := by
  -- The row that holds `-gamma` contributes the factor zero to both products.
  have hzero {rows : List (List Goldilocks)} (h : [-challenge.gamma] ∈ rows) :
      challenge.product rows = 0 := by
    have hfactor : challenge.combine [-challenge.gamma] = 0 := by
      calc
        challenge.combine [-challenge.gamma] =
            0 * challenge.beta + -challenge.gamma + challenge.gamma := rfl
        _ = 0 := by ring
    exact List.prod_eq_zero (hfactor ▸ List.mem_map_of_mem h)
  rw [singleton_mem_acceptedChallenges_iff hheight]
  intro lookup hlookup
  obtain ⟨hlooking, hlooked⟩ := helements lookup hlookup (-challenge.gamma)
  refine ⟨hselectable lookup hlookup, Finset.mem_filter.mpr ⟨Finset.mem_univ _, ?_⟩⟩
  rw [hzero hlooking, hzero hlooked]

/-- The prover stops or the verifier refuses under some challenge exactly when a side cannot be
selected from or the rows of a lookup still differ without trailing zeros. -/
theorem exists_not_accepted_iff
    (hheight : ∀ lookup ∈ lookups, ∀ side ∈ lookup.sides, 0 < (traces.get side.table).height)
    (hfew : ∀ lookup ∈ lookups, collisionBound (lookup.lookingRows traces extraRows)
      (lookup.lookedRows traces) < Goldilocks.modulus) :
    (∃ challenge, [challenge] ∉ acceptedChallenges traces lookups extraRows 1) ↔
      ∃ lookup ∈ lookups, (∃ side ∈ lookup.sides, ¬side.Selectable traces) ∨
        ¬AgreeTrimmed (lookup.lookingRows traces extraRows) (lookup.lookedRows traces) := by
  constructor
  · rintro ⟨challenge, hnot⟩
    by_contra hall
    apply hnot
    rw [singleton_mem_acceptedChallenges_iff hheight]
    intro lookup hlookup
    obtain ⟨hselectable, hagree⟩ := not_or.mp fun h => hall ⟨lookup, hlookup, h⟩
    refine ⟨fun side hside => ?_, ?_⟩
    · by_contra hside'
      exact hselectable ⟨side, hside, hside'⟩
    · exact Finset.mem_filter.mpr ⟨Finset.mem_univ _,
        challenge.product_eq_of_agreeTrimmed (not_not.mp hagree)⟩
  · rintro ⟨lookup, hlookup, ⟨side, hside, hstops⟩ | hdiffer⟩
    · refine ⟨⟨0, 0⟩, fun h => hstops ?_⟩
      exact ((singleton_mem_acceptedChallenges_iff hheight).mp h lookup hlookup).1 side hside
    · obtain ⟨challenge, hnot⟩ :=
        Challenge.exists_not_mem_collisions hdiffer (hfew lookup hlookup)
      refine ⟨challenge, fun h => hnot ?_⟩
      exact ((singleton_mem_acceptedChallenges_iff hheight).mp h lookup hlookup).2

/-- A row fed in whose width is not that of the payload is never consistent. The prover stops or
the verifier refuses under some challenge exactly when a side cannot be selected from or the rows
of a lookup still differ without trailing zeros, and so whenever that row goes on past the payload
with a value other than zero. -/
theorem extraRow_bound_to_width {lookup : Lookup} (hlookup : lookup ∈ lookups)
    {row : List Goldilocks} (hrow : row ∈ extraRows.get lookup.looked.table)
    (hwidth : row.length ≠ lookup.looked.columns.length)
    (hheight : ∀ lookup ∈ lookups, ∀ side ∈ lookup.sides, 0 < (traces.get side.table).height)
    (hfew : ∀ lookup ∈ lookups, collisionBound (lookup.lookingRows traces extraRows)
      (lookup.lookedRows traces) < Goldilocks.modulus) :
    (∃ e, checkConsistency traces lookups extraRows = .error e) ∧
    ((∃ challenge, [challenge] ∉ acceptedChallenges traces lookups extraRows 1) ↔
      ∃ lookup ∈ lookups, (∃ side ∈ lookup.sides, ¬side.Selectable traces) ∨
        ¬AgreeTrimmed (lookup.lookingRows traces extraRows) (lookup.lookedRows traces)) ∧
    ((∃ value ∈ row.drop lookup.looked.columns.length, value ≠ 0) →
      ∃ challenge, [challenge] ∉ acceptedChallenges traces lookups extraRows 1) := by
  have hlooking : row ∈ lookup.lookingRows traces extraRows := List.mem_append_right _ hrow
  have hlooked : ∀ other ∈ lookup.lookedRows traces,
      other.length = lookup.looked.columns.length :=
    fun other hother => Lookup.length_of_mem_rows hother
  have hiff := exists_not_accepted_iff hheight hfew
  refine ⟨exists_error_of_not_consistent hlookup fun h => ?_, hiff, ?_⟩
  · exact hwidth (hlooked row (h.perm.mem_iff.mp hlooking))
  · rintro ⟨value, hvalue, hne⟩
    exact hiff.mpr ⟨lookup, hlookup,
      Or.inr (not_agreeTrimmed_of_overhang hlooking hlooked hvalue hne)⟩

/-- The memory row that no CPU row looks up is fed in with a value too many. -/
def overhangingExtraRows : ExtraRows :=
  ⟨#v[[], [], [], [], [], [], [[.ofWord 9, .ofWord 4]]]⟩

/-- The value too many is refused under some challenge. -/
theorem extraRow_bound_to_width_sample :
    [Goldilocks.ofWord 9, .ofWord 4].length ≠ sampleLookup.looked.columns.length ∧
    collisionBound (sampleLookup.lookingRows sampleTraces overhangingExtraRows)
      (sampleLookup.lookedRows sampleTraces) < Goldilocks.modulus ∧
    ∃ challenge, [challenge] ∉
      acceptedChallenges sampleTraces [sampleLookup] overhangingExtraRows 1 := by
  have hwidth : [Goldilocks.ofWord 9, .ofWord 4].length ≠ sampleLookup.looked.columns.length := by
    decide
  have hfew : collisionBound (sampleLookup.lookingRows sampleTraces overhangingExtraRows)
      (sampleLookup.lookedRows sampleTraces) < Goldilocks.modulus := by
    decide
  exact ⟨hwidth, hfew, (extraRow_bound_to_width (List.mem_singleton_self sampleLookup)
    (by decide) hwidth (by decide) (List.forall_mem_singleton.mpr hfew)).2.2 (by decide)⟩

/-- The same memory row is fed in with a zero after it. -/
def zeroPaddedExtraRows : ExtraRows :=
  ⟨#v[[], [], [], [], [], [], [[.ofWord 9, 0]]]⟩

/-- A zero too many makes the rows inconsistent, and yet no challenge refuses it. -/
theorem zeroPadded_always_accepted :
    [Goldilocks.ofWord 9, 0] ∈ zeroPaddedExtraRows.get sampleLookup.looked.table ∧
    [Goldilocks.ofWord 9, 0].length ≠ sampleLookup.looked.columns.length ∧
    (∀ side ∈ sampleLookup.sides, (sampleTraces.get side.table).Rectangular ∧
      0 < (sampleTraces.get side.table).height) ∧
    (∃ e, checkConsistency sampleTraces [sampleLookup] zeroPaddedExtraRows = .error e) ∧
    ∀ challenge, [challenge] ∈
      acceptedChallenges sampleTraces [sampleLookup] zeroPaddedExtraRows 1 := by
  have hheight : ∀ side ∈ sampleLookup.sides, (sampleTraces.get side.table).Rectangular ∧
      0 < (sampleTraces.get side.table).height := by
    unfold Trace.Rectangular
    decide
  refine ⟨by decide, by decide, hheight, ?_, fun challenge => ?_⟩
  · exact exists_error_of_not_consistent (List.mem_singleton_self _) (by decide)
  · rw [singleton_mem_acceptedChallenges_iff
      (List.forall_mem_singleton.mpr fun side hside => (hheight side hside).2),
      List.forall_mem_singleton]
    have hagree : AgreeTrimmed (sampleLookup.lookingRows sampleTraces zeroPaddedExtraRows)
        (sampleLookup.lookedRows sampleTraces) := by
      decide
    exact ⟨by decide, Finset.mem_filter.mpr ⟨Finset.mem_univ _,
      challenge.product_eq_of_agreeTrimmed hagree⟩⟩

end Verifier

end CrossLookup
