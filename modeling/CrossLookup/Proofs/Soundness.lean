import CrossLookup.Proofs.Collisions
import Mathlib.Data.Fintype.BigOperators
import Mathlib.Data.Set.Card

/-!
# Soundness

When the rows of one lookup differ as multisets, the verifier accepts the honest
first values only if every challenge makes these rows collide. The number of
such challenge sets is bounded.
-/

namespace CrossLookup

/-- The sets of challenges under which the verifier accepts the honest first values. -/
def acceptedChallenges (traces : PerTable Trace) (lookups : List Lookup)
    (extraRows : ExtraRows) (count : Nat) : Set (ChallengeSet Goldilocks) :=
  {challenges | challenges.length = count ∧ ∃ products,
    lookupProducts traces lookups challenges = .ok products ∧
      verifyLookups lookups (firstValues products) (extraProducts extraRows challenges)
        count = .ok ()}

/-- Lists of a length with elements from a finite set are no more than the power of its size. -/
theorem encard_lists_le {α : Type} (s : Finset α) (n : Nat) :
    {as : List α | as.length = n ∧ ∀ a ∈ as, a ∈ s}.encard ≤ ((s.card ^ n : ℕ) : ℕ∞) := by
  have hcover : {as : List α | as.length = n ∧ ∀ a ∈ as, a ∈ s} ⊆
      List.ofFn '' (Fintype.piFinset fun _ : Fin n => s : Set (Fin n → α)) := by
    rintro as ⟨rfl, has⟩
    refine ⟨as.get, ?_, List.ofFn_get as⟩
    rw [Finset.mem_coe, Fintype.mem_piFinset]
    intro i
    exact has _ (List.get_mem as i)
  calc
    _ ≤ _ := Set.encard_le_encard hcover
    _ ≤ (Fintype.piFinset fun _ : Fin n => s : Set (Fin n → α)).encard := Set.encard_image_le _ _
    _ = ((s.card ^ n : ℕ) : ℕ∞) := by
      rw [Set.encard_coe_eq_coe_finsetCard, Fintype.card_piFinset_const]

namespace Lookup

variable {lookup : Lookup} {traces : PerTable Trace} {extraRows : ExtraRows}

theorem length_of_mem_rows {side : Side} {row : List Goldilocks} (h : row ∈ side.rows traces) :
    row.length = side.columns.length := by
  obtain ⟨index, _, rfl⟩ := List.mem_map.mp h
  exact List.length_map _

/-- Every row that takes part has the width of the lookup, if every row fed in does. -/
theorem width_of_mem_rows
    (hextra : ∀ row ∈ extraRows.get lookup.looked.table,
      row.length = lookup.looked.columns.length) :
    ∀ row ∈ lookup.lookingRows traces extraRows ++ lookup.lookedRows traces,
      row.length = lookup.looked.columns.length := by
  intro row hrow
  rcases List.mem_append.mp hrow with hlooking | hlooked
  · rcases List.mem_append.mp hlooking with hside | houtside
    · obtain ⟨side, hmem, hrow⟩ := List.mem_flatMap.mp hside
      exact (length_of_mem_rows hrow).trans (lookup.width_eq side hmem)
    · exact hextra row houtside
  · exact length_of_mem_rows hlooked

end Lookup

variable {traces : PerTable Trace} {lookups : List Lookup} {extraRows : ExtraRows}

/-- Honest first values are accepted under the challenges that make all lookups collide. -/
theorem mem_acceptedChallenges_iff
    (hselectable : ∀ lookup ∈ lookups, ∀ side ∈ lookup.sides, side.Selectable traces)
    (hheight : ∀ lookup ∈ lookups, ∀ side ∈ lookup.sides, 0 < (traces.get side.table).height)
    {count : Nat} {challenges : ChallengeSet Goldilocks} :
    challenges ∈ acceptedChallenges traces lookups extraRows count ↔
      challenges.length = count ∧ ∀ lookup ∈ lookups, ∀ challenge ∈ challenges,
        challenge ∈ Challenge.collisions (lookup.lookingRows traces extraRows)
          (lookup.lookedRows traces) := by
  have hproducts := lookupProducts_of_selectable challenges hselectable
  have hfirst := firstValues_running challenges hheight
  simp only [Challenge.collisions, Finset.mem_filter, Finset.mem_univ, true_and,
    ← verifyLookups_honest_iff]
  constructor
  · rintro ⟨rfl, products, hok, haccepted⟩
    rw [hproducts] at hok
    cases hok
    rw [hfirst] at haccepted
    exact ⟨rfl, haccepted⟩
  · rintro ⟨rfl, haccepted⟩
    refine ⟨rfl, _, hproducts, ?_⟩
    rw [hfirst]
    exact haccepted

/-- Of traces whose rows differ in one lookup, honest products are always built but accepted
under few sets of challenges. -/
theorem encard_acceptedChallenges_le
    (hselectable : ∀ lookup ∈ lookups, ∀ side ∈ lookup.sides, side.Selectable traces)
    (hheight : ∀ lookup ∈ lookups, ∀ side ∈ lookup.sides, 0 < (traces.get side.table).height)
    (hextra : ∀ lookup ∈ lookups, ∀ row ∈ extraRows.get lookup.looked.table,
      row.length = lookup.looked.columns.length)
    {lookup : Lookup} (hlookup : lookup ∈ lookups)
    (hne : ¬(lookup.lookingRows traces extraRows).Perm (lookup.lookedRows traces))
    (count : Nat) :
    (∃ e, checkConsistency traces lookups extraRows = .error e) ∧
    (∀ challenges, ∃ products, lookupProducts traces lookups challenges = .ok products) ∧
    (acceptedChallenges traces lookups extraRows count).encard ≤
      ((Goldilocks.modulus *
        (((lookup.lookingRows traces extraRows).length + (lookup.lookedRows traces).length) *
            (lookup.looked.columns.length - 1) +
          max (lookup.lookingRows traces extraRows).length
            (lookup.lookedRows traces).length)) ^ count : ℕ) := by
  refine ⟨?_, fun challenges => ⟨_, lookupProducts_of_selectable challenges hselectable⟩, ?_⟩
  · cases hcheck : checkConsistency traces lookups extraRows with
    | error e => exact ⟨e, rfl⟩
    | ok _ => exact absurd (checkConsistency_eq_ok_iff.mp hcheck lookup hlookup).perm hne
  · let collisions := Challenge.collisions (lookup.lookingRows traces extraRows)
      (lookup.lookedRows traces)
    have hcard := Challenge.card_collisions_le
      (Lookup.width_of_mem_rows (hextra lookup hlookup)) hne
    have hsubset : acceptedChallenges traces lookups extraRows count ⊆
        {challenges | challenges.length = count ∧ ∀ challenge ∈ challenges,
          challenge ∈ collisions} := by
      intro challenges h
      obtain ⟨hlength, hcollide⟩ := (mem_acceptedChallenges_iff hselectable hheight).mp h
      exact ⟨hlength, hcollide lookup hlookup⟩
    calc
      _ ≤ _ := Set.encard_le_encard hsubset
      _ ≤ ((collisions.card ^ count : ℕ) : ℕ∞) := encard_lists_le collisions count
      _ ≤ _ := Nat.cast_le.mpr (Nat.pow_le_pow_left hcard count)

/-- Of three CPU pairs the first and the last are selected, and the memory holds three. -/
def pairTraces : PerTable Trace :=
  ⟨#v[.empty, .empty, .ofColumns [[3, 4, 5], [30, 40, 50], [1, 0, 1]], .empty, .empty, .empty,
    .ofColumns [[5, 9, 3], [50, 90, 30]]]⟩

/-- Every selected CPU pair is looked up in the memory. -/
def pairLookup : Lookup where
  looking := [⟨.cpu, [.single 0, .single 1], some (.single 2)⟩]
  looked := ⟨.memory, [.single 0, .single 1], none⟩
  width_eq := by decide

/-- A pair for the memory that differs from the one not looked up in its second part. -/
def strangePair : ExtraRows :=
  ⟨#v[[], [], [], [], [], [], [[.ofWord 9, .ofWord 91]]]⟩

/-- With a strange pair fed in, three pairs are looked up that are not the three of the memory. -/
theorem encard_acceptedChallenges_sample :
    (∀ lookup ∈ [pairLookup], ∀ row ∈ strangePair.get lookup.looked.table,
      row.length = lookup.looked.columns.length) ∧
    ¬(pairLookup.lookingRows pairTraces strangePair).Perm (pairLookup.lookedRows pairTraces) ∧
    (∃ e, checkConsistency pairTraces [pairLookup] strangePair = .error e) ∧
    (acceptedChallenges pairTraces [pairLookup] strangePair 2).encard ≤
      (((Goldilocks.modulus * ((3 + 3) * (2 - 1) + 3)) ^ 2 : ℕ) : ℕ∞) := by
  have hwidth : ∀ lookup ∈ [pairLookup], ∀ row ∈ strangePair.get lookup.looked.table,
      row.length = lookup.looked.columns.length := by
    decide
  have hne : ¬(pairLookup.lookingRows pairTraces strangePair).Perm
      (pairLookup.lookedRows pairTraces) := by
    decide
  obtain ⟨hrefused, _, hbound⟩ := encard_acceptedChallenges_le (by decide) (by decide) hwidth
    (List.mem_singleton_self _) hne 2
  exact ⟨hwidth, hne, hrefused, hbound⟩

end CrossLookup
