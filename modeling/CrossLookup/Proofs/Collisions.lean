import CrossLookup.Proofs.Field.Polynomial
import CrossLookup.Proofs.GrandProduct
import Mathlib.Algebra.Order.BigOperators.Group.Finset
import Mathlib.Data.Fintype.BigOperators

/-!
# Colliding grand products

Lists of rows that differ as multisets have equal products under few challenges:
either two different rows are compressed to one value, which happens at the
roots in `beta` of the difference of their polynomials, or the compressed rows
still differ and `gamma` is a root of the difference of their products.
-/

namespace CrossLookup

open Polynomial

section Beta

variable {rows rows' : List (List Goldilocks)} {width : Nat}

/-- Compression keeps the number of a row with whose value no other row's collides. -/
theorem count_map_compressed {beta : Goldilocks} {row : List Goldilocks}
    (h : ∀ other ∈ rows, compressed beta other = compressed beta row → other = row) :
    (rows.map (compressed beta)).count (compressed beta row) = rows.count row := by
  rw [List.count, List.countP_map, List.count]
  apply List.countP_congr
  intro other hother
  simp only [Function.comp_apply, beq_iff_eq]
  constructor
  · exact h other hother
  · intro heq
    rw [heq]

/-- A row that differs in number collides with another when the compressed rows agree. -/
theorem exists_collision {beta : Goldilocks} {row : List Goldilocks}
    (hrow : rows.count row ≠ rows'.count row)
    (hperm : (rows.map (compressed beta)).Perm (rows'.map (compressed beta))) :
    ∃ other ∈ rows ++ rows', other ≠ row ∧ compressed beta other = compressed beta row := by
  by_contra hnone
  have hapart : ∀ other ∈ rows ++ rows',
      compressed beta other = compressed beta row → other = row := by
    intro other hother heq
    by_contra hne
    exact hnone ⟨other, hother, hne, heq⟩
  apply hrow
  rw [← count_map_compressed fun other hother => hapart other (List.mem_append_left _ hother),
    ← count_map_compressed fun other hother => hapart other (List.mem_append_right _ hother)]
  exact hperm.count_eq _

/-- Few compressions make different multisets of rows equal. -/
theorem card_perm_compressed_le (hwidth : ∀ row ∈ rows ++ rows', row.length = width)
    (hne : ¬rows.Perm rows') :
    (Finset.univ.filter fun beta =>
        (rows.map (compressed beta)).Perm (rows'.map (compressed beta))).card ≤
      (rows.length + rows'.length) * (width - 1) := by
  obtain ⟨row, hrow⟩ : ∃ row, rows.count row ≠ rows'.count row := by
    rw [List.perm_iff_count] at hne
    exact not_forall.mp hne
  have hmem : row ∈ rows ++ rows' := by
    by_contra h
    rw [List.mem_append, not_or] at h
    exact hrow ((List.count_eq_zero_of_not_mem h.1).trans
      (List.count_eq_zero_of_not_mem h.2).symm)
  -- To even the numbers out, this one row must collide with some other.
  have hcover : (Finset.univ.filter fun beta =>
      (rows.map (compressed beta)).Perm (rows'.map (compressed beta))) ⊆
        ((rows ++ rows').toFinset.erase row).biUnion fun other =>
          Finset.univ.filter fun beta => compressed beta other = compressed beta row := by
    intro beta hbeta
    obtain ⟨other, hother, hne, heq⟩ := exists_collision hrow (Finset.mem_filter.mp hbeta).2
    rw [Finset.mem_biUnion]
    exact ⟨other, Finset.mem_erase.mpr ⟨hne, List.mem_toFinset.mpr hother⟩,
      Finset.mem_filter.mpr ⟨Finset.mem_univ _, heq⟩⟩
  calc
    _ ≤ _ := Finset.card_le_card hcover
    _ ≤ ((rows ++ rows').toFinset.erase row).card * (width - 1) := by
      apply Finset.card_biUnion_le_card_mul
      intro other hother
      obtain ⟨hother', hin⟩ := Finset.mem_erase.mp hother
      exact card_compressed_eq_le (hwidth other (List.mem_toFinset.mp hin)) (hwidth row hmem)
        hother'
    _ ≤ (rows.length + rows'.length) * (width - 1) := by
      apply Nat.mul_le_mul_right
      rw [← List.length_append]
      exact (Finset.card_erase_le).trans (List.toFinset_card_le _)

end Beta

/-- The product of values shifted by an unknown. -/
noncomputable def shiftedProduct (values : List Goldilocks) : Goldilocks[X] :=
  (((values : Multiset Goldilocks).map Neg.neg).map fun a => X - C a).prod

theorem eval_shiftedProduct (gamma : Goldilocks) (values : List Goldilocks) :
    (shiftedProduct values).eval gamma = (values.map (· + gamma)).prod := by
  rw [shiftedProduct, Multiset.map_coe, Multiset.map_coe, Multiset.prod_coe, eval_list_prod,
    List.map_map, List.map_map]
  congr 1
  apply List.map_congr_left
  intro value _
  simp only [Function.comp_apply, eval_sub, eval_X, eval_C, sub_neg_eq_add, add_comm]

theorem natDegree_shiftedProduct (values : List Goldilocks) :
    (shiftedProduct values).natDegree = values.length := by
  rw [shiftedProduct, natDegree_multiset_prod_X_sub_C_eq_card, Multiset.card_map,
    Multiset.coe_card]

/-- The roots of the product tell the values. -/
theorem perm_of_shiftedProduct_eq {values values' : List Goldilocks}
    (h : shiftedProduct values = shiftedProduct values') : values.Perm values' := by
  have hroots := congrArg roots h
  rw [shiftedProduct, shiftedProduct, roots_multiset_prod_X_sub_C,
    roots_multiset_prod_X_sub_C] at hroots
  exact Multiset.coe_eq_coe.mp (Multiset.map_injective neg_injective hroots)

/-- Different multisets of values have equal shifted products at few points. -/
theorem card_shifted_prod_eq_le {values values' : List Goldilocks}
    (hne : ¬values.Perm values') :
    (Finset.univ.filter fun gamma =>
        (values.map (· + gamma)).prod = (values'.map (· + gamma)).prod).card ≤
      max values.length values'.length := by
  have hdiff : shiftedProduct values - shiftedProduct values' ≠ 0 := by
    intro h
    exact hne (perm_of_shiftedProduct_eq (sub_eq_zero.mp h))
  have hdegree : (shiftedProduct values - shiftedProduct values').natDegree ≤
      max values.length values'.length := by
    have h := natDegree_sub_le (shiftedProduct values) (shiftedProduct values')
    rwa [natDegree_shiftedProduct, natDegree_shiftedProduct] at h
  have hcard := card_roots_le hdiff hdegree
  simpa only [eval_sub, eval_shiftedProduct, sub_eq_zero] using hcard

namespace Challenge

/-- A challenge is a pair of elements. -/
def equivProd : Challenge Goldilocks ≃ Goldilocks × Goldilocks where
  toFun challenge := (challenge.beta, challenge.gamma)
  invFun pair := ⟨pair.1, pair.2⟩
  left_inv _ := rfl
  right_inv _ := rfl

instance : Finite (Challenge Goldilocks) :=
  Finite.of_equiv _ equivProd.symm

noncomputable instance : Fintype (Challenge Goldilocks) :=
  Fintype.ofFinite _

theorem product_eq (challenge : Challenge Goldilocks) (rows : List (List Goldilocks)) :
    challenge.product rows =
      ((rows.map (compressed challenge.beta)).map (· + challenge.gamma)).prod := by
  rw [product, List.map_map]
  rfl

/-- The challenges under which two lists of rows have one product. -/
noncomputable def collisions (rows rows' : List (List Goldilocks)) :
    Finset (Challenge Goldilocks) :=
  Finset.univ.filter fun challenge => challenge.product rows = challenge.product rows'

variable {rows rows' : List (List Goldilocks)} {width : Nat}

/-- Under a fixed `beta` few challenges collide, unless the compressed rows agree. -/
theorem card_collisions_beta_le (beta : Goldilocks) :
    ((collisions rows rows').filter fun challenge => challenge.beta = beta).card ≤
      (if (rows.map (compressed beta)).Perm (rows'.map (compressed beta)) then
        Goldilocks.modulus else 0) + max rows.length rows'.length := by
  let values := rows.map (compressed beta)
  let values' := rows'.map (compressed beta)
  have hfiber : ((collisions rows rows').filter fun challenge => challenge.beta = beta) ⊆
      (Finset.univ.filter fun gamma => (values.map (· + gamma)).prod =
        (values'.map (· + gamma)).prod).image (Challenge.mk beta) := by
    intro challenge h
    obtain ⟨hcollision, rfl⟩ := Finset.mem_filter.mp h
    have hproduct := (Finset.mem_filter.mp hcollision).2
    rw [product_eq, product_eq] at hproduct
    exact Finset.mem_image.mpr
      ⟨challenge.gamma, Finset.mem_filter.mpr ⟨Finset.mem_univ _, hproduct⟩, rfl⟩
  have hcard := (Finset.card_le_card hfiber).trans Finset.card_image_le
  split
  · have huniv := hcard.trans (Finset.card_le_univ _)
    rw [Goldilocks.card_eq_modulus] at huniv
    exact huniv.trans (Nat.le_add_right _ _)
  · next hperm =>
    have hgamma := hcard.trans (card_shifted_prod_eq_le hperm)
    rw [List.length_map, List.length_map] at hgamma
    rw [Nat.zero_add]
    exact hgamma

/-- Few challenges make rows that differ as multisets collide. -/
theorem card_collisions_le (hwidth : ∀ row ∈ rows ++ rows', row.length = width)
    (hne : ¬rows.Perm rows') :
    (collisions rows rows').card ≤
      Goldilocks.modulus *
        ((rows.length + rows'.length) * (width - 1) + max rows.length rows'.length) := by
  have hbetas := card_perm_compressed_le hwidth hne
  calc
    (collisions rows rows').card =
        ∑ beta : Goldilocks,
          ((collisions rows rows').filter fun challenge => challenge.beta = beta).card :=
      Finset.card_eq_sum_card_fiberwise fun _ _ => Finset.mem_univ _
    _ ≤ ∑ beta : Goldilocks,
          ((if (rows.map (compressed beta)).Perm (rows'.map (compressed beta)) then
            Goldilocks.modulus else 0) + max rows.length rows'.length) :=
      Finset.sum_le_sum fun beta _ => card_collisions_beta_le beta
    _ = (Finset.univ.filter fun beta =>
          (rows.map (compressed beta)).Perm (rows'.map (compressed beta))).card *
            Goldilocks.modulus + Goldilocks.modulus * max rows.length rows'.length := by
      rw [Finset.sum_add_distrib, ← Finset.sum_filter, Finset.sum_const, Finset.sum_const,
        smul_eq_mul, smul_eq_mul, Finset.card_univ, Goldilocks.card_eq_modulus]
    _ ≤ (rows.length + rows'.length) * (width - 1) * Goldilocks.modulus +
          Goldilocks.modulus * max rows.length rows'.length :=
      Nat.add_le_add_right (Nat.mul_le_mul_right _ hbetas) _
    _ = _ := by ring

end Challenge

end CrossLookup
