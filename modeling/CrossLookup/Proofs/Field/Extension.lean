import CrossLookup.Proofs.Field.Cubic
import CrossLookup.Proofs.Field.Polynomial
import Mathlib.Algebra.Polynomial.SpecificDegree
import Mathlib.FieldTheory.Finite.Basic
import Mathlib.RingTheory.PrincipalIdealDomain

/-!
# The cubic extension as a field

The polynomial that the product formula reduces by has no root in the base
field. A root would send the adjoined element to itself under a homomorphism
to the base field, where its powers to `2^64` and to `2^32` agree by Fermat's
theorem; in the extension their difference has an inverse.
-/

namespace CrossLookup

open Polynomial

namespace Goldilocks

/-- Division with remainder needs inverses of the coefficients. -/
instance : IsPrincipalIdealRing Goldilocks[X] :=
  letI : Field Goldilocks := Fintype.fieldOfDomain Goldilocks
  EuclideanDomain.to_principal_ideal_domain

theorem pow_modulus_pred {a : Goldilocks} (ha : a ≠ 0) : a ^ (modulus - 1) = 1 := by
  apply residueEquiv.injective
  rw [map_pow, map_one]
  exact ZMod.pow_card_sub_one_eq_one ((map_ne_zero_iff _ residueEquiv.injective).mpr ha)

theorem pow_two_pow_64 {a : Goldilocks} (ha : a ≠ 0) : a ^ 2 ^ 64 = a ^ 2 ^ 32 := by
  have hexponent : 2 ^ 64 = (modulus - 1) + 2 ^ 32 := by norm_num
  rw [hexponent, pow_add, pow_modulus_pred ha, one_mul]

end Goldilocks

namespace Cubic

open Goldilocks

/-- The adjoined element. -/
def adjoined : Cubic := ⟨0, 1, 0⟩

/-- The polynomial of which the adjoined element is a root. -/
noncomputable def reduction : Goldilocks[X] := X ^ 3 - X + 1

theorem eval₂_reduction : reduction.eval₂ embedding adjoined = 0 := by
  rw [reduction, eval₂_add, eval₂_sub, eval₂_X_pow, eval₂_X, eval₂_one]
  decide +kernel

theorem natDegree_reduction : reduction.natDegree = 3 := by
  unfold reduction
  compute_degree!

theorem monic_reduction : reduction.Monic := by
  unfold reduction
  monicity!

/-- Replace the adjoined element by a root in the base field. -/
def specialize (r : Goldilocks) (hr : r ^ 3 - r + 1 = 0) : Cubic →+* Goldilocks where
  toFun a := a.c0 + a.c1 * r + a.c2 * r ^ 2
  map_one' := by
    rw [one_def]
    ring
  map_zero' := by
    rw [zero_def]
    ring
  map_add' a b := by
    rw [add_def]
    ring
  map_mul' a b := by
    rw [mul_def]
    linear_combination
      (-(a.c1 * b.c2 + a.c2 * b.c1) - a.c2 * b.c2 * r) * hr

theorem specialize_adjoined (r : Goldilocks) (hr : r ^ 3 - r + 1 = 0) :
    specialize r hr adjoined = r := by
  change 0 + 1 * r + 0 * r ^ 2 = r
  ring

/-- The adjoined element to the power `2^32`. -/
def adjoinedPow32 : Cubic :=
  ⟨.ofWord 4313033625783026847, .ofWord 14322987502044991736, .ofWord 13756005300681981762⟩

/-- The adjoined element to the power `2^64`. -/
def adjoinedPow64 : Cubic :=
  ⟨.ofWord 15890331032454968110, .ofWord 14052839707969102485, .ofWord 2012697817756225988⟩

/-- The inverse of the difference of the two powers. -/
def differenceInverse : Cubic :=
  ⟨.ofWord 11161140678374918632, .ofWord 14304577333300898507, .ofWord 12619507027527961167⟩

theorem adjoined_pow_two_pow_32 : adjoined ^ 2 ^ 32 = adjoinedPow32 := by
  have hsquares : (fun a : Cubic => a ^ 2)^[32] adjoined = adjoinedPow32 := by decide +kernel
  rwa [pow_iterate] at hsquares

theorem adjoined_pow_two_pow_64 : adjoined ^ 2 ^ 64 = adjoinedPow64 := by
  have hsquares : (fun a : Cubic => a ^ 2)^[32] adjoinedPow32 = adjoinedPow64 := by
    decide +kernel
  rw [pow_iterate, ← adjoined_pow_two_pow_32] at hsquares
  rwa [show 2 ^ 64 = 2 ^ 32 * 2 ^ 32 by norm_num, pow_mul]

theorem differenceInverse_mul : differenceInverse * (adjoinedPow64 - adjoinedPow32) = 1 := by
  decide +kernel

/-- The reduction polynomial has no root in the base field. -/
theorem reduction_ne_zero_at (r : Goldilocks) : r ^ 3 - r + 1 ≠ 0 := by
  intro hr
  have hne : r ≠ 0 := by
    rintro rfl
    exact absurd hr (by decide +kernel)
  have hpowers : specialize r hr (adjoinedPow64 - adjoinedPow32) = 0 := by
    rw [← adjoined_pow_two_pow_64, ← adjoined_pow_two_pow_32, map_sub, map_pow, map_pow,
      specialize_adjoined, pow_two_pow_64 hne, sub_self]
  have hone : (0 : Goldilocks) = 1 := by
    calc
      0 = specialize r hr (differenceInverse * (adjoinedPow64 - adjoinedPow32)) := by
        rw [map_mul, hpowers, mul_zero]
      _ = 1 := by rw [differenceInverse_mul, map_one]
  exact zero_ne_one hone

theorem irreducible_reduction : Irreducible reduction := by
  have hdegree := natDegree_reduction
  apply (monic_reduction.irreducible_iff_roots_eq_zero_of_degree_le_three (by omega)
    (by omega)).mpr
  apply Multiset.eq_zero_of_forall_notMem
  intro r hr
  apply reduction_ne_zero_at r
  have hroot := isRoot_of_mem_roots hr
  rwa [reduction, IsRoot, eval_add, eval_sub, eval_pow, eval_X, eval_one] at hroot

/-- An element is its coefficient polynomial at the adjoined element. -/
theorem eval₂_coefficients (a : Cubic) :
    (rowPolynomial a.coefficients).eval₂ embedding adjoined = a := by
  have hpolynomial : rowPolynomial a.coefficients =
      ((0 * X + C a.c2) * X + C a.c1) * X + C a.c0 := rfl
  rw [hpolynomial]
  simp only [eval₂_add, eval₂_mul, eval₂_C, eval₂_X, zero_mul, zero_add]
  change (ofBase a.c2 * adjoined + ofBase a.c1) * adjoined + ofBase a.c0 = a
  ext <;> simp [mul_def, add_def, ofBase, adjoined]

theorem rowPolynomial_coefficients_ne_zero {a : Cubic} (ha : a ≠ 0) :
    rowPolynomial a.coefficients ≠ 0 := by
  intro h
  apply ha
  rw [← eval₂_coefficients a, h, eval₂_zero]

theorem natDegree_coefficients_lt (a : Cubic) :
    (rowPolynomial a.coefficients).natDegree < reduction.natDegree := by
  have hdegree : (rowPolynomial a.coefficients).natDegree ≤ 2 := natDegree_rowPolynomial_le rfl
  rw [natDegree_reduction]
  omega

/-- The coefficient polynomial of a nonzero element is coprime to the reduction polynomial. -/
theorem exists_inverse {a : Cubic} (ha : a ≠ 0) : ∃ b, a * b = 1 := by
  have hcoprime : IsCoprime reduction (rowPolynomial a.coefficients) :=
    irreducible_reduction.coprime_iff_not_dvd.mpr
      (monic_reduction.not_dvd_of_natDegree_lt (rowPolynomial_coefficients_ne_zero ha)
        (natDegree_coefficients_lt a))
  obtain ⟨u, v, huv⟩ := hcoprime
  refine ⟨v.eval₂ embedding adjoined, ?_⟩
  have hvalue := congrArg (eval₂ embedding adjoined) huv
  rwa [eval₂_add, eval₂_mul, eval₂_mul, eval₂_reduction, eval₂_coefficients, eval₂_one,
    mul_zero, zero_add, mul_comm] at hvalue

theorem eq_zero_or_eq_zero {a b : Cubic} (h : a * b = 0) : a = 0 ∨ b = 0 := by
  by_cases ha : a = 0
  · exact Or.inl ha
  · obtain ⟨inverse, hinverse⟩ := exists_inverse ha
    right
    calc
      b = a * inverse * b := by rw [hinverse, one_mul]
      _ = inverse * (a * b) := by ring
      _ = 0 := by rw [h, mul_zero]

/-- The order of the base field is prime, the reduction polynomial is irreducible over it, and
the extension is a field. -/
theorem extension_isField :
    Nat.Prime order.toNat ∧ order.toNat = 2 ^ 64 - 2 ^ 32 + 1 ∧
      Irreducible (X ^ 3 - X + 1 : Goldilocks[X]) ∧
      (∀ a b : Cubic, a * b = 0 → a = 0 ∨ b = 0) ∧
      ∀ a : Cubic, a ≠ 0 → ∃ b, a * b = 1 :=
  ⟨modulus_prime, rfl, irreducible_reduction, fun _ _ => eq_zero_or_eq_zero,
    fun _ => exists_inverse⟩

end Cubic

end CrossLookup
