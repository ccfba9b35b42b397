import CrossLookup.Proofs.Field.Extension

/-!
# Extension elements as remainders

The product of two extension elements is the remainder of the product of their
polynomials modulo `X ^ 3 - X + 1`. The five coefficients of the full product
are the sums that the product formula combines, and what it leaves out is a
multiple of the reduction polynomial.
-/

namespace CrossLookup

open Polynomial

namespace Cubic

/-- The coefficients of the product polynomial of two elements, the lowest first. -/
def productCoefficients (a b : Cubic) : List Goldilocks :=
  [a.c0 * b.c0, a.c0 * b.c1 + a.c1 * b.c0, a.c0 * b.c2 + a.c1 * b.c1 + a.c2 * b.c0,
    a.c1 * b.c2 + a.c2 * b.c1, a.c2 * b.c2]

theorem rowPolynomial_productCoefficients (a b : Cubic) :
    rowPolynomial (productCoefficients a b) =
      rowPolynomial a.coefficients * rowPolynomial b.coefficients := by
  simp only [productCoefficients, coefficients, rowPolynomial_cons, rowPolynomial_nil, C_add, C_mul]
  ring

/-- The two highest coefficients are the quotient by the reduction polynomial. -/
theorem rowPolynomial_mul_add (a b : Cubic) :
    rowPolynomial (a * b).coefficients +
        reduction * rowPolynomial ((productCoefficients a b).drop 3) =
      rowPolynomial (productCoefficients a b) := by
  simp only [mul_def, productCoefficients, coefficients, List.drop_succ_cons, List.drop_zero,
    rowPolynomial_cons, rowPolynomial_nil, reduction, C_add, C_sub, C_mul]
  ring

/-- A product has the coefficients of the remainder of the product polynomial. -/
theorem rowPolynomial_mul (a b : Cubic) :
    rowPolynomial (a * b).coefficients =
      (rowPolynomial a.coefficients * rowPolynomial b.coefficients) %ₘ reduction := by
  have hdegree : (rowPolynomial (a * b).coefficients).degree < reduction.degree :=
    degree_lt_degree (natDegree_coefficients_lt (a * b))
  have hproduct := (rowPolynomial_mul_add a b).trans (rowPolynomial_productCoefficients a b)
  exact (div_modByMonic_unique _ _ monic_reduction ⟨hproduct, hdegree⟩).2.symm

theorem ofBase_injective : Function.Injective ofBase :=
  fun _ _ h => congrArg c0 h

section Mixed

variable (a : Cubic) (s : Goldilocks)

theorem subBase_eq_sub : a - s = a - ofBase s := by
  change (⟨a.c0 - s, a.c1, a.c2⟩ : Cubic) = _
  rw [sub_def]
  ext <;> simp [ofBase]

theorem base_add_eq_add : s + a = ofBase s + a := by
  change a + s = _
  rw [addBase_eq_add, add_comm]

theorem base_sub_eq_sub : s - a = ofBase s - a := rfl

theorem base_mul_eq_mul : s * a = ofBase s * a := by
  change a * s = _
  rw [scale_eq_mul, mul_comm]

end Mixed

/-- Extension elements are added coefficient by coefficient and multiplied as polynomials modulo
`X ^ 3 - X + 1`, so their products obey the ring laws; the base field is embedded as a ring, and
an operation with a base element on either side is the operation with the embedded element. -/
theorem arithmetic_mod_reduction :
    (∀ a b : Cubic,
      rowPolynomial (a * b).coefficients =
        (rowPolynomial a.coefficients * rowPolynomial b.coefficients) %ₘ (X ^ 3 - X + 1) ∧
      (a + b).coefficients = List.zipWith (· + ·) a.coefficients b.coefficients ∧
      (a - b).coefficients = List.zipWith (· - ·) a.coefficients b.coefficients ∧
      (-a).coefficients = a.coefficients.map (- ·)) ∧
    (∀ a b c : Cubic, a * b = b * a ∧ a * b * c = a * (b * c) ∧ a * (b + c) = a * b + a * c ∧
      (a + b) * c = a * c + b * c ∧ 1 * a = a ∧ a * 1 = a) ∧
    (∃ embedded : Goldilocks →+* Cubic, (∀ s, embedded s = ofBase s) ∧
      Function.Injective embedded) ∧
    ∀ (a : Cubic) (s : Goldilocks),
      (a + s = a + ofBase s ∧ a - s = a - ofBase s ∧ a * s = a * ofBase s) ∧
      (s + a = ofBase s + a ∧ s - a = ofBase s - a ∧ s * a = ofBase s * a) := by
  refine ⟨fun a b => ⟨rowPolynomial_mul a b, rfl, rfl, rfl⟩, ?_, ?_, ?_⟩
  · intro a b c
    exact ⟨mul_comm a b, mul_assoc a b c, mul_add a b c, add_mul a b c, one_mul a, mul_one a⟩
  · exact ⟨embedding, fun _ => rfl, ofBase_injective⟩
  · intro a s
    exact ⟨⟨addBase_eq_add a s, subBase_eq_sub a s, scale_eq_mul a s⟩,
      base_add_eq_add a s, base_sub_eq_sub a s, base_mul_eq_mul a s⟩

end Cubic

end CrossLookup
