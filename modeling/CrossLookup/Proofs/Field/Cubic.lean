import CrossLookup.Field.Cubic
import CrossLookup.Proofs.Field.Residue

/-!
# The cubic extension as a ring

The coefficient formulas satisfy the laws of a commutative ring over the base
field. Mixed operations with a base element are operations with its embedding.
-/

namespace CrossLookup

namespace Cubic

@[ext] theorem ext {a b : Cubic} (h0 : a.c0 = b.c0) (h1 : a.c1 = b.c1) (h2 : a.c2 = b.c2) :
    a = b := by
  cases a
  cases b
  cases h0
  cases h1
  cases h2
  rfl

theorem zero_def : (0 : Cubic) = ⟨0, 0, 0⟩ := rfl

theorem one_def : (1 : Cubic) = ⟨1, 0, 0⟩ := rfl

theorem add_def (a b : Cubic) : a + b = ⟨a.c0 + b.c0, a.c1 + b.c1, a.c2 + b.c2⟩ := rfl

theorem sub_def (a b : Cubic) : a - b = ⟨a.c0 - b.c0, a.c1 - b.c1, a.c2 - b.c2⟩ := rfl

theorem neg_def (a : Cubic) : -a = ⟨-a.c0, -a.c1, -a.c2⟩ := rfl

theorem mul_def (a b : Cubic) :
    a * b = ⟨a.c0 * b.c0 - (a.c1 * b.c2 + a.c2 * b.c1),
      a.c0 * b.c1 + a.c1 * b.c0 + (a.c1 * b.c2 + a.c2 * b.c1) - a.c2 * b.c2,
      a.c0 * b.c2 + a.c1 * b.c1 + a.c2 * b.c0 + a.c2 * b.c2⟩ := rfl

/-- The ring laws of the extension, coefficient by coefficient. -/
instance : CommRing Cubic where
  add_assoc a b c := by simp only [add_def, add_assoc]
  zero_add a := by simp only [add_def, zero_def, zero_add]
  add_zero a := by simp only [add_def, zero_def, add_zero]
  add_comm a b := by simp only [add_def, add_comm]
  mul_assoc a b c := by
    simp only [mul_def, mk.injEq]
    refine ⟨?_, ?_, ?_⟩ <;> ring
  one_mul a := by ext <;> simp [mul_def, one_def]
  mul_one a := by ext <;> simp [mul_def, one_def]
  mul_comm a b := by
    simp only [mul_def, mk.injEq]
    refine ⟨?_, ?_, ?_⟩ <;> ring
  zero_mul a := by ext <;> simp [mul_def, zero_def]
  mul_zero a := by ext <;> simp [mul_def, zero_def]
  left_distrib a b c := by
    simp only [mul_def, add_def, mk.injEq]
    refine ⟨?_, ?_, ?_⟩ <;> ring
  right_distrib a b c := by
    simp only [mul_def, add_def, mk.injEq]
    refine ⟨?_, ?_, ?_⟩ <;> ring
  neg_add_cancel a := by simp only [add_def, neg_def, zero_def, neg_add_cancel]
  sub_eq_add_neg a b := by simp only [add_def, neg_def, sub_def, sub_eq_add_neg]
  nsmul := nsmulRec
  zsmul := zsmulRec

/-- The base field inside the extension. -/
def embedding : Goldilocks →+* Cubic where
  toFun := ofBase
  map_one' := rfl
  map_zero' := rfl
  map_add' a b := by
    rw [add_def]
    ext <;> simp [ofBase]
  map_mul' a b := by
    rw [mul_def]
    ext <;> simp [ofBase]

@[simp] theorem ofBase_zero : ofBase 0 = 0 := rfl

@[simp] theorem ofBase_one : ofBase 1 = 1 := rfl

@[simp] theorem ofBase_neg (a : Goldilocks) : ofBase (-a) = -ofBase a :=
  map_neg embedding a

theorem scale_eq_mul (a : Cubic) (s : Goldilocks) : a * s = a * ofBase s := by
  change (⟨a.c0 * s, a.c1 * s, a.c2 * s⟩ : Cubic) = _
  rw [mul_def]
  ext <;> simp [ofBase]

theorem addBase_eq_add (a : Cubic) (s : Goldilocks) : a + s = a + ofBase s := by
  change (⟨a.c0 + s, a.c1, a.c2⟩ : Cubic) = _
  rw [add_def]
  ext <;> simp [ofBase]

end Cubic

end CrossLookup
