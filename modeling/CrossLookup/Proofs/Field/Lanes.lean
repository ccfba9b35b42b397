import CrossLookup.Proofs.Field.Residue

/-!
# Four lanes as four elements

The word kernels compute the sums and differences of the base field, so every
operation on four lanes is the operation on each of them.
-/

namespace CrossLookup

namespace Goldilocks

theorem toNat_laneAdd (a b : Goldilocks) :
    (laneAdd a.word b.word).toNat = (a.word.toNat + b.word.toNat) % modulus := by
  have ha := a.toNat_lt_modulus
  have hb := b.toNat_lt_modulus
  rw [laneAdd_eq]
  simp only [UInt64.lt_iff_toNat_lt, UInt64.toNat_sub, UInt64.toNat_add, toNat_order,
    UInt64.toNat_one, modulus] at ha hb ⊢
  split
  · simp only [UInt64.toNat_sub, UInt64.toNat_add, toNat_order]
    omega
  · rw [UInt64.toNat_add]
    omega

theorem toNat_laneSub (a b : Goldilocks) :
    (laneSub a.word b.word).toNat = (a.word.toNat + (modulus - b.word.toNat)) % modulus := by
  have ha := a.toNat_lt_modulus
  have hb := b.toNat_lt_modulus
  rw [laneSub_eq]
  simp only [UInt64.lt_iff_toNat_lt, modulus] at ha hb ⊢
  split
  · simp only [UInt64.toNat_sub, UInt64.toNat_add, toNat_order]
    omega
  · rw [UInt64.toNat_sub]
    omega

theorem laneAdd_eq_add (a b : Goldilocks) : ⟨laneAdd a.word b.word, laneAdd_lt a b⟩ = a + b :=
  toNat_injective ((toNat_laneAdd a b).trans (toNat_add a b).symm)

theorem laneSub_eq_sub (a b : Goldilocks) : ⟨laneSub a.word b.word, laneSub_lt a b⟩ = a - b :=
  toNat_injective ((toNat_laneSub a b).trans (toNat_sub a b).symm)

end Goldilocks

namespace Lanes

/-- The element in a lane. -/
def lane (i : Fin 4) (a : Lanes) : Goldilocks :=
  a.lanes.get i

variable (i : Fin 4)

@[simp] theorem lane_broadcast (s : Goldilocks) : (broadcast s).lane i = s :=
  Vector.getElem_replicate i.isLt

@[simp] theorem lane_zero : (0 : Lanes).lane i = 0 :=
  lane_broadcast i 0

@[simp] theorem lane_one : (1 : Lanes).lane i = 1 :=
  lane_broadcast i 1

theorem lane_lanewise (f : Goldilocks → Goldilocks → Goldilocks) (a b : Lanes) :
    (lanewise f a b).lane i = f (a.lane i) (b.lane i) :=
  Vector.getElem_zipWith i.isLt

@[simp] theorem lane_add (a b : Lanes) : (a + b).lane i = a.lane i + b.lane i :=
  (lane_lanewise i _ a b).trans (Goldilocks.laneAdd_eq_add _ _)

@[simp] theorem lane_sub (a b : Lanes) : (a - b).lane i = a.lane i - b.lane i :=
  (lane_lanewise i _ a b).trans (Goldilocks.laneSub_eq_sub _ _)

@[simp] theorem lane_mul (a b : Lanes) : (a * b).lane i = a.lane i * b.lane i :=
  lane_lanewise i _ a b

end Lanes

end CrossLookup
