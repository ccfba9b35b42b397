import CrossLookup.Field.Lanes
import Mathlib.Algebra.Ring.Equiv
import Mathlib.Data.ZMod.Basic
import Mathlib.NumberTheory.LucasPrimality
import Mathlib.Tactic.NormNum.Prime
import Mathlib.Tactic.ReduceModChar

/-!
# The base field as residues

The word operations compute sums, differences, products and negations modulo
the order, so the base elements form a ring isomorphic to the integers modulo
a prime.
-/

namespace CrossLookup

namespace Word

/-- A double word holds the product of two words exactly. -/
theorem toNat_product (a b : UInt64) : (product a b).toNat = a.toNat * b.toNat := by
  have hsmall : a.toNat * b.toNat < 2 ^ 128 := by
    have h := Nat.mul_lt_mul'' a.toNat_lt b.toNat_lt
    omega
  unfold product
  rw [BitVec.toNat_mul, BitVec.toNat_setWidth, BitVec.toNat_setWidth, UInt64.toNat_toBitVec,
    UInt64.toNat_toBitVec, Nat.mod_eq_of_lt (a.toNat_lt.trans (by decide)),
    Nat.mod_eq_of_lt (b.toNat_lt.trans (by decide)), Nat.mod_eq_of_lt hsmall]

theorem toNat_lower (x : BitVec 128) : (lower x).toNat = x.toNat % 2 ^ 64 := by
  change (x.setWidth 64).toNat = _
  rw [BitVec.toNat_setWidth]

end Word

namespace Goldilocks

/-- The order of the base field as a number. -/
abbrev modulus : ℕ := 18446744069414584321

theorem toNat_lt_modulus (a : Goldilocks) : a.word.toNat < modulus :=
  UInt64.lt_iff_toNat_lt.mp a.canonical

theorem toNat_injective {a b : Goldilocks} (h : a.word.toNat = b.word.toNat) : a = b :=
  ext (UInt64.toNat_inj.mp h)

theorem toNat_ofWord (w : UInt64) : (ofWord w).word.toNat = w.toNat % modulus :=
  UInt64.toNat_mod w order

/-- A word is accepted as canonical when it is below the order, and is then its own element. -/
theorem ofCanonical?_eq (w : UInt64) :
    ofCanonical? w = if w.toNat < modulus then some (ofWord w) else none := by
  unfold ofCanonical?
  by_cases hw : w < order
  · have hlt : w.toNat < modulus := UInt64.lt_iff_toNat_lt.mp hw
    rw [dif_pos hw, if_pos hlt, Option.some.injEq]
    apply toNat_injective
    rw [toNat_ofWord, Nat.mod_eq_of_lt hlt]
  · have hge : ¬ w.toNat < modulus := fun hlt => hw (UInt64.lt_iff_toNat_lt.mpr hlt)
    rw [dif_neg hw, if_neg hge]

theorem toNat_reduceWide (x : BitVec 128) : (reduceWide x).toNat = x.toNat % modulus := by
  have hlt : x.toNat % modulus < 2 ^ 64 := (Nat.mod_lt _ (by decide)).trans (by decide)
  have horder : (order.toBitVec.setWidth 128).toNat = modulus := by decide
  unfold reduceWide
  rw [Word.toNat_lower, BitVec.toNat_umod, horder, Nat.mod_eq_of_lt hlt]

/-- The wrapped sum of two words, less the order when it carried or is not canonical. -/
def sumWord (a b : UInt64) : UInt64 :=
  a + b - (order &&& mask (decide (a + b < a) || decide (order ≤ a + b)))

/-- The wrapped difference of two words, plus the order when it borrowed. -/
def differenceWord (a b : UInt64) : UInt64 :=
  a - b + (order &&& mask (decide (a < b)))

/-- The remainder of the 128-bit product of two words. -/
def productWord (a b : UInt64) : UInt64 :=
  reduceWide (Word.product a b)

/-- The order less a word, and zero for zero. -/
def oppositeWord (a : UInt64) : UInt64 :=
  if a = 0 then a else order - a

section Words

variable (a b : Goldilocks)

/-- The masked correction of a wrapped sum is exact. -/
theorem toNat_sumWord :
    (sumWord a.word b.word).toNat = (a.word.toNat + b.word.toNat) % modulus := by
  have ha := a.toNat_lt_modulus
  have hb := b.toNat_lt_modulus
  rw [sumWord, and_mask]
  simp only [Bool.or_eq_true, decide_eq_true_eq, UInt64.lt_iff_toNat_lt, UInt64.le_iff_toNat_le,
    UInt64.toNat_sub, UInt64.toNat_add, toNat_order, modulus] at ha hb ⊢
  split
  · rw [toNat_order]
    omega
  · rw [UInt64.toNat_zero]
    omega

/-- The masked correction of a wrapped difference is exact. -/
theorem toNat_differenceWord : (differenceWord a.word b.word).toNat =
    (a.word.toNat + (modulus - b.word.toNat)) % modulus := by
  have ha := a.toNat_lt_modulus
  have hb := b.toNat_lt_modulus
  rw [differenceWord, and_mask]
  simp only [decide_eq_true_eq, UInt64.lt_iff_toNat_lt, UInt64.toNat_sub, UInt64.toNat_add,
    modulus] at ha hb ⊢
  split
  · rw [toNat_order]
    omega
  · rw [UInt64.toNat_zero]
    omega

theorem toNat_productWord :
    (productWord a.word b.word).toNat = a.word.toNat * b.word.toNat % modulus := by
  rw [productWord, toNat_reduceWide, Word.toNat_product]

theorem toNat_oppositeWord :
    (oppositeWord a.word).toNat = (modulus - a.word.toNat) % modulus := by
  have ha := a.toNat_lt_modulus
  unfold oppositeWord
  split
  · next h =>
    rw [h]
    rfl
  · next h =>
    have hle : a.word ≤ order := UInt64.le_iff_toNat_le.mpr ha.le
    have hpos : 0 < a.word.toNat := Nat.pos_of_ne_zero fun hzero => h (UInt64.toNat_inj.mp hzero)
    rw [UInt64.toNat_sub_of_le _ _ hle, toNat_order, Nat.mod_eq_of_lt (by omega)]

theorem add_eq_ofWord : a + b = ofWord (sumWord a.word b.word) := rfl

theorem sub_eq_ofWord : a - b = ofWord (differenceWord a.word b.word) := rfl

theorem mul_eq_ofWord : a * b = ofWord (productWord a.word b.word) := rfl

theorem neg_eq_ofWord : -a = ofWord (oppositeWord a.word) := by
  change neg a = _
  unfold neg oppositeWord
  split
  · apply toNat_injective
    rw [toNat_ofWord, Nat.mod_eq_of_lt a.toNat_lt_modulus]
  · rfl

theorem toNat_add : (a + b).word.toNat = (a.word.toNat + b.word.toNat) % modulus := by
  rw [add_eq_ofWord, toNat_ofWord, toNat_sumWord, Nat.mod_mod]

theorem toNat_sub :
    (a - b).word.toNat = (a.word.toNat + (modulus - b.word.toNat)) % modulus := by
  rw [sub_eq_ofWord, toNat_ofWord, toNat_differenceWord, Nat.mod_mod]

theorem toNat_mul : (a * b).word.toNat = a.word.toNat * b.word.toNat % modulus := by
  rw [mul_eq_ofWord, toNat_ofWord, toNat_productWord, Nat.mod_mod]

theorem toNat_neg : (-a).word.toNat = (modulus - a.word.toNat) % modulus := by
  rw [neg_eq_ofWord, toNat_ofWord, toNat_oppositeWord, Nat.mod_mod]

end Words

/-- The residue that an element stands for. -/
def residue (a : Goldilocks) : ZMod modulus := (a.word.toNat : ZMod modulus)

/-- The element that stands for a residue. -/
def ofResidue (z : ZMod modulus) : Goldilocks := ofWord (.ofNat z.val)

theorem residue_ofResidue (z : ZMod modulus) : residue (ofResidue z) = z := by
  have hz : z.val < modulus := ZMod.val_lt z
  have hword : (UInt64.ofNat z.val).toNat = z.val :=
    UInt64.toNat_ofNat_of_lt' (hz.trans (by decide))
  unfold residue ofResidue
  rw [toNat_ofWord, hword, Nat.mod_eq_of_lt hz, ZMod.natCast_zmod_val]

/-- The word of an element is the remainder of any number with its residue. -/
theorem toNat_of_residue_eq {a : Goldilocks} {n : ℕ} (h : residue a = n) :
    a.word.toNat = n % modulus := by
  have hmod := (ZMod.natCast_eq_natCast_iff' _ _ modulus).mp h
  rwa [Nat.mod_eq_of_lt a.toNat_lt_modulus] at hmod

theorem residue_injective : Function.Injective residue := by
  intro a b h
  apply toNat_injective
  rw [toNat_of_residue_eq h, Nat.mod_eq_of_lt b.toNat_lt_modulus]

@[simp] theorem residue_zero : residue 0 = 0 := Nat.cast_zero

@[simp] theorem residue_one : residue 1 = 1 := Nat.cast_one

@[simp] theorem residue_add (a b : Goldilocks) : residue (a + b) = residue a + residue b := by
  unfold residue
  rw [toNat_add, ZMod.natCast_mod, Nat.cast_add]

@[simp] theorem residue_mul (a b : Goldilocks) : residue (a * b) = residue a * residue b := by
  unfold residue
  rw [toNat_mul, ZMod.natCast_mod, Nat.cast_mul]

@[simp] theorem residue_neg (a : Goldilocks) : residue (-a) = -residue a := by
  unfold residue
  rw [toNat_neg, ZMod.natCast_mod, Nat.cast_sub a.toNat_lt_modulus.le, ZMod.natCast_self,
    zero_sub]

@[simp] theorem residue_sub (a b : Goldilocks) : residue (a - b) = residue a - residue b := by
  unfold residue
  rw [toNat_sub, ZMod.natCast_mod, Nat.cast_add, Nat.cast_sub b.toNat_lt_modulus.le,
    ZMod.natCast_self, zero_sub, ← sub_eq_add_neg]

/-- The ring laws of the base field, read off the residues. -/
instance : CommRing Goldilocks where
  add_assoc a b c := residue_injective (by simp only [residue_add, add_assoc])
  zero_add a := residue_injective (by simp only [residue_add, residue_zero, zero_add])
  add_zero a := residue_injective (by simp only [residue_add, residue_zero, add_zero])
  add_comm a b := residue_injective (by simp only [residue_add, add_comm])
  mul_assoc a b c := residue_injective (by simp only [residue_mul, mul_assoc])
  one_mul a := residue_injective (by simp only [residue_mul, residue_one, one_mul])
  mul_one a := residue_injective (by simp only [residue_mul, residue_one, mul_one])
  mul_comm a b := residue_injective (by simp only [residue_mul, mul_comm])
  zero_mul a := residue_injective (by simp only [residue_mul, residue_zero, zero_mul])
  mul_zero a := residue_injective (by simp only [residue_mul, residue_zero, mul_zero])
  left_distrib a b c := residue_injective (by simp only [residue_add, residue_mul, mul_add])
  right_distrib a b c := residue_injective (by simp only [residue_add, residue_mul, add_mul])
  neg_add_cancel a :=
    residue_injective (by simp only [residue_add, residue_neg, residue_zero, neg_add_cancel])
  sub_eq_add_neg a b :=
    residue_injective (by simp only [residue_add, residue_neg, residue_sub, sub_eq_add_neg])
  nsmul := nsmulRec
  zsmul := zsmulRec

/-- Elements and residues as isomorphic rings. -/
def residueEquiv : Goldilocks ≃+* ZMod modulus where
  toFun := residue
  invFun := ofResidue
  left_inv a := residue_injective (residue_ofResidue (residue a))
  right_inv := residue_ofResidue
  map_add' := residue_add
  map_mul' := residue_mul

instance : Fintype Goldilocks := Fintype.ofEquiv (ZMod modulus) residueEquiv.symm.toEquiv

theorem card_eq_modulus : Fintype.card Goldilocks = modulus := by
  rw [Fintype.card_congr residueEquiv.toEquiv, ZMod.card]

theorem eq_of_prime_dvd_pred {q : ℕ} (hq : q.Prime) (hd : q ∣ modulus - 1) :
    q ∈ [2, 3, 5, 17, 257, 65537] := by
  have hfactors : modulus - 1 = 2 ^ 32 * 3 * 5 * 17 * 257 * 65537 := by decide
  have hmem {r : ℕ} (hr : r.Prime) (h : q ∣ r) : q = r :=
    (Nat.prime_dvd_prime_iff_eq hq hr).mp h
  rw [hfactors, hq.dvd_mul, hq.dvd_mul, hq.dvd_mul, hq.dvd_mul, hq.dvd_mul] at hd
  rcases hd with ((((h | h) | h) | h) | h) | h
  · simp [hmem Nat.prime_two (hq.dvd_of_dvd_pow h)]
  · simp [hmem Nat.prime_three h]
  · simp [hmem Nat.prime_five h]
  · simp [hmem (by norm_num) h]
  · simp [hmem (by norm_num) h]
  · simp [hmem (by norm_num) h]

/-- Lucas's test with the witness `7`. -/
theorem modulus_prime : Nat.Prime modulus := by
  apply lucas_primality modulus (7 : ZMod modulus)
  · reduce_mod_char
  · intro q hq hd
    have hmem := eq_of_prime_dvd_pred hq hd
    simp only [List.mem_cons, List.not_mem_nil, or_false] at hmem
    rcases hmem with rfl | rfl | rfl | rfl | rfl | rfl <;>
      norm_num <;> reduce_mod_char <;> decide +kernel

instance : Fact (Nat.Prime modulus) := ⟨modulus_prime⟩

instance : IsDomain Goldilocks := residueEquiv.toMulEquiv.isDomain (ZMod modulus)

end Goldilocks

end CrossLookup
