import CrossLookup.Proofs.Field.Residue
import CrossLookup.Sponge.Montgomery
import Mathlib.Tactic.LinearCombination

/-!
# Montgomery form as a bijection

The reduction step clears the lower word by a multiple of the order and keeps
the upper word below the order. Entering the form multiplies by `2^64` and
leaving it divides by `2^64`, so the forms of the elements are the canonical
words.
-/

namespace CrossLookup

namespace Word

theorem toNat_upper (x : BitVec 128) : (upper x).toNat = x.toNat / 2 ^ 64 := by
  change ((x >>> 64).setWidth 64).toNat = _
  rw [BitVec.toNat_setWidth, BitVec.toNat_ushiftRight, Nat.shiftRight_eq_div_pow,
    Nat.mod_eq_of_lt]
  have hx := x.isLt
  omega

/-- A double word is made of its halves. -/
theorem toNat_halves (x : BitVec 128) :
    (upper x).toNat * 2 ^ 64 + (lower x).toNat = x.toNat := by
  rw [toNat_upper, toNat_lower]
  omega

end Word

namespace Montgomery

open Goldilocks

/-- The multiple of the order whose lower word is `low` has the factor `low * (1 + 2^32)`. -/
theorem factor_identity {low factor carry : ℕ} (hlow : low < 2 ^ 64)
    (hfactor : factor = (low + low % 2 ^ 32 * 2 ^ 32) % 2 ^ 64)
    (hcarry : carry = (low + low % 2 ^ 32 * 2 ^ 32) / 2 ^ 64) :
    factor / 2 ^ 32 + carry ≤ factor ∧
      (factor - factor / 2 ^ 32 - carry) * 2 ^ 64 + low = factor * modulus := by
  obtain ⟨x, y, hx, hy, rfl⟩ : ∃ x y, x < 2 ^ 32 ∧ y < 2 ^ 32 ∧ low = x * 2 ^ 32 + y :=
    ⟨low / 2 ^ 32, low % 2 ^ 32, by omega, by omega, by omega⟩
  have hlower : (x * 2 ^ 32 + y) % 2 ^ 32 = y := by omega
  rw [hlower] at hfactor hcarry
  unfold modulus
  -- The sum carries exactly when the halves of `low` add up to a third half.
  by_cases hsum : x + y < 2 ^ 32
  · have hc : carry = 0 := by omega
    have hf : factor = (x + y) * 2 ^ 32 + y := by omega
    have hdiv : factor / 2 ^ 32 = x + y := by omega
    rw [hdiv, hc, hf]
    omega
  · have hc : carry = 1 := by omega
    have hf : factor = (x + y - 2 ^ 32) * 2 ^ 32 + y := by omega
    have hdiv : factor / 2 ^ 32 = x + y - 2 ^ 32 := by omega
    rw [hdiv, hc, hf]
    omega

theorem toNat_shifted (lo : UInt64) : (lo <<< 32).toNat = lo.toNat % 2 ^ 32 * 2 ^ 32 := by
  rw [UInt64.toNat_shiftLeft, Nat.shiftLeft_eq]
  change lo.toNat * 2 ^ 32 % 2 ^ 64 = _
  omega

/-- A sum of words is below one of them exactly when it carried. -/
theorem toNat_carried (a b : UInt64) :
    (decide (a + b < a) || decide (a + b < b)).toUInt64.toNat =
      (a.toNat + b.toNat) / 2 ^ 64 := by
  have ha := a.toNat_lt
  have hb := b.toNat_lt
  by_cases hcarry : 2 ^ 64 ≤ a.toNat + b.toNat
  · have hlt : a + b < a := by
      rw [UInt64.lt_iff_toNat_lt, UInt64.toNat_add]
      omega
    rw [decide_eq_true hlt, Bool.true_or]
    change 1 = _
    omega
  · have hle : ¬ a + b < a ∧ ¬ a + b < b := by
      rw [UInt64.lt_iff_toNat_lt, UInt64.lt_iff_toNat_lt, UInt64.toNat_add]
      omega
    rw [decide_eq_false hle.1, decide_eq_false hle.2, Bool.or_self]
    change 0 = _
    omega

/-- The word that a reduction step subtracts from the upper word. -/
def subtrahend (lo : UInt64) : UInt64 :=
  lo + lo <<< 32 - (lo + lo <<< 32) >>> 32 -
    (decide (lo + lo <<< 32 < lo) || decide (lo + lo <<< 32 < lo <<< 32)).toUInt64

/-- The subtrahend is the upper word of a multiple of the order whose lower word is `lo`. -/
theorem toNat_subtrahend (lo : UInt64) :
    (subtrahend lo).toNat * 2 ^ 64 + lo.toNat = (lo + lo <<< 32).toNat * modulus := by
  have hfactor : (lo + lo <<< 32).toNat = (lo.toNat + lo.toNat % 2 ^ 32 * 2 ^ 32) % 2 ^ 64 := by
    rw [UInt64.toNat_add, toNat_shifted]
  have hcarry := toNat_carried lo (lo <<< 32)
  rw [toNat_shifted] at hcarry
  have hhigh : ((lo + lo <<< 32) >>> 32).toNat = (lo + lo <<< 32).toNat / 2 ^ 32 := by
    rw [UInt64.toNat_shiftRight, Nat.shiftRight_eq_div_pow]
    rfl
  obtain ⟨hle, hidentity⟩ := factor_identity lo.toNat_lt hfactor hcarry
  have hsub : (lo + lo <<< 32 - (lo + lo <<< 32) >>> 32).toNat =
      (lo + lo <<< 32).toNat - (lo + lo <<< 32).toNat / 2 ^ 32 := by
    rw [UInt64.toNat_sub_of_le _ _ (UInt64.le_iff_toNat_le.mpr (by omega)), hhigh]
  rw [subtrahend, UInt64.toNat_sub_of_le _ _ (UInt64.le_iff_toNat_le.mpr (by omega)), hsub]
  exact hidentity

theorem reduce_eq (hi lo : UInt64) :
    reduce hi lo = if hi < subtrahend lo then hi - subtrahend lo - (1 + ~~~order)
      else hi - subtrahend lo :=
  rfl

/-- The step subtracts the subtrahend modulo the order. -/
theorem toNat_reduce {hi : UInt64} (h : hi < order) (lo : UInt64) :
    (reduce hi lo).toNat + (subtrahend lo).toNat =
      if hi < subtrahend lo then hi.toNat + modulus else hi.toNat := by
  have hsub := toNat_subtrahend lo
  have hlo := lo.toNat_lt
  have hfactor := (lo + lo <<< 32).toNat_lt
  have hcorrection : (1 + ~~~order).toNat = 2 ^ 64 - modulus := by decide
  rw [UInt64.lt_iff_toNat_lt, toNat_order] at h
  rw [reduce_eq]
  unfold modulus at *
  split
  · next hlt =>
    rw [UInt64.lt_iff_toNat_lt] at hlt
    rw [UInt64.toNat_sub, UInt64.toNat_sub, hcorrection]
    omega
  · next hge =>
    rw [UInt64.lt_iff_toNat_lt] at hge
    rw [UInt64.toNat_sub_of_le _ _ (UInt64.le_iff_toNat_le.mpr (by omega))]
    omega

/-- The step stays below the order when the upper word does. -/
theorem reduce_lt {hi : UInt64} (h : hi < order) (lo : UInt64) : reduce hi lo < order := by
  have hreduce := toNat_reduce h lo
  rw [UInt64.lt_iff_toNat_lt, toNat_order] at h ⊢
  split at hreduce
  · next hlt =>
    rw [UInt64.lt_iff_toNat_lt] at hlt
    unfold modulus at hreduce
    omega
  · omega

/-- The step divides by `2^64`. -/
theorem reduce_mul_radix {hi : UInt64} (h : hi < order) (lo : UInt64) :
    ((reduce hi lo).toNat : ZMod modulus) * 2 ^ 64 =
      ((hi.toNat * 2 ^ 64 + lo.toNat : ℕ) : ZMod modulus) := by
  have hcast : ((reduce hi lo).toNat : ZMod modulus) + (subtrahend lo).toNat = hi.toNat := by
    have hreduce := congrArg (Nat.cast : ℕ → ZMod modulus) (toNat_reduce h lo)
    split at hreduce
    · rwa [Nat.cast_add, Nat.cast_add, ZMod.natCast_self, add_zero] at hreduce
    · rwa [Nat.cast_add] at hreduce
  have hmultiple : ((subtrahend lo).toNat : ZMod modulus) * 2 ^ 64 + lo.toNat = 0 := by
    have hsub := congrArg (Nat.cast : ℕ → ZMod modulus) (toNat_subtrahend lo)
    rw [Nat.cast_mul, ZMod.natCast_self, mul_zero] at hsub
    rw [← hsub]
    push_cast
    ring
  push_cast
  linear_combination 2 ^ 64 * hcast - hmultiple

theorem radix_ne_zero : (2 ^ 64 : ZMod modulus) ≠ 0 :=
  pow_ne_zero 64 (by decide +kernel)

/-- Multiplication by `2^64` can be undone on canonical words. -/
theorem eq_of_mul_radix {a b : Goldilocks}
    (h : residue a * 2 ^ 64 = residue b * 2 ^ 64) : a = b :=
  residue_injective (mul_right_cancel₀ radix_ne_zero h)

theorem enter_eq (a : Goldilocks) :
    enter a = reduce (Word.upper (Word.product a.word squaredRadix))
      (Word.lower (Word.product a.word squaredRadix)) :=
  rfl

theorem upper_product_lt (a : Goldilocks) :
    Word.upper (Word.product a.word squaredRadix) < order := by
  have hproduct : a.word.toNat * squaredRadix.toNat < modulus * 2 ^ 64 :=
    Nat.mul_lt_mul'' a.toNat_lt_modulus squaredRadix.toNat_lt
  rw [UInt64.lt_iff_toNat_lt, Word.toNat_upper, Word.toNat_product, toNat_order]
  exact Nat.div_lt_of_lt_mul (hproduct.trans_eq (Nat.mul_comm _ _))

/-- The Montgomery form of an element is canonical. -/
theorem enter_lt (a : Goldilocks) : enter a < order := by
  rw [enter_eq]
  exact reduce_lt (upper_product_lt a) _

/-- Entering the form multiplies by `2^64`. -/
theorem natCast_enter (a : Goldilocks) :
    ((enter a).toNat : ZMod modulus) = residue a * 2 ^ 64 := by
  have hsquare : (squaredRadix.toNat : ZMod modulus) = 2 ^ 64 * 2 ^ 64 := by decide +kernel
  have hreduce := reduce_mul_radix (upper_product_lt a)
    (Word.lower (Word.product a.word squaredRadix))
  rw [← enter_eq, Word.toNat_halves, Word.toNat_product, Nat.cast_mul, hsquare] at hreduce
  apply mul_right_cancel₀ radix_ne_zero
  rw [hreduce, residue, mul_assoc]

theorem zero_lt_order : 0 < order := by decide

/-- Leaving the form divides by `2^64`. -/
theorem residue_leave_mul_radix (w : UInt64) :
    residue (leave w) * 2 ^ 64 = (w.toNat : ZMod modulus) := by
  have hreduce := reduce_mul_radix zero_lt_order w
  rw [UInt64.toNat_zero, Nat.zero_mul, Nat.zero_add] at hreduce
  rw [← hreduce, residue, leave, toNat_ofWord, ZMod.natCast_mod]

theorem leave_enter (a : Goldilocks) : leave (enter a) = a := by
  apply eq_of_mul_radix
  rw [residue_leave_mul_radix, natCast_enter]

/-- Canonical words are the Montgomery forms of the elements. -/
theorem enter_leave {w : UInt64} (h : w < order) : enter (leave w) = w := by
  have hcast : ((enter (leave w)).toNat : ZMod modulus) = w.toNat := by
    rw [natCast_enter, residue_leave_mul_radix]
  rw [ZMod.natCast_eq_natCast_iff', Nat.mod_eq_of_lt, Nat.mod_eq_of_lt] at hcast
  · exact UInt64.toNat_inj.mp hcast
  · exact UInt64.lt_iff_toNat_lt.mp h
  · exact UInt64.lt_iff_toNat_lt.mp (enter_lt (leave w))

end Montgomery

end CrossLookup
