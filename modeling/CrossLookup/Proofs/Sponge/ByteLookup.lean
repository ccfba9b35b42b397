import CrossLookup.Proofs.Sponge.Substitution

/-!
# The reduction step and the byte substitution as numbers

The reduction step divides a double word by `2^64` modulo the order, over all
upper words below the order and all lower words. The substitution of a cell is
the element that, multiplied by `2^64`, gives the table's bytes for the bytes of
the cell multiplied by `2^64`.
-/

namespace CrossLookup

open Goldilocks Nat

namespace Montgomery

/-- The step multiplies a double word by the inverse of `2^64`. -/
theorem natCast_reduce {hi : UInt64} (h : hi < order) (lo : UInt64) :
    ((reduce hi lo).toNat : ZMod modulus) =
      ((hi.toNat * 2 ^ 64 + lo.toNat : ℕ) : ZMod modulus) * (2 ^ 64)⁻¹ := by
  rw [← reduce_mul_radix h lo]
  exact (mul_inv_cancel_right₀ radix_ne_zero _).symm

/-- The Montgomery form of an element is its multiple by `2^64`, reduced. -/
theorem toNat_enter (a : Goldilocks) : (enter a).toNat = a.word.toNat * 2 ^ 64 % modulus := by
  have hcast : ((enter a).toNat : ZMod modulus) = ((a.word.toNat * 2 ^ 64 : ℕ) : ZMod modulus) := by
    rw [natCast_enter, residue]
    push_cast
    rfl
  have hlt : (enter a).toNat < modulus := UInt64.lt_iff_toNat_lt.mp (enter_lt a)
  rw [← Nat.mod_eq_of_lt hlt]
  exact (ZMod.natCast_eq_natCast_iff' _ _ modulus).mp hcast

/-- An element is what leaving the form makes of a word exactly when it divides the word by
`2^64`. -/
theorem eq_leave_iff (b : Goldilocks) (w : UInt64) :
    b = leave w ↔ b.word.toNat * 2 ^ 64 ≡ w.toNat [MOD modulus] := by
  rw [← ZMod.natCast_eq_natCast_iff, ← residue_leave_mul_radix]
  push_cast
  constructor
  · rintro rfl
    rfl
  · exact eq_of_mul_radix

end Montgomery

namespace SpongeState

/-- The number that has the table's bytes for the eight lowest bytes of a number. -/
def tabulated (n : ℕ) : ℕ :=
  ofDigits 256 ((List.range 8).map fun i => (byteTable.get (Fin.ofNat 256 (n / 256 ^ i))).toNat)

theorem toNat_substituteBytes_eq_tabulated (w : UInt64) :
    (substituteBytes w).toNat = tabulated w.toNat := by
  rw [toNat_substituteBytes, digits, tabulated]
  congr 1
  apply List.map_congr_left
  intro i hi
  have hbyte : (⟨(byte w i).toNat, (byte w i).toNat_lt⟩ : Fin 256) =
      Fin.ofNat 256 (w.toNat / 256 ^ i) := by
    apply Fin.ext
    exact toNat_byte w (List.mem_range.mp hi)
  rw [substituted, hbyte]

/-- The substituted Montgomery form has the table's bytes for the multiple by `2^64`. -/
theorem toNat_substituteBytes_enter (a : Goldilocks) :
    (substituteBytes (Montgomery.enter a)).toNat = tabulated (a.word.toNat * 2 ^ 64 % modulus) := by
  rw [toNat_substituteBytes_eq_tabulated, Montgomery.toNat_enter]

/-- The reduction step divides by `2^64`, and the substitution of a cell is the table's word for
the cell's Montgomery form, which is below the order, divided by `2^64`. -/
theorem reduce_and_lookup_exact :
    (∀ hi lo : UInt64, hi < order → Montgomery.reduce hi lo < order ∧
      ((Montgomery.reduce hi lo).toNat : ZMod modulus) =
        ((hi.toNat * 2 ^ 64 + lo.toNat : ℕ) : ZMod modulus) * (2 ^ 64)⁻¹) ∧
    ∀ a : Goldilocks, tabulated (a.word.toNat * 2 ^ 64 % modulus) < modulus ∧
      ∀ b : Goldilocks, b = splitAndLookup a ↔
        b.word.toNat * 2 ^ 64 ≡ tabulated (a.word.toNat * 2 ^ 64 % modulus) [MOD modulus] := by
  constructor
  · intro hi lo h
    exact ⟨Montgomery.reduce_lt h lo, Montgomery.natCast_reduce h lo⟩
  · intro a
    rw [← toNat_substituteBytes_enter]
    constructor
    · exact UInt64.lt_iff_toNat_lt.mp (substituteBytes_lt (Montgomery.enter_lt a))
    · intro b
      exact Montgomery.eq_leave_iff b _

/-- The step borrows when it divides one by `2^64`, and the form of two has bytes that the table
changes. -/
theorem reduce_and_lookup_exact_borrowing :
    (0 < order ∧ Montgomery.reduce 0 1 < order ∧
      ((Montgomery.reduce 0 1).toNat : ZMod modulus) =
        (((0 : UInt64).toNat * 2 ^ 64 + (1 : UInt64).toNat : ℕ) : ZMod modulus) * (2 ^ 64)⁻¹) ∧
    (splitAndLookup (ofWord 2)).word.toNat * 2 ^ 64 ≡ 0x7FFFFFFF8 [MOD modulus] := by
  have hzero : (0 : UInt64) < order := by decide
  have htable : tabulated ((ofWord 2).word.toNat * 2 ^ 64 % modulus) = 0x7FFFFFFF8 := by
    decide +kernel
  obtain ⟨hreduce, hlookup⟩ := reduce_and_lookup_exact
  have htwo := ((hlookup (ofWord 2)).2 (splitAndLookup (ofWord 2))).mp rfl
  rw [htable] at htwo
  exact ⟨⟨hzero, hreduce 0 1 hzero⟩, htwo⟩

end SpongeState

end CrossLookup
