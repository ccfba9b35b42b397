import CrossLookup.Proofs.Sponge.Montgomery
import CrossLookup.Sponge.Permutation
import Mathlib.Data.Nat.Digits.Lemmas
import Mathlib.FieldTheory.Finite.Basic
import Mathlib.Tactic.LinearCombination

/-!
# The substitutions as bijections

Both substitutions are powers coprime to the number of units of a prime field:
a byte with one added is cubed modulo `257`, a whole cell is raised to the
seventh power. The byte table fixes `0` and `255`, so it maps canonical words
to canonical words: those whose upper four bytes are not all `255`, and the one
word where they are and the lower four bytes vanish.
-/

namespace CrossLookup.SpongeState

open Goldilocks Nat

/-- Powers coprime to the number of units are injective. -/
theorem pow_injective_of_coprime {p k : ℕ} [Fact p.Prime] (hk : k ≠ 0)
    (hcoprime : (p - 1).Coprime k) : Function.Injective fun x : ZMod p => x ^ k := by
  intro x y h
  change x ^ k = y ^ k at h
  by_cases hx : x = 0
  · rw [hx, zero_pow hk] at h
    rw [hx, eq_zero_of_pow_eq_zero h.symm]
  · have hy : y ≠ 0 := by
      rintro rfl
      rw [zero_pow hk] at h
      exact hx (eq_zero_of_pow_eq_zero h)
    have hcard : (Nat.card (ZMod p)ˣ).Coprime k := by
      rwa [Nat.card_eq_fintype_card, ZMod.card_units]
    have hunits : powCoprime hcard (Units.mk0 x hx) = powCoprime hcard (Units.mk0 y hy) :=
      Units.ext h
    exact congrArg Units.val ((powCoprime hcard).injective hunits)

section Bytes

theorem getElem?_toList {α : Type} {n : ℕ} (v : Vector α n) (i : Fin n) :
    v.toList[i.val]? = some (v.get i) := by
  rw [List.getElem?_eq_getElem (by simp), Vector.getElem_toList]
  rfl

/-- The byte that the table gives for a byte. -/
def substituted (b : UInt8) : UInt8 :=
  byteTable.get ⟨b.toNat, b.toNat_lt⟩

/-- Byte `i` of a word. -/
def byte (w : UInt64) (i : ℕ) : UInt8 :=
  (w >>> (8 * i).toUInt64).toUInt8

/-- The table cubes modulo `257`, on bytes with one added. -/
theorem byteTable_eq_cubes : byteTable.toList.map UInt8.toNat =
    (List.range 256).map fun i => ((i + 1) * (i + 1) * (i + 1) + 256) % 257 := by
  decide +kernel

theorem substituted_eq_cube (b : UInt8) :
    ((substituted b).toNat : ZMod 257) + 1 = ((b.toNat : ZMod 257) + 1) ^ 3 := by
  have hb : b.toNat < 256 := b.toNat_lt
  have hentry := congrArg (fun entries => entries[b.toNat]?) byteTable_eq_cubes
  simp only [List.getElem?_map, List.getElem?_range hb, Option.map_some] at hentry
  have hget : byteTable.toList[b.toNat]? = some (substituted b) :=
    getElem?_toList byteTable ⟨b.toNat, hb⟩
  rw [hget, Option.map_some] at hentry
  rw [Option.some.inj hentry, ZMod.natCast_mod]
  have hcancel : (256 : ZMod 257) + 1 = 0 := by decide
  push_cast
  linear_combination hcancel

theorem substituted_injective : Function.Injective substituted := by
  have hprime : Fact (Nat.Prime 257) := ⟨by norm_num⟩
  intro a b h
  have hcubes : ((a.toNat : ZMod 257) + 1) ^ 3 = ((b.toNat : ZMod 257) + 1) ^ 3 := by
    rw [← substituted_eq_cube, ← substituted_eq_cube, h]
  have hsum : (a.toNat : ZMod 257) + 1 = (b.toNat : ZMod 257) + 1 :=
    pow_injective_of_coprime (by decide) (by decide) hcubes
  have hmod := (ZMod.natCast_eq_natCast_iff' _ _ 257).mp (add_right_cancel hsum)
  have ha := a.toNat_lt
  have hb := b.toNat_lt
  apply UInt8.toNat_inj.mp
  omega

theorem substituted_eq_zero_iff (b : UInt8) : substituted b = 0 ↔ b = 0 :=
  substituted_injective.eq_iff' (by decide +kernel)

theorem substituted_eq_255_iff (b : UInt8) : substituted b = 255 ↔ b = 255 :=
  substituted_injective.eq_iff' (by decide +kernel)

end Bytes

section Words

theorem toNat_toUInt64_bits {i : ℕ} (hi : i < 8) : (8 * i).toUInt64.toNat % 64 = 8 * i := by
  have hlt : 8 * i < UInt64.size := by
    unfold UInt64.size
    omega
  rw [Nat.toUInt64, UInt64.toNat_ofNat_of_lt' hlt]
  omega

theorem two_pow_bits (i : ℕ) : 2 ^ (8 * i) = 256 ^ i := by
  rw [pow_mul]
  norm_num

theorem toNat_byte (w : UInt64) {i : ℕ} (hi : i < 8) :
    (byte w i).toNat = w.toNat / 256 ^ i % 256 := by
  rw [byte, UInt64.toNat_toUInt8, UInt64.toNat_shiftRight, toNat_toUInt64_bits hi,
    Nat.shiftRight_eq_div_pow, two_pow_bits]

theorem toNat_substituteByte (w : UInt64) {i : ℕ} (hi : i < 8) :
    (substituteByte w i).toNat = 256 ^ i * (substituted (byte w i)).toNat := by
  have hbyte := (substituted (byte w i)).toNat_lt
  have hsmall : (substituted (byte w i)).toNat * 256 ^ i < 2 ^ 64 := by
    calc
      (substituted (byte w i)).toNat * 256 ^ i < 256 * 256 ^ i :=
        Nat.mul_lt_mul_of_pos_right hbyte (by positivity)
      _ = 256 ^ (i + 1) := (pow_succ' 256 i).symm
      _ ≤ 256 ^ 8 := Nat.pow_le_pow_right (by decide) hi
      _ = 2 ^ 64 := by norm_num
  change ((substituted (byte w i)).toUInt64 <<< (8 * i).toUInt64).toNat = _
  rw [UInt64.toNat_shiftLeft, toNat_toUInt64_bits hi, Nat.shiftLeft_eq, two_pow_bits,
    UInt8.toNat_toUInt64, Nat.mod_eq_of_lt hsmall, Nat.mul_comm]

/-- The lowest bytes of a word that `f` gives for the bytes of a word. -/
def digits (f : UInt8 → UInt8) (w : UInt64) (count : ℕ) : List ℕ :=
  (List.range count).map fun i => (f (byte w i)).toNat

theorem digits_lt (f : UInt8 → UInt8) (w : UInt64) (count : ℕ) :
    ∀ digit ∈ digits f w count, digit < 256 := by
  intro digit hdigit
  obtain ⟨i, _, rfl⟩ := List.mem_map.mp hdigit
  exact UInt8.toNat_lt _

@[simp] theorem length_digits (f : UInt8 → UInt8) (w : UInt64) (count : ℕ) :
    (digits f w count).length = count := by
  simp [digits]

theorem ofDigits_digits_succ (f : UInt8 → UInt8) (w : UInt64) (count : ℕ) :
    ofDigits 256 (digits f w (count + 1)) =
      ofDigits 256 (digits f w count) + 256 ^ count * (f (byte w count)).toNat := by
  have hsplit : digits f w (count + 1) = digits f w count ++ [(f (byte w count)).toNat] := by
    rw [digits, List.range_succ, List.map_append]
    rfl
  rw [hsplit, ofDigits_append, ofDigits_singleton, length_digits]

/-- A word is made of its bytes. -/
theorem ofDigits_bytes (w : UInt64) {count : ℕ} (hcount : count ≤ 8) :
    ofDigits 256 (digits id w count) = w.toNat % 256 ^ count := by
  induction count with
  | zero => rw [pow_zero, Nat.mod_one]; rfl
  | succ n ih =>
      rw [ofDigits_digits_succ, ih (by omega), id, toNat_byte w (by omega), Nat.mod_pow_succ]

/-- The substituted bytes are put side by side without overlap. -/
theorem toNat_foldl_substituteByte (w : UInt64) {count : ℕ} (hcount : count ≤ 8) :
    ((List.range count).foldl (fun acc i => acc ||| substituteByte w i) 0).toNat =
      ofDigits 256 (digits substituted w count) := by
  induction count with
  | zero => rfl
  | succ n ih =>
      have hlt : ofDigits 256 (digits substituted w n) < 2 ^ (8 * n) := by
        have hlength := ofDigits_lt_base_pow_length (by decide) (digits_lt substituted w n)
        rwa [length_digits, ← two_pow_bits] at hlength
      rw [List.range_succ, List.foldl_append, List.foldl_cons, List.foldl_nil, UInt64.toNat_or,
        ih (by omega), toNat_substituteByte w (by omega), ofDigits_digits_succ, ← two_pow_bits,
        Nat.or_comm, ← Nat.two_pow_add_eq_or_of_lt hlt, Nat.add_comm]

theorem toNat_substituteBytes (w : UInt64) :
    (substituteBytes w).toNat = ofDigits 256 (digits substituted w 8) :=
  toNat_foldl_substituteByte w (Nat.le_refl 8)

theorem toNat_eq_ofDigits (w : UInt64) : w.toNat = ofDigits 256 (digits id w 8) := by
  rw [ofDigits_bytes w (Nat.le_refl 8)]
  exact (Nat.mod_eq_of_lt w.toNat_lt).symm

theorem substituteBytes_injective : Function.Injective substituteBytes := by
  intro w w' h
  have hvalues :
      ofDigits 256 (digits substituted w 8) = ofDigits 256 (digits substituted w' 8) := by
    rw [← toNat_substituteBytes, ← toNat_substituteBytes, h]
  have hdigits : digits substituted w 8 = digits substituted w' 8 :=
    ofDigits_inj_of_len_eq (by decide) (by simp) (digits_lt _ _ _) (digits_lt _ _ _) hvalues
  have hbytes : digits id w 8 = digits id w' 8 := by
    apply List.map_congr_left
    intro i hi
    have hbyte := List.map_inj_left.mp hdigits i hi
    exact congrArg UInt8.toNat (substituted_injective (UInt8.toNat_inj.mp hbyte))
  apply UInt64.toNat_inj.mp
  rw [toNat_eq_ofDigits w, toNat_eq_ofDigits w', hbytes]

/-- Eight bytes are below the order unless the upper four are all `255` and a lower one is not
zero. -/
theorem ofDigits_lt_modulus_iff (f : UInt8 → UInt8) (w : UInt64) :
    ofDigits 256 (digits f w 8) < modulus ↔
      ((∀ i ∈ [4, 5, 6, 7], f (byte w i) = 255) → ∀ i ∈ [0, 1, 2, 3], f (byte w i) = 0) := by
  have hvalue : ofDigits 256 (digits f w 8) =
      (f (byte w 0)).toNat + 256 * ((f (byte w 1)).toNat + 256 * ((f (byte w 2)).toNat +
        256 * ((f (byte w 3)).toNat + 256 * ((f (byte w 4)).toNat + 256 * ((f (byte w 5)).toNat +
          256 * ((f (byte w 6)).toNat + 256 * ((f (byte w 7)).toNat + 256 * 0))))))) := rfl
  have hlt : ∀ i, (f (byte w i)).toNat < 256 := fun i => UInt8.toNat_lt _
  have h0 := hlt 0
  have h1 := hlt 1
  have h2 := hlt 2
  have h3 := hlt 3
  have h4 := hlt 4
  have h5 := hlt 5
  have h6 := hlt 6
  have h7 := hlt 7
  simp only [List.forall_mem_cons, List.not_mem_nil, false_implies, implies_true, and_true,
    ← UInt8.toNat_inj, UInt8.toNat_ofNat, modulus, hvalue]
  omega

/-- Substitution of bytes keeps canonical words canonical. -/
theorem substituteBytes_lt {w : UInt64} (h : w < order) : substituteBytes w < order := by
  rw [UInt64.lt_iff_toNat_lt] at h ⊢
  rw [toNat_eq_ofDigits w] at h
  rw [toNat_substituteBytes]
  have hbytes := (ofDigits_lt_modulus_iff id w).mp h
  apply (ofDigits_lt_modulus_iff substituted w).mpr
  simp only [substituted_eq_255_iff, substituted_eq_zero_iff]
  exact hbytes

/-- The substitution of bytes permutes the canonical words. -/
theorem substituteBytes_bijOn :
    Set.BijOn substituteBytes {w | w < order} {w | w < order} := by
  have hfinite : {w : UInt64 | w < order}.Finite :=
    (Set.finite_range word).subset fun w hw => ⟨⟨w, hw⟩, rfl⟩
  have hmaps : Set.MapsTo substituteBytes {w | w < order} {w | w < order} :=
    fun _ => substituteBytes_lt
  exact (hfinite.injOn_iff_bijOn_of_mapsTo hmaps).mp substituteBytes_injective.injOn

end Words

section Cells

/-- Leaving the Montgomery form needs no further reduction. -/
theorem word_splitAndLookup (a : Goldilocks) :
    (splitAndLookup a).word = Montgomery.reduce 0 (substituteBytes (Montgomery.enter a)) := by
  have hlt := Montgomery.reduce_lt Montgomery.zero_lt_order (substituteBytes (Montgomery.enter a))
  apply UInt64.toNat_inj.mp
  rw [splitAndLookup, Montgomery.leave, toNat_ofWord, Nat.mod_eq_of_lt]
  exact UInt64.lt_iff_toNat_lt.mp hlt

theorem splitAndLookup_injective : Function.Injective splitAndLookup := by
  intro a b h
  have hforms := congrArg Montgomery.enter h
  rw [splitAndLookup, splitAndLookup,
    Montgomery.enter_leave (substituteBytes_lt (Montgomery.enter_lt a)),
    Montgomery.enter_leave (substituteBytes_lt (Montgomery.enter_lt b))] at hforms
  have helements := congrArg Montgomery.leave (substituteBytes_injective hforms)
  rwa [Montgomery.leave_enter, Montgomery.leave_enter] at helements

theorem seventhPower_eq (a : Goldilocks) : seventhPower a = a ^ 7 := by
  unfold seventhPower
  ring

theorem seventhPower_injective : Function.Injective seventhPower := by
  intro a b h
  rw [seventhPower_eq, seventhPower_eq] at h
  have hpowers := congrArg residueEquiv h
  rw [map_pow, map_pow] at hpowers
  exact residueEquiv.injective (pow_injective_of_coprime (by decide) (by decide) hpowers)

theorem getElem_substitute (s : SpongeState) {i : ℕ} (hi : i < 16) :
    (substitute s)[i] = if i < splitCells then splitAndLookup s[i] else seventhPower s[i] :=
  Vector.getElem_mapIdx hi

theorem substitute_injective : Function.Injective substitute := by
  intro s t h
  apply Vector.ext
  intro i hi
  have hcell : (substitute s)[i] = (substitute t)[i] := by rw [h]
  rw [getElem_substitute, getElem_substitute] at hcell
  split at hcell
  · exact splitAndLookup_injective hcell
  · exact seventhPower_injective hcell

end Cells

end CrossLookup.SpongeState
