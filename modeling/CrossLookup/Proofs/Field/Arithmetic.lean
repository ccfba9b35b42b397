import CrossLookup.Proofs.Field.Residue

/-!
# The arithmetic of the base field is exact

Every operation leaves a word that is canonical before it is reduced, and that
word is the integer result modulo the order. Powers are taken by repeated
multiplication from one on.
-/

namespace CrossLookup

namespace Goldilocks

/-- An element has exactly a computed word, which is canonical and stands for a number. -/
structure Computed (a : Goldilocks) (word : UInt64) (value : ℤ) : Prop where
  word_eq : a.word = word
  canonical : word < order
  value_eq : (word.toNat : ℤ) = value % modulus

/-- The final reduction changes nothing on a word that is a remainder already. -/
theorem computed_ofWord {word : UInt64} {n : ℕ} {value : ℤ} (hword : word.toNat = n % modulus)
    (hvalue : (n : ℤ) % modulus = value % modulus) : Computed (ofWord word) word value := by
  have hlt : word.toNat < modulus := by
    rw [hword]
    exact Nat.mod_lt _ (by decide)
  constructor
  · apply UInt64.toNat_inj.mp
    rw [toNat_ofWord, Nat.mod_eq_of_lt hlt]
  · exact UInt64.lt_iff_toNat_lt.mpr hlt
  · calc
      (word.toNat : ℤ) = (n : ℤ) % modulus := by rw [hword, Int.natCast_emod]
      _ = value % modulus := hvalue

section Operations

variable (a b : Goldilocks)

theorem computed_add :
    Computed (a + b) (sumWord a.word b.word) (a.word.toNat + b.word.toNat) :=
  computed_ofWord (toNat_sumWord a b) (by rw [Nat.cast_add])

theorem computed_sub :
    Computed (a - b) (differenceWord a.word b.word) (a.word.toNat - b.word.toNat) := by
  apply computed_ofWord (toNat_differenceWord a b)
  calc
    ((a.word.toNat + (modulus - b.word.toNat) : ℕ) : ℤ) % modulus =
        (a.word.toNat - b.word.toNat + modulus : ℤ) % modulus := by
      rw [Nat.cast_add, Nat.cast_sub b.toNat_lt_modulus.le, ← add_sub_assoc, sub_add_eq_add_sub]
    _ = (a.word.toNat - b.word.toNat : ℤ) % modulus := Int.add_emod_right _ _

theorem computed_mul :
    Computed (a * b) (productWord a.word b.word) (a.word.toNat * b.word.toNat) :=
  computed_ofWord (toNat_productWord a b) (by rw [Nat.cast_mul])

theorem computed_neg : Computed (-a) (oppositeWord a.word) (-a.word.toNat) := by
  rw [neg_eq_ofWord]
  apply computed_ofWord (toNat_oppositeWord a)
  calc
    ((modulus - a.word.toNat : ℕ) : ℤ) % modulus = (-a.word.toNat + modulus : ℤ) % modulus := by
      rw [Nat.cast_sub a.toNat_lt_modulus.le, sub_eq_neg_add]
    _ = (-a.word.toNat : ℤ) % modulus := Int.add_emod_right _ _

end Operations

theorem geometric_eq_map (a start : Goldilocks) (n : ℕ) :
    geometric a start n = (List.range n).map fun i => start * a ^ i := by
  induction n generalizing start with
  | zero => rfl
  | succ n ih =>
      have htail : (List.range n).map (fun i => start * a * a ^ i) =
          (List.range n).map (fun i => start * a ^ (i + 1)) := by
        apply List.map_congr_left
        intro i _
        ring
      simp only [geometric, ih, htail, List.range_succ_eq_map, List.map_cons, List.map_map,
        pow_zero, mul_one, Function.comp_def]

/-- Powers in rising order are the powers with the exponents in rising order. -/
theorem powers_eq_map (a : Goldilocks) (n : ℕ) :
    a.powers n = (List.range n).map fun i => a ^ i := by
  simp only [powers, geometric_eq_map, one_mul]

theorem toNat_pow (a : Goldilocks) (i : ℕ) :
    (a ^ i).word.toNat = a.word.toNat ^ i % modulus := by
  induction i with
  | zero => rfl
  | succ i ih => rw [pow_succ, toNat_mul, ih, Nat.mod_mul_mod, ← pow_succ]

/-- The word operations compute canonical words, exactly modulo the order, so the elements are
the integers modulo the order as a ring; and powers are the powers with exponents below a count,
in rising order. -/
theorem arithmetic_exact :
    modulus = 2 ^ 64 - 2 ^ 32 + 1 ∧
    (∀ a b : Goldilocks,
      Computed (a + b) (sumWord a.word b.word) (a.word.toNat + b.word.toNat) ∧
      Computed (a - b) (differenceWord a.word b.word) (a.word.toNat - b.word.toNat) ∧
      Computed (a * b) (productWord a.word b.word) (a.word.toNat * b.word.toNat) ∧
      Computed (-a) (oppositeWord a.word) (-a.word.toNat)) ∧
    (∃ residues : Goldilocks ≃+* ZMod modulus, ∀ a, residues a = (a.word.toNat : ZMod modulus)) ∧
    ∀ (a : Goldilocks) (n : ℕ), a.powers n = (List.range n).map (fun i => a ^ i) ∧
      (a.powers n).map (fun power => power.word.toNat) =
        (List.range n).map fun i => a.word.toNat ^ i % modulus := by
  refine ⟨rfl, fun a b => ⟨computed_add a b, computed_sub a b, computed_mul a b,
    computed_neg a⟩, ⟨residueEquiv, fun _ => rfl⟩, fun a n => ⟨powers_eq_map a n, ?_⟩⟩
  rw [powers_eq_map, List.map_map]
  apply List.map_congr_left
  exact fun i _ => toNat_pow a i

end Goldilocks

end CrossLookup
