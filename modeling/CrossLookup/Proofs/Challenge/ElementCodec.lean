import CrossLookup.Challenge.Codec
import CrossLookup.Proofs.Field.Residue
import CrossLookup.Sponge.Exchange

/-!
# The format of challenge sets as field elements

A set is written as its size and its values, and a sequence is read exactly when
it starts with the number of pairs that follow. What is read would be written as
the same sequence.
-/

namespace CrossLookup.ChallengeSet

open Goldilocks

theorem encode_eq (set : ChallengeSet Goldilocks) :
    set.encode = ofWord (.ofNat set.length) :: set.flat :=
  rfl

theorem length_flat (set : ChallengeSet Goldilocks) : set.flat.length = 2 * set.length := by
  induction set with
  | nil => rfl
  | cons challenge rest ih =>
      change (flat rest).length + 2 = 2 * (rest.length + 1)
      omega

/-- Grouping by two undoes laying out challenges. -/
theorem pairs_flat (set : ChallengeSet Goldilocks) : pairs set.flat = set := by
  induction set with
  | nil => rfl
  | cons challenge rest ih => exact congrArg (challenge :: ·) ih

/-- Laying out challenges undoes grouping an even number of values by two. -/
theorem flat_pairs {values : List Goldilocks} (h : values.length % 2 = 0) :
    flat (pairs values) = values := by
  induction values using pairs.induct with
  | case1 beta gamma rest ih =>
      have hrest : rest.length % 2 = 0 := by
        simp only [List.length_cons] at h
        omega
      exact congrArg (beta :: gamma :: ·) (ih hrest)
  | case2 values hshort =>
      match values, h, hshort with
      | [], _, _ => rfl
      | beta :: gamma :: rest, _, hshort => exact (hshort beta gamma rest rfl).elim

theorem length_pairs {values : List Goldilocks} (h : values.length % 2 = 0) :
    (pairs values).length = values.length / 2 := by
  have hlength := length_flat (pairs values)
  rw [flat_pairs h] at hlength
  omega

/-- A size below the order is the word of its element. -/
theorem toNat_size {n : ℕ} (h : n < modulus) : (ofWord (.ofNat n)).word.toNat = n := by
  have hword : (UInt64.ofNat n).toNat = n := UInt64.toNat_ofNat_of_lt' (h.trans (by decide))
  rw [toNat_ofWord, hword, Nat.mod_eq_of_lt h]

theorem ofWord_toNat (a : Goldilocks) : ofWord (.ofNat a.word.toNat) = a :=
  toNat_injective (toNat_size a.toNat_lt_modulus)

/-- A sequence starts with the number of pairs that follow. -/
def CountsPairs (q : List Goldilocks) : Prop :=
  ∃ h : q ≠ [], Odd q.length ∧ (q.head h).word.toNat = (q.length - 1) / 2

theorem not_countsPairs_nil : ¬CountsPairs [] :=
  fun ⟨h, _⟩ => h rfl

section Decode

variable {count : Goldilocks} {values q : List Goldilocks} {set : ChallengeSet Goldilocks}

theorem countsPairs_cons_iff : CountsPairs (count :: values) ↔
    values.length % 2 = 0 ∧ count.word.toNat = values.length / 2 := by
  have hodd : Odd (values.length + 1) ↔ values.length % 2 = 0 := by
    rw [Nat.odd_iff]
    omega
  simp only [CountsPairs, ne_eq, reduceCtorEq, not_false_eq_true, List.length_cons, List.head_cons,
    Nat.add_sub_cancel, exists_true_left, hodd]

theorem countsPairs_encode (h : set.length < modulus) : CountsPairs set.encode := by
  rw [encode_eq, countsPairs_cons_iff, length_flat, toNat_size h]
  omega

/-- A sequence that counts its pairs is what is written of them. -/
theorem encode_pairs (h : CountsPairs (count :: values)) :
    encode (pairs values) = count :: values := by
  obtain ⟨heven, hcount⟩ := countsPairs_cons_iff.mp h
  rw [encode_eq, length_pairs heven, flat_pairs heven, ← hcount, ofWord_toNat]

theorem decode_of_countsPairs (h : CountsPairs (count :: values)) :
    decode (count :: values) = .ok (pairs values) := by
  obtain ⟨heven, hcount⟩ := countsPairs_cons_iff.mp h
  exact if_neg (not_or.mpr ⟨not_not.mpr heven, not_not.mpr hcount⟩)

/-- Any other sequence is refused, for a missing count or for a size that its elements do not
have. -/
theorem decode_of_not_countsPairs (h : ¬CountsPairs q) :
    (q = [] ∧ decode q = .error .missingCount) ∨ ∃ count values, q = count :: values ∧
      decode q = .error (.setElements count.word.toNat values.length) := by
  cases q with
  | nil => exact Or.inl ⟨rfl, rfl⟩
  | cons count values =>
      rw [countsPairs_cons_iff, not_and_or] at h
      exact Or.inr ⟨count, values, rfl, if_pos h⟩

theorem decode_encode (h : set.length < modulus) : decode set.encode = .ok set :=
  calc
    decode set.encode = .ok (pairs set.flat) := decode_of_countsPairs (countsPairs_encode h)
    _ = .ok set := by rw [pairs_flat]

/-- Every sequence that is read counts its pairs and is what is written of the set. -/
theorem countsPairs_of_decode (h : decode q = .ok set) :
    CountsPairs q ∧ set.length < modulus ∧ set.encode = q := by
  have hcounts : CountsPairs q := by
    by_contra hcounts
    rcases decode_of_not_countsPairs hcounts with ⟨_, he⟩ | ⟨_, _, _, he⟩
    · cases he.symm.trans h
    · cases he.symm.trans h
  cases q with
  | nil => exact absurd hcounts not_countsPairs_nil
  | cons count values =>
      obtain ⟨heven, hcount⟩ := countsPairs_cons_iff.mp hcounts
      obtain rfl := Except.ok.inj ((decode_of_countsPairs hcounts).symm.trans h)
      refine ⟨hcounts, ?_, encode_pairs hcounts⟩
      rw [length_pairs heven, ← hcount]
      exact count.toNat_lt_modulus

end Decode

/-- What is written of a set of fewer challenges than the order is read back to it, and a sequence
is read exactly when it starts with the number of pairs that follow, as the one set of which it is
what is written. Any other sequence is refused, for a missing count or for a size that its elements
do not have. -/
theorem decode_exactly_countsPairs :
    (∀ set : ChallengeSet Goldilocks, set.length < modulus → decode set.encode = .ok set) ∧
    ∀ q : List Goldilocks,
      ((∃ set, decode q = .ok set) ↔ CountsPairs q) ∧
      (∀ set, decode q = .ok set ↔ set.length < modulus ∧ set.encode = q) ∧
      (¬CountsPairs q → (q = [] ∧ decode q = .error .missingCount) ∨
        ∃ count values, q = count :: values ∧
          decode q = .error (.setElements count.word.toNat values.length)) := by
  refine ⟨fun set => decode_encode, fun q => ⟨⟨?_, ?_⟩, fun set => ⟨?_, ?_⟩,
    decode_of_not_countsPairs⟩⟩
  · rintro ⟨set, h⟩
    exact (countsPairs_of_decode h).1
  · intro hcounts
    cases q with
    | nil => exact absurd hcounts not_countsPairs_nil
    | cons count values => exact ⟨_, decode_of_countsPairs hcounts⟩
  · exact fun h => (countsPairs_of_decode h).2
  · rintro ⟨hset, rfl⟩
    exact decode_encode hset

/-- Two challenges are read back, and are refused under a count of three or of one. -/
theorem decode_exactly_countsPairs_two :
    decode (encode [⟨.ofWord 7, .ofWord 9⟩, ⟨-1, 0⟩]) = .ok [⟨.ofWord 7, .ofWord 9⟩, ⟨-1, 0⟩] ∧
    (¬CountsPairs [.ofWord 3, .ofWord 7, .ofWord 9, -1, 0] ∧
      ∃ e, decode [.ofWord 3, .ofWord 7, .ofWord 9, -1, 0] = .error e) ∧
    ¬CountsPairs [1, .ofWord 7, .ofWord 9, -1] ∧
      ∃ e, decode [1, .ofWord 7, .ofWord 9, -1] = .error e := by
  have hthree : ¬CountsPairs [.ofWord 3, .ofWord 7, .ofWord 9, -1, 0] := by
    rw [countsPairs_cons_iff]
    decide +kernel
  have hodd : ¬CountsPairs [1, .ofWord 7, .ofWord 9, -1] := by
    rw [countsPairs_cons_iff]
    decide +kernel
  obtain ⟨hread, hexact⟩ := decode_exactly_countsPairs
  refine ⟨hread _ (by decide), ⟨hthree, ?_⟩, hodd, ?_⟩
  · obtain ⟨_, he⟩ | ⟨_, _, _, he⟩ := (hexact _).2.2 hthree
    · exact ⟨_, he⟩
    · exact ⟨_, he⟩
  · obtain ⟨_, he⟩ | ⟨_, _, _, he⟩ := (hexact _).2.2 hodd
    · exact ⟨_, he⟩
    · exact ⟨_, he⟩

end CrossLookup.ChallengeSet
