import CrossLookup.Proofs.Column
import CrossLookup.Proofs.Field.Arithmetic
import CrossLookup.Proofs.Field.Horner
import Mathlib.Data.Nat.Digits.Lemmas

/-!
# Digits put together by a column

Columns weighted by the powers of a base evaluate to the number whose digits
they hold, modulo the order of the field. Below a number of digits the order is
out of reach: the value is the number itself and determines its digits. From
the number of digits on that reaches past the order it does not.
-/

namespace CrossLookup

namespace Column

/-- The number at a column of a row. A column that the row lacks reads as zero. -/
def cellNumber (row : Array Goldilocks) (c : ℕ) : ℕ :=
  (row.getD c 0).word.toNat

/-- The integer whose digits are the numbers at columns, the lowest first. -/
def recomposed (base : ℕ) (cs : List ℕ) (row : Array Goldilocks) : ℕ :=
  ∑ i : Fin cs.length, cellNumber row cs[i] * base ^ (i : ℕ)

/-- The row has digits in the columns. -/
def HoldsDigits (base : ℕ) (cs : List ℕ) (row : Array Goldilocks) : Prop :=
  ∀ c ∈ cs, cellNumber row c < base

instance (base : ℕ) (cs : List ℕ) (row : Array Goldilocks) : Decidable (HoldsDigits base cs row) :=
  inferInstanceAs (Decidable (∀ c ∈ cs, cellNumber row c < base))

/-- A column puts the digits in columns together: modulo the order on every row, and exactly and
without collisions on the rows with digits when the columns fit into a width. -/
structure Recomposes (column : Column) (base width : ℕ) (cs : List ℕ) : Prop where
  value_mod : ∀ row : Array Goldilocks,
    (column.eval row).word.toNat = recomposed base cs row % Goldilocks.modulus
  value_eq : cs.length ≤ width → ∀ row : Array Goldilocks, HoldsDigits base cs row →
    (column.eval row).word.toNat = recomposed base cs row
  separates : cs.length ≤ width → ∀ row row' : Array Goldilocks, HoldsDigits base cs row →
    HoldsDigits base cs row' → (∃ c ∈ cs, row.getD c 0 ≠ row'.getD c 0) →
    column.eval row ≠ column.eval row'

section Value

variable {cs : List ℕ} {base : Goldilocks}

/-- Multiples of rising powers weight the values as Horner's rule does. -/
theorem termSum_geometric (base start : Goldilocks) (cs : List ℕ) (value : ℕ → Goldilocks) :
    termSum (cs.zip (base.geometric start cs.length)) value =
      start * cs.foldr (fun c acc => acc * base + value c) 0 := by
  unfold termSum
  induction cs generalizing start with
  | nil => exact (mul_zero start).symm
  | cons c rest ih =>
      rw [List.length_cons, Goldilocks.geometric, List.zip_cons_cons, List.map_cons, List.sum_cons,
        ih, List.foldr_cons]
      ring

/-- Different columns, and not none of them, are accepted. -/
theorem weighted_accepts (hne : cs ≠ []) (hcs : cs.Nodup) (base : Goldilocks) :
    ∃ column, weighted cs base = .ok column ∧ column.terms = cs.zip (base.powers cs.length) ∧
      column.constant = 0 := by
  have hfst : (cs.zip (base.powers cs.length)).map Prod.fst = cs :=
    List.map_fst_zip (Goldilocks.length_powers base cs.length).ge
  have hterms : cs.zip (base.powers cs.length) ≠ [] := by
    intro hnil
    rw [hnil] at hfst
    exact hne hfst.symm
  have hdistinct : ((cs.zip (base.powers cs.length)).map Prod.fst).Nodup := by
    rw [hfst]
    exact hcs
  unfold weighted combination
  rw [if_neg hterms, dif_pos hdistinct]
  exact ⟨_, rfl, rfl, rfl⟩

/-- The value as a residue is the integer as a residue. -/
theorem residue_eval_weighted {column : Column}
    (hterms : column.terms = cs.zip (base.powers cs.length)) (hconstant : column.constant = 0)
    (row : Array Goldilocks) :
    (column.eval row).residue = (recomposed base.word.toNat cs row : ZMod Goldilocks.modulus) := by
  have heval : column.eval row = ∑ i : Fin cs.length, base ^ (i : ℕ) * row.getD cs[i] 0 := by
    unfold eval
    rw [addTerms_eq, hterms, hconstant, Goldilocks.powers, termSum_geometric, one_mul,
      foldr_horner]
    exact zero_add _
  rw [heval, recomposed, Nat.cast_sum]
  change Goldilocks.residueEquiv _ = _
  rw [map_sum]
  apply Finset.sum_congr rfl
  intro i _
  rw [map_mul, map_pow, Nat.cast_mul, Nat.cast_pow]
  exact mul_comm _ _

end Value

section Digits

variable {base : ℕ} {cs : List ℕ} {row row' : Array Goldilocks}

theorem recomposed_eq_ofDigits (base : ℕ) (cs : List ℕ) (row : Array Goldilocks) :
    recomposed base cs row = Nat.ofDigits base (cs.map (cellNumber row)) := by
  calc
    recomposed base cs row = ∑ i : Fin cs.length, base ^ (i : ℕ) * cellNumber row (cs.get i) :=
      Finset.sum_congr rfl fun i _ => mul_comm _ _
    _ = cs.foldr (fun c acc => cellNumber row c + base * acc) 0 := by
      rw [← foldr_horner]
      simp only [add_comm, mul_comm]
    _ = Nat.ofDigits base (cs.map (cellNumber row)) := by
      rw [Nat.ofDigits_eq_foldr, List.foldr_map]
      rfl

theorem HoldsDigits.forall_mem_map (h : HoldsDigits base cs row) :
    ∀ digit ∈ cs.map (cellNumber row), digit < base := by
  rw [List.forall_mem_map]
  exact h

theorem recomposed_lt (hbase : 1 < base) (h : HoldsDigits base cs row) :
    recomposed base cs row < base ^ cs.length := by
  rw [recomposed_eq_ofDigits]
  simpa using Nat.ofDigits_lt_base_pow_length hbase h.forall_mem_map

/-- The integer determines its digits. -/
theorem cells_eq_of_recomposed (hbase : 1 < base) (h : HoldsDigits base cs row)
    (h' : HoldsDigits base cs row') (heq : recomposed base cs row = recomposed base cs row') :
    ∀ c ∈ cs, row.getD c 0 = row'.getD c 0 := by
  rw [recomposed_eq_ofDigits, recomposed_eq_ofDigits] at heq
  have hmaps := Nat.ofDigits_inj_of_len_eq hbase (by simp) h.forall_mem_map h'.forall_mem_map heq
  intro c hc
  exact Goldilocks.toNat_injective (List.map_inj_left.mp hmaps c hc)

end Digits

/-- A column whose value is the integer modulo the order recomposes its digits, as long as the
numbers with as many digits as the width lie below the order. -/
theorem Recomposes.of_value {column : Column} {base width : ℕ} {cs : List ℕ} (hbase : 1 < base)
    (hwidth : base ^ width ≤ Goldilocks.modulus)
    (hvalue : ∀ row : Array Goldilocks,
      (column.eval row).word.toNat = recomposed base cs row % Goldilocks.modulus) :
    Recomposes column base width cs := by
  have hexact : cs.length ≤ width → ∀ row : Array Goldilocks, HoldsDigits base cs row →
      (column.eval row).word.toNat = recomposed base cs row := by
    intro hlength row hdigits
    rw [hvalue, Nat.mod_eq_of_lt]
    calc
      recomposed base cs row < base ^ cs.length := recomposed_lt hbase hdigits
      _ ≤ base ^ width := Nat.pow_le_pow_right hbase.le hlength
      _ ≤ Goldilocks.modulus := hwidth
  refine ⟨hvalue, hexact, ?_⟩
  rintro hlength row row' hdigits hdigits' ⟨c, hc, hdiffers⟩ heval
  have hnumbers : recomposed base cs row = recomposed base cs row' := by
    rw [← hexact hlength row hdigits, ← hexact hlength row' hdigits', heval]
  exact hdiffers (cells_eq_of_recomposed hbase hdigits hdigits' hnumbers c hc)

/-- The columns weighted by the powers of a base recompose digits to that base. -/
theorem weighted_recomposes {base : Goldilocks} {cs : List ℕ} {width : ℕ} (hne : cs ≠ [])
    (hcs : cs.Nodup) (hbase : 1 < base.word.toNat)
    (hwidth : base.word.toNat ^ width ≤ Goldilocks.modulus) :
    ∃ column, weighted cs base = .ok column ∧
      Recomposes column base.word.toNat width cs := by
  obtain ⟨column, hcolumn, hterms, hconstant⟩ := weighted_accepts hne hcs base
  have hvalue : ∀ row : Array Goldilocks, (column.eval row).word.toNat =
      recomposed base.word.toNat cs row % Goldilocks.modulus :=
    fun row => Goldilocks.toNat_of_residue_eq (residue_eval_weighted hterms hconstant row)
  exact ⟨column, hcolumn, .of_value hbase hwidth hvalue⟩

/-- Every non-empty list of different columns is put together from bits and from bytes: the value
on a row is the integer modulo the order, and with at most sixty-three bits, or seven bytes, it is
the integer itself, and rows with different digits in the columns have different values. -/
theorem leBits_leBytes_recompose (cs : List ℕ) (hne : cs ≠ []) (hcs : cs.Nodup) :
    (∃ bits, leBits cs = .ok bits ∧ Recomposes bits 2 63 cs) ∧
      ∃ bytes, leBytes cs = .ok bytes ∧ Recomposes bytes 256 7 cs :=
  ⟨weighted_recomposes hne hcs (by decide) (by decide),
    weighted_recomposes hne hcs (by decide) (by decide)⟩

/-- Two bits and two bytes, in columns around one that is neither. -/
theorem leBits_leBytes_recompose_two :
    [2, 0] ≠ [] ∧ [2, 0].Nodup ∧
      (∃ bits, leBits [2, 0] = .ok bits ∧ Recomposes bits 2 63 [2, 0] ∧
        (bits.eval #[Goldilocks.ofWord 1, .ofWord 5, .ofWord 1]).word.toNat = 3) ∧
      ∃ bytes, leBytes [2, 0] = .ok bytes ∧ Recomposes bytes 256 7 [2, 0] ∧
        bytes.eval #[Goldilocks.ofWord 255, .ofWord 0, .ofWord 7] ≠
          bytes.eval #[Goldilocks.ofWord 254, .ofWord 0, .ofWord 7] := by
  obtain ⟨⟨bits, hbits, hrecomposes⟩, bytes, hbytes, hrecomposes'⟩ :=
    leBits_leBytes_recompose [2, 0] (by decide) (by decide)
  refine ⟨by decide, by decide, ⟨bits, hbits, hrecomposes, ?_⟩, bytes, hbytes, hrecomposes', ?_⟩
  · apply hrecomposes.value_eq <;> decide
  · apply hrecomposes'.separates <;> decide

section Collision

variable {base : ℕ} {cs : List ℕ}

/-- A row with the digits of a number in columns, the lowest first. -/
def digitRow (base : ℕ) (cs : List ℕ) (n : ℕ) : Array Goldilocks :=
  Array.ofFn fun c : Fin (cs.sum + 1) => .ofWord (.ofNat (n / base ^ cs.idxOf c.val % base))

theorem cellNumber_digitRow (hpos : 0 < base) (hbase : base ≤ Goldilocks.modulus) {c : ℕ}
    (hc : c ∈ cs) (n : ℕ) : cellNumber (digitRow base cs n) c = n / base ^ cs.idxOf c % base := by
  have hsize : c < cs.sum + 1 := Nat.lt_succ_of_le (List.le_sum_of_mem hc)
  have hdigit : n / base ^ cs.idxOf c % base < Goldilocks.modulus :=
    (Nat.mod_lt _ hpos).trans_le hbase
  have hword : (UInt64.ofNat (n / base ^ cs.idxOf c % base)).toNat =
      n / base ^ cs.idxOf c % base :=
    UInt64.toNat_ofNat_of_lt' (hdigit.trans (by decide))
  unfold cellNumber digitRow
  rw [Array.getD_eq_getD_getElem?, Array.getElem?_ofFn, dif_pos hsize, Option.getD_some,
    Goldilocks.toNat_ofWord, hword, Nat.mod_eq_of_lt hdigit]

theorem sum_digits (base n k : ℕ) :
    ∑ i : Fin k, n / base ^ (i : ℕ) % base * base ^ (i : ℕ) = n % base ^ k := by
  induction k with
  | zero => simp [Nat.mod_one]
  | succ k ih =>
      rw [Fin.sum_univ_castSucc, Nat.mod_pow_succ, mul_comm (base ^ k)]
      exact congrArg (· + n / base ^ k % base * base ^ k) ih

theorem recomposed_digitRow (hpos : 0 < base) (hbase : base ≤ Goldilocks.modulus) (hcs : cs.Nodup)
    (n : ℕ) : recomposed base cs (digitRow base cs n) = n % base ^ cs.length := by
  rw [← sum_digits]
  apply Finset.sum_congr rfl
  intro i _
  have hplace : cs.idxOf cs[i] = i := hcs.idxOf_getElem i i.isLt
  rw [cellNumber_digitRow hpos hbase (c := cs[i]) (List.getElem_mem i.isLt), hplace]

/-- Where the order has no more digits than there are columns, as with sixty-four bits or eight
bytes, two rows with different digits have the same value: the digits of zero and those of the
order. -/
theorem Recomposes.exists_collision {column : Column} {width : ℕ}
    (h : Recomposes column base width cs) (hpos : 0 < base) (hbase : base ≤ Goldilocks.modulus)
    (hcs : cs.Nodup) (hlength : Goldilocks.modulus < base ^ cs.length) :
    ∃ row row' : Array Goldilocks, HoldsDigits base cs row ∧ HoldsDigits base cs row' ∧
      (∃ c ∈ cs, row.getD c 0 ≠ row'.getD c 0) ∧ column.eval row = column.eval row' := by
  have hdigits : ∀ n, HoldsDigits base cs (digitRow base cs n) := by
    intro n c hc
    rw [cellNumber_digitRow hpos hbase hc]
    exact Nat.mod_lt _ hpos
  have hzero : recomposed base cs (digitRow base cs 0) = 0 := by
    rw [recomposed_digitRow hpos hbase hcs, Nat.zero_mod]
  have horder : recomposed base cs (digitRow base cs Goldilocks.modulus) = Goldilocks.modulus := by
    rw [recomposed_digitRow hpos hbase hcs, Nat.mod_eq_of_lt hlength]
  refine ⟨digitRow base cs 0, digitRow base cs Goldilocks.modulus, hdigits _, hdigits _, ?_, ?_⟩
  · by_contra! hsame
    have hnumbers : recomposed base cs (digitRow base cs 0) =
        recomposed base cs (digitRow base cs Goldilocks.modulus) := by
      apply Finset.sum_congr rfl
      intro i _
      rw [cellNumber, cellNumber, hsame cs[i] (List.getElem_mem i.isLt)]
    rw [hzero, horder] at hnumbers
    exact absurd hnumbers (by decide)
  · apply Goldilocks.toNat_injective
    rw [h.value_mod, h.value_mod, hzero, horder, Nat.zero_mod, Nat.mod_self]

example : Goldilocks.modulus < 2 ^ 64 ∧ Goldilocks.modulus < 256 ^ 8 := by decide

end Collision

end Column

end CrossLookup
