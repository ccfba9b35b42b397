import CrossLookup.Text.LeadingNumber
import Mathlib.Data.List.TakeWhile
import Mathlib.Data.Nat.Digits.Defs
import Mathlib.Tactic.Common

/-!
# Decimal integers in texts

A text spells an integer when it consists of blanks, at most one sign and at
least one digit. The number at the front of a text takes up the whole text
exactly when the text spells an integer, and then it is that integer. A machine
word stands for the integers that it can hold.
-/

namespace CrossLookup

/-- A sign that may stand before digits. -/
inductive DecimalSign
  | absent
  | plus
  | minus
deriving DecidableEq

namespace DecimalSign

/-- The characters of a sign. -/
def text : DecimalSign → List Char
  | absent => []
  | plus => ['+']
  | minus => ['-']

/-- Whether a sign makes a number negative. -/
def isMinus : DecimalSign → Bool
  | absent => false
  | plus => false
  | minus => true

end DecimalSign

/-- An integer in decimal notation: blanks, at most one sign, and digits. -/
structure DecimalInteger where
  blanks : List Char
  sign : DecimalSign
  digits : List Char
  isBlank_of_mem : ∀ c ∈ blanks, isBlank c
  isDigit_of_mem : ∀ c ∈ digits, c.isDigit
  digits_ne_nil : digits ≠ []

namespace DecimalInteger

variable (m : DecimalInteger)

/-- The characters of the notation. -/
def text : List Char :=
  m.blanks ++ (m.sign.text ++ m.digits)

/-- The number of the digits, of which the last has the place of the units. -/
def magnitude : ℕ :=
  Nat.ofDigits 10 (m.digits.reverse.map fun c => c.toNat - '0'.toNat)

/-- The integer that the notation denotes. -/
def value : ℤ :=
  if m.sign.isMinus then -m.magnitude else m.magnitude

/-- The integer as a number with nothing after it. -/
def number : LeadingNumber :=
  ⟨m.sign.isMinus, m.magnitude, []⟩

end DecimalInteger

theorem decimalValue_eq_ofDigits (digits : List Char) : decimalValue digits =
    Nat.ofDigits 10 (digits.reverse.map fun c => c.toNat - '0'.toNat) := by
  rw [decimalValue, Nat.ofDigits_eq_foldr, List.foldr_map, List.foldr_reverse]
  simp [Nat.add_comm]

namespace LeadingNumber

theorem toNat_of_isDigit {c : Char} (h : c.isDigit) : 48 ≤ c.toNat ∧ c.toNat ≤ 57 := by
  simp only [Char.isDigit, ge_iff_le, Bool.and_eq_true, decide_eq_true_eq,
    UInt32.le_iff_toNat_le] at h
  exact h

theorem not_isBlank_of_isDigit {c : Char} (h : c.isDigit) : ¬isBlank c := by
  have hdigit := toNat_of_isDigit h
  intro hblank
  simp only [isBlank, Bool.or_eq_true, beq_iff_eq, Bool.and_eq_true, decide_eq_true_eq,
    Char.le_def, UInt32.le_iff_toNat_le] at hblank
  rcases hblank with rfl | ⟨_, hle⟩
  · exact absurd hdigit.1 (by decide)
  · have hcontrol : c.toNat ≤ 13 := hle
    omega

/-- Behind the blanks of a decimal integer there is no further blank. -/
theorem dropWhile_isBlank_text (m : DecimalInteger) :
    m.text.dropWhile isBlank = m.sign.text ++ m.digits := by
  rw [DecimalInteger.text, List.dropWhile_append_of_pos m.isBlank_of_mem]
  cases m.sign with
  | plus => rfl
  | minus => rfl
  | absent =>
      obtain ⟨c, rest, hdigits⟩ := List.exists_cons_of_ne_nil m.digits_ne_nil
      have hc : c.isDigit := by
        apply m.isDigit_of_mem
        rw [hdigits]
        exact List.mem_cons_self
      rw [DecimalSign.text, List.nil_append, hdigits,
        List.dropWhile_cons_of_neg (not_isBlank_of_isDigit hc)]

theorem splitSign_text (sign : DecimalSign) {digits : List Char}
    (hdigits : ∀ c ∈ digits, c.isDigit) :
    splitSign (sign.text ++ digits) = (sign.isMinus, digits) := by
  cases sign with
  | plus => rfl
  | minus => rfl
  | absent =>
      rw [DecimalSign.text, List.nil_append, splitSign.eq_def]
      split
      · exact absurd (hdigits '-' List.mem_cons_self) (by decide)
      · exact absurd (hdigits '+' List.mem_cons_self) (by decide)
      · rfl

/-- A sign is split off from what it stands before. -/
theorem exists_sign (text : List Char) : ∃ sign : DecimalSign,
    text = sign.text ++ (splitSign text).2 ∧ sign.isMinus = (splitSign text).1 := by
  unfold splitSign
  split
  · exact ⟨.minus, rfl, rfl⟩
  · exact ⟨.plus, rfl, rfl⟩
  · exact ⟨.absent, rfl, rfl⟩

/-- A decimal integer is the number at the front of its text, and nothing follows it. -/
theorem ofChars?_text (m : DecimalInteger) : ofChars? m.text = some m.number := by
  have htake : m.digits.takeWhile Char.isDigit = m.digits :=
    List.takeWhile_eq_self_iff.mpr m.isDigit_of_mem
  have hdrop : m.digits.dropWhile Char.isDigit = [] :=
    List.dropWhile_eq_nil_iff.mpr m.isDigit_of_mem
  simp only [ofChars?, dropWhile_isBlank_text, splitSign_text m.sign m.isDigit_of_mem, htake, hdrop,
    if_neg m.digits_ne_nil, decimalValue_eq_ofDigits]
  rfl

/-- A text that its number takes up is a decimal integer. -/
theorem exists_of_ofChars? {text : List Char} {n : LeadingNumber} (h : ofChars? text = some n)
    (hrest : n.rest = []) : ∃ m : DecimalInteger, m.text = text ∧ n = m.number := by
  obtain ⟨sign, hsign, hminus⟩ := exists_sign (text.dropWhile isBlank)
  simp only [ofChars?] at h
  generalize splitSign (text.dropWhile isBlank) = parts at h hsign hminus
  obtain ⟨negative, tail⟩ := parts
  split at h
  · cases h
  · next hdigits =>
    cases h
    -- Nothing follows the digits, so they are all that stands behind the sign.
    have htail : tail.takeWhile Char.isDigit = tail := by
      have hsplit := List.takeWhile_append_dropWhile (p := Char.isDigit) (l := tail)
      rwa [show tail.dropWhile Char.isDigit = [] from hrest, List.append_nil] at hsplit
    have htext : text.takeWhile isBlank ++ (sign.text ++ tail.takeWhile Char.isDigit) = text := by
      rw [htail, ← hsign, List.takeWhile_append_dropWhile]
    refine ⟨⟨text.takeWhile isBlank, sign, tail.takeWhile Char.isDigit,
      fun c => List.mem_takeWhile_imp, fun c => List.mem_takeWhile_imp, hdigits⟩, htext, ?_⟩
    rw [DecimalInteger.number, mk.injEq]
    exact ⟨hminus.symm, decimalValue_eq_ofDigits _, hrest⟩

end LeadingNumber

namespace DecimalInteger

/-- A text spells at most one integer. -/
theorem value_eq_of_text_eq {m m' : DecimalInteger} (h : m.text = m'.text) :
    m.value = m'.value := by
  have hnumber := LeadingNumber.ofChars?_text m
  rw [h, LeadingNumber.ofChars?_text m', Option.some.injEq, number, number,
    LeadingNumber.mk.injEq] at hnumber
  obtain ⟨hsign, hmagnitude, _⟩ := hnumber
  rw [value, value, hsign, hmagnitude]

/-- An integer that a machine word holds as it is. -/
def FitsWord (m : DecimalInteger) : Prop :=
  0 ≤ m.value ∧ m.value < 2 ^ 64

/-- The word that stands for a number is the number when it fits. -/
theorem toNat_saturatedWord {m : DecimalInteger} (h : m.FitsWord) :
    (m.number.saturatedWord.toNat : ℤ) = m.value := by
  obtain ⟨hnonneg, hlt⟩ := h
  unfold number value at *
  cases hminus : m.sign.isMinus with
  | true =>
      simp only [hminus, if_true] at *
      have hzero : m.magnitude = 0 := by omega
      rw [hzero]
      rfl
  | false =>
      simp only [hminus, Bool.false_eq_true, if_false] at *
      have hsize : m.magnitude < UInt64.size := by
        unfold UInt64.size
        omega
      rw [LeadingNumber.saturatedWord, LeadingNumber.word?, if_pos hsize]
      simp [UInt64.toNat_ofNat_of_lt' hsize]

end DecimalInteger

end CrossLookup
