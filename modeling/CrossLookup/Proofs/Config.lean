import CrossLookup.Config
import CrossLookup.Proofs.Text.LeadingNumber
import CrossLookup.Proofs.Traversal

/-!
# Overrides by the environment

A variable that is set to a text overrides its field by the integer that the
text spells in decimal, if a word holds that integer. A text that spells no
integer is refused, and so is a configuration that is left without a challenge;
nothing else is.
-/

namespace CrossLookup.Config

/-- A text that is not empty and spells no integer. -/
def Unreadable (value : Option String) : Prop :=
  ∃ text, value = some text ∧ text ≠ "" ∧ ∀ m : DecimalInteger, m.text ≠ text.toList

/-- A variable leaves a field as it was when it is unset or empty. Otherwise it spells an integer,
and the field then holds whatever integer it spells, if a word does. -/
inductive Overrides : Option String → UInt64 → UInt64 → Prop
  | unset (old : UInt64) : Overrides none old old
  | empty (old : UInt64) : Overrides (some "") old old
  | spelled {text : String} (old new : UInt64)
      (hspelled : ∃ m : DecimalInteger, m.text = text.toList)
      (hnew : ∀ m : DecimalInteger, m.text = text.toList → m.FitsWord →
        (new.toNat : ℤ) = m.value) : Overrides (some text) old new

variable {value : Option String}

theorem Overrides.not_unreadable {old new : UInt64} (h : Overrides value old new) :
    ¬Unreadable value := by
  rintro ⟨text, rfl, hne, hnone⟩
  cases h with
  | empty => exact hne rfl
  | spelled _ _ hspelled =>
      obtain ⟨m, htext⟩ := hspelled
      exact hnone m htext

theorem environmentWord_of_ne {text : String} (name : String) (h : text ≠ "") :
    environmentWord name (some text) =
      match LeadingNumber.ofChars? text.toList with
      | some n => if n.rest = [] then .ok (some n.saturatedWord) else .error (.notNumber name text)
      | none => .error (.notNumber name text) := by
  unfold environmentWord
  split
  · next heq => cases heq
  · next heq => exact absurd (Option.some.inj heq) h
  · next heq => cases heq; rfl

/-- A variable is refused when its text is unreadable, and is read otherwise. -/
theorem environmentWord_cases (name : String) (value : Option String) :
    (Unreadable value ∧ ∃ text, value = some text ∧
      environmentWord name value = .error (.notNumber name text)) ∨
    ∃ word, environmentWord name value = .ok word ∧ ∀ old, Overrides value old (word.getD old) := by
  cases value with
  | none => exact .inr ⟨none, rfl, .unset⟩
  | some text =>
      by_cases hempty : text = ""
      · subst hempty
        exact .inr ⟨none, rfl, .empty⟩
      rw [environmentWord_of_ne name hempty]
      by_cases hspelled : ∃ m : DecimalInteger, m.text = text.toList
      · obtain ⟨m, htext⟩ := hspelled
        right
        refine ⟨some m.number.saturatedWord, ?_, fun old => .spelled old _ ⟨m, htext⟩ ?_⟩
        · rw [← htext, LeadingNumber.ofChars?_text]
          rfl
        · intro other hother hfits
          have hvalue := DecimalInteger.value_eq_of_text_eq (htext.trans hother.symm)
          rw [← hvalue]
          apply DecimalInteger.toNat_saturatedWord
          rwa [DecimalInteger.FitsWord, hvalue]
      · have hnone : ∀ m : DecimalInteger, m.text ≠ text.toList := not_exists.mp hspelled
        left
        refine ⟨⟨text, rfl, hempty, hnone⟩, text, rfl, ?_⟩
        split
        · next n hn =>
          rw [if_neg]
          intro hrest
          obtain ⟨m, htext, _⟩ := LeadingNumber.exists_of_ofChars? hn hrest
          exact hnone m htext
        · rfl

theorem validate_eq_ok_iff (config : Config) :
    config.validate = .ok () ↔ 1 ≤ config.challenges.toNat := by
  unfold validate
  split
  · next hzero =>
    rw [hzero]
    simp
  · next hne =>
    refine iff_of_true rfl (Nat.pos_of_ne_zero fun hzero => hne ?_)
    exact UInt64.toNat_inj.mp hzero

theorem eq_of_validate_eq_error {config : Config} {e : ConfigError}
    (h : config.validate = .error e) : e = .noChallenges := by
  unfold validate at h
  split at h
  · exact (Except.error.inj h).symm
  · cases h

/-- A negative count is refused wherever it stands in a JSON object. -/
theorem exists_error_of_negative {fields : List (String × JsonValue)} {key : String} {n : ℤ}
    (hkey : key ∈ ["num_challenges", "num_worker_threads"])
    (hfield : fields.lookup key = some (.integer n)) (hn : n < 0) :
    ∃ e, ofJson (.object fields) = .error e := by
  have hcount : ∀ default, count fields key default = .error (.notCount key) := by
    intro default
    rw [count, hfield]
    exact if_neg (Int.not_le.mpr hn)
  rcases hresult : ofJson (.object fields) with e | config
  · exact ⟨e, rfl⟩
  · simp only [ofJson, Except.bind_eq_ok_iff] at hresult
    obtain ⟨challenges, hchallenges, workers, hworkers, _⟩ := hresult
    simp only [List.mem_cons, List.not_mem_nil, or_false] at hkey
    rcases hkey with rfl | rfl
    · rw [hcount] at hchallenges
      cases hchallenges
    · rw [hcount] at hworkers
      cases hworkers

/-- The answer and the configuration left denote what the variables say: an override succeeds
exactly when both can be read and a challenge is left, each field is then what its variable makes
of it, and a refusal names an unreadable variable with its text or the lack of challenges. -/
structure Denotes (config : Config) (challenges workers : Option String)
    (outcome : Except ConfigError Unit × Config) : Prop where
  accepted_iff : outcome.1 = .ok () ↔
    ¬Unreadable challenges ∧ ¬Unreadable workers ∧ 1 ≤ outcome.2.challenges.toNat
  overrides : outcome.1 = .ok () → Overrides challenges config.challenges outcome.2.challenges ∧
    Overrides workers config.workers outcome.2.workers
  refused : ∀ e, outcome.1 = .error e → e = .noChallenges ∨
    (∃ text, challenges = some text ∧ e = .notNumber challengesVariable text) ∨
      ∃ text, workers = some text ∧ e = .notNumber workersVariable text

variable {config left : Config} {challenges workers : Option String}

theorem denotes_of_unreadable_challenges (h : Unreadable challenges) {text : String}
    (htext : challenges = some text) :
    Denotes config challenges workers (.error (.notNumber challengesVariable text), left) where
  accepted_iff := ⟨nofun, fun haccepted => absurd h haccepted.1⟩
  overrides := nofun
  refused := by
    rintro e ⟨⟩
    exact .inr (.inl ⟨text, htext, rfl⟩)

theorem denotes_of_unreadable_workers (h : Unreadable workers) {text : String}
    (htext : workers = some text) :
    Denotes config challenges workers (.error (.notNumber workersVariable text), left) where
  accepted_iff := ⟨nofun, fun haccepted => absurd h haccepted.2.1⟩
  overrides := nofun
  refused := by
    rintro e ⟨⟩
    exact .inr (.inr ⟨text, htext, rfl⟩)

theorem denotes_of_overrides
    (hchallenges : Overrides challenges config.challenges left.challenges)
    (hworkers : Overrides workers config.workers left.workers) :
    Denotes config challenges workers (left.validate, left) where
  accepted_iff := by
    rw [validate_eq_ok_iff]
    exact ⟨fun hpos => ⟨hchallenges.not_unreadable, hworkers.not_unreadable, hpos⟩,
      fun haccepted => haccepted.2.2⟩
  overrides := fun _ => ⟨hchallenges, hworkers⟩
  refused := fun e he => .inl (eq_of_validate_eq_error he)

/-- An override denotes what its variables say, as far as words hold what they spell, and a
negative count is refused in a JSON object as well. -/
theorem override_denotes_decimal (config : Config) (challenges workers : Option String) :
    Denotes config challenges workers (config.override challenges workers) ∧
    ∀ fields key n, key ∈ ["num_challenges", "num_worker_threads"] →
      fields.lookup key = some (JsonValue.integer n) → n < 0 →
        ∃ e, ofJson (.object fields) = .error e := by
  refine ⟨?_, fun fields key n => exists_error_of_negative⟩
  unfold override
  rcases environmentWord_cases challengesVariable challenges with
    ⟨hunreadable, text, htext, hword⟩ | ⟨word, hword, hchallenges⟩
  · rw [hword]
    exact denotes_of_unreadable_challenges hunreadable htext
  · rw [hword]
    rcases environmentWord_cases workersVariable workers with
      ⟨hunreadable, text, htext, hword'⟩ | ⟨word', hword', hworkers⟩
    · simp only [hword']
      exact denotes_of_unreadable_workers hunreadable htext
    · simp only [hword']
      exact denotes_of_overrides (hchallenges _) (hworkers _)

theorem override_denotes_decimal_signed :
    Denotes standard (some " +3") (some "08") (.ok (), ⟨3, 8⟩) ∧
      ∃ e, ofJson (.object [("num_challenges", .integer (-1))]) = .error e := by
  refine ⟨(override_denotes_decimal standard (some " +3") (some "08")).1, ?_⟩
  exact (override_denotes_decimal standard none none).2 _ "num_challenges" (-1) List.mem_cons_self
    rfl (by decide)

/-- A negative number is taken modulo `2^64`, and a number that no word holds as the greatest
word. -/
theorem override_wraps_and_saturates :
    (standard.override (some "-1") none = (.ok (), ⟨0xFFFFFFFFFFFFFFFF, 0⟩) ∧
      ∃ m : DecimalInteger, m.text = "-1".toList ∧ m.value = -1) ∧
    (standard.override none (some "18446744073709551616") = (.ok (), ⟨2, 0xFFFFFFFFFFFFFFFF⟩) ∧
      ∃ m : DecimalInteger, m.text = "18446744073709551616".toList ∧ m.value = 2 ^ 64) := by
  refine ⟨⟨rfl, ⟨[], .minus, ['1'], nofun, List.all_eq_true.mp rfl, nofun⟩, rfl, rfl⟩, rfl,
    ⟨[], .absent, "18446744073709551616".toList, nofun, List.all_eq_true.mp rfl, ?_⟩, rfl, ?_⟩
  · decide
  · decide

end CrossLookup.Config
