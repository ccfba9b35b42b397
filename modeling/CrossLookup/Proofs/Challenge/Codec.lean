import CrossLookup.Challenge.Codec
import CrossLookup.Proofs.Serial.ByteQueue

/-!
# The format of serialized challenge sets

A set is written as its size and its values, one word each, and reading accepts
exactly such bytes: what is written is read back to the last byte, and whatever
is accepted would be written in the same way. Every other string of bytes is
refused.
-/

namespace CrossLookup

open ByteQueue

variable {α : Type} [WordCoded α] {word : α → UInt64} {inWord : α → Prop}

/-- Values are written as one word, from which those that fit a word are read back. -/
structure WordCoded.Faithful (α : Type) [WordCoded α] (word : α → UInt64) (inWord : α → Prop) :
    Prop where
  write_eq : ∀ (q : ByteQueue) (a : α), WordCoded.write q a = q.writeWord (word a)
  inverts : (WordCoded.read : Reader α).Inverts (fun a => wordBytes (word a)) inWord

theorem WordCoded.faithful_goldilocks : Faithful Goldilocks Goldilocks.word fun _ => True :=
  ⟨fun _ _ => rfl, inverts_readField⟩

theorem WordCoded.faithful_wire :
    Faithful Wire (fun wire => .ofNat wire.index) fun wire => wire.index < UInt64.size :=
  ⟨fun _ _ => rfl, inverts_readWire⟩

namespace ChallengeSet

/-- The bytes of the values of challenges. -/
def valueBytes (word : α → UInt64) (set : ChallengeSet α) : List UInt8 :=
  set.flatMap fun challenge => wordBytes (word challenge.beta) ++ wordBytes (word challenge.gamma)

/-- The bytes of a set: its size, then its values. -/
def setBytes (word : α → UInt64) (set : ChallengeSet α) : List UInt8 :=
  wordBytes (.ofNat set.length) ++ valueBytes word set

/-- The values of all challenges fit words. -/
def ValuesFit (inWord : α → Prop) (set : ChallengeSet α) : Prop :=
  ∀ challenge ∈ set, inWord challenge.beta ∧ inWord challenge.gamma

omit [WordCoded α] in
theorem length_valueBytes (word : α → UInt64) (set : ChallengeSet α) :
    (valueBytes word set).length = 16 * set.length := by
  induction set with
  | nil => rfl
  | cons challenge rest ih =>
      rw [valueBytes, List.flatMap_cons, List.length_append, ← valueBytes, ih, List.length_append,
        length_wordBytes, length_wordBytes, List.length_cons]
      omega

/-- Writing a set appends its bytes to the queue. -/
theorem writeTo_eq_appended (hcoded : WordCoded.Faithful α word inWord) (set : ChallengeSet α)
    (q : ByteQueue) : set.writeTo q = q.appended (setBytes word set) := by
  have hvalues : ∀ q : ByteQueue, set.foldl (fun q challenge =>
      WordCoded.write (WordCoded.write q challenge.beta) challenge.gamma) q =
        q.appended (valueBytes word set) := by
    induction set with
    | nil => exact fun q => q.appended_nil.symm
    | cons challenge rest ih =>
        intro q
        rw [List.foldl_cons, ih, hcoded.write_eq, hcoded.write_eq, writeWord_eq_appended,
          writeWord_eq_appended, appended_appended, appended_appended]
        rfl
  rw [writeTo, hvalues, writeWord_eq_appended, appended_appended, setBytes]

/-- A number of challenges is read back from their values alone. -/
theorem inverts_readMany (hcoded : WordCoded.Faithful α word inWord) (n : Nat) :
    (readMany n : Reader (ChallengeSet α)).Inverts (valueBytes word)
      fun set => set.length = n ∧ ValuesFit inWord set := by
  induction n with
  | zero =>
      constructor
      case reads =>
        rintro set q rest ⟨hlength, _⟩ hunread
        rw [List.eq_nil_of_length_eq_zero hlength] at hunread ⊢
        exact ⟨q, rfl, hunread⟩
      case accepts =>
        intro set q q' hrun
        cases hrun
        exact ⟨⟨rfl, List.forall_mem_nil _⟩, rfl⟩
  | succ n ih =>
      constructor
      case reads =>
        rintro set q rest ⟨hlength, hfit⟩ hunread
        obtain ⟨challenge, others, rfl⟩ := List.exists_cons_of_length_eq_add_one hlength
        obtain ⟨⟨hbeta, hgamma⟩, hothers⟩ := List.forall_mem_cons.mp hfit
        rw [valueBytes, List.flatMap_cons, ← valueBytes, List.append_assoc, List.append_assoc]
          at hunread
        obtain ⟨q₁, hrun₁, hunread₁⟩ := hcoded.inverts.reads _ q _ hbeta hunread
        obtain ⟨q₂, hrun₂, hunread₂⟩ := hcoded.inverts.reads _ q₁ _ hgamma hunread₁
        obtain ⟨q₃, hrun₃, hunread₃⟩ :=
          ih.reads others q₂ rest ⟨Nat.succ.inj hlength, hothers⟩ hunread₂
        refine ⟨q₃, ?_, hunread₃⟩
        simp only [readMany, ExceptT.run_bind_state_eq_ok_iff]
        exact ⟨_, q₁, hrun₁, _, q₂, hrun₂, _, q₃, hrun₃, rfl⟩
      case accepts =>
        intro set q q' hrun
        simp only [readMany, ExceptT.run_bind_state_eq_ok_iff] at hrun
        obtain ⟨beta, q₁, hrun₁, gamma, q₂, hrun₂, others, q₃, hrun₃, hset⟩ := hrun
        cases hset
        obtain ⟨hbeta, hunread⟩ := hcoded.inverts.accepts beta q q₁ hrun₁
        obtain ⟨hgamma, hunread₁⟩ := hcoded.inverts.accepts gamma q₁ q₂ hrun₂
        obtain ⟨⟨hlength, hothers⟩, hunread₂⟩ := ih.accepts others q₂ q' hrun₃
        refine ⟨⟨congrArg Nat.succ hlength, ?_⟩, ?_⟩
        · exact List.forall_mem_cons.mpr ⟨⟨hbeta, hgamma⟩, hothers⟩
        · rw [hunread, hunread₁, hunread₂, valueBytes, valueBytes, List.flatMap_cons]
          simp only [List.append_assoc]

/-- A set is read from its bytes, of which the first word declares how many others there are. -/
theorem read_of_unread (hcoded : WordCoded.Faithful α word inWord) {set : ChallengeSet α}
    {q : ByteQueue} (hlength : set.length < UInt64.size) (hfit : ValuesFit inWord set)
    (hunread : q.unread = setBytes word set) :
    ∃ q', read.run q = (.ok set, q') ∧ q'.unread = [] := by
  obtain ⟨q₁, hcount, hvalues⟩ := inverts_readWord.reads _ q _ trivial hunread
  have hremaining : q₁.remaining = 16 * set.length := by
    rw [← length_unread, hvalues, length_valueBytes]
  obtain ⟨q', hread, hrest⟩ := (inverts_readMany hcoded set.length).reads set q₁ [] ⟨rfl, hfit⟩
    (hvalues.trans (List.append_nil _).symm)
  refine ⟨q', ?_, hrest⟩
  simp only [read, ExceptT.run_bind_state_eq_ok_iff]
  refine ⟨_, q₁, hcount, q₁, q₁, rfl, ?_⟩
  rw [UInt64.toNat_ofNat_of_lt' hlength, hremaining, if_neg (by omega)]
  exact hread

/-- Only the bytes of a set are read as the set. -/
theorem unread_of_read (hcoded : WordCoded.Faithful α word inWord) {set : ChallengeSet α}
    {q q' : ByteQueue} (hread : read.run q = (.ok set, q')) :
    set.length < UInt64.size ∧ ValuesFit inWord set ∧ q.unread = setBytes word set := by
  simp only [read, ExceptT.run_bind_state_eq_ok_iff] at hread
  obtain ⟨count, q₁, hcount, _, _, hget, hread⟩ := hread
  cases hget
  by_cases hsize : q₁.remaining % 16 ≠ 0 ∨ q₁.remaining / 16 ≠ count.toNat
  · rw [if_pos hsize] at hread
    cases hread
  · rw [if_neg hsize] at hread
    obtain ⟨_, hunread⟩ := inverts_readWord.accepts count q q₁ hcount
    obtain ⟨⟨hlength, hfit⟩, hvalues⟩ :=
      (inverts_readMany hcoded count.toNat).accepts set q₁ q' hread
    -- The values account for all remaining bytes, so nothing is left after them.
    have hrest : q'.unread = [] := by
      apply List.eq_nil_of_length_eq_zero
      have htotal := congrArg List.length hvalues
      rw [List.length_append, length_valueBytes, length_unread, hlength] at htotal
      omega
    rw [hrest, List.append_nil] at hvalues
    refine ⟨hlength ▸ count.toNat_lt, hfit, ?_⟩
    rw [hunread, hvalues, setBytes, hlength, UInt64.ofNat_toNat]

omit [WordCoded α] in
/-- The size in front tells a set from every other whose bytes begin alike. -/
theorem setBytes_eq_of_isPrefix {set set' : ChallengeSet α} (hlength : set.length < UInt64.size)
    (hlength' : set'.length < UInt64.size) (h : setBytes word set <+: setBytes word set') :
    setBytes word set = setBytes word set' := by
  apply h.eq_of_length
  have hcounts : wordBytes (.ofNat set.length) = wordBytes (.ofNat set'.length) := by
    have htake := List.prefix_iff_eq_take.mp h
    have hfirst := congrArg (List.take 8) htake
    rw [List.take_take, setBytes, setBytes, List.take_left' (length_wordBytes _)] at hfirst
    rw [hfirst, Nat.min_eq_left (by simp), List.take_left' (length_wordBytes _)]
  have hsizes := congrArg wordOfBytes hcounts
  rw [wordOfBytes_wordBytes, wordOfBytes_wordBytes, ← UInt64.toNat_inj,
    UInt64.toNat_ofNat_of_lt' hlength, UInt64.toNat_ofNat_of_lt' hlength'] at hsizes
  rw [setBytes, setBytes, List.length_append, List.length_append, length_wordBytes,
    length_wordBytes, length_valueBytes, length_valueBytes, hsizes]

/-- Reading accepts exactly the bytes that are written of storable sets. -/
structure ExactFormat (α : Type) [WordCoded α] (storable : ChallengeSet α → Prop) : Prop where
  /-- What is written of a set is read back to it, and no byte is left. -/
  read_written : ∀ (set : ChallengeSet α) (q : ByteQueue), storable set →
    q.unread = (set.writeTo (.ofBytes #[])).unread →
      ∃ q', read.run q = (.ok set, q') ∧ q'.unread = []
  /-- What is read as a set is what is written of it. -/
  written_read : ∀ (set : ChallengeSet α) (q q' : ByteQueue), read.run q = (.ok set, q') →
    storable set ∧ (set.writeTo (.ofBytes #[])).unread = q.unread
  /-- Any other bytes are refused. -/
  refused : ∀ q : ByteQueue,
    (∀ set : ChallengeSet α, storable set → (set.writeTo (.ofBytes #[])).unread ≠ q.unread) →
      ∃ e q', (read : Reader (ChallengeSet α)).run q = (.error e, q')
  /-- No set is written as a truncation or an extension of another. -/
  prefix_free : ∀ set set' : ChallengeSet α, storable set → storable set' →
    (set.writeTo (.ofBytes #[])).unread <+: (set'.writeTo (.ofBytes #[])).unread → set = set'

theorem exactFormat_of_faithful (hcoded : WordCoded.Faithful α word inWord) :
    ExactFormat α fun set => set.length < UInt64.size ∧ ValuesFit inWord set := by
  have hwritten : ∀ set : ChallengeSet α,
      (set.writeTo (.ofBytes #[])).unread = setBytes word set := by
    intro set
    rw [writeTo_eq_appended hcoded, unread_appended_ofBytes]
  have hread : ∀ (set : ChallengeSet α) (q : ByteQueue),
      set.length < UInt64.size ∧ ValuesFit inWord set →
      q.unread = (set.writeTo (.ofBytes #[])).unread →
        ∃ q', read.run q = (.ok set, q') ∧ q'.unread = [] := by
    rintro set q ⟨hlength, hfit⟩ hunread
    exact read_of_unread hcoded hlength hfit (hunread.trans (hwritten set))
  have haccepted : ∀ (set : ChallengeSet α) (q q' : ByteQueue), read.run q = (.ok set, q') →
      (set.length < UInt64.size ∧ ValuesFit inWord set) ∧
        (set.writeTo (.ofBytes #[])).unread = q.unread := by
    intro set q q' hread
    obtain ⟨hlength, hfit, hunread⟩ := unread_of_read hcoded hread
    exact ⟨⟨hlength, hfit⟩, (hwritten set).trans hunread.symm⟩
  constructor
  case read_written => exact hread
  case written_read => exact haccepted
  case refused =>
    intro q hother
    rcases hresult : (read : Reader (ChallengeSet α)).run q with ⟨e | set, q'⟩
    · exact ⟨e, q', rfl⟩
    · obtain ⟨hstorable, hunread⟩ := haccepted set q q' hresult
      exact absurd hunread (hother set hstorable)
  case prefix_free =>
    intro set set' hstorable hstorable' hstart
    have hunread : (set.writeTo (.ofBytes #[])).unread = (set'.writeTo (.ofBytes #[])).unread := by
      rw [hwritten, hwritten] at hstart ⊢
      exact setBytes_eq_of_isPrefix hstorable.1 hstorable'.1 hstart
    obtain ⟨_, hset, _⟩ := hread set _ hstorable hunread.symm
    obtain ⟨_, hset', _⟩ := hread set' _ hstorable' rfl
    rw [hset] at hset'
    cases hset'
    rfl

/-- Sets of field elements are serialized exactly, and sets of wires whose numbers fit words. -/
theorem exactFormat_elements_and_wires :
    ExactFormat Goldilocks (fun set => set.length < UInt64.size) ∧
    ExactFormat Wire (fun set => set.length < UInt64.size ∧
      ∀ challenge ∈ set, challenge.beta.index < UInt64.size ∧
        challenge.gamma.index < UInt64.size) := by
  constructor
  · have hformat := exactFormat_of_faithful WordCoded.faithful_goldilocks
    simpa only [ValuesFit, and_self, implies_true, and_true] using hformat
  · exact exactFormat_of_faithful WordCoded.faithful_wire

end ChallengeSet

end CrossLookup
