import CrossLookup.Proofs.Field.Residue
import CrossLookup.Proofs.Serial.ByteQueue

/-!
# Interleaved accesses to a byte queue

A queue holds its first bytes and all that was written, and its cursor stands
behind a number of whole words of these. A read that finds a word sees the next
one, whatever was written at its place and whatever the reads before it asked
for; a read that finds none changes nothing and may be repeated later.
-/

namespace CrossLookup

open Nat Goldilocks

/-- What an access answers. -/
abbrev QueueAnswer := Except DecodeError (Option QueueItem)

/-- Whether an answer was read from a word. A write reads none, and no other error than a lack of
bytes leaves the word unread. -/
def QueueAnswer.consumed : QueueAnswer → Bool
  | .ok (some _) => true
  | .ok none => false
  | .error (.tooFewBytes _) => false
  | .error _ => true

/-- The number by which an item is written. -/
def QueueItem.number : QueueItem → ℕ
  | .word w => w.toNat
  | .field a => a.word.toNat
  | .wire w => w.index

/-- What a read of a kind answers to a number that it finds. -/
def QueueKind.answer : QueueKind → ℕ → QueueAnswer
  | .word, n => .ok (some (.word (.ofNat n)))
  | .field, n =>
      if n < modulus then .ok (some (.field (.ofWord (.ofNat n))))
      else .error (.nonCanonical (.ofNat n))
  | .wire, n => .ok (some (.wire ⟨n⟩))

/-- The eight lowest bytes of a number, the lowest first. -/
def littleEndian (n : ℕ) : List UInt8 :=
  (List.range 8).map fun i => .ofNat (n / 256 ^ i)

/-- The number of the word at a place among bytes, the lowest byte first. -/
def wordAt (stream : List UInt8) (k : ℕ) : ℕ :=
  ofDigits 256 (((stream.drop (8 * k)).take 8).map UInt8.toNat)

namespace ByteQueue

theorem wordBytes_eq_littleEndian (w : UInt64) : wordBytes w = littleEndian w.toNat := by
  apply List.map_congr_left
  intro i hi
  apply UInt8.toNat_inj.mp
  rw [UInt8.toNat_ofNat']
  exact SpongeState.toNat_byte w (List.mem_range.mp hi)

/-- Only the lowest 64 bits of a number reach its bytes. -/
theorem littleEndian_mod (n : ℕ) : littleEndian (n % 2 ^ 64) = littleEndian n := by
  apply List.map_congr_left
  intro i hi
  have hlt : i < 8 := List.mem_range.mp hi
  have hsplit : 2 ^ 64 = 256 ^ i * 256 ^ (8 - i) := by
    rw [← pow_add, show i + (8 - i) = 8 by omega]
    norm_num
  have hdvd : 256 ∣ 256 ^ (8 - i) := dvd_pow_self 256 (by omega)
  apply UInt8.toNat_inj.mp
  rw [UInt8.toNat_ofNat', UInt8.toNat_ofNat', hsplit, Nat.mod_mul_right_div_self]
  exact Nat.mod_mod_of_dvd _ hdvd

/-- The queue holds a stream of bytes of which a number of whole words was read. -/
structure Holds (q : ByteQueue) (stream : List UInt8) (words : ℕ) : Prop where
  bytes_eq : q.bytes.toList = stream
  cursor_eq : q.cursor = 8 * words
  cursor_le : 8 * words ≤ stream.length

variable {q : ByteQueue} {stream : List UInt8} {words : ℕ}

theorem holds_ofBytes (bytes : Array UInt8) : (ofBytes bytes).Holds bytes.toList 0 :=
  ⟨rfl, rfl, Nat.zero_le _⟩

theorem Holds.unread_eq (h : q.Holds stream words) : q.unread = stream.drop (8 * words) := by
  rw [unread, h.bytes_eq, h.cursor_eq]

theorem Holds.remaining_eq (h : q.Holds stream words) :
    q.remaining = stream.length - 8 * words := by
  rw [← length_unread, h.unread_eq, List.length_drop]

theorem Holds.appended (h : q.Holds stream words) (bytes : List UInt8) :
    (q.appended bytes).Holds (stream ++ bytes) words := by
  refine ⟨?_, h.cursor_eq, ?_⟩
  · rw [ByteQueue.appended, Array.toList_appendList, h.bytes_eq]
  · rw [List.length_append]
    exact h.cursor_le.trans (Nat.le_add_right _ _)

theorem Holds.afterWord (h : q.Holds stream words) (hfits : 8 * (words + 1) ≤ stream.length) :
    q.afterWord.Holds stream (words + 1) := by
  refine ⟨h.bytes_eq, ?_, hfits⟩
  rw [ByteQueue.afterWord, h.cursor_eq, Nat.mul_succ]

theorem Holds.run_readWord_of_lt (h : q.Holds stream words)
    (hshort : stream.length < 8 * (words + 1)) :
    readWord.run q = (.error (.tooFewBytes (stream.length - 8 * words)), q) := by
  rw [← h.remaining_eq]
  apply ByteQueue.run_readWord_of_lt
  rw [h.remaining_eq]
  omega

theorem Holds.run_readWord_of_le (h : q.Holds stream words)
    (hfits : 8 * (words + 1) ≤ stream.length) :
    ∃ w, readWord.run q = (.ok w, q.afterWord) ∧ w.toNat = wordAt stream words := by
  refine ⟨_, ByteQueue.run_readWord_of_le ?_, ?_⟩
  · rw [h.remaining_eq]
    omega
  · rw [toNat_wordOfBytes, h.unread_eq, wordAt]
    simp

end ByteQueue

namespace QueueAccess

open ByteQueue

variable {q q' : ByteQueue} {stream : List UInt8} {words : ℕ}

theorem append_eq_appended (q : ByteQueue) (item : QueueItem) :
    append q item = q.appended (littleEndian item.number) := by
  cases item with
  | word w => rw [append, writeWord_eq_appended, wordBytes_eq_littleEndian]; rfl
  | field a => rw [append, writeField, writeWord_eq_appended, wordBytes_eq_littleEndian]; rfl
  | wire w =>
      rw [append, writeWire, writeWord_eq_appended, wordBytes_eq_littleEndian, QueueItem.number,
        UInt64.toNat_ofNat', littleEndian_mod]

theorem run_write (q : ByteQueue) (item : QueueItem) :
    (perform (.write item)).run q = (.ok none, q.appended (littleEndian item.number)) := by
  rw [← append_eq_appended]
  rfl

theorem run_read_of_error {e : DecodeError} (kind : QueueKind)
    (h : readWord.run q = (.error e, q')) : (perform (.read kind)).run q = (.error e, q') := by
  cases kind <;> simp only [perform, readItem, readField, readWire, ExceptT.run_bind_state, h]

/-- A read of an element consumes its word whether or not the word is canonical. -/
theorem run_readField_of_ok {w : UInt64} (h : readWord.run q = (.ok w, q')) :
    readField.run q =
      (if w.toNat < modulus then .ok (ofWord w) else .error (.nonCanonical w), q') := by
  by_cases hw : w.toNat < modulus
  · simp only [readField, ExceptT.run_bind_state, h, ofCanonical?_eq, if_pos hw]
    rfl
  · simp only [readField, ExceptT.run_bind_state, h, ofCanonical?_eq, if_neg hw]
    rfl

/-- A read of any kind reads a word and answers by its number. -/
theorem run_read_of_ok {w : UInt64} (kind : QueueKind) (h : readWord.run q = (.ok w, q')) :
    (perform (.read kind)).run q = (kind.answer w.toNat, q') := by
  cases kind with
  | word =>
      simp only [perform, readItem, ExceptT.run_bind_state, h, QueueKind.answer, UInt64.ofNat_toNat]
      rfl
  | wire =>
      simp only [perform, readItem, readWire, ExceptT.run_bind_state, h]
      rfl
  | field =>
      simp only [perform, readItem, ExceptT.run_bind_state, run_readField_of_ok h,
        QueueKind.answer, UInt64.ofNat_toNat]
      by_cases hw : w.toNat < modulus
      · rw [if_pos hw, if_pos hw]
        rfl
      · rw [if_neg hw, if_neg hw]

/-- What a read answers on a stream of which some words were read: the next word if there is one,
else the number of bytes that are left. -/
def readAnswer (stream : List UInt8) (words : ℕ) (kind : QueueKind) : QueueAnswer :=
  if 8 * (words + 1) ≤ stream.length then kind.answer (wordAt stream words)
  else .error (.tooFewBytes (stream.length - 8 * words))

/-- A read answers the next word and moves behind it, or leaves the queue as it was. -/
theorem run_read (h : q.Holds stream words) (kind : QueueKind) :
    (perform (.read kind)).run q = (readAnswer stream words kind,
      if 8 * (words + 1) ≤ stream.length then q.afterWord else q) := by
  unfold readAnswer
  split
  · next hfits =>
    obtain ⟨w, hrun, hw⟩ := h.run_readWord_of_le hfits
    rw [run_read_of_ok kind hrun, hw]
  · next hshort =>
    exact run_read_of_error kind (h.run_readWord_of_lt (Nat.lt_of_not_le hshort))

theorem consumed_answer (kind : QueueKind) (n : ℕ) : (kind.answer n).consumed = true := by
  cases kind with
  | word => rfl
  | wire => rfl
  | field =>
      by_cases hn : n < modulus
      · rw [QueueKind.answer, if_pos hn]
        rfl
      · rw [QueueKind.answer, if_neg hn]
        rfl

/-- A read counts as one that consumed a word exactly when it found one. -/
theorem consumed_readAnswer (stream : List UInt8) (words : ℕ) (kind : QueueKind) :
    (readAnswer stream words kind).consumed = decide (8 * (words + 1) ≤ stream.length) := by
  by_cases hfits : 8 * (words + 1) ≤ stream.length
  · rw [readAnswer, if_pos hfits, consumed_answer, decide_eq_true hfits]
  · rw [readAnswer, if_neg hfits, decide_eq_false hfits]
    rfl

/-- The bytes that an access writes. -/
def bytesWritten : QueueAccess → List UInt8
  | .write item => littleEndian item.number
  | .read _ => []

/-- The bytes that accesses write, in order. -/
def written (accesses : List QueueAccess) : List UInt8 :=
  accesses.flatMap bytesWritten

/-- One access keeps the cursor at a word of the stream and never behind its end. -/
theorem holds_perform (h : q.Holds stream words) (access : QueueAccess) :
    (access.perform.run q).2.Holds (stream ++ access.bytesWritten)
      (words + if QueueAnswer.consumed (access.perform.run q).1 then 1 else 0) := by
  cases access with
  | write item =>
      rw [run_write]
      exact h.appended _
  | read kind =>
      rw [run_read h, consumed_readAnswer, bytesWritten, List.append_nil]
      by_cases hfits : 8 * (words + 1) ≤ stream.length
      · simpa [hfits] using h.afterWord hfits
      · simpa [hfits] using h

/-- Perform accesses in order, each on the queue that the one before left, also when that one
failed. -/
def performAll (q : ByteQueue) : List QueueAccess → List QueueAnswer × ByteQueue
  | [] => ([], q)
  | access :: rest =>
      let (answer, q) := access.perform.run q
      let (answers, q) := performAll q rest
      (answer :: answers, q)

theorem performAll_cons (q : ByteQueue) (access : QueueAccess) (rest : List QueueAccess) :
    performAll q (access :: rest) =
      ((access.perform.run q).1 :: (performAll (access.perform.run q).2 rest).1,
        (performAll (access.perform.run q).2 rest).2) :=
  rfl

theorem performAll_append (q : ByteQueue) (before after : List QueueAccess) :
    performAll q (before ++ after) =
      ((performAll q before).1 ++ (performAll (performAll q before).2 after).1,
        (performAll (performAll q before).2 after).2) := by
  induction before generalizing q with
  | nil => rfl
  | cons access rest ih =>
      rw [List.cons_append, performAll_cons, performAll_cons, ih]
      rfl

theorem length_performAll (q : ByteQueue) (accesses : List QueueAccess) :
    (performAll q accesses).1.length = accesses.length := by
  induction accesses generalizing q with
  | nil => rfl
  | cons access rest ih => simp [performAll_cons, ih]

/-- A run keeps the cursor at a word of the stream: the words that it consumed are behind it. -/
theorem holds_performAll (h : q.Holds stream words) (accesses : List QueueAccess) :
    (performAll q accesses).2.Holds (stream ++ written accesses)
      (words + (performAll q accesses).1.countP QueueAnswer.consumed) := by
  induction accesses generalizing q stream words with
  | nil => simpa [performAll, written] using h
  | cons access rest ih =>
      have hrest := ih (holds_perform h access)
      rw [List.append_assoc, Nat.add_assoc] at hrest
      rw [performAll_cons, List.countP_cons, written, List.flatMap_cons,
        Nat.add_comm (List.countP _ _)]
      exact hrest

/-- After any accesses to a queue of any bytes, the queue holds these bytes and all that was
written, the cursor is behind as many words as reads consumed, and the next read sees the word
there or finds too few bytes and changes nothing. -/
theorem performAll_reads_words (bytes : Array UInt8) (before after : List QueueAccess)
    (kind : QueueKind) :
    let stream := bytes.toList ++ written before
    let run := performAll (.ofBytes bytes) before
    let words := run.1.countP QueueAnswer.consumed
    run.2.Holds stream words ∧ run.2.remaining = stream.length - 8 * words ∧
    (performAll (.ofBytes bytes) (before ++ .read kind :: after)).1[before.length]? =
      some (readAnswer stream words kind) ∧
    (performAll (.ofBytes bytes) (before ++ [.read kind])).2 =
      if 8 * (words + 1) ≤ stream.length then run.2.afterWord else run.2 := by
  intro stream run words
  have hholds : run.2.Holds stream words := by
    have hrun := holds_performAll (holds_ofBytes bytes) before
    rwa [Nat.zero_add] at hrun
  refine ⟨hholds, hholds.remaining_eq, ?_, ?_⟩
  · rw [performAll_append, performAll_cons, List.getElem?_append_right (length_performAll _ _).le,
      length_performAll, Nat.sub_self, List.getElem?_cons_zero, run_read hholds]
  · rw [performAll_append, performAll_cons, run_read hholds]
    rfl

example :
    (performAll (.ofBytes #[7, 0, 0])
      [.read .field, .write (.word 0x0100000000000000), .read .field, .read .word]).1 =
      [.error (.tooFewBytes 3), .ok none, .ok (some (.field (.ofWord 7))),
        .error (.tooFewBytes 3)] := by
  rfl

end QueueAccess

end CrossLookup
