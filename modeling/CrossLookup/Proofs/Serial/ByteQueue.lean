import CrossLookup.Proofs.Sponge.Substitution
import CrossLookup.Proofs.Traversal
import CrossLookup.Serial.ByteQueue

/-!
# Words in byte queues

A word and its eight bytes determine each other, lowest byte first. A reader is
compared with what is written for the values it returns: it must read every
admissible value back and accept no other bytes.
-/

namespace CrossLookup

variable {α : Type}

namespace ByteQueue

open SpongeState Nat

section Words

theorem map_toNat_wordBytes (w : UInt64) : (wordBytes w).map UInt8.toNat = digits id w 8 :=
  List.map_map

@[simp] theorem length_wordBytes (w : UInt64) : (wordBytes w).length = 8 :=
  List.length_map _

theorem ofDigits_map_toNat_lt (bytes : List UInt8) :
    ofDigits 256 (bytes.map UInt8.toNat) < 256 ^ bytes.length := by
  have hlt : ∀ digit ∈ bytes.map UInt8.toNat, digit < 256 :=
    List.forall_mem_map.mpr fun byte _ => byte.toNat_lt
  rw [← List.length_map UInt8.toNat]
  exact ofDigits_lt_base_pow_length (by decide) hlt

/-- Eight bytes are read as the digits of a word. -/
theorem toNat_wordOfBytes {bytes : List UInt8} (h : bytes.length ≤ 8) :
    (wordOfBytes bytes).toNat = ofDigits 256 (bytes.map UInt8.toNat) := by
  induction bytes with
  | nil => rfl
  | cons byte rest ih =>
      have hrest : (wordOfBytes rest).toNat = ofDigits 256 (rest.map UInt8.toNat) :=
        ih (Nat.le_of_succ_le h)
      have hlt : (wordOfBytes rest).toNat < 2 ^ 56 := by
        calc
          (wordOfBytes rest).toNat = ofDigits 256 (rest.map UInt8.toNat) := hrest
          _ < 256 ^ rest.length := ofDigits_map_toNat_lt rest
          _ ≤ 256 ^ 7 := Nat.pow_le_pow_right (by decide) (Nat.le_of_succ_le_succ h)
          _ = 2 ^ 56 := by norm_num
      have hshift : (wordOfBytes rest <<< 8).toNat = 2 ^ 8 * (wordOfBytes rest).toNat := by
        rw [UInt64.toNat_shiftLeft, Nat.shiftLeft_eq, Nat.mul_comm]
        exact Nat.mod_eq_of_lt (Nat.mul_lt_mul_of_pos_left hlt (by decide))
      change (byte.toUInt64 ||| (wordOfBytes rest <<< 8)).toNat = _
      rw [UInt64.toNat_or, UInt8.toNat_toUInt64, hshift, Nat.or_comm,
        ← Nat.two_pow_add_eq_or_of_lt byte.toNat_lt, List.map_cons, ofDigits_cons, hrest,
        Nat.add_comm]

@[simp] theorem wordOfBytes_wordBytes (w : UInt64) : wordOfBytes (wordBytes w) = w := by
  apply UInt64.toNat_inj.mp
  rw [toNat_wordOfBytes (length_wordBytes w).le, map_toNat_wordBytes]
  exact (toNat_eq_ofDigits w).symm

theorem wordBytes_wordOfBytes {bytes : List UInt8} (h : bytes.length = 8) :
    wordBytes (wordOfBytes bytes) = bytes := by
  apply (List.map_injective_iff.mpr fun _ _ => UInt8.toNat_inj.mp : Function.Injective _)
  apply ofDigits_inj_of_len_eq (b := 256) (by decide)
  · rw [List.length_map, List.length_map, length_wordBytes, h]
  · exact List.forall_mem_map.mpr fun byte _ => byte.toNat_lt
  · exact List.forall_mem_map.mpr fun byte _ => byte.toNat_lt
  · rw [map_toNat_wordBytes, ← toNat_eq_ofDigits, toNat_wordOfBytes h.le]

end Words

/-- The bytes after the cursor. -/
def unread (q : ByteQueue) : List UInt8 :=
  q.bytes.toList.drop q.cursor

theorem length_unread (q : ByteQueue) : q.unread.length = q.remaining := by
  rw [unread, List.length_drop, Array.length_toList]
  rfl

@[simp] theorem unread_ofBytes (bytes : Array UInt8) : (ofBytes bytes).unread = bytes.toList :=
  rfl

/-- The queue with some bytes appended. -/
def appended (q : ByteQueue) (bytes : List UInt8) : ByteQueue :=
  { q with bytes := q.bytes ++ bytes }

theorem writeWord_eq_appended (q : ByteQueue) (w : UInt64) :
    q.writeWord w = q.appended (wordBytes w) :=
  rfl

theorem appended_nil (q : ByteQueue) : q.appended [] = q :=
  rfl

theorem appended_appended (q : ByteQueue) (front back : List UInt8) :
    (q.appended front).appended back = q.appended (front ++ back) := by
  rw [appended, appended, appended, mk.injEq]
  refine ⟨?_, rfl⟩
  apply Array.toList_inj.mp
  rw [Array.toList_appendList, Array.toList_appendList, Array.toList_appendList,
    List.append_assoc]

theorem unread_appended_ofBytes (bytes : List UInt8) :
    ((ofBytes #[]).appended bytes).unread = bytes := by
  rw [unread, appended, Array.toList_appendList]
  rfl

theorem run_readWord_of_lt {q : ByteQueue} (h : q.remaining < 8) :
    readWord.run q = (.error (.tooFewBytes q.remaining), q) := by
  change (if q.remaining < 8 then _ else _ : Reader UInt64) q = _
  rw [if_pos h]
  rfl

/-- The queue after a word was read. -/
def afterWord (q : ByteQueue) : ByteQueue :=
  { q with cursor := q.cursor + 8 }

theorem unread_afterWord (q : ByteQueue) : q.afterWord.unread = q.unread.drop 8 :=
  List.drop_drop.symm

theorem run_readWord_of_le {q : ByteQueue} (h : 8 ≤ q.remaining) :
    readWord.run q = (.ok (wordOfBytes (q.unread.take 8)), q.afterWord) := by
  have hbytes : (q.bytes.extract q.cursor (q.cursor + 8)).toList = q.unread.take 8 := by
    rw [Array.toList_extract, List.extract_eq_take_drop, Nat.add_sub_cancel_left, unread]
  rw [← hbytes]
  change (if q.remaining < 8 then _ else _ : Reader UInt64) q = _
  rw [if_neg (Nat.not_lt.mpr h)]
  rfl

end ByteQueue

/-- A reader gives back every admissible value from what is written for it, with any bytes
after, and accepts only what is written for an admissible value. -/
structure Reader.Inverts (reader : Reader α) (written : α → List UInt8) (admissible : α → Prop) :
    Prop where
  reads : ∀ (a : α) (q : ByteQueue) (rest : List UInt8), admissible a →
    q.unread = written a ++ rest → ∃ q', reader.run q = (.ok a, q') ∧ q'.unread = rest
  accepts : ∀ (a : α) (q q' : ByteQueue), reader.run q = (.ok a, q') →
    admissible a ∧ q.unread = written a ++ q'.unread

namespace ByteQueue

theorem inverts_readWord : readWord.Inverts wordBytes fun _ => True where
  reads := by
    intro w q rest _ hunread
    have hle : 8 ≤ q.remaining := by
      rw [← length_unread, hunread, List.length_append, length_wordBytes]
      exact Nat.le_add_right 8 _
    have hrun := run_readWord_of_le hle
    rw [hunread, List.take_left' (length_wordBytes w), wordOfBytes_wordBytes] at hrun
    refine ⟨q.afterWord, hrun, ?_⟩
    rw [unread_afterWord, hunread, List.drop_left' (length_wordBytes w)]
  accepts := by
    intro w q q' hrun
    refine ⟨trivial, ?_⟩
    rcases Nat.lt_or_ge q.remaining 8 with hlt | hle
    · rw [run_readWord_of_lt hlt] at hrun
      cases hrun
    · rw [run_readWord_of_le hle] at hrun
      cases hrun
      have hlength : (q.unread.take 8).length = 8 := by
        rw [List.length_take, length_unread]
        exact Nat.min_eq_left hle
      rw [wordBytes_wordOfBytes hlength, unread_afterWord, List.take_append_drop]

/-- A canonical word is read as its element and any other is refused. -/
theorem inverts_readField : readField.Inverts (fun a => wordBytes a.word) fun _ => True where
  reads := by
    intro a q rest _ hunread
    obtain ⟨q', hrun, hrest⟩ := inverts_readWord.reads a.word q rest trivial hunread
    refine ⟨q', ?_, hrest⟩
    rw [readField, ExceptT.run_bind_state_eq_ok_iff]
    refine ⟨a.word, q', hrun, ?_⟩
    rw [Goldilocks.ofCanonical?, dif_pos a.canonical]
    rfl
  accepts := by
    intro a q q' hrun
    rw [readField, ExceptT.run_bind_state_eq_ok_iff] at hrun
    obtain ⟨w, q₁, hword, hrun⟩ := hrun
    rw [Goldilocks.ofCanonical?] at hrun
    by_cases hw : w < Goldilocks.order
    · rw [dif_pos hw] at hrun
      cases hrun
      exact inverts_readWord.accepts w q q' hword
    · rw [dif_neg hw] at hrun
      cases hrun

/-- A wire is read back when its number fits a word. -/
theorem inverts_readWire : readWire.Inverts (fun wire => wordBytes (.ofNat wire.index))
    fun wire => wire.index < UInt64.size where
  reads := by
    intro wire q rest hwire hunread
    obtain ⟨q', hrun, hrest⟩ := inverts_readWord.reads (.ofNat wire.index) q rest trivial hunread
    refine ⟨q', ?_, hrest⟩
    rw [readWire, ExceptT.run_bind_state_eq_ok_iff]
    refine ⟨.ofNat wire.index, q', hrun, ?_⟩
    rw [UInt64.toNat_ofNat_of_lt' hwire]
    rfl
  accepts := by
    intro wire q q' hrun
    rw [readWire, ExceptT.run_bind_state_eq_ok_iff] at hrun
    obtain ⟨w, q₁, hword, hrun⟩ := hrun
    cases hrun
    refine ⟨w.toNat_lt, ?_⟩
    rw [UInt64.ofNat_toNat]
    exact (inverts_readWord.accepts w q q' hword).2

end ByteQueue

end CrossLookup
