import CrossLookup.Circuit.Wire
import CrossLookup.Field.Goldilocks

/-!
# Byte queues

Bytes with a read cursor. Words are eight bytes, the lowest first; a field
element is its canonical word and a wire its number. A read that finds too few
bytes changes nothing, and a read of a non-canonical element consumes its word.
-/

namespace CrossLookup

/-- A reason to refuse serialized data. -/
inductive DecodeError
  /-- A word is wanted and fewer than eight bytes remain. -/
  | tooFewBytes (remaining : Nat)
  /-- The word of a field element is not below the order. -/
  | nonCanonical (word : UInt64)
  /-- A set is declared with a size that its bytes do not have. -/
  | setBytes (declared remaining : Nat)
  /-- A sequence of elements lacks its count. -/
  | missingCount
  /-- A set is declared with a size that its elements do not have. -/
  | setElements (declared elements : Nat)
deriving DecidableEq, Repr

/-- The wording of a refusal. -/
def DecodeError.message : DecodeError → String
  | .tooFewBytes remaining =>
      "Buffer: need 8 bytes, " ++ toString remaining ++ " remaining"
  | .nonCanonical word =>
      "Buffer: non-canonical field element: " ++ toString word.toNat
  | .setBytes declared remaining =>
      "GrandProductChallengeSet: declared " ++ toString declared ++ " challenges, " ++
        toString remaining ++ " bytes remaining"
  | .missingCount =>
      "GrandProductChallengeSet: missing length prefix"
  | .setElements declared elements =>
      "GrandProductChallengeSet: declared " ++ toString declared ++
        " challenges, sequence holds " ++ toString elements ++ " elements"

/-- Bytes of which those before the cursor were read. -/
structure ByteQueue where
  bytes : Array UInt8
  cursor : Nat
deriving DecidableEq

/-- A computation that reads from a byte queue and may refuse its data. -/
abbrev Reader := ExceptT DecodeError (StateM ByteQueue)

namespace ByteQueue

/-- A queue of which nothing was read. -/
def ofBytes (bytes : Array UInt8) : ByteQueue :=
  ⟨bytes, 0⟩

/-- The number of unread bytes. -/
def remaining (q : ByteQueue) : Nat :=
  q.bytes.size - q.cursor

/-- The eight bytes of a word, the lowest first. -/
def wordBytes (w : UInt64) : List UInt8 :=
  (List.range 8).map fun i => (w >>> (8 * i).toUInt64).toUInt8

/-- The word of eight bytes, the lowest first. -/
def wordOfBytes (bytes : List UInt8) : UInt64 :=
  bytes.foldr (fun byte acc => byte.toUInt64 ||| (acc <<< 8)) 0

/-- Append a word. -/
def writeWord (q : ByteQueue) (w : UInt64) : ByteQueue :=
  { q with bytes := q.bytes ++ wordBytes w }

/-- Append an element as its canonical word. -/
def writeField (q : ByteQueue) (a : Goldilocks) : ByteQueue :=
  q.writeWord a.word

/-- Append a wire as its number. -/
def writeWire (q : ByteQueue) (w : Wire) : ByteQueue :=
  q.writeWord (.ofNat w.index)

/-- Read a word. -/
def readWord : Reader UInt64 := do
  let q ← get
  if q.remaining < 8 then
    throw (.tooFewBytes q.remaining)
  set { q with cursor := q.cursor + 8 }
  return wordOfBytes (q.bytes.extract q.cursor (q.cursor + 8)).toList

/-- Read an element. -/
def readField : Reader Goldilocks := do
  let w ← readWord
  match Goldilocks.ofCanonical? w with
  | some a => return a
  | none => throw (.nonCanonical w)

/-- Read a wire. -/
def readWire : Reader Wire := do
  return ⟨(← readWord).toNat⟩

end ByteQueue

/-- What a queue can hold. -/
inductive QueueItem
  | word (w : UInt64)
  | field (a : Goldilocks)
  | wire (w : Wire)
deriving DecidableEq

/-- What a read asks for. -/
inductive QueueKind
  | word
  | field
  | wire
deriving DecidableEq, Repr

/-- One access to a byte queue. -/
inductive QueueAccess
  | write (item : QueueItem)
  | read (kind : QueueKind)
deriving DecidableEq

namespace QueueAccess

/-- Append an item. -/
def append (q : ByteQueue) : QueueItem → ByteQueue
  | .word w => q.writeWord w
  | .field a => q.writeField a
  | .wire w => q.writeWire w

/-- Read an item of a kind. -/
def readItem : QueueKind → Reader QueueItem
  | .word => return .word (← ByteQueue.readWord)
  | .field => return .field (← ByteQueue.readField)
  | .wire => return .wire (← ByteQueue.readWire)

/-- Perform an access; only a read has a result. -/
def perform : QueueAccess → Reader (Option QueueItem)
  | .write item => do
      modify (append · item)
      return none
  | .read kind => return some (← readItem kind)

end QueueAccess

end CrossLookup
