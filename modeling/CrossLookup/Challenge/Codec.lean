import CrossLookup.Challenge.Basic
import CrossLookup.Serial.ByteQueue

/-!
# Serialized challenge sets

A set is written as its size, then `beta` and `gamma` of every challenge, either
as field elements or as eight-byte words. Reading accepts only data that holds
exactly the declared number of challenges.
-/

namespace CrossLookup

/-- Values that are written as one word. -/
class WordCoded (α : Type) where
  write : ByteQueue → α → ByteQueue
  read : Reader α

instance : WordCoded Goldilocks where
  write := ByteQueue.writeField
  read := ByteQueue.readField

instance : WordCoded Wire where
  write := ByteQueue.writeWire
  read := ByteQueue.readWire

namespace ChallengeSet

/-- The size of a set, then its values, as field elements. -/
def encode (set : ChallengeSet Goldilocks) : List Goldilocks :=
  .ofWord (.ofNat set.length) :: set.flatMap fun c => [c.beta, c.gamma]

/-- Group values by two. -/
def pairs : List Goldilocks → ChallengeSet Goldilocks
  | beta :: gamma :: rest => ⟨beta, gamma⟩ :: pairs rest
  | _ => []

/-- Read a set from field elements. -/
def decode : List Goldilocks → Except DecodeError (ChallengeSet Goldilocks)
  | [] => .error .missingCount
  | count :: values =>
      if values.length % 2 ≠ 0 ∨ count.word.toNat ≠ values.length / 2 then
        .error (.setElements count.word.toNat values.length)
      else
        .ok (pairs values)

variable {α : Type} [WordCoded α]

/-- Append a set to a byte queue. -/
def writeTo (set : ChallengeSet α) (q : ByteQueue) : ByteQueue :=
  set.foldl (fun q c => WordCoded.write (WordCoded.write q c.beta) c.gamma)
    (q.writeWord (.ofNat set.length))

/-- Read the values of some number of challenges. -/
def readMany : Nat → Reader (ChallengeSet α)
  | 0 => return []
  | n + 1 => do
      let beta ← WordCoded.read
      let gamma ← WordCoded.read
      let rest ← readMany n
      return ⟨beta, gamma⟩ :: rest

/-- Read the one set that makes up the rest of a byte queue. -/
def read : Reader (ChallengeSet α) := do
  let count := (← ByteQueue.readWord).toNat
  let remaining := (← get).remaining
  if remaining % 16 ≠ 0 ∨ remaining / 16 ≠ count then
    throw (.setBytes count remaining)
  readMany count

end ChallengeSet

end CrossLookup
