import CrossLookup.Random.MersenneTwister
import CrossLookup.Word

/-!
# Uniform choice and shuffling

A bounded number is the upper half of a word times the bound, drawn again while
the lower half falls into the part that would favour some numbers. A shuffle
swaps each element with one at or before it, two elements for every number
drawn.
-/

namespace CrossLookup

/-- Words and shuffles for a sample, drawn from a state. -/
structure RandomSource (σ : Type) where
  /-- The next word. -/
  word : StateM σ UInt64
  /-- A rearrangement of a list. -/
  shuffle {α : Type} : List α → StateM σ (List α)

variable {σ : Type}

/-- The words that are drawn at most for one bounded number. -/
def drawLimit : Nat := 64

/-- Draw again while the lower half is below a threshold. -/
def redraw (word : StateM σ UInt64) (bound threshold : UInt64) :
    Nat → BitVec 128 → StateM σ (BitVec 128)
  | 0, scaled => return scaled
  | fuel + 1, scaled =>
      if Word.lower scaled < threshold then do
        let w ← word
        redraw word bound threshold fuel (Word.product w bound)
      else
        return scaled

/-- A number below a bound, each with equal chance. -/
def below (word : StateM σ UInt64) (bound : UInt64) : StateM σ UInt64 := do
  let scaled := Word.product (← word) bound
  if Word.lower scaled < bound then
    let scaled ← redraw word bound ((0 - bound) % bound) drawLimit scaled
    return Word.upper scaled
  else
    return Word.upper scaled

variable {α : Type}

/-- Swap two elements from an index on with elements drawn at or before them. -/
def swapPair (word : StateM σ UInt64) (i : Nat) (items : Array α) : StateM σ (Array α) := do
  let x ← below word (.ofNat ((i + 1) * (i + 2)))
  let items := items.swapIfInBounds i (x.toNat / (i + 2))
  return items.swapIfInBounds (i + 1) (x.toNat % (i + 2))

/-- Swap pairs of elements from an index on. -/
def swapPairs (word : StateM σ UInt64) : Nat → Nat → Array α → StateM σ (Array α)
  | 0, _, items => return items
  | pairs + 1, i, items => do
      let items ← swapPair word i items
      swapPairs word pairs (i + 2) items

/-- Rearrange a list: of an even number, the second element is placed on its own. -/
def shuffle (word : StateM σ UInt64) (list : List α) : StateM σ (List α) := do
  let items := list.toArray
  if items.size = 0 then
    return list
  else if items.size % 2 = 0 then
    let x ← below word 2
    let items ← swapPairs word ((items.size - 2) / 2) 2 (items.swapIfInBounds 1 x.toNat)
    return items.toList
  else
    let items ← swapPairs word ((items.size - 1) / 2) 1 items
    return items.toList

/-- Words and shuffles of the Mersenne Twister. -/
def MersenneTwister.source : RandomSource MersenneTwister where
  word := next
  shuffle := CrossLookup.shuffle next

end CrossLookup
