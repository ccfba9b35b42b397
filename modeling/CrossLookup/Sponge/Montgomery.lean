import CrossLookup.Field.Goldilocks

/-!
# Montgomery form

The Montgomery form of an element `a` is `a * 2^64` modulo the order. A single
reduction step divides a 128-bit value by `2^64` modulo the order; it serves
both to enter the form and to leave it.
-/

namespace CrossLookup.Montgomery

/-- The square of `2^64` modulo the order, which moves an element into the form. -/
def squaredRadix : UInt64 := 0xFFFFFFFE00000001

/-- Divide `hi * 2^64 + lo` by `2^64` modulo the order. -/
def reduce (hi lo : UInt64) : UInt64 :=
  let shifted := lo <<< 32
  let a := lo + shifted
  let carried := decide (a < lo) || decide (a < shifted)
  let b := a - (a >>> 32) - carried.toUInt64
  let r := hi - b
  if hi < b then r - (1 + ~~~Goldilocks.order) else r

/-- The Montgomery form of an element. -/
def enter (a : Goldilocks) : UInt64 :=
  let product := Word.product a.word squaredRadix
  reduce (Word.upper product) (Word.lower product)

/-- The element whose Montgomery form is a word. -/
def leave (w : UInt64) : Goldilocks :=
  .ofWord (reduce 0 w)

end CrossLookup.Montgomery
