/-!
# Double words

The product of two machine words in 128 bits, and its halves.
-/

namespace CrossLookup.Word

/-- The product of two words in 128 bits. -/
def product (a b : UInt64) : BitVec 128 :=
  a.toBitVec.setWidth 128 * b.toBitVec.setWidth 128

/-- The upper half of a 128-bit value. -/
def upper (x : BitVec 128) : UInt64 :=
  .ofBitVec ((x >>> 64).setWidth 64)

/-- The lower half of a 128-bit value. -/
def lower (x : BitVec 128) : UInt64 :=
  .ofBitVec (x.setWidth 64)

end CrossLookup.Word
