import CrossLookup.Word

/-!
# The base field

Elements of the prime field of order `2^64 - 2^32 + 1`, each stored as its
canonical word. Sums and differences wrap at `2^64` and are corrected by a
masked multiple of the order; products are taken in 128 bits.
-/

namespace CrossLookup

/-- The order of the base field, `2^64 - 2^32 + 1`. -/
def Goldilocks.order : UInt64 := 18446744069414584321

/-- An element of the base field, by its canonical word. -/
structure Goldilocks where
  /-- The representative below the order. -/
  word : UInt64
  canonical : word < Goldilocks.order
deriving DecidableEq

namespace Goldilocks

@[ext] theorem ext {a b : Goldilocks} (h : a.word = b.word) : a = b := by
  cases a
  cases b
  cases h
  rfl

theorem mod_order_lt (w : UInt64) : w % order < order := by
  rw [UInt64.lt_iff_toNat_lt, UInt64.toNat_mod]
  exact Nat.mod_lt _ (by decide)

/-- Reduce a word modulo the order. -/
def ofWord (w : UInt64) : Goldilocks :=
  ⟨w % order, mod_order_lt w⟩

/-- Accept a word only when it is already canonical. -/
def ofCanonical? (w : UInt64) : Option Goldilocks :=
  if h : w < order then some ⟨w, h⟩ else none

instance : Zero Goldilocks := ⟨ofWord 0⟩
instance : One Goldilocks := ⟨ofWord 1⟩
instance : Inhabited Goldilocks := ⟨0⟩

/-- All bits set where `b` holds, and none where it does not. -/
def mask (b : Bool) : UInt64 :=
  -b.toUInt64

/-- The wrapped sum, less the order when it carried or is not canonical. -/
def add (a b : Goldilocks) : Goldilocks :=
  let sum := a.word + b.word
  let carried := decide (sum < a.word)
  let tooLarge := decide (order ≤ sum)
  ofWord (sum - (order &&& mask (carried || tooLarge)))

/-- The wrapped difference, plus the order when it borrowed. -/
def sub (a b : Goldilocks) : Goldilocks :=
  let diff := a.word - b.word
  ofWord (diff + (order &&& mask (decide (a.word < b.word))))

/-- The remainder of a 128-bit value modulo the order. -/
def reduceWide (x : BitVec 128) : UInt64 :=
  Word.lower (x % order.toBitVec.setWidth 128)

/-- The 128-bit product, reduced. -/
def mul (a b : Goldilocks) : Goldilocks :=
  ofWord (reduceWide (Word.product a.word b.word))

/-- The order less the word; zero is its own negation. -/
def neg (a : Goldilocks) : Goldilocks :=
  if a.word = 0 then a else ofWord (order - a.word)

instance : Add Goldilocks := ⟨add⟩
instance : Sub Goldilocks := ⟨sub⟩
instance : Mul Goldilocks := ⟨mul⟩
instance : Neg Goldilocks := ⟨neg⟩

instance : LT Goldilocks := ⟨fun a b => a.word < b.word⟩

instance (a b : Goldilocks) : Decidable (a < b) :=
  inferInstanceAs (Decidable (a.word < b.word))

instance : ToString Goldilocks := ⟨fun a => toString a.word.toNat⟩

/-- Whether an element is zero. -/
def isZero (a : Goldilocks) : Bool :=
  a.word == 0

/-- Whether an element is one. -/
def isOne (a : Goldilocks) : Bool :=
  a.word == 1

/-- The first `count` multiples of `start` by successive powers of `a`. -/
def geometric (a start : Goldilocks) : Nat → List Goldilocks
  | 0 => []
  | count + 1 => start :: geometric a (start * a) count

/-- The powers of `a` with exponents below `count`, in rising order. -/
def powers (a : Goldilocks) (count : Nat) : List Goldilocks :=
  geometric a 1 count

@[simp] theorem length_geometric (a start : Goldilocks) (count : Nat) :
    (geometric a start count).length = count := by
  induction count generalizing start with
  | zero => rfl
  | succ n ih => simp [geometric, ih]

@[simp] theorem length_powers (a : Goldilocks) (count : Nat) :
    (powers a count).length = count :=
  length_geometric a 1 count

end Goldilocks

end CrossLookup
