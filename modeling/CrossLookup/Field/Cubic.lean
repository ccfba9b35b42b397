import CrossLookup.Field.Goldilocks

/-!
# The cubic extension

Elements `c0 + c1 * X + c2 * X^2` over the base field, where `X^3 = X - 1`.
-/

namespace CrossLookup

/-- An element of the cubic extension, by its coefficients. -/
structure Cubic where
  c0 : Goldilocks
  c1 : Goldilocks
  c2 : Goldilocks
deriving DecidableEq

namespace Cubic

/-- Embed a base element as a constant polynomial. -/
def ofBase (a : Goldilocks) : Cubic :=
  ⟨a, 0, 0⟩

instance : Zero Cubic := ⟨⟨0, 0, 0⟩⟩
instance : One Cubic := ⟨ofBase 1⟩
instance : Inhabited Cubic := ⟨0⟩

/-- The coefficientwise sum. -/
def add (a b : Cubic) : Cubic :=
  ⟨a.c0 + b.c0, a.c1 + b.c1, a.c2 + b.c2⟩

/-- The coefficientwise difference. -/
def sub (a b : Cubic) : Cubic :=
  ⟨a.c0 - b.c0, a.c1 - b.c1, a.c2 - b.c2⟩

/-- The product polynomial, folded by `X^3 = X - 1` and `X^4 = X^2 - X`. -/
def mul (a b : Cubic) : Cubic :=
  let d0 := a.c0 * b.c0
  let d1 := a.c0 * b.c1 + a.c1 * b.c0
  let d2 := a.c0 * b.c2 + a.c1 * b.c1 + a.c2 * b.c0
  let d3 := a.c1 * b.c2 + a.c2 * b.c1
  let d4 := a.c2 * b.c2
  ⟨d0 - d3, d1 + d3 - d4, d2 + d4⟩

/-- The coefficientwise negation. -/
def neg (a : Cubic) : Cubic :=
  ⟨-a.c0, -a.c1, -a.c2⟩

instance : Add Cubic := ⟨add⟩
instance : Sub Cubic := ⟨sub⟩
instance : Mul Cubic := ⟨mul⟩
instance : Neg Cubic := ⟨neg⟩

/-- Add a base element to the constant coefficient. -/
def addBase (a : Cubic) (s : Goldilocks) : Cubic :=
  { a with c0 := a.c0 + s }

/-- Subtract a base element from the constant coefficient. -/
def subBase (a : Cubic) (s : Goldilocks) : Cubic :=
  { a with c0 := a.c0 - s }

/-- Multiply every coefficient by a base element. -/
def scale (a : Cubic) (s : Goldilocks) : Cubic :=
  ⟨a.c0 * s, a.c1 * s, a.c2 * s⟩

instance : HAdd Cubic Goldilocks Cubic := ⟨addBase⟩
instance : HSub Cubic Goldilocks Cubic := ⟨subBase⟩
instance : HMul Cubic Goldilocks Cubic := ⟨scale⟩
instance : HAdd Goldilocks Cubic Cubic := ⟨fun s a => a.addBase s⟩
instance : HSub Goldilocks Cubic Cubic := ⟨fun s a => ofBase s - a⟩
instance : HMul Goldilocks Cubic Cubic := ⟨fun s a => a.scale s⟩

/-- Whether every coefficient is zero. -/
def isZero (a : Cubic) : Bool :=
  a.c0.isZero && a.c1.isZero && a.c2.isZero

/-- Whether an element is the constant one. -/
def isOne (a : Cubic) : Bool :=
  a.c0.isOne && a.c1.isZero && a.c2.isZero

/-- The coefficients, lowest first. -/
def coefficients (a : Cubic) : List Goldilocks :=
  [a.c0, a.c1, a.c2]

/-- Written as `(c0, c1, c2)`. -/
instance : ToString Cubic :=
  ⟨fun a => "(" ++ toString a.c0 ++ ", " ++ toString a.c1 ++ ", " ++ toString a.c2 ++ ")"⟩

end Cubic

end CrossLookup
