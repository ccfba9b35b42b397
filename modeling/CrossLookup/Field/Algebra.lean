import CrossLookup.Field.Cubic
import CrossLookup.Field.Lanes

/-!
# Values over the base field

The operations that constraint evaluation needs of its values, given for base
elements, for four lanes of them and for the cubic extension. Evaluators are
written once over this class.
-/

namespace CrossLookup

/-- A type of values with field-like arithmetic and mixed base operations. -/
class BaseAlgebra (V : Type) extends Add V, Sub V, Mul V, Zero V, One V where
  /-- The value that stands for a base element. -/
  ofBase : Goldilocks → V
  /-- A value times a base element. -/
  scale : V → Goldilocks → V
  /-- A value plus a base element. -/
  addBase : V → Goldilocks → V
  isZero : V → Bool

instance : BaseAlgebra Goldilocks where
  ofBase a := a
  scale a s := a * s
  addBase a s := a + s
  isZero := Goldilocks.isZero

instance : BaseAlgebra Cubic where
  ofBase := Cubic.ofBase
  scale a s := a * s
  addBase a s := a + s
  isZero := Cubic.isZero

instance : BaseAlgebra Lanes where
  ofBase := Lanes.broadcast
  scale a s := a * s
  addBase a s := a + s
  isZero := Lanes.isZero

end CrossLookup
