/-!
# Wires

A wire of an arithmetic circuit holds one base element; three wires together
hold the coefficients of one extension element.
-/

namespace CrossLookup

/-- A wire, by its number. -/
structure Wire where
  index : Nat
deriving DecidableEq, Repr, Inhabited

/-- The wires of the coefficients of an extension element. -/
structure CubicWire where
  c0 : Wire
  c1 : Wire
  c2 : Wire
deriving DecidableEq, Repr, Inhabited

/-- The coefficient wires, lowest first. -/
def CubicWire.parts (w : CubicWire) : List Wire :=
  [w.c0, w.c1, w.c2]

end CrossLookup
