import CrossLookup.Circuit.Gate

/-!
# Building circuits

A builder numbers wires in the order of their allocation and records gates and
copies. Every derived operation lowers onto the two arithmetic gates; there is
one constant gate for each distinct value.
-/

namespace CrossLookup

/-- A circuit under construction. -/
structure Builder where
  wireCount : Nat
  gates : Array Gate
  copies : Array Copy
  /-- The wires of the constants allocated so far. -/
  constants : List (Goldilocks × Wire)
deriving DecidableEq

/-- A step of a circuit's construction. -/
abbrev Build := StateM Builder

namespace Builder

/-- The builder that has allocated nothing. -/
def empty : Builder := ⟨0, #[], #[], []⟩

/-- The circuit built so far. -/
def circuit (b : Builder) : Circuit :=
  ⟨b.wireCount, b.gates, b.copies⟩

end Builder

namespace Build

/-- Allocate the next wire. -/
def newWire : Build Wire :=
  modifyGet fun b => (⟨b.wireCount⟩, { b with wireCount := b.wireCount + 1 })

/-- Allocate the wires of an extension element, lowest coefficient first. -/
def newCubic : Build CubicWire := do
  let c0 ← newWire
  let c1 ← newWire
  let c2 ← newWire
  return ⟨c0, c1, c2⟩

/-- Record a gate. -/
def emit (gate : Gate) : Build Unit :=
  modify fun b => { b with gates := b.gates.push gate }

/-- The number of gates recorded so far. -/
def gateCount : Build Nat := do
  return (← get).gates.size

/-- Repeat an allocation, collecting its results in order. -/
def times {α : Type} (step : Build α) : Nat → Build (List α)
  | 0 => return []
  | n + 1 => do
      let a ← step
      let rest ← times step n
      return a :: rest

/-- Input wires, assigned from outside. -/
def inputs (n : Nat) : Build (List Wire) :=
  times newWire n

/-- Input wires of extension elements. -/
def cubicInputs (n : Nat) : Build (List CubicWire) :=
  times newCubic n

/-- The wire of a constant, allocated at its first use. -/
def constant (a : Goldilocks) : Build Wire := do
  match (← get).constants.lookup a with
  | some wire => return wire
  | none =>
      let out ← newWire
      emit (.constant a out)
      modify fun b => { b with constants := (a, out) :: b.constants }
      return out

/-- The constant zero. -/
def zero : Build Wire := constant 0

/-- The constant one. -/
def one : Build Wire := constant 1

/-- The wires of an extension constant, one per coefficient. -/
def constantCubic (x : Cubic) : Build CubicWire := do
  let c0 ← constant x.c0
  let c1 ← constant x.c1
  let c2 ← constant x.c2
  return ⟨c0, c1, c2⟩

/-- The extension constant zero. -/
def zeroCubic : Build CubicWire := constantCubic 0

/-- The extension constant one. -/
def oneCubic : Build CubicWire := constantCubic 1

/-- Embed a base wire as a constant polynomial. -/
def toCubic (wire : Wire) : Build CubicWire := do
  let z ← zero
  return ⟨wire, z, z⟩

/-- `c0 * left * right + c1 * addend`. -/
def arithmetic (c0 c1 : Goldilocks) (left right addend : Wire) : Build Wire := do
  let out ← newWire
  emit (.arithmetic c0 c1 left right addend out)
  return out

/-- The sum, as `a * 1 + b`. -/
def add (a b : Wire) : Build Wire := do
  let u ← one
  arithmetic 1 1 a u b

/-- The difference, as `a * 1 - b`. -/
def sub (a b : Wire) : Build Wire := do
  let u ← one
  arithmetic 1 (-1) a u b

/-- The product, with a zero addend. -/
def mul (a b : Wire) : Build Wire := do
  let z ← zero
  arithmetic 1 0 a b z

/-- `a * b + c`. -/
def mulAdd (a b c : Wire) : Build Wire :=
  arithmetic 1 1 a b c

/-- `a * b - c`. -/
def mulSub (a b c : Wire) : Build Wire :=
  arithmetic 1 (-1) a b c

/-- The product of wires from the left; the empty product is one. -/
def mulMany : List Wire → Build Wire
  | [] => one
  | first :: rest => rest.foldlM mul first

/-- `c0 * left * right + c1 * addend` over extension elements. -/
def arithmeticCubic (c0 c1 : Goldilocks) (left right addend : CubicWire) :
    Build CubicWire := do
  let out ← newCubic
  emit (.extension c0 c1 left right addend out)
  return out

/-- The sum of extension elements. -/
def addCubic (a b : CubicWire) : Build CubicWire := do
  let u ← oneCubic
  arithmeticCubic 1 1 a u b

/-- The difference of extension elements. -/
def subCubic (a b : CubicWire) : Build CubicWire := do
  let u ← oneCubic
  arithmeticCubic 1 (-1) a u b

/-- The product of extension elements. -/
def mulCubic (a b : CubicWire) : Build CubicWire := do
  let z ← zeroCubic
  arithmeticCubic 1 0 a b z

/-- `a * b + c` over extension elements. -/
def mulAddCubic (a b c : CubicWire) : Build CubicWire :=
  arithmeticCubic 1 1 a b c

/-- `a * b - c` over extension elements. -/
def mulSubCubic (a b c : CubicWire) : Build CubicWire :=
  arithmeticCubic 1 (-1) a b c

/-- The product of extension elements from the left; the empty product is one. -/
def mulManyCubic : List CubicWire → Build CubicWire
  | [] => oneCubic
  | first :: rest => rest.foldlM mulCubic first

/-- `s * b + c` with a base scalar `s`. -/
def scalarMulAddCubic (s : Wire) (b c : CubicWire) : Build CubicWire := do
  let x ← toCubic s
  mulAddCubic x b c

/-- Add `factor * a * b` to a start for every pair `(a, b)`, from the left. -/
def innerProductCubic (factor : Goldilocks) (start : CubicWire)
    (pairs : List (CubicWire × CubicWire)) : Build CubicWire :=
  pairs.foldlM (fun acc pair => arithmeticCubic factor 1 pair.1 pair.2 acc) start

/-- Allocate the sixteen wires of a sponge state. -/
def newState : Build (Vector Wire 16) :=
  modifyGet fun b =>
    (Vector.ofFn fun i => ⟨b.wireCount + i⟩, { b with wireCount := b.wireCount + 16 })

/-- The sponge permutation of sixteen wires. -/
def permute (state : Vector Wire 16) : Build (Vector Wire 16) := do
  let out ← newState
  emit (.permutation state out)
  return out

/-- Require two wires to agree. -/
def connect (a b : Wire) : Build Unit :=
  modify fun builder => { builder with copies := builder.copies.push ⟨a, b⟩ }

/-- Require the coefficients of two extension elements to agree. -/
def connectCubic (a b : CubicWire) : Build Unit := do
  connect a.c0 b.c0
  connect a.c1 b.c1
  connect a.c2 b.c2

end Build

end CrossLookup
