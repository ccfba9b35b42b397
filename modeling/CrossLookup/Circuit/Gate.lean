import CrossLookup.Circuit.Witness
import CrossLookup.Sponge.Permutation

/-!
# Gates and circuits

A circuit is a list of gates and of pairs of wires that must agree. Gates run
in order on a partial assignment of the wires; the circuit is satisfied when
every gate runs without conflict and every pair then agrees.
-/

namespace CrossLookup

/-- A relation between wires that computes its outputs from its inputs. -/
inductive Gate
  /-- The output is a fixed value. -/
  | constant (value : Goldilocks) (out : Wire)
  /-- The output is `c0 * left * right + c1 * addend`. -/
  | arithmetic (c0 c1 : Goldilocks) (left right addend out : Wire)
  /-- The same relation over extension elements. -/
  | extension (c0 c1 : Goldilocks) (left right addend out : CubicWire)
  /-- The outputs are the sponge permutation of the inputs. -/
  | permutation (inputs outputs : Vector Wire 16)
deriving DecidableEq

namespace Gate

/-- The value an arithmetic gate computes. -/
def arithmeticValue (c0 c1 left right addend : Goldilocks) : Goldilocks :=
  c0 * left * right + c1 * addend

/-- The value an extension gate computes. -/
def extensionValue (c0 c1 : Goldilocks) (left right addend : Cubic) : Cubic :=
  left * right * c0 + addend * c1

/-- Assign the outputs of a gate from its inputs. -/
def run (w : Witness) : Gate → Except WitnessError Witness
  | constant value out => w.set out value
  | arithmetic c0 c1 left right addend out => do
      let l ← w.get left
      let r ← w.get right
      let a ← w.get addend
      w.set out (arithmeticValue c0 c1 l r a)
  | extension c0 c1 left right addend out => do
      let l ← w.getCubic left
      let r ← w.getCubic right
      let a ← w.getCubic addend
      w.setCubic out (extensionValue c0 c1 l r a)
  | permutation inputs outputs => do
      let state ← inputs.mapM w.get
      w.setAll (outputs.toList.zip (SpongeState.permute state).toList)

/-- Whether a gate is a constant. -/
def isConstant : Gate → Bool
  | constant .. => true
  | _ => false

/-- Whether a gate is base arithmetic. -/
def isArithmetic : Gate → Bool
  | arithmetic .. => true
  | _ => false

/-- Whether a gate is extension arithmetic. -/
def isExtension : Gate → Bool
  | extension .. => true
  | _ => false

/-- Whether a gate is a permutation. -/
def isPermutation : Gate → Bool
  | permutation .. => true
  | _ => false

end Gate

/-- Two wires that must hold the same value. -/
structure Copy where
  lhs : Wire
  rhs : Wire
deriving DecidableEq, Repr

/-- Whether both wires of a pair hold one value. -/
def Copy.holds (w : Witness) (c : Copy) : Bool :=
  match w.get? c.lhs, w.get? c.rhs with
  | some a, some b => a == b
  | _, _ => false

/-- A finished circuit. -/
structure Circuit where
  wireCount : Nat
  gates : Array Gate
  copies : Array Copy
deriving DecidableEq

namespace Circuit

/-- Run every gate in order on top of an assignment. -/
def complete (c : Circuit) (inputs : Witness) : Except WitnessError Witness :=
  c.gates.foldlM Gate.run inputs

/-- The first pair of wires that does not agree. -/
def firstUnsatisfied (c : Circuit) (w : Witness) : Option Copy :=
  c.copies.find? fun copy => !copy.holds w

/-- Whether the gates run without conflict and every pair then agrees. -/
def isSatisfied (c : Circuit) (inputs : Witness) : Bool :=
  match c.complete inputs with
  | .ok w => (c.firstUnsatisfied w).isNone
  | .error _ => false

end Circuit

end CrossLookup
