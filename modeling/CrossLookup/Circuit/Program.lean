import CrossLookup.Circuit.Builder

/-!
# Building programs

The operations of a builder as data. A program is a list of calls whose
arguments name wires; running it collects the wires that each call returns.
-/

namespace CrossLookup

/-- One operation of a builder. -/
inductive Call
  | input
  | inputs (n : Nat)
  | cubicInput
  | cubicInputs (n : Nat)
  | constant (a : Goldilocks)
  | zero
  | one
  | constantCubic (x : Cubic)
  | zeroCubic
  | oneCubic
  | toCubic (wire : Wire)
  | arithmetic (c0 c1 : Goldilocks) (left right addend : Wire)
  | add (a b : Wire)
  | sub (a b : Wire)
  | mul (a b : Wire)
  | mulAdd (a b c : Wire)
  | mulSub (a b c : Wire)
  | mulMany (factors : List Wire)
  | arithmeticCubic (c0 c1 : Goldilocks) (left right addend : CubicWire)
  | addCubic (a b : CubicWire)
  | subCubic (a b : CubicWire)
  | mulCubic (a b : CubicWire)
  | mulAddCubic (a b c : CubicWire)
  | mulSubCubic (a b c : CubicWire)
  | mulManyCubic (factors : List CubicWire)
  | scalarMulAddCubic (s : Wire) (b c : CubicWire)
  | innerProductCubic (factor : Goldilocks) (start : CubicWire)
      (pairs : List (CubicWire × CubicWire))
  | permute (state : Vector Wire 16)
  | connect (a b : Wire)
  | connectCubic (a b : CubicWire)
  | gateCount
deriving DecidableEq

/-- What a call returns. -/
inductive CallResult
  | nothing
  | wire (wire : Wire)
  | wires (wires : List Wire)
  | cubic (wires : CubicWire)
  | cubics (wires : List CubicWire)
  | count (n : Nat)
deriving DecidableEq

/-- Perform a call. -/
def Call.run : Call → Build CallResult
  | input => return .wire (← Build.newWire)
  | inputs n => return .wires (← Build.inputs n)
  | cubicInput => return .cubic (← Build.newCubic)
  | cubicInputs n => return .cubics (← Build.cubicInputs n)
  | constant a => return .wire (← Build.constant a)
  | zero => return .wire (← Build.zero)
  | one => return .wire (← Build.one)
  | constantCubic x => return .cubic (← Build.constantCubic x)
  | zeroCubic => return .cubic (← Build.zeroCubic)
  | oneCubic => return .cubic (← Build.oneCubic)
  | toCubic wire => return .cubic (← Build.toCubic wire)
  | arithmetic c0 c1 left right addend =>
      return .wire (← Build.arithmetic c0 c1 left right addend)
  | add a b => return .wire (← Build.add a b)
  | sub a b => return .wire (← Build.sub a b)
  | mul a b => return .wire (← Build.mul a b)
  | mulAdd a b c => return .wire (← Build.mulAdd a b c)
  | mulSub a b c => return .wire (← Build.mulSub a b c)
  | mulMany factors => return .wire (← Build.mulMany factors)
  | arithmeticCubic c0 c1 left right addend =>
      return .cubic (← Build.arithmeticCubic c0 c1 left right addend)
  | addCubic a b => return .cubic (← Build.addCubic a b)
  | subCubic a b => return .cubic (← Build.subCubic a b)
  | mulCubic a b => return .cubic (← Build.mulCubic a b)
  | mulAddCubic a b c => return .cubic (← Build.mulAddCubic a b c)
  | mulSubCubic a b c => return .cubic (← Build.mulSubCubic a b c)
  | mulManyCubic factors => return .cubic (← Build.mulManyCubic factors)
  | scalarMulAddCubic s b c => return .cubic (← Build.scalarMulAddCubic s b c)
  | innerProductCubic factor start pairs =>
      return .cubic (← Build.innerProductCubic factor start pairs)
  | permute state => return .wires (← Build.permute state).toList
  | connect a b => do
      Build.connect a b
      return .nothing
  | connectCubic a b => do
      Build.connectCubic a b
      return .nothing
  | gateCount => return .count (← Build.gateCount)

/-- Run calls in order, collecting what they return. -/
def Call.runAll : List Call → Build (List CallResult)
  | [] => return []
  | call :: rest => do
      let result ← call.run
      let results ← runAll rest
      return result :: results

end CrossLookup
