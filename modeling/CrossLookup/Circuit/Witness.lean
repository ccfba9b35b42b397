import CrossLookup.Circuit.Wire
import CrossLookup.Field.Cubic

/-!
# Witnesses

A partial assignment of base elements to wires. A wire keeps its first value:
assigning the same value again is allowed, another value is a conflict.
-/

namespace CrossLookup

/-- A reason why a witness cannot be read or extended. -/
inductive WitnessError
  /-- The wire holds no value. -/
  | unset (wire : Wire)
  /-- The wire already holds another value. -/
  | conflict (wire : Wire) (held given : Goldilocks)
deriving DecidableEq

/-- The wording of a witness error. -/
def WitnessError.message : WitnessError → String
  | .unset wire =>
      "PartialWitness: target " ++ toString wire.index ++ " is not set"
  | .conflict wire held given =>
      "PartialWitness: conflicting values for target " ++ toString wire.index ++ ": " ++
        toString held ++ " vs " ++ toString given

/-- Values of some wires. -/
structure Witness where
  cells : Array (Option Goldilocks)
deriving DecidableEq

namespace Witness

/-- The witness without values. -/
def empty : Witness := ⟨#[]⟩

/-- The value of a wire, if it has one. -/
def get? (w : Witness) (wire : Wire) : Option Goldilocks :=
  (w.cells[wire.index]?).getD none

/-- The value of a wire that must have one. -/
def get (w : Witness) (wire : Wire) : Except WitnessError Goldilocks :=
  match w.get? wire with
  | some a => .ok a
  | none => .error (.unset wire)

/-- Cells enough to hold a wire. -/
def grow (cells : Array (Option Goldilocks)) (wire : Wire) : Array (Option Goldilocks) :=
  cells ++ Array.replicate (wire.index + 1 - cells.size) none

/-- Assign a value to a wire. -/
def set (w : Witness) (wire : Wire) (a : Goldilocks) : Except WitnessError Witness :=
  match w.get? wire with
  | some held => if held = a then .ok w else .error (.conflict wire held a)
  | none => .ok ⟨(grow w.cells wire).setIfInBounds wire.index (some a)⟩

/-- The value of three wires; of several without a value the last is reported. -/
def getCubic (w : Witness) (wires : CubicWire) : Except WitnessError Cubic := do
  let c2 ← w.get wires.c2
  let c1 ← w.get wires.c1
  let c0 ← w.get wires.c0
  return ⟨c0, c1, c2⟩

/-- Assign to wires in order up to the first conflict, keeping what was assigned. -/
def assign (w : Witness) : List (Wire × Goldilocks) → Except WitnessError Unit × Witness
  | [] => (.ok (), w)
  | (wire, a) :: rest =>
      match w.set wire a with
      | .ok w => w.assign rest
      | .error e => (.error e, w)

/-- Assign to wires in order, or fail as a whole. -/
def setAll (w : Witness) (values : List (Wire × Goldilocks)) : Except WitnessError Witness :=
  values.foldlM (fun w v => w.set v.1 v.2) w

/-- The wires of an extension element with its coefficients. -/
def coefficientValues (wires : CubicWire) (x : Cubic) : List (Wire × Goldilocks) :=
  wires.parts.zip x.coefficients

/-- Assign an extension element to three wires. -/
def setCubic (w : Witness) (wires : CubicWire) (x : Cubic) : Except WitnessError Witness :=
  w.setAll (coefficientValues wires x)

/-- The number of wires with a value. -/
def count (w : Witness) : Nat :=
  w.cells.countP Option.isSome

end Witness

/-- One access to a witness. -/
inductive WitnessAccess
  | set (wire : Wire) (a : Goldilocks)
  | setCubic (wires : CubicWire) (x : Cubic)
  | tryGet (wire : Wire)
  | get (wire : Wire)
  | getCubic (wires : CubicWire)
  | count
deriving DecidableEq

/-- The result of an access to a witness. -/
inductive WitnessAnswer
  | done
  | found (value : Option Goldilocks)
  | value (a : Goldilocks)
  | cubic (x : Cubic)
  | count (n : Nat)
deriving DecidableEq

/-- Perform an access; a failed one leaves what it had assigned before failing. -/
def WitnessAccess.perform (w : Witness) :
    WitnessAccess → Except WitnessError WitnessAnswer × Witness
  | .set wire a =>
      let (result, w) := w.assign [(wire, a)]
      (result.map fun _ => .done, w)
  | .setCubic wires x =>
      let (result, w) := w.assign (Witness.coefficientValues wires x)
      (result.map fun _ => .done, w)
  | .tryGet wire => (.ok (.found (w.get? wire)), w)
  | .get wire => ((w.get wire).map .value, w)
  | .getCubic wires => ((w.getCubic wires).map .cubic, w)
  | .count => (.ok (.count w.count), w)

end CrossLookup
