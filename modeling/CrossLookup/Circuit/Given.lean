import CrossLookup.Challenge.Basic
import CrossLookup.Circuit.Builder

/-!
# Circuits with given inputs

A construction may note, for each input wire that it allocates, the value that
the wire is to hold. Solving it assigns the noted values and completes the
witness of the finished circuit.
-/

namespace CrossLookup

/-- A construction that notes the values of its inputs. -/
abbrev Given := StateT (Array (Wire × Goldilocks)) Build

/-- A finished construction with the values of its inputs. -/
structure Posed (α : Type) where
  result : α
  circuit : Circuit
  inputs : List (Wire × Goldilocks)

/-- A finished construction with a complete witness. -/
structure Solved (α : Type) where
  result : α
  circuit : Circuit
  inputs : Witness
  witness : Witness

namespace Given

variable {α : Type}

/-- Note values of wires after those noted before. -/
def note (values : List (Wire × Goldilocks)) : Given Unit :=
  modify fun (noted : Array (Wire × Goldilocks)) => noted ++ values

/-- Allocate an input wire for a value. -/
def wire (a : Goldilocks) : Given Wire := do
  let w ← Build.newWire
  note [(w, a)]
  return w

/-- Allocate input wires for values. -/
def wires (as : List Goldilocks) : Given (List Wire) :=
  as.mapM wire

/-- Allocate the input wires of an extension element. -/
def cubic (x : Cubic) : Given CubicWire := do
  let w ← Build.newCubic
  note (Witness.coefficientValues w x)
  return w

/-- Allocate the input wires of extension elements. -/
def cubics (xs : List Cubic) : Given (List CubicWire) :=
  xs.mapM cubic

/-- Allocate the input wires of a challenge. -/
def challenge (c : Challenge Goldilocks) : Given (Challenge Wire) := do
  let beta ← wire c.beta
  let gamma ← wire c.gamma
  return ⟨beta, gamma⟩

/-- Finish a construction. -/
def pose (construction : Given α) : Posed α :=
  let ((result, inputs), builder) := (construction.run #[]).run .empty
  ⟨result, builder.circuit, inputs.toList⟩

end Given

namespace Posed

variable {α : Type}

/-- The assignment of the noted values. -/
def assigned (posed : Posed α) : Except WitnessError Witness :=
  Witness.empty.setAll posed.inputs

/-- Assign the noted values and run the gates. -/
def solve (posed : Posed α) : Except WitnessError (Solved α) := do
  let inputs ← posed.assigned
  let witness ← posed.circuit.complete inputs
  return ⟨posed.result, posed.circuit, inputs, witness⟩

end Posed

end CrossLookup
