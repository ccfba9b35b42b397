import CrossLookup.Circuit.Given
import CrossLookup.Verification.Identities

/-!
# Verification of lookups inside a circuit

Every grand-product identity becomes a copy constraint between the looking
product and the looked first row.
-/

namespace CrossLookup

/-- The construction of a circuit that may be refused. -/
abbrev CheckedBuild := ExceptT VerifyError Build

/-- Connect the two products of an identity. -/
def connectProducts (_index : Nat) (looking : List Wire) (extra looked : Wire) :
    CheckedBuild Unit := do
  let product ← Build.mulMany looking
  let product ← Build.mul product extra
  Build.connect product looked

/-- Verify every lookup from the wires of the first rows. -/
def verifyLookupsCircuit (lookups : List Lookup) (firstRows extras : PerTable (List Wire))
    (challenges : Nat) : CheckedBuild Unit :=
  forEachIdentity connectProducts lookups firstRows extras challenges

/-- The same over values, first rows before outside products, as the circuit's inputs. -/
def verifyGivenLookups (lookups : List Lookup) (firstRows extras : PerTable (List Goldilocks))
    (challenges : Nat) : Given (Except VerifyError Unit) := do
  let firstWires ← firstRows.mapM Given.wires
  let extraWires ← extras.mapM Given.wires
  (verifyLookupsCircuit lookups firstWires extraWires challenges).run

end CrossLookup
