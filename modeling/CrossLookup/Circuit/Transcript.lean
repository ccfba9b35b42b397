import CrossLookup.Circuit.Given
import CrossLookup.Sponge.Exchange

/-!
# The transcript inside a circuit

Observed wires wait until a challenge is drawn and are then absorbed one rate
at a time, with one permutation gate for each. At least one permutation is
made, also when nothing was observed.
-/

namespace CrossLookup

/-- The state of a transcript over wires. -/
structure CircuitTranscript where
  state : Vector Wire 16
  /-- Observed and not yet absorbed, in order. -/
  pending : List Wire
  /-- Squeezed and not yet drawn, the next draw first. -/
  available : List Wire
deriving DecidableEq

namespace CircuitTranscript

/-- The transcript that has seen nothing; its state is the constant zero. -/
def fresh : Build CircuitTranscript := do
  let z ← Build.zero
  return ⟨Vector.replicate 16 z, [], []⟩

/-- Observe one wire. -/
def observe (t : CircuitTranscript) (wire : Wire) : CircuitTranscript :=
  { t with pending := t.pending ++ [wire], available := [] }

/-- Observe wires in order. -/
def observeAll (t : CircuitTranscript) (wires : List Wire) : CircuitTranscript :=
  wires.foldl observe t

/-- Observe the coefficients of an extension element, lowest first. -/
def observeCubic (t : CircuitTranscript) (wires : CubicWire) : CircuitTranscript :=
  t.observeAll wires.parts

/-- Put wires over the leading cells of a state. -/
def overwrite (state : Vector Wire 16) (wires : List Wire) : Vector Wire 16 :=
  state.mapIdx fun i cell => wires.getD i cell

/-- Absorb wires one rate at a time, with one permutation for each. -/
def absorb (state : Vector Wire 16) (wires : List Wire) : Build (Vector Wire 16) := do
  let state ← Build.permute (overwrite state (wires.take SpongeState.rate))
  if wires.length ≤ SpongeState.rate then
    return state
  else
    absorb state (wires.drop SpongeState.rate)
termination_by wires.length
decreasing_by
  simp only [List.length_drop, SpongeState.rate] at *
  omega

/-- The rate wires in the order in which they are drawn. -/
def output (state : Vector Wire 16) : List Wire :=
  (state.toList.take SpongeState.rate).reverse

/-- Absorb what is pending and squeeze the rate wires. -/
def duplex (t : CircuitTranscript) : Build CircuitTranscript := do
  let state ← absorb t.state t.pending
  return ⟨state, [], output state⟩

/-- Permute unless fresh output is available for all that was observed. -/
def refresh (t : CircuitTranscript) : Build CircuitTranscript :=
  if t.pending ≠ [] ∨ t.available = [] then t.duplex else pure t

/-- Draw one challenge. -/
def draw (t : CircuitTranscript) : Build (Wire × CircuitTranscript) := do
  let t ← t.refresh
  return (t.available.headD default, { t with available := t.available.tail })

/-- Draw challenges in order. -/
def drawMany (t : CircuitTranscript) : Nat → Build (List Wire × CircuitTranscript)
  | 0 => return ([], t)
  | n + 1 => do
      let (c, t) ← t.draw
      let (cs, t) ← t.drawMany n
      return (c :: cs, t)

/-- Draw the coefficients of an extension element, lowest first. -/
def drawCubic (t : CircuitTranscript) : Build (CubicWire × CircuitTranscript) := do
  let (c0, t) ← t.draw
  let (c1, t) ← t.draw
  let (c2, t) ← t.draw
  return (⟨c0, c1, c2⟩, t)

/-- Draw `beta`, then `gamma`. -/
def drawChallenge (t : CircuitTranscript) : Build (Challenge Wire × CircuitTranscript) := do
  let (beta, t) ← t.draw
  let (gamma, t) ← t.draw
  return (⟨beta, gamma⟩, t)

/-- Draw a set of challenges. -/
def drawChallenges (t : CircuitTranscript) :
    Nat → Build (ChallengeSet Wire × CircuitTranscript)
  | 0 => return ([], t)
  | n + 1 => do
      let (c, t) ← t.drawChallenge
      let (cs, t) ← t.drawChallenges n
      return (c :: cs, t)

/-- Perform an exchange, collecting the wires that it draws. -/
def perform (t : CircuitTranscript) :
    Exchange Wire CubicWire → Build (List Wire × CircuitTranscript)
  | .observe wire => return ([], t.observe wire)
  | .observeAll wires => return ([], t.observeAll wires)
  | .observeCubic wires => return ([], t.observeCubic wires)
  | .draw => do
      let (c, t) ← t.draw
      return ([c], t)
  | .drawMany n => t.drawMany n
  | .drawCubic => do
      let (x, t) ← t.drawCubic
      return (x.parts, t)
  | .drawChallenge => do
      let (c, t) ← t.drawChallenge
      return (c.flat, t)
  | .drawChallenges n => do
      let (set, t) ← t.drawChallenges n
      return (set.flat, t)

/-- Input wires in place of the values that an exchange observes. -/
def allocate : Exchange Goldilocks Cubic → Given (Exchange Wire CubicWire)
  | .observe a => return .observe (← Given.wire a)
  | .observeAll as => return .observeAll (← Given.wires as)
  | .observeCubic x => return .observeCubic (← Given.cubic x)
  | .draw => return .draw
  | .drawMany n => return .drawMany n
  | .drawCubic => return .drawCubic
  | .drawChallenge => return .drawChallenge
  | .drawChallenges n => return .drawChallenges n

/-- What an exchange leaves behind in a circuit. -/
structure Record where
  isDraw : Bool
  /-- The wires that it observed or drew. -/
  wires : List Wire
  /-- The number of gates after it. -/
  gateCount : Nat
deriving DecidableEq

/-- Perform an exchange whose observed values are inputs of the circuit. -/
def record (t : CircuitTranscript) (e : Exchange Goldilocks Cubic) :
    Given (Record × CircuitTranscript) := do
  let allocated ← allocate e
  let (drawn, t) ← t.perform allocated
  let wires := if e.isDraw then drawn else allocated.observed CubicWire.parts
  let gateCount ← Build.gateCount
  return (⟨e.isDraw, wires, gateCount⟩, t)

/-- Perform exchanges in order. -/
def recordAll (t : CircuitTranscript) :
    List (Exchange Goldilocks Cubic) → Given (List Record)
  | [] => return []
  | e :: rest => do
      let (first, t) ← t.record e
      let others ← t.recordAll rest
      return first :: others

end CircuitTranscript

end CrossLookup
