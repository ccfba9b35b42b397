import CrossLookup.Field.Cubic
import CrossLookup.Sponge.Permutation

/-!
# The transcript

A duplex sponge that takes observations and yields challenges. A full rate of
observations is absorbed at once, fewer wait for the next draw; an observation
discards challenges that were not drawn yet. Challenges come from the rate
cells of one permutation, the last cell first.
-/

namespace CrossLookup

/-- Put values over the leading cells of a state. -/
def SpongeState.overwrite (s : SpongeState) (values : List Goldilocks) : SpongeState :=
  s.mapIdx fun i a => values.getD i a

/-- The rate cells in the order in which they are drawn. -/
def SpongeState.output (s : SpongeState) : List Goldilocks :=
  (s.toList.take rate).reverse

theorem SpongeState.output_ne_nil (s : SpongeState) : s.output ≠ [] := by
  intro h
  have hl := congrArg List.length h
  simp [output, rate] at hl

/-- The state of a transcript. -/
structure Transcript where
  state : SpongeState
  /-- Observed and not yet absorbed, in order. -/
  pending : List Goldilocks
  /-- Squeezed and not yet drawn, the next draw first. -/
  available : List Goldilocks
deriving DecidableEq

namespace Transcript

/-- The transcript that has seen nothing. -/
def fresh : Transcript :=
  ⟨Vector.replicate 16 0, [], []⟩

/-- Absorb what is pending, permute, and squeeze the rate cells. -/
def duplex (t : Transcript) : Transcript :=
  let state := (t.state.overwrite t.pending).permute
  ⟨state, [], state.output⟩

/-- Observe one element. -/
def observe (t : Transcript) (a : Goldilocks) : Transcript :=
  let t := { t with pending := t.pending ++ [a], available := [] }
  if t.pending.length = SpongeState.rate then t.duplex else t

/-- Observe elements in order. -/
def observeAll (t : Transcript) (as : List Goldilocks) : Transcript :=
  as.foldl observe t

/-- Observe the coefficients of an extension element, lowest first. -/
def observeCubic (t : Transcript) (x : Cubic) : Transcript :=
  t.observeAll x.coefficients

/-- Permute unless fresh output is available for all that was observed. -/
def refresh (t : Transcript) : Transcript :=
  if t.pending ≠ [] ∨ t.available = [] then t.duplex else t

theorem available_duplex (t : Transcript) : t.duplex.available = t.duplex.state.output :=
  rfl

theorem available_refresh (t : Transcript) : t.refresh.available ≠ [] := by
  unfold refresh
  split
  · rw [available_duplex]
    exact SpongeState.output_ne_nil _
  · next h => exact fun e => h (Or.inr e)

/-- Draw one challenge. -/
def draw (t : Transcript) : Goldilocks × Transcript :=
  let r := t.refresh
  (r.available.head t.available_refresh, { r with available := r.available.tail })

/-- Draw challenges in order. -/
def drawMany (t : Transcript) : Nat → List Goldilocks × Transcript
  | 0 => ([], t)
  | n + 1 =>
      let (c, t) := t.draw
      let (cs, t) := t.drawMany n
      (c :: cs, t)

/-- Draw the coefficients of an extension element, lowest first. -/
def drawCubic (t : Transcript) : Cubic × Transcript :=
  let (c0, t) := t.draw
  let (c1, t) := t.draw
  let (c2, t) := t.draw
  (⟨c0, c1, c2⟩, t)

end Transcript

end CrossLookup
