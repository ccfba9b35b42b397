import CrossLookup.Circuit.Wire
import CrossLookup.Field.Algebra
import CrossLookup.Sponge.Transcript

/-!
# Challenges of a grand product

A challenge `(beta, gamma)` compresses a payload row to one value. A proof uses
several independent challenges, drawn from the transcript.
-/

namespace CrossLookup

/-- The randomness of one grand product, over elements or over wires. -/
structure Challenge (α : Type) where
  beta : α
  gamma : α
deriving DecidableEq, Inhabited

/-- Independent challenges in the order they were drawn. -/
abbrev ChallengeSet (α : Type) := List (Challenge α)

variable {V : Type} [BaseAlgebra V]

/-- The sum of `beta ^ i * terms[i]` plus `gamma`, by Horner's rule. -/
def Challenge.combine (challenge : Challenge Goldilocks) (terms : List V) : V :=
  BaseAlgebra.addBase
    (terms.foldr (fun term acc => BaseAlgebra.scale acc challenge.beta + term) 0)
    challenge.gamma

namespace Transcript

/-- Draw `beta`, then `gamma`. -/
def drawChallenge (t : Transcript) : Challenge Goldilocks × Transcript :=
  let (beta, t) := t.draw
  let (gamma, t) := t.draw
  (⟨beta, gamma⟩, t)

/-- Draw a set of challenges. -/
def drawChallenges (t : Transcript) : Nat → ChallengeSet Goldilocks × Transcript
  | 0 => ([], t)
  | n + 1 =>
      let (c, t) := t.drawChallenge
      let (cs, t) := t.drawChallenges n
      (c :: cs, t)

end Transcript

end CrossLookup
