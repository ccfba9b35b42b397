import CrossLookup.Challenge.Basic

/-!
# Exchanges with a transcript

Observations and draws as data, over elements or over wires. Performing one
collects the values that it drew, extension coefficients and `(beta, gamma)`
pairs laid out flat.
-/

namespace CrossLookup

/-- One use of a transcript over base values `B` and extension values `X`. -/
inductive Exchange (B X : Type)
  | observe (b : B)
  | observeAll (bs : List B)
  | observeCubic (x : X)
  | draw
  | drawMany (n : Nat)
  | drawCubic
  | drawChallenge
  | drawChallenges (n : Nat)
deriving DecidableEq

namespace Exchange

variable {B X : Type}

/-- Whether an exchange draws. -/
def isDraw : Exchange B X → Bool
  | observe _ => false
  | observeAll _ => false
  | observeCubic _ => false
  | _ => true

/-- The values that an exchange observes, extension values laid out by their parts. -/
def observed (parts : X → List B) : Exchange B X → List B
  | observe b => [b]
  | observeAll bs => bs
  | observeCubic x => parts x
  | _ => []

end Exchange

/-- The values of a challenge, `beta` first. -/
def Challenge.flat {α : Type} (c : Challenge α) : List α :=
  [c.beta, c.gamma]

/-- The values of a set of challenges in order. -/
def ChallengeSet.flat {α : Type} (set : ChallengeSet α) : List α :=
  List.flatMap Challenge.flat set

namespace Transcript

/-- Perform an exchange, collecting what it draws. -/
def perform (t : Transcript) : Exchange Goldilocks Cubic → List Goldilocks × Transcript
  | .observe a => ([], t.observe a)
  | .observeAll as => ([], t.observeAll as)
  | .observeCubic x => ([], t.observeCubic x)
  | .draw => let (c, t) := t.draw; ([c], t)
  | .drawMany n => t.drawMany n
  | .drawCubic => let (x, t) := t.drawCubic; (x.coefficients, t)
  | .drawChallenge => let (c, t) := t.drawChallenge; (c.flat, t)
  | .drawChallenges n => let (set, t) := t.drawChallenges n; (set.flat, t)

/-- Perform exchanges in order, collecting what each one draws. -/
def performAll (t : Transcript) :
    List (Exchange Goldilocks Cubic) → List (List Goldilocks) × Transcript
  | [] => ([], t)
  | e :: rest =>
      let (drawn, t) := t.perform e
      let (others, t) := t.performAll rest
      (drawn :: others, t)

end Transcript

end CrossLookup
