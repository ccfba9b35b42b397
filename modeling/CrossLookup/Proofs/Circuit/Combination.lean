import CrossLookup.Proofs.Circuit.Reading
import CrossLookup.Proofs.Constraint.Openings
import CrossLookup.Proofs.Constraint.Scan
import CrossLookup.Proofs.Field.Horner

/-!
# The combination of a row under a challenge

A challenge combines terms to one polynomial in `beta`, shifted by `gamma`. It
is the same polynomial over base elements, over extension elements, in every
lane, and on the wires of the circuits that combine wires.
-/

namespace CrossLookup

namespace Challenge

section Values

variable (challenge : Challenge Goldilocks)

theorem combine_base (terms : List Goldilocks) :
    challenge.combine terms =
      ∑ i : Fin terms.length, challenge.beta ^ (i : ℕ) * terms[i] + challenge.gamma :=
  congrArg (· + challenge.gamma) (foldr_horner challenge.beta id terms)

theorem combine_cubic (terms : List Cubic) :
    challenge.combine terms =
      ∑ i : Fin terms.length, Cubic.ofBase challenge.beta ^ (i : ℕ) * terms[i] +
        Cubic.ofBase challenge.gamma := by
  have hscale : ∀ acc : Cubic, BaseAlgebra.scale acc challenge.beta =
      acc * Cubic.ofBase challenge.beta := fun acc => Cubic.scale_eq_mul acc _
  have hshift : ∀ acc : Cubic, BaseAlgebra.addBase acc challenge.gamma =
      acc + Cubic.ofBase challenge.gamma := fun acc => Cubic.addBase_eq_add acc _
  rw [combine, hshift]
  simp only [hscale]
  exact congrArg (· + Cubic.ofBase challenge.gamma)
    (foldr_horner (Cubic.ofBase challenge.beta) id terms)

/-- A lane combines the terms in that lane. -/
theorem combine_lane (terms : List Lanes) (i : Fin 4) :
    (challenge.combine terms).lane i =
      ∑ j : Fin terms.length, challenge.beta ^ (j : ℕ) * terms[j].lane i + challenge.gamma := by
  rw [(Lanes.isMorphism_lane i).map_combine, combine, List.foldr_map]
  exact congrArg (· + challenge.gamma) (foldr_horner challenge.beta (Lanes.lane i) terms)

end Values

/-- A witness reads the wires of a challenge as its values. -/
structure ReadsAs (v : Witness) (wires : Challenge Wire) (challenge : Challenge Goldilocks) :
    Prop where
  beta : v.get wires.beta = .ok challenge.beta
  gamma : v.get wires.gamma = .ok challenge.gamma

theorem ReadsAs.holds {v : Witness} {wires : Challenge Wire} {challenge : Challenge Goldilocks}
    {values : List Goldilocks} (hv : ∀ wire, v.get? wire = values[wire.index]?)
    (h : wires.ReadsAs v challenge) : wires.Holds values challenge :=
  ⟨(hv _).symm.trans (Witness.get_eq_ok_iff.mp h.beta),
    (hv _).symm.trans (Witness.get_eq_ok_iff.mp h.gamma)⟩

end Challenge

namespace Build

variable {values : List Goldilocks}

/-- Horner's scheme over base wires holds Horner's scheme over their values. -/
theorem yields_hornerBase {beta start : Wire} {b s : Goldilocks} {wires : List Wire}
    {terms : List Goldilocks} (hbeta : beta.Holds values b) (hstart : start.Holds values s)
    (hterms : List.Forall₂ (Wire.Holds values) wires terms) :
    Yields (wires.foldrM (fun term acc => mulAdd acc beta term) start) values
      fun out values' => out.Holds values' (terms.foldr (fun term acc => acc * b + term) s) :=
  yields_foldrM Wire.Holds Wire.Holds (fun h hle => h.mono hle)
    (fun hle hacc hterm => yields_mulAdd hacc (hbeta.mono hle) hterm) hstart hterms

/-- A challenge over wires combines base wires as the challenge over values combines values. -/
theorem yields_combineBaseCircuit {challengeWires : Challenge Wire}
    {challenge : Challenge Goldilocks} {wires : List Wire} {terms : List Goldilocks}
    (hchallenge : challengeWires.Holds values challenge)
    (hterms : List.Forall₂ (Wire.Holds values) wires terms) :
    Yields (challengeWires.combineBaseCircuit wires) values fun out values' =>
      out.Holds values' (challenge.combine terms) := by
  refine yields_zero.bind fun start values₁ hle₁ hstart => ?_
  refine (yields_hornerBase (hchallenge.beta.mono hle₁) hstart
    (forall₂_holds_mono hterms hle₁)).bind fun sum values₂ hle₂ hsum => ?_
  exact yields_add hsum (hchallenge.gamma.mono (hle₁.trans hle₂))

end Build

namespace Challenge

/-- Combine extension elements that are inputs of the circuit, as is the challenge. -/
def combineGiven (challenge : Challenge Goldilocks) (terms : List Cubic) : Given CubicWire := do
  let challenge ← Given.challenge challenge
  let terms ← Given.cubics terms
  challenge.combineCircuit terms

/-- Combine base elements that are inputs of the circuit, as is the challenge. -/
def combineBaseGiven (challenge : Challenge Goldilocks) (terms : List Goldilocks) :
    Given Wire := do
  let challenge ← Given.challenge challenge
  let terms ← Given.wires terms
  challenge.combineBaseCircuit terms

variable (challenge : Challenge Goldilocks)

theorem yields_combineGiven (terms : List Cubic) :
    Given.Yields (challenge.combineGiven terms) [] fun out values =>
      out.Holds values (challenge.combine terms) := by
  refine (Given.yields_challenge challenge).bind fun wires values₁ _ hchallenge => ?_
  refine (Given.yields_cubics terms).bind fun termWires values₂ hle hterms => ?_
  exact Given.Connects.lift (Build.yields_combineCircuit (hchallenge.mono hle) hterms)

theorem yields_combineBaseGiven (terms : List Goldilocks) :
    Given.Yields (challenge.combineBaseGiven terms) [] fun out values =>
      out.Holds values (challenge.combine terms) := by
  refine (Given.yields_challenge challenge).bind fun wires values₁ _ hchallenge => ?_
  refine (Given.yields_wires terms).bind fun termWires values₂ hle hterms => ?_
  exact Given.Connects.lift (Build.yields_combineBaseCircuit (hchallenge.mono hle) hterms)

/-- Every form of combining computes the terms weighted by the powers of `beta`, plus `gamma`:
over base elements, over extension elements, in each lane, and on the wires of both circuits. A
circuit may have inputs of its own, or come after any calls and read any wires that the completed
witness reads as the challenge and the terms, shared or not. -/
theorem combine_forms_eq_weightedSum :
    ((∀ terms : List Goldilocks, challenge.combine terms =
        ∑ i : Fin terms.length, challenge.beta ^ (i : ℕ) * terms[i] + challenge.gamma) ∧
      (∀ terms : List Cubic, challenge.combine terms =
        ∑ i : Fin terms.length, Cubic.ofBase challenge.beta ^ (i : ℕ) * terms[i] +
          Cubic.ofBase challenge.gamma) ∧
      (∀ terms : List Goldilocks,
        challenge.combine (terms.map Cubic.ofBase) = .ofBase (challenge.combine terms)) ∧
      ∀ (terms : List Lanes) (i : Fin 4), (challenge.combine terms).lane i =
        ∑ j : Fin terms.length, challenge.beta ^ (j : ℕ) * terms[j].lane i + challenge.gamma) ∧
    ((∀ terms : List Cubic, ∃ solved, (challenge.combineGiven terms).pose.solve = .ok solved ∧
        solved.witness.getCubic solved.result = .ok (challenge.combine terms)) ∧
      ∀ terms : List Goldilocks, ∃ solved,
        (challenge.combineBaseGiven terms).pose.solve = .ok solved ∧
          solved.witness.get solved.result = .ok (challenge.combine terms)) ∧
    ∀ (calls : List Call) (inputs v : Witness), Call.Completes calls inputs v →
      ∀ wires : Challenge Wire, wires.ReadsAs v challenge →
        (∀ (termWires : List CubicWire) (terms : List Cubic),
          termWires.map v.getCubic = terms.map .ok →
            Call.CompletesAfter calls inputs (wires.combineCircuit termWires) fun out v' =>
              v'.getCubic out = .ok (challenge.combine terms)) ∧
        ∀ (termWires : List Wire) (terms : List Goldilocks),
          termWires.map v.get = terms.map .ok →
            Call.CompletesAfter calls inputs (wires.combineBaseCircuit termWires) fun out v' =>
              v'.get out = .ok (challenge.combine terms) := by
  refine ⟨⟨challenge.combine_base, challenge.combine_cubic, fun terms => ?_,
    challenge.combine_lane⟩, ⟨fun terms => ?_, fun terms => ?_⟩, ?_⟩
  · exact (Cubic.isMorphism_ofBase.map_combine challenge terms).symm
  · obtain ⟨solved, values, hsolve, hout, hget⟩ :=
      (challenge.yields_combineGiven terms).exists_solve
    exact ⟨solved, hsolve, hout.getCubic hget⟩
  · obtain ⟨solved, values, hsolve, hout, hget⟩ :=
      (challenge.yields_combineBaseGiven terms).exists_solve
    exact ⟨solved, hsolve, Witness.get_eq_ok_iff.mpr (hget _ _ hout)⟩
  · intro calls inputs v hcompletes wires hwires
    obtain ⟨values, hv, hstep⟩ := hcompletes.exists_step
    have hchallenge := hwires.holds hv
    constructor
    · intro termWires terms hterms
      obtain ⟨v', values', hv', hget, hout⟩ :=
        hstep (Build.yields_combineCircuit hchallenge (forall₂_cubic_of_getCubic hv hterms))
      exact ⟨v', hv', hout.getCubic fun wire a hwire => (hget wire).trans hwire⟩
    · intro termWires terms hterms
      obtain ⟨v', values', hv', hget, hout⟩ :=
        hstep (Build.yields_combineBaseCircuit hchallenge (forall₂_holds_of_get hv hterms))
      exact ⟨v', hv', Witness.get_eq_ok_iff.mpr ((hget _).trans hout)⟩

section Shared

/-- A challenge on the product and on an input. -/
def sharedWires : Challenge Wire :=
  ⟨⟨3⟩, ⟨0⟩⟩

/-- Terms on the same wires. -/
def sharedTerms : List CubicWire :=
  [⟨⟨0⟩, ⟨1⟩, ⟨3⟩⟩, ⟨⟨2⟩, ⟨2⟩, ⟨1⟩⟩, ⟨⟨3⟩, ⟨3⟩, ⟨3⟩⟩]

/-- Terms are combined on wires that they share with the challenge. -/
theorem combine_forms_eq_weightedSum_shared :
    Call.Completes Call.productCalls Call.productInputs Call.productValues ∧
    sharedWires.ReadsAs Call.productValues ⟨-.ofWord 2, .ofWord 2⟩ ∧
    (sharedTerms.map Call.productValues.getCubic =
        [⟨.ofWord 2, -1, -.ofWord 2⟩, ⟨0, 0, -1⟩, ⟨-.ofWord 2, -.ofWord 2, -.ofWord 2⟩].map .ok ∧
      Call.CompletesAfter Call.productCalls Call.productInputs
        (sharedWires.combineCircuit sharedTerms)
        fun out v => v.getCubic out = .ok ⟨-.ofWord 4, -.ofWord 9, -.ofWord 8⟩) ∧
    ([⟨3⟩, ⟨0⟩, ⟨1⟩].map Call.productValues.get = [-.ofWord 2, .ofWord 2, -1].map .ok ∧
      Call.CompletesAfter Call.productCalls Call.productInputs
        (sharedWires.combineBaseCircuit [⟨3⟩, ⟨0⟩, ⟨1⟩])
        fun out v => v.get out = .ok (-.ofWord 8)) := by
  have hread : sharedWires.ReadsAs Call.productValues ⟨-.ofWord 2, .ofWord 2⟩ :=
    ⟨by decide +kernel, by decide +kernel⟩
  have hterms : sharedTerms.map Call.productValues.getCubic =
      [⟨.ofWord 2, -1, -.ofWord 2⟩, ⟨0, 0, -1⟩, ⟨-.ofWord 2, -.ofWord 2, -.ofWord 2⟩].map .ok := by
    decide +kernel
  have hbase : [⟨3⟩, ⟨0⟩, ⟨1⟩].map Call.productValues.get =
      [-.ofWord 2, .ofWord 2, -1].map .ok := by
    decide +kernel
  obtain ⟨hcubic, hcombined⟩ := (combine_forms_eq_weightedSum ⟨-.ofWord 2, .ofWord 2⟩).2.2
    Call.productCalls Call.productInputs Call.productValues Call.completes_product sharedWires hread
  refine ⟨Call.completes_product, hread, ⟨hterms, ?_⟩, hbase, ?_⟩
  · obtain ⟨v, hv, hout⟩ := hcubic _ _ hterms
    exact ⟨v, hv, hout.trans (by decide +kernel)⟩
  · obtain ⟨v, hv, hout⟩ := hcombined _ _ hbase
    exact ⟨v, hv, hout.trans (by decide +kernel)⟩

end Shared

end Challenge

end CrossLookup
