import CrossLookup.Circuit.Column
import CrossLookup.Proofs.Circuit.Extension

/-!
# Columns and challenges inside a circuit compute the same values

A column over wires pairs each term with a constant wire and adds the products
up in the order in which a column over values adds its scaled terms.
-/

namespace CrossLookup

namespace Column

/-- Every term reads a column within the width of its row. -/
structure ReadsWithin (column : Column) (width nextWidth : Nat) : Prop where
  terms : ∀ term ∈ column.terms, term.1 < width
  nextTerms : ∀ term ∈ column.nextTerms, term.1 < nextWidth

instance (column : Column) (width nextWidth : Nat) :
    Decidable (column.ReadsWithin width nextWidth) :=
  decidable_of_iff _ ⟨fun h => ⟨h.1, h.2⟩, fun h => And.intro h.terms h.nextTerms⟩

/-- The values that the terms of a column read, paired with their embedded coefficients. -/
def termValues (row : Array Cubic) (terms : List Term) : List (Cubic × Cubic) :=
  terms.map fun term => (row.getD term.1 0, .ofBase term.2)

theorem foldl_termValues (row : Array Cubic) (terms : List Term) (start : Cubic) :
    (termValues row terms).foldl (fun acc pair =>
        Gate.extensionValue 1 1 pair.1 pair.2 acc) start = addTerms row terms start := by
  rw [termValues, List.foldl_map, addTerms]
  congr 1
  funext acc term
  rw [Gate.extensionValue_eq, Cubic.ofBase_one, one_mul, one_mul, add_comm]
  exact congrArg (acc + ·) (Cubic.scale_eq_mul _ _).symm

theorem foldl_termValues_append (column : Column) (row next : Array Cubic) :
    (termValues row column.terms ++ termValues next column.nextTerms).foldl (fun acc pair =>
        Gate.extensionValue 1 1 pair.1 pair.2 acc) (.ofBase column.constant) =
      column.evalWithNext row next := by
  rw [List.foldl_append, foldl_termValues, foldl_termValues]
  rfl

end Column

/-- The wires of a row hold its values. -/
def RowHolds (values : List Goldilocks) (wires : Array CubicWire) (row : Array Cubic) : Prop :=
  List.Forall₂ (CubicWire.Holds values) wires.toList row.toList

section RowHolds

variable {values values' : List Goldilocks} {wires : Array CubicWire} {row : Array Cubic}

theorem RowHolds.mono (h : RowHolds values wires row) (hle : values <+: values') :
    RowHolds values' wires row :=
  forall₂_cubic_mono h hle

theorem RowHolds.size_eq (h : RowHolds values wires row) : wires.size = row.size :=
  h.length_eq

theorem RowHolds.getD (h : RowHolds values wires row) {i : Nat} (hi : i < row.size) :
    (wires.getD i default).Holds values (row.getD i 0) := by
  have hwires : i < wires.size := hi.trans_eq h.size_eq.symm
  rw [Array.getD, dif_pos hwires, Array.getD, dif_pos hi]
  exact h.get hwires hi

end RowHolds

namespace Build

variable {values : List Goldilocks} {wires nextWires : Array CubicWire} {row next : Array Cubic}

theorem yields_termPairs (hrow : RowHolds values wires row) {terms : List Term}
    (hterms : ∀ term ∈ terms, term.1 < row.size) :
    Yields (Column.termPairs wires terms) values fun pairs values' =>
      List.Forall₂ (PairHolds values') pairs (Column.termValues row terms) := by
  induction terms generalizing values with
  | nil => exact Connects.pure .nil
  | cons term rest ih =>
      obtain ⟨hterm, hrest⟩ := List.forall_mem_cons.mp hterms
      refine (yields_constantCubic (.ofBase term.2)).bind fun c values₁ hle₁ hc => ?_
      refine (ih (hrow.mono hle₁) hrest).bind fun pairs values₂ hle₂ hpairs => Connects.pure ?_
      exact .cons ⟨(hrow.getD hterm).mono (hle₁.trans hle₂), hc.mono hle₂⟩ hpairs

/-- A column over the wires of one row holds its value there, next-row terms left out. -/
theorem yields_evalCircuit {column : Column} (hrow : RowHolds values wires row)
    (hterms : ∀ term ∈ column.terms, term.1 < row.size) :
    Yields (column.evalCircuit wires) values fun out values' =>
      out.Holds values' (column.eval row) := by
  refine (yields_termPairs hrow hterms).bind fun pairs values₁ _ hpairs => ?_
  refine (yields_constantCubic (.ofBase column.constant)).bind fun start values₂ hle hstart => ?_
  have hpairs' := hpairs.imp fun _ _ hholds => hholds.mono hle
  refine (yields_innerProductCubic hstart hpairs').mono fun out _ _ hout => hout.of_eq ?_
  exact Column.foldl_termValues row column.terms (.ofBase column.constant)

/-- A column over wires holds the value of the column over values. -/
theorem yields_evalWithNextCircuit {column : Column} (hrow : RowHolds values wires row)
    (hnext : RowHolds values nextWires next)
    (hreads : column.ReadsWithin row.size next.size) :
    Yields (column.evalWithNextCircuit wires nextWires) values fun out values' =>
      out.Holds values' (column.evalWithNext row next) := by
  refine (yields_termPairs hrow hreads.terms).bind fun pairs values₁ hle₁ hpairs => ?_
  refine (yields_termPairs (hnext.mono hle₁) hreads.nextTerms).bind
    fun nextPairs values₂ hle₂ hnextPairs => ?_
  refine (yields_constantCubic (.ofBase column.constant)).bind fun start values₃ hle₃ hstart => ?_
  have hall := List.rel_append
    (hpairs.imp fun _ _ hholds => hholds.mono (hle₂.trans hle₃))
    (hnextPairs.imp fun _ _ hholds => hholds.mono hle₃)
  refine (yields_innerProductCubic hstart hall).mono fun out _ _ hout => hout.of_eq ?_
  exact Column.foldl_termValues_append column row next

theorem yields_evalAllCircuit {columns : List Column} (hrow : RowHolds values wires row)
    (hnext : RowHolds values nextWires next)
    (hreads : ∀ column ∈ columns, column.ReadsWithin row.size next.size) :
    Yields (Column.evalAllCircuit wires nextWires columns) values fun out values' =>
      List.Forall₂ (CubicWire.Holds values') out
        (columns.map fun column => column.evalWithNext row next) := by
  induction columns generalizing values with
  | nil => exact Connects.pure .nil
  | cons column rest ih =>
      obtain ⟨hcolumn, hrest⟩ := List.forall_mem_cons.mp hreads
      refine (yields_evalWithNextCircuit hrow hnext hcolumn).bind fun out values₁ hle₁ hout => ?_
      refine (ih (hrow.mono hle₁) (hnext.mono hle₁) hrest).bind
        fun others values₂ hle₂ hothers => Connects.pure ?_
      exact .cons (hout.mono hle₂) hothers

end Build

/-- The wires of a challenge hold its values. -/
structure Challenge.Holds (values : List Goldilocks) (wires : Challenge Wire)
    (challenge : Challenge Goldilocks) : Prop where
  beta : wires.beta.Holds values challenge.beta
  gamma : wires.gamma.Holds values challenge.gamma

theorem Challenge.Holds.mono {values values' : List Goldilocks} {wires : Challenge Wire}
    {challenge : Challenge Goldilocks} (h : wires.Holds values challenge)
    (hle : values <+: values') : wires.Holds values' challenge :=
  ⟨h.beta.mono hle, h.gamma.mono hle⟩

namespace Build

variable {values : List Goldilocks}

/-- Horner's scheme over wires holds Horner's scheme over values. -/
theorem yields_hornerCubic {beta : Wire} {b : Goldilocks} {start : CubicWire} {s : Cubic}
    {wires : List CubicWire} {terms : List Cubic} (hbeta : beta.Holds values b)
    (hstart : start.Holds values s) (hterms : List.Forall₂ (CubicWire.Holds values) wires terms) :
    Yields (wires.foldrM (fun term acc => scalarMulAddCubic beta acc term) start) values
      fun out values' => out.Holds values' (terms.foldr (fun term acc => acc * b + term) s) :=
  yields_foldrM CubicWire.Holds CubicWire.Holds (fun h hle => h.mono hle)
    (fun hle hacc hterm => yields_scalarMulAddCubic (hbeta.mono hle) hacc hterm) hstart hterms

/-- A challenge over wires combines wires as the challenge over values combines their values. -/
theorem yields_combineCircuit {challengeWires : Challenge Wire}
    {challenge : Challenge Goldilocks} {wires : List CubicWire} {terms : List Cubic}
    (hchallenge : challengeWires.Holds values challenge)
    (hterms : List.Forall₂ (CubicWire.Holds values) wires terms) :
    Yields (challengeWires.combineCircuit wires) values fun out values' =>
      out.Holds values' (challenge.combine terms) := by
  refine yields_zeroCubic.bind fun start values₁ hle₁ hstart => ?_
  refine (yields_hornerCubic (hchallenge.beta.mono hle₁) hstart
    (forall₂_cubic_mono hterms hle₁)).bind fun sum values₂ hle₂ hsum => ?_
  have hgamma := hchallenge.gamma.mono (hle₁.trans hle₂)
  refine (yields_toCubic hgamma).bind fun gamma values₃ hle₃ hgamma' => ?_
  refine (yields_addCubic (hsum.mono hle₃) hgamma').mono fun out _ _ hout => hout.of_eq ?_
  exact (Cubic.addBase_eq_add _ _).symm

end Build

end CrossLookup
