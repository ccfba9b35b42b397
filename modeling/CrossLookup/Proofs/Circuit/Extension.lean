import CrossLookup.Proofs.Circuit.Build
import CrossLookup.Proofs.Field.Cubic

/-!
# What the steps over extension elements compute

Three wires that hold an extension element enter an extension gate together.
Every derived operation yields wires that hold the operation of the extension.
-/

namespace CrossLookup

namespace Gate

/-- The value of an extension gate, with the factors embedded. -/
theorem extensionValue_eq (c0 c1 : Goldilocks) (left right addend : Cubic) :
    extensionValue c0 c1 left right addend =
      Cubic.ofBase c0 * left * right + Cubic.ofBase c1 * addend := by
  rw [extensionValue, Cubic.scale_eq_mul, Cubic.scale_eq_mul]
  ring

end Gate

section Holds

variable {values : List Goldilocks} {wires : CubicWire} {x y : Cubic}

theorem CubicWire.Holds.of_eq (h : wires.Holds values x) (hxy : x = y) : wires.Holds values y :=
  hxy ▸ h

theorem CubicWire.Holds.lt (h : wires.Holds values x) :
    ∀ wire ∈ wires.parts, wire.index < values.length := by
  simp [CubicWire.parts, h.c0.lt, h.c1.lt, h.c2.lt]

theorem Extends.valueIn_eq {σ : Wire → Goldilocks} (hσ : Extends σ values)
    (h : wires.Holds values x) : wires.valueIn σ = x := by
  rw [CubicWire.valueIn, hσ _ _ h.c0, hσ _ _ h.c1, hσ _ _ h.c2]

theorem forall₂_cubic_mono {values' : List Goldilocks} {wires : List CubicWire} {xs : List Cubic}
    (h : List.Forall₂ (CubicWire.Holds values) wires xs) (hle : values <+: values') :
    List.Forall₂ (CubicWire.Holds values') wires xs :=
  h.imp fun _ _ hholds => hholds.mono hle

end Holds

namespace Build

variable {values : List Goldilocks}

theorem yields_constantCubic (x : Cubic) :
    Yields (constantCubic x) values fun wires values' => wires.Holds values' x := by
  refine (yields_constant x.c0).bind fun c0 values₀ _ h0 => ?_
  refine (yields_constant x.c1).bind fun c1 values₁ hle₁ h1 => ?_
  refine (yields_constant x.c2).bind fun c2 values₂ hle₂ h2 => Connects.pure ?_
  exact ⟨h0.mono (hle₁.trans hle₂), h1.mono hle₂, h2⟩

theorem yields_zeroCubic : Yields zeroCubic values fun wires values' => wires.Holds values' 0 :=
  yields_constantCubic 0

theorem yields_oneCubic : Yields oneCubic values fun wires values' => wires.Holds values' 1 :=
  yields_constantCubic 1

/-- A base wire with two zero wires holds the embedding of its value. -/
theorem yields_toCubic {wire : Wire} {a : Goldilocks} (h : wire.Holds values a) :
    Yields (toCubic wire) values fun wires values' => wires.Holds values' (.ofBase a) := by
  refine yields_zero.bind fun z values' hle hz => Connects.pure ?_
  exact ⟨h.mono hle, hz, hz⟩

/-- The output wires of an extension gate hold the value of the gate. -/
theorem yields_arithmeticCubic {left right addend : CubicWire} {l r a : Cubic}
    (c0 c1 : Goldilocks) (hleft : left.Holds values l) (hright : right.Holds values r)
    (haddend : addend.Holds values a) :
    Yields (arithmeticCubic c0 c1 left right addend) values fun wires values' =>
      wires.Holds values' (Gate.extensionValue c0 c1 l r a) := by
  intro b inputs connected hb
  let out : CubicWire := ⟨⟨b.wireCount⟩, ⟨b.wireCount + 1⟩, ⟨b.wireCount + 1 + 1⟩⟩
  let value := Gate.extensionValue c0 c1 l r a
  have hout : out.parts = nextWires values.length value.coefficients.length := by
    rw [← hb.wireCount_eq]
    rfl
  have hreads : ∀ wire ∈ (Gate.extension c0 c1 left right addend out).reads,
      wire.index < values.length := by
    simp only [Gate.reads, List.forall_mem_append]
    exact ⟨⟨hleft.lt, hright.lt⟩, haddend.lt⟩
  have hcomputed : ∀ σ, Extends σ values →
      (Gate.extension c0 c1 left right addend out).computed σ = value.coefficients := by
    intro σ hσ
    rw [Gate.computed, hσ.valueIn_eq hleft, hσ.valueIn_eq hright, hσ.valueIn_eq haddend]
  have hgate := hb.gate (.extension c0 c1 left right addend out) value.coefficients hreads hout
    hcomputed
  have hholds : List.Forall₂ (Wire.Holds (values ++ value.coefficients)) out.parts
      value.coefficients := by
    rw [hout]
    exact forall₂_nextWires values value.coefficients
  simp only [CubicWire.parts, Cubic.coefficients, List.forall₂_cons] at hholds
  rw [List.append_nil]
  exact ⟨_, List.prefix_append _ _, hgate, ⟨hholds.1, hholds.2.1, hholds.2.2.1⟩⟩

section Operations

variable {left right addend : CubicWire} {l r a : Cubic}

theorem yields_addCubic (hleft : left.Holds values l) (hright : right.Holds values r) :
    Yields (addCubic left right) values fun wires values' => wires.Holds values' (l + r) := by
  refine yields_oneCubic.bind fun u values' hle hu => ?_
  refine (yields_arithmeticCubic 1 1 (hleft.mono hle) hu (hright.mono hle)).mono
    fun wires _ _ hwires => hwires.of_eq ?_
  simp [Gate.extensionValue_eq]

theorem yields_subCubic (hleft : left.Holds values l) (hright : right.Holds values r) :
    Yields (subCubic left right) values fun wires values' => wires.Holds values' (l - r) := by
  refine yields_oneCubic.bind fun u values' hle hu => ?_
  refine (yields_arithmeticCubic 1 (-1) (hleft.mono hle) hu (hright.mono hle)).mono
    fun wires _ _ hwires => hwires.of_eq ?_
  simp [Gate.extensionValue_eq, sub_eq_add_neg]

theorem yields_mulCubic (hleft : left.Holds values l) (hright : right.Holds values r) :
    Yields (mulCubic left right) values fun wires values' => wires.Holds values' (l * r) := by
  refine yields_zeroCubic.bind fun z values' hle hz => ?_
  refine (yields_arithmeticCubic 1 0 (hleft.mono hle) (hright.mono hle) hz).mono
    fun wires _ _ hwires => hwires.of_eq ?_
  simp [Gate.extensionValue_eq]

theorem yields_mulAddCubic (hleft : left.Holds values l) (hright : right.Holds values r)
    (haddend : addend.Holds values a) :
    Yields (mulAddCubic left right addend) values fun wires values' =>
      wires.Holds values' (l * r + a) :=
  (yields_arithmeticCubic 1 1 hleft hright haddend).mono fun wires _ _ hwires =>
    hwires.of_eq (by simp [Gate.extensionValue_eq])

theorem yields_mulSubCubic (hleft : left.Holds values l) (hright : right.Holds values r)
    (haddend : addend.Holds values a) :
    Yields (mulSubCubic left right addend) values fun wires values' =>
      wires.Holds values' (l * r - a) :=
  (yields_arithmeticCubic 1 (-1) hleft hright haddend).mono fun wires _ _ hwires =>
    hwires.of_eq (by simp [Gate.extensionValue_eq, sub_eq_add_neg])

/-- A scalar product inside the circuit is an extension product with the embedded scalar. -/
theorem yields_scalarMulAddCubic {scalar : Wire} {s : Goldilocks}
    (hscalar : scalar.Holds values s) (hleft : left.Holds values l)
    (haddend : addend.Holds values a) :
    Yields (scalarMulAddCubic scalar left addend) values fun wires values' =>
      wires.Holds values' (l * s + a) := by
  refine (yields_toCubic hscalar).bind fun x values' hle hx => ?_
  refine (yields_mulAddCubic hx (hleft.mono hle) (haddend.mono hle)).mono
    fun wires _ _ hwires => hwires.of_eq ?_
  rw [Cubic.scale_eq_mul, mul_comm]

end Operations

theorem yields_foldlM_mulCubic {wires : List CubicWire} {xs : List Cubic} {first : CubicWire}
    {x : Cubic} (hfirst : first.Holds values x)
    (hwires : List.Forall₂ (CubicWire.Holds values) wires xs) :
    Yields (wires.foldlM mulCubic first) values fun out values' =>
      out.Holds values' (x * xs.prod) := by
  rw [← List.prod_cons, List.prod_eq_foldl, List.foldl_cons, one_mul]
  exact yields_foldlM CubicWire.Holds CubicWire.Holds (fun h hle => h.mono hle)
    (fun _ => yields_mulCubic) hfirst hwires

/-- The product of extension wires holds the product of their values. -/
theorem yields_mulManyCubic {wires : List CubicWire} {xs : List Cubic}
    (hwires : List.Forall₂ (CubicWire.Holds values) wires xs) :
    Yields (mulManyCubic wires) values fun out values' => out.Holds values' xs.prod := by
  cases hwires with
  | nil => exact yields_oneCubic
  | cons hfirst hrest => exact yields_foldlM_mulCubic hfirst hrest

/-- The wires of a pair hold the elements of a pair. -/
structure PairHolds (values : List Goldilocks) (wires : CubicWire × CubicWire)
    (pair : Cubic × Cubic) : Prop where
  left : wires.1.Holds values pair.1
  right : wires.2.Holds values pair.2

theorem PairHolds.mono {wires : CubicWire × CubicWire} {pair : Cubic × Cubic}
    (h : PairHolds values wires pair) {values' : List Goldilocks} (hle : values <+: values') :
    PairHolds values' wires pair :=
  ⟨h.left.mono hle, h.right.mono hle⟩

/-- An inner product adds the products of the pairs to its start. -/
theorem yields_innerProductCubic {factor : Goldilocks} {start : CubicWire} {s : Cubic}
    {wires : List (CubicWire × CubicWire)} {pairs : List (Cubic × Cubic)}
    (hstart : start.Holds values s) (hpairs : List.Forall₂ (PairHolds values) wires pairs) :
    Yields (innerProductCubic factor start wires) values fun out values' =>
      out.Holds values' (pairs.foldl (fun acc pair =>
        Gate.extensionValue factor 1 pair.1 pair.2 acc) s) := by
  unfold innerProductCubic
  exact yields_foldlM CubicWire.Holds PairHolds (fun h hle => h.mono hle)
    (fun _ hacc hpair => yields_arithmeticCubic factor 1 hpair.left hpair.right hacc) hstart hpairs

end Build

end CrossLookup
