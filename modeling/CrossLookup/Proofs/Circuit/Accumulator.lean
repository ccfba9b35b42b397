import CrossLookup.Circuit.Accumulator
import CrossLookup.Proofs.Circuit.Extension
import CrossLookup.Proofs.Circuit.Given

/-!
# Folding inside a circuit computes the same combinations

An accumulator over wires holds an accumulator over values when its factors,
its selectors and its combinations do. Folding a residual in keeps this.
-/

namespace CrossLookup

variable {values values' : List Goldilocks}

/-- The wires of selectors hold their values. -/
structure Selectors.Holds (values : List Goldilocks) (wires : Selectors CubicWire)
    (selectors : Selectors Cubic) : Prop where
  zLast : wires.zLast.Holds values selectors.zLast
  first : wires.first.Holds values selectors.first
  last : wires.last.Holds values selectors.last

theorem Selectors.Holds.mono {wires : Selectors CubicWire} {selectors : Selectors Cubic}
    (h : wires.Holds values selectors) (hle : values <+: values') :
    wires.Holds values' selectors :=
  ⟨h.zLast.mono hle, h.first.mono hle, h.last.mono hle⟩

namespace CircuitAccumulator

/-- The wires of an accumulator hold the accumulator over values. -/
structure Holds (held : List Goldilocks) (wires : CircuitAccumulator) (acc : Accumulator Cubic) :
    Prop where
  alphas : List.Forall₂ (Wire.Holds held) wires.alphas acc.alphas
  values : List.Forall₂ (CubicWire.Holds held) wires.values acc.values
  selectors : wires.selectors.Holds held acc.selectors

variable {wires : CircuitAccumulator} {acc : Accumulator Cubic}

theorem Holds.mono (h : wires.Holds values acc) (hle : values <+: values') :
    wires.Holds values' acc where
  alphas := forall₂_holds_mono h.alphas hle
  values := forall₂_cubic_mono h.values hle
  selectors := h.selectors.mono hle

end CircuitAccumulator

namespace Build

theorem yields_foldValues {residual : CubicWire} {r : Cubic} {wires : List CubicWire}
    {xs : List Cubic} {alphas : List Wire} {as : List Goldilocks}
    (hresidual : residual.Holds values r)
    (hwires : List.Forall₂ (CubicWire.Holds values) wires xs)
    (halphas : List.Forall₂ (Wire.Holds values) alphas as) :
    Yields (CircuitAccumulator.foldValues residual wires alphas) values fun out values' =>
      List.Forall₂ (CubicWire.Holds values') out
        (List.zipWith (fun (x : Cubic) (a : Goldilocks) => x * a + r) xs as) := by
  induction wires generalizing values xs alphas as with
  | nil =>
      cases hwires
      exact Connects.pure .nil
  | cons wire rest ih =>
      cases hwires with
      | cons hwire hrest =>
          cases halphas with
          | nil => exact Connects.pure .nil
          | cons halpha hothers =>
              refine (yields_scalarMulAddCubic halpha hwire hresidual).bind
                fun folded values₁ hle₁ hfolded => ?_
              refine (ih (hresidual.mono hle₁) (forall₂_cubic_mono hrest hle₁)
                (forall₂_holds_mono hothers hle₁)).bind
                  fun others values₂ hle₂ hothers => Connects.pure ?_
              exact .cons (hfolded.mono hle₂) hothers

variable {wires : CircuitAccumulator} {acc : Accumulator Cubic} {residual : CubicWire} {r : Cubic}

theorem yields_start {alphas : List Wire} {as : List Goldilocks}
    {selectorWires : Selectors CubicWire} {selectors : Selectors Cubic}
    (halphas : List.Forall₂ (Wire.Holds values) alphas as)
    (hselectors : selectorWires.Holds values selectors) :
    Yields (CircuitAccumulator.start alphas selectorWires) values fun out values' =>
      out.Holds values' (.start as selectors) := by
  refine yields_zeroCubic.bind fun z values' hle hz => Connects.pure ?_
  refine ⟨forall₂_holds_mono halphas hle, ?_, hselectors.mono hle⟩
  change List.Forall₂ _ (alphas.map fun _ => z) (as.map fun _ => 0)
  rw [List.forall₂_map_left_iff, List.forall₂_map_right_iff]
  exact halphas.imp fun _ _ _ => hz

theorem yields_fold (hacc : wires.Holds values acc) (hresidual : residual.Holds values r) :
    Yields (wires.fold residual) values fun out values' => out.Holds values' (acc.fold r) := by
  refine (yields_foldValues hresidual hacc.values hacc.alphas).bind
    fun folded values' hle hfolded => Connects.pure ?_
  exact ⟨forall₂_holds_mono hacc.alphas hle, hfolded, hacc.selectors.mono hle⟩

theorem yields_foldSelected {selector : CubicWire} {s : Cubic} (hacc : wires.Holds values acc)
    (hselector : selector.Holds values s) (hresidual : residual.Holds values r) :
    Yields (wires.foldSelected selector residual) values fun out values' =>
      out.Holds values' (acc.fold (r * s)) :=
  (yields_mulCubic hresidual hselector).bind fun _ _ hle hscaled =>
    yields_fold (hacc.mono hle) hscaled

/-- Emitting a constraint over wires emits its residual over values. -/
theorem yields_emit (rows : ConstraintRows) (hacc : wires.Holds values acc)
    (hresidual : residual.Holds values r) :
    Yields (wires.emit rows residual) values fun out values' =>
      out.Holds values' (acc.emit rows r) := by
  cases rows with
  | every => exact yields_fold hacc hresidual
  | transition => exact yields_foldSelected hacc hacc.selectors.zLast hresidual
  | first => exact yields_foldSelected hacc hacc.selectors.first hresidual
  | last => exact yields_foldSelected hacc hacc.selectors.last hresidual

end Build

namespace Given

theorem yields_startGiven (alphas : List Goldilocks) (selectors : Selectors Cubic) :
    Yields (CircuitAccumulator.startGiven alphas selectors) values fun out values' =>
      out.Holds values' (.start alphas selectors) := by
  refine (yields_wires alphas).bind fun alphaWires values₁ _ halphas => ?_
  refine (yields_cubic selectors.zLast).bind fun zLast values₂ hle₂ hzLast => ?_
  refine (yields_cubic selectors.first).bind fun first values₃ hle₃ hfirst => ?_
  refine (yields_cubic selectors.last).bind fun last values₄ hle₄ hlast => ?_
  have hselectors : Selectors.Holds values₄ ⟨zLast, first, last⟩ selectors :=
    ⟨hzLast.mono (hle₃.trans hle₄), hfirst.mono hle₄, hlast⟩
  exact Connects.lift (Build.yields_start
    (forall₂_holds_mono halphas (hle₂.trans (hle₃.trans hle₄))) hselectors)

end Given

end CrossLookup
