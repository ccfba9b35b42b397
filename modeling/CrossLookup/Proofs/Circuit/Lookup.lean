import CrossLookup.Circuit.Lookup
import CrossLookup.Proofs.Circuit.Accumulator
import CrossLookup.Proofs.Circuit.Column
import CrossLookup.Proofs.Constraint.Map
import Mathlib.Data.List.GetD

/-!
# The constraints of a lookup inside a circuit

A circuit that evaluates the constraints on input wires is solved for all
inputs, and its accumulators hold the combinations of the residuals over the
values of these inputs.
-/

namespace CrossLookup

open Build

variable {values values' : List Goldilocks}

/-- Every column of the side of an opened product reads within the rows of a frame. -/
def OpenedProduct.ReadsWithin {V W α : Type} (opened : OpenedProduct V α) (frame : Frame W) :
    Prop :=
  ∀ column ∈ opened.columns ++ opened.filter.toList,
    column.ReadsWithin frame.current.size frame.next.size

instance {V W α : Type} (opened : OpenedProduct V α) (frame : Frame W) :
    Decidable (opened.ReadsWithin frame) :=
  inferInstanceAs (Decidable (∀ column ∈ _, _))

/-- The wires of a frame hold its values. -/
structure Frame.Holds (values : List Goldilocks) (wires : Frame CubicWire) (frame : Frame Cubic) :
    Prop where
  current : RowHolds values wires.current frame.current
  next : RowHolds values wires.next frame.next

theorem Frame.Holds.mono {wires : Frame CubicWire} {frame : Frame Cubic}
    (h : wires.Holds values frame) (hle : values <+: values') : wires.Holds values' frame :=
  ⟨h.current.mono hle, h.next.mono hle⟩

namespace OpenedProduct

/-- The wires of an opened product hold its values, and both are of the same side. -/
structure Holds (values : List Goldilocks) (wires : OpenedProduct CubicWire Wire)
    (opened : OpenedProduct Cubic Goldilocks) : Prop where
  z : wires.z.Holds values opened.z
  nextZ : wires.nextZ.Holds values opened.nextZ
  challenge : wires.challenge.Holds values opened.challenge
  columns_eq : wires.columns = opened.columns
  filter_eq : wires.filter = opened.filter

theorem Holds.mono {wires : OpenedProduct CubicWire Wire} {opened : OpenedProduct Cubic Goldilocks}
    (h : wires.Holds values opened) (hle : values <+: values') : wires.Holds values' opened :=
  ⟨h.z.mono hle, h.nextZ.mono hle, h.challenge.mono hle, h.columns_eq, h.filter_eq⟩

/-- The wires of the filter on a frame; those of one when absent. -/
def filterCircuit (opened : OpenedProduct CubicWire Wire) (frame : Frame CubicWire)
    (one : CubicWire) : Build CubicWire :=
  match opened.filter with
  | some column => column.evalWithNextCircuit frame.current frame.next
  | none => pure one

theorem selectCircuit_eq (opened : OpenedProduct CubicWire Wire) (frame : Frame CubicWire)
    (one : CubicWire) :
    opened.selectCircuit frame one = (do
      let filter ← opened.filterCircuit frame one
      let values ← Column.evalAllCircuit frame.current frame.next opened.columns
      let combined ← opened.challenge.combineCircuit values
      let unfiltered ← Build.subCubic one filter
      Build.mulAddCubic filter combined unfiltered) := by
  unfold selectCircuit filterCircuit
  cases opened.filter with
  | none => rfl
  | some column => rfl

end OpenedProduct

namespace Build

variable {frameWires : Frame CubicWire} {frame : Frame Cubic} {one : CubicWire}
  {wires : OpenedProduct CubicWire Wire} {opened : OpenedProduct Cubic Goldilocks}
  {accWires : CircuitAccumulator} {acc : Accumulator Cubic}

theorem yields_filterCircuit (hframe : frameWires.Holds values frame) (hone : one.Holds values 1)
    (hopened : wires.Holds values opened) (hreads : opened.ReadsWithin frame) :
    Yields (wires.filterCircuit frameWires one) values fun out values' =>
      out.Holds values' (frame.filterValue opened.filter) := by
  rw [OpenedProduct.filterCircuit, hopened.filter_eq]
  cases hfilter : opened.filter with
  | none => exact Connects.pure hone
  | some column =>
      have hcolumn : column ∈ opened.columns ++ opened.filter.toList := by simp [hfilter]
      exact yields_evalWithNextCircuit hframe.current hframe.next (hreads column hcolumn)

theorem yields_selectCircuit (hframe : frameWires.Holds values frame) (hone : one.Holds values 1)
    (hopened : wires.Holds values opened) (hreads : opened.ReadsWithin frame) :
    Yields (wires.selectCircuit frameWires one) values fun out values' =>
      out.Holds values' (opened.select frame) := by
  rw [OpenedProduct.selectCircuit_eq]
  refine (yields_filterCircuit hframe hone hopened hreads).bind
    fun filter values₁ hle₁ hfilter => ?_
  have hcolumns := yields_evalAllCircuit (hframe.current.mono hle₁) (hframe.next.mono hle₁)
    fun column hcolumn => hreads column (List.mem_append_left _ hcolumn)
  rw [hopened.columns_eq]
  refine hcolumns.bind fun evaluated values₂ hle₂ hevaluated => ?_
  have hchallenge := hopened.challenge.mono (hle₁.trans hle₂)
  refine (yields_combineCircuit hchallenge hevaluated).bind
    fun combined values₃ hle₃ hcombined => ?_
  have hfilter₃ := hfilter.mono (hle₂.trans hle₃)
  refine (yields_subCubic (hone.mono (hle₁.trans (hle₂.trans hle₃))) hfilter₃).bind
    fun unfiltered values₄ hle₄ hunfiltered => ?_
  refine (yields_mulAddCubic (hfilter₃.mono hle₄) (hcombined.mono hle₄) hunfiltered).mono
    fun out _ _ hout => hout.of_eq ?_
  exact (add_sub_assoc _ _ _).symm

theorem yields_checkCircuit (hframe : frameWires.Holds values frame) (hone : one.Holds values 1)
    (hacc : accWires.Holds values acc) (hopened : wires.Holds values opened)
    (hreads : opened.ReadsWithin frame) :
    Yields (wires.checkCircuit frameWires one accWires) values fun out values' =>
      out.Holds values' (opened.check frame acc) := by
  refine (yields_selectCircuit hframe hone hopened hreads).bind fun s values₁ hle₁ hs => ?_
  have hopened₁ := hopened.mono hle₁
  refine (yields_subCubic hopened₁.z hs).bind fun last values₂ hle₂ hlast => ?_
  refine (yields_emit .last (hacc.mono (hle₁.trans hle₂)) hlast).bind
    fun acc₃ values₃ hle₃ hacc₃ => ?_
  have hopened₃ := hopened₁.mono (hle₂.trans hle₃)
  refine (yields_mulSubCubic hopened₃.nextZ (hs.mono (hle₂.trans hle₃)) hopened₃.z).bind
    fun transition values₄ hle₄ htransition => ?_
  exact yields_emit .transition (hacc₃.mono hle₄) htransition

/-- Every check over wires keeps the accumulator over values in the accumulator over wires. -/
theorem yields_foldlM_checkCircuit (hframe : frameWires.Holds values frame)
    (hone : one.Holds values 1) (hacc : accWires.Holds values acc)
    {allWires : List (OpenedProduct CubicWire Wire)}
    {allOpened : List (OpenedProduct Cubic Goldilocks)}
    (hopened : List.Forall₂ (OpenedProduct.Holds values) allWires allOpened)
    (hreads : ∀ opened ∈ allOpened, opened.ReadsWithin frame) :
    Yields (allWires.foldlM (OpenedProduct.checkCircuit frameWires one) accWires) values
      fun out values' => out.Holds values' (checkLookups frame allOpened acc) := by
  have hreadable : List.Forall₂ (fun wires opened =>
      opened.ReadsWithin frame ∧ OpenedProduct.Holds values wires opened) allWires allOpened :=
    ((List.forall₂_and_left allOpened allWires).mpr ⟨hreads, hopened.flip⟩).flip
  exact yields_foldlM CircuitAccumulator.Holds
    (fun values wires opened =>
      opened.ReadsWithin frame ∧ OpenedProduct.Holds values wires opened)
    (fun h hle => ⟨h.1, h.2.mono hle⟩)
    (fun hle hacc h => yields_checkCircuit (hframe.mono hle) (hone.mono hle) hacc h.2 h.1)
    hacc hreadable

theorem yields_checkLookupsCircuit (hframe : frameWires.Holds values frame)
    (hacc : accWires.Holds values acc) {allWires : List (OpenedProduct CubicWire Wire)}
    {allOpened : List (OpenedProduct Cubic Goldilocks)}
    (hopened : List.Forall₂ (OpenedProduct.Holds values) allWires allOpened)
    (hreads : ∀ opened ∈ allOpened, opened.ReadsWithin frame) :
    Yields (checkLookupsCircuit frameWires allWires accWires) values fun out values' =>
      out.Holds values' (checkLookups frame allOpened acc) :=
  yields_oneCubic.bind fun _ _ hle hone =>
    yields_foldlM_checkCircuit (hframe.mono hle) hone (hacc.mono hle)
      (hopened.imp fun _ _ hholds => hholds.mono hle) hreads

end Build

namespace Given

theorem yields_cubics (xs : List Cubic) :
    Yields (cubics xs) values fun ws values' => List.Forall₂ (CubicWire.Holds values') ws xs :=
  (yields_mapM (fun x values' ws => ws.Holds values' x) (fun h hle => h.mono hle)
    (fun x _ => yields_cubic x) xs).mono fun _ _ _ h => h.flip

theorem yields_challenge (c : Challenge Goldilocks) :
    Yields (challenge c) values fun wires values' => wires.Holds values' c := by
  refine (yields_wire c.beta).bind fun beta values₁ _ hbeta => ?_
  refine (yields_wire c.gamma).bind fun gamma values₂ hle hgamma => Connects.pure ?_
  exact ⟨hbeta.mono hle, hgamma⟩

theorem yields_opened (opened : OpenedProduct Cubic Goldilocks) :
    Yields opened.given values fun wires values' => wires.Holds values' opened := by
  refine (yields_cubic opened.z).bind fun z values₁ _ hz => ?_
  refine (yields_cubic opened.nextZ).bind fun nextZ values₂ hle₂ hnextZ => ?_
  refine (yields_challenge opened.challenge).bind
    fun challenge values₃ hle₃ hchallenge => Connects.pure ?_
  exact ⟨hz.mono (hle₂.trans hle₃), hnextZ.mono hle₃, hchallenge, rfl, rfl⟩

theorem yields_allOpened (opened : List (OpenedProduct Cubic Goldilocks)) :
    Yields (opened.mapM OpenedProduct.given) values fun wires values' =>
      List.Forall₂ (OpenedProduct.Holds values') wires opened :=
  (yields_mapM (fun product values' wires => wires.Holds values' product)
    (fun h hle => h.mono hle) (fun product _ => yields_opened product) opened).mono
      fun _ _ _ h => h.flip

end Given

/-- The constraints on inputs of their own. -/
def checkGivenLookups (frame : Frame Cubic) (opened : List (OpenedProduct Cubic Goldilocks))
    (alphas : List Goldilocks) (selectors : Selectors Cubic) : Given CircuitAccumulator := do
  let acc ← CircuitAccumulator.startGiven alphas selectors
  let current ← Given.cubics frame.current.toList
  let next ← Given.cubics frame.next.toList
  let opened ← opened.mapM OpenedProduct.given
  checkLookupsCircuit ⟨current.toArray, next.toArray⟩ opened acc

theorem yields_checkGivenLookups {frame : Frame Cubic}
    {opened : List (OpenedProduct Cubic Goldilocks)}
    (hreads : ∀ product ∈ opened, product.ReadsWithin frame) (alphas : List Goldilocks)
    (selectors : Selectors Cubic) :
    Given.Yields (checkGivenLookups frame opened alphas selectors) values fun out values' =>
      out.Holds values' (checkLookups frame opened (.start alphas selectors)) := by
  refine (Given.yields_startGiven alphas selectors).bind fun acc values₁ _ hacc => ?_
  refine (Given.yields_cubics frame.current.toList).bind fun current values₂ hle₂ hcurrent => ?_
  refine (Given.yields_cubics frame.next.toList).bind fun next values₃ hle₃ hnext => ?_
  refine (Given.yields_allOpened opened).bind fun wires values₄ hle₄ hopened => ?_
  have hframe : Frame.Holds values₄ ⟨current.toArray, next.toArray⟩ frame :=
    ⟨forall₂_cubic_mono hcurrent (hle₃.trans hle₄), forall₂_cubic_mono hnext hle₄⟩
  have hacc₄ := hacc.mono (hle₂.trans (hle₃.trans hle₄))
  exact Given.Connects.lift (yields_checkLookupsCircuit hframe hacc₄ hopened hreads)

section Shared

variable {n : Nat}

/-- The places of three coefficients among `n` inputs. -/
abbrev CubicPlace (n : Nat) := Fin n × Fin n × Fin n

/-- The wire of the input at a place. -/
def wireAt (wires : List Wire) (place : Fin n) : Wire :=
  wires.getD place default

/-- The wires of the inputs at three places. -/
def cubicWireAt (wires : List Wire) (places : CubicPlace n) : CubicWire :=
  ⟨wireAt wires places.1, wireAt wires places.2.1, wireAt wires places.2.2⟩

/-- The extension element of the inputs at three places. -/
def cubicAt (inputs : List Goldilocks) (places : CubicPlace inputs.length) : Cubic :=
  ⟨inputs.get places.1, inputs.get places.2.1, inputs.get places.2.2⟩

/-- The constraints on inputs that may be shared between their parts. -/
def checkSharedLookups (inputs : List Goldilocks) (frame : Frame (CubicPlace n))
    (opened : List (OpenedProduct (CubicPlace n) (Fin n))) (alphas : List (Fin n))
    (selectors : Selectors (CubicPlace n)) : Given CircuitAccumulator := do
  let wires ← Given.wires inputs
  let acc ← CircuitAccumulator.start (alphas.map (wireAt wires))
    (selectors.map (cubicWireAt wires))
  checkLookupsCircuit (frame.map (cubicWireAt wires))
    (opened.map (OpenedProduct.map (cubicWireAt wires) (wireAt wires))) acc

variable {wires : List Wire} {inputs : List Goldilocks}

theorem holds_wireAt (hwires : List.Forall₂ (Wire.Holds values) wires inputs)
    (place : Fin inputs.length) : (wireAt wires place).Holds values (inputs.get place) := by
  have hlt : place.val < wires.length := place.isLt.trans_eq hwires.length_eq.symm
  rw [wireAt, List.getD_eq_getElem _ _ hlt]
  exact hwires.get hlt place.isLt

theorem holds_cubicWireAt (hwires : List.Forall₂ (Wire.Holds values) wires inputs)
    (places : CubicPlace inputs.length) :
    (cubicWireAt wires places).Holds values (cubicAt inputs places) :=
  ⟨holds_wireAt hwires _, holds_wireAt hwires _, holds_wireAt hwires _⟩

theorem holds_map_frame (hwires : List.Forall₂ (Wire.Holds values) wires inputs)
    (frame : Frame (CubicPlace inputs.length)) :
    (frame.map (cubicWireAt wires)).Holds values (frame.map (cubicAt inputs)) := by
  constructor
  · simp only [RowHolds, Frame.map, Array.toList_map, List.forall₂_map_left_iff,
      List.forall₂_map_right_iff, List.forall₂_same]
    exact fun places _ => holds_cubicWireAt hwires places
  · simp only [RowHolds, Frame.map, Array.toList_map, List.forall₂_map_left_iff,
      List.forall₂_map_right_iff, List.forall₂_same]
    exact fun places _ => holds_cubicWireAt hwires places

theorem holds_map_opened (hwires : List.Forall₂ (Wire.Holds values) wires inputs)
    (opened : OpenedProduct (CubicPlace inputs.length) (Fin inputs.length)) :
    (opened.map (cubicWireAt wires) (wireAt wires)).Holds values
      (opened.map (cubicAt inputs) inputs.get) where
  z := holds_cubicWireAt hwires _
  nextZ := holds_cubicWireAt hwires _
  challenge := ⟨holds_wireAt hwires _, holds_wireAt hwires _⟩
  columns_eq := rfl
  filter_eq := rfl

theorem readsWithin_map {V W V' W' α β : Type} {f : V → V'} {g : α → β} {k : W → W'}
    {opened : OpenedProduct V α} {frame : Frame W} (h : opened.ReadsWithin frame) :
    (opened.map f g).ReadsWithin (frame.map k) := by
  simp only [OpenedProduct.ReadsWithin, Frame.map, Array.size_map]
  exact h

theorem yields_checkSharedLookups {frame : Frame (CubicPlace inputs.length)}
    {opened : List (OpenedProduct (CubicPlace inputs.length) (Fin inputs.length))}
    (hreads : ∀ product ∈ opened, product.ReadsWithin frame) (alphas : List (Fin inputs.length))
    (selectors : Selectors (CubicPlace inputs.length)) :
    Given.Yields (checkSharedLookups inputs frame opened alphas selectors) values
      fun out values' => out.Holds values' (checkLookups (frame.map (cubicAt inputs))
        (opened.map (OpenedProduct.map (cubicAt inputs) inputs.get))
        (.start (alphas.map inputs.get) (selectors.map (cubicAt inputs)))) := by
  refine (Given.yields_wires inputs).bind fun wires values₁ _ hwires => ?_
  have halphas : List.Forall₂ (Wire.Holds values₁) (alphas.map (wireAt wires))
      (alphas.map inputs.get) := by
    rw [List.forall₂_map_left_iff, List.forall₂_map_right_iff, List.forall₂_same]
    exact fun place _ => holds_wireAt hwires place
  have hselectors : (selectors.map (cubicWireAt wires)).Holds values₁
      (selectors.map (cubicAt inputs)) :=
    ⟨holds_cubicWireAt hwires _, holds_cubicWireAt hwires _, holds_cubicWireAt hwires _⟩
  have hopened : List.Forall₂ (OpenedProduct.Holds values₁)
      (opened.map (OpenedProduct.map (cubicWireAt wires) (wireAt wires)))
      (opened.map (OpenedProduct.map (cubicAt inputs) inputs.get)) := by
    rw [List.forall₂_map_left_iff, List.forall₂_map_right_iff, List.forall₂_same]
    exact fun product _ => holds_map_opened hwires product
  have hwithin : ∀ product ∈ opened.map (OpenedProduct.map (cubicAt inputs) inputs.get),
      product.ReadsWithin (frame.map (cubicAt inputs)) :=
    List.forall_mem_map.mpr fun product hproduct => readsWithin_map (hreads product hproduct)
  refine (Given.Connects.lift (yields_start halphas hselectors)).bind fun acc values₂ hle hacc => ?_
  exact Given.Connects.lift (yields_checkLookupsCircuit ((holds_map_frame hwires frame).mono hle)
    hacc (hopened.imp fun _ _ hholds => hholds.mono hle) hwithin)

end Shared

theorem CubicWire.Holds.getCubic {wires : CubicWire} {x : Cubic} (h : wires.Holds values x)
    {w : Witness} (hw : ∀ wire a, Wire.Holds values wire a → w.get? wire = some a) :
    w.getCubic wires = .ok x := by
  have hσ := extends_valueAt values
  rw [Witness.getCubic_eq (σ := valueAt values), hσ.valueIn_eq h]
  simp [CubicWire.parts, hw _ _ h.c0, hw _ _ h.c1, hw _ _ h.c2, hσ _ _ h.c0, hσ _ _ h.c1,
    hσ _ _ h.c2]

/-- A construction whose accumulator holds a native one is solved, and its witness reads it. -/
theorem exists_solve_accumulator {construction : Given CircuitAccumulator} {acc : Accumulator Cubic}
    (h : Given.Yields construction [] fun out values' => out.Holds values' acc) :
    ∃ solved, construction.pose.solve = .ok solved ∧
      solved.result.values.map solved.witness.getCubic = acc.values.map .ok := by
  obtain ⟨solved, values, hsolve, hholds, hget⟩ := h.exists_solve
  exact ⟨solved, hsolve, map_eq_map_of_forall₂ (fun _ _ h => h.getCubic hget) hholds.values⟩

/-- The circuit of the constraints is solved for all inputs, of their own or shared, and its
accumulators hold the combinations over the values. -/
theorem solve_checkLookups :
    (∀ (frame : Frame Cubic) (opened : List (OpenedProduct Cubic Goldilocks))
      (alphas : List Goldilocks) (selectors : Selectors Cubic),
      (∀ product ∈ opened, product.ReadsWithin frame) → ∃ solved,
        (checkGivenLookups frame opened alphas selectors).pose.solve = .ok solved ∧
          solved.result.values.map solved.witness.getCubic =
            (checkLookups frame opened (.start alphas selectors)).values.map .ok) ∧
    ∀ (inputs : List Goldilocks) (frame : Frame (CubicPlace inputs.length))
      (opened : List (OpenedProduct (CubicPlace inputs.length) (Fin inputs.length)))
      (alphas : List (Fin inputs.length)) (selectors : Selectors (CubicPlace inputs.length)),
      (∀ product ∈ opened, product.ReadsWithin frame) → ∃ solved,
        (checkSharedLookups inputs frame opened alphas selectors).pose.solve = .ok solved ∧
          solved.result.values.map solved.witness.getCubic =
            (checkLookups (frame.map (cubicAt inputs))
              (opened.map (OpenedProduct.map (cubicAt inputs) inputs.get))
              (.start (alphas.map inputs.get) (selectors.map (cubicAt inputs)))).values.map
                .ok := by
  constructor
  · intro frame opened alphas selectors hreads
    exact exists_solve_accumulator (yields_checkGivenLookups hreads alphas selectors)
  · intro inputs frame opened alphas selectors hreads
    exact exists_solve_accumulator (yields_checkSharedLookups hreads alphas selectors)

/-- A frame of two columns. -/
def sampleFrame : Frame Cubic :=
  ⟨#[⟨.ofWord 3, .ofWord 1, 0⟩, 1], #[⟨.ofWord 5, 0, .ofWord 2⟩, 0]⟩

/-- A filtered product of a payload that reads both rows, and a product without a filter. -/
def sampleOpened : List (OpenedProduct Cubic Goldilocks) :=
  [⟨⟨.ofWord 7, 0, 0⟩, ⟨.ofWord 2, .ofWord 9, 0⟩, ⟨.ofWord 11, .ofWord 13⟩,
      [.single 0, .singleNextRow 1], some (.single 1)⟩,
    ⟨1, ⟨0, 0, .ofWord 4⟩, ⟨.ofWord 6, 0⟩, [.ofConstant (.ofWord 8)], none⟩]

/-- Selectors that no row of a trace has. -/
def sampleSelectors : Selectors Cubic :=
  ⟨1, ⟨.ofWord 2, 0, .ofWord 1⟩, ⟨0, .ofWord 3, 0⟩⟩

/-- A frame whose six coefficients are two inputs. -/
def sharedFrame : Frame (CubicPlace 2) :=
  ⟨#[(0, 1, 1)], #[(1, 0, 0)]⟩

/-- A filtered product on the same two inputs. -/
def sharedOpened : List (OpenedProduct (CubicPlace 2) (Fin 2)) :=
  [⟨(0, 0, 1), (1, 1, 1), ⟨0, 1⟩, [.single 0], some (.singleNextRow 0)⟩]

theorem solve_checkLookups_sample :
    ((∀ product ∈ sampleOpened, product.ReadsWithin sampleFrame) ∧ ∃ solved,
      (checkGivenLookups sampleFrame sampleOpened [.ofWord 3, .ofWord 5]
          sampleSelectors).pose.solve = .ok solved ∧
        solved.result.values.map solved.witness.getCubic =
          (checkLookups sampleFrame sampleOpened
            (.start [.ofWord 3, .ofWord 5] sampleSelectors)).values.map .ok) ∧
    (∀ product ∈ sharedOpened, product.ReadsWithin sharedFrame) ∧ ∃ solved,
      (checkSharedLookups [.ofWord 3, .ofWord 5] sharedFrame sharedOpened [1, 1]
          ⟨(0, 0, 0), (1, 0, 1), (0, 1, 1)⟩).pose.solve = .ok solved := by
  have hreads : ∀ product ∈ sampleOpened, product.ReadsWithin sampleFrame := by decide
  have hshared : ∀ product ∈ sharedOpened, product.ReadsWithin sharedFrame := by decide
  obtain ⟨solved, hsolved, _⟩ := solve_checkLookups.2 [.ofWord 3, .ofWord 5] sharedFrame
    sharedOpened [1, 1] ⟨(0, 0, 0), (1, 0, 1), (0, 1, 1)⟩ hshared
  exact ⟨⟨hreads, solve_checkLookups.1 sampleFrame sampleOpened [.ofWord 3, .ofWord 5]
    sampleSelectors hreads⟩, hshared, solved, hsolved⟩

end CrossLookup
