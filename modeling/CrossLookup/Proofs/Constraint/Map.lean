import CrossLookup.Constraint.Lookup

/-!
# Constraints over other values

A map of values applies to everything that constraint evaluation reads and
returns. A map that commutes with the operations on values commutes with the
evaluation of the lookup constraints.
-/

namespace CrossLookup

variable {V W α β : Type}

/-- Apply a function to both values of a challenge. -/
def Challenge.map (f : α → β) (challenge : Challenge α) : Challenge β :=
  ⟨f challenge.beta, f challenge.gamma⟩

/-- Apply a function to both rows of a frame. -/
def Frame.map (f : V → W) (frame : Frame V) : Frame W :=
  ⟨frame.current.map f, frame.next.map f⟩

/-- Apply a function to all selectors. -/
def Selectors.map (f : V → W) (selectors : Selectors V) : Selectors W :=
  ⟨f selectors.zLast, f selectors.first, f selectors.last⟩

/-- Apply functions to the values and to the challenge of an opened product. -/
def OpenedProduct.map (f : V → W) (g : α → β) (opened : OpenedProduct V α) :
    OpenedProduct W β where
  z := f opened.z
  nextZ := f opened.nextZ
  challenge := opened.challenge.map g
  columns := opened.columns
  filter := opened.filter

/-- Apply a function to the combinations and the selectors. -/
def Accumulator.map (f : V → W) (acc : Accumulator V) : Accumulator W :=
  ⟨acc.alphas, acc.values.map f, acc.selectors.map f⟩

section Filter

variable [BaseAlgebra V]

/-- The value of an optional filter on a frame; one when absent. -/
def Frame.filterValue (frame : Frame V) (filter : Option Column) : V :=
  match filter with
  | some column => column.evalWithNext frame.current frame.next
  | none => 1

theorem OpenedProduct.select_eq (opened : OpenedProduct V Goldilocks) (frame : Frame V) :
    opened.select frame =
      frame.filterValue opened.filter *
          opened.challenge.combine (opened.columns.map fun column =>
            column.evalWithNext frame.current frame.next) +
        1 - frame.filterValue opened.filter := by
  unfold select Frame.filterValue
  cases opened.filter with
  | none => rfl
  | some column => rfl

end Filter

/-- A map of values that commutes with the operations of constraint evaluation. -/
structure IsMorphism [BaseAlgebra V] [BaseAlgebra W] (f : V → W) : Prop where
  zero : f 0 = 0
  one : f 1 = 1
  add : ∀ a b, f (a + b) = f a + f b
  sub : ∀ a b, f (a - b) = f a - f b
  mul : ∀ a b, f (a * b) = f a * f b
  ofBase : ∀ a, f (BaseAlgebra.ofBase a) = BaseAlgebra.ofBase a
  scale : ∀ a s, f (BaseAlgebra.scale a s) = BaseAlgebra.scale (f a) s
  addBase : ∀ a s, f (BaseAlgebra.addBase a s) = BaseAlgebra.addBase (f a) s

namespace IsMorphism

variable [BaseAlgebra V] [BaseAlgebra W] {f : V → W}

theorem getD_map (hf : IsMorphism f) (row : Array V) (i : Nat) :
    (row.map f).getD i 0 = f (row.getD i 0) := by
  rw [← hf.zero]
  simp only [Array.getD_eq_getD_getElem?, Array.getElem?_map, Option.getD_map]

theorem map_addTerms (hf : IsMorphism f) (row : Array V) (terms : List Term) (start : V) :
    f (Column.addTerms row terms start) = Column.addTerms (row.map f) terms (f start) := by
  unfold Column.addTerms
  induction terms generalizing start with
  | nil => rfl
  | cons term rest ih =>
      rw [List.foldl_cons, List.foldl_cons, ih, hf.add, hf.scale, hf.getD_map]

theorem map_evalWithNext (hf : IsMorphism f) (column : Column) (row next : Array V) :
    f (column.evalWithNext row next) = column.evalWithNext (row.map f) (next.map f) := by
  rw [Column.evalWithNext, Column.eval, hf.map_addTerms, hf.map_addTerms, hf.ofBase]
  rfl

theorem map_combine (hf : IsMorphism f) (challenge : Challenge Goldilocks) (terms : List V) :
    f (challenge.combine terms) = challenge.combine (terms.map f) := by
  have hhorner : f (terms.foldr (fun term acc => BaseAlgebra.scale acc challenge.beta + term) 0) =
      (terms.map f).foldr (fun term acc => BaseAlgebra.scale acc challenge.beta + term) 0 := by
    induction terms with
    | nil => exact hf.zero
    | cons term rest ih =>
        rw [List.foldr_cons, hf.add, hf.scale, ih, List.map_cons, List.foldr_cons]
  rw [Challenge.combine, hf.addBase, hhorner]
  rfl

theorem map_filterValue (hf : IsMorphism f) (frame : Frame V) (filter : Option Column) :
    f (frame.filterValue filter) = (frame.map f).filterValue filter := by
  cases filter with
  | none => exact hf.one
  | some column => exact hf.map_evalWithNext column _ _

theorem map_select (hf : IsMorphism f) (opened : OpenedProduct V Goldilocks) (frame : Frame V) :
    f (opened.select frame) = (opened.map f id).select (frame.map f) := by
  have hvalues : (opened.columns.map fun column =>
        column.evalWithNext frame.current frame.next).map f =
      opened.columns.map fun column =>
        column.evalWithNext (frame.current.map f) (frame.next.map f) := by
    rw [List.map_map]
    exact List.map_congr_left fun column _ => hf.map_evalWithNext column _ _
  rw [OpenedProduct.select_eq, OpenedProduct.select_eq, hf.sub, hf.add, hf.mul, hf.one,
    hf.map_combine, hf.map_filterValue, hvalues]
  rfl

theorem map_fold (hf : IsMorphism f) (acc : Accumulator V) (residual : V) :
    (acc.fold residual).map f = (acc.map f).fold (f residual) := by
  simp only [Accumulator.fold, Accumulator.map, List.map_zipWith, List.zipWith_map_left, hf.add,
    hf.scale]

theorem map_emit (hf : IsMorphism f) (acc : Accumulator V) (rows : ConstraintRows)
    (residual : V) : (acc.emit rows residual).map f = (acc.map f).emit rows (f residual) := by
  cases rows with
  | every => exact hf.map_fold acc residual
  | transition => exact (hf.map_fold acc _).trans (congrArg _ (hf.mul residual _))
  | first => exact (hf.map_fold acc _).trans (congrArg _ (hf.mul residual _))
  | last => exact (hf.map_fold acc _).trans (congrArg _ (hf.mul residual _))

theorem map_start (hf : IsMorphism f) (alphas : List Goldilocks) (selectors : Selectors V) :
    (Accumulator.start alphas selectors).map f = .start alphas (selectors.map f) := by
  simp only [Accumulator.start, Accumulator.map, List.map_map, Function.comp_def, hf.zero]

theorem map_check (hf : IsMorphism f) (frame : Frame V) (acc : Accumulator V)
    (opened : OpenedProduct V Goldilocks) :
    (opened.check frame acc).map f = (opened.map f id).check (frame.map f) (acc.map f) := by
  simp only [OpenedProduct.check, hf.map_emit, hf.sub, hf.mul, hf.map_select]
  rfl

/-- Evaluating the constraints commutes with a morphism of values. -/
theorem map_checkLookups (hf : IsMorphism f) (frame : Frame V)
    (opened : List (OpenedProduct V Goldilocks)) (acc : Accumulator V) :
    (checkLookups frame opened acc).map f =
      checkLookups (frame.map f) (opened.map (OpenedProduct.map f id)) (acc.map f) := by
  unfold checkLookups
  induction opened generalizing acc with
  | nil => rfl
  | cons product rest ih =>
      rw [List.foldl_cons, List.map_cons, List.foldl_cons, ih, hf.map_check]

end IsMorphism

end CrossLookup
