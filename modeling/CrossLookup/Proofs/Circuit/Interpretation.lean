import CrossLookup.Circuit.Program
import CrossLookup.Proofs.Circuit.Witness
import Mathlib.Algebra.BigOperators.Group.List.Basic
import Mathlib.Logic.Function.Basic

/-!
# Direct interpretation of calls

A call names its arguments by wires that earlier calls returned. Read directly,
it applies an operation of the base field, the extension or the sponge to the
values that the wires stand for, and lets the wires that it returns stand for
the results. The values of inputs are given from outside.
-/

namespace CrossLookup

/-- The wires that a result names, the coefficients of an extension element lowest first. -/
def CallResult.returned : CallResult → List Wire
  | nothing => []
  | wire w => [w]
  | wires ws => ws
  | cubic x => x.parts
  | cubics xs => xs.flatMap CubicWire.parts
  | count _ => []

namespace Call

/-- Whether a call allocates inputs. -/
def isInput : Call → Bool
  | input => true
  | inputs _ => true
  | cubicInput => true
  | cubicInputs _ => true
  | _ => false

/-- The wires that a call takes as arguments. -/
def arguments : Call → List Wire
  | toCubic wire => [wire]
  | arithmetic _ _ left right addend => [left, right, addend]
  | add a b => [a, b]
  | sub a b => [a, b]
  | mul a b => [a, b]
  | mulAdd a b c => [a, b, c]
  | mulSub a b c => [a, b, c]
  | mulMany factors => factors
  | arithmeticCubic _ _ left right addend => left.parts ++ right.parts ++ addend.parts
  | addCubic a b => a.parts ++ b.parts
  | subCubic a b => a.parts ++ b.parts
  | mulCubic a b => a.parts ++ b.parts
  | mulAddCubic a b c => a.parts ++ b.parts ++ c.parts
  | mulSubCubic a b c => a.parts ++ b.parts ++ c.parts
  | mulManyCubic factors => factors.flatMap CubicWire.parts
  | scalarMulAddCubic s b c => [s] ++ b.parts ++ c.parts
  | innerProductCubic _ start pairs =>
      start.parts ++ pairs.flatMap fun pair => pair.1.parts ++ pair.2.parts
  | permute state => state.toList
  | connect a b => [a, b]
  | connectCubic a b => a.parts ++ b.parts
  | _ => []

/-- What a call other than an input computes from the values of its arguments. -/
def interpret (σ : Wire → Goldilocks) : Call → List Goldilocks
  | constant a => [a]
  | zero => [0]
  | one => [1]
  | constantCubic x => x.coefficients
  | zeroCubic => (0 : Cubic).coefficients
  | oneCubic => (1 : Cubic).coefficients
  | toCubic wire => (Cubic.ofBase (σ wire)).coefficients
  | arithmetic c0 c1 left right addend => [c0 * σ left * σ right + c1 * σ addend]
  | add a b => [σ a + σ b]
  | sub a b => [σ a - σ b]
  | mul a b => [σ a * σ b]
  | mulAdd a b c => [σ a * σ b + σ c]
  | mulSub a b c => [σ a * σ b - σ c]
  | mulMany factors => [(factors.map σ).prod]
  | arithmeticCubic c0 c1 left right addend =>
      (left.valueIn σ * right.valueIn σ * c0 + addend.valueIn σ * c1).coefficients
  | addCubic a b => (a.valueIn σ + b.valueIn σ).coefficients
  | subCubic a b => (a.valueIn σ - b.valueIn σ).coefficients
  | mulCubic a b => (a.valueIn σ * b.valueIn σ).coefficients
  | mulAddCubic a b c => (a.valueIn σ * b.valueIn σ + c.valueIn σ).coefficients
  | mulSubCubic a b c => (a.valueIn σ * b.valueIn σ - c.valueIn σ).coefficients
  | mulManyCubic factors => (factors.map (CubicWire.valueIn σ)).prod.coefficients
  | scalarMulAddCubic s b c => (σ s * b.valueIn σ + c.valueIn σ).coefficients
  | innerProductCubic factor start pairs =>
      (start.valueIn σ + (pairs.map fun pair =>
        (pair.1.valueIn σ * pair.2.valueIn σ * factor : Cubic)).sum).coefficients
  | permute state => (SpongeState.permute (state.map σ)).toList
  | _ => []

/-- Whether the values that a call connects agree. -/
def Agrees (σ : Wire → Goldilocks) : Call → Prop
  | connect a b => σ a = σ b
  | connectCubic a b => a.valueIn σ = b.valueIn σ
  | _ => True

/-- Let wires stand for further values. -/
def name (σ : Wire → Goldilocks) (named : List (Wire × Goldilocks)) : Wire → Goldilocks :=
  named.foldl (fun σ entry => Function.update σ entry.1 entry.2) σ

/-- The values that a call returns; those of inputs are given. -/
def meaning (given σ : Wire → Goldilocks) (call : Call) (result : CallResult) : List Goldilocks :=
  if call.isInput then result.returned.map given else call.interpret σ

/-- The values that calls return when they are interpreted in order, and what the wires stand
for in the end. -/
def interpretAll (given σ : Wire → Goldilocks) :
    List (Call × CallResult) → List (List Goldilocks) × (Wire → Goldilocks)
  | [] => ([], σ)
  | (call, result) :: rest =>
      let values := meaning given σ call result
      let (others, σ) := interpretAll given (name σ (result.returned.zip values)) rest
      (values :: others, σ)

/-- Every argument of a call is among the wires named by earlier results. -/
inductive Scoped : List Wire → List (Call × CallResult) → Prop
  | nil {earlier : List Wire} : Scoped earlier []
  | cons {earlier : List Wire} {call : Call} {result : CallResult}
      {rest : List (Call × CallResult)} (arguments : ∀ wire ∈ call.arguments, wire ∈ earlier)
      (later : Scoped (earlier ++ result.returned) rest) : Scoped earlier ((call, result) :: rest)

theorem scoped_cons_iff {earlier : List Wire} {call : Call} {result : CallResult}
    {rest : List (Call × CallResult)} : Scoped earlier ((call, result) :: rest) ↔
      (∀ wire ∈ call.arguments, wire ∈ earlier) ∧ Scoped (earlier ++ result.returned) rest := by
  constructor
  · rintro (_ | ⟨harguments, hlater⟩)
    exact ⟨harguments, hlater⟩
  · rintro ⟨harguments, hlater⟩
    exact .cons harguments hlater

instance decidableScoped : (earlier : List Wire) → (trace : List (Call × CallResult)) →
    Decidable (Scoped earlier trace)
  | _, [] => isTrue .nil
  | earlier, (_, result) :: rest =>
      have := decidableScoped (earlier ++ result.returned) rest
      decidable_of_iff _ scoped_cons_iff.symm

/-- The wires that a call returns as inputs. -/
def newInputs (call : Call) (result : CallResult) : List Wire :=
  if call.isInput then result.returned else []

/-- The wires that calls return as inputs. -/
def inputWires (trace : List (Call × CallResult)) : List Wire :=
  trace.flatMap fun entry => newInputs entry.1 entry.2

/-- Calls with what they return when they are run from a builder on. -/
def trace (b : Builder) (calls : List Call) : List (Call × CallResult) :=
  calls.zip ((runAll calls).run b).run.1

/-- The circuit that calls build. -/
def compiled (calls : List Call) : Circuit :=
  ((runAll calls).run .empty).run.2.circuit

section Trace

variable (b : Builder) (call : Call) (rest : List Call)

theorem trace_cons : trace b (call :: rest) =
    (call, (call.run.run b).run.1) :: trace (call.run.run b).run.2 rest :=
  rfl

theorem runAll_cons : ((runAll (call :: rest)).run b).run.2 =
    ((runAll rest).run (call.run.run b).run.2).run.2 :=
  rfl

theorem inputWires_cons (result : CallResult) (trace : List (Call × CallResult)) :
    inputWires ((call, result) :: trace) = newInputs call result ++ inputWires trace :=
  List.flatMap_cons

end Trace

end Call

end CrossLookup
