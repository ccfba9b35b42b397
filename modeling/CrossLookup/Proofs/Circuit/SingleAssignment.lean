import CrossLookup.Proofs.Circuit.Build
import CrossLookup.Proofs.Circuit.Interpretation

/-!
# Every wire is assigned once

An invariant that the primitive steps of a construction keep is kept by every
call that allocates no inputs, whatever wires its arguments name. One such
invariant is that the inputs and the outputs of the gates are the allocated
wires without repetition, and that no two constant gates have one value.
-/

namespace CrossLookup

namespace Gate

/-- The value of a constant gate. -/
def constant? : Gate → Option Goldilocks
  | constant value _ => some value
  | _ => none

end Gate

namespace Build

variable {α β : Type} {I : Builder → Prop}

/-- A step leads from builders with a property to builders with it. -/
def Keeps (I : Builder → Prop) (step : Build α) : Prop :=
  ∀ b, I b → I (step.run b).run.2

namespace Keeps

theorem pure (a : α) : Keeps I (Pure.pure a) :=
  fun _ hb => hb

theorem bind {step : Build α} {next : α → Build β} (hstep : Keeps I step)
    (hnext : ∀ a, Keeps I (next a)) : Keeps I (step >>= next) :=
  fun b hb => hnext _ _ (hstep b hb)

theorem map {step : Build α} (f : α → β) (hstep : Keeps I step) :
    Keeps I (do return f (← step)) :=
  hstep.bind fun _ => pure _

theorem foldlM {f : α → β → Build α} (hf : ∀ a b, Keeps I (f a b)) (bs : List β) (a : α) :
    Keeps I (bs.foldlM f a) := by
  induction bs generalizing a with
  | nil => exact pure a
  | cons b rest ih =>
      rw [List.foldlM_cons]
      exact (hf a b).bind ih

end Keeps

/-- The primitive steps that allocate no inputs keep a property of builders. -/
structure KeptByPrimitives (I : Builder → Prop) : Prop where
  constant : ∀ a, Keeps I (constant a)
  arithmetic : ∀ c0 c1 left right addend, Keeps I (arithmetic c0 c1 left right addend)
  arithmeticCubic : ∀ c0 c1 left right addend, Keeps I (arithmeticCubic c0 c1 left right addend)
  permute : ∀ state, Keeps I (permute state)
  connect : ∀ a b, Keeps I (connect a b)

namespace KeptByPrimitives

variable (h : KeptByPrimitives I)

include h

theorem constantCubic (x : Cubic) : Keeps I (constantCubic x) :=
  (h.constant x.c0).bind fun _ => (h.constant x.c1).bind fun _ => (h.constant x.c2).map _

theorem toCubic (wire : Wire) : Keeps I (toCubic wire) :=
  (h.constant 0).map _

theorem mul (a b : Wire) : Keeps I (mul a b) :=
  (h.constant 0).bind fun z => h.arithmetic 1 0 a b z

theorem mulMany (factors : List Wire) : Keeps I (mulMany factors) := by
  cases factors with
  | nil => exact h.constant 1
  | cons first rest => exact Keeps.foldlM h.mul rest first

theorem mulCubic (a b : CubicWire) : Keeps I (mulCubic a b) :=
  (h.constantCubic 0).bind fun z => h.arithmeticCubic 1 0 a b z

theorem mulManyCubic (factors : List CubicWire) : Keeps I (mulManyCubic factors) := by
  cases factors with
  | nil => exact h.constantCubic 1
  | cons first rest => exact Keeps.foldlM h.mulCubic rest first

theorem innerProductCubic (factor : Goldilocks) (start : CubicWire)
    (pairs : List (CubicWire × CubicWire)) : Keeps I (innerProductCubic factor start pairs) := by
  rw [Build.innerProductCubic]
  exact Keeps.foldlM (fun acc pair => h.arithmeticCubic factor 1 pair.1 pair.2 acc) pairs start

/-- Every call that allocates no inputs is made of the primitive steps. -/
theorem run {call : Call} (hcall : call.isInput = false) : Keeps I call.run := by
  cases call with
  | input => cases hcall
  | inputs n => cases hcall
  | cubicInput => cases hcall
  | cubicInputs n => cases hcall
  | constant a => exact (h.constant a).map _
  | zero => exact (h.constant 0).map _
  | one => exact (h.constant 1).map _
  | constantCubic x => exact (h.constantCubic x).map _
  | zeroCubic => exact (h.constantCubic 0).map _
  | oneCubic => exact (h.constantCubic 1).map _
  | toCubic wire => exact (h.toCubic wire).map _
  | arithmetic c0 c1 left right addend => exact (h.arithmetic c0 c1 left right addend).map _
  | add a b => exact ((h.constant 1).bind fun u => h.arithmetic 1 1 a u b).map _
  | sub a b => exact ((h.constant 1).bind fun u => h.arithmetic 1 (-1) a u b).map _
  | mul a b => exact (h.mul a b).map _
  | mulAdd a b c => exact (h.arithmetic 1 1 a b c).map _
  | mulSub a b c => exact (h.arithmetic 1 (-1) a b c).map _
  | mulMany factors => exact (h.mulMany factors).map _
  | arithmeticCubic c0 c1 left right addend =>
      exact (h.arithmeticCubic c0 c1 left right addend).map _
  | addCubic a b => exact ((h.constantCubic 1).bind fun u => h.arithmeticCubic 1 1 a u b).map _
  | subCubic a b =>
      exact ((h.constantCubic 1).bind fun u => h.arithmeticCubic 1 (-1) a u b).map _
  | mulCubic a b => exact (h.mulCubic a b).map _
  | mulAddCubic a b c => exact (h.arithmeticCubic 1 1 a b c).map _
  | mulSubCubic a b c => exact (h.arithmeticCubic 1 (-1) a b c).map _
  | mulManyCubic factors => exact (h.mulManyCubic factors).map _
  | scalarMulAddCubic s b c =>
      exact ((h.toCubic s).bind fun x => h.arithmeticCubic 1 1 x b c).map _
  | innerProductCubic factor start pairs =>
      exact (h.innerProductCubic factor start pairs).map _
  | permute state => exact (h.permute state).map _
  | connect a b => exact (h.connect a b).map _
  | connectCubic a b =>
      exact ((h.connect a.c0 b.c0).bind fun _ => (h.connect a.c1 b.c1).bind fun _ =>
        h.connect a.c2 b.c2).map _
  | gateCount => exact fun _ hb => hb

end KeptByPrimitives

end Build

theorem nextWires_append (start m n : Nat) :
    nextWires start (m + n) = nextWires start m ++ nextWires (start + m) n := by
  rw [nextWires, nextWires, nextWires, ← List.map_append, List.range'_append_1]

namespace Builder

/-- The inputs and the outputs of the gates are the allocated wires, each once, and the constant
gates have the values of the noted constants, each once. -/
structure AssignsOnce (inputs : List Wire) (b : Builder) : Prop where
  wires : (inputs ++ b.gates.toList.flatMap Gate.writes).Perm (nextWires 0 b.wireCount)
  constants : b.constants.map Prod.fst = (b.gates.toList.filterMap Gate.constant?).reverse
  distinct : (b.gates.toList.filterMap Gate.constant?).Nodup

theorem assignsOnce_empty : empty.AssignsOnce [] :=
  ⟨.refl [], rfl, List.nodup_nil⟩

variable {b : Builder} {inputs : List Wire}

theorem AssignsOnce.allocate (h : b.AssignsOnce inputs) (count : Nat) :
    { b with wireCount := b.wireCount + count : Builder }.AssignsOnce
      (inputs ++ nextWires b.wireCount count) := by
  refine ⟨?_, h.constants, h.distinct⟩
  change List.Perm _ (nextWires 0 (b.wireCount + count))
  rw [nextWires_append, Nat.zero_add, List.append_assoc]
  calc
    (inputs ++ (nextWires b.wireCount count ++ b.gates.toList.flatMap Gate.writes)).Perm
        (inputs ++ (b.gates.toList.flatMap Gate.writes ++ nextWires b.wireCount count)) :=
      List.perm_append_comm.append_left inputs
    _ = inputs ++ b.gates.toList.flatMap Gate.writes ++ nextWires b.wireCount count :=
      (List.append_assoc _ _ _).symm
    List.Perm _ (nextWires 0 b.wireCount ++ nextWires b.wireCount count) :=
      h.wires.append_right _

/-- The wires stay assigned once when a gate assigns to the next wires. -/
theorem AssignsOnce.perm_push (h : b.AssignsOnce inputs) {gate : Gate} {count : Nat}
    (hwrites : gate.writes = nextWires b.wireCount count) :
    (inputs ++ (b.gates.push gate).toList.flatMap Gate.writes).Perm
      (nextWires 0 (b.wireCount + count)) := by
  rw [Array.toList_push, List.flatMap_append, List.flatMap_singleton, hwrites, nextWires_append,
    Nat.zero_add, ← List.append_assoc]
  exact h.wires.append_right _

theorem AssignsOnce.gate (h : b.AssignsOnce inputs) {gate : Gate} (count : Nat)
    (hwrites : gate.writes = nextWires b.wireCount count) (hconstant : gate.constant? = none) :
    { b with wireCount := b.wireCount + count, gates := b.gates.push gate : Builder }.AssignsOnce
      inputs := by
  have hconstants : (b.gates.push gate).toList.filterMap Gate.constant? =
      b.gates.toList.filterMap Gate.constant? := by
    simp [hconstant]
  refine ⟨h.perm_push hwrites, ?_, ?_⟩
  · rw [hconstants]
    exact h.constants
  · rw [hconstants]
    exact h.distinct

/-- A constant gate may be added for a value that has none. -/
theorem AssignsOnce.constant (h : b.AssignsOnce inputs) {a : Goldilocks}
    (hlookup : b.constants.lookup a = none) :
    { b with
      wireCount := b.wireCount + 1
      gates := b.gates.push (.constant a ⟨b.wireCount⟩)
      constants := (a, ⟨b.wireCount⟩) :: b.constants : Builder }.AssignsOnce inputs := by
  have hconstants : (b.gates.push (.constant a ⟨b.wireCount⟩)).toList.filterMap Gate.constant? =
      b.gates.toList.filterMap Gate.constant? ++ [a] := by
    simp [Gate.constant?]
  have hnew : a ∉ b.gates.toList.filterMap Gate.constant? := by
    rw [← List.mem_reverse, ← h.constants]
    intro hmem
    obtain ⟨entry, hentry, rfl⟩ := List.mem_map.mp hmem
    simpa using List.lookup_eq_none_iff.mp hlookup entry hentry
  refine ⟨h.perm_push rfl, ?_, ?_⟩
  · rw [hconstants, List.reverse_append, ← h.constants]
    rfl
  · rw [hconstants]
    exact (List.perm_append_singleton a _).nodup_iff.mpr (List.nodup_cons.mpr ⟨hnew, h.distinct⟩)

/-- Every primitive step assigns to new wires only. -/
theorem keptByPrimitives_assignsOnce (inputs : List Wire) :
    Build.KeptByPrimitives fun b => b.AssignsOnce inputs where
  constant := by
    intro a b hb
    cases hlookup : b.constants.lookup a with
    | some wire =>
        rw [Build.run_constant_of_some hlookup]
        exact hb
    | none =>
        rw [Build.run_constant_of_none hlookup]
        exact hb.constant hlookup
  arithmetic := by
    intro c0 c1 left right addend b hb
    exact hb.gate 1 rfl rfl
  arithmeticCubic := by
    intro c0 c1 left right addend b hb
    exact hb.gate 3 rfl rfl
  permute := by
    intro state b hb
    exact hb.gate 16 (Build.toList_newState b.wireCount) rfl
  connect := by
    intro lhs rhs b hb
    exact ⟨hb.wires, hb.constants, hb.distinct⟩

end Builder

end CrossLookup
