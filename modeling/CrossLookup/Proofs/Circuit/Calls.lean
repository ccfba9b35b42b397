import CrossLookup.Proofs.Circuit.Extension
import CrossLookup.Proofs.Circuit.SingleAssignment

/-!
# What one call computes

Input calls allocate the next wires, for any values. Every other call, from
wires that hold the values of its arguments, yields wires that hold its direct
interpretation, and connects the values that it requires to agree.
-/

namespace CrossLookup

section Holds

variable {values : List Goldilocks} {σ : Wire → Goldilocks}

/-- The wires that a result names hold values. -/
def CallResult.Holds (values : List Goldilocks) (result : CallResult) (as : List Goldilocks) :
    Prop :=
  List.Forall₂ (Wire.Holds values) result.returned as

theorem CubicWire.Holds.parts {wires : CubicWire} {x : Cubic} (h : wires.Holds values x) :
    List.Forall₂ (Wire.Holds values) wires.parts x.coefficients :=
  .cons h.c0 (.cons h.c1 (.cons h.c2 .nil))

theorem CubicWire.holds_valueIn {wires : CubicWire}
    (h : ∀ wire ∈ wires.parts, wire.Holds values (σ wire)) :
    wires.Holds values (wires.valueIn σ) := by
  simp only [CubicWire.parts, List.forall_mem_cons] at h
  exact ⟨h.1, h.2.1, h.2.2.1⟩

end Holds

namespace Gate

/-- An inner product adds every scaled product of a pair to the start. -/
theorem foldl_extensionValue (factor : Goldilocks) (start : Cubic)
    (pairs : List (Cubic × Cubic)) :
    pairs.foldl (fun acc pair => extensionValue factor 1 pair.1 pair.2 acc) start =
      start + (pairs.map fun pair => (pair.1 * pair.2 * factor : Cubic)).sum := by
  induction pairs generalizing start with
  | nil => rw [List.foldl_nil, List.map_nil, List.sum_nil, add_zero]
  | cons pair rest ih =>
      have hvalue : extensionValue factor 1 pair.1 pair.2 start =
          start + pair.1 * pair.2 * factor := by
        rw [extensionValue, Cubic.scale_eq_mul start, Cubic.ofBase_one, mul_one, add_comm]
      rw [List.foldl_cons, ih, hvalue, List.map_cons, List.sum_cons, add_assoc]

end Gate

theorem nextWires_succ (start n : Nat) :
    nextWires start (n + 1) = ⟨start⟩ :: nextWires (start + 1) n := by
  rw [Nat.add_comm, nextWires_append]
  rfl

/-- New input wires hold any values. -/
theorem Builder.Computes.inputs {b : Builder} {inputs : List (Wire × Goldilocks)}
    {values : List Goldilocks} {connected : List (Goldilocks × Goldilocks)}
    (h : b.Computes inputs values connected) (as : List Goldilocks) :
    { b with wireCount := b.wireCount + as.length : Builder }.Computes
      (inputs ++ (nextWires b.wireCount as.length).zip as) (values ++ as) connected := by
  induction as generalizing b inputs values with
  | nil =>
      rw [List.zip_nil_right, List.append_nil, List.append_nil]
      exact h
  | cons a rest ih =>
      have hrest := ih (h.input a)
      rw [List.append_assoc, List.append_assoc] at hrest
      rw [List.length_cons, nextWires_succ, List.zip_cons_cons]
      rw [Nat.add_comm rest.length, ← Nat.add_assoc]
      exact hrest

namespace Build

variable {values : List Goldilocks} (b : Builder) (n : Nat)

theorem run_inputs : ((inputs n).run b).run =
    (nextWires b.wireCount n, { b with wireCount := b.wireCount + n }) := by
  unfold inputs
  induction n generalizing b with
  | zero => rfl
  | succ n ih =>
      have hrest := ih { b with wireCount := b.wireCount + 1 }
      have hcount : b.wireCount + (n + 1) = b.wireCount + 1 + n := by omega
      rw [nextWires_succ, hcount]
      exact congrArg (Prod.map (List.cons ⟨b.wireCount⟩) id) hrest

theorem run_cubicInputs :
    ((cubicInputs n).run b).run.1.flatMap CubicWire.parts = nextWires b.wireCount (3 * n) ∧
      ((cubicInputs n).run b).run.2 = { b with wireCount := b.wireCount + 3 * n } := by
  unfold cubicInputs
  induction n generalizing b with
  | zero => exact ⟨rfl, rfl⟩
  | succ n ih =>
      obtain ⟨hwires, hrest⟩ := ih { b with wireCount := b.wireCount + 3 }
      rw [Nat.mul_succ, Nat.add_comm (3 * n), nextWires_append, ← Nat.add_assoc, ← hwires]
      exact ⟨rfl, hrest⟩

/-- Connecting extension elements connects their coefficients. -/
theorem connects_connectCubic {left right : CubicWire} {x y : Cubic}
    (hleft : left.Holds values x) (hright : right.Holds values y) :
    Connects (connectCubic left right) values (x.coefficients.zip y.coefficients)
      fun _ _ => True := by
  refine (connects_connect hleft.c0 hright.c0).bind fun _ _ hle _ => ?_
  refine (connects_connect (hleft.c1.mono hle) (hright.c1.mono hle)).bind fun _ _ hle' _ => ?_
  have hle := hle.trans hle'
  exact connects_connect (hleft.c2.mono hle) (hright.c2.mono hle)

theorem Connects.wire {step : Build Wire} {a : Goldilocks}
    (h : Yields step values fun wire values' => wire.Holds values' a) :
    Yields (do return CallResult.wire (← step)) values fun result values' =>
      result.Holds values' [a] :=
  h.bind fun _ _ _ hwire => Connects.pure (.cons hwire .nil)

theorem Connects.cubic {step : Build CubicWire} {x : Cubic}
    (h : Yields step values fun wires values' => wires.Holds values' x) :
    Yields (do return CallResult.cubic (← step)) values fun result values' =>
      result.Holds values' x.coefficients :=
  h.bind fun _ _ _ hwires => Connects.pure hwires.parts

end Build

namespace Call

open Build

variable {values : List Goldilocks} {σ τ : Wire → Goldilocks} {call : Call}

/-- The pairs of values that a call connects. -/
def connected (σ : Wire → Goldilocks) : Call → List (Goldilocks × Goldilocks)
  | connect a b => [(σ a, σ b)]
  | connectCubic a b => (a.valueIn σ).coefficients.zip (b.valueIn σ).coefficients
  | _ => []

theorem agrees_iff : call.Agrees σ ↔ ∀ pair ∈ call.connected σ, pair.1 = pair.2 := by
  cases call with
  | connect a b => simp [Agrees, connected]
  | connectCubic a b => simp [Agrees, connected, Cubic.coefficients, CubicWire.valueIn]
  | _ => exact ⟨fun _ => List.forall_mem_nil _, fun _ => trivial⟩

theorem connected_of_isInput (hcall : call.isInput = true) : call.connected σ = [] := by
  cases call with
  | connect a b => cases hcall
  | connectCubic a b => cases hcall
  | _ => rfl

/-- Whether a call's values agree depends on the values of its arguments only. -/
theorem agrees_congr (h : ∀ wire ∈ call.arguments, σ wire = τ wire) :
    call.Agrees σ ↔ call.Agrees τ := by
  cases call with
  | connect a b =>
      simp only [arguments, List.forall_mem_cons] at h
      rw [Agrees, Agrees, h.1, h.2.1]
  | connectCubic a b =>
      simp only [arguments, CubicWire.parts, List.forall_mem_append, List.forall_mem_cons] at h
      simp only [Agrees, CubicWire.valueIn, h]
  | _ => exact Iff.rfl

/-- Input calls return the next wires. -/
theorem run_of_isInput (hcall : call.isInput = true) (b : Builder) : ∃ n,
    (call.run.run b).run.2 = { b with wireCount := b.wireCount + n } ∧
      (call.run.run b).run.1.returned = nextWires b.wireCount n := by
  cases call with
  | input => exact ⟨1, rfl, rfl⟩
  | inputs n =>
      exact ⟨n, congrArg Prod.snd (run_inputs b n), congrArg Prod.fst (run_inputs b n)⟩
  | cubicInput => exact ⟨3, rfl, rfl⟩
  | cubicInputs n => exact ⟨3 * n, (run_cubicInputs b n).2, (run_cubicInputs b n).1⟩
  | _ => cases hcall

/-- Any other call computes its direct interpretation. -/
theorem connects_run (hcall : call.isInput = false)
    (harguments : ∀ wire ∈ call.arguments, wire.Holds values (σ wire)) :
    Connects call.run values (call.connected σ) fun result values' =>
      result.Holds values' (call.interpret σ) := by
  cases call with
  | input => cases hcall
  | inputs n => cases hcall
  | cubicInput => cases hcall
  | cubicInputs n => cases hcall
  | constant a => exact (yields_constant a).wire
  | zero => exact yields_zero.wire
  | one => exact yields_one.wire
  | constantCubic x => exact (yields_constantCubic x).cubic
  | zeroCubic => exact yields_zeroCubic.cubic
  | oneCubic => exact yields_oneCubic.cubic
  | toCubic wire =>
      exact (yields_toCubic (harguments wire List.mem_cons_self)).cubic
  | arithmetic c0 c1 left right addend =>
      simp only [arguments, List.forall_mem_cons] at harguments
      obtain ⟨hleft, hright, haddend, _⟩ := harguments
      exact (yields_arithmetic c0 c1 hleft hright haddend).wire
  | add a b =>
      simp only [arguments, List.forall_mem_cons] at harguments
      exact (yields_add harguments.1 harguments.2.1).wire
  | sub a b =>
      simp only [arguments, List.forall_mem_cons] at harguments
      exact (yields_sub harguments.1 harguments.2.1).wire
  | mul a b =>
      simp only [arguments, List.forall_mem_cons] at harguments
      exact (yields_mul harguments.1 harguments.2.1).wire
  | mulAdd a b c =>
      simp only [arguments, List.forall_mem_cons] at harguments
      obtain ⟨ha, hb, hc, _⟩ := harguments
      exact (yields_mulAdd ha hb hc).wire
  | mulSub a b c =>
      simp only [arguments, List.forall_mem_cons] at harguments
      obtain ⟨ha, hb, hc, _⟩ := harguments
      exact (yields_mulSub ha hb hc).wire
  | mulMany factors =>
      have hfactors : List.Forall₂ (Wire.Holds values) factors (factors.map σ) := by
        rw [List.forall₂_map_right_iff, List.forall₂_same]
        exact harguments
      exact (yields_mulMany hfactors).wire
  | arithmeticCubic c0 c1 left right addend =>
      simp only [arguments, List.forall_mem_append] at harguments
      obtain ⟨⟨hleft, hright⟩, haddend⟩ := harguments
      exact (yields_arithmeticCubic c0 c1 (CubicWire.holds_valueIn hleft)
        (CubicWire.holds_valueIn hright) (CubicWire.holds_valueIn haddend)).cubic
  | addCubic a b =>
      obtain ⟨ha, hb⟩ := List.forall_mem_append.mp harguments
      exact (yields_addCubic (CubicWire.holds_valueIn ha) (CubicWire.holds_valueIn hb)).cubic
  | subCubic a b =>
      obtain ⟨ha, hb⟩ := List.forall_mem_append.mp harguments
      exact (yields_subCubic (CubicWire.holds_valueIn ha) (CubicWire.holds_valueIn hb)).cubic
  | mulCubic a b =>
      obtain ⟨ha, hb⟩ := List.forall_mem_append.mp harguments
      exact (yields_mulCubic (CubicWire.holds_valueIn ha) (CubicWire.holds_valueIn hb)).cubic
  | mulAddCubic a b c =>
      simp only [arguments, List.forall_mem_append] at harguments
      obtain ⟨⟨ha, hb⟩, hc⟩ := harguments
      exact (yields_mulAddCubic (CubicWire.holds_valueIn ha) (CubicWire.holds_valueIn hb)
        (CubicWire.holds_valueIn hc)).cubic
  | mulSubCubic a b c =>
      simp only [arguments, List.forall_mem_append] at harguments
      obtain ⟨⟨ha, hb⟩, hc⟩ := harguments
      exact (yields_mulSubCubic (CubicWire.holds_valueIn ha) (CubicWire.holds_valueIn hb)
        (CubicWire.holds_valueIn hc)).cubic
  | mulManyCubic factors =>
      have hfactors : List.Forall₂ (CubicWire.Holds values) factors
          (factors.map (CubicWire.valueIn σ)) := by
        rw [List.forall₂_map_right_iff, List.forall₂_same]
        exact fun factor hfactor =>
          CubicWire.holds_valueIn (List.forall_mem_flatMap.mp harguments factor hfactor)
      exact (yields_mulManyCubic hfactors).cubic
  | scalarMulAddCubic s b c =>
      simp only [arguments, List.forall_mem_append, List.forall_mem_singleton] at harguments
      obtain ⟨⟨hs, hb⟩, hc⟩ := harguments
      exact (yields_scalarMulAddCubic hs (CubicWire.holds_valueIn hb)
        (CubicWire.holds_valueIn hc)).cubic
  | innerProductCubic factor start pairs =>
      simp only [arguments, List.forall_mem_append, List.forall_mem_flatMap] at harguments
      obtain ⟨hstart, hpairs⟩ := harguments
      have hheld : List.Forall₂ (PairHolds values) pairs
          (pairs.map fun pair => (pair.1.valueIn σ, pair.2.valueIn σ)) := by
        rw [List.forall₂_map_right_iff, List.forall₂_same]
        exact fun pair hpair => ⟨CubicWire.holds_valueIn (hpairs pair hpair).1,
          CubicWire.holds_valueIn (hpairs pair hpair).2⟩
      have hyields : Yields (Build.innerProductCubic factor start pairs) values _ :=
        yields_innerProductCubic (CubicWire.holds_valueIn hstart) hheld
      rw [Gate.foldl_extensionValue, List.map_map] at hyields
      exact hyields.cubic
  | permute state =>
      have hstate : StateHolds values state (state.map σ) := by
        rw [StateHolds, Vector.toList_map, List.forall₂_map_right_iff, List.forall₂_same]
        exact harguments
      exact (yields_permute hstate).bind fun _ _ _ hout => Connects.pure hout
  | connect a b =>
      simp only [arguments, List.forall_mem_cons] at harguments
      exact (connects_connect harguments.1 harguments.2.1).bind
        fun _ _ _ _ => Connects.pure .nil
  | connectCubic a b =>
      obtain ⟨ha, hb⟩ := List.forall_mem_append.mp harguments
      exact (connects_connectCubic (CubicWire.holds_valueIn ha) (CubicWire.holds_valueIn hb)).bind
        fun _ _ _ _ => Connects.pure .nil
  | gateCount => exact yields_gateCount.bind fun _ _ _ _ => Connects.pure .nil

end Call

end CrossLookup
