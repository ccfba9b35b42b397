import CrossLookup.Proofs.Circuit.Calls
import CrossLookup.Proofs.Circuit.Completion

/-!
# Compiled calls compute what they mean

Along a run of calls, the wires named so far hold the values that they stand
for. Completing a witness of exactly the inputs of the finished circuit
therefore gives every returned wire its interpretation, and the circuit is
satisfied exactly when the interpretations of all connected wires agree.
-/

namespace CrossLookup

namespace Call

variable {values values' : List Goldilocks} {named : List Wire} {σ τ : Wire → Goldilocks}

/-- The named wires hold the values that they stand for. -/
def Follows (values : List Goldilocks) (named : List Wire) (σ : Wire → Goldilocks) : Prop :=
  ∀ wire ∈ named, wire.Holds values (σ wire)

theorem Follows.mono (h : Follows values named σ) (hle : values <+: values') :
    Follows values' named σ :=
  fun wire hwire => (h wire hwire).mono hle

theorem Follows.update (h : Follows values named σ) {wire : Wire} {a : Goldilocks}
    (hwire : wire.Holds values a) :
    Follows values (named ++ [wire]) (Function.update σ wire a) := by
  intro other hother
  by_cases heq : other = wire
  · subst heq
    rw [Function.update_self]
    exact hwire
  · rw [Function.update_of_ne heq]
    apply h other
    simpa [heq] using hother

/-- Further named wires hold what they are let stand for. -/
theorem Follows.name (h : Follows values named σ) {wires : List Wire} {as : List Goldilocks}
    (hwires : List.Forall₂ (Wire.Holds values) wires as) :
    Follows values (named ++ wires) (name σ (wires.zip as)) := by
  induction hwires generalizing named σ with
  | nil =>
      rw [List.append_nil]
      exact h
  | cons hwire _ ih =>
      rw [← List.singleton_append, ← List.append_assoc]
      exact ih (h.update hwire)

theorem Follows.unique (hσ : Follows values named σ) (hτ : Follows values named τ) :
    ∀ wire ∈ named, σ wire = τ wire :=
  fun wire hwire => (hσ wire hwire).unique (hτ wire hwire)

section Step

variable {b : Builder} {inputs : List (Wire × Goldilocks)}
  {connected : List (Goldilocks × Goldilocks)} {call : Call}

/-- Wires with the values given for them. -/
def valued (given : Wire → Goldilocks) (wires : List Wire) : List (Wire × Goldilocks) :=
  wires.map fun wire => (wire, given wire)

/-- A call computes its meaning and connects the values that it requires to agree. -/
theorem computes_run (given : Wire → Goldilocks) (hb : b.Computes inputs values connected)
    (harguments : Follows values call.arguments σ) : ∃ values', values <+: values' ∧
      (call.run.run b).run.2.Computes
        (inputs ++ valued given (newInputs call (call.run.run b).run.1)) values'
        (connected ++ call.connected σ) ∧
      (call.run.run b).run.1.Holds values' (meaning given σ call (call.run.run b).run.1) := by
  cases hinput : call.isInput with
  | false =>
      obtain ⟨values', hle, hcomputes, hholds⟩ := connects_run hinput harguments hb
      simp only [valued, newInputs, meaning, hinput, Bool.false_eq_true, if_false, List.map_nil,
        List.append_nil]
      exact ⟨values', hle, hcomputes, hholds⟩
  | true =>
      obtain ⟨n, hrun, hreturned⟩ := run_of_isInput hinput b
      let as := (nextWires b.wireCount n).map given
      have hlength : as.length = n := by simp [as, nextWires]
      have hcomputes := hb.inputs as
      have hholds := forall₂_nextWires values as
      rw [← hb.wireCount_eq] at hholds
      rw [hlength] at hcomputes hholds
      simp only [valued, newInputs, meaning, hinput, if_true, CallResult.Holds, hreturned, hrun,
        connected_of_isInput hinput, List.append_nil, List.map_prod_left_eq_zip]
      exact ⟨values ++ as, List.prefix_append _ _, hcomputes, hholds⟩

/-- A call assigns every wire that it allocates once. -/
theorem assignsOnce_run {wires : List Wire} (hb : b.AssignsOnce wires) :
    (call.run.run b).run.2.AssignsOnce (wires ++ newInputs call (call.run.run b).run.1) := by
  rw [newInputs]
  cases hinput : call.isInput with
  | false =>
      rw [if_neg Bool.false_ne_true, List.append_nil]
      exact (Builder.keptByPrimitives_assignsOnce wires).run hinput b hb
  | true =>
      obtain ⟨n, hrun, hreturned⟩ := run_of_isInput hinput b
      rw [if_pos rfl, hrun, hreturned]
      exact hb.allocate n

end Step

section Run

variable {b : Builder} {inputs : List (Wire × Goldilocks)}
  {connected : List (Goldilocks × Goldilocks)} {calls : List Call}

theorem interpretAll_cons (given σ : Wire → Goldilocks) (call : Call) (result : CallResult)
    (rest : List (Call × CallResult)) :
    interpretAll given σ ((call, result) :: rest) =
      (meaning given σ call result ::
        (interpretAll given (name σ (result.returned.zip (meaning given σ call result))) rest).1,
      (interpretAll given (name σ (result.returned.zip (meaning given σ call result))) rest).2) :=
  rfl

/-- A witness of exactly the inputs of a run holds the values that it gives for them. -/
theorem mem_valued_iff {w : Witness} {trace : List (Call × CallResult)}
    (hw : ∀ wire, (w.get? wire).isSome = true ↔ wire ∈ inputWires trace) (wire : Wire)
    (a : Goldilocks) : w.get? wire = some a ↔ (wire, a) ∈ valued w.value (inputWires trace) := by
  constructor
  · intro ha
    have hwire : wire ∈ inputWires trace := by
      rw [← hw, ha]
      rfl
    exact List.mem_map.mpr ⟨wire, hwire, congrArg (Prod.mk wire) (Witness.value_eq ha)⟩
  · intro ha
    obtain ⟨other, hother, heq⟩ := List.mem_map.mp ha
    cases heq
    obtain ⟨a, ha⟩ := Option.isSome_iff_exists.mp ((hw _).mpr hother)
    exact Witness.get?_value ha

/-- A run of calls computes the meanings of all its calls, on wires that keep standing for
them. -/
theorem computes_runAll (given σ : Wire → Goldilocks) (hb : b.Computes inputs values connected)
    (hnamed : Follows values named σ) (hscoped : Scoped named (trace b calls)) :
    ∃ values' pairs, values <+: values' ∧
      ((runAll calls).run b).run.2.Computes (inputs ++ valued given (inputWires (trace b calls)))
        values' (connected ++ pairs) ∧
      List.Forall₂ (fun entry as => entry.2.Holds values' as) (trace b calls)
        (interpretAll given σ (trace b calls)).1 ∧
      Follows values' named (interpretAll given σ (trace b calls)).2 ∧
      ((∀ pair ∈ pairs, pair.1 = pair.2) ↔
        ∀ call ∈ calls, call.Agrees (interpretAll given σ (trace b calls)).2) := by
  induction calls generalizing b inputs values connected named σ with
  | nil =>
      refine ⟨values, [], List.prefix_rfl, ?_, .nil, hnamed, ?_⟩
      · rw [List.append_nil]
        change b.Computes (inputs ++ []) values connected
        rwa [List.append_nil]
      · exact iff_of_true (List.forall_mem_nil _) (List.forall_mem_nil _)
  | cons call rest ih =>
      rw [trace_cons] at hscoped ⊢
      obtain ⟨harguments, hscoped⟩ := scoped_cons_iff.mp hscoped
      obtain ⟨values₁, hle₁, hb₁, hreturned⟩ :=
        computes_run given hb fun wire hwire => hnamed wire (harguments wire hwire)
      obtain ⟨values₂, pairs, hle₂, hb₂, hholds, hnamed₂, hpairs⟩ :=
        ih _ hb₁ ((hnamed.mono hle₁).name hreturned) hscoped
      rw [List.append_assoc, List.append_assoc] at hb₂
      rw [interpretAll_cons, inputWires_cons, runAll_cons, valued, List.map_append]
      have hnamed' := fun wire hwire => hnamed₂ wire (List.mem_append_left _ hwire)
      -- What the arguments of the call stand for has not changed since the call.
      have hunchanged := ((hnamed.mono hle₁).mono hle₂).unique hnamed'
      have hagrees := agrees_congr fun wire hwire => hunchanged wire (harguments wire hwire)
      refine ⟨values₂, call.connected σ ++ pairs, hle₁.trans hle₂, hb₂,
        .cons (forall₂_holds_mono hreturned hle₂) hholds, hnamed', ?_⟩
      rw [List.forall_mem_append, List.forall_mem_cons, ← hagrees, agrees_iff, hpairs]

/-- A run of calls assigns every wire that it allocates once. -/
theorem assignsOnce_runAll (calls : List Call) {wires : List Wire} (hb : b.AssignsOnce wires) :
    ((runAll calls).run b).run.2.AssignsOnce (wires ++ inputWires (trace b calls)) := by
  induction calls generalizing b wires with
  | nil =>
      rw [show inputWires (trace b []) = [] from rfl, List.append_nil]
      exact hb
  | cons call rest ih =>
      rw [trace_cons, runAll_cons, inputWires_cons, ← List.append_assoc]
      exact ih (assignsOnce_run hb)

end Run

/-- The circuit that calls build computes what the calls mean. A witness of exactly its inputs is
completed by one assignment to each other wire, after which every returned wire holds its
interpretation; there is one constant gate per value; and the witness satisfies the circuit when
the interpretations of all connected wires agree. -/
theorem compiled_interprets (calls : List Call) (w : Witness)
    (hscoped : Scoped [] (trace .empty calls))
    (hw : ∀ wire, (w.get? wire).isSome = true ↔ wire ∈ inputWires (trace .empty calls)) :
    ∃ v assigned, (compiled calls).complete w = .ok v ∧
      (w.setAll assigned = .ok v ∧
        assigned.map Prod.fst = (compiled calls).gates.toList.flatMap Gate.writes ∧
        (inputWires (trace .empty calls) ++ assigned.map Prod.fst).Perm
          (nextWires 0 (compiled calls).wireCount) ∧
        ∀ wire, (v.get? wire).isSome = true ↔ wire.index < (compiled calls).wireCount) ∧
      List.Forall₂ (fun entry as => entry.2.returned.map v.get? = as.map some)
        (trace .empty calls) (interpretAll w.value 0 (trace .empty calls)).1 ∧
      ((compiled calls).gates.toList.filterMap Gate.constant?).Nodup ∧
      ((compiled calls).isSatisfied w = true ↔
        ∀ call ∈ calls, call.Agrees (interpretAll w.value 0 (trace .empty calls)).2) := by
  obtain ⟨values, pairs, -, hb, hholds, -, hpairs⟩ :=
    computes_runAll w.value 0 Builder.computes_empty (List.forall_mem_nil _) hscoped
  have honce := assignsOnce_runAll calls Builder.assignsOnce_empty
  obtain ⟨v, hcomplete, hget⟩ : ∃ v, (compiled calls).complete w = .ok v ∧
      ∀ wire, v.get? wire = values[wire.index]? :=
    hb.complete_inputs (mem_valued_iff hw)
  have hassigned : ((compiled calls).gates.toList.flatMap fun gate =>
      gate.writes.zip (gate.computed v.value)).map Prod.fst =
        (compiled calls).gates.toList.flatMap Gate.writes := by
    rw [List.map_flatMap]
    simp only [List.map_fst_zip (Nat.le_of_eq (Gate.length_computed _ _).symm)]
  have hset := Circuit.setAll_of_foldlM ((Circuit.complete_eq _ w).symm.trans hcomplete)
  refine ⟨v, _, hcomplete, ⟨hset, hassigned, ?_, fun wire => ?_⟩, ?_, honce.distinct, ?_⟩
  · rw [hassigned]
    exact honce.wires
  · rw [hget, isSome_getElem?, ← hb.wireCount_eq]
    rfl
  · apply hholds.imp
    intro entry as hentry
    rw [← List.forall₂_eq_eq_eq, List.forall₂_map_left_iff, List.forall₂_map_right_iff]
    exact hentry.imp fun wire a hwire => (hget wire).trans hwire
  · rw [← hpairs]
    exact hb.isSatisfied_iff_of_complete hcomplete fun wire a hwire => (hget wire).trans hwire

/-- Calls that use one constant twice and connect a sum of products to an input. -/
def sample : List Call :=
  [.input, .cubicInput, .constant (.ofWord 5), .mulAdd ⟨0⟩ ⟨1⟩ ⟨4⟩,
    .scalarMulAddCubic ⟨0⟩ ⟨⟨1⟩, ⟨2⟩, ⟨3⟩⟩ ⟨⟨1⟩, ⟨2⟩, ⟨3⟩⟩, .constant (.ofWord 5), .connect ⟨5⟩ ⟨2⟩]

/-- Values of the inputs of the sample for which the connected wires agree. -/
def sampleInputs : Witness :=
  ⟨#[some (.ofWord 2), some (.ofWord 3), some (.ofWord 11), some (.ofWord 1)]⟩

theorem compiled_sample : ∃ v, (compiled sample).complete sampleInputs = .ok v ∧
    List.Forall₂ (fun entry as => entry.2.returned.map v.get? = as.map some) (trace .empty sample)
      [[.ofWord 2], [.ofWord 3, .ofWord 11, .ofWord 1], [.ofWord 5], [.ofWord 11],
        [.ofWord 9, .ofWord 33, .ofWord 3], [.ofWord 5], []] ∧
    (compiled sample).isSatisfied sampleInputs = true := by
  have hinputs : inputWires (trace .empty sample) = [⟨0⟩, ⟨1⟩, ⟨2⟩, ⟨3⟩] := by
    decide +kernel
  have hw : ∀ wire, (sampleInputs.get? wire).isSome = true ↔
      wire ∈ inputWires (trace .empty sample) := by
    rw [hinputs]
    rintro ⟨_ | _ | _ | _ | index⟩ <;> simp [sampleInputs, Witness.get?]
  have hvalues : (interpretAll sampleInputs.value 0 (trace .empty sample)).1 =
      [[.ofWord 2], [.ofWord 3, .ofWord 11, .ofWord 1], [.ofWord 5], [.ofWord 11],
        [.ofWord 9, .ofWord 33, .ofWord 3], [.ofWord 5], []] := by
    decide +kernel
  have hscoped : Scoped [] (trace .empty sample) := by
    decide +kernel
  have hconnected : (interpretAll sampleInputs.value 0 (trace .empty sample)).2 ⟨5⟩ =
      (interpretAll sampleInputs.value 0 (trace .empty sample)).2 ⟨2⟩ := by
    decide +kernel
  have hagrees : ∀ σ : Wire → Goldilocks, σ ⟨5⟩ = σ ⟨2⟩ → ∀ call ∈ sample, call.Agrees σ := by
    intro σ hσ
    simp [sample, Agrees, hσ]
  obtain ⟨v, _, hcomplete, _, hreturned, _, hsatisfied⟩ :=
    compiled_interprets sample sampleInputs hscoped hw
  rw [hvalues] at hreturned
  exact ⟨v, hcomplete, hreturned, hsatisfied.mpr (hagrees _ hconnected)⟩

end Call

end CrossLookup
