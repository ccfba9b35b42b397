import CrossLookup.Circuit.Given
import CrossLookup.Proofs.Circuit.Witness

/-!
# What a builder computes

A builder computes a list of values, one per wire, from the values of its
inputs: completing any witness that assigns the inputs gives every wire its
value. The invariant is kept by each primitive step of a construction.
-/

namespace CrossLookup

/-- A wire is among the wires with values and holds the given one. -/
def Wire.Holds (values : List Goldilocks) (wire : Wire) (a : Goldilocks) : Prop :=
  values[wire.index]? = some a

/-- The coefficient wires hold an extension element. -/
structure CubicWire.Holds (values : List Goldilocks) (wires : CubicWire) (x : Cubic) : Prop where
  c0 : wires.c0.Holds values x.c0
  c1 : wires.c1.Holds values x.c1
  c2 : wires.c2.Holds values x.c2

section Holds

variable {values values' : List Goldilocks}

theorem Wire.Holds.lt {wire : Wire} {a : Goldilocks} (h : wire.Holds values a) :
    wire.index < values.length :=
  (List.getElem?_eq_some_iff.mp h).1

theorem Wire.Holds.mono {wire : Wire} {a : Goldilocks} (h : wire.Holds values a)
    (hle : values <+: values') : wire.Holds values' a := by
  obtain ⟨rest, rfl⟩ := hle
  exact (List.getElem?_append_left h.lt).trans h

theorem Wire.Holds.of_eq {wire : Wire} {a b : Goldilocks} (h : wire.Holds values a)
    (hab : a = b) : wire.Holds values b :=
  hab ▸ h

theorem Wire.Holds.unique {wire : Wire} {a b : Goldilocks} (ha : wire.Holds values a)
    (hb : wire.Holds values b) : a = b :=
  Option.some.inj (ha.symm.trans hb)

theorem CubicWire.Holds.mono {wires : CubicWire} {x : Cubic} (h : wires.Holds values x)
    (hle : values <+: values') : wires.Holds values' x :=
  ⟨h.c0.mono hle, h.c1.mono hle, h.c2.mono hle⟩

theorem holds_append_singleton (values : List Goldilocks) (a : Goldilocks) :
    Wire.Holds (values ++ [a]) ⟨values.length⟩ a :=
  List.getElem?_concat_length

theorem forall₂_holds_mono {wires : List Wire} {as : List Goldilocks}
    (h : List.Forall₂ (Wire.Holds values) wires as) (hle : values <+: values') :
    List.Forall₂ (Wire.Holds values') wires as :=
  h.imp fun _ _ hholds => hholds.mono hle

theorem lt_of_forall₂_holds {wires : List Wire} {as : List Goldilocks}
    (h : List.Forall₂ (Wire.Holds values) wires as) :
    ∀ wire ∈ wires, wire.index < values.length := by
  induction h with
  | nil => exact List.forall_mem_nil _
  | cons hwire _ ih => exact List.forall_mem_cons.mpr ⟨hwire.lt, ih⟩

/-- A total assignment gives every wire with a value that value. -/
def Extends (σ : Wire → Goldilocks) (values : List Goldilocks) : Prop :=
  ∀ wire a, Wire.Holds values wire a → σ wire = a

theorem Extends.anti {σ : Wire → Goldilocks} (h : Extends σ values')
    (hle : values <+: values') : Extends σ values :=
  fun wire a hholds => h wire a (hholds.mono hle)

/-- The assignment that is zero on wires without a value. -/
def valueAt (values : List Goldilocks) (wire : Wire) : Goldilocks :=
  values.getD wire.index 0

theorem Extends.map_eq {σ : Wire → Goldilocks} (h : Extends σ values) {wires : List Wire}
    {as : List Goldilocks} (hwires : List.Forall₂ (Wire.Holds values) wires as) :
    wires.map σ = as := by
  induction hwires with
  | nil => rfl
  | cons hwire _ ih => rw [List.map_cons, ih, h _ _ hwire]

theorem extends_valueAt (values : List Goldilocks) : Extends (valueAt values) values := by
  intro wire a h
  rw [valueAt, List.getD_eq_getElem?_getD, h, Option.getD_some]

end Holds

/-- The next wires after those numbered below a bound. -/
def nextWires (start count : Nat) : List Wire :=
  (List.range' start count).map Wire.mk

theorem mem_nextWires {start count : Nat} {wire : Wire} :
    wire ∈ nextWires start count ↔ start ≤ wire.index ∧ wire.index < start + count := by
  constructor
  · intro h
    obtain ⟨index, hindex, rfl⟩ := List.mem_map.mp h
    exact List.mem_range'_1.mp hindex
  · intro h
    exact List.mem_map.mpr ⟨wire.index, List.mem_range'_1.mpr h, rfl⟩

theorem forall₂_nextWires (values as : List Goldilocks) :
    List.Forall₂ (Wire.Holds (values ++ as)) (nextWires values.length as.length) as := by
  rw [List.forall₂_iff_get]
  refine ⟨by simp [nextWires], fun i hi hi' => ?_⟩
  simp only [Wire.Holds, nextWires, List.get_eq_getElem, List.getElem_map, List.getElem_range',
    Nat.one_mul]
  rw [List.getElem?_append_right (Nat.le_add_right _ _), Nat.add_sub_cancel_left,
    List.getElem?_eq_getElem hi']

namespace Builder

/-- A builder computes values from its inputs, with pairs of values connected. -/
structure Computes (b : Builder) (inputs : List (Wire × Goldilocks)) (values : List Goldilocks)
    (connected : List (Goldilocks × Goldilocks)) : Prop where
  wireCount_eq : b.wireCount = values.length
  inputs_hold : ∀ input ∈ inputs, input.1.Holds values input.2
  constants_hold : ∀ entry ∈ b.constants, entry.2.Holds values entry.1
  copies_hold : List.Forall₂ (fun copy pair =>
    copy.lhs.Holds values pair.1 ∧ copy.rhs.Holds values pair.2) b.copies.toList connected
  /-- Inputs of later steps may be assigned already. -/
  complete : ∀ (σ : Wire → Goldilocks) (w : Witness), Extends σ values → w.AgreesWith σ →
    (∀ input ∈ inputs, w.get? input.1 = some input.2) →
      ∃ w', b.circuit.complete w = .ok w' ∧ ∀ wire,
        w'.get? wire = if wire.index < values.length then some (σ wire) else w.get? wire

theorem computes_empty : Builder.empty.Computes [] [] [] where
  wireCount_eq := rfl
  inputs_hold := List.forall_mem_nil _
  constants_hold := List.forall_mem_nil _
  copies_hold := .nil
  complete := by
    intro σ w _ _ _
    exact ⟨w, rfl, fun wire => (if_neg (Nat.not_lt_zero _)).symm⟩

variable {b : Builder} {inputs : List (Wire × Goldilocks)} {values : List Goldilocks}
  {connected : List (Goldilocks × Goldilocks)}

theorem copies_hold_mono (h : b.Computes inputs values connected) {values' : List Goldilocks}
    (hle : values <+: values') : List.Forall₂ (fun copy pair =>
      copy.lhs.Holds values' pair.1 ∧ copy.rhs.Holds values' pair.2) b.copies.toList connected :=
  h.copies_hold.imp fun _ _ hholds => ⟨hholds.1.mono hle, hholds.2.mono hle⟩

/-- A new input wire holds the value with which it is noted. -/
theorem Computes.input (h : b.Computes inputs values connected) (a : Goldilocks) :
    { b with wireCount := b.wireCount + 1 : Builder }.Computes
      (inputs ++ [(⟨b.wireCount⟩, a)]) (values ++ [a]) connected where
  wireCount_eq := by rw [h.wireCount_eq, List.length_append, List.length_singleton]
  inputs_hold := by
    refine List.forall_mem_append.mpr ⟨fun input hinput => ?_, ?_⟩
    · exact (h.inputs_hold input hinput).mono (List.prefix_append _ _)
    · rw [List.forall_mem_singleton, h.wireCount_eq]
      exact holds_append_singleton values a
  constants_hold := fun entry hentry =>
    (h.constants_hold entry hentry).mono (List.prefix_append _ _)
  copies_hold := copies_hold_mono h (List.prefix_append _ _)
  complete := by
    intro σ w hσ hw hinputs
    obtain ⟨hinputs, hinput⟩ := List.forall_mem_append.mp hinputs
    rw [List.forall_mem_singleton, h.wireCount_eq] at hinput
    obtain ⟨w', hcomplete, hget⟩ :=
      h.complete σ w (hσ.anti (List.prefix_append _ _)) hw hinputs
    refine ⟨w', hcomplete, fun wire => ?_⟩
    rw [hget, List.length_append, List.length_singleton]
    rcases Nat.lt_trichotomy wire.index values.length with hlt | heq | hgt
    · rw [if_pos hlt, if_pos (by omega)]
    · rw [if_neg (by omega), if_pos (by omega)]
      have hwire : wire = ⟨values.length⟩ := congrArg Wire.mk heq
      rw [hwire, hinput, hσ _ _ (holds_append_singleton values a)]
    · rw [if_neg (by omega), if_neg (by omega)]

/-- A gate from wires with values to the next wires computes their values. -/
theorem Computes.gate (h : b.Computes inputs values connected) (gate : Gate)
    (as : List Goldilocks) (hreads : ∀ wire ∈ gate.reads, wire.index < values.length)
    (hwrites : gate.writes = nextWires values.length as.length)
    (hcomputed : ∀ σ, Extends σ values → gate.computed σ = as) :
    { b with wireCount := b.wireCount + as.length, gates := b.gates.push gate : Builder }.Computes
      inputs (values ++ as) connected where
  wireCount_eq := by rw [h.wireCount_eq, List.length_append]
  inputs_hold := fun input hinput => (h.inputs_hold input hinput).mono (List.prefix_append _ _)
  constants_hold := fun entry hentry =>
    (h.constants_hold entry hentry).mono (List.prefix_append _ _)
  copies_hold := copies_hold_mono h (List.prefix_append _ _)
  complete := by
    intro σ w hσ hw hinputs
    have hσ' : Extends σ values := hσ.anti (List.prefix_append _ _)
    obtain ⟨w₁, hcomplete, hget⟩ := h.complete σ w hσ' hw hinputs
    have hwritten : List.Forall₂ (fun wire a => σ wire = a) gate.writes (gate.computed σ) := by
      rw [hwrites, hcomputed σ hσ']
      exact (forall₂_nextWires values as).imp hσ
    obtain ⟨w', hrun, hget'⟩ := Gate.exists_run (Witness.agreesWith_of_get? hw hget)
      (fun wire hwire => (hget wire).trans (if_pos (hreads wire hwire))) hwritten
    refine ⟨w', ?_, fun wire => ?_⟩
    · change (b.gates.push gate).foldlM (fun w gate => gate.run w) w = _
      rw [Array.foldlM_push]
      exact Except.bind_eq_ok_iff.mpr ⟨w₁, hcomplete, hrun⟩
    · rw [hget', hget, hwrites, List.length_append]
      simp only [mem_nextWires]
      by_cases hlt : wire.index < values.length
      · rw [if_neg (by omega), if_pos hlt, if_pos (by omega)]
      · by_cases hlt' : wire.index < values.length + as.length
        · rw [if_pos (by omega), if_pos hlt']
        · rw [if_neg (by omega), if_neg hlt, if_neg hlt']

/-- A wire that holds a constant may be noted as its wire. -/
theorem Computes.constant (h : b.Computes inputs values connected) {a : Goldilocks} {wire : Wire}
    (hholds : wire.Holds values a) :
    { b with constants := (a, wire) :: b.constants : Builder }.Computes inputs values connected :=
  ⟨h.wireCount_eq, h.inputs_hold, List.forall_mem_cons.mpr ⟨hholds, h.constants_hold⟩,
    h.copies_hold, h.complete⟩

/-- Two wires with values may be connected. -/
theorem Computes.connect (h : b.Computes inputs values connected) {lhs rhs : Wire}
    {a a' : Goldilocks} (hlhs : lhs.Holds values a) (hrhs : rhs.Holds values a') :
    { b with copies := b.copies.push ⟨lhs, rhs⟩ : Builder }.Computes inputs values
      (connected ++ [(a, a')]) where
  wireCount_eq := h.wireCount_eq
  inputs_hold := h.inputs_hold
  constants_hold := h.constants_hold
  copies_hold := by
    rw [Array.toList_push]
    exact List.rel_append h.copies_hold (.cons ⟨hlhs, hrhs⟩ .nil)
  complete := h.complete

/-- A witness of exactly the inputs is completed to exactly the values. -/
theorem Computes.complete_inputs (h : b.Computes inputs values connected) {w : Witness}
    (hw : ∀ wire a, w.get? wire = some a ↔ (wire, a) ∈ inputs) :
    ∃ w', b.circuit.complete w = .ok w' ∧ ∀ wire, w'.get? wire = values[wire.index]? := by
  have hσ := extends_valueAt values
  have hheld : ∀ wire a, w.get? wire = some a → wire.Holds values a :=
    fun wire a ha => h.inputs_hold (wire, a) ((hw wire a).mp ha)
  obtain ⟨w', hcomplete, hget⟩ := h.complete (valueAt values) w hσ
    (fun wire a ha => hσ wire a (hheld wire a ha)) fun input hinput => (hw _ _).mpr hinput
  refine ⟨w', hcomplete, fun wire => ?_⟩
  rw [hget]
  by_cases hlt : wire.index < values.length
  · rw [if_pos hlt, List.getElem?_eq_getElem hlt,
      hσ wire _ (List.getElem?_eq_getElem hlt)]
  · rw [if_neg hlt, List.getElem?_eq_none (Nat.le_of_not_lt hlt)]
    cases hcell : w.get? wire with
    | none => rfl
    | some a => exact absurd (hheld wire a hcell).lt hlt

/-- The inputs can be assigned, and the witness is completed to the values that a builder
computes. -/
theorem Computes.exists_complete (h : b.Computes inputs values connected) :
    ∃ w w', Witness.empty.setAll inputs = .ok w ∧ b.circuit.complete w = .ok w' ∧
      ∀ wire a, Wire.Holds values wire a → w'.get? wire = some a := by
  have hσ : ∀ input ∈ inputs, valueAt values input.1 = input.2 :=
    fun input hinput => extends_valueAt values _ _ (h.inputs_hold input hinput)
  obtain ⟨w, hset, hget⟩ := Witness.exists_setAll (Witness.agreesWith_empty (valueAt values)) hσ
  have hinputs : ∀ wire a, w.get? wire = some a ↔ (wire, a) ∈ inputs := by
    intro wire a
    rw [hget]
    constructor
    · intro ha
      split at ha
      · next hmem =>
        obtain ⟨input, hinput, rfl⟩ := List.mem_map.mp hmem
        rw [hσ input hinput] at ha
        cases ha
        exact hinput
      · cases ha
    · intro ha
      rw [if_pos (List.mem_map_of_mem ha), hσ _ ha]
  obtain ⟨w', hcomplete, hget'⟩ := h.complete_inputs hinputs
  exact ⟨w, w', hset, hcomplete, fun wire a hholds => (hget' wire).trans hholds⟩

/-- A witness is satisfying when it is completed to the computed values and all connected ones
agree. -/
theorem Computes.isSatisfied_iff_of_complete (h : b.Computes inputs values connected)
    {w w' : Witness} (hcomplete : b.circuit.complete w = .ok w')
    (hget : ∀ wire a, Wire.Holds values wire a → w'.get? wire = some a) :
    b.circuit.isSatisfied w = true ↔ ∀ pair ∈ connected, pair.1 = pair.2 := by
  have hholds : ∀ {copies : List Copy} {pairs : List (Goldilocks × Goldilocks)},
      List.Forall₂ (fun copy pair => copy.lhs.Holds values pair.1 ∧
        copy.rhs.Holds values pair.2) copies pairs →
      ((∀ copy ∈ copies, copy.holds w' = true) ↔ ∀ pair ∈ pairs, pair.1 = pair.2) := by
    intro copies pairs hall
    induction hall with
    | nil => simp
    | cons hpair _ ih =>
        rw [List.forall_mem_cons, List.forall_mem_cons, ih]
        simp only [Copy.holds, hget _ _ hpair.1, hget _ _ hpair.2, beq_iff_eq]
  rw [← hholds h.copies_hold, Circuit.isSatisfied, hcomplete]
  simp only [Circuit.firstUnsatisfied, Option.isNone_iff_eq_none, Array.find?_eq_none]
  simp [circuit]

/-- The circuit is satisfied by its inputs when all connected values agree. -/
theorem Computes.isSatisfied_iff (h : b.Computes inputs values connected) {w : Witness}
    (hw : Witness.empty.setAll inputs = .ok w) :
    b.circuit.isSatisfied w = true ↔ ∀ pair ∈ connected, pair.1 = pair.2 := by
  obtain ⟨w₁, w', hset, hcomplete, hget⟩ := h.exists_complete
  cases hw.symm.trans hset
  exact h.isSatisfied_iff_of_complete hcomplete hget

end Builder

end CrossLookup
