import CrossLookup.Circuit.Program
import CrossLookup.Proofs.Circuit.Witness
import CrossLookup.Proofs.Field.Cubic

/-!
# What completing a witness means

A gate states a relation between the values of its wires. Running the gates in
order only adds values that the relations force, whether or not a wire exists
yet when it is named and whether or not an output was assigned beforehand: a
completed witness satisfies every relation, and a conflict refutes all of them
together.
-/

namespace CrossLookup

namespace Witness

variable {w v u : Witness}

/-- The value of a wire, zero where it has none. -/
def value (w : Witness) (wire : Wire) : Goldilocks :=
  (w.get? wire).getD 0

/-- Every value of a witness is kept by another. -/
def ExtendedBy (w v : Witness) : Prop :=
  ∀ wire a, w.get? wire = some a → v.get? wire = some a

theorem ExtendedBy.refl (w : Witness) : w.ExtendedBy w :=
  fun _ _ h => h

theorem ExtendedBy.trans (hwv : w.ExtendedBy v) (hvu : v.ExtendedBy u) : w.ExtendedBy u :=
  fun wire a h => hvu wire a (hwv wire a h)

theorem value_eq {wire : Wire} {a : Goldilocks} (h : w.get? wire = some a) : w.value wire = a := by
  rw [value, h, Option.getD_some]

theorem get?_value {wire : Wire} {a : Goldilocks} (h : w.get? wire = some a) :
    w.get? wire = some (w.value wire) := by
  rw [value_eq h]
  exact h

theorem agreesWith_value (w : Witness) : w.AgreesWith w.value :=
  fun _ _ h => value_eq h

theorem AgreesWith.get? {σ : Wire → Goldilocks} (hw : w.AgreesWith σ) {wire : Wire}
    (h : w.get? wire = some (w.value wire)) : w.get? wire = some (σ wire) := by
  rw [h, hw wire _ h]

theorem AgreesWith.anti {σ : Wire → Goldilocks} (hv : v.AgreesWith σ) (h : w.ExtendedBy v) :
    w.AgreesWith σ :=
  fun wire a ha => hv wire a (h wire a ha)

section Assignment

variable {wire : Wire} {a : Goldilocks}

/-- A wire that holds the value already is left as it is. -/
theorem set_of_get? (h : w.get? wire = some a) : w.set wire a = .ok w := by
  unfold set
  rw [h]
  exact if_pos rfl

theorem eq_of_set {held : Goldilocks} (h : w.set wire a = .ok v)
    (hheld : w.get? wire = some held) : held = a := by
  unfold set at h
  simp only [hheld] at h
  by_contra hne
  rw [if_neg hne] at h
  cases h

theorem extendedBy_of_set (h : w.set wire a = .ok v) : w.ExtendedBy v := by
  intro other b hb
  rw [get?_set h]
  by_cases hother : other = wire
  · subst hother
    rw [if_pos rfl, eq_of_set h hb]
  · rwa [if_neg hother]

theorem setAll_cons (w : Witness) (value : Wire × Goldilocks) (rest : List (Wire × Goldilocks)) :
    w.setAll (value :: rest) = w.set value.1 value.2 >>= fun w' => w'.setAll rest :=
  List.foldlM_cons

theorem setAll_of_get? {values : List (Wire × Goldilocks)}
    (h : ∀ value ∈ values, w.get? value.1 = some value.2) : w.setAll values = .ok w := by
  induction values with
  | nil => rfl
  | cons value rest ih =>
      obtain ⟨hvalue, hrest⟩ := List.forall_mem_cons.mp h
      rw [setAll_cons, set_of_get? hvalue]
      exact ih hrest

/-- Assignments keep all values and leave those that they assign. -/
theorem setAll_spec {values : List (Wire × Goldilocks)} (h : w.setAll values = .ok v) :
    w.ExtendedBy v ∧ ∀ value ∈ values, v.get? value.1 = some value.2 := by
  induction values generalizing w with
  | nil =>
      cases h
      exact ⟨.refl _, List.forall_mem_nil _⟩
  | cons value rest ih =>
      rw [setAll_cons] at h
      obtain ⟨w₁, hset, hrest⟩ := Except.bind_eq_ok_iff.mp h
      obtain ⟨hle, hvalues⟩ := ih hrest
      have hvalue : w₁.get? value.1 = some value.2 := (get?_set hset value.1).trans (if_pos rfl)
      exact ⟨(extendedBy_of_set hset).trans hle,
        List.forall_mem_cons.mpr ⟨hle _ _ hvalue, hvalues⟩⟩

end Assignment

/-- Wires paired with their values hold them. -/
theorem forall₂_get? {wires : List Wire} {as : List Goldilocks}
    (h : List.Forall₂ (fun wire a => v.get? wire = some a) wires as) :
    (∀ wire ∈ wires, v.get? wire = some (v.value wire)) ∧ wires.map v.value = as := by
  induction h with
  | nil => exact ⟨List.forall_mem_nil _, rfl⟩
  | cons hwire _ ih =>
      rw [List.forall_mem_cons, List.map_cons, value_eq hwire, ih.2]
      exact ⟨⟨hwire, ih.1⟩, rfl⟩

section Reading

variable {α β : Type} {wires rest : List Wire}

/-- A reading succeeds with a value on each of its wires, or reports a wire without a value. -/
def Reads (w : Witness) (wires : List Wire) (result : Except WitnessError α) : Prop :=
  (∃ wire, result = .error (.unset wire)) ∨
    (∃ a, result = .ok a) ∧ ∀ wire ∈ wires, w.get? wire = some (w.value wire)

/-- A computation reports a wire without a value, or there is a value on each of its wires. -/
def Needs (w : Witness) (wires : List Wire) (result : Except WitnessError α) : Prop :=
  (∃ wire, result = .error (.unset wire)) ∨ ∀ wire ∈ wires, w.get? wire = some (w.value wire)

theorem reads_get (w : Witness) (wire : Wire) : w.Reads [wire] (w.get wire) := by
  unfold get
  cases h : w.get? wire with
  | none => exact Or.inl ⟨wire, rfl⟩
  | some a =>
      exact Or.inr ⟨⟨a, rfl⟩, List.forall_mem_singleton.mpr (get?_value h)⟩

theorem reads_pure (w : Witness) (a : α) : w.Reads [] (pure a) :=
  Or.inr ⟨⟨a, rfl⟩, List.forall_mem_nil _⟩

theorem needs_nil (w : Witness) (result : Except WitnessError α) : w.Needs [] result :=
  Or.inr (List.forall_mem_nil _)

theorem Reads.bind {result : Except WitnessError α} {next : α → Except WitnessError β}
    (h : w.Reads wires result) (hnext : ∀ a, w.Reads rest (next a)) :
    w.Reads (wires ++ rest) (result >>= next) := by
  rcases h with ⟨wire, rfl⟩ | ⟨⟨a, rfl⟩, hwires⟩
  · exact Or.inl ⟨wire, rfl⟩
  · rcases hnext a with ⟨wire, hwire⟩ | ⟨hok, hrest⟩
    · exact Or.inl ⟨wire, hwire⟩
    · exact Or.inr ⟨hok, List.forall_mem_append.mpr ⟨hwires, hrest⟩⟩

/-- What follows a reading may fail in any way. -/
theorem Reads.needs {result : Except WitnessError α} {next : α → Except WitnessError β}
    (h : w.Reads wires result) (hnext : ∀ a, w.Needs rest (next a)) :
    w.Needs (wires ++ rest) (result >>= next) := by
  rcases h with ⟨wire, rfl⟩ | ⟨⟨a, rfl⟩, hwires⟩
  · exact Or.inl ⟨wire, rfl⟩
  · rcases hnext a with ⟨wire, hwire⟩ | hrest
    · exact Or.inl ⟨wire, hwire⟩
    · exact Or.inr (List.forall_mem_append.mpr ⟨hwires, hrest⟩)

theorem Reads.of_map {f : α → β} {result : Except WitnessError α}
    (h : w.Reads wires (f <$> result)) : w.Reads wires result := by
  rcases h with ⟨wire, hwire⟩ | ⟨⟨b, hb⟩, hwires⟩
  · cases result with
    | error e =>
        cases hwire
        exact Or.inl ⟨wire, rfl⟩
    | ok a => cases hwire
  · cases result with
    | error e => cases hb
    | ok a => exact Or.inr ⟨⟨a, rfl⟩, hwires⟩

theorem reads_getCubic (w : Witness) (wires : CubicWire) :
    w.Reads wires.parts (w.getCubic wires) := by
  have h : w.Reads [wires.c2, wires.c1, wires.c0] (w.getCubic wires) :=
    (w.reads_get wires.c2).bind fun _ => (w.reads_get wires.c1).bind fun _ =>
      (w.reads_get wires.c0).bind fun _ => w.reads_pure _
  rcases h with h | ⟨hok, hwires⟩
  · exact Or.inl h
  · exact Or.inr ⟨hok, fun wire hwire => hwires wire (by
      simpa [CubicWire.parts, or_comm, or_left_comm, or_assoc] using hwire)⟩

theorem reads_mapM (w : Witness) (wires : List Wire) : w.Reads wires (wires.mapM w.get) := by
  induction wires with
  | nil =>
      rw [List.mapM_nil]
      exact w.reads_pure []
  | cons wire rest ih =>
      rw [List.mapM_cons]
      have h := (w.reads_get wire).bind fun a => ih.bind fun as => w.reads_pure (a :: as)
      rwa [List.append_nil] at h

end Reading

end Witness

namespace Gate

variable {gate : Gate} {w w' v : Witness} {σ : Wire → Goldilocks}

/-- The relation that a gate states between the values of its wires. -/
def Relates (σ : Wire → Goldilocks) : Gate → Prop
  | constant value out => σ out = value
  | arithmetic c0 c1 left right addend out => σ out = c0 * σ left * σ right + c1 * σ addend
  | extension c0 c1 left right addend out =>
      out.valueIn σ = left.valueIn σ * right.valueIn σ * c0 + addend.valueIn σ * c1
  | permutation inputs outputs => outputs.map σ = SpongeState.permute (inputs.map σ)

/-- The relation of a gate holds in a witness: all its wires have values, which are related. -/
structure HoldsIn (v : Witness) (gate : Gate) : Prop where
  reads : ∀ wire ∈ gate.reads, v.get? wire = some (v.value wire)
  writes : ∀ wire ∈ gate.writes, v.get? wire = some (v.value wire)
  relates : gate.Relates v.value

/-- The relation of a gate gives its outputs the values that it computes. -/
theorem relates_iff : gate.Relates σ ↔ gate.writes.map σ = gate.computed σ := by
  cases gate with
  | constant value out => simp [Relates, writes, computed]
  | arithmetic c0 c1 left right addend out => simp [Relates, writes, computed, arithmeticValue]
  | extension c0 c1 left right addend out =>
      simp [Relates, writes, computed, CubicWire.parts, CubicWire.valueIn, Cubic.coefficients,
        extensionValue, Cubic.ext_iff]
  | permutation inputs outputs =>
      rw [Relates, writes, computed, ← Vector.toList_map, Vector.toList_inj]

/-- A gate reports a wire without a value unless all the wires that it reads have one. -/
theorem needs_run (gate : Gate) (w : Witness) : w.Needs gate.reads (gate.run w) := by
  cases gate with
  | constant value out => exact w.needs_nil _
  | arithmetic c0 c1 left right addend out =>
      exact (w.reads_get left).needs fun _ => (w.reads_get right).needs fun _ =>
        (w.reads_get addend).needs fun _ => w.needs_nil _
  | extension c0 c1 left right addend out =>
      have h : w.Needs (left.parts ++ (right.parts ++ (addend.parts ++ [])))
          ((extension c0 c1 left right addend out).run w) :=
        (w.reads_getCubic left).needs fun _ => (w.reads_getCubic right).needs fun _ =>
          (w.reads_getCubic addend).needs fun _ => w.needs_nil _
      rwa [List.append_nil, ← List.append_assoc] at h
  | permutation inputs outputs =>
      have hstate : w.Reads inputs.toList (inputs.mapM w.get) := by
        apply Witness.Reads.of_map (f := Vector.toList)
        rw [Vector.toList_mapM]
        exact w.reads_mapM inputs.toList
      have h := hstate.needs fun state =>
        w.needs_nil (w.setAll (outputs.toList.zip (SpongeState.permute state).toList))
      rwa [List.append_nil] at h

theorem length_computed (gate : Gate) (σ : Wire → Goldilocks) :
    (gate.computed σ).length = gate.writes.length := by
  cases gate <;> simp [computed, writes, CubicWire.parts, Cubic.coefficients]

/-- A gate that ran had values on the wires that it reads. -/
theorem reads_of_run (h : gate.run w = .ok w') :
    ∀ wire ∈ gate.reads, w.get? wire = some (w.value wire) := by
  rcases gate.needs_run w with ⟨wire, hunset⟩ | hreads
  · rw [h] at hunset
    cases hunset
  · exact hreads

theorem extendedBy_of_run (h : gate.run w = .ok w') : w.ExtendedBy w' := by
  rw [run_eq (reads_of_run h)] at h
  exact (Witness.setAll_spec h).1

/-- A gate that ran assigned what it computes from the values in any later witness. -/
theorem setAll_of_run (h : gate.run w = .ok w') (hle : w'.ExtendedBy v) :
    w.setAll (gate.writes.zip (gate.computed v.value)) = .ok w' := by
  have hreads : ∀ wire ∈ gate.reads, w.get? wire = some (v.value wire) := by
    intro wire hwire
    have hget := reads_of_run h wire hwire
    rw [Witness.value_eq ((extendedBy_of_run h).trans hle wire _ hget)]
    exact hget
  rw [← run_eq hreads, h]

/-- A gate that ran states a relation that holds from then on. -/
theorem holdsIn_of_run (h : gate.run w = .ok w') (hle : w'.ExtendedBy v) : gate.HoldsIn v := by
  have hwrites : List.Forall₂ (fun wire a => v.get? wire = some a) gate.writes
      (gate.computed v.value) :=
    List.forall₂_iff_zip.mpr ⟨(length_computed gate v.value).symm, fun hvalue =>
      hle _ _ ((Witness.setAll_spec (setAll_of_run h hle)).2 _ hvalue)⟩
  obtain ⟨hassigned, hmap⟩ := Witness.forall₂_get? hwrites
  refine ⟨fun wire hwire => ?_, hassigned, relates_iff.mpr hmap⟩
  exact Witness.get?_value ((extendedBy_of_run h).trans hle wire _ (reads_of_run h wire hwire))

/-- A gate whose relation holds runs without adding a value. -/
theorem run_of_holdsIn (h : gate.HoldsIn v) : gate.run v = .ok v := by
  have hwrites : List.Forall₂ (fun wire a => v.get? wire = some a) gate.writes
      (gate.writes.map v.value) := by
    rw [List.forall₂_map_right_iff, List.forall₂_same]
    exact h.writes
  rw [run_eq h.reads, ← relates_iff.mp h.relates]
  exact Witness.setAll_of_get? fun _ hvalue => (List.forall₂_iff_zip.mp hwrites).2 hvalue

/-- On values of an assignment that satisfies its relation, a gate adds more of its values or
reports a wire without one. -/
theorem run_of_relates (hw : w.AgreesWith σ) (h : gate.Relates σ) :
    (∃ wire, gate.run w = .error (.unset wire)) ∨
      ∃ w', gate.run w = .ok w' ∧ w'.AgreesWith σ := by
  rcases gate.needs_run w with hunset | hreads
  · exact Or.inl hunset
  · have hwrites : List.Forall₂ (fun wire a => σ wire = a) gate.writes (gate.computed σ) := by
      rw [← relates_iff.mp h, List.forall₂_map_right_iff, List.forall₂_same]
      exact fun _ _ => rfl
    obtain ⟨w', hrun, hget⟩ := exists_run hw (fun wire hwire => hw.get? (hreads wire hwire)) hwrites
    exact Or.inr ⟨w', hrun, Witness.agreesWith_of_get? hw hget⟩

end Gate

namespace Circuit

variable {gates : List Gate} {w v : Witness} {σ : Wire → Goldilocks}

theorem complete_eq (c : Circuit) (w : Witness) :
    c.complete w = c.gates.toList.foldlM Gate.run w :=
  (Array.foldlM_toList).symm

/-- Gates that ran in order keep all values, and their relations hold in the end. -/
theorem holdsIn_of_foldlM (h : gates.foldlM Gate.run w = .ok v) :
    w.ExtendedBy v ∧ ∀ gate ∈ gates, gate.HoldsIn v := by
  induction gates generalizing w with
  | nil =>
      cases h
      exact ⟨.refl _, List.forall_mem_nil _⟩
  | cons gate rest ih =>
      rw [List.foldlM_cons] at h
      obtain ⟨w₁, hrun, hrest⟩ := Except.bind_eq_ok_iff.mp h
      obtain ⟨hle, hholds⟩ := ih hrest
      exact ⟨(Gate.extendedBy_of_run hrun).trans hle,
        List.forall_mem_cons.mpr ⟨Gate.holdsIn_of_run hrun hle, hholds⟩⟩

/-- Gates that ran in order made one assignment after another, each of a value that its gate
computes from the values in the end. -/
theorem setAll_of_foldlM (h : gates.foldlM Gate.run w = .ok v) :
    w.setAll (gates.flatMap fun gate => gate.writes.zip (gate.computed v.value)) = .ok v := by
  induction gates generalizing w with
  | nil => exact h
  | cons gate rest ih =>
      rw [List.foldlM_cons] at h
      obtain ⟨w₁, hrun, hrest⟩ := Except.bind_eq_ok_iff.mp h
      have hgate := Gate.setAll_of_run hrun (holdsIn_of_foldlM hrest).1
      rw [List.flatMap_cons, Witness.setAll, List.foldlM_append]
      exact Except.bind_eq_ok_iff.mpr ⟨w₁, hgate, ih hrest⟩

/-- Gates whose relations hold already run without adding a value. -/
theorem foldlM_of_holdsIn (h : ∀ gate ∈ gates, gate.HoldsIn v) :
    gates.foldlM Gate.run v = .ok v := by
  induction gates with
  | nil => rfl
  | cons gate rest ih =>
      obtain ⟨hgate, hrest⟩ := List.forall_mem_cons.mp h
      rw [List.foldlM_cons, Gate.run_of_holdsIn hgate]
      exact ih hrest

/-- On values of an assignment that satisfies all relations, gates add more of its values or
report a wire without one. -/
theorem foldlM_of_relates (hw : w.AgreesWith σ) (h : ∀ gate ∈ gates, gate.Relates σ) :
    (∃ wire, gates.foldlM Gate.run w = .error (.unset wire)) ∨
      ∃ v, gates.foldlM Gate.run w = .ok v ∧ v.AgreesWith σ := by
  induction gates generalizing w with
  | nil => exact Or.inr ⟨w, rfl, hw⟩
  | cons gate rest ih =>
      obtain ⟨hgate, hrest⟩ := List.forall_mem_cons.mp h
      rw [List.foldlM_cons]
      rcases Gate.run_of_relates hw hgate with ⟨wire, hunset⟩ | ⟨w₁, hrun, hw₁⟩
      · rw [hunset]
        exact Or.inl ⟨wire, rfl⟩
      · rw [hrun]
        exact ih hw₁ hrest

theorem eq_of_copy_holds {copy : Copy} (h : copy.holds v = true) :
    v.value copy.lhs = v.value copy.rhs := by
  unfold Copy.holds at h
  cases hlhs : v.get? copy.lhs with
  | none => simp [hlhs] at h
  | some a =>
      cases hrhs : v.get? copy.rhs with
      | none => simp [hlhs, hrhs] at h
      | some b =>
          simp only [hlhs, hrhs, beq_iff_eq] at h
          rw [Witness.value_eq hlhs, Witness.value_eq hrhs, h]

theorem isSatisfied_iff_copies (c : Circuit) (w : Witness) : c.isSatisfied w = true ↔
    ∃ v, c.complete w = .ok v ∧ ∀ copy ∈ c.copies, copy.holds v = true := by
  unfold isSatisfied
  cases h : c.complete w with
  | error e => simp
  | ok v =>
      simp only [firstUnsatisfied, Option.isNone_iff_eq_none, Array.find?_eq_none, Except.ok.injEq]
      simp

/-- The values of a completed witness are those that the relations of the gates force on its
inputs, a conflict refutes the relations, and a satisfied circuit has an assignment that
satisfies all relations and copies. -/
theorem complete_determined_by_relations (c : Circuit) (w : Witness) :
    (∀ v, c.complete w = .ok v →
      w.ExtendedBy v ∧ (∀ gate ∈ c.gates, gate.HoldsIn v) ∧
        (∀ σ, w.AgreesWith σ → (∀ gate ∈ c.gates, gate.Relates σ) → v.AgreesWith σ) ∧
        c.complete v = .ok v) ∧
      (∀ wire held given, c.complete w = .error (.conflict wire held given) →
        ¬ ∃ σ, w.AgreesWith σ ∧ ∀ gate ∈ c.gates, gate.Relates σ) ∧
      (c.isSatisfied w = true →
        ∃ σ, w.AgreesWith σ ∧ (∀ gate ∈ c.gates, gate.Relates σ) ∧
          ∀ copy ∈ c.copies, σ copy.lhs = σ copy.rhs) := by
  simp only [isSatisfied_iff_copies, complete_eq, ← Array.mem_toList_iff]
  refine ⟨fun v hv => ?_, fun wire held given hconflict => ?_, ?_⟩
  · obtain ⟨hle, hholds⟩ := holdsIn_of_foldlM hv
    refine ⟨hle, hholds, fun σ hw hrelates => ?_, foldlM_of_holdsIn hholds⟩
    rcases foldlM_of_relates hw hrelates with ⟨wire, hunset⟩ | ⟨v', hv', hagrees⟩
    · cases hv.symm.trans hunset
    · cases hv.symm.trans hv'
      exact hagrees
  · rintro ⟨σ, hw, hrelates⟩
    rcases foldlM_of_relates hw hrelates with ⟨wire, hunset⟩ | ⟨v, hv, _⟩
    · cases hconflict.symm.trans hunset
    · cases hconflict.symm.trans hv
  · rintro ⟨v, hv, hcopies⟩
    obtain ⟨hle, hholds⟩ := holdsIn_of_foldlM hv
    exact ⟨v.value, v.agreesWith_value.anti hle, fun gate hgate => (hholds gate hgate).relates,
      fun copy hcopy => eq_of_copy_holds (hcopies copy hcopy)⟩

/-- A circuit whose first gate reads the wire that only its second gate assigns. -/
def readsAhead : Circuit :=
  ((Call.runAll [.input, .mulAdd ⟨0⟩ ⟨0⟩ ⟨2⟩, .constant (.ofWord 5), .connect ⟨1⟩ ⟨1⟩]).run
    .empty).2.circuit

/-- With its output assigned beforehand, the second gate runs if the value is its constant. -/
theorem complete_readsAhead :
    (∃ v, readsAhead.complete ⟨#[some (.ofWord 3), none, some (.ofWord 5)]⟩ = .ok v ∧
      v.get? ⟨1⟩ = some (.ofWord 14) ∧ (∀ gate ∈ readsAhead.gates, gate.HoldsIn v) ∧
      readsAhead.complete v = .ok v) ∧
    (¬ ∃ σ : Wire → Goldilocks,
      Witness.AgreesWith ⟨#[some (.ofWord 3), none, some (.ofWord 4)]⟩ σ ∧
        ∀ gate ∈ readsAhead.gates, gate.Relates σ) ∧
    (∃ σ : Wire → Goldilocks,
      Witness.AgreesWith ⟨#[some (.ofWord 3), none, some (.ofWord 5)]⟩ σ ∧
        (∀ gate ∈ readsAhead.gates, gate.Relates σ) ∧
        ∀ copy ∈ readsAhead.copies, σ copy.lhs = σ copy.rhs) := by
  have hok : readsAhead.complete ⟨#[some (.ofWord 3), none, some (.ofWord 5)]⟩ =
      .ok ⟨#[some (.ofWord 3), some (.ofWord 14), some (.ofWord 5)]⟩ := by rfl
  have hconflict : readsAhead.complete ⟨#[some (.ofWord 3), none, some (.ofWord 4)]⟩ =
      .error (.conflict ⟨2⟩ (.ofWord 4) (.ofWord 5)) := by rfl
  have hsatisfied :
      readsAhead.isSatisfied ⟨#[some (.ofWord 3), none, some (.ofWord 5)]⟩ = true := by rfl
  obtain ⟨hcompleted, _, hassignment⟩ := complete_determined_by_relations readsAhead
    ⟨#[some (.ofWord 3), none, some (.ofWord 5)]⟩
  obtain ⟨_, hrefuted, _⟩ := complete_determined_by_relations readsAhead
    ⟨#[some (.ofWord 3), none, some (.ofWord 4)]⟩
  obtain ⟨_, hholds, _, hagain⟩ := hcompleted _ hok
  exact ⟨⟨_, hok, rfl, hholds, hagain⟩, hrefuted _ _ _ hconflict, hassignment hsatisfied⟩

end Circuit

end CrossLookup
