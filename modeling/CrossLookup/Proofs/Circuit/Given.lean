import CrossLookup.Proofs.Circuit.Build
import CrossLookup.Table

/-!
# Constructions over given inputs

Steps that note inputs compute further values as the steps of a builder do. A
posed construction is solved without conflict, and its witness holds what the
construction computes.
-/

namespace CrossLookup

namespace Given

variable {α β : Type} {values : List Goldilocks}

/-- A step computes further values from inputs that it notes, connects pairs of values and
returns a result with a property. -/
def Connects (step : Given α) (values : List Goldilocks)
    (pairs : List (Goldilocks × Goldilocks)) (post : α → List Goldilocks → Prop) : Prop :=
  ∀ ⦃b : Builder⦄ ⦃noted : Array (Wire × Goldilocks)⦄ ⦃connected⦄,
    b.Computes noted.toList values connected →
      ∃ values', values <+: values' ∧
        ((step.run noted).run b).run.2.Computes ((step.run noted).run b).run.1.2.toList values'
          (connected ++ pairs) ∧
        post ((step.run noted).run b).run.1.1 values'

/-- A step computes further values, connects none and returns a result with a property. -/
abbrev Yields (step : Given α) (values : List Goldilocks)
    (post : α → List Goldilocks → Prop) : Prop :=
  Connects step values [] post

namespace Connects

variable {pairs pairs' : List (Goldilocks × Goldilocks)} {post : α → List Goldilocks → Prop}
  {post' : β → List Goldilocks → Prop}

theorem pure {a : α} (h : post a values) : Yields (Pure.pure a) values post := by
  intro b noted connected hb
  rw [List.append_nil]
  exact ⟨values, List.prefix_rfl, hb, h⟩

theorem bind {step : Given α} {next : α → Given β} (hstep : Connects step values pairs post)
    (hnext : ∀ a values', values <+: values' → post a values' →
      Connects (next a) values' pairs' post') :
    Connects (step >>= next) values (pairs ++ pairs') post' := by
  intro b noted connected hb
  obtain ⟨values₁, hle₁, hb₁, ha⟩ := hstep hb
  obtain ⟨values₂, hle₂, hb₂, hpost⟩ := hnext _ values₁ hle₁ ha hb₁
  rw [List.append_assoc] at hb₂
  exact ⟨values₂, hle₁.trans hle₂, hb₂, hpost⟩

theorem mono {step : Given α} {post₁ post₂ : α → List Goldilocks → Prop}
    (h : Connects step values pairs post₁)
    (himp : ∀ a values', values <+: values' → post₁ a values' → post₂ a values') :
    Connects step values pairs post₂ := by
  intro b noted connected hb
  obtain ⟨values', hle, hb', ha⟩ := h hb
  exact ⟨values', hle, hb', himp _ values' hle ha⟩

/-- A step that notes nothing. -/
theorem lift {step : Build α} (h : Build.Connects step values pairs post) :
    Connects (liftM step) values pairs post :=
  fun _ _ _ hb => h hb

/-- A finished construction computes values from the inputs noted. -/
theorem pose {construction : Given α} (h : Connects construction [] pairs post) :
    ∃ (b : Builder) (values : List Goldilocks), construction.pose.circuit = b.circuit ∧
      b.Computes construction.pose.inputs values pairs ∧ post construction.pose.result values := by
  obtain ⟨values, _, hb, hpost⟩ := @h .empty #[] [] Builder.computes_empty
  exact ⟨_, values, rfl, hb, hpost⟩

/-- Solving a construction succeeds with a witness that holds what it computes. -/
theorem exists_solve {construction : Given α} (h : Connects construction [] pairs post) :
    ∃ solved values, construction.pose.solve = .ok solved ∧ post solved.result values ∧
      ∀ wire a, Wire.Holds values wire a → solved.witness.get? wire = some a := by
  obtain ⟨b, values, hcircuit, hb, hpost⟩ := h.pose
  obtain ⟨w, w', hset, hcomplete, hget⟩ := hb.exists_complete
  refine ⟨⟨construction.pose.result, construction.pose.circuit, w, w'⟩, values, ?_, hpost, hget⟩
  rw [Posed.solve, Posed.assigned, hset, hcircuit]
  exact Except.bind_eq_ok_iff.mpr ⟨w, rfl, Except.bind_eq_ok_iff.mpr ⟨w', hcomplete, rfl⟩⟩

/-- A construction is satisfied by its inputs when all connected values agree. -/
theorem isSatisfied_iff {construction : Given α} (h : Connects construction [] pairs post) :
    (∃ w, construction.pose.assigned = .ok w ∧
      construction.pose.circuit.isSatisfied w = true) ↔ ∀ pair ∈ pairs, pair.1 = pair.2 := by
  obtain ⟨b, values, hcircuit, hb, _⟩ := h.pose
  rw [hcircuit]
  constructor
  · rintro ⟨w, hw, hsatisfied⟩
    exact (hb.isSatisfied_iff hw).mp hsatisfied
  · intro hpairs
    obtain ⟨w, _, hw, _⟩ := hb.exists_complete
    exact ⟨w, hw, (hb.isSatisfied_iff hw).mpr hpairs⟩

end Connects

theorem yields_wire (a : Goldilocks) :
    Yields (wire a) values fun w values' => w.Holds values' a := by
  intro b noted connected hb
  have hinput := hb.input a
  rw [List.append_nil]
  refine ⟨values ++ [a], List.prefix_append _ _, ?_, ?_⟩
  · have hnoted : (noted ++ [((⟨b.wireCount⟩ : Wire), a)]).toList =
        noted.toList ++ [(⟨b.wireCount⟩, a)] := by
      simp
    rw [← hnoted] at hinput
    exact hinput
  · have hwire := holds_append_singleton values a
    rw [← hb.wireCount_eq] at hwire
    exact hwire

/-- A traversal yields at every position what its function yields there. -/
theorem yields_mapM (r : α → List Goldilocks → β → Prop) {f : α → Given β}
    (hmono : ∀ {a b values values'}, r a values b → values <+: values' → r a values' b)
    (hf : ∀ a values, Yields (f a) values fun b values' => r a values' b) (as : List α) :
    Yields (as.mapM f) values fun bs values' => List.Forall₂ (fun a b => r a values' b) as bs := by
  induction as generalizing values with
  | nil =>
      rw [List.mapM_nil]
      exact Connects.pure .nil
  | cons a rest ih =>
      rw [List.mapM_cons]
      refine (hf a values).bind fun b values₁ _ hb => ?_
      refine ih.bind fun bs values₂ hle hbs => Connects.pure ?_
      exact .cons (hmono hb hle) hbs

theorem yields_wires (as : List Goldilocks) :
    Yields (wires as) values fun ws values' => List.Forall₂ (Wire.Holds values') ws as :=
  (yields_mapM (fun a values' w => w.Holds values' a) (fun h hle => h.mono hle)
    (fun a _ => yields_wire a) as).mono fun _ _ _ h => h.flip

/-- What holds of the image of a result holds of the result. -/
theorem Connects.of_map {g : α → β} {step : Given α} {pairs : List (Goldilocks × Goldilocks)}
    {post : β → List Goldilocks → Prop} (h : Connects (g <$> step) values pairs post) :
    Connects step values pairs fun a values' => post (g a) values' :=
  fun _ _ _ hb => h hb

/-- A traversal of all tables yields for each what its function yields. -/
theorem yields_mapM_perTable (r : α → List Goldilocks → β → Prop) {f : α → Given β}
    (hmono : ∀ {a b values values'}, r a values b → values <+: values' → r a values' b)
    (hf : ∀ a values, Yields (f a) values fun b values' => r a values' b) (p : PerTable α) :
    Yields (p.mapM f) values fun q values' => ∀ table, r (p.get table) values' (q.get table) := by
  let visit : Table → Given β := fun table => f (p.get table)
  have hlist : Yields (Vector.toList <$> Table.all.mapM visit) values fun bs values' =>
      List.Forall₂ (fun table b => r (p.get table) values' b) Table.all.toList bs := by
    rw [Vector.toList_mapM]
    exact yields_mapM (fun table values' b => r (p.get table) values' b) hmono
      (fun table values => hf (p.get table) values) Table.all.toList
  refine hlist.of_map.bind fun bs values' _ hbs => Connects.pure fun table => ?_
  have hindex : table.index.val < Table.all.toList.length := table.index.isLt
  have hget := hbs.get hindex (by simp)
  simp only [List.get_eq_getElem, Vector.getElem_toList] at hget
  rw [show Table.all[table.index.val] = table from Table.all_index table] at hget
  exact hget

theorem yields_cubic (x : Cubic) :
    Yields (cubic x) values fun wires values' => wires.Holds values' x := by
  intro b noted connected hb
  have hinput := ((hb.input x.c0).input x.c1).input x.c2
  rw [List.append_nil]
  refine ⟨values ++ [x.c0] ++ [x.c1] ++ [x.c2], ?_, ?_, ?_⟩
  · rw [List.append_assoc, List.append_assoc]
    exact List.prefix_append _ _
  · have hnoted : (noted ++ Witness.coefficientValues
        ⟨⟨b.wireCount⟩, ⟨b.wireCount + 1⟩, ⟨b.wireCount + 1 + 1⟩⟩ x).toList =
          noted.toList ++ [(⟨b.wireCount⟩, x.c0)] ++ [(⟨b.wireCount + 1⟩, x.c1)] ++
            [(⟨b.wireCount + 1 + 1⟩, x.c2)] := by
      simp [Witness.coefficientValues, CubicWire.parts, Cubic.coefficients]
    rw [← hnoted] at hinput
    exact hinput
  · have hc0 := holds_append_singleton values x.c0
    have hc1 := holds_append_singleton (values ++ [x.c0]) x.c1
    have hc2 := holds_append_singleton (values ++ [x.c0] ++ [x.c1]) x.c2
    rw [List.length_append, List.length_singleton] at hc1 hc2
    rw [List.length_append, List.length_singleton] at hc2
    rw [← hb.wireCount_eq] at hc0 hc1 hc2
    exact ⟨(hc0.mono (List.prefix_append _ _)).mono (List.prefix_append _ _),
      hc1.mono (List.prefix_append _ _), hc2⟩

end Given

end CrossLookup
