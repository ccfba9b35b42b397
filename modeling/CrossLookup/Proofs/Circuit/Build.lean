import CrossLookup.Proofs.Circuit.Computes
import CrossLookup.Proofs.Field.Residue

/-!
# What the steps of a construction compute

A step keeps the values of the wires there are, computes further ones and
returns wires that hold what the step is named for.
-/

namespace CrossLookup

namespace Build

variable {α β : Type} {values : List Goldilocks}

/-- A step computes further values, connects pairs of them and returns a result with a property. -/
def Connects (step : Build α) (values : List Goldilocks)
    (pairs : List (Goldilocks × Goldilocks)) (post : α → List Goldilocks → Prop) : Prop :=
  ∀ ⦃b : Builder⦄ ⦃inputs connected⦄, b.Computes inputs values connected →
    ∃ values', values <+: values' ∧
      (step.run b).run.2.Computes inputs values' (connected ++ pairs) ∧
        post (step.run b).run.1 values'

/-- A step computes further values, connects none and returns a result with a property. -/
abbrev Yields (step : Build α) (values : List Goldilocks)
    (post : α → List Goldilocks → Prop) : Prop :=
  Connects step values [] post

namespace Connects

variable {pairs pairs' : List (Goldilocks × Goldilocks)} {post : α → List Goldilocks → Prop}
  {post' : β → List Goldilocks → Prop}

theorem pure {a : α} (h : post a values) : Yields (Pure.pure a) values post := by
  intro b inputs connected hb
  rw [List.append_nil]
  exact ⟨values, List.prefix_rfl, hb, h⟩

theorem bind {step : Build α} {next : α → Build β} (hstep : Connects step values pairs post)
    (hnext : ∀ a values', values <+: values' → post a values' →
      Connects (next a) values' pairs' post') :
    Connects (step >>= next) values (pairs ++ pairs') post' := by
  intro b inputs connected hb
  obtain ⟨values₁, hle₁, hb₁, ha⟩ := hstep hb
  obtain ⟨values₂, hle₂, hb₂, hpost⟩ := hnext _ values₁ hle₁ ha hb₁
  rw [List.append_assoc] at hb₂
  exact ⟨values₂, hle₁.trans hle₂, hb₂, hpost⟩

theorem mono {step : Build α} {post₁ post₂ : α → List Goldilocks → Prop}
    (h : Connects step values pairs post₁)
    (himp : ∀ a values', values <+: values' → post₁ a values' → post₂ a values') :
    Connects step values pairs post₂ := by
  intro b inputs connected hb
  obtain ⟨values', hle, hb', ha⟩ := h hb
  exact ⟨values', hle, hb', himp _ values' hle ha⟩

end Connects

section Loops

variable {γ δ : Type} (r : List Goldilocks → α → γ → Prop) (s : List Goldilocks → β → δ → Prop)
  (hmono : ∀ {values values' b d}, s values b d → values <+: values' → s values' b d)
  {a : α} {c : γ} {bs : List β} {ds : List δ}

include hmono

/-- A loop whose every step keeps a result in relation to a value keeps it in relation to the loop
over values. A step may rely on whatever holds of the values from before the loop on. -/
theorem yields_foldlM {step : α → β → Build α} {spec : γ → δ → γ}
    (hstep : ∀ {values' a b c d}, values <+: values' → r values' a c → s values' b d →
      Yields (step a b) values' fun out values'' => r values'' out (spec c d))
    (ha : r values a c) (hbs : List.Forall₂ (s values) bs ds) :
    Yields (bs.foldlM step a) values fun out values' => r values' out (ds.foldl spec c) := by
  induction bs generalizing values a c ds with
  | nil =>
      cases hbs
      exact Connects.pure ha
  | cons b rest ih =>
      cases hbs with
      | cons hb hrest =>
          rw [List.foldlM_cons, List.foldl_cons]
          refine (hstep List.prefix_rfl ha hb).bind fun out values' hle hout => ?_
          exact ih (fun hle' => hstep (hle.trans hle')) hout (hrest.imp fun _ _ h => hmono h hle)

/-- The same of a loop from the last element down. -/
theorem yields_foldrM {step : β → α → Build α} {spec : δ → γ → γ}
    (hstep : ∀ {values' a b c d}, values <+: values' → r values' a c → s values' b d →
      Yields (step b a) values' fun out values'' => r values'' out (spec d c))
    (ha : r values a c) (hbs : List.Forall₂ (s values) bs ds) :
    Yields (bs.foldrM step a) values fun out values' => r values' out (ds.foldr spec c) := by
  induction bs generalizing ds with
  | nil =>
      cases hbs
      exact Connects.pure ha
  | cons b rest ih =>
      cases hbs with
      | cons hb hrest =>
          rw [List.foldrM_cons, List.foldr_cons]
          exact (ih hrest).bind fun out values' hle hout => hstep hle hout (hmono hb hle)

end Loops

/-- Connecting two wires connects the values that they hold. -/
theorem connects_connect {lhs rhs : Wire} {a a' : Goldilocks} (hlhs : lhs.Holds values a)
    (hrhs : rhs.Holds values a') :
    Connects (connect lhs rhs) values [(a, a')] fun _ _ => True :=
  fun _ _ _ hb => ⟨values, List.prefix_rfl, hb.connect hlhs hrhs, trivial⟩

theorem yields_gateCount : Yields gateCount values fun _ _ => True := by
  intro b inputs connected hb
  rw [List.append_nil]
  exact ⟨values, List.prefix_rfl, hb, trivial⟩

theorem constants_lookup_holds {b : Builder} {inputs : List (Wire × Goldilocks)}
    {connected : List (Goldilocks × Goldilocks)} (hb : b.Computes inputs values connected)
    {a : Goldilocks} {wire : Wire} (h : b.constants.lookup a = some wire) :
    wire.Holds values a := by
  obtain ⟨before, after, hconstants, _⟩ := List.lookup_eq_some_iff.mp h
  apply hb.constants_hold (a, wire)
  rw [hconstants]
  exact List.mem_append_right _ List.mem_cons_self

theorem run_constant_of_some {b : Builder} {a : Goldilocks} {wire : Wire}
    (h : b.constants.lookup a = some wire) : ((constant a).run b).run = (wire, b) := by
  unfold constant
  simp [h]

theorem run_constant_of_none {b : Builder} {a : Goldilocks} (h : b.constants.lookup a = none) :
    ((constant a).run b).run = (⟨b.wireCount⟩, { b with
      wireCount := b.wireCount + 1
      gates := b.gates.push (.constant a ⟨b.wireCount⟩)
      constants := (a, ⟨b.wireCount⟩) :: b.constants }) := by
  unfold constant newWire emit
  simp [h]

/-- The wire of a constant holds it, whether it is new or not. -/
theorem yields_constant (a : Goldilocks) :
    Yields (constant a) values fun wire values' => wire.Holds values' a := by
  intro b inputs connected hb
  rw [List.append_nil]
  cases hlookup : b.constants.lookup a with
  | some wire =>
      rw [run_constant_of_some hlookup]
      exact ⟨values, List.prefix_rfl, hb, constants_lookup_holds hb hlookup⟩
  | none =>
      have hwire : Wire.Holds (values ++ [a]) ⟨b.wireCount⟩ a := by
        rw [hb.wireCount_eq]
        exact holds_append_singleton values a
      have hgate := hb.gate (.constant a ⟨b.wireCount⟩) [a]
        (List.forall_mem_nil _) (by rw [hb.wireCount_eq]; rfl) fun _ _ => rfl
      rw [run_constant_of_none hlookup]
      exact ⟨values ++ [a], List.prefix_append _ _, hgate.constant hwire, hwire⟩

theorem yields_zero : Yields zero values fun wire values' => wire.Holds values' 0 :=
  yields_constant 0

theorem yields_one : Yields one values fun wire values' => wire.Holds values' 1 :=
  yields_constant 1

/-- The output wire of an arithmetic gate holds the value of the gate. -/
theorem yields_arithmetic {left right addend : Wire} {l r a : Goldilocks} (c0 c1 : Goldilocks)
    (hleft : left.Holds values l) (hright : right.Holds values r)
    (haddend : addend.Holds values a) :
    Yields (arithmetic c0 c1 left right addend) values fun wire values' =>
      wire.Holds values' (Gate.arithmeticValue c0 c1 l r a) := by
  intro b inputs connected hb
  have hgate := hb.gate (.arithmetic c0 c1 left right addend ⟨b.wireCount⟩)
    [Gate.arithmeticValue c0 c1 l r a]
    (by simp [Gate.reads, hleft.lt, hright.lt, haddend.lt]) (by rw [hb.wireCount_eq]; rfl)
    (fun σ hσ => by
      rw [Gate.computed, hσ left l hleft, hσ right r hright, hσ addend a haddend])
  rw [List.append_nil]
  refine ⟨_, List.prefix_append _ _, hgate, ?_⟩
  have hwire := holds_append_singleton values (Gate.arithmeticValue c0 c1 l r a)
  rw [← hb.wireCount_eq] at hwire
  exact hwire

section Operations

variable {left right addend : Wire} {l r a : Goldilocks}

theorem yields_add (hleft : left.Holds values l) (hright : right.Holds values r) :
    Yields (add left right) values fun wire values' => wire.Holds values' (l + r) := by
  refine yields_one.bind fun u values' hle hu => ?_
  refine (yields_arithmetic 1 1 (hleft.mono hle) hu (hright.mono hle)).mono
    fun wire _ _ hwire => hwire.of_eq ?_
  rw [Gate.arithmeticValue]
  ring

theorem yields_sub (hleft : left.Holds values l) (hright : right.Holds values r) :
    Yields (sub left right) values fun wire values' => wire.Holds values' (l - r) := by
  refine yields_one.bind fun u values' hle hu => ?_
  refine (yields_arithmetic 1 (-1) (hleft.mono hle) hu (hright.mono hle)).mono
    fun wire _ _ hwire => hwire.of_eq ?_
  rw [Gate.arithmeticValue]
  ring

theorem yields_mul (hleft : left.Holds values l) (hright : right.Holds values r) :
    Yields (mul left right) values fun wire values' => wire.Holds values' (l * r) := by
  refine yields_zero.bind fun z values' hle hz => ?_
  refine (yields_arithmetic 1 0 (hleft.mono hle) (hright.mono hle) hz).mono
    fun wire _ _ hwire => hwire.of_eq ?_
  rw [Gate.arithmeticValue]
  ring

theorem yields_mulAdd (hleft : left.Holds values l) (hright : right.Holds values r)
    (haddend : addend.Holds values a) :
    Yields (mulAdd left right addend) values fun wire values' => wire.Holds values' (l * r + a) :=
  (yields_arithmetic 1 1 hleft hright haddend).mono fun wire _ _ hwire =>
    hwire.of_eq (by rw [Gate.arithmeticValue]; ring)

theorem yields_mulSub (hleft : left.Holds values l) (hright : right.Holds values r)
    (haddend : addend.Holds values a) :
    Yields (mulSub left right addend) values fun wire values' => wire.Holds values' (l * r - a) :=
  (yields_arithmetic 1 (-1) hleft hright haddend).mono fun wire _ _ hwire =>
    hwire.of_eq (by rw [Gate.arithmeticValue]; ring)

end Operations

theorem yields_foldlM_mul {wires : List Wire} {as : List Goldilocks} {first : Wire}
    {a : Goldilocks} (hfirst : first.Holds values a)
    (hwires : List.Forall₂ (Wire.Holds values) wires as) :
    Yields (wires.foldlM mul first) values fun wire values' =>
      wire.Holds values' (a * as.prod) := by
  rw [← List.prod_cons, List.prod_eq_foldl, List.foldl_cons, one_mul]
  exact yields_foldlM Wire.Holds Wire.Holds (fun h hle => h.mono hle) (fun _ => yields_mul)
    hfirst hwires

/-- The product of wires holds the product of their values. -/
theorem yields_mulMany {wires : List Wire} {as : List Goldilocks}
    (hwires : List.Forall₂ (Wire.Holds values) wires as) :
    Yields (mulMany wires) values fun wire values' => wire.Holds values' as.prod := by
  cases hwires with
  | nil => exact yields_one
  | cons hfirst hrest => exact yields_foldlM_mul hfirst hrest

/-- The wires of a state hold the cells of a sponge. -/
def StateHolds (values : List Goldilocks) (state : Vector Wire 16) (s : SpongeState) : Prop :=
  List.Forall₂ (Wire.Holds values) state.toList s.toList

theorem toList_newState (start : Nat) :
    (Vector.ofFn fun i : Fin 16 => (⟨start + i⟩ : Wire)).toList = nextWires start 16 := by
  apply List.ext_getElem
  · simp [nextWires]
  · intro i hi hi'
    simp [nextWires]

/-- The output wires of a permutation gate hold the permuted cells. -/
theorem yields_permute {state : Vector Wire 16} {s : SpongeState}
    (hstate : StateHolds values state s) :
    Yields (permute state) values fun out values' => StateHolds values' out s.permute := by
  intro b inputs connected hb
  let out : Vector Wire 16 := Vector.ofFn fun i => ⟨b.wireCount + i⟩
  have hout : out.toList = nextWires values.length s.permute.toList.length := by
    rw [toList_newState, hb.wireCount_eq, Vector.length_toList]
  have hcomputed : ∀ σ, Extends σ values →
      (Gate.permutation state out).computed σ = s.permute.toList := by
    intro σ hσ
    have hmap : state.map σ = s := by
      apply Vector.toList_inj.mp
      rw [Vector.toList_map]
      exact hσ.map_eq hstate
    rw [Gate.computed, hmap]
  have hgate := hb.gate (.permutation state out) s.permute.toList
    (lt_of_forall₂_holds hstate) hout hcomputed
  rw [Vector.length_toList] at hgate
  rw [List.append_nil]
  refine ⟨_, List.prefix_append _ _, hgate, ?_⟩
  change List.Forall₂ _ out.toList _
  rw [hout]
  exact forall₂_nextWires values s.permute.toList

end Build

end CrossLookup
