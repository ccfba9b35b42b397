import CrossLookup.Circuit.Transcript
import CrossLookup.Proofs.Circuit.Given
import CrossLookup.Proofs.Sponge.Transcript
import Mathlib.Data.List.Forall2
import Mathlib.Data.List.GetD

/-!
# The transcript inside a circuit draws the same challenges

The transcript over wires keeps everything observed since the last draw, the
transcript over values only what does not fill a rate. A wire transcript follows
a transcript over values when that one arises by observing the values of the
pending wires from a state and an output that the wires hold.
-/

namespace CrossLookup

variable {values values' : List Goldilocks}

theorem forall₂_getD {α β : Type} {r : α → β → Prop} {as : List α} {bs : List β} {a : α} {b : β}
    (h : List.Forall₂ r as bs) (hdefault : r a b) (i : Nat) :
    r (as.getD i a) (bs.getD i b) := by
  induction h generalizing i with
  | nil => exact hdefault
  | cons hhead _ ih =>
      cases i with
      | zero => exact hhead
      | succ i => exact ih i

/-- Apply functions to what an exchange observes. -/
def Exchange.map {B X B' X' : Type} (f : B → B') (g : X → X') : Exchange B X → Exchange B' X'
  | .observe b => .observe (f b)
  | .observeAll bs => .observeAll (bs.map f)
  | .observeCubic x => .observeCubic (g x)
  | .draw => .draw
  | .drawMany n => .drawMany n
  | .drawCubic => .drawCubic
  | .drawChallenge => .drawChallenge
  | .drawChallenges n => .drawChallenges n

namespace CircuitTranscript

open Build

theorem stateHolds_iff {state : Vector Wire 16} {s : SpongeState} :
    StateHolds values state s ↔ ∀ i (h : i < 16), Wire.Holds values state[i] s[i] := by
  unfold StateHolds
  rw [List.forall₂_iff_get]
  simp

theorem stateHolds_overwrite {state : Vector Wire 16} {s : SpongeState} {wires : List Wire}
    {as : List Goldilocks} (hstate : StateHolds values state s)
    (hwires : List.Forall₂ (Wire.Holds values) wires as) :
    StateHolds values (overwrite state wires) (s.overwrite as) := by
  rw [stateHolds_iff] at hstate ⊢
  intro i h
  unfold overwrite SpongeState.overwrite
  rw [Vector.getElem_mapIdx, Vector.getElem_mapIdx]
  exact forall₂_getD hwires (hstate i h) i

theorem holds_output {state : Vector Wire 16} {s : SpongeState}
    (hstate : StateHolds values state s) :
    List.Forall₂ (Wire.Holds values) (output state) s.output :=
  List.rel_reverse (List.forall₂_take _ hstate)

/-- Absorbing wires rate by rate absorbs their values rate by rate. -/
theorem yields_absorb {state : Vector Wire 16} {s : SpongeState} {wires : List Wire}
    {as : List Goldilocks} (hstate : StateHolds values state s)
    (hwires : List.Forall₂ (Wire.Holds values) wires as) :
    Yields (absorb state wires) values fun out values' =>
      StateHolds values' out (s.absorbAll as) := by
  have hlength := hwires.length_eq
  induction s, as using SpongeState.absorbAll.induct generalizing values state wires with
  | case1 s as hle =>
      have hlast : wires.length ≤ SpongeState.rate := hlength.trans_le hle
      rw [absorb, SpongeState.absorbAll_of_le hle]
      simp only [if_pos hlast, List.take_of_length_le hlast, bind_pure]
      exact yields_permute (stateHolds_overwrite hstate hwires)
  | case2 s as hlt ih =>
      have hmore : ¬wires.length ≤ SpongeState.rate := fun h => hlt (hlength.symm.trans_le h)
      rw [absorb, SpongeState.absorbAll_of_lt (Nat.lt_of_not_le hlt)]
      simp only [if_neg hmore]
      have hfirst := stateHolds_overwrite hstate (List.forall₂_take SpongeState.rate hwires)
      refine (yields_permute hfirst).bind fun out values' hle hout => ?_
      have hrest := forall₂_holds_mono (List.forall₂_drop SpongeState.rate hwires) hle
      exact ih hout hrest hrest.length_eq

/-- A transcript over wires follows one over values that observed what its wires hold. -/
def Follows (values : List Goldilocks) (t : CircuitTranscript) (native : Transcript) : Prop :=
  ∃ s pending available, StateHolds values t.state s ∧
    List.Forall₂ (Wire.Holds values) t.pending pending ∧
    List.Forall₂ (Wire.Holds values) t.available available ∧
    native = (⟨s, [], available⟩ : Transcript).observeAll pending

variable {t : CircuitTranscript} {native : Transcript}

theorem stateHolds_mono {state : Vector Wire 16} {s : SpongeState}
    (h : StateHolds values state s) (hle : values <+: values') : StateHolds values' state s :=
  forall₂_holds_mono h hle

theorem Follows.mono (h : t.Follows values native) (hle : values <+: values') :
    t.Follows values' native := by
  obtain ⟨s, pending, available, hs, hpending, havailable, hnative⟩ := h
  exact ⟨s, pending, available, stateHolds_mono hs hle, forall₂_holds_mono hpending hle,
    forall₂_holds_mono havailable hle, hnative⟩

/-- Nothing is pending in either transcript and the same is available. -/
def Level (values : List Goldilocks) (t : CircuitTranscript) (native : Transcript) : Prop :=
  t.pending = [] ∧ ∃ s available, StateHolds values t.state s ∧
    List.Forall₂ (Wire.Holds values) t.available available ∧ native = ⟨s, [], available⟩

theorem Level.follows (h : t.Level values native) : t.Follows values native := by
  obtain ⟨hpending, s, available, hs, havailable, rfl⟩ := h
  refine ⟨s, [], available, hs, ?_, havailable, rfl⟩
  rw [hpending]
  exact .nil

theorem yields_fresh :
    Yields fresh values fun t values' => t.Follows values' Transcript.fresh := by
  refine yields_zero.bind fun z values' _ hz => Connects.pure (Level.follows ?_)
  refine ⟨rfl, _, [], stateHolds_iff.mpr fun i h => ?_, .nil, rfl⟩
  rw [Vector.getElem_replicate, Vector.getElem_replicate]
  exact hz

theorem Follows.observe (h : t.Follows values native) {wire : Wire} {a : Goldilocks}
    (hwire : wire.Holds values a) : (t.observe wire).Follows values (native.observe a) := by
  obtain ⟨s, pending, available, hs, hpending, _, rfl⟩ := h
  refine ⟨s, pending ++ [a], [], hs, List.rel_append hpending (.cons hwire .nil), .nil, ?_⟩
  have hne : pending ++ [a] ≠ [] := by simp
  rw [← Transcript.observeAll_append_singleton, Transcript.observeAll_discard hne]

theorem Follows.observeAll {wires : List Wire} {as : List Goldilocks}
    (h : t.Follows values native) (hwires : List.Forall₂ (Wire.Holds values) wires as) :
    (t.observeAll wires).Follows values (native.observeAll as) := by
  unfold CircuitTranscript.observeAll Transcript.observeAll
  induction hwires generalizing t native with
  | nil => exact h
  | cons hwire _ ih => exact ih (h.observe hwire)

/-- Refreshing brings both transcripts level, however differently they absorbed. -/
theorem yields_refresh (h : t.Follows values native) :
    Yields t.refresh values fun t' values' => t'.Level values' native.refresh := by
  obtain ⟨s, pending, available, hs, hpending, havailable, rfl⟩ := h
  unfold refresh
  split
  · next hcondition =>
    have hstale : pending ≠ [] ∨ available = [] := by
      rcases hcondition with hne | hnil
      · left
        rintro rfl
        exact hne (List.forall₂_nil_right_iff.mp hpending)
      · right
        rw [hnil] at havailable
        exact List.forall₂_nil_left_iff.mp havailable
    rw [Transcript.refresh_observeAll s pending available hstale]
    refine (yields_absorb hs hpending).bind fun out values' _ hout => Connects.pure ?_
    exact ⟨rfl, _, _, hout, holds_output hout, rfl⟩
  · next hcondition =>
    obtain ⟨hpending', havailable'⟩ := not_or.mp hcondition
    have hnone : t.pending = [] := not_not.mp hpending'
    rw [hnone] at hpending
    cases hpending
    have hsome : available ≠ [] := by
      rintro rfl
      exact havailable' (List.forall₂_nil_right_iff.mp havailable)
    refine Connects.pure ⟨hnone, s, available, hs, havailable, ?_⟩
    exact Transcript.refresh_of_available hsome

/-- The wire drawn holds the challenge that the transcript over values draws. -/
theorem yields_draw (h : t.Follows values native) :
    Yields t.draw values fun out values' =>
      out.1.Holds values' native.draw.1 ∧ out.2.Follows values' native.draw.2 := by
  refine (yields_refresh h).bind fun t' values' _ hlevel => Connects.pure ?_
  obtain ⟨hpending, s, available, hs, havailable, hnative⟩ := hlevel
  have hne := native.available_refresh
  rw [hnative] at hne
  cases havailable' : t'.available with
  | nil =>
      rw [havailable'] at havailable
      exact absurd (List.forall₂_nil_left_iff.mp havailable) hne
  | cons wire rest =>
      rw [havailable'] at havailable
      obtain ⟨a, others, hwire, hrest, rfl⟩ := List.forall₂_cons_left_iff.mp havailable
      rw [Transcript.draw_eq hnative]
      exact ⟨hwire, Level.follows ⟨hpending, s, others, hs, hrest, rfl⟩⟩

theorem yields_drawMany (h : t.Follows values native) (n : Nat) :
    Yields (t.drawMany n) values fun out values' =>
      List.Forall₂ (Wire.Holds values') out.1 (native.drawMany n).1 ∧
        out.2.Follows values' (native.drawMany n).2 := by
  induction n generalizing t native values with
  | zero => exact Connects.pure ⟨.nil, h⟩
  | succ n ih =>
      refine (yields_draw h).bind fun ⟨wire, t₁⟩ values₁ _ ⟨hwire, h₁⟩ => ?_
      refine (ih h₁).bind fun ⟨wires, t₂⟩ values₂ hle ⟨hwires, h₂⟩ => Connects.pure ?_
      exact ⟨.cons (hwire.mono hle) hwires, h₂⟩

theorem yields_drawCubic (h : t.Follows values native) :
    Yields t.drawCubic values fun out values' =>
      out.1.Holds values' native.drawCubic.1 ∧ out.2.Follows values' native.drawCubic.2 := by
  refine (yields_draw h).bind fun ⟨c0, t₀⟩ values₀ _ ⟨hc0, h₀⟩ => ?_
  refine (yields_draw h₀).bind fun ⟨c1, t₁⟩ values₁ hle₁ ⟨hc1, h₁⟩ => ?_
  refine (yields_draw h₁).bind fun ⟨c2, t₂⟩ values₂ hle₂ ⟨hc2, h₂⟩ => Connects.pure ?_
  exact ⟨⟨hc0.mono (hle₁.trans hle₂), hc1.mono hle₂, hc2⟩, h₂⟩

theorem yields_drawChallenge (h : t.Follows values native) :
    Yields t.drawChallenge values fun out values' =>
      List.Forall₂ (Wire.Holds values') out.1.flat native.drawChallenge.1.flat ∧
        out.2.Follows values' native.drawChallenge.2 := by
  refine (yields_draw h).bind fun ⟨beta, t₁⟩ values₁ _ ⟨hbeta, h₁⟩ => ?_
  refine (yields_draw h₁).bind fun ⟨gamma, t₂⟩ values₂ hle ⟨hgamma, h₂⟩ => Connects.pure ?_
  exact ⟨.cons (hbeta.mono hle) (.cons hgamma .nil), h₂⟩

theorem yields_drawChallenges (h : t.Follows values native) (n : Nat) :
    Yields (t.drawChallenges n) values fun out values' =>
      List.Forall₂ (Wire.Holds values') out.1.flat (native.drawChallenges n).1.flat ∧
        out.2.Follows values' (native.drawChallenges n).2 := by
  induction n generalizing t native values with
  | zero => exact Connects.pure ⟨.nil, h⟩
  | succ n ih =>
      refine (yields_drawChallenge h).bind fun ⟨c, t₁⟩ values₁ _ ⟨hc, h₁⟩ => ?_
      refine (ih h₁).bind fun ⟨cs, t₂⟩ values₂ hle ⟨hcs, h₂⟩ => Connects.pure ?_
      exact ⟨List.rel_append (forall₂_holds_mono hc hle) hcs, h₂⟩

/-- An exchange over wires observes wires that hold what an exchange over values observes. -/
inductive Matches (values : List Goldilocks) :
    Exchange Wire CubicWire → Exchange Goldilocks Cubic → Prop
  | observe {wire : Wire} {a : Goldilocks} (h : wire.Holds values a) :
      Matches values (.observe wire) (.observe a)
  | observeAll {wires : List Wire} {as : List Goldilocks}
      (h : List.Forall₂ (Wire.Holds values) wires as) :
      Matches values (.observeAll wires) (.observeAll as)
  | observeCubic {wires : CubicWire} {x : Cubic} (h : wires.Holds values x) :
      Matches values (.observeCubic wires) (.observeCubic x)
  | draw : Matches values .draw .draw
  | drawMany (n : Nat) : Matches values (.drawMany n) (.drawMany n)
  | drawCubic : Matches values .drawCubic .drawCubic
  | drawChallenge : Matches values .drawChallenge .drawChallenge
  | drawChallenges (n : Nat) : Matches values (.drawChallenges n) (.drawChallenges n)

theorem Matches.mono {e : Exchange Wire CubicWire} {e' : Exchange Goldilocks Cubic}
    (h : Matches values e e') (hle : values <+: values') : Matches values' e e' := by
  cases h with
  | observe h => exact .observe (h.mono hle)
  | observeAll h => exact .observeAll (forall₂_holds_mono h hle)
  | observeCubic h => exact .observeCubic (h.mono hle)
  | draw => exact .draw
  | drawMany n => exact .drawMany n
  | drawCubic => exact .drawCubic
  | drawChallenge => exact .drawChallenge
  | drawChallenges n => exact .drawChallenges n

theorem forall₂_parts {wires : CubicWire} {x : Cubic} (h : wires.Holds values x) :
    List.Forall₂ (Wire.Holds values) wires.parts x.coefficients :=
  .cons h.c0 (.cons h.c1 (.cons h.c2 .nil))

/-- Matching exchanges draw the same and leave transcripts of which one follows the other. -/
theorem yields_perform (h : t.Follows values native) {e : Exchange Wire CubicWire}
    {e' : Exchange Goldilocks Cubic} (he : Matches values e e') :
    Yields (t.perform e) values fun out values' =>
      List.Forall₂ (Wire.Holds values') out.1 (native.perform e').1 ∧
        out.2.Follows values' (native.perform e').2 := by
  cases he with
  | observe hwire => exact Connects.pure ⟨.nil, h.observe hwire⟩
  | observeAll hwires => exact Connects.pure ⟨.nil, h.observeAll hwires⟩
  | observeCubic hwires => exact Connects.pure ⟨.nil, h.observeAll (forall₂_parts hwires)⟩
  | draw =>
      refine (yields_draw h).bind fun ⟨c, t₁⟩ values₁ _ ⟨hc, h₁⟩ => Connects.pure ?_
      exact ⟨.cons hc .nil, h₁⟩
  | drawMany n => exact yields_drawMany h n
  | drawCubic =>
      refine (yields_drawCubic h).bind fun ⟨x, t₁⟩ values₁ _ ⟨hx, h₁⟩ => Connects.pure ?_
      exact ⟨forall₂_parts hx, h₁⟩
  | drawChallenge =>
      refine (yields_drawChallenge h).bind fun ⟨c, t₁⟩ values₁ _ ⟨hc, h₁⟩ => Connects.pure ?_
      exact ⟨hc, h₁⟩
  | drawChallenges n =>
      refine (yields_drawChallenges h n).bind fun ⟨set, t₁⟩ values₁ _ ⟨hset, h₁⟩ =>
        Connects.pure ?_
      exact ⟨hset, h₁⟩

/-- The wires that an exchange drew. -/
def Record.drawn (record : Record) : List Wire :=
  if record.isDraw then record.wires else []

theorem yields_allocate (e : Exchange Goldilocks Cubic) :
    Given.Yields (allocate e) values fun allocated values' => Matches values' allocated e := by
  cases e with
  | observe a =>
      exact (Given.yields_wire a).bind fun _ _ _ h => Given.Connects.pure (.observe h)
  | observeAll as =>
      exact (Given.yields_wires as).bind fun _ _ _ h => Given.Connects.pure (.observeAll h)
  | observeCubic x =>
      exact (Given.yields_cubic x).bind fun _ _ _ h => Given.Connects.pure (.observeCubic h)
  | draw => exact Given.Connects.pure .draw
  | drawMany n => exact Given.Connects.pure (.drawMany n)
  | drawCubic => exact Given.Connects.pure .drawCubic
  | drawChallenge => exact Given.Connects.pure .drawChallenge
  | drawChallenges n => exact Given.Connects.pure (.drawChallenges n)

/-- An exchange that does not draw draws nothing. -/
theorem drawn_of_not_isDraw {e : Exchange Goldilocks Cubic} (h : e.isDraw = false)
    (native : Transcript) : (native.perform e).1 = [] := by
  cases e with
  | observe a => rfl
  | observeAll as => rfl
  | observeCubic x => rfl
  | draw => cases h
  | drawMany n => cases h
  | drawCubic => cases h
  | drawChallenge => cases h
  | drawChallenges n => cases h

theorem yields_record (h : t.Follows values native) (e : Exchange Goldilocks Cubic) :
    Given.Yields (t.record e) values fun out values' =>
      List.Forall₂ (Wire.Holds values') out.1.drawn (native.perform e).1 ∧
        out.2.Follows values' (native.perform e).2 := by
  refine (yields_allocate e).bind fun allocated values₁ hle₁ hallocated => ?_
  refine (Given.Connects.lift (yields_perform (h.mono hle₁) hallocated)).bind
    fun ⟨drawn, t₂⟩ values₂ _ ⟨hdrawn, h₂⟩ => ?_
  refine (Given.Connects.lift yields_gateCount).bind
    fun count values₃ hle₃ _ => Given.Connects.pure ⟨?_, h₂.mono hle₃⟩
  cases hdraw : e.isDraw with
  | true =>
      simp only [Record.drawn, if_true]
      exact forall₂_holds_mono hdrawn hle₃
  | false =>
      rw [drawn_of_not_isDraw hdraw]
      exact .nil

theorem yields_recordAll (h : t.Follows values native)
    (exchanges : List (Exchange Goldilocks Cubic)) :
    Given.Yields (t.recordAll exchanges) values fun records values' =>
      List.Forall₂ (List.Forall₂ (Wire.Holds values')) (records.map Record.drawn)
        (native.performAll exchanges).1 := by
  induction exchanges generalizing t native values with
  | nil => exact Given.Connects.pure .nil
  | cons e rest ih =>
      refine (yields_record h e).bind fun ⟨record, t₁⟩ values₁ _ ⟨hdrawn, h₁⟩ => ?_
      refine (ih h₁).bind fun records values₂ hle hrecords => Given.Connects.pure ?_
      exact .cons (forall₂_holds_mono hdrawn hle) hrecords

/-- Perform exchanges over wires in order, collecting what each one draws. -/
def performAll (t : CircuitTranscript) :
    List (Exchange Wire CubicWire) → Build (List (List Wire))
  | [] => return []
  | e :: rest => do
      let (drawn, t) ← t.perform e
      let others ← t.performAll rest
      return drawn :: others

theorem yields_performAll (h : t.Follows values native) {exchanges : List (Exchange Wire CubicWire)}
    {exchanges' : List (Exchange Goldilocks Cubic)}
    (hexchanges : List.Forall₂ (Matches values) exchanges exchanges') :
    Yields (t.performAll exchanges) values fun drawn values' =>
      List.Forall₂ (List.Forall₂ (Wire.Holds values')) drawn
        (native.performAll exchanges').1 := by
  induction exchanges generalizing t native values exchanges' with
  | nil =>
      cases hexchanges
      exact Connects.pure .nil
  | cons e rest ih =>
      cases hexchanges with
      | cons he hrest =>
          refine (yields_perform h he).bind fun ⟨drawn, t₁⟩ values₁ hle₁ ⟨hdrawn, h₁⟩ => ?_
          have hrest₁ := hrest.imp fun _ _ hmatches => hmatches.mono hle₁
          refine (ih h₁ hrest₁).bind fun others values₂ hle₂ hothers => Connects.pure ?_
          exact .cons (forall₂_holds_mono hdrawn hle₂) hothers

/-- An exchange over the wires at the positions that it names. -/
def onWires {n : Nat} (wires : List Wire) :
    Exchange (Fin n) (Fin n × Fin n × Fin n) → Exchange Wire CubicWire :=
  Exchange.map (fun i => wires.getD i default) fun positions =>
    ⟨wires.getD positions.1 default, wires.getD positions.2.1 default,
      wires.getD positions.2.2 default⟩

/-- An exchange over the values at the positions that it names. -/
def onValues (inputs : List Goldilocks) :
    Exchange (Fin inputs.length) (Fin inputs.length × Fin inputs.length × Fin inputs.length) →
      Exchange Goldilocks Cubic :=
  Exchange.map inputs.get fun positions =>
    ⟨inputs.get positions.1, inputs.get positions.2.1, inputs.get positions.2.2⟩

theorem matches_onWires {wires : List Wire} {inputs : List Goldilocks}
    (hwires : List.Forall₂ (Wire.Holds values) wires inputs)
    (e : Exchange (Fin inputs.length) (Fin inputs.length × Fin inputs.length × Fin inputs.length)) :
    Matches values (onWires wires e) (onValues inputs e) := by
  have hwire : ∀ i : Fin inputs.length, (wires.getD i default).Holds values (inputs.get i) := by
    intro i
    have hlt : i.val < wires.length := i.isLt.trans_eq hwires.length_eq.symm
    rw [List.getD_eq_getElem _ _ hlt]
    exact hwires.get hlt i.isLt
  cases e with
  | observe i => exact .observe (hwire i)
  | observeAll is =>
      refine .observeAll ?_
      rw [List.forall₂_map_left_iff, List.forall₂_map_right_iff, List.forall₂_same]
      exact fun i _ => hwire i
  | observeCubic positions => exact .observeCubic ⟨hwire _, hwire _, hwire _⟩
  | draw => exact .draw
  | drawMany n => exact .drawMany n
  | drawCubic => exact .drawCubic
  | drawChallenge => exact .drawChallenge
  | drawChallenges n => exact .drawChallenges n

theorem forall₂_onWires {wires : List Wire} {inputs : List Goldilocks}
    (hwires : List.Forall₂ (Wire.Holds values) wires inputs)
    (exchanges : List (Exchange (Fin inputs.length)
      (Fin inputs.length × Fin inputs.length × Fin inputs.length))) :
    List.Forall₂ (Matches values) (exchanges.map (onWires wires))
      (exchanges.map (onValues inputs)) := by
  rw [List.forall₂_map_left_iff, List.forall₂_map_right_iff, List.forall₂_same]
  exact fun e _ => matches_onWires hwires e

theorem map_get?_eq {w : Witness} (hw : ∀ wire a, Wire.Holds values wire a → w.get? wire = some a)
    {wires : List (List Wire)} {drawn : List (List Goldilocks)}
    (h : List.Forall₂ (List.Forall₂ (Wire.Holds values)) wires drawn) :
    wires.map (List.map w.get?) = drawn.map (List.map some) := by
  refine map_eq_map_of_forall₂ ?_ h
  intro wires as hwires
  exact map_eq_map_of_forall₂ hw hwires

/-- The circuit of any exchanges is solved, and every wire drawn holds the challenge that the
transcript over values draws there; the wires observed are inputs of their own for each exchange
or inputs shared between exchanges. -/
theorem solve_draws :
    (∀ exchanges : List (Exchange Goldilocks Cubic), ∃ solved,
      (Given.pose do (← CircuitTranscript.fresh).recordAll exchanges).solve = .ok solved ∧
        (solved.result.map Record.drawn).map (List.map solved.witness.get?) =
          (Transcript.fresh.performAll exchanges).1.map (List.map some)) ∧
    ∀ (inputs : List Goldilocks) (exchanges : List (Exchange (Fin inputs.length)
        (Fin inputs.length × Fin inputs.length × Fin inputs.length))), ∃ solved,
      (Given.pose do
        let t ← CircuitTranscript.fresh
        let wires ← Given.wires inputs
        t.performAll (exchanges.map (onWires wires))).solve = .ok solved ∧
        solved.result.map (List.map solved.witness.get?) =
          (Transcript.fresh.performAll (exchanges.map (onValues inputs))).1.map
            (List.map some) := by
  constructor
  · intro exchanges
    have hyields := (Given.Connects.lift (@yields_fresh [])).bind
      fun t values₁ _ ht => yields_recordAll ht exchanges
    obtain ⟨solved, values, hsolve, hdrawn, hget⟩ := hyields.exists_solve
    exact ⟨solved, hsolve, map_get?_eq hget hdrawn⟩
  · intro inputs exchanges
    have hyields := (Given.Connects.lift (@yields_fresh [])).bind fun t values₁ _ ht =>
      (Given.yields_wires inputs).bind fun wires values₂ hle hwires =>
        Given.Connects.lift (yields_performAll (ht.mono hle) (forall₂_onWires hwires exchanges))
    obtain ⟨solved, values, hsolve, hdrawn, hget⟩ := hyields.exists_solve
    exact ⟨solved, hsolve, map_get?_eq hget hdrawn⟩

end CircuitTranscript

end CrossLookup
