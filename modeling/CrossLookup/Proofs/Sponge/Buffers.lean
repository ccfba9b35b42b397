import CrossLookup.Proofs.Sponge.Transcript
import CrossLookup.Proofs.Traversal
import CrossLookup.Sponge.Exchange
import Mathlib.Algebra.Ring.Nat
import Mathlib.Logic.Function.Iterate

/-!
# The buffers of a transcript

In every state that a fresh transcript reaches, less than a rate of elements
waits, at most a rate of challenges is available, and none is while an element
waits. So an absorption always fits the rate and a draw always finds a
challenge. Between observations the challenges are the rate cells of one
permutation after another, the last cell first.
-/

namespace CrossLookup

/-- The number of challenges that an exchange draws. -/
def Exchange.drawCount {B X : Type} : Exchange B X → ℕ
  | .observe _ => 0
  | .observeAll _ => 0
  | .observeCubic _ => 0
  | .draw => 1
  | .drawMany n => n
  | .drawCubic => 3
  | .drawChallenge => 2
  | .drawChallenges n => 2 * n

namespace SpongeState

theorem outputCell_lt (k : ℕ) : rate - 1 - k % rate < 16 := by
  unfold rate
  omega

/-- Challenge `k` of a state: its rate cells from the last one down, then those of the state
permuted once more. -/
def squeezed (s : SpongeState) (k : ℕ) : Goldilocks :=
  (permute^[k / rate] s).get ⟨rate - 1 - k % rate, outputCell_lt k⟩

theorem squeezed_of_lt (s : SpongeState) {k : ℕ} (h : k < rate) :
    s.squeezed k = s.get ⟨rate - 1 - k, Nat.mod_eq_of_lt h ▸ outputCell_lt k⟩ := by
  simp only [squeezed, Nat.div_eq_of_lt h, Nat.mod_eq_of_lt h, Function.iterate_zero_apply]

/-- The challenges after a rate are those of the permuted state. -/
theorem squeezed_rate_add (s : SpongeState) (k : ℕ) :
    s.squeezed (rate + k) = s.permute.squeezed k := by
  simp only [squeezed, Nat.add_div_left k (by decide : 0 < rate), Nat.add_mod_left,
    Function.iterate_succ_apply]

theorem map_squeezed_rate_add (s : SpongeState) (k n : ℕ) :
    (List.range' (rate + k) n).map s.squeezed = (List.range' k n).map s.permute.squeezed := by
  rw [← List.map_add_range', List.map_map]
  apply List.map_congr_left
  intro i _
  exact squeezed_rate_add s i

theorem length_output (s : SpongeState) : s.output.length = rate := by
  simp [output, rate]

theorem output_drop_of_lt (s : SpongeState) {k : ℕ} (h : k < rate) :
    s.output.drop k = s.squeezed k :: s.output.drop (k + 1) := by
  have hlength : k < s.output.length := by rwa [length_output]
  rw [List.drop_eq_getElem_cons hlength, squeezed_of_lt s h]
  congr 1
  simp only [output, List.getElem_reverse, List.getElem_take, Vector.getElem_toList,
    List.length_take, Vector.length_toList]
  rfl

theorem output_drop_rate (s : SpongeState) : s.output.drop rate = [] := by
  rw [← length_output s, List.drop_length]

theorem overwrite_nil (s : SpongeState) : s.overwrite [] = s := by
  apply Vector.ext
  intro i hi
  exact Vector.getElem_mapIdx hi

end SpongeState

namespace Transcript

variable {t : Transcript}

section Exchanges

theorem drawMany_succ (t : Transcript) (n : ℕ) : t.drawMany (n + 1) =
    (t.draw.1 :: (t.draw.2.drawMany n).1, (t.draw.2.drawMany n).2) :=
  rfl

theorem drawMany_add (t : Transcript) (m n : ℕ) : t.drawMany (m + n) =
    ((t.drawMany m).1 ++ ((t.drawMany m).2.drawMany n).1, ((t.drawMany m).2.drawMany n).2) := by
  induction m generalizing t with
  | zero => simp [drawMany]
  | succ m ih =>
      rw [Nat.succ_add, drawMany_succ, ih, drawMany_succ]
      rfl

theorem drawChallenges_flat (t : Transcript) (n : ℕ) :
    ((t.drawChallenges n).1.flat, (t.drawChallenges n).2) = t.drawMany (2 * n) := by
  induction n generalizing t with
  | zero => rfl
  | succ n ih =>
      rw [Nat.mul_succ, Nat.add_comm (2 * n), drawMany_add, ← ih]
      rfl

/-- An exchange observes what it observes, then draws as often as it draws. -/
theorem perform_eq (t : Transcript) (e : Exchange Goldilocks Cubic) :
    t.perform e = (t.observeAll (e.observed Cubic.coefficients)).drawMany e.drawCount := by
  cases e with
  | observe a => rfl
  | observeAll as => rfl
  | observeCubic x => rfl
  | draw => rfl
  | drawMany n => rfl
  | drawCubic => rfl
  | drawChallenge => rfl
  | drawChallenges n => exact drawChallenges_flat t n

/-- An exchange that observes draws nothing. -/
theorem perform_of_observed {e : Exchange Goldilocks Cubic}
    (h : e.observed Cubic.coefficients ≠ []) :
    (t.perform e).2 = t.observeAll (e.observed Cubic.coefficients) := by
  have hcount : e.drawCount = 0 := by
    cases e with
    | observe a => rfl
    | observeAll as => rfl
    | observeCubic x => rfl
    | draw => exact absurd rfl h
    | drawMany n => exact absurd rfl h
    | drawCubic => exact absurd rfl h
    | drawChallenge => exact absurd rfl h
    | drawChallenges n => exact absurd rfl h
  rw [perform_eq, hcount]
  rfl

theorem performAll_cons (t : Transcript) (e : Exchange Goldilocks Cubic)
    (rest : List (Exchange Goldilocks Cubic)) : t.performAll (e :: rest) =
      ((t.perform e).1 :: ((t.perform e).2.performAll rest).1,
        ((t.perform e).2.performAll rest).2) :=
  rfl

/-- Exchanges that observe nothing draw one challenge after the other. -/
theorem flatten_performAll_draws {draws : List (Exchange Goldilocks Cubic)}
    (h : ∀ d ∈ draws, d.observed Cubic.coefficients = []) (t : Transcript) :
    (t.performAll draws).1.flatten = (t.drawMany (draws.map Exchange.drawCount).sum).1 := by
  induction draws generalizing t with
  | nil => rfl
  | cons d rest ih =>
      obtain ⟨hd, hrest⟩ := List.forall_mem_cons.mp h
      have hperform : t.perform d = t.drawMany d.drawCount := by
        rw [perform_eq, hd]
        rfl
      rw [performAll_cons, List.flatten_cons, ih hrest, hperform, List.map_cons, List.sum_cons,
        drawMany_add]

end Exchanges

section Invariant

/-- What waits is less than a rate, what is available is at most a rate, and nothing is available
while something waits. -/
structure Buffered (t : Transcript) : Prop where
  pending_lt : t.pending.length < SpongeState.rate
  available_le : t.available.length ≤ SpongeState.rate
  available_eq_nil : t.pending ≠ [] → t.available = []

theorem buffered_fresh : fresh.Buffered :=
  ⟨by decide, by decide, fun _ => rfl⟩

/-- An absorption leaves nothing waiting and a full rate of challenges. -/
theorem buffered_duplex (t : Transcript) : t.duplex.Buffered where
  pending_lt := Nat.zero_lt_of_ne_zero (by decide)
  available_le := Nat.le_of_eq (SpongeState.length_output _)
  available_eq_nil := fun h => absurd rfl h

theorem Buffered.observe (h : t.Buffered) (a : Goldilocks) : (t.observe a).Buffered := by
  rcases Nat.lt_or_eq_of_le h.pending_lt with hlt | heq
  · rw [observe_of_lt hlt]
    refine ⟨?_, Nat.zero_le _, fun _ => rfl⟩
    rwa [List.length_append, List.length_singleton]
  · rw [observe_of_eq heq]
    exact buffered_duplex _

theorem Buffered.refresh (h : t.Buffered) : t.refresh.Buffered := by
  unfold Transcript.refresh
  split
  · exact buffered_duplex t
  · exact h

theorem pending_refresh (t : Transcript) : t.refresh.pending = [] := by
  unfold Transcript.refresh
  split
  · rfl
  · next h => exact not_not.mp (not_or.mp h).1

theorem Buffered.draw (h : t.Buffered) : t.draw.2.Buffered := by
  have hrefresh := h.refresh
  refine ⟨hrefresh.pending_lt, ?_, fun hne => absurd (pending_refresh t) hne⟩
  exact Nat.le_trans (List.length_tail ▸ Nat.sub_le _ 1) hrefresh.available_le

theorem Buffered.observeAll (h : t.Buffered) (as : List Goldilocks) :
    (t.observeAll as).Buffered := by
  unfold Transcript.observeAll
  induction as generalizing t with
  | nil => exact h
  | cons a rest ih => exact ih (h.observe a)

theorem Buffered.drawMany (h : t.Buffered) (n : ℕ) : (t.drawMany n).2.Buffered := by
  induction n generalizing t with
  | zero => exact h
  | succ n ih => exact ih h.draw

theorem Buffered.perform (h : t.Buffered) (e : Exchange Goldilocks Cubic) :
    (t.perform e).2.Buffered := by
  rw [perform_eq]
  exact (h.observeAll _).drawMany _

/-- Every run keeps the buffers within their bounds. -/
theorem Buffered.performAll (h : t.Buffered) (exchanges : List (Exchange Goldilocks Cubic)) :
    (t.performAll exchanges).2.Buffered := by
  induction exchanges generalizing t with
  | nil => exact h
  | cons e rest ih => exact ih (h.perform e)

end Invariant

section Checks

/-- What can be wrong with the buffers at an absorption or a draw. -/
inductive BufferFault
  /-- More waits than the rate cells take. -/
  | inputExceedsRate
  /-- A challenge is drawn and none is available. -/
  | outputExhausted
deriving DecidableEq

/-- Absorb what waits, checking that it fits the rate. -/
def duplexChecked (t : Transcript) : Except BufferFault Transcript :=
  if t.pending.length ≤ SpongeState.rate then .ok t.duplex else .error .inputExceedsRate

/-- Observe an element, with the check of an absorption. -/
def observeChecked (t : Transcript) (a : Goldilocks) : Except BufferFault Transcript :=
  let t := { t with pending := t.pending ++ [a], available := [] }
  if t.pending.length = SpongeState.rate then t.duplexChecked else .ok t

/-- Permute unless fresh output is available, with the check of an absorption. -/
def refreshChecked (t : Transcript) : Except BufferFault Transcript :=
  if t.pending ≠ [] ∨ t.available = [] then t.duplexChecked else .ok t

/-- Draw a challenge, checking that one is available. -/
def drawChecked (t : Transcript) : Except BufferFault (Goldilocks × Transcript) := do
  let r ← t.refreshChecked
  match r.available with
  | [] => .error .outputExhausted
  | c :: rest => .ok (c, { r with available := rest })

/-- Draw challenges in order, checking each draw. -/
def drawManyChecked (t : Transcript) : ℕ → Except BufferFault (List Goldilocks × Transcript)
  | 0 => .ok ([], t)
  | n + 1 => do
      let (c, t) ← t.drawChecked
      let (cs, t) ← t.drawManyChecked n
      return (c :: cs, t)

/-- Perform an exchange, checking each observation and each draw. -/
def performChecked (t : Transcript) (e : Exchange Goldilocks Cubic) :
    Except BufferFault (List Goldilocks × Transcript) := do
  let t ← (e.observed Cubic.coefficients).foldlM observeChecked t
  t.drawManyChecked e.drawCount

/-- Perform exchanges in order, checking each one. -/
def performAllChecked (t : Transcript) : List (Exchange Goldilocks Cubic) →
    Except BufferFault (List (List Goldilocks) × Transcript)
  | [] => .ok ([], t)
  | e :: rest => do
      let (drawn, t) ← t.performChecked e
      let (others, t) ← t.performAllChecked rest
      return (drawn :: others, t)

theorem duplexChecked_of_le (h : t.pending.length ≤ SpongeState.rate) :
    t.duplexChecked = .ok t.duplex :=
  if_pos h

/-- An element that fills the rate is absorbed before another can wait. -/
theorem observeChecked_eq (t : Transcript) (a : Goldilocks) :
    t.observeChecked a = .ok (t.observe a) := by
  simp only [observeChecked, Transcript.observe]
  split
  · next heq => exact duplexChecked_of_le (Nat.le_of_eq heq)
  · rfl

theorem refreshChecked_eq (h : t.Buffered) : t.refreshChecked = .ok t.refresh := by
  unfold refreshChecked Transcript.refresh
  split
  · exact duplexChecked_of_le (Nat.le_of_lt h.pending_lt)
  · rfl

theorem drawChecked_eq (h : t.Buffered) : t.drawChecked = .ok t.draw := by
  unfold drawChecked
  rw [refreshChecked_eq h]
  cases havailable : t.refresh.available with
  | nil => exact absurd havailable t.available_refresh
  | cons c rest =>
      have hrefresh : t.refresh = ⟨t.refresh.state, [], c :: rest⟩ := by
        rw [← havailable, ← pending_refresh t]
      rw [draw_eq hrefresh, hrefresh]
      rfl

theorem observeAllChecked_eq (t : Transcript) (as : List Goldilocks) :
    as.foldlM observeChecked t = .ok (t.observeAll as) := by
  unfold Transcript.observeAll
  induction as generalizing t with
  | nil => rfl
  | cons a rest ih =>
      rw [List.foldlM_cons, observeChecked_eq, List.foldl_cons]
      exact ih _

theorem drawManyChecked_eq (h : t.Buffered) (n : ℕ) : t.drawManyChecked n = .ok (t.drawMany n) := by
  induction n generalizing t with
  | zero => rfl
  | succ n ih =>
      rw [drawManyChecked, drawChecked_eq h, drawMany_succ]
      change (t.draw.2.drawManyChecked n >>= _) = _
      rw [ih h.draw]
      rfl

theorem performChecked_eq (h : t.Buffered) (e : Exchange Goldilocks Cubic) :
    t.performChecked e = .ok (t.perform e) := by
  rw [performChecked, observeAllChecked_eq, perform_eq]
  exact drawManyChecked_eq (h.observeAll _) _

/-- No check fails in any run: what waits fits the rate and a challenge is there to be drawn. -/
theorem performAllChecked_eq (h : t.Buffered) (exchanges : List (Exchange Goldilocks Cubic)) :
    t.performAllChecked exchanges = .ok (t.performAll exchanges) := by
  induction exchanges generalizing t with
  | nil => rfl
  | cons e rest ih =>
      rw [performAllChecked, performChecked_eq h, performAll_cons]
      change ((t.perform e).2.performAllChecked rest >>= _) = _
      rw [ih (h.perform e)]
      rfl

end Checks

section Squeezing

open SpongeState

theorem draw_of_refresh {s : SpongeState} (h : t.refresh = ⟨s, [], s.output⟩) :
    t.draw = (s.squeezed 0, ⟨s, [], s.output.drop 1⟩) := by
  apply draw_eq
  rw [h, ← output_drop_of_lt s (by decide), List.drop_zero]

theorem refresh_exhausted (s : SpongeState) :
    (⟨s, [], s.output.drop rate⟩ : Transcript).refresh = ⟨s.permute, [], s.permute.output⟩ := by
  rw [output_drop_rate, refresh, if_pos (Or.inr rfl), duplex_eq, overwrite_nil]

/-- What is available of a state is drawn, and then the state is permuted. -/
theorem drawMany_output (s : SpongeState) {k : ℕ} (hk : k ≤ rate) (n : ℕ) :
    ((⟨s, [], s.output.drop k⟩ : Transcript).drawMany n).1 = (List.range' k n).map s.squeezed := by
  induction n generalizing s k with
  | zero => rfl
  | succ n ih =>
      rw [drawMany_succ, List.range'_succ, List.map_cons]
      rcases Nat.lt_or_eq_of_le hk with hlt | rfl
      · have hdraw : (⟨s, [], s.output.drop k⟩ : Transcript).draw =
            (s.squeezed k, ⟨s, [], s.output.drop (k + 1)⟩) := by
          rw [output_drop_of_lt s hlt]
          exact draw_eq (refresh_of_available (List.cons_ne_nil _ _))
        rw [hdraw, ih s hlt]
      · rw [draw_of_refresh (refresh_exhausted s), ih s.permute (by decide), map_squeezed_rate_add]
        exact congrArg (· :: _) (squeezed_rate_add s 0).symm

/-- After observations the next draw takes the first challenge of a state that has absorbed them
all. -/
theorem exists_refresh_observeAll (h : t.Buffered) {as : List Goldilocks} (hne : as ≠ []) :
    ∃ s : SpongeState, (t.observeAll as).refresh = ⟨s, [], s.output⟩ := by
  obtain ⟨state, pending, available⟩ := t
  by_cases hpending : pending = []
  · subst hpending
    exact ⟨_, refresh_observeAll state as available (Or.inl hne)⟩
  · -- What waits was observed since the last absorption, so it joins the new observations.
    have hnone : available = [] := h.available_eq_nil hpending
    have hwaits : (⟨state, pending, available⟩ : Transcript) =
        (⟨state, [], []⟩ : Transcript).observeAll pending := by
      have hlt : ([] : List Goldilocks).length + pending.length < rate := by
        rw [List.length_nil, Nat.zero_add]
        exact h.pending_lt
      rw [observeAll_of_le hpending (Nat.le_of_lt hlt), if_neg (Nat.ne_of_lt hlt),
        List.nil_append, hnone]
    have hrefresh := refresh_observeAll state (pending ++ as) [] (Or.inr rfl)
    rw [observeAll, List.foldl_append] at hrefresh
    rw [hwaits]
    exact ⟨_, hrefresh⟩

/-- The draws after observations take one challenge after another of the state that the first of
them leaves. -/
theorem drawMany_observeAll (h : t.Buffered) {as : List Goldilocks} (hne : as ≠ []) (n : ℕ) :
    ((t.observeAll as).drawMany n).1 =
      (List.range n).map (t.observeAll as).draw.2.state.squeezed := by
  obtain ⟨s, hrefresh⟩ := exists_refresh_observeAll h hne
  rw [draw_of_refresh hrefresh, List.range_eq_range']
  cases n with
  | zero => rfl
  | succ n =>
      rw [drawMany_succ, draw_of_refresh hrefresh, drawMany_output s (by decide),
        List.range'_succ, List.map_cons]

/-- In every state that a run reaches the buffers are within their bounds, and no check of a run
fails. The exchanges after an observation that observe nothing draw one challenge after another of
the state that the first draw leaves. -/
theorem buffers_and_draws_exact :
    (∀ exchanges : List (Exchange Goldilocks Cubic), (fresh.performAll exchanges).2.Buffered ∧
      fresh.performAllChecked exchanges = .ok (fresh.performAll exchanges)) ∧
    ∀ (before draws : List (Exchange Goldilocks Cubic)) (e : Exchange Goldilocks Cubic),
      e.observed Cubic.coefficients ≠ [] →
      (∀ d ∈ draws, d.observed Cubic.coefficients = []) →
        let t := ((fresh.performAll before).2.perform e).2
        (t.performAll draws).1.flatten =
          (List.range (draws.map Exchange.drawCount).sum).map t.draw.2.state.squeezed := by
  constructor
  · intro exchanges
    exact ⟨buffered_fresh.performAll exchanges, performAllChecked_eq buffered_fresh exchanges⟩
  · intro before draws e he hdraws t
    have hobserved : t = (fresh.performAll before).2.observeAll (e.observed Cubic.coefficients) :=
      perform_of_observed he
    rw [flatten_performAll_draws hdraws, hobserved]
    exact drawMany_observeAll (buffered_fresh.performAll before) he _

/-- Draws of several kinds exhaust the output of one permutation and reach into the next. -/
theorem buffers_and_draws_exact_exhausting :
    Exchange.observed Cubic.coefficients (.observeAll [(1 : Goldilocks), 0]) ≠ [] ∧
    (∀ d ∈ [.drawMany 9, .observeAll [], .drawCubic],
      Exchange.observed Cubic.coefficients d = []) ∧
    let t := ((fresh.performAll [.observe 1, .draw]).2.perform (.observeAll [1, 0])).2
    (t.performAll [.drawMany 9, .observeAll [], .drawCubic]).1.flatten =
      (List.range 12).map t.draw.2.state.squeezed := by
  have hobserved : Exchange.observed Cubic.coefficients (.observeAll [(1 : Goldilocks), 0]) ≠ [] :=
    List.cons_ne_nil _ _
  have hdraws : ∀ d ∈ [.drawMany 9, .observeAll [], .drawCubic],
      Exchange.observed Cubic.coefficients d = [] := by
    simp [Exchange.observed]
  exact ⟨hobserved, hdraws, buffers_and_draws_exact.2 [.observe 1, .draw] _ _ hobserved hdraws⟩

end Squeezing

end Transcript

end CrossLookup
