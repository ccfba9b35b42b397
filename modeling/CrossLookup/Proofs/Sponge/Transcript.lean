import CrossLookup.Sponge.Transcript
import Mathlib.Data.List.Basic

/-!
# When observations are absorbed

The transcript absorbs a full rate at once and fewer elements before the next
draw. Seen from the draws this is the same as absorbing everything observed one
rate at a time when a challenge is asked for.
-/

namespace CrossLookup

/-- Absorb values one rate at a time, with one permutation for each and at least one. -/
def SpongeState.absorbAll (s : SpongeState) (as : List Goldilocks) : SpongeState :=
  if as.length ≤ rate then
    (s.overwrite as).permute
  else
    absorbAll (s.overwrite (as.take rate)).permute (as.drop rate)
termination_by as.length
decreasing_by
  simp only [List.length_drop, SpongeState.rate] at *
  omega

theorem SpongeState.absorbAll_of_le {s : SpongeState} {as : List Goldilocks}
    (h : as.length ≤ rate) : s.absorbAll as = (s.overwrite as).permute := by
  rw [absorbAll, if_pos h]

theorem SpongeState.absorbAll_of_lt {s : SpongeState} {as : List Goldilocks}
    (h : rate < as.length) :
    s.absorbAll as = absorbAll (s.overwrite (as.take rate)).permute (as.drop rate) := by
  rw [absorbAll, if_neg (Nat.not_le_of_gt h)]

namespace Transcript

variable {s : SpongeState} {pending available as : List Goldilocks} {a : Goldilocks}

/-- An observation discards what was not drawn. -/
theorem observeAll_append_singleton (t : Transcript) (as : List Goldilocks) (a : Goldilocks) :
    t.observeAll (as ++ [a]) = (t.observeAll as).observe a := by
  rw [observeAll, List.foldl_append]
  rfl

theorem observeAll_discard (h : as ≠ []) :
    (⟨s, pending, available⟩ : Transcript).observeAll as =
      (⟨s, pending, []⟩ : Transcript).observeAll as := by
  cases as with
  | nil => exact absurd rfl h
  | cons a rest => rfl

theorem observe_of_lt (h : pending.length + 1 < SpongeState.rate) :
    (⟨s, pending, available⟩ : Transcript).observe a = ⟨s, pending ++ [a], []⟩ := by
  unfold observe
  rw [if_neg]
  simp only [List.length_append, List.length_singleton]
  omega

theorem observe_of_eq (h : pending.length + 1 = SpongeState.rate) :
    (⟨s, pending, available⟩ : Transcript).observe a =
      (⟨s, pending ++ [a], []⟩ : Transcript).duplex := by
  unfold observe
  rw [if_pos]
  simp only [List.length_append, List.length_singleton]
  exact h

/-- Elements that do not exceed the rate are absorbed if they fill it and wait otherwise. -/
theorem observeAll_of_le (hne : as ≠ [])
    (hle : pending.length + as.length ≤ SpongeState.rate) :
    (⟨s, pending, available⟩ : Transcript).observeAll as =
      if pending.length + as.length = SpongeState.rate then
        (⟨s, pending ++ as, []⟩ : Transcript).duplex
      else
        ⟨s, pending ++ as, []⟩ := by
  induction as generalizing pending available with
  | nil => exact absurd rfl hne
  | cons a rest ih =>
      rw [List.length_cons] at hle
      rw [observeAll, List.foldl_cons, List.length_cons]
      cases rest with
      | nil =>
          rw [List.foldl_nil, List.length_nil, Nat.zero_add]
          split
          · next h => exact observe_of_eq h
          · next h => exact observe_of_lt (Nat.lt_of_le_of_ne hle h)
      | cons b rest =>
          rw [List.length_cons] at hle
          rw [observe_of_lt (by omega)]
          have hrest := @ih (pending ++ [a]) [] (List.cons_ne_nil _ _)
            (by simp only [List.length_append, List.length_cons, List.length_nil]; omega)
          have hcount : (pending ++ [a]).length + (b :: rest).length =
              pending.length + ((b :: rest).length + 1) := by
            rw [List.length_append, List.length_singleton]
            omega
          rw [hcount, List.append_assoc] at hrest
          exact hrest

theorem refresh_of_available (h : available ≠ []) :
    (⟨s, [], available⟩ : Transcript).refresh = ⟨s, [], available⟩ := by
  unfold refresh
  rw [if_neg]
  rintro (hpending | havailable)
  · exact hpending rfl
  · exact h havailable

theorem duplex_eq (s : SpongeState) (pending available : List Goldilocks) :
    (⟨s, pending, available⟩ : Transcript).duplex =
      ⟨(s.overwrite pending).permute, [], (s.overwrite pending).permute.output⟩ :=
  rfl

/-- Of more elements than fit the rate, the first are absorbed when the rate is full. -/
theorem observeAll_of_lt (h : SpongeState.rate < as.length) :
    (⟨s, [], available⟩ : Transcript).observeAll as =
      (⟨(s.overwrite (as.take SpongeState.rate)).permute, [],
        (s.overwrite (as.take SpongeState.rate)).permute.output⟩ : Transcript).observeAll
          (as.drop SpongeState.rate) := by
  have hlength : (as.take SpongeState.rate).length = SpongeState.rate :=
    List.length_take_of_le (Nat.le_of_lt h)
  have hne : as.take SpongeState.rate ≠ [] := by
    intro hnil
    rw [hnil] at hlength
    cases hlength
  have heq : ([] : List Goldilocks).length + (as.take SpongeState.rate).length =
      SpongeState.rate := by
    rw [hlength, List.length_nil, Nat.zero_add]
  have hfirst : (⟨s, [], available⟩ : Transcript).observeAll (as.take SpongeState.rate) =
      (⟨s, as.take SpongeState.rate, []⟩ : Transcript).duplex := by
    rw [observeAll_of_le hne (Nat.le_of_eq heq), if_pos heq, List.nil_append]
  rw [← duplex_eq s (as.take SpongeState.rate) [], ← hfirst, observeAll, observeAll, observeAll,
    ← List.foldl_append, List.take_append_drop]

/-- Refreshing squeezes the state that has absorbed all observations, rate by rate. -/
theorem refresh_observeAll (s : SpongeState) (as available : List Goldilocks)
    (h : as ≠ [] ∨ available = []) :
    ((⟨s, [], available⟩ : Transcript).observeAll as).refresh =
      ⟨s.absorbAll as, [], (s.absorbAll as).output⟩ := by
  induction s, as using SpongeState.absorbAll.induct generalizing available with
  | case1 s as hle =>
      rw [SpongeState.absorbAll_of_le hle]
      by_cases hnil : as = []
      · subst hnil
        have havailable : available = [] := h.resolve_left fun hne => hne rfl
        rw [havailable]
        rfl
      · rw [observeAll_of_le hnil (by rwa [List.length_nil, Nat.zero_add])]
        split
        · rw [duplex_eq, List.nil_append, refresh_of_available (SpongeState.output_ne_nil _)]
        · exact if_pos (Or.inl hnil)
  | case2 s as hlt ih =>
      have hlt' := Nat.lt_of_not_le hlt
      have hrest : as.drop SpongeState.rate ≠ [] := by
        intro hnil
        rw [List.drop_eq_nil_iff] at hnil
        exact hlt hnil
      rw [observeAll_of_lt hlt', ih _ (Or.inl hrest), SpongeState.absorbAll_of_lt hlt']

/-- A draw takes the first of what is available after refreshing. -/
theorem draw_eq {t : Transcript} {rest : List Goldilocks}
    (h : t.refresh = ⟨s, [], a :: rest⟩) : t.draw = (a, ⟨s, [], rest⟩) := by
  have hdraw : ∀ (r : Transcript) (hne : r.available ≠ []), r = ⟨s, [], a :: rest⟩ →
      (r.available.head hne, { r with available := r.available.tail }) =
        (a, (⟨s, [], rest⟩ : Transcript)) := by
    rintro r hne rfl
    rfl
  exact hdraw t.refresh t.available_refresh h

end Transcript

end CrossLookup
