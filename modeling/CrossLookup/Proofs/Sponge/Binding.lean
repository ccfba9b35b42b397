import CrossLookup.Proofs.Field.TrailingZeros
import CrossLookup.Proofs.Sponge.Permutation
import CrossLookup.Proofs.Sponge.Transcript

/-!
# What a transcript binds

Observations are written over the leading cells of a state of zeros, and the
permutation keeps different states apart. Their number is not written: up to a
rate of observations is told apart from any other except for zeros at its end.
-/

namespace CrossLookup

namespace SpongeState

theorem getElem_overwrite (s : SpongeState) (values : List Goldilocks) (i : Nat) (hi : i < 16) :
    (s.overwrite values)[i] = values.getD i s[i] :=
  Vector.getElem_mapIdx hi

/-- Written over zeros, values that fit the rate leave the same state up to trailing zeros. -/
theorem overwrite_zeros_eq_iff {as bs : List Goldilocks} (ha : as.length ≤ rate)
    (hb : bs.length ≤ rate) :
    overwrite (Vector.replicate 16 0) as = overwrite (Vector.replicate 16 0) bs ↔
      trimmed as = trimmed bs := by
  rw [trimmed_eq_iff_getD]
  constructor
  · intro h i
    rcases Nat.lt_or_ge i rate with hi | hi
    · have hwidth : i < 16 := hi.trans (by decide)
      have hcell := congrArg (fun s : SpongeState => s[i]) h
      simpa only [getElem_overwrite, Vector.getElem_replicate] using hcell
    · rw [List.getD_eq_default _ _ (ha.trans hi), List.getD_eq_default _ _ (hb.trans hi)]
  · intro h
    apply Vector.ext
    intro i hi
    simp only [getElem_overwrite, Vector.getElem_replicate, h i]

end SpongeState

namespace Transcript

/-- A draw after no more than a rate of observations has permuted the state once. -/
theorem state_draw_observeAll {as : List Goldilocks} (h : as.length ≤ SpongeState.rate) :
    (fresh.observeAll as).draw.2.state = (fresh.state.overwrite as).permute := by
  have hrefresh := refresh_observeAll fresh.state as [] (Or.inr rfl)
  rw [SpongeState.absorbAll_of_le h] at hrefresh
  exact congrArg Transcript.state hrefresh

/-- Up to a rate of observations leave different states, unless they are the same but for zeros
that follow one of them. -/
theorem state_draw_eq_iff_append {as bs : List Goldilocks} (ha : as.length ≤ SpongeState.rate)
    (hb : bs.length ≤ SpongeState.rate) :
    (fresh.observeAll as).draw.2.state = (fresh.observeAll bs).draw.2.state ↔
      ∃ n, as = bs ++ List.replicate n 0 ∨ bs = as ++ List.replicate n 0 := by
  rw [state_draw_observeAll ha, state_draw_observeAll hb,
    SpongeState.permute_injective.eq_iff, ← trimmed_eq_iff_append]
  exact SpongeState.overwrite_zeros_eq_iff ha hb

/-- A nonzero observation is bound, whether or not zeros precede it. -/
theorem state_draw_ne_sample :
    [(0 : Goldilocks), 1].length ≤ SpongeState.rate ∧ [(0 : Goldilocks)].length ≤ SpongeState.rate ∧
    (fresh.observeAll [0, 1]).draw.2.state ≠ (fresh.observeAll [0]).draw.2.state := by
  have hlong : [(0 : Goldilocks), 1].length ≤ SpongeState.rate := by decide
  have hshort : [(0 : Goldilocks)].length ≤ SpongeState.rate := by decide
  refine ⟨hlong, hshort, ?_⟩
  rw [Ne, state_draw_eq_iff_append hlong hshort, ← trimmed_eq_iff_append]
  decide

/-- Nothing and a single zero are different observations that leave one state. -/
theorem state_draw_nil_eq_zero :
    ([] : List Goldilocks) ≠ [0] ∧
    ([] : List Goldilocks).length ≤ SpongeState.rate ∧
    [(0 : Goldilocks)].length ≤ SpongeState.rate ∧
    (fresh.observeAll []).draw.2.state = (fresh.observeAll [0]).draw.2.state := by
  refine ⟨by decide, by decide, by decide, ?_⟩
  rw [state_draw_observeAll (by decide), state_draw_observeAll (by decide)]
  exact congrArg SpongeState.permute (by decide)

end Transcript

end CrossLookup
