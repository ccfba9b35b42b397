import CrossLookup.Proofs.Sponge.Substitution
import Mathlib.LinearAlgebra.Matrix.Circulant
import Mathlib.LinearAlgebra.Matrix.NonsingularInverse

/-!
# The sponge permutation as a bijection

The mixing matrix is circulant, and so is its inverse. Every layer of a round
is therefore injective, and so is any number of rounds in any order.
-/

namespace CrossLookup.SpongeState

open Goldilocks Matrix

section Mixing

/-- The first column of the mixing matrix as elements. -/
def mixingVector (i : Fin 16) : Goldilocks :=
  .ofWord (mixingColumn.get i)

/-- The first column of the inverse of the mixing matrix. -/
def inverseColumn : Vector UInt64 16 := #v[
    15912549870313651656, 3616330022892099367, 14775920307428630109, 6933430136313882537,
    15816617833956622048, 5043248029905115028, 12271798289280172751, 2307649269465227820,
    17659977357900657937, 10599296789410715599, 13211954570983385247, 13121474687711251347,
    14847848069928210678, 3825852867695828414, 17543090776822458088, 2023675406146731649]

/-- The first column of the inverse matrix as elements. -/
def inverseVector (i : Fin 16) : Goldilocks :=
  .ofWord (inverseColumn.get i)

/-- The product of the first columns, with which the product of the matrices is circulant. -/
theorem circulant_mulVec_inverseVector :
    circulant mixingVector *ᵥ inverseVector = Pi.single 0 1 := by
  decide +kernel

theorem circulant_mul_inverse : circulant mixingVector * circulant inverseVector = 1 := by
  rw [Fin.circulant_mul, circulant_mulVec_inverseVector, circulant_single_one]

/-- The mixing matrix is invertible over the base field. -/
theorem isUnit_mixing : IsUnit (circulant mixingVector) :=
  IsUnit.of_mul_eq_one _ circulant_mul_inverse

theorem foldl_add_eq_sum (f : Fin 16 → Goldilocks) :
    (List.finRange 16).foldl (fun acc col => acc + f col) 0 = ∑ col, f col := by
  rw [Fin.sum_univ_def, List.sum_eq_foldl, List.foldl_map]

theorem get_mix (s : SpongeState) : (mix s).get = circulant mixingVector *ᵥ s.get := by
  funext row
  have hrow : (mix s).get row =
      (List.finRange 16).foldl (fun acc col => acc + mixingEntry row col * s[col]) 0 :=
    Vector.getElem_ofFn row.isLt
  rw [hrow, foldl_add_eq_sum]
  rfl

theorem get_injective : Function.Injective (Vector.get : SpongeState → Fin 16 → Goldilocks) := by
  intro s t h
  apply Vector.ext
  intro i hi
  exact congrFun h ⟨i, hi⟩

theorem mix_injective : Function.Injective mix := by
  intro s t h
  have hproducts : circulant mixingVector *ᵥ s.get = circulant mixingVector *ᵥ t.get := by
    rw [← get_mix, ← get_mix, h]
  exact get_injective (mulVec_injective_of_isUnit isUnit_mixing hproducts)

end Mixing

section Rounds

theorem addConstants_injective (round : Fin 5) : Function.Injective (addConstants round) := by
  intro s t h
  apply Vector.ext
  intro i hi
  have hcell : (addConstants round s)[i] = (addConstants round t)[i] := by rw [h]
  simp only [addConstants, Vector.getElem_mapFinIdx] at hcell
  exact add_right_cancel hcell

theorem applyRound_injective (round : Fin 5) :
    Function.Injective fun s => applyRound s round :=
  (addConstants_injective round).comp (mix_injective.comp substitute_injective)

theorem foldl_applyRound_injective (rounds : List (Fin 5)) :
    Function.Injective fun s => rounds.foldl applyRound s := by
  induction rounds with
  | nil => exact Function.injective_id
  | cons round rest ih => exact ih.comp (applyRound_injective round)

theorem permute_injective : Function.Injective permute := by
  intro s t h
  rw [permute, permute] at h
  exact foldl_applyRound_injective (List.finRange 5) h

instance : Finite SpongeState := Finite.of_injective _ get_injective

/-- The permutation of the sponge maps canonical cells to canonical cells and is a bijection of
the states. The bytewise substitution permutes the canonical words and leaves the Montgomery form
below the order, the seventh power permutes the elements, and the mixing matrix is invertible. -/
theorem permute_isPermutation :
    (∀ s : SpongeState, ∀ cell ∈ s.permute.toList, cell.word < order) ∧
      Function.Injective permute ∧ Function.Surjective permute ∧
      (∀ a, Montgomery.enter a < order) ∧
      Set.BijOn substituteBytes {w | w < order} {w | w < order} ∧
      (∀ a, (splitAndLookup a).word =
        Montgomery.reduce 0 (substituteBytes (Montgomery.enter a))) ∧
      Function.Bijective splitAndLookup ∧ Function.Bijective seventhPower ∧
      IsUnit (of mixingEntry) := by
  have hsurjective : Function.Surjective permute :=
    Finite.injective_iff_surjective.mp permute_injective
  have hsplit : Function.Bijective splitAndLookup :=
    Finite.injective_iff_bijective.mp splitAndLookup_injective
  have hpower : Function.Bijective seventhPower :=
    Finite.injective_iff_bijective.mp seventhPower_injective
  exact ⟨fun _ cell _ => cell.canonical, permute_injective, hsurjective, Montgomery.enter_lt,
    substituteBytes_bijOn, word_splitAndLookup, hsplit, hpower, isUnit_mixing⟩

end Rounds

end CrossLookup.SpongeState
