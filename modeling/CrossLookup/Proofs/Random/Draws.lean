import CrossLookup.Random.Shuffle
import Mathlib.Data.List.Perm.Basic

/-!
# What is always drawn

A property of drawn values that does not depend on the state from which they are
drawn. Whatever numbers a shuffle draws, it only swaps elements, so its result is
a permutation of the list.
-/

namespace CrossLookup

variable {σ α β : Type}

/-- A draw gives a value with a property from every state. -/
def Always (draw : StateM σ α) (p : α → Prop) : Prop :=
  ∀ state, p (draw.run state).1

namespace Always

variable {draw : StateM σ α} {p : α → Prop} {q : β → Prop}

theorem any (draw : StateM σ α) : Always draw fun _ => True :=
  fun _ => trivial

theorem pure {a : α} (h : p a) : Always (Pure.pure a : StateM σ α) p :=
  fun _ => h

theorem bind (hdraw : Always draw p) {next : α → StateM σ β}
    (hnext : ∀ a, p a → Always (next a) q) : Always (draw >>= next) q :=
  fun state => hnext _ (hdraw state) _

theorem mono {p' : α → Prop} (h : Always draw p) (himp : ∀ a, p a → p' a) : Always draw p' :=
  fun state => himp _ (h state)

end Always

/-- The shuffles of a source only rearrange. -/
def RandomSource.Permutes (source : RandomSource σ) : Prop :=
  ∀ {α : Type} (list : List α), Always (source.shuffle list) fun shuffled => shuffled.Perm list

section Shuffle

theorem perm_swapIfInBounds (items : Array α) (i j : Nat) :
    (items.swapIfInBounds i j).toList.Perm items.toList := by
  rw [Array.swapIfInBounds_def]
  split
  · split
    · exact (Array.swap_perm _ _).toList
    · exact List.Perm.refl _
  · exact List.Perm.refl _

variable (word : StateM σ UInt64)

theorem perm_swapPair (i : Nat) (items : Array α) :
    Always (swapPair word i items) fun swapped => swapped.toList.Perm items.toList := by
  refine (Always.any _).bind fun x _ => Always.pure ?_
  exact (perm_swapIfInBounds _ _ _).trans (perm_swapIfInBounds items _ _)

theorem perm_swapPairs (pairs i : Nat) (items : Array α) :
    Always (swapPairs word pairs i items) fun swapped => swapped.toList.Perm items.toList := by
  induction pairs generalizing i items with
  | zero => exact Always.pure (List.Perm.refl _)
  | succ pairs ih =>
      refine (perm_swapPair word i items).bind fun swapped hswapped => ?_
      exact (ih (i + 2) swapped).mono fun _ hrest => hrest.trans hswapped

/-- A shuffle permutes, whatever the words that it draws. -/
theorem perm_shuffle (list : List α) :
    Always (shuffle word list) fun shuffled => shuffled.Perm list := by
  unfold shuffle
  by_cases hempty : list.toArray.size = 0
  · rw [if_pos hempty]
    exact Always.pure (List.Perm.refl _)
  · rw [if_neg hempty]
    by_cases heven : list.toArray.size % 2 = 0
    · rw [if_pos heven]
      refine (Always.any _).bind fun x _ => ?_
      refine (perm_swapPairs word _ _ _).bind fun swapped hswapped => Always.pure ?_
      exact hswapped.trans (perm_swapIfInBounds _ _ _)
    · rw [if_neg heven]
      exact (perm_swapPairs word _ _ _).bind fun swapped hswapped => Always.pure hswapped

end Shuffle

theorem MersenneTwister.source_permutes : source.Permutes :=
  fun list => perm_shuffle next list

end CrossLookup
