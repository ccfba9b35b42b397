import Mathlib.Algebra.BigOperators.Fin
import Mathlib.Tactic.Ring

/-!
# Horner's rule

A fold that multiplies by a base and adds the next term weights the terms by
powers of the base: rising ones from the last term down, falling ones from the
first term on.
-/

namespace CrossLookup

variable {R α : Type} [CommSemiring R]

/-- Folded from the right, a term is weighted by the power of its place. -/
theorem foldr_horner (x : R) (f : α → R) (as : List α) :
    as.foldr (fun a acc => acc * x + f a) 0 =
      ∑ i : Fin as.length, x ^ (i : ℕ) * f (as.get i) := by
  induction as with
  | nil => rfl
  | cons a rest ih =>
      have hshift : ∀ i : Fin rest.length, x ^ (i.succ : ℕ) * f ((a :: rest).get i.succ) =
          x ^ (i : ℕ) * f (rest.get i) * x := by
        intro i
        rw [Fin.val_succ, pow_succ]
        exact mul_right_comm _ _ _
      calc
        (a :: rest).foldr (fun a acc => acc * x + f a) 0 =
            (∑ i : Fin rest.length, x ^ (i : ℕ) * f (rest.get i) * x) + f a := by
          rw [List.foldr_cons, ih, Finset.sum_mul]
        _ = ∑ i : Fin (rest.length + 1), x ^ (i : ℕ) * f ((a :: rest).get i) := by
          rw [Fin.sum_univ_succ, Finset.sum_congr rfl fun i _ => hshift i, add_comm]
          simp

/-- Folded from the left, a term is weighted by the power of the number of terms after it, and
the start by the power of the number of all terms. -/
theorem foldl_horner (x start : R) (f : α → R) (as : List α) :
    as.foldl (fun acc a => acc * x + f a) start =
      start * x ^ as.length + ∑ j : Fin as.length, f (as.get j) * x ^ (as.length - 1 - j) := by
  induction as generalizing start with
  | nil => simp
  | cons a rest ih =>
      have hshift : ∀ j : Fin rest.length,
          f ((a :: rest).get j.succ) * x ^ (rest.length + 1 - 1 - (j.succ : ℕ)) =
            f (rest.get j) * x ^ (rest.length - 1 - j) := by
        intro j
        rw [Fin.val_succ, show rest.length + 1 - 1 - (j + 1 : ℕ) = rest.length - 1 - j by omega]
        rfl
      calc
        (a :: rest).foldl (fun acc a => acc * x + f a) start =
            (start * x + f a) * x ^ rest.length +
              ∑ j : Fin rest.length, f (rest.get j) * x ^ (rest.length - 1 - j) := by
          rw [List.foldl_cons, ih]
        _ = start * x ^ (rest.length + 1) + (f a * x ^ rest.length +
              ∑ j : Fin rest.length, f (rest.get j) * x ^ (rest.length - 1 - j)) := by
          ring
        _ = start * x ^ (rest.length + 1) + ∑ j : Fin (rest.length + 1),
              f ((a :: rest).get j) * x ^ (rest.length + 1 - 1 - j) := by
          rw [Fin.sum_univ_succ, Finset.sum_congr rfl fun j _ => hshift j]
          simp

end CrossLookup
