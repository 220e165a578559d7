/-
**A leaky counter is a maximum over suffixes.**

A counter takes one number after the other and never falls below zero (`peak`). What it shows is the
greatest sum of a suffix of what it took, the empty one included: no suffix has more
(`sum_le_peak`), and one has as much (`exists_peak`). So it reaches a bound exactly when some suffix
does (`le_peak_iff`).
-/
import Mathlib.Data.List.Induction
import Mathlib.Algebra.Order.Group.Int
import Mathlib.Algebra.BigOperators.Group.List.Basic
import Mathlib.Algebra.Ring.Int.Defs

set_option linter.unusedSectionVars false

namespace Suffixes

/-- What the counter shows after the numbers. -/
def peak (xs : List ℤ) : ℤ := xs.foldl (fun shown x => max 0 (shown + x)) 0

theorem peak_concat (xs : List ℤ) (x : ℤ) : peak (xs ++ [x]) = max 0 (peak xs + x) := by
  rw [peak, List.foldl_concat, peak]

/-- **No suffix has a greater sum.** -/
theorem sum_le_peak {xs ys : List ℤ} (suffix : ys <:+ xs) : ys.sum ≤ peak xs := by
  induction xs using List.reverseRecOn generalizing ys with
  | nil => rw [List.suffix_nil.mp suffix]; exact le_rfl
  | append_singleton xs x ih =>
    rw [peak_concat]
    rcases List.suffix_concat_iff.mp suffix with rfl | ⟨shorter, rfl, within⟩
    · exact le_max_left _ _
    · rw [List.sum_append, List.sum_singleton]
      exact le_max_of_le_right (Int.add_le_add_right (ih within) x)

/-- **Some suffix has this sum.** -/
theorem exists_peak (xs : List ℤ) : ∃ ys, ys <:+ xs ∧ ys.sum = peak xs := by
  induction xs using List.reverseRecOn with
  | nil => exact ⟨[], List.suffix_rfl, rfl⟩
  | append_singleton xs x ih =>
    obtain ⟨ys, suffix, same⟩ := ih
    rw [peak_concat]
    rcases le_total 0 (peak xs + x) with grows | falls
    · refine ⟨ys ++ [x], ?_, ?_⟩
      · obtain ⟨before, rfl⟩ := suffix
        exact ⟨before, by rw [List.append_assoc]⟩
      · rw [max_eq_right grows, List.sum_append, List.sum_singleton, same]
    · exact ⟨[], List.nil_suffix, (max_eq_left falls).symm⟩

/-- The counter reaches a bound exactly when some suffix does. -/
theorem le_peak_iff {bound : ℤ} {xs : List ℤ} : bound ≤ peak xs ↔ ∃ ys, ys <:+ xs ∧ bound ≤ ys.sum := by
  constructor
  · intro reached
    obtain ⟨ys, suffix, same⟩ := exists_peak xs
    exact ⟨ys, suffix, same ▸ reached⟩
  · rintro ⟨ys, suffix, reached⟩
    exact reached.trans (sum_le_peak suffix)

end Suffixes
