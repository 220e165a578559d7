/-
**Insertions, deletions and substitutions.**

`Script n xs ys` says that `n` single edits, each of them anywhere, turn `xs` into `ys`. An
alignment (`Aligned`) goes through both lists from the front and pays for what it does not keep. The
two cost the same at best:

* `Aligned.edit` — one more edit costs an alignment at most one more;
* `Script.aligned`, `Aligned.script` — every script costs at least as much as some alignment, and every
  alignment is a script;
* `Least.cons` — the least cost of two lists from those of what is before their last steps, which is the
  cell of the table;
* `Least.isLeast` — it is the least number of edits.
-/
import Mathlib.Data.List.Basic
import Mathlib.Order.Bounds.Defs
import Mathlib.Order.MinMax

set_option linter.unusedSectionVars false

namespace Edits

variable {α : Type} {n m : ℕ} {xs ys zs us vs : List α} {c d : α}

/-- One edit. -/
inductive Edit : List α → List α → Prop where
  | insert (u v : List α) (c : α) : Edit (u ++ v) (u ++ c :: v)
  | delete (u v : List α) (c : α) : Edit (u ++ c :: v) (u ++ v)
  | substitute (u v : List α) (c d : α) : Edit (u ++ c :: v) (u ++ d :: v)

/-- So many edits, one after the other. -/
inductive Script : ℕ → List α → List α → Prop where
  | nil (xs : List α) : Script 0 xs xs
  | cons {n : ℕ} {xs ys zs : List α} : Edit xs ys → Script n ys zs → Script (n + 1) xs zs

/-- Two lists aligned from the front, and what is paid for it. -/
inductive Aligned : ℕ → List α → List α → Prop where
  | nil : Aligned 0 [] []
  | keep {n : ℕ} {xs ys : List α} (c : α) : Aligned n xs ys → Aligned n (c :: xs) (c :: ys)
  | drop {n : ℕ} {xs ys : List α} (c : α) : Aligned n xs ys → Aligned (n + 1) (c :: xs) ys
  | add {n : ℕ} {xs ys : List α} (c : α) : Aligned n xs ys → Aligned (n + 1) xs (c :: ys)
  | change {n : ℕ} {xs ys : List α} (c d : α) : Aligned n xs ys → Aligned (n + 1) (c :: xs) (d :: ys)

section Scripts

theorem Edit.symm (edit : Edit xs ys) : Edit ys xs := by
  cases edit with
  | insert u v c => exact .delete u v c
  | delete u v c => exact .insert u v c
  | substitute u v c d => exact .substitute u v d c

theorem Edit.cons (c : α) (edit : Edit xs ys) : Edit (c :: xs) (c :: ys) := by
  cases edit with
  | insert u v d => exact .insert (c :: u) v d
  | delete u v d => exact .delete (c :: u) v d
  | substitute u v d e => exact .substitute (c :: u) v d e

theorem Script.tail (c : α) (script : Script n xs ys) : Script n (c :: xs) (c :: ys) := by
  induction script with
  | nil xs => exact .nil _
  | cons edit _ ih => exact .cons (edit.cons c) ih

theorem Script.concat (script : Script n xs ys) (edit : Edit ys zs) : Script (n + 1) xs zs := by
  induction script with
  | nil xs => exact .cons edit (.nil _)
  | cons first _ ih => exact .cons first (ih edit)

theorem Script.symm (script : Script n xs ys) : Script n ys xs := by
  induction script with
  | nil xs => exact .nil _
  | cons edit _ ih => exact ih.concat edit.symm

theorem Script.trans (first : Script n xs ys) (second : Script m ys zs) : Script (n + m) xs zs := by
  induction first with
  | nil xs => rwa [Nat.zero_add]
  | cons edit _ ih =>
    rw [Nat.add_right_comm]
    exact .cons edit (ih second)

/-- An edit changes the length by one at most. -/
theorem Script.length_le (script : Script n xs ys) : ys.length ≤ xs.length + n := by
  induction script with
  | nil xs => exact Nat.le_refl _
  | cons edit _ ih => cases edit <;> simp only [List.length_append, List.length_cons] at ih ⊢ <;> omega

theorem script_zero : Script 0 xs ys ↔ xs = ys := by
  constructor
  · intro script
    cases script
    rfl
  · rintro rfl
    exact .nil xs

end Scripts

section Alignments

theorem Aligned.refl (xs : List α) : Aligned 0 xs xs := by
  induction xs with
  | nil => exact .nil
  | cons c xs ih => exact .keep c ih

theorem Aligned.symm (aligned : Aligned n xs ys) : Aligned n ys xs := by
  induction aligned with
  | nil => exact .nil
  | keep c _ ih => exact .keep c ih
  | drop c _ ih => exact .add c ih
  | add c _ ih => exact .drop c ih
  | change c d _ ih => exact .change d c ih

theorem Aligned.append (first : Aligned n xs ys) (second : Aligned m us vs) :
    Aligned (n + m) (xs ++ us) (ys ++ vs) := by
  induction first with
  | nil => rwa [Nat.zero_add]
  | keep c _ ih => exact .keep c ih
  | drop c _ ih =>
    rw [Nat.add_right_comm]
    exact .drop c ih
  | add c _ ih =>
    rw [Nat.add_right_comm]
    exact .add c ih
  | change c d _ ih =>
    rw [Nat.add_right_comm]
    exact .change c d ih

theorem Aligned.reverse (aligned : Aligned n xs ys) : Aligned n xs.reverse ys.reverse := by
  induction aligned with
  | nil => exact .nil
  | keep c _ ih => simpa using ih.append (.keep c .nil)
  | drop c _ ih => simpa using ih.append (.drop c .nil)
  | add c _ ih => simpa using ih.append (.add c .nil)
  | change c d _ ih => simpa using ih.append (.change c d .nil)

/-- What is aligned with two lists joined is two parts. -/
theorem Aligned.split (aligned : Aligned n xs (us ++ vs)) :
    ∃ n₁ n₂ xs₁ xs₂, n = n₁ + n₂ ∧ xs = xs₁ ++ xs₂ ∧
    Aligned n₁ xs₁ us ∧ Aligned n₂ xs₂ vs := by
  induction us generalizing n xs with
  | nil => exact ⟨0, n, [], xs, (Nat.zero_add n).symm, rfl, .nil, aligned⟩
  | cons u us ih =>
    -- the steps up to the one that reaches the first element of the list
    induction xs generalizing n with
    | nil =>
      cases aligned with
      | add _ rest =>
        obtain ⟨n₁, n₂, xs₁, xs₂, rfl, same, left, right⟩ := ih rest
        exact ⟨n₁ + 1, n₂, xs₁, xs₂, by omega, same, .add u left, right⟩
    | cons x xs ihx =>
      cases aligned with
      | keep _ rest =>
        obtain ⟨n₁, n₂, xs₁, xs₂, rfl, rfl, left, right⟩ := ih rest
        exact ⟨n₁, n₂, u :: xs₁, xs₂, rfl, rfl, .keep u left, right⟩
      | drop _ rest =>
        obtain ⟨n₁, n₂, xs₁, xs₂, rfl, rfl, left, right⟩ := ihx rest
        exact ⟨n₁ + 1, n₂, x :: xs₁, xs₂, by omega, rfl, .drop x left, right⟩
      | add _ rest =>
        obtain ⟨n₁, n₂, xs₁, xs₂, rfl, same, left, right⟩ := ih rest
        exact ⟨n₁ + 1, n₂, xs₁, xs₂, by omega, same, .add u left, right⟩
      | change _ _ rest =>
        obtain ⟨n₁, n₂, xs₁, xs₂, rfl, rfl, left, right⟩ := ih rest
        exact ⟨n₁ + 1, n₂, x :: xs₁, xs₂, by omega, rfl, .change x u left, right⟩

/-- Without its first element a list costs one more at most. -/
theorem Aligned.without (aligned : Aligned n xs (c :: ys)) : ∃ m ≤ n + 1, Aligned m xs ys := by
  induction xs generalizing n with
  | nil =>
    cases aligned with
    | add _ rest => exact ⟨_, by omega, rest⟩
  | cons x xs ih =>
    cases aligned with
    | keep _ rest => exact ⟨_, Nat.le_refl _, .drop c rest⟩
    | drop _ rest =>
      obtain ⟨m, few, rest⟩ := ih rest
      exact ⟨m + 1, by omega, .drop x rest⟩
    | add _ rest => exact ⟨_, by omega, rest⟩
    | change _ _ rest => exact ⟨_, by omega, .drop x rest⟩

/-- With another first element too. -/
theorem Aligned.instead (aligned : Aligned n xs (c :: ys)) (d : α) :
    ∃ m ≤ n + 1, Aligned m xs (d :: ys) := by
  induction xs generalizing n with
  | nil =>
    cases aligned with
    | add _ rest => exact ⟨_, by omega, .add d rest⟩
  | cons x xs ih =>
    cases aligned with
    | keep _ rest => exact ⟨_, Nat.le_refl _, .change c d rest⟩
    | drop _ rest =>
      obtain ⟨m, few, rest⟩ := ih rest
      exact ⟨m + 1, by omega, .drop x rest⟩
    | add _ rest => exact ⟨_, by omega, .add d rest⟩
    | change _ _ rest => exact ⟨_, by omega, .change x d rest⟩

/-- **One more edit costs an alignment one more at most.** -/
theorem Aligned.edit (aligned : Aligned n xs ys) (edit : Edit ys zs) : ∃ m ≤ n + 1, Aligned m xs zs := by
  cases edit with
  | insert u v c =>
    obtain ⟨n₁, n₂, xs₁, xs₂, rfl, rfl, left, right⟩ := aligned.split
    exact ⟨_, by omega, left.append (.add c right)⟩
  | delete u v c =>
    obtain ⟨n₁, n₂, xs₁, xs₂, rfl, rfl, left, right⟩ := aligned.split
    obtain ⟨m, few, right⟩ := right.without
    exact ⟨_, by omega, left.append right⟩
  | substitute u v c d =>
    obtain ⟨n₁, n₂, xs₁, xs₂, rfl, rfl, left, right⟩ := aligned.split
    obtain ⟨m, few, right⟩ := right.instead d
    exact ⟨_, by omega, left.append right⟩

/-- Every script costs at least as much as some alignment. -/
theorem Script.aligned (script : Script n xs ys) : ∃ m ≤ n, Aligned m xs ys := by
  induction script with
  | nil xs => exact ⟨0, Nat.le_refl 0, .refl xs⟩
  | cons edit _ ih =>
    obtain ⟨m, few, aligned⟩ := ih
    obtain ⟨k, fewer, longer⟩ := aligned.symm.edit edit.symm
    exact ⟨k, by omega, longer.symm⟩

/-- Every alignment is a script. -/
theorem Aligned.script (aligned : Aligned n xs ys) : Script n xs ys := by
  induction aligned with
  | nil => exact .nil []
  | keep c _ ih => exact ih.tail c
  | drop c _ ih => exact .cons (.delete [] _ c) ih
  | add c _ ih => exact ih.concat (.insert [] _ c)
  | change c d _ ih => exact .cons (.substitute [] _ c d) (ih.tail d)

end Alignments

section LeastCost

/-- **The least cost of an alignment.** -/
structure Least (n : ℕ) (xs ys : List α) : Prop where
  aligned : Aligned n xs ys
  least : ∀ m, Aligned m xs ys → n ≤ m

theorem Least.reverse (least : Least n xs ys) : Least n xs.reverse ys.reverse where
  aligned := least.aligned.reverse
  least m other := least.least m (by simpa using other.reverse)

/-- **It is the least number of edits.** -/
theorem Least.isLeast (least : Least n xs ys) : IsLeast {m | Script m xs ys} n := by
  refine ⟨least.aligned.script, fun m script => ?_⟩
  obtain ⟨k, few, aligned⟩ := script.aligned
  exact Nat.le_trans (least.least k aligned) few

theorem least_nil_left (ys : List α) : Least ys.length [] ys := by
  refine ⟨?_, fun m other => by simpa using other.script.length_le⟩
  induction ys with
  | nil => exact .nil
  | cons y ys ih => exact .add y ih

theorem least_nil_right (xs : List α) : Least xs.length xs [] := by
  obtain ⟨aligned, least⟩ := least_nil_left xs
  exact ⟨aligned.symm, fun m other => least m other.symm⟩

/-- **The cell of the table**, from the one above and before, the one above and the one before. -/
theorem Least.cons [DecidableEq α] {diagonal above left : ℕ} {x y : α} (both : Least diagonal xs ys)
    (up : Least above xs (y :: ys)) (back : Least left (x :: xs) ys) :
    Least (min (min (diagonal + if x = y then 0 else 1) (above + 1)) (left + 1)) (x :: xs) (y :: ys) := by
  have stay : Aligned (diagonal + if x = y then 0 else 1) (x :: xs) (y :: ys) := by
    split
    · next same =>
      subst same
      exact .keep x both.aligned
    · exact .change x y both.aligned
  constructor
  · rcases min_choice (min (diagonal + if x = y then 0 else 1) (above + 1)) (left + 1) with inner | same
    · rw [inner]
      rcases min_choice (diagonal + if x = y then 0 else 1) (above + 1) with same | same
      · rw [same]
        exact stay
      · rw [same]
        exact .drop x up.aligned
    · rw [same]
      exact .add y back.aligned
  · intro m other
    cases other with
    | keep _ rest =>
      have fewer := both.least _ rest
      rw [if_pos rfl]
      omega
    | drop _ rest =>
      have fewer := up.least _ rest
      omega
    | add _ rest =>
      have fewer := back.least _ rest
      omega
    | change _ _ rest =>
      have fewer := both.least _ rest
      split <;> omega

end LeastCost

end Edits
