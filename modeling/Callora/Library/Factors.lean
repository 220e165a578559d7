/-
**Removing the occurrences of a list from another, from the left.**

`Cut p xs ys` says that `ys` is `xs` without the occurrences of `p`, each looked for after the one
before it. A removal brings together what stood before and after the removed part, and an occurrence
that lies across the two (`Across`) was in neither of them:

- `infix_append_iff`: what stands in two lists joined stands in one of them, or across;
- `Cut.skip`, `Cut.here`: a scan from the left cuts;
- `Cut.unique`: and there is one way to do it;
- `Cut.sublist`: what is left was there;
- `Leaves.kept`: where all is left, none of the lists stood.
-/
import Mathlib.Data.List.Infix

set_option linter.unusedSectionVars false

namespace Factors

variable {α : Type}

/-- A list that begins at the end of one and ends at the beginning of another. -/
def Across (u v p : List α) : Prop := ∃ x y, x ≠ [] ∧ y ≠ [] ∧ p = x ++ y ∧ x <:+ u ∧ y <+: v

/-- The occurrences of a list removed, the leftmost first, and then those after it. -/
inductive Cut (p : List α) : List α → List α → Prop
  | clear {xs : List α} : ¬ p <:+: xs → Cut p xs xs
  | cut {u v ys : List α} : (∀ u' v', u' ++ p ++ v' = u ++ p ++ v → u.length ≤ u'.length) → Cut p v ys →
      Cut p (u ++ p ++ v) (u ++ ys)

/-- The occurrences of several lists removed, one list after the other. -/
inductive Leaves : List (List α) → List α → List α → Prop
  | nil (xs : List α) : Leaves [] xs xs
  | cons {p : List α} {ps : List (List α)} {xs ys zs : List α} : Cut p xs ys → Leaves ps ys zs →
      Leaves (p :: ps) xs zs

variable {p u v xs ys zs a b : List α} {ps : List (List α)} {x : α}

/-- An occurrence that begins in the first of two lists ends there, or lies across. -/
theorem occurrence_cases (same : a ++ p ++ b = u ++ v) (before : a.length < u.length) :
    (∃ b', u = a ++ p ++ b') ∨ Across u v p := by
  rw [List.append_assoc] at same
  rcases List.append_eq_append_iff.mp same with ⟨a', rfl, rest⟩ | ⟨a', rfl, -⟩
  · -- `u = a ++ a'` and `p ++ b = a' ++ v`
    rcases List.append_eq_append_iff.mp rest with ⟨b', rfl, -⟩ | ⟨b', rfl, rfl⟩
    · exact .inl ⟨b', by rw [List.append_assoc]⟩
    · by_cases empty : b' = []
      · exact .inl ⟨[], by simp [empty]⟩
      · refine .inr ⟨a', b', ?_, empty, rfl, List.suffix_append _ _, List.prefix_append _ _⟩
        rintro rfl
        simp at before
  · rw [List.length_append] at before
    omega

/-- **What stands in two lists joined stands in one of them, or across.** -/
theorem infix_append_iff : p <:+: u ++ v ↔ p <:+: u ∨ p <:+: v ∨ Across u v p := by
  constructor
  · rintro ⟨a, b, same⟩
    by_cases before : a.length < u.length
    · rcases occurrence_cases same before with ⟨b', rfl⟩ | across
      · exact .inl ⟨a, b', rfl⟩
      · exact .inr (.inr across)
    · rw [List.append_assoc] at same
      rcases List.append_eq_append_iff.mp same with ⟨a', rfl, rest⟩ | ⟨a', rfl, rest⟩
      · have none' : a' = [] :=
          List.eq_nil_of_length_eq_zero (by rw [List.length_append] at before; omega)
        subst none'
        exact .inr (.inl ⟨[], b, rest⟩)
      · exact .inr (.inl ⟨a', b, by rw [rest, List.append_assoc]⟩)
  · rintro (inside | inside | ⟨x, y, -, -, rfl, ⟨s, rfl⟩, ⟨t, rfl⟩⟩)
    · exact inside.trans (List.prefix_append u v).isInfix
    · exact inside.trans (List.suffix_append u v).isInfix
    · exact ⟨s, t, by simp⟩

namespace Cut

/-- A scan that passes a place where no occurrence begins. -/
theorem skip (other : ¬ p <+: x :: xs) (rest : Cut p xs ys) : Cut p (x :: xs) (x :: ys) := by
  cases rest with
  | clear none' =>
    refine .clear fun found => ?_
    exact (List.infix_cons_iff.mp found).elim other none'
  | @cut u v ys first rest =>
    refine .cut (u := x :: u) (fun u' v' same => ?_) rest
    cases u' with
    | nil => exact absurd ⟨v', same⟩ other
    | cons x' u' =>
      have tails := (List.cons.inj same).2
      exact Nat.succ_le_succ (first u' v' tails)

/-- A scan that finds an occurrence where it stands. -/
theorem here (rest : Cut p v ys) : Cut p (p ++ v) ys :=
  .cut (u := []) (fun _ _ _ => Nat.zero_le _) rest

/-- **There is one way to cut.** -/
theorem unique (first : Cut p xs ys) : ∀ {zs : List α}, Cut p xs zs → ys = zs := by
  induction first with
  | clear none' =>
    intro zs second
    cases second with
    | clear => rfl
    | cut => exact absurd ⟨_, _, rfl⟩ none'
  | @cut u v ys earliest rest ih =>
    intro zs second
    generalize whole : u ++ p ++ v = xs at second earliest
    cases second with
    | clear none' => exact absurd ⟨u, v, whole⟩ none'
    | @cut u' v' ys' earliest' rest' =>
      have long : u.length = u'.length := le_antisymm (earliest u' v' rfl) (earliest' u v whole)
      rw [List.append_assoc, List.append_assoc] at whole
      obtain ⟨rfl, tails⟩ := List.append_inj whole long
      obtain rfl := List.append_cancel_left tails
      rw [ih rest']

/-- What is left was there, in the same order. -/
theorem sublist (cut : Cut p xs ys) : ys.Sublist xs := by
  induction cut with
  | clear => exact List.Sublist.refl _
  | @cut u v ys _ _ ih =>
    rw [List.append_assoc]
    exact (List.Sublist.refl u).append (ih.trans (List.sublist_append_right p v))

/-- Where all is left, there was no occurrence. -/
theorem kept (some' : p ≠ []) (cut : Cut p xs ys) (same : ys.length = xs.length) : ¬ p <:+: xs := by
  cases cut with
  | clear none' => exact none'
  | @cut u v ys first rest =>
    have fewer := rest.sublist.length_le
    have one := List.length_pos_of_ne_nil some'
    simp only [List.length_append] at same
    omega

end Cut

/-- Removing several lists, one after the other, has one outcome. -/
theorem Leaves.unique (first : Leaves ps xs ys) : ∀ {zs : List α}, Leaves ps xs zs → ys = zs := by
  induction first with
  | nil =>
    intro zs second
    cases second
    rfl
  | cons cut _ ih =>
    intro zs second
    cases second with
    | cons cut' rest' =>
      obtain rfl := cut.unique cut'
      exact ih rest'

theorem Leaves.sublist (leaves : Leaves ps xs ys) : ys.Sublist xs := by
  induction leaves with
  | nil => exact List.Sublist.refl _
  | cons cut _ ih => exact ih.trans cut.sublist

/-- Where none of the lists stands, all is left. -/
theorem Leaves.clear (none' : ∀ p ∈ ps, ¬ p <:+: xs) : Leaves ps xs xs := by
  induction ps with
  | nil => exact .nil xs
  | cons p ps ih =>
    exact .cons (.clear (none' p List.mem_cons_self))
      (ih fun q listed => none' q (List.mem_cons_of_mem _ listed))

/-- Where all is left, none of the lists stood. -/
theorem Leaves.kept (some' : ∀ p ∈ ps, p ≠ []) (leaves : Leaves ps xs ys) (same : ys.length = xs.length) :
    ∀ p ∈ ps, ¬ p <:+: xs := by
  induction leaves with
  | nil => exact fun p none' => absurd none' List.not_mem_nil
  | cons cut rest ih =>
    intro p listed
    have first := cut.sublist.length_le
    have second := rest.sublist.length_le
    obtain rfl := cut.sublist.eq_of_length (by omega)
    rcases List.mem_cons.mp listed with rfl | later
    · exact cut.kept (some' p List.mem_cons_self) rfl
    · exact ih (fun q held => some' q (List.mem_cons_of_mem _ held)) same p later

end Factors
