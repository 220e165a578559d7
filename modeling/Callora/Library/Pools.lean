/-
**Pools: things under way, one of which changes at a time.**

A pool lists what is under way; a step replaces the one at an index, and more are appended. `weight`
adds up a measure of its members; `weight_set` is what a step changes of it.
-/
import Mathlib.Algebra.BigOperators.Group.List.Basic
import Mathlib.Algebra.GroupWithZero.Nat

namespace Pools

variable {ρ : Type}

/-- The sum of a measure of the members. -/
def weight (measure : ρ → ℕ) (pool : List ρ) : ℕ := (pool.map measure).sum

variable {m : ρ → ℕ} {pool : List ρ} {i : ℕ} {p q : ρ}

@[simp] theorem weight_append (more : List ρ) :
    weight m (pool ++ more) = weight m pool + weight m more := by
  simp [weight]

@[simp] theorem weight_single (p : ρ) : weight m [p] = m p := by
  simp [weight]

/-- **A step changes the weight by what it changes of its member.** -/
theorem weight_set (member : pool[i]? = some p) :
    weight m (pool.set i q) + m p = weight m pool + m q := by
  induction pool generalizing i with
  | nil => cases member
  | cons first rest ih =>
    cases i with
    | zero =>
      obtain rfl : first = p := by simpa using member
      simp only [List.set_cons_zero, weight, List.map_cons, List.sum_cons]
      omega
    | succ i =>
      have later : rest[i]? = some p := by simpa using member
      have step := ih later
      simp only [weight, List.set_cons_succ, List.map_cons, List.sum_cons] at step ⊢
      omega

theorem measure_le_weight (member : p ∈ pool) : m p ≤ weight m pool := by
  obtain ⟨before, after, rfl⟩ := List.append_of_mem member
  simp only [weight, List.map_append, List.map_cons, List.sum_append, List.sum_cons]
  omega

theorem weight_eq_zero (none : ∀ p ∈ pool, m p = 0) : weight m pool = 0 := by
  refine List.sum_eq_zero fun n listed => ?_
  obtain ⟨p, member, rfl⟩ := List.mem_map.mp listed
  exact none p member

/-- Two members that both count, in a pool of weight one at most, are one. -/
theorem eq_of_weight_le_one (light : weight m pool ≤ 1) (first : p ∈ pool) (second : q ∈ pool)
    (counts : 1 ≤ m p) (counts' : 1 ≤ m q) : p = q := by
  by_contra different
  obtain ⟨before, after, rfl⟩ := List.append_of_mem first
  have elsewhere : q ∈ before ++ after := by
    rcases List.mem_append.mp second with early | late
    · exact List.mem_append_left _ early
    · rcases List.mem_cons.mp late with rfl | later
      · exact absurd rfl different
      · exact List.mem_append_right _ later
  have rest : m q ≤ weight m (before ++ after) := measure_le_weight elsewhere
  simp only [weight, List.map_append, List.map_cons, List.sum_append, List.sum_cons] at light rest
  omega

/-- Where a member other than the replaced one has a property, so has one after the step. -/
theorem exists_set {P : ρ → Prop} (here : pool[i]? = some p) (not : ¬ P p) (some : ∃ r ∈ pool, P r) :
    ∃ r ∈ pool.set i q, P r := by
  obtain ⟨r, member, holds⟩ := some
  obtain ⟨j, bound, rfl⟩ := List.mem_iff_getElem.mp member
  have other : i ≠ j := by
    rintro rfl
    rw [List.getElem?_eq_getElem bound, Option.some.injEq] at here
    exact not (here ▸ holds)
  refine ⟨pool[j], ?_, holds⟩
  have kept : (pool.set i q)[j]? = pool[j]? := List.getElem?_set_ne other
  rw [List.getElem?_eq_getElem bound] at kept
  exact List.mem_of_getElem? kept

end Pools
