/-
**Writes in place.**

A store maps names to what was last written under them; `written` applies writes one after the
other. After them a name holds what was last written under it (`written_of_listed`), or what it held
before (`written_other`). A property of every write and of what was there before holds of what is
there after (`written_all`).
-/
import Mathlib.Logic.Function.Basic
import Mathlib.Data.List.Induction
import Mathlib.Tactic.Push

namespace Writes

variable {κ β : Type} [DecidableEq κ]

/-- The store after some writes. -/
def written (store : κ → Option β) : List (κ × β) → κ → Option β
  | [] => store
  | (name, value) :: writes => written (Function.update store name (some value)) writes

variable {store : κ → Option β} {writes more : List (κ × β)} {name : κ} {value : β}

@[simp] theorem written_nil : written store [] = store := rfl

theorem written_append : written store (writes ++ more) = written (written store writes) more := by
  induction writes generalizing store with
  | nil => rfl
  | cons first writes ih => exact ih

/-- The last write under a name is what it holds. -/
@[simp] theorem written_last : written store (writes ++ [(name, value)]) name = some value := by
  rw [written_append]
  exact Function.update_self ..

/-- A name that is not written holds what it held. -/
theorem written_other (other : ∀ write ∈ writes, write.1 ≠ name) :
    written store writes name = store name := by
  induction writes generalizing store with
  | nil => rfl
  | cons first writes ih =>
    have different : name ≠ first.1 := (other first List.mem_cons_self).symm
    rw [written, ih fun write later => other write (List.mem_cons_of_mem _ later),
      Function.update_of_ne different]

/-- A name that is written holds one of the values written under it. -/
theorem written_of_listed (store : κ → Option β) (listed : ∃ write ∈ writes, write.1 = name) :
    ∃ value, (name, value) ∈ writes ∧ written store writes name = some value := by
  induction writes using List.reverseRecOn with
  | nil =>
    obtain ⟨write, none, -⟩ := listed
    exact absurd none List.not_mem_nil
  | append_singleton writes last ih =>
    obtain ⟨key, value⟩ := last
    by_cases same : key = name
    · subst same
      exact ⟨value, List.mem_append_right _ (List.mem_singleton_self _), written_last⟩
    · have earlier : ∃ write ∈ writes, write.1 = name := by
        obtain ⟨write, listed, named⟩ := listed
        rcases List.mem_append.mp listed with before | now
        · exact ⟨write, before, named⟩
        · obtain rfl := List.mem_singleton.mp now
          exact absurd named same
      obtain ⟨value', listed, holds⟩ := ih earlier
      refine ⟨value', List.mem_append_left _ listed, ?_⟩
      rw [written_append, written, written_nil, Function.update_of_ne (Ne.symm same)]
      exact holds

/-- **What holds of the value that was there and of every value written holds of the value after.** -/
theorem written_all {P : β → Prop} (before : ∀ value, store name = some value → P value)
    (each : ∀ value, (name, value) ∈ writes → P value) :
    ∀ value, written store writes name = some value → P value := by
  intro value holds
  by_cases listed : ∃ write ∈ writes, write.1 = name
  · obtain ⟨value', written', last⟩ := written_of_listed store listed
    obtain rfl := Option.some.inj (last.symm.trans holds)
    exact each value' written'
  · push Not at listed
    rw [written_other listed] at holds
    exact before value holds

end Writes
