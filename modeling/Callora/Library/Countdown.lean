/-
**Runs that end.**

A machine that is `live` until it stops, and a bound `μ` on what it may still do.

* `runs_out` — when every counted input that leaves it live lowers the bound, it has stopped after more
  counted inputs than the bound.
* `said_once` — what is said only at the input that stops it is said once in a run that stops.
-/
import Callora.Library.Runs
import Mathlib.Algebra.GroupWithZero.Nat

set_option linter.unusedSectionVars false

namespace Runs

variable {σ ι ο : Type} {step : σ → ι → ο × σ} {live : σ → Prop} {C : Event σ ι ο → Prop}

/-- A machine that has stopped does not start again. -/
theorem stopped_final (stays : ∀ s i, ¬live s → ¬live (step s i).2) {s : σ} (stopped : ¬live s)
    (is : List ι) : ¬live (final step s is) := by
  induction is generalizing s with
  | nil => exact stopped
  | cons i is ih => exact ih (stays s i stopped)

/-- **A machine whose bound falls with every counted input runs out**: `I` is what holds while it is
live, and `C` what its events meet. -/
theorem runs_out (live : σ → Prop) (I : σ → Prop) (μ : σ → Nat) (counted : ι → Bool)
    (stays : ∀ s i, ¬live s → ¬live (step s i).2)
    (falls : ∀ s i, I s → live s → C (event step s i) → live (step s i).2 →
      I (step s i).2 ∧ μ (step s i).2 + (if counted i then 1 else 0) ≤ μ s)
    {s : σ} (start : I s) {is : List ι} (all : ∀ ev ∈ events step s is, C ev)
    (enough : μ s < is.countP counted) : ¬live (final step s is) := by
  induction is generalizing s with
  | nil => exact absurd enough (Nat.not_lt_zero _)
  | cons i is ih =>
    have first : C (event step s i) := all _ List.mem_cons_self
    by_cases alive : live s
    · by_cases after : live (step s i).2
      · obtain ⟨kept, lower⟩ := falls s i start alive first after
        refine ih kept (fun ev listed => all ev (List.mem_cons_of_mem _ listed)) ?_
        rw [List.countP_cons] at enough
        omega
      · exact stopped_final stays after is
    · exact stopped_final stays (stays s i alive) is

/-- **What is said only at the input that stops a machine is said once**, when it stops. -/
theorem said_once (live : σ → Prop) [DecidablePred live] (said : ο → Nat)
    (quiet : ∀ s i, ¬live s → said (step s i).1 = 0 ∧ ¬live (step s i).2)
    (last : ∀ s i, live s → said (step s i).1 = if live (step s i).2 then 0 else 1)
    {s : σ} (alive : live s) (is : List ι) :
    ((events step s is).map fun ev => said ev.output).sum = if live (final step s is) then 0 else 1 := by
  have silent : ∀ (is : List ι) (s : σ), ¬live s →
      ((events step s is).map fun ev => said ev.output).sum = 0 := by
    intro is
    induction is with
    | nil => exact fun _ _ => rfl
    | cons i is ih =>
      intro s stopped
      obtain ⟨none', after⟩ := quiet s i stopped
      rw [events, List.map_cons, List.sum_cons, ih _ after]
      exact none'
  induction is generalizing s with
  | nil => exact (if_pos alive).symm
  | cons i is ih =>
    rw [events, List.map_cons, List.sum_cons, event_output, last s i alive]
    by_cases after : live (step s i).2
    · rw [if_pos after, Nat.zero_add]
      exact ih after
    · have ended : ¬live (final step s (i :: is)) :=
        stopped_final (fun s i stopped => (quiet s i stopped).2) after is
      rw [if_neg after, silent is _ after, if_neg ended]

end Runs
