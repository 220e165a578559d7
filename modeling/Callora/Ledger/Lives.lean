/-
**The life of a run.**

A run is open while it is current or suspended, and over once it is recorded. What becomes of the open
runs when an operation closes:

- `Continues`: the same run later, with every value it held; `Concluded`: its record, with the same
  values;
- `Survive`: the runs open afterwards are runs open before, in the same order;
- `Lives`: a run open before is open afterwards, or recorded.

`Closes.survive` and `Closes.lives` hold of every close; a quiet move leaves the suspended runs alone
(`Move.suspended`), unless the task is cancelled.
-/
import Callora.Ledger.Filling
import Callora.Ledger.Frames

set_option linter.unusedSectionVars false

namespace Callora

open Callora.Text Runs

section Lives

/-- The runs that are not over: those suspended, and the current one. -/
def Ledger.openRuns (l : Ledger) : List PipelineRun := l.suspended ++ l.run.toList

/-- **The same run, later**: whatever it held it holds. -/
structure Continues (r r' : PipelineRun) : Prop where
  serial : r'.serial = r.serial
  pipeline : r'.pipeline = r.pipeline
  kept : ∀ (k : String) (st : SlotState), r.slots[k]? = some st → r'.slots[k]? = some st

namespace Continues

theorem refl (r : PipelineRun) : Continues r r := ⟨rfl, rfl, fun _ _ held => held⟩

theorem trans {r r' r'' : PipelineRun} (first : Continues r r') (second : Continues r' r'') :
    Continues r r'' :=
  ⟨second.serial.trans first.serial, second.pipeline.trans first.pipeline,
    fun k st held => second.kept k st (first.kept k st held)⟩

end Continues

/-- **The record of a run that is over**, with the values it held. -/
structure Concluded (r : PipelineRun) (c : CompletedRun) : Prop where
  serial : c.serial = r.serial
  pipeline : c.pipeline = r.pipeline
  kept : ∀ (k : String) (st : SlotState), r.slots[k]? = some st → c.slots[k]? = some st.value

theorem Continues.concluded {r r' : PipelineRun} {c : CompletedRun} (continues : Continues r r')
    (concluded : Concluded r' c) : Concluded r c :=
  ⟨concluded.serial.trans continues.serial, concluded.pipeline.trans continues.pipeline,
    fun k st held => concluded.kept k st (continues.kept k st held)⟩

/-- The runs on the left are runs on the right, later, in their order. -/
abbrev Survive (rs' rs : List PipelineRun) : Prop :=
  List.SublistForall₂ (fun r' r => Continues r r') rs' rs

instance : Std.Refl fun r' r : PipelineRun => Continues r r' := ⟨.refl⟩

instance : IsTrans PipelineRun fun r' r => Continues r r' := ⟨fun _ _ _ later first => first.trans later⟩

namespace Survive

variable {rs rs' : List PipelineRun}

/-- Every run afterwards is one from before. -/
theorem continues (survive : Survive rs' rs) : ∀ r' ∈ rs', ∃ r ∈ rs, Continues r r' := by
  induction survive with
  | nil => exact fun r' mem => absurd mem List.not_mem_nil
  | cons here _ ih =>
    intro r' mem
    rcases List.mem_cons.mp mem with rfl | later
    · exact ⟨_, List.mem_cons_self, here⟩
    · obtain ⟨r, listed, same⟩ := ih r' later
      exact ⟨r, List.mem_cons_of_mem _ listed, same⟩
  | cons_right _ ih =>
    intro r' mem
    obtain ⟨r, listed, same⟩ := ih r' mem
    exact ⟨r, List.mem_cons_of_mem _ listed, same⟩

/-- The tasks afterwards are some of those before. -/
theorem pipelines (survive : Survive rs' rs) :
    (rs'.map PipelineRun.pipeline).Sublist (rs.map PipelineRun.pipeline) := by
  induction survive with
  | nil => exact List.nil_sublist _
  | cons here _ ih =>
    rw [List.map_cons, List.map_cons, here.pipeline]
    exact ih.cons_cons _
  | cons_right _ ih => exact ih.cons _

/-- Runs suspended and a current one, which goes on. -/
theorem current {suspended : List PipelineRun} {r r' : PipelineRun} (continues : Continues r r') :
    Survive (suspended ++ [r']) (suspended ++ [r]) := by
  induction suspended with
  | nil => exact .cons continues .nil
  | cons q suspended ih => exact .cons (.refl q) ih

end Survive

/-- A run is open in a ledger, or recorded there. -/
def Lives (l : Ledger) (r : PipelineRun) : Prop :=
  (∃ r' ∈ l.openRuns, Continues r r') ∨ ∃ c ∈ l.completed, Concluded r c

theorem Lives.of_open {l : Ledger} {r : PipelineRun} (listed : r ∈ l.openRuns) : Lives l r :=
  .inl ⟨r, listed, .refl r⟩

theorem Continues.lives {l : Ledger} {r r' : PipelineRun} (continues : Continues r r')
    (lives : Lives l r') : Lives l r := by
  rcases lives with ⟨r'', listed, later⟩ | ⟨c, listed, ended⟩
  · exact .inl ⟨r'', listed, continues.trans later⟩
  · exact .inr ⟨c, listed, continues.concluded ended⟩

end Lives

section Finished

variable {l l' : Ledger} {r : PipelineRun}

/-- When a run is over, those suspended are open. -/
theorem Ledger.finished_openRuns (l : Ledger) (outcome : String) (result : Option Json) :
    (l.finished outcome result).openRuns = l.suspended := by
  show l.suspended.dropLast ++ l.suspended.getLast?.toList = l.suspended
  cases last : l.suspended.getLast? with
  | none => simp [List.getLast?_eq_none_iff.mp last]
  | some q => exact List.dropLast_append_getLast? q last

/-- The record of a run that is over. -/
def PipelineRun.record (r : PipelineRun) (outcome : String) (result : Option Json) : CompletedRun :=
  ⟨r.serial, r.pipeline, outcome, r.values, result⟩

theorem Ledger.recorded_completed (current : l.run = some r) (outcome : String)
    (result : Option Json) :
    (l.recorded outcome result).completed = l.completed ++ [r.record outcome result] := by
  rw [Ledger.recorded_of_run current]
  rfl

theorem PipelineRun.concluded (r : PipelineRun) (outcome : String) (result : Option Json) :
    Concluded r (r.record outcome result) := by
  refine ⟨rfl, rfl, fun k st held => ?_⟩
  show r.values[k]? = _
  rw [PipelineRun.values_getElem?, held]
  rfl

/-- Every open run lives on when the current one is recorded. -/
theorem Ledger.finished_lives (current : l.run = some r) (outcome : String) (result : Option Json) :
    ∀ q ∈ l.openRuns, Lives (l.finished outcome result) q := by
  intro q listed
  rcases List.mem_append.mp listed with waits | here
  · exact .of_open (by rwa [Ledger.finished_openRuns])
  · obtain rfl : q = r := by simpa [current] using here
    refine .inr ⟨q.record outcome result, ?_, q.concluded outcome result⟩
    show _ ∈ (l.recorded outcome result).completed
    rw [Ledger.recorded_completed current]
    exact List.mem_append_right _ List.mem_cons_self

theorem Ledger.finished_survive (l : Ledger) (outcome : String) (result : Option Json) :
    Survive (l.finished outcome result).openRuns l.openRuns := by
  rw [Ledger.finished_openRuns]
  exact (List.sublist_append_left _ _).sublistForall₂

/-- The open runs of a ledger with another current run. -/
theorem Ledger.openRuns_run (l : Ledger) (r : PipelineRun) :
    ({ l with run := some r } : Ledger).openRuns = l.suspended ++ [r] := rfl

theorem Ledger.openRuns_of_run (current : l.run = some r) : l.openRuns = l.suspended ++ [r] := by
  rw [Ledger.openRuns, current]
  rfl

theorem Ledger.survive_run {r' : PipelineRun} (current : l.run = some r) (continues : Continues r r') :
    Survive (l.suspended ++ [r']) l.openRuns := by
  rw [Ledger.openRuns_of_run current]
  exact .current continues

/-- The current run goes on as `r'`, those suspended stay. -/
theorem Ledger.lives_run {r' : PipelineRun} (current : l.run = some r) (continues : Continues r r')
    (same : l'.openRuns = l.suspended ++ [r']) : ∀ q ∈ l.openRuns, Lives l' q := by
  intro q listed
  rw [Ledger.openRuns_of_run current] at listed
  rcases List.mem_append.mp listed with waits | here
  · exact .of_open (by rw [same]; exact List.mem_append_left _ waits)
  · obtain rfl : q = r := List.mem_singleton.mp here
    exact .inl ⟨r', by rw [same]; exact List.mem_append_right _ List.mem_cons_self, continues⟩

end Finished

section Closes

variable {b : Business} [Unicode] {l l' : Ledger} {r : PipelineRun} {slots : BTreeMap SlotState}
  {orders : List Directive}

theorem Filled.continues (filled : Filled b l r slots) : Continues r { r with slots := slots } :=
  ⟨rfl, rfl, filled.kept⟩

/-- What `advance` leaves open was open before. -/
theorem Advances.survive (goes : Advances b l l' orders) : Survive l'.openRuns l.openRuns := by
  induction goes with
  | idle => exact Std.Refl.refl _
  | pauses current filled => exact Ledger.survive_run current ⟨rfl, rfl, filled.kept⟩
  | sends current filled => exact Ledger.survive_run current ⟨rfl, rfl, filled.kept⟩
  | completes current filled ready goes ih =>
    rw [Ledger.finished_openRuns] at ih
    exact IsTrans.trans _ _ _ ih (List.sublist_append_left _ _).sublistForall₂
  | fails current filled ready spoken goes ih =>
    rw [Ledger.finished_openRuns] at ih
    exact IsTrans.trans _ _ _ ih (List.sublist_append_left _ _).sublistForall₂

/-- What is recorded stays recorded. -/
theorem Advances.completed (goes : Advances b l l' orders) : ∀ c ∈ l.completed, c ∈ l'.completed := by
  induction goes with
  | idle => exact fun c listed => listed
  | pauses => exact fun c listed => listed
  | sends => exact fun c listed => listed
  | completes current filled ready goes ih =>
    intro c listed
    refine ih c ?_
    show c ∈ (Ledger.recorded _ _ _).completed
    rw [Ledger.recorded_completed rfl]
    exact List.mem_append_left _ listed
  | fails current filled ready spoken goes ih =>
    intro c listed
    refine ih c ?_
    show c ∈ (Ledger.recorded _ _ _).completed
    rw [Ledger.recorded_completed rfl]
    exact List.mem_append_left _ listed

/-- What lives before `advance` lives after it. -/
theorem Advances.lives_of (goes : Advances b l l' orders)
    (each : ∀ q ∈ l.openRuns, Lives l' q) {q : PipelineRun} (lives : Lives l q) : Lives l' q := by
  rcases lives with ⟨q', listed, later⟩ | ⟨c, listed, ended⟩
  · exact later.lives (each q' listed)
  · exact .inr ⟨c, goes.completed c listed, ended⟩

/-- The open runs of a ledger of which the current run is over. -/
theorem Ledger.lives_finished {m : Ledger} (current : l.run = some r) (filled : Filled b l r slots)
    (same : m.run = some { r with slots := slots }) (waiting : m.suspended = l.suspended)
    (outcome : String) (result : Option Json) :
    ∀ q ∈ l.openRuns, Lives (m.finished outcome result) q := by
  intro q listed
  obtain ⟨q', here, later⟩ : ∃ q' ∈ m.openRuns, Continues q q' := by
    rw [Ledger.openRuns_of_run current] at listed
    rw [Ledger.openRuns_of_run same, waiting]
    rcases List.mem_append.mp listed with waits | here
    · exact ⟨q, List.mem_append_left _ waits, .refl q⟩
    · obtain rfl : q = r := List.mem_singleton.mp here
      exact ⟨_, List.mem_append_right _ List.mem_cons_self, filled.continues⟩
  exact later.lives (Ledger.finished_lives same outcome result q' here)

/-- **Every run open before `advance` lives after it.** -/
theorem Advances.lives (goes : Advances b l l' orders) : ∀ q ∈ l.openRuns, Lives l' q := by
  induction goes with
  | idle => exact fun q listed => .of_open listed
  | pauses current filled =>
    refine Ledger.lives_run current ?_ rfl
    exact ⟨rfl, rfl, filled.kept⟩
  | sends current filled =>
    refine Ledger.lives_run current ?_ rfl
    exact ⟨rfl, rfl, filled.kept⟩
  | completes current filled ready goes ih =>
    intro q listed
    refine goes.lives_of ih (Ledger.lives_finished current filled ?_ ?_ _ _ q listed) <;> rfl
  | fails current filled ready spoken goes ih =>
    intro q listed
    refine goes.lives_of ih (Ledger.lives_finished current filled ?_ ?_ _ _ q listed) <;> rfl

/-- **What is open after a close was open before it.** -/
theorem Closes.survive (closes : Closes b l l' orders) : Survive l'.openRuns l.openRuns := by
  induction closes with
  | rests => exact Std.Refl.refl _
  | advances goes => exact goes.survive
  | hangsUp => exact Std.Refl.refl _
  | handsOff => exact Std.Refl.refl _
  | retries current => exact Ledger.survive_run current ⟨rfl, rfl, fun _ _ held => held⟩
  | finishes outcome result current goes =>
    exact IsTrans.trans _ _ _ goes.survive (Ledger.finished_survive _ _ _)
  | finishesCall result => exact Ledger.finished_survive _ "success" result
  | givesUp summary result current =>
    rename_i l r
    have left : ({ l.recorded "unknown" result with phase := .handingOff } : Ledger).openRuns =
        l.suspended := by
      rw [Ledger.recorded_of_run current]
      exact List.append_nil _
    rw [left]
    exact (List.sublist_append_left _ _).sublistForall₂
  | forced _ _ ih => exact ih

/-- **Every run open before a close lives after it.** -/
theorem Closes.lives (closes : Closes b l l' orders) : ∀ q ∈ l.openRuns, Lives l' q := by
  induction closes with
  | rests => exact fun q listed => .of_open listed
  | advances goes => exact goes.lives
  | hangsUp => exact fun q listed => .of_open listed
  | handsOff => exact fun q listed => .of_open listed
  | retries current =>
    refine Ledger.lives_run current ?_ rfl
    exact ⟨rfl, rfl, fun _ _ held => held⟩
  | finishes outcome result current goes =>
    exact fun q listed => goes.lives_of goes.lives (Ledger.finished_lives current _ _ q listed)
  | finishesCall result current => exact Ledger.finished_lives current "success" result
  | givesUp summary result current =>
    rename_i l r
    intro q listed
    rw [Ledger.openRuns_of_run current] at listed
    rcases List.mem_append.mp listed with waits | here
    · refine .of_open (List.mem_append_left _ ?_)
      show q ∈ (l.recorded "unknown" result).suspended
      rwa [Ledger.recorded_suspended]
    · obtain rfl : q = r := List.mem_singleton.mp here
      refine .inr ⟨q.record "unknown" result, ?_, q.concluded _ _⟩
      show _ ∈ (l.recorded "unknown" result).completed
      rw [Ledger.recorded_completed current]
      exact List.mem_append_right _ List.mem_cons_self
  | forced _ _ ih => exact ih

/-- What is recorded stays recorded. -/
theorem Closes.completed (closes : Closes b l l' orders) : ∀ c ∈ l.completed, c ∈ l'.completed := by
  induction closes with
  | rests => exact fun c listed => listed
  | advances goes => exact goes.completed
  | hangsUp => exact fun c listed => listed
  | handsOff => exact fun c listed => listed
  | retries => exact fun c listed => listed
  | finishes outcome result current goes =>
    intro c listed
    refine goes.completed c ?_
    show c ∈ (Ledger.recorded _ _ _).completed
    rw [Ledger.recorded_completed current]
    exact List.mem_append_left _ listed
  | finishesCall result current =>
    intro c listed
    show c ∈ (Ledger.recorded _ _ _).completed
    rw [Ledger.recorded_completed current]
    exact List.mem_append_left _ listed
  | givesUp summary result current =>
    intro c listed
    show c ∈ (Ledger.recorded _ _ _).completed
    rw [Ledger.recorded_completed current]
    exact List.mem_append_left _ listed
  | forced _ _ ih => exact ih

end Closes

section Moves

variable {b : Business} [Unicode] {l l' : Ledger} {label : Label}

/-- A suspended run stays suspended through a quiet move, unless the task is cancelled. -/
theorem Move.suspended (moved : Move b label l l') (goesOn : label ≠ .cancel) :
    ∀ q ∈ l.suspended, q ∈ l'.suspended := by
  cases moved with
  | run => exact fun q waits => waits
  | start => exact fun q waits => List.mem_append_left _ waits
  | cancel => exact absurd rfl goesOn
  | count => exact fun q waits => waits
  | sayFailure => exact fun q waits => waits

/-- What is recorded stays recorded. -/
theorem Move.completed (moved : Move b label l l') : ∀ c ∈ l.completed, c ∈ l'.completed := by
  cases moved with
  | run => exact fun c listed => listed
  | start => exact fun c listed => listed
  | cancel =>
    intro c listed
    show c ∈ (Ledger.recorded _ _ _).completed
    unfold Ledger.recorded
    split
    · exact listed
    · exact List.mem_append_left _ listed
  | count => exact fun c listed => listed
  | sayFailure => exact fun c listed => listed

end Moves

end Callora
