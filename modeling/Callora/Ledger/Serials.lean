/-
**Runs by their numbers.**

A run keeps its number over its whole life, in its record too, and no number is given twice
(`Ledger.Numbered`). Nothing is lost when an operation closes (`Closes.serials`), and a run that is not
open any more never is again (`Ledger.Gone`).
-/
import Callora.Ledger.Lives

set_option linter.unusedSectionVars false

namespace Callora

open Callora.Text Runs

/-- The numbers of the runs that are over, and of those open. -/
def Ledger.serials (l : Ledger) : List Nat :=
  l.completed.map CompletedRun.serial ++ l.openRuns.map PipelineRun.serial

/-- **No number is given twice.** -/
structure Ledger.Numbered (l : Ledger) : Prop where
  distinct : l.serials.Nodup
  below : ∀ s ∈ l.serials, s < l.runsStarted

/-- A run that was open once, and is not any more. -/
structure Ledger.Gone (l : Ledger) (s : Nat) : Prop where
  before : s < l.runsStarted
  gone : s ∉ l.openRuns.map PipelineRun.serial

section Numbers

variable {l l' : Ledger} {r : PipelineRun}

theorem Ledger.serials_of_run (current : l.run = some r) : l.serials =
    l.completed.map CompletedRun.serial ++ (l.suspended.map PipelineRun.serial ++ [r.serial]) := by
  rw [Ledger.serials, Ledger.openRuns_of_run current, List.map_append, List.map_singleton]

/-- Another state of the same current run. -/
theorem Ledger.serials_same {r' : PipelineRun} (current : l.run = some r) (current' : l'.run = some r')
    (suspended : l'.suspended = l.suspended) (completed : l'.completed = l.completed)
    (serial : r'.serial = r.serial) : l'.serials = l.serials := by
  rw [Ledger.serials_of_run current, Ledger.serials_of_run current', suspended, completed, serial]

/-- A run that is recorded keeps its number. -/
theorem Ledger.recorded_serials (current : l.run = some r) (outcome : String) (result : Option Json) :
    ((l.recorded outcome result).completed.map CompletedRun.serial ++
      l.suspended.map PipelineRun.serial).Perm l.serials := by
  rw [Ledger.recorded_completed current, Ledger.serials_of_run current, List.map_append,
    List.map_singleton, List.append_assoc]
  exact (List.Perm.refl _).append (List.perm_append_comm)

theorem Ledger.finished_serials (current : l.run = some r) (outcome : String) (result : Option Json) :
    (l.finished outcome result).serials.Perm l.serials := by
  unfold Ledger.serials
  rw [Ledger.finished_openRuns]
  exact Ledger.recorded_serials current outcome result

theorem Ledger.finished_runsStarted (l : Ledger) (outcome : String) (result : Option Json) :
    (l.finished outcome result).runsStarted = l.runsStarted := by
  show (l.recorded outcome result).runsStarted = _
  unfold Ledger.recorded
  split <;> rfl

theorem Ledger.Numbered.of_perm (numbered : l.Numbered) (perm : l'.serials.Perm l.serials)
    (same : l'.runsStarted = l.runsStarted) : l'.Numbered :=
  ⟨perm.nodup_iff.mpr numbered.distinct, fun s listed => by
    rw [same]
    exact numbered.below s (perm.subset listed)⟩

/-- The current run's number is no suspended one's. -/
theorem Ledger.Numbered.current (numbered : l.Numbered) (current : l.run = some r) :
    r.serial ∉ l.suspended.map PipelineRun.serial ∧
      r.serial ∉ l.completed.map CompletedRun.serial ∧ r.serial < l.runsStarted := by
  have distinct := numbered.distinct
  rw [Ledger.serials_of_run current] at distinct
  obtain ⟨-, opens, apart⟩ := List.nodup_append.mp distinct
  obtain ⟨-, -, alone⟩ := List.nodup_append.mp opens
  refine ⟨fun waits => alone _ waits _ List.mem_cons_self rfl,
    fun ended => apart _ ended _ (List.mem_append_right _ List.mem_cons_self) rfl,
    numbered.below _ ?_⟩
  rw [Ledger.serials_of_run current]
  exact List.mem_append_right _ (List.mem_append_right _ List.mem_cons_self)

variable {b : Business} [Unicode] {orders : List Directive}

theorem Advances.serials (goes : Advances b l l' orders) :
    l'.serials.Perm l.serials ∧ l'.runsStarted = l.runsStarted := by
  induction goes with
  | idle => exact ⟨List.Perm.refl _, rfl⟩
  | pauses current => exact ⟨.of_eq (Ledger.serials_same current rfl rfl rfl rfl), rfl⟩
  | sends current => exact ⟨.of_eq (Ledger.serials_same current rfl rfl rfl rfl), rfl⟩
  | completes current filled ready goes ih =>
    refine ⟨(ih.1.trans (Ledger.finished_serials rfl _ _)).trans (.of_eq ?_),
      ih.2.trans (Ledger.finished_runsStarted _ _ _)⟩
    exact Ledger.serials_same current rfl rfl rfl rfl
  | fails current filled ready spoken goes ih =>
    refine ⟨(ih.1.trans (Ledger.finished_serials rfl _ _)).trans (.of_eq ?_),
      ih.2.trans (Ledger.finished_runsStarted _ _ _)⟩
    exact Ledger.serials_same current rfl rfl rfl rfl

/-- **No run is lost when an operation closes.** -/
theorem Closes.serials (closes : Closes b l l' orders) :
    l'.serials.Perm l.serials ∧ l'.runsStarted = l.runsStarted := by
  induction closes with
  | rests => exact ⟨List.Perm.refl _, rfl⟩
  | advances goes => exact goes.serials
  | hangsUp => exact ⟨List.Perm.refl _, rfl⟩
  | handsOff => exact ⟨List.Perm.refl _, rfl⟩
  | retries current => exact ⟨.of_eq (Ledger.serials_same current rfl rfl rfl rfl), rfl⟩
  | finishes outcome result current goes =>
    exact ⟨goes.serials.1.trans (Ledger.finished_serials current _ _),
      goes.serials.2.trans (Ledger.finished_runsStarted _ _ _)⟩
  | finishesCall result current =>
    exact ⟨Ledger.finished_serials current "success" result, Ledger.finished_runsStarted _ _ _⟩
  | givesUp summary result current =>
    rename_i l r
    have recorded := Ledger.recorded_serials current "unknown" result
    rw [Ledger.recorded_of_run current] at recorded ⊢
    refine ⟨?_, rfl⟩
    simpa [Ledger.serials, Ledger.openRuns] using recorded
  | forced _ _ ih => exact ih

theorem Closes.numbered (closes : Closes b l l' orders) (numbered : l.Numbered) : l'.Numbered :=
  numbered.of_perm closes.serials.1 closes.serials.2

/-- A quiet move gives no number twice. -/
theorem Move.numbered {label : Label} (moved : Move b label l l') (numbered : l.Numbered) :
    l'.Numbered := by
  cases moved with
  | run current moved =>
    exact numbered.of_perm (.of_eq (Ledger.serials_same current rfl rfl rfl moved.sameRun.serial)) rfl
  | start other carried =>
    rename_i pipeline intent aside slots
    have fewer : (l.completed.map CompletedRun.serial ++
        (l.left aside).suspended.map PipelineRun.serial).Sublist l.serials := by
      refine (List.Sublist.refl _).append ?_
      refine List.Sublist.map _ ((List.Sublist.refl _).append ?_)
      split
      · exact List.Sublist.refl _
      · exact List.nil_sublist _
    have serials : (l.started aside pipeline intent slots).serials =
        (l.completed.map CompletedRun.serial ++ (l.left aside).suspended.map PipelineRun.serial) ++
          [l.runsStarted] := by
      rw [Ledger.serials_of_run rfl, List.append_assoc]
      rfl
    constructor
    · rw [serials, List.nodup_append]
      refine ⟨numbered.distinct.sublist fewer, List.nodup_singleton _, ?_⟩
      rintro s listed s' new rfl
      obtain rfl := List.mem_singleton.mp new
      exact absurd (numbered.below _ (fewer.subset listed)) (Nat.lt_irrefl _)
    · intro s listed
      rw [serials] at listed
      show s < l.runsStarted + 1
      rcases List.mem_append.mp listed with old | new
      · exact Nat.lt_succ_of_lt (numbered.below s (fewer.subset old))
      · obtain rfl := List.mem_singleton.mp new
        exact Nat.lt_succ_self _
  | cancel =>
    have fewer : (({ l.recorded "cancelled" none with suspended := [] } : Ledger).serials).Subperm
        l.serials := by
      cases current : l.run with
      | none =>
        have same : l.recorded "cancelled" none = l := by
          unfold Ledger.recorded
          rw [current]
        rw [same]
        simp only [Ledger.serials, Ledger.openRuns, current, Option.toList_none,
          List.map_nil, List.append_nil]
        exact (List.sublist_append_left _ _).subperm
      | some r =>
        refine List.Subperm.trans (List.Sublist.subperm ?_)
          (Ledger.recorded_serials current "cancelled" none).subperm
        simp [Ledger.serials, Ledger.openRuns]
    obtain ⟨ordered, perm, sub⟩ := fewer
    refine ⟨perm.nodup_iff.mp (numbered.distinct.sublist sub), fun s listed => ?_⟩
    have started : (l.recorded "cancelled" none).runsStarted = l.runsStarted :=
      Ledger.finished_runsStarted l "cancelled" none
    show s < (l.recorded "cancelled" none).runsStarted
    rw [started]
    exact numbered.below s (sub.subset (perm.symm.subset listed))
  | count => exact ⟨numbered.distinct, numbered.below⟩
  | sayFailure => exact ⟨numbered.distinct, numbered.below⟩

/-- **A run that is gone stays gone**, through a close. -/
theorem Closes.gone {s : Nat} (closes : Closes b l l' orders) (gone : l.Gone s) : l'.Gone s := by
  refine ⟨closes.serials.2 ▸ gone.before, fun listed => gone.gone ?_⟩
  obtain ⟨r', here, rfl⟩ := List.mem_map.mp listed
  obtain ⟨r, before, later⟩ := closes.survive.continues r' here
  exact List.mem_map.mpr ⟨r, before, later.serial.symm⟩

/-- … and through a quiet move. -/
theorem Move.gone {label : Label} {s : Nat} (moved : Move b label l l') (gone : l.Gone s) :
    l'.Gone s := by
  cases moved with
  | run current moved =>
    refine ⟨gone.before, fun listed => gone.gone ?_⟩
    rw [Ledger.openRuns_run, List.map_append, List.map_singleton, moved.sameRun.serial] at listed
    rw [Ledger.openRuns_of_run current, List.map_append, List.map_singleton]
    exact listed
  | start other carried =>
    rename_i pipeline intent aside slots
    refine ⟨Nat.lt_succ_of_lt gone.before, fun listed => gone.gone ?_⟩
    obtain ⟨r, here, rfl⟩ := List.mem_map.mp listed
    refine List.mem_map.mpr ⟨r, ?_, rfl⟩
    rcases List.mem_append.mp here with waits | new
    · rcases List.mem_append.mp waits with suspended | left
      · exact List.mem_append_left _ suspended
      · split at left
        · exact List.mem_append_right _ left
        · exact absurd left List.not_mem_nil
    · obtain rfl := List.mem_singleton.mp new
      exact absurd gone.before (Nat.lt_irrefl _)
  | cancel =>
    have started : (l.recorded "cancelled" none).runsStarted = l.runsStarted :=
      Ledger.finished_runsStarted l "cancelled" none
    exact ⟨by rw [started]; exact gone.before, by simp [Ledger.openRuns]⟩
  | count => exact ⟨gone.before, gone.gone⟩
  | sayFailure => exact ⟨gone.before, gone.gone⟩

/-- The run that is dropped for a new task is gone. -/
theorem Ledger.Numbered.dropped {pipeline intent : String} {slots : BTreeMap SlotState}
    (numbered : l.Numbered) (current : l.run = some r) :
    (l.started false pipeline intent slots).Gone r.serial := by
  obtain ⟨alone, -, before⟩ := numbered.current current
  refine ⟨Nat.lt_succ_of_lt before, ?_⟩
  simp only [Ledger.openRuns, Ledger.started, Ledger.left, Bool.false_eq_true, if_false,
    List.append_nil, Option.toList_some, List.map_append, List.map_singleton, List.mem_append,
    List.mem_singleton, not_or]
  exact ⟨alone, Nat.ne_of_lt before⟩

theorem Ledger.new_numbered : Ledger.new.Numbered := ⟨List.nodup_nil, fun s listed => by cases listed⟩

end Numbers

end Callora
