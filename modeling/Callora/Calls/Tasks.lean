/-
**Tasks of a call.**

A caller may switch between tasks; the runs set aside are suspended and resumed.

- `one_run_per_task`: as long as no operation switches to a task that is suspended, no task has two open
  runs, and one that is open again is the one that was suspended, with its details;
- `switch_keeps_details`: a run set aside for another task loses no detail.

An utterance starts a suspended task a second time (`switchingBack`), and an utterance of another intent
of the same task drops the run (`sharedTask`).
-/
import Callora.Calls.Call

set_option linter.unusedSectionVars false

namespace Callora

open Callora.Text Runs

section OneRun

/-- No task has two open runs. -/
def Ledger.Distinct (l : Ledger) : Prop := (l.openRuns.map PipelineRun.pipeline).Nodup

instance (l : Ledger) : Decidable l.Distinct := inferInstanceAs (Decidable (List.Nodup _))

/-- Two open runs of one task are the same run. -/
theorem Ledger.Distinct.unique {l : Ledger} (distinct : l.Distinct) {q r : PipelineRun}
    (here : q ∈ l.openRuns) (there : r ∈ l.openRuns) (same : r.pipeline = q.pipeline) : r = q :=
  List.inj_on_of_nodup_map distinct there here same

/-- Without a current run, nothing is suspended in an active call. -/
def Ledger.Idle (l : Ledger) : Prop := l.phase = .active → l.run = none → l.suspended = []

/-- One run per task, and none forgotten. -/
structure Ledger.Tasks (l : Ledger) : Prop where
  distinct : l.Distinct
  idle : l.Idle

variable {b : Business} [Unicode] {l l' : Ledger} {orders : List Directive}

theorem Ledger.finished_idle (l : Ledger) (outcome : String) (result : Option Json) :
    (l.finished outcome result).Idle := by
  intro _ ended
  have empty : l.suspended = [] := List.getLast?_eq_none_iff.mp ended
  show l.suspended.dropLast = []
  rw [empty]
  rfl

theorem Advances.keepsIdle (goes : Advances b l l' orders) (idle : l.Idle) : l'.Idle := by
  induction goes with
  | idle => exact idle
  | pauses => exact fun _ ended => absurd ended (by simp)
  | sends => exact fun _ ended => absurd ended (by simp)
  | completes _ _ _ _ ih => exact ih (Ledger.finished_idle _ _ _)
  | fails _ _ _ _ _ ih => exact ih (Ledger.finished_idle _ _ _)

theorem Closes.keepsIdle (closes : Closes b l l' orders) (idle : l.Idle) : l'.Idle := by
  induction closes with
  | rests => exact idle
  | advances goes => exact goes.keepsIdle idle
  | hangsUp => exact fun active => by cases active
  | handsOff => exact fun active => by cases active
  | retries => exact fun _ ended => absurd ended (by simp)
  | finishes outcome result _ goes => exact goes.keepsIdle (Ledger.finished_idle _ _ _)
  | finishesCall => exact fun active => by cases active
  | givesUp => exact fun active => by cases active
  | forced => exact fun active => by cases active

theorem Closes.tasks (closes : Closes b l l' orders) (tasks : l.Tasks) : l'.Tasks :=
  ⟨tasks.distinct.sublist closes.survive.pipelines, closes.keepsIdle tasks.idle⟩

/-- A task that is not suspended is started: no task has two runs. -/
theorem Ledger.started_tasks {pipeline intent : String} {aside : Bool} {slots : BTreeMap SlotState}
    (tasks : l.Tasks) (other : aside → ∃ r, l.run = some r ∧ r.pipeline ≠ pipeline)
    (fresh : pipeline ∉ l.suspended.map PipelineRun.pipeline) :
    (l.started aside pipeline intent slots).Tasks := by
  refine ⟨?_, fun _ ended => absurd ended (by simp [Ledger.started])⟩
  have waiting : (l.left aside).suspended.Sublist l.openRuns := by
    refine (List.Sublist.refl _).append ?_
    split
    · exact List.Sublist.refl _
    · exact List.nil_sublist _
  show (((l.left aside).suspended ++ [_]).map PipelineRun.pipeline).Nodup
  rw [List.map_append, List.map_singleton, List.nodup_append]
  refine ⟨tasks.distinct.sublist (waiting.map _), List.nodup_singleton _, ?_⟩
  rintro p listed p' here rfl
  obtain rfl : p = pipeline := List.mem_singleton.mp here
  rw [Ledger.left, List.map_append] at listed
  rcases List.mem_append.mp listed with suspended | left
  · exact fresh suspended
  · split at left
    · rename_i keeps
      obtain ⟨r, current, differs⟩ := other keeps
      simp only [current, Option.toList_some, List.map_singleton, List.mem_singleton] at left
      exact differs left.symm
    · exact absurd left List.not_mem_nil

/-- A quiet move keeps one run per task, if what it starts is not suspended. -/
theorem Move.tasks {label : Label} (moved : Move b label l l') (tasks : l.Tasks)
    (fresh : ∀ p aside, label = .start p aside → p ∉ l.suspended.map PipelineRun.pipeline) :
    l'.Tasks := by
  cases moved with
  | run current moved =>
    refine ⟨?_, fun _ ended => absurd ended (by simp)⟩
    have distinct := tasks.distinct
    unfold Ledger.Distinct at distinct ⊢
    rw [Ledger.openRuns_of_run current, List.map_append, List.map_singleton] at distinct
    rw [Ledger.openRuns_run, List.map_append, List.map_singleton, moved.sameRun.pipeline]
    exact distinct
  | start other carried => exact Ledger.started_tasks tasks other (fresh _ _ rfl)
  | cancel =>
    refine ⟨?_, fun _ _ => rfl⟩
    unfold Ledger.Distinct Ledger.openRuns
    simp
  | count => exact ⟨tasks.distinct, tasks.idle⟩
  | sayFailure => exact ⟨tasks.distinct, tasks.idle⟩

/-- An operation switches to a task that is suspended. -/
def startsAgain (ev : CallEvent b) : Bool :=
  (ev.input.starts ev.before).any fun (p, _) =>
    ev.before.state.suspended.any fun r => r.pipeline == p

/-- One run per task after an operation; a run that was suspended is the one that is open of its task,
with its details. -/
structure OneRunPerTask (l l' : Ledger) : Prop where
  distinct : l'.Distinct
  resumed : ∀ q ∈ l.suspended, ∀ r ∈ l'.openRuns, r.pipeline = q.pipeline → Continues q r

/-- The suspended runs of a ledger are still suspended, or everything was cancelled. -/
def StillSuspended (l m : Ledger) : Prop := m.openRuns = [] ∨ ∀ q ∈ l.suspended, q ∈ m.suspended

theorem Move.stillSuspended {label : Label} {m m' : Ledger} (moved : Move b label m m')
    (still : StillSuspended l m)
    (started : ∀ p aside, label = .start p aside → m.suspended = l.suspended) :
    StillSuspended l m' := by
  cases moved with
  | run current moved =>
    refine .inr fun q waits => ?_
    rcases still with empty | still
    · exact absurd empty (by simp [Ledger.openRuns_of_run current])
    · exact still q waits
  | start other carried =>
    exact .inr fun q waits => List.mem_append_left _ (by rw [started _ _ rfl]; exact waits)
  | cancel => exact .inl (by simp [Ledger.openRuns])
  | count => exact still
  | sayFailure => exact still

theorem Closes.oneRun {m : Ledger} (closes : Closes b m l' orders) (tasks : m.Tasks)
    (still : StillSuspended l m) : OneRunPerTask l l' := by
  refine ⟨(closes.tasks tasks).distinct, fun q waits r listed same => ?_⟩
  obtain ⟨r', before, later⟩ := closes.survive.continues r listed
  rcases still with empty | still
  · rw [empty] at before
    exact absurd before List.not_mem_nil
  · have here : q ∈ m.openRuns := List.mem_append_left _ (still q waits)
    obtain rfl := tasks.distinct.unique here before (later.pipeline.symm.trans same)
    exact later

/-- What one operation keeps, when it does not switch to a suspended task. -/
theorem Op.apply_tasks (e : Engine b) (op : Op) (fresh : startsAgain (event Op.apply e op) = false)
    (tasks₀ : e.state.toLedger.Tasks) :
    (op.leaves e).Tasks ∧ OneRunPerTask e.state.toLedger (op.leaves e) := by
  have done := happens e op
  generalize op.leaves e = l' at done ⊢
  generalize op.orders e = orders at done
  cases done with
  | sets customer phone =>
    refine ⟨⟨tasks₀.distinct, tasks₀.idle⟩, tasks₀.distinct, fun q waits r listed same => ?_⟩
    obtain rfl := tasks₀.distinct.unique (List.mem_append_left _ waits) listed same
    exact .refl r
  | acts opens acts =>
    obtain ⟨m, path, closes⟩ := acts
    rename_i l
    have opened : l.Tasks ∧ StillSuspended e.state.toLedger l := by
      generalize opening : op.starts e = started at opens
      cases opens with
      | stays => exact ⟨tasks₀, .inr fun q waits => waits⟩
      | starts moved =>
        rename_i p aside
        refine ⟨moved.tasks tasks₀ fun p' aside' here => ?_,
          moved.stillSuspended (.inr fun q waits => waits) fun _ _ _ => rfl⟩
        cases here
        simpa [startsAgain, opening] using fresh
    have moved := path.preserves (P := fun m => m.Tasks ∧ StillSuspended e.state.toLedger m)
      (fun label s t may moved ⟨tasks, still⟩ => by
        have started (p : String) (aside : Bool) (here : label = .start p aside) :
            s.suspended = e.state.suspended ∧ s.suspended = [] := by
          subst here
          obtain ⟨active, idle, same, -⟩ := may
          exact ⟨same, same.trans (tasks₀.idle active idle)⟩
        refine ⟨moved.tasks tasks fun p aside here => ?_,
          moved.stillSuspended still fun p aside here => (started p aside here).1⟩
        simp [(started p aside here).2]) opened
    exact ⟨closes.tasks moved.1, closes.oneRun moved.1 moved.2⟩

theorem Ledger.new_tasks : Ledger.new.Tasks := ⟨by decide, fun _ _ => rfl⟩

/-- **One run per task**, in every call of which no operation switches to a suspended task. -/
theorem one_run_per_task (b : Business) (seed : UInt64) (ops : List Op)
    (fresh : ∀ ev ∈ Call.events b seed ops, startsAgain ev = false) :
    ∀ ev ∈ Call.events b seed ops,
      OneRunPerTask ev.before.state.toLedger ev.after.state.toLedger := by
  intro ev listed
  obtain ⟨tasks, here, same⟩ := invariant_at (P := fun e : Engine b => e.state.toLedger.Tasks)
    (C := fun ev => startsAgain ev = false) Ledger.new_tasks
    (fun e op tasks here => (op.apply_tasks e here tasks).1) fresh ev listed
  rw [same] at here ⊢
  exact (ev.input.apply_tasks ev.before here tasks).2

end OneRun

section Sample

open Sample

/-- A ride is asked for, then a booked one is looked up. -/
def oneSwitch : List Op :=
  [.start, asks "a ride for two" "ride" [number "seats" 2], asks "track" "track" []]

/-- Then the ride is gone back to. -/
def switchingBack : List Op := oneSwitch ++ [asks "the ride" "ride" []]

set_option maxRecDepth 100000 in
theorem one_run_per_task_oneSwitch : rides.Validated ∧ ∀ ev ∈ Call.events rides 7 oneSwitch,
    OneRunPerTask ev.before.state.toLedger ev.after.state.toLedger :=
  ⟨rides_validated, one_run_per_task rides 7 oneSwitch (by decide +kernel)⟩

set_option maxRecDepth 100000 in
/-- An utterance starts a suspended task again. -/
theorem switchingBack_twoRuns : rides.Validated ∧
    ¬ ∀ ev ∈ Call.events rides 7 switchingBack, ev.after.state.toLedger.Distinct :=
  ⟨rides_validated, by decide +kernel⟩

end Sample

section Switching

variable {b : Business} [Unicode] {e : Engine b} {op : Op} {r : PipelineRun} {p : String} {aside : Bool}

/-- A value of a slot is held by an open run, or by a record. -/
def Ledger.Holds (l : Ledger) (slot : String) (v : SlotValue) : Prop :=
  (∃ r ∈ l.openRuns, r.slots[slot]?.map SlotState.value = some v) ∨
    ∃ c ∈ l.completed, c.slots[slot]? = some v

instance (l : Ledger) (slot : String) (v : SlotValue) : Decidable (l.Holds slot v) :=
  inferInstanceAs (Decidable (_ ∨ _))

theorem Lives.holds {l : Ledger} (lives : Lives l r) {slot : String} {st : SlotState}
    (held : r.slots[slot]? = some st) : l.Holds slot st.value := by
  rcases lives with ⟨r', listed, later⟩ | ⟨c, listed, ended⟩
  · exact .inl ⟨r', listed, by rw [later.kept slot st held, Option.map_some]⟩
  · exact .inr ⟨c, listed, ended.kept slot st held⟩

/-- An utterance that starts a task is no cancellation. -/
theorem Op.starts_goesOn (starts : op.starts e = some (p, aside)) : ¬op.cancels e := by
  cases op with
  | utterance u =>
    rintro ⟨active, clear, decent, cancels⟩
    simp [Op.starts, Reply.utteranceStarts, cancels] at starts
  | _ => exact id

/-- The run replaced is set aside: it holds something, is not executing, and the utterance's task is
another one. -/
theorem Op.starts_aside (current : e.state.run = some r) (details : r.slots.isEmpty = false)
    (waits : r.step.isExecuting = false) (starts : op.starts e = some (p, aside))
    (other : ∀ u, op = .utterance u → r.pipeline ≠ p) : aside = true := by
  cases op with
  | utterance u =>
    simp only [Op.starts, Reply.utteranceStarts, Reply.understoodStarts] at starts
    split at starts
    · cases starts
    · split at starts
      · cases starts
      · split at starts
        · rename_i pipeline intent _
          obtain ⟨rfl, rfl⟩ := Prod.mk.inj (Option.some.inj starts)
          simp [Reply.utteranceAside, current, details, other u rfl]
        · cases starts
  | agentTurn transcript turn spoken =>
    simp only [Op.starts, Reply.agentStarts, Reply.carriedStarts] at starts
    split at starts
    · cases starts
    · obtain ⟨i, -, here⟩ := Option.bind_eq_some_iff.mp starts
      obtain ⟨p', -, same⟩ := Option.map_eq_some_iff.mp here
      obtain ⟨rfl, rfl⟩ := Prod.mk.inj same
      have run : (e.hearForAgent transcript).state.run = some r :=
        (congrArg (fun B : Book => B.ledger.run) (Reply.hearForAgent_book e transcript)).trans current
      simp [Reply.agentAside, run, details, waits]
  | _ => cases starts

/-- **A task switch loses no details**, when the run that is replaced is of another task. -/
theorem switch_keeps_details (e : Engine b) (op : Op) (r : PipelineRun) (p : String) (aside : Bool)
    (current : e.state.run = some r) (details : r.slots.isEmpty = false)
    (waits : r.step.isExecuting = false)
    (starts : op.starts e = some (p, aside)) (other : ∀ u, op = .utterance u → r.pipeline ≠ p) :
    ∀ (slot : String) (st : SlotState), r.slots[slot]? = some st → (op.leaves e).Holds slot st.value := by
  obtain rfl := Op.starts_aside current details waits starts other
  have goesOn := Op.starts_goesOn starts
  intro slot st held
  refine Lives.holds ?_ held
  have done := happens e op
  generalize op.leaves e = l' at done ⊢
  generalize op.orders e = orders at done
  cases done with
  | sets customer phone setting => cases op <;> cases setting <;> cases starts
  | acts opens acts =>
    obtain ⟨m, path, closes⟩ := acts
    rw [starts] at opens
    cases opens with
    | starts moved =>
      cases moved with
      | run _ moved => cases moved
      | start =>
        have left : r ∈ e.state.suspended ++ e.state.run.toList := by simp [current]
        have suspended := path.preserves (P := fun m => r ∈ m.suspended)
          (fun label s t may moved => moved.suspended (by
            rintro rfl
            exact goesOn may.1) r) left
        exact closes.lives r (List.mem_append_left _ suspended)

end Switching

section Sample

open Sample

/-- A ride for two is asked for. -/
def rideAsked : Engine rides :=
  Call.final rides 7 [.start, asks "a ride for two" "ride" [number "seats" 2]]

/-- The run of the ride. -/
def rideRun : PipelineRun := rideAsked.state.run.getD (PipelineRun.new 0 "" "")

theorem switch_keeps_details_track :
    ((asks "track" "track" []).leaves rideAsked).Holds "seats" (.integer 2) :=
  switch_keeps_details rideAsked (asks "track" "track" []) rideRun "track" true (by decide +kernel)
    (by decide +kernel) (by decide +kernel) (by decide +kernel)
    (fun _ _ => by decide +kernel) "seats" ⟨.integer 2, 1, .rules, false⟩ (by decide +kernel)

/-- An intent of the same task drops what was said. -/
theorem sharedTask_losesDetails : rides.Validated ∧ rideAsked.state.phase = .active ∧
    rideAsked.state.run.any (fun r => !r.step.isExecuting && r.slots.contains "seats") ∧
    (asks "a shuttle" "shuttle" []).starts rideAsked = some ("ride", false) ∧
    rideAsked.state.toLedger.Holds "seats" (.integer 2) ∧
    ¬((asks "a shuttle" "shuttle" []).leaves rideAsked).Holds "seats" (.integer 2) :=
  ⟨rides_validated, by decide +kernel⟩

end Sample

end Callora
