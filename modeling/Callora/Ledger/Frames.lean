/-
**What the moves of a ledger leave alone.**

- `RunMove.sameRun`: the current run stays the same run, of the same task;
- `keepsStep_frame`: a path of moves that keep what the run waits for changes nothing of the ledger but
  the current run; a run that waits for its action goes on waiting.
-/
import Callora.Ledger.Silent

set_option linter.unusedSectionVars false

namespace Callora

open Callora.Text Runs

variable {b : Business} [Unicode] {allowed : Allowed}

/-- The same run, whatever happened to its values and its step. -/
structure SameRun (r r' : PipelineRun) : Prop where
  serial : r'.serial = r.serial
  pipeline : r'.pipeline = r.pipeline
  intent : r'.intent = r.intent
  attempts : r'.attempts = r.attempts

theorem SameRun.refl (r : PipelineRun) : SameRun r r := ⟨rfl, rfl, rfl, rfl⟩

theorem SameRun.trans {r r' r'' : PipelineRun} (first : SameRun r r') (second : SameRun r' r'') :
    SameRun r r'' :=
  ⟨second.serial.trans first.serial, second.pipeline.trans first.pipeline,
    second.intent.trans first.intent, second.attempts.trans first.attempts⟩

theorem clear_sameRun (r : PipelineRun) (slot : String) : SameRun r (r.clear slot) := by
  unfold PipelineRun.clear
  split
  · exact .refl r
  · exact ⟨rfl, rfl, rfl, rfl⟩

theorem store_sameRun (r : PipelineRun) (fill : SlotFill) : SameRun r (Engine.store r fill) := by
  unfold Engine.store
  split
  · exact .refl r
  · exact ⟨rfl, rfl, rfl, rfl⟩

theorem undo_sameRun {r r' : PipelineRun} {slot : String} (undone : r.undo = some (r', slot)) :
    SameRun r r' := by
  obtain ⟨entry, -, same⟩ := Option.map_eq_some_iff.mp undone
  obtain ⟨rfl, -⟩ := Prod.mk.inj same
  exact ⟨rfl, rfl, rfl, rfl⟩

/-- A quiet move goes on with the same run. -/
theorem RunMove.sameRun {label : Label} {l : Ledger} {r r' : PipelineRun}
    (moved : RunMove b l label r r') : SameRun r r' := by
  cases moved with
  | store fill => exact store_sameRun r fill
  | clear slot => exact clear_sameRun r slot
  | undo undone =>
    have same := undo_sameRun undone
    exact ⟨same.serial, same.pipeline, same.intent, same.attempts⟩
  | _ => exact ⟨rfl, rfl, rfl, rfl⟩

/-- The same run, which waits for its action if it did before. -/
structure SameWait (r r' : PipelineRun) : Prop extends SameRun r r' where
  step : r.step.isExecuting → r'.step = r.step

namespace SameWait

theorem refl (r : PipelineRun) : SameWait r r := ⟨.refl r, fun _ => rfl⟩

theorem trans {r r' r'' : PipelineRun} (first : SameWait r r') (second : SameWait r' r'') :
    SameWait r r'' where
  toSameRun := first.toSameRun.trans second.toSameRun
  step executing := by
    have kept := first.step executing
    exact (second.step (kept ▸ executing)).trans kept

end SameWait

theorem RunMove.sameWait {label : Label} {l : Ledger} {r r' : PipelineRun} (keeps : label.keepsStep)
    (moved : RunMove b l label r r') : SameWait r r' := by
  refine ⟨moved.sameRun, fun executing => ?_⟩
  cases moved with
  | store fill =>
    unfold Engine.store
    split <;> rfl
  | reopen reading => cases step : r.step <;> simp_all [Step.isReadingBack, Step.isExecuting]
  | clear slot =>
    unfold PipelineRun.clear
    split <;> rfl
  | undo => cases keeps
  | agreeSlot reading => simp [reading, Step.isExecuting] at executing
  | step => cases keeps
  | readBack => cases keeps
  | _ => rfl

/-- The ledgers differ at most in the current run, whose wait is the same. -/
structure SameWaits (l l' : Ledger) : Prop where
  phase : l'.phase = l.phase
  suspended : l'.suspended = l.suspended
  failedActions : l'.failedActions = l.failedActions
  completed : l'.completed = l.completed
  actionFailures : l'.actionFailures = l.actionFailures
  customer : l'.customer = l.customer
  callerPhone : l'.callerPhone = l.callerPhone
  nextActionRun : l'.nextActionRun = l.nextActionRun
  runsStarted : l'.runsStarted = l.runsStarted
  failuresSaid : l'.failuresSaid = l.failuresSaid
  idle : l.run = none → l'.run = none
  run : ∀ r, l.run = some r → ∃ r', l'.run = some r' ∧ SameWait r r'

namespace SameWaits

theorem refl (l : Ledger) : SameWaits l l :=
  ⟨rfl, rfl, rfl, rfl, rfl, rfl, rfl, rfl, rfl, rfl, id, fun r current => ⟨r, current, .refl r⟩⟩

theorem trans {l l' l'' : Ledger} (first : SameWaits l l') (second : SameWaits l' l'') :
    SameWaits l l'' where
  phase := second.phase.trans first.phase
  suspended := second.suspended.trans first.suspended
  failedActions := second.failedActions.trans first.failedActions
  completed := second.completed.trans first.completed
  actionFailures := second.actionFailures.trans first.actionFailures
  customer := second.customer.trans first.customer
  callerPhone := second.callerPhone.trans first.callerPhone
  nextActionRun := second.nextActionRun.trans first.nextActionRun
  runsStarted := second.runsStarted.trans first.runsStarted
  failuresSaid := second.failuresSaid.trans first.failuresSaid
  idle none := second.idle (first.idle none)
  run r current := by
    obtain ⟨r', current', same⟩ := first.run r current
    obtain ⟨r'', current'', same'⟩ := second.run r' current'
    exact ⟨r'', current'', same.trans same'⟩

end SameWaits

theorem Move.sameWaits {label : Label} {l l' : Ledger} (keeps : label.keepsStep)
    (moved : Move b label l l') : SameWaits l l' := by
  cases moved with
  | run current moved =>
    refine ⟨rfl, rfl, rfl, rfl, rfl, rfl, rfl, rfl, rfl, rfl, fun none => by simp [none] at current,
      fun r here => ?_⟩
    obtain rfl := Option.some.inj (current.symm.trans here)
    exact ⟨_, rfl, moved.sameWait keeps⟩
  | start => cases keeps
  | cancel => cases keeps
  | count => cases keeps
  | sayFailure => cases keeps

/-- **The frame of the moves that keep what the run waits for.** -/
theorem keepsStep_frame {l l' : Ledger} (keeps : ∀ label l, allowed label l → label.keepsStep)
    (path : Path (Move b) allowed l l') : SameWaits l l' :=
  path.related .refl (fun _ _ _ => .trans) fun label l _ may moved => moved.sameWaits (keeps label l may)

end Callora
