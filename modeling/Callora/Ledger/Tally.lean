/-
**What a reply counts.**

The tally of an engine: the phase, the counters that bound how long a call goes on, and the desk. Speech
does not change it, and neither does moving a task forward, unless a task that ends the call succeeds.

* `finish_tally` — a reply ends with the tally it has.
* `finishRunWith_tally`, `advance_tally` — no task ends a call by going wrong or having nothing to do.
-/
import Callora.Engine.Flow

set_option linter.unusedSectionVars false

namespace Callora

open Callora.Text

/-- The phase, the counters that bound a call, and the desk. -/
structure Tally where
  phase : Phase
  silenceReprompts : Nat
  fallbackLevel : Nat
  fallbackRestarts : Nat
  desk : Option Bool

variable {b : Business}

/-- The tally of an engine. -/
def Engine.tally (e : Engine b) : Tally :=
  ⟨e.state.phase, e.state.silenceReprompts, e.state.fallbackLevel, e.state.fallbackRestarts, e.desk⟩

namespace Reply

/-- The tally of a reply. -/
def tally (r : Reply b) : Tally := r.engine.tally

@[simp] theorem begin_tally (e : Engine b) : (begin e).tally = e.tally := rfl

@[simp] theorem speak_tally (r : Reply b) (plan : SpeechPlan) (record : Bool) :
    (r.speak plan record).tally = r.tally := rfl

@[simp] theorem push_tally (r : Reply b) (d : Directive) : (r.push d).tally = r.tally := rfl

theorem speakRendered_tally {r : Reply b} {rendered : Option SpeechPlan × Engine b}
    (same : rendered.2.tally = r.tally) (record : Bool) :
    (r.speakRendered rendered record).tally = r.tally := by
  obtain ⟨plan, e⟩ := rendered
  cases plan with
  | none => exact same
  | some plan => exact same

@[simp] theorem say_tally (r : Reply b) (response : String) (ctx : RenderContext) (record : Bool) :
    (r.say response ctx record).tally = r.tally :=
  speakRendered_tally rfl record

@[simp] theorem sayNow_tally (r : Reply b) (response : String) (record : Bool) :
    (r.sayNow response record).tally = r.tally := say_tally r _ _ _

@[simp] theorem sayOptional_tally (r : Reply b) (response : Option String) (record : Bool) :
    (r.sayOptional response record).tally = r.tally := by
  cases response with
  | none => rfl
  | some response => exact sayNow_tally r response record

@[simp] theorem noteAsked_tally (r : Reply b) (slots : List String) :
    (r.noteAsked slots).tally = r.tally := rfl

@[simp] theorem confirmSlot_tally (r : Reply b) (slot spoken : String) :
    (r.confirmSlot slot spoken).tally = r.tally := say_tally _ _ _ _

@[simp] theorem offerMore_tally (r : Reply b) : r.offerMore.tally = r.tally :=
  sayNow_tally r b.config.anythingElse true

@[simp] theorem sayFailure_tally (r : Reply b) (pipeline : PipelineConfig) :
    (r.sayFailure pipeline).tally = r.tally := by
  unfold sayFailure
  split
  · exact sayNow_tally _ _ _
  · exact sayOptional_tally r _ _

@[simp] theorem sayFiller_tally (r : Reply b) (filler : Option String) :
    (r.sayFiller filler).tally = r.tally := by
  unfold sayFiller
  split
  · rfl
  · rename_i filler _
    cases rendered : r.engine.renderPlan filler r.renderCtx with
    | mk plan e =>
      have same : e.tally = r.tally := by
        have kept : (r.engine.renderPlan filler r.renderCtx).2.tally = r.tally := rfl
        rw [rendered] at kept
        exact kept
      cases plan with
      | none => exact same
      | some plan => exact same

/-- The end of a run that did not succeed is not the end of the call. -/
theorem afterRun_tally (r : Reply b) (pipeline : PipelineConfig) {outcome : String}
    (other : outcome ≠ "success") : (r.afterRun pipeline outcome).tally = r.tally := by
  unfold afterRun
  rw [if_neg other]
  dsimp only
  split
  · cases pipeline.offer.filter b.hasResponse with
    | none => exact offerMore_tally r
    | some offer => exact sayNow_tally r offer true
  · exact offerMore_tally r

/-- A run recorded as done changes nothing else. -/
theorem recordRun_tally (e : Engine b) (outcome : String) (result : Option Json) :
    (e.recordRun outcome result).tally = e.tally := by
  have phase : (e.state.toLedger.recorded outcome result).phase = e.state.phase := by
    unfold Ledger.recorded
    split
    · rfl
    · rfl
  unfold Engine.tally Engine.recordRun
  dsimp only [Engine.modify_state]
  rw [phase]
  rfl

/-- What moves a run forward keeps the tally. -/
def KeepsTally (f : Reply b → Reply b) : Prop := ∀ r, (f r).tally = r.tally

/-- **A run that did not succeed is over**, and the tally is the same. -/
theorem finishRunWith_tally {resume : Reply b → Reply b} (resumes : KeepsTally resume) (r : Reply b)
    {outcome : String} (other : outcome ≠ "success") (result : Option Json) :
    (finishRunWith resume r outcome result).tally = r.tally := by
  unfold finishRunWith
  split
  · rfl
  · have recorded : (r.mapEngine fun e => e.recordRun outcome result).tally = r.tally :=
      recordRun_tally r.engine outcome result
    dsimp only
    split
    · rw [resumes]
      exact recorded
    · rw [afterRun_tally _ _ other]
      exact recorded

section Advancing

variable [Unicode]

theorem saysAgain_tally (r : Reply b) (slot question : String) (ctx : RenderContext) :
    (r.saysAgain slot question ctx).1.tally = r.tally := by
  unfold saysAgain
  dsimp only
  split
  · rfl
  · rfl

@[simp] theorem acknowledge_tally (r : Reply b) (question : String) :
    (r.acknowledge question).tally = r.tally := by
  unfold acknowledge
  split
  · rfl
  · exact sayOptional_tally r _ _

@[simp] theorem ask_tally (r : Reply b) (slot : String) (acknowledge : Bool) :
    (r.ask slot acknowledge).tally = r.tally := by
  unfold ask
  split
  · rfl
  · rename_i general _
    have again := saysAgain_tally r slot ((r.engine.specificAsk slot).getD general) (r.engine.askCtx slot)
    rw [noteAsked_tally, say_tally]
    cases acknowledge with
    | true => exact (acknowledge_tally _ _).trans again
    | false => exact again

theorem fillDefaults_tally (e : Engine b) (pipeline : PipelineConfig) :
    (e.fillDefaults pipeline).tally = e.tally := by
  have others : e.fillFromOtherTasks.tally = e.tally := by
    unfold Engine.fillFromOtherTasks
    split
    · rfl
    · rfl
  unfold Engine.fillDefaults
  dsimp only
  split
  · exact others
  · exact others

/-- The action, or its failure at once. -/
theorem act_tally {finish : Reply b → String → Option Json → Reply b}
    (finishes : ∀ r outcome result, outcome ≠ "success" → (finish r outcome result).tally = r.tally)
    (r : Reply b) (pipeline : PipelineConfig) (action : String) :
    (act finish r pipeline action).tally = r.tally := by
  unfold act
  dsimp only
  split
  · rw [finishes _ _ _ (by decide), sayFailure_tally]
    rfl
  · unfold send
    rw [push_tally, sayFiller_tally]
    rfl

theorem perform_tally {finish : Reply b → String → Option Json → Reply b}
    (finishes : ∀ r outcome result, outcome ≠ "success" → (finish r outcome result).tally = r.tally)
    (r : Reply b) (pipeline : PipelineConfig) (acknowledge : Bool) (next : NextStep) :
    (perform finish r pipeline acknowledge next).tally = r.tally := by
  cases next with
  | confirmSlot slot spoken => exact confirmSlot_tally r slot spoken
  | askFor slot => exact ask_tally _ slot acknowledge
  | readBack response => exact sayNow_tally _ response true
  | act action => exact act_tally finishes r pipeline action
  | complete =>
    show (finish (r.sayOptional pipeline.onComplete true) "completed" none).tally = r.tally
    rw [finishes _ _ _ (by decide), sayOptional_tally]

theorem advanceOnce_tally {resume : Reply b → Reply b} (resumes : KeepsTally resume) (r : Reply b)
    (acknowledge : Bool) : (advanceOnce resume r acknowledge).tally = r.tally := by
  unfold advanceOnce
  split
  · rfl
  · rename_i run _
    have filled : (r.mapEngine fun e => e.fillDefaults (b.pipelineOf run)).tally = r.tally :=
      fillDefaults_tally r.engine (b.pipelineOf run)
    dsimp only
    split
    · exact filled
    · rw [perform_tally fun r outcome result other => finishRunWith_tally resumes r other result]
      exact filled

theorem advanceTo_tally (fuel : Nat) (r : Reply b) (acknowledge : Bool) :
    (advanceTo fuel r acknowledge).tally = r.tally := by
  induction fuel generalizing r acknowledge with
  | zero => exact advanceOnce_tally (fun _ => rfl) r acknowledge
  | succ fuel ih => exact advanceOnce_tally (fun r => ih r false) r acknowledge

/-- **Moving a task forward keeps the tally.** -/
@[simp] theorem advance_tally (r : Reply b) (acknowledge : Bool) :
    (r.advance acknowledge).tally = r.tally := advanceTo_tally _ r acknowledge

theorem remember_tally (e : Engine b) (speaker : Speaker) (text : String) :
    (e.modify fun s => s.remember speaker text).tally = e.tally := by
  unfold Engine.tally Engine.modify
  dsimp only
  unfold CallState.remember
  split
  · rfl
  · rfl

/-- **A reply ends with the tally it has.** -/
@[simp] theorem finish_tally (r : Reply b) : r.finish.2.tally = r.tally := by
  unfold finish
  dsimp only
  split
  · exact remember_tally r.engine .agent _
  · rfl

end Advancing

end Reply

end Callora
