/-
**Moving a task forward.**

`advance` confirms a doubtful value, asks for the next missing one, reads everything back, or runs the
action; what it does next is the pure decision `nextStep`. `finishRun` records a run and resumes the one
suspended last, which advances in turn. `readBack`, `handoff`, `fallback` and the rules all end in one of
these.
-/
import Callora.Engine.AgentValues

set_option linter.unusedSectionVars false

namespace Callora

open Callora.Text

/-- What `advance` does next. -/
inductive NextStep where
  /-- A value too uncertain to use without asking. -/
  | confirmSlot (slot spoken : String)
  /-- The next missing required value. -/
  | askFor (slot : String)
  /-- The read-back. -/
  | readBack (response : String)
  /-- The business action. -/
  | act (action : String)
  /-- A task without an action is done. -/
  | complete

/-- What a business action receives: the run's slots, the customer and the number. -/
def Ledger.actionInput (l : Ledger) (runId : Nat) : Json :=
  match l.run with
  | none => .obj []
  | some run =>
    .obj [("run_id", .int runId), ("pipeline", .str run.pipeline), ("intent", .str run.intent),
      ("slots", .obj (run.slots.toList.map fun (k, st) => (k, st.value.toActionJson))),
      ("customer", Json.ofOption Customer.toJson l.customer),
      ("caller_phone", Json.ofOption .str l.callerPhone)]

/-- The current run recorded, and gone. -/
def Ledger.recorded (l : Ledger) (outcome : String) (result : Option Json) : Ledger :=
  match l.run with
  | none => l
  | some run => { l with
      run := none
      completed := l.completed ++ [⟨run.serial, run.pipeline, outcome, run.values, result⟩] }

@[simp] theorem Ledger.recorded_suspended (l : Ledger) (outcome : String) (result : Option Json) :
    (l.recorded outcome result).suspended = l.suspended := by
  unfold recorded
  split <;> rfl

@[simp] theorem Ledger.recorded_run (l : Ledger) (outcome : String) (result : Option Json) :
    (l.recorded outcome result).run = none := by
  unfold recorded
  split
  · assumption
  · rfl

namespace Engine

variable {b : Business}

section Decisions

/-- A slot whose value is below its `confirm_below` and was not agreed to. -/
def doubtfulSlot (b : Business) (pipeline : PipelineConfig) (run : PipelineRun) :
    Option (String × String) :=
  pipeline.slots.findSome? fun ps => do
    let st ← run.slots[ps.slot]?
    let cfg ← b.slotConfig ps.slot
    if !st.confirmed && st.confidence < cfg.confirmBelow then some (ps.slot, st.value.spoken) else none

/-- A required slot without a value. -/
def missingSlot (pipeline : PipelineConfig) (run : PipelineRun) : Option String :=
  (pipeline.slots.find? fun ps => ps.required && !run.holds ps.slot).map PipelineSlot.slot

/-- A value of the run too uncertain for its action. -/
def belowAction (b : Business) (action : String) (run : PipelineRun) : Option (String × String) := do
  let cfg ← b.action action
  let (slot, st) ← run.slots.toList.find? fun (_, st) => !st.confirmed &&
    st.confidence < cfg.minConfidence
  some (slot, st.value.spoken)

/-- What a run with its defaults filled does next. -/
def nextStep (b : Business) (pipeline : PipelineConfig) (run : PipelineRun) : NextStep :=
  match doubtfulSlot b pipeline run with
  | some (slot, spoken) => .confirmSlot slot spoken
  | none =>
    match missingSlot pipeline run with
    | some slot => .askFor slot
    | none =>
      match pipeline.confirm.filter fun _ => !run.confirmed with
      | some confirm => .readBack confirm.response
      | none =>
        match pipeline.action with
        | none => .complete
        | some action =>
          match belowAction b action run with
          | some (slot, spoken) => .confirmSlot slot spoken
          | none => .act action

/-- `rule_hit`: the rule's task, not fired yet, its condition met. -/
def ruleHit (e : Engine b) (rule : RuleConfig) : Bool :=
  match e.state.run with
  | none => false
  | some run =>
    if rule.pipeline.any (fun p => p != run.pipeline) || run.firedRules.contains rule.id then false
    else
      let value := run.slots[rule.when.slot]?.map SlotState.value
      match rule.when.test with
      | .gt x => (value.bind SlotValue.asF64).any fun v => decide (x < v)
      | .lt x => (value.bind SlotValue.asF64).any fun v => decide (v < x)
      | .eq x => value.any fun v => v.matchesJson x
      | .present p => value.isSome == p

/-- A rule that takes the turn over when it applies. -/
def takesOver (rule : RuleConfig) : Bool :=
  match rule.effect with
  | .set _ _ => false
  | _ => true

/-- `rule_takes_over`. -/
def ruleTakesOver (e : Engine b) : Bool := b.config.rules.any fun r => takesOver r && e.ruleHit r

end Decisions

section Requests

/-- `action_input`: what a business action receives. -/
def actionInput (e : Engine b) (runId : Nat) : Json := e.state.toLedger.actionInput runId

/-- `failed_key`: an action and what it was asked, without its run id. -/
def failedKey (action : String) (input : Json) : String :=
  action ++ " " ++ ((input.get "slots").getD input).toText

/-- `summary`: what a person taking the call is told. -/
def summary (e : Engine b) (reason : String) : HandoffSummary :=
  let run := e.state.run.or e.state.suspended.getLast?
  let slots := match run with
    | none => []
    | some run => (b.pipelineOf run).slots.filterMap fun ps => do
      let st ← run.slots[ps.slot]?
      let cfg ← b.slotConfig ps.slot
      some (cfg.description, st.value.spoken)
  let intent := run.map PipelineRun.intent
  let request := (intent.bind b.intent).map IntentConfig.description
  let customerName := e.state.customer.bind Customer.name
  let named := match customerName with | some name => " הלקוח: " ++ name ++ "." | none => ""
  let requested := match request with | some d => " בקשה: " ++ d ++ "." | none => ""
  let listed := join "" (slots.map fun (label, value) => " " ++ label ++ ": " ++ value ++ ".")
  { reason := reason
    businessId := b.config.id
    intent := intent
    pipeline := run.map PipelineRun.pipeline
    slots := slots
    customerName := customerName
    recent := e.state.history.drop (e.state.history.length - 6)
    text := "שיחה מועברת מ" ++ b.config.name ++ "." ++ named ++ requested ++ listed }

end Requests

/-- The current run's step changed. -/
def setStep (e : Engine b) (step : Step) : Engine b := e.mapRun fun run => { run with step := step }

/-- The current run recorded as done, and gone. -/
def recordRun (e : Engine b) (outcome : String) (result : Option Json) : Engine b :=
  e.modify fun s => { s with toLedger := s.toLedger.recorded outcome result }

/-- The run suspended last is the current one again. -/
def resumeRun (e : Engine b) (resumed : PipelineRun) : Engine b :=
  e.modify fun s => { s with run := some resumed, suspended := s.suspended.dropLast }

end Engine

namespace Reply

variable {b : Business}

/-- The engine of the reply changed. -/
def mapEngine (r : Reply b) (f : Engine b → Engine b) : Reply b := { r with engine := f r.engine }

/-- A value, as it is read back alone. -/
def confirmSlot (r : Reply b) (slot spoken : String) : Reply b :=
  let r := r.mapEngine fun e => e.setStep (.confirmingSlot slot)
  r.say b.config.confirmSlot (r.renderCtx.insert "value" spoken) true

/-- `goodbye`: the business's goodbye, and the end of the call. -/
def goodbye (r : Reply b) : Reply b :=
  let response := ((b.metaOf .goodbye).bind CompiledMeta.response).getD b.config.goodbye
  ((r.sayNow response true).modify fun s => { s with phase := .ending }).push .hangup

/-- `offer_more`. -/
def offerMore (r : Reply b) : Reply b :=
  (r.sayNow b.config.anythingElse true).mapEngine fun e => { e with offeredMore := true }

/-- What is said once a run is over and none is resumed. -/
def afterRun (r : Reply b) (pipeline : PipelineConfig) (outcome : String) : Reply b :=
  let offer := pipeline.offer.filter b.hasResponse
  if pipeline.after = .continue then
    match offer with
    | some offer => (r.sayNow offer true).mapEngine fun e => { e with offeredMore := true }
    | none => r.offerMore
  else if outcome = "success" then r.goodbye
  else r.offerMore

/-- `finish_run`: the run recorded; the one suspended last resumes, and `resume` moves it forward. -/
def finishRunWith (resume : Reply b → Reply b) (r : Reply b) (outcome : String) (result : Option Json) :
    Reply b :=
  match r.engine.state.run with
  | none => r
  | some run =>
    let r := r.mapEngine fun e => e.recordRun outcome result
    match r.engine.state.suspended.getLast? with
    | some resumed => resume (r.mapEngine fun e => e.resumeRun resumed)
    | none => r.afterRun (b.pipelineOf run) outcome

/-- The action's filler covers its wait, unless the turn already said something. -/
def sayFiller (r : Reply b) (filler : Option String) : Reply b :=
  match filler.filter fun _ => !r.out.hasSpeech with
  | none => r
  | some filler =>
    let (plan, e) := r.engine.renderPlan filler r.renderCtx
    match plan with
    | some plan => { engine := e, out := (r.out.speak plan false).flush true }
    | none => { r with engine := e }

/-- The pipeline's `on_failure`, said for the current run. -/
def sayFailure (r : Reply b) (pipeline : PipelineConfig) : Reply b :=
  match pipeline.onFailure, r.engine.state.run with
  | some response, some run =>
    (r.modify fun s => { s with failuresSaid := s.failuresSaid ++ [run.serial] }).sayNow response true
  | response, _ => r.sayOptional response true

/-- The request of a run, with a new run id. -/
def send (r : Reply b) (pipeline : PipelineConfig) (action : String) (runId : Nat) (input : Json) :
    Reply b :=
  let r := r.mapEngine fun e => e.mapRun fun run =>
    { run with step := .executing runId, attempts := 1 }
  (r.sayFiller pipeline.filler).push (.runAction runId action input)

variable [Unicode]

/-- The business action: its failure at once if the same question already failed in this call, its
request otherwise. -/
def act (finish : Reply b → String → Option Json → Reply b) (r : Reply b) (pipeline : PipelineConfig)
    (action : String) : Reply b :=
  let runId := r.engine.state.nextActionRun
  let r := r.modify fun s => { s with nextActionRun := s.nextActionRun + 1 }
  let input := r.engine.actionInput runId
  let changes := (b.action action).any ActionConfig.requiresConfirmation
  if !changes && r.engine.state.failedActions.contains (Engine.failedKey action input) then
    finish (r.sayFailure pipeline) "failed"
      (some (.obj [("error", .str "failed before in this call")]))
  else r.send pipeline action runId input

/-- What `advance` does with a run whose defaults are filled. -/
def perform (finish : Reply b → String → Option Json → Reply b) (r : Reply b)
    (pipeline : PipelineConfig) (acknowledge : Bool) : NextStep → Reply b
  | .confirmSlot slot spoken => r.confirmSlot slot spoken
  | .askFor slot =>
    (r.mapEngine fun e => e.setStep (.collecting (some slot))).ask slot acknowledge
  | .readBack response =>
    (r.mapEngine fun e => e.setStep .awaitingConfirmation).sayNow response true
  | .act action => r.act finish pipeline action
  | .complete => finish (r.sayOptional pipeline.onComplete true) "completed" none

/-- One run of `advance`; `resume` moves the run forward that is resumed when this one is over. -/
def advanceOnce (resume : Reply b → Reply b) (r : Reply b) (acknowledge : Bool) : Reply b :=
  match r.engine.state.run with
  | none => r
  | some run =>
    let pipeline := b.pipelineOf run
    let r := r.mapEngine fun e => e.fillDefaults pipeline
    match r.engine.state.run with
    | none => r
    | some run =>
      r.perform (finishRunWith resume) pipeline acknowledge (Engine.nextStep b pipeline run)

/-- `advance`, with at most `fuel` runs resumed on the way. -/
def advanceTo : Nat → Reply b → Bool → Reply b
  | 0, r, acknowledge => advanceOnce id r acknowledge
  | fuel + 1, r, acknowledge => advanceOnce (fun r => advanceTo fuel r false) r acknowledge

/-- **`advance`**: every run resumed on the way was suspended before. -/
def advance (r : Reply b) (acknowledge : Bool) : Reply b :=
  advanceTo r.engine.state.suspended.length r acknowledge

/-- **`finish_run`**. -/
def finishRun (r : Reply b) (outcome : String) (result : Option Json) : Reply b :=
  finishRunWith (fun r => r.advance false) r outcome result

/-- The response a read-back is said with: with the name, when the run holds it. -/
def readBackResponse (pipeline : PipelineConfig) (run : Option PipelineRun) (confirm : ConfirmConfig) :
    String :=
  let named := run.any fun r => pipeline.slots.any fun ps =>
    ps.fromCustomer == some "name" && r.holds ps.slot
  let withName := confirm.response ++ "_with_name"
  if named && b.hasResponse withName then withName else confirm.response

/-- **`read_back`**: the task read back for a yes or no, or the question for what is missing. -/
def readBack (r : Reply b) (askIfMissing : Bool) : Reply b :=
  match r.engine.state.run with
  | none => r
  | some run =>
    let pipeline := b.pipelineOf run
    let r := r.mapEngine fun e => e.fillDefaults pipeline
    match r.engine.state.run with
    | none => r
    | some run =>
      match Engine.missingSlot pipeline run, pipeline.confirm with
      | some slot, _ => if askIfMissing then r.ask slot false else r
      | none, some confirm =>
        let r := r.mapEngine fun e => e.mapRun fun run =>
          { run with step := .awaitingConfirmation, confirmed := false }
        r.sayNow (readBackResponse (b := b) pipeline r.engine.state.run confirm) true
      | none, none => r.advance false

/-- The slot the task asks for next, in its order. -/
def nextAsked (e : Engine b) (pipeline : PipelineConfig) (run : PipelineRun) : Option PipelineSlot :=
  pipeline.slots.find? fun ps =>
    !run.holds ps.slot && ps.default.isNone && (ps.required || ps.ask.isSome) &&
      !(ps.askBeforeConfirm && e.state.askedBeforeConfirm.contains ps.slot) &&
      !(pipeline.strictOrder && !ps.required && e.state.askedSlots.contains ps.slot)

/-- **`next_question`**: the task's next question, or the read-back when nothing is left to ask. -/
def nextQuestion (r : Reply b) : Reply b :=
  match r.engine.state.run with
  | none => r
  | some run =>
    let pipeline := b.pipelineOf run
    let r := r.mapEngine fun e => e.fillDefaults pipeline
    match r.engine.state.run with
    | none => r
    | some run =>
      match nextAsked r.engine pipeline run with
      | some ps =>
        let r := if ps.askBeforeConfirm then
            r.modify fun s => { s with askedBeforeConfirm := s.askedBeforeConfirm.insert ps.slot }
          else r
        r.ask ps.slot true
      | none => r.readBack true

/-- **`handoff`**: to the desk; with none, the call starts over, ends, or goes on. -/
def handoff (r : Reply b) (reason : String) : Reply b :=
  let handoff := b.config.handoff
  if r.engine.hasDesk then
    let r := (r.sayNow handoff.response true).modify fun s => { s with phase := .handingOff }
    r.push (.handoff (r.engine.summary reason))
  else
    match b.config.fallback.restart.filter fun _ =>
        reason == "not_understood" && r.engine.state.fallbackRestarts == 0 with
    | some restart =>
      (r.modify fun s => { s with fallbackRestarts := s.fallbackRestarts + 1, fallbackLevel := 0 }).sayNow
        restart true
    | none =>
      let r := r.sayNow handoff.unavailableResponse true
      if reason == "not_understood" || reason == "action_failed" then
        (r.modify fun s => { s with phase := .ending }).push .hangup
      else if r.engine.state.run.isSome then r.advance false
      else r

/-- **`fallback`**: the ladder of an utterance that was not understood. -/
def fallback (r : Reply b) : Reply b :=
  let r := r.modify fun s => { s with fallbackLevel := s.fallbackLevel + 1 }
  let ladder := b.config.fallback.ladder
  let level := r.engine.state.fallbackLevel
  if ladder.length < level then r.handoff "not_understood"
  else if r.engine.state.run.any fun run => !run.step.isExecuting then
    (r.sayNow (ladder.headD "") false).advance false
  else r.sayNow (ladder.getD (level - 1) "") true

/-- The effect of a rule that hits; whether it took the turn over. -/
def applyRule (r : Reply b) (rule : RuleConfig) : Reply b × Bool :=
  let r := r.mapEngine fun e => e.mapRun fun run => { run with firedRules := run.firedRules ++ [rule.id] }
  match rule.effect with
  | .reject response =>
    let slot := rule.when.slot
    let r := r.mapEngine fun e => e.mapRun fun run =>
      { run.clear slot with step := .collecting (some slot) }
    ((r.sayNow response true).ask slot false, true)
  | .handoff response reason => ((r.sayOptional response true).handoff ("rule:" ++ reason), true)
  | .set slot value =>
    match defaultValue b slot value with
    | some v => (r.mapEngine fun e => e.mapRun fun run => run.set slot ⟨v, 1, .rule, true⟩, false)
    | none => (r, false)

/-- The rules, in their order, until one takes the turn over. -/
def applyRulesFrom : List RuleConfig → Reply b → Reply b × Bool
  | [], r => (r, false)
  | rule :: rules, r =>
    if r.engine.ruleHit rule then
      match r.applyRule rule with
      | (r, true) => (r, true)
      | (r, false) => applyRulesFrom rules r
    else applyRulesFrom rules r

/-- **`apply_rules`**: the business rules; whether one took the turn over. -/
def applyRules (r : Reply b) : Reply b × Bool := applyRulesFrom b.config.rules r

end Reply

end Callora
