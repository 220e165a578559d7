/-
**The operations of an engine, and a call as a sequence of them.**

The rest of what the runtime calls: the greeting, silences and noise, a result of an action
(`onActionResult`), the settings of the call, and the probe of the values the agent streams
(`rejectsAny`). `Op` names one operation with its arguments and `apply` carries it out; a call is a
sequence of operations from a new engine, with the directives of each.
-/
import Callora.Engine.AgentTurns

set_option linter.unusedSectionVars false

namespace Callora

open Callora.Text

namespace Reply

variable {b : Business} [Unicode]

section Results

/-- A result that names its own response, or the pipeline's. -/
def successResponse (b : Business) (pipeline : PipelineConfig) (value : Json) : Option String :=
  (((value.get "response").bind Json.asStr).filter b.hasResponse).or pipeline.onSuccess

/-- What is said of a value an action returned. -/
def saySuccess (r : Reply b) (pipeline : PipelineConfig) (value : Json) : Reply b :=
  match successResponse b pipeline value with
  | some response => r.say response { r.renderCtx with result := some value } true
  | none => r

/-- The action returned a value: it is said, and the run is done. -/
def succeeded (r : Reply b) (pipeline : PipelineConfig) (value : Json) : Reply b :=
  (r.saySuccess pipeline value).finishRun "success" (some value)

/-- The attempts used up with the outcome unknown: a person checks, or the run is closed so. -/
def outcomeUnknown (r : Reply b) (pipeline : PipelineConfig) (runId : Nat) (error : String) : Reply b :=
  let result := Json.obj [("error", .str error), ("outcome_unknown", .bool true), ("run_id", .int runId)]
  if r.engine.hasDesk then
    ((r.sayOptional pipeline.onUnknown true).handoff "action_outcome_unknown").mapEngine fun e =>
      e.recordRun "unknown" (some result)
  else r.finishRun "unknown" (some result)

/-- A failure is counted, or remembered when the action changes nothing. -/
def countFailure (e : Engine b) (action : String) (runId : Nat) : Engine b :=
  if (b.action action).any ActionConfig.requiresConfirmation then
    e.modify fun s => { s with actionFailures := s.actionFailures + 1 }
  else
    let key := Engine.failedKey action (e.actionInput runId)
    e.modify fun s => { s with failedActions :=
      if s.failedActions.contains key then s.failedActions else s.failedActions ++ [key] }

/-- The attempts used up with a known failure. -/
def failed (r : Reply b) (pipeline : PipelineConfig) (action : String) (runId : Nat) (error : String) :
    Reply b :=
  let r := (r.mapEngine fun e => countFailure e action runId).sayFailure pipeline
  if b.config.handoff.afterActionFailures ≤ r.engine.state.actionFailures then r.handoff "action_failed"
  else r.finishRun "failed" (some (.obj [("error", .str error)]))

/-- Another attempt, with the same run id. -/
def retry (r : Reply b) (action : String) (runId : Nat) : Reply b :=
  let input := r.engine.actionInput runId
  (r.mapEngine fun e => e.mapRun fun run => { run with attempts := run.attempts + 1 }).push
    (.runAction runId action input)

/-- How many attempts a pipeline's action has. -/
def maxAttempts (b : Business) (pipeline : PipelineConfig) : Nat :=
  match b.action (pipeline.action.getD "") with
  | some a => a.maxAttempts
  | none => 1

/-- **`on_action_result`**: the result of a request. -/
def onActionResult (e : Engine b) (runId : Nat) (result : Except ActionFailure Json) :
    List Directive × Engine b :=
  match e.state.run with
  | none => ([], e)
  | some run =>
    if run.step ≠ .executing runId then ([], e)
    else
      let pipeline := b.pipelineOf run
      let action := pipeline.action.getD ""
      match result with
      | .ok value => ((begin e).succeeded pipeline value).finish
      | .error failure =>
        if run.attempts < maxAttempts b pipeline then ((begin e).retry action runId).finish
        else if failure.outcomeUnknown then
          ((begin e).outcomeUnknown pipeline runId failure.error).finish
        else ((begin e).failed pipeline action runId failure.error).finish

end Results

section Quiet

/-- The greetings to try, the most particular first. -/
def greetings (e : Engine b) : List String :=
  let known := e.state.customer.any fun c => c.name.isSome
  let returning := e.state.customer.any fun c => c.data.any fun (k, _) => k == "last_to_city"
  let lookup := b.config.customerLookup
  ((lookup.bind CustomerLookupConfig.returningGreeting).filter fun _ => returning).toList ++
    ((lookup.bind CustomerLookupConfig.knownGreeting).filter fun _ => known).toList ++
    [b.config.greeting]

/-- The context of a greeting: the customer's name, and the record's own values. -/
def greetingCtx (e : Engine b) : RenderContext :=
  match e.state.customer with
  | none => .empty
  | some c =>
    let ctx := match c.name with
      | some name => RenderContext.empty.insert "customer_name" name
      | none => .empty
    c.data.foldl (fun ctx (k, v) =>
      match v.asStr.or (v.asI64.map toString) with
      | some value => if ctx.extra.contains k then ctx else ctx.insert k value
      | none => ctx) ctx

/-- The first of the greetings that can be said. -/
def greet (ctx : RenderContext) : List String → Reply b → Reply b
  | [], r => r
  | greeting :: rest, r =>
    let (plan, e) := r.engine.renderPlan greeting ctx
    match plan with
    | some plan => ({ r with engine := e } : Reply b).speak plan true
    | none => greet ctx rest { r with engine := e }

/-- `start`: the greeting. -/
def start (e : Engine b) : List Directive × Engine b :=
  (greet (greetingCtx e) (greetings e) (begin e)).finish

/-- `replay_last`: the last reply again. -/
def replayLast (e : Engine b) : List Directive × Engine b :=
  match e.state.lastPlan.filter fun _ => e.state.phase = .active with
  | some last => ((begin e).speak last true).finish
  | none => (begin e).finish

/-- The call is over, or a run waits for its action. -/
def isBusy (e : Engine b) : Bool :=
  e.state.phase != .active || e.state.run.any fun r => r.step.isExecuting

/-- `on_noise`: noise on the line; what was cut off again, or the question. -/
def onNoise (e : Engine b) (interrupted : Bool) : List Directive × Engine b :=
  if isBusy e then ([], e)
  else
    let apologize := e.state.noiseApologyTurn != some e.state.turns && b.hasResponse "noisy_line"
    let apologized (e : Engine b) : Engine b :=
      e.modify fun s => { s with noiseApologyTurn := some s.turns }
    match if interrupted then e.state.lastPlan else e.lastQuestion with
    | some plan =>
      if !interrupted && !apologize then ([], e)
      else
        let r := if apologize then (begin (apologized e)).sayNow "noisy_line" false else begin e
        (r.speak plan false).finish
    | none =>
      if !interrupted && apologize then
        ((begin (apologized e)).sayOptional b.config.fallback.ladder.head? false).finish
      else ([], e)

/-- `on_unheard`: something was said that could not be made out. -/
def onUnheard (e : Engine b) : List Directive × Engine b :=
  if e.state.run.isNone then ([], e) else onNoise e false

/-- `on_hello`: "hello?" while the caller waits. -/
def onHello (e : Engine b) : List Directive × Engine b :=
  if isBusy e || !b.hasResponse "i_hear_you" then onNoise e false
  else
    let r := (begin e).sayNow "i_hear_you" false
    match r.engine.lastQuestion with
    | some q => (r.speak q false).finish
    | none => r.finish

/-- What was said last, as a reprompt says it: its question alone, without the apology for noise. -/
def reprompt (e : Engine b) : Option SpeechPlan :=
  e.state.lastPlan.map fun p =>
    let apologies := match b.response "noisy_line" with
      | some r => r.variants.map normalize
      | none => []
    let said := p.segments.filter fun s => !apologies.contains (normalize s.text)
    { p with segments := (said.reverse.find? fun s => endsWithChar s.text '?').toList }

/-- How many more reprompts a caller gets in the middle of a task. -/
def patience (e : Engine b) : Nat :=
  let inTask := e.state.run.any fun r => !r.slots.isEmpty
  if inTask && b.config.silence.patientResponse.isSome then b.config.silence.patientReprompts else 0

/-- A sum of two `u32`: a release build wraps it around. -/
def addU32 (m n : Nat) : Nat := (m + n) % 2 ^ 32

/-- The reprompt of a silence, once it counts. -/
def afterSilence (e : Engine b) : List Directive × Engine b :=
  let silence := b.config.silence
  let r := begin e
  if addU32 silence.maxReprompts (patience e) < e.state.silenceReprompts then r.goodbye.finish
  else
    match silence.patientResponse.filter fun _ => silence.maxReprompts < e.state.silenceReprompts with
    | some response => (r.sayNow response false).finish
    | none =>
      let r := r.sayOptional silence.response false
      match (reprompt e).filter fun p => !p.isEmpty with
      | some last => (r.speak last false).finish
      | none => r.finish

/-- `on_silence`: the caller said nothing for the configured silence. -/
def onSilence (e : Engine b) : List Directive × Engine b :=
  if isBusy e then ([], e)
  else
    let e := e.modify fun s => { s with waiting := false }
    if e.offeredMore && e.state.run.isNone &&
        (e.state.completed.getLast?).any fun c => c.outcome == "success" then (begin e).goodbye.finish
    else afterSilence (e.modify fun s => { s with silenceReprompts := addU32 s.silenceReprompts 1 })

end Quiet

section Answers

/-- The optional slot just asked for. -/
def optionalAsked (e : Engine b) : Option String := do
  let run ← e.state.run
  if e.state.phase ≠ .active ∨ !run.step.isCollecting then none
  else
    let ps ← (b.pipelineOf run).slots.find? fun ps =>
      ps.askBeforeConfirm && e.state.lastAsks.contains ps.slot && !run.holds ps.slot
    some ps.slot

/-- Words that only say no, to a question that can be answered so. -/
def onlySaysNo (b : Business) (text : String) : Bool :=
  let norm := normalize text
  (b.deny.found norm || b.nothing.found norm) &&
    trim (b.fillers.strip (b.nothing.strip (b.deny.strip norm))) == ""

/-- `on_no_to_optional`: a no to the optional question; the details are read back. Nothing is done
with other words. -/
def onNoToOptional (e : Engine b) (text : String) : List Directive × Engine b :=
  match (optionalAsked e).filter fun _ => onlySaysNo b text with
  | none => ([], e)
  | some slot =>
    let e := e.modify fun s => { ({ s with turns := s.turns + 1, silenceReprompts := 0 } :
      CallState).remember .caller text with
        askedBeforeConfirm := (s.askedBeforeConfirm.insert slot)
        lastAsks := [] }
    ((begin e).readBack true).finish

/-- `on_closing`: thanks to "anything else?"; the call ends with the goodbye. Nothing is done with
other words. -/
def onClosing (e : Engine b) (text : String) : List Directive × Engine b :=
  let norm := normalize text
  if e.state.phase ≠ .active ∨ !e.offeredMore ∨ !e.onlyFillers text ∨ e.isHello text ∨
      (tokens norm).all isHesitation then ([], e)
  else
    let e := { e with offeredMore := false }.modify fun s =>
      ({ s with turns := s.turns + 1 } : CallState).remember .caller text
    (begin e).goodbye.finish

end Answers

section Settings

/-- `hint_towns`: notes to the agent of words that sound like a town. -/
def hintTowns (e : Engine b) (transcript : String) : Engine b :=
  match e.gazetteer with
  | none => e
  | some g =>
    let known := (b.sttKeyterms.map fun t => split (· == ' ') (normalize t)).flatten
    let add (notes : List String) (note : String) :=
      if notes.contains note then notes else notes ++ [note]
    let area (notes : List String) := (g.areaTownsHeard transcript b.config.serviceArea).foldl
      (fun notes (heard, town) => add notes (quoted heard ++ " is no place, but sounds like " ++ town ++
        ", a town this business serves: it is " ++ town ++ ", unless the caller says otherwise")) notes
    let sounding (notes : List String) := (g.townsSoundingLike transcript).foldl
      (fun notes (heard, town) =>
        if known.contains (normalize heard) || notes.any fun n => startsWith n (quoted heard) then notes
        else add notes (quoted heard ++ " is no place, but sounds like " ++ town ++
          " (the same consonants): if that fits, it is " ++ town)) notes
    e.modify fun s => { s with agentNotes := sounding (area s.agentNotes) }

/-- `rejects_any`: whether any of these values would be rejected, or a rule take the turn over, tried
on a copy of the call. -/
def rejectsAny (e : Engine b) (transcript : String) (fields : Fields) : Bool :=
  let probe := e.modify fun s => s.remember .caller transcript
  let (probe, agents) := probe.throughReaders transcript fields
  let fields := probe.withSameCity transcript agents
  let (probe', _, rejected) := probe.applyAgentFields fields
  if fields ≠ agents then
    true
  else
    !rejected.isEmpty || probe'.ruleTakesOver || (e.loneCityEitherWay transcript fields).isSome

end Settings

end Reply

/-- One operation of the runtime on the engine, with its arguments. -/
inductive Op where
  | start
  | utterance (u : Understanding)
  | agentTurn (transcript : String) (turn : AgentTurn) (spoken : String)
  | noToOptional (text : String)
  | closing (text : String)
  | silence
  | noise (interrupted : Bool)
  | unheard
  | hello
  | replayLast
  | forceHandoff (reason : String)
  | actionResult (runId : Nat) (result : Except ActionFailure Json)
  | setCustomer (customer : Option Customer)
  | setCallerPhone (phone : Option String)
  | setDesk (available : Bool)
  | setGazetteer (gazetteer : Option Gazetteer)
  | hintTowns (transcript : String)
  | renderResponse (id : String)
  | renderPhrase (id : String)
  /-- The second transcript of the turn's words, as the runtime leaves it in the state. -/
  | hearAgain (second : Option String)
  /-- Words of the agent that were played, as the runtime has them remembered. -/
  | remember (text : String)

namespace Op

variable {b : Business} [Unicode]

/-- **An operation, carried out**: its directives, and the engine after it. -/
def apply (e : Engine b) : Op → List Directive × Engine b
  | start => Reply.start e
  | utterance u => Reply.onUtterance e u
  | agentTurn transcript turn spoken => Reply.onAgentTurn e transcript turn spoken
  | noToOptional text => Reply.onNoToOptional e text
  | closing text => Reply.onClosing e text
  | silence => Reply.onSilence e
  | noise interrupted => Reply.onNoise e interrupted
  | unheard => Reply.onUnheard e
  | hello => Reply.onHello e
  | replayLast => Reply.replayLast e
  | forceHandoff reason => Reply.forceHandoff e reason
  | actionResult runId result => Reply.onActionResult e runId result
  | setCustomer customer => ([], e.modify fun s => { s with customer := customer })
  | setCallerPhone phone =>
    ([], e.modify fun s => { s with callerPhone := phone.filter fun p => trim p ≠ "" })
  | setDesk available => ([], { e with desk := some available })
  | setGazetteer gazetteer => ([], { e with gazetteer := gazetteer })
  | hintTowns transcript => ([], Reply.hintTowns e transcript)
  | renderResponse id => ([], (e.renderResponse id).2)
  | renderPhrase id => ([], (e.renderPhrase id).2)
  | hearAgain second => ([], e.modify fun s => { s with secondHearing := second })
  | remember text => ([], e.modify fun s => s.remember .agent text)

end Op

end Callora
