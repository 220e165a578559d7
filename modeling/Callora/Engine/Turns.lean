/-
**The caller's turns.**

`onUtterance` answers an utterance the rules (or the language model) understood; `onAgentTurn` carries out
a decision of the language agent. Both are cut where the source moves from one concern to the next: the
value or the details being read back, the intent, the values, and what the turn does.
-/
import Callora.Engine.Flow

set_option linter.unusedSectionVars false

namespace Callora

open Callora.Text

namespace Reply

variable {b : Business} [Unicode]

section Abuse

/-- `on_abuse`: a curse; nothing in the words is taken. -/
def onAbuse (e : Engine b) : List Directive × Engine b :=
  let r := (begin e).modify fun s => { s with abuseStrikes := s.abuseStrikes + 1 }
  if 2 ≤ r.engine.state.abuseStrikes ∧ b.hasResponse "abuse_goodbye" then
    (((r.sayNow "abuse_goodbye" true).modify fun s => { s with phase := .ending }).push .hangup).finish
  else
    let r := if b.hasResponse "abuse_warning" then r.sayNow "abuse_warning" false else r
    match r.engine.lastQuestion with
    | some plan => (r.speak plan false).finish
    | none => r.finish

end Abuse

section Metas

/-- The last thing said, or the greeting. -/
def lastOrGreeting (r : Reply b) : Reply b × SpeechPlan :=
  match r.engine.state.lastPlan with
  | some p => (r, p)
  | none =>
    let (plan, e) := r.engine.renderPlan b.config.greeting r.renderCtx
    ({ r with engine := e }, plan.getD .empty)

/-- The last thing said once more, slower or louder if asked. -/
def repeatLast (r : Reply b) (m : MetaIntent) (response : Option String) : Reply b :=
  let hasSlow := b.hasDelivery "slow"
  let r := r.modify fun s => { s with
    delivery := if m = .speakSlower ∧ hasSlow then some "slow" else s.delivery
    gainDb := if m = .speakLouder then min (s.gainDb + 4) 8 else s.gainDb }
  let r := r.sayOptional response false
  let (r, last) := r.lastOrGreeting
  let slower : Bool := (m = .didNotUnderstand ∨ m = .speakSlower) ∧ hasSlow
  let delivery := if slower then some "slow" else r.engine.state.delivery
  let segments := last.segments.map fun seg => { seg with delivery := delivery.getD seg.delivery }
  r.speak ⟨segments, r.engine.state.gainDb⟩ true

/-- The current task cancelled, and those suspended forgotten. -/
def cancelFlow (r : Reply b) (response : Option String) : Reply b :=
  let r := r.mapEngine fun e => e.recordRun "cancelled" none
  let r := r.modify fun s => { s with suspended := [] }
  (r.sayOptional response true).mapEngine fun e => { e with offeredMore := true }

/-- The last change of the task undone, and its slot asked for again. -/
def goBack (r : Reply b) (response : Option String) : Reply b :=
  match r.engine.state.run.bind PipelineRun.undo with
  | some (run, slot) =>
    let r := r.mapEngine fun e => e.setRun { run with step := .collecting (some slot) }
    (r.sayOptional response false).ask slot false
  | none =>
    match r.engine.state.lastPlan with
    | some last => r.speak last true
    | none => r

/-- **`meta`**: an intent about the conversation itself. -/
def onMeta (r : Reply b) (m : MetaIntent) : Reply b :=
  let response := (b.metaOf m).bind CompiledMeta.response
  match m with
  | .repeatLast | .didNotUnderstand | .speakSlower | .speakLouder => r.repeatLast m response
  | .cancelCurrentFlow => r.cancelFlow response
  | .goBack => r.goBack response
  | .transferHuman => r.handoff "caller_requested"
  | .goodbye => r.goodbye
  | .wait => (r.sayOptional response false).modify fun s => { s with waiting := true }

end Metas

section Understood

/-- The fallback ladder starts again. -/
def resetFallback (r : Reply b) : Reply b := r.modify fun s => { s with fallbackLevel := 0 }

/-- The answer to a single value being read back; `none` when the turn goes on. -/
def answerSlot (r : Reply b) (slot : String) (u : Understanding) : Option (Reply b) :=
  match u.slot slot, u.affirm with
  | none, some true =>
    some ((r.mapEngine fun e => e.mapRun fun run =>
      { run with
        slots := run.slots.modify slot fun st => { st with confirmed := true, provenance := .confirmed }
        step := .collecting none }).resetFallback.advance false)
  | none, some false =>
    some ((r.mapEngine fun e => e.mapRun fun run =>
      { run.clear slot with step := .collecting (some slot) }).resetFallback.ask slot false)
  | none, none => none
  -- Another doubtful value instead of yes or no is usually a correction misheard.
  | some fill, _ =>
    if (b.slotConfig slot).any fun cfg => decide (fill.confidence < cfg.confirmBelow) then
      some ((r.mapEngine fun e => e.mapRun fun run =>
        { run.clear slot with step := .collecting (some slot) }).fallback)
    else none

/-- The answer to the full read-back; `none` when the turn goes on. -/
def answerReadBack (r : Reply b) (run : PipelineRun) (u : Understanding) : Option (Reply b) :=
  let pipeline := b.pipelineOf run
  if u.slots.any fun s => pipeline.has s.slot then none
  else match u.affirm with
    | some true =>
      some ((r.mapEngine fun e => e.mapRun fun run =>
        { run with
          confirmed := true
          slots := run.slots.map fun _ st => { st with confirmed := true } }).resetFallback.advance false)
    | some false =>
      let r := r.resetFallback.sayOptional (pipeline.confirm.map ConfirmConfig.askChange) true
      if pipeline.slots.isEmpty then some (r.finishRun "declined" none)
      else some (r.mapEngine fun e => e.setStep (.collecting none))
    | none => none

/-- The answer to whatever is being read back. -/
def answered (r : Reply b) (u : Understanding) : Option (Reply b) :=
  match r.engine.state.run with
  | none => none
  | some run =>
    match run.step with
    | .confirmingSlot slot => r.answerSlot slot u
    | .awaitingConfirmation => r.answerReadBack run u
    | _ => none

/-- An intent that replaces the current one: there is none, or another with enough certainty. -/
def switches (run : Option PipelineRun) (intent : IntentConfig) (confidence : F32) : Bool :=
  let threshold := if intent.respond.isSome then min intent.switchConfidence 0.6
    else intent.switchConfidence
  match run with
  | none => true
  | some run => run.intent != intent.id && decide (threshold ≤ confidence)

/-- What an utterance's intent is about, beside the current run. -/
inductive IntentStep where
  /-- Nothing new: the turn goes on with the current run. -/
  | stays
  /-- An intent the business does not have. -/
  | unknown
  | handoff (intent : String)
  | respond (response : String)
  | start (pipeline intent : String)
  deriving DecidableEq

/-- What an utterance's intent is about. -/
def intentStep (b : Business) (run : Option PipelineRun) (u : Understanding) : IntentStep :=
  match u.intent with
  | none => .stays
  | some guess =>
    match b.intent guess.id with
    | none => .unknown
    | some intent =>
      if switches run intent guess.confidence then
        if intent.handoff then .handoff intent.id
        else match intent.respond, intent.pipeline with
          | some response, _ => .respond response
          | none, some pipeline => .start pipeline intent.id
          | none, none => .stays
      else .stays

/-- The current run suspended when it is of another task and holds something; gone otherwise. -/
def suspendFor (e : Engine b) (pipeline : String) : Engine b :=
  match e.state.run with
  | none => e
  | some run =>
    if run.pipeline ≠ pipeline ∧ !run.slots.isEmpty then
      e.modify fun s => { s with run := none, suspended := s.suspended ++ [run] }
    else e.modify fun s => { s with run := none }

/-- A question answered on the way, and the task moved forward. -/
def respondOnTheWay (r : Reply b) (response : String) : Reply b :=
  let r := r.resetFallback.sayNow response true
  if r.engine.state.run.isSome then r.advance false else r.offerMore

/-- What an utterance's intent does: the whole turn, or the reply to go on with and whether a run
was started. -/
def takeIntent (r : Reply b) : IntentStep → Reply b ⊕ (Reply b × Bool)
  | .stays => .inr (r, false)
  | .unknown => .inl r.fallback
  | .handoff intent => .inl (r.handoff ("intent:" ++ intent))
  | .respond response => .inl (r.respondOnTheWay response)
  | .start pipeline intent =>
    .inr (r.mapEngine fun e => (suspendFor e pipeline).startRun pipeline intent, true)

/-- Values with no intent yet start the run they belong to. -/
def inferTask (r : Reply b) (u : Understanding) (progressed : Bool) : Reply b × Bool :=
  match r.engine.state.run with
  | some _ => (r, progressed)
  | none =>
    if u.slots.isEmpty then (r, progressed)
    else match r.engine.inferPipeline u.slots with
      | some (pipeline, intent) => (r.mapEngine fun e => e.startRun pipeline intent, true)
      | none => (r, progressed)

/-- With no task at all: a goodbye or the greeting after "anything else?", the fallback otherwise. -/
def noTask (r : Reply b) (offeredMore : Bool) (u : Understanding) : Reply b :=
  if offeredMore && u.affirm == some false then r.goodbye
  else if offeredMore && u.affirm == some true then r.sayNow b.config.greeting true
  else r.fallback

/-- The understood values, their places checked; whether a place was noted but not taken. -/
def checkFills : List SlotFill → Check b → Bool → List SlotFill → Check b × Bool × List SlotFill
  | [], c, noted, fills => (c, noted, fills)
  | fill :: rest, c, noted, fills =>
    let accepted := c.engine.state.run.any fun run => Engine.accepts b (b.pipelineOf run) fill
    match fill.value with
    | .place spoken _ _ =>
      if accepted then
        match c.checkPlace fill.slot fill.value spoken with
        | (c, some value) => checkFills rest c noted (fills ++ [{ fill with value := value }])
        | (c, none) => checkFills rest c true fills
      else checkFills rest c noted (fills ++ [fill])
    | _ => checkFills rest c noted (fills ++ [fill])

/-- The values of an utterance taken, and what follows from them. -/
def takeValues (r : Reply b) (u : Understanding) (progressed : Bool) : Reply b :=
  let (c, noted, fills) := checkFills u.slots (⟨r.engine, [], []⟩ : Check b) false []
  let (e, applied) := c.engine.applyFills fills
  let r := { r with engine := e }
  if applied = 0 ∧ !(progressed || noted) then r.fallback
  else match r.resetFallback.applyRules with
    | (r, true) => r
    | (r, false) => r.advance (decide (0 < applied))

/-- The values of an utterance, once its intent was taken. -/
def afterIntent (r : Reply b) (offeredMore : Bool) (u : Understanding) (started : Bool) : Reply b :=
  let (r, progressed) := r.inferTask u started
  if r.engine.state.run.isNone then r.noTask offeredMore u else r.takeValues u progressed

/-- **`understood`**: what was understood of an utterance, acted on. -/
def understood (r : Reply b) (u : Understanding) : Reply b :=
  let offeredMore := r.engine.offeredMore
  let r := r.mapEngine fun e => { e with offeredMore := false }
  match r.answered u with
  | some r => r
  | none =>
    match r.takeIntent (intentStep b r.engine.state.run u) with
    | .inl r => r
    | .inr (r, started) => r.afterIntent offeredMore u started

end Understood

section Utterance

/-- The meta intent of an utterance: "wait" beside something else does not count. -/
def metaOf (u : Understanding) : Option MetaIntent :=
  let hasContent := !u.slots.isEmpty || u.affirm.isSome || u.intent.isSome
  if u.metaIntent = some .wait ∧ hasContent then none else u.metaIntent

/-- A caller's turn begins: its words are remembered. -/
def hear (e : Engine b) (transcript : String) : Engine b :=
  e.modify fun s => ({ s with
    turns := s.turns + 1
    silenceReprompts := 0
    waiting := false } : CallState).remember .caller transcript

/-- A frustrated caller is spoken to calmly. -/
def calm (e : Engine b) (u : Understanding) : Engine b :=
  if u.frustrated && b.hasDelivery "calm" then e.modify fun s => { s with delivery := some "calm" } else e

/-- **`on_utterance`**: a final transcript, understood. -/
def onUtterance (e : Engine b) (u : Understanding) : List Directive × Engine b :=
  if e.state.phase ≠ .active ∨ u.noise then ([], e)
  else
    let e := hear e u.transcript
    if b.isAbusive u.transcript then onAbuse e
    else
      let r := begin (calm e u)
      match metaOf u with
      | some m => (r.onMeta m).finish
      | none => (r.understood u).finish

end Utterance

end Reply

end Callora
