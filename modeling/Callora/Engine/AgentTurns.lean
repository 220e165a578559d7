/-
**The agent's turns.**

`onAgentTurn` carries out a decision of the language agent. The agent chooses; the engine enforces: values
go through the typed parsers, a task runs only after its read-back was confirmed, and the call ends only
on a goodbye. `AgentStep` is the decision once its values were taken; `detour` is what is done instead of
it, if anything, and `actOn` carries out the rest.
-/
import Callora.Engine.Turns

set_option linter.unusedSectionVars false

namespace Callora

open Callora.Text

/-- A decision of the agent, once its task and values were taken. -/
structure AgentStep where
  transcript : String
  turn : AgentTurn
  action : AgentAction
  /-- The values as they were taken. -/
  fields : Fields
  /-- What the runtime already played of the decision. -/
  spoken : String
  /-- The task goes on by its own steps, whatever the agent said. -/
  decided : Bool
  /-- "Anything else?" was the last question. -/
  offeredMore : Bool
  wasConfirming : Bool
  changed : Bool
  rejected : List String

/-- What is done instead of what the agent chose. -/
inductive Detour where
  /-- The optional question the business always wants asked before the read-back. -/
  | askOptional (slot : String)
  /-- The question for a value that was just rejected. -/
  | askRejected (slot : String)
  /-- The task's next question. -/
  | nextQuestion
  /-- A question asked and not answered, again. -/
  | askAgain (slot : String)

namespace AgentStep

/-- The agent reads the task back, or submits it. -/
def closes (s : AgentStep) : Bool := s.action == .readBack || s.action == .submit

/-- The agent only talks, and nothing of it was played. -/
def onlyTalks (s : AgentStep) : Bool := s.action == .none && s.spoken == ""

end AgentStep

namespace Engine

variable {b : Business} [Unicode]

section Task

/-- The caller's words are heard, and the notes for the decision just made are gone. -/
def hearForAgent (e : Engine b) (transcript : String) : Engine b :=
  { e with offeredMore := false }.modify fun s => { ({ s with
      turns := s.turns + 1
      silenceReprompts := 0
      fallbackLevel := 0
      waiting := false } : CallState).remember .caller transcript with agentNotes := [] }

/-- A decision without its words. -/
def unsaid (turn : AgentTurn) : AgentTurn := { turn with phrase := none, say := "" }

/-- A refusal of what the business does is not said. -/
def correctRefusal (e : Engine b) (transcript : String) (turn : AgentTurn) : AgentTurn :=
  let turn := match turn.phrase.bind fun p => e.refusedWrongly transcript p with
    | some intent => { unsaid turn with task := some intent }
    | none => turn
  let refusal := turn.phrase.any fun p => (b.response p).any ResponseConfig.alone
  let businessTask := (turn.task.bind b.intent).any fun i => i.pipeline.isSome
  if refusal && (businessTask || !turn.fields.isEmpty) then unsaid turn else turn

/-- Words that decide the task over the agent's choice; whether they did. -/
def decideTask (e : Engine b) (transcript : String) (turn : AgentTurn) : AgentTurn × Bool :=
  match (e.decisiveIntent transcript).filter fun i => turn.task != some i with
  | some intent =>
    ({ unsaid turn with
      task := some intent
      action := if turn.action = .none ∨ turn.action = .readBack then .none else turn.action }, true)
  | none => (turn, false)

/-- The current run suspended when it holds something and is not executing; gone otherwise. -/
def setAside (e : Engine b) : Engine b :=
  match e.state.run with
  | none => e
  | some run =>
    if !run.slots.isEmpty && !run.step.isExecuting then
      e.modify fun s => { s with run := none, suspended := s.suspended ++ [run] }
    else e.modify fun s => { s with run := none }

/-- The task switched to, when it is another than the current one. -/
def switchTask (e : Engine b) (intent : IntentConfig) : Engine b :=
  match intent.pipeline with
  | none => e
  | some p =>
    if e.state.run.map PipelineRun.pipeline = some p then e
    else (e.setAside.startRun p intent.id).fillFromOtherTasks

end Task

section Detours

/-- The question the agent's phrase asks is of a slot the caller just gave. -/
def askedWhatWasGiven (e : Engine b) (s : AgentStep) : Bool :=
  s.onlyTalks && (s.turn.phrase.bind e.slotAskedBy).any fun slot =>
    s.turn.fields.any (fun (f, _) => f == slot) &&
      (e.state.run.any (fun r => r.holds slot) || e.knownInPart slot)

/-- A question out of the task's order, or one that goes past a question still open. -/
def outOfTurn (e : Engine b) (s : AgentStep) : Bool :=
  let asks := s.turn.asks ++ (s.turn.phrase.bind e.slotAskedBy).toList
  let inferred := e.asksIn s.turn.say
  s.onlyTalks &&
    ((asks.isEmpty && !inferred.isEmpty && (e.movesOn s.turn.fields inferred).isSome) ||
      (!asks.isEmpty && e.expectedSlot.any fun next => !asks.contains next))

/-- The recorded question asks past a place given only in part. -/
def skipsPlace (e : Engine b) (s : AgentStep) : Bool :=
  s.onlyTalks && ((s.turn.phrase.bind e.slotAskedBy).bind e.partialPlaceBefore).isSome

/-- What the turn's question asks for, with its phrase's slot. -/
def turnAsks (e : Engine b) (turn : AgentTurn) : List String :=
  match turn.phrase.bind e.slotAskedBy with
  | some slot => if turn.asks.contains slot then turn.asks else turn.asks ++ [slot]
  | none => turn.asks

/-- What is done instead of the agent's decision. -/
def detour (e : Engine b) (s : AgentStep) : Option Detour :=
  let optional := if s.closes && !s.wasConfirming && s.rejected.isEmpty then e.unaskedBeforeConfirm
    else none
  let refused := if s.closes || (s.onlyTalks && !s.rejected.isEmpty) then s.rejected.head? else none
  match optional, refused with
  | some slot, _ => some (.askOptional slot)
  | none, some slot => some (.askRejected slot)
  | none, none =>
    if e.askedWhatWasGiven s || e.outOfTurn s || e.skipsPlace s then some .nextQuestion
    else if s.onlyTalks then (e.movesOn s.turn.fields (e.turnAsks s.turn)).map .askAgain
    else none

end Detours

end Engine

namespace Reply

variable {b : Business} [Unicode]

/-- **`force_handoff`**: for a reason outside the conversation; a call no one can take ends. -/
def forceHandoff (e : Engine b) (reason : String) : List Directive × Engine b :=
  if e.state.phase ≠ .active then ([], e)
  else
    let r := (begin e).handoff reason
    if r.engine.state.phase = .active then
      ((r.modify fun s => { s with phase := .ending }).push .hangup).finish
    else r.finish

section Detours

/-- The prompts of a place in doubt, one after the other. -/
def sayPrompts (r : Reply b) (prompts : List Prompt) : Reply b :=
  prompts.foldl (fun r p =>
    r.say p.response { r.renderCtx with extra := r.renderCtx.extra.insertMany p.values.toList } true) r

/-- The optional question before the read-back. -/
def askOptional (r : Reply b) (slot spoken : String) : Reply b :=
  let r := (r.agentSay none "" spoken).modify fun s =>
    { s with askedBeforeConfirm := s.askedBeforeConfirm.insert slot }
  if endsWithChar spoken '?' then r else r.ask slot false

/-- The response that asks again for a rejected value, in the words that fit. -/
def askAgainResponse (r : Reply b) (slot : String) (fields : Fields) : String :=
  let tooMany := "too_many_" ++ slot
  if b.hasResponse tooMany && r.engine.aboveMax slot fields then tooMany else "ask_again_" ++ slot

/-- The question for a rejected value. -/
def questionRejected (r : Reply b) (slot : String) (fields : Fields) : Reply b :=
  let again := r.askAgainResponse slot fields
  if b.hasResponse again then r.sayNow again true else r.ask slot false

/-- A detail just rejected is asked for; a place missed three times goes to a person. -/
def askRejected (r : Reply b) (s : AgentStep) (slot : String) : List Directive × Engine b :=
  let r := r.agentSay none "" s.spoken
  if b.handoffNumber.isSome && decide (3 ≤ (r.engine.state.placeRejections[slot]?).getD 0) then
    forceHandoff r.engine "place_not_understood"
  else
    let prompts := r.engine.state.doubtConfirm[slot]?
    let r := r.modify fun s => { s with doubtConfirm := s.doubtConfirm.erase slot }
    match prompts.filter fun _ => s.spoken == "" with
    | some prompts => ((r.sayPrompts prompts).noteAsked [slot]).finish
    | none => if endsWithChar s.spoken '?' then r.finish else (r.questionRejected slot s.fields).finish

/-- A detour, carried out. -/
def takeDetour (r : Reply b) (s : AgentStep) : Detour → List Directive × Engine b
  | .askOptional slot => (r.askOptional slot s.spoken).finish
  | .askRejected slot => r.askRejected s slot
  | .nextQuestion => r.nextQuestion.finish
  | .askAgain slot => ((r.agentSay none "" s.spoken).askAgain slot).finish

end Detours

section Acting

/-- A lone goodbye in the middle of a booking: asked about once. -/
def doubtGoodbye (r : Reply b) (spoken : String) : Reply b :=
  let r := (r.modify fun s => { s with goodbyeDoubted := true }).agentSay none "" spoken
  let r := if b.hasResponse "did_not_catch" then r.sayNow "did_not_catch" true else r
  match r.engine.expectedSlot with
  | some slot => r.askAgain slot
  | none => r.readBack true

/-- The end of the call the agent chose, after a goodbye; the call kept open without one. -/
def endCall (r : Reply b) (s : AgentStep) : Reply b :=
  if r.engine.callerSaidGoodbye s.transcript || (s.offeredMore && r.engine.onlyFillers s.transcript) then
    if s.spoken == "" && s.turn.say == "" && s.turn.phrase.isNone then r.goodbye
    else ((r.agentSay s.turn.phrase s.turn.say s.spoken).modify fun s =>
      { s with phase := .ending }).push .hangup
  else
    let r := r.agentSay none "" s.spoken
    if r.engine.state.run.isSome then r.readBack true
    else
      let next := if r.engine.state.completed.isEmpty then "small_talk_answer" else "anything_else"
      if b.hasResponse next then r.sayNow next true else r

/-- A yes the caller actually said, with no but, wait or no in it. -/
def saidYes (b : Business) (transcript : String) : Bool :=
  let heard := normalize transcript
  !b.affirm.isEmpty && b.affirm.found heard && !b.correct.found (b.harmless.strip heard)

/-- A submit right after a read-back to which the caller said yes. -/
def confirmsNow (e : Engine b) (s : AgentStep) : Bool :=
  s.action == .submit && !s.changed && saidYes b s.transcript &&
    e.state.run.any fun r => r.step == .awaitingConfirmation

/-- The read-back opens with an acknowledgement of its own. -/
def readBackAcks (e : Engine b) : Bool :=
  e.state.run.any fun r =>
    let pipeline := b.pipelineOf r
    pipeline.slots.all (fun ps => !ps.required || ps.default.isSome || r.holds ps.slot) &&
      (pipeline.confirm.bind fun c => b.response c.response).any fun resp => resp.prefixed.isSome

/-- The agent's own words would be said twice, or ask a second question. -/
def staysQuiet (e : Engine b) (s : AgentStep) : Bool :=
  let asks := endsWithChar s.turn.say '?' || s.turn.phrase.any e.phraseAsks
  let actionFills := e.state.run.any fun r => (b.pipelineOf r).filler.isSome
  (s.action == .readBack && (asks || readBackAcks e)) || (s.action == .submit && actionFills)

/-- The whole read-back agreed to. -/
def agree (r : Reply b) : Reply b :=
  r.mapEngine fun e => e.mapRun fun run =>
    { run with
      confirmed := true
      slots := run.slots.map fun _ st => { st with confirmed := true, provenance := .confirmed } }

/-- The read-back, or the request when the read-back was just agreed to. -/
def closeTask (r : Reply b) (s : AgentStep) : Reply b :=
  let confirmedNow := confirmsNow r.engine s
  let quiet := staysQuiet r.engine s
  let phrase := if quiet then none else s.turn.phrase
  let say := if quiet then "" else s.turn.say
  let r := r.agentSay phrase say s.spoken
  if confirmedNow then r.agree.advance false
  else
    let asked := endsWithChar (s.spoken ++ " " ++ say) '?' ||
      (say == "" && phrase.any r.engine.phraseAsks)
    r.readBack !asked

/-- The agent's decision, carried out. -/
def actOn (r : Reply b) (s : AgentStep) : Reply b :=
  match s.action with
  | .none =>
    if s.decided || r.engine.runsWithoutReadBack then (r.agentSay none "" s.spoken).advance false
    else r.agentSay s.turn.phrase s.turn.say s.spoken
  | .transfer => (r.agentSay s.turn.phrase s.turn.say s.spoken).handoff "caller_requested"
  | .endCall =>
    if r.engine.goodbyeMidTask s.transcript then r.doubtGoodbye s.spoken else r.endCall s
  | .readBack | .submit => r.closeTask s

/-- Never silence: with nothing said, the question again. -/
def neverSilent (r : Reply b) (spoken : String) : Reply b :=
  if r.out.pending.isNone && r.out.directives.isEmpty && spoken == "" then r.questionAgain else r

/-- A decision whose values were taken: its detour, or what it says. -/
def afterValues (r : Reply b) (s : AgentStep) : List Directive × Engine b :=
  match r.engine.detour s with
  | some d => r.takeDetour s d
  | none =>
    let r := r.noteAsked (r.engine.turnAsks s.turn)
    ((r.actOn s).neverSilent s.spoken).finish

end Acting

section Values

/-- The decision once its values were taken: a detail changed after the read-back is read back
again, and a transfer announced without one is not said. -/
def stepOf (transcript spoken : String) (turn : AgentTurn) (fields : Fields)
    (decided offeredMore wasConfirming changed : Bool) (rejected : List String) : AgentStep :=
  let action := if turn.action = .none ∧ changed ∧ wasConfirming then .readBack else turn.action
  let turn := if action ≠ .transfer ∧ b.announcesTransfer turn.say then { turn with say := "" } else turn
  { transcript := transcript, turn := turn, action := action, fields := fields, spoken := spoken
    decided := decided, offeredMore := offeredMore, wasConfirming := wasConfirming
    changed := changed, rejected := rejected }

/-- The values of a turn as they are taken: what the agent passed, rewritten, and whether a place was
put in the other's town. -/
def turnFields (e : Engine b) (transcript : String) (turn : AgentTurn) : Engine b × Fields × Bool :=
  let e := e.misplacedCity transcript
  let (e, agents) := e.throughReaders transcript (e.streetAnswer transcript turn)
  let fields := e.withSameCity transcript agents
  (e, fields, decide (fields ≠ agents))

/-- A caller who said the ride is within one town. -/
def noteSameCity (e : Engine b) (transcript : String) : Engine b :=
  if e.saysSameCity transcript then e.modify fun s => { s with sameCity := true } else e

/-- The values of a turn taken, the rules applied, and the rest of the decision carried out. -/
def takeTurn (e : Engine b) (transcript spoken : String) (turn : AgentTurn)
    (decided offeredMore : Bool) : List Directive × Engine b :=
  let wasConfirming := e.state.run.any fun r => r.step == .awaitingConfirmation
  let (e, fields, inTown) := turnFields e transcript turn
  let turn := if inTown then Engine.unsaid turn else turn
  let (e, changed, rejected) := (noteSameCity e transcript).applyAgentFields fields
  match (begin e).applyRules with
  | (r, true) => (r.agentSay none "" spoken).finish
  | (r, false) =>
    r.afterValues (stepOf (b := b) transcript spoken turn fields (decided || inTown) offeredMore
      wasConfirming changed rejected)

/-- A town alone, neither place yet: asked which. -/
def askWhichWay (e : Engine b) (city spoken : String) : List Directive × Engine b :=
  let r := (begin e).agentSay none "" spoken
  ((r.say "which_way" (r.renderCtx.insert "city" city) true).noteAsked ["pickup"]).finish

/-- A turn on its task: a town that could be either place, or the turn's values. -/
def onTask (e : Engine b) (transcript spoken : String) (turn : AgentTurn)
    (decided offeredMore : Bool) : List Directive × Engine b :=
  match (e.loneCityEitherWay transcript turn.fields).filter fun _ => b.hasResponse "which_way" with
  | some city => askWhichWay e city spoken
  | none => takeTurn e transcript spoken turn decided offeredMore

/-- A decision that is carried out: its task, then its values. -/
def carryOut (e : Engine b) (transcript spoken : String) (turn : AgentTurn)
    (decided offeredMore : Bool) : List Directive × Engine b :=
  match turn.task.bind b.intent with
  | none => onTask e transcript spoken turn decided offeredMore
  | some intent =>
    if intent.handoff then
      (((begin e).agentSay turn.phrase turn.say spoken).handoff ("intent:" ++ intent.id)).finish
    else onTask (e.switchTask intent) transcript spoken turn decided offeredMore

end Values

/-- The agent's decision as it is carried out, and whether the caller's words decided its task. -/
def corrected (e : Engine b) (transcript : String) (turn : AgentTurn) : AgentTurn × Bool :=
  e.decideTask transcript (e.correctRefusal transcript turn)

/-- **`on_agent_turn`**: a decision of the language agent for the caller's last utterance. -/
def onAgentTurn (e : Engine b) (transcript : String) (turn : AgentTurn) (spoken : String) :
    List Directive × Engine b :=
  if e.state.phase ≠ .active then ([], e)
  else
    let offeredMore := e.offeredMore
    let e := e.hearForAgent transcript
    if e.insistsOnGoodbye transcript then (begin e).goodbye.finish
    else if b.isAbusive transcript then onAbuse e
    else
      let (turn, decided) := corrected e transcript turn
      if 5 ≤ e.state.sameQuestionStreak then forceHandoff e "stuck_on_a_question"
      else carryOut e transcript spoken turn decided offeredMore

end Reply

end Callora
