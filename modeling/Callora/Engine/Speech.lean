/-
**Directives, and the reply under way.**

The engine answers every operation with `Directive`s the runtime executes in order. A `Reply` is an engine
with the directives collected so far (`Out`); the functions here render responses, ask for slots and
remember what was asked. None of them changes the ledger or emits anything but speech: `Reply.book`, the
ledger with the orders given so far, is what they leave alone.
-/
import Callora.Engine.State

set_option linter.unusedSectionVars false

namespace Callora

open Callora.Text

section Directives

/-- What a person taking the call is told. -/
structure HandoffSummary where
  reason : String
  businessId : String
  intent : Option String
  pipeline : Option String
  slots : List (String × String)
  customerName : Option String
  recent : List Turn
  text : String
  deriving DecidableEq

/-- Something the runtime must do, in order. -/
inductive Directive where
  | speak (plan : SpeechPlan) (filler : Bool)
  | runAction (runId : Nat) (action : String) (input : Json)
  | handoff (summary : HandoffSummary)
  | hangup

namespace Directive

/-- Anything but speech. -/
def isOrder : Directive → Bool
  | speak .. => false
  | _ => true

end Directive

/-- Why a business action returned no result. -/
structure ActionFailure where
  error : String
  /-- The request may have reached the business before it failed. -/
  outcomeUnknown : Bool
  deriving DecidableEq

/-- The directives of a reply, with the speech not flushed yet and what is remembered of it. -/
structure Out where
  directives : List Directive
  pending : Option SpeechPlan
  recorded : Option SpeechPlan

namespace Out

/-- Nothing said yet. -/
def empty : Out := ⟨[], none, none⟩

/-- A plan said after another, if there is one. -/
def after (first : Option SpeechPlan) (plan : SpeechPlan) : SpeechPlan :=
  match first with
  | some p => p.andThen plan
  | none => plan

/-- `Out::speak`. -/
def speak (o : Out) (plan : SpeechPlan) (record : Bool) : Out :=
  { o with
    recorded := if record then some (after o.recorded plan) else o.recorded
    pending := some (after o.pending plan) }

/-- `Out::flush`. -/
def flush (o : Out) (filler : Bool) : Out :=
  match o.pending with
  | some plan =>
    { o with
      pending := none
      directives := if plan.isEmpty then o.directives else o.directives ++ [.speak plan filler] }
  | none => o

/-- `Out::push`. -/
def push (o : Out) (d : Directive) : Out :=
  let o := o.flush false
  { o with directives := o.directives ++ [d] }

/-- `Out::has_speech`. -/
def hasSpeech (o : Out) : Bool :=
  o.pending.any (fun p => !p.isEmpty) || o.directives.any fun d =>
    match d with
    | .speak plan _ => !plan.isEmpty
    | _ => false

/-- The orders among the directives. -/
def orders (o : Out) : List Directive := o.directives.filter Directive.isOrder

@[simp] theorem orders_speak (o : Out) (plan : SpeechPlan) (record : Bool) :
    (o.speak plan record).orders = o.orders := rfl

@[simp] theorem orders_flush (o : Out) (filler : Bool) : (o.flush filler).orders = o.orders := by
  unfold flush orders
  split
  · rename_i plan _
    cases plan.isEmpty <;> simp [Directive.isOrder]
  · rfl

theorem orders_push (o : Out) (d : Directive) :
    (o.push d).orders = o.orders ++ [d].filter Directive.isOrder := by
  have flushed := orders_flush o false
  unfold orders at flushed
  simp only [push, orders, List.filter_append, flushed]

end Out

end Directives

/-- **The engine of a business's call.** -/
structure Engine (b : Business) where
  state : CallState
  chooser : UInt64
  /-- "Anything else?" was the last question. -/
  offeredMore : Bool
  gazetteer : Option Gazetteer
  /-- Whether a person can take the call; without a setting, the handoff number decides. -/
  desk : Option Bool

/-- A pipeline no business has, for a run of an unknown one. -/
def PipelineConfig.missing : PipelineConfig where
  description := ""
  slots := []
  confirm := none
  action := none
  filler := none
  onSuccess := none
  onFailure := none
  onUnknown := none
  onComplete := none
  after := .continue
  strictOrder := false
  offer := none

/-- `Engine::pipeline_of`: runs are only ever created from the business's pipelines. -/
def Business.pipelineOf (b : Business) (run : PipelineRun) : PipelineConfig :=
  (b.pipeline run.pipeline).getD .missing

/-- A slot's entry in a pipeline. -/
def PipelineConfig.slot? (p : PipelineConfig) (slot : String) : Option PipelineSlot :=
  p.slots.find? fun ps => ps.slot == slot

/-- `open_questions`: required details of the task asked for and not given, in the order asked. -/
def openQuestions (b : Business) (s : CallState) : List String :=
  match s.run with
  | none => []
  | some run =>
    match b.pipeline run.pipeline with
    | none => []
    | some pipeline =>
      (s.openQuestions.filter fun slot =>
        pipeline.slots.any fun ps => ps.slot == slot && ps.required && ps.default.isNone).filter
        fun slot => !run.holds slot

namespace Engine

variable {b : Business}

/-- The engine with its state changed. -/
def modify (e : Engine b) (f : CallState → CallState) : Engine b := { e with state := f e.state }

@[simp] theorem modify_state (e : Engine b) (f : CallState → CallState) :
    (e.modify f).state = f e.state := rfl

@[simp] theorem modify_desk (e : Engine b) (f : CallState → CallState) :
    (e.modify f).desk = e.desk := rfl

/-- `Engine::new`. -/
def new (b : Business) (seed : UInt64) : Engine b where
  state := CallState.new b.config.id
  chooser := seed ||| 1
  offeredMore := false
  gazetteer := none
  desk := none

/-- `has_desk`. -/
def hasDesk (e : Engine b) : Bool := e.desk.getD b.handoffNumber.isSome

/-- The values of the current run. -/
def runValues (e : Engine b) : BTreeMap SlotValue :=
  match e.state.run with
  | some run => run.values
  | none => ∅

/-- `render_ctx`. -/
def renderCtx (e : Engine b) : RenderContext :=
  let ctx : RenderContext := { RenderContext.empty with slots := e.runValues }
  match e.state.customer.bind Customer.name with
  | some name => ctx.insert "customer_name" name
  | none => ctx

/-- `render_plan`. -/
def renderPlan (e : Engine b) (response : String) (ctx : RenderContext) :
    Option SpeechPlan × Engine b :=
  let renderer : Renderer := ⟨b, e.state.delivery, e.state.gainDb⟩
  let (plan, v) := renderer.render response ctx ⟨e.chooser, e.state.lastVariant⟩
  (plan, { e with chooser := v.seed, state := { e.state with lastVariant := v.last } })

/-- `pipeline_ask`: the response that asks for a slot of the task. -/
def pipelineAsk (e : Engine b) (slot : String) : Option String := do
  let run ← e.state.run
  (← (b.pipelineOf run).slot? slot).ask

/-- `specific_ask`: the question for what is still missing of a place. -/
def specificAsk (e : Engine b) (slot : String) : Option String := do
  let ask ← e.pipelineAsk slot
  if e.state.placeNumbers.contains slot && b.hasResponse (ask ++ "_number") then some (ask ++ "_number")
  else if e.state.placeCities.contains slot && b.hasResponse (ask ++ "_street") then
    some (ask ++ "_street")
  else if e.state.placeStreets.contains slot && b.hasResponse (ask ++ "_city") then
    some (ask ++ "_city")
  else none

/-- `note_asked`: what the question just asked for. -/
def noteAsked (e : Engine b) (slots : List String) : Engine b :=
  let s := { e.state with
    lastAsks := slots
    askedSlots := e.state.askedSlots.insertMany slots
    openQuestions := slots.foldl (fun asked slot =>
      if asked.contains slot then asked else asked ++ [slot]) e.state.openQuestions }
  { e with state := { s with openQuestions := s.openQuestions.filter (openQuestions b s).contains } }

/-- `number_question`, `city_question`, `street_question`: what asks for a part of a place. -/
def partQuestion (e : Engine b) (slot part : String) : String :=
  (e.pipelineAsk slot).getD "" ++ "_" ++ part

/-- `phrase_asks`: the response is a question. -/
def phraseAsks (_ : Engine b) (id : String) : Bool :=
  ((b.response id).bind fun r => r.variants.head?).any fun v => endsWithChar v '?'

/-- `last_question`: the last question alone, without what was said before it. -/
def lastQuestion (e : Engine b) : Option SpeechPlan := do
  let p ← e.state.lastPlan
  let last ← p.segments.getLast?.filter fun s => endsWithChar s.text '?'
  let body := (trimEnd last.text).toList.dropLast
  let marks := ['.', '!', '?']
  if body.any marks.contains then
    let tail := (body.reverse.takeWhile fun c => !marks.contains c).reverse ++ ['?']
    some (.free (trim (String.ofList tail)) last.delivery p.gainDb)
  else some ⟨[last], p.gainDb⟩

/-- `slot_asked_by`: the slot of the task a phrase asks for, or asks a part of. -/
def slotAskedBy (e : Engine b) (phrase : String) : Option String := do
  let run ← e.state.run
  let ps ← (b.pipelineOf run).slots.find? fun ps => ps.ask.any fun a =>
    [a, a ++ "_street", a ++ "_city", a ++ "_number"].contains phrase
  some ps.slot

/-- `render_response`: a response outside the flow of the conversation. -/
def renderResponse (e : Engine b) (responseId : String) : Option SpeechPlan × Engine b :=
  e.renderPlan responseId e.renderCtx

variable [Unicode]

/-- The engine once a reply was said. -/
def recallPlan (e : Engine b) (plan : SpeechPlan) : Engine b :=
  e.modify fun s => { s.remember .agent plan.text with lastPlan := some plan }

@[simp] theorem recallPlan_toLedger (e : Engine b) (plan : SpeechPlan) :
    (e.recallPlan plan).state.toLedger = e.state.toLedger :=
  CallState.remember_toLedger e.state .agent plan.text

/-- `said_before`: one of the response's sentences was said earlier in this call. -/
def saidBefore (e : Engine b) (id : String) : Bool :=
  match b.response id with
  | none => false
  | some r =>
    let norm := r.variants.map normalize
    e.state.history.any fun t => t.speaker == .agent &&
      norm.any fun v => v != "" && contains (normalize t.text) v

/-- The question for what is missing of a place, in the place of a phrase that asks for it in general;
with the slot. -/
def specificPhrase (e : Engine b) (id : String) : Option (String × String) := do
  let slot ← e.slotAskedBy id
  let response ← e.specificAsk slot
  if response == id then none else some (slot, response)

/-- What is said instead of a phrase that was said before. -/
def phraseAgain (e : Engine b) (id : String) : Option String :=
  if e.saidBefore id then (b.response id).bind ResponseConfig.again else none

/-- The context of a question about a slot: the city of its place, as understood. -/
def askCtx (e : Engine b) (slot : String) : RenderContext :=
  match e.state.placeCities[slot]? with
  | some city => e.renderCtx.insert "city" city
  | none => e.renderCtx

/-- `render_phrase`: a phrase the agent chose; one that asks for a place in general, after part of
it was given, asks for what is missing instead. -/
def renderPhrase (e : Engine b) (id : String) : Option SpeechPlan × Engine b :=
  match e.specificPhrase id, e.phraseAgain id with
  | some (slot, response), _ => e.renderPlan response (e.askCtx slot)
  | none, some again =>
    match e.renderResponse again with
    | (some plan, e) => (some plan, e)
    | (none, e) => e.renderResponse id
  | none, none => e.renderResponse id

end Engine

/-- A reply under way: the engine, and what it says and orders so far. -/
structure Reply (b : Business) where
  engine : Engine b
  out : Out

/-- What decides what is sent: the ledger, the orders given so far in the reply, and the desk. -/
structure Book where
  ledger : Ledger
  orders : List Directive
  desk : Option Bool

/-- The ledger and the desk of an engine, before any order. -/
def Engine.book {b : Business} (e : Engine b) : Book := ⟨e.state.toLedger, [], e.desk⟩

namespace Reply

variable {b : Business}

/-- A reply that begins. -/
def begin (e : Engine b) : Reply b := ⟨e, .empty⟩

/-- The reply with the state of its call changed. -/
def modify (r : Reply b) (f : CallState → CallState) : Reply b := { r with engine := r.engine.modify f }

@[simp] theorem modify_engine (r : Reply b) (f : CallState → CallState) :
    (r.modify f).engine = r.engine.modify f := rfl

@[simp] theorem modify_out (r : Reply b) (f : CallState → CallState) :
    (r.modify f).out = r.out := rfl

/-- The ledger, the orders and the desk of a reply. -/
def book (r : Reply b) : Book := ⟨r.engine.state.toLedger, r.out.orders, r.engine.desk⟩

/-- The context of the call as it stands. -/
def renderCtx (r : Reply b) : RenderContext := r.engine.renderCtx

/-- `Out::speak`. -/
def speak (r : Reply b) (plan : SpeechPlan) (record : Bool) : Reply b :=
  { r with out := r.out.speak plan record }

/-- `Out::push`. -/
def push (r : Reply b) (d : Directive) : Reply b := { r with out := r.out.push d }

/-- What was rendered, spoken if there is anything. -/
def speakRendered (r : Reply b) (rendered : Option SpeechPlan × Engine b) (record : Bool) : Reply b :=
  match rendered with
  | (some plan, e) => ({ r with engine := e } : Reply b).speak plan record
  | (none, e) => { r with engine := e }

/-- `say`: a response, when it can be rendered. -/
def say (r : Reply b) (response : String) (ctx : RenderContext) (record : Bool) : Reply b :=
  r.speakRendered (r.engine.renderPlan response ctx) record

/-- A response said in the context of the call. -/
def sayNow (r : Reply b) (response : String) (record : Bool) : Reply b :=
  r.say response r.renderCtx record

/-- A response said, if there is one. -/
def sayOptional (r : Reply b) (response : Option String) (record : Bool) : Reply b :=
  match response with
  | some response => r.sayNow response record
  | none => r

/-- `note_asked`. -/
def noteAsked (r : Reply b) (slots : List String) : Reply b :=
  { r with engine := r.engine.noteAsked slots }

variable [Unicode]

/-- Whether the question, rendered now, is what the agent said last; the rendering counts as one. -/
def saysAgain (r : Reply b) (slot question : String) (ctx : RenderContext) : Reply b × Bool :=
  let hasAgain := (b.response question).any fun c => c.again.isSome
  if hasAgain && r.engine.state.lastAsks.contains slot then
    let (plan, e) := r.engine.renderPlan question ctx
    let said := r.engine.state.lastAgentLine.map normalize
    ({ r with engine := e }, plan.any fun p =>
      let ws := Text.normalize p.text
      said.any fun l => ws != "" && contains l ws)
  else (r, false)

/-- The acknowledgement before a question, unless the question has a prefix of its own. -/
def acknowledge (r : Reply b) (question : String) : Reply b :=
  if (b.response question).any fun c => c.prefixed.isSome then r
  else r.sayOptional b.config.acknowledgement true

/-- `ask`: the question for a slot, after an acknowledgement if one is due. -/
def ask (r : Reply b) (slot : String) (acknowledge : Bool) : Reply b :=
  match r.engine.pipelineAsk slot with
  | none => r
  | some general =>
    let question := (r.engine.specificAsk slot).getD general
    let ctx := r.engine.askCtx slot
    let (r, again) := r.saysAgain slot question ctx
    let question := if again then ((b.response question).bind ResponseConfig.again).getD question
      else question
    let r := if acknowledge then r.acknowledge question else r
    (r.say question ctx true).noteAsked [slot]

/-- `ask_again`: a detail the caller has not given, in other words. -/
def askAgain (r : Reply b) (slot : String) : Reply b :=
  let again := "ask_again_" ++ slot
  if !r.engine.state.placeCities.contains slot && b.hasResponse again then
    (r.sayNow again true).noteAsked [slot]
  else r.ask slot false

/-- `question_again`: the last question once more, or the business's first fallback. -/
def questionAgain (r : Reply b) : Reply b :=
  match r.engine.lastQuestion with
  | some question => r.speak question false
  | none => r.sayOptional b.config.fallback.ladder.head? false

/-- `agent_say`: the agent's phrase, then its own words; what was played already is only
recorded. -/
def agentSay (r : Reply b) (phrase : Option String) (say spoken : String) : Reply b :=
  let delivery := r.engine.state.delivery.getD "normal"
  if spoken ≠ "" then
    let plan := SpeechPlan.free spoken delivery r.engine.state.gainDb
    { r with out := { r.out with recorded := some (Out.after r.out.recorded plan) } }
  else
    let r := match phrase with
      | some p => r.speakRendered (r.engine.renderPhrase p) true
      | none => r
    if phrase.any fun p => !sayAfterPhrase b p say then r
    else if trim say ≠ "" then r.speak (.free say delivery r.engine.state.gainDb) true
    else r

/-- `finish`: the directives of the reply, and the engine that remembers what was said. -/
def finish (r : Reply b) : List Directive × Engine b :=
  let out := r.out.flush false
  (out.directives, match out.recorded with
    | some plan => r.engine.recallPlan plan
    | none => r.engine)

end Reply

end Callora
