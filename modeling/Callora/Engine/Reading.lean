/-
**Reading the caller and the agent.**

The engine's own reading of a turn, before anything is stored: what the question just asked for, whether
the caller says goodbye, and the rewriting of the values the agent passes (`byPreposition`,
`withPatterns`, `withCues`, `withCityCorrection`, `withSameCity`, `asThisTasks`). Everything here only
reads the engine.
-/
import Callora.Engine.Speech

set_option linter.unusedSectionVars false

namespace Callora

open Callora.Text

/-- Slots and their values in the caller's words. -/
abbrev Fields := List (String × String)

namespace Engine

variable {b : Business}

section Asked

/-- `context`: what the understanding layer needs to know. -/
def context (e : Engine b) : Context where
  activePipeline := e.state.run.map PipelineRun.pipeline
  awaitingSlot := e.state.run.bind PipelineRun.awaitingSlot
  awaitingConfirmation := e.state.run.any fun r => r.step.isReadingBack
  customer := e.state.customer

/-- `street_focus`: the city whose street the question just asked for. -/
def streetFocus (e : Engine b) : Option String := do
  let run ← e.state.run
  let clearing (slot : String) :=
    e.state.lastAsks.isEmpty &&
      (e.state.placeRejections.contains slot || e.state.doubtedStreets.contains slot) &&
      !run.holds slot
  ((b.pipelineOf run).slots.filter fun ps =>
    e.state.lastAsks.contains ps.slot || clearing ps.slot).findSome? fun ps =>
      e.state.placeCities[ps.slot]?

/-- `customer_gives`: what the customer record gives a detail. -/
def customerGives (e : Engine b) (ps : PipelineSlot) : Option SlotValue := do
  let key ← ps.fromCustomer
  let c ← e.state.customer
  if key = "name" then (c.name.filter fun n => trim n ≠ "").map .text
  else customerPlace (some c) key

/-- `expected_slot`: the detail a task with a fixed order asks for next. -/
def expectedSlot (e : Engine b) : Option String := do
  let run ← e.state.run
  let pipeline := b.pipelineOf run
  if !pipeline.strictOrder || !run.step.isCollecting then none
  else
    let ps ← pipeline.slots.find? fun ps =>
      let knownName := ps.fromCustomer == some "name" && (e.customerGives ps).isSome
      !run.holds ps.slot && !knownName && ps.default.isNone &&
        (ps.required || (ps.ask.isSome && !e.state.askedSlots.contains ps.slot &&
          !e.state.askedBeforeConfirm.contains ps.slot))
    some ps.slot

/-- Only part of the slot's place is known. -/
def knownInPart (e : Engine b) (slot : String) : Bool :=
  e.state.placeCities.contains slot || e.state.placeNumbers.contains slot ||
    e.state.placeStreets.contains slot

/-- `partial_place_before`: a place, before `slot` in the task's order, of which only part is
known. -/
def partialPlaceBefore (e : Engine b) (slot : String) : Option String := do
  let run ← e.state.run
  let earlier := (b.pipelineOf run).slots.takeWhile fun ps => ps.slot != slot
  let ps ← (earlier.filter fun ps => ps.required && !run.holds ps.slot).find? fun ps =>
    e.knownInPart ps.slot
  some ps.slot

/-- `moves_on`: the required detail a reply would move on past. -/
def movesOn (e : Engine b) (fields : Fields) (asks : List String) : Option String := do
  if asks.isEmpty then none
  else
    let run ← e.state.run
    let going := match run.step with
      | .collecting _ | .confirmingSlot _ => true
      | _ => false
    let openNow := openQuestions b e.state
    if !going || asks.any openNow.contains then none
    else openNow.find? fun s => !fields.any fun (f, v) => f == s && trim v != ""

/-- `unasked_before_confirm`: an optional question the business wants asked before the read-back. -/
def unaskedBeforeConfirm [Unicode] (e : Engine b) : Option String := do
  let run ← e.state.run
  let pipeline := b.pipelineOf run
  if pipeline.slots.any fun ps => ps.required && ps.default.isNone && !run.holds ps.slot then none
  else
    let ps ← (pipeline.slots.filter fun ps => ps.askBeforeConfirm && !run.holds ps.slot &&
      !e.state.askedBeforeConfirm.contains ps.slot).find? fun ps =>
        let variants := ((ps.ask.bind b.response).map ResponseConfig.variants).getD []
        !variants.any fun v => e.state.history.any fun t =>
          t.speaker == .agent && contains (normalize t.text) (normalize v)
    some ps.slot

/-- `runs_without_read_back`: no read-back, an action, and every required detail. -/
def runsWithoutReadBack (e : Engine b) : Bool :=
  match e.state.run with
  | none => false
  | some run =>
    let pipeline := b.pipelineOf run
    run.step.isCollecting && pipeline.confirm.isNone && pipeline.action.isSome &&
      pipeline.slots.all fun ps => !ps.required || ps.default.isSome || run.holds ps.slot

/-- The words a question is made of. -/
def questionWords [Unicode] (text : String) : List String :=
  (tokens (normalize text)).filter fun w =>
    2 ≤ w.length && !containsChar w (Char.ofNat 0x7B) && !containsChar w (Char.ofNat 0x7D)

/-- The words of a slot's own questions. -/
def slotQuestionWords [Unicode] (b : Business) (ask : String) : List String :=
  ([ask, ask ++ "_again", ask ++ "_street", ask ++ "_city"].map fun id =>
    match b.response id with
    | some r => (r.variants.map questionWords).flatten
    | none => []).flatten

/-- `asks_in`: the details a question in the agent's own words asks for. -/
def asksIn [Unicode] (e : Engine b) (say : String) : List String :=
  match e.state.run with
  | none => []
  | some run =>
    if !endsWithChar say '?' then []
    else
      let perSlot := (b.pipelineOf run).slots.filterMap fun ps =>
        ps.ask.map fun ask => (ps.slot, slotQuestionWords b ask)
      let said := questionWords say
      (perSlot.filter fun (slot, ws) => ws.any fun w => said.contains w &&
        perSlot.all fun (other, theirs) => other == slot || !theirs.contains w).map Prod.fst

end Asked

section Goodbye

variable [Unicode]

/-- `is_hello`: words that only check the line is still there. -/
def isHello (_ : Engine b) (text : String) : Bool :=
  let norm := normalize text
  !b.hello.isEmpty && b.hello.found norm && trim (b.fillers.strip (b.hello.strip norm)) == ""

/-- `only_fillers`. -/
def onlyFillers (_ : Engine b) (text : String) : Bool :=
  let norm := normalize text
  trim norm != "" && trim (b.fillers.strip norm) == ""

/-- The business's goodbye is in the words. -/
def hearsGoodbye (b : Business) (norm : String) : Bool :=
  (b.metaOf .goodbye).any fun m =>
    m.exact.matchesWhole norm b.fillers || m.phrases.found norm || m.exact.found norm

/-- `insists_on_goodbye`: a goodbye of a word or two, after an earlier one was asked about. -/
def insistsOnGoodbye (e : Engine b) (transcript : String) : Bool :=
  let norm := normalize transcript
  e.state.goodbyeDoubted && (splitWhitespace (b.fillers.strip norm)).length ≤ 2 && hearsGoodbye b norm

/-- `last_agent_asked`. -/
def lastAgentAsked (e : Engine b) : Bool := e.state.lastAgentLine.any fun t => endsWithChar t '?'

/-- `goodbye_mid_task`: a goodbye in the middle of a booking, more likely a word misheard. -/
def goodbyeMidTask (e : Engine b) (transcript : String) : Bool :=
  match e.state.run with
  | none => false
  | some run =>
    !e.state.goodbyeDoubted && !e.offeredMore && run.step.isCollecting && !run.slots.isEmpty &&
      e.lastAgentAsked && (splitWhitespace (b.fillers.strip (normalize transcript))).length ≤ 2

/-- `caller_said_goodbye`. -/
def callerSaidGoodbye (_ : Engine b) (transcript : String) : Bool :=
  let norm := normalize transcript
  hearsGoodbye b norm || (b.deny.find norm).any fun (_, start, _) => start == 0

end Goodbye

section Intents

variable [Unicode]

/-- `refused_wrongly`: the task a refusal was said for, when it is one of the business's own. -/
def refusedWrongly (e : Engine b) (transcript phrase : String) : Option String :=
  if !(b.response phrase).any fun r => r.alone then none
  else
    let (u, _) := fastPath b e.context transcript
    (u.intent.map IntentGuess.id).filter fun id => (b.intent id).any fun i => i.pipeline.isSome

/-- `decisive_intent`: a task whose keywords decide it over the agent's choice. -/
def decisiveIntent (_ : Engine b) (transcript : String) : Option String :=
  let norm := normalize transcript
  (b.config.intents.filter IntentConfig.decisive).findSome? fun i =>
    if b.intentKeywords.any fun (id, k) => id == i.id && k.found norm then some i.id else none

/-- `infer_pipeline`: the only task that has a slot for every value. -/
def inferPipeline (_ : Engine b) (fills : List SlotFill) : Option (String × String) :=
  let candidates := b.config.intents.filterMap fun i => do
    let p ← i.pipeline
    let pipeline ← b.pipeline p
    if fills.all fun f => pipeline.has f.slot then some (p, i.id) else none
  match candidates with
  | [only] => some only
  | _ => none

/-- `lone_city_either_way`: a town said alone that the agent made the pickup or the destination. -/
def loneCityEitherWay (e : Engine b) (transcript : String) (fields : Fields) : Option String := do
  let g ← e.gazetteer
  let placesKnown := e.state.run.any fun r => r.holds "pickup" || r.holds "destination"
  if placesKnown || !e.state.placeCities.isEmpty then none
  else
    let ws := String.ofList ((normalize transcript).toList.filter fun c =>
      !(['.', ',', '?', '!'].contains c))
    let said := trim (b.fillers.strip ws)
    let a ← (g.resolve said).address?
    if a.street.isSome || normalize a.citySaid != said then none
    else if fields.any fun (slot, value) =>
        (slot == "pickup" || slot == "destination") &&
          contains (normalize value) said then some a.citySaid
    else none

end Intents

section Values

variable [Unicode]

/-- A slot's prefixes. -/
def prefixesOf (b : Business) (slot : String) : List String :=
  ((b.slotConfig slot).map SlotConfig.stripPrefixes).getD []

/-- A slot is a place. -/
def isPlace (b : Business) (slot : String) : Bool :=
  (b.slotConfig slot).any fun c => c.kind == .place

/-- One of the words is `first` with one of these prefixes. -/
def saidWith (ws prefixes : List String) (first : String) : Bool :=
  ws.any fun w => prefixes.any fun p => stripPrefix w p == some first

/-- `by_preposition`: a place said with the other place's preposition is the other place. -/
def byPreposition (_ : Engine b) (transcript : String) (fields : Fields) : Fields :=
  let ws := words (normalize transcript)
  let valueSaidWith (value : String) (prefixes : List String) : Bool :=
    let first := (split (· == ' ') (normalize ((split (· == ',') value).headD value))).headD ""
    2 ≤ first.length && saidWith ws prefixes first
  if !(["pickup", "destination"].all fun s => isPlace b s) then fields
  else fields.map fun (slot, value) =>
    let other? := if slot == "pickup" then some "destination"
      else if slot == "destination" then some "pickup" else none
    match other? with
    | none => (slot, value)
    | some other =>
      if !(fields.any fun (s, _) => s == other) && valueSaidWith value (prefixesOf b other) &&
          !valueSaidWith value (prefixesOf b slot) then (other, value)
      else (slot, value)

/-- The slot of the question just asked that is a place of which only the city is known. -/
def streetAsked (e : Engine b) (run : PipelineRun) : Option String :=
  e.state.lastAsks.find? fun s => isPlace b s && !run.holds s && e.state.placeCities.contains s

/-- `street_answer`: the street asked for, answered without the agent passing it. -/
def streetAnswer (e : Engine b) (transcript : String) (turn : AgentTurn) : Fields :=
  match e.state.run with
  | none => turn.fields
  | some run =>
    if !turn.fields.isEmpty || turn.action != .none || !run.step.isCollecting then turn.fields
    else match e.streetAsked run with
      | none => turn.fields
      | some slot =>
        let ws := normalize transcript
        let count := (splitWhitespace (b.fillers.strip ws)).length
        let (u, _) := fastPath b e.context transcript
        if !(1 ≤ count && count ≤ 4) || endsWithChar transcript '?' || u.noise ||
            u.metaIntent.isSome || e.isHello transcript || b.affirm.found ws || b.deny.found ws then
          turn.fields
        else
          let said := trimEndMatches ['.', '!', ','].contains (trim transcript)
          [(slot, said ++ ", " ++ (e.state.placeCities[slot]?).getD "")]

/-- The name under which the task takes a value of another's. -/
def underThisTask (pipeline : PipelineConfig) (slot : String) : String :=
  if pipeline.has slot then slot
  else match pipeline.slots.find? fun ps => ps.fromSlot == some slot with
    | some ps => ps.slot
    | none => slot

/-- A value that is a town by its exact name. -/
def isTown (e : Engine b) (spoken : String) : Bool :=
  e.gazetteer.any fun g => (g.resolve spoken).address?.any fun a =>
    a.street.isNone && a.number.isNone && a.place.isNone

/-- `with_patterns`: details said in words the business's patterns know that the agent left out. -/
def withPatterns (e : Engine b) (transcript : String) (fields : Fields) : Fields :=
  match e.state.run with
  | none => fields
  | some run =>
    if !run.step.isCollecting then fields
    else
      let pipeline := b.pipelineOf run
      let ctx := { e.context with awaitingSlot := none, awaitingConfirmation := false }
      let (u, _) := fastPath b ctx transcript
      u.slots.foldl (fun out fill =>
        let slot := underThisTask pipeline fill.slot
        match b.slotConfig slot with
        | none => out
        | some cfg =>
          let streetNeeded := cfg.kind == .place && (cfg.precise || cfg.streetOnce)
          let wanted := (!streetNeeded || e.isTown fill.value.spoken) && !cfg.patterns.isEmpty &&
            pipeline.has slot && !run.holds slot && !out.any fun (s, _) => s == slot
          if wanted then out ++ [(slot, fill.value.spoken)] else out) fields

/-- `with_city_correction`: another town named while a place's street is asked. -/
def withCityCorrection (e : Engine b) (transcript : String) (fields : Fields) : Fields :=
  let corrected : Option (String × String) := do
    let g ← e.gazetteer
    let city ← e.streetFocus
    let slot ← e.state.lastAsks.find? fun s => e.state.placeCities[s]? == some city
    if fields.any fun (s, _) => s == slot then none
    else match (g.townsNamed transcript).filter (· != city) with
      | [town] =>
        -- A street of the city named like a town stays the street.
        if ((g.resolveWithin town city).bind Lookup.address?).any fun a => a.street.isSome then none
        else some (slot, town)
      | _ => none
  match corrected with
  | some field => fields ++ [field]
  | none => fields

/-- `says_same_city`: words of a ride within one town. -/
def saysSameCity (e : Engine b) (transcript : String) : Bool :=
  b.saysSameCity transcript ||
    match e.gazetteer with
    | none => false
    | some g =>
      ((splitString (normalize transcript) "בתוך ").drop 1).any fun after =>
        (g.townsNamed after).head?.any fun t =>
          let t := normalize t
          startsWith after t || startsWith after ((split (· == ' ') t).headD t)

/-- The town of a place, in the values passed, as noted, or as the run holds it. -/
def cityOf (e : Engine b) (g : Gazetteer) (run : PipelineRun) (fields : Fields) (slot : String) :
    Option String :=
  let townIn (text : String) := (g.townsNamed text).head?
  ((fields.filter fun (s, _) => s == slot).findSome? fun (_, v) => townIn v).or
    ((e.state.placeCities[slot]?).or (match run.slots[slot]?.map SlotState.value with
      | some (.place spoken address _) => townIn (address.getD spoken)
      | _ => none))

/-- The town put to a value, or as the value itself. -/
def putCity (city : String) : Fields → String → Fields
  | [], slot => [(slot, city)]
  | (s, v) :: fields, slot =>
    if s == slot then
      (s, if trim v != "" then trim v ++ ", " ++ city else city) :: fields
    else (s, v) :: putCity city fields slot

/-- `with_same_city`: a ride within one town gives the place without a town the other's. -/
def withSameCity (e : Engine b) (transcript : String) (fields : Fields) : Fields :=
  match e.gazetteer, e.state.run with
  | some g, some run =>
    if !e.state.sameCity && !e.saysSameCity transcript then fields
    else
      let places := (((b.pipelineOf run).slots.map PipelineSlot.slot).filter (isPlace b)).take 2
      match places with
      | [start, goal] =>
        let missing : List (String × String) :=
          match e.cityOf g run fields start, e.cityOf g run fields goal with
          | some c, none => [(goal, c)]
          | none, some c => [(start, c)]
          | none, none =>
            match g.townsNamed transcript with
            | [town] => [(start, town), (goal, town)]
            | _ => []
          | some _, some _ => []
        missing.foldl (fun out (slot, city) =>
          if run.holds slot then out else putCity city out slot) fields
      | _ => fields
  | _, _ => fields

/-- `with_cues`: details given instead of the answer to a question about something else are taken
only with their own words. -/
def withCues (e : Engine b) (transcript : String) (fields : Fields) : Fields :=
  match e.state.run with
  | none => fields
  | some run =>
    let answered := fields.any fun (s, v) => e.state.lastAsks.contains s && trim v != ""
    if !run.step.isCollecting || e.state.lastAsks.isEmpty || answered then fields
    else
      let heard := normalize transcript
      fields.filter fun (slot, value) =>
        match b.slotConfig slot with
        | none => true
        | some cfg => cfg.cues.isEmpty || e.state.lastAsks.contains slot || trim value == "" ||
            cfg.cues.any fun c => contains heard (normalize c)

/-- `as_this_tasks`: a value passed under the name of the detail another task takes it from. -/
def asThisTasks (e : Engine b) (fields : Fields) : Fields :=
  match e.state.run with
  | none => fields
  | some run =>
    let pipeline := b.pipelineOf run
    fields.map fun (slot, value) =>
      let target := pipeline.slots.find? fun ps => ps.fromSlot == some slot
      match target with
      | some t =>
        if !pipeline.has slot && !(fields.any fun (s, _) => s == t.slot) then (t.slot, value)
        else (slot, value)
      | none => (slot, value)

/-- `above_max`: a number given for a slot that is more than the slot allows. -/
def aboveMax (_ : Engine b) (slot : String) (fields : Fields) : Bool :=
  match (b.slotConfig slot).bind SlotConfig.max with
  | none => false
  | some top =>
    (fields.filter fun (s, _) => s == slot).any fun (_, v) =>
      let toks := tokens (normalize v)
      (toks.any fun t => ["אלף", "אלפיים", "אלפים", "מיליון"].contains t) ||
        (findNumbers toks).head?.any fun n => decide (top < n.value)

end Values

section Personal

variable [Unicode]

/-- The places of a caller's own, and how the agent says them back. -/
def personalNames : List (String × String) :=
  [("בית הספר", "בית הספר"), ("אמא שלי", "אמא שלך"), ("אבא שלי", "אבא שלך"),
    ("ההורים", "ההורים שלך"), ("הבית", "הבית"), ("בית", "הבית"), ("הביתה", "הבית"), ("ביתי", "הבית"),
    ("העבודה", "העבודה"), ("עבודה", "העבודה"), ("המשרד", "המשרד"), ("הגן", "הגן"), ("גן", "הגן"),
    ("אמא", "אמא שלך"), ("אבא", "אבא שלך"), ("סבתא", "סבתא"), ("סבא", "סבא"), ("אחותי", "אחותך"),
    ("אחי", "אחיך"), ("אשתי", "אשתך"), ("בעלי", "בעלך"), ("החבר", "החבר"), ("חבר", "החבר"),
    ("החברה", "החברה"), ("חברה", "החברה")]

/-- A word, and what is left of it after a preposition. -/
def bareForms (w : String) : List String :=
  w :: ["מה", "לה", "בה", "מ", "ל", "ב"].filterMap fun p => (stripPrefix w p).filter (2 ≤ ·.length)

/-- Whether the words of a personal place are found from here on. Without "ה" some of them start
street names too, and count only when "mine" follows. -/
def namesPersonal (key : String) : List String → Bool
  | [] => false
  | w :: ws =>
    let keyWords := split (· == ' ') key
    let rest := keyWords.drop 1
    let owned := ((ws.drop rest.length).head?).any ["שלי", "שלנו", "של"].contains
    let bareIsStreet := ["בית", "גן", "חבר", "חברה", "עבודה"].contains key
    let here := (bareForms w).contains (keyWords.headD "") && ws.take rest.length == rest &&
      !(bareIsStreet && !owned)
    here || namesPersonal key ws

/-- `personal_place_named`: the place of the caller's own their words name. -/
def personalPlaceNamed (_ : Engine b) (text : String) : Option String :=
  (personalNames.find? fun (key, _) => namesPersonal key (splitWhitespace (normalize text))).map Prod.snd

/-- `said_as_in`: how a note to the agent names a response, worded for a city. -/
def saidAsIn (_ : Engine b) (responseId : String) (city : Option String) : String :=
  if (phraseIds b).contains responseId then " (phrase " ++ responseId ++ ")"
  else match (b.response responseId).bind fun r => r.variants.head? with
    | some v => " (" ++ Json.quoteMark ++ replace v (braced "city") (city.getD "<the city>") ++
        Json.quoteMark ++ ")"
    | none => ""

/-- `said_as`. -/
def saidAs (e : Engine b) (responseId : String) : String := e.saidAsIn responseId none

end Personal

end Engine

end Callora
