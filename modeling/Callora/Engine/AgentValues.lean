/-
**The values the agent passes.**

`applyAgentFields` takes the agent's values through the same parsers as the rules: a place whose words
nobody said is refused, an impossible value is refused, a place is checked against the list, and what is
left is stored in the run (a new one, when the values belong to one task only).

`throughReaders` is the chain of rewrites a turn's values go through before they are taken.
-/
import Callora.Engine.Places

set_option linter.unusedSectionVars false

namespace Callora

open Callora.Text

namespace Engine

variable {b : Business} [Unicode]

section Heard

/-- What counts as said in this call: the caller's words, the second hearing, the streets offered,
and the towns and places understood from them. -/
def heardSoFar (e : Engine b) : String :=
  let heard := join ". " e.state.callerLines
  let heard := match e.state.secondHearing with
    | some second => heard ++ ". " ++ second
    | none => heard
  let heard := if e.state.offeredStreets.isEmpty then heard
    else heard ++ ". " ++ join ". " e.state.offeredStreets
  let ofCustomer := match e.state.customer with
    | some c => (c.places.toList.map fun (_, p) => p.spoken :: p.address.toList).flatten
    | none => []
  let ofTowns := match e.gazetteer with
    | some g => g.townsNamed heard ++ (g.areaTownsHeard heard b.config.serviceArea).map Prod.snd
    | none => []
  let understood := e.state.placeCities.values ++ ofCustomer ++ ofTowns
  if understood.isEmpty then heard else heard ++ ". " ++ join ". " understood

/-- The optional questions asked before the read-back, to which a "no" is the answer. -/
def optionalSlots (e : Engine b) : List String :=
  match e.state.run with
  | none => []
  | some run =>
    ((b.pipelineOf run).slots.filter fun ps => ps.askBeforeConfirm && !ps.required).map PipelineSlot.slot

end Heard

/-- Nothing but a no. -/
def nothingButNo (b : Business) (raw : String) : Bool :=
  let norm := normalize raw
  trim norm != "" && trim (b.fillers.strip (b.nothing.strip (b.deny.strip norm))) == ""

end Engine

namespace Check

variable {b : Business} [Unicode]

/-- A place whose words nobody said, refused until the third time. -/
def refuseUnheard (c : Check b) (slot raw heard : String) : Option (Check b) :=
  let invented := unheardWords raw heard
  let rejections := (c.engine.state.unheardRejections[slot]?).getD 0
  if !invented.isEmpty && rejections < 2 then
    let c := c.modify fun s =>
      { s with unheardRejections := s.unheardRejections.insert slot (rejections + 1) }
    some ((c.note (slot ++ ": the caller never said " ++ quoted (join " " invented) ++
      "; do not guess, ask for the street name")).reject slot)
  else none

/-- A value parsed, and checked when it is a place. -/
def parseField (c : Check b) (slot raw : String) (cfg : SlotConfig) : Check b × Option SlotFill :=
  match (parseSlotValue b slot cfg raw true c.engine.state.customer).filter fun (_, confidence) =>
      decide (cfg.rejectBelow ≤ confidence) with
  | none =>
    ((c.note
      (slot ++ " " ++ quoted raw ++ " was not accepted; ask for it again with the short question")).reject
      slot, none)
  | some (value, confidence) =>
    let (c, value) := c.checkPlace slot value raw
    (c, value.map fun value => ⟨slot, value, max confidence 0.9, .llm⟩)

/-- A place's words as the caller said them just now. -/
def asSaidNow (c : Check b) (cfg : SlotConfig) (raw saidNow : String) : String :=
  if cfg.kind = .place then (c.engine.gazetteer.bind fun g => g.streetSaidInstead raw saidNow).getD raw
  else raw

/-- A value whose words were heard: refused when it is a place and they were not. -/
def takeHeard (c : Check b) (slot raw heard : String) (cfg : SlotConfig) : Check b × Option SlotFill :=
  match c.refuseUnheard slot raw heard with
  | some refused => if cfg.kind = .place then (refused, none) else c.parseField slot raw cfg
  | none => c.parseField slot raw cfg

/-- One value of the agent's. -/
def takeField (optional : List String) (heard saidNow : String) (c : Check b)
    (field : String × String) : Check b × Option SlotFill :=
  match b.slotConfig field.1 with
  | none => (c, none)
  | some cfg =>
    let raw := c.asSaidNow cfg field.2 saidNow
    if optional.contains field.1 && Engine.nothingButNo b raw then
      (c.modify fun s => { s with askedBeforeConfirm := s.askedBeforeConfirm.insert field.1 }, none)
    else c.takeHeard field.1 raw heard cfg

/-- The values of the agent's, one after the other. -/
def takeFields (optional : List String) (heard saidNow : String) :
    Fields → Check b → List SlotFill → Check b × List SlotFill
  | [], c, fills => (c, fills)
  | field :: fields, c, fills =>
    let (c, fill) := c.takeField optional heard saidNow field
    takeFields optional heard saidNow fields c (fills ++ fill.toList)

end Check

namespace Engine

variable {b : Business} [Unicode]

/-- A run for values that belong to one task only, when there is none. -/
def inferRun (e : Engine b) (fills : List SlotFill) : Engine b :=
  match e.state.run, e.inferPipeline fills with
  | none, some (pipeline, intent) => e.startRun pipeline intent
  | _, _ => e

/-- **`apply_agent_fields`**: the engine with the values taken, whether any value of the task
changed, and the slots rejected. -/
def applyAgentFields (e : Engine b) (fields : Fields) : Engine b × Bool × List String :=
  let fields := e.asThisTasks fields
  let (c, fills) :=
    Check.takeFields e.optionalSlots e.heardSoFar ((e.state.lastCallerLine).getD "") fields
    (⟨e, [], []⟩ : Check b) []
  let e := c.engine.modify fun s => { s with agentNotes := s.agentNotes ++ c.notes }
  if fills.isEmpty then (e, false, c.rejected)
  else
    let e := e.inferRun fills
    let before := e.state.run.map PipelineRun.slots
    let (e, _) := e.applyFills fills
    (e, decide (e.state.run.map PipelineRun.slots ≠ before), c.rejected)

/-- The rewrites the turn and its probe share, from `by_preposition` to `with_city_correction`. -/
def throughReaders (e : Engine b) (transcript : String) (fields : Fields) : Engine b × Fields :=
  let fields := e.byPreposition transcript fields
  let fields := e.withPatterns transcript fields
  let (e, fields) := e.answerInPlace transcript fields
  let fields := e.withCues transcript fields
  (e, e.withCityCorrection transcript fields)

end Engine

end Callora
