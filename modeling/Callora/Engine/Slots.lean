/-
**What fills and changes the slots of a run.**

Every writer of a run's slots that is not a rule: a new run pre-filled from the last completed one,
defaults and values of other tasks (`fillDefaults`), understood values (`applyFills`), and the two
places where a stale or misplaced value goes (`dropStalePlace`, `misplacedCity`).

Filling only adds values to slots that held none, and storing keeps the run's serial, pipeline, intent and
attempts; both are read off the moves of the ledger that they are.
-/
import Callora.Engine.Reading

set_option linter.unusedSectionVars false

namespace Callora

open Callora.Text

namespace PipelineRun

/-- A value put into a slot directly, without the journal. -/
def fill (r : PipelineRun) (slot : String) (st : SlotState) : PipelineRun :=
  { r with slots := r.slots.insert slot st }

/-- A value put into a slot that holds none. -/
def fillAbsent (r : PipelineRun) (slot : String) (st : SlotState) : PipelineRun :=
  if r.holds slot then r else r.fill slot st

/-- A value taken out of a slot directly, without the journal. -/
def drop (r : PipelineRun) (slot : String) : PipelineRun :=
  { r with slots := r.slots.erase slot }

end PipelineRun

namespace Engine

variable {b : Business}

/-- The current run replaced. -/
def setRun (e : Engine b) (run : PipelineRun) : Engine b :=
  e.modify fun s => { s with run := some run }

/-- The current run changed, if there is one. -/
def mapRun (e : Engine b) (f : PipelineRun → PipelineRun) : Engine b :=
  e.modify fun s => { s with run := s.run.map f }

section NewRuns

/-- A value of a finished task, put into the slot of the same name if that holds none. -/
def carry (done : CompletedRun) (run : PipelineRun) (ps : PipelineSlot) : PipelineRun :=
  match done.slots[ps.slot]? with
  | some value => run.fillAbsent ps.slot ⟨value, 0.85, .rules, false⟩
  | none => run

/-- `new_run`: a run pre-filled with values of the last task that was not cancelled. -/
def newRun (e : Engine b) (pipeline intent : String) : PipelineRun :=
  let run := PipelineRun.new e.state.runsStarted pipeline intent
  match b.pipeline pipeline with
  | none => run
  | some config =>
    match (e.state.completed.reverse.filter fun c => c.outcome != "cancelled").head? with
    | none => run
    | some done => config.slots.foldl (carry done) run

/-- A new run in the place of the current one. -/
def startRun (e : Engine b) (pipeline intent : String) : Engine b :=
  e.modify fun s => { s with run := some (e.newRun pipeline intent), runsStarted := s.runsStarted + 1 }

end NewRuns

section Filling

/-- A detail the task takes from another task of the call: one suspended, one done, or a place of
which only the city is known yet. -/
def taskSource (e : Engine b) (run : PipelineRun) (ps : PipelineSlot) : Option SlotValue := do
  let source ← ps.fromSlot
  if run.holds ps.slot then none
  else
    (e.state.suspended.reverse.findSome? fun r => r.slots[source]?.map SlotState.value).or
      ((e.state.completed.reverse.findSome? fun c => c.slots[source]?).or
        (e.state.placeCities[source]?.map fun city => .place city none none))

/-- `fill_from_other_tasks`. -/
def fillFromOtherTasks (e : Engine b) : Engine b :=
  match e.state.run with
  | none => e
  | some run =>
    let found := (b.pipelineOf run).slots.filterMap fun ps =>
      (e.taskSource run ps).map fun v => (ps.slot, v)
    e.setRun (found.foldl (fun run (slot, v) => run.fill slot ⟨v, 0.9, .confirmed, false⟩) run)

/-- The customer's name, for a slot that takes it. -/
def fillName (e : Engine b) (run : PipelineRun) (ps : PipelineSlot) : PipelineRun :=
  match e.customerGives ps with
  | some v => run.fillAbsent ps.slot ⟨v, 0.9, .customer, false⟩
  | none => run

/-- The customer's name, for the slots that take it. -/
def fillNames (e : Engine b) (pipeline : PipelineConfig) (run : PipelineRun) : PipelineRun :=
  (pipeline.slots.filter fun ps => ps.fromCustomer == some "name").foldl e.fillName run

variable [Unicode]

/-- What a slot that holds nothing gets: a saved place of the customer, or its default. -/
def defaultState (e : Engine b) (ps : PipelineSlot) : Option SlotState :=
  match ps.fromCustomer.bind fun key => customerPlace e.state.customer key with
  | some place => some ⟨place, 0.8, .customer, false⟩
  | none => (ps.default.bind fun d => defaultValue b ps.slot d).map fun v => ⟨v, 1, .default, false⟩

/-- What a slot that holds nothing gets, put into it. -/
def fillDefault (e : Engine b) (run : PipelineRun) (ps : PipelineSlot) : PipelineRun :=
  match e.defaultState ps with
  | some st => run.fillAbsent ps.slot st
  | none => run

/-- `fill_defaults`: defaults and customer-known values for anything still missing. -/
def fillDefaults (e : Engine b) (pipeline : PipelineConfig) : Engine b :=
  let e := e.fillFromOtherTasks
  match e.state.run with
  | none => e
  | some run =>
    e.setRun (pipeline.slots.foldl e.fillDefault (e.fillNames pipeline run))

end Filling

section Storing

/-- An understood value that the task takes: one of its slots, certain enough. -/
def accepts (b : Business) (pipeline : PipelineConfig) (fill : SlotFill) : Bool :=
  pipeline.has fill.slot && (b.slotConfig fill.slot).any fun cfg =>
    decide (cfg.rejectBelow ≤ fill.confidence)

/-- A value stored in a run, unless it is there already. -/
def store (run : PipelineRun) (fill : SlotFill) : PipelineRun :=
  if run.slots[fill.slot]?.map SlotState.value = some fill.value then run
  else run.set fill.slot ⟨fill.value, fill.confidence, fill.provenance, false⟩

/-- `apply_fills`: store understood values; how many were accepted. -/
def applyFills (e : Engine b) (fills : List SlotFill) : Engine b × Nat :=
  match e.state.run with
  | none => (e, 0)
  | some run =>
    let taken := fills.filter (accepts b (b.pipelineOf run))
    let run := taken.foldl store run
    if taken.isEmpty then (e, 0)
    else (e.setRun (if run.step.isReadingBack then { run with step := .collecting none } else run),
      taken.length)

end Storing

section Places

/-- `note_city`: another city than before is a correction. -/
def noteCity (e : Engine b) (slot city : String) : Engine b :=
  e.modify fun s =>
    let s := if s.placeCities[slot]?.any fun before => before != city then
      { s with
        doubtedStreets := s.doubtedStreets.erase slot
        doubtConfirm := s.doubtConfirm.erase slot
        placeNumbers := s.placeNumbers.erase slot
        numberAsked := s.numberAsked.erase slot }
      else s
    { s with placeCities := s.placeCities.insert slot city }

/-- A slot holds a place that is not of this city. -/
def isStale (g : Gazetteer) (run : PipelineRun) (slot city : String) : Bool :=
  match run.slots[slot]?.map SlotState.value with
  | some (.place spoken _ _) => !((g.resolve spoken).address?.any fun a => a.citySaid == city)
  | _ => false

/-- `drop_stale_place`: the old value of a place now given in another city goes. -/
def dropStalePlace (e : Engine b) (slot city : String) : Engine b :=
  match e.gazetteer, e.state.run with
  | some g, some run =>
    if isStale g run slot city then
      (e.setRun (run.drop slot)).modify fun s =>
        { s with placeNumbers := s.placeNumbers.erase slot, numberAsked := s.numberAsked.erase slot }
    else e
  | _, _ => e

variable [Unicode]

/-- The city alone that a slot's place is, as its value or as its city so far. -/
def cityAlone (e : Engine b) (g : Gazetteer) (run : PipelineRun) (slot : String) : Option String :=
  match run.slots[slot]?.map SlotState.value with
  | some (.place spoken _ _) =>
    ((g.resolve spoken).address?.filter fun a => a.street.isNone && a.place.isNone).map Address.citySaid
  | some _ => none
  | none => e.state.placeCities[slot]?

/-- A place given to the wrong one of two slots: said now with the other's preposition, beside
another place said with this one's. -/
def wrongPlace (e : Engine b) (g : Gazetteer) (run : PipelineRun) (transcript : String) :
    Option (String × String × String) :=
  let ws := words (normalize transcript)
  [("pickup", "destination"), ("destination", "pickup")].findSome? fun (slot, other) => do
    let citySaid ← e.cityAlone g run slot
    let first := (split (· == ' ') (normalize citySaid)).headD ""
    let own := prefixesOf b slot
    let another := ws.any fun w => own.any fun p =>
      (stripPrefix w p).any fun rest => decide (2 ≤ rest.length) && rest != first
    if saidWith ws (prefixesOf b other) first && !saidWith ws own first && another then
      some (slot, citySaid, other)
    else none

/-- `misplaced_city`: a city given to the wrong one of two places is cleared. -/
def misplacedCity (e : Engine b) (transcript : String) : Engine b :=
  match e.gazetteer, e.state.run with
  | some g, some run =>
    if !run.step.isCollecting then e
    else match e.wrongPlace g run transcript with
      | none => e
      | some (slot, city, other) =>
        (e.setRun (run.clear slot)).modify fun s =>
          { s with
            placeCities := s.placeCities.erase slot
            agentNotes := s.agentNotes ++ [slot ++ ": " ++ city ++ " is the " ++ other ++
              " (the caller said it so); " ++ slot ++ " is the other place they said"] }
  | _, _ => e

/-- `answer_in_place`: values for details already given, while the question was about something
else, are not taken unless the caller is correcting. -/
def answerInPlace (e : Engine b) (transcript : String) (fields : Fields) : Engine b × Fields :=
  match e.state.run with
  | none => (e, fields)
  | some run =>
    let asked := e.state.lastAsks
    if asked.isEmpty || !run.step.isCollecting || b.correct.found (normalize transcript) then (e, fields)
    else
      let given (slot : String) : Option String :=
        if asked.contains slot then none else run.slots[slot]?.map fun st => st.value.spoken
      let notes := fields.filterMap fun (slot, raw) => do
        let current ← given slot
        if contains (normalize current) (normalize raw) then none
        else some (slot ++ " is already " ++ Json.quoteMark ++ current ++ Json.quoteMark ++
          " and your question was about " ++ join ", " asked ++
          ": it was not changed.                              " ++
          "Change a detail only when the caller corrects it.")
      (e.modify fun s => { s with agentNotes := s.agentNotes ++ notes },
        fields.filter fun (slot, _) => (given slot).isNone)

end Places

end Engine

end Callora
