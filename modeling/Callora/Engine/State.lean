/-
**The state of a call.**

Explicit call state is the source of truth for what the caller wants and what has been collected. The
part that decides what is sent, transferred and recorded is the `Ledger` (the phase, the runs, the
completed runs, the counters and the customer); `CallState` adds what only shapes the conversation.

- `PipelineRun.set`, `clear`, `undo` are the journaled changes of a run's slots;
- `CallState.remember` bounds the transcript; `sameQuestionStreak` counts a repeated question.

`PipelineRun.serial` names a run as an object over its whole life (current, suspended, resumed, and
in its `CompletedRun`); `Ledger.runsStarted` is the next one, and `Ledger.failuresSaid` the runs
whose failure was said. The source has no such fields, and no function here reads them.
-/
import Callora.Business.Render
import Callora.Business.Gazetteer

set_option linter.unusedSectionVars false

namespace Callora

open Callora.Text

section Runs

structure SlotState where
  value : SlotValue
  confidence : F32
  provenance : Provenance
  /-- The caller explicitly agreed to it. -/
  confirmed : Bool
  deriving DecidableEq

/-- Where a run stands. -/
inductive Step where
  /-- Collecting slots; the slot just asked for, if any. -/
  | collecting (awaiting : Option String)
  /-- Reading one uncertain value back. -/
  | confirmingSlot (slot : String)
  /-- Everything was read back; waiting for yes or no. -/
  | awaitingConfirmation
  /-- The business action is running. -/
  | executing (actionRun : Nat)
  deriving DecidableEq

namespace Step

/-- The run waits for its action. -/
def isExecuting : Step → Bool
  | executing _ => true
  | _ => false

/-- The run is collecting slots. -/
def isCollecting : Step → Bool
  | collecting _ => true
  | _ => false

/-- A value, or all of them, is being read back. -/
def isReadingBack : Step → Bool
  | confirmingSlot _ => true
  | awaitingConfirmation => true
  | _ => false

end Step

/-- One undoable change. -/
structure JournalEntry where
  slot : String
  previous : Option SlotState
  deriving DecidableEq

/-- A task under way. -/
structure PipelineRun where
  serial : Nat
  pipeline : String
  intent : String
  slots : BTreeMap SlotState
  step : Step
  journal : List JournalEntry
  /-- The full read-back was accepted. -/
  confirmed : Bool
  attempts : Nat
  /-- Rules that already fired in this run. -/
  firedRules : List String
  deriving DecidableEq

namespace PipelineRun

/-- `PipelineRun::new`. -/
def new (serial : Nat) (pipeline intent : String) : PipelineRun where
  serial := serial
  pipeline := pipeline
  intent := intent
  slots := ∅
  step := .collecting none
  journal := []
  confirmed := false
  attempts := 0
  firedRules := []

/-- `PipelineRun::awaiting_slot`. -/
def awaitingSlot (r : PipelineRun) : Option String :=
  match r.step with
  | .collecting awaiting => awaiting
  | .confirmingSlot slot => some slot
  | _ => none

/-- The run holds a value for the slot. -/
def holds (r : PipelineRun) (slot : String) : Bool := r.slots.contains slot

/-- The values the run holds. -/
def values (r : PipelineRun) : BTreeMap SlotValue := r.slots.map fun _ s => s.value

/-- `PipelineRun::set`: a changed value invalidates an earlier read-back. -/
def set (r : PipelineRun) (slot : String) (st : SlotState) : PipelineRun :=
  let previous := r.slots[slot]?
  let changed := previous.map SlotState.value ≠ some st.value
  { r with
    slots := r.slots.insert slot st
    journal := r.journal ++ [⟨slot, previous⟩]
    confirmed := if changed then false else r.confirmed
    firedRules := if changed then [] else r.firedRules }

/-- `PipelineRun::clear`. -/
def clear (r : PipelineRun) (slot : String) : PipelineRun :=
  match r.slots[slot]? with
  | none => r
  | some previous =>
    { r with
      slots := r.slots.erase slot
      journal := r.journal ++ [⟨slot, some previous⟩]
      confirmed := false }

/-- `PipelineRun::undo`: the run before its last change, and the slot that changed. -/
def undo (r : PipelineRun) : Option (PipelineRun × String) :=
  r.journal.getLast?.map fun entry =>
    ({ r with
      journal := r.journal.dropLast
      slots := match entry.previous with
        | some previous => r.slots.insert entry.slot previous
        | none => r.slots.erase entry.slot
      confirmed := false }, entry.slot)

end PipelineRun

end Runs

section Calls

inductive Phase where
  | active
  | handingOff
  | ending
  deriving DecidableEq

inductive Speaker where
  | caller
  | agent
  deriving DecidableEq

/-- One line of the transcript. -/
structure Turn where
  speaker : Speaker
  text : String
  deriving DecidableEq

/-- A finished run, kept for the handoff and for the record of the call. -/
structure CompletedRun where
  serial : Nat
  pipeline : String
  outcome : String
  slots : BTreeMap SlotValue
  result : Option Json

/-- One of the business's responses, with the values it fills in. -/
structure Prompt where
  response : String
  values : BTreeMap String
  deriving DecidableEq

/-- **The ledger**: what decides what is sent, transferred, ended and recorded. -/
structure Ledger where
  phase : Phase
  run : Option PipelineRun
  /-- Runs paused by an intent switch, the most recent last. -/
  suspended : List PipelineRun
  /-- Actions that change nothing and failed in this call, by action and input. -/
  failedActions : List String
  completed : List CompletedRun
  actionFailures : Nat
  customer : Option Customer
  callerPhone : Option String
  nextActionRun : Nat
  runsStarted : Nat
  failuresSaid : List Nat

/-- **The state of a call.** -/
structure CallState extends Ledger where
  businessId : String
  lastPlan : Option SpeechPlan
  fallbackLevel : Nat
  /-- Times the fallback ladder was started over instead of ending the call. -/
  fallbackRestarts : Nat
  silenceReprompts : Nat
  /-- Sticky delivery override. -/
  delivery : Option String
  gainDb : ℚ
  lastVariant : BTreeMap Nat
  turns : Nat
  history : List Turn
  /-- What could not be accepted from the agent's last decision. -/
  agentNotes : List String
  /-- The locality given for a place slot that still needs its street. -/
  placeCities : BTreeMap String
  /-- Place slots whose street was not found once already. -/
  doubtedStreets : BTreeSet
  /-- Place slots whose street only the second hearing heard. -/
  unheardStreets : BTreeSet
  /-- How many times each slot's place was rejected as never said. -/
  unheardRejections : BTreeMap Nat
  /-- Optional slots already asked before a read-back. -/
  askedBeforeConfirm : BTreeSet
  /-- Required details asked for and not given yet, in the order asked. -/
  openQuestions : List String
  /-- The details the last question asked for. -/
  lastAsks : List String
  /-- A street and number given without its city. -/
  placeStreets : BTreeMap String
  /-- What to ask about a place that was not taken. -/
  doubtConfirm : BTreeMap (List Prompt)
  /-- A street given without its house number, and its city. -/
  placeNumbers : BTreeMap (String × String)
  /-- Places whose house number was asked once. -/
  numberAsked : BTreeSet
  /-- How many times each place was not taken. -/
  placeRejections : BTreeMap Nat
  /-- This turn's second transcript of the caller's words. -/
  secondHearing : Option String
  /-- A lone goodbye in the middle of a booking was taken for a word misheard once. -/
  goodbyeDoubted : Bool
  addressForm : AddressForm
  /-- The caller asked to wait. -/
  waiting : Bool
  /-- The house number said with a street that was not found in its city. -/
  doubtedNumbers : BTreeMap String
  /-- Streets the system offered. -/
  offeredStreets : List String
  /-- Every detail a question has asked for in this call. -/
  askedSlots : BTreeSet
  /-- The caller turn at which the line was last said to be noisy. -/
  noiseApologyTurn : Option Nat
  /-- Turns with a curse or a sexual word. -/
  abuseStrikes : Nat
  /-- The caller said the ride is within one town. -/
  sameCity : Bool

/-- The ledger of a call that starts. -/
def Ledger.new : Ledger where
  phase := .active
  run := none
  suspended := []
  failedActions := []
  completed := []
  actionFailures := 0
  customer := none
  callerPhone := none
  nextActionRun := 1
  runsStarted := 0
  failuresSaid := []

namespace CallState

/-- `HISTORY_LIMIT`. -/
def historyLimit : Nat := 40

/-- `CallState::new`. -/
def new (businessId : String) : CallState where
  toLedger := Ledger.new
  businessId := businessId
  lastPlan := none
  fallbackLevel := 0
  fallbackRestarts := 0
  silenceReprompts := 0
  delivery := none
  gainDb := 0
  lastVariant := ∅
  turns := 0
  history := []
  agentNotes := []
  placeCities := ∅
  doubtedStreets := ∅
  unheardStreets := ∅
  unheardRejections := ∅
  askedBeforeConfirm := ∅
  openQuestions := []
  lastAsks := []
  placeStreets := ∅
  doubtConfirm := ∅
  placeNumbers := ∅
  numberAsked := ∅
  placeRejections := ∅
  secondHearing := none
  goodbyeDoubted := false
  addressForm := .unknown
  waiting := false
  doubtedNumbers := ∅
  offeredStreets := []
  askedSlots := ∅
  noiseApologyTurn := none
  abuseStrikes := 0
  sameCity := false

/-- The last thing the agent said. -/
def lastAgentLine (s : CallState) : Option String :=
  (s.history.reverse.find? fun t => t.speaker == .agent).map Turn.text

/-- The last thing the caller said. -/
def lastCallerLine (s : CallState) : Option String :=
  (s.history.reverse.find? fun t => t.speaker == .caller).map Turn.text

/-- Everything the caller has said in this call, one after the other. -/
def callerLines (s : CallState) : List String :=
  (s.history.filter fun t => t.speaker == .caller).map Turn.text

variable [Unicode]

/-- `CallState::same_question_streak`: how many times in a row the agent asked the very same
question. -/
def sameQuestionStreak (s : CallState) : Nat :=
  let asked := (s.history.filter fun t => t.speaker == .agent).map fun t =>
    normalize ((split (fun c => c == '.' || c == '!') t.text).getLastD t.text)
  match asked.getLast? with
  | none => 0
  | some last =>
    if last = "" ∨ !(s.lastAgentLine.any fun t => endsWithChar t '?') then 0
    else (asked.reverse.takeWhile (· == last)).length

/-- `CallState::remember`. -/
def remember (s : CallState) (speaker : Speaker) (text : String) : CallState :=
  if trim text = "" then s
  else
    let form := match speaker with
      | .caller => (AddressForm.detect text).getD s.addressForm
      | .agent => s.addressForm
    let history := s.history ++ [⟨speaker, text⟩]
    { s with addressForm := form, history := history.drop (history.length - historyLimit) }

@[simp] theorem remember_toLedger (s : CallState) (speaker : Speaker) (text : String) :
    (s.remember speaker text).toLedger = s.toLedger := by
  unfold remember
  split <;> rfl

-- Comparing two states must not compute what each of them remembers.
attribute [irreducible] remember

end CallState

end Calls

end Callora
