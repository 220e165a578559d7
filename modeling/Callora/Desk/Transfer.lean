/-
**The desk: one transfer and the steps that reach it.**

A caller handed to the dispatch desk waits in a conference of their own while the desk numbers are rung.
The transfer is an entry of a map behind a lock; `World` holds the entry, where `transfer` stands, whether
the timeout is armed, and the handlers that are still under way. A step is one section under the lock, or
one request to the telephony service; the steps of different handlers come in any order:

- `transfer` moves the caller, rings the numbers and looks whether any call was created (`go`, `moved`,
  `dialed`, `cancelled`);
- the timeout, the callbacks of the legs, the caller's leaving and the conference's events take the lock
  once, and leave what they do after it as a task, whose jobs run one at a time (`run`).

The trace of a run lists what was asked of the service, what was replied to a leg, and what happened
to the legs and the caller. A run begins when the entry is made.
-/
import Callora.Library.Runs
import Callora.Library.Pools

set_option linter.unusedSectionVars false

namespace Callora.Desk

open Runs

/-- The documents the service is answered with. -/
inductive Twiml
  | sayHangup (text language : String)
  | deskJoin (summary language conference statusUrl : String)
  | hangup
  deriving DecidableEq, Repr

/-- What is asked of the telephony service once the caller waits. -/
inductive Request
  | redirect (caller : String) (twiml : Twiml)
  | dial (number callFrom url statusUrl : String) (ring : ℕ)
  | cancel (leg : String)
  | hangup (caller : String)
  deriving DecidableEq, Repr

/-- What `transfer` is called with: the call, the summary and the desk's settings. -/
structure Asked where
  base : String
  token : String
  callId : String
  callSid : String
  callTo : String
  summary : String
  language : String
  unavailable : String
  numbers : List String
  callerId : Option String
  maxWaitSeconds : ℕ
  deriving Repr

namespace Asked

def conference (a : Asked) : String := "desk-" ++ a.callId

def giveUp (a : Asked) : Twiml := .sayHangup a.unavailable a.language

def conferenceUrl (a : Asked) : String :=
  a.base ++ "/webhooks/twilio/desk-conference" ++ "?t=" ++ a.token

def url (a : Asked) : String := a.base ++ "/webhooks/twilio/desk" ++ "?t=" ++ a.token

def statusUrl (a : Asked) : String := a.base ++ "/webhooks/twilio/desk-status" ++ "?t=" ++ a.token

def ring (a : Asked) : ℕ := max 15 (min a.maxWaitSeconds 60)

/-- The request that rings a number. -/
def dial (a : Asked) (number : String) : Request :=
  .dial number (a.callerId.getD a.callTo) a.url a.statusUrl a.ring

end Asked

/-- A transfer to one desk number. -/
def Asked.oneNumber : Asked where
  base := "https://calls.example"
  token := "t"
  callId := "c"
  callSid := "CAcaller"
  callTo := "+97230000000"
  summary := "ride"
  language := "en-US"
  unavailable := "no one is available"
  numbers := ["+972501234567"]
  callerId := none
  maxWaitSeconds := 15

structure Transfer where
  conference : String
  caller : String
  summary : String
  language : String
  legs : List String
  /-- Legs that ended without anyone answering. -/
  ended : List String
  /-- Every leg has been created. -/
  dialed : Bool
  /-- What the caller hears when no one can take the call. -/
  giveUp : Twiml
  taken : Bool
  winner : Option String
  connected : Bool
  deriving DecidableEq, Repr

/-- The entry `transfer` makes. -/
def Transfer.opened (a : Asked) : Transfer where
  conference := a.conference
  caller := a.callSid
  summary := a.summary
  language := a.language
  legs := []
  ended := []
  dialed := false
  giveUp := a.giveUp
  taken := false
  winner := none
  connected := false

/-! ### The sections under the lock -/

/-- What `leg_ended` found. -/
inductive Ending
  /-- The winner left before joining. -/
  | abandoned
  /-- A leg ended while no one had answered. -/
  | counted
  | ignored
  deriving DecidableEq, Repr

namespace Transfer

/-- A leg whose dial returned. Whether it comes too late, and is to be cancelled. -/
def legCreated (x : Transfer) (leg : String) : Bool × Transfer :=
  (x.taken && x.winner != some leg, { x with legs := x.legs ++ [leg] })

/-- The timeout: the legs to cancel, where it takes the transfer. -/
def expire (x : Transfer) : Option (List String × Transfer) :=
  if !x.taken || (x.winner.isSome && !x.connected) then
    some (x.legs, { x with taken := true, winner := none, legs := [] })
  else none

def legEnded (x : Transfer) (leg : String) : Ending × Transfer :=
  if x.taken then
    if x.winner = some leg ∧ x.connected then (.ignored, { x with winner := none })
    else if x.winner = some leg ∧ !x.connected then (.abandoned, { x with winner := none })
    else (.ignored, x)
  else if leg ∈ x.ended then (.counted, x)
  else (.counted, { x with ended := x.ended ++ [leg] })

def giveUpIfAllFailed (x : Transfer) : Option Transfer :=
  if x.taken || !x.dialed || x.legs.isEmpty || !x.legs.all (· ∈ x.ended) then none
  else some { x with taken := true }

def callerEnded (x : Transfer) : List String × Transfer :=
  (x.legs, { x with taken := true, winner := none, legs := [] })

/-- `transfer` takes the transfer itself, as no call could be created. -/
def take (x : Transfer) : Transfer := { x with taken := true }

/-- What a leg hears that is given the summary and the caller. -/
def join (x : Transfer) (statusUrl : String) : Twiml :=
  .deskJoin x.summary x.language x.conference statusUrl

/-- What the leg is told, and the legs to cancel. -/
def answered (x : Transfer) (statusUrl leg : String) : Twiml × List String × Transfer :=
  if x.winner = some leg then (x.join statusUrl, [], x)
  else if x.taken || leg.isEmpty || leg ∈ x.ended then (.hangup, [], x)
  else (x.join statusUrl, x.legs.filter (· ≠ leg), { x with taken := true, winner := some leg })

end Transfer

/-- Twilio's statuses of a call that ended. -/
def terminal (status : String) : Bool :=
  status ∈ ["busy", "failed", "no-answer", "canceled", "rejected", "completed"]

/-! ### Handlers under way -/

/-- What a handler does after its section. -/
inductive Job
  /-- `fallback`'s redirect. -/
  | redirect (caller : String) (twiml : Twiml)
  /-- The hold is ended, as the redirect failed. -/
  | hangup (caller : String)
  | cancel (leg : String)
  | giveUpIfAllFailed
  | callerEnded
  deriving DecidableEq, Repr

/-- Where `transfer` stands. -/
inductive Dialing
  /-- The caller is being moved. -/
  | moving
  /-- At the head of the loop over the numbers. -/
  | ringing (numbers attempted : List String)
  /-- A number is being dialed. -/
  | dialing (numbers attempted : List String)
  /-- A leg that came too late is being cancelled. -/
  | late (numbers attempted : List String)
  /-- The loop is over. -/
  | rung
  /-- No desk call could be created. -/
  | unrung
  | returned (moved : Bool)
  deriving DecidableEq, Repr

structure World where
  entry : Option Transfer
  dialing : Dialing
  armed : Bool
  tasks : List (List Job)
  deriving DecidableEq, Repr

inductive Input
  /-- The caller is in the conference, or could not be moved. -/
  | moved (ok : Bool)
  /-- The next section of `transfer`. -/
  | go
  | dialed (leg : Option String)
  | cancelled
  | timeout
  | legEnded (leg status : String)
  | answered (leg : String)
  | callerEnded
  | conferenceEvent (event : String)
  /-- The next job of a handler under way, and how the service answers. -/
  | run (task : ℕ) (ok : Bool)
  /-- The entry is an hour old: longer than the longest wait. -/
  | forget
  deriving DecidableEq, Repr

/-- What happens in a run. -/
inductive Act
  | asked (request : Request)
  | replied (leg : String) (twiml : Twiml)
  | created (leg : String)
  | ended (leg : String)
  /-- The caller left, or the conference ended. -/
  | left
  /-- The conference started with a winner. -/
  | started
  /-- It was decided that the caller is told that no one is available. -/
  | gaveUp
  deriving DecidableEq, Repr

namespace World

/-- The world where the entry is made and the caller is being moved. -/
def opened (a : Asked) : World := ⟨some (.opened a), .moving, false, []⟩

/-- A handler is under way. -/
def spawn (w : World) (jobs : List Job) : World := { w with tasks := w.tasks ++ [jobs] }

/-- The next number that was not tried yet, and those after it. -/
def nextNumber (attempted : List String) : List String → Option (String × List String)
  | [] => none
  | number :: numbers =>
    if number ∈ attempted then nextNumber attempted numbers else some (number, numbers)

/-- The next section of `transfer`. -/
def go (a : Asked) (w : World) : List Act × World :=
  match w.dialing with
  | .ringing numbers attempted =>
    match nextNumber attempted numbers with
    | none => ([], { w with dialing := .rung })
    | some (number, numbers) =>
      if w.entry.all (·.taken) then ([], { w with dialing := .rung })
      else ([.asked (a.dial number)], { w with dialing := .dialing numbers (number :: attempted) })
  | .rung =>
    match w.entry with
    | none => ([], { w with dialing := .unrung })
    | some x =>
      if x.taken then
        ([], { w with entry := some { x with dialed := true }, dialing := .returned true })
      else if x.legs.isEmpty then
        ([], { w with entry := some { x with dialed := true }, dialing := .unrung })
      else
        -- a leg may have been refused while the others were still being dialed
        ([], { w with entry := some { x with dialed := true }, dialing := .returned true }.spawn
          [.giveUpIfAllFailed])
  | .unrung =>
    ([.gaveUp],
      { w with entry := w.entry.map Transfer.take, dialing := .returned true }.spawn
        [.redirect a.callSid a.giveUp])
  | _ => ([], w)

/-- A dial returned. -/
def dialed (w : World) (leg : Option String) : List Act × World :=
  match w.dialing, leg with
  | .dialing numbers attempted, none => ([], { w with dialing := .ringing numbers attempted })
  | .dialing numbers attempted, some leg =>
    match w.entry.map (·.legCreated leg) with
    | none =>
      ([.created leg, .asked (.cancel leg)], { w with dialing := .late numbers attempted })
    | some (true, x) =>
      ([.created leg, .asked (.cancel leg)],
        { w with entry := some x, dialing := .late numbers attempted })
    | some (false, x) =>
      ([.created leg], { w with entry := some x, dialing := .ringing numbers attempted })
  | _, _ => ([], w)

/-- The next job of a handler. -/
def perform (w : World) (task : ℕ) (ok : Bool) : List Act × World :=
  match w.tasks[task]? with
  | some (.redirect caller twiml :: jobs) =>
    ([.asked (.redirect caller twiml)],
      { w with tasks := w.tasks.set task (if ok then jobs else .hangup caller :: jobs) })
  | some (.hangup caller :: jobs) =>
    ([.asked (.hangup caller)], { w with tasks := w.tasks.set task jobs })
  | some (.cancel leg :: jobs) =>
    ([.asked (.cancel leg)], { w with tasks := w.tasks.set task jobs })
  | some (.giveUpIfAllFailed :: jobs) =>
    match w.entry with
    | none => ([], { w with tasks := w.tasks.set task jobs })
    | some x =>
      match x.giveUpIfAllFailed with
      | none => ([], { w with tasks := w.tasks.set task jobs })
      | some x' =>
        ([.gaveUp], { w with entry := some x',
                             tasks := w.tasks.set task (.redirect x.caller x.giveUp :: jobs) })
  | some (.callerEnded :: jobs) =>
    match w.entry with
    | none => ([.left], { w with tasks := w.tasks.set task jobs })
    | some x =>
      ([.left], { w with entry := some x.callerEnded.2,
                         tasks := w.tasks.set task (x.callerEnded.1.map .cancel ++ jobs) })
  | _ => ([], w)

/-- One step of the desk. -/
def step (a : Asked) (w : World) : Input → List Act × World
  | .moved ok =>
    match w.dialing, ok with
    | .moving, true => ([], { w with dialing := .ringing a.numbers [], armed := true })
    | .moving, false => ([], { w with entry := none, dialing := .returned false })
    | _, _ => ([], w)
  | .go => w.go a
  | .dialed leg => w.dialed leg
  | .cancelled =>
    match w.dialing with
    | .late numbers attempted => ([], { w with dialing := .ringing numbers attempted })
    | _ => ([], w)
  | .timeout =>
    if w.armed then
      match w.entry with
      | none => ([], { w with armed := false })
      | some x =>
        match x.expire with
        | none => ([], { w with armed := false })
        | some (legs, x') =>
          ([.gaveUp], { w with entry := some x', armed := false }.spawn
            (.redirect x.caller x.giveUp :: legs.map .cancel))
    else ([], w)
  | .legEnded leg status =>
    if leg.isEmpty || !terminal status then ([], w)
    else
      match w.entry with
      | none => ([], w)
      | some x =>
        match x.legEnded leg with
        | (.abandoned, x') =>
          ([.ended leg, .gaveUp],
            { w with entry := some x' }.spawn [.redirect x.caller x.giveUp])
        | (.ignored, x') => ([.ended leg], { w with entry := some x' })
        | (.counted, x') =>
          ([.ended leg], { w with entry := some x' }.spawn [.giveUpIfAllFailed])
  | .answered leg =>
    match w.entry with
    | none => ([.replied leg .hangup], w)
    | some x =>
      match x.answered a.conferenceUrl leg with
      | (twiml, others, x') =>
        ([.replied leg twiml], { w with entry := some x' }.spawn (others.map .cancel))
  | .callerEnded =>
    match w.entry with
    | none => ([.left], w)
    | some x =>
      ([.left], { w with entry := some x.callerEnded.2 }.spawn (x.callerEnded.1.map .cancel))
  | .conferenceEvent event =>
    match w.entry with
    | none => ([], w)
    | some x =>
      if event = "conference-start" ∧ x.winner.isSome then
        ([.started], { w with entry := some { x with connected := true } })
      else if event = "conference-end" then ([], w.spawn [.callerEnded])
      else ([], w)
  | .run task ok => w.perform task ok
  | .forget =>
    match w.dialing, w.armed with
    | .returned _, false => ([], { w with entry := none })
    | _, _ => ([], w)

end World

/-- What happened at one step. -/
abbrev Event := Runs.Event World Input (List Act)

/-- What happened in a run. -/
def trace (evs : List Event) : List Act := evs.flatMap (·.output)

@[simp] theorem trace_append (evs evs' : List Event) : trace (evs ++ evs') = trace evs ++ trace evs' :=
  List.flatMap_append

@[simp] theorem trace_single (ev : Event) : trace [ev] = ev.output := by
  simp [trace]

end Callora.Desk
