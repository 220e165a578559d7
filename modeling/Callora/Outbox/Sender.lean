/-
**The outbox: the senders of order messages.**

Every server process drains the outbox: it selects the first message that is due, hands it to the
messaging service, and writes what came of it. The three are separate steps, and processes overlap
while a new server takes over. `Handling` is what the service did with a message and `Carried` what
became of its answer; `call` is what the sender makes of the two.

A run's trace lists the messages that were handed over, so that they may have been delivered, and those a
person sent again. `Once` says that no message is handed over twice unless somebody does so, and that a
message that may be out is not waiting again.
-/
import Callora.Library.Runs
import Callora.Library.Pools

set_option linter.unusedSectionVars false

namespace Callora.Outbox

open Runs

/-! ### The service -/

inductive ServiceError
  | refused (code : String)
  | notReady
  | notFound
  | unavailable (why : String)
  /-- The message may be out. -/
  | outcomeUnknown (why : String)
  deriving DecidableEq, Repr

/-- What came of a send. -/
abbrev Sent := Except ServiceError Unit

/-- What the service did with a message. -/
inductive Handling
  /-- It was handed over. -/
  | sent
  /-- Refused; a bot's answer that cannot be read is taken for a refusal, so it may be out. -/
  | refused (code : String) (mayBeOut : Bool)
  | notReady
  | notFound
  /-- It failed before the message was handed over. -/
  | failed
  /-- It failed while the message was handed over. -/
  | unknown
  deriving DecidableEq, Repr

/-- The text may have been handed to WhatsApp or Telegram. -/
def Handling.mayBeOut : Handling → Bool
  | .sent | .unknown => true
  | .refused _ mayBeOut => mayBeOut
  | _ => false

/-- The status the service answers with, and the error of the body. -/
def Handling.answer : Handling → ℕ × String
  | .sent => (200, "")
  | .refused code _ => (403, code)
  | .notFound => (404, "not_found")
  | .notReady => (409, "not_ready")
  | .failed => (500, "failed")
  | .unknown => (502, "outcome_unknown")

/-- What became of the service's answer. -/
inductive Carried
  | answered
  /-- The status came, the body did not. -/
  | unread
  | timedOut
  /-- The connection failed before a status came. -/
  | broken
  deriving DecidableEq, Repr

/-- `Service::call`, as far as a send needs it. -/
def call (h : Handling) : Carried → Sent
  | .timedOut => .error (.outcomeUnknown "timeout")
  | .broken => .error (.unavailable "connection")
  | carried =>
    let status := h.answer.1
    let code := if carried = .answered then h.answer.2 else ""
    if 200 ≤ status ∧ status ≤ 299 then .ok ()
    else if status = 403 then .error (.refused code)
    else if status = 404 then .error .notFound
    else if status = 409 then .error .notReady
    else if status = 502 ∧ code = "outcome_unknown" then .error (.outcomeUnknown code)
    else .error (.unavailable (toString status ++ " " ++ code))

/-! ### The outbox -/

inductive Status
  | pending
  | sent
  | failed
  deriving DecidableEq, Repr

structure Row where
  id : ℕ
  account : String
  chatId : String
  text : String
  status : Status
  attempts : ℕ
  nextAttemptAt : ℕ
  sentAt : Option ℕ
  lastError : Option ServiceError
  deriving DecidableEq, Repr

/-- Retries after a failure that may pass: 30 s, 1, 2, 4, 8, then every 10 minutes. -/
def backoff (attempts : ℕ) : ℕ := min (30 * 2 ^ min attempts 5) 600

def maxAttempts : ℕ := 40

/-- What a sender reads of the message it sends. -/
structure Picked where
  id : ℕ
  account : String
  chatId : String
  text : String
  attempts : ℕ
  deriving DecidableEq, Repr

def Row.picked (row : Row) : Picked := ⟨row.id, row.account, row.chatId, row.text, row.attempts⟩

/-- What came of a send, in the message's row. -/
def Row.record (row : Row) (p : Picked) (now : ℕ) : Sent → Row
  | .ok () =>
      { row with status := .sent, sentAt := some now, attempts := row.attempts + 1, lastError := none }
  | .error (.refused code) =>
    { row with status := .failed, attempts := row.attempts + 1, lastError := some (.refused code) }
  -- maybe sent: never again on its own
  | .error (.outcomeUnknown why) =>
    { row with status := .failed, attempts := row.attempts + 1, lastError := some (.outcomeUnknown why) }
  | .error e =>
    { row with
      attempts := row.attempts + 1
      lastError := some e
      status := if p.attempts + 1 ≥ maxAttempts then .failed else row.status
      nextAttemptAt := now + backoff p.attempts }

/-- Where a sender stands in its round. -/
inductive Sender
  | idle
  /-- It selected a message. -/
  | sending (p : Picked)
  /-- It knows what came of it. -/
  | updating (p : Picked) (result : Sent)
  /-- Its process stopped. -/
  | gone
  deriving DecidableEq

/-- The outbox and the server processes. -/
structure World where
  /-- In the order of their ids. -/
  rows : List Row
  nextId : ℕ
  senders : List Sender
  deriving DecidableEq

def World.empty : World := ⟨[], 0, []⟩

inductive Input
  /-- A server process starts. -/
  | start
  /-- It stops, wherever its sender stands. -/
  | stop (sender : ℕ)
  /-- The turn of an account that is ready, and whose pace allows a message. -/
  | select (sender : ℕ) (account : String) (now : ℕ)
  | send (sender : ℕ) (handling : Handling) (carried : Carried)
  /-- The update, and whether the database takes it. -/
  | update (sender : ℕ) (now : ℕ) (ok : Bool)
  | enqueue (account chatId text : String) (now : ℕ)
  /-- A person sends the message again. -/
  | retry (id now : ℕ)
  /-- The account is removed. -/
  | forget (account : String)
  deriving DecidableEq

inductive Act
  /-- The text may have been handed over. -/
  | handed (id : ℕ)
  /-- A person sends it again. -/
  | retried (id : ℕ)
  deriving DecidableEq, Repr

namespace World

/-- The first message of an account that is due. -/
def due (w : World) (account : String) (now : ℕ) : Option Row :=
  w.rows.find? fun row => row.account = account ∧ row.status = .pending ∧ row.nextAttemptAt ≤ now

def setSender (w : World) (i : ℕ) (s : Sender) : World := { w with senders := w.senders.set i s }

/-- An update of the rows with some property. -/
def updateWhere (w : World) (which : Row → Bool) (change : Row → Row) : World :=
  { w with rows := w.rows.map fun row => if which row then change row else row }

/-- One step of the senders, the order cards and the dashboard. -/
def step (w : World) : Input → List Act × World
  | .start => ([], { w with senders := w.senders ++ [.idle] })
  | .stop i => ([], w.setSender i .gone)
  | .select i account now =>
    match w.senders[i]?, w.due account now with
    | some .idle, some row => ([], w.setSender i (.sending row.picked))
    | _, _ => ([], w)
  | .send i handling carried =>
    match w.senders[i]? with
    | some (.sending p) =>
      (if handling.mayBeOut then [.handed p.id] else [],
        w.setSender i (.updating p (call handling carried)))
    | _ => ([], w)
  | .update i now ok =>
    match w.senders[i]? with
    | some (.updating p result) =>
      ([], (if ok then w.updateWhere (·.id = p.id) (·.record p now result) else w).setSender i .idle)
    | _ => ([], w)
  | .enqueue account chatId text now =>
    ([], { w with rows := w.rows ++ [⟨w.nextId, account, chatId, text, .pending, 0, now, none, none⟩],
                  nextId := w.nextId + 1 })
  | .retry id now =>
    ([.retried id], w.updateWhere (fun row => row.id = id ∧ row.status ∈ [.failed, .pending]) fun row =>
      { row with status := .pending, attempts := 0, nextAttemptAt := now, lastError := none })
  | .forget account =>
    ([], w.updateWhere (fun row => row.account = account ∧ row.status = .pending) fun row =>
      { row with status := .failed, lastError := some (.unavailable "account removed") })

end World

/-- What happened at one step. -/
abbrev Event := Runs.Event World Input (List Act)

/-- What happened in a run. -/
def trace (evs : List Event) : List Act := evs.flatMap (·.output)

@[simp] theorem trace_append (evs evs' : List Event) : trace (evs ++ evs') = trace evs ++ trace evs' :=
  List.flatMap_append

@[simp] theorem trace_single (ev : Event) : trace [ev] = ev.output := by
  simp [trace]

/-- The message a sender has selected. -/
def Sender.holds (id : ℕ) : Sender → Bool
  | .sending p | .updating p _ => p.id = id
  | _ => false

/-- **A message goes out at most once on its own**: unless a person sends it again, it is handed
over at most once, and when it may be out and no sender is at it, it is not waiting. -/
def Once (t : List Act) (w : World) : Prop :=
  ∀ id, .retried id ∉ t → t.count (.handed id) ≤ 1 ∧
    (.handed id ∈ t → (∀ s ∈ w.senders, ¬ s.holds id) → ∀ row ∈ w.rows, row.id = id →
      row.status ≠ .pending)

end Callora.Outbox
