/-
**The sender's limits: how many messages an account sends, and when.**

One server process drains the outbox in rounds. At an account's turn it looks whether the wait after
its last message is over, whether the hour is quiet, and how many messages the outbox says were
sent; then it takes the first message that is due, hands it to the messaging service, writes what
came of it, and draws the wait before the account's next message. Every reading of a clock is an
input of its own, and nothing is assumed of their order.

A run lists the messages that may have gone out (`Delivered`), each with its round and the moment it went
out: one whose answer the sender no longer waits for may go out at any later moment. `Held` says that they
keep the account's limits, and `Recorded` when the outbox knows of all of them.
-/
import Callora.Outbox.Sender
import Callora.Library.Windows
import Mathlib.Order.Monotone.Defs

set_option linter.unusedSectionVars false

namespace Callora.Outbox

open Runs Windows

/-! ### The pace of an account -/

/-- What the sender asks of the calendar of Israel; moments are in nanoseconds. -/
structure Calendar where
  /-- `NaiveTime::parse_from_str`, with `%H:%M`. -/
  parse : String → Option ℕ
  /-- The time of day, in seconds. -/
  timeOfDay : ℕ → ℕ
  /-- The number of the date. -/
  date : ℕ → ℕ
  /-- The earliest midnight of a moment's date, where there is one. -/
  midnight : ℕ → Option ℕ
  date_mono : Monotone date
  midnight_le : ∀ now m t, midnight now = some m → date t = date now → m ≤ t
  /-- A date without a midnight is not longer than others. -/
  no_midnight : ∀ now t, midnight now = none → date t = date now → now ≤ t + DAY

/-- How an account sends: the wait between two messages, the limits, the quiet hours, and the days of half
the limits. -/
structure Pace where
  minDelayS : ℕ
  maxDelayS : ℕ
  perHour : ℕ
  perDay : ℕ
  quiet : Bool
  quietFrom : String
  quietTo : String
  warmupDays : ℕ
  deriving DecidableEq

namespace Pace

variable (cal : Calendar) (pace : Pace)

def validate : Except String Unit :=
  if ¬ (3 ≤ pace.minDelayS ∧ pace.minDelayS ≤ 600) ∨ pace.maxDelayS < pace.minDelayS ∨
    900 < pace.maxDelayS then
    .error "the wait between messages is 3–600 seconds, the most at least the least"
  else if ¬ (1 ≤ pace.perHour ∧ pace.perHour ≤ 500) ∨ ¬ (1 ≤ pace.perDay ∧ pace.perDay ≤ 5000) then
    .error "the limits are 1–500 an hour and 1–5000 a day"
  else if 30 < pace.warmupDays then .error "warm-up is at most 30 days"
  else if (cal.parse pace.quietFrom).isNone || (cal.parse pace.quietTo).isNone then
    .error "quiet hours are HH:MM"
  else .ok ()

/-- Whether a time of day is in the quiet hours, which may run past midnight. -/
def quietAt (now : ℕ) : Bool :=
  match cal.parse pace.quietFrom, cal.parse pace.quietTo with
  | some start, some stop =>
    pace.quiet && if start ≤ stop then start ≤ now && now < stop else start ≤ now || now < stop
  | _, _ => false

/-- The hourly and daily limits, halved while the number warms up. -/
def limits (warming : Bool) : ℕ × ℕ :=
  if warming then (max (pace.perHour / 2) 1, max (pace.perDay / 2) 1) else (pace.perHour, pace.perDay)

def warming (firstReadyAt : Option ℕ) (now : ℕ) : Bool :=
  firstReadyAt.all fun t => now < t + pace.warmupDays * DAY

/-- The wait before the next message, drawn between the least and the most. -/
def wait (draw : ℕ) : ℕ :=
  pace.minDelayS + draw % (max pace.maxDelayS pace.minDelayS - pace.minDelayS + 1)

end Pace

/-- Messages an account sent in the last hour and since midnight in Israel. -/
def sentCounts (cal : Calendar) (rows : List Row) (account : String) (now : ℕ) : ℕ × ℕ :=
  let midnight := (cal.midnight now).getD (now - DAY)
  let counted (which : ℕ → Bool) := rows.countP fun row =>
    row.account = account && row.status = .sent && row.sentAt.any fun t => midnight ≤ t + HOUR && which t
  (counted fun t => now < t + HOUR, counted fun t => midnight ≤ t)

/-! ### The process -/

/-- What the sender read at an account's turn. -/
structure Round where
  account : String
  readAt : ℕ
  pace : Pace
  firstReadyAt : Option ℕ
  deriving DecidableEq

/-- The limits of a round. -/
def Round.limits (round : Round) : ℕ × ℕ :=
  round.pace.limits (round.pace.warming round.firstReadyAt round.readAt)

/-- Where the process stands in its round. -/
inductive Stage
  | idle
  | sending (round : Round) (p : Picked)
  | updating (round : Round) (p : Picked) (result : Sent)
  deriving DecidableEq

/-- One sender process, and the outbox. -/
structure Process where
  outbox : World
  stage : Stage
  nextAllowed : String → Option ℕ

inductive Move
  /-- The turn of an account that is ready: its pace, and whether its messages could be counted. -/
  | round (account : String) (pace : Pace) (firstReadyAt : Option ℕ) (counted : Bool)
  /-- The service has the message; how much later it goes out, if the answer does not wait for it. -/
  | send (handling : Handling) (carried : Carried) (late : ℕ)
  /-- The update, whether the database takes it, and the draw of the next wait. -/
  | update (ok : Bool) (draw : ℕ)
  | enqueue (account chatId text : String)
  /-- A person sends the message again. -/
  | retry (id : ℕ)
  /-- The account is removed. -/
  | forget (account : String)
  deriving DecidableEq

/-- A move, and what the clock reads there. -/
structure Turn where
  reading : ℕ
  move : Move
  deriving DecidableEq

/-- A message that may have gone out. -/
structure Delivered where
  id : ℕ
  account : String
  round : Round
  moment : ℕ
  deriving DecidableEq

/-- How long after it was handed over a message goes out: the sender does not wait for it where its
connection was over before the answer. -/
def Carried.lateness (late : ℕ) : Carried → ℕ
  | .timedOut | .broken => late
  | .answered | .unread => 0

/-- What came of a send, in the message's row: `Row.record`, on a clock in nanoseconds. -/
def Row.stamp (row : Row) (p : Picked) (now : ℕ) (result : Sent) : Row :=
  let done := row.record p now result
  match result with
  | .ok () | .error (.refused _) | .error (.outcomeUnknown _) => done
  | .error _ => { done with nextAttemptAt := now + backoff p.attempts * SECOND }

namespace Process

/-- `run_sender`, at the turn of an account. -/
def takeTurn (cal : Calendar) (s : Process) (round : Round) (counted : Bool) : Process :=
  if (s.nextAllowed round.account).any fun t => round.readAt < t then s
  else if round.pace.quietAt cal (cal.timeOfDay round.readAt) then s
  else if !counted then s
  else
    let counts := sentCounts cal s.outbox.rows round.account round.readAt
    if round.limits.1 ≤ counts.1 ∨ round.limits.2 ≤ counts.2 then s
    else
      match s.outbox.due round.account round.readAt with
      | some row => { s with stage := .sending round row.picked }
      | none => s

/-- One step of the process, the order cards and the dashboard. -/
def step (cal : Calendar) (s : Process) (turn : Turn) : List Delivered × Process :=
  match s.stage, turn.move with
  | .idle, .round account pace firstReadyAt counted =>
    ([], s.takeTurn cal ⟨account, turn.reading, pace, firstReadyAt⟩ counted)
  | .sending round p, .send handling carried late =>
    (if handling.mayBeOut then [⟨p.id, p.account, round, turn.reading + carried.lateness late⟩] else [],
      { s with stage := .updating round p (call handling carried) })
  | .updating round p result, .update ok draw =>
    let outbox := if ok then s.outbox.updateWhere (·.id = p.id) (·.stamp p turn.reading result)
      else s.outbox
    let next := turn.reading + round.pace.wait draw * SECOND
    ([], ⟨outbox, .idle, fun account =>
      if account = round.account then some next else s.nextAllowed account⟩)
  | _, .enqueue account chatId text =>
    ([], { s with outbox := (s.outbox.step (.enqueue account chatId text turn.reading)).2 })
  | _, .retry id => ([], { s with outbox := (s.outbox.step (.retry id turn.reading)).2 })
  | _, .forget account => ([], { s with outbox := (s.outbox.step (.forget account)).2 })
  | _, _ => ([], s)

end Process

/-- The outbox when the process starts, its ids given once. -/
structure Stored where
  rows : List Row
  nextId : ℕ
  once : (rows.map Row.id).Nodup
  below : ∀ row ∈ rows, row.id < nextId

/-- A process that starts. -/
def Process.opened (stored : Stored) : Process := ⟨⟨stored.rows, stored.nextId, []⟩, .idle, fun _ => none⟩

/-- What happened at one turn. -/
abbrev Happened := Runs.Event Process Turn (List Delivered)

/-- The messages that may have gone out in a run. -/
def deliveries (evs : List Happened) : List Delivered := evs.flatMap (·.output)

/-- When an account's messages went out. -/
def moments (account : String) (ds : List Delivered) : List ℕ :=
  (ds.filter (·.account = account)).map (·.moment)

/-- An account's messages of a date. -/
def onDate (cal : Calendar) (account : String) (date : ℕ) (ds : List Delivered) : ℕ :=
  ds.countP fun d => d.account = account && cal.date d.moment = date

/-- **An account's sending limits hold for everything that may have gone out**: when a message goes
out, no hour holds more messages of its account than the hourly limit of its round, and its date no
more than the daily one; none goes out in a round that began in quiet hours; and two are never
closer than the least wait. -/
structure Held (cal : Calendar) (ds : List Delivered) : Prop where
  hour : ∀ pre d post, ds = pre ++ d :: post → ∀ x, x ≤ d.moment → d.moment < x + HOUR →
    count HOUR x (moments d.account (pre ++ [d])) ≤ d.round.limits.1
  day : ∀ pre d post, ds = pre ++ d :: post →
    onDate cal d.account (cal.date d.moment) (pre ++ [d]) ≤ d.round.limits.2
  quiet : ∀ d ∈ ds, ¬ d.round.pace.quietAt cal (cal.timeOfDay d.round.readAt)
  apart : ds.Pairwise fun d e => d.account = e.account →
    d.moment + d.round.pace.minDelayS * SECOND ≤ e.moment

/-- At this step the outbox learns of what went out, and no clock has gone back: the service's
answer about a message that may be out says that it is, and the update about one that went out is
taken. -/
def Records (pre : List Happened) (ev : Happened) : Prop :=
  (∀ e ∈ pre, e.input.reading ≤ ev.input.reading) ∧
    match ev.before.stage, ev.input.move with
    | .sending _ _, .send handling carried _ => handling.mayBeOut → call handling carried = .ok ()
    | .updating _ _ (.ok ()), .update ok _ => ok
    | _, _ => True

instance (pre : List Happened) (ev : Happened) : Decidable (Records pre ev) := by
  unfold Records
  refine @instDecidableAnd _ _ _ ?_
  split <;> infer_instance

/-- The outbox learns of all that went out. -/
def Recorded (evs : List Happened) : Prop := Along Records evs

instance (evs : List Happened) : Decidable (Recorded evs) := inferInstanceAs (Decidable (Along _ evs))

end Callora.Outbox
