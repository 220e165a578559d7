/-
**The price bot: questions in one chat, and what is collected as their answers.**

The server asks a business's price bot through a messaging account, and remembers the answer for the
question's words. The messaging service asks one question at a time: it listens to the chat, sends the
question, and collects what the bot writes until an answer has come and the chat is quiet, or the time is
over. The bot answers what it received in order, each question with messages of its own or by editing
earlier ones, and after any delay.

A message carries the question it was written for, which no code reads. A run's trace lists the replies
returned for each question.
-/
import Callora.Library.Runs
import Callora.Text.Strings

set_option linter.unusedSectionVars false

namespace Callora.Prices

open Text Runs

/-- The service that is asked: Telegram hears edits too, and has one text for each message. -/
inductive Messenger
  | telegram
  | whatsApp
  deriving DecidableEq

/-- A question, and the text that tells the bot's answer from what it sends before it. -/
structure Question where
  business : String
  text : String
  untilText : String
  /-- Asked before the caller needs it. -/
  ahead : Bool
  deriving DecidableEq

/-- An answer, and when it was asked. -/
structure Answer where
  askedAt : ℕ
  text : String
  deriving DecidableEq

/-- A question on its way through `WhatsAppChatBot::ask`, by its number. -/
structure Ticket where
  number : ℕ
  question : Question
  askedAt : ℕ
  /-- The last answer, which is said when the bot gives none. -/
  stale : Option Answer
  deriving DecidableEq

/-- A message of the bot. -/
structure Message where
  id : ℕ
  text : String
  /-- The question it was written for. -/
  ticket : ℕ
  deriving DecidableEq

/-- `askNow` under way. -/
structure Asking where
  ticket : Ticket
  since : ℕ
  replies : List Message
  answered : Bool
  /-- The question was sent. -/
  sent : Bool
  deriving DecidableEq

/-- The server's answers, the service's queue, and the bot. -/
structure World where
  /-- By business and question, in memory and in the database. -/
  answers : String → String → Option Answer
  saved : String → String → Option Answer
  queue : List Ticket
  asking : Option Asking
  /-- The next question's number. -/
  next : ℕ
  /-- What the bot will write, in order. -/
  pending : List Message
  /-- What it has written. -/
  written : List Message

def World.opened (saved : String → String → Option Answer) : World :=
  ⟨fun _ _ => none, saved, [], none, 0, [], []⟩

/-- What came of sending the question. -/
inductive Sending
  | sent
  /-- Nothing was sent. -/
  | refused
  /-- It failed, and the bot has it or not. -/
  | unknown (received : Bool)
  deriving DecidableEq

inductive Input
  /-- `WhatsAppChatBot::ask`; whether the database can be read, and the account may ask now. -/
  | ask (question : Question) (now fresh : ℕ) (reads may : Bool)
  /-- The next question in the queue begins to listen. -/
  | start (now : ℕ)
  /-- It is sent; what the bot will write, each as a message's number and text. -/
  | send (sending : Sending) (script : List (ℕ × String))
  /-- The bot writes the next of what it will write. -/
  | deliver (now : ℕ)
  /-- The bot edits a message it wrote. -/
  | edit (id : ℕ) (text : String)
  /-- The answer is quiet, or the time is over; whether the server hears of it, and can save it. -/
  | finish (arrives saves : Bool)
  /-- The messaging service starts again. -/
  | serviceRestart
  /-- The server starts again. -/
  | serverRestart
  deriving DecidableEq

inductive Act
  /-- What the service returned for a question. -/
  | replied (ticket : Ticket) (replies : List Message)
  /-- What the server was told. -/
  | told (question : Question) (answer : Answer)
  deriving DecidableEq

/-- An answer older than its freshness is still said when the bot gives none, up to a day old. -/
def STALE_ANSWER : ℕ := 24 * 3600

/-- `Map::set` of a message's text. -/
def setReply : List Message → Message → List Message
  | [], m => [m]
  | first :: rest, m => if first.id = m.id then m :: rest else first :: setReply rest m

/-- The listener of `askNow`, at a message written at some time. -/
def Asking.hear (messenger : Messenger) (asking : Asking) (m : Message) (writtenAt : ℕ) : Asking :=
  if trim m.text = "" then asking
  else if messenger = .whatsApp ∧ writtenAt < asking.since then asking
  else
    { asking with
      replies := match messenger with
        | .telegram => setReply asking.replies m
        | .whatsApp => asking.replies ++ [m]
      answered := asking.answered || asking.ticket.question.untilText = "" ||
        contains m.text asking.ticket.question.untilText }

/-- The replies, as they are returned. -/
def Asking.collected (messenger : Messenger) (asking : Asking) : List Message :=
  match messenger with
  | .telegram => asking.replies.mergeSort fun a b => a.id ≤ b.id
  | .whatsApp => asking.replies

/-- The text the server makes of the replies. -/
def textOf (replies : List Message) : String := join "\n\n" (replies.map (·.text))

namespace World

variable (messenger : Messenger) (w : World)

/-- `remembered`: in memory, else in the database, if that can be read. -/
def remembered (reads : Bool) (business question : String) : Option Answer :=
  match w.answers business question with
  | some answer => some answer
  | none => if reads then w.saved business question else none

/-- An answer of a map by business and question. -/
def store (answers : String → String → Option Answer) (question : Question) (answer : Answer) :
    String → String → Option Answer := fun business text =>
  if business = question.business ∧ text = question.text then some answer else answers business text

/-- `WhatsAppChatBot::ask`, until the service is asked. -/
def ask (question : Question) (now fresh : ℕ) (reads may : Bool) : List Act × World :=
  let known := w.remembered reads question.business question.text
  -- an answer from the database is kept in memory from now on
  let w := match known with
    | some answer => { w with answers := store w.answers question answer }
    | none => w
  match known.filter fun k => now - k.askedAt < fresh with
  | some k => ([.told question k], w)
  | none =>
    let stale := known.filter fun k => now - k.askedAt < STALE_ANSWER
    if may then
      ([], { w with queue := w.queue ++ [⟨w.next, question, now, stale⟩], next := w.next + 1 })
    else if question.ahead then ([], w)
    else (stale.toList.map (.told question), w)

/-- The bot gave no answer. -/
def gaveUp (ticket : Ticket) : List Act :=
  if ticket.question.ahead then [] else ticket.stale.toList.map (.told ticket.question)

/-- `remember`, and whether the database takes it. -/
def remember (ticket : Ticket) (answer : Answer) (saves : Bool) : World :=
  { w with
    answers := store w.answers ticket.question answer
    saved := if saves then store w.saved ticket.question answer else w.saved }

/-- A message as it was last written. -/
def current (id : ℕ) : Option Message := w.written.reverse.find? (·.id = id)

/-- What is heard of a message, if a question listens. -/
def hear (m : Message) (writtenAt : ℕ) : World :=
  { w with asking := w.asking.map fun asking => asking.hear messenger m writtenAt }

/-- One step of the server, the messaging service and the bot. -/
def step : Input → List Act × World
  | .ask question now fresh reads may => w.ask question now fresh reads may
  | .start now =>
    match w.asking, w.queue with
    | none, ticket :: queue =>
      ([], { w with queue := queue, asking := some ⟨ticket, now - 2, [], false, false⟩ })
    | _, _ => ([], w)
  | .send sending script =>
    match w.asking with
    | some asking =>
      if asking.sent then ([], w)
      else
        let received :=
          { w with pending := w.pending ++ script.map fun (id, text) => ⟨id, text, asking.ticket.number⟩ }
        match sending with
        | .sent => ([], { received with asking := some { asking with sent := true } })
        | .refused => (gaveUp asking.ticket, { w with asking := none })
        | .unknown reached =>
          (gaveUp asking.ticket, { if reached then received else w with asking := none })
    | none => ([], w)
  | .deliver now =>
    match w.pending with
    | m :: pending =>
      ([], { w with pending := pending, written := w.written ++ [m] }.hear messenger m now)
    | [] => ([], w)
  | .edit id text =>
    match messenger, w.current id with
    | .telegram, some m => ([], w.hear messenger { m with text := text } 0)
    | _, _ => ([], w)
  | .finish arrives saves =>
    match w.asking with
    | some asking =>
      if !asking.sent then ([], w)
      else if !asking.answered then (gaveUp asking.ticket, { w with asking := none })
      else
        let replies := asking.collected messenger
        let answer : Answer := ⟨asking.ticket.askedAt, textOf replies⟩
        if arrives then
          ([.replied asking.ticket replies, .told asking.ticket.question answer],
            { w with asking := none }.remember asking.ticket answer saves)
        else (.replied asking.ticket replies :: gaveUp asking.ticket, { w with asking := none })
    | none => ([], w)
  -- the questions on their way get no answer
  | .serviceRestart =>
    (((w.asking.map (·.ticket)).toList ++ w.queue).flatMap gaveUp, { w with asking := none, queue := [] })
  | .serverRestart => ([], { w with answers := fun _ _ => none })

end World

/-- What happened at one step. -/
abbrev Event := Runs.Event World Input (List Act)

/-- What happened in a run. -/
def trace (evs : List Event) : List Act := evs.flatMap (·.output)

@[simp] theorem trace_append (evs evs' : List Event) : trace (evs ++ evs') = trace evs ++ trace evs' :=
  List.flatMap_append

@[simp] theorem trace_single (ev : Event) : trace [ev] = ev.output := by
  simp [trace]

/-- An answer is made of the replies to a question with these words, or was saved before the run. -/
def FromReplies (t : List Act) (saved : String → String → Option Answer) (business text : String)
    (answer : Answer) : Prop :=
  (∃ ticket replies, .replied ticket replies ∈ t ∧ ticket.question.business = business ∧
      ticket.question.text = text ∧ answer.text = textOf replies) ∨
    saved business text = some answer

/-- **A price answer belongs to its question**: what is returned for a question was written for it;
what is remembered for a question's words, and what the server is told, are the replies to such a
question. -/
structure Belongs (t : List Act) (saved : String → String → Option Answer) (w : World) : Prop where
  replies : ∀ ticket replies, .replied ticket replies ∈ t → ∀ m ∈ replies, m.ticket = ticket.number
  remembered : ∀ reads business text answer, w.remembered reads business text = some answer →
    FromReplies t saved business text answer
  told : ∀ question answer, .told question answer ∈ t →
    FromReplies t saved question.business question.text answer

end Callora.Prices
