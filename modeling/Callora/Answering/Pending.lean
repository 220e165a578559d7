/-
**The caller's words on their way to an answer.**

In agent mode a final transcript waits in one of three places until the engine gets it: a sentence
broken off waits for its rest, words with a street or a city wait for their second hearing, and the
agent thinks about the others. The agent is also started on the recognizer's partial text at the end
of speech (a guess), and what it says is held until the final transcript has the same words.

What the engine, the lists and the recognizers make of words (noise, a closing, an answer the rules give
themselves, a name to be heard again) depends on the call; it comes with each event, and every outcome is
allowed. A transcript carries the finals it is made of, which the source does not keep.
-/
import Callora.Library.Runs
import Callora.Answering.SameWords

set_option linter.unusedSectionVars false

namespace Callora.Answering

open Runs
open Text (Unicode splitWhitespace trim trimEndMatches)

/-- A final transcript of the recognizer, by its number. -/
structure Final where
  number : ℕ
  text : String
  deriving DecidableEq, Repr

/-- Words to be answered, and the finals they are made of. -/
structure Transcript where
  text : String
  finals : List Final
  deriving DecidableEq, Repr

/-- `format!("{earlier} {later}")`. -/
def Transcript.join (earlier later : Transcript) : Transcript :=
  ⟨earlier.text ++ " " ++ later.text, earlier.finals ++ later.finals⟩

/-- `PendingAgent`: the agent is thinking. -/
structure PendingAgent where
  turn : ℕ
  transcript : Transcript
  speculative : Bool
  /-- A guess's decision, held: whether there is one, or the agent failed. -/
  done : Option Bool
  deriving DecidableEq, Repr

structure World where
  /-- The agent's last turn. -/
  turn : ℕ
  /-- The finals so far. -/
  finals : ℕ
  lastPartial : String
  /-- A sentence the caller broke off. -/
  unfinished : Option Transcript
  unfinishedGeneration : ℕ
  /-- Words that wait for their second hearing. -/
  secondPending : Option (ℕ × Transcript)
  secondIds : ℕ
  pendingAgent : Option PendingAgent
  deriving DecidableEq, Repr

def World.opened : World where
  turn := 0
  finals := 0
  lastPartial := ""
  unfinished := none
  unfinishedGeneration := 0
  secondPending := none
  secondIds := 0
  pendingAgent := none

/-- What `fast_path` makes of words. -/
inductive Fast
  | noise
  | empty
  | understood
  deriving DecidableEq, Repr

/-- What is made of a final transcript. -/
structure Ruling where
  /-- Noise, echo or a listening sound, or a closing or a no that is answered at once. -/
  filtered : Bool
  /-- The rules answer these words themselves: `fast_lane`. -/
  fastLane : Bool
  /-- The words are to be heard a second time. -/
  hearsTwice : Bool
  /-- What the rules make of the words, should a guess that is taken have failed. -/
  fast : Fast
  deriving DecidableEq, Repr

inductive Input
  /-- A partial transcript. -/
  | heardSoFar (text : String)
  | speechStarted
  /-- The caller stopped; whether a guess may be made of the words so far. -/
  | speechEnded (speculates : Bool)
  | final (text : String) (ruling : Ruling)
  /-- A second hearing's result, or its time is over. -/
  | secondHearing (id : ℕ)
  /-- A broken sentence waited long enough. -/
  | unfinishedDue (generation : ℕ) (speaking : Bool) (ruling : Ruling)
  /-- The agent decided, or failed, or its time is over. -/
  | agentDone (turn : ℕ) (ok : Bool) (fast : Fast)
  /-- Speech with no words. -/
  | noWords
  deriving DecidableEq, Repr

inductive Act
  /-- A final transcript passed the filters of `on_final`. -/
  | heard (final : Final)
  /-- `Engine::on_agent_turn`. -/
  | agentTurn (transcript : Transcript)
  /-- `Engine::on_utterance`. -/
  | utterance (transcript : Transcript)
  /-- The agent failed, and the rules make nothing of a few words: `on_noise`. -/
  | noise (transcript : Transcript)
  /-- Words that were held as unfinished do not pass the filters when they are released. -/
  | filtered (transcript : Transcript)
  deriving DecidableEq, Repr

def SHORT_GARBAGE_WORDS : ℕ := 3

namespace World

variable [Unicode] (w : World)

/-- `start_agent`: what was pending is replaced. -/
def startAgent (transcript : Transcript) (speculative : Bool) : World :=
  { w with turn := w.turn + 1, pendingAgent := some ⟨w.turn + 1, transcript, speculative, none⟩ }

/-- `speculate`, where it may. -/
def speculate (speculates : Bool) : World :=
  let text := trim w.lastPartial
  if !speculates || w.pendingAgent.isSome || text.isEmpty then w else w.startAgent ⟨text, []⟩ true

/-- A guess is dropped. -/
def dropGuess : World :=
  match w.pendingAgent with
  | some p => if p.speculative then { w with pendingAgent := none } else w
  | none => w

/-- `finish_agent`: the engine gets the words, or the rules take the turn. -/
def finishAgent (ok : Bool) (fast : Fast) : List Act × World :=
  match w.pendingAgent with
  | some p =>
    let w' := { w with pendingAgent := none }
    if ok then ([.agentTurn p.transcript], w')
    else
      match fast with
      | .noise => ([.noise p.transcript], w')
      | .empty =>
        if (splitWhitespace p.transcript.text).length ≤ SHORT_GARBAGE_WORDS
          then ([.noise p.transcript], w')
        else ([.utterance p.transcript], w')
      | .understood => ([.utterance p.transcript], w')
  | none => ([], w)

/-- `adopt_speculation`: the final transcript has the guess's words. -/
def adoptSpeculation (p : PendingAgent) (finals : List Final) (fast : Fast) : List Act × World :=
  let w' := { w with pendingAgent := some ⟨p.turn, ⟨p.transcript.text, finals⟩, false, none⟩ }
  match p.done with
  | some ok => w'.finishAgent ok fast
  | none => ([], w')

/-- The words under their second hearing, and those that came since. -/
def withEarlier (transcript : Transcript) : Transcript :=
  match w.secondPending with
  | some (_, earlier) => earlier.join transcript
  | none => transcript

/-- The rules answer the words, or they are heard again, or the agent is started. -/
def respond (transcript : Transcript) (ruling : Ruling) : List Act × World :=
  if ruling.fastLane then ([.utterance transcript], w)
  else
    let transcript := w.withEarlier transcript
    if ruling.hearsTwice then
      ([], { w with secondIds := w.secondIds + 1, secondPending := some (w.secondIds + 1, transcript) })
    else ([], { w with secondPending := none }.startAgent transcript false)

/-- `on_final_agent`, past the partial text: what the agent thinks about is joined, or taken, or
dropped. -/
def takeFinal (transcript : Transcript) (ruling : Ruling) : List Act × World :=
  match w.pendingAgent with
  | some p =>
    if p.speculative && sameWords p.transcript.text transcript.text then
      w.adoptSpeculation p transcript.finals ruling.fast
    else
      { w with pendingAgent := none }.respond
        (if p.speculative then transcript else p.transcript.join transcript) ruling
  | none => w.respond transcript ruling

/-- `on_final_agent`. -/
def onFinalAgent (transcript : Transcript) (ruling : Ruling) : List Act × World :=
  { w with lastPartial := "" }.takeFinal transcript ruling

/-- The sentence the caller broke off, and its rest. -/
def withStart (transcript : Transcript) : Transcript :=
  match w.unfinished with
  | some start => start.join transcript
  | none => transcript

/-- `on_final`, past its filters; `releasing`: the words were held as unfinished and are answered as
they are. -/
def onWords (releasing : Bool) (transcript : Transcript) (ruling : Ruling) : List Act × World :=
  let transcript := w.withStart transcript
  let w := { w with unfinished := none }
  if (isUnfinished transcript.text || beginsARequest transcript.text) && !releasing then
    ([], { w with unfinished := some transcript, unfinishedGeneration := w.unfinishedGeneration + 1 })
  else w.onFinalAgent transcript ruling

/-- One event of the call. -/
def step : Input → List Act × World
  | .heardSoFar text => ([], { w with lastPartial := text })
  | .speechStarted => ([], w.dropGuess)
  | .speechEnded speculates => ([], w.speculate speculates)
  | .final text ruling =>
    if (trim text).isEmpty || ruling.filtered then ([], w)
    else
      let final := ⟨w.finals, text⟩
      let (acts, w') := { w with finals := w.finals + 1 }.onWords false ⟨trim text, [final]⟩ ruling
      (.heard final :: acts, w')
  | .secondHearing id =>
    match w.secondPending with
    | some (i, transcript) =>
      if i = id then ([], { w with secondPending := none }.startAgent transcript false) else ([], w)
    | none => ([], w)
  | .unfinishedDue generation speaking ruling =>
    if generation = w.unfinishedGeneration ∧ speaking = false then
      match w.unfinished with
      | some held =>
        let w' := { w with unfinished := none }
        let text := trim (trimEndMatches brokenMarks.contains held.text)
        if text.isEmpty || ruling.filtered then ([.filtered held], w')
        else w'.onWords true ⟨text, held.finals⟩ ruling
      | none => ([], w)
    else ([], w)
  | .agentDone turn ok fast =>
    match w.pendingAgent with
    | some p =>
      if p.turn ≠ turn then ([], w)
      else if p.speculative then ([], { w with pendingAgent := some { p with done := some ok } })
      else w.finishAgent ok fast
    | none => ([], w)
  | .noWords => ([], w.dropGuess)

end World

/-- What happened at one step. -/
abbrev Event := Runs.Event World Input (List Act)

section Runs

variable [Unicode]

/-- The events of a call, and what it reaches. -/
def run (inputs : List Input) : List Event := events World.step .opened inputs

def reached (inputs : List Input) : World := final World.step .opened inputs

end Runs

/-- What happened in a run. -/
def trace (evs : List Event) : List Act := evs.flatMap (·.output)

@[simp] theorem trace_append (evs evs' : List Event) : trace (evs ++ evs') = trace evs ++ trace evs' :=
  List.flatMap_append

@[simp] theorem trace_single (ev : Event) : trace [ev] = ev.output := by
  simp [trace]

/-! ### What becomes of the caller's words -/

/-- The finals that passed the filters. -/
def heard (t : List Act) : List Final :=
  t.flatMap fun
    | .heard final => [final]
    | _ => []

/-- What the engine is given. -/
def Act.given : Act → Option Transcript
  | .agentTurn transcript | .utterance transcript => some transcript
  | _ => none

/-- What the engine is given, and what is put aside: noise to an agent that failed, and words that
were held and do not pass the filters when they are released. -/
def Act.settled : Act → Option Transcript
  | .agentTurn transcript | .utterance transcript | .noise transcript | .filtered transcript =>
      some transcript
  | .heard _ => none

/-- The finals in the transcripts of a trace. -/
def finalsOf (settles : Act → Option Transcript) (t : List Act) : List Final :=
  (t.filterMap settles).flatMap (·.finals)

/-- The finals that still wait. -/
def World.waiting (w : World) : List Final :=
  (w.secondPending.elim [] fun p => p.2.finals) ++
    (w.pendingAgent.elim [] fun p => p.transcript.finals) ++
    w.unfinished.elim [] fun held => held.finals

/-- Joined in the order they were said. -/
def Transcript.Ordered [Unicode] (transcript : Transcript) : Prop :=
  transcript.finals.Pairwise (fun a b => a.number < b.number) ∧
    words transcript.text = transcript.finals.flatMap fun final => words final.text

/-- **No words of the caller are dropped or answered twice**, where words are settled by some acts. -/
structure AnsweredOnce [Unicode] (settles : Act → Option Transcript) (evs : List Event)
    (w : World) : Prop where
  /-- The finals that passed the filters are those of one transcript each, or still wait for one. -/
  once : (finalsOf settles (trace evs) ++ w.waiting).Perm (heard (trace evs))
  distinct : (heard (trace evs)).Pairwise fun a b => a.number < b.number
  ordered : ∀ act ∈ trace evs, ∀ transcript, settles act = some transcript → transcript.Ordered
  /-- Nothing that waits is replaced without its words being carried along. -/
  carried : ∀ ev ∈ evs, ∀ final ∈ ev.before.waiting,
    final ∈ ev.after.waiting ∨ final ∈ finalsOf settles ev.output

/-- The rules make nothing of the words: they are noise to them, or few that mean nothing. -/
def Fast.Dismisses [Unicode] (fast : Fast) (text : String) : Prop :=
  fast = .noise ∨ fast = .empty ∧ (splitWhitespace text).length ≤ SHORT_GARBAGE_WORDS

/-- What the rules make of the words of an event, should the agent have failed on them. -/
def Input.fast : Input → Option Fast
  | .final _ ruling | .unfinishedDue _ _ ruling => some ruling.fast
  | .agentDone _ _ fast => some fast
  | _ => none

/-- **The agent failed on words the rules make nothing of**: its request for them fails now, or it
failed on a guess that has the same words. -/
def Dismissed [Unicode] (ev : Event) (transcript : Transcript) : Prop :=
  ∃ p fast, ev.before.pendingAgent = some p ∧ p.transcript.text = transcript.text ∧
    ev.input.fast = some fast ∧
    fast.Dismisses transcript.text ∧
      (p.speculative = false ∧ ev.input = .agentDone p.turn false fast ∨ p.speculative ∧
        p.done = some false)

/-- **Words that were held as unfinished are released and do not pass the filters.** -/
def ReleasedInVain [Unicode] (ev : Event) (transcript : Transcript) : Prop :=
  ∃ ruling, ev.input = .unfinishedDue ev.before.unfinishedGeneration false ruling ∧
    ev.before.unfinished = some transcript ∧
      ((trim (trimEndMatches brokenMarks.contains transcript.text)).isEmpty ∨ ruling.filtered)

/-- Why an act puts words aside at an event, if it does. -/
def Act.Justified [Unicode] (ev : Event) : Act → Prop
  | .noise transcript => Dismissed ev transcript
  | .filtered transcript => ReleasedInVain ev transcript
  | .heard _ | .agentTurn _ | .utterance _ => True

/-- **Every final is answered once, or put aside for a reason.** -/
structure SettledOnce [Unicode] (evs : List Event)
    (w : World) : Prop extends AnsweredOnce Act.settled evs w where
  aside : ∀ ev ∈ evs, ∀ act ∈ ev.output, act.Justified ev

end Callora.Answering
