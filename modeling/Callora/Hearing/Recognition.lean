/-
**The caller's audio on its way to speech recognition.**

A session of the recognizer hears the caller's frames as they come, and is asked to finish the words when
the caller stops (`finalize`). While no session is connected the frames wait in a backlog; what the next
session hears first is the last finished utterance, where the session before it closed without answering,
and then the backlog. A session biased with a city's streets is opened beside the live one, and takes over
between utterances.

A session's task can end at any time (`gone`): its input is closed, and what is sent to it does not
come through (`trySend`), until the call takes its `closed`. An input that is open has room.

Audio is the numbers of its bytes in the caller's stream. A run's trace lists what was received, what each
session was sent, and what became of the utterances.
-/
import Callora.Library.Runs

set_option linter.unusedSectionVars false

namespace Callora.Hearing

open Runs

/-- A frame of the caller's audio: its bytes, by their numbers. -/
abbrev Frame := List ℕ

inductive SttInput
  | audio (bytes : List ℕ)
  | finalize
  | close
  deriving DecidableEq, Repr

inductive Act
  /-- The caller's line brought a frame. -/
  | received (frame : Frame)
  | sent (session : ℕ) (input : SttInput)
  /-- The caller stopped: what came from the frame speech was heard in, to the one before the end was. -/
  | ended (utterance : List ℕ)
  /-- A final transcript, empty or not. -/
  | answered
  /-- An overdue final, or recognition given up. -/
  | failed
  /-- A session closed with a `finalize` unanswered: the words kept for the next one. -/
  | lost (utterance : List ℕ)
  /-- A session hears these words again. -/
  | again (session : ℕ) (utterance : List ℕ)
  /-- The backlog was full. -/
  | dropped (frame : Frame)
  deriving DecidableEq, Repr

/-- What a `Session` keeps of the caller's audio and of its recognizers. -/
structure World where
  /-- The bytes received so far. -/
  bytes : ℕ
  /-- `vad.is_speaking()`. -/
  speaking : Bool
  /-- The utterance being spoken, as it will be ended. -/
  spoken : List ℕ
  /-- The last 300 ms before speech, the utterance being kept, and the last one finished. -/
  preroll : List Frame
  utterance : List ℕ
  lastUtterance : List ℕ
  backlog : List Frame
  /-- The connected session, and the one that waits to take over. -/
  stt : Option ℕ
  sttNext : Option ℕ
  /-- The next session's number. -/
  sessions : ℕ
  /-- The connects under way. -/
  opening : ℕ
  reconnects : ℕ
  /-- The next `finalize`'s number; the one that is unanswered. -/
  finalizes : ℕ
  finalizeSentAt : Option ℕ
  resendUtterance : Bool
  /-- A transcript waits for its second hearing. -/
  secondPending : Bool
  /-- The sessions whose task has ended. -/
  gone : List ℕ
  deriving DecidableEq, Repr

/-- The call begins: recognition is being connected. -/
def World.opened : World where
  bytes := 0
  speaking := false
  spoken := []
  preroll := []
  utterance := []
  lastUtterance := []
  backlog := []
  stt := none
  sttNext := none
  sessions := 0
  opening := 1
  reconnects := 0
  finalizes := 0
  finalizeSentAt := none
  resendUtterance := false
  secondPending := false
  gone := []

inductive Input
  /-- A frame of some bytes; whether the VAD hears the caller start, or stop, with it. -/
  | audio (length : ℕ) (turns : Bool)
  /-- A connect under way succeeded. -/
  | ready
  /-- A connect under way failed. -/
  | unavailable
  /-- A final transcript of the connected session. -/
  | final
  /-- Held words are released as they are: `on_final`, with no transcript. -/
  | release
  /-- The connected session closed. -/
  | closed
  /-- A session biased with a city's streets is open; whether that city is still the one asked about. -/
  | focused (wanted : Bool)
  /-- The time for a `finalize`'s answer is over. -/
  | overdue (sentAt : ℕ)
  /-- A transcript begins or ceases to wait for its second hearing. -/
  | second (pending : Bool)
  /-- A session's task ends, also of one that the call has not got yet. -/
  | gone (session : ℕ)
  deriving DecidableEq, Repr

inductive VadEvent
  | speechStarted
  | speechEnded
  deriving DecidableEq

def PREROLL_FRAMES : ℕ := 15

def MAX_BYTES : ℕ := 8000 * 20

def MAX_STT_RECONNECTS : ℕ := 4

/-- The last elements of a list. -/
def lastOf {α : Type} (n : ℕ) (xs : List α) : List α := xs.drop (xs.length - n)

/-- `slice::chunks`, of a positive size; `fuel` bounds their number. -/
def chunks (size : ℕ) : ℕ → List ℕ → List (List ℕ)
  | 0, _ => []
  | _ + 1, [] => []
  | fuel + 1, bytes => bytes.take size :: chunks size fuel (bytes.drop size)

namespace World

variable (bufferFrames : ℕ) (w : World)

/-- What the VAD makes of a frame. -/
def verdict (turns : Bool) : Option VadEvent :=
  if !turns then none else if w.speaking then some .speechEnded else some .speechStarted

/-- `keep_audio`: the caller's words as audio; the VAD has heard the frame. -/
def keepAudio (frame : Frame) (event : Option VadEvent) : World :=
  let kept := match event with
    | some .speechStarted => { w with utterance := w.preroll.flatten ++ frame }
    | some .speechEnded =>
      let before := if !w.secondPending && w.finalizeSentAt.isNone then [] else w.lastUtterance
      { w with utterance := [], lastUtterance := lastOf MAX_BYTES (before ++ (w.utterance ++ frame)) }
    | none =>
      if w.speaking ∧ w.utterance.length < MAX_BYTES
        then { w with utterance := w.utterance ++ frame } else w
  { kept with preroll := lastOf PREROLL_FRAMES (w.preroll ++ [frame]) }

/-- The VAD's state after a frame, and the words that are spoken. -/
def hear (frame : Frame) : Option VadEvent → World
  | some .speechStarted => { w with speaking := true, spoken := frame }
  | some .speechEnded => { w with speaking := false, spoken := [] }
  | none => if w.speaking then { w with spoken := w.spoken ++ frame } else w

/-- `try_send`: what comes through to a session. -/
def trySend (n : ℕ) (input : SttInput) : List Act := if n ∈ w.gone then [] else [.sent n input]

/-- The connected session is asked to finish the words. -/
def finalize : List Act × World :=
  match w.stt with
  | some n =>
    if n ∈ w.gone then ([], w)
    else ([.sent n .finalize],
      { w with finalizeSentAt := some w.finalizes, finalizes := w.finalizes + 1 })
  | none => ([], w)

/-- The frame goes to the connected session, or waits. -/
def forward (frame : Frame) : List Act × World :=
  match w.stt with
  | some n => (w.trySend n (.audio frame), w)
  | none =>
    let backlog := w.backlog ++ [frame]
    let full := backlog.length - bufferFrames
    ((backlog.take full).map .dropped, { w with backlog := backlog.drop full })

/-- `on_audio`. -/
def onAudio (length : ℕ) (turns : Bool) : List Act × World :=
  let frame := List.range' w.bytes length
  let event := w.verdict turns
  let w' := ({ w with bytes := w.bytes + length }.hear frame event).keepAudio frame event
  match event with
  | some .speechEnded =>
    let (asked, w') := w'.finalize
    let (rest, w') := w'.forward bufferFrames frame
    (.received frame :: .ended w.spoken :: (asked ++ rest), w')
  | _ =>
    let (rest, w') := w'.forward bufferFrames frame
    (.received frame :: rest, w')

/-- The biased session takes over between utterances only. -/
def swapSttIfReady : List Act × World :=
  match w.sttNext with
  | some n =>
    if w.speaking ∨ w.finalizeSentAt.isSome then ([], w)
    else (w.stt.toList.flatMap fun old => w.trySend old .close, { w with stt := some n, sttNext := none })
  | none => ([], w)

/-- What a new session hears of the words the one before it left unanswered; they are not due any more. -/
def resend (n : ℕ) : List Act × World :=
  if w.resendUtterance ∧ w.lastUtterance ≠ [] ∧ n ∉ w.gone then
    (.again n w.lastUtterance ::
        ((chunks 160 w.lastUtterance.length w.lastUtterance).map fun chunk => .sent n (.audio chunk)) ++
      [.sent n .finalize],
      { w with
        resendUtterance := false, finalizeSentAt := some w.finalizes, finalizes := w.finalizes + 1 })
  else ([], { w with resendUtterance := false })

/-- `SttReady`. -/
def onReady : List Act × World :=
  if w.opening = 0 then ([], w)
  else
    let n := w.sessions
    let (acts, w') := { w with opening := w.opening - 1, sessions := n + 1 }.resend n
    (acts ++ w'.backlog.flatMap fun frame => w'.trySend n (.audio frame),
      { w' with backlog := [], stt := some n })

/-- `SttEvent::Closed`. -/
def onClosed : List Act × World :=
  let unanswered := w.finalizeSentAt.isSome ∧ !w.speaking
  let acts := if unanswered then [.lost w.lastUtterance] else []
  let w' := { w with
    stt := none
    reconnects := w.reconnects + 1
    finalizeSentAt := none
    resendUtterance := w.resendUtterance || unanswered }
  if w'.reconnects > MAX_STT_RECONNECTS then (acts ++ [.failed], w')
  else (acts, { w' with opening := w'.opening + 1 })

/-- One event of the call. -/
def step : Input → List Act × World
  | .audio length turns => w.onAudio bufferFrames length turns
  | .ready => w.onReady
  | .unavailable => if w.opening = 0 then ([], w) else ([.failed], { w with opening := w.opening - 1 })
  | .final =>
    match w.stt with
    | some _ =>
      let (acts, w') := { w with reconnects := 0, finalizeSentAt := none }.swapSttIfReady
      (.answered :: acts, w')
    | none => ([], w)
  | .release => ([], { w with finalizeSentAt := none })
  | .closed => if w.stt.isSome then w.onClosed else ([], w)
  | .focused wanted =>
    let n := w.sessions
    let w' := { w with sessions := n + 1 }
    if wanted then
      let (acts, w'') := { w' with sttNext := some n }.swapSttIfReady
      ((w.sttNext.toList.flatMap fun stale => w.trySend stale .close) ++ acts, w'')
    else (w.trySend n .close, w')
  | .overdue sentAt =>
    if w.finalizeSentAt = some sentAt then
      let (acts, w') := { w with finalizeSentAt := none }.onClosed
      (.failed :: (w.stt.toList.flatMap fun n => w.trySend n .close) ++ acts, w')
    else ([], w)
  | .second pending => ([], { w with secondPending := pending })
  | .gone n => ([], { w with gone := n :: w.gone })

section Audio

variable {w} {frame : Frame} {event : Option VadEvent} {length : ℕ} {turns : Bool} {n : ℕ}

theorem verdict_ended : w.verdict turns = some .speechEnded ↔ turns ∧ w.speaking := by
  cases turns <;> cases speaking : w.speaking <;> simp [verdict, speaking]

theorem mem_trySend {input : SttInput} {act : Act} : act ∈ w.trySend n input ↔
    n ∉ w.gone ∧ act = .sent n input := by
  unfold trySend
  split
  · next ended => simp [ended]
  · next open' => simp [open']

theorem trySend_open {input : SttInput} (open' : n ∉ w.gone) :
    w.trySend n input = [.sent n input] := if_neg open'

/-- What closes sessions. -/
theorem mem_close {closed : Option ℕ} {act : Act}
    (listed : act ∈ closed.toList.flatMap fun n => w.trySend n .close) :
    ∃ n, act = .sent n .close := by
  obtain ⟨n, -, sent⟩ := List.mem_flatMap.mp listed
  exact ⟨n, (mem_trySend.mp sent).2⟩

theorem forward_connected (here : w.stt = some n) :
    w.forward bufferFrames frame = (w.trySend n (.audio frame), w) := by
  rw [forward, here]

theorem forward_waiting (here : w.stt = none) :
    w.forward bufferFrames frame =
      (((w.backlog ++ [frame]).take ((w.backlog ++ [frame]).length - bufferFrames)).map .dropped,
        { w with
          backlog := (w.backlog ++ [frame]).drop ((w.backlog ++ [frame]).length - bufferFrames) }) := by
  unfold forward
  split
  · rename_i connected
    exact absurd (here.symm.trans connected).symm (Option.some_ne_none _)
  · rfl

theorem finalize_connected (here : w.stt = some n) (open' : n ∉ w.gone) :
    w.finalize =
      ([.sent n .finalize],
        { w with finalizeSentAt := some w.finalizes, finalizes := w.finalizes + 1 }) := by
  rw [finalize, here]
  exact if_neg open'

theorem finalize_gone (here : w.stt = some n) (ended : n ∈ w.gone) : w.finalize = ([], w) := by
  rw [finalize, here]
  exact if_pos ended

theorem finalize_waiting (here : w.stt = none) : w.finalize = ([], w) := by
  rw [finalize, here]

/-- What is asked is no other part of the state. -/
theorem finalize_eq (w : World) :
    ∃ asked n, w.finalize.2 = { w with finalizeSentAt := asked, finalizes := n } := by
  rcases Option.eq_none_or_eq_some w.stt with here | ⟨n, here⟩
  · exact ⟨_, _, congrArg Prod.snd (finalize_waiting here)⟩
  · by_cases ended : n ∈ w.gone
    · exact ⟨_, _, congrArg Prod.snd (finalize_gone here ended)⟩
    · exact ⟨_, _, congrArg Prod.snd (finalize_connected here ended)⟩

/-- The audio that is kept is no other part of the state. -/
theorem keepAudio_eq (w : World) (frame : Frame) (event : Option VadEvent) :
    ∃ preroll utterance lastUtterance, w.keepAudio frame event =
    { w with preroll := preroll, utterance := utterance, lastUtterance := lastUtterance } := by
  unfold keepAudio
  match event with
  | some .speechStarted => exact ⟨_, _, _, rfl⟩
  | some .speechEnded => exact ⟨_, _, _, rfl⟩
  | none =>
    by_cases more : w.speaking ∧ w.utterance.length < MAX_BYTES
    · simp only [if_pos more]
      exact ⟨_, _, _, rfl⟩
    · simp only [if_neg more]
      exact ⟨_, _, _, rfl⟩

/-- What is spoken is no other part of the state. -/
theorem hear_eq (w : World) (frame : Frame) (event : Option VadEvent) :
    ∃ speaking spoken, w.hear frame event = { w with speaking := speaking, spoken := spoken } := by
  unfold hear
  match event with
  | some .speechStarted => exact ⟨_, _, rfl⟩
  | some .speechEnded => exact ⟨_, _, rfl⟩
  | none =>
    by_cases speaking : w.speaking
    · simp only [if_pos speaking]
      exact ⟨_, _, rfl⟩
    · simp only [if_neg speaking]
      exact ⟨_, _, rfl⟩

theorem onAudio_ended (ended : w.verdict turns = some .speechEnded) :
    w.onAudio bufferFrames length turns =
      let frame := List.range' w.bytes length
      let kept := ({ w with bytes := w.bytes + length }.hear frame (some .speechEnded)).keepAudio frame
        (some .speechEnded)
      (.received frame :: .ended w.spoken ::
        (kept.finalize.1 ++ (kept.finalize.2.forward bufferFrames frame).1),
        (kept.finalize.2.forward bufferFrames frame).2) := by
  rw [onAudio, ended]

theorem onAudio_goesOn (goesOn : w.verdict turns ≠ some .speechEnded) :
    w.onAudio bufferFrames length turns =
      let frame := List.range' w.bytes length
      let kept := ({ w with bytes := w.bytes + length }.hear frame (w.verdict turns)).keepAudio frame
        (w.verdict turns)
      (.received frame :: (kept.forward bufferFrames frame).1, (kept.forward bufferFrames frame).2) := by
  unfold onAudio
  match is : w.verdict turns with
  | some .speechEnded => exact absurd is goesOn
  | some .speechStarted => rfl
  | none => rfl

end Audio

/-- The sessions change between utterances only. -/
theorem swapSttIfReady_cases : w.swapSttIfReady = ([], w) ∨
    ∃ n, w.sttNext = some n ∧ w.speaking = false ∧ w.finalizeSentAt = none ∧
      w.swapSttIfReady =
        (w.stt.toList.flatMap fun old => w.trySend old .close,
          { w with stt := some n, sttNext := none }) := by
  unfold swapSttIfReady
  split
  · rename_i n here
    by_cases busy : w.speaking ∨ w.finalizeSentAt.isSome
    · exact .inl (if_pos busy)
    · obtain ⟨quiet, unasked⟩ := not_or.mp busy
      exact .inr ⟨n, here, by simpa using quiet, by simpa using unasked, if_neg busy⟩
  · exact .inl rfl

/-- What comes through of the frames a session is sent. -/
theorem through_frames (n : ℕ) (frames : List Frame) :
    (frames.flatMap fun frame => w.trySend n (.audio frame)) =
      if n ∈ w.gone then [] else frames.map fun frame => .sent n (.audio frame) := by
  unfold trySend
  split
  · exact List.flatMap_eq_nil_iff.mpr fun _ _ => rfl
  · exact List.map_eq_flatMap.symm

/-- A session that connects hears the words that are due, and then what waits. -/
theorem onReady_again (connecting : w.opening ≠ 0) (due : w.resendUtterance)
    (words : w.lastUtterance ≠ [])
    (open' : w.sessions ∉ w.gone) : w.onReady =
      ([.again w.sessions w.lastUtterance] ++
        (((chunks 160 w.lastUtterance.length w.lastUtterance).map fun chunk =>
          .sent w.sessions (.audio chunk)) ++
        ([.sent w.sessions .finalize] ++ w.backlog.map fun frame => .sent w.sessions (.audio frame))),
      { w with
        opening := w.opening - 1, sessions := w.sessions + 1, resendUtterance := false,
        finalizeSentAt := some w.finalizes, finalizes := w.finalizes + 1, backlog := [],
        stt := some w.sessions }) := by
  have through := w.through_frames w.sessions w.backlog
  rw [if_neg open'] at through
  rw [onReady, if_neg connecting]
  simp only [resend, if_pos (And.intro due (And.intro words open')), trySend] at through ⊢
  rw [through]
  simp

/-- Where none are due, or its task has ended, it hears only what waits, of what comes through. -/
theorem onReady_waits (connecting : w.opening ≠ 0)
    (notAgain : ¬(w.resendUtterance ∧ w.lastUtterance ≠ [] ∧ w.sessions ∉ w.gone)) : w.onReady =
      (if w.sessions ∈ w.gone then [] else w.backlog.map fun frame => .sent w.sessions (.audio frame),
      { w with
        opening := w.opening - 1, sessions := w.sessions + 1, resendUtterance := false, backlog := [],
        stt := some w.sessions }) := by
  have through := w.through_frames w.sessions w.backlog
  rw [onReady, if_neg connecting]
  simp only [resend, if_neg notAgain, trySend, List.nil_append] at through ⊢
  rw [through]

/-- A session closes, and another one is connected or recognition is given up. -/
theorem onClosed_eq : ∃ opening ends, (ends = [] ∨ ends = [.failed]) ∧
    w.onClosed =
      ((if w.finalizeSentAt.isSome ∧ !w.speaking then [.lost w.lastUtterance] else []) ++ ends, { w with
        stt := none, reconnects := w.reconnects + 1, finalizeSentAt := none,
        resendUtterance := w.resendUtterance || decide (w.finalizeSentAt.isSome ∧ !w.speaking),
        opening := opening }) := by
  unfold onClosed
  by_cases gone : w.reconnects + 1 > MAX_STT_RECONNECTS
  · exact ⟨w.opening, [.failed], .inr rfl, if_pos gone⟩
  · refine ⟨w.opening + 1, [], .inl rfl, ?_⟩
    rw [List.append_nil]
    exact if_neg gone

end World

/-- What happened at one step. -/
abbrev Event := Runs.Event World Input (List Act)

/-- The events of a call, and what it reaches. -/
def run (bufferFrames : ℕ) (inputs : List Input) : List Event :=
  events (World.step bufferFrames) .opened inputs

def reached (bufferFrames : ℕ) (inputs : List Input) : World :=
  final (World.step bufferFrames) .opened inputs

/-- What happened in a run. -/
def trace (evs : List Event) : List Act := evs.flatMap (·.output)

@[simp] theorem trace_append (evs evs' : List Event) : trace (evs ++ evs') = trace evs ++ trace evs' :=
  List.flatMap_append

@[simp] theorem trace_single (ev : Event) : trace [ev] = ev.output := by
  simp [trace]

/-- The audio a session was sent, in order. -/
def heardBy (n : ℕ) (t : List Act) : List ℕ :=
  t.flatMap fun
    | .sent m (.audio bytes) => if m = n then bytes else []
    | _ => []

/-- A session was asked to finish, after all it has of the utterance. -/
def FinalizedBy (n : ℕ) (utterance : List ℕ) (t : List Act) : Prop :=
  ∃ pre post, t = pre ++ .sent n .finalize :: post ∧ ∀ b ∈ heardBy n post, b ∉ utterance

/-- **Every utterance the caller ended is finalized**: while a session is connected and the caller is not
speaking, it was asked to finish every utterance that ended with no final and no failure since. -/
def Finalized (t : List Act) (w : World) : Prop :=
  ∀ n, w.stt = some n → w.speaking = false →
    ∀ pre utterance post, t = pre ++ .ended utterance :: post → .answered ∉ post → .failed ∉ post →
      FinalizedBy n utterance t

/-- **The caller's audio is heard once and in order.** -/
structure HeardOnce (t : List Act) (w : World) : Prop where
  /-- What a session is sent is in the order of the line, none of it twice. -/
  ordered : ∀ n, (heardBy n t).Pairwise (· < ·)
  /-- Every frame is sent to a session, unless it was pushed out of the full backlog or waits for
  the next. -/
  all : ∀ frame, .received frame ∈ t →
    (∃ n, .sent n (.audio frame) ∈ t) ∨ .dropped frame ∈ t ∨ w.stt = none ∧ frame ∈ w.backlog
  /-- What a session hears again is what the one before it left unanswered. -/
  again : ∀ pre n utterance post, t = pre ++ .again n utterance :: post →
    ∃ earlier later, pre = earlier ++ .lost utterance :: later ∧ ∀ other, .lost other ∉ later

end Callora.Hearing
