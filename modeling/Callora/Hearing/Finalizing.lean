/-
**Every utterance the caller ended is finalized: when.**

A session is asked to finish the words at the end of an utterance, where one is connected, and by
`SttReady`, where the session before it closed with a `finalize` unanswered while the caller was
silent. So nobody asks for an utterance that ended while none was connected, or only one whose task
was over, and nobody asks the session that replaces another one between a `finalize` and its answer.

- `prompt` is what keeps a step from that;
- `Kept` is what then holds: a `finalize` that is under way came after all the session has of the
  utterances without an answer, and where none is under way or due there are none;
- `finalized_of_prompt`: so every utterance the caller ended is finalized.
-/
import Callora.Hearing.Recognition

set_option linter.unusedSectionVars false

namespace Callora.Hearing

open Runs

/-! ### What keeps an utterance from being left -/

/-- A session is connected, and its task has not ended. -/
def World.listens (w : World) : Bool := w.stt.any fun n => n ∉ w.gone

/-- At this step: an utterance ends while a session is connected whose task has not ended; a session
connects, or takes over, while no utterance waits for the answer of another one, but for the words
it is to hear again; held words are not released before the answer of an utterance that ended since.
-/
def prompt (ev : Event) : Bool :=
  match ev.input with
  | .audio _ turns => !(turns && ev.before.speaking) || ev.before.listens
  | .ready => ev.before.opening = 0 ∨ ev.before.finalizeSentAt = none ∧
      (ev.before.resendUtterance → ev.before.lastUtterance ≠ [] ∧ ev.before.sessions ∉ ev.before.gone)
  | .focused wanted =>
    !wanted || ev.before.speaking || ev.before.finalizeSentAt.isSome || !ev.before.resendUtterance
  | .release => ev.before.finalizeSentAt = none
  | _ => true

/-- Every step of the run is prompt. -/
def Prompt (evs : List Event) : Prop := ∀ ev ∈ evs, prompt ev

instance (evs : List Event) : Decidable (Prompt evs) :=
  inferInstanceAs (Decidable (∀ ev ∈ evs, prompt ev))

/-! ### What a trace says of an utterance -/

/-- An utterance ended, with no final and no failure since. -/
def Unanswered (t : List Act) (utterance : List ℕ) : Prop :=
  ∃ pre post, t = pre ++ .ended utterance :: post ∧ .answered ∉ post ∧ .failed ∉ post

section Traces

variable {n : ℕ} {t acts : List Act} {u : List ℕ}

@[simp] theorem heardBy_append : heardBy n (t ++ acts) = heardBy n t ++ heardBy n acts :=
  List.flatMap_append

/-- Frames a session is sent. -/
theorem heardBy_frames (frames : List Frame) :
    heardBy n (frames.map fun frame => .sent n (.audio frame)) = frames.flatten := by
  simp [heardBy, List.flatMap_map]

theorem heardBy_others {m : ℕ} (other : m ≠ n) (frames : List Frame) :
    heardBy n (frames.map fun frame => .sent m (.audio frame)) = [] := by
  simp [heardBy, List.flatMap_map, other]

/-- What a session hears of a frame that comes through. -/
theorem heardBy_trySend (w : World) (m : ℕ) (frame : Frame) :
    heardBy n (w.trySend m (.audio frame)) = if m = n ∧ m ∉ w.gone then frame else [] := by
  by_cases ended : m ∈ w.gone
  · simp [World.trySend, ended, heardBy]
  · simp [World.trySend_open ended, ended, heardBy]

/-- Acts without an end of an utterance. -/
theorem Unanswered.of_append (noEnd : ∀ v, .ended v ∉ acts) (waits : Unanswered (t ++ acts) u) :
    Unanswered t u ∧ .answered ∉ acts ∧ .failed ∉ acts := by
  obtain ⟨pre, post, split, unanswered, unfailed⟩ := waits
  rcases List.append_eq_append_iff.mp split with ⟨more, rfl, ended⟩ | ⟨more, rfl, ended⟩
  · exact absurd (ended ▸ List.mem_append_right _ List.mem_cons_self) (noEnd u)
  · cases more with
    | nil => exact absurd ((List.nil_append _ ▸ ended) ▸ List.mem_cons_self) (noEnd u)
    | cons first more =>
      obtain ⟨rfl, rfl⟩ := List.cons.inj ended
      refine ⟨⟨pre, more, rfl, ?_, ?_⟩, ?_, ?_⟩
      · exact fun here => unanswered (List.mem_append_left _ here)
      · exact fun here => unfailed (List.mem_append_left _ here)
      · exact fun here => unanswered (List.mem_append_right _ here)
      · exact fun here => unfailed (List.mem_append_right _ here)

theorem Unanswered.ended (waits : Unanswered t u) : .ended u ∈ t := by
  obtain ⟨pre, post, rfl, -⟩ := waits
  exact List.mem_append_right _ List.mem_cons_self

/-- What the session hears later is not of the utterance. -/
theorem FinalizedBy.append (asked : FinalizedBy n u t) (apart : ∀ b ∈ heardBy n acts, b ∉ u) :
    FinalizedBy n u (t ++ acts) := by
  obtain ⟨pre, post, rfl, after⟩ := asked
  refine ⟨pre, post ++ acts, by simp, fun b heard => ?_⟩
  rw [heardBy_append] at heard
  rcases List.mem_append.mp heard with before | later
  · exact after b before
  · exact apart b later

end Traces

/-! ### What a prompt run keeps -/

structure Kept (t : List Act) (w : World) : Prop where
  /-- What was said is behind. -/
  bytes : ∀ u, .ended u ∈ t → ∀ b ∈ u, b < w.bytes
  spoken : ∀ b ∈ w.spoken, b < w.bytes
  silent : w.speaking = false → w.spoken = []
  /-- The backlog has nothing of what ended, and of what is said only while it is filled. -/
  backlog : ∀ f ∈ w.backlog, ∀ b ∈ f, b < w.bytes ∧ ∀ u, .ended u ∈ t → b ∉ u
  apart : w.stt.isSome → ∀ f ∈ w.backlog, ∀ b ∈ f, b ∉ w.spoken
  /-- Without a session none is asked; words are to be heard again only without a session. -/
  idle : w.stt = none → w.finalizeSentAt = none
  resending : w.resendUtterance → w.stt = none
  asked : ∀ n, w.stt = some n → w.finalizeSentAt.isSome → ∀ u, Unanswered t u → FinalizedBy n u t
  settled : w.speaking = false → w.finalizeSentAt = none → w.resendUtterance = false →
    ∀ u, ¬ Unanswered t u

section Steps

variable {t acts : List Act} {w w' : World}

/-- The sessions change, and none is sent audio. -/
theorem Kept.change (kept : Kept t w) (noEnd : ∀ v, .ended v ∉ acts) (noAudio : ∀ n, heardBy n acts = [])
    (bytes : w'.bytes = w.bytes) (speaking : w'.speaking = w.speaking) (spoken : w'.spoken = w.spoken)
    (backlog : w'.backlog = w.backlog) (opens : w'.stt.isSome → w.stt.isSome ∨ w.speaking = false)
    (idle : w'.stt = none → w'.finalizeSentAt = none) (resending : w'.resendUtterance → w'.stt = none)
    (asked : w'.finalizeSentAt.isSome → w'.stt = w.stt ∧ w'.finalizeSentAt = w.finalizeSentAt)
    (settled : w'.speaking = false → w'.finalizeSentAt = none → w'.resendUtterance = false →
      (w.finalizeSentAt = none ∧ w.resendUtterance = false) ∨ .answered ∈ acts ∨ .failed ∈ acts) :
    Kept (t ++ acts) w' := by
  have before : ∀ u, .ended u ∈ t ++ acts → .ended u ∈ t := fun u listed =>
    (List.mem_append.mp listed).resolve_right (noEnd u)
  refine ⟨?_, ?_, ?_, ?_, ?_, idle, resending, ?_, ?_⟩
  · exact fun u listed => bytes ▸ kept.bytes u (before u listed)
  · rw [spoken, bytes]
    exact kept.spoken
  · rw [speaking, spoken]
    exact kept.silent
  · rw [backlog, bytes]
    exact fun f listed b within => ⟨(kept.backlog f listed b within).1,
      fun u ended => (kept.backlog f listed b within).2 u (before u ended)⟩
  · intro connected
    rw [backlog, spoken]
    rcases opens connected with was | quiet
    · exact kept.apart was
    · rw [kept.silent quiet]
      exact fun f _ b _ => List.not_mem_nil
  · intro n here sent u waits
    obtain ⟨same, still⟩ := asked sent
    have earlier := (waits.of_append noEnd).1
    refine (kept.asked n (same ▸ here) (still ▸ sent) u earlier).append ?_
    rw [noAudio n]
    exact fun b none => absurd none List.not_mem_nil
  · intro quiet none notAgain u waits
    obtain ⟨earlier, unanswered, unfailed⟩ := waits.of_append noEnd
    rcases settled quiet none notAgain with ⟨was, wasNot⟩ | answered | failed
    · exact kept.settled (speaking ▸ quiet) was wasNot u earlier
    · exact unanswered answered
    · exact unfailed failed

/-- A frame is heard that ends no utterance. -/
theorem Kept.heard (kept : Kept t w) (length : ℕ) {event : Option VadEvent}
    (goesOn : event ≠ some .speechEnded)
    (frame : Frame) (new : ∀ b, b ∈ frame ↔ w.bytes ≤ b ∧ b < w.bytes + length) :
    Kept (t ++ [.received frame]) ({ w with bytes := w.bytes + length }.hear frame event) := by
  have before : ∀ u, .ended u ∈ t ++ [.received frame] → .ended u ∈ t := fun u listed =>
    (List.mem_append.mp listed).resolve_right (by simp)
  have said : ∀ b ∈ w.spoken ++ frame, b < w.bytes + length := by
    intro b listed
    rcases List.mem_append.mp listed with earlier | now
    · have := kept.spoken b earlier
      omega
    · exact ((new b).mp now).2
  have apartFrame : ∀ f ∈ w.backlog, ∀ b ∈ f, b ∉ frame := by
    intro f listed b within now
    have old := (kept.backlog f listed b within).1
    have := ((new b).mp now).1
    omega
  have bytes : ∀ u, .ended u ∈ t ++ [.received frame] → ∀ b ∈ u, b < w.bytes + length := by
    intro u listed b within
    have := kept.bytes u (before u listed) b within
    omega
  have backlog : ∀ f ∈ w.backlog, ∀ b ∈ f,
      b < w.bytes + length ∧ ∀ u, .ended u ∈ t ++ [.received frame] → b ∉ u := by
    intro f listed b within
    obtain ⟨old, fresh⟩ := kept.backlog f listed b within
    exact ⟨by omega, fun u ended => fresh u (before u ended)⟩
  have asked : ∀ n, w.stt = some n → w.finalizeSentAt.isSome →
    ∀ u, Unanswered (t ++ [.received frame]) u →
      FinalizedBy n u (t ++ [.received frame]) := by
    intro n here sent u waits
    have earlier := (waits.of_append (by simp)).1
    exact (kept.asked n here sent u earlier).append fun b none => absurd none List.not_mem_nil
  match event with
  | some .speechStarted =>
    refine ⟨bytes, ?_, nofun, backlog, ?_, kept.idle, kept.resending, asked, nofun⟩
    · exact fun b now => ((new b).mp now).2
    · exact fun _ => apartFrame
  | some .speechEnded => exact absurd rfl goesOn
  | none =>
    by_cases speaking : w.speaking
    · have same : ({ w with bytes := w.bytes + length }.hear frame none) =
          { w with bytes := w.bytes + length, spoken := w.spoken ++ frame } := by
        simp [World.hear, speaking]
      rw [same]
      refine ⟨bytes, said, ?_, backlog, ?_, kept.idle, kept.resending, asked, ?_⟩
      · exact fun quiet => absurd speaking (by rw [quiet]; exact Bool.false_ne_true)
      · intro connected f listed b within both
        rcases List.mem_append.mp both with earlier | now
        · exact kept.apart connected f listed b within earlier
        · exact apartFrame f listed b within now
      · exact fun quiet => absurd speaking (by rw [quiet]; exact Bool.false_ne_true)
    · have same : ({ w with bytes := w.bytes + length }.hear frame none) =
          { w with bytes := w.bytes + length } := by
        simp [World.hear, speaking]
      rw [same]
      refine ⟨bytes, ?_, kept.silent, backlog, kept.apart, kept.idle, kept.resending, asked, ?_⟩
      · exact fun b earlier => said b (List.mem_append_left _ earlier)
      · intro quiet none notAgain u waits
        exact kept.settled quiet none notAgain u (waits.of_append (by simp)).1

/-- An utterance ends while a session is connected: the session is asked to finish it. -/
theorem Kept.ends (kept : Kept t w) (length : ℕ) (frame : Frame) {n : ℕ} (here : w.stt = some n) (k : ℕ) :
    Kept (t ++ [.received frame, .ended w.spoken, .sent n .finalize])
      { w with
        bytes := w.bytes + length, speaking := false, spoken := [], finalizeSentAt := some k,
        finalizes := k + 1 } := by
  have either : ∀ u, .ended u ∈ t ++ [.received frame, .ended w.spoken, .sent n .finalize] →
      .ended u ∈ t ∨ u = w.spoken := by
    intro u listed
    simpa using listed
  refine ⟨?_, nofun, fun _ => rfl, ?_, ?_, ?_, kept.resending, ?_, nofun⟩
  · intro u listed b within
    have old : b < w.bytes := by
      rcases either u listed with earlier | rfl
      · exact kept.bytes u earlier b within
      · exact kept.spoken b within
    show b < w.bytes + length
    omega
  · intro f listed b within
    obtain ⟨old, fresh⟩ := kept.backlog f listed b within
    refine ⟨show b < w.bytes + length by omega, fun u ended => ?_⟩
    rcases either u ended with earlier | rfl
    · exact fresh u earlier
    · exact kept.apart (by rw [here]; rfl) f listed b within
  · exact fun _ _ _ _ _ => List.not_mem_nil
  · exact fun none => absurd (here.symm.trans none) (Option.some_ne_none n)
  · intro m is _ u _
    obtain rfl := Option.some.inj (here.symm.trans is)
    refine ⟨t ++ [.received frame, .ended w.spoken], [], by simp, ?_⟩
    exact fun b none => absurd none List.not_mem_nil

/-- The audio that is kept for later does not matter. -/
theorem Kept.keeping (kept : Kept t w) (preroll : List Frame) (utterance lastUtterance : List ℕ) :
    Kept t { w with preroll := preroll, utterance := utterance, lastUtterance := lastUtterance } :=
  ⟨kept.bytes, kept.spoken, kept.silent, kept.backlog, kept.apart, kept.idle, kept.resending, kept.asked,
    kept.settled⟩

/-- The frame goes to the session, or waits: it has nothing of what ended. -/
theorem Kept.forward (kept : Kept t w) (bufferFrames : ℕ) (frame : Frame)
    (fresh : ∀ b ∈ frame, b < w.bytes ∧ ∀ u, .ended u ∈ t → b ∉ u) :
    Kept (t ++ (w.forward bufferFrames frame).1) (w.forward bufferFrames frame).2 := by
  have noEnd : ∀ u, .ended u ∉ (w.forward bufferFrames frame).1 := by
    intro u listed
    cases here : w.stt with
    | some n =>
      rw [World.forward_connected bufferFrames here] at listed
      cases (World.mem_trySend.mp listed).2
    | none =>
      rw [World.forward_waiting bufferFrames here] at listed
      obtain ⟨_, _, is⟩ := List.mem_map.mp listed
      cases is
  have before : ∀ u, .ended u ∈ t ++ (w.forward bufferFrames frame).1 → .ended u ∈ t := fun u listed =>
    (List.mem_append.mp listed).resolve_right (noEnd u)
  have settled : w.speaking = false → w.finalizeSentAt = none → w.resendUtterance = false →
      ∀ u, ¬ Unanswered (t ++ (w.forward bufferFrames frame).1) u := fun quiet none notAgain u waits =>
    kept.settled quiet none notAgain u (waits.of_append noEnd).1
  have backlog : ∀ f ∈ w.backlog ++ [frame], ∀ b ∈ f,
      b < w.bytes ∧ ∀ u, .ended u ∈ t ++ (w.forward bufferFrames frame).1 → b ∉ u := by
    intro f listed b within
    have known : b < w.bytes ∧ ∀ u, .ended u ∈ t → b ∉ u := by
      rcases List.mem_append.mp listed with old | new
      · exact kept.backlog f old b within
      · exact fresh b (List.mem_singleton.mp new ▸ within)
    exact ⟨known.1, fun u ended => known.2 u (before u ended)⟩
  have bytes : ∀ u, .ended u ∈ t ++ (w.forward bufferFrames frame).1 → ∀ b ∈ u, b < w.bytes :=
    fun u listed => kept.bytes u (before u listed)
  cases here : w.stt with
  | some n =>
    rw [World.forward_connected bufferFrames here] at noEnd settled backlog bytes ⊢
    refine ⟨bytes, kept.spoken, kept.silent, fun f listed =>
      backlog f (List.mem_append_left _ listed), kept.apart,
      kept.idle, kept.resending, ?_, settled⟩
    intro m is sent u waits
    have earlier := (waits.of_append noEnd).1
    refine (kept.asked m is sent u earlier).append fun b heard => ?_
    rw [heardBy_trySend] at heard
    split at heard
    · exact (fresh b heard).2 u earlier.ended
    · exact absurd heard List.not_mem_nil
  | none =>
    rw [World.forward_waiting bufferFrames here] at noEnd settled backlog bytes ⊢
    refine ⟨bytes, kept.spoken, kept.silent, fun f listed =>
      backlog f (List.mem_of_mem_drop listed), ?_, kept.idle,
      kept.resending, ?_, settled⟩
    · intro connected
      rw [show w.stt = none from here] at connected
      cases connected
    · intro m is
      exact absurd (here.symm.trans is).symm (Option.some_ne_none m)

/-- `on_audio`, where an utterance ends only while a session listens. -/
theorem Kept.audio (kept : Kept t w) (bufferFrames length : ℕ) (turns : Bool)
    (fit : (turns && w.speaking) = true → w.listens) :
    Kept (t ++ (w.onAudio bufferFrames length turns).1) (w.onAudio bufferFrames length turns).2 := by
  have new : ∀ b, b ∈ List.range' w.bytes length ↔ w.bytes ≤ b ∧ b < w.bytes + length := by
    intro b
    simp [List.mem_range'_1]
  have behind : ∀ b ∈ List.range' w.bytes length, ∀ u, .ended u ∈ t ∨ u = w.spoken → b ∉ u := by
    intro b within u ended listed
    have old : b < w.bytes := by
      rcases ended with earlier | rfl
      · exact kept.bytes u earlier b listed
      · exact kept.spoken b listed
    have := ((new b).mp within).1
    omega
  by_cases ended : w.verdict turns = some .speechEnded
  · obtain ⟨stops, speaking⟩ := w.verdict_ended.mp ended
    obtain ⟨n, here, open'⟩ := (Option.any_eq_true _ _).mp (fit (by rw [stops, speaking]; rfl))
    obtain ⟨preroll, utterance, lastUtterance, same⟩ := World.keepAudio_eq
      ({ w with bytes := w.bytes + length }.hear (List.range' w.bytes length) (some .speechEnded))
      (List.range' w.bytes length) (some .speechEnded)
    have asks : (({ w with bytes := w.bytes + length }.hear (List.range' w.bytes length)
        (some .speechEnded)).keepAudio (List.range' w.bytes length) (some .speechEnded)).finalize =
        ([.sent n .finalize],
          { w with
            bytes := w.bytes + length, speaking := false, spoken := [], preroll := preroll,
            utterance := utterance,
            lastUtterance := lastUtterance, finalizeSentAt := some w.finalizes,
            finalizes := w.finalizes + 1 }) := by
      rw [same]
      exact World.finalize_connected here (of_decide_eq_true open')
    rw [World.onAudio_ended bufferFrames ended]
    simp only [asks]
    have asked :=
      (kept.ends length (List.range' w.bytes length) here w.finalizes).keeping preroll utterance
      lastUtterance
    have forwarded := asked.forward bufferFrames (List.range' w.bytes length) ?_
    · rw [List.append_assoc] at forwarded
      exact forwarded
    · intro b within
      refine ⟨((new b).mp within).2, fun u said => behind b within u ?_⟩
      simpa using said
  · rw [World.onAudio_goesOn bufferFrames ended]
    obtain ⟨preroll, utterance, lastUtterance, same⟩ := World.keepAudio_eq
      ({ w with bytes := w.bytes + length }.hear (List.range' w.bytes length) (w.verdict turns))
      (List.range' w.bytes length) (w.verdict turns)
    simp only [same]
    have heard := (kept.heard length ended _ new).keeping preroll utterance lastUtterance
    have forwarded := heard.forward bufferFrames (List.range' w.bytes length) ?_
    · rw [List.append_assoc] at forwarded
      exact forwarded
    · intro b within
      refine ⟨?_, fun u said => ?_⟩
      · obtain ⟨_, _, sameBytes⟩ := World.hear_eq { w with bytes := w.bytes + length }
          (List.range' w.bytes length) (w.verdict turns)
        rw [sameBytes]
        exact ((new b).mp within).2
      exact behind b within u (.inl ((List.mem_append.mp said).resolve_right (by simp)))

/-- `SttReady`, where no utterance waits for the answer of another session. -/
theorem Kept.ready (kept : Kept t w)
    (fit : w.opening = 0 ∨ w.finalizeSentAt = none ∧
      (w.resendUtterance → w.lastUtterance ≠ [] ∧ w.sessions ∉ w.gone)) :
    Kept (t ++ w.onReady.1) w.onReady.2 := by
  by_cases closed : w.opening = 0
  · rw [World.onReady, if_pos closed, List.append_nil]
    exact kept
  obtain ⟨unasked, words⟩ := fit.resolve_left closed
  have before : ∀ {acts : List Act}, (∀ u, .ended u ∉ acts) → ∀ u, .ended u ∈ t ++ acts → .ended u ∈ t :=
    fun noEnd u listed => (List.mem_append.mp listed).resolve_right (noEnd u)
  have connected {sentAt : Option ℕ} : some w.sessions = none → sentAt = none := fun none =>
    absurd none (Option.some_ne_none _)
  have done : false = true → some w.sessions = none := fun again => absurd again Bool.false_ne_true
  by_cases due : w.resendUtterance
  · obtain ⟨some', open'⟩ := words due
    rw [w.onReady_again closed due some' open']
    have noEnd : ∀ u, .ended u ∉ [Act.again w.sessions w.lastUtterance] ++
        (((chunks 160 w.lastUtterance.length w.lastUtterance).map fun chunk =>
          .sent w.sessions (.audio chunk)) ++
        ([.sent w.sessions .finalize] ++ w.backlog.map fun frame =>
          .sent w.sessions (.audio frame))) := by simp
    refine ⟨fun u listed => kept.bytes u (before noEnd u listed), kept.spoken, kept.silent,
      List.forall_mem_nil _, fun _ => List.forall_mem_nil _, connected, done, ?_,
      fun _ none => absurd none (Option.some_ne_none _)⟩
    intro n is _ u waits
    obtain rfl := Option.some.inj is
    have earlier := (waits.of_append noEnd).1
    refine ⟨t ++ (.again w.sessions w.lastUtterance ::
      (chunks 160 w.lastUtterance.length w.lastUtterance).map fun chunk =>
        .sent w.sessions (.audio chunk)),
      w.backlog.map fun frame => .sent w.sessions (.audio frame), by simp, fun b heard => ?_⟩
    rw [heardBy_frames] at heard
    obtain ⟨f, listed, within⟩ := List.mem_flatten.mp heard
    exact (kept.backlog f listed b within).2 u earlier.ended
  · rw [w.onReady_waits closed fun again => due again.1]
    have noEnd : ∀ u, .ended u ∉ (if w.sessions ∈ w.gone then [] else
        w.backlog.map fun frame => Act.sent w.sessions (.audio frame)) := by
      intro u
      split <;> simp
    refine ⟨fun u listed => kept.bytes u (before noEnd u listed), kept.spoken, kept.silent,
      List.forall_mem_nil _, fun _ => List.forall_mem_nil _, connected, done, ?_, ?_⟩
    · intro n _ sent
      rw [show w.finalizeSentAt = none from unasked] at sent
      cases sent
    · intro quiet _ _ u waits
      exact kept.settled quiet unasked (by simpa using due) u (waits.of_append noEnd).1

/-- A session closes. -/
theorem Kept.closed (kept : Kept t w) {acts : List Act} {w' : World} (finished : w.onClosed = (acts, w'))
    (noted : List Act) (harmless : ∀ act ∈ noted, act = .failed ∨ ∃ n, act = .sent n .close) :
    Kept (t ++ (noted ++ acts)) w' := by
  obtain ⟨opening, ends, what, same⟩ := w.onClosed_eq
  obtain ⟨rfl, rfl⟩ := Prod.mk.inj (same.symm.trans finished)
  have plain : ∀ act ∈
    noted ++ ((if w.finalizeSentAt.isSome ∧ !w.speaking then [.lost w.lastUtterance] else []) ++
      ends), act = .failed ∨ (∃ n, act = .sent n .close) ∨ act = .lost w.lastUtterance := by
    intro act listed
    rcases List.mem_append.mp listed with before | after
    · exact (harmless act before).imp_right .inl
    rcases List.mem_append.mp after with lost | given
    · split at lost
      · exact .inr (.inr (List.mem_singleton.mp lost))
      · exact absurd lost List.not_mem_nil
    · rcases what with rfl | rfl
      · exact absurd given List.not_mem_nil
      · exact .inl (List.mem_singleton.mp given)
  refine kept.change ?_ ?_ rfl rfl rfl rfl nofun (fun _ => rfl) (fun _ => rfl) nofun ?_
  · intro v listed
    rcases plain _ listed with is | ⟨_, is⟩ | is <;> cases is
  · intro n
    refine List.flatMap_eq_nil_iff.mpr fun act listed => ?_
    rcases plain _ listed with rfl | ⟨_, rfl⟩ | rfl <;> rfl
  · intro quiet _ notAgain
    have silent : w.speaking = false := quiet
    have neither := Bool.or_eq_false_iff.mp notAgain
    exact .inl ⟨by simpa [silent] using neither.2, neither.1⟩

/-- A session may take over. -/
theorem Kept.swap (kept : Kept t w) (noted : List Act)
    (harmless : ∀ act ∈ noted, act = .answered ∨ ∃ n, act = .sent n .close)
    (fit : w.speaking = false → w.finalizeSentAt = none → w.resendUtterance = false) :
    Kept (t ++ (noted ++ w.swapSttIfReady.1)) w.swapSttIfReady.2 := by
  have quietly : ∀ closes : List Act, (∀ act ∈ closes, ∃ n, act = .sent n .close) →
      (∀ v, .ended v ∉ noted ++ closes) ∧ ∀ n, heardBy n (noted ++ closes) = [] := by
    intro closes sent
    have plain : ∀ act ∈ noted ++ closes, act = .answered ∨ ∃ n, act = .sent n .close := fun act listed =>
      (List.mem_append.mp listed).elim (harmless act) fun here => .inr (sent act here)
    constructor
    · intro v listed
      rcases plain _ listed with is | ⟨_, is⟩ <;> cases is
    · intro n
      refine List.flatMap_eq_nil_iff.mpr fun act listed => ?_
      rcases plain _ listed with rfl | ⟨_, rfl⟩ <;> rfl
  rcases w.swapSttIfReady_cases with same | ⟨n, _, quiet, unasked, same⟩
  · rw [same]
    obtain ⟨noEnd, noAudio⟩ := quietly [] fun act none => absurd none List.not_mem_nil
    exact kept.change noEnd noAudio rfl rfl rfl rfl .inl kept.idle kept.resending (fun _ => ⟨rfl, rfl⟩)
      fun _ unasked notAgain => .inl ⟨unasked, notAgain⟩
  · rw [same]
    obtain ⟨noEnd, noAudio⟩ :=
      quietly (w.stt.toList.flatMap fun old => w.trySend old .close) fun _ => World.mem_close
    refine kept.change noEnd noAudio rfl rfl rfl rfl (fun _ => .inr quiet) nofun ?_ ?_
      fun _ unasked notAgain => .inl ⟨unasked, notAgain⟩
    · intro again
      rw [show w.resendUtterance = false from fit quiet unasked] at again
      cases again
    · intro sent
      rw [show w.finalizeSentAt = none from unasked] at sent
      cases sent

/-- No utterance waits any longer, where one final, or failure, is for all that ended. -/
theorem Kept.noneWaits (kept : Kept t w) {act : Act} (answer : act = .answered ∨ act = .failed)
    (reconnects : ℕ) :
    Kept (t ++ [act]) { w with reconnects := reconnects, finalizeSentAt := none } := by
  refine kept.change ?_ ?_ rfl rfl rfl rfl .inl (fun _ => rfl) kept.resending nofun ?_
  · intro v listed
    rcases answer with rfl | rfl <;> cases List.mem_singleton.mp listed
  · intro n
    rcases answer with rfl | rfl <;> rfl
  · exact fun _ _ _ => .inr (answer.imp (fun is => List.mem_singleton.mpr is.symm)
      fun is => List.mem_singleton.mpr is.symm)

/-- **A prompt step keeps it.** -/
theorem Kept.step (kept : Kept t w) (bufferFrames : ℕ) (i : Input)
    (fit : prompt (event (World.step bufferFrames) w i)) :
    Kept (t ++ (w.step bufferFrames i).1) (w.step bufferFrames i).2 := by
  have same : Kept (t ++ []) w := by
    rw [List.append_nil]
    exact kept
  cases i with
  | audio length turns =>
    refine kept.audio bufferFrames length turns fun stops => ?_
    simpa [prompt, stops] using fit
  | ready => exact kept.ready (of_decide_eq_true fit)
  | unavailable =>
    simp only [World.step]
    by_cases none : w.opening = 0
    · rw [if_pos none]
      exact same
    · rw [if_neg none]
      refine kept.change (by simp) (fun _ => rfl) rfl rfl rfl rfl .inl kept.idle kept.resending
        (fun _ => ⟨rfl, rfl⟩) ?_
      exact fun _ _ _ => .inr (.inr List.mem_cons_self)
  | final =>
    simp only [World.step]
    split
    · rename_i n here
      have connected : w.stt.isSome := by rw [here]; rfl
      have swapped :=
        (kept.noneWaits (.inl rfl) 0).swap [] (fun act none => absurd none List.not_mem_nil) ?_
      · rw [List.append_assoc] at swapped
        exact swapped
      · intro _ _
        by_contra again
        rw [kept.resending (by simpa using again)] at connected
        cases connected
    · exact same
  | release =>
    have unasked : w.finalizeSentAt = none := of_decide_eq_true fit
    have still : { w with finalizeSentAt := none } = w := by rw [← unasked]
    simp only [World.step]
    rw [still]
    exact same
  | closed =>
    simp only [World.step]
    by_cases connected : w.stt.isSome
    · rw [if_pos connected]
      exact kept.closed rfl [] fun act none => absurd none List.not_mem_nil
    · rw [if_neg connected]
      exact same
  | focused wanted =>
    have opened : ∀ next, Kept t { w with sessions := w.sessions + 1, sttNext := next } := fun _ =>
      ⟨kept.bytes, kept.spoken, kept.silent, kept.backlog, kept.apart, kept.idle,
        kept.resending, kept.asked,
        kept.settled⟩
    cases wanted with
    | true =>
      refine (opened (some w.sessions)).swap
        (w.sttNext.toList.flatMap fun stale => w.trySend stale .close) ?_ ?_
      · exact fun act listed => .inr (World.mem_close listed)
      · intro quiet unasked
        have silent : w.speaking = false := quiet
        have none : w.finalizeSentAt = none := unasked
        simpa [prompt, silent, none] using fit
    | false =>
      have closes : ∀ act ∈ w.trySend w.sessions .close, act = .sent w.sessions .close :=
        fun act listed =>
        (World.mem_trySend.mp listed).2
      show Kept (t ++ w.trySend w.sessions .close) { w with sessions := w.sessions + 1 }
      refine (opened w.sttNext).change (fun v listed => ?_)
        (fun n => ?_) rfl rfl rfl rfl .inl kept.idle kept.resending
        (fun _ => ⟨rfl, rfl⟩) fun _ unasked notAgain => .inl ⟨unasked, notAgain⟩
      · cases closes _ listed
      · refine List.flatMap_eq_nil_iff.mpr fun act listed => ?_
        rw [closes act listed]
  | overdue sentAt =>
    simp only [World.step]
    by_cases due : w.finalizeSentAt = some sentAt
    · rw [if_pos due]
      have closed := (kept.noneWaits (.inr rfl) w.reconnects).closed rfl
        (w.stt.toList.flatMap fun n => w.trySend n .close) fun _ listed => .inr (World.mem_close listed)
      rw [List.append_assoc] at closed
      exact closed
    · rw [if_neg due]
      exact same
  | second pending =>
    show Kept (t ++ []) { w with secondPending := pending }
    exact kept.change (by simp) (fun _ => rfl) rfl rfl rfl rfl .inl kept.idle kept.resending
      (fun _ => ⟨rfl, rfl⟩)
      fun _ unasked notAgain => .inl ⟨unasked, notAgain⟩
  | gone n =>
    show Kept (t ++ []) { w with gone := n :: w.gone }
    exact kept.change (by simp) (fun _ => rfl) rfl rfl rfl rfl .inl kept.idle kept.resending
      (fun _ => ⟨rfl, rfl⟩)
      fun _ unasked notAgain => .inl ⟨unasked, notAgain⟩

end Steps

/-! ### Every utterance is finalized -/

/-- What is kept, after every prompt run. -/
theorem Prompt.kept {bufferFrames : ℕ} {inputs : List Input} (all : Prompt (run bufferFrames inputs)) :
    Kept (trace (run bufferFrames inputs)) (reached bufferFrames inputs) := by
  refine run_induction (C := fun _ ev => prompt ev) (P := fun evs w => Kept (trace evs) w) ?_ ?_
    fun pre ev post split => all ev (by rw [run, split]; exact List.mem_append_right _ List.mem_cons_self)
  · refine ⟨nofun, nofun, fun _ => rfl, nofun, nofun, fun _ => rfl, nofun, nofun, ?_⟩
    rintro - - - u ⟨pre, post, split, -⟩
    exact absurd (split ▸ List.mem_append_right pre List.mem_cons_self) List.not_mem_nil
  · intro pre w i kept fit
    rw [trace_append, trace_single]
    exact kept.step bufferFrames i fit

/-- **Every utterance the caller ended is finalized** where every step is prompt. -/
theorem finalized_of_prompt (bufferFrames : ℕ) (inputs : List Input)
    (all : Prompt (run bufferFrames inputs)) :
    Finalized (trace (run bufferFrames inputs)) (reached bufferFrames inputs) := by
  have kept := all.kept
  intro n here quiet pre u post split unanswered unfailed
  have waits : Unanswered (trace (run bufferFrames inputs)) u := ⟨pre, post, split, unanswered, unfailed⟩
  by_cases sent : (reached bufferFrames inputs).finalizeSentAt.isSome
  · exact kept.asked n here sent u waits
  · have notAgain : (reached bufferFrames inputs).resendUtterance = false := by
      by_contra again
      have gone := kept.resending (by simpa using again)
      exact absurd (here.symm.trans gone) (Option.some_ne_none n)
    exact absurd waits (kept.settled quiet (by simpa using sent) notAgain u)

set_option maxRecDepth 100000 in
/-- The session's task ends before it answers, the caller speaks on, and the next one is asked for
the words. -/
theorem finalized_reconnected :
    let inputs : List Input :=
      [.ready, .audio 160 true, .audio 160 false, .audio 160 true, .gone 0, .closed,
        .audio 160 false, .ready]
    Finalized (trace (run 100 inputs)) (reached 100 inputs) :=
  finalized_of_prompt 100 _ (by decide)

/-- The caller says something while recognition is connected for the first time. -/
theorem early_unfinalized :
    ¬ ∀ (bufferFrames : ℕ) (inputs : List Input),
      Finalized (trace (run bufferFrames inputs)) (reached bufferFrames inputs) := by
  intro all
  have finalized := all 100 [.audio 160 true, .audio 160 true, .ready] 0 rfl rfl
    [.received (List.range' 0 160), .received (List.range' 160 160)] (List.range' 0 160) _ rfl
      (by decide) (by decide)
  obtain ⟨pre, post, split, -⟩ := finalized
  have asked : Act.sent 0 .finalize ∈ trace (run 100 [.audio 160 true, .audio 160 true, .ready]) :=
    split ▸ List.mem_append_right _ List.mem_cons_self
  exact absurd asked (by decide)

end Callora.Hearing
