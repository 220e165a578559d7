/-
**A recognizer's reader.**

What a speech recognizer's server says is read in one task: messages as they come, the runtime's
finalizes, and the deadline of a finalize that has no answer. `Reader.step` is a turn of its loop;
what an utterance is, and what a message does to it, is the recognizer's own (`Recognizer`).

A `Server` says what its messages hold, and how pieces of text are put together, and so what a run
has to tell (`Kept`): the pieces received are utterances, one after the other, and each final is one
of them put together.

- `Conserves`: a recognizer whose utterance holds exactly the final pieces it read since it was taken;
- `kept_of_complete`: every run in which no final piece is passed by tells what it has to tell.

A final piece is passed by where the stream ends while it waits, or where its message is read as
something else.
-/
import Callora.Library.Runs
import Callora.Business.Values

set_option linter.unusedSectionVars false

namespace Callora.Recognizers

open Text Runs

/-! ### The loop -/

inductive SttEvent
  /-- `Partial`. -/
  | soFar (text : String)
  | unsure (words : List (String × F32))
  | final (text : String)
  | error (text : String)
  | closed

/-- What a message does. -/
inductive Reply (υ : Type)
  /-- It is told, and the utterance goes on. -/
  | tells (events : List SttEvent) (utterance : υ)
  /-- It is the end of a finalize. -/
  | fin (utterance : υ)
  /-- The server has finished. -/
  | finished

/-- A recognizer's utterance: the empty one, what is told when it is taken, and what a message does
to it. -/
structure Recognizer (υ : Type) where
  empty : υ
  take : υ → List SttEvent × υ
  hear : υ → Json → Reply υ

/-- The reader: its utterance, the deadline of a finalize, and whether its task has ended. -/
structure Reader (υ : Type) where
  utterance : υ
  deadline : Option ℕ
  closed : Bool

inductive ReaderInput
  /-- The runtime asked to finalize. -/
  | finalize (now : ℕ)
  /-- The deadline is over. -/
  | overdue (now : ℕ)
  | message (v : Json)
  /-- A message that is no text, or no JSON. -/
  | other
  /-- The stream ended, or broke. -/
  | ended

/-- `FINALIZE_WAIT`, in milliseconds. -/
def FINALIZE_WAIT : ℕ := 1500

section Loop

variable {υ : Type} (r : Recognizer υ)

/-- A reader that begins. -/
def Reader.begun : Reader υ := ⟨r.empty, none, false⟩

/-- A turn of the loop. -/
def Reader.step (s : Reader υ) (i : ReaderInput) : List SttEvent × Reader υ :=
  if s.closed then ([], s)
  else
    match i with
    | .finalize now => ([], { s with deadline := some (s.deadline.getD (now + FINALIZE_WAIT)) })
    | .overdue now =>
      if s.deadline.any (· ≤ now) then
        ((r.take s.utterance).1, { s with utterance := (r.take s.utterance).2, deadline := none })
      else ([], s)
    | .message v =>
      match r.hear s.utterance v with
      | .tells events utterance => (events, { s with utterance := utterance })
      | .fin utterance =>
        ((r.take utterance).1, { s with utterance := (r.take utterance).2, deadline := none })
      | .finished => ([.closed], { s with closed := true })
    | .other => ([], s)
    | .ended => ([.closed], { s with closed := true })

abbrev Reading (υ : Type) := Event (Reader υ) ReaderInput (List SttEvent)

/-- The turns of a reader. -/
abbrev reading (inputs : List ReaderInput) : List (Reading υ) :=
  events (Reader.step r) (Reader.begun r) inputs

end Loop

/-! ### What is received, and what is told -/

/-- What the turns tell. -/
def told {υ : Type} (evs : List (Reading υ)) : List SttEvent := evs.flatMap (·.output)

/-- The texts of the finals. -/
def finals (events : List SttEvent) : List String :=
  events.filterMap fun
    | .final text => some text
    | _ => none

/-- **A server, as its messages are written.** -/
structure Server where
  /-- The final pieces of a message. -/
  pieces : Json → List String
  /-- Its words that are not final yet. -/
  interim : Json → String
  /-- It is the end of a finalize. -/
  fin : Json → Bool
  /-- It is no transcript: an error, or the server's end. -/
  silent : Json → Bool
  /-- It is the server's end. -/
  ends : Json → Bool
  /-- Pieces put together. -/
  glue : List String → String

namespace Server

variable {υ : Type} (server : Server)

/-- The final pieces a turn receives. -/
def receivedAt (ev : Reading υ) : List String :=
  match ev.before.closed, ev.input with
  | false, .message v => server.pieces v
  | _, _ => []

/-- The final pieces received, in order. -/
def received (evs : List (Reading υ)) : List String := evs.flatMap server.receivedAt

/-- A turn that ends an utterance: the end of a finalize, or the deadline of one that has no answer. -/
def endsAt (ev : Reading υ) : Bool :=
  !ev.before.closed &&
    match ev.input with
    | .message v => server.fin v
    | .overdue now => ev.before.deadline.any (· ≤ now)
    | _ => false

/-- One more turn: the utterances that were ended, and the pieces of the one under way. -/
def goOn (heard : List (List String) × List String) (ev : Reading υ) : List (List String) × List String :=
  let current := heard.2 ++ server.receivedAt ev
  if server.endsAt ev then (heard.1 ++ [current], []) else (heard.1, current)

/-- **The utterances of a run**, and the pieces of the one under way. -/
def utterances (evs : List (Reading υ)) : List (List String) × List String :=
  evs.foldl server.goOn ([], [])

theorem utterances_concat (evs : List (Reading υ)) (ev : Reading υ) :
    server.utterances (evs ++ [ev]) = server.goOn (server.utterances evs) ev := by
  rw [utterances, List.foldl_append]
  rfl

/-- **The utterances are what was received**, in order and each piece once. -/
theorem utterances_flatten (evs : List (Reading υ)) :
    (server.utterances evs).1.flatten ++ (server.utterances evs).2 = server.received evs := by
  induction evs using List.reverseRecOn with
  | nil => rfl
  | append_singleton evs ev ih =>
    have more : server.received (evs ++ [ev]) = server.received evs ++ server.receivedAt ev := by
      simp [received]
    rw [more, ← ih, utterances_concat, goOn]
    split <;> simp

/-- No final piece is passed by: a message that is no transcript has none, and where the stream ends
none waits that would be told. -/
def Complete (pre : List (Reading υ)) (ev : Reading υ) : Prop :=
  ev.before.closed = false →
    match ev.input with
    | .message v => (server.silent v → server.pieces v = []) ∧
        (server.ends v → server.glue (server.utterances pre).2 = "")
    | .ended => server.glue (server.utterances pre).2 = ""
    | _ => True

instance (pre : List (Reading υ)) (ev : Reading υ) : Decidable (server.Complete pre ev) := by
  unfold Complete
  cases ev.input <;> infer_instance

/-- **What a run has to tell**: each utterance that was ended, put together, unless nothing is left
of it, and once the stream has ended nothing waits; and a partial is what waits, with the words not
yet final after it. -/
structure Kept (evs : List (Reading υ)) (s : Reader υ) : Prop where
  all : (server.utterances evs).1.flatten ++ (server.utterances evs).2 = server.received evs
  finals : finals (told evs) = ((server.utterances evs).1.map server.glue).filter (· ≠ "")
  ended : s.closed = true → server.glue (server.utterances evs).2 = ""
  partials : Along (fun pre ev => ∀ p, .soFar p ∈ ev.output →
    ∃ v, ev.input = .message v ∧
    p = server.glue ((server.utterances (pre ++ [ev])).2 ++ [server.interim v])) evs

/-- A recognizer whose utterance holds exactly the final pieces read since it was taken. -/
structure Conserves (held : υ → List String) (r : Recognizer υ) : Prop where
  empty : held r.empty = []
  take : ∀ u, Recognizers.finals (r.take u).1 = [server.glue (held u)].filter (· ≠ "") ∧
    held (r.take u).2 = []
  whole : ∀ u p, .soFar p ∉ (r.take u).1
  tells : ∀ u v events u', r.hear u v = .tells events u' →
    Recognizers.finals events = [] ∧ server.fin v = false ∧
    (held u' = held u ++ if server.silent v then [] else server.pieces v) ∧
    ∀ p, .soFar p ∈ events → p = server.glue (held u' ++ [server.interim v])
  fin : ∀ u v u', r.hear u v = .fin u' → server.fin v = true ∧ held u' = held u ++ server.pieces v
  finished : ∀ u v, r.hear u v = .finished →
    server.ends v = true ∧ server.silent v = true ∧ server.fin v = false

end Server

section Runs

variable {υ : Type} {server : Server} {r : Recognizer υ} {held : υ → List String} {pre : List (Reading υ)}
  {s : Reader υ} {i : ReaderInput}

theorem told_concat (evs : List (Reading υ)) (ev : Reading υ) :
    told (evs ++ [ev]) = told evs ++ ev.output := by
  simp [told]

theorem finals_append (xs ys : List SttEvent) : finals (xs ++ ys) = finals xs ++ finals ys :=
  List.filterMap_append

theorem Reader.step_closed (closed : s.closed = true) (i : ReaderInput) : s.step r i = ([], s) :=
  if_pos closed

/-- What the turns so far have to tell is told, and while the reader runs its utterance holds what
waits. -/
structure Follows (server : Server) (held : υ → List String) (pre : List (Reading υ))
    (s : Reader υ) : Prop where
  kept : server.Kept pre s
  waits : s.closed = false → held s.utterance = (server.utterances pre).2

/-- A partial at the end of a longer run. -/
theorem Server.Kept.partials_concat {ev : Reading υ} {s' : Reader υ} (kept : server.Kept pre s')
    (own : ∀ p, .soFar p ∈ ev.output →
      ∃ v, ev.input = .message v ∧ p = server.glue
      ((server.utterances (pre ++ [ev])).2 ++ [server.interim v])) :
    Along (fun pre ev => ∀ p, .soFar p ∈ ev.output →
      ∃ v, ev.input = .message v ∧ p = server.glue
      ((server.utterances (pre ++ [ev])).2 ++ [server.interim v]))
      (pre ++ [ev]) := by
  intro pre' ev' post split
  rcases split_concat split with ⟨rfl, rfl, -⟩ | ⟨post', -, before⟩
  · exact own
  · exact kept.partials pre' ev' post' before

/-- A turn that goes on with the utterance under way. -/
theorem Follows.goOn (follows : Follows server held pre s)
    (goes : server.endsAt (event (Reader.step r) s i) = false)
    (tells : finals (s.step r i).1 = [])
    (ended : (s.step r i).2.closed = true →
      server.glue ((server.utterances pre).2 ++ server.receivedAt (event (Reader.step r) s i)) = "")
    (waits : (s.step r i).2.closed = false → held (s.step r i).2.utterance =
      (server.utterances pre).2 ++ server.receivedAt (event (Reader.step r) s i))
    (partials : ∀ p, .soFar p ∈ (s.step r i).1 →
      ∃ v, i = .message v ∧ p = server.glue ((server.utterances pre).2 ++
      server.receivedAt (event (Reader.step r) s i) ++ [server.interim v])) :
    Follows server held (pre ++ [event (Reader.step r) s i]) (s.step r i).2 := by
  have next : server.utterances (pre ++ [event (Reader.step r) s i]) =
      ((server.utterances pre).1, (server.utterances pre).2 ++
        server.receivedAt (event (Reader.step r) s i)) := by
    rw [Server.utterances_concat, Server.goOn, goes]
    rfl
  refine ⟨⟨server.utterances_flatten _, ?_, ?_, follows.kept.partials_concat ?_⟩, ?_⟩
  · rw [told_concat, finals_append, next, event_output, tells, List.append_nil]
    exact follows.kept.finals
  · rw [next]
    exact ended
  · rw [next]
    exact partials
  · rw [next]
    exact waits

/-- A turn that ends the utterance, and takes it. -/
theorem Follows.ends (conserves : server.Conserves held r) (follows : Follows server held pre s) {u : υ}
    (ends : server.endsAt (event (Reader.step r) s i) = true)
    (holds : held u = (server.utterances pre).2 ++ server.receivedAt (event (Reader.step r) s i))
    (moved : s.step r i = ((r.take u).1, { s with utterance := (r.take u).2, deadline := none }))
    (opened : s.closed = false) :
    Follows server held (pre ++ [event (Reader.step r) s i]) (s.step r i).2 := by
  have next : server.utterances (pre ++ [event (Reader.step r) s i]) =
      ((server.utterances pre).1 ++ [held u], []) := by
    rw [Server.utterances_concat, Server.goOn, ends, holds]
    rfl
  obtain ⟨tells, emptied⟩ := conserves.take u
  refine ⟨⟨server.utterances_flatten _, ?_, ?_, follows.kept.partials_concat ?_⟩, ?_⟩
  · rw [told_concat, finals_append, next, event_output, moved, tells, List.map_append, List.filter_append,
      follows.kept.finals]
    rfl
  · rw [moved]
    intro closed
    rw [opened] at closed
    cases closed
  · rw [event_output, moved]
    exact fun p listed => absurd listed (conserves.whole u p)
  · rw [next, moved]
    exact fun _ => emptied

/-- **What a turn in which no final piece is passed by does to what is told.** -/
theorem Follows.step (conserves : server.Conserves held r) (i : ReaderInput)
    (follows : Follows server held pre s)
    (complete : server.Complete pre (event (Reader.step r) s i)) :
    Follows server held (pre ++ [event (Reader.step r) s i]) (s.step r i).2 := by
  have nothing : ∀ p, SttEvent.soFar p ∉ ([] : List SttEvent) := fun p => List.not_mem_nil
  cases closed : s.closed with
  | true =>
    have none' : server.receivedAt (event (Reader.step r) s i) = [] := by simp [Server.receivedAt, closed]
    refine follows.goOn (by simp [Server.endsAt, closed]) ?_ ?_ ?_ ?_
    · rw [Reader.step_closed closed]
      rfl
    · rw [Reader.step_closed closed, none', List.append_nil]
      exact follows.kept.ended
    · rw [Reader.step_closed closed, none', List.append_nil]
      exact follows.waits
    · rw [Reader.step_closed closed]
      exact fun p listed => absurd listed (nothing p)
  | false =>
    have opened : ¬ s.closed = true := by simp [closed]
    have fits := complete closed
    have waits := follows.waits closed
    cases i with
    | finalize now =>
      have moved : s.step r (.finalize now) =
          ([], { s with deadline := some (s.deadline.getD (now + FINALIZE_WAIT)) }) := if_neg opened
      refine follows.goOn (by simp [Server.endsAt]) (by rw [moved]; rfl) ?_ ?_ ?_
      · simp [moved, closed]
      · simp [moved, Server.receivedAt, waits]
      · simp [moved]
    | other =>
      have moved : s.step r .other = ([], s) := if_neg opened
      refine follows.goOn (by simp [Server.endsAt]) (by rw [moved]; rfl) ?_ ?_ ?_
      · simp [moved, closed]
      · simp [moved, Server.receivedAt, waits]
      · simp [moved]
    | overdue now =>
      by_cases late : s.deadline.any (· ≤ now) = true
      · have moved : s.step r (.overdue now) =
            ((r.take s.utterance).1,
              { s with utterance := (r.take s.utterance).2, deadline := none }) := by
          rw [Reader.step, if_neg opened]
          exact if_pos late
        refine follows.ends conserves ?_ ?_ moved closed
        · simp only [Server.endsAt, event_before, event_input, closed, late]
          rfl
        · simp [Server.receivedAt, waits]
      · have moved : s.step r (.overdue now) = ([], s) := by
          rw [Reader.step, if_neg opened]
          exact if_neg late
        refine follows.goOn ?_ (by rw [moved]; rfl) ?_ ?_ ?_
        · simp only [Server.endsAt, event_before, event_input, closed, Bool.eq_false_iff.mpr late]
          rfl
        · simp [moved, closed]
        · simp [moved, Server.receivedAt, waits]
        · simp [moved]
    | ended =>
      have moved : s.step r .ended = ([.closed], { s with closed := true }) := if_neg opened
      have none' : server.glue (server.utterances pre).2 = "" := fits
      refine follows.goOn (by simp [Server.endsAt]) (by rw [moved]; rfl) ?_ ?_ ?_
      · simpa [Server.receivedAt] using fun _ => none'
      · simp [moved]
      · simp [moved]
    | message v =>
      obtain ⟨skipped, ends⟩ := fits
      have gets : server.receivedAt (event (Reader.step r) s (.message v)) = server.pieces v := by
        simp [Server.receivedAt, closed]
      have endsAt : server.endsAt (event (Reader.step r) s (.message v)) = server.fin v := by
        simp [Server.endsAt, closed]
      cases reply : r.hear s.utterance v with
      | tells events u =>
        have moved : s.step r (.message v) = (events, { s with utterance := u }) := by
          rw [Reader.step, if_neg opened]
          simp [reply]
        obtain ⟨quiet, goes, holds, soFar⟩ := conserves.tells _ _ _ _ reply
        have pieces : (if server.silent v then [] else server.pieces v) = server.pieces v := by
          split
          · next skip => exact (skipped skip).symm
          · rfl
        rw [pieces, waits] at holds
        refine follows.goOn (endsAt.trans goes) (by rw [moved]; exact quiet) ?_ ?_ ?_
        · simp [moved, closed]
        · rw [moved, gets]
          exact fun _ => holds
        · rw [moved, gets, ← holds]
          exact fun p listed => ⟨v, rfl, soFar p listed⟩
      | fin u =>
        have moved : s.step r (.message v) =
            ((r.take u).1, { s with utterance := (r.take u).2, deadline := none }) := by
          rw [Reader.step, if_neg opened]
          simp [reply]
        obtain ⟨fin, holds⟩ := conserves.fin _ _ _ reply
        refine follows.ends conserves (endsAt.trans fin) ?_ moved closed
        rw [gets, holds, waits]
      | finished =>
        have moved : s.step r (.message v) = ([.closed], { s with closed := true }) := by
          rw [Reader.step, if_neg opened]
          simp [reply]
        obtain ⟨is, silent, goes⟩ := conserves.finished _ _ reply
        refine follows.goOn (endsAt.trans goes) (by rw [moved]; rfl) ?_ ?_ ?_
        · rw [gets, skipped silent, List.append_nil]
          exact fun _ => ends is
        · simp [moved]
        · simp [moved]

/-- **No final piece is lost or repeated**, in every run in which none is passed by. -/
theorem kept_of_complete (conserves : server.Conserves held r) (inputs : List ReaderInput)
    (complete : Along (fun pre ev => server.Complete pre ev) (reading r inputs)) :
    server.Kept (reading r inputs) (final (Reader.step r) (Reader.begun r) inputs) := by
  have follows : Follows server held (reading r inputs)
    (final (Reader.step r) (Reader.begun r) inputs) := by
    refine run_induction (P := fun evs s => Follows server held evs s) ?_ ?_ complete
    · refine ⟨⟨rfl, rfl, fun closed => ?_, fun pre ev post split => ?_⟩, fun _ => conserves.empty⟩
      · cases closed
      · simp at split
    · exact fun pre s i follows fits => follows.step conserves i fits
  exact follows.kept

/-- Where a turn's events come from. -/
theorem output_cases (s : Reader υ) (i : ReaderInput) :
    (s.step r i).1 = [] ∨ (∃ u, (s.step r i).1 = (r.take u).1) ∨ (s.step r i).1 = [.closed] ∨
      ∃ v events u, i = .message v ∧ r.hear s.utterance v = .tells events u ∧
      (s.step r i).1 = events := by
  cases closed : s.closed with
  | true => exact .inl (congrArg Prod.fst (Reader.step_closed closed i))
  | false =>
    have opened : ¬ s.closed = true := by simp [closed]
    cases i with
    | finalize now => exact .inl (congrArg Prod.fst (if_neg opened))
    | other => exact .inl (congrArg Prod.fst (if_neg opened))
    | ended => exact .inr (.inr (.inl (congrArg Prod.fst (if_neg opened))))
    | overdue now =>
      rw [Reader.step, if_neg opened]
      split
      · exact .inr (.inl ⟨_, rfl⟩)
      · exact .inl rfl
    | message v =>
      rw [Reader.step, if_neg opened]
      split
      · next events u reply => exact .inr (.inr (.inr ⟨v, events, u, rfl, reply, rfl⟩))
      · exact .inr (.inl ⟨_, rfl⟩)
      · exact .inr (.inr (.inl rfl))

/-- **What holds of what a recognizer tells holds of every turn.** -/
theorem output_of_turn {P : Reader υ → ReaderInput → List SttEvent → Prop} (nothing : ∀ s i, P s i [])
    (taken : ∀ s i u, P s i (r.take u).1) (ended : ∀ s i, P s i [.closed])
    (told : ∀ s v events u, r.hear s.utterance v = .tells events u → P s (.message v) events)
    (inputs : List ReaderInput) : ∀ ev ∈ reading r inputs, P ev.before ev.input ev.output := by
  intro ev listed
  obtain ⟨-, -, same⟩ :=
    invariant_at (C := fun _ => True) (P := fun _ => True) trivial (fun _ _ _ _ => trivial)
    (fun _ _ => trivial) ev listed
  rw [same]
  show P ev.before ev.input (Reader.step r ev.before ev.input).1
  rcases @output_cases _ r ev.before ev.input with none' | ⟨u, took⟩ | closes | ⟨v, events, u, is,
    reply, tells⟩
  · exact none' ▸ nothing _ _
  · exact took ▸ taken _ _ u
  · exact closes ▸ ended _ _
  · rw [is] at tells ⊢
    rw [tells]
    exact told _ v events u reply

end Runs

end Callora.Recognizers
