/-
**A price answer belongs to its question: when.**

What the bot writes is collected for the question that listens, whatever question it was written
for. So the late answer to a question whose time was over is taken for the answer to the next one,
and is remembered for that one's words.

- `clear` is what keeps a step from that: a question begins to listen only when the bot has nothing
  left to write, and meanwhile the bot edits no message it wrote for another question;
- `Kept` is what then holds: all that is still to come, and all that was heard, was written for the
  question that listens;
- `belongs_of_clear`: so every answer belongs to its question, and is remembered for its words.
-/
import Callora.Prices.Asking

set_option linter.unusedSectionVars false

namespace Callora.Prices

open Text Runs

/-! ### What keeps answers apart -/

/-- At this step: the question that begins to listen finds the bot with nothing left to write; a
message the bot edits was written for the question that listens. -/
def clear (messenger : Messenger) (ev : Event) : Bool :=
  match ev.input with
  | .start _ => ev.before.asking.isSome || ev.before.queue.isEmpty || ev.before.pending.isEmpty
  | .edit id _ =>
    match messenger, ev.before.asking, ev.before.current id with
    | .telegram, some asking, some m => m.ticket = asking.ticket.number
    | _, _, _ => true
  | _ => true

/-- Every step of the run is clear. -/
def Clear (messenger : Messenger) (evs : List Event) : Prop := ∀ ev ∈ evs, clear messenger ev

instance (messenger : Messenger) (evs : List Event) : Decidable (Clear messenger evs) :=
  inferInstanceAs (Decidable (∀ ev ∈ evs, clear messenger ev))

/-! ### What is heard -/

section Hearing

variable {messenger : Messenger} {asking : Asking} {m : Message} {n writtenAt : ℕ}

theorem mem_setReply {replies : List Message} {r : Message} (listed : r ∈ setReply replies m) :
    r ∈ replies ∨ r = m := by
  induction replies with
  | nil => exact .inr (List.mem_singleton.mp listed)
  | cons first rest ih =>
    by_cases same : first.id = m.id
    · rw [setReply, if_pos same] at listed
      exact (List.mem_cons.mp listed).symm.imp_left (List.mem_cons_of_mem first)
    · rw [setReply, if_neg same] at listed
      rcases List.mem_cons.mp listed with rfl | later
      · exact .inl List.mem_cons_self
      · exact (ih later).imp_left (List.mem_cons_of_mem first)

theorem Asking.hear_ticket : (asking.hear messenger m writtenAt).ticket = asking.ticket := by
  unfold Asking.hear
  split
  · rfl
  · split
    · rfl
    · rfl

/-- What was heard was heard before, or is the message. -/
theorem Asking.mem_hear {r : Message} (listed : r ∈ (asking.hear messenger m writtenAt).replies) :
    r ∈ asking.replies ∨ r = m := by
  unfold Asking.hear at listed
  split at listed
  · exact .inl listed
  · split at listed
    · exact .inl listed
    · cases messenger with
      | telegram => exact mem_setReply listed
      | whatsApp => exact (List.mem_append.mp listed).imp_right List.mem_singleton.mp

theorem Asking.mem_collected {r : Message} : r ∈ asking.collected messenger ↔ r ∈ asking.replies := by
  cases messenger with
  | telegram => exact List.mem_mergeSort
  | whatsApp => exact Iff.rfl

end Hearing

/-! ### What holds in a clear run -/

/-- A question's last answer, where it has one, is of its words. -/
def Ticket.Sound (t : List Act) (old : String → String → Option Answer) (ticket : Ticket) : Prop :=
  ∀ answer, ticket.stale = some answer →
    FromReplies t old ticket.question.business ticket.question.text answer

/-- What holds after a clear run. -/
structure Kept (old : String → String → Option Answer) (t : List Act) (w : World) : Prop where
  /-- What is still to come, and what was heard, was written for the question that listens. -/
  pending : ∀ asking, w.asking = some asking → ∀ m ∈ w.pending, m.ticket = asking.ticket.number
  heard : ∀ asking, w.asking = some asking → ∀ m ∈ asking.replies, m.ticket = asking.ticket.number
  replies : ∀ ticket replies, .replied ticket replies ∈ t → ∀ m ∈ replies, m.ticket = ticket.number
  answers : ∀ business text answer, w.answers business text = some answer →
    FromReplies t old business text answer
  saved : ∀ business text answer, w.saved business text = some answer →
    FromReplies t old business text answer
  queue : ∀ ticket ∈ w.queue, ticket.Sound t old
  asking : ∀ asking, w.asking = some asking → asking.ticket.Sound t old
  told : ∀ question answer, .told question answer ∈ t →
    FromReplies t old question.business question.text answer

section Steps

variable {old : String → String → Option Answer} {t : List Act} {w : World}

theorem FromReplies.mono {business text : String} {answer : Answer} (acts : List Act)
    (made : FromReplies t old business text answer) :
    FromReplies (t ++ acts) old business text answer := by
  refine made.imp_left ?_
  rintro ⟨ticket, replies, listed, rest⟩
  exact ⟨ticket, replies, List.mem_append_left _ listed, rest⟩

theorem Ticket.Sound.mono {ticket : Ticket} (sound : ticket.Sound t old) (acts : List Act) :
    ticket.Sound (t ++ acts) old :=
  fun answer is => (sound answer is).mono acts

/-- What is stored for a question's words is of these words. -/
theorem store_sound {answers : String → String → Option Answer} {question : Question} {answer : Answer}
    (before : ∀ business text a, answers business text = some a → FromReplies t old business text a)
    (made : FromReplies t old question.business question.text answer) (business text : String)
    (a : Answer)
    (is : World.store answers question answer business text = some a) :
    FromReplies t old business text a := by
  by_cases same : business = question.business ∧ text = question.text
  · rw [World.store, if_pos same] at is
    obtain ⟨rfl, rfl⟩ := same
    exact Option.some.inj is ▸ made
  · rw [World.store, if_neg same] at is
    exact before business text a is

theorem Kept.remembered (kept : Kept old t w) {reads : Bool} {business text : String} {answer : Answer}
    (is : w.remembered reads business text = some answer) : FromReplies t old business text answer := by
  rw [World.remembered] at is
  split at is
  · rename_i found here
    exact kept.answers business text answer (here.trans is)
  · cases reads with
    | true => exact kept.saved business text answer is
    | false => cases is

/-- The server is told things, each made of replies. -/
theorem Kept.tells (kept : Kept old t w) (acts : List Act)
    (made : ∀ act ∈ acts, ∃ question answer, act = .told question answer ∧
      FromReplies t old question.business question.text answer) : Kept old (t ++ acts) w where
  pending := kept.pending
  heard := kept.heard
  replies ticket replies listed := by
    rcases List.mem_append.mp listed with before | new
    · exact kept.replies ticket replies before
    · obtain ⟨_, _, is, -⟩ := made _ new
      cases is
  answers business text answer is := (kept.answers business text answer is).mono acts
  saved business text answer is := (kept.saved business text answer is).mono acts
  queue ticket listed := (kept.queue ticket listed).mono acts
  asking asking is := (kept.asking asking is).mono acts
  told question answer listed := by
    rcases List.mem_append.mp listed with before | new
    · exact (kept.told question answer before).mono acts
    · obtain ⟨_, _, is, sound⟩ := made _ new
      obtain ⟨rfl, rfl⟩ := Act.told.inj is
      exact sound.mono acts

/-- The question that listened is over. -/
theorem Kept.ends (kept : Kept old t w) (pending : List Message) :
    Kept old t { w with asking := none, pending := pending } where
  pending _ is := nomatch is
  heard _ is := nomatch is
  replies := kept.replies
  answers := kept.answers
  saved := kept.saved
  queue := kept.queue
  asking _ is := nomatch is
  told := kept.told

/-- The questions that are given up get their last answers. -/
theorem Kept.givenUp (kept : Kept old t w) {tickets : List Ticket}
    (sound : ∀ ticket ∈ tickets, ticket.Sound t old) :
    Kept old (t ++ tickets.flatMap World.gaveUp) w := by
  refine kept.tells _ fun act listed => ?_
  obtain ⟨ticket, among, tells⟩ := List.mem_flatMap.mp listed
  rw [World.gaveUp] at tells
  split at tells
  · exact absurd tells List.not_mem_nil
  · obtain ⟨answer, is, rfl⟩ := List.mem_map.mp tells
    exact ⟨ticket.question, answer, rfl, sound ticket among answer (Option.mem_toList.mp is)⟩

/-- The bot gave no answer, and the last one is said. -/
theorem Kept.gaveUp (kept : Kept old t w) {ticket : Ticket} (sound : ticket.Sound t old) :
    Kept old (t ++ World.gaveUp ticket) w := by
  have one : Kept old (t ++ [ticket].flatMap World.gaveUp) w :=
    kept.givenUp fun ticket' listed => List.mem_singleton.mp listed ▸ sound
  rwa [List.flatMap_singleton] at one

/-- A message is heard that was written for the question that listens. -/
theorem Kept.hear (kept : Kept old t w) (messenger : Messenger) {m : Message} {writtenAt : ℕ}
    (own : ∀ asking, w.asking = some asking → m.ticket = asking.ticket.number) :
    Kept old t (w.hear messenger m writtenAt) := by
  have before : ∀ asking, (w.hear messenger m writtenAt).asking = some asking →
      ∃ listening, w.asking = some listening ∧ asking = listening.hear messenger m writtenAt := by
    intro asking is
    obtain ⟨listening, here, same⟩ := Option.map_eq_some_iff.mp is
    exact ⟨listening, here, same.symm⟩
  refine ⟨?_, ?_, kept.replies, kept.answers, kept.saved, kept.queue, ?_, kept.told⟩
  · intro asking is m' member
    obtain ⟨listening, here, same⟩ := before asking is
    rw [same, Asking.hear_ticket]
    exact kept.pending listening here m' member
  · intro asking is m' member
    obtain ⟨listening, here, same⟩ := before asking is
    rw [same, Asking.hear_ticket]
    rw [same] at member
    rcases Asking.mem_hear member with earlier | rfl
    · exact kept.heard listening here m' earlier
    · exact own listening here
  · intro asking is
    obtain ⟨listening, here, same⟩ := before asking is
    rw [same, Asking.hear_ticket]
    exact kept.asking listening here

/-- An answer of the question's words is kept in memory. -/
theorem Kept.stored (kept : Kept old t w) {question : Question} {answer : Answer}
    (made : FromReplies t old question.business question.text answer) :
    Kept old t { w with answers := World.store w.answers question answer } where
  pending := kept.pending
  heard := kept.heard
  replies := kept.replies
  answers := store_sound kept.answers made
  saved := kept.saved
  queue := kept.queue
  asking := kept.asking
  told := kept.told

/-- What is known of a question's words, where it passes a filter, is of these words. -/
theorem Kept.filtered (kept : Kept old t w) {reads : Bool} {business text : String}
    {p : Answer → Bool} {answer : Answer}
    (is : (w.remembered reads business text).filter p = some answer) :
    FromReplies t old business text answer :=
  kept.remembered (Option.filter_eq_some_iff.mp is).1

/-- A question waits for the bot. -/
theorem Kept.queued (kept : Kept old t w) {ticket : Ticket} (sound : ticket.Sound t old) {next : ℕ} :
    Kept old t { w with queue := w.queue ++ [ticket], next := next } where
  pending := kept.pending
  heard := kept.heard
  replies := kept.replies
  answers := kept.answers
  saved := kept.saved
  queue ticket' listed := by
    rcases List.mem_append.mp listed with before | new
    · exact kept.queue ticket' before
    · exact List.mem_singleton.mp new ▸ sound
  asking := kept.asking
  told := kept.told

/-- `WhatsAppChatBot::ask` tells what it remembers of the question's words. -/
theorem Kept.ask (kept : Kept old t w) (question : Question) (now fresh : ℕ) (reads may : Bool) :
    Kept old (t ++ (w.ask question now fresh reads may).1) (w.ask question now fresh reads may).2 := by
  have stored : ∀ answer, w.remembered reads question.business question.text = some answer →
      Kept old t { w with answers := World.store w.answers question answer } := fun answer known =>
    kept.stored (kept.remembered known)
  simp only [World.ask]
  split
  · rename_i answer found
    refine Kept.tells ?_ _ fun act listed =>
      ⟨question, answer, List.mem_singleton.mp listed, kept.filtered found⟩
    split
    · exact stored _ ‹_›
    · exact kept
  · split
    · rw [List.append_nil]
      refine Kept.queued ?_ fun answer is => kept.filtered is
      split
      · exact stored _ ‹_›
      · exact kept
    · split
      · rw [List.append_nil]
        split
        · exact stored _ ‹_›
        · exact kept
      · refine Kept.tells ?_ _ fun act listed => ?_
        · split
          · exact stored _ ‹_›
          · exact kept
        · obtain ⟨answer, is, rfl⟩ := List.mem_map.mp listed
          exact ⟨question, answer, rfl, kept.filtered (Option.mem_toList.mp is)⟩

/-- A question gets the replies that were collected. -/
theorem Kept.returns (kept : Kept old t w) {ticket : Ticket} {replies : List Message}
    (own : ∀ m ∈ replies, m.ticket = ticket.number) : Kept old (t ++ [.replied ticket replies]) w where
  pending := kept.pending
  heard := kept.heard
  replies ticket' replies' listed := by
    rcases List.mem_append.mp listed with before | new
    · exact kept.replies ticket' replies' before
    · obtain ⟨rfl, rfl⟩ := Act.replied.inj (List.mem_singleton.mp new)
      exact own
  answers business text answer is := (kept.answers business text answer is).mono _
  saved business text answer is := (kept.saved business text answer is).mono _
  queue ticket' listed := (kept.queue ticket' listed).mono _
  asking asking is := (kept.asking asking is).mono _
  told question answer listed := by
    rcases List.mem_append.mp listed with before | new
    · exact (kept.told question answer before).mono _
    · cases List.mem_singleton.mp new

/-- The answer made of the replies is remembered for the question's words. -/
theorem Kept.remembers (kept : Kept old t w) {ticket : Ticket} {answer : Answer}
    (made : FromReplies t old ticket.question.business ticket.question.text answer) (saves : Bool) :
    Kept old t (w.remember ticket answer saves) where
  pending := kept.pending
  heard := kept.heard
  replies := kept.replies
  answers := store_sound kept.answers made
  saved business text a is := by
    cases saves with
    | true => exact store_sound kept.saved made business text a is
    | false => exact kept.saved business text a is
  queue := kept.queue
  asking := kept.asking
  told := kept.told

/-- The service returns what it collected. -/
theorem Kept.finish (kept : Kept old t w) (messenger : Messenger) (arrives saves : Bool) :
    Kept old (t ++ (w.step messenger (.finish arrives saves)).1)
    (w.step messenger (.finish arrives saves)).2 := by
  have same : Kept old (t ++ []) w := by
    rw [List.append_nil]
    exact kept
  simp only [World.step]
  split
  · rename_i asking here
    have ended := kept.ends w.pending
    have sound := kept.asking asking here
    split
    · exact same
    · split
      · exact ended.gaveUp sound
      · have own : ∀ m ∈ asking.collected messenger, m.ticket = asking.ticket.number := fun m listed =>
          kept.heard asking here m (Asking.mem_collected.mp listed)
        have returned := ended.returns own
        have made : FromReplies (t ++ [.replied asking.ticket (asking.collected messenger)]) old
            asking.ticket.question.business asking.ticket.question.text
            ⟨asking.ticket.askedAt, textOf (asking.collected messenger)⟩ :=
          .inl ⟨asking.ticket, _, List.mem_append_right _ (List.mem_singleton.mpr rfl), rfl, rfl, rfl⟩
        split
        · have told := (returned.remembers made saves).tells [.told asking.ticket.question _]
            fun act listed => ⟨_, _, List.mem_singleton.mp listed, made⟩
          rw [List.append_assoc] at told
          exact told
        · have gave := returned.gaveUp (sound.mono _)
          rw [List.append_assoc] at gave
          exact gave
  · exact same

/-- **A clear step keeps it.** -/
theorem Kept.step (kept : Kept old t w) (messenger : Messenger) (i : Input)
    (fit : clear messenger (event (World.step messenger) w i)) :
    Kept old (t ++ (w.step messenger i).1) (w.step messenger i).2 := by
  have same : Kept old (t ++ []) w := by
    rw [List.append_nil]
    exact kept
  cases i with
  | ask question now fresh reads may => exact kept.ask question now fresh reads may
  | start now =>
    simp only [World.step]
    split
    · rename_i ticket queue idle here
      have nothing : w.pending = [] := by simpa [clear, idle, here] using fit
      refine ⟨fun asking is m member => ?_, fun asking is m member => ?_, same.replies,
        same.answers, same.saved,
        fun ticket' listed => ?_, fun asking is => ?_, same.told⟩
      · rw [nothing] at member
        exact absurd member List.not_mem_nil
      · obtain rfl := Option.some.inj is
        exact absurd member List.not_mem_nil
      · exact same.queue ticket' (here ▸ List.mem_cons_of_mem _ listed)
      · obtain rfl := Option.some.inj is
        exact same.queue ticket (here ▸ List.mem_cons_self)
    · exact same
  | send sending script =>
    simp only [World.step]
    split
    · rename_i asking here
      have received : Kept old t { w with
          pending := w.pending ++ script.map fun m => ⟨m.1, m.2, asking.ticket.number⟩ } := by
        refine ⟨fun other is m listed => ?_, kept.heard, kept.replies, kept.answers,
          kept.saved, kept.queue,
          kept.asking, kept.told⟩
        obtain rfl := Option.some.inj (here.symm.trans is)
        rcases List.mem_append.mp listed with before | new
        · exact kept.pending asking here m before
        · obtain ⟨_, -, rfl⟩ := List.mem_map.mp new
          rfl
      split
      · exact same
      · split
        · rw [List.append_nil]
          refine ⟨fun other is m listed => ?_, fun other is => ?_, kept.replies, kept.answers,
            kept.saved, kept.queue,
            fun other is => ?_, kept.told⟩
          · obtain rfl := Option.some.inj is
            exact received.pending asking here m listed
          · obtain rfl := Option.some.inj is
            exact kept.heard asking here
          · obtain rfl := Option.some.inj is
            exact kept.asking asking here
        · exact (kept.ends w.pending).gaveUp (kept.asking asking here)
        · rename_i reached
          cases reached with
          | true => exact (received.ends _).gaveUp (kept.asking asking here)
          | false => exact (kept.ends w.pending).gaveUp (kept.asking asking here)
    · exact same
  | deliver now =>
    simp only [World.step]
    split
    · rename_i m pending here
      have rest : Kept old t { w with pending := pending, written := w.written ++ [m] } := by
        refine ⟨fun asking is m' listed => ?_, kept.heard, kept.replies, kept.answers,
          kept.saved, kept.queue,
          kept.asking, kept.told⟩
        exact kept.pending asking is m' (here ▸ List.mem_cons_of_mem _ listed)
      rw [List.append_nil]
      exact rest.hear messenger fun asking is => kept.pending asking is m (here ▸ List.mem_cons_self)
    · exact same
  | edit id text =>
    simp only [World.step]
    split
    · rename_i m known
      refine same.hear .telegram fun asking is => ?_
      simpa [clear, is, known] using fit
    · exact same
  | finish arrives saves => exact kept.finish messenger arrives saves
  | serviceRestart =>
    have sound : ∀ ticket ∈ (w.asking.map (·.ticket)).toList ++ w.queue, ticket.Sound t old := by
      intro ticket listed
      rcases List.mem_append.mp listed with listens | queued
      · obtain ⟨asking, is, rfl⟩ := Option.map_eq_some_iff.mp (Option.mem_toList.mp listens)
        exact kept.asking asking is
      · exact kept.queue ticket queued
    have ended := (kept.givenUp sound).ends w.pending
    exact ⟨ended.pending, ended.heard, ended.replies, ended.answers, ended.saved,
      fun ticket listed => absurd listed List.not_mem_nil, ended.asking, ended.told⟩
  | serverRestart =>
    exact ⟨same.pending, same.heard, same.replies, fun _ _ _ is => absurd is (Option.some_ne_none _).symm,
      same.saved, same.queue, same.asking, same.told⟩

end Steps

/-- The events of a run from what the database has. -/
abbrev run (messenger : Messenger) (old : String → String → Option Answer) (inputs : List Input) :
    List Event :=
  events (World.step messenger) (.opened old) inputs

/-- The world a run reaches. -/
abbrev reached (messenger : Messenger) (old : String → String → Option Answer)
    (inputs : List Input) : World :=
  final (World.step messenger) (.opened old) inputs

theorem Clear.kept {messenger : Messenger} {old : String → String → Option Answer} {inputs : List Input}
    (calm : Clear messenger (run messenger old inputs)) :
    Kept old (trace (run messenger old inputs)) (reached messenger old inputs) := by
  refine run_induction (C := fun _ ev => clear messenger ev)
    (P := fun evs w => Kept old (trace evs) w) ?_ ?_
    fun pre ev post split =>
      calm ev (by rw [run, split]; exact List.mem_append_right _ List.mem_cons_self)
  · exact ⟨(fun _ is => nomatch is), (fun _ is => nomatch is),
      fun _ _ listed => absurd listed List.not_mem_nil,
      (fun _ _ _ is => nomatch is), fun _ _ _ is => .inr is,
      fun _ listed => absurd listed List.not_mem_nil,
      (fun _ is => nomatch is), fun _ _ listed => absurd listed List.not_mem_nil⟩
  · intro pre w i kept fit
    rw [trace_append, trace_single]
    exact kept.step messenger i fit

/-- **A price answer belongs to its question**, in every clear run. -/
theorem belongs_of_clear (messenger : Messenger) (old : String → String → Option Answer)
    (inputs : List Input)
    (calm : Clear messenger (run messenger old inputs)) :
    Belongs (trace (run messenger old inputs)) old (reached messenger old inputs) := by
  have kept := calm.kept
  exact ⟨kept.replies, fun _ _ _ _ is => kept.remembered is, kept.told⟩

/-- A question to which the bot writes an advertisement, and edits it into the price. -/
theorem belongs_edited :
    let inputs : List Input :=
      [.ask ⟨"taxi", "תל אביב לחיפה", "₪", false⟩ 100 3600 true true, .start 100,
       .send .sent [(7, "מחפש"), (7, "מחיר 300 ₪"), (8, "תודה")], .deliver 101, .deliver 103,
       .deliver 104,
       .finish true true, .ask ⟨"taxi", "תל אביב לחיפה", "₪", false⟩ 200 3600 true true]
    Belongs (trace (run .telegram (fun _ _ => none) inputs)) (fun _ _ => none)
      (reached .telegram (fun _ _ => none) inputs) :=
  belongs_of_clear .telegram (fun _ _ => none) _ (by decide)

/-- The answer to the first question comes when the second one listens. -/
theorem late_misplaced :
    ¬ ∀ (messenger : Messenger) (old : String → String → Option Answer) (inputs : List Input),
      Belongs (trace (run messenger old inputs)) old (reached messenger old inputs) := by
  intro all
  have belongs := all .telegram (fun _ _ => none)
    [.ask ⟨"taxi", "תל אביב לחיפה", "₪", false⟩ 100 3600 true true, .start 100,
      .send .sent [(7, "מחיר 300 ₪")],
     .ask ⟨"taxi", "תל אביב לאילת", "₪", false⟩ 110 3600 true true, .finish true true, .start 130,
     .send .sent [(9, "מחיר 1500 ₪")], .deliver 131, .finish true true]
  have own := belongs.replies ⟨1, ⟨"taxi", "תל אביב לאילת", "₪", false⟩, 110, none⟩ [⟨7, "מחיר 300 ₪", 0⟩]
    (by decide +kernel) ⟨7, "מחיר 300 ₪", 0⟩ (List.mem_singleton.mpr rfl)
  cases own

end Callora.Prices
