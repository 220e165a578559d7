/-
**Live speech is played whole.**

What a log of the playout tells of its items: the frames that were sent of each, whether it came to
its end, and whether it started while something was still playing (`Told`). `frames_sliced`: in
every run these are slices of what came of the items (`Sliced`), item after item in the order in
which they were enqueued, where the head of a stream is trimmed before a frame of it is sent
(`HeadFirst`). What is cut off of a stream is quiet in windows of what was buffered of it when the
loop asked for a frame (`Held`).

Without a buffer at the start a stream sends its leading silence as long as more than a frame of it
is kept, and what is cut off of it later is missing between its frames (`frame_skipped`).
-/
import Callora.Audio.Replies
import Callora.Audio.Slices
import Mathlib.Data.List.Forall2

set_option linter.unusedSectionVars false

namespace Callora.Audio

open Runs

section Logs

/-- The frame that an output is. -/
def Output.frame : Output → Option (List UInt8)
  | .audio frame _ => some frame
  | _ => none

/-- What is told of an item: the frames sent of it, whether it came to its end, and whether it
started while something was still playing. -/
structure Record where
  id : ℕ
  frames : List (List UInt8)
  finished : Bool
  continuation : Bool
  deriving DecidableEq

/-- What a log tells: the items before, the one whose frames are sent, all the frames, and whether
`Idle` was reported since the last one. -/
structure Told where
  past : List Record
  playing : Option Record
  sent : List (List UInt8)
  idle : Bool
  deriving DecidableEq

namespace Told

/-- What is told of an item that plays. -/
def here (t : Told) (id : ℕ) : Record := t.playing.getD ⟨id, [], false, !t.idle⟩

/-- The frames told of it, as they are told. -/
theorem here_frames (t : Told) (id : ℕ) :
    (t.here id).frames = t.playing.toList.flatMap Record.frames := by
  unfold here
  cases t.playing with
  | none => rfl
  | some r => exact (List.flatMap_singleton _ _).symm

/-- What an output tells. -/
def next (t : Told) : Output → Told
  | .started id _ => { t with playing := some ⟨id, [], false, !t.idle⟩ }
  | .audio frame _ =>
    { t with
      playing := t.playing.map fun r => { r with frames := r.frames ++ [frame] }
      sent := t.sent ++ [frame]
      idle := false }
  | .finished id => { t with past := t.past ++ [{ t.here id with finished := true }], playing := none }
  | .clear => { t with past := t.past ++ t.playing.toList, playing := none }
  | .idle => { t with idle := true }
  | _ => t

/-- What a log tells, after what was told. -/
def after (t : Told) (log : List Output) : Told := log.foldl next t

/-- A log of which nothing is told. -/
theorem after_silent {t : Told} {log : List Output} (silent : ∀ o ∈ log, t.next o = t) :
    t.after log = t := by
  induction log with
  | nil => rfl
  | cons o log ih =>
    show (t.next o).after log = t
    rw [silent o List.mem_cons_self]
    exact ih fun o' later => silent o' (List.mem_cons_of_mem _ later)

/-- All the frames are told. -/
theorem after_sent (t : Told) (log : List Output) :
    (t.after log).sent = t.sent ++ log.filterMap Output.frame := by
  induction log generalizing t with
  | nil => exact (List.append_nil _).symm
  | cons o log ih =>
    show ((t.next o).after log).sent = _
    rw [ih]
    cases o with
    | audio frame gainDb => exact List.append_assoc _ _ _
    | _ => rfl

/-- All the items of which something is told. -/
def records (t : Told) : List Record := t.past ++ t.playing.toList

theorem after_append (t : Told) (log more : List Output) :
    t.after (log ++ more) = (t.after log).after more :=
  List.foldl_append

end Told

/-- What a log tells, from the start. -/
def told (log : List Output) : Told := (⟨[], none, [], true⟩ : Told).after log

end Logs

section Given

/-- Places of a run, in order. -/
def Places (inputs : List Input) (places : List ℕ) : Prop :=
  places.Pairwise (· < ·) ∧ ∀ place ∈ places, place < inputs.length

/-- What came of an item, by an input. -/
def PlayItem.heard (item : PlayItem) : Input → PlayItem
  | .arrive id arrival => if item.id = id then { item with source := item.source.take arrival } else item
  | .wake .. => item

/-- **The item that was enqueued at a place of a run**, with what came of it since. -/
def Given (inputs : List Input) (place : ℕ) (item : PlayItem) : Prop :=
  ∃ now enqueued, inputs[place]? = some (.wake now (.enqueue enqueued)) ∧
    item = (inputs.drop (place + 1)).foldl PlayItem.heard enqueued

variable {inputs : List Input} {places fewer : List ℕ} {place : ℕ} {item : PlayItem}

theorem Places.sublist (ordered : Places inputs places) (fewer' : fewer.Sublist places) :
    Places inputs fewer :=
  ⟨ordered.1.sublist fewer', fun place listed => ordered.2 place (fewer'.subset listed)⟩

/-- The run goes on. -/
theorem Places.concat (ordered : Places inputs places) (input : Input) :
    Places (inputs ++ [input]) places := by
  refine ⟨ordered.1, fun place listed => ?_⟩
  rw [List.length_append]
  exact Nat.lt_add_right _ (ordered.2 place listed)

/-- The place of the input that is new. -/
theorem Places.last (ordered : Places inputs places) (input : Input) :
    Places (inputs ++ [input]) (places ++ [inputs.length]) := by
  refine ⟨List.pairwise_append.mpr
    ⟨ordered.1, List.pairwise_singleton _ _, fun place listed place' last => ?_⟩,
    fun place listed => ?_⟩
  · rw [List.mem_singleton.mp last]
    exact ordered.2 place listed
  · rw [List.length_append, List.length_singleton]
    rcases List.mem_append.mp listed with before | last
    · exact Nat.lt_succ_of_lt (ordered.2 place before)
    · rw [List.mem_singleton.mp last]
      exact Nat.lt_succ_self _

theorem Given.inside (given : Given inputs place item) : place < inputs.length := by
  obtain ⟨now, enqueued, here, -⟩ := given
  exact (List.getElem?_eq_some_iff.mp here).1

/-- Something more happens. -/
theorem Given.concat (given : Given inputs place item) (input : Input) :
    Given (inputs ++ [input]) place (item.heard input) := by
  have inside := given.inside
  obtain ⟨now, enqueued, here, rfl⟩ := given
  refine ⟨now, enqueued, ?_, ?_⟩
  · rw [List.getElem?_append_left inside, here]
  · rw [List.drop_append_of_le_length inside, List.foldl_append]
    rfl

/-- The item that is enqueued last. -/
theorem Given.last (inputs : List Input) (now : Instant) (item : PlayItem) :
    Given (inputs ++ [.wake now (.enqueue item)]) inputs.length item :=
  ⟨now, item, by simp, by simp⟩

end Given

section Asked

variable (loud : ℚ → List UInt8 → Bool)

/-- The states in which the turns of the loop that sends frames begin. -/
inductive Turning (now : Instant) : Player → Player → Prop where
  | first {s : Player} : Turning now s s
  | next {s t : Player} : (s.turn loud now).1 = true → Turning now (s.turn loud now).2.2 t →
    Turning now s t

/-- The item that is asked for a frame in a turn. -/
def Player.asks (s : Player) : Option Active :=
  if s.cfg.leadFrames ≤ s.ahead then none else (s.finish.2.takeNext loud).current

/-- **What was buffered of an item when a frame of it was asked for**, in what happened. -/
def Held (happened : List Player.Happening) (id : ℕ) (audio : List UInt8) : Prop :=
  ∃ ev ∈ happened, ∃ now cause, ev.input = .wake now cause ∧
    ∃ t a, Turning loud now (ev.before.handle cause).2 t ∧ t.asks loud = some a ∧ a.id = id ∧
    a.asked = audio

/-- All that was buffered when frames were asked for in the turns from a state on. -/
def AllHeld (held : ℕ → List UInt8 → Prop) (now : Instant) (s : Player) : Prop :=
  ∀ t a, Turning loud now s t → t.asks loud = some a → held a.id a.asked

end Asked

section Stories

variable (loud : ℚ → List UInt8 → Bool) (cfg : PlayoutConfig) (held : ℕ → List UInt8 → Prop)

/-- The head of an item is trimmed before a frame of it is sent: it is a clip, or `HeadFirst` holds. -/
def PlayItem.Whole (item : PlayItem) (continuation : Bool) : Prop :=
  ∀ channel, item.source = .stream channel → HeadFirst cfg continuation

/-- **An item, and what is told of it.** -/
structure Story (inputs : List Input) (place : ℕ) (a : Active) (r : Record) : Prop where
  given : ∃ item, Given inputs place item ∧ item.id = r.id ∧ a.id = r.id ∧
    (item.Whole cfg r.continuation → Plays loud (held r.id) cfg.trim item.source a r.frames)
  ends : r.finished = true → a.done = true

/-- The item that plays, and what is told of it. -/
def Now (inputs : List Input) (t : Told) : Option Active → List ℕ → Prop
  | none, places => places = [] ∧ t.playing = none
  | some a, places => ∃ place, places = [place] ∧ Story loud cfg held inputs place a (t.here a.id) ∧
    (t.here a.id).finished = false ∧ t.playing.isSome = a.started

/-- **What the log tells of a run**: of the items before and of the one that plays, in order, and
then come those that are queued. -/
structure Tells (inputs : List Input) (t : Told) (s : Player) : Prop where
  same : s.cfg = cfg
  idle : s.idleReported = t.idle
  all : t.sent = t.records.flatMap Record.frames
  places : ∃ past current queue : List ℕ, Places inputs (past ++ current ++ queue) ∧
    List.Forall₂ (fun place r => ∃ a, Story loud cfg held inputs place a r) past t.past ∧
    Now loud cfg held inputs t s.current current ∧ List.Forall₂ (Given inputs) queue s.queue

variable {loud cfg held} {inputs : List Input} {t : Told} {s : Player} {place : ℕ} {a b : Active}
    {r : Record}

/-- The item goes on, and nothing more is told of it. -/
theorem Story.goes (story : Story loud cfg held inputs place a r) (id : b.id = a.id)
    (plays : ∀ whole, Plays loud (held a.id) cfg.trim whole a r.frames →
      Plays loud (held a.id) cfg.trim whole b r.frames)
    (unfinished : r.finished = false) : Story loud cfg held inputs place b r where
  given := by
    obtain ⟨item, given, same, same', before⟩ := story.given
    refine ⟨item, given, same, id.trans same', fun first => ?_⟩
    rw [← same']
    exact plays _ (same' ▸ before first)
  ends := by
    rw [unfinished]
    nofun

theorem done_take (a : Active) (arrival : Arrival) :
    { a with source := a.source.take arrival : Active }.done = a.done := by
  unfold Active.done Source.take
  cases a.source <;> rfl

/-- What came of the item that plays, by an input. -/
def Active.heard (a : Active) : Input → Active
  | .arrive id arrival => if a.id = id then { a with source := a.source.take arrival } else a
  | .wake .. => a

theorem Active.heard_id (a : Active) (input : Input) : (a.heard input).id = a.id := by
  unfold heard
  split
  · split <;> rfl
  · rfl

theorem Active.heard_started (a : Active) (input : Input) : (a.heard input).started = a.started := by
  unfold heard
  split
  · split <;> rfl
  · rfl

/-- Something happens: the item hears of it as the one that was given does. -/
theorem Story.concat (story : Story loud cfg held inputs place a r) (input : Input) :
    Story loud cfg held (inputs ++ [input]) place (a.heard input) r := by
  obtain ⟨⟨item, given, same, same', plays⟩, finished⟩ := story
  cases input with
  | wake now cause => exact ⟨⟨item, given.concat _, same, same', plays⟩, finished⟩
  | arrive id arrival =>
    have more := given.concat (.arrive id arrival)
    by_cases hears : a.id = id
    · have heard : item.heard (.arrive id arrival) = { item with source := item.source.take arrival } :=
        if_pos (by rw [same, ← same', hears])
      have heard' : a.heard (.arrive id arrival) = { a with source := a.source.take arrival } :=
        if_pos hears
      rw [heard] at more
      rw [heard']
      refine ⟨⟨_, more, same, same', fun first => (plays fun channel source => ?_).arrive arrival⟩,
        fun ends => ?_⟩
      · exact first (channel.take arrival) (by rw [source]; rfl)
      · rw [done_take]
        exact finished ends
    · have heard : item.heard (.arrive id arrival) = item := if_neg (by rwa [same, ← same'])
      have heard' : a.heard (.arrive id arrival) = a := if_neg hears
      rw [heard] at more
      rw [heard']
      exact ⟨⟨item, more, same, same', plays⟩, finished⟩

/-- What is told of an item stays what it was, and so does its flag. -/
theorem Now.keeps {current : List ℕ} (now : Now loud cfg held inputs t (some a) current)
    (id : b.id = a.id) (keeps : a.Keeps b)
    (plays : ∀ whole frames, Plays loud (held a.id) cfg.trim whole a frames →
      Plays loud (held a.id) cfg.trim whole b frames) :
    Now loud cfg held inputs t (some b) current := by
  obtain ⟨place, rfl, story, unfinished, started⟩ := now
  refine ⟨place, rfl, ?_, ?_, started.trans keeps.started.symm⟩
  · rw [id]
    exact story.goes id (fun whole => plays whole _) unfinished
  · rw [id]
    exact unfinished

/-- An input is heard of, and the items have their places before it. -/
theorem Tells.hear (tells : Tells loud cfg held inputs t s) (input : Input) :
    ∃ past current queue : List ℕ,
    Places inputs (past ++ current ++ queue) ∧
    List.Forall₂ (fun place r => ∃ a, Story loud cfg held (inputs ++ [input]) place a r) past t.past ∧
    Now loud cfg held (inputs ++ [input]) t (s.current.map fun a => a.heard input) current ∧
    List.Forall₂ (Given (inputs ++ [input])) queue (s.queue.map fun item => item.heard input) := by
  obtain ⟨-, -, -, past, current, queue, ordered, before, now, waiting⟩ := tells
  refine ⟨past, current, queue, ordered, before.imp fun place r ⟨a, story⟩ =>
    ⟨_, story.concat input⟩, ?_, ?_⟩
  · cases here : s.current with
    | none =>
      rw [here] at now
      exact now
    | some a =>
      rw [here] at now
      obtain ⟨place, rfl, story, unfinished, started⟩ := now
      refine ⟨place, rfl, ?_, ?_, started.trans (a.heard_started input).symm⟩
      · rw [a.heard_id]
        exact story.concat input
      · rw [a.heard_id]
        exact unfinished
  · rw [List.forall₂_map_right_iff]
    exact waiting.imp fun place item given => given.concat input

/-- Something arrives. -/
theorem arrive_tells (tells : Tells loud cfg held inputs t s) (id : ℕ) (arrival : Arrival) :
    Tells loud cfg held (inputs ++ [.arrive id arrival]) t (s.arrive id arrival) := by
  obtain ⟨past, current, queue, ordered, rest⟩ := tells.hear (.arrive id arrival)
  exact ⟨tells.same, tells.idle, tells.all, past, current, queue, ordered.concat _, rest⟩

/-- The item that is done is told to be finished. -/
theorem finish_tells (tells : Tells loud cfg held inputs t s) :
    Tells loud cfg held inputs (t.after s.finish.1) s.finish.2 := by
  obtain ⟨same, idle, all, past, current, queue, ordered, before, now, waiting⟩ := tells
  unfold Player.finish
  cases here : s.current with
  | none => exact ⟨same, idle, all, past, current, queue, ordered, before, now, waiting⟩
  | some a =>
    dsimp only
    split
    · next done =>
      rw [here] at now
      obtain ⟨place, rfl, story, -, -⟩ := now
      refine ⟨same, idle, ?_, past ++ [place], [], queue, by simpa using ordered, ?_, ⟨rfl, rfl⟩, waiting⟩
      · show t.sent = (t.past ++ [{ t.here a.id with finished := true }] ++ []).flatMap Record.frames
        rw [all, Told.records, List.flatMap_append, ← t.here_frames a.id]
        simp
      refine List.rel_append before (.cons ⟨a, ⟨?_, fun _ => done⟩⟩ .nil)
      exact story.given
    · exact ⟨same, idle, all, past, current, queue, ordered, before, now, waiting⟩

/-- The next item is taken, and nothing is told of it yet. -/
theorem takeNext_tells (tells : Tells loud cfg held inputs t s) :
    Tells loud cfg held inputs t (s.takeNext loud) := by
  unfold Player.takeNext
  split
  · next item rest none' waits =>
    obtain ⟨same, idle, all, past, current, queue, ordered, before, now, waiting⟩ := tells
    rw [none'] at now
    obtain ⟨rfl, silent⟩ := now
    rw [waits] at waiting
    cases waiting with
    | @cons place _ queue _ given waiting =>
      have fresh : t.here item.id = ⟨item.id, [], false, !s.idleReported⟩ := by
        rw [Told.here, silent, idle, Option.getD_none]
      refine ⟨same, idle, all, past, [place], queue, by simpa using ordered, before,
        ⟨place, rfl, ?_, ?_, ?_⟩, waiting⟩
      · show Story loud cfg held inputs place _ (t.here item.id)
        rw [fresh]
        refine ⟨⟨item, given, rfl, rfl, fun first => ?_⟩, nofun⟩
        rw [same]
        exact Plays.new first
      · show (t.here item.id).finished = false
        rw [fresh]
      · rw [silent]
        rfl
  · exact tells

/-- The frame that is sent is told of the item that plays. -/
theorem send_tells (now : Instant) {frame : List UInt8} (asked : held a.id a.asked)
    (tells : Tells loud cfg held inputs t s) (here : s.current = some a)
    (turn : a.nextFrame loud = (some frame, b)) :
    Tells loud cfg held inputs (t.after (s.send now b frame).1) (s.send now b frame).2 := by
  obtain ⟨same, idle, all, past, current, queue, ordered, before, plays, waiting⟩ := tells
  rw [here] at plays
  obtain ⟨place, rfl, story, unfinished, started⟩ := plays
  have id : b.id = a.id := by
    rw [← a.nextFrame_id loud, turn]
  have begun : b.started = a.started := by
    rw [← (nextFrame_keeps loud a).started, turn]
  have next : t.after (s.send now b frame).1 =
      ⟨t.past, some { t.here b.id with frames := (t.here b.id).frames ++ [frame] },
        t.sent ++ [frame], false⟩ := by
    unfold Player.send
    dsimp only
    rw [Told.after_append, Told.after_append, Told.after_silent (t := t)]
    · rw [begun, ← started]
      cases playing : t.playing with
      | none => simp [Told.after, Told.next, Told.here, playing]
      | some r => simp [Told.after, Told.next, Told.here, playing]
    · intro o listed
      split at listed
      · split at listed
        · rw [List.mem_singleton.mp listed]
          rfl
        · cases listed
      · cases listed
  have told' : t.here b.id = t.here a.id := by rw [id]
  rw [next]
  refine ⟨same, rfl, ?_, past, [place], queue, ordered, before, ⟨place, rfl, ?_, ?_, rfl⟩, waiting⟩
  · simp [all, Told.records, t.here_frames b.id]
  · show Story loud cfg held inputs place { b with started := true }
      { t.here b.id with frames := (t.here b.id).frames ++ [frame] }
    rw [told']
    obtain ⟨item, given, same', same'', plays⟩ := story.given
    refine ⟨⟨item, given, same', id.trans same'', fun first => ?_⟩, fun ends => ?_⟩
    · have turned := (plays first).frame (same'' ▸ asked)
      rw [turn] at turned
      exact turned
    · have ends : (t.here a.id).finished = true := ends
      rw [unfinished] at ends
      cases ends
  · show (t.here b.id).finished = false
    rw [told']
    exact unfinished

/-- A turn of the loop that sends frames. -/
theorem turn_tells (now : Instant) (asked : ∀ a, s.asks loud = some a → held a.id a.asked)
    (tells : Tells loud cfg held inputs t s) :
    Tells loud cfg held inputs (t.after (s.turn loud now).2.1) (s.turn loud now).2.2 := by
  unfold Player.turn
  split
  · exact tells
  · next more =>
    have next := takeNext_tells (finish_tells tells)
    rw [Player.asks, if_neg more] at asked
    dsimp only
    generalize s.finish.2.takeNext loud = u at next asked
    cases here : u.current with
    | none => exact next
    | some a =>
      replace asked := asked a here
      dsimp only
      rcases turn : a.nextFrame loud with ⟨frame | _, b⟩
      · obtain ⟨same, idle, all, past, current, queue, ordered, before, plays, waiting⟩ := next
        rw [here] at plays
        have id : b.id = a.id := by rw [← a.nextFrame_id loud, turn]
        have keeps : a.Keeps b := by
          have keeps := nextFrame_keeps loud a
          rwa [turn] at keeps
        refine ⟨same, idle, all, past, current, queue, ordered, before,
          plays.keeps id keeps fun whole frames plays => ?_, waiting⟩
        have turned := plays.frame asked
        rw [turn] at turned
        exact turned
      · dsimp only
        rw [Told.after_append]
        exact send_tells now asked next here turn

theorem sendAhead_tells (now : Instant) (fuel : ℕ) (asked : AllHeld loud held now s)
    (tells : Tells loud cfg held inputs t s) :
    Tells loud cfg held inputs (t.after (s.sendAhead loud now fuel).1) (s.sendAhead loud now fuel).2 := by
  induction fuel generalizing s t with
  | zero => exact tells
  | succ fuel ih =>
    have turned := turn_tells now (fun a => asked s a .first) tells
    unfold Player.sendAhead
    dsimp only
    split
    · next goesOn =>
      rw [Told.after_append]
      exact ih (fun t a later => asked t a (.next goesOn later)) turned
    · exact turned

theorem reportIdle_tells (tells : Tells loud cfg held inputs t s) :
    Tells loud cfg held inputs (t.after s.reportIdle.1) s.reportIdle.2 := by
  unfold Player.reportIdle
  have clear : ∀ protect, Tells loud cfg held inputs t { s with protectedItem := protect } :=
    fun protect =>
    ⟨tells.same, tells.idle, tells.all, tells.places⟩
  have cleared : Tells loud cfg held inputs t
    (if s.current.isNone then { s with protectedItem := none } else s) := by
    split
    · exact clear none
    · exact tells
  dsimp only
  generalize (if s.current.isNone then { s with protectedItem := none } else s) = u at cleared
  split
  · next quiet =>
    obtain ⟨same, -, all, past, current, queue, ordered, before, plays, waiting⟩ := cleared
    have none' : u.current = none := by
      simp only [Bool.and_eq_true] at quiet
      simpa using quiet.1.1.1
    rw [none'] at plays
    refine ⟨same, rfl, all, past, current, queue, ordered, before, ?_, waiting⟩
    rw [none']
    exact plays
  · exact cleared

/-- **What is sent and reported before the loop waits again.** -/
theorem settle_tells (now : Instant) (asked : AllHeld loud held now s)
    (tells : Tells loud cfg held inputs t s) :
    Tells loud cfg held inputs (t.after (s.settle loud now).1) (s.settle loud now).2 := by
  unfold Player.settle
  dsimp only
  rw [Told.after_append, Told.after_append]
  exact reportIdle_tells (finish_tells (sendAhead_tells now s.turns asked tells))

/-- Everything is dropped: what was played of the item is told. -/
theorem cancelHard_tells (remainingMs : ℕ) (tells : Tells loud cfg held inputs t s) :
    Tells loud cfg held inputs (t.after (s.cancelHard remainingMs).1) (s.cancelHard remainingMs).2 := by
  obtain ⟨same, idle, all, past, current, queue, ordered, before, plays, waiting⟩ := tells
  have told' : t.after (s.cancelHard remainingMs).1 =
    ⟨t.past ++ t.playing.toList, none, t.sent, true⟩ := by
    have cleared : t.after (if 0 < s.ahead ∨ s.held ≠ [] then [.clear] else []) =
        ⟨t.past ++ t.playing.toList, none, t.sent, t.idle⟩ := by
      split
      · rfl
      · next none' =>
        have empty : s.held = [] := by simpa using (not_or.mp none').2
        have none'' : s.current = none := by simpa using (List.append_eq_nil_iff.mp empty).1
        rw [none''] at plays
        rw [plays.2, Option.toList_none, List.append_nil, ← plays.2]
        rfl
    have dropped : ∀ t : Told,
      t.after (if s.held ≠ [] then [.cancelled s.held remainingMs] else []) = t := by
      intro t
      split <;> rfl
    show t.after ((if 0 < s.ahead ∨ s.held ≠ [] then [.clear] else []) ++
      (if s.held ≠ [] then [.cancelled s.held remainingMs] else []) ++ if s.idleReported then []
      else [.idle]) = _
    rw [Told.after_append, Told.after_append, cleared, dropped, idle]
    split
    · next reported => rw [reported]; rfl
    · rfl
  have all' : t.sent = (t.past ++ t.playing.toList ++ []).flatMap Record.frames := by
    rw [List.append_nil, all, Told.records]
  rw [told']
  cases here : s.current with
  | none =>
    rw [here] at plays
    obtain ⟨rfl, silent⟩ := plays
    refine ⟨same, rfl, all', past, [], [], ordered.sublist (by simp), ?_, ⟨rfl, rfl⟩, .nil⟩
    rw [silent]
    simpa using before
  | some a =>
    rw [here] at plays
    obtain ⟨place, rfl, story, -, -⟩ := plays
    cases playing : t.playing with
    | none =>
      rw [playing] at all'
      exact ⟨same, rfl, all', past, [], [], ordered.sublist (by simp), by simpa using before,
        ⟨rfl, rfl⟩, .nil⟩
    | some r =>
      rw [Told.here, playing, Option.getD_some] at story
      rw [playing] at all'
      exact ⟨same, rfl, all', past ++ [place], [], [], ordered.sublist (by simp),
        List.rel_append before (.cons ⟨a, story⟩ .nil), ⟨rfl, rfl⟩, .nil⟩

/-- The queue is dropped. -/
theorem cancelQueue_tells (left queued : ℕ) (tells : Tells loud cfg held inputs t s) :
    Tells loud cfg held inputs (t.after (s.cancelQueue left queued).1) (s.cancelQueue left queued).2 := by
  obtain ⟨same, idle, all, past, current, queue, ordered, before, plays, waiting⟩ := tells
  rw [Told.after_silent]
  · exact ⟨same, idle, all, past, current, [], ordered.sublist (by simp), before, plays, .nil⟩
  · intro o listed
    rcases List.mem_append.mp listed with kept | dropped
    · split at kept
      · split at kept
        · cases kept
        · rw [List.mem_singleton.mp kept]
          rfl
      · cases kept
    · split at dropped
      · rw [List.mem_singleton.mp dropped]
        rfl
      · cases dropped

/-- A cancellation ends what was playing, or lets it play and drops the queue. -/
theorem cancel_tells (protectMs : Option ℕ) (tells : Tells loud cfg held inputs t s) :
    Tells loud cfg held inputs (t.after (s.cancel protectMs).1) (s.cancel protectMs).2 := by
  have counted : Tells loud cfg held inputs t
    { s with current := (s.current.map Active.remaining).map Prod.snd } := by
    obtain ⟨same, idle, all, past, current, queue, ordered, before, plays, waiting⟩ := tells
    refine ⟨same, idle, all, past, current, queue, ordered, before, ?_, waiting⟩
    show Now loud cfg held inputs t ((s.current.map Active.remaining).map Prod.snd) current
    cases here : s.current with
    | none =>
      rw [here] at plays
      exact plays
    | some a =>
      rw [here] at plays
      exact plays.keeps a.remaining_id (remaining_keeps a) fun whole frames plays => plays.count
  unfold Player.cancel
  dsimp only
  generalize protectMs.any _ = soft
  cases soft with
  | true => exact cancelQueue_tells _ _ counted
  | false => exact cancelHard_tells _ counted

/-- What woke the loop. -/
theorem handle_tells (now : Instant) (cause : Wake) (tells : Tells loud cfg held inputs t s) :
    Tells loud cfg held (inputs ++ [.wake now cause]) (t.after (s.handle cause).1)
    (s.handle cause).2 := by
  obtain ⟨past, current, queue, ordered, before, plays, waiting⟩ := tells.hear (.wake now cause)
  have current' : (s.current.map fun a => a.heard (.wake now cause)) = s.current := Option.map_id'
  have queue' : (s.queue.map fun item => item.heard (.wake now cause)) = s.queue := List.map_id' _
  rw [current'] at plays
  rw [queue'] at waiting
  have heard : Tells loud cfg held (inputs ++ [.wake now cause]) t s :=
    ⟨tells.same, tells.idle, tells.all, past, current, queue, ordered.concat _, before, plays, waiting⟩
  cases cause with
  | enqueue item =>
    exact ⟨tells.same, tells.idle, tells.all, past, current, queue ++ [inputs.length],
      by rw [← List.append_assoc]; exact ordered.last _, before, plays,
      List.rel_append waiting (.cons (.last inputs now item) .nil)⟩
  | cancel => exact cancel_tells none heard
  | cancelSoft ms => exact cancel_tells (some ms) heard
  | data =>
    unfold Player.handle
    dsimp only
    split
    · refine ⟨tells.same, tells.idle, tells.all, past, current, queue, ordered.concat _, before,
        ?_, waiting⟩
      show Now loud cfg held _ t (s.current.map fun a => a.waitForData.getD a) current
      cases here : s.current with
      | none =>
        rw [here] at plays
        exact plays
      | some a =>
        rw [here] at plays
        exact plays.keeps a.waitForData_id (waitForData_keeps a) fun whole frames plays => plays.wait
    · exact heard
  | tick => exact ⟨heard.same, heard.idle, heard.all, heard.places⟩

/-- **Every input is told.** -/
theorem step_tells (input : Input)
    (asked : ∀ now cause, input = .wake now cause → AllHeld loud held now (s.handle cause).2)
    (tells : Tells loud cfg held inputs t s) :
    Tells loud cfg held (inputs ++ [input]) (t.after (s.step loud input).1) (s.step loud input).2 := by
  cases input with
  | wake now cause =>
    unfold Player.step
    dsimp only
    rw [Told.after_append]
    exact settle_tells now (asked now cause rfl) (handle_tells now cause tells)
  | arrive id arrival => exact arrive_tells tells id arrival

/-- What the log tells of a run. -/
theorem final_tells (loud : ℚ → List UInt8 → Bool) (cfg : PlayoutConfig) (held : ℕ → List UInt8 → Prop)
    (inputs : List Input)
    (asked : ∀ id audio, Held loud (Player.events loud cfg inputs) id audio → held id audio) :
    Tells loud { cfg with leadFrames := max cfg.leadFrames 1 } held inputs
      (told (Player.log (Player.events loud cfg inputs))) (Player.final loud cfg inputs) := by
  induction inputs using List.reverseRecOn with
  | nil =>
    exact ⟨rfl, rfl, rfl, [], [], [], ⟨.nil, List.forall_mem_nil _⟩, .nil, ⟨rfl, rfl⟩, .nil⟩
  | append_singleton inputs input ih =>
    have events' : Player.events loud cfg (inputs ++ [input]) = Player.events loud cfg inputs ++
        [event (Player.step loud) (Player.final loud cfg inputs) input] := events_append _ inputs [input]
    have logs : Player.log (Player.events loud cfg (inputs ++ [input])) =
      Player.log (Player.events loud cfg inputs) ++
        ((Player.final loud cfg inputs).step loud input).1 := by
      simp [Player.log, events']
    have ends : Player.final loud cfg (inputs ++ [input]) =
      ((Player.final loud cfg inputs).step loud input).2 :=
      final_append _ inputs [input]
    rw [events'] at asked
    rw [logs, ends, told, Told.after_append]
    refine step_tells input ?_ (ih fun id audio earlier => ?_)
    · rintro now cause rfl t a turning asks
      exact asked _ _ ⟨_, List.mem_append_right _ List.mem_cons_self, now, cause, rfl, t, a,
        turning, asks, rfl, rfl⟩
    · obtain ⟨ev, listed, rest⟩ := earlier
      exact asked id audio ⟨ev, List.mem_append_left _ listed, rest⟩

/-- **The items that meet a condition are played whole**: what is told of the items are the frames
of the log, item after item in the order in which they were enqueued, and those of each are a slice
of what came of it; what is cut off of it is quiet in windows of what was buffered of it. -/
def PlayedWhole (loud : ℚ → List UInt8 → Bool) (cfg : PlayoutConfig) (meets : PlayItem → Bool → Prop)
    (inputs : List Input) (happened : List Player.Happening) : Prop :=
  (told (Player.log happened)).records.flatMap Record.frames =
    (Player.log happened).filterMap Output.frame ∧
    ∃ places : List ℕ, places.Pairwise (· < ·) ∧
    List.Forall₂ (fun place r => ∃ item, Given inputs place item ∧
      item.id = r.id ∧ (meets item r.continuation →
        Sliced loud (Held loud happened r.id) cfg.trim item.source r.frames r.finished)) places
      (told (Player.log happened)).records

section Sample

/-- Quiet windows are those without a byte under `0xF0`, and what is quiet is kept for 20 ms. -/
def Sample.quiet : ℚ → List UInt8 → Bool := fun _ window => window.any (· < 0xF0)

/-- Nothing is buffered before the start. -/
def Sample.eager : PlayoutConfig := ⟨2, 0, 0, 0, some ⟨0, 20, 20⟩⟩

/-- A stream of three frames, each of one byte, all of them quiet. -/
def Sample.stream : List Input :=
  [.wake 0 (.enqueue ⟨1, .stream ⟨[.ok (List.replicate 160 0xFE)], false⟩, 0⟩),
    .arrive 1 (.chunk (List.replicate 160 0xFD ++ List.replicate 160 0xFC)), .arrive 1 .close,
    .wake 0 .data, .wake 0 .tick]

/-- Two frames of which another was between are no slice. -/
theorem skipped {x y z : UInt8} {n len : ℕ} (left : x ≠ y) (right : y ≠ z)
    (inside : n + len ≤
      (List.replicate frameBytes x ++
        (List.replicate frameBytes y ++ List.replicate frameBytes z)).length) :
    ¬Framed [List.replicate frameBytes x, List.replicate frameBytes z]
      (((List.replicate frameBytes x ++
        (List.replicate frameBytes y ++ List.replicate frameBytes z)).drop n).take len) := by
  intro framed
  have size :
    (((List.replicate frameBytes x ++
      (List.replicate frameBytes y ++ List.replicate frameBytes z)).drop n).take
      len).length = len := by
    rw [List.length_take, List.length_drop]
    omega
  have long : frameBytes < len := by
    have last : 2 * frameBytes < _ := framed.last
    omega
  have positive : 0 < frameBytes := by decide
  -- the first bytes of the two frames are a frame apart in the stream, too
  have first := framed.getElem? (i := 0) (by omega)
  have second := framed.getElem? (i := frameBytes) (by omega)
  rw [List.getElem?_take_of_lt (by omega), List.getElem?_drop] at first second
  simp only [List.getElem?_append, List.getElem?_replicate, List.length_replicate, List.length_append,
    Nat.add_sub_cancel, Nat.add_zero] at first second inside
  by_cases early : n < frameBytes
  · rw [if_neg (by omega), if_pos early, if_pos early] at second
    exact right (Option.some.inj second).symm
  · have near : n - frameBytes < frameBytes := by omega
    rw [if_neg early, if_pos near, if_pos near] at first
    exact left (Option.some.inj first)

end Sample

end Stories

end Callora.Audio
