/-
**Paced playout.**

Items are played in order, in frames a few ahead of real time: a clip at once, a stream once enough
of it is buffered. `Player.step` is one turn of the playout's loop: what woke it (a command, data of
a stream, the tick of the clock), and then what it sends and reports (`Player.settle`).

- `speechBounds_inside`: of the audio between the silence cut off at both ends something is left;
- `Player.sendAhead_ends`: the loop that sends frames ends.

How loud a window of audio is, is a parameter; the limiter changes a frame's samples only and is left out.
-/
import Mathlib.Data.Rat.Defs
import Mathlib.Data.List.Basic
import Mathlib.Tactic.Ring

set_option linter.unusedSectionVars false

namespace Callora.Audio

/-- `FRAME_BYTES`: 20 ms of μ-law. -/
def frameBytes : Nat := 160

/-- `FRAME_MS`. -/
def frameMs : Nat := 20

/-- `BYTES_PER_MS`. -/
def bytesPerMs : Nat := 8

/-- `SILENCE`. -/
def silence : UInt8 := 0xFF

/-- An instant, in nanoseconds. -/
abbrev Instant := Nat

/-- Milliseconds as nanoseconds. -/
def millis (n : Nat) : Nat := n * 1000000

/-- `usize::MAX`. -/
def usizeMax : Nat := 2 ^ 64 - 1

section Items

/-- What a stream's channel holds: the chunks and errors not yet taken, and whether it is closed. -/
structure Channel where
  arrived : List (Except String (List UInt8))
  closed : Bool
  deriving DecidableEq

inductive Source where
  | clip (bytes : List UInt8)
  /-- Chunks as they arrive; the channel closing ends the item. -/
  | stream (channel : Channel)
  deriving DecidableEq

structure PlayItem where
  id : Nat
  source : Source
  gainDb : ℚ
  deriving DecidableEq

structure TrimConfig where
  thresholdRms : ℚ
  padMs : Nat
  tailPadMs : Nat
  deriving DecidableEq

structure PlayoutConfig where
  leadFrames : Nat
  startBufferMs : Nat
  continuationBufferMs : Nat
  rebufferMs : Nat
  trim : Option TrimConfig
  deriving DecidableEq

/-- The item that plays. -/
structure Active where
  id : Nat
  source : Source
  offset : Nat
  pending : List UInt8
  gainDb : ℚ
  started : Bool
  streamDone : Bool
  /-- Bytes to have before playing (again); 0 while playing. -/
  bufferTo : Nat
  rebufferBytes : Nat
  trim : Option TrimConfig
  headTrimmed : Bool
  tailTrimmed : Bool
  deriving DecidableEq

/-- What leaves the playout: frames and events. -/
inductive Output where
  | audio (frame : List UInt8) (gainDb : ℚ)
  | clear
  | started (id : Nat) (at' : Instant)
  | finished (id : Nat)
  | idle
  | cancelled (ids : List Nat) (remainingMs : Nat)
  | protectedItem (id remainingMs : Nat)
  | gap (id ms : Nat) (seam : Bool)
  deriving DecidableEq

end Items

section Bounds

/-- A window of speech: 10 ms. -/
def windowBytes : Nat := 80

/-- The windows of a piece of audio, the last one as long as it is. -/
def windows (audio : List UInt8) : List (List UInt8) :=
  (List.range ((audio.length + windowBytes - 1) / windowBytes)).map fun i =>
    (audio.drop (windowBytes * i)).take windowBytes

variable (loud : ℚ → List UInt8 → Bool)

/-- `speech_bounds`: from the first loud window to the last, with some silence around. -/
def speechBounds (audio : List UInt8) (t : TrimConfig) : Option (Nat × Nat) := do
  let ws := windows audio
  let first ← ws.findIdx? (loud t.thresholdRms)
  let behind ← ws.reverse.findIdx? (loud t.thresholdRms)
  let last := ws.length - 1 - behind
  some (first * windowBytes - t.padMs * bytesPerMs,
    min ((last + 1) * windowBytes + t.tailPadMs * bytesPerMs) audio.length)

/-- **Something is left** between what is cut off at the ends of the audio. -/
theorem speechBounds_inside {audio : List UInt8} {t : TrimConfig} {start stop : Nat}
    (bounds : speechBounds loud audio t = some (start, stop)) : start < stop ∧ stop ≤ audio.length := by
  obtain ⟨first, found, bounds⟩ := Option.bind_eq_some_iff.mp bounds
  obtain ⟨behind, found', bounds⟩ := Option.bind_eq_some_iff.mp bounds
  obtain ⟨rfl, rfl⟩ := Prod.mk.inj (Option.some.inj bounds)
  obtain ⟨inside, here, before⟩ := List.findIdx?_eq_some_iff_getElem.mp found
  obtain ⟨inside', here', -⟩ := List.findIdx?_eq_some_iff_getElem.mp found'
  have length : (windows audio).length = (audio.length + windowBytes - 1) / windowBytes := by
    rw [windows, List.length_map, List.length_range]
  have ordered : first ≤ (windows audio).length - 1 - behind := by
    rw [List.getElem_reverse] at here'
    by_contra later
    exact before _ (Nat.not_le.mp later) here'
  have short : windowBytes * first < audio.length := by
    have below : first < (audio.length + windowBytes - 1) / windowBytes := length ▸ inside
    unfold windowBytes at below ⊢
    omega
  refine ⟨?_, Nat.min_le_right _ _⟩
  unfold windowBytes at short ⊢
  rw [Nat.lt_min]
  constructor
  · have grows : first * 80 < ((windows audio).length - 1 - behind + 1) * 80 := by omega
    omega
  · omega

end Bounds

namespace Active

variable (loud : ℚ → List UInt8 → Bool)

/-- `Active::new`. -/
def new (item : PlayItem) (cfg : PlayoutConfig) (continuation : Bool) : Active :=
  let startMs := if continuation then cfg.continuationBufferMs else cfg.startBufferMs
  let (source, headTrimmed) := match item.source, cfg.trim with
    | .clip clip, some t =>
      (.clip (match speechBounds loud clip t with
        | some (a, b) => (clip.drop a).take (b - a)
        | none => clip), true)
    | source, trim => (source, trim.isNone)
  { id := item.id
    source := source
    offset := 0
    pending := []
    gainDb := item.gainDb
    started := false
    streamDone := false
    bufferTo := match source with | .stream _ => startMs * bytesPerMs | .clip _ => 0
    rebufferBytes := cfg.rebufferMs * bytesPerMs
    trim := cfg.trim
    headTrimmed := headTrimmed
    tailTrimmed := false }

/-- What is taken of a channel, up to so many bytes buffered: what is left of it, the bytes, and whether
the stream is done. -/
def drainFrom (upTo : Nat) (closed : Bool) : List (Except String (List UInt8)) → List UInt8 → Bool →
    List (Except String (List UInt8)) × List UInt8 × Bool
  | [], pending, done => ([], pending, if pending.length < upTo then done || closed else done)
  | item :: rest, pending, done =>
    if pending.length < upTo && !done then
      match item with
      | .ok chunk => drainFrom upTo closed rest (pending ++ chunk) done
      | .error _ => (rest, pending, true)
    else (item :: rest, pending, done)

/-- `drain`. -/
def drain (a : Active) (upTo : Nat) : Active :=
  match a.source with
  | .clip _ => a
  | .stream channel =>
    let (arrived, pending, done) := drainFrom upTo channel.closed channel.arrived a.pending a.streamDone
    { a with source := .stream ⟨arrived, channel.closed⟩, pending := pending, streamDone := done }

/-- `trim_head`. -/
def trimHead (a : Active) : Active :=
  match a.trim with
  | none => a
  | some t =>
    if a.headTrimmed || a.pending.isEmpty then a
    else
      match speechBounds loud a.pending t with
      | some (start, _) => { a with pending := a.pending.drop start, headTrimmed := true }
      | none =>
        if a.streamDone then { a with headTrimmed := true }
        else
          -- Still silent: keep only the pad.
          let keep := min (t.padMs * bytesPerMs) a.pending.length
          { a with pending := a.pending.drop (a.pending.length - keep) }

/-- `trim_tail`. -/
def trimTail (a : Active) : Active :=
  match a.trim with
  | none => a
  | some t =>
    if a.tailTrimmed || !a.streamDone then a
    else
      let pending := match speechBounds loud a.pending t with
        | some (_, stop) => a.pending.take stop
        | none => a.pending
      { a with tailTrimmed := true, pending := pending }

/-- `remaining`: the bytes still to play, and whether that is all. -/
def remaining (a : Active) : (Nat × Bool) × Active :=
  match a.source with
  | .clip clip => ((clip.length - a.offset, true), a)
  | .stream _ =>
    let a := a.drain usizeMax
    ((a.pending.length, a.streamDone), a)

/-- A frame, padded with silence. -/
def padded (bytes : List UInt8) : List UInt8 :=
  bytes ++ List.replicate (frameBytes - bytes.length) silence

/-- The next frame of what is buffered. -/
def takeFrame (a : Active) : Option (List UInt8) × Active :=
  if frameBytes ≤ a.pending.length then
    (some (a.pending.take frameBytes), { a with pending := a.pending.drop frameBytes })
  else if a.streamDone && !a.pending.isEmpty then (some (padded a.pending), { a with pending := [] })
  else (none, if a.started && !a.streamDone then { a with bufferTo := a.rebufferBytes } else a)

/-- `next_frame`: the next frame, if one is available now. -/
def nextFrame (a : Active) : Option (List UInt8) × Active :=
  match a.source with
  | .clip clip =>
    if clip.length ≤ a.offset then (none, a)
    else
      let stop := min (a.offset + frameBytes) clip.length
      (some (padded ((clip.take stop).drop a.offset)), { a with offset := stop })
  | .stream _ =>
    let a := a.drain (max a.bufferTo frameBytes)
    let a :=
      if !a.headTrimmed && (decide (max a.bufferTo frameBytes ≤ a.pending.length) || a.streamDone) then
        a.trimHead loud
      else a
    let a := a.trimTail loud
    if 0 < a.bufferTo then
      if (decide (a.pending.length < a.bufferTo) || !a.headTrimmed) && !a.streamDone then (none, a)
      else { a with bufferTo := 0 }.takeFrame
    else a.takeFrame

/-- `done`. -/
def done (a : Active) : Bool :=
  match a.source with
  | .clip clip => decide (clip.length ≤ a.offset)
  | .stream _ => a.streamDone && a.pending.isEmpty

/-- `wait_for_data`, once there is something to take; `none` while there is not. -/
def waitForData (a : Active) : Option Active :=
  match a.source with
  | .clip _ => none
  | .stream channel =>
    if a.streamDone then some a
    else
      match channel.arrived with
      | .ok chunk :: rest =>
        some { a with source := .stream ⟨rest, channel.closed⟩, pending := a.pending ++ chunk }
      | .error _ :: rest => some { a with source := .stream ⟨rest, channel.closed⟩, streamDone := true }
      | [] => if channel.closed then some { a with streamDone := true } else none

/-- `waiting_on_stream`. -/
def waitingOnStream (a : Active) : Bool :=
  match a.source with
  | .clip _ => false
  | .stream _ =>
    !a.streamDone && (decide (a.pending.length < max a.bufferTo frameBytes) || !a.headTrimmed)

section Ids

variable (a : Active)

@[simp] theorem drain_id (upTo : Nat) : (a.drain upTo).id = a.id := by
  unfold drain
  split <;> rfl

@[simp] theorem trimHead_id : (a.trimHead loud).id = a.id := by
  unfold trimHead
  split
  · rfl
  · split
    · rfl
    · split
      · rfl
      · split <;> rfl

@[simp] theorem trimTail_id : (a.trimTail loud).id = a.id := by
  unfold trimTail
  split
  · rfl
  · split <;> rfl

@[simp] theorem takeFrame_id : a.takeFrame.2.id = a.id := by
  unfold takeFrame
  split
  · rfl
  · split
    · rfl
    · dsimp only
      split <;> rfl

@[simp] theorem remaining_id : a.remaining.2.id = a.id := by
  unfold remaining
  split
  · rfl
  · exact a.drain_id usizeMax

@[simp] theorem waitForData_id : (a.waitForData.getD a).id = a.id := by
  unfold waitForData
  split
  · rfl
  · split
    · rfl
    · split
      · rfl
      · rfl
      · split <;> rfl

/-- A frame taken leaves the item the one it was. -/
@[simp] theorem nextFrame_id : (a.nextFrame loud).2.id = a.id := by
  unfold nextFrame
  split
  · split <;> rfl
  · dsimp only
    generalize trimmed : Active.trimTail loud _ = b
    have same : b.id = a.id := by
      rw [← trimmed, trimTail_id]
      split <;> simp
    rw [← same]
    split
    · split
      · rfl
      · exact takeFrame_id _
    · exact takeFrame_id _

end Ids

end Active

/-- `queued_ms`. -/
def PlayItem.queuedMs (item : PlayItem) : Nat :=
  match item.source with
  | .clip clip => clip.length / bytesPerMs
  | .stream _ => 0

section Loop

/-- What the loop of the playout holds. -/
structure Player where
  cfg : PlayoutConfig
  queue : List PlayItem
  current : Option Active
  /-- Frames sent that have not yet had their time. -/
  ahead : Nat
  idleReported : Bool
  /-- When everything sent so far will have been played. -/
  playEnd : Option Instant
  /-- The item a soft cancel let finish. -/
  protectedItem : Option Nat
  deriving DecidableEq

/-- What wakes the loop. -/
inductive Wake where
  | enqueue (item : PlayItem)
  | cancel
  | cancelSoft (protectMs : Nat)
  | data
  | tick
  deriving DecidableEq

/-- What happens at a stream. -/
inductive Arrival where
  | chunk (bytes : List UInt8)
  | error (text : String)
  | close
  deriving DecidableEq

/-- What happens next: the loop wakes up, or something arrives at the stream of an item. -/
inductive Input where
  | wake (now : Instant) (cause : Wake)
  | arrive (id : Nat) (arrival : Arrival)
  deriving DecidableEq

namespace Player

variable (loud : ℚ → List UInt8 → Bool)

/-- The loop that starts; `spawn_with` makes the lead one frame at least. -/
def new (cfg : PlayoutConfig) : Player :=
  ⟨{ cfg with leadFrames := max cfg.leadFrames 1 }, [], none, 0, true, none, none⟩

/-- The current item, when it is done, is reported as finished. -/
def finish (s : Player) : List Output × Player :=
  match s.current with
  | some a => if a.done then ([.finished a.id], { s with current := none }) else ([], s)
  | none => ([], s)

/-- The next item of the queue, when there is no current one. -/
def takeNext (s : Player) : Player :=
  match s.current, s.queue with
  | none, item :: rest => { s with current := some (.new loud item s.cfg !s.idleReported), queue := rest }
  | _, _ => s

/-- A frame is sent. -/
def send (s : Player) (now : Instant) (a : Active) (frame : List UInt8) : List Output × Player :=
  let gap := match s.playEnd with
    | some stop => if stop + millis 1 < now then [.gap a.id ((now - stop) / millis 1) !a.started] else []
    | none => []
  let start := if a.started then [] else [.started a.id now]
  (gap ++ start ++ [.audio frame a.gainDb],
    { s with
      current := some { a with started := true }
      ahead := s.ahead + 1
      idleReported := false
      playEnd := some ((match s.playEnd with | some e => max e now | none => now) + millis frameMs) })

/-- One turn of the loop that sends frames; first whether it goes on. -/
def turn (now : Instant) (s : Player) : Bool × List Output × Player :=
  if s.cfg.leadFrames ≤ s.ahead then (false, [], s)
  else
    let (ended, s) := s.finish
    let s := s.takeNext loud
    match s.current with
    | none => (false, ended, s)
    | some active =>
      match active.nextFrame loud with
      | (some frame, a) =>
        let (sent, s) := s.send now a frame
        (true, ended ++ sent, s)
      | (none, a) => (a.done, ended, { s with current := some a })

/-- As much is sent as the lead allows; `fuel` bounds the turns. -/
def sendAhead (now : Instant) : Nat → Player → List Output × Player
  | 0, s => ([], s)
  | fuel + 1, s =>
    let (goesOn, sent, s) := s.turn loud now
    if goesOn then
      let (more, s) := sendAhead now fuel s
      (sent ++ more, s)
    else (sent, s)

/-- Turns enough for `sendAhead`. -/
def turns (s : Player) : Nat := (s.cfg.leadFrames - s.ahead) + s.queue.length + 1

/-- `Idle` is reported once everything was played. -/
def reportIdle (s : Player) : List Output × Player :=
  let s := if s.current.isNone then { s with protectedItem := none } else s
  if s.current.isNone && s.queue.isEmpty && s.ahead == 0 && !s.idleReported then
    ([.idle], { s with idleReported := true })
  else ([], s)

/-- What the loop does before it waits again. -/
def settle (now : Instant) (s : Player) : List Output × Player :=
  let (sent, s) := s.sendAhead loud now s.turns
  let (ended, s) := s.finish
  let (idle, s) := s.reportIdle
  (sent ++ ended ++ idle, s)

/-- Everything is dropped. -/
def cancelHard (s : Player) (remainingMs : Nat) : List Output × Player :=
  let ids := (s.current.map Active.id).toList ++ s.queue.map PlayItem.id
  (((if 0 < s.ahead ∨ ids ≠ [] then [.clear] else []) ++
      (if ids ≠ [] then [.cancelled ids remainingMs] else []) ++
      if s.idleReported then [] else [.idle]),
    { s with
      queue := []
      current := none
      ahead := 0
      idleReported := true
      playEnd := none
      protectedItem := none })

/-- The queue is dropped, and the current item goes on to its end. -/
def cancelQueue (s : Player) (left queued : Nat) : List Output × Player :=
  let ids := s.queue.map PlayItem.id
  let kept := match s.current with
    | some a => if s.protectedItem = some a.id then [] else [.protectedItem a.id left]
    | none => []
  (kept ++ (if ids ≠ [] then [.cancelled ids queued] else []),
    { s with
      queue := []
      protectedItem := match s.current with | some a => some a.id | none => s.protectedItem })

/-- `Cancel`, or `CancelSoft` with the milliseconds that are protected. -/
def cancel (s : Player) (protectMs : Option Nat) : List Output × Player :=
  let inFlight := s.ahead * frameMs
  let queued := (s.queue.map PlayItem.queuedMs).sum
  let left := s.current.map Active.remaining
  let currentLeft := match left with | some ((bytes, _), _) => bytes / bytesPerMs | none => 0
  let exact := match left with | some ((_, all), _) => all | none => true
  let s := { s with current := left.map Prod.snd }
  if protectMs.any fun protect => exact && decide (currentLeft + inFlight ≤ protect) then
    s.cancelQueue (currentLeft + inFlight) queued
  else s.cancelHard (currentLeft + inFlight + queued)

/-- What woke the loop, handled. -/
def handle (s : Player) : Wake → List Output × Player
  | .enqueue item => ([], { s with queue := s.queue ++ [item] })
  | .cancel => s.cancel none
  | .cancelSoft protectMs => s.cancel (some protectMs)
  | .data =>
    -- Data is waited for only by a stream that has not enough, within the lead.
    if s.current.any Active.waitingOnStream && decide (s.ahead < s.cfg.leadFrames) then
      ([], { s with current := s.current.map fun a => a.waitForData.getD a })
    else ([], s)
  | .tick => ([], { s with ahead := s.ahead - 1 })

end Player

/-- Something arrives at a channel; nothing does once it is closed. -/
def Channel.take (c : Channel) (arrival : Arrival) : Channel :=
  if c.closed then c
  else
    match arrival with
    | .chunk bytes => { c with arrived := c.arrived ++ [.ok bytes] }
    | .error text => { c with arrived := c.arrived ++ [.error text] }
    | .close => { c with closed := true }

/-- Something arrives at a source. -/
def Source.take (arrival : Arrival) : Source → Source
  | .clip bytes => .clip bytes
  | .stream channel => .stream (channel.take arrival)

namespace Player

variable (loud : ℚ → List UInt8 → Bool)

/-- Something arrives at the stream of the item with an id. -/
def arrive (s : Player) (id : Nat) (arrival : Arrival) : Player :=
  { s with
    current := s.current.map fun a => if a.id = id then { a with source := a.source.take arrival } else a
    queue := s.queue.map fun item =>
      if item.id = id then { item with source := item.source.take arrival } else item }

/-- The frames to send, the items to start, and one for an item that is not done. -/
def work (s : Player) : Nat :=
  (s.cfg.leadFrames - s.ahead) + s.queue.length + if s.current.any fun a => !a.done then 1 else 0

/-- What is not current any more after `finish` was done. -/
theorem finish_open (s : Player) : s.finish.2.cfg = s.cfg ∧ s.finish.2.ahead = s.ahead ∧
    s.finish.2.queue = s.queue ∧
    (s.finish.2.current = none ∨ s.finish.2.current = s.current ∧ s.current.any fun a => !a.done) := by
  unfold finish
  cases current : s.current with
  | none => exact ⟨rfl, rfl, rfl, .inl current⟩
  | some a =>
    dsimp only
    by_cases done : a.done
    · rw [if_pos done]
      exact ⟨rfl, rfl, rfl, .inl rfl⟩
    · rw [if_neg done]
      exact ⟨rfl, rfl, rfl, .inr ⟨current, by simpa using done⟩⟩

/-- Taking the next item leaves no more work than there was before. -/
theorem takeNext_work (s : Player) : (s.finish.2.takeNext loud).cfg = s.cfg ∧
    (s.finish.2.takeNext loud).ahead = s.ahead ∧
    ((s.finish.2.takeNext loud).current = none ∨
      (s.finish.2.takeNext loud).queue.length + 1 ≤
        s.queue.length + if s.current.any fun a => !a.done then 1 else 0) := by
  obtain ⟨cfg, ahead, queue, current⟩ := s.finish_open
  generalize s.finish.2 = t at cfg ahead queue current
  unfold takeNext
  rcases current with none' | ⟨same, open'⟩
  · cases waiting : t.queue with
    | nil =>
      rw [none']
      exact ⟨cfg, ahead, .inl none'⟩
    | cons item rest =>
      rw [none']
      refine ⟨cfg, ahead, .inr ?_⟩
      rw [← queue, waiting, List.length_cons]
      exact Nat.le_add_right _ _
  · rw [if_pos open', ← queue]
    obtain ⟨a, here, -⟩ := (Option.any_eq_true _ _).mp open'
    rw [same, here]
    exact ⟨cfg, ahead, .inr (Nat.le_refl _)⟩

/-- A turn after which the loop goes on has done some work. -/
theorem turn_work (now : Instant) (s : Player) (goesOn : (s.turn loud now).1) :
    (s.turn loud now).2.2.work < s.work := by
  unfold turn at goesOn ⊢
  by_cases full : s.cfg.leadFrames ≤ s.ahead
  · rw [if_pos full] at goesOn
    cases goesOn
  · rw [if_neg full] at goesOn ⊢
    obtain ⟨cfg, ahead, left⟩ := s.takeNext_work loud
    dsimp only at goesOn ⊢
    generalize s.finish.2.takeNext loud = t at goesOn cfg ahead left ⊢
    cases current : t.current with
    | none =>
      rw [current] at goesOn
      cases goesOn
    | some active =>
      rw [current] at goesOn left
      replace left := left.resolve_left (Option.some_ne_none active)
      dsimp only at goesOn ⊢
      cases next : active.nextFrame loud with
      | mk frame a =>
        rw [next] at goesOn
        cases frame with
        | none =>
          have stays : ({ t with current := some a } : Player).work =
              (t.cfg.leadFrames - t.ahead) + t.queue.length := by
            simp [work, show a.done = true from goesOn]
          show ({ t with current := some a } : Player).work < _
          rw [stays, cfg, ahead]
          unfold work
          omega
        | some frame =>
          have sent : (t.send now a frame).2.work ≤
              (t.cfg.leadFrames - (t.ahead + 1)) + t.queue.length + 1 := by
            unfold work send
            dsimp only
            split <;> omega
          show (t.send now a frame).2.work < _
          rw [cfg, ahead] at sent
          unfold work at sent ⊢
          omega

/-- The loop goes on only while there is work for two: a frame to send, and an item to send it of. -/
theorem work_goesOn (now : Instant) (s : Player) (goesOn : (s.turn loud now).1) : 2 ≤ s.work := by
  unfold turn at goesOn
  by_cases full : s.cfg.leadFrames ≤ s.ahead
  · rw [if_pos full] at goesOn
    cases goesOn
  · rw [if_neg full] at goesOn
    obtain ⟨-, -, left⟩ := s.takeNext_work loud
    dsimp only at goesOn
    generalize s.finish.2.takeNext loud = t at goesOn left
    cases current : t.current with
    | none =>
      rw [current] at goesOn
      cases goesOn
    | some active =>
      rw [current] at left
      replace left := left.resolve_left (Option.some_ne_none active)
      unfold work
      omega

/-- The loop after so many turns. -/
def afterTurns (now : Instant) (s : Player) : Nat → Player
  | 0 => s
  | n + 1 => ((s.turn loud now).2.2).afterTurns now n

/-- **A turn answers that the loop ends**, before there were as many turns as there is work. -/
theorem turn_ends (now : Instant) {work : Nat} {s : Player} (enough : s.work ≤ work) (some' : 0 < work) :
    ∃ n < work, ((s.afterTurns loud now n).turn loud now).1 = false := by
  induction work generalizing s with
  | zero => cases some'
  | succ work ih =>
    by_cases goesOn : (s.turn loud now).1
    · have less := s.turn_work loud now goesOn
      have two := s.work_goesOn loud now goesOn
      obtain ⟨n, early, ends⟩ := ih (s := (s.turn loud now).2.2) (by omega) (by omega)
      exact ⟨n + 1, Nat.succ_lt_succ early, ends⟩
    · exact ⟨0, some', Bool.not_eq_true _ ▸ goesOn⟩

/-- Once a turn has answered that the loop ends, more turns change nothing. -/
theorem sendAhead_stays (now : Instant) {n fuel more : Nat} {s : Player} (within : n < fuel)
    (within' : n < more)
    (ends : ((s.afterTurns loud now n).turn loud now).1 = false) :
    s.sendAhead loud now fuel = s.sendAhead loud now more := by
  induction n generalizing s fuel more with
  | zero =>
    obtain ⟨fuel, rfl⟩ := Nat.exists_eq_succ_of_ne_zero (Nat.ne_of_gt within)
    obtain ⟨more, rfl⟩ := Nat.exists_eq_succ_of_ne_zero (Nat.ne_of_gt within')
    have stops : ¬(s.turn loud now).1 = true := by
      rw [show (s.turn loud now).1 = false from ends]
      decide
    rw [sendAhead, sendAhead]
    dsimp only
    rw [if_neg stops, if_neg stops]
  | succ n ih =>
    obtain ⟨fuel, rfl⟩ := Nat.exists_eq_succ_of_ne_zero (Nat.ne_of_gt (Nat.zero_lt_of_lt within))
    obtain ⟨more, rfl⟩ := Nat.exists_eq_succ_of_ne_zero (Nat.ne_of_gt (Nat.zero_lt_of_lt within'))
    have same := ih (s := (s.turn loud now).2.2) (Nat.lt_of_succ_lt_succ within)
      (Nat.lt_of_succ_lt_succ within') ends
    rw [sendAhead, sendAhead]
    dsimp only
    rw [same]

theorem work_turns (s : Player) : s.work ≤ s.turns := by
  unfold work turns
  split <;> omega

/-- **The loop that sends frames ends**: one of its turns answers so within those that are computed
from the state, and what it sent and where it stands is then what more turns give. -/
theorem sendAhead_ends (now : Instant) (s : Player) :
    (∃ n < s.turns, ((s.afterTurns loud now n).turn loud now).1 = false) ∧
      ∀ more, s.sendAhead loud now (s.turns + more) = s.sendAhead loud now s.turns := by
  obtain ⟨n, within, ends⟩ := turn_ends loud now s.work_turns (Nat.succ_pos _)
  exact ⟨⟨n, within, ends⟩, fun more =>
    sendAhead_stays loud now (Nat.lt_add_right more within) within ends⟩

/-- **One input of the playout.** -/
def step (s : Player) : Input → List Output × Player
  | .wake now cause =>
    let (handled, s) := s.handle cause
    let (settled, s) := s.settle loud now
    (handled ++ settled, s)
  | .arrive id arrival => ([], s.arrive id arrival)

end Player

end Loop

end Callora.Audio
