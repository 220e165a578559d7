/-
**The frames of an item are a slice of its audio.**

What plays of an item are its bytes from one place to another, in frames, the last one padded
(`Framed`). What was cut off of a stream before them was cut piece by piece, each in quiet windows
of what was buffered when a frame was asked for (`HeadCut`); what is cut off after them lies in
quiet windows of what was buffered when the stream was over (`TailCut`). The windows of a clip are
those of all of it (`ClipHead`, `ClipTail`).

- `Kept`: how a stream stands: what was taken of it is what was cut off, sent, buffered, and cut off
  behind;
- `nextFrame_kept`: a turn of the item sends the next bytes of that, as long as no silence is cut
  off after a frame was sent (`Kept.ready`);
- `acts_played`: so it is for every order of frames, waits, counts and arrivals.
-/
import Callora.Audio.Playout
import Mathlib.Data.List.Infix

set_option linter.unusedSectionVars false

namespace Callora.Audio

section Cuts

variable (loud : ℚ → List UInt8 → Bool) (threshold : ℚ)

/-- A byte of a piece of audio is in a window that is not loud. -/
def QuietAt (audio : List UInt8) (i : ℕ) : Prop :=
  ∃ w, (windows audio)[i / windowBytes]? = some w ∧ loud threshold w = false

variable (held : List UInt8 → Prop)

/-- **The first bytes are cut off**, piece by piece, each in quiet windows of what was held then:
the windows begin where the piece before was cut off. -/
inductive HeadCut (given : List UInt8) : ℕ → Prop where
  | start : HeadCut given 0
  | cut {n k : ℕ} {audio : List UInt8} : HeadCut given n → held audio → audio <+: given.drop n →
    k ≤ audio.length →
      (∀ i < k, QuietAt loud threshold audio i) → HeadCut given (n + k)

/-- **What follows the first bytes is cut off**: it is in quiet windows of what was held then, or of
what was left of that when the head was cut off, at the same moment. -/
def TailCut (given : List UInt8) (head n : ℕ) : Prop :=
  ∃ start ≤ n, (held (given.drop start) ∨ start = head ∧ ∃ first ≤ head, held (given.drop first)) ∧
    ∀ i, n ≤ start + i → start + i < given.length → QuietAt loud threshold (given.drop start) i

variable {loud threshold held}

/-- More audio after the beginning changes nothing of what was cut off. -/
theorem HeadCut.of_prefix {given more : List UInt8} {n : ℕ} (cut : HeadCut loud threshold held given n)
    (front : given <+: more) : HeadCut loud threshold held more n := by
  induction cut with
  | start => exact .start
  | cut _ here within short quiet ih =>
    exact ih.cut here (within.trans (List.IsPrefix.drop front _)) short quiet

theorem windows_length (audio : List UInt8) :
    (windows audio).length = (audio.length + windowBytes - 1) / windowBytes := by
  rw [windows, List.length_map, List.length_range]

/-- Each byte is in a window. -/
theorem window_inside {audio : List UInt8} {i : ℕ} (inside : i < audio.length) :
    i / windowBytes < (windows audio).length := by
  rw [windows_length]
  unfold windowBytes
  omega

/-- **What speech bounds leave out is quiet.** -/
theorem speechBounds_quiet {audio : List UInt8} {t : TrimConfig} {start stop : ℕ}
    (bounds : speechBounds loud audio t = some (start, stop)) :
    (∀ i < start, QuietAt loud t.thresholdRms audio i) ∧
      ∀ i, stop ≤ i → i < audio.length → QuietAt loud t.thresholdRms audio i := by
  obtain ⟨first, found, bounds⟩ := Option.bind_eq_some_iff.mp bounds
  obtain ⟨behind, found', bounds⟩ := Option.bind_eq_some_iff.mp bounds
  obtain ⟨rfl, rfl⟩ := Prod.mk.inj (Option.some.inj bounds)
  obtain ⟨inside, -, before⟩ := List.findIdx?_eq_some_iff_getElem.mp found
  obtain ⟨inside', -, after⟩ := List.findIdx?_eq_some_iff_getElem.mp found'
  constructor
  · intro i early
    have window : i / windowBytes < first := by
      unfold windowBytes at early ⊢
      omega
    exact ⟨_, List.getElem?_eq_getElem (window.trans inside), by simpa using before _ window⟩
  · intro i late within
    have held := window_inside within
    have window : (windows audio).length - 1 - (i / windowBytes) < behind := by
      rw [List.length_reverse] at inside'
      have count := windows_length audio
      have size : windowBytes = 80 := rfl
      rw [size] at late held count ⊢
      omega
    have quiet := after _ window
    rw [List.getElem_reverse] at quiet
    have same : (windows audio).length - 1 - ((windows audio).length - 1 - i / windowBytes) =
      i / windowBytes :=
      Nat.sub_sub_self (Nat.le_sub_one_of_lt held)
    simp only [same] at quiet
    exact ⟨_, List.getElem?_eq_getElem held, by simpa using quiet⟩

/-- Without bounds all is quiet. -/
theorem speechBounds_none {audio : List UInt8} {t : TrimConfig}
    (none' : speechBounds loud audio t = none) {i : ℕ}
    (inside : i < audio.length) : QuietAt loud t.thresholdRms audio i := by
  have held := window_inside inside
  refine ⟨_, List.getElem?_eq_getElem held, ?_⟩
  cases found : (windows audio).findIdx? (loud t.thresholdRms) with
  | none => exact List.findIdx?_eq_none_iff.mp found _ (List.getElem_mem held)
  | some first =>
    cases found' : (windows audio).reverse.findIdx? (loud t.thresholdRms) with
    | none => exact List.findIdx?_eq_none_iff.mp found' _ (List.mem_reverse.mpr (List.getElem_mem held))
    | some behind => simp [speechBounds, found, found'] at none'

end Cuts

section Frames

/-- **Bytes as frames**: all of one size, the last one padded with silence by less than a frame. -/
structure Framed (frames : List (List UInt8)) (sent : List UInt8) : Prop where
  size : ∀ f ∈ frames, f.length = frameBytes
  content : frames.flatten = sent ++ List.replicate (frames.length * frameBytes - sent.length) silence
  last : frames.length * frameBytes < sent.length + frameBytes

variable {frames : List (List UInt8)} {sent chunk : List UInt8}

theorem Framed.nil : Framed [] [] := ⟨by simp, rfl, by decide⟩

/-- The bytes of the frames. -/
theorem Framed.getElem? (framed : Framed frames sent) {i : ℕ} (inside : i < sent.length) :
    frames.flatten[i]? = sent[i]? := by
  rw [framed.content, List.getElem?_append_left inside]

/-- A frame more, after frames that are full. -/
theorem Framed.concat (framed : Framed frames sent) (full : sent.length = frames.length * frameBytes)
    (some' : chunk ≠ []) (short : chunk.length ≤ frameBytes) :
    Framed (frames ++ [Active.padded chunk]) (sent ++ chunk) where
  size := by
    intro f listed
    rcases List.mem_append.mp listed with before | now
    · exact framed.size f before
    · rw [List.mem_singleton.mp now, Active.padded, List.length_append, List.length_replicate]
      omega
  content := by
    have before := framed.content
    rw [full, Nat.sub_self, List.replicate_zero, List.append_nil] at before
    have pad : (frames ++ [Active.padded chunk]).length * frameBytes - (sent ++ chunk).length =
        frameBytes - chunk.length := by
      rw [List.length_append, List.length_append, List.length_singleton, Nat.add_mul, ← full]
      omega
    rw [pad, List.flatten_append, before, List.flatten_singleton, Active.padded, List.append_assoc]
  last := by
    have more := List.length_pos_iff.mpr some'
    rw [List.length_append, List.length_append, List.length_singleton, Nat.add_mul, ← full]
    omega

end Frames

section Channels

/-- The audio of what came over a channel, up to the first error. -/
def audioOf : List (Except String (List UInt8)) → List UInt8
  | [] => []
  | .ok chunk :: rest => chunk ++ audioOf rest
  | .error _ :: _ => []

theorem audioOf_append (front : List (List UInt8)) (rest : List (Except String (List UInt8))) :
    audioOf (front.map .ok ++ rest) = front.flatten ++ audioOf rest := by
  induction front with
  | nil => rfl
  | cons chunk front ih =>
    show chunk ++ audioOf (front.map .ok ++ rest) = _
    rw [ih, List.flatten_cons, List.append_assoc]

/-- **What was taken of a channel**, of all that came over it, and whether the stream is done: all
up to an error, or up to its end. -/
inductive Fed (all : List (Except String (List UInt8))) (c : Channel) : Bool → List UInt8 → Prop where
  | going {front : List (List UInt8)} : all = front.map .ok ++ c.arrived → Fed all c false front.flatten
  | ended {front : List (List UInt8)} :
      all = front.map .ok → c.arrived = [] → c.closed = true → Fed all c true front.flatten
  | failed {front : List (List UInt8)} {text : String} {more : List (Except String (List UInt8))} :
      all = front.map .ok ++ .error text :: more → Fed all c true front.flatten

variable {all arrived : List (Except String (List UInt8))} {c : Channel} {done closed : Bool}
  {taken pending : List UInt8} {upTo : ℕ}

/-- What was taken is the beginning of the audio. -/
theorem Fed.front (fed : Fed all c done taken) : taken <+: audioOf all := by
  cases fed with
  | going same => exact ⟨audioOf c.arrived, by rw [same, audioOf_append]⟩
  | ended same => exact ⟨[], by rw [same, ← List.append_nil (List.map _ _), audioOf_append]; rfl⟩
  | failed same => exact ⟨[], by rw [same, audioOf_append]; rfl⟩

/-- **When the stream is done, all of the audio was taken.** -/
theorem Fed.complete (fed : Fed all c true taken) : taken = audioOf all := by
  cases fed with
  | ended same => rw [same, ← List.append_nil (List.map _ _), audioOf_append, audioOf, List.append_nil]
  | failed same => rw [same, audioOf_append, audioOf, List.append_nil]

/-- A chunk is taken. -/
theorem Fed.chunk {chunk : List UInt8} {rest : List (Except String (List UInt8))}
    (fed : Fed all ⟨.ok chunk :: rest, closed⟩ false taken) :
    Fed all ⟨rest, closed⟩ false (taken ++ chunk) := by
  cases fed with
  | @going front same =>
    have more : front.flatten ++ chunk = (front ++ [chunk]).flatten := by simp
    rw [more]
    exact .going (by rw [same]; simp)

/-- An error ends the stream. -/
theorem Fed.error {text : String} {rest : List (Except String (List UInt8))}
    (fed : Fed all ⟨.error text :: rest, closed⟩ false taken) : Fed all ⟨rest, closed⟩ true taken := by
  cases fed with
  | going same => exact .failed same

/-- The end of the channel ends the stream. -/
theorem Fed.close (fed : Fed all ⟨[], true⟩ false taken) : Fed all ⟨[], true⟩ true taken := by
  cases fed with
  | going same => exact .ended (by rw [same, List.append_nil]) rfl rfl

/-- Something arrives. -/
theorem Fed.arrive (fed : Fed all c done taken) {closed : Bool} (same : c.closed = closed)
    (arrival : Arrival) :
    Fed (Channel.take ⟨all, closed⟩ arrival).arrived (c.take arrival) done taken := by
  subst same
  cases closed' : c.closed with
  | true =>
    have stays : c.take arrival = c := if_pos closed'
    rw [stays]
    exact fed
  | false =>
    cases fed with
    | going same =>
      cases arrival <;> refine .going ?_ <;> simp [Channel.take, closed', same]
    | ended _ _ closed'' =>
      rw [closed'] at closed''
      cases closed''
    | failed same =>
      cases arrival with
      | chunk bytes => exact .failed (by simp only [Channel.take, same]; exact List.append_assoc _ _ _)
      | error text => exact .failed (by simp only [Channel.take, same]; exact List.append_assoc _ _ _)
      | close => exact .failed same

/-- **What draining a channel takes**: the next chunks, none when the stream is done. -/
theorem drainFrom_fed (upTo : ℕ) (pending : List UInt8) (fed : Fed all ⟨arrived, closed⟩ done taken) :
    ∃ arrived' chunk done', Active.drainFrom upTo closed arrived pending done =
    (arrived', pending ++ chunk, done') ∧
      Fed all ⟨arrived', closed⟩ done' (taken ++ chunk) ∧ (done = true → chunk = [] ∧ done' = true) := by
  induction arrived generalizing pending done taken with
  | nil =>
    rw [Active.drainFrom]
    refine ⟨[], [], _, by rw [List.append_nil], ?_, ?_⟩
    · rw [List.append_nil]
      split
      · cases done with
        | true => exact fed
        | false =>
          cases closed with
          | true => exact fed.close
          | false => exact fed
      · exact fed
    · rintro rfl
      simp
  | cons item rest ih =>
    unfold Active.drainFrom
    split
    · next more =>
      obtain rfl : done = false := by simpa using (Bool.and_eq_true_iff.mp more).2
      cases item with
      | ok chunk =>
        obtain ⟨arrived', chunk', done', same, fed', -⟩ := ih (pending ++ chunk) fed.chunk
        refine ⟨arrived', chunk ++ chunk', done', ?_, ?_, nofun⟩
        · rw [← List.append_assoc]
          exact same
        · rwa [← List.append_assoc]
      | error text =>
        exact ⟨rest, [], true, by rw [List.append_nil], by rw [List.append_nil]; exact fed.error, nofun⟩
    · exact ⟨_, [], _, by rw [List.append_nil], by rwa [List.append_nil], fun done => ⟨rfl, done⟩⟩

end Channels

section Constants

/-- What an item keeps: how it is trimmed, and whether it started. -/
structure Active.Keeps (a b : Active) : Prop where
  trim : b.trim = a.trim
  started : b.started = a.started

variable (loud : ℚ → List UInt8 → Bool) (a : Active)

theorem Active.Keeps.trans {a b c : Active} (first : a.Keeps b) (then' : b.Keeps c) : a.Keeps c :=
  ⟨then'.trim.trans first.trim, then'.started.trans first.started⟩

theorem drain_keeps (upTo : ℕ) : a.Keeps (a.drain upTo) := by
  unfold Active.drain
  split <;> exact ⟨rfl, rfl⟩

theorem trimHead_keeps : a.Keeps (a.trimHead loud) := by
  unfold Active.trimHead
  split
  · exact ⟨rfl, rfl⟩
  · split
    · exact ⟨rfl, rfl⟩
    · split
      · exact ⟨rfl, rfl⟩
      · split <;> exact ⟨rfl, rfl⟩

theorem trimTail_keeps : a.Keeps (a.trimTail loud) := by
  unfold Active.trimTail
  split
  · exact ⟨rfl, rfl⟩
  · split <;> exact ⟨rfl, rfl⟩

theorem takeFrame_keeps : a.Keeps a.takeFrame.2 := by
  unfold Active.takeFrame
  split
  · exact ⟨rfl, rfl⟩
  · split
    · exact ⟨rfl, rfl⟩
    · dsimp only
      split <;> exact ⟨rfl, rfl⟩

theorem remaining_keeps : a.Keeps a.remaining.2 := by
  unfold Active.remaining
  split
  · exact ⟨rfl, rfl⟩
  · exact drain_keeps a usizeMax

theorem waitForData_keeps : a.Keeps (a.waitForData.getD a) := by
  unfold Active.waitForData
  split
  · exact ⟨rfl, rfl⟩
  · split
    · exact ⟨rfl, rfl⟩
    · split
      · exact ⟨rfl, rfl⟩
      · exact ⟨rfl, rfl⟩
      · split <;> exact ⟨rfl, rfl⟩

/-- A turn, too, leaves it to the loop that the item started. -/
theorem nextFrame_keeps : a.Keeps (a.nextFrame loud).2 := by
  unfold Active.nextFrame
  split
  · split <;> exact ⟨rfl, rfl⟩
  · dsimp only
    generalize trimmed : Active.trimTail loud _ = b
    have same : a.Keeps b := by
      rw [← trimmed]
      refine .trans ?_ (trimTail_keeps loud _)
      have drained := drain_keeps a (max a.bufferTo frameBytes)
      split
      · exact drained.trans (trimHead_keeps loud _)
      · exact drained
    refine same.trans ?_
    split
    · split
      · exact ⟨rfl, rfl⟩
      · exact ⟨(takeFrame_keeps _).trim, (takeFrame_keeps _).started⟩
    · exact takeFrame_keeps b

end Constants

section Accounts

variable (loud : ℚ → List UInt8 → Bool) (held : List UInt8 → Prop)

/-- What was cut off of a stream before its frames; nothing is where nothing is trimmed. -/
def HeadOf (trim : Option TrimConfig) (given : List UInt8) (n : ℕ) : Prop :=
  match trim with
  | none => n = 0
  | some t => HeadCut loud t.thresholdRms held given n

/-- What is cut off of a stream after its frames, if anything is. -/
def TailOf (trim : Option TrimConfig) (given : List UInt8) (head n : ℕ) : Prop :=
  n = given.length ∨ ∃ t, trim = some t ∧ TailCut loud t.thresholdRms held given head n

/-- **How a stream stands**: of what was taken of it, the first bytes were cut off, then come those
sent, those buffered, and those cut off behind. While its head is not trimmed nothing was sent, and
nothing will be before it is: more is buffered first, or less than a frame is kept of the silence,
or the stream is over. -/
structure Kept (a : Active) (taken : List UInt8) (n : ℕ) (sent tail : List UInt8) : Prop where
  inside : n ≤ taken.length
  balance : taken.drop n = sent ++ a.pending ++ tail
  head : HeadOf loud held a.trim taken n
  after : tail ≠ [] → a.streamDone = true ∧ a.tailTrimmed = true ∧
    TailOf loud held a.trim taken n (n + sent.length + a.pending.length)
  ready : a.headTrimmed = false → sent = [] ∧ tail = [] ∧ a.started = false ∧ ∃ t, a.trim = some t ∧
    (0 < a.bufferTo ∨ t.padMs * bytesPerMs < frameBytes ∨ a.streamDone = true ∧ a.pending = [])

variable {loud held} {a : Active} {taken sent tail : List UInt8} {n : ℕ}

theorem HeadOf.of_prefix {trim : Option TrimConfig} {given more : List UInt8}
    (cut : HeadOf loud held trim given n)
    (front : given <+: more) : HeadOf loud held trim more n := by
  cases trim with
  | none => exact cut
  | some t => exact HeadCut.of_prefix cut front

/-- **More is buffered**, or nothing more when the stream is done. -/
theorem Kept.fed (kept : Kept loud held a taken n sent tail) (source : Source) (chunk : List UInt8)
    (done : Bool)
    (stops : a.streamDone = true → chunk = [] ∧ done = true) :
    Kept loud held { a with source := source, pending := a.pending ++ chunk, streamDone := done }
    (taken ++ chunk) n sent
      tail := by
  cases ends : a.streamDone with
  | true =>
    obtain ⟨rfl, rfl⟩ := stops ends
    rw [List.append_nil, List.append_nil]
    refine ⟨kept.inside, kept.balance, kept.head, fun some' => ⟨rfl, (kept.after some').2⟩,
      fun open' => ?_⟩
    obtain ⟨none', none'', start, t, trims, cases'⟩ := kept.ready open'
    exact ⟨none', none'', start, t, trims, cases'.imp_right fun h => h.imp_right fun h => ⟨rfl, h.2⟩⟩
  | false =>
    have going : ¬a.streamDone = true := by rw [ends]; decide
    have untouched : tail = [] := by
      by_contra some'
      exact going (kept.after some').1
    subst untouched
    refine ⟨?_, ?_, kept.head.of_prefix (List.prefix_append _ _), fun some' => absurd rfl some',
      fun open' => ?_⟩
    · rw [List.length_append]
      exact Nat.le_add_right_of_le kept.inside
    · rw [List.drop_append_of_le_length kept.inside, kept.balance]
      simp
    · obtain ⟨none', none'', start, t, trims, cases'⟩ := kept.ready open'
      refine ⟨none', none'', start, t, trims, cases'.imp_right fun h =>
        .inl (h.resolve_right fun h => going h.1)⟩

/-- Silence is cut off before the frames. -/
theorem Kept.cut (kept : Kept loud held a taken n sent tail) (open' : a.headTrimmed = false)
    {t : TrimConfig}
    (trims : a.trim = some t) (here : held a.pending) {k : ℕ} (short : k ≤ a.pending.length)
    (quiet : ∀ i < k, QuietAt loud t.thresholdRms a.pending i) (trimmed : Bool) :
    Kept loud held { a with pending := a.pending.drop k, headTrimmed := trimmed } taken
    (n + k) sent tail := by
  obtain ⟨rfl, rfl, start, t', trims', cases'⟩ := kept.ready open'
  have buffered : taken.drop n = a.pending := by simpa using kept.balance
  refine ⟨?_, ?_, ?_, fun some' => absurd rfl some', fun _ => ⟨rfl, rfl, start, t', trims', ?_⟩⟩
  · have long := congrArg List.length buffered
    rw [List.length_drop] at long
    have := kept.inside
    omega
  · rw [← List.drop_drop, buffered]
    simp
  · have before := kept.head
    rw [trims] at before
    show HeadOf loud held a.trim taken (n + k)
    rw [trims]
    exact HeadCut.cut before here (by rw [buffered]) short quiet
  · refine cases'.imp_right fun h => h.imp_right fun ⟨ends, none'⟩ => ⟨ends, ?_⟩
    show a.pending.drop k = []
    rw [none', List.drop_nil]

/-- **The head is trimmed**: what is not found to be speech yet is cut down to the pad, unless the
stream is over. -/
theorem trimHead_kept (kept : Kept loud held a taken n sent tail) (open' : a.headTrimmed = false)
    (here : held a.pending) : ∃ k trimmed,
    a.trimHead loud = { a with pending := a.pending.drop k, headTrimmed := trimmed } ∧
      Kept loud held { a with pending := a.pending.drop k, headTrimmed := trimmed } taken
      (n + k) sent tail ∧
      (trimmed = false → (a.streamDone = true → a.pending = []) ∧
        ∃ t, a.trim = some t ∧ (a.pending.drop k).length ≤ t.padMs * bytesPerMs) := by
  unfold Active.trimHead
  split
  · next none' =>
    obtain ⟨-, -, -, t, trims, -⟩ := kept.ready open'
    rw [none'] at trims
    cases trims
  · next t trims =>
    split
    · next idle =>
      have empty : a.pending = [] := by simpa [open'] using idle
      refine ⟨0, a.headTrimmed, by rw [List.drop_zero],
        kept.cut open' trims here (Nat.zero_le _) nofun _, fun _ => ?_⟩
      exact ⟨fun _ => empty, t, trims, by simp [empty]⟩
    · split
      · next start stop bounds =>
        obtain ⟨ordered, inside⟩ := speechBounds_inside loud bounds
        exact ⟨start, true, rfl, kept.cut open' trims here (ordered.le.trans inside)
          (speechBounds_quiet bounds).1 true, nofun⟩
      · next bounds =>
        have quiet : ∀ k ≤ a.pending.length, ∀ i < k, QuietAt loud t.thresholdRms a.pending i :=
          fun k short i early => speechBounds_none bounds (early.trans_le short)
        split
        · exact ⟨0, true, by rw [List.drop_zero],
            kept.cut open' trims here (Nat.zero_le _) nofun true, nofun⟩
        · next going =>
          refine ⟨_, a.headTrimmed, rfl, kept.cut open' trims here (Nat.sub_le _ _)
            (quiet _ (Nat.sub_le _ _)) _,
            fun _ => ⟨fun ends => absurd ends going, t, trims, ?_⟩⟩
          rw [List.length_drop]
          omega

/-- **The tail is trimmed**, once the stream is over. -/
theorem trimTail_kept (kept : Kept loud held a taken n sent tail)
    (head : a.headTrimmed = false → a.streamDone = true → a.pending = [])
    (here : held a.pending ∨ sent = [] ∧ ∃ first ≤ n, held (taken.drop first)) : ∃ m trimmed tail',
    a.trimTail loud = { a with pending := a.pending.take m, tailTrimmed := trimmed } ∧
      Kept loud held
      { a with pending := a.pending.take m, tailTrimmed := trimmed } taken n sent tail' := by
  have same : ∀ trimmed, (a.tailTrimmed = true → trimmed = true) →
      Kept loud held { a with pending := a.pending.take a.pending.length, tailTrimmed := trimmed }
        taken n sent tail := by
    intro trimmed stays
    rw [List.take_length]
    exact ⟨kept.inside, kept.balance, kept.head,
      fun some' => ⟨(kept.after some').1, stays (kept.after some').2.1,
      (kept.after some').2.2⟩, kept.ready⟩
  unfold Active.trimTail
  split
  · exact ⟨_, a.tailTrimmed, tail, by rw [List.take_length], same _ id⟩
  · next t trims =>
    split
    · exact ⟨_, a.tailTrimmed, tail, by rw [List.take_length], same _ id⟩
    · next now =>
      obtain ⟨first, ends⟩ : a.tailTrimmed = false ∧ a.streamDone = true := by simpa using now
      have untouched : tail = [] := by
        by_contra some'
        rw [(kept.after some').2.1] at first
        cases first
      cases bounds : speechBounds loud a.pending t with
      | none => exact ⟨_, true, tail, by rw [List.take_length], same true fun _ => rfl⟩
      | some found =>
        obtain ⟨start, stop⟩ := found
        subst untouched
        have buffered : taken.drop (n + sent.length) = a.pending := by
          rw [← List.drop_drop, kept.balance]
          simp
        have long : taken.length - (n + sent.length) = a.pending.length := by
          rw [← List.length_drop, buffered]
        have quiet := (speechBounds_quiet bounds).2
        refine ⟨stop, true, a.pending.drop stop, rfl, kept.inside, ?_, kept.head,
          fun _ => ⟨ends, rfl, ?_⟩, fun open' => ?_⟩
        · rw [kept.balance]
          simp
        · refine .inr ⟨t, trims, n + sent.length, Nat.le_add_right _ _, ?_, fun i late inside => ?_⟩
          · rw [buffered]
            refine here.imp_right fun ⟨none', first⟩ => ⟨?_, first⟩
            rw [none', List.length_nil, Nat.add_zero]
          · have late : n + sent.length + (a.pending.take stop).length ≤ n + sent.length + i := late
            rw [buffered]
            rw [List.length_take] at late
            exact quiet i (by omega) (by omega)
        · obtain ⟨none', -, begun, t', trims', -⟩ := kept.ready open'
          have empty := head open' ends
          exact ⟨none', by simp [empty], begun, t', trims', .inr (.inr ⟨ends, by simp [empty]⟩)⟩

/-- **A frame is taken.** -/
theorem takeFrame_kept (kept : Kept loud held a taken n sent tail)
    (head : a.headTrimmed = false → a.pending.length < frameBytes ∧
      (a.streamDone = true → a.pending = [])) :
    ∃ chunk bufferTo, a.takeFrame = (if chunk = [] then none else some (Active.padded chunk),
        { a with pending := a.pending.drop chunk.length, bufferTo := bufferTo }) ∧
      Kept loud held { a with pending := a.pending.drop chunk.length, bufferTo := bufferTo } taken n
      (sent ++ chunk) tail ∧
      chunk <+: a.pending ∧ chunk.length ≤ frameBytes ∧ (chunk ≠ [] → a.headTrimmed = true ∧
        (chunk.length < frameBytes → a.streamDone = true ∧ a.pending.length = chunk.length)) := by
  have account : ∀ chunk, chunk <+: a.pending → a.headTrimmed = true ∨ chunk = [] → ∀ bufferTo,
      (bufferTo = a.bufferTo ∨ a.headTrimmed = true) →
      Kept loud held { a with pending := a.pending.drop chunk.length, bufferTo := bufferTo } taken n
        (sent ++ chunk) tail := by
    intro chunk front trimmed bufferTo buffer
    obtain ⟨rest, parts⟩ := front
    have left : a.pending.drop chunk.length = rest := by rw [← parts, List.drop_left]
    rw [left]
    refine ⟨kept.inside, ?_, kept.head, fun some' => ?_, fun open' => ?_⟩
    · rw [kept.balance, ← parts]
      simp
    · obtain ⟨ends, tails, cut⟩ := kept.after some'
      refine ⟨ends, tails, ?_⟩
      show TailOf loud held a.trim taken n (n + (sent ++ chunk).length + rest.length)
      have long : n + (sent ++ chunk).length + rest.length = n + sent.length + a.pending.length := by
        rw [← parts, List.length_append, List.length_append]
        omega
      rwa [long]
    · have closed : ¬a.headTrimmed = true := by
        have open' : a.headTrimmed = false := open'
        rw [open']
        decide
      obtain rfl := trimmed.resolve_left closed
      obtain rfl := buffer.resolve_right closed
      rw [List.append_nil]
      have rest' : a.pending = rest := by rw [← parts, List.nil_append]
      rw [← rest']
      exact kept.ready open'
  have closed : ∀ {P : Prop}, (a.headTrimmed = false → P) → ¬P → a.headTrimmed = true := by
    intro P open' not
    by_contra other
    exact not (open' (by simpa using other))
  unfold Active.takeFrame
  split
  · next full =>
    have trimmed : a.headTrimmed = true := closed (fun open' => (head open').1) (Nat.not_lt.mpr full)
    have size : (a.pending.take frameBytes).length = frameBytes := by
      rw [List.length_take, Nat.min_eq_left full]
    have some' : a.pending.take frameBytes ≠ [] := by
      intro none'
      rw [none'] at size
      cases size
    have unpadded : Active.padded (a.pending.take frameBytes) = a.pending.take frameBytes := by
      rw [Active.padded, size, Nat.sub_self, List.replicate_zero, List.append_nil]
    refine ⟨a.pending.take frameBytes, a.bufferTo, ?_,
      account _ (List.take_prefix _ _) (.inl trimmed) _ (.inl rfl),
      List.take_prefix _ _, Nat.le_of_eq size, fun _ => ⟨trimmed, fun short => ?_⟩⟩
    · rw [if_neg some', unpadded, size]
    · exact absurd size (Nat.ne_of_lt short)
  · next short =>
    split
    · next last =>
      obtain ⟨ends, some'⟩ : a.streamDone = true ∧ a.pending ≠ [] := by simpa using last
      have trimmed : a.headTrimmed = true := closed (fun open' => (head open').2 ends) some'
      refine ⟨a.pending, a.bufferTo, ?_, account _ List.prefix_rfl (.inl trimmed) _ (.inl rfl),
        List.prefix_rfl, by omega,
        fun _ => ⟨trimmed, fun _ => ⟨ends, rfl⟩⟩⟩
      rw [if_neg some', List.drop_length]
    · split
      · next dry =>
        obtain ⟨started, going⟩ : a.started = true ∧ a.streamDone = false := by simpa using dry
        have trimmed : a.headTrimmed = true := by
          by_contra open'
          have begun := (kept.ready (by simpa using open')).2.2.1
          rw [started] at begun
          cases begun
        exact ⟨[], a.rebufferBytes, rfl, account [] List.nil_prefix (.inl trimmed) _ (.inr trimmed),
          List.nil_prefix,
          Nat.zero_le _, fun some' => absurd rfl some'⟩
      · exact ⟨[], a.bufferTo, rfl, account [] List.nil_prefix (.inr rfl) _ (.inl rfl),
          List.nil_prefix, Nat.zero_le _,
          fun some' => absurd rfl some'⟩

end Accounts

/-- What a stream buffers before it starts, in milliseconds. -/
def PlayoutConfig.bufferMs (cfg : PlayoutConfig) (continuation : Bool) : ℕ :=
  if continuation then cfg.continuationBufferMs else cfg.startBufferMs

/-- **The head is trimmed before a frame is sent**: something is buffered before the start, or less
than a frame is kept of the silence. -/
def HeadFirst (cfg : PlayoutConfig) (continuation : Bool) : Prop :=
  ∀ t, cfg.trim = some t → 0 < cfg.bufferMs continuation ∨ t.padMs < frameMs

/-- What is buffered of the item when a frame of it is asked for. -/
def Active.asked (a : Active) : List UInt8 := (a.drain (max a.bufferTo frameBytes)).pending

section Streams

variable (loud : ℚ → List UInt8 → Bool) (held : List UInt8 → Prop)

/-- **A stream of which this much came, and these frames were sent.** -/
structure Stream (whole : Channel) (a : Active) (frames : List (List UInt8)) (c : Channel)
    (taken : List UInt8) (n : ℕ)
    (sent tail : List UInt8) : Prop where
  source : a.source = .stream c
  closed : c.closed = whole.closed
  fed : Fed whole.arrived c a.streamDone taken
  kept : Kept loud held a taken n sent tail
  framed : Framed frames sent
  full : sent.length = frames.length * frameBytes ∨ a.streamDone = true ∧ a.pending = []

variable {loud held} {whole c : Channel} {a : Active} {frames : List (List UInt8)}
    {taken sent tail : List UInt8} {n : ℕ}

/-- What a stream's channel gives is buffered. -/
theorem Stream.take (stream : Stream loud held whole a frames c taken n sent tail)
    {arrived : List (Except String (List UInt8))} (chunk : List UInt8) (done : Bool)
    (fed : Fed whole.arrived ⟨arrived, c.closed⟩ done (taken ++ chunk))
    (stops : a.streamDone = true → chunk = [] ∧ done = true) :
    Stream loud held whole
      { a with
        source := .stream ⟨arrived, c.closed⟩, pending := a.pending ++ chunk, streamDone := done } frames
      ⟨arrived, c.closed⟩ (taken ++ chunk) n sent tail where
  source := rfl
  closed := stream.closed
  fed := fed
  kept := stream.kept.fed _ chunk done stops
  framed := stream.framed
  full := stream.full.imp_right fun ⟨ends, none'⟩ => by
    obtain ⟨rfl, rfl⟩ := stops ends
    exact ⟨rfl, by simp [none']⟩

/-- **Draining.** -/
theorem drain_stream (stream : Stream loud held whole a frames c taken n sent tail) (upTo : ℕ) :
    ∃ arrived chunk done,
    a.drain upTo =
      { a with
        source := .stream ⟨arrived, c.closed⟩, pending := a.pending ++ chunk, streamDone := done } ∧
    Stream loud held whole (a.drain upTo) frames ⟨arrived, c.closed⟩ (taken ++ chunk) n sent tail := by
  obtain ⟨arrived, chunk, done, same, fed, stops⟩ := drainFrom_fed upTo a.pending stream.fed
  have drained : a.drain upTo =
      { a with
        source := .stream ⟨arrived, c.closed⟩, pending := a.pending ++ chunk, streamDone := done } := by
    unfold Active.drain
    rw [stream.source]
    simp only [same]
  refine ⟨arrived, chunk, done, drained, ?_⟩
  rw [drained]
  exact stream.take chunk done fed stops

/-- Waiting for data takes the next of the channel. -/
theorem waitForData_stream (stream : Stream loud held whole a frames c taken n sent tail) : ∃ c' taken',
    Stream loud held whole (a.waitForData.getD a) frames c' taken' n sent tail := by
  unfold Active.waitForData
  rw [stream.source]
  dsimp only
  split
  · exact ⟨c, taken, stream⟩
  · next going =>
    have going : a.streamDone = false := by simpa using going
    have fed := stream.fed
    have ends : ∀ {P : Prop}, a.streamDone = true → P := fun ends => by
      rw [going] at ends
      cases ends
    rw [going] at fed
    obtain ⟨arrived, closed⟩ := c
    dsimp only
    split
    · exact ⟨_, _, stream.take _ a.streamDone (by rw [going]; exact fed.chunk) ends⟩
    · have taken' := stream.take [] _ (by rw [List.append_nil]; exact fed.error) ends
      rw [List.append_nil] at taken'
      exact ⟨_, _, taken'⟩
    · split
      · next closed' =>
        obtain rfl : closed = true := closed'
        have taken' := stream.take [] _ (by rw [List.append_nil]; exact fed.close) ends
        rw [List.append_nil] at taken'
        exact ⟨_, _, taken'⟩
      · exact ⟨_, taken, stream⟩

/-- Something arrives at the stream. -/
theorem arrive_stream (stream : Stream loud held whole a frames c taken n sent tail) (arrival : Arrival) :
    Stream loud held (whole.take arrival) { a with source := a.source.take arrival } frames
    (c.take arrival) taken n sent
      tail where
  source := by rw [stream.source]; rfl
  closed := by
    unfold Channel.take
    rw [stream.closed]
    split
    · exact stream.closed
    · cases arrival <;> rfl
  fed := stream.fed.arrive stream.closed arrival
  kept := ⟨stream.kept.inside, stream.kept.balance, stream.kept.head, stream.kept.after,
    stream.kept.ready⟩
  framed := stream.framed
  full := stream.full

/-- The ends of a stream trimmed, as far as they can be told: then a head that is not trimmed has
nothing to send. -/
theorem trimmed_stream (stream : Stream loud held whole a frames c taken n sent tail)
    (here : held a.pending)
    {a' : Active}
    (trims : a' = Active.trimTail loud
      (if !a.headTrimmed && (decide (max a.bufferTo frameBytes ≤ a.pending.length) ||
      a.streamDone) then a.trimHead loud else a)) :
    ∃ n' tail', Stream loud held whole a' frames c taken n' sent tail' ∧
      (a'.headTrimmed = false → (a'.streamDone = true → a'.pending = []) ∧
        (a'.bufferTo = 0 → a'.pending.length < frameBytes)) := by
  -- the head
  obtain ⟨k, trimmed, b, n', head, kept, here', ready⟩ : ∃ k trimmed b n', (if !a.headTrimmed &&
      (decide (max a.bufferTo frameBytes ≤ a.pending.length) || a.streamDone) then a.trimHead loud
      else a) = b ∧
      (b = { a with pending := a.pending.drop k, headTrimmed := trimmed } ∧
        Kept loud held b taken n' sent tail) ∧
      (held b.pending ∨ sent = [] ∧ ∃ first ≤ n', held (taken.drop first)) ∧
      (b.headTrimmed = false → (b.streamDone = true → b.pending = []) ∧
        (b.bufferTo = 0 → b.pending.length < frameBytes)) := by
    split
    · next now =>
      have open' : a.headTrimmed = false := by simpa using (Bool.and_eq_true_iff.mp now).1
      obtain ⟨k, trimmed, same, kept, rest⟩ := trimHead_kept stream.kept open' here
      obtain ⟨unsent, untouched, -, -, -, -⟩ := stream.kept.ready open'
      have buffered : taken.drop n = a.pending := by simpa [unsent, untouched] using stream.kept.balance
      refine ⟨k, trimmed, _, n + k, rfl, ⟨same, same ▸ kept⟩,
        .inr ⟨unsent, n, Nat.le_add_right n k, buffered.symm ▸ here⟩, ?_⟩
      rw [same]
      intro open''
      obtain ⟨ends, t, trims, short⟩ := rest open''
      refine ⟨fun done => ?_, fun none' => ?_⟩
      · show a.pending.drop k = []
        rw [ends done, List.drop_nil]
      · obtain ⟨-, -, -, t', trims', some' | small | ⟨done, empty⟩⟩ := stream.kept.ready open'
        · have none' : a.bufferTo = 0 := none'
          omega
        · rw [trims] at trims'
          obtain rfl := Option.some.inj trims'
          exact short.trans_lt small
        · show (a.pending.drop k).length < frameBytes
          rw [empty, List.drop_nil]
          decide
    · next later =>
      refine ⟨0, a.headTrimmed, a, n, rfl, ⟨by rw [List.drop_zero], stream.kept⟩, .inl here,
        fun open' => ?_⟩
      simp only [open', Bool.not_false, Bool.true_and, Bool.or_eq_true, decide_eq_true_eq, not_or]
        at later
      exact ⟨fun done => absurd done later.2, fun none' => by omega⟩
  rw [head] at trims
  obtain ⟨same, kept⟩ := kept
  -- the tail
  obtain ⟨m, trimmed', tail', tails, kept'⟩ := trimTail_kept kept (fun open' => (ready open').1) here'
  rw [tails] at trims
  rw [← trims] at kept'
  have pending : a'.pending = (a.pending.drop k).take m := by rw [trims, same]
  have source : a'.source = a.source := by rw [trims, same]
  have done : a'.streamDone = a.streamDone := by rw [trims, same]
  have short : a'.pending.length ≤ a.pending.length := by
    rw [pending, List.length_take, List.length_drop]
    omega
  refine ⟨n', tail',
    ⟨source.trans stream.source, stream.closed, done ▸ stream.fed, kept', stream.framed, ?_⟩, ?_⟩
  · refine stream.full.imp_right fun ⟨ends, none'⟩ => ⟨done.trans ends, ?_⟩
    rw [none'] at short
    exact List.length_eq_zero_iff.mp (Nat.le_zero.mp short)
  · intro open'
    have open'' : b.headTrimmed = false := by
      rw [trims] at open'
      exact open'
    obtain ⟨ends, none'⟩ := ready open''
    rw [trims]
    refine ⟨fun done => ?_, fun buffer => ?_⟩
    · show b.pending.take m = []
      rw [ends done, List.take_nil]
    · exact (List.length_take_le' m b.pending).trans_lt (none' buffer)

/-- **A frame is taken of a stream**, or nothing is sent. -/
theorem takeFrame_stream (stream : Stream loud held whole a frames c taken n sent tail)
    (head : a.headTrimmed = false → a.pending.length < frameBytes ∧
      (a.streamDone = true → a.pending = [])) :
    ∃ sent', Stream loud held whole a.takeFrame.2 (frames ++ a.takeFrame.1.toList) c taken n sent' tail ∧
      (a.takeFrame.1 ≠ none → a.takeFrame.2.headTrimmed = true) := by
  obtain ⟨chunk, bufferTo, same, kept, front, short, sends⟩ := takeFrame_kept stream.kept head
  have full : chunk ≠ [] → sent.length = frames.length * frameBytes := fun some' =>
    stream.full.resolve_right fun ⟨_, empty⟩ => some' (List.prefix_nil.mp (empty ▸ front))
  rw [same]
  refine ⟨sent ++ chunk, ⟨stream.source, stream.closed, stream.fed, kept, ?_, ?_⟩, ?_⟩
  · dsimp only
    split
    · next none' => simpa [none'] using stream.framed
    · next some' => exact stream.framed.concat (full some') some' short
  · dsimp only
    split
    · next none' => simpa [none'] using stream.full
    · next some' =>
      by_cases small : chunk.length < frameBytes
      · obtain ⟨ends, all⟩ := (sends some').2 small
        exact .inr ⟨ends, by rw [← all, List.drop_length]⟩
      · left
        rw [Option.toList_some, List.length_append, List.length_append, List.length_singleton,
          Nat.add_mul, full some']
        omega
  · intro some'
    refine (sends fun none' => some' ?_).1
    rw [if_pos none']

/-- **A turn of a stream**: what comes next of it is sent, or nothing is. -/
theorem nextFrame_stream (stream : Stream loud held whole a frames c taken n sent tail)
    (asked : held a.asked) :
    ∃ c' taken' n' sent' tail',
    Stream loud held whole (a.nextFrame loud).2
    (frames ++ (a.nextFrame loud).1.toList) c' taken' n' sent' tail' ∧
      ((a.nextFrame loud).1 ≠ none → (a.nextFrame loud).2.headTrimmed = true) := by
  obtain ⟨arrived, chunk, done, drained, buffered⟩ := drain_stream stream (max a.bufferTo frameBytes)
  obtain ⟨n', tail', ended, ready⟩ := trimmed_stream buffered asked rfl
  unfold Active.nextFrame
  rw [stream.source]
  dsimp only
  generalize Active.trimTail loud _ = b at ended ready ⊢
  split
  · split
    · exact ⟨_, _, n', sent, tail', by simpa using ended, fun some' => absurd rfl some'⟩
    · next waiting go =>
      have ends : b.headTrimmed = false → b.streamDone = true := by
        intro open'
        simpa [open'] using go
      have emptied : Stream loud held whole { b with bufferTo := 0 } frames ⟨arrived, c.closed⟩
        (taken ++ chunk) n' sent
          tail' := by
        refine ⟨ended.source, ended.closed, ended.fed,
          ⟨ended.kept.inside, ended.kept.balance, ended.kept.head,
          ended.kept.after, fun open' => ?_⟩, ended.framed, ended.full⟩
        obtain ⟨none', none'', begun, t, trims, -⟩ := ended.kept.ready open'
        exact ⟨none', none'', begun, t, trims, .inr (.inr ⟨ends open', (ready open').1 (ends open')⟩)⟩
      obtain ⟨sent', taken', frame⟩ := takeFrame_stream emptied fun open' => by
        have none' := (ready open').1 (ends open')
        exact ⟨by rw [show b.pending = [] from none']; decide, fun _ => none'⟩
      exact ⟨_, _, n', sent', tail', taken', frame⟩
  · next empty =>
    obtain ⟨sent', taken', frame⟩ := takeFrame_stream ended fun open' =>
      ⟨(ready open').2 (by omega), (ready open').1⟩
    exact ⟨_, _, n', sent', tail', taken', frame⟩

/-- The stream that starts. -/
theorem new_stream {item : PlayItem} (source : item.source = .stream c) (cfg : PlayoutConfig)
    (continuation : Bool)
    (first : HeadFirst cfg continuation) :
    Stream loud held c (Active.new loud item cfg continuation) [] c [] 0 [] [] := by
  have fresh : Active.new loud item cfg continuation =
      { id := item.id, source := .stream c, offset := 0, pending := [], gainDb := item.gainDb,
        started := false, streamDone := false, bufferTo := cfg.bufferMs continuation * bytesPerMs,
        rebufferBytes := cfg.rebufferMs * bytesPerMs, trim := cfg.trim, headTrimmed := cfg.trim.isNone,
        tailTrimmed := false } := by
    unfold Active.new
    rw [source]
    rfl
  rw [fresh]
  refine ⟨rfl, rfl, @Fed.going c.arrived c [] rfl,
    ⟨Nat.le_refl 0, rfl, ?_, nofun, fun open' => ⟨rfl, rfl, rfl, ?_⟩⟩, .nil, .inl rfl⟩
  · show HeadOf loud held cfg.trim [] 0
    cases cfg.trim with
    | none => rfl
    | some t => exact HeadCut.start
  · obtain ⟨t, trims⟩ := Option.isSome_iff_exists.mp (by simpa using open')
    refine ⟨t, trims, (first t trims).imp (fun some' => ?_) fun small => .inl ?_⟩
    · exact Nat.mul_pos some' (by decide)
    · show t.padMs * bytesPerMs < frameBytes
      unfold frameMs at small
      unfold bytesPerMs frameBytes
      omega

end Streams

section Clips

variable (loud : ℚ → List UInt8 → Bool)

/-- What is cut off of a clip before its frames: quiet windows of all of it. -/
def ClipHead (trim : Option TrimConfig) (given : List UInt8) (n : ℕ) : Prop :=
  match trim with
  | none => n = 0
  | some t => ∀ i < n, QuietAt loud t.thresholdRms given i

/-- What is cut off of a clip after its frames. -/
def ClipTail (trim : Option TrimConfig) (given : List UInt8) (n : ℕ) : Prop :=
  match trim with
  | none => n = given.length
  | some t => ∀ i, n ≤ i → i < given.length → QuietAt loud t.thresholdRms given i

/-- **A clip of which these frames were sent**: what plays of it is a part of the audio. -/
structure Clip (given : List UInt8) (a : Active) (frames : List (List UInt8)) (trim : Option TrimConfig)
    (clip : List UInt8) (n : ℕ) : Prop where
  source : a.source = .clip clip
  inside : n + clip.length ≤ given.length
  part : (given.drop n).take clip.length = clip
  head : ClipHead loud trim given n
  tail : ClipTail loud trim given (n + clip.length)
  offset : a.offset ≤ clip.length
  framed : Framed frames (clip.take a.offset)
  full : a.offset = frames.length * frameBytes ∨ a.offset = clip.length

variable {loud} {given clip : List UInt8} {a : Active} {frames : List (List UInt8)}
    {trim : Option TrimConfig} {n : ℕ}

/-- A part of the audio, of which nothing was sent. -/
theorem Clip.start (source : a.source = .clip clip) (offset : a.offset = 0)
    (inside : n + clip.length ≤ given.length)
    (part : (given.drop n).take clip.length = clip) (head : ClipHead loud trim given n)
    (tail : ClipTail loud trim given (n + clip.length)) : Clip loud given a [] trim clip n where
  source := source
  inside := inside
  part := part
  head := head
  tail := tail
  offset := by rw [offset]; exact Nat.zero_le _
  framed := by rw [offset, List.take_zero]; exact .nil
  full := .inl offset

/-- The clip that starts. -/
theorem new_clip {item : PlayItem} (source : item.source = .clip given) (cfg : PlayoutConfig)
    (continuation : Bool) :
    ∃ clip n, Clip loud given (Active.new loud item cfg continuation) [] cfg.trim clip n := by
  have head : ClipHead loud cfg.trim given 0 := by
    cases cfg.trim with
    | none => rfl
    | some t => exact nofun
  have all : ClipTail loud cfg.trim given (0 + given.length) := by
    cases cfg.trim with
    | none => exact Nat.zero_add _
    | some t => exact fun i late inside => absurd inside (by omega)
  have part : (given.drop 0).take given.length = given := by rw [List.drop_zero, List.take_length]
  unfold Active.new
  rw [source]
  cases trims : cfg.trim with
  | none =>
    rw [trims] at head all
    exact ⟨given, 0, .start rfl rfl (Nat.le_of_eq (Nat.zero_add _)) part head all⟩
  | some t =>
    rw [trims] at head all
    cases bounds : speechBounds loud given t with
    | none =>
      exact ⟨given, 0, .start (by simp only [bounds]) rfl (Nat.le_of_eq (Nat.zero_add _)) part head all⟩
    | some found =>
      obtain ⟨start, stop⟩ := found
      obtain ⟨ordered, inside⟩ := speechBounds_inside loud bounds
      obtain ⟨before, after⟩ := speechBounds_quiet bounds
      have size : ((given.drop start).take (stop - start)).length = stop - start := by
        rw [List.length_take, List.length_drop]
        omega
      refine ⟨(given.drop start).take (stop - start), start,
        .start (by simp only [bounds]) rfl ?_ ?_ ?_ ?_⟩
      · rw [size]
        omega
      · rw [size]
      · exact before
      · rw [size]
        exact fun i late within => after i (by omega) within

/-- **A turn of a clip.** -/
theorem nextFrame_clip (playing : Clip loud given a frames trim clip n) :
    Clip loud given (a.nextFrame loud).2 (frames ++ (a.nextFrame loud).1.toList) trim clip n := by
  unfold Active.nextFrame
  rw [playing.source]
  dsimp only
  split
  · simpa using playing
  · next more =>
    have chunk : clip.take (min (a.offset + frameBytes) clip.length) =
        clip.take a.offset ++ (clip.take (min (a.offset + frameBytes) clip.length)).drop a.offset := by
      conv_lhs =>
        rw [← List.take_append_drop a.offset (clip.take (min (a.offset + frameBytes) clip.length))]
      rw [List.take_take, Nat.min_eq_left (by omega)]
    have size : ((clip.take (min (a.offset + frameBytes) clip.length)).drop a.offset).length =
        min (a.offset + frameBytes) clip.length - a.offset := by
      rw [List.length_drop, List.length_take, Nat.min_eq_left (Nat.min_le_right _ _)]
    have full : a.offset = frames.length * frameBytes := playing.full.resolve_right (by omega)
    have some' : 0 < frameBytes := by decide
    refine ⟨rfl, playing.inside, playing.part, playing.head, playing.tail, Nat.min_le_right _ _, ?_, ?_⟩
    · have next : Framed
          (frames ++
            [Active.padded ((clip.take (min (a.offset + frameBytes) clip.length)).drop a.offset)])
          (clip.take a.offset ++
            (clip.take (min (a.offset + frameBytes) clip.length)).drop a.offset) := by
        refine playing.framed.concat ?_ ?_ ?_
        · rw [List.length_take, Nat.min_eq_left playing.offset, full]
        · rw [← List.length_pos_iff, size]
          omega
        · rw [size]
          omega
      rwa [← chunk] at next
    · show min (a.offset + frameBytes) clip.length = _ ∨ min (a.offset + frameBytes) clip.length = _
      rw [Option.toList_some, List.length_append, List.length_singleton, Nat.add_mul, ← full]
      omega

end Clips

section Items

variable (loud : ℚ → List UInt8 → Bool) (held : List UInt8 → Prop)

/-- All that came of a source. -/
def Source.given : Source → List UInt8
  | .clip bytes => bytes
  | .stream channel => audioOf channel.arrived

/-- An item that plays: what came of its source, how it stands, and the frames that were sent. -/
def Plays (trim : Option TrimConfig) (whole : Source) (a : Active) (frames : List (List UInt8)) : Prop :=
  a.trim = trim ∧ match whole with
  | .clip given => ∃ clip n, Clip loud given a frames trim clip n
  | .stream channel => ∃ c taken n sent tail, Stream loud held channel a frames c taken n sent tail

/-- **The frames of an item are a slice of its audio.** What was cut off before it is quiet; once
the item is over, so is what is cut off after it. Where nothing is trimmed, nothing is cut off. -/
def Sliced (trim : Option TrimConfig) (source : Source) (frames : List (List UInt8))
    (complete : Bool) : Prop :=
  ∃ n len, n + len ≤ source.given.length ∧ Framed frames ((source.given.drop n).take len) ∧
    match source with
    | .clip given => ClipHead loud trim given n ∧ (complete = true → ClipTail loud trim given (n + len))
    | .stream _ => HeadOf loud held trim source.given n ∧
      (complete = true → TailOf loud held trim source.given n (n + len))

variable {loud held} {trim : Option TrimConfig} {whole : Source} {a : Active} {frames : List (List UInt8)}

/-- What is not over need not be known to be. -/
theorem Sliced.mono {complete less : Bool} (sliced : Sliced loud held trim whole frames complete)
    (less' : less = true → complete = true) : Sliced loud held trim whole frames less := by
  obtain ⟨n, len, inside, framed, cut⟩ := sliced
  refine ⟨n, len, inside, framed, ?_⟩
  cases whole <;> exact ⟨cut.1, fun ends => cut.2 (less' ends)⟩

/-- **An item that plays is a slice.** -/
theorem Plays.sliced (plays : Plays loud held trim whole a frames) :
    Sliced loud held trim whole frames a.done := by
  obtain ⟨trims, plays⟩ := plays
  cases whole with
  | clip given =>
    obtain ⟨clip, n, playing⟩ := plays
    refine ⟨n, a.offset, (Nat.add_le_add_left playing.offset n).trans playing.inside, ?_,
      playing.head, fun done => ?_⟩
    · have part : (given.drop n).take a.offset = clip.take a.offset := by
        rw [← playing.part, List.take_take, Nat.min_eq_left playing.offset]
      show Framed frames ((given.drop n).take a.offset)
      rw [part]
      exact playing.framed
    · unfold Active.done at done
      rw [playing.source] at done
      have all : a.offset = clip.length := Nat.le_antisymm playing.offset (of_decide_eq_true done)
      rw [all]
      exact playing.tail
  | stream channel =>
    obtain ⟨c, taken, n, sent, tail, playing⟩ := plays
    have kept := playing.kept
    have long := congrArg List.length kept.balance
    rw [List.length_drop, List.length_append, List.length_append] at long
    have inside := kept.inside
    have front := playing.fed.front
    have short := front.length_le
    have slice : ((audioOf channel.arrived).drop n).take sent.length = sent := by
      obtain ⟨more, same⟩ := front
      rw [← same, List.drop_append_of_le_length inside, kept.balance, List.append_assoc,
        List.append_assoc,
        List.take_left]
    refine ⟨n, sent.length, by show n + sent.length ≤ (audioOf channel.arrived).length; omega, ?_,
      ?_, fun done => ?_⟩
    · show Framed frames (((audioOf channel.arrived).drop n).take sent.length)
      rw [slice]
      exact playing.framed
    · have head := kept.head
      rw [trims] at head
      exact head.of_prefix front
    · unfold Active.done at done
      rw [playing.source] at done
      obtain ⟨ends, empty⟩ : a.streamDone = true ∧ a.pending = [] := by simpa using done
      have fed := playing.fed
      rw [ends] at fed
      show TailOf loud held trim (audioOf channel.arrived) n (n + sent.length)
      rw [← fed.complete]
      by_cases none' : tail = []
      · refine .inl ?_
        rw [empty, none'] at long
        simp only [List.length_nil, Nat.add_zero] at long
        omega
      · have cut := (kept.after none').2.2
        rwa [empty, List.length_nil, Nat.add_zero, trims] at cut

/-- A head that is trimmed does not mind a start. -/
theorem Stream.start {c channel : Channel} {taken sent tail : List UInt8} {n : ℕ}
    (stream : Stream loud held channel a frames c taken n sent tail) (trimmed : a.headTrimmed = true) :
    Stream loud held channel { a with started := true } frames c taken n sent tail where
  source := stream.source
  closed := stream.closed
  fed := stream.fed
  kept := ⟨stream.kept.inside, stream.kept.balance, stream.kept.head, stream.kept.after, fun open' => by
    have open' : a.headTrimmed = false := open'
    rw [trimmed] at open'
    cases open'⟩
  framed := stream.framed
  full := stream.full

/-- A clip is told by its source and how far it is. -/
theorem Clip.congr {given clip : List UInt8} {n : ℕ}
    (playing : Clip loud given a frames trim clip n) {b : Active}
    (source : b.source = a.source) (offset : b.offset = a.offset) :
    Clip loud given b frames trim clip n where
  source := source.trans playing.source
  inside := playing.inside
  part := playing.part
  head := playing.head
  tail := playing.tail
  offset := offset ▸ playing.offset
  framed := offset ▸ playing.framed
  full := offset ▸ playing.full

/-- **An item that starts plays.** -/
theorem Plays.new {item : PlayItem} {cfg : PlayoutConfig} {continuation : Bool}
    (first : ∀ channel, item.source = .stream channel → HeadFirst cfg continuation) :
    Plays loud held cfg.trim item.source (Active.new loud item cfg continuation) [] := by
  refine ⟨rfl, ?_⟩
  cases source : item.source with
  | clip given => exact new_clip source cfg continuation
  | stream channel =>
    exact ⟨channel, [], 0, [], [], new_stream source cfg continuation (first channel source)⟩

/-- **A turn**: the frame that is sent, if any, is the next of the slice. -/
theorem Plays.frame (plays : Plays loud held trim whole a frames) (asked : held a.asked) :
    match a.nextFrame loud with
    | (some frame, a') => Plays loud held trim whole { a' with started := true } (frames ++ [frame])
    | (none, a') => Plays loud held trim whole a' frames := by
  obtain ⟨trims, plays⟩ := plays
  have same := (nextFrame_keeps loud a).trim.trans trims
  cases whole with
  | clip given =>
    obtain ⟨clip, n, playing⟩ := plays
    have next := nextFrame_clip playing
    rcases turn : a.nextFrame loud with ⟨frame | _, a'⟩ <;> rw [turn] at same next
    · exact ⟨same, clip, n, by simpa using next⟩
    · exact ⟨same, clip, n, next.congr rfl rfl⟩
  | stream channel =>
    obtain ⟨c, taken, n, sent, tail, playing⟩ := plays
    obtain ⟨c', taken', n', sent', tail', next, trimmed⟩ := nextFrame_stream playing asked
    rcases turn : a.nextFrame loud with ⟨frame | _, a'⟩ <;> rw [turn] at same next trimmed
    · exact ⟨same, c', taken', n', sent', tail', by simpa using next⟩
    · exact ⟨same, c', taken', n', sent', tail', next.start (trimmed nofun)⟩

/-- Waiting for data. -/
theorem Plays.wait (plays : Plays loud held trim whole a frames) :
    Plays loud held trim whole (a.waitForData.getD a) frames := by
  obtain ⟨trims, plays⟩ := plays
  refine ⟨(waitForData_keeps a).trim.trans trims, ?_⟩
  cases whole with
  | clip given =>
    obtain ⟨clip, n, playing⟩ := plays
    have idle : a.waitForData = none := by
      unfold Active.waitForData
      rw [playing.source]
    rw [idle]
    exact ⟨clip, n, playing⟩
  | stream channel =>
    obtain ⟨c, taken, n, sent, tail, playing⟩ := plays
    obtain ⟨c', taken', next⟩ := waitForData_stream playing
    exact ⟨c', taken', n, sent, tail, next⟩

/-- Counting what is left takes all there is. -/
theorem Plays.count (plays : Plays loud held trim whole a frames) :
    Plays loud held trim whole a.remaining.2 frames := by
  obtain ⟨trims, plays⟩ := plays
  refine ⟨(remaining_keeps a).trim.trans trims, ?_⟩
  unfold Active.remaining
  cases whole with
  | clip given =>
    obtain ⟨clip, n, playing⟩ := plays
    rw [playing.source]
    exact ⟨clip, n, playing⟩
  | stream channel =>
    obtain ⟨c, taken, n, sent, tail, playing⟩ := plays
    obtain ⟨arrived, chunk, done, -, next⟩ := drain_stream playing usizeMax
    rw [playing.source]
    exact ⟨_, _, n, sent, tail, next⟩

/-- Something arrives. -/
theorem Plays.arrive (plays : Plays loud held trim whole a frames) (arrival : Arrival) :
    Plays loud held trim (whole.take arrival) { a with source := a.source.take arrival } frames := by
  obtain ⟨trims, plays⟩ := plays
  refine ⟨trims, ?_⟩
  cases whole with
  | clip given =>
    obtain ⟨clip, n, playing⟩ := plays
    exact ⟨clip, n, playing.congr (by rw [playing.source]; rfl) rfl⟩
  | stream channel =>
    obtain ⟨c, taken, n, sent, tail, playing⟩ := plays
    exact ⟨c.take arrival, taken, n, sent, tail, arrive_stream playing arrival⟩

end Items

end Callora.Audio
