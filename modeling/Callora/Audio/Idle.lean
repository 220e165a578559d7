/-
**Every reply's end is reported.**

`Idle` follows the last end of an item where that end found `Idle` still to be reported, and an item
that has something to send sends a frame before it ends.

- `Active.left`, `Active.whole`: the bytes of an item that are there, and whether more may come; an
  item is spent (`Active.spent`) where nothing is left and nothing comes;
- `nextFrame_sounds`: an item that is not spent sends a frame, or goes on;
- `Player.Sounds`: what a step may find: `Idle` to be reported, or an item to send next that is not spent;
- `replies_reported`: every item has one report of its end in every run, and in a run whose steps
  find that, `Idle` comes after the last one once nothing is left to play.

An item that ends without a frame, while nothing else is to be reported, is not followed by `Idle`
(`failedStream_noIdle`).
-/
import Callora.Audio.Replies
import Callora.Audio.Slices

set_option linter.unusedSectionVars false

namespace Callora.Audio

open Runs

section Left

/-- No more comes over a channel than is there: it is closed, or an error is in it. -/
def Channel.over (c : Channel) : Bool := c.closed || c.arrived.any fun item => !item.isOk

namespace Active

/-- The bytes of the item that are there and were not sent. -/
def left (a : Active) : List UInt8 :=
  match a.source with
  | .clip clip => clip.drop a.offset
  | .stream c => a.pending ++ if a.streamDone then [] else audioOf c.arrived

/-- All of the item is there. -/
def whole (a : Active) : Bool :=
  match a.source with
  | .clip _ => true
  | .stream c => a.streamDone || c.over

/-- Nothing of the item is left to send, and nothing comes. -/
def spent (a : Active) : Bool := a.whole && a.left.isEmpty

end Active

/-- The item holds nothing, and nothing comes. -/
def PlayItem.spent (item : PlayItem) : Bool :=
  match item.source with
  | .clip clip => clip.isEmpty
  | .stream c => c.over && (audioOf c.arrived).isEmpty

variable (loud : ℚ → List UInt8 → Bool) {a : Active}

/-- **Draining a channel** leaves what is there of it, and whether that is all. -/
theorem drainFrom_left (upTo : ℕ) (closed : Bool) {arrived arrived' : List (Except String (List UInt8))}
    {pending pending' : List UInt8} {done done' : Bool}
    (drained : Active.drainFrom upTo closed arrived pending done = (arrived', pending', done')) :
    (pending' ++ if done' then [] else audioOf arrived') =
    (pending ++ if done then [] else audioOf arrived) ∧
      (done' || Channel.over ⟨arrived', closed⟩) = (done || Channel.over ⟨arrived, closed⟩) := by
  induction arrived generalizing pending done with
  | nil =>
    obtain ⟨rfl, rfl, rfl⟩ : [] = arrived' ∧ pending = pending' ∧ _ = done' := by
      simpa [Active.drainFrom] using drained
    constructor
    · simp [audioOf]
    · split
      · cases done <;> cases closed <;> rfl
      · rfl
  | cons item rest ih =>
    unfold Active.drainFrom at drained
    split at drained
    · next more =>
      obtain rfl : done = false := by simpa using (Bool.and_eq_true_iff.mp more).2
      cases item with
      | ok chunk =>
        obtain ⟨left, whole⟩ := ih drained
        refine ⟨left.trans ?_, whole.trans ?_⟩
        · simp [audioOf]
        · rfl
      | error text =>
        obtain ⟨rfl, rfl, rfl⟩ := Prod.mk.inj drained |>.imp_right Prod.mk.inj
        refine ⟨by simp [audioOf], ?_⟩
        cases closed <;> rfl
    · obtain ⟨rfl, rfl, rfl⟩ := Prod.mk.inj drained |>.imp_right Prod.mk.inj
      exact ⟨rfl, rfl⟩

/-- A channel that gives less than was asked for has no more. -/
theorem drainFrom_short (upTo : ℕ) (closed : Bool) {arrived arrived' : List (Except String (List UInt8))}
    {pending pending' : List UInt8} {done done' : Bool}
    (drained : Active.drainFrom upTo closed arrived pending done = (arrived', pending', done'))
    (short : pending'.length < upTo) : done' = true ∨ arrived' = [] ∧ closed = false := by
  induction arrived generalizing pending done with
  | nil =>
    obtain ⟨rfl, rfl, rfl⟩ : [] = arrived' ∧ pending = pending' ∧ _ = done' := by
      simpa [Active.drainFrom] using drained
    rw [if_pos short]
    cases closed <;> simp
  | cons item rest ih =>
    unfold Active.drainFrom at drained
    split at drained
    · cases item with
      | ok chunk => exact ih drained
      | error text =>
        obtain ⟨-, -, rfl⟩ := Prod.mk.inj drained |>.imp_right Prod.mk.inj
        exact .inl rfl
    · next stops =>
      obtain ⟨-, rfl, rfl⟩ := Prod.mk.inj drained |>.imp_right Prod.mk.inj
      exact .inl (by simpa [short] using stops)

@[simp] theorem drain_left (a : Active) (upTo : ℕ) : (a.drain upTo).left = a.left := by
  unfold Active.drain Active.left
  cases source : a.source with
  | clip clip => simp only [source]
  | stream c => exact (drainFrom_left upTo c.closed rfl).1

@[simp] theorem drain_whole (a : Active) (upTo : ℕ) : (a.drain upTo).whole = a.whole := by
  unfold Active.drain Active.whole
  cases source : a.source with
  | clip clip => simp only [source]
  | stream c => exact (drainFrom_left upTo c.closed rfl).2

@[simp] theorem drain_spent (a : Active) (upTo : ℕ) : (a.drain upTo).spent = a.spent := by
  rw [Active.spent, drain_left, drain_whole, Active.spent]

/-- Waiting for data takes what is there. -/
theorem waitForData_spent (a : Active) : (a.waitForData.getD a).spent = a.spent := by
  unfold Active.waitForData
  cases source : a.source with
  | clip clip => rfl
  | stream c =>
    obtain ⟨arrived, closed⟩ := c
    dsimp only
    split
    · rfl
    · next going =>
      have going : a.streamDone = false := by simpa using going
      cases arrived with
      | nil =>
        cases closed
          <;> simp [Active.spent, Active.left, Active.whole, source, going, audioOf, Channel.over]
      | cons item rest =>
        cases item <;>
          simp [Active.spent, Active.left, Active.whole, source, going, audioOf, Channel.over,
            Except.isOk, Except.toBool]

/-- An item that is done is spent. -/
theorem spent_of_done (done : a.done) : a.spent := by
  unfold Active.done at done
  unfold Active.spent Active.left Active.whole
  cases source : a.source with
  | clip clip => simpa [source] using done
  | stream c =>
    obtain ⟨ends, empty⟩ : a.streamDone = true ∧ a.pending = [] := by simpa [source] using done
    simp [ends, empty]

/-- What is buffered when the stream is over stays some audio when its head is trimmed. -/
theorem trimHead_some (ends : a.streamDone = true) (some' : a.pending ≠ []) :
    (a.trimHead loud).pending ≠ [] := by
  unfold Active.trimHead
  split
  · exact some'
  · next t trims =>
    split
    · exact some'
    · split
      · next start stop bounds =>
        obtain ⟨ordered, inside⟩ := speechBounds_inside loud bounds
        show a.pending.drop start ≠ []
        rw [ne_eq, List.drop_eq_nil_iff]
        omega
      · exact some'

/-- So it does when its tail is trimmed. -/
theorem trimTail_some (some' : a.pending ≠ []) : (a.trimTail loud).pending ≠ [] := by
  unfold Active.trimTail
  split
  · exact some'
  · next t trims =>
    split
    · exact some'
    · dsimp only
      split
      · next start stop bounds =>
        obtain ⟨ordered, inside⟩ := speechBounds_inside loud bounds
        rw [ne_eq, List.take_eq_nil_iff]
        rintro (none' | none')
        · omega
        · exact some' none'
      · exact some'

/-- Trimming the head leaves the channel, and whether the stream is over. -/
theorem trimHead_source (a : Active) :
    (a.trimHead loud).source = a.source ∧ (a.trimHead loud).streamDone = a.streamDone := by
  unfold Active.trimHead
  split
  · exact ⟨rfl, rfl⟩
  · split
    · exact ⟨rfl, rfl⟩
    · split
      · exact ⟨rfl, rfl⟩
      · split <;> exact ⟨rfl, rfl⟩

/-- So does trimming the tail. -/
theorem trimTail_source (a : Active) :
    (a.trimTail loud).source = a.source ∧ (a.trimTail loud).streamDone = a.streamDone := by
  unfold Active.trimTail
  split
  · exact ⟨rfl, rfl⟩
  · split <;> exact ⟨rfl, rfl⟩

/-- A frame is taken, or the stream goes on, where something is buffered once it is over. -/
theorem takeFrame_sounds {c : Channel} (source : a.source = .stream c)
    (some' : a.streamDone = true → a.pending ≠ []) (none' : a.takeFrame.1 = none) :
    a.takeFrame.2.done = false := by
  unfold Active.takeFrame at none' ⊢
  split at none'
  · cases none'
  · next short =>
    rw [if_neg short]
    split at none'
    · cases none'
    · next rest =>
      rw [if_neg rest]
      have going : a.streamDone = false := by
        by_contra ends
        rw [Bool.not_eq_false] at ends
        exact rest (by simpa [ends] using some' ends)
      dsimp only
      split <;> simp [Active.done, source, going]

/-- **An item that is not spent sends a frame, or goes on.** -/
theorem nextFrame_sounds (open' : a.spent = false) (none' : (a.nextFrame loud).1 = none) :
    (a.nextFrame loud).2.done = false := by
  unfold Active.nextFrame at none' ⊢
  cases source : a.source with
  | clip clip =>
    rw [source] at none'
    dsimp only at none'
    split at none'
    · next ended =>
      have spent : a.spent = true := by
        simpa [Active.spent, Active.left, Active.whole, source] using ended
      rw [open'] at spent
      cases spent
    · cases none'
  | stream c =>
    rw [source] at none'
    dsimp only at none' ⊢
    have drained := drain_spent a (max a.bufferTo frameBytes)
    obtain ⟨c', source'⟩ : ∃ c', (a.drain (max a.bufferTo frameBytes)).source = .stream c' := by
      unfold Active.drain
      rw [source]
      exact ⟨_, rfl⟩
    generalize a.drain (max a.bufferTo frameBytes) = b at none' drained source' ⊢
    generalize trimmed : Active.trimTail loud _ = f at none' ⊢
    -- what is there once the stream is over is not nothing, and stays so when the ends are trimmed
    have buffered : b.streamDone = true → b.pending ≠ [] := by
      intro ends empty
      have spent : b.spent = true := spent_of_done (by simp [Active.done, source', ends, empty])
      rw [drained, open'] at spent
      cases spent
    obtain ⟨source', ended⟩ : f.source = .stream c' ∧ (f.streamDone = true → f.pending ≠ []) := by
      rw [← trimmed, (trimTail_source loud _).1, (trimTail_source loud _).2]
      split
      · rw [(trimHead_source loud b).1, (trimHead_source loud b).2]
        exact ⟨source', fun ends => trimTail_some loud (trimHead_some loud ends (buffered ends))⟩
      · exact ⟨source', fun ends => trimTail_some loud (buffered ends)⟩
    split at none'
    · next waits =>
      rw [if_pos waits]
      split at none'
      · next waits' =>
        rw [if_pos waits']
        have going : f.streamDone = false := by simpa using (Bool.and_eq_true_iff.mp waits').2
        simp [Active.done, source', going]
      · next goes =>
        rw [if_neg goes]
        exact takeFrame_sounds source' ended none'
    · next starts =>
      rw [if_neg starts]
      exact takeFrame_sounds source' ended none'

/-- What plays of an item that is not spent is not spent. -/
theorem new_sounds {item : PlayItem} (open' : item.spent = false) (cfg : PlayoutConfig)
    (continuation : Bool) :
    (Active.new loud item cfg continuation).spent = false := by
  unfold PlayItem.spent at open'
  unfold Active.new
  cases source : item.source with
  | stream c =>
    rw [source] at open'
    exact open'
  | clip clip =>
    rw [source] at open'
    have some' : clip ≠ [] := by simpa using open'
    cases cfg.trim with
    | none => simpa [Active.spent, Active.left, Active.whole] using some'
    | some t =>
      cases bounds : speechBounds loud clip t with
      | none => simpa [Active.spent, Active.left, Active.whole, bounds] using some'
      | some found =>
        obtain ⟨start, stop⟩ := found
        obtain ⟨ordered, inside⟩ := speechBounds_inside loud bounds
        simp only [Active.spent, Active.left, Active.whole, bounds, List.drop_zero, Bool.true_and,
          List.isEmpty_eq_false_iff, ne_eq, List.take_eq_nil_iff, List.drop_eq_nil_iff]
        omega

end Left

section Heard

/-- Every end comes while `Idle` is still to be reported. -/
def EndsHeard : Bool → List Output → Prop
  | _, [] => True
  | start, o :: log => (o.isEnd → start = false) ∧ EndsHeard (o.idleAfter start) log

theorem heard_append {start : Bool} {log more : List Output} :
    EndsHeard start (log ++ more) ↔ EndsHeard start log ∧ EndsHeard (reported start log) more := by
  induction log generalizing start with
  | nil => exact ⟨fun heard => ⟨trivial, heard⟩, And.right⟩
  | cons o log ih => simp only [List.cons_append, EndsHeard, ih, and_assoc, reported, List.foldl_cons]

/-- Where nothing ends, there is nothing to hear. -/
theorem heard_of_noEnd {log : List Output} (noEnd : ended log = []) (start : Bool) :
    EndsHeard start log := by
  induction log generalizing start with
  | nil => trivial
  | cons o log ih =>
    have both : o.ends ++ ended log = [] := noEnd
    obtain ⟨first, rest⟩ := List.append_eq_nil_iff.mp both
    refine ⟨fun isEnd => ?_, ih rest _⟩
    simp [Output.isEnd, first] at isEnd

/-- As long as `Idle` is not reported, it is still to be. -/
theorem heard_of_open {log : List Output} (open' : .idle ∉ log) :
    EndsHeard false log ∧ reported false log = false := by
  induction log with
  | nil => exact ⟨trivial, rfl⟩
  | cons o log ih =>
    obtain ⟨first, rest⟩ := not_or.mp (mt List.mem_cons.mpr open')
    obtain ⟨heard, stays⟩ := ih rest
    have still : o.idleAfter false = false := by
      cases o with
      | idle => exact absurd rfl first
      | _ => rfl
    exact ⟨⟨fun _ => rfl, still.symm ▸ heard⟩, (congrArg (reported · log) still).trans stays⟩

theorem endHeard_of_heard {start : Bool} {log : List Output} (heard : EndsHeard start log) :
    EndHeard start log := by
  intro before after split
  obtain ⟨e, rfl, isEnd, -⟩ := lastEnd_some split
  exact (heard_append.mp heard).2.1 isEnd

/-- The last end of a log is that of its later part, or of the earlier one. -/
theorem lastEnd_append (log more : List Output) : lastEnd (log ++ more) =
    match lastEnd more with
    | some (before, after) => some (log ++ before, after)
    | none => (lastEnd log).map fun split => (split.1, split.2 ++ more) := by
  induction log with
  | nil =>
    rw [List.nil_append]
    cases lastEnd more <;> rfl
  | cons o log ih =>
    rw [List.cons_append, lastEnd, ih, lastEnd]
    cases lastEnd more with
    | some found => rfl
    | none =>
      cases lastEnd log with
      | some found => rfl
      | none => by_cases isEnd : o.isEnd <;> simp [isEnd]

theorem endHeard_append {start : Bool} {log more : List Output}
    (heard : EndHeard (reported start log) more)
    (before : lastEnd more = none → EndHeard start log) : EndHeard start (log ++ more) := by
  intro first after split
  rw [lastEnd_append] at split
  cases last : lastEnd more with
  | some found =>
    rw [last] at split
    obtain ⟨rfl, rfl⟩ := Prod.mk.inj (Option.some.inj split)
    rw [reported_append]
    exact heard _ _ last
  | none =>
    rw [last] at split
    obtain ⟨found, here, same⟩ := Option.map_eq_some_iff.mp split
    obtain ⟨rfl, -⟩ := Prod.mk.inj same
    exact before last _ _ here

end Heard

section Steps

namespace Player

variable (loud : ℚ → List UInt8 → Bool) {s : Player}

/-- The item to send next, the current one or the first of the queue, is spent. -/
def spent (s : Player) : Bool :=
  match s.current, s.queue with
  | some a, _ => a.spent
  | none, item :: _ => item.spent
  | none, [] => false

/-- A soft cancellation lets the current item finish, which has something to send: all of it is
there, and no more than what is protected. -/
def letsFinish (s : Player) (protectMs : ℕ) : Bool :=
  s.current.any fun a => !a.spent && a.whole && decide (a.left.length < usizeMax) &&
    decide (a.left.length / bytesPerMs + s.ahead * frameMs ≤ protectMs)

/-- **What an input finds**: `Idle` is still to be reported since the last frame; or else the item
to send next is not spent, and no cancellation drops an item. -/
def Sounds (s : Player) : Input → Prop
  | .wake _ (.enqueue item) =>
    s.idleReported = false ∨ ({ s with queue := s.queue ++ [item] } : Player).spent = false
  | .wake _ .cancel => s.idleReported = false ∨ s.held = []
  | .wake _ (.cancelSoft protectMs) => s.idleReported = false ∨ s.held = [] ∨ s.letsFinish protectMs
  | .wake _ .data | .wake _ .tick => s.idleReported = false ∨ s.spent = false
  | .arrive .. => True

instance (s : Player) : ∀ input, Decidable (s.Sounds input)
  | .wake _ (.enqueue _) => inferInstanceAs (Decidable (_ ∨ _))
  | .wake _ .cancel => inferInstanceAs (Decidable (_ ∨ _))
  | .wake _ (.cancelSoft _) => inferInstanceAs (Decidable (_ ∨ _ ∨ _))
  | .wake _ .data => inferInstanceAs (Decidable (_ ∨ _))
  | .wake _ .tick => inferInstanceAs (Decidable (_ ∨ _))
  | .arrive .. => inferInstanceAs (Decidable True)

/-- Nothing ends in a part of the loop that holds no item. -/
theorem Turn.noEnd {s' : Player} {out : List Output} (turn : Turn s out s') (empty : s.held = []) :
    ended out = [] := by
  have gone := turn.held
  rw [empty] at gone
  exact (List.append_eq_nil_iff.mp gone.eq_nil).1

theorem finish_noIdle (s : Player) : .idle ∉ s.finish.1 := by
  unfold finish
  split
  · split <;> simp
  · simp

/-- An item that is not spent is not done. -/
theorem finish_open_of (open' : s.spent = false) : s.finish = ([], s) := by
  unfold finish
  cases current : s.current with
  | none => rfl
  | some a =>
    have going : ¬a.done = true := fun done => by
      have spent : s.spent = true := by
        rw [spent, current]
        exact spent_of_done done
      rw [open'] at spent
      cases spent
    exact if_neg going

theorem takeNext_spent (open' : s.spent = false) : (s.takeNext loud).spent = false := by
  unfold takeNext
  cases current : s.current with
  | some a => exact open'
  | none =>
    cases queue : s.queue with
    | nil => exact open'
    | cons item rest =>
      have fresh : item.spent = false := by
        rw [spent, current, queue] at open'
        exact open'
      exact new_sounds loud fresh _ _

theorem send_noIdle (now : Instant) (s : Player) (a : Active) (frame : List UInt8) :
    .idle ∉ (s.send now a frame).1 := by
  obtain ⟨early, sent, plain⟩ := s.send_plain now a frame
  rw [sent]
  intro listed
  rcases List.mem_append.mp listed with before | last
  · cases plain _ before
  · cases List.mem_singleton.mp last

theorem turn_noIdle (now : Instant) (s : Player) : .idle ∉ (s.turn loud now).2.1 := by
  unfold turn
  split
  · simp
  · dsimp only
    split
    · exact s.finish_noIdle
    · split
      · exact fun listed => (List.mem_append.mp listed).elim s.finish_noIdle (send_noIdle now _ _ _)
      · exact s.finish_noIdle

/-- **A turn of the loop**: what ends is heard, and the loop goes on only after a frame was sent. -/
theorem turn_heard (now : Instant) (sounds : s.idleReported = false ∨ s.spent = false) :
    EndsHeard s.idleReported (s.turn loud now).2.1 ∧
      ((s.turn loud now).2.2.idleReported = false ∨
        (s.turn loud now).1 = false ∧ ∀ a, (s.turn loud now).2.2.current = some a → a.done = false) := by
  have idle := (s.turn_turn loud now).idle
  cases reported' : s.idleReported with
  | false =>
    obtain ⟨heard, stays⟩ := heard_of_open (s.turn_noIdle loud now)
    rw [reported', stays] at idle
    exact ⟨heard, .inl idle⟩
  | true =>
    have open' : s.spent = false := sounds.resolve_left (by rw [reported']; decide)
    clear idle
    unfold turn
    split
    · refine ⟨trivial, .inr ⟨rfl, fun a here => ?_⟩⟩
      by_contra done
      have spent : s.spent = true := by
        rw [spent, show s.current = some a from here]
        exact spent_of_done (by simpa using done)
      rw [open'] at spent
      cases spent
    · rw [finish_open_of open']
      have open' := takeNext_spent loud open'
      dsimp only
      generalize s.takeNext loud = t at open'
      cases current : t.current with
      | none => exact ⟨trivial, .inr ⟨rfl, fun a here => by simp [current] at here⟩⟩
      | some active =>
        rw [spent, current] at open'
        have goes := nextFrame_sounds loud open'
        dsimp only
        rcases next : active.nextFrame loud with ⟨frame | frame, a⟩
        · rw [next] at goes
          refine ⟨trivial, .inr ⟨goes rfl, fun a' here => ?_⟩⟩
          obtain rfl := Option.some.inj here
          exact goes rfl
        · obtain ⟨early, sent, plain⟩ := t.send_plain now a frame
          refine ⟨heard_of_noEnd ?_ _, .inl rfl⟩
          show ended (t.send now a frame).1 = []
          rw [sent, ended_append, (plain_log plain).1]
          rfl

/-- **What is sent ahead**: what ends is heard, and what plays then is not done, unless a frame was
sent. -/
theorem sendAhead_heard (now : Instant) (fuel : ℕ) (sounds : s.idleReported = false ∨ s.spent = false) :
    EndsHeard s.idleReported (s.sendAhead loud now fuel).1 ∧
    ((s.sendAhead loud now fuel).2.idleReported = false ∨
      ∀ a, (s.sendAhead loud now fuel).2.current = some a → a.done = false) := by
  induction fuel generalizing s with
  | zero =>
    refine ⟨trivial, sounds.imp_right fun open' a here => ?_⟩
    by_contra done
    have spent : s.spent = true := by
      rw [spent, show s.current = some a from here]
      exact spent_of_done (by simpa using done)
    rw [open'] at spent
    cases spent
  | succ fuel ih =>
    obtain ⟨heard, after⟩ := turn_heard loud now sounds
    have idle := (s.turn_turn loud now).idle
    unfold sendAhead
    dsimp only
    by_cases goesOn : (s.turn loud now).1 = true
    · rw [if_pos goesOn]
      have open' := after.resolve_right fun stops => by
        rw [goesOn] at stops
        cases stops.1
      obtain ⟨heard', after'⟩ := ih (.inl open')
      exact ⟨heard_append.mpr ⟨heard, idle ▸ heard'⟩, after'⟩
    · rw [if_neg goesOn]
      exact ⟨heard, after.imp_right And.right⟩

theorem reportIdle_noEnd (s : Player) : ended s.reportIdle.1 = [] := by
  unfold reportIdle
  dsimp only
  generalize (if s.current.isNone then { s with protectedItem := none } else s) = t
  split <;> rfl

/-- **What is sent and reported before the loop waits again.** -/
theorem settle_heard (now : Instant) (sounds : s.idleReported = false ∨ s.spent = false) :
    EndsHeard s.idleReported (s.settle loud now).1 := by
  obtain ⟨heard, after⟩ := sendAhead_heard loud now s.turns sounds
  have idle := (s.sendAhead_turn loud now s.turns).idle
  unfold settle
  dsimp only
  generalize s.sendAhead loud now s.turns = sent at heard after idle
  have ends : EndsHeard sent.2.idleReported sent.2.finish.1 := by
    rcases after with open' | going
    · rw [open']
      exact (heard_of_open sent.2.finish_noIdle).1
    · unfold finish
      split
      · next a here =>
        rw [if_neg (by rw [going a here]; decide)]
        trivial
      · trivial
  exact heard_append.mpr ⟨heard_append.mpr ⟨heard, idle ▸ ends⟩, heard_of_noEnd (reportIdle_noEnd _) _⟩

/-- What a cancellation counts of an item that is all there is what is left of it. -/
theorem remaining_left {a : Active} (whole : a.whole) (fits : a.left.length < usizeMax) :
    a.remaining.1 = (a.left.length, true) ∧ a.remaining.2.spent = a.spent := by
  have left := drain_left a usizeMax
  have whole' := drain_whole a usizeMax
  have spent := drain_spent a usizeMax
  unfold Active.remaining
  cases source : a.source with
  | clip clip => simp [Active.left, source]
  | stream c =>
    have drained := @drainFrom_short usizeMax c.closed c.arrived _ a.pending _ a.streamDone _ rfl
    dsimp only
    unfold Active.drain at left whole' spent ⊢
    rw [source] at left whole' spent ⊢
    dsimp only at left whole' spent ⊢
    generalize Active.drainFrom usizeMax c.closed c.arrived a.pending a.streamDone = r
      at left whole' spent drained ⊢
    have ends : r.2.2 = true := by
      have short : r.2.1.length < usizeMax := by
        rw [← left, Active.left, List.length_append] at fits
        exact Nat.lt_of_add_right_lt fits
      rcases drained short with ends | ⟨none', going⟩
      · exact ends
      · rw [whole] at whole'
        simpa [Active.whole, Channel.over, none', going] using whole'
    refine ⟨?_, spent⟩
    rw [← left, Active.left, ends]
    simp

/-- What is cancelled at once is heard, where `Idle` is still to be reported. -/
theorem cancelHard_heard (s : Player) (remainingMs : ℕ) (open' : s.idleReported = false) (now : Instant) :
    EndsHeard false
    ((s.cancelHard remainingMs).1 ++ ((s.cancelHard remainingMs).2.settle loud now).1) := by
  refine heard_append.mpr ⟨?_, heard_of_noEnd ((settle_turn loud now _).noEnd rfl) _⟩
  unfold cancelHard
  dsimp only
  refine heard_append.mpr ⟨(heard_of_open ?_).1, heard_of_noEnd ?_ _⟩
  · intro listed
    rcases List.mem_append.mp listed with clears | drops
    · split at clears
      · cases List.mem_singleton.mp clears
      · cases clears
    · split at drops
      · cases List.mem_singleton.mp drops
      · cases drops
  · rw [open']
    rfl

/-- So is what is cancelled of the queue. -/
theorem cancelQueue_heard (s : Player) (left queued : ℕ) (open' : s.idleReported = false)
    (now : Instant) :
    EndsHeard false
    ((s.cancelQueue left queued).1 ++ ((s.cancelQueue left queued).2.settle loud now).1) := by
  have silent : .idle ∉ (s.cancelQueue left queued).1 := by
    unfold cancelQueue
    dsimp only
    intro listed
    rcases List.mem_append.mp listed with kept | drops
    · split at kept
      · split at kept
        · cases kept
        · cases List.mem_singleton.mp kept
      · cases kept
    · split at drops
      · cases List.mem_singleton.mp drops
      · cases drops
  obtain ⟨heard, stays⟩ := heard_of_open silent
  have still : (s.cancelQueue left queued).2.idleReported = false := open'
  refine heard_append.mpr ⟨heard, ?_⟩
  rw [stays, ← still]
  exact settle_heard loud now (.inl still)

/-- **A cancellation**: what it drops is heard, or something is left that goes on. -/
theorem cancel_heard (now : Instant) (protectMs : Option ℕ)
    (sounds : s.idleReported = false ∨ s.held = [] ∨
    ∃ ms, protectMs = some ms ∧ s.letsFinish ms) :
    EndHeard s.idleReported ((s.cancel protectMs).1 ++ ((s.cancel protectMs).2.settle loud now).1) ∨
      ((s.cancel protectMs).2.settle loud now).2.current.isSome := by
  rcases sounds with open' | empty | ⟨ms, rfl, finish⟩
  · left
    rw [open']
    refine endHeard_of_heard ?_
    have counted :
      ({ s with current := (s.current.map Active.remaining).map Prod.snd } : Player).idleReported =
      false :=
      open'
    unfold cancel
    dsimp only
    generalize protectMs.any _ = soft
    generalize ({ s with current := (s.current.map Active.remaining).map Prod.snd } : Player) = t
      at counted ⊢
    cases soft with
    | true => exact cancelQueue_heard loud t _ _ counted now
    | false => exact cancelHard_heard loud t _ counted now
  · left
    refine endHeard_of_heard (heard_of_noEnd ?_ _)
    exact ((s.cancel_turn protectMs).trans (settle_turn loud now _)).noEnd empty
  · obtain ⟨a, current, rest⟩ := (Option.any_eq_true _ _).mp finish
    simp only [Bool.and_eq_true, Bool.not_eq_true', decide_eq_true_eq] at rest
    obtain ⟨⟨⟨open', whole⟩, fits⟩, short⟩ := rest
    obtain ⟨counts, stays⟩ := remaining_left whole fits
    -- the cancellation is soft, and the item goes on
    have soft : s.cancel (some ms) = cancelQueue { s with current := some a.remaining.2 }
        (a.left.length / bytesPerMs + s.ahead * frameMs) (s.queue.map PlayItem.queuedMs).sum := by
      unfold cancel
      rw [current]
      simp only [Option.map_some, counts, Option.any_some, Bool.true_and, decide_eq_true_eq]
      rw [if_pos short]
    rw [soft]
    have counted : ({ s with current := some a.remaining.2 } : Player).spent = false := stays.trans open'
    have same : ({ s with current := some a.remaining.2 } : Player).idleReported = s.idleReported := rfl
    generalize (a.left.length / bytesPerMs + s.ahead * frameMs) = left
    generalize (s.queue.map PlayItem.queuedMs).sum = queued
    have current' : ({ s with current := some a.remaining.2 } : Player).current =
      some a.remaining.2 := rfl
    generalize ({ s with current := some a.remaining.2 } : Player) = t at counted same current' ⊢
    have sounds' : (t.cancelQueue left queued).2.spent = false := by
      rw [spent, current'] at counted
      rw [spent, show (t.cancelQueue left queued).2.current = some a.remaining.2 from current']
      exact counted
    have heard := settle_heard loud now (.inr sounds')
    have turn := settle_turn loud now (t.cancelQueue left queued).2
    rw [(cancelQueue_turn t left queued).idle] at heard
    rw [← same]
    cases last : lastEnd ((t.cancelQueue left queued).2.settle loud now).1 with
    | some found =>
      refine .inl (endHeard_append (endHeard_of_heard heard) fun none' => ?_)
      rw [last] at none'
      cases none'
    | none =>
      have plays : (t.cancelQueue left queued).2.current.isSome := by
        rw [show (t.cancelQueue left queued).2.current = some a.remaining.2 from current']
        rfl
      exact .inr (turn.plays true (fun _ => plays) (plays_of_audio (lastEnd_none last) (.inl rfl)))

/-- **Every input**: what ends last is heard, or something is left that goes on. -/
theorem step_heard (input : Input) (sounds : s.Sounds input) :
    EndHeard s.idleReported (s.step loud input).1 ∨ (s.step loud input).2.current.isSome := by
  cases input with
  | arrive id arrival => exact .inl nofun
  | wake now cause =>
    cases cause with
    | enqueue item =>
      exact .inl
        (endHeard_of_heard (settle_heard (s := { s with queue := s.queue ++ [item] }) loud now sounds))
    | cancel => exact cancel_heard loud now none (sounds.imp_right .inl)
    | cancelSoft ms =>
      exact cancel_heard loud now (some ms) (sounds.imp_right fun h => h.imp_right fun h => ⟨ms, rfl, h⟩)
    | tick =>
      exact .inl (endHeard_of_heard (settle_heard (s := { s with ahead := s.ahead - 1 }) loud now sounds))
    | data =>
      have same : (s.handle .data).1 = [] ∧ (s.handle .data).2.spent = s.spent ∧
          (s.handle .data).2.idleReported = s.idleReported := by
        unfold handle
        dsimp only
        split
        · refine ⟨rfl, ?_, rfl⟩
          unfold spent
          cases current : s.current with
          | none => rfl
          | some a => exact waitForData_spent a
        · exact ⟨rfl, rfl, rfl⟩
      obtain ⟨silent, spent, idle⟩ := same
      left
      unfold step
      dsimp only
      rw [silent, List.nil_append, ← idle]
      exact endHeard_of_heard (settle_heard loud now (by rwa [idle, spent]))

/-- An input that ends nothing leaves what plays playing. -/
theorem step_stays (input : Input) (last : lastEnd (s.step loud input).1 = none)
    (current : s.current.isSome) :
    (s.step loud input).2.current.isSome := by
  obtain ⟨t, -, -, same, turn⟩ := s.step_turn loud input
  exact turn.plays true (fun _ => same ▸ current) (plays_of_audio (lastEnd_none last) (.inl rfl))

/-- **What a run keeps whose inputs find what they should**: the last end was heard, or something
plays. -/
theorem final_heard (cfg : PlayoutConfig) (inputs : List Input)
    (sounds : ∀ ev ∈ events loud cfg inputs, ev.before.Sounds ev.input) :
    EndHeard true (log (events loud cfg inputs)) ∨ (final loud cfg inputs).current.isSome := by
  refine (run_induction (C := fun _ ev => ev.before.Sounds ev.input)
    (P := fun happened s => Follows happened s ∧ (EndHeard true (log happened) ∨ s.current.isSome))
    ⟨new_follows cfg, .inl nofun⟩ ?_ ?_).2
  · rintro happened t input ⟨follows, before⟩ sounds
    refine ⟨follows.step loud input, ?_⟩
    have logs : log (happened ++ [event (Player.step loud) t input]) =
      log happened ++ (t.step loud input).1 := by
      simp [log]
    rw [logs]
    have heard := step_heard (s := t) loud input sounds
    rw [follows.idle] at heard
    rcases heard with heard | goesOn
    · cases last : lastEnd (t.step loud input).1 with
      | some found =>
        refine .inl (endHeard_append heard fun none' => ?_)
        rw [last] at none'
        cases none'
      | none =>
        exact before.imp (fun before => endHeard_append heard fun _ => before)
          (step_stays loud input last)
    · exact .inr goesOn
  · rintro pre ev post split
    refine sounds ev ?_
    rw [events, split]
    exact List.mem_append_right _ List.mem_cons_self

/-- **Every end is reported**: each item that was enqueued and is neither playing nor queued has one
report of its end, the others none. -/
def EndsOnce (s : Player) (happened : List Happening) : Prop :=
  ∀ id ∈ enqueued happened, (ended (log happened)).count id = if id ∈ s.held then 0 else 1

/-- **`Idle` follows**: once the loop is quiet, `Idle` comes after the last end. -/
def IdleFollows (s : Player) (happened : List Happening) : Prop :=
  s.Quiet → enqueued happened ≠ [] → lastEnd (log happened) ≠ none ∧ IdleLast (log happened)

end Player

end Steps

section Sample

/-- The configuration of the defaults, without trimming. -/
def Sample.cfg : PlayoutConfig := ⟨3, 250, 250, 250, none⟩

/-- A clip of a frame and a half is played, and its frames have their time. -/
def Sample.clip : List Input :=
  [.wake 0 (.enqueue ⟨1, .clip (List.replicate 240 0x55), 0⟩), .wake (millis 20) .tick,
    .wake (millis 40) .tick]

/-- A stream that fails before its first byte. -/
def Sample.failing : List Input :=
  [.wake 0 (.enqueue ⟨1, .stream ⟨[], false⟩, 0⟩), .arrive 1 (.error "timeout"), .arrive 1 .close,
    .wake (millis 10) .data, .wake (millis 20) .tick]

end Sample

end Callora.Audio
