/-
**What the playout reports.**

What the playout reports of the items it was given, in every run.

- `Turn`: what a part of the loop does: no item is lost or reported twice, and `Idle` is reported
  only after a frame was sent;
- `step_turn`: an input is such a turn, with the item it enqueues;
- `idleLast_iff`: in a log whose frames were all played, `Idle` comes after the last end if and only
  if a frame was sent between the `Idle` before and that end;
- `Follows`: what a run keeps: the items that ended and those held are the ones enqueued, and a loop
  that has settled and is quiet has reported `Idle`.
-/
import Callora.Audio.Playout
import Callora.Library.Runs

set_option linter.unusedSectionVars false

namespace Callora.Audio

open Runs

section Logs

/-- The items that end. -/
def Output.ends : Output → List Nat
  | .finished id => [id]
  | .cancelled ids _ => ids
  | _ => []

/-- The end of items. -/
def Output.isEnd (o : Output) : Bool := !o.ends.isEmpty

/-- The items that a log ends, in order. -/
def ended (log : List Output) : List Nat := log.flatMap Output.ends

/-- Whether `Idle` is reported, after an output. -/
def Output.idleAfter (reported : Bool) : Output → Bool
  | .audio .. => false
  | .idle => true
  | _ => reported

/-- Whether `Idle` was reported since the last frame. -/
def reported (start : Bool) (log : List Output) : Bool := log.foldl Output.idleAfter start

/-- Whether a frame was sent since the last end of an item, after an output. -/
def Output.playsAfter (playing : Bool) : Output → Bool
  | .audio .. => true
  | o => playing && !o.isEnd

/-- Whether a frame was sent since the last end of an item. -/
def playing (start : Bool) (log : List Output) : Bool := log.foldl Output.playsAfter start

/-- `Idle` is reported only when it was not. -/
def Honest : Bool → List Output → Prop
  | _, [] => True
  | start, o :: log => (o = .idle → start = false) ∧ Honest (o.idleAfter start) log

theorem ended_append (log more : List Output) : ended (log ++ more) = ended log ++ ended more :=
  List.flatMap_append

theorem reported_append (start : Bool) (log more : List Output) :
    reported start (log ++ more) = reported (reported start log) more := List.foldl_append

theorem playing_append (start : Bool) (log more : List Output) :
    playing start (log ++ more) = playing (playing start log) more := List.foldl_append

theorem honest_append {start : Bool} {log more : List Output} :
    Honest start (log ++ more) ↔ Honest start log ∧ Honest (reported start log) more := by
  induction log generalizing start with
  | nil => exact ⟨fun honest => ⟨trivial, honest⟩, And.right⟩
  | cons o log ih => simp only [List.cons_append, Honest, ih, and_assoc, reported, List.foldl_cons]

/-- Anything but the end of an item, a frame and `Idle`. -/
def Output.isPlain : Output → Bool
  | .audio .. | .idle | .finished _ | .cancelled .. => false
  | _ => true

/-- Plain outputs change nothing. -/
theorem plain_log {log : List Output} (plain : ∀ o ∈ log, o.isPlain) : ended log = [] ∧
    (∀ r, reported r log = r) ∧ (∀ p, playing p log = p) ∧ ∀ r, Honest r log := by
  induction log with
  | nil => exact ⟨rfl, fun _ => rfl, fun _ => rfl, fun _ => trivial⟩
  | cons o log ih =>
    obtain ⟨ends, reports, plays, honest⟩ := ih fun o' later => plain o' (List.mem_cons_of_mem _ later)
    have first := plain o List.mem_cons_self
    have ends' : ended (o :: log) = o.ends ++ ended log := List.flatMap_cons
    rw [ends', ends]
    cases o with
    | audio | idle | finished | cancelled => cases first
    | _ =>
      refine ⟨rfl, fun r => reports r, fun p => ?_, fun r => ⟨nofun, honest r⟩⟩
      show playing (p && true) log = p
      rw [Bool.and_true, plays]

/-- The end of an item leaves `Idle` as it was reported. -/
theorem idleAfter_end {o : Output} (isEnd : o.isEnd) (start : Bool) : o.idleAfter start = start := by
  cases o with
  | audio | idle => cases isEnd
  | _ => rfl

theorem playing_end {o : Output} (isEnd : o.isEnd) (start : Bool) : playing start [o] = false := by
  cases o with
  | audio => cases isEnd
  | _ =>
    show (start && !Output.isEnd _) = false
    rw [isEnd, Bool.not_true, Bool.and_false]

theorem playing_idle (start : Bool) : playing start [.idle] = start := Bool.and_true start

/-- What stands before and after the last end of an item. -/
def lastEnd : List Output → Option (List Output × List Output)
  | [] => none
  | o :: log =>
    match lastEnd log with
    | some (before, after) => some (o :: before, after)
    | none => if o.isEnd then some ([], log) else none

theorem lastEnd_none {log : List Output} (none' : lastEnd log = none) : ∀ o ∈ log, o.isEnd = false := by
  induction log with
  | nil => exact fun _ listed => absurd listed List.not_mem_nil
  | cons o log ih =>
    unfold lastEnd at none'
    cases rest : lastEnd log with
    | some split => simp [rest] at none'
    | none =>
      rw [rest] at none'
      intro o' listed
      rcases List.mem_cons.mp listed with rfl | later
      · simpa using none'
      · exact ih rest o' later

/-- A log without an end ends no item. -/
theorem ended_of_none {log : List Output} (none' : lastEnd log = none) : ended log = [] := by
  rw [ended, List.flatMap_eq_nil_iff]
  intro o listed
  have quiet := lastEnd_none none' o listed
  simpa [Output.isEnd] using quiet

theorem lastEnd_some {log before after : List Output} (split : lastEnd log = some (before, after)) :
    ∃ o, log = before ++ o :: after ∧ o.isEnd ∧ ∀ o' ∈ after, o'.isEnd = false := by
  induction log generalizing before with
  | nil => cases split
  | cons o log ih =>
    unfold lastEnd at split
    cases rest : lastEnd log with
    | some found =>
      obtain ⟨before', after'⟩ := found
      rw [rest] at split
      obtain ⟨rfl, rfl⟩ := Prod.mk.inj (Option.some.inj split)
      obtain ⟨e, rfl, isEnd, last⟩ := ih rest
      exact ⟨e, rfl, isEnd, last⟩
    | none =>
      rw [rest] at split
      by_cases isEnd : o.isEnd
      · simp only [isEnd, if_true, Option.some.injEq, Prod.mk.injEq] at split
        obtain ⟨rfl, rfl⟩ := split
        exact ⟨o, rfl, isEnd, lastEnd_none rest⟩
      · simp [isEnd] at split

/-- After the last end of an item, `Idle` was reported. -/
def IdleLast (log : List Output) : Prop :=
  ∀ before after, lastEnd log = some (before, after) → .idle ∈ after

/-- When the last item ended, a frame had been sent since `Idle` was reported. -/
def EndHeard (start : Bool) (log : List Output) : Prop :=
  ∀ before after, lastEnd log = some (before, after) → reported start before = false

/-- Without a frame, `Idle` stays reported, and is not reported again. -/
theorem silent_stays {log : List Output} (silent : ∀ o ∈ log, ∀ frame gainDb, o ≠ .audio frame gainDb)
    (honest : Honest true log) : reported true log = true ∧ .idle ∉ log := by
  induction log with
  | nil => exact ⟨rfl, List.not_mem_nil⟩
  | cons o log ih =>
    obtain ⟨first, rest⟩ := honest
    have still : o.idleAfter true = true := by
      cases o with
      | audio frame gainDb => exact absurd rfl (silent _ List.mem_cons_self frame gainDb)
      | _ => rfl
    rw [still] at rest
    obtain ⟨stays, none'⟩ := ih (fun o' later => silent o' (List.mem_cons_of_mem _ later)) rest
    refine ⟨?_, fun listed => ?_⟩
    · rw [reported, List.foldl_cons, still]
      exact stays
    · rcases List.mem_cons.mp listed with rfl | later
      · exact absurd (first rfl) Bool.noConfusion
      · exact none' later

/-- Where `Idle` comes to be reported, it is in the log. -/
theorem idle_of_reported {log : List Output} (now : reported false log = true) : .idle ∈ log := by
  induction log with
  | nil => cases now
  | cons o log ih =>
    cases o with
    | idle => exact List.mem_cons_self
    | _ => exact List.mem_cons_of_mem _ (ih now)

/-- A frame after the last end of an item plays. -/
theorem plays_of_audio {log : List Output} {start : Bool} (noEnd : ∀ o ∈ log, o.isEnd = false)
    (audio : start ∨ ∃ frame gainDb, .audio frame gainDb ∈ log) : playing start log = true := by
  induction log generalizing start with
  | nil =>
    rcases audio with begun | ⟨frame, gainDb, here⟩
    · exact begun
    · exact absurd here List.not_mem_nil
  | cons o log ih =>
    refine ih (fun o' later => noEnd o' (List.mem_cons_of_mem _ later)) ?_
    have quiet := noEnd o List.mem_cons_self
    rcases audio with rfl | ⟨frame, gainDb, here⟩
    · refine .inl ?_
      cases o <;> simp_all [Output.playsAfter]
    · rcases List.mem_cons.mp here with rfl | later
      · exact .inl rfl
      · exact .inr ⟨frame, gainDb, later⟩

/-- **`Idle` after the last end**, in a log whose frames were all played: just where a frame was
sent before that end. -/
theorem idleLast_iff {log : List Output} (honest : Honest true log) (idle : reported true log = true)
    (played : playing false log = false) : IdleLast log ↔ EndHeard true log := by
  constructor
  · intro last before after split
    obtain ⟨e, rfl, isEnd, noEnd⟩ := lastEnd_some split
    have kept := idleAfter_end isEnd
    obtain ⟨-, -, honest⟩ := honest_append.mp honest
    rw [kept] at honest
    by_contra heard
    rw [Bool.not_eq_false] at heard
    rw [heard] at honest
    refine (silent_stays ?_ honest).2 (last before after split)
    rintro o listed frame gainDb rfl
    rw [playing_append, playing, List.foldl_cons] at played
    have plays : playing (e.playsAfter (playing false before)) after = true :=
      plays_of_audio noEnd (.inr ⟨frame, gainDb, listed⟩)
    rw [playing, played] at plays
    cases plays
  · intro heard before after split
    have before' := heard before after split
    obtain ⟨e, rfl, isEnd, -⟩ := lastEnd_some split
    have kept := idleAfter_end isEnd
    rw [reported_append, before', reported, List.foldl_cons, kept] at idle
    exact idle_of_reported idle

end Logs

section Turns

/-- The items an input enqueues. -/
def Input.enqueues : Input → List Nat
  | .wake _ (.enqueue item) => [item.id]
  | _ => []

namespace Player

/-- The items that are playing or queued. -/
def held (s : Player) : List Nat := (s.current.map Active.id).toList ++ s.queue.map PlayItem.id

/-- **What a part of the loop does**: the items it ends are those it does not hold any more, and `Idle` is
reported once a frame was sent. -/
structure Turn (s : Player) (out : List Output) (s' : Player) : Prop where
  held : (ended out ++ s'.held).Perm s.held
  idle : s'.idleReported = reported s.idleReported out
  honest : Honest s.idleReported out
  plays : ∀ start : Bool, (start → s.current.isSome) → playing start out → s'.current.isSome

variable {s s' s'' : Player} {out more : List Output}

namespace Turn

theorem refl (s : Player) : Turn s [] s := ⟨.refl _, rfl, trivial, fun _ start => start⟩

theorem trans (first : Turn s out s') (then' : Turn s' more s'') : Turn s (out ++ more) s'' where
  held := by
    rw [ended_append, List.append_assoc]
    exact (List.Perm.append_left _ then'.held).trans first.held
  idle := by rw [reported_append, ← first.idle, then'.idle]
  honest := honest_append.mpr ⟨first.honest, first.idle ▸ then'.honest⟩
  plays := by
    intro start begun plays
    rw [playing_append] at plays
    exact then'.plays _ (first.plays start begun) plays

/-- Nothing is reported, and the items stay. -/
theorem silent (held : s'.held = s.held) (idle : s'.idleReported = s.idleReported)
    (current : s.current.isSome → s'.current.isSome) : Turn s [] s' :=
  ⟨.of_eq held, idle, trivial, fun _ begun plays => current (begun plays)⟩

end Turn

theorem finish_turn (s : Player) : Turn s s.finish.1 s.finish.2 := by
  unfold finish
  cases current : s.current with
  | none => exact .refl s
  | some a =>
    dsimp only
    by_cases done : a.done
    · rw [if_pos done]
      refine ⟨?_, rfl, ⟨nofun, trivial⟩, fun start _ plays => ?_⟩
      · simp [ended, Output.ends, Player.held, current]
      · rw [playing_end rfl] at plays
        cases plays
    · rw [if_neg done]
      exact .refl s

variable (loud : ℚ → List UInt8 → Bool)

theorem takeNext_turn (s : Player) : Turn s [] (s.takeNext loud) := by
  unfold takeNext
  cases current : s.current with
  | some a => exact .refl s
  | none =>
    cases queue : s.queue with
    | nil => exact .refl s
    | cons item rest =>
      refine .silent ?_ rfl fun _ => rfl
      simp [Player.held, current, queue, Active.new]

/-- A turn that says nothing of ends, frames and `Idle`. -/
theorem Turn.plain (plain : ∀ o ∈ out, o.isPlain) (held : s'.held = s.held)
    (idle : s'.idleReported = s.idleReported) (current : s.current.isSome → s'.current.isSome) :
    Turn s out s' := by
  obtain ⟨ends, reports, plays, honest⟩ := plain_log plain
  refine ⟨by rw [ends, held]; exact .refl _, by rw [reports, idle], honest _, fun start begun => ?_⟩
  rw [plays]
  exact fun here => current (begun here)

/-- What is sent with a frame comes before it, and is plain. -/
theorem send_plain (now : Instant) (s : Player) (a : Active) (frame : List UInt8) : ∃ early,
    (s.send now a frame).1 = early ++ [.audio frame a.gainDb] ∧ ∀ o ∈ early, o.isPlain := by
  refine ⟨_, rfl, fun o listed => ?_⟩
  rcases List.mem_append.mp listed with gap | start
  · split at gap
    · split at gap
      · rw [List.mem_singleton.mp gap]
        rfl
      · cases gap
    · cases gap
  · split at start
    · cases start
    · rw [List.mem_singleton.mp start]
      rfl

theorem send_turn (now : Instant) {s : Player} {a : Active} (frame : List UInt8)
    (same : s.current.map Active.id = some a.id) :
    Turn s (s.send now a frame).1 (s.send now a frame).2 := by
  obtain ⟨early, sent, plain⟩ := s.send_plain now a frame
  have before : Turn s early s := .plain plain rfl rfl id
  rw [sent]
  refine before.trans ⟨?_, rfl, ⟨fun idle => (by cases idle), trivial⟩, fun _ _ _ => rfl⟩
  refine .of_eq ?_
  simp [ended, Output.ends, Player.held, send, same]

theorem turn_turn (now : Instant) (s : Player) : Turn s (s.turn loud now).2.1 (s.turn loud now).2.2 := by
  unfold turn
  by_cases full : s.cfg.leadFrames ≤ s.ahead
  · rw [if_pos full]
    exact .refl s
  · rw [if_neg full]
    have before := s.finish_turn.trans (s.finish.2.takeNext_turn loud)
    rw [List.append_nil] at before
    dsimp only
    generalize s.finish.2.takeNext loud = t at before
    cases current : t.current with
    | none => exact before
    | some active =>
      dsimp only
      have same := active.nextFrame_id loud
      cases next : active.nextFrame loud with
      | mk frame a =>
        rw [next] at same
        cases frame with
        | some frame =>
          exact before.trans (send_turn now frame (by rw [current, Option.map_some, ← same]))
        | none =>
          have stays : Turn t [] { t with current := some a } := by
            refine .silent ?_ rfl fun _ => rfl
            simp [Player.held, current, show a.id = active.id from same]
          have both := before.trans stays
          rw [List.append_nil] at both
          exact both

theorem sendAhead_turn (now : Instant) (fuel : Nat) (s : Player) :
    Turn s (s.sendAhead loud now fuel).1 (s.sendAhead loud now fuel).2 := by
  induction fuel generalizing s with
  | zero => exact .refl s
  | succ fuel ih =>
    unfold sendAhead
    dsimp only
    by_cases goesOn : (s.turn loud now).1
    · rw [if_pos goesOn]
      exact (s.turn_turn loud now).trans (ih _)
    · rw [if_neg goesOn]
      exact s.turn_turn loud now

theorem reportIdle_turn (s : Player) : Turn s s.reportIdle.1 s.reportIdle.2 := by
  have cleared : Turn s [] (if s.current.isNone then { s with protectedItem := none } else s) := by
    split
    · exact .silent rfl rfl id
    · exact .refl s
  unfold reportIdle
  dsimp only
  generalize (if s.current.isNone then { s with protectedItem := none } else s) = t at cleared
  by_cases quiet : t.current.isNone && t.queue.isEmpty && t.ahead == 0 && !t.idleReported
  · rw [if_pos quiet]
    have open' : t.idleReported = false := by
      simp only [Bool.and_eq_true, Bool.not_eq_true'] at quiet
      exact quiet.2
    exact cleared.trans ⟨.refl _, rfl, ⟨fun _ => open', trivial⟩,
      fun p begun plays => begun (playing_idle p ▸ plays)⟩
  · rw [if_neg quiet]
    exact cleared

theorem settle_turn (now : Instant) (s : Player) : Turn s (s.settle loud now).1 (s.settle loud now).2 :=
  ((sendAhead_turn loud now s.turns s).trans (finish_turn _)).trans (reportIdle_turn _)

/-- Dropping items reports them, once. -/
theorem cancelled_turn {ids : List Nat} {ms : Nat} (held : (ids ++ s'.held).Perm s.held)
    (idle : s'.idleReported = s.idleReported)
    (current : ids = [] → s.current.isSome → s'.current.isSome) :
    Turn s (if ids ≠ [] then [.cancelled ids ms] else []) s' := by
  by_cases none' : ids = []
  · subst none'
    exact ⟨held, idle, trivial, fun _ begun plays => current rfl (begun plays)⟩
  · rw [if_pos none']
    refine ⟨?_, idle, ⟨nofun, trivial⟩, fun start _ plays => ?_⟩
    · simpa [ended, Output.ends] using held
    · rw [playing_end (by simpa [Output.isEnd, Output.ends] using none')] at plays
      cases plays

theorem cancelHard_turn (s : Player) (remainingMs : Nat) :
    Turn s (s.cancelHard remainingMs).1 (s.cancelHard remainingMs).2 := by
  have clears : Turn s (if 0 < s.ahead ∨ s.held ≠ [] then [.clear] else []) s := by
    refine .plain (fun o listed => ?_) rfl rfl id
    split at listed
    · rw [List.mem_singleton.mp listed]
      rfl
    · cases listed
  have drops : Turn s (if s.held ≠ [] then [.cancelled s.held remainingMs] else [])
      { (s.cancelHard remainingMs).2 with idleReported := s.idleReported } := by
    refine cancelled_turn (by simp [Player.held, cancelHard]) rfl fun none' here => ?_
    obtain ⟨a, current⟩ := Option.isSome_iff_exists.mp here
    simp [Player.held, current] at none'
  have idles : Turn { (s.cancelHard remainingMs).2 with idleReported := s.idleReported }
      (if s.idleReported then [] else [.idle]) (s.cancelHard remainingMs).2 := by
    cases reported' : s.idleReported with
    | true => exact .silent rfl (by simp [cancelHard]) id
    | false =>
      exact ⟨.refl _, rfl, ⟨fun _ => rfl, trivial⟩, fun p begun plays => begun (playing_idle p ▸ plays)⟩
  exact (clears.trans drops).trans idles

theorem cancelQueue_turn (s : Player) (left queued : Nat) :
    Turn s (s.cancelQueue left queued).1 (s.cancelQueue left queued).2 := by
  obtain ⟨kept, reported', plain⟩ : ∃ kept, (s.cancelQueue left queued).1 =
      kept ++ (if s.queue.map PlayItem.id ≠ [] then [.cancelled (s.queue.map PlayItem.id) queued]
        else []) ∧
      ∀ o ∈ kept, o.isPlain := by
    refine ⟨_, rfl, fun o listed => ?_⟩
    split at listed
    · split at listed
      · cases listed
      · rw [List.mem_singleton.mp listed]
        rfl
    · cases listed
  have keeps : Turn s kept s := .plain plain rfl rfl id
  rw [reported']
  refine keeps.trans (cancelled_turn ?_ rfl fun _ here => here)
  rw [Player.held, cancelQueue, Player.held]
  simpa using List.perm_append_comm

theorem cancel_turn (s : Player) (protectMs : Option Nat) :
    Turn s (s.cancel protectMs).1 (s.cancel protectMs).2 := by
  have counted : Turn s [] { s with current := (s.current.map Active.remaining).map Prod.snd } := by
    cases current : s.current with
    | none => exact .silent (by simp [Player.held, current]) rfl (by simp [current])
    | some a => exact .silent (by simp [Player.held, current]) rfl fun _ => rfl
  unfold cancel
  dsimp only
  generalize protectMs.any _ = soft
  cases soft with
  | true => exact counted.trans (cancelQueue_turn _ _ _)
  | false => exact counted.trans (cancelHard_turn _ _)

theorem arrive_turn (s : Player) (id : Nat) (arrival : Arrival) : Turn s [] (s.arrive id arrival) := by
  refine .silent ?_ rfl ?_
  · have current : (s.arrive id arrival).current.map Active.id = s.current.map Active.id := by
      rw [arrive, Option.map_map]
      congr 1
      funext a
      show (if a.id = id then _ else a : Active).id = a.id
      split <;> rfl
    have queue : (s.arrive id arrival).queue.map PlayItem.id = s.queue.map PlayItem.id := by
      rw [arrive, List.map_map]
      congr 1
      funext item
      show (if item.id = id then _ else item : PlayItem).id = item.id
      split <;> rfl
    rw [Player.held, current, queue, Player.held]
  · intro playing
    rw [arrive, Option.isSome_map]
    exact playing

/-- **An input is a turn**, with the item it enqueues. -/
theorem step_turn (s : Player) (input : Input) : ∃ t : Player, t.held = s.held ++ input.enqueues ∧
    t.idleReported = s.idleReported ∧ t.current = s.current ∧
    Turn t (s.step loud input).1 (s.step loud input).2 := by
  have kept {out : List Output} {s' : Player} (turn : Turn s out s') (none' : input.enqueues = []) :
      ∃ t : Player, t.held = s.held ++ input.enqueues ∧ t.idleReported = s.idleReported ∧
        t.current = s.current ∧ Turn t out s' := by
    exact ⟨s, by rw [none', List.append_nil], rfl, rfl, turn⟩
  cases input with
  | arrive id arrival => exact kept (arrive_turn s id arrival) rfl
  | wake now cause =>
    cases cause with
    | enqueue item =>
      refine ⟨{ s with queue := s.queue ++ [item] }, ?_, rfl, rfl, settle_turn loud now _⟩
      simp [Player.held, Input.enqueues]
    | cancel => exact kept ((cancel_turn s none).trans (settle_turn loud now _)) rfl
    | cancelSoft ms => exact kept ((cancel_turn s (some ms)).trans (settle_turn loud now _)) rfl
    | tick =>
      have ticks : Turn s [] { s with ahead := s.ahead - 1 } := .silent rfl rfl id
      exact kept (ticks.trans (settle_turn loud now _)) rfl
    | data =>
      have takes : Turn s (s.handle .data).1 (s.handle .data).2 := by
        unfold handle
        dsimp only
        split
        · refine .silent ?_ rfl ?_
          · cases current : s.current <;> simp [Player.held, current]
          · intro playing
            simpa using playing
        · exact .refl s
      exact kept (takes.trans (settle_turn loud now _)) rfl

/-- Nothing plays, nothing is queued, and everything sent had its time. -/
def Quiet (s : Player) : Prop := s.current = none ∧ s.queue = [] ∧ s.ahead = 0

/-- A loop that has settled and is quiet has reported `Idle`. -/
theorem settle_quiet (now : Instant) (s : Player) (quiet : (s.settle loud now).2.Quiet) :
    (s.settle loud now).2.idleReported = true := by
  unfold settle at quiet ⊢
  dsimp only at quiet ⊢
  generalize (s.sendAhead loud now s.turns).2.finish.2 = t at quiet ⊢
  unfold reportIdle at quiet ⊢
  dsimp only at quiet ⊢
  generalize (if t.current.isNone then { t with protectedItem := none } else t) = u at quiet ⊢
  by_cases idle : u.current.isNone && u.queue.isEmpty && u.ahead == 0 && !u.idleReported
  · rw [if_pos idle]
  · rw [if_neg idle] at quiet ⊢
    obtain ⟨current, queue, ahead⟩ : u.current = none ∧ u.queue = [] ∧ u.ahead = 0 := quiet
    simpa [current, queue, ahead] using idle

/-- What happened at one input. -/
abbrev Happening := Event Player Input (List Output)

/-- What happened in a run. -/
def events (cfg : PlayoutConfig) (inputs : List Input) : List Happening :=
  Runs.events (step loud) (new cfg) inputs

/-- The loop that a run reaches. -/
def final (cfg : PlayoutConfig) (inputs : List Input) : Player := Runs.final (step loud) (new cfg) inputs

/-- The log of a run. -/
def log (happened : List Happening) : List Output := (happened.map Event.output).flatten

/-- The items enqueued in a run. -/
def enqueued (happened : List Happening) : List Nat := happened.flatMap fun ev => ev.input.enqueues

/-- **What a run keeps.** -/
structure Follows (happened : List Happening) (s : Player) : Prop where
  held : (ended (log happened) ++ s.held).Perm (enqueued happened)
  idle : s.idleReported = reported true (log happened)
  honest : Honest true (log happened)
  plays : playing false (log happened) → s.current.isSome
  settled : s.Quiet → s.idleReported = true

theorem new_follows (cfg : PlayoutConfig) : Follows [] (new cfg) :=
  ⟨.refl _, rfl, trivial, nofun, fun _ => rfl⟩

/-- **Every input keeps it.** -/
theorem Follows.step {happened : List Happening} (follows : Follows happened s) (input : Input) :
    Follows (happened ++ [event (step loud) s input]) (s.step loud input).2 := by
  obtain ⟨t, held, idle, current, turn⟩ := s.step_turn loud input
  have logs : log (happened ++ [event (Player.step loud) s input]) =
      log happened ++ (s.step loud input).1 := by
    simp [log]
  have items : enqueued (happened ++ [event (Player.step loud) s input]) =
      enqueued happened ++ input.enqueues := by
    simp [enqueued]
  refine ⟨?_, ?_, ?_, fun plays => ?_, fun quiet => ?_⟩
  · rw [logs, items, ended_append, List.append_assoc]
    refine (turn.held.append_left _).trans ?_
    rw [held, ← List.append_assoc]
    exact follows.held.append_right _
  · rw [logs, reported_append, ← follows.idle, ← idle, turn.idle]
  · rw [logs, honest_append, ← follows.idle, ← idle]
    exact ⟨follows.honest, turn.honest⟩
  · rw [logs, playing_append] at plays
    exact turn.plays _ (fun begun => current ▸ follows.plays begun) plays
  · cases input with
    | wake now cause => exact settle_quiet loud now _ quiet
    | arrive id arrival =>
      obtain ⟨none', empty, still⟩ := quiet
      exact follows.settled ⟨Option.map_eq_none_iff.mp none', List.map_eq_nil_iff.mp empty, still⟩

theorem final_follows (cfg : PlayoutConfig) (inputs : List Input) :
    Follows (events loud cfg inputs) (final loud cfg inputs) :=
  run_induction (C := fun _ _ => True) (new_follows cfg)
    (fun _ _ input follows _ => follows.step loud input)
    fun _ _ _ _ => trivial

theorem enqueued_events (cfg : PlayoutConfig) (inputs : List Input) :
    enqueued (events loud cfg inputs) = inputs.flatMap Input.enqueues := by
  have each (s : Player) (inputs : List Input) :
      enqueued (Runs.events (step loud) s inputs) = inputs.flatMap Input.enqueues := by
    induction inputs generalizing s with
    | nil => rfl
    | cons input inputs ih => exact congrArg (input.enqueues ++ ·) (ih _)
  exact each _ inputs

end Player

end Turns

end Callora.Audio
