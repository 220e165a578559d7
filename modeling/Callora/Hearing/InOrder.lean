/-
**The caller's audio is heard once and in order: when.**

Three buffers hold audio for the session to come: the backlog, the utterance that is spoken and the
last one that ended. What ends while words are due to be heard again replaces them, and is in the
backlog as well; a session that takes over while none is connected leaves the backlog where it is;
and what is sent to a session whose task has ended, before the call learns of it, is lost.

- `steady` is what keeps a step from that;
- `Behind` are bytes of the line in their order, and `Held` is what then holds: each buffer, and what each
  session heard, is in order and behind the line, and the words to be heard again are before the backlog;
- `heardOnce_of_steady`: so every frame is heard once and in order.
-/
import Mathlib.Data.List.Flatten
import Callora.Hearing.Finalizing

set_option linter.unusedSectionVars false

namespace Callora.Hearing

open Runs

/-! ### What keeps the audio in order -/

/-- At this step: no frame comes to a session whose task has ended, nor is what waits for one sent
to it; no utterance ends while other words are to be heard again, and one that is kept with the last
one begins after it (its lead of 300 ms too); no session takes over where none is connected and
frames wait. -/
def steady (ev : Event) : Bool :=
  match ev.input with
  | .audio _ turns => (ev.before.stt.isNone || ev.before.listens) && (!(turns && ev.before.speaking) ||
      !ev.before.resendUtterance &&
        (!ev.before.secondPending && ev.before.finalizeSentAt.isNone ||
          ev.before.lastUtterance.all fun b => ev.before.utterance.all fun c => b < c))
  | .ready => ev.before.opening = 0 ∨ ev.before.sessions ∉ ev.before.gone ∨
      ev.before.backlog = [] ∧ ev.before.resendUtterance = false
  | .focused wanted =>
    !wanted || ev.before.speaking || ev.before.finalizeSentAt.isSome || ev.before.stt.isSome ||
      ev.before.backlog.isEmpty
  | _ => true

/-- Every step of the run is steady. -/
def Steady (evs : List Event) : Prop := ∀ ev ∈ evs, steady ev

instance (evs : List Event) : Decidable (Steady evs) :=
  inferInstanceAs (Decidable (∀ ev ∈ evs, steady ev))

/-! ### Bytes of the line, in their order -/

/-- Bytes in the order of the line, all of them before a place in it. -/
structure Behind (xs : List ℕ) (n : ℕ) : Prop where
  ordered : xs.Pairwise (· < ·)
  behind : ∀ b ∈ xs, b < n

namespace Behind

variable {xs ys : List ℕ} {n m : ℕ}

theorem nil : Behind [] n := ⟨List.Pairwise.nil, fun _ none => absurd none List.not_mem_nil⟩

theorem mono (before : Behind xs n) (le : n ≤ m) : Behind xs m :=
  ⟨before.ordered, fun b listed => Nat.lt_of_lt_of_le (before.behind b listed) le⟩

theorem sublist (before : Behind ys n) (part : xs.Sublist ys) : Behind xs n :=
  ⟨before.ordered.sublist part, fun b listed => before.behind b (part.subset listed)⟩

theorem append (first : Behind xs n) (second : Behind ys n) (after : ∀ b ∈ xs, ∀ c ∈ ys, b < c) :
    Behind (xs ++ ys) n := by
  refine ⟨List.pairwise_append.mpr ⟨first.ordered, second.ordered, after⟩, fun b listed => ?_⟩
  rcases List.mem_append.mp listed with left | right
  · exact first.behind b left
  · exact second.behind b right

/-- What the line brings next. -/
theorem frame (n length : ℕ) : Behind (List.range' n length) (n + length) :=
  ⟨List.pairwise_lt_range', fun b listed => (List.mem_range'_1.mp listed).2⟩

theorem next (before : Behind xs n) (length : ℕ) : Behind (xs ++ List.range' n length) (n + length) := by
  refine (before.mono (Nat.le_add_right n length)).append (frame n length) fun b old c new => ?_
  have := before.behind b old
  have := (List.mem_range'_1.mp new).1
  omega

end Behind

theorem lastOf_sublist {α : Type} (n : ℕ) (xs : List α) : (lastOf n xs).Sublist xs :=
  List.drop_sublist _ xs

theorem Behind.lastOf {xs : List ℕ} {n : ℕ} (before : Behind xs n) (count : ℕ) :
    Behind (lastOf count xs) n :=
  before.sublist (lastOf_sublist count xs)

/-- Pieces of a positive size, of enough of them, are the whole. -/
theorem chunks_flatten {size : ℕ} (positive : 0 < size) {fuel : ℕ} {bytes : List ℕ}
    (enough : bytes.length ≤ fuel) :
    (chunks size fuel bytes).flatten = bytes := by
  fun_induction chunks size fuel bytes with
  | case1 bytes => exact (List.eq_nil_of_length_eq_zero (Nat.le_zero.mp enough)).symm
  | case2 => rfl
  | case3 fuel bytes some ih =>
    have shorter : (bytes.drop size).length ≤ fuel := by
      have : 0 < bytes.length := List.length_pos_iff.mpr (by simpa using some)
      rw [List.length_drop]
      omega
    rw [List.flatten_cons, ih shorter, List.take_append_drop]

/-! ### What a steady run keeps -/

structure Held (t : List Act) (w : World) : Prop where
  /-- What a session heard; one that is not connected yet heard nothing. -/
  heard : ∀ n, Behind (heardBy n t) w.bytes
  unheard : ∀ n, w.sessions ≤ n → heardBy n t = []
  current : ∀ n, w.stt = some n → n < w.sessions
  waiting : ∀ n, w.sttNext = some n → n < w.sessions
  preroll : Behind w.preroll.flatten w.bytes
  utterance : Behind w.utterance w.bytes
  last : Behind w.lastUtterance w.bytes
  backlog : Behind w.backlog.flatten w.bytes
  connected : w.stt.isSome → w.backlog = []
  idle : w.stt = none → w.finalizeSentAt = none
  /-- The words to be heard again are those of the last `finalize` without an answer, before all
  that waits. -/
  due : w.resendUtterance → ∀ b ∈ w.lastUtterance, ∀ c ∈ w.backlog.flatten, b < c
  lost : w.resendUtterance →
    ∃ earlier later, t = earlier ++ .lost w.lastUtterance :: later ∧ ∀ other, .lost other ∉ later
  again : ∀ pre n utterance post, t = pre ++ .again n utterance :: post →
    ∃ earlier later, pre = earlier ++ .lost utterance :: later ∧ ∀ other, .lost other ∉ later

section Steps

variable {t acts : List Act} {w w' : World}

/-- What was heard again before is what is heard again, where nothing new is. -/
theorem again_append (before : ∀ pre n utterance post, t = pre ++ .again n utterance :: post →
      ∃ earlier later, pre = earlier ++ .lost utterance :: later ∧ ∀ other, .lost other ∉ later)
    (none : ∀ n u, .again n u ∉ acts) : ∀ pre n utterance post,
    t ++ acts = pre ++ .again n utterance :: post →
      ∃ earlier later, pre = earlier ++ .lost utterance :: later ∧ ∀ other, .lost other ∉ later := by
  intro pre n u post split
  rcases List.append_eq_append_iff.mp split with ⟨more, rfl, listed⟩ | ⟨more, rfl, listed⟩
  · exact absurd (listed ▸ List.mem_append_right _ List.mem_cons_self) (none n u)
  · cases more with
    | nil => exact absurd ((List.nil_append _ ▸ listed) ▸ List.mem_cons_self) (none n u)
    | cons first more =>
      obtain ⟨rfl, rfl⟩ := List.cons.inj listed
      exact before pre n u more rfl

/-- Acts in which no words are lost and none heard again. -/
structure Plain (acts : List Act) : Prop where
  lost : ∀ u, .lost u ∉ acts
  again : ∀ n u, .again n u ∉ acts

/-- The words that were lost last are still those, where none are lost since. -/
theorem lost_append {u : List ℕ}
    (before : ∃ earlier later, t = earlier ++ .lost u :: later ∧ ∀ other, .lost other ∉ later)
    (none : ∀ u, .lost u ∉ acts) :
    ∃ earlier later, t ++ acts = earlier ++ .lost u :: later ∧ ∀ other, .lost other ∉ later := by
  obtain ⟨earlier, later, rfl, since⟩ := before
  refine ⟨earlier, later ++ acts, by simp, fun other listed => ?_⟩
  rcases List.mem_append.mp listed with early | late
  · exact since other early
  · exact none other late

/-- The sessions change, and none is sent audio. -/
theorem Held.change (held : Held t w) (plain : Plain acts) (noAudio : ∀ n, heardBy n acts = [])
    (bytes : w'.bytes = w.bytes) (sessions : w.sessions ≤ w'.sessions) (preroll : w'.preroll = w.preroll)
    (utterance : w'.utterance = w.utterance) (last : w'.lastUtterance = w.lastUtterance)
    (backlog : w'.backlog = w.backlog) (current : ∀ n, w'.stt = some n → n < w'.sessions)
    (waiting : ∀ n, w'.sttNext = some n → n < w'.sessions) (connected : w'.stt.isSome → w.backlog = [])
    (idle : w'.stt = none → w'.finalizeSentAt = none) (due : w'.resendUtterance → w.resendUtterance) :
    Held (t ++ acts) w' := by
  have still : ∀ n, heardBy n (t ++ acts) = heardBy n t := by
    intro n
    rw [heardBy_append, noAudio, List.append_nil]
  refine ⟨?_, ?_, current, waiting, ?_, ?_, ?_, ?_, ?_, idle, ?_, ?_, again_append held.again plain.again⟩
  · intro n
    rw [still, bytes]
    exact held.heard n
  · intro n fresh
    rw [still]
    exact held.unheard n (Nat.le_trans sessions fresh)
  · rw [preroll, bytes]
    exact held.preroll
  · rw [utterance, bytes]
    exact held.utterance
  · rw [last, bytes]
    exact held.last
  · rw [backlog, bytes]
    exact held.backlog
  · rw [backlog]
    exact connected
  · rw [last, backlog]
    exact fun again => held.due (due again)
  · rw [last]
    exact fun again => lost_append (held.lost (due again)) plain.lost

/-- A frame comes: the VAD hears it, and it is kept with the caller's words. -/
theorem Held.keeps (held : Held t w) (length : ℕ) (event : Option VadEvent)
    (fit : event = some .speechEnded → w.resendUtterance = false ∧
      (w.secondPending ∨ w.finalizeSentAt.isSome → ∀ b ∈ w.lastUtterance, ∀ c ∈ w.utterance, b < c)) :
    let kept := { w with bytes := w.bytes + length }.keepAudio (List.range' w.bytes length) event
    Held t kept ∧ kept.backlog = w.backlog ∧
      (kept.resendUtterance → w.resendUtterance ∧ kept.lastUtterance = w.lastUtterance) := by
  have grows : ∀ preroll utterance last, Behind utterance (w.bytes + length) →
    Behind last (w.bytes + length) →
      (w.resendUtterance → last = w.lastUtterance) →
      preroll = lastOf PREROLL_FRAMES (w.preroll ++ [List.range' w.bytes length]) →
      let kept := { w with
        bytes := w.bytes + length, preroll := preroll, utterance := utterance, lastUtterance := last }
      Held t kept ∧ kept.backlog = w.backlog ∧
        (kept.resendUtterance → w.resendUtterance ∧ kept.lastUtterance = w.lastUtterance) := by
    intro preroll utterance last utteranceBehind lastBehind same lead
    refine ⟨⟨fun n => (held.heard n).mono (Nat.le_add_right _ _), held.unheard, held.current,
      held.waiting, ?_,
      utteranceBehind, lastBehind, held.backlog.mono (Nat.le_add_right _ _), held.connected,
      held.idle, ?_, ?_,
      held.again⟩, rfl, fun again => ⟨again, same again⟩⟩
    · have all := held.preroll.next length
      rw [lead]
      refine all.sublist ?_
      have := (lastOf_sublist PREROLL_FRAMES (w.preroll ++ [List.range' w.bytes length])).flatten
      rwa [List.flatten_append, List.flatten_singleton] at this
    · intro again
      rw [same again]
      exact held.due again
    · intro again
      rw [same again]
      exact held.lost again
  have last : Behind w.lastUtterance (w.bytes + length) := held.last.mono (Nat.le_add_right _ _)
  match event with
  | some .speechStarted => exact grows _ _ _ (held.preroll.next length) last (fun _ => rfl) rfl
  | some .speechEnded =>
    obtain ⟨notAgain, after⟩ := fit rfl
    have ended := held.utterance.next length
    have pieces : Behind ((if !w.secondPending && w.finalizeSentAt.isNone then [] else w.lastUtterance) ++
        (w.utterance ++ List.range' w.bytes length)) (w.bytes + length) := by
      by_cases alone : !w.secondPending && w.finalizeSentAt.isNone
      · rw [if_pos alone]
        exact ended
      · rw [if_neg alone]
        refine last.append ended fun b old c listed => ?_
        rcases List.mem_append.mp listed with kept | new
        · refine after ?_ b old c kept
          by_contra neither
          obtain ⟨first, second⟩ := not_or.mp neither
          exact alone (by simpa using And.intro first second)
        · have := held.last.behind b old
          have := (List.mem_range'_1.mp new).1
          omega
    have kept := grows (lastOf PREROLL_FRAMES (w.preroll ++ [List.range' w.bytes length])) [] _ Behind.nil
      (pieces.lastOf MAX_BYTES) (fun again => by rw [notAgain] at again; cases again) rfl
    unfold World.keepAudio
    dsimp only at kept ⊢
    exact kept
  | none =>
    unfold World.keepAudio
    by_cases more : w.speaking ∧ w.utterance.length < MAX_BYTES
    · simpa only [if_pos more] using grows _ _ _ (held.utterance.next length) last (fun _ => rfl) rfl
    · simpa only [if_neg more] using
        grows _ _ _ (held.utterance.mono (Nat.le_add_right _ _)) last (fun _ => rfl) rfl

/-- What is spoken does not matter. -/
theorem Held.speaks (held : Held t w) (speaking : Bool) (spoken : List ℕ) :
    Held t { w with speaking := speaking, spoken := spoken } :=
  ⟨held.heard, held.unheard, held.current, held.waiting, held.preroll, held.utterance, held.last,
    held.backlog,
    held.connected, held.idle, held.due, held.lost, held.again⟩

/-- No audio is sent, no words are lost, and none heard again. -/
theorem Held.plain (held : Held t w) (plain : Plain acts) (noAudio : ∀ n, heardBy n acts = []) :
    Held (t ++ acts) w :=
  held.change plain noAudio rfl (Nat.le_refl _) rfl rfl rfl rfl held.current held.waiting
    held.connected held.idle id

/-- Either the session that is connected is asked to finish, or nothing is. -/
theorem World.finalize_cases (w : World) : w.finalize = ([], w) ∨ ∃ n, w.stt = some n ∧
    w.finalize =
      ([.sent n .finalize],
        { w with finalizeSentAt := some w.finalizes, finalizes := w.finalizes + 1 }) := by
  rcases Option.eq_none_or_eq_some w.stt with here | ⟨n, here⟩
  · exact .inl (World.finalize_waiting here)
  · by_cases ended : n ∈ w.gone
    · exact .inl (World.finalize_gone here ended)
    · exact .inr ⟨n, here, World.finalize_connected here ended⟩

theorem World.heardBy_finalize (n : ℕ) : heardBy n w.finalize.1 = [] := by
  rcases w.finalize_cases with same | ⟨m, -, same⟩ <;> rw [same] <;> rfl

/-- The session is asked to finish. -/
theorem Held.finalize (held : Held t w) : Held (t ++ w.finalize.1) w.finalize.2 := by
  rcases w.finalize_cases with same | ⟨n, here, same⟩
  · rw [same, List.append_nil]
    exact held
  · rw [same]
    exact held.change ⟨by simp, by simp⟩ (fun _ => rfl) rfl
      (Nat.le_refl _) rfl rfl rfl rfl held.current held.waiting
      held.connected (fun none => absurd (here.symm.trans none) (Option.some_ne_none n)) id

/-- The frame goes to the session, or waits: it is after all that was heard, and all that waits. -/
theorem Held.forward (held : Held t w) (bufferFrames : ℕ) {frame : Frame} (behind : Behind frame w.bytes)
    (afterHeard : ∀ n, ∀ b ∈ heardBy n t, ∀ c ∈ frame, b < c)
    (afterBacklog : ∀ b ∈ w.backlog.flatten, ∀ c ∈ frame, b < c)
    (afterDue : w.resendUtterance → ∀ b ∈ w.lastUtterance, ∀ c ∈ frame, b < c) :
    Held (t ++ (w.forward bufferFrames frame).1) (w.forward bufferFrames frame).2 := by
  cases here : w.stt with
  | some n =>
    rw [World.forward_connected bufferFrames here]
    have plain : Plain (w.trySend n (.audio frame)) := by
      constructor
      · intro u listed
        cases (World.mem_trySend.mp listed).2
      · intro m u listed
        cases (World.mem_trySend.mp listed).2
    refine ⟨?_, ?_, held.current, held.waiting, held.preroll, held.utterance, held.last, held.backlog,
      held.connected, held.idle, held.due, ?_, again_append held.again plain.again⟩
    · intro m
      rw [heardBy_append, heardBy_trySend]
      split
      · exact (held.heard m).append behind (afterHeard m)
      · rw [List.append_nil]
        exact held.heard m
    · intro m fresh
      have current := held.current n here
      have other : ¬(n = m ∧ n ∉ w.gone) :=
        fun ⟨same, _⟩ => Nat.ne_of_lt (Nat.lt_of_lt_of_le current fresh) same
      rw [heardBy_append, heardBy_trySend, if_neg other, List.append_nil]
      exact held.unheard m fresh
    · exact fun again => lost_append (held.lost again) plain.lost
  | none =>
    rw [World.forward_waiting bufferFrames here]
    have quiet : ∀ act ∈
      ((w.backlog ++ [frame]).take ((w.backlog ++ [frame]).length - bufferFrames)).map Act.dropped,
        ∃ f, act = .dropped f := by
      intro act listed
      obtain ⟨f, -, rfl⟩ := List.mem_map.mp listed
      exact ⟨f, rfl⟩
    have noAudio : ∀ n, heardBy n
        (((w.backlog ++ [frame]).take ((w.backlog ++ [frame]).length - bufferFrames)).map
          Act.dropped) = [] := by
      intro n
      refine List.flatMap_eq_nil_iff.mpr fun act listed => ?_
      obtain ⟨f, rfl⟩ := quiet act listed
      rfl
    have kept :
      ((w.backlog ++ [frame]).drop ((w.backlog ++ [frame]).length - bufferFrames)).flatten.Sublist
        (w.backlog.flatten ++ frame) := by
      have :=
        (List.drop_sublist ((w.backlog ++ [frame]).length - bufferFrames) (w.backlog ++ [frame])).flatten
      rwa [List.flatten_append, List.flatten_singleton] at this
    refine ⟨?_, ?_, held.current, held.waiting, held.preroll, held.utterance, held.last, ?_, ?_,
      held.idle, ?_, ?_,
      again_append held.again ?_⟩
    · intro n
      rw [heardBy_append, noAudio, List.append_nil]
      exact held.heard n
    · intro n fresh
      rw [heardBy_append, noAudio, List.append_nil]
      exact held.unheard n fresh
    · exact (held.backlog.append behind afterBacklog).sublist kept
    · intro connected
      rw [show w.stt = none from here] at connected
      cases connected
    · intro again b due c listed
      rcases List.mem_append.mp (kept.subset listed) with before | new
      · exact held.due again b due c before
      · exact afterDue again b due c new
    · intro again
      refine lost_append (held.lost again) fun u listed => ?_
      obtain ⟨f, is⟩ := quiet _ listed
      cases is
    · intro n u listed
      obtain ⟨f, is⟩ := quiet _ listed
      cases is

/-- `on_audio`, where nothing ends that would take the place of words that are due. -/
theorem Held.audio (held : Held t w) (bufferFrames length : ℕ) (turns : Bool)
    (fit : (turns && w.speaking) = true → w.resendUtterance = false ∧
      (w.secondPending ∨ w.finalizeSentAt.isSome → ∀ b ∈ w.lastUtterance, ∀ c ∈ w.utterance, b < c)) :
    Held (t ++ (w.onAudio bufferFrames length turns).1) (w.onAudio bufferFrames length turns).2 := by
  have behind := Behind.frame w.bytes length
  have after : ∀ b, b < w.bytes → ∀ c ∈ List.range' w.bytes length, b < c := by
    intro b old c new
    exact Nat.lt_of_lt_of_le old (List.mem_range'_1.mp new).1
  obtain ⟨speaking, spoken, same⟩ :=
    { w with bytes := w.bytes + length }.hear_eq (List.range' w.bytes length)
    (w.verdict turns)
  obtain ⟨kept, backlog, due⟩ :=
    (held.speaks speaking spoken).keeps length (w.verdict turns) fun ended => by
    obtain ⟨stops, before⟩ := w.verdict_ended.mp ended
    exact fit (by rw [stops, before]; rfl)
  -- what comes now is after all that was heard, and all that waits
  have forwards : ∀ {t' : List Act} {v : World}, Held t' v → v.bytes = w.bytes + length →
      (∀ n, heardBy n t' = heardBy n t) → v.backlog = w.backlog →
      (v.resendUtterance → w.resendUtterance ∧ v.lastUtterance = w.lastUtterance) →
      Held (t' ++ (v.forward bufferFrames (List.range' w.bytes length)).1)
        (v.forward bufferFrames (List.range' w.bytes length)).2 := by
    intro t' v held' bytes heard sameBacklog sameDue
    refine held'.forward bufferFrames (bytes ▸ behind) ?_ ?_ ?_
    · intro n b listed
      rw [heard] at listed
      exact after b ((held.heard n).behind b listed)
    · intro b listed
      rw [sameBacklog] at listed
      exact after b (held.backlog.behind b listed)
    · intro again b listed
      rw [(sameDue again).2] at listed
      exact after b (held.last.behind b listed)
  have asks : ∀ {t' : List Act} {v : World}, Held t' v → v.bytes = w.bytes + length →
      (∀ n, heardBy n t' = heardBy n t) → v.backlog = w.backlog →
      (v.resendUtterance → w.resendUtterance ∧ v.lastUtterance = w.lastUtterance) →
      Held (t' ++ v.finalize.1 ++ (v.finalize.2.forward bufferFrames (List.range' w.bytes length)).1)
        (v.finalize.2.forward bufferFrames (List.range' w.bytes length)).2 := by
    intro t' v held' bytes heard sameBacklog sameDue
    obtain ⟨_, _, is⟩ := v.finalize_eq
    refine forwards held'.finalize (by rw [is]; exact bytes) ?_ (by rw [is]; exact sameBacklog)
      (by rw [is]; exact sameDue)
    intro n
    rw [heardBy_append, heard, World.heardBy_finalize, List.append_nil]
  have silent : ∀ acts' : List Act, (∀ n, heardBy n acts' = []) →
    ∀ n, heardBy n (t ++ acts') = heardBy n t := by
    intro acts' none n
    rw [heardBy_append, none, List.append_nil]
  have bytes : ∀ (v : World) frame event, (v.keepAudio frame event).bytes = v.bytes := by
    intro v frame event
    obtain ⟨_, _, _, is⟩ := v.keepAudio_eq frame event
    rw [is]
  by_cases ended : w.verdict turns = some .speechEnded
  · rw [ended] at same kept backlog due
    rw [World.onAudio_ended bufferFrames ended]
    simp only [same]
    have received : Held (t ++ [.received (List.range' w.bytes length), .ended w.spoken]) _ :=
      kept.plain ⟨by simp, by simp⟩ fun _ => rfl
    have forwarded := asks received (bytes _ _ _) (silent _ fun _ => rfl) backlog due
    rw [List.append_assoc, List.append_assoc] at forwarded
    exact forwarded
  · rw [World.onAudio_goesOn bufferFrames ended]
    simp only [same]
    have received : Held (t ++ [.received (List.range' w.bytes length)]) _ :=
      kept.plain ⟨by simp, by simp⟩ fun _ => rfl
    have forwarded := forwards received (bytes _ _ _) (silent _ fun _ => rfl) backlog due
    rw [List.append_assoc] at forwarded
    exact forwarded

/-- The words that are due are heard again. -/
theorem Held.hearsAgain (held : Held t w) (due : w.resendUtterance) (n : ℕ) :
    ∀ pre m utterance post, t ++ [.again n w.lastUtterance] = pre ++ .again m utterance :: post →
      ∃ earlier later, pre = earlier ++ .lost utterance :: later ∧ ∀ other, .lost other ∉ later := by
  intro pre m utterance post split
  rcases List.append_eq_append_iff.mp split with ⟨more, rfl, listed⟩ | ⟨more, rfl, listed⟩
  · cases more with
    | nil =>
      obtain ⟨is, -⟩ := List.cons.inj listed
      obtain ⟨rfl, rfl⟩ := Act.again.inj is
      rw [List.append_nil]
      exact held.lost due
    | cons first more => simp at listed
  · cases more with
    | nil =>
      obtain ⟨is, -⟩ := List.cons.inj listed
      obtain ⟨rfl, rfl⟩ := Act.again.inj is
      have lost := held.lost due
      rwa [List.append_nil] at lost
    | cons first more =>
      obtain ⟨rfl, -⟩ := List.cons.inj listed
      exact held.again pre m utterance more rfl

/-- `SttReady`: the session hears what is due, and then what waits. -/
theorem Held.ready (held : Held t w) : Held (t ++ w.onReady.1) w.onReady.2 := by
  by_cases closed : w.opening = 0
  · rw [World.onReady, if_pos closed, List.append_nil]
    exact held
  have numbered : ∀ n, w.sttNext = some n → n < w.sessions + 1 := fun n is =>
    Nat.lt_succ_of_lt (held.waiting n is)
  have current : ∀ n, some w.sessions = some n → n < w.sessions + 1 := fun n is =>
    Option.some.inj is ▸ Nat.lt_succ_self _
  -- only the new session hears anything
  have hears : ∀ {acts : List Act} {xs : List ℕ}, Behind xs w.bytes → heardBy w.sessions acts = xs →
      (∀ n, w.sessions ≠ n → heardBy n acts = []) → (∀ n, Behind (heardBy n (t ++ acts)) w.bytes) ∧
        ∀ n, w.sessions + 1 ≤ n → heardBy n (t ++ acts) = [] := by
    intro acts xs behind own others
    refine ⟨fun n => ?_, fun n fresh => ?_⟩
    · rw [heardBy_append]
      by_cases same : w.sessions = n
      · rw [← same, held.unheard _ (Nat.le_refl _), own]
        exact behind
      · rw [others n same, List.append_nil]
        exact held.heard n
    · rw [heardBy_append, held.unheard n (Nat.le_of_succ_le fresh), others n (Nat.ne_of_lt fresh)]
      rfl
  by_cases resends : w.resendUtterance ∧ w.lastUtterance ≠ [] ∧ w.sessions ∉ w.gone
  · obtain ⟨due, words, open'⟩ := resends
    rw [w.onReady_again closed due words open']
    have own : heardBy w.sessions ([.again w.sessions w.lastUtterance] ++
        (((chunks 160 w.lastUtterance.length w.lastUtterance).map fun chunk =>
          .sent w.sessions (.audio chunk)) ++
        ([.sent w.sessions .finalize] ++ w.backlog.map fun frame => .sent w.sessions (.audio frame)))) =
        w.lastUtterance ++ w.backlog.flatten := by
      rw [heardBy_append, heardBy_append, heardBy_append, heardBy_frames, heardBy_frames,
        chunks_flatten (by decide) (Nat.le_refl _)]
      exact List.nil_append _
    obtain ⟨heard, unheard⟩ := hears (held.last.append held.backlog (held.due due)) own fun n other => by
      rw [heardBy_append, heardBy_append, heardBy_append, heardBy_others other, heardBy_others other]
      exact List.append_nil _
    refine ⟨heard, unheard, current, numbered, held.preroll, held.utterance, held.last, Behind.nil,
      fun _ => rfl,
      fun none => absurd none (Option.some_ne_none _), fun off => absurd off Bool.false_ne_true,
      fun off => absurd off Bool.false_ne_true, ?_⟩
    rw [← List.append_assoc]
    exact again_append (held.hearsAgain due w.sessions) (by simp)
  · rw [w.onReady_waits closed resends]
    have through : ∃ frames : List Frame, frames.flatten.Sublist w.backlog.flatten ∧
        (if w.sessions ∈ w.gone then [] else w.backlog.map fun frame =>
          Act.sent w.sessions (.audio frame)) =
          frames.map fun frame => .sent w.sessions (.audio frame) := by
      split
      · exact ⟨[], List.nil_sublist _, rfl⟩
      · exact ⟨w.backlog, List.Sublist.refl _, rfl⟩
    obtain ⟨frames, part, same⟩ := through
    rw [same]
    obtain ⟨heard, unheard⟩ := hears (held.backlog.sublist part) (heardBy_frames frames) fun n other =>
      heardBy_others other frames
    exact ⟨heard, unheard, current, numbered, held.preroll, held.utterance, held.last, Behind.nil,
      fun _ => rfl,
      fun none => absurd none (Option.some_ne_none _), fun off => absurd off Bool.false_ne_true,
      fun off => absurd off Bool.false_ne_true, again_append held.again (by simp)⟩

/-- A session closes: what it left unanswered is due. -/
theorem Held.closed (held : Held t w) (connected : w.stt.isSome) :
    Held (t ++ w.onClosed.1) w.onClosed.2 := by
  obtain ⟨opening, ends, what, same⟩ := w.onClosed_eq
  rw [same]
  have plain : Plain ends := by
    rcases what with rfl | rfl
    · exact ⟨by simp, by simp⟩
    · exact ⟨by simp, by simp⟩
  have noAudio : ∀ n, heardBy n ends = [] := by
    intro n
    rcases what with rfl | rfl <;> rfl
  have nothing : w.backlog = [] := held.connected connected
  by_cases unanswered : w.finalizeSentAt.isSome ∧ !w.speaking
  · rw [if_pos unanswered, ← List.append_assoc]
    have lost : Held (t ++ [.lost w.lastUtterance]) { w with
        stt := none, reconnects := w.reconnects + 1, finalizeSentAt := none, resendUtterance := true,
        opening := opening } := by
      refine ⟨?_, ?_, nofun, held.waiting, held.preroll, held.utterance, held.last, held.backlog, nofun,
        fun _ => rfl, ?_, ?_, again_append held.again (by simp)⟩
      · intro n
        rw [heardBy_append]
        exact (List.append_nil (heardBy n t)).symm ▸ held.heard n
      · intro n fresh
        rw [heardBy_append]
        exact (List.append_nil (heardBy n t)).symm ▸ held.unheard n fresh
      · intro _ b _ c waits
        rw [nothing] at waits
        exact absurd waits List.not_mem_nil
      · exact fun _ => ⟨t, [], rfl, fun _ => List.not_mem_nil⟩
    have given := lost.plain plain noAudio
    simpa [unanswered] using given
  · rw [if_neg unanswered, List.nil_append]
    refine held.change plain noAudio rfl (Nat.le_refl _) rfl rfl rfl rfl nofun held.waiting nofun
      (fun _ => rfl) fun again => ?_
    rcases (Bool.or_eq_true _ _).mp again with due | now
    · exact due
    · exact absurd (of_decide_eq_true now) unanswered

/-- Sessions that are closed hear nothing. -/
theorem World.heardBy_close (closed : Option ℕ) (n : ℕ) :
    heardBy n (closed.toList.flatMap fun m => w.trySend m .close) = [] := by
  refine List.flatMap_eq_nil_iff.mpr fun act listed => ?_
  obtain ⟨m, rfl⟩ := World.mem_close listed
  rfl

/-- No words are lost, and none heard again, where sessions are closed. -/
theorem Plain.closes (closed : Option ℕ) : Plain (closed.toList.flatMap fun m => w.trySend m .close) := by
  constructor
  · intro u listed
    obtain ⟨m, is⟩ := World.mem_close listed
    cases is
  · intro n u listed
    obtain ⟨m, is⟩ := World.mem_close listed
    cases is

/-- A session may take over, where nothing waits for it. -/
theorem Held.swap (held : Held t w)
    (fit : w.speaking = false → w.finalizeSentAt = none → w.stt.isSome ∨ w.backlog = []) :
    Held (t ++ w.swapSttIfReady.1) w.swapSttIfReady.2 := by
  rcases w.swapSttIfReady_cases with same | ⟨n, next, quiet, unasked, same⟩
  · rw [same, List.append_nil]
    exact held
  · rw [same]
    refine held.change (Plain.closes w.stt) (World.heardBy_close w.stt) rfl
      (Nat.le_refl _) rfl rfl rfl rfl ?_ nofun ?_
      nofun id
    · intro m is
      obtain rfl := Option.some.inj is
      exact held.waiting n next
    · exact fun _ => (fit quiet unasked).elim held.connected id

/-- **A steady step keeps it.** -/
theorem Held.step (held : Held t w) (bufferFrames : ℕ) (i : Input)
    (fit : steady (event (World.step bufferFrames) w i)) :
    Held (t ++ (w.step bufferFrames i).1) (w.step bufferFrames i).2 := by
  have same : Held (t ++ []) w := by
    rw [List.append_nil]
    exact held
  have unasked : ∀ reconnects, Held t { w with reconnects := reconnects, finalizeSentAt := none } :=
    fun _ =>
    ⟨held.heard, held.unheard, held.current, held.waiting, held.preroll, held.utterance, held.last,
      held.backlog,
      held.connected, fun _ => rfl, held.due, held.lost, held.again⟩
  cases i with
  | audio length turns =>
    refine held.audio bufferFrames length turns fun stops => ?_
    have kept : w.resendUtterance = false ∧ (w.secondPending = false ∧ w.finalizeSentAt = none ∨
        ∀ b ∈ w.lastUtterance, ∀ c ∈ w.utterance, b < c) := by
      have both := Bool.and_eq_true _ _ ▸ fit
      simpa [steady, stops] using both.2
    refine ⟨kept.1, fun joined => kept.2.resolve_left fun both => ?_⟩
    rw [both.1, both.2] at joined
    simp at joined
  | ready => exact held.ready
  | unavailable =>
    simp only [World.step]
    by_cases none : w.opening = 0
    · rw [if_pos none]
      exact same
    · rw [if_neg none]
      exact held.change ⟨by simp, by simp⟩ (fun _ => rfl) rfl
        (Nat.le_refl _) rfl rfl rfl rfl held.current held.waiting
        held.connected held.idle id
  | final =>
    simp only [World.step]
    split
    · rename_i n here
      have connected : w.stt.isSome := by rw [here]; rfl
      have answered : Held (t ++ [.answered]) { w with reconnects := 0, finalizeSentAt := none } :=
        (unasked 0).plain ⟨by simp, by simp⟩ fun _ => rfl
      have swapped := answered.swap fun _ _ => .inl connected
      rw [List.append_assoc] at swapped
      exact swapped
    · exact same
  | release =>
    show Held (t ++ []) { w with finalizeSentAt := none }
    rw [List.append_nil]
    exact unasked w.reconnects
  | closed =>
    simp only [World.step]
    by_cases connected : w.stt.isSome
    · rw [if_pos connected]
      exact held.closed connected
    · rw [if_neg connected]
      exact same
  | focused wanted =>
    cases wanted with
    | true =>
      have opened : Held (t ++ w.sttNext.toList.flatMap fun stale => w.trySend stale .close)
          { w with sessions := w.sessions + 1, sttNext := some w.sessions } := by
        refine held.change (Plain.closes w.sttNext) (World.heardBy_close w.sttNext) rfl
          (Nat.le_succ _) rfl rfl rfl rfl
          ?_ ?_ held.connected held.idle id
        · exact fun n is => Nat.lt_succ_of_lt (held.current n is)
        · intro n is
          obtain rfl := Option.some.inj is
          exact Nat.lt_succ_self _
      have swapped := opened.swap fun quiet settled => by
        have silent : w.speaking = false := quiet
        have still : w.finalizeSentAt = none := settled
        simpa [steady, silent, still] using fit
      rw [List.append_assoc] at swapped
      exact swapped
    | false =>
      have closes := Plain.closes (w := w) (some w.sessions)
      have silent := World.heardBy_close (w := w) (some w.sessions)
      rw [Option.toList_some, List.flatMap_singleton] at closes silent
      show Held (t ++ w.trySend w.sessions .close) { w with sessions := w.sessions + 1 }
      exact held.change closes silent rfl (Nat.le_succ _) rfl rfl rfl rfl
        (fun n is => Nat.lt_succ_of_lt (held.current n is))
          (fun n is => Nat.lt_succ_of_lt (held.waiting n is))
        held.connected held.idle id
  | overdue sentAt =>
    simp only [World.step]
    by_cases due : w.finalizeSentAt = some sentAt
    · rw [if_pos due]
      have connected : w.stt.isSome := by
        by_contra none
        rw [held.idle (by simpa using none)] at due
        cases due
      have failed : Held (t ++ (.failed :: w.stt.toList.flatMap fun n => w.trySend n .close))
          { w with finalizeSentAt := none } := by
        have closes := Plain.closes (w := w) w.stt
        refine (unasked w.reconnects).plain ⟨?_, ?_⟩ fun n => World.heardBy_close w.stt n
        · exact fun u listed => closes.lost u (List.mem_of_ne_of_mem Act.noConfusion listed)
        · exact fun n u listed => closes.again n u (List.mem_of_ne_of_mem Act.noConfusion listed)
      have closed := failed.closed connected
      rw [List.append_assoc] at closed
      exact closed
    · rw [if_neg due]
      exact same
  | second pending =>
    show Held (t ++ []) { w with secondPending := pending }
    rw [List.append_nil]
    exact ⟨held.heard, held.unheard, held.current, held.waiting, held.preroll, held.utterance, held.last,
      held.backlog, held.connected, held.idle, held.due, held.lost, held.again⟩
  | gone n =>
    show Held (t ++ []) { w with gone := n :: w.gone }
    rw [List.append_nil]
    exact ⟨held.heard, held.unheard, held.current, held.waiting, held.preroll, held.utterance, held.last,
      held.backlog, held.connected, held.idle, held.due, held.lost, held.again⟩

end Steps

/-! ### No frame is left behind -/

/-- Every frame was sent, or pushed out of the full backlog, or waits. -/
def AllSent (t : List Act) (w : World) : Prop :=
  ∀ frame, .received frame ∈ t →
    (∃ n, .sent n (.audio frame) ∈ t) ∨ .dropped frame ∈ t ∨ w.stt = none ∧ frame ∈ w.backlog

section All

variable {t acts : List Act} {w w' : World}

/-- No frame comes, and what waits still does, or is sent. -/
theorem AllSent.change (all : AllSent t w) (noFrame : ∀ frame, .received frame ∉ acts)
    (waits : w.stt = none → w'.stt = none ∧ w'.backlog = w.backlog ∨
      ∀ frame ∈ w.backlog, ∃ n, .sent n (.audio frame) ∈ acts) : AllSent (t ++ acts) w' := by
  intro frame listed
  rcases List.mem_append.mp listed with before | new
  · rcases all frame before with ⟨n, sent⟩ | dropped | ⟨idle, kept⟩
    · exact .inl ⟨n, List.mem_append_left _ sent⟩
    · exact .inr (.inl (List.mem_append_left _ dropped))
    · rcases waits idle with ⟨still, same⟩ | sends
      · exact .inr (.inr ⟨still, same ▸ kept⟩)
      · obtain ⟨n, sent⟩ := sends frame kept
        exact .inl ⟨n, List.mem_append_right _ sent⟩
  · exact absurd new (noFrame frame)

/-- A frame goes to the session, or waits; what is pushed out of the backlog is dropped. -/
theorem AllSent.forward {frame : Frame} (bufferFrames : ℕ) (listens : ∀ n, w.stt = some n → n ∉ w.gone)
    (all : ∀ f, .received f ∈ t → f = frame ∨ (∃ n, .sent n (.audio f) ∈ t) ∨ .dropped f ∈ t ∨
      w.stt = none ∧ f ∈ w.backlog) :
    AllSent (t ++ (w.forward bufferFrames frame).1) (w.forward bufferFrames frame).2 := by
  have noFrame : ∀ f, .received f ∉ (w.forward bufferFrames frame).1 := by
    intro f listed
    cases here : w.stt with
    | some n =>
      rw [World.forward_connected bufferFrames here] at listed
      cases (World.mem_trySend.mp listed).2
    | none =>
      rw [World.forward_waiting bufferFrames here] at listed
      obtain ⟨_, _, is⟩ := List.mem_map.mp listed
      cases is
  intro f listed
  have before := (List.mem_append.mp listed).resolve_right (noFrame f)
  cases here : w.stt with
  | some n =>
    rw [World.forward_connected bufferFrames here, World.trySend_open (listens n here)]
    rcases all f before with rfl | ⟨m, sent⟩ | dropped | ⟨idle, -⟩
    · exact .inl ⟨n, List.mem_append_right _ List.mem_cons_self⟩
    · exact .inl ⟨m, List.mem_append_left _ sent⟩
    · exact .inr (.inl (List.mem_append_left _ dropped))
    · exact absurd (here.symm.trans idle) (Option.some_ne_none n)
  | none =>
    rw [World.forward_waiting bufferFrames here]
    have waits : f ∈ w.backlog ++ [frame] →
        .dropped f ∈ t ++ ((w.backlog ++ [frame]).take
          ((w.backlog ++ [frame]).length - bufferFrames)).map .dropped ∨
          f ∈ (w.backlog ++ [frame]).drop ((w.backlog ++ [frame]).length - bufferFrames) := by
      intro kept
      rw [← List.take_append_drop ((w.backlog ++ [frame]).length - bufferFrames)
        (w.backlog ++ [frame])] at kept
      refine (List.mem_append.mp kept).imp_left fun out => ?_
      exact List.mem_append_right _ (List.mem_map.mpr ⟨f, out, rfl⟩)
    rcases all f before with rfl | ⟨m, sent⟩ | dropped | ⟨-, kept⟩
    · exact .inr ((waits (by simp)).imp_right fun kept => ⟨here, kept⟩)
    · exact .inl ⟨m, List.mem_append_left _ sent⟩
    · exact .inr (.inl (List.mem_append_left _ dropped))
    · exact .inr ((waits (List.mem_append_left _ kept)).imp_right fun kept => ⟨here, kept⟩)

/-- `on_audio`, where the session that is connected listens. -/
theorem AllSent.audio (all : AllSent t w) (bufferFrames length : ℕ) (turns : Bool)
    (listens : ∀ n, w.stt = some n → n ∉ w.gone) :
    AllSent (t ++ (w.onAudio bufferFrames length turns).1) (w.onAudio bufferFrames length turns).2 := by
  have voiced : ∀ event, ∃ v,
    ({ w with bytes := w.bytes + length }.hear (List.range' w.bytes length) event).keepAudio
      (List.range' w.bytes length) event = v ∧ v.stt = w.stt ∧ v.backlog = w.backlog ∧
      v.gone = w.gone := by
    intro event
    obtain ⟨_, _, heard⟩ :=
      { w with bytes := w.bytes + length }.hear_eq (List.range' w.bytes length) event
    obtain ⟨_, _, _, kept⟩ := ({ w with bytes := w.bytes + length }.hear (List.range' w.bytes length)
      event).keepAudio_eq (List.range' w.bytes length) event
    refine ⟨_, rfl, ?_, ?_, ?_⟩
    · rw [kept, heard]
    · rw [kept, heard]
    · rw [kept, heard]
  obtain ⟨v, is, sessions, backlog, gone⟩ := voiced (w.verdict turns)
  -- what is noted before the frame is sent
  have forwards : ∀ (v' : World) (noted : List Act), v'.stt = w.stt → v'.backlog = w.backlog →
    v'.gone = w.gone →
      (∀ f, .received f ∈ noted → f = List.range' w.bytes length) →
      AllSent (t ++ noted ++ (v'.forward bufferFrames (List.range' w.bytes length)).1)
        (v'.forward bufferFrames (List.range' w.bytes length)).2 := by
    intro v' noted sameSessions sameBacklog sameGone own
    refine AllSent.forward bufferFrames (by rw [sameSessions, sameGone]; exact listens) fun f listed => ?_
    rcases List.mem_append.mp listed with before | new
    · rcases all f before with ⟨n, sent⟩ | dropped | ⟨idle, kept⟩
      · exact .inr (.inl ⟨n, List.mem_append_left _ sent⟩)
      · exact .inr (.inr (.inl (List.mem_append_left _ dropped)))
      · exact .inr (.inr (.inr ⟨sameSessions.trans idle, sameBacklog ▸ kept⟩))
    · exact .inl (own f new)
  by_cases ended : w.verdict turns = some .speechEnded
  · rw [World.onAudio_ended bufferFrames ended]
    rw [ended] at is
    simp only [is]
    obtain ⟨_, _, finalized⟩ := v.finalize_eq
    have own : ∀ f, .received f ∈ [Act.received (List.range' w.bytes length),
      .ended w.spoken] ++ v.finalize.1 →
        f = List.range' w.bytes length := by
      intro f listed
      rcases v.finalize_cases with same | ⟨n, -, same⟩
      · simpa [same] using listed
      · simpa [same] using listed
    have sent :=
      forwards v.finalize.2 ([.received (List.range' w.bytes length), .ended w.spoken] ++ v.finalize.1)
      (by rw [finalized]; exact sessions) (by rw [finalized]; exact backlog)
        (by rw [finalized]; exact gone) own
    rw [List.append_assoc] at sent
    exact sent
  · rw [World.onAudio_goesOn bufferFrames ended]
    simp only [is]
    have sent := forwards v [.received (List.range' w.bytes length)] sessions backlog gone (by simp)
    rw [List.append_assoc] at sent
    exact sent

/-- `SttReady`: what waits is sent, to a session that listens. -/
theorem AllSent.ready (all : AllSent t w) (fit : w.opening = 0 ∨ w.sessions ∉ w.gone ∨ w.backlog = []) :
    AllSent (t ++ w.onReady.1) w.onReady.2 := by
  by_cases closed : w.opening = 0
  · rw [World.onReady, if_pos closed, List.append_nil]
    exact all
  by_cases resends : w.resendUtterance ∧ w.lastUtterance ≠ [] ∧ w.sessions ∉ w.gone
  · rw [w.onReady_again closed resends.1 resends.2.1 resends.2.2]
    refine all.change (by simp) fun _ => .inr fun frame kept => ⟨w.sessions, ?_⟩
    simp [kept]
  · rw [w.onReady_waits closed resends]
    refine all.change (fun frame listed => ?_) fun _ => .inr fun frame kept => ⟨w.sessions, ?_⟩
    · split at listed <;> simp at listed
    · rcases fit.resolve_left closed with open' | nothing
      · rw [if_neg open']
        exact List.mem_map.mpr ⟨frame, kept, rfl⟩
      · rw [nothing] at kept
        exact absurd kept List.not_mem_nil

theorem AllSent.closed (all : AllSent t w) : AllSent (t ++ w.onClosed.1) w.onClosed.2 := by
  obtain ⟨opening, ends, what, same⟩ := w.onClosed_eq
  rw [same]
  refine all.change (fun frame listed => ?_) fun _ => .inl ⟨rfl, rfl⟩
  rcases List.mem_append.mp listed with lost | given
  · split at lost
    · cases List.mem_singleton.mp lost
    · exact absurd lost List.not_mem_nil
  · rcases what with rfl | rfl
    · exact absurd given List.not_mem_nil
    · cases List.mem_singleton.mp given

theorem AllSent.swap (all : AllSent t w)
    (fit : w.speaking = false → w.finalizeSentAt = none → w.stt.isSome ∨ w.backlog = []) :
    AllSent (t ++ w.swapSttIfReady.1) w.swapSttIfReady.2 := by
  rcases w.swapSttIfReady_cases with same | ⟨n, next, quiet, unasked, same⟩
  · rw [same, List.append_nil]
    exact all
  · rw [same]
    refine all.change (fun frame listed => ?_) fun idle => .inr fun frame kept => ?_
    · obtain ⟨_, is⟩ := World.mem_close listed
      cases is
    · rcases fit quiet unasked with connected | nothing
      · rw [idle] at connected
        cases connected
      · rw [nothing] at kept
        exact absurd kept List.not_mem_nil

/-- **A steady step leaves no frame behind.** -/
theorem AllSent.step (all : AllSent t w) (bufferFrames : ℕ) (i : Input)
    (fit : steady (event (World.step bufferFrames) w i)) :
    AllSent (t ++ (w.step bufferFrames i).1) (w.step bufferFrames i).2 := by
  have same : AllSent (t ++ []) w := by
    rw [List.append_nil]
    exact all
  -- acts of the sessions
  have quietly : ∀ {noted : List Act} {v : World}, (∀ frame, .received frame ∉ noted) → v.stt = w.stt →
      v.backlog = w.backlog → AllSent (t ++ noted) v := fun noFrame sessions backlog =>
    all.change noFrame fun idle => .inl ⟨sessions.trans idle, backlog⟩
  have closes (closed : Option ℕ) (frame : Frame) :
      .received frame ∉ closed.toList.flatMap fun n => w.trySend n .close := by
    intro listed
    obtain ⟨_, is⟩ := World.mem_close listed
    cases is
  cases i with
  | audio length turns =>
    refine all.audio bufferFrames length turns fun n here => ?_
    have either := (Bool.or_eq_true _ _).mp (Bool.and_eq_true _ _ ▸ fit).1
    have connected : w.stt.isNone = false := by rw [here]; rfl
    have listens := either.resolve_left (Bool.eq_false_iff.mp connected)
    obtain ⟨m, is, open'⟩ := (Option.any_eq_true _ _).mp listens
    obtain rfl := Option.some.inj (here.symm.trans is)
    exact of_decide_eq_true open'
  | ready => exact all.ready ((of_decide_eq_true fit).imp_right fun fit => fit.imp_right And.left)
  | unavailable =>
    simp only [World.step]
    by_cases none : w.opening = 0
    · rw [if_pos none]
      exact same
    · rw [if_neg none]
      exact quietly (by simp) rfl rfl
  | final =>
    simp only [World.step]
    split
    · rename_i n here
      have answered : AllSent (t ++ [.answered]) { w with reconnects := 0, finalizeSentAt := none } :=
        quietly (by simp) rfl rfl
      have swapped := answered.swap fun _ _ => .inl (by show w.stt.isSome; rw [here]; rfl)
      rw [List.append_assoc] at swapped
      exact swapped
    · exact same
  | release => exact quietly (by simp [World.step]) rfl rfl
  | closed =>
    simp only [World.step]
    by_cases connected : w.stt.isSome
    · rw [if_pos connected]
      exact all.closed
    · rw [if_neg connected]
      exact same
  | focused wanted =>
    cases wanted with
    | true =>
      have opened : AllSent (t ++ w.sttNext.toList.flatMap fun stale => w.trySend stale .close)
          { w with sessions := w.sessions + 1, sttNext := some w.sessions } :=
            quietly (closes w.sttNext) rfl rfl
      have swapped := opened.swap fun quiet settled => by
        have silent : w.speaking = false := quiet
        have still : w.finalizeSentAt = none := settled
        simpa [steady, silent, still] using fit
      rw [List.append_assoc] at swapped
      exact swapped
    | false =>
      have only := closes (some w.sessions)
      rw [Option.toList_some, List.flatMap_singleton] at only
      exact quietly only rfl rfl
  | overdue sentAt =>
    simp only [World.step]
    by_cases due : w.finalizeSentAt = some sentAt
    · rw [if_pos due]
      have failed : AllSent (t ++ (.failed :: w.stt.toList.flatMap fun n => w.trySend n .close))
          { w with finalizeSentAt := none } :=
        quietly (fun frame listed =>
          closes w.stt frame (List.mem_of_ne_of_mem Act.noConfusion listed)) rfl rfl
      have closed := failed.closed
      rw [List.append_assoc] at closed
      exact closed
    · rw [if_neg due]
      exact same
  | second pending => exact quietly (by simp [World.step]) rfl rfl
  | gone n => exact quietly (by simp [World.step]) rfl rfl

end All

/-! ### The audio is heard once and in order -/

/-- What is kept, after every steady run. -/
theorem Steady.kept {bufferFrames : ℕ} {inputs : List Input} (all : Steady (run bufferFrames inputs)) :
    Held (trace (run bufferFrames inputs)) (reached bufferFrames inputs) ∧
      AllSent (trace (run bufferFrames inputs)) (reached bufferFrames inputs) := by
  refine run_induction (C := fun _ ev => steady ev)
    (P := fun evs w => Held (trace evs) w ∧ AllSent (trace evs) w)
    ⟨?_, ?_⟩ ?_ fun pre ev post split =>
      all ev (by rw [run, split]; exact List.mem_append_right _ List.mem_cons_self)
  · refine ⟨fun _ => Behind.nil, fun _ _ => rfl, fun n is => absurd is (Option.some_ne_none n).symm,
      fun n is => absurd is (Option.some_ne_none n).symm, Behind.nil, Behind.nil, Behind.nil, Behind.nil,
      fun _ => rfl, fun _ => rfl, fun off => absurd off Bool.false_ne_true,
      fun off => absurd off Bool.false_ne_true, ?_⟩
    intro pre n u post split
    exact absurd (split ▸ List.mem_append_right pre List.mem_cons_self) List.not_mem_nil
  · exact fun _ none => absurd none List.not_mem_nil
  · intro pre w i kept fit
    rw [trace_append, trace_single]
    exact ⟨kept.1.step bufferFrames i fit, kept.2.step bufferFrames i fit⟩

end Callora.Hearing
