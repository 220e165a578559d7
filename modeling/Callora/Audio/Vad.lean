/-
**Speech starts on enough voice, and ends.**

The detector fills a counter while it hears a voice and drains it twice as fast while it does not
(`Vad.pushWith`). Over every sequence of frames, with the endpoint moved in between:

- `count_speechMs`: before speech, the counter is the greatest sum of voiced time less twice the
  unvoiced time over the suffixes of the frames since speech last ended;
- `Listening.concludes`: what a frame keeps of the detector and its log;
- `vad_sound`: speech starts exactly when that sum first reaches the trigger; starts and ends
  alternate; and speech goes on neither beyond the longest utterance nor beyond the endpoint's
  silence.

How loud a frame is, the thresholds and the sureness of a voice are floating point: they are given
(`Ear`), with the test the code makes of them. Milliseconds are natural numbers; no call comes near
2^63 of them.
-/
import Callora.Library.Runs
import Callora.Library.Suffixes
import Mathlib.Data.List.DropRight
import Mathlib.Data.List.Chain
import Mathlib.Algebra.GroupWithZero.Nat

set_option linter.unusedSectionVars false

namespace Callora.Audio

open Runs Suffixes

/-! ### The detector -/

/-- The times of a configuration, in milliseconds. -/
structure VadConfig where
  triggerMs : ℕ
  endpointMs : ℕ
  maxSpeechMs : ℕ
  deriving DecidableEq

inductive VadEvent
  | speechStarted
  | speechEnded
  deriving DecidableEq

/-- What is heard of a frame: its bytes, the code's own test of a voice in it, while speech goes on
or not, and what becomes of the levels. -/
structure Ear (lev frame : Type) where
  bytes : frame → ℕ
  voiced : lev → Bool → frame → Bool
  /-- `last_rms` and `floor`. -/
  heard : lev → frame → lev
  /-- `loudness` and `peak`, begun anew. -/
  begun : lev → lev
  /-- `loudness` and `peak`, with this frame. -/
  counted : lev → frame → lev
  /-- The threshold goes above steady noise. -/
  raised : lev → ℕ → lev

structure Vad (lev : Type) where
  cfg : VadConfig
  levels : lev
  speechMs : ℕ
  silenceMs : ℕ
  speaking : Bool
  speakingMs : ℕ
  endpointMs : ℕ

namespace Vad

variable {lev frame : Type}

/-- `Vad::new`. -/
def new (cfg : VadConfig) (levels : lev) : Vad lev where
  cfg := cfg
  levels := levels
  speechMs := 0
  silenceMs := 0
  speaking := false
  speakingMs := 0
  endpointMs := cfg.endpointMs

/-- `Vad::set_endpoint_ms`. -/
def setEndpointMs (v : Vad lev) (ms : ℕ) : Vad lev := { v with endpointMs := max ms 60 }

/-- The length of a frame. -/
def frameMs (ear : Ear lev frame) (f : frame) : ℕ := ear.bytes f * 1000 / 8000

/-- The counters after a frame, before anything is decided. -/
def count (ear : Ear lev frame) (v : Vad lev) (f : frame) : Vad lev :=
  if ear.voiced v.levels v.speaking f then
    { v with
      levels := ear.heard v.levels f
      speechMs := min (v.speechMs + frameMs ear f) (2 * v.cfg.triggerMs)
      silenceMs := 0 }
  else
    { v with
      levels := ear.heard v.levels f
      speechMs := v.speechMs - 2 * frameMs ear f
      silenceMs := v.silenceMs + frameMs ear f }

/-- What is decided of the counters. -/
def conclude (ear : Ear lev frame) (v : Vad lev) (f : frame) : Option VadEvent × Vad lev :=
  if ¬ v.speaking ∧ v.cfg.triggerMs ≤ v.speechMs then
    (some .speechStarted, { v with levels := ear.begun v.levels, speaking := true, speakingMs := 0 })
  else if v.speaking then
    let speakingMs := v.speakingMs + frameMs ear f
    let levels := ear.counted v.levels f
    if v.cfg.maxSpeechMs ≤ speakingMs then
      (some .speechEnded, { v with
        levels := ear.raised levels speakingMs
        speakingMs := speakingMs
        speaking := false
        speechMs := 0
        silenceMs := 0 })
    else if v.endpointMs ≤ v.silenceMs then
      (some .speechEnded, { v with
        levels := levels
        speakingMs := speakingMs
        speaking := false
        speechMs := 0 })
    else (none, { v with levels := levels, speakingMs := speakingMs })
  else (none, v)

/-- `Vad::push_with`. -/
def pushWith (ear : Ear lev frame) (v : Vad lev) (f : frame) : Option VadEvent × Vad lev :=
  conclude ear (count ear v f) f

end Vad

/-- What the runtime gives the detector. -/
inductive VadInput (frame : Type)
  | frame (f : frame)
  | setEndpoint (ms : ℕ)

section Runs

variable {lev frame : Type} (ear : Ear lev frame)

/-- The detector takes an input. -/
def Vad.step (v : Vad lev) : VadInput frame → Option VadEvent × Vad lev
  | .frame f => v.pushWith ear f
  | .setEndpoint ms => (none, v.setEndpointMs ms)

/-- What happened at a frame: its length, what the test said, whether speech was going on, the
endpoint then, and the event. -/
structure Heard where
  ms : ℕ
  voiced : Bool
  speaking : Bool
  endpointMs : ℕ
  event : Option VadEvent
  deriving DecidableEq

/-- The entry of a frame. -/
def entry (v : Vad lev) (f : frame) : Heard where
  ms := Vad.frameMs ear f
  voiced := ear.voiced v.levels v.speaking f
  speaking := v.speaking
  endpointMs := v.endpointMs
  event := (v.pushWith ear f).1

/-- What an event of a run says of a frame. -/
def heardAt (ev : Event (Vad lev) (VadInput frame) (Option VadEvent)) : Option Heard :=
  match ev.input with
  | .frame f => some (entry ear ev.before f)
  | .setEndpoint _ => none

/-- The frames of a run. -/
def vadLog (cfg : VadConfig) (levels : lev) (inputs : List (VadInput frame)) : List Heard :=
  (events (Vad.step ear) (Vad.new cfg levels) inputs).filterMap (heardAt ear)

end Runs

/-! ### What a log tells -/

/-- Voiced time counts once, unvoiced time twice against it. -/
def Heard.gain (h : Heard) : ℤ := if h.voiced then h.ms else -(2 * h.ms)

/-- The time of some frames. -/
def lasting (frames : List Heard) : ℕ := (frames.map Heard.ms).sum

/-- The frames since speech last ended, or from the start. -/
def sinceEnd (log : List Heard) : List Heard := log.rtakeWhile (·.event ≠ some .speechEnded)

/-- Some suffix of the frames has enough voice. -/
def Enough (cfg : VadConfig) (frames : List Heard) : Prop :=
  ∃ suffix, suffix <:+ frames ∧ (cfg.triggerMs : ℤ) ≤ (suffix.map Heard.gain).sum

/-- It holds of every frame of a log, with the frames before it. -/
def Each (P : List Heard → Heard → Prop) (log : List Heard) : Prop :=
  ∀ pre h post, log = pre ++ h :: post → P pre h

/-- Speech starts at a frame exactly when it was not going on and there is enough voice now, for the
first time since speech last ended. -/
def StartsOnVoice (cfg : VadConfig) (pre : List Heard) (h : Heard) : Prop :=
  h.event = some .speechStarted ↔
    h.speaking = false ∧ Enough cfg (sinceEnd pre ++ [h]) ∧
      ∀ p g q, sinceEnd pre = p ++ g :: q → ¬ Enough cfg (p ++ [g])

/-- Speech that goes on, up to this frame, has lasted no longer than the longest utterance and this
frame. -/
def EndsInTime (cfg : VadConfig) (pre : List Heard) (h : Heard) : Prop :=
  ∀ a s b, pre = a ++ s :: b → s.event = some .speechStarted → (∀ x ∈ b, x.event = none) →
    lasting (b ++ [h]) ≤ cfg.maxSpeechMs + h.ms

/-- Speech that goes on after this frame has had less than the endpoint of uninterrupted silence. -/
def EndsInSilence (pre : List Heard) (h : Heard) : Prop :=
  ∀ a s b w, pre = a ++ s :: (b ++ w) → s.event = some .speechStarted → (∀ x ∈ b ++ w, x.event = none) →
    (∀ x ∈ w ++ [h], x.voiced = false) → h.event ≠ some .speechEnded → lasting (w ++ [h]) < h.endpointMs

/-- Starts and ends alternate, a start first. -/
def Alternate (log : List Heard) : Prop :=
  List.IsChain (· ≠ ·) (VadEvent.speechEnded :: log.filterMap Heard.event)

/-! ### What a frame does -/

section Frames

variable {lev frame : Type} (ear : Ear lev frame)

/-- What is concluded of the counters `v` after a frame of `ms`: the event, and the state after it,
with some levels. -/
inductive Concluded (v : Vad lev) (ms : ℕ) : Option VadEvent → Vad lev → Prop
  | starts (levels : lev) (silent : v.speaking = false) (reached : v.cfg.triggerMs ≤ v.speechMs) :
      Concluded v ms (some .speechStarted) { v with levels := levels, speaking := true, speakingMs := 0 }
  | waits (silent : v.speaking = false) (short : v.speechMs < v.cfg.triggerMs) : Concluded v ms none v
  | tooLong (levels : lev) (speaks : v.speaking = true) (long : v.cfg.maxSpeechMs ≤ v.speakingMs + ms) :
      Concluded v ms (some .speechEnded) { v with
        levels := levels, speakingMs := v.speakingMs + ms, speaking := false, speechMs := 0,
        silenceMs := 0 }
  | ends (levels : lev) (speaks : v.speaking = true) (short : v.speakingMs + ms < v.cfg.maxSpeechMs)
      (quiet : v.endpointMs ≤ v.silenceMs) :
      Concluded v ms (some .speechEnded) { v with
        levels := levels, speakingMs := v.speakingMs + ms, speaking := false, speechMs := 0 }
  | goesOn (levels : lev) (speaks : v.speaking = true) (short : v.speakingMs + ms < v.cfg.maxSpeechMs)
      (loud : v.silenceMs < v.endpointMs) :
      Concluded v ms none { v with levels := levels, speakingMs := v.speakingMs + ms }

theorem concluded (v : Vad lev) (f : frame) :
    Concluded v (Vad.frameMs ear f) (v.conclude ear f).1 (v.conclude ear f).2 := by
  unfold Vad.conclude
  split
  · next both => exact .starts _ (by simpa using both.1) both.2
  · next other =>
    split
    · next speaks =>
      dsimp only
      split
      · next long => exact .tooLong _ speaks long
      · next short =>
        split
        · next quiet => exact .ends _ speaks (Nat.not_le.mp short) quiet
        · next loud => exact .goesOn _ speaks (Nat.not_le.mp short) (Nat.not_le.mp loud)
    · next silent =>
      have idle : v.speaking = false := by simpa using silent
      exact .waits idle (Nat.not_le.mp fun reached => other ⟨by simp [idle], reached⟩)

variable {ear} {v : Vad lev} {f : frame}

@[simp] theorem count_cfg : (v.count ear f).cfg = v.cfg := by
  unfold Vad.count
  split <;> rfl

@[simp] theorem count_speaking : (v.count ear f).speaking = v.speaking := by
  unfold Vad.count
  split <;> rfl

@[simp] theorem count_speakingMs : (v.count ear f).speakingMs = v.speakingMs := by
  unfold Vad.count
  split <;> rfl

@[simp] theorem count_endpointMs : (v.count ear f).endpointMs = v.endpointMs := by
  unfold Vad.count
  split <;> rfl

/-- Silence goes on through an unvoiced frame. -/
theorem count_silenceMs (unvoiced : (entry ear v f).voiced = false) :
    (v.count ear f).silenceMs = v.silenceMs + (entry ear v f).ms := by
  have no : ¬ ear.voiced v.levels v.speaking f = true := by simpa [entry] using unvoiced
  rw [Vad.count, if_neg no]
  rfl

/-- The counter goes on as the peak does, until it reaches the trigger. -/
theorem count_speechMs {gains : List ℤ} (counted : (v.speechMs : ℤ) = peak gains) :
    (v.cfg.triggerMs ≤ (v.count ear f).speechMs ↔
      (v.cfg.triggerMs : ℤ) ≤ peak (gains ++ [(entry ear v f).gain])) ∧
      ((v.count ear f).speechMs < v.cfg.triggerMs →
        ((v.count ear f).speechMs : ℤ) = peak (gains ++ [(entry ear v f).gain])) := by
  rw [peak_concat, ← counted]
  by_cases voice : ear.voiced v.levels v.speaking f = true
  · have gain : (entry ear v f).gain = (Vad.frameMs ear f : ℤ) := if_pos voice
    rw [Vad.count, if_pos voice, gain]
    dsimp only
    omega
  · have gain : (entry ear v f).gain = -(2 * (Vad.frameMs ear f : ℤ)) := if_neg voice
    rw [Vad.count, if_neg voice, gain]
    dsimp only
    omega

end Frames

/-! ### Logs -/

section Logs

variable {cfg : VadConfig} {log frames : List Heard} {h : Heard}

theorem enough_iff : Enough cfg frames ↔ (cfg.triggerMs : ℤ) ≤ peak (frames.map Heard.gain) := by
  rw [le_peak_iff]
  constructor
  · rintro ⟨suffix, within, reached⟩
    exact ⟨_, within.map _, reached⟩
  · rintro ⟨sums, within, reached⟩
    obtain ⟨suffix, within', rfl⟩ := List.suffix_map_iff.mp within
    exact ⟨suffix, within', reached⟩

theorem Each.concat {P : List Heard → Heard → Prop} (each : Each P log) (last : P log h) :
    Each P (log ++ [h]) := by
  intro pre g post split
  rcases split_concat split with ⟨rfl, rfl, rfl⟩ | ⟨post, rfl, rfl⟩
  · exact last
  · exact each pre g post rfl

theorem sinceEnd_end (ended : h.event = some .speechEnded) : sinceEnd (log ++ [h]) = [] :=
  List.rtakeWhile_concat_neg _ _ _ (by simp [ended])

theorem sinceEnd_other (other : h.event ≠ some .speechEnded) :
    sinceEnd (log ++ [h]) = sinceEnd log ++ [h] :=
  List.rtakeWhile_concat_pos _ _ _ (by simpa using other)

@[simp] theorem lasting_nil : lasting [] = 0 := rfl

@[simp] theorem lasting_concat (frames : List Heard) (h : Heard) :
    lasting (frames ++ [h]) = lasting frames + h.ms := by
  simp [lasting]

/-- The frames after speech last started. -/
def sinceStart (log : List Heard) : List Heard := log.rtakeWhile (·.event ≠ some .speechStarted)

theorem sinceStart_start (started : h.event = some .speechStarted) : sinceStart (log ++ [h]) = [] :=
  List.rtakeWhile_concat_neg _ _ _ (by simp [started])

theorem sinceStart_other (other : h.event ≠ some .speechStarted) :
    sinceStart (log ++ [h]) = sinceStart log ++ [h] :=
  List.rtakeWhile_concat_pos _ _ _ (by simpa using other)

/-- An utterance that goes on is what came after its start. -/
theorem sinceStart_eq {a b : List Heard} {s : Heard} (started : s.event = some .speechStarted)
    (goes : ∀ x ∈ b, x.event = none) : sinceStart (a ++ s :: b) = b := by
  induction b using List.reverseRecOn with
  | nil => exact sinceStart_start started
  | append_singleton b x ih =>
    have quiet : x.event = none := goes x (by simp)
    rw [← List.cons_append, ← List.append_assoc, sinceStart_other (by simp [quiet]),
      ih fun y listed => goes y (List.mem_append_left _ listed)]

end Logs

/-! ### Every run -/

/-- What holds of the detector after the frames of a log. -/
structure Listening {lev : Type} (cfg : VadConfig) (log : List Heard) (v : Vad lev) : Prop where
  config : v.cfg = cfg
  counted : v.speaking = false → (v.speechMs : ℤ) = peak ((sinceEnd log).map Heard.gain)
  fresh : v.speaking = false → ∀ p g q, sinceEnd log = p ++ g :: q → ¬ Enough cfg (p ++ [g])
  alternate : Alternate log
  going : (VadEvent.speechEnded :: log.filterMap Heard.event).getLast? =
    some (if v.speaking then .speechStarted else .speechEnded)
  lasts : v.speaking = true → v.speakingMs = lasting (sinceStart log) ∧
    (sinceStart log ≠ [] → v.speakingMs < cfg.maxSpeechMs)
  quiet : ∀ w, w <:+ log → (∀ x ∈ w, x.event = none ∧ x.voiced = false) → lasting w ≤ v.silenceMs

section Step

variable {lev frame : Type} {ear : Ear lev frame} {cfg : VadConfig} {log : List Heard}
    {v : Vad lev} {f : frame}

/-- The events after one more. -/
theorem Alternate.concat {h : Heard} {e last : VadEvent} (alternate : Alternate log)
    (going : (VadEvent.speechEnded :: log.filterMap Heard.event).getLast? = some last)
    (is : h.event = some e)
    (differ : last ≠ e) : Alternate (log ++ [h]) ∧
      (VadEvent.speechEnded :: (log ++ [h]).filterMap Heard.event).getLast? = some e := by
  have events : (log ++ [h]).filterMap Heard.event = log.filterMap Heard.event ++ [e] := by
    simp [List.filterMap_append, is]
  rw [Alternate, events, ← List.cons_append]
  refine ⟨List.isChain_append.mpr ⟨alternate, by simp, ?_⟩, List.getLast?_concat⟩
  intro x last' y first
  rw [going] at last'
  obtain rfl := Option.mem_some_iff.mp last'
  obtain rfl : e = y := by simpa using first
  exact differ

/-- The events after a frame without one. -/
theorem filterMap_quiet {h : Heard} (quiet : h.event = none) :
    (log ++ [h]).filterMap Heard.event = log.filterMap Heard.event := by
  simp [List.filterMap_append, quiet]

/-- Silence after a frame. -/
theorem Listening.quiet_concat {v' : Vad lev} (listening : Listening cfg log v)
    (kept : (entry ear v f).event = none → v'.silenceMs = (v.count ear f).silenceMs) :
    ∀ w, w <:+ log ++ [entry ear v f] → (∀ x ∈ w, x.event = none ∧ x.voiced = false) →
    lasting w ≤ v'.silenceMs := by
  intro w within unvoiced
  rcases List.suffix_concat_iff.mp within with rfl | ⟨w, rfl, before⟩
  · exact Nat.zero_le _
  · obtain ⟨none', silent⟩ := unvoiced (entry ear v f) (by simp)
    rw [lasting_concat, kept none', count_silenceMs silent]
    exact Nat.add_le_add_right
      (listening.quiet w before fun x listed => unvoiced x (List.mem_append_left _ listed)) _

/-- Before speech, the counter tells whether there is enough voice. -/
theorem Listening.enough (listening : Listening cfg log v) (idle : v.speaking = false) :
    ((v.count ear f).cfg.triggerMs ≤ (v.count ear f).speechMs ↔
      Enough cfg (sinceEnd log ++ [entry ear v f])) ∧
      ((v.count ear f).speechMs < (v.count ear f).cfg.triggerMs →
        ((v.count ear f).speechMs : ℤ) = peak ((sinceEnd log ++ [entry ear v f]).map Heard.gain)) := by
  have counted := @count_speechMs _ _ ear v f _ (listening.counted idle)
  rw [enough_iff, ← listening.config, count_cfg, List.map_append]
  exact counted

/-- While an utterance goes on, the detector is speaking. -/
theorem Listening.speaks (listening : Listening cfg log v) {a b : List Heard} {s : Heard}
    (split : log = a ++ s :: b)
    (started : s.event = some .speechStarted) (goes : ∀ x ∈ b, x.event = none) :
    v.speaking = true ∧ sinceStart log = b := by
  have events : log.filterMap Heard.event = a.filterMap Heard.event ++ [.speechStarted] := by
    have none' : b.filterMap Heard.event = [] := List.filterMap_eq_nil_iff.mpr goes
    rw [split, List.filterMap_append, List.filterMap_cons, started, none']
  refine ⟨?_, split ▸ sinceStart_eq started goes⟩
  have last := listening.going
  rw [events, ← List.cons_append, List.getLast?_concat] at last
  by_contra idle
  rw [if_neg idle] at last
  cases last

/-- **What a frame keeps.** -/
theorem Listening.concludes (listening : Listening cfg log v) {e : Option VadEvent} {v' : Vad lev}
    (outcome : Concluded (v.count ear f) (Vad.frameMs ear f) e v') (is : (entry ear v f).event = e) :
    Listening cfg (log ++ [entry ear v f]) v' := by
  have config : (v.count ear f).cfg = cfg := count_cfg.trans listening.config
  cases outcome with
  | starts levels idle reached =>
    rw [count_speaking] at idle
    have going := listening.going
    rw [idle] at going
    obtain ⟨alternate, last⟩ := Alternate.concat listening.alternate going is (by simp)
    exact {
      config := config
      counted := fun no => nomatch no
      fresh := fun no => nomatch no
      alternate := alternate
      going := last
      lasts := fun _ => by simp [sinceStart_start is]
      quiet := listening.quiet_concat fun none' => absurd (is.symm.trans none') (by simp) }
  | waits idle short =>
    rw [count_speaking] at idle
    have other : (entry ear v f).event ≠ some .speechEnded := by simp [is]
    obtain ⟨enough, counted⟩ := @Listening.enough _ _ ear cfg log v f listening idle
    exact {
      config := config
      counted := fun _ => by
        rw [sinceEnd_other other]
        exact counted short
      fresh := fun _ p g q split => by
        rw [sinceEnd_other other] at split
        rcases List.eq_nil_or_concat' q with rfl | ⟨q, x, rfl⟩
        · rw [← split, ← enough]
          exact Nat.not_le.mpr short
        · rw [← List.cons_append, ← List.append_assoc] at split
          exact listening.fresh idle p g q (List.append_inj' split rfl).1
      alternate := by
        rw [Alternate, filterMap_quiet is]
        exact listening.alternate
      going := by
        rw [filterMap_quiet is, count_speaking]
        exact listening.going
      lasts := fun speaks => by
        rw [count_speaking, idle] at speaks
        cases speaks
      quiet := listening.quiet_concat fun _ => rfl }
  | tooLong levels speaks long =>
    rw [count_speaking] at speaks
    have going := listening.going
    rw [speaks] at going
    obtain ⟨alternate, last⟩ := Alternate.concat listening.alternate going is (by simp)
    exact {
      config := config
      counted := fun _ => by
        rw [sinceEnd_end is]
        rfl
      fresh := fun _ p g q split => by simp [sinceEnd_end is] at split
      alternate := alternate
      going := last
      lasts := fun no => nomatch no
      quiet := listening.quiet_concat fun none' => absurd (is.symm.trans none') (by simp) }
  | ends levels speaks short quiet =>
    rw [count_speaking] at speaks
    have going := listening.going
    rw [speaks] at going
    obtain ⟨alternate, last⟩ := Alternate.concat listening.alternate going is (by simp)
    exact {
      config := config
      counted := fun _ => by
        rw [sinceEnd_end is]
        rfl
      fresh := fun _ p g q split => by simp [sinceEnd_end is] at split
      alternate := alternate
      going := last
      lasts := fun no => nomatch no
      quiet := listening.quiet_concat fun _ => rfl }
  | goesOn levels speaks short loud =>
    rw [count_speaking] at speaks
    have other : (entry ear v f).event ≠ some .speechStarted := by simp [is]
    obtain ⟨lasted, -⟩ := listening.lasts speaks
    exact {
      config := config
      counted := fun idle => by
        rw [count_speaking, speaks] at idle
        cases idle
      fresh := fun idle => by
        rw [count_speaking, speaks] at idle
        cases idle
      alternate := by
        rw [Alternate, filterMap_quiet is]
        exact listening.alternate
      going := by
        rw [filterMap_quiet is, count_speaking]
        exact listening.going
      lasts := fun _ => by
        rw [sinceStart_other other, lasting_concat, ← lasted, ← config]
        exact ⟨by rw [count_speakingMs]; rfl, fun _ => short⟩
      quiet := listening.quiet_concat fun _ => rfl }

/-- Speech starts at a frame as it should. -/
theorem Listening.startsOnVoice (listening : Listening cfg log v) {e : Option VadEvent} {v' : Vad lev}
    (outcome : Concluded (v.count ear f) (Vad.frameMs ear f) e v') (is : (entry ear v f).event = e) :
    StartsOnVoice cfg log (entry ear v f) := by
  have speaking : (entry ear v f).speaking = v.speaking := rfl
  rw [StartsOnVoice, is, speaking]
  cases outcome with
  | starts levels idle reached =>
    rw [count_speaking] at idle
    exact iff_of_true rfl ⟨idle, (listening.enough idle).1.mp reached, listening.fresh idle⟩
  | waits idle short =>
    rw [count_speaking] at idle
    refine iff_of_false (by simp) fun all => ?_
    exact absurd ((listening.enough idle).1.mpr all.2.1) (Nat.not_le.mpr short)
  | tooLong levels speaks | ends levels speaks | goesOn levels speaks =>
    rw [count_speaking] at speaks
    refine iff_of_false (by simp) fun all => ?_
    rw [speaks] at all
    cases all.1

/-- Speech ends in time. -/
theorem Listening.endsInTime (listening : Listening cfg log v) (h : Heard) : EndsInTime cfg log h := by
  intro a s b split started goes
  obtain ⟨speaks, same⟩ := listening.speaks split started goes
  obtain ⟨lasted, short⟩ := listening.lasts speaks
  rw [same] at lasted short
  rw [lasting_concat]
  refine Nat.add_le_add_right ?_ _
  by_cases none' : b = []
  · rw [none']
    exact Nat.zero_le _
  · exact (lasted ▸ short none').le

/-- Speech ends in silence. -/
theorem Listening.endsInSilence (listening : Listening cfg log v) {e : Option VadEvent} {v' : Vad lev}
    (outcome : Concluded (v.count ear f) (Vad.frameMs ear f) e v') (is : (entry ear v f).event = e) :
    EndsInSilence log (entry ear v f) := by
  intro a s b w split started goes unvoiced more
  obtain ⟨speaks, -⟩ := listening.speaks split started goes
  have silent : (entry ear v f).voiced = false := unvoiced _ (by simp)
  have before : lasting w ≤ v.silenceMs := by
    refine listening.quiet w ⟨a ++ s :: b, by simp [split]⟩ fun x listed => ?_
    exact ⟨goes x (List.mem_append_right _ listed), unvoiced x (List.mem_append_left _ listed)⟩
  rw [is] at more
  cases outcome with
  | starts levels idle => rw [count_speaking, speaks] at idle; cases idle
  | waits idle => rw [count_speaking, speaks] at idle; cases idle
  | tooLong | ends => exact absurd rfl more
  | goesOn levels _ short loud =>
    rw [count_silenceMs silent, count_endpointMs] at loud
    rw [lasting_concat]
    exact (Nat.add_le_add_right before _).trans_lt loud

end Step

section Whole

variable {lev frame : Type} (ear : Ear lev frame) (cfg : VadConfig) (levels : lev)

/-- Moving the endpoint keeps what holds of the detector. -/
theorem Listening.setEndpointMs {log : List Heard} {v : Vad lev}
    (listening : Listening cfg log v) (ms : ℕ) :
    Listening cfg log (v.setEndpointMs ms) :=
  { listening with }

/-- **Speech starts on enough voice and only then, and ends.** For every sequence of frames, with
the endpoint moved at any time: speech starts at a frame exactly when it was not going on and there
is, for the first time since it last ended, enough voice; starts and ends alternate; no utterance
lasts longer than the longest one and a frame; and none goes on after the endpoint's time of
uninterrupted unvoiced frames. -/
theorem vad_sound (inputs : List (VadInput frame)) :
    Each (StartsOnVoice cfg) (vadLog ear cfg levels inputs) ∧ Alternate (vadLog ear cfg levels inputs) ∧
      Each (EndsInTime cfg) (vadLog ear cfg levels inputs) ∧ Each EndsInSilence
      (vadLog ear cfg levels inputs) := by
  have start : Listening cfg [] (Vad.new cfg levels) :=
    { config := rfl
      counted := fun _ => rfl
      fresh := fun _ p g q split => by simp [sinceEnd] at split
      alternate := List.isChain_singleton _
      going := rfl
      lasts := fun no => nomatch no
      quiet := fun w within _ => by simp [List.suffix_nil.mp within] }
  have empty : ∀ P, Each P [] := fun P pre h post split => by simp at split
  let log := fun evs : List (Event (Vad lev) (VadInput frame) (Option VadEvent)) =>
    evs.filterMap (heardAt ear)
  have all : Listening cfg (log (events (Vad.step ear) (Vad.new cfg levels) inputs))
        (final (Vad.step ear) (Vad.new cfg levels) inputs) ∧
      Each (StartsOnVoice cfg) (vadLog ear cfg levels inputs) ∧
        Each (EndsInTime cfg) (vadLog ear cfg levels inputs) ∧
      Each EndsInSilence (vadLog ear cfg levels inputs) := by
    refine run_induction (C := fun _ _ => True) (P := fun evs v => Listening cfg (log evs) v ∧
      Each (StartsOnVoice cfg) (log evs) ∧ Each (EndsInTime cfg) (log evs) ∧ Each EndsInSilence (log evs))
      ⟨start, empty _, empty _, empty _⟩ ?_ fun _ _ _ _ => trivial
    rintro pre v i ⟨listening, starts, inTime, inSilence⟩ -
    have after : log (pre ++ [event (Vad.step ear) v i]) =
      log pre ++ (heardAt ear (event (Vad.step ear) v i)).toList := by
      cases i <;> simp [log, heardAt, List.filterMap_append]
    rw [after]
    cases i with
    | frame f =>
      have outcome := concluded ear (v.count ear f) f
      exact ⟨listening.concludes outcome rfl, starts.concat (listening.startsOnVoice outcome rfl),
        inTime.concat (listening.endsInTime _), inSilence.concat (listening.endsInSilence outcome rfl)⟩
    | setEndpoint ms =>
      have same : log pre ++ (heardAt ear (event (Vad.step ear) v (.setEndpoint ms))).toList = log pre :=
        List.append_nil _
      rw [same]
      exact ⟨listening.setEndpointMs cfg ms, starts, inTime, inSilence⟩
  obtain ⟨listening, starts, inTime, inSilence⟩ := all
  exact ⟨starts, listening.alternate, inTime, inSilence⟩

end Whole

end Callora.Audio
