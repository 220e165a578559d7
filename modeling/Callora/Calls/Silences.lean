/-
**A silent caller's call ends.**

Silences, and whatever noise there is between them, come one after the other (`Quiet`). A silence either
ends the call, with one hangup, or is counted; noise changes neither the count nor the task.

* `noise_keeps` — noise keeps the ledger and the count, and hangs nothing up.
* `silence_cases` — what one silence does.
* `silent_call_ends` — after one silence more than the business's reprompts the call is over, hung
  up once.
-/
import Callora.Library.Countdown
import Callora.Ledger.Tally
import Callora.Calls.Call

set_option linter.unusedSectionVars false

namespace Callora

open Callora.Text Runs

/-- What a line brings on which nobody speaks. -/
inductive Quiet where
  | silence
  | noise (interrupted : Bool)
  | unheard
  | hello
  | replayLast
  deriving DecidableEq

namespace Quiet

/-- The operation of the engine. -/
def op : Quiet → Op
  | silence => .silence
  | noise interrupted => .noise interrupted
  | unheard => .unheard
  | hello => .hello
  | replayLast => .replayLast

/-- It is a silence. -/
def isSilence : Quiet → Bool
  | silence => true
  | _ => false

end Quiet

/-- How many hangups directives hold. -/
def hangups (ds : List Directive) : Nat := ds.countP Directive.isHangup

theorem hangups_orders (ds : List Directive) : hangups ds = hangups (ds.filter Directive.isOrder) := by
  unfold hangups
  rw [List.countP_filter]
  refine List.countP_congr fun d _ => ?_
  cases d <;> simp [Directive.isHangup, Directive.isOrder]

namespace Reply

variable {b : Business} [Unicode] {e : Engine b}

/-- What an operation leaves as it was: the ledger and the count, with nothing ordered. -/
structure Keeps (e : Engine b) (answer : List Directive × Engine b) : Prop where
  book : answerBook answer = e.book
  tally : answer.2.tally = e.tally

theorem Keeps.ledger {answer : List Directive × Engine b} (keeps : Keeps e answer) :
    answer.2.state.toLedger = e.state.toLedger := congrArg Book.ledger keeps.book

theorem Keeps.hangups {answer : List Directive × Engine b} (keeps : Keeps e answer) :
    hangups answer.1 = 0 := by
  have orders : answer.1.filter Directive.isOrder = [] := congrArg Book.orders keeps.book
  rw [hangups_orders, orders]
  rfl

theorem Keeps.reprompts {answer : List Directive × Engine b} (keeps : Keeps e answer) :
    answer.2.state.silenceReprompts = e.state.silenceReprompts :=
  congrArg Tally.silenceReprompts keeps.tally

theorem onNoise_tally (e : Engine b) (interrupted : Bool) :
    (onNoise e interrupted).2.tally = e.tally := by
  unfold onNoise
  split
  · rfl
  · dsimp only
    split
    · split
      · rfl
      · rw [finish_tally, speak_tally]
        split
        · rw [sayNow_tally]
          rfl
        · rfl
    · split
      · rw [finish_tally, sayOptional_tally]
        rfl
      · rfl

theorem onNoise_keeps (e : Engine b) (interrupted : Bool) : Keeps e (onNoise e interrupted) :=
  ⟨onNoise_book e interrupted, onNoise_tally e interrupted⟩

theorem onUnheard_keeps (e : Engine b) : Keeps e (onUnheard e) := by
  refine ⟨onUnheard_book e, ?_⟩
  unfold onUnheard
  split
  · rfl
  · exact onNoise_tally e false

theorem onHello_keeps (e : Engine b) : Keeps e (onHello e) := by
  refine ⟨onHello_book e, ?_⟩
  unfold onHello
  split
  · exact onNoise_tally e false
  · dsimp only
    split
    · rw [finish_tally, speak_tally, sayNow_tally]
      rfl
    · rw [finish_tally, sayNow_tally]
      rfl

theorem replayLast_keeps (e : Engine b) : Keeps e (replayLast e) := by
  refine ⟨replayLast_book e, ?_⟩
  unfold replayLast
  split
  · rw [finish_tally]
    rfl
  · rw [finish_tally]
    rfl

/-- **Noise changes neither the count nor the task.** -/
theorem noise_keeps (e : Engine b) {q : Quiet} (noise : q.isSilence = false) :
    Keeps e (q.op.apply e) := by
  cases q with
  | silence => cases noise
  | noise interrupted => exact onNoise_keeps e interrupted
  | unheard => exact onUnheard_keeps e
  | hello => exact onHello_keeps e
  | replayLast => exact replayLast_keeps e

theorem isBusy_ledger {e e' : Engine b} (same : e'.state.toLedger = e.state.toLedger) :
    isBusy e' = isBusy e := by
  show (e'.state.toLedger.phase != .active || e'.state.toLedger.run.any fun r => r.step.isExecuting) = _
  rw [same]
  rfl

theorem patience_ledger {e e' : Engine b} (same : e'.state.toLedger = e.state.toLedger) :
    patience e' = patience e := by
  show (if (e'.state.toLedger.run.any fun r => !r.slots.isEmpty) &&
    b.config.silence.patientResponse.isSome
    then b.config.silence.patientReprompts else 0) = _
  rw [same]
  rfl

/-- The goodbye ends the call and hangs up. -/
theorem goodbye_ends (e : Engine b) : (begin e).goodbye.finish.2.state.phase = .ending ∧
    hangups (begin e).goodbye.finish.1 = 1 := by
  have book : answerBook (begin e).goodbye.finish = _ :=
    (answerBook_finish _).trans (goodbye_book (begin e))
  refine ⟨congrArg (fun k : Book => k.ledger.phase) book, ?_⟩
  have orders : (begin e).goodbye.finish.1.filter Directive.isOrder = [.hangup] :=
    congrArg Book.orders book
  rw [hangups_orders, orders]
  rfl

/-- **One silence**: it ends the call, after a task that was done or as one too many; or it is counted,
within what the business allows. -/
inductive Silence (e : Engine b) (answer : List Directive × Engine b) : Prop
  | ends (phase : answer.2.state.phase = .ending) (hangup : hangups answer.1 = 1)
      (why : e.state.completed ≠ [] ∨
        addU32 b.config.silence.maxReprompts (patience e) < addU32 e.state.silenceReprompts 1)
  | counts (ledger : answer.2.state.toLedger = e.state.toLedger) (hangup : hangups answer.1 = 0)
      (one : answer.2.state.silenceReprompts = addU32 e.state.silenceReprompts 1)
      (within : answer.2.state.silenceReprompts ≤ addU32 b.config.silence.maxReprompts (patience e))

theorem afterSilence_cases (e : Engine b) :
    ((afterSilence e).2.state.phase = .ending ∧ hangups (afterSilence e).1 = 1 ∧
        addU32 b.config.silence.maxReprompts (patience e) < e.state.silenceReprompts) ∨
      (Keeps e (afterSilence e) ∧
        e.state.silenceReprompts ≤ addU32 b.config.silence.maxReprompts (patience e)) := by
  unfold afterSilence
  by_cases many : addU32 b.config.silence.maxReprompts (patience e) < e.state.silenceReprompts
  · refine .inl ?_
    rw [if_pos many]
    exact ⟨(goodbye_ends e).1, (goodbye_ends e).2, many⟩
  · refine .inr ⟨?_, Nat.le_of_not_lt many⟩
    rw [if_neg many]
    split
    · refine ⟨?_, ?_⟩
      · rw [answerBook_finish, sayNow_book, begin_book]
      · rw [finish_tally, sayNow_tally, begin_tally]
    · dsimp only
      split
      · refine ⟨?_, ?_⟩
        · rw [answerBook_finish, speak_book, sayOptional_book, begin_book]
        · rw [finish_tally, speak_tally, sayOptional_tally, begin_tally]
      · refine ⟨?_, ?_⟩
        · rw [answerBook_finish, sayOptional_book, begin_book]
        · rw [finish_tally, sayOptional_tally, begin_tally]

theorem silence_cases (e : Engine b) (idle : isBusy e = false) : Silence e (onSilence e) := by
  unfold onSilence
  rw [if_neg (Bool.eq_false_iff.mp idle)]
  dsimp only
  split
  · rename_i done
    obtain ⟨phase, hangup⟩ := goodbye_ends (e.modify fun s => { s with waiting := false })
    refine .ends phase hangup (.inl fun nothing => ?_)
    have last := (Bool.and_eq_true _ _ ▸ done).2
    rw [show (e.modify fun s => { s with waiting := false }).state.completed = [] from nothing] at last
    cases last
  · rcases afterSilence_cases ((e.modify fun s => { s with waiting := false }).modify fun s =>
      { s with silenceReprompts := addU32 s.silenceReprompts 1 }) with ⟨phase, hangup,
      many⟩ | ⟨keeps, within⟩
    · exact .ends phase hangup (.inr many)
    · exact .counts keeps.ledger keeps.hangups keeps.reprompts (keeps.reprompts ▸ within)

/-- With the call over, or an action running, nothing happens. -/
theorem busy_keeps (e : Engine b) (busy : isBusy e = true) (q : Quiet) : Keeps e (q.op.apply e) := by
  cases q with
  | silence =>
    show Keeps e (onSilence e)
    unfold onSilence
    rw [if_pos busy]
    exact ⟨rfl, rfl⟩
  | noise interrupted => exact noise_keeps e rfl
  | unheard => exact noise_keeps e rfl
  | hello => exact noise_keeps e rfl
  | replayLast => exact noise_keeps e rfl

/-- **What one of them does to a call that waits**: it is over, with a hangup, or goes on without one. -/
theorem quiet_cases (e : Engine b) (idle : isBusy e = false) (q : Quiet) :
    Silence e (q.op.apply e) ∧ q.isSilence = true ∨ Keeps e (q.op.apply e) ∧ q.isSilence = false := by
  cases q with
  | silence => exact .inl ⟨silence_cases e idle, rfl⟩
  | noise interrupted => exact .inr ⟨noise_keeps e rfl, rfl⟩
  | unheard => exact .inr ⟨noise_keeps e rfl, rfl⟩
  | hello => exact .inr ⟨noise_keeps e rfl, rfl⟩
  | replayLast => exact .inr ⟨noise_keeps e rfl, rfl⟩

/-- What lines bring on which nobody speaks, one after the other. -/
abbrev quiet (e : Engine b) (q : Quiet) : List Directive × Engine b := q.op.apply e

theorem busy_of_ending {e : Engine b} (ending : e.state.phase = .ending) : isBusy e = true := by
  unfold isBusy
  rw [ending]
  rfl

/-- An idle call stays idle until it is over. -/
theorem quiet_ends (e : Engine b) (idle : isBusy e = false) (q : Quiet) :
    hangups (quiet e q).1 = (if isBusy (quiet e q).2 = false then 0 else 1) ∧
      (isBusy (quiet e q).2 = true → (quiet e q).2.state.phase = .ending) := by
  have kept : (quiet e q).2.state.toLedger = e.state.toLedger → isBusy (quiet e q).2 = false :=
    fun same => (isBusy_ledger same).trans idle
  rcases quiet_cases e idle q with ⟨⟨phase, hangup, -⟩ | ⟨ledger, hangup, -, -⟩, -⟩ | ⟨keeps, -⟩
  · rw [if_neg (by rw [busy_of_ending phase]; exact Bool.noConfusion)]
    exact ⟨hangup, fun _ => phase⟩
  · rw [if_pos (kept ledger)]
    exact ⟨hangup, fun busy => absurd busy (by rw [kept ledger]; exact Bool.noConfusion)⟩
  · rw [if_pos (kept keeps.ledger)]
    exact ⟨keeps.hangups, fun busy => absurd busy (by rw [kept keeps.ledger]; exact Bool.noConfusion)⟩

/-- What the caller's silences lead to: the call is over and hung up, once. -/
structure HungUpOnce (e : Engine b) (qs : List Quiet) : Prop where
  ending : (final quiet e qs).state.phase = .ending
  once : ((events quiet e qs).map fun ev => hangups ev.output).sum = 1

/-- A call that is over after silences was hung up once. -/
theorem hungUpOnce_of_busy (idle : isBusy e = false) {qs : List Quiet}
    (busy : isBusy (final quiet e qs) = true) : HungUpOnce e qs := by
  refine ⟨?_, ?_⟩
  · induction qs generalizing e with
    | nil =>
      rw [show final quiet e [] = e from rfl, idle] at busy
      cases busy
    | cons q qs ih =>
      by_cases after : isBusy (quiet e q).2 = true
      · have ending := (quiet_ends e idle q).2 after
        have stays : ∀ (qs : List Quiet) (e : Engine b), e.state.phase = .ending →
            (final quiet e qs).state.phase = .ending := by
          intro qs
          induction qs with
          | nil => exact fun _ ending => ending
          | cons q qs ih =>
            intro e ending
            have same := (busy_keeps e (busy_of_ending ending) q).ledger
            exact ih _ ((congrArg Ledger.phase same).trans ending)
        exact stays qs _ ending
      · exact ih (Bool.eq_false_iff.mpr after) busy
  · have said := said_once (fun e : Engine b => isBusy e = false) hangups
      (fun e q busy => ⟨(busy_keeps e (eq_true_of_ne_false busy) q).hangups,
        fun idle =>
          busy ((isBusy_ledger (busy_keeps e (eq_true_of_ne_false busy) q).ledger).symm.trans idle)⟩)
      (fun e q idle => (quiet_ends e idle q).1) idle qs
    rw [said, if_neg (by rw [busy]; exact Bool.noConfusion)]

/-- **A silent caller's call ends, in a bounded number of reprompts**, whatever noise there is between the
silences; and no noise changes the count, the task or its values. -/
theorem silent_call_ends (e : Engine b) (active : e.state.phase = .active)
    (waits : ∀ run, e.state.run = some run → run.step.isExecuting = false)
    (fresh : e.state.silenceReprompts = 0)
    (fits : b.config.silence.maxReprompts + patience e + 1 < 2 ^ 32) :
    (∀ qs : List Quiet, b.config.silence.maxReprompts + patience e + 1 ≤ qs.countP Quiet.isSilence →
      HungUpOnce e qs) ∧
    ∀ (e : Engine b) (q : Quiet), q.isSilence = false →
      (quiet e q).2.state.silenceReprompts = e.state.silenceReprompts ∧
      (quiet e q).2.state.run = e.state.run := by
  refine ⟨fun qs enough => ?_, fun e q noise =>
    ⟨(noise_keeps e noise).reprompts, congrArg Ledger.run (noise_keeps e noise).ledger⟩⟩
  have idle : isBusy e = false := by
    unfold isBusy
    rw [active]
    cases current : e.state.run with
    | none => rfl
    | some run => exact waits run current
  -- While the call goes on, the patience of its start is its patience, and the count is within it.
  have threshold : addU32 b.config.silence.maxReprompts (patience e) =
      b.config.silence.maxReprompts + patience e := Nat.mod_eq_of_lt (by omega)
  refine hungUpOnce_of_busy idle (eq_true_of_ne_false ?_)
  refine runs_out (C := fun _ => True) (fun s : Engine b => isBusy s = false)
    (fun s => patience s = patience e ∧
      s.state.silenceReprompts ≤ b.config.silence.maxReprompts + patience e)
    (fun s => b.config.silence.maxReprompts + patience e - s.state.silenceReprompts) Quiet.isSilence
    (fun s q busy idle =>
      busy ((isBusy_ledger (busy_keeps s (eq_true_of_ne_false busy) q).ledger).symm.trans
      idle)) ?_ ⟨rfl, fresh ▸ Nat.zero_le _⟩ (fun _ _ => trivial) (by rw [fresh]; omega)
  rintro s q ⟨same, within⟩ idle - after
  rcases quiet_cases s idle q with ⟨⟨phase, -, -⟩ | ⟨ledger, -, one, low⟩, silence⟩ | ⟨keeps, noise⟩
  · rw [busy_of_ending phase] at after
    cases after
  · have counted : (quiet s q).2.state.silenceReprompts = s.state.silenceReprompts + 1 :=
      one.trans (Nat.mod_eq_of_lt (by omega))
    rw [same, threshold] at low
    refine ⟨⟨(patience_ledger ledger).trans same, low⟩, ?_⟩
    show b.config.silence.maxReprompts + patience e - (quiet s q).2.state.silenceReprompts +
      (if q.isSilence then 1 else 0) ≤ _
    rw [counted] at low ⊢
    rw [silence, if_pos rfl]
    omega
  · have counted : (quiet s q).2.state.silenceReprompts = s.state.silenceReprompts := keeps.reprompts
    rw [noise, counted]
    exact ⟨⟨(patience_ledger keeps.ledger).trans same, within⟩, le_of_eq (Nat.add_zero _)⟩

/-- With as many reprompts as a `u32` can count, no silence ends a call in which nothing was done. -/
theorem unending (most : b.config.silence.maxReprompts = 2 ^ 32 - 1)
    (impatient : b.config.silence.patientResponse = none) (qs : List Quiet) (e : Engine b)
    (nothing : e.state.completed = []) :
    (final quiet e qs).state.toLedger = e.state.toLedger := by
  induction qs generalizing e with
  | nil => rfl
  | cons q qs ih =>
    have same : (quiet e q).2.state.toLedger = e.state.toLedger := by
      cases idle : isBusy e with
      | true => exact (busy_keeps e idle q).ledger
      | false =>
        rcases quiet_cases e idle q with ⟨⟨-, -, done | many⟩ | ⟨ledger, -, -, -⟩, -⟩ | ⟨keeps, -⟩
        · exact absurd nothing done
        · have patient : patience e = 0 := by
            unfold patience
            rw [impatient]
            exact if_neg (by simp)
          have low : addU32 e.state.silenceReprompts 1 < 2 ^ 32 := Nat.mod_lt _ (by decide)
          rw [most, patient, show addU32 (2 ^ 32 - 1) 0 = 2 ^ 32 - 1 from rfl] at many
          omega
        · exact ledger
        · exact keeps.ledger
    exact (ih _ ((congrArg Ledger.completed same).trans nothing)).trans same

end Reply

namespace Sample

/-- Rides that wait for a caller as long as can be counted. -/
def patientConfig : BusinessConfig := { config with silence := ⟨2 ^ 32 - 1, none, 0, none⟩ }

def patientRides : Business :=
  @Business.build Unicode.plain (fun _ => .error "no pattern") (fun _ => none) patientConfig

set_option maxRecDepth 100000 in
theorem patientRides_validated : @Business.Validated Unicode.plain patientRides := by
  refine ⟨fun _ => .error "no pattern", fun _ => none, patientConfig, ?_⟩
  have sound : @Business.issues Unicode.plain (fun _ => .error "no pattern") (fun _ => none)
      patientConfig = [] := by
    decide +kernel
  unfold Business.compile
  rw [if_pos sound]
  rfl

open Reply

/-- No silence ends a call to them: the count begins again. -/
theorem patientRides_wait : patientRides.Validated ∧ ¬∀ qs : List Quiet,
    patientRides.config.silence.maxReprompts + patience (Engine.new patientRides 7) + 1 ≤
      qs.countP Quiet.isSilence → HungUpOnce (Engine.new patientRides 7) qs := by
  refine ⟨patientRides_validated, fun ends => ?_⟩
  generalize patientRides.config.silence.maxReprompts + patience (Engine.new patientRides 7) +
    1 = n at ends
  have counted : (List.replicate n Quiet.silence).countP Quiet.isSilence = n := by
    rw [List.countP_replicate, if_pos (by decide)]
  have ending := (ends (List.replicate n .silence) (le_of_eq counted.symm)).ending
  have ledger :=
    unending (b := patientRides) rfl rfl (List.replicate n .silence) (Engine.new patientRides 7) rfl
  have active := congrArg Ledger.phase ledger
  cases active.symm.trans ending

/-- Rides that ask once more in the middle of a task. -/
def promptingConfig : BusinessConfig := { config with silence := ⟨2, none, 1, some "more"⟩ }

def promptingRides : Business :=
  @Business.build Unicode.plain (fun _ => .error "no pattern") (fun _ => none) promptingConfig

/-- A ride for two is asked for, and to be agreed to. -/
def rideWaits : Engine promptingRides :=
  Call.final promptingRides 7 [.start, asks "a ride for two" "ride" [number "seats" 2]]

set_option maxRecDepth 100000 in
theorem rideWaits_idle : ∀ run, rideWaits.state.run = some run → run.step.isExecuting = false := by
  have idle : (rideWaits.state.run.all fun run => !run.step.isExecuting) = true := by decide +kernel
  intro run current
  rw [current] at idle
  simpa using idle

set_option maxRecDepth 100000 in
/-- Three silences end a call to rides, and four one that waits for an answer about a ride. -/
theorem rides_hangUp : HungUpOnce (Engine.new rides 7)
    [.silence, .noise true, .silence, .hello, .silence] ∧
    patience rideWaits = 1 ∧ HungUpOnce rideWaits
    [.silence, .unheard, .silence, .silence, .replayLast, .silence] := by
  refine ⟨?_, by decide +kernel, ?_⟩
  · exact (silent_call_ends (Engine.new rides 7) rfl (fun _ none' => nomatch none') rfl (by decide)).1
      [.silence, .noise true, .silence, .hello, .silence] (by decide)
  · exact (silent_call_ends rideWaits (by decide +kernel) rideWaits_idle (by decide +kernel)
      (by decide +kernel)).1
      [.silence, .unheard, .silence, .silence, .replayLast, .silence] (by decide +kernel)

end Sample

end Callora
