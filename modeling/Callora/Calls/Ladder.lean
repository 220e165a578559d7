/-
**The fallback ladder ends.**

An utterance of which nothing is understood (`NotUnderstood`) goes up one rung of the ladder; past
the last one the call goes to the desk, starts over once, or ends. `Tally.missed` is the ladder by
itself.

* `fallback_climbs` — every rung the ladder is asked for is one it has.
* `notUnderstood_tally` — an utterance of which nothing is understood is a miss of the ladder, whatever
  task is under way.
* `ladder_ends` — twice the ladder is more than a call takes, and once with a desk.
-/
import Callora.Library.Countdown
import Callora.Ledger.Tally
import Callora.Calls.Call

set_option linter.unusedSectionVars false

namespace Callora

open Callora.Text Runs

section Ladder

variable (b : Business)

/-- A person can take the call. -/
def Tally.hasDesk (t : Tally) : Bool := t.desk.getD b.handoffNumber.isSome

/-- **The ladder, an utterance missed**: the next rung; past the last one the desk, the start over, or the
end of the call. -/
def Tally.missed (t : Tally) : Tally :=
  let level := t.fallbackLevel + 1
  if b.config.fallback.ladder.length < level then
    if t.hasDesk b then { t with phase := .handingOff, fallbackLevel := level }
    else if b.config.fallback.restart.isSome ∧ t.fallbackRestarts = 0 then
      { t with fallbackLevel := 0, fallbackRestarts := t.fallbackRestarts + 1 }
    else { t with phase := .ending, fallbackLevel := level }
  else { t with fallbackLevel := level }

/-- How many more utterances can be missed: the rungs left, and the ladder once more if it was not
started over yet. -/
def Tally.left (t : Tally) : Nat :=
  b.config.fallback.ladder.length - t.fallbackLevel +
    if t.fallbackRestarts = 0 then b.config.fallback.ladder.length + 1 else 0

variable {b}

theorem Tally.missed_left (t : Tally) (active : (t.missed b).phase = .active) :
    (t.missed b).left b + 1 ≤ t.left b := by
  revert active
  unfold missed left
  dsimp only
  by_cases past : b.config.fallback.ladder.length < t.fallbackLevel + 1
  · rw [if_pos past]
    by_cases desk : t.hasDesk b = true
    · rw [if_pos desk]
      exact fun handed => absurd handed (by simp)
    · rw [if_neg desk]
      by_cases restarts : b.config.fallback.restart.isSome ∧ t.fallbackRestarts = 0
      · rw [if_pos restarts]
        intro _
        rw [if_pos restarts.2, if_neg (Nat.succ_ne_zero _)]
        omega
      · rw [if_neg restarts]
        exact fun ended => absurd ended (by simp)
  · rw [if_neg past]
    intro _
    dsimp only
    omega

/-- With a desk the ladder is not started over. -/
theorem Tally.missed_desk (t : Tally) (desk : t.hasDesk b = true) :
    t.missed b = if b.config.fallback.ladder.length < t.fallbackLevel + 1 then
      { t with phase := .handingOff, fallbackLevel := t.fallbackLevel + 1 }
    else { t with fallbackLevel := t.fallbackLevel + 1 } := by
  unfold missed
  dsimp only
  rw [if_pos desk]

end Ladder

namespace Reply

variable {b : Business} [Unicode]

/-- The rung of the ladder a reply is on after one more miss, if there is one. -/
def rung (r : Reply b) : Option (Fin b.config.fallback.ladder.length) :=
  if past : b.config.fallback.ladder.length < r.engine.state.fallbackLevel + 1 then none
  else some ⟨r.engine.state.fallbackLevel,
    Nat.lt_of_lt_of_le (Nat.lt_succ_self _) (Nat.le_of_not_lt past)⟩

/-- `fallback`, with every rung looked up where the ladder has one. -/
def climb (r : Reply b) : Reply b :=
  let missed := r.modify fun s => { s with fallbackLevel := s.fallbackLevel + 1 }
  match r.rung with
  | none => missed.handoff "not_understood"
  | some level =>
    if r.engine.state.run.any fun run => !run.step.isExecuting then
      (missed.sayNow (b.config.fallback.ladder.get ⟨0, level.pos⟩) false).advance false
    else missed.sayNow (b.config.fallback.ladder.get level) true

/-- **The ladder is never asked for a rung it does not have.** -/
theorem fallback_climbs (r : Reply b) : r.fallback = r.climb := by
  unfold fallback climb rung
  dsimp only
  by_cases past : b.config.fallback.ladder.length < r.engine.state.fallbackLevel + 1
  · have past' : b.config.fallback.ladder.length <
        (r.modify fun s =>
          { s with fallbackLevel := s.fallbackLevel + 1 }).engine.state.fallbackLevel := past
    rw [if_pos past', dif_pos past]
  · have past' : ¬b.config.fallback.ladder.length <
        (r.modify fun s =>
          { s with fallbackLevel := s.fallbackLevel + 1 }).engine.state.fallbackLevel := past
    rw [if_neg past', dif_neg past]
    have some' : 0 < b.config.fallback.ladder.length := by omega
    have level : r.engine.state.fallbackLevel < b.config.fallback.ladder.length := by omega
    have first : b.config.fallback.ladder.headD "" = b.config.fallback.ladder.get ⟨0, some'⟩ := by
      rw [List.headD_eq_head?_getD, List.head?_eq_getElem?, List.getElem?_eq_getElem some']
      rfl
    have own : b.config.fallback.ladder.getD ((r.modify fun s =>
        { s with fallbackLevel := s.fallbackLevel + 1 }).engine.state.fallbackLevel - 1) "" =
        b.config.fallback.ladder.get ⟨r.engine.state.fallbackLevel, level⟩ := by
      show b.config.fallback.ladder.getD r.engine.state.fallbackLevel "" = _
      rw [List.getD_eq_getElem?_getD, List.getElem?_eq_getElem level]
      rfl
    rw [first, own]
    rfl

/-- A handoff for what was not understood: to the desk, to the start of the ladder, or to the end. -/
theorem handoff_tally (r : Reply b) : (r.handoff "not_understood").tally =
    if r.tally.hasDesk b then { r.tally with phase := .handingOff }
    else if b.config.fallback.restart.isSome ∧ r.tally.fallbackRestarts = 0 then
      { r.tally with fallbackLevel := 0, fallbackRestarts := r.tally.fallbackRestarts + 1 }
    else { r.tally with phase := .ending } := by
  unfold handoff
  dsimp only
  by_cases desk : r.engine.hasDesk = true
  · have same : r.tally.hasDesk b = true := desk
    rw [if_pos desk, if_pos same, push_tally]
    exact congrArg (fun t : Tally => { t with phase := .handingOff })
      (sayNow_tally r b.config.handoff.response true)
  · have same : ¬r.tally.hasDesk b = true := desk
    rw [if_neg desk, if_neg same]
    have ends : ((if "not_understood" == "not_understood" || "not_understood" == "action_failed" then
        ((r.sayNow b.config.handoff.unavailableResponse true).modify fun s =>
          { s with phase := .ending }).push .hangup
        else if (r.sayNow b.config.handoff.unavailableResponse true).engine.state.run.isSome then
          (r.sayNow b.config.handoff.unavailableResponse true).advance false
        else r.sayNow b.config.handoff.unavailableResponse true) : Reply b).tally =
        { r.tally with phase := .ending } := by
      rw [if_pos (by decide)]
      exact congrArg (fun t : Tally => { t with phase := .ending })
        (sayNow_tally r b.config.handoff.unavailableResponse true)
    by_cases restarts : b.config.fallback.restart.isSome ∧ r.tally.fallbackRestarts = 0
    · rw [if_pos restarts]
      obtain ⟨response, restart⟩ := Option.isSome_iff_exists.mp restarts.1
      have kept : b.config.fallback.restart.filter (fun _ => "not_understood" == "not_understood" &&
          r.engine.state.fallbackRestarts == 0) = some response := by
        have none' : r.engine.state.fallbackRestarts = 0 := restarts.2
        simp [restart, none']
      rw [kept]
      exact sayNow_tally _ response true
    · rw [if_neg restarts]
      have dropped : b.config.fallback.restart.filter (fun _ => "not_understood" == "not_understood" &&
          r.engine.state.fallbackRestarts == 0) = none := by
        refine Option.filter_eq_none_iff.mpr fun response restart first => restarts ⟨?_, ?_⟩
        · exact Option.isSome_iff_exists.mpr ⟨response, restart⟩
        · exact eq_of_beq (Bool.and_eq_true _ _ ▸ first).2
      rw [dropped]
      exact ends

/-- **A fallback is a miss of the ladder.** -/
theorem fallback_tally (r : Reply b) : r.fallback.tally = r.tally.missed b := by
  have missed : (r.modify fun s => { s with fallbackLevel := s.fallbackLevel + 1 }).tally =
      { r.tally with fallbackLevel := r.tally.fallbackLevel + 1 } := rfl
  unfold fallback Tally.missed
  dsimp only
  by_cases past : b.config.fallback.ladder.length < r.tally.fallbackLevel + 1
  · have past' : b.config.fallback.ladder.length <
        (r.modify fun s =>
          { s with fallbackLevel := s.fallbackLevel + 1 }).engine.state.fallbackLevel := past
    rw [if_pos past, if_pos past', handoff_tally, missed]
    rfl
  · have past' : ¬b.config.fallback.ladder.length <
        (r.modify fun s =>
          { s with fallbackLevel := s.fallbackLevel + 1 }).engine.state.fallbackLevel := past
    rw [if_neg past, if_neg past']
    split
    · rw [advance_tally, sayNow_tally, missed]
    · rw [sayNow_tally, missed]

end Reply

section Misses

variable (b : Business)

/-- The yes or no of an utterance answers what is asked: a value or the details read back, or "anything
else?". -/
def answersAsked (run : Option PipelineRun) (offeredMore : Bool) (u : Understanding) : Bool :=
  u.affirm.isSome && match run with
    | none => offeredMore
    | some run =>
      match run.step with
      | .confirmingSlot slot => (u.slot slot).isNone
      | .awaitingConfirmation => !u.slots.any fun s => (b.pipelineOf run).has s.slot
      | _ => false

/-- The task under way takes one of the values, or they start one. -/
def takesValue (run : Option PipelineRun) (fills : List SlotFill) : Bool :=
  match run with
  | none => !fills.isEmpty && (Engine.inferPipeline (Engine.new b 0) fills).isSome
  | some run => fills.any (Engine.accepts b (b.pipelineOf run))

/-- **Nothing is understood of an utterance**, where the call stands: no intent, no value that is
taken, no answer; and it is neither noise nor a curse. -/
structure NotUnderstood [Unicode] (run : Option PipelineRun) (offeredMore : Bool)
    (u : Understanding) : Prop where
  speech : u.noise = false
  clean : b.isAbusive u.transcript = false
  metaIntent : u.metaIntent = none
  intent : u.intent = none
  answer : answersAsked b run offeredMore u = false
  values : takesValue b run u.slots = false

end Misses

namespace Reply

variable {b : Business} [Unicode] {u : Understanding}

/-- Values none of which is taken are not looked up. -/
theorem checkFills_refused {run : PipelineRun} {c : Check b} (current : c.engine.state.run = some run)
    (fills : List SlotFill) (refused : fills.any (Engine.accepts b (b.pipelineOf run)) = false)
    (noted : Bool) (before : List SlotFill) :
    checkFills fills c noted before = (c, noted, before ++ fills) := by
  induction fills generalizing before with
  | nil => rw [List.append_nil]; rfl
  | cons fill rest ih =>
    rw [List.any_cons, Bool.or_eq_false_iff] at refused
    have passed : checkFills (fill :: rest) c noted before =
      checkFills rest c noted (before ++ [fill]) := by
      conv_lhs => unfold checkFills
      simp only [current, Option.any_some, refused.1]
      cases fill.value <;> rfl
    rw [passed, ih refused.2, List.append_assoc, List.singleton_append]

theorem applyFills_refused {run : PipelineRun} {e : Engine b} (current : e.state.run = some run)
    {fills : List SlotFill} (refused : fills.any (Engine.accepts b (b.pipelineOf run)) = false) :
    e.applyFills fills = (e, 0) := by
  have none' : fills.filter (Engine.accepts b (b.pipelineOf run)) = [] :=
    List.filter_eq_nil_iff.mpr fun fill listed accepted =>
      absurd (List.any_eq_true.mpr ⟨fill, listed, accepted⟩) (by rw [refused]; exact Bool.noConfusion)
  unfold Engine.applyFills
  rw [current]
  simp only [none']
  rfl

/-- A reply that missed an utterance: the fallback, with the tally as it was. -/
def Misses (r answer : Reply b) : Prop := ∃ r' : Reply b, answer = r'.fallback ∧ r'.tally = r.tally

/-- A value read back is not answered: the turn goes on, or the doubtful value is asked again. -/
theorem answerSlot_missed {r : Reply b} {slot : String}
    (unanswered : (u.affirm.isSome && (u.slot slot).isNone) = false) :
    r.answerSlot slot u = none ∨ ∃ answer, r.answerSlot slot u = some answer ∧ Misses r answer := by
  unfold answerSlot
  cases value : u.slot slot with
  | none =>
    rw [value] at unanswered
    cases affirm : u.affirm with
    | none => exact .inl rfl
    | some yes =>
      rw [affirm] at unanswered
      cases unanswered
  | some fill =>
    dsimp only
    split
    · exact .inr ⟨_, rfl, _, rfl, rfl⟩
    · exact .inl rfl

/-- The details read back are not answered: the turn goes on. -/
theorem answerReadBack_missed {r : Reply b} {run : PipelineRun}
    (unanswered : (u.affirm.isSome && !u.slots.any fun s => (b.pipelineOf run).has s.slot) = false) :
    r.answerReadBack run u = none := by
  unfold answerReadBack
  dsimp only
  split
  · rfl
  · rename_i other
    rw [Bool.eq_false_iff.mpr other] at unanswered
    cases affirm : u.affirm with
    | none => rfl
    | some yes =>
      rw [affirm] at unanswered
      cases unanswered

/-- What is being read back is not answered: the turn goes on, or the doubtful value is asked again. -/
theorem answered_missed {r : Reply b} {offeredMore : Bool}
    (missed : NotUnderstood b r.engine.state.run offeredMore u) :
    r.answered u = none ∨ ∃ answer, r.answered u = some answer ∧ Misses r answer := by
  have unanswered := missed.answer
  unfold answered
  cases current : r.engine.state.run with
  | none => exact .inl rfl
  | some run =>
    rw [current] at unanswered
    unfold answersAsked at unanswered
    dsimp only at unanswered ⊢
    cases step : run.step with
    | collecting awaiting => exact .inl rfl
    | executing runId => exact .inl rfl
    | confirmingSlot slot =>
      rw [step] at unanswered
      exact answerSlot_missed unanswered
    | awaitingConfirmation =>
      rw [step] at unanswered
      exact .inl (answerReadBack_missed unanswered)

/-- No task is started. -/
theorem inferTask_missed {r : Reply b} {offeredMore : Bool}
    (missed : NotUnderstood b r.engine.state.run offeredMore u) : r.inferTask u false = (r, false) := by
  have refused := missed.values
  unfold inferTask
  cases current : r.engine.state.run with
  | some run => rfl
  | none =>
    rw [current] at refused
    dsimp only
    by_cases silent : u.slots.isEmpty = true
    · rw [if_pos silent]
    · have inferred : r.engine.inferPipeline u.slots = (Engine.new b 0).inferPipeline u.slots := rfl
      have none' : (Engine.new b 0).inferPipeline u.slots = none := by
        simpa [takesValue, silent] using refused
      rw [if_neg silent, inferred, none']

/-- With no intent, no value and no answer, the fallback is left. -/
theorem afterIntent_missed {r : Reply b} {offeredMore : Bool}
    (missed : NotUnderstood b r.engine.state.run offeredMore u) :
    Misses r (r.afterIntent offeredMore u false) := by
  have refused := missed.values
  have unanswered := missed.answer
  unfold afterIntent
  rw [inferTask_missed missed]
  dsimp only
  cases current : r.engine.state.run with
  | some run =>
    rw [current] at refused
    rw [if_neg (by simp)]
    unfold takeValues
    rw [checkFills_refused (c := (⟨r.engine, [], []⟩ : Check b)) current u.slots refused]
    dsimp only
    rw [List.nil_append, applyFills_refused current refused]
    exact ⟨r, rfl, rfl⟩
  | none =>
    rw [current] at unanswered
    rw [if_pos (by simp)]
    refine ⟨r, ?_, rfl⟩
    unfold noTask
    cases affirm : u.affirm with
    | none => simp
    | some yes =>
      simp only [answersAsked, affirm, Option.isSome_some, Bool.true_and] at unanswered
      rw [unanswered]
      simp

theorem understood_missed {r : Reply b}
    (missed : NotUnderstood b r.engine.state.run r.engine.offeredMore u) :
    Misses r (r.understood u) := by
  have kept : NotUnderstood b (r.mapEngine fun e => { e with offeredMore := false }).engine.state.run
    r.engine.offeredMore u := missed
  unfold understood
  dsimp only
  rcases answered_missed kept with goesOn | ⟨answer, answered, r', fallback, tally⟩
  · have none' : intentStep b (r.mapEngine fun e => { e with offeredMore := false }).engine.state.run u =
        .stays := by
      unfold intentStep
      rw [missed.intent]
    rw [goesOn, none']
    obtain ⟨r', fallback, tally⟩ := afterIntent_missed kept
    exact ⟨r', fallback, tally⟩
  · rw [answered]
    exact ⟨r', fallback, tally⟩

theorem hear_tally (e : Engine b) (transcript : String) :
    (hear e transcript).tally = { e.tally with silenceReprompts := 0 } :=
  remember_tally
    (e.modify fun s => { s with turns := s.turns + 1, silenceReprompts := 0, waiting := false })
    .caller transcript

theorem hear_run (e : Engine b) (transcript : String) : (hear e transcript).state.run = e.state.run := by
  have same := CallState.remember_toLedger { e.state with
    turns := e.state.turns + 1, silenceReprompts := 0, waiting := false } .caller transcript
  exact congrArg Ledger.run same

/-- **An utterance of which nothing is understood is a miss of the ladder.** -/
theorem notUnderstood_tally {e : Engine b} (active : e.state.phase = .active)
    (missed : NotUnderstood b e.state.run e.offeredMore u) :
    (onUtterance e u).2.tally = Tally.missed b { e.tally with silenceReprompts := 0 } := by
  have noMeta : metaOf u = none := by
    unfold metaOf
    rw [missed.metaIntent]
    exact ite_self _
  unfold onUtterance
  rw [if_neg (fun here => here.elim (fun other => other active) fun noise => by
    rw [missed.speech] at noise; cases noise)]
  dsimp only
  rw [missed.clean, if_neg Bool.false_ne_true, noMeta]
  have calmed : (calm (hear e u.transcript) u).tally = { e.tally with silenceReprompts := 0 } ∧
      (calm (hear e u.transcript) u).state.run = e.state.run ∧
      (calm (hear e u.transcript) u).offeredMore = e.offeredMore := by
    unfold calm
    split
    · exact ⟨hear_tally e u.transcript, hear_run e u.transcript, rfl⟩
    · exact ⟨hear_tally e u.transcript, hear_run e u.transcript, rfl⟩
  obtain ⟨tally, run, offered⟩ := calmed
  have same : NotUnderstood b (begin (calm (hear e u.transcript) u)).engine.state.run
      (begin (calm (hear e u.transcript) u)).engine.offeredMore u := by
    show NotUnderstood b (calm (hear e u.transcript) u).state.run
      (calm (hear e u.transcript) u).offeredMore u
    rw [run, offered]
    exact missed
  obtain ⟨r', fallback, kept⟩ := understood_missed same
  dsimp only
  rw [finish_tally, fallback, fallback_tally, kept]
  exact congrArg (Tally.missed b) tally

/-- A call that is over takes no utterance. -/
theorem onUtterance_inactive {e : Engine b} (inactive : e.state.phase ≠ .active) (u : Understanding) :
    onUtterance e u = ([], e) := if_pos (.inl inactive)

/-- At every utterance, nothing of it is understood. -/
def NoneUnderstood (e : Engine b) (us : List Understanding) : Prop :=
  ∀ ev ∈ events onUtterance e us,
    NotUnderstood b ev.before.state.run ev.before.offeredMore ev.input

/-- A call that goes on misses one rung at each utterance. -/
theorem miss_left {e : Engine b} (active : e.state.phase = .active)
    (missed : NotUnderstood b e.state.run e.offeredMore u)
    (goesOn : (onUtterance e u).2.state.phase = .active) :
    (onUtterance e u).2.tally.left b + 1 ≤ e.tally.left b := by
  have tally := notUnderstood_tally active missed
  rw [tally]
  refine Tally.missed_left (b := b) { e.tally with silenceReprompts := 0 } ?_
  rw [← tally]
  exact goesOn

/-- With a desk, a call that misses an utterance has a desk, and is not over. -/
theorem miss_desk {e : Engine b} (active : e.state.phase = .active) (desk : e.hasDesk = true)
    (missed : NotUnderstood b e.state.run e.offeredMore u) :
    (onUtterance e u).2.hasDesk = true ∧ (onUtterance e u).2.state.phase ≠ .ending ∧
      ((onUtterance e u).2.state.phase = .active →
        (onUtterance e u).2.state.fallbackLevel = e.state.fallbackLevel + 1 ∧
        e.state.fallbackLevel + 1 ≤ b.config.fallback.ladder.length) := by
  have tally := notUnderstood_tally active missed
  rw [Tally.missed_desk { e.tally with silenceReprompts := 0 } desk] at tally
  dsimp only at tally
  by_cases past : b.config.fallback.ladder.length < e.tally.fallbackLevel + 1
  · rw [if_pos past] at tally
    have phase : (onUtterance e u).2.state.phase = .handingOff := congrArg Tally.phase tally
    refine ⟨?_, ?_, fun goesOn => ?_⟩
    · have same : (onUtterance e u).2.desk = e.desk := congrArg Tally.desk tally
      unfold Engine.hasDesk
      rw [same]
      exact desk
    · rw [phase]
      exact Phase.noConfusion
    · cases phase.symm.trans goesOn
  · rw [if_neg past] at tally
    refine ⟨?_, ?_, fun _ => ⟨congrArg Tally.fallbackLevel tally, Nat.le_of_not_lt past⟩⟩
    · have same : (onUtterance e u).2.desk = e.desk := congrArg Tally.desk tally
      unfold Engine.hasDesk
      rw [same]
      exact desk
    · have phase : (onUtterance e u).2.state.phase = .active :=
        (congrArg Tally.phase tally).trans active
      rw [phase]
      exact Phase.noConfusion

/-- With a desk, a call of which nothing is understood never ends without it. -/
theorem desk_notEnding {e : Engine b} (going : e.state.phase ≠ .ending) (desk : e.hasDesk = true)
    {us : List Understanding} (none' : NoneUnderstood e us) :
    (final onUtterance e us).state.phase ≠ .ending := by
  induction us generalizing e with
  | nil => exact going
  | cons u us ih =>
    have first : NotUnderstood b e.state.run e.offeredMore u := none' _ List.mem_cons_self
    have rest : NoneUnderstood (onUtterance e u).2 us :=
      fun ev listed => none' ev (List.mem_cons_of_mem _ listed)
    by_cases active : e.state.phase = .active
    · obtain ⟨desk', going', -⟩ := miss_desk active desk first
      exact ih going' desk' rest
    · have same := onUtterance_inactive active u
      rw [show final onUtterance e (u :: us) = final onUtterance (onUtterance e u).2 us from rfl]
      rw [same] at rest ⊢
      exact ih going desk rest

/-- **The fallback ladder ends**: more than twice the ladder of utterances of which nothing is understood
take the call to the desk or to its end, and as many as the ladder has rungs, and one, with a desk, to the
desk; and no rung is looked up that the ladder does not have. -/
theorem ladder_ends (e : Engine b) (us : List Understanding) (none' : NoneUnderstood e us) :
    (2 * (b.config.fallback.ladder.length + 1) < us.length →
      (final onUtterance e us).state.phase = .handingOff ∨
      (final onUtterance e us).state.phase = .ending) ∧
    (e.state.phase = .active → e.hasDesk = true → b.config.fallback.ladder.length < us.length →
      (final onUtterance e us).state.phase = .handingOff) ∧
    ∀ r : Reply b, r.fallback = r.climb := by
  have stays : ∀ (s : Engine b) (u : Understanding), ¬s.state.phase = .active →
      ¬(onUtterance s u).2.state.phase = .active := by
    intro s u inactive
    rw [onUtterance_inactive inactive]
    exact inactive
  have counted : us.countP (fun _ => true) = us.length := congrFun List.countP_true us
  refine ⟨fun enough => ?_, fun active desk enough => ?_, fallback_climbs⟩
  · have gone : ¬(final onUtterance e us).state.phase = .active := by
      refine runs_out (fun s : Engine b => s.state.phase = .active) (fun _ => True)
        (fun s => s.tally.left b) (fun _ => true) stays
        (fun s u _ active missed goesOn => ⟨trivial, miss_left active missed goesOn⟩) trivial none' ?_
      rw [counted]
      unfold Tally.left
      split
      · omega
      · omega
    cases phase : (final onUtterance e us).state.phase with
    | active => exact absurd phase gone
    | handingOff => exact .inl rfl
    | ending => exact .inr rfl
  · have gone : ¬(final onUtterance e us).state.phase = .active := by
      refine runs_out (fun s : Engine b => s.state.phase = .active) (fun s => s.hasDesk = true)
        (fun s => b.config.fallback.ladder.length - s.state.fallbackLevel) (fun _ => true) stays
        (fun s u desk active missed goesOn => ?_) desk none' ?_
      · obtain ⟨desk', -, level⟩ := miss_desk (u := u) active desk missed
        obtain ⟨one, within⟩ := level goesOn
        refine ⟨desk', ?_⟩
        show b.config.fallback.ladder.length - (onUtterance s u).2.state.fallbackLevel + 1 ≤
          b.config.fallback.ladder.length - s.state.fallbackLevel
        omega
      · rw [counted]
        omega
    have going : e.state.phase ≠ .ending := by
      rw [active]
      exact Phase.noConfusion
    cases phase : (final onUtterance e us).state.phase with
    | active => exact absurd phase gone
    | handingOff => rfl
    | ending => exact absurd phase (desk_notEnding going desk none')

end Reply

namespace Sample

/-- Taking a note, which has nothing to ask and nothing to do. -/
def memo : PipelineConfig where
  description := "taking a note"
  slots := [⟨"memo", false, none, none, none, none, false⟩]
  confirm := none
  action := none
  filler := none
  onSuccess := none
  onFailure := none
  onUnknown := none
  onComplete := some "done"
  after := .continue
  strictOrder := false
  offer := none

/-- Rides that know a curse when they hear one, and take notes. -/
def strictConfig : BusinessConfig := { config with
  lexicon := { config.lexicon with abuse := ["damn"] }
  intents := config.intents ++ [starts "memo" "a note" ["note"] "memo"]
  slots := config.slots.insert "memo" (slotOf .text "note")
  pipelines := config.pipelines.insert "memo" memo }

def strictRides : Business :=
  @Business.build Unicode.plain (fun _ => .error "no pattern") (fun _ => none) strictConfig

set_option maxRecDepth 100000 in
theorem strictRides_validated : @Business.Validated Unicode.plain strictRides := by
  refine ⟨fun _ => .error "no pattern", fun _ => none, strictConfig, ?_⟩
  have sound : @Business.issues Unicode.plain (fun _ => .error "no pattern") (fun _ => none)
      strictConfig = [] := by
    decide +kernel
  unfold Business.compile
  rw [if_pos sound]
  rfl

open Reply

/-- A curse. -/
def curse : Understanding := Understanding.empty "damn"

/-- A value the model is not sure enough of for any task to take it. -/
def unsure : Understanding :=
  { Understanding.empty "um" with slots := [⟨"memo", .text "um", 0.1, .llm⟩] }

/-- Five curses, or five values too unsure to be taken, and the call goes on. -/
theorem strictRides_goOn : strictRides.Validated ∧ ∀ u ∈ [curse, unsure],
    (u.noise = false ∧ u.metaIntent = none ∧ u.intent = none ∧ u.affirm = none ∧
      ∀ fill ∈ u.slots, ∀ cfg, strictRides.slotConfig fill.slot = some cfg →
      fill.confidence < cfg.rejectBelow) ∧
    2 * (strictRides.config.fallback.ladder.length + 1) < (List.replicate 5 u).length ∧
    (final onUtterance (Engine.new strictRides 7) (List.replicate 5 u)).state.phase = .active := by
  refine ⟨strictRides_validated, fun u listed => ?_⟩
  rcases List.mem_pair.mp listed with rfl | rfl
  · exact ⟨⟨rfl, rfl, rfl, rfl, fun _ none' => absurd none' List.not_mem_nil⟩, by decide, by
      decide +kernel⟩
  · refine ⟨⟨rfl, rfl, rfl, rfl, fun fill one cfg found => ?_⟩, by decide, by decide +kernel⟩
    obtain rfl := List.mem_singleton.mp one
    have threshold : (strictRides.slotConfig "memo").map SlotConfig.rejectBelow = some 0.35 := by
      decide +kernel
    rw [show strictRides.slotConfig "memo" = some cfg from found] at threshold
    rw [Option.some.inj threshold]
    decide +kernel

/-- Words that mean nothing to a business. -/
def muttered : Understanding := Understanding.empty "um"

/-- Five times something is said that means nothing to rides: the call ends. -/
theorem rides_giveUp :
    (final onUtterance (Engine.new rides 7) (List.replicate 5 muttered)).state.phase = .handingOff ∨
    (final onUtterance (Engine.new rides 7) (List.replicate 5 muttered)).state.phase = .ending := by
  refine (ladder_ends (Engine.new rides 7) (List.replicate 5 muttered) ?_).1 (by decide)
  have decided : ∀ ev ∈ events onUtterance (Engine.new rides 7) (List.replicate 5 muttered),
      ev.input.noise = false ∧ rides.isAbusive ev.input.transcript = false ∧ ev.input.metaIntent = none ∧
        ev.input.intent = none ∧
        answersAsked rides ev.before.state.run ev.before.offeredMore ev.input = false ∧
        takesValue rides ev.before.state.run ev.input.slots = false := by
    decide +kernel
  intro ev listed
  obtain ⟨speech, clean, metaIntent, intent, answer, values⟩ := decided ev listed
  exact ⟨speech, clean, metaIntent, intent, answer, values⟩

end Sample

end Callora
