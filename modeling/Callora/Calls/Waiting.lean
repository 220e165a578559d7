/-
**While an action is under way.**

`advance` moves a task on whatever its run waits for, so a run that waits for its action only goes on
waiting through operations that do not move the task on. Each function of a turn gets the condition under
which it does not (`…Waits`), written along its own branches, and a lemma that it then only takes values
and at most ends or transfers the call (`Book.Waits`).

`Op.waits` is the condition of an operation, `Op.waits_keeps` what it keeps.
-/
import Callora.Calls.Call

set_option linter.unusedSectionVars false

namespace Callora

open Callora.Text Runs

section Waiting

variable {b : Business} [Unicode]

section Books

/-- The moves that only take values. -/
def takes : Allowed := fun label _ => label.keepsStep

theorem takes_keeps : Keeps takes := fun _ _ keeps => keeps

/-- What ends an operation that does not move the task on. -/
inductive Waits : Ledger → Ledger → List Directive → Prop
  | rests {l : Ledger} : Waits l l []
  | hangsUp {l : Ledger} : Waits l { l with phase := .ending } [.hangup]
  | handsOff {l : Ledger} (summary : HandoffSummary) :
      Waits l { l with phase := .handingOff } [.handoff summary]

/-- Values are taken, and the call is at most ended or transferred. -/
structure Book.Waits (b : Business) (B B' : Book) : Prop where
  goes : ∃ l orders, Path (Move b) takes B.ledger l ∧ Callora.Waits l B'.ledger orders ∧
    B'.orders = B.orders ++ orders
  desk : B'.desk = B.desk

variable {B B' B'' : Book}

namespace Book.Waits

theorem of_quietly (quietly : Book.Quietly b takes B B') : Book.Waits b B B' :=
  ⟨⟨_, [], quietly.path, .rests, by rw [quietly.orders, List.append_nil]⟩, quietly.desk⟩

theorem of_eq (same : B' = B) : Book.Waits b B B' := of_quietly (.of_eq same)

theorem after (quietly : Book.Quietly b takes B B') (waits : Book.Waits b B' B'') :
    Book.Waits b B B'' := by
  obtain ⟨⟨l, orders, path, ends, given⟩, desk⟩ := waits
  exact ⟨⟨l, orders, quietly.path.trans path, ends, by rw [given, quietly.orders]⟩,
    desk.trans quietly.desk⟩

theorem hangsUp (same : B' = ⟨{ B.ledger with phase := .ending }, B.orders ++ [.hangup], B.desk⟩) :
    Book.Waits b B B' := by
  subst same
  exact ⟨⟨B.ledger, _, .refl _, .hangsUp, rfl⟩, rfl⟩

end Book.Waits

end Books

namespace Reply

section Transfers

/-- A transfer that does not move the task on: there is a desk, or the call starts over or ends
without one. -/
def handoffWaits (e : Engine b) (reason : String) : Bool :=
  e.hasDesk || reason == "not_understood" || reason == "action_failed"

theorem handoffWaits_congr {e e' : Engine b} (desk : e'.desk = e.desk) (reason : String) :
    handoffWaits e' reason = handoffWaits e reason := by
  unfold handoffWaits Engine.hasDesk
  rw [desk]

theorem handoff_waits {r : Reply b} {reason : String} (waits : handoffWaits r.engine reason) :
    Book.Waits b r.book (r.handoff reason).book := by
  unfold handoff
  dsimp only
  split
  · rw [push_book _ rfl]
    have said := sayNow_book r b.config.handoff.response true
    rw [← said]
    exact ⟨⟨_, _, .refl _, .handsOff _, rfl⟩, rfl⟩
  · rename_i alone
    split
    · exact .of_eq (sayNow_book _ _ _)
    · have said := sayNow_book r b.config.handoff.unavailableResponse true
      have ends : (reason == "not_understood" || reason == "action_failed") = true := by
        simpa [handoffWaits, alone] using waits
      rw [if_pos ends, ends_book, said]
      exact .hangsUp rfl

theorem forceHandoff_waits {e : Engine b} {reason : String} (waits : handoffWaits e reason) :
    Book.Waits b e.book (answerBook (forceHandoff e reason)) := by
  unfold forceHandoff
  split
  · exact .of_eq rfl
  · have goes := handoff_waits (r := begin e) waits
    rw [begin_book] at goes
    dsimp only
    generalize (begin e).handoff reason = r at goes ⊢
    split
    · rename_i still
      rw [answerBook_finish, ends_book]
      obtain ⟨⟨l, orders, path, ends, given⟩, desk⟩ := goes
      generalize left : r.book.ledger = l' at ends
      cases ends with
      | rests =>
        subst left
        exact ⟨⟨_, [.hangup], path, .hangsUp, by simp [given]⟩, desk⟩
      | hangsUp => exact absurd ((congrArg Ledger.phase left).symm.trans still) (by simp)
      | handsOff => exact absurd ((congrArg Ledger.phase left).symm.trans still) (by simp)
    · rw [answerBook_finish]
      exact goes

theorem fallback_waits {r : Reply b} {run : PipelineRun} (current : r.engine.state.run = some run)
    (executing : run.step.isExecuting) : Book.Waits b r.book r.fallback.book := by
  have same : (r.modify fun s => { s with fallbackLevel := s.fallbackLevel + 1 }).book = r.book := rfl
  have here : (r.modify fun s => { s with fallbackLevel := s.fallbackLevel + 1 }).engine.state.run =
      some run := current
  unfold fallback
  generalize (r.modify fun s => { s with fallbackLevel := s.fallbackLevel + 1 }) = r' at same here ⊢
  rw [← same]
  dsimp only
  split
  · exact handoff_waits (by simp [handoffWaits])
  · rw [here, Option.any_some, executing, Bool.not_true, if_neg Bool.false_ne_true]
    exact .of_eq (sayNow_book r' _ _)

end Transfers

section Rules

/-- The rules of a turn do not move the task on: those that take it over are transfers that wait. -/
def rulesWait : List RuleConfig → Reply b → Bool
  | [], _ => true
  | rule :: rules, r =>
    if r.engine.ruleHit rule then
      match rule.effect with
      | .reject _ => false
      | .handoff _ reason => handoffWaits r.engine ("rule:" ++ reason)
      | .set .. => rulesWait rules (r.applyRule rule).1
    else rulesWait rules r

theorem applyRulesFrom_waits {rules : List RuleConfig} (listed : ∀ rule ∈ rules, rule ∈ b.config.rules)
    {r : Reply b} (waits : rulesWait rules r) : Book.Waits b r.book (applyRulesFrom rules r).1.book := by
  induction rules generalizing r with
  | nil => exact .of_eq rfl
  | cons rule rules ih =>
    have rest := fun rule' mem => listed rule' (List.mem_cons_of_mem rule mem)
    unfold rulesWait at waits
    unfold applyRulesFrom
    split
    · rename_i hit
      rw [if_pos hit] at waits
      have quietly := applyRule_quietly takes_keeps (listed rule List.mem_cons_self) r
      cases effect : rule.effect with
      | reject response => simp [effect] at waits
      | handoff response reason =>
        have fired := fire_quietly takes_keeps r rule.id
        rw [effect] at waits
        unfold applyRule
        rw [effect]
        dsimp only
        generalize (r.mapEngine fun e => e.mapRun fun run =>
            { run with firedRules := run.firedRules ++ [rule.id] }) = r' at fired ⊢
        have said := sayOptional_book r' response true
        have desk : (r'.sayOptional response true).engine.desk = r.engine.desk :=
          (congrArg Book.desk said).trans fired.desk
        refine .after (fired.trans (.of_eq said)) (handoff_waits ?_)
        rw [handoffWaits_congr desk]
        exact waits
      | set slot value =>
        rw [effect] at waits
        have goesOn : (r.applyRule rule).2 = false := by
          unfold applyRule
          rw [effect]
          dsimp only
          split <;> rfl
        have moved := quietly goesOn
        generalize r.applyRule rule = applied at goesOn moved waits ⊢
        obtain ⟨r', took⟩ := applied
        obtain rfl : took = false := goesOn
        exact .after moved (ih rest waits)
    · rename_i miss
      rw [if_neg miss] at waits
      exact ih rest waits

end Rules

section Utterances

variable {r : Reply b} {run : PipelineRun} {u : Understanding}

/-- An intent about the conversation that does not move the task on. -/
def metaWaits (e : Engine b) (run : PipelineRun) : MetaIntent → Bool
  | .goBack => run.journal.isEmpty
  | .cancelCurrentFlow => false
  | .transferHuman => handoffWaits e "caller_requested"
  | _ => true

theorem onMeta_waits {m : MetaIntent} (current : r.engine.state.run = some run)
    (waits : metaWaits r.engine run m) : Book.Waits b r.book (r.onMeta m).book := by
  cases m with
  | repeatLast => exact .of_eq (repeatLast_book r _ _)
  | didNotUnderstand => exact .of_eq (repeatLast_book r _ _)
  | speakSlower => exact .of_eq (repeatLast_book r _ _)
  | speakLouder => exact .of_eq (repeatLast_book r _ _)
  | cancelCurrentFlow => cases waits
  | goBack =>
    have journal : run.journal = [] := List.isEmpty_iff.mp waits
    have undone : r.engine.state.run.bind PipelineRun.undo = none := by
      simp [current, PipelineRun.undo, journal]
    refine .of_eq ?_
    show (r.goBack _).book = _
    unfold goBack
    rw [undone]
    dsimp only
    split <;> rfl
  | transferHuman => exact handoff_waits waits
  | goodbye => exact .hangsUp (goodbye_book r)
  | wait => exact .of_eq (sayOptional_book r _ _)

/-- The task of the run takes none of the values. -/
def takesNothing (b : Business) (run : PipelineRun) (fills : List SlotFill) : Bool :=
  !fills.any (Engine.accepts b (b.pipelineOf run))

/-- An utterance's values that do not move the task on: none is taken, or a transfer takes the turn
over. -/
def valuesWait (r : Reply b) (run : PipelineRun) (u : Understanding) : Bool :=
  takesNothing b run u.slots ||
    let (c, _, fills) := checkFills u.slots (⟨r.engine, [], []⟩ : Check b) false []
    let r := ({ r with engine := (c.engine.applyFills fills).1 } : Reply b).resetFallback
    r.applyRules.2 && rulesWait b.config.rules r

theorem checkFills_takesNothing {c : Check b} {fills : List SlotFill} (noted : Bool)
    (taken : List SlotFill) (current : c.engine.state.run = some run)
    (nothing : takesNothing b run fills) :
    checkFills fills c noted taken = (c, noted, taken ++ fills) := by
  induction fills generalizing taken with
  | nil => rw [checkFills, List.append_nil]
  | cons fill rest ih =>
    simp only [takesNothing, List.any_cons, Bool.not_or, Bool.and_eq_true, Bool.not_eq_true'] at nothing
    have rest' := ih (taken ++ [fill]) (by simpa [takesNothing] using nothing.2)
    unfold checkFills
    simp only [current, Option.any_some, nothing.1, Bool.false_eq_true, if_false, rest']
    rw [List.append_assoc]
    split <;> rfl

theorem applyFills_takesNothing {e : Engine b} {fills : List SlotFill}
    (current : e.state.run = some run) (nothing : takesNothing b run fills) :
    e.applyFills fills = (e, 0) := by
  have none' : fills.filter (Engine.accepts b (b.pipelineOf run)) = [] := by
    simpa [takesNothing, List.filter_eq_nil_iff] using nothing
  unfold Engine.applyFills
  rw [current]
  dsimp only
  rw [none']
  rfl

/-- A run that waits for its action waits for it still. -/
theorem waits_on {e e' : Engine b} (quietly : Book.Quietly b takes e.book e'.book)
    (current : e.state.run = some run) (executing : run.step.isExecuting) :
    ∃ run', e'.state.run = some run' ∧ SameWait run run' ∧ run'.step.isExecuting := by
  have frame := keepsStep_frame (fun _ _ may => may) quietly.path
  obtain ⟨run', here, same⟩ := frame.run run current
  exact ⟨run', here, same, by rw [same.step executing]; exact executing⟩

theorem takeValues_waits (current : r.engine.state.run = some run) (executing : run.step.isExecuting)
    (waits : valuesWait r run u) : Book.Waits b r.book (r.takeValues u false).book := by
  unfold takeValues
  unfold valuesWait at waits
  cases nothing : takesNothing b run u.slots with
  | true =>
    rw [checkFills_takesNothing (c := ⟨r.engine, [], []⟩) false [] current nothing]
    dsimp only
    rw [List.nil_append, applyFills_takesNothing current nothing]
    exact fallback_waits current executing
  | false =>
    rw [nothing, Bool.false_or] at waits
    have checked := checkFills_quietly takes_keeps u.slots (⟨r.engine, [], []⟩ : Check b) false []
    generalize checkFills u.slots (⟨r.engine, [], []⟩ : Check b) false [] = result at checked waits ⊢
    obtain ⟨c, noted, fills⟩ := result
    dsimp only at waits ⊢
    have stored := checked.trans (Engine.applyFills_quietly takes_keeps c.engine fills)
    obtain ⟨run', here, -, executing'⟩ := waits_on stored current executing
    generalize c.engine.applyFills fills = result at stored here waits ⊢
    obtain ⟨e, applied⟩ := result
    dsimp only at stored here waits ⊢
    have taken : Book.Quietly b takes r.book ({ r with engine := e } : Reply b).book :=
      ⟨stored.path, rfl, stored.desk⟩
    refine .after taken ?_
    split
    · exact fallback_waits here executing'
    · rw [Bool.and_eq_true] at waits
      have goes := applyRulesFrom_waits (fun _ mem => mem) waits.2
      rw [resetFallback_book] at goes
      unfold applyRules at waits ⊢
      generalize applyRulesFrom b.config.rules ({ r with engine := e } : Reply b).resetFallback =
        result at goes waits ⊢
      obtain ⟨r', took⟩ := result
      obtain rfl : took = true := waits.1
      exact goes

/-- What was understood does not move the task on. -/
def understoodWaits (r : Reply b) (run : PipelineRun) (u : Understanding) : Bool :=
  match intentStep b (some run) u with
  | .stays => valuesWait r run u
  | .unknown => true
  | .handoff intent => handoffWaits r.engine ("intent:" ++ intent)
  | .respond _ => false
  | .start .. => false

theorem understood_waits (current : r.engine.state.run = some run) (executing : run.step.isExecuting)
    (waits : understoodWaits (r.mapEngine fun e => { e with offeredMore := false }) run u) :
    Book.Waits b r.book (r.understood u).book := by
  unfold understood
  have same : (r.mapEngine fun e => { e with offeredMore := false }).book = r.book := rfl
  have here : (r.mapEngine fun e => { e with offeredMore := false }).engine.state.run =
    some run := current
  generalize (r.mapEngine fun e => { e with offeredMore := false }) = r' at same here waits ⊢
  rw [← same]
  dsimp only
  have silent : r'.answered u = none := by
    have answer := answered_isSome r' u
    rw [here] at answer
    cases step : run.step with
    | executing n => simpa [answers, step] using answer
    | _ => simp [step, Step.isExecuting] at executing
  rw [silent, here]
  unfold understoodWaits at waits
  dsimp only
  cases intent : intentStep b (some run) u with
  | stays =>
    rw [intent] at waits
    have inferred : r'.inferTask u false = (r', false) := by
      unfold inferTask
      rw [here]
    show Book.Waits b r'.book (r'.afterIntent _ u false).book
    unfold afterIntent
    rw [inferred]
    dsimp only
    rw [here, Option.isNone_some, if_neg Bool.false_ne_true]
    exact takeValues_waits here executing waits
  | unknown => exact fallback_waits here executing
  | handoff id =>
    rw [intent] at waits
    exact handoff_waits waits
  | respond response => simp [intent] at waits
  | start pipeline id => simp [intent] at waits

/-- An utterance that does not move the task on. -/
def utteranceWaits (e : Engine b) (run : PipelineRun) (u : Understanding) : Bool :=
  e.state.phase != .active || u.noise || b.isAbusive u.transcript ||
    let e := calm (hear e u.transcript) u
    match metaOf u with
    | some m => metaWaits e run m
    | none => understoodWaits ((begin e).mapEngine fun e => { e with offeredMore := false }) run u

theorem onAbuse_waits (e : Engine b) : Book.Waits b e.book (answerBook (onAbuse e)) := by
  unfold onAbuse
  dsimp only
  split
  · have said := sayNow_book ((begin e).modify fun s => { s with abuseStrikes := s.abuseStrikes + 1 })
      "abuse_goodbye" true
    rw [answerBook_finish, ends_book, said]
    exact .hangsUp rfl
  · refine .of_eq ?_
    split <;> rw [answerBook_finish]
    · rw [speak_book]
      split
      · exact sayNow_book _ _ _
      · rfl
    · split
      · exact sayNow_book _ _ _
      · rfl

theorem onUtterance_waits {e : Engine b} (current : e.state.run = some run)
    (executing : run.step.isExecuting) (waits : utteranceWaits e run u) :
    Book.Waits b e.book (answerBook (onUtterance e u)) := by
  unfold utteranceWaits at waits
  unfold onUtterance
  split
  · exact .of_eq rfl
  · rename_i heard
    push Not at heard
    have hears : (hear e u.transcript).book = e.book := hear_book e u.transcript
    dsimp only at waits ⊢
    split
    · rw [← hears]
      exact onAbuse_waits _
    · rename_i decent
      have calms : (calm (hear e u.transcript) u).book = e.book := (calm_book _ u).trans hears
      have waits' := waits
      simp only [heard.1, heard.2, decent, bne_self_eq_false, Bool.false_or] at waits'
      generalize calm (hear e u.transcript) u = e' at calms waits' ⊢
      have here : e'.state.run = some run :=
        (congrArg (fun B : Book => B.ledger.run) calms).trans current
      rw [← calms]
      cases mtd : metaOf u with
      | some m =>
        rw [mtd] at waits'
        have waits' : metaWaits e' run m := by simpa using waits'
        rw [answerBook_finish]
        exact onMeta_waits (r := begin e') here waits'
      | none =>
        rw [mtd] at waits'
        rw [answerBook_finish]
        exact understood_waits (r := begin e') here executing (by simpa using waits')

end Utterances

section AgentTurns

variable {r : Reply b} {run : PipelineRun} {s : AgentStep}

/-- The task's next question asks something. -/
def asksNext (e : Engine b) : Bool :=
  match e.state.run with
  | none => true
  | some run =>
    let e := e.fillDefaults (b.pipelineOf run)
    e.state.run.any fun run' => (nextAsked e (b.pipelineOf run) run').isSome

theorem nextQuestion_waits (waits : asksNext r.engine) :
    Book.Waits b r.book r.nextQuestion.book := by
  unfold nextQuestion
  unfold asksNext at waits
  cases current : r.engine.state.run with
  | none => exact .of_eq rfl
  | some run =>
    rw [current] at waits
    have filled := fillDefaults_quietly takes_keeps current
    have same : (r.mapEngine fun e => e.fillDefaults (b.pipelineOf run)).engine =
        r.engine.fillDefaults (b.pipelineOf run) := rfl
    dsimp only at waits ⊢
    rw [← same] at waits
    generalize (r.mapEngine fun e => e.fillDefaults (b.pipelineOf run)) = r' at filled waits ⊢
    refine .after filled ?_
    obtain ⟨run', here, asked⟩ := Option.any_eq_true _ _ |>.mp waits
    obtain ⟨ps, next⟩ := Option.isSome_iff_exists.mp asked
    rw [here]
    dsimp only
    rw [next]
    dsimp only
    refine .of_eq ?_
    rw [ask_book]
    split <;> rfl

/-- A detour that does not move the task on. -/
def detourWaits (r : Reply b) (s : AgentStep) : Detour → Bool
  | .askRejected slot =>
    let e := (r.agentSay none "" s.spoken).engine
    !(b.handoffNumber.isSome && decide (3 ≤ (e.state.placeRejections[slot]?).getD 0)) ||
      handoffWaits e "place_not_understood"
  | .nextQuestion => asksNext r.engine
  | _ => true

theorem askRejected_waits {slot : String} (quiet : r.book.orders = [])
    (waits : detourWaits r s (.askRejected slot)) :
    Book.Waits b r.book (answerBook (r.askRejected s slot)) := by
  have said := agentSay_book r none "" s.spoken
  unfold detourWaits at waits
  unfold askRejected
  generalize r.agentSay none "" s.spoken = r' at said waits ⊢
  dsimp only at waits ⊢
  rw [← said] at quiet ⊢
  split
  · rename_i missed
    rw [missed, Bool.not_true, Bool.false_or] at waits
    rw [← engine_book quiet]
    exact forceHandoff_waits waits
  · refine .of_eq ?_
    split
    · rw [answerBook_finish, noteAsked_book, sayPrompts_book]
      rfl
    · split
      · rw [answerBook_finish]
        rfl
      · rw [answerBook_finish, questionRejected_book]
        rfl

theorem takeDetour_waits {d : Detour} (quiet : r.book.orders = []) (waits : detourWaits r s d) :
    Book.Waits b r.book (answerBook (r.takeDetour s d)) := by
  cases d with
  | askOptional slot =>
    refine .of_eq ?_
    rw [takeDetour, answerBook_finish, askOptional_book]
  | askRejected slot => exact askRejected_waits quiet waits
  | nextQuestion =>
    rw [takeDetour, answerBook_finish]
    exact nextQuestion_waits waits
  | askAgain slot =>
    refine .of_eq ?_
    rw [takeDetour, answerBook_finish, askAgain_book, agentSay_book]

/-- A decision of the agent that does not move the task on. -/
def actionWaits (e : Engine b) (s : AgentStep) : Bool :=
  match s.action with
  | .none => !s.decided
  | .transfer => handoffWaits e "caller_requested"
  | .endCall => e.callerSaidGoodbye s.transcript || (s.offeredMore && e.onlyFillers s.transcript)
  | .readBack => false
  | .submit => false

theorem actOn_waits (current : r.engine.state.run = some run) (executing : run.step.isExecuting)
    (waits : actionWaits r.engine s) : Book.Waits b r.book (r.actOn s).book := by
  have busy : run.step.isCollecting = false := by
    cases step : run.step <;> simp_all [Step.isExecuting, Step.isCollecting]
  unfold actionWaits at waits
  unfold actOn
  split
  · rename_i action
    rw [action] at waits
    have undecided : s.decided = false := by simpa using waits
    have reads : r.engine.runsWithoutReadBack = false := by
      simp [Engine.runsWithoutReadBack, current, busy]
    rw [undecided, reads, Bool.or_false, if_neg Bool.false_ne_true]
    exact .of_eq (agentSay_book r _ _ _)
  · rename_i action
    rw [action] at waits
    have said := agentSay_book r s.turn.phrase s.turn.say s.spoken
    refine .after (.of_eq said) (handoff_waits ?_)
    rw [handoffWaits_congr (congrArg Book.desk said)]
    exact waits
  · rename_i action
    rw [action] at waits
    have begun : r.engine.goodbyeMidTask s.transcript = false := by
      simp [Engine.goodbyeMidTask, current, busy]
    rw [begun, if_neg Bool.false_ne_true]
    unfold endCall
    rw [if_pos waits]
    split
    · exact .hangsUp (goodbye_book r)
    · rw [ends_book, agentSay_book]
      exact .hangsUp rfl
  · rename_i action
    simp [action] at waits
  · rename_i action
    simp [action] at waits

/-- A decision whose values were taken that does not move the task on. -/
def stepWaits (r : Reply b) (s : AgentStep) : Bool :=
  match r.engine.detour s with
  | some d => detourWaits r s d
  | none => actionWaits (r.noteAsked (r.engine.turnAsks s.turn)).engine s

theorem afterValues_waits (current : r.engine.state.run = some run) (executing : run.step.isExecuting)
    (quiet : r.book.orders = []) (waits : stepWaits r s) :
    Book.Waits b r.book (answerBook (r.afterValues s)) := by
  unfold stepWaits at waits
  unfold afterValues
  cases detour : r.engine.detour s with
  | some d =>
    rw [detour] at waits
    exact takeDetour_waits quiet waits
  | none =>
    rw [detour] at waits
    dsimp only
    rw [answerBook_finish, neverSilent_book]
    exact actOn_waits (r := r.noteAsked (r.engine.turnAsks s.turn)) current executing waits

/-- A turn's values and decision that do not move the task on. -/
def turnWaits (e : Engine b) (transcript spoken : String) (turn : AgentTurn)
    (decided offeredMore : Bool) : Bool :=
  let wasConfirming := e.state.run.any fun r => r.step == .awaitingConfirmation
  let (e, fields, inTown) := turnFields e transcript turn
  let turn := if inTown then Engine.unsaid turn else turn
  let (e, changed, rejected) := (noteSameCity e transcript).applyAgentFields fields
  rulesWait b.config.rules (begin e) &&
    match (begin e).applyRules with
    | (_, true) => true
    | (r, false) => stepWaits r (stepOf (b := b) transcript spoken turn fields (decided || inTown)
        offeredMore wasConfirming changed rejected)

theorem takeTurn_waits {e : Engine b} {transcript spoken : String} {turn : AgentTurn}
    {decided offeredMore : Bool} (current : e.state.run = some run) (executing : run.step.isExecuting)
    (waits : turnWaits e transcript spoken turn decided offeredMore) :
    Book.Waits b e.book (answerBook (takeTurn e transcript spoken turn decided offeredMore)) := by
  have taken := turnValues_quietly takes_keeps e transcript turn fun p l idle =>
    absurd (current.symm.trans idle) (by simp)
  unfold turnWaits at waits
  unfold takeTurn
  generalize turnFields e transcript turn = result at taken waits ⊢
  obtain ⟨e', fields, inTown⟩ := result
  dsimp only at taken waits ⊢
  generalize (noteSameCity e' transcript).applyAgentFields fields = result at taken waits ⊢
  obtain ⟨e'', changed, rejected⟩ := result
  dsimp only at taken waits ⊢
  rw [Bool.and_eq_true] at waits
  have goes := applyRulesFrom_waits (fun _ mem => mem) waits.1
  have quietly := applyRules_quietly takes_keeps (begin e'')
  have waits := waits.2
  refine .after taken ?_
  unfold applyRules at quietly waits ⊢
  generalize applyRulesFrom b.config.rules (begin e'') = result at goes quietly waits ⊢
  obtain ⟨r, took⟩ := result
  cases took with
  | true =>
    dsimp only
    rw [answerBook_finish, agentSay_book]
    exact goes
  | false =>
    have quiet : Book.Quietly b takes e''.book r.book := quietly rfl
    have moved : Book.Quietly b takes e.book r.engine.book := by
      rw [engine_book (quiet.orders.trans rfl)]
      exact taken.trans quiet
    obtain ⟨run', here, -, executing'⟩ := waits_on moved current executing
    exact .after quiet (afterValues_waits here executing' quiet.orders waits)

/-- A turn on its task that does not move it on. -/
def taskWaits (e : Engine b) (transcript spoken : String) (turn : AgentTurn)
    (decided offeredMore : Bool) : Bool :=
  ((e.loneCityEitherWay transcript turn.fields).filter fun _ => b.hasResponse "which_way").isSome ||
    turnWaits e transcript spoken turn decided offeredMore

theorem onTask_waits {e : Engine b} {transcript spoken : String} {turn : AgentTurn}
    {decided offeredMore : Bool} (current : e.state.run = some run) (executing : run.step.isExecuting)
    (waits : taskWaits e transcript spoken turn decided offeredMore) :
    Book.Waits b e.book (answerBook (onTask e transcript spoken turn decided offeredMore)) := by
  unfold taskWaits at waits
  unfold onTask
  split
  · exact .of_eq (askWhichWay_book e _ spoken)
  · rename_i clear
    rw [clear, Option.isSome_none, Bool.false_or] at waits
    exact takeTurn_waits current executing waits

/-- A decision that is carried out without moving the task on. -/
def carriedWaits (e : Engine b) (transcript spoken : String) (turn : AgentTurn)
    (decided offeredMore : Bool) : Bool :=
  match turn.task.bind b.intent with
  | none => taskWaits e transcript spoken turn decided offeredMore
  | some intent =>
    if intent.handoff then handoffWaits e ("intent:" ++ intent.id)
    else (switchesTo e intent).isNone && taskWaits e transcript spoken turn decided offeredMore

theorem switchTask_none {e : Engine b} {intent : IntentConfig} (stays : switchesTo e intent = none) :
    e.switchTask intent = e := by
  unfold Engine.switchTask
  cases named : intent.pipeline with
  | none => rfl
  | some pipeline =>
    dsimp only
    rw [if_pos]
    simpa [switchesTo, named, Option.filter_some] using stays

theorem carryOut_waits {e : Engine b} {transcript spoken : String} {turn : AgentTurn}
    {decided offeredMore : Bool} (current : e.state.run = some run) (executing : run.step.isExecuting)
    (waits : carriedWaits e transcript spoken turn decided offeredMore) :
    Book.Waits b e.book (answerBook (carryOut e transcript spoken turn decided offeredMore)) := by
  unfold carriedWaits at waits
  unfold carryOut
  cases task : turn.task.bind b.intent with
  | none =>
    rw [task] at waits
    exact onTask_waits current executing waits
  | some intent =>
    rw [task] at waits
    dsimp only at waits ⊢
    split
    · rename_i transfer
      rw [if_pos transfer] at waits
      have said : ((begin e).agentSay turn.phrase turn.say spoken).book = e.book :=
        agentSay_book (begin e) turn.phrase turn.say spoken
      rw [answerBook_finish]
      refine .after (.of_eq said) (handoff_waits ?_)
      rw [handoffWaits_congr (e := e) (congrArg Book.desk said)]
      exact waits
    · rename_i business
      rw [if_neg business, Bool.and_eq_true] at waits
      rw [switchTask_none (Option.isNone_iff_eq_none.mp waits.1)]
      exact onTask_waits current executing waits.2

/-- A turn of the agent that does not move the task on. -/
def agentWaits (e : Engine b) (transcript : String) (turn : AgentTurn) (spoken : String) : Bool :=
  let offeredMore := e.offeredMore
  let e := e.hearForAgent transcript
  e.state.phase != .active || e.insistsOnGoodbye transcript || b.isAbusive transcript ||
    if 5 ≤ e.state.sameQuestionStreak then handoffWaits e "stuck_on_a_question"
    else carriedWaits e transcript spoken (corrected e transcript turn).1 (corrected e transcript turn).2
      offeredMore

theorem onAgentTurn_waits {e : Engine b} {transcript spoken : String} {turn : AgentTurn}
    (current : e.state.run = some run) (executing : run.step.isExecuting)
    (waits : agentWaits e transcript turn spoken) :
    Book.Waits b e.book (answerBook (onAgentTurn e transcript turn spoken)) := by
  have hears := hearForAgent_book e transcript
  unfold agentWaits at waits
  unfold onAgentTurn
  generalize e.hearForAgent transcript = e' at hears waits ⊢
  have here : e'.state.run = some run :=
    (congrArg (fun B : Book => B.ledger.run) hears).trans current
  have phase : e'.state.phase = e.state.phase := congrArg (fun B : Book => B.ledger.phase) hears
  split
  · exact .of_eq rfl
  · rename_i active
    have active := not_not.mp active
    dsimp only at waits ⊢
    rw [phase, active, bne_self_eq_false, Bool.false_or] at waits
    rw [← hears]
    split
    · rw [answerBook_finish]
      exact .hangsUp (goodbye_book (begin e'))
    · rename_i stays
      split
      · exact onAbuse_waits e'
      · rename_i decent
        simp only [stays, decent, Bool.false_or] at waits
        split
        · rename_i stuck
          rw [if_pos stuck] at waits
          exact forceHandoff_waits waits
        · rename_i moving
          rw [if_neg moving] at waits
          exact carryOut_waits here executing waits

end AgentTurns

end Reply

section Operations

variable {e : Engine b} {op : Op} {run : PipelineRun}

/-- **An operation that does not move a task on** whose action is under way. -/
def Op.waits (e : Engine b) (run : PipelineRun) : Op → Bool
  | utterance u => Reply.utteranceWaits e run u
  | agentTurn transcript turn spoken => Reply.agentWaits e transcript turn spoken
  | forceHandoff reason => e.state.phase != .active || Reply.handoffWaits e reason
  | actionResult runId _ => run.step != .executing runId
  | _ => true

/-- The current run waits on: nothing else changes but the phase and the customer, and nothing is
requested. -/
structure WaitsOn (run : PipelineRun) (l l' : Ledger) (orders : List Directive) : Prop where
  run : ∃ run', l'.run = some run' ∧ SameWait run run'
  suspended : l'.suspended = l.suspended
  completed : l'.completed = l.completed
  nextActionRun : l'.nextActionRun = l.nextActionRun
  runsStarted : l'.runsStarted = l.runsStarted
  failuresSaid : l'.failuresSaid = l.failuresSaid
  orders : ∀ d ∈ orders, d.runId? = none

theorem Book.Waits.waitsOn {B B' : Book} (current : B.ledger.run = some run) (quiet : B.orders = [])
    (waits : Book.Waits b B B') : WaitsOn run B.ledger B'.ledger B'.orders := by
  obtain ⟨⟨l, orders, path, ends, given⟩, -⟩ := waits
  have frame := keepsStep_frame (fun _ _ may => may) path
  rw [given, quiet, List.nil_append]
  generalize B'.ledger = l' at ends
  cases ends with
  | rests =>
    exact ⟨frame.run run current, frame.suspended, frame.completed, frame.nextActionRun,
      frame.runsStarted, frame.failuresSaid, fun d listed => absurd listed List.not_mem_nil⟩
  | hangsUp =>
    refine ⟨frame.run run current, frame.suspended, frame.completed, frame.nextActionRun,
      frame.runsStarted, frame.failuresSaid, fun d listed => ?_⟩
    obtain rfl := List.mem_singleton.mp listed
    rfl
  | handsOff =>
    refine ⟨frame.run run current, frame.suspended, frame.completed, frame.nextActionRun,
      frame.runsStarted, frame.failuresSaid, fun d listed => ?_⟩
    obtain rfl := List.mem_singleton.mp listed
    rfl

theorem WaitsOn.setting (current : e.state.run = some run) (customer : Option Customer)
    (phone : Option String) : WaitsOn run e.state.toLedger
      { e.state.toLedger with customer := customer, callerPhone := phone } [] :=
  ⟨⟨run, current, .refl run⟩, rfl, rfl, rfl, rfl, rfl, fun _ listed => absurd listed List.not_mem_nil⟩

/-- **While an action is under way**, an operation that waits leaves its run waiting. -/
theorem Op.waits_keeps (current : e.state.run = some run) (executing : run.step.isExecuting)
    (waits : op.waits e run) : WaitsOn run e.state.toLedger (op.leaves e) (op.orders e) := by
  have busy : Reply.isBusy e := by simp [Reply.isBusy, current, executing]
  have idle : run.step.isCollecting = false := by
    cases step : run.step <;> simp_all [Step.isExecuting, Step.isCollecting]
  have on (goes : Book.Waits b e.book (answerBook (op.apply e))) :
      WaitsOn run e.state.toLedger (op.leaves e) (op.orders e) := goes.waitsOn current rfl
  cases op with
  | start => exact on (.of_eq (Reply.start_book e))
  | utterance u => exact on (Reply.onUtterance_waits current executing waits)
  | agentTurn transcript turn spoken =>
    exact on (Reply.onAgentTurn_waits current executing waits)
  | noToOptional text =>
    have unasked : Reply.optionalAsked e = none := by
      simp [Reply.optionalAsked, current, idle]
    exact on (.of_eq (by simp [Op.apply, Reply.onNoToOptional, unasked]))
  | closing text =>
    refine on ?_
    show Book.Waits b e.book (answerBook (Reply.onClosing e text))
    unfold Reply.onClosing
    dsimp only
    split
    · exact .of_eq rfl
    · have same := CallState.remember_toLedger { e.state with turns := e.state.turns + 1 } .caller text
      have heard : ({ e with offeredMore := false }.modify fun s =>
          ({ s with turns := s.turns + 1 } : CallState).remember .caller text).book = e.book :=
        congrArg (fun l : Ledger => (⟨l, [], e.desk⟩ : Book)) same
      rw [answerBook_finish, ← heard]
      exact .hangsUp (Reply.goodbye_book (Reply.begin _))
  | silence => exact on (.of_eq (by simp [Op.apply, Reply.onSilence, busy]))
  | noise interrupted => exact on (.of_eq (Reply.onNoise_book e interrupted))
  | unheard => exact on (.of_eq (Reply.onUnheard_book e))
  | hello => exact on (.of_eq (Reply.onHello_book e))
  | replayLast => exact on (.of_eq (Reply.replayLast_book e))
  | forceHandoff reason =>
    refine on ?_
    by_cases active : e.state.phase = .active
    · have waits' : Reply.handoffWaits e reason := by simpa [Op.waits, active] using waits
      exact Reply.forceHandoff_waits waits'
    · exact .of_eq (by simp [Op.apply, Reply.forceHandoff, active])
  | actionResult runId result =>
    have other : run.step ≠ .executing runId := bne_iff_ne.mp waits
    exact on (.of_eq (by simp [Op.apply, Reply.onActionResult, current, other]))
  | setCustomer customer => exact .setting current customer e.state.callerPhone
  | setCallerPhone phone => exact .setting current e.state.customer (phone.filter fun p => trim p ≠ "")
  | setDesk available => exact .setting current e.state.customer e.state.callerPhone
  | setGazetteer gazetteer => exact .setting current e.state.customer e.state.callerPhone
  | hintTowns transcript => exact on (.of_eq (Reply.hintTowns_book e transcript))
  | renderResponse id => exact on (.of_eq rfl)
  | renderPhrase id =>
    have same := Engine.renderPhrase_sameCall e id
    refine on (.of_eq ?_)
    show (⟨(e.renderPhrase id).2.state.toLedger, [], (e.renderPhrase id).2.desk⟩ : Book) = _
    rw [same.ledger, same.desk]
    rfl
  | hearAgain second => exact on (.of_eq rfl)
  | remember text =>
    exact on (.of_eq (congrArg (fun l : Ledger => (⟨l, [], e.desk⟩ : Book))
      (CallState.remember_toLedger e.state .agent text)))

end Operations

end Waiting

end Callora
