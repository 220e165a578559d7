/-
**Every operation refines the ledger machine.**

- `onUtterance_acts`, `onAgentTurn_acts`, …: each operation of the engine is a path of moves and a
  close on its ledger (`Acts`), with the orders it gives;
- `apply_acts`: so is every operation, with what it may do stated on the state before it: the task that
  `starts` names is started first, a step back only happens where `goesBack` and a cancellation where
  `cancels`, and another task is only started where there is none.

The four settings of a call (`Op.isSetting`) change one field each and are not moves.
-/
import Callora.Ledger.Advancing

set_option linter.unusedSectionVars false

namespace Callora

open Callora.Text Runs

variable {b : Business}

/-- The ledger, the orders and the desk an operation leaves. -/
def answerBook (answer : List Directive × Engine b) : Book :=
  ⟨answer.2.state.toLedger, answer.1.filter Directive.isOrder, answer.2.desk⟩

variable [Unicode] {allowed : Allowed}

@[simp] theorem answerBook_finish (r : Reply b) : answerBook r.finish = r.book := by
  obtain ⟨ledger, desk, orders⟩ := r.finish_book
  unfold answerBook Reply.book
  rw [ledger, desk, orders]

@[simp] theorem answerBook_nothing (e : Engine b) :
    answerBook (([], e) : List Directive × Engine b) = e.book :=
  rfl

/-- A task may be started only where there is none and values name it. -/
def Infers (allowed : Allowed) (e : Engine b) : Prop :=
  ∀ p (l : Ledger), e.state.run = none → l.suspended = e.state.suspended → allowed (.start p false) l

namespace Reply

section Caller

@[simp] theorem hear_book (e : Engine b) (transcript : String) : (hear e transcript).book = e.book := by
  have same := CallState.remember_toLedger { e.state with
    turns := e.state.turns + 1
    silenceReprompts := 0
    waiting := false } .caller transcript
  exact congrArg (fun l : Ledger => (⟨l, [], e.desk⟩ : Book)) same

@[simp] theorem calm_book (e : Engine b) (u : Understanding) : (calm e u).book = e.book := by
  unfold calm
  split <;> rfl

theorem onAbuse_closes (e : Engine b) : Book.Closes b e.book (answerBook (onAbuse e)) := by
  unfold onAbuse
  dsimp only
  split
  · have ended := ends_closes (((begin e).modify fun s =>
      { s with abuseStrikes := s.abuseStrikes + 1 }).sayNow "abuse_goodbye" true)
    rw [sayNow_book] at ended
    rw [answerBook_finish]
    exact ended
  · refine .rests ?_
    split <;> rw [answerBook_finish]
    · rw [speak_book]
      split
      · exact sayNow_book _ _ _
      · rfl
    · split
      · exact sayNow_book _ _ _
      · rfl

end Caller

section Metas

theorem cancelFlow_book (r : Reply b) (response : Option String) : (r.cancelFlow response).book =
    { r.book with ledger := { r.book.ledger.recorded "cancelled" none with suspended := [] } } :=
  sayOptional_book ((r.mapEngine fun e => e.recordRun "cancelled" none).modify fun s =>
    { s with suspended := [] }) response true

theorem cancelFlow_quietly (r : Reply b) (response : Option String)
    (cancels : allowed .cancel r.book.ledger) :
    Book.Quietly b allowed r.book (r.cancelFlow response).book := by
  rw [cancelFlow_book]
  exact ⟨.single cancels .cancel, rfl, rfl⟩

/-- The last change of the task undone. -/
theorem goBack_quietly (r : Reply b) (response : Option String)
    (undoes : ∀ l, (∃ run, r.engine.state.run = some run ∧ run.journal ≠ []) → allowed .undo l) :
    Book.Quietly b allowed r.book (r.goBack response).book := by
  unfold goBack
  split
  · rename_i run' slot undone
    obtain ⟨run, current, undone⟩ := Option.bind_eq_some_iff.mp undone
    have journal : run.journal ≠ [] := by
      rintro empty
      simp [PipelineRun.undo, empty] at undone
    dsimp only
    rw [ask_book, sayOptional_book]
    exact ⟨.single (undoes _ ⟨run, current, journal⟩) (.run current (.undo undone)), rfl, rfl⟩
  · split
    · exact .refl _
    · exact .refl _

/-- **An intent about the conversation itself.** -/
theorem onMeta_acts (r : Reply b) (m : MetaIntent)
    (undoes : ∀ l, m = .goBack → (∃ run, r.engine.state.run = some run ∧ run.journal ≠ []) →
      allowed .undo l)
    (cancels : m = .cancelCurrentFlow → allowed .cancel r.book.ledger) :
    Book.Acts b allowed r.book (r.onMeta m).book := by
  cases m with
  | repeatLast => exact (Book.Quietly.of_eq (repeatLast_book r _ _)).acts
  | didNotUnderstand => exact (Book.Quietly.of_eq (repeatLast_book r _ _)).acts
  | speakSlower => exact (Book.Quietly.of_eq (repeatLast_book r _ _)).acts
  | speakLouder => exact (Book.Quietly.of_eq (repeatLast_book r _ _)).acts
  | cancelCurrentFlow => exact (cancelFlow_quietly r _ (cancels rfl)).acts
  | goBack => exact (goBack_quietly r _ fun l => undoes l rfl).acts
  | transferHuman => exact (handoff_closes r _).acts
  | goodbye => exact (goodbye_closes r).acts
  | wait => exact (Book.Quietly.of_eq (sayOptional_book r _ _)).acts

end Metas

section Answers

theorem sameValues_modify (slots : BTreeMap SlotState) (slot : String) (f : SlotState → SlotState)
    (same : ∀ st, (f st).value = st.value) : SameValues slots (slots.modify slot f) := by
  intro k
  rw [Std.ExtTreeMap.getElem?_modify]
  split
  · rename_i here
    obtain rfl : slot = k := by simpa using here
    cases slots[slot]? <;> simp [same]
  · rfl

theorem sameValues_map (slots : BTreeMap SlotState) (f : String → SlotState → SlotState)
    (same : ∀ k st, (f k st).value = st.value) : SameValues slots (slots.map f) := by
  intro k
  rw [Std.ExtTreeMap.getElem?_map]
  cases slots[k]? <;> simp [same]

theorem advanceReset_closes (r : Reply b) : Book.Closes b r.book (r.resetFallback.advance false).book :=
  (advance_advances r.resetFallback false).closes

/-- A doubtful value goes, and is asked for again. -/
theorem clearSlot_quietly (routine : Routine allowed) {r : Reply b} {run : PipelineRun}
    (current : r.book.ledger.run = some run) (slot : String) :
    Book.Quietly b allowed r.book (r.mapEngine fun e => e.mapRun fun run =>
      { run.clear slot with step := .collecting (some slot) }).book := by
  rw [mapRun_book current]
  have cleared : Path (Move b) allowed r.book.ledger
      { r.book.ledger with run := some (run.clear slot) } :=
    .single (routine _ _ rfl) (.run current (.clear slot))
  exact ⟨cleared.trans (.single (routine _ _ rfl) (.run rfl (.step rfl (by simp)))), rfl, rfl⟩

theorem answerSlot_acts (routine : Routine allowed) {r r' : Reply b} {run : PipelineRun} {slot : String}
    {u : Understanding} (current : r.engine.state.run = some run)
    (reading : run.step = .confirmingSlot slot) (answer : r.answerSlot slot u = some r') :
    Book.Acts b allowed r.book r'.book := by
  unfold answerSlot at answer
  split at answer
  · obtain rfl := Option.some.inj answer
    have agreed : Book.Quietly b allowed r.book (r.mapEngine fun e => e.mapRun fun run =>
        { run with
          slots := run.slots.modify slot fun st => { st with confirmed := true, provenance := .confirmed }
          step := .collecting none }).book :=
      mapRun_quietly current (routine _ _ rfl) (.agreeSlot reading (sameValues_modify _ _ _ fun _ => rfl))
    exact agreed.trans_acts (advanceReset_closes _).acts
  · obtain rfl := Option.some.inj answer
    have cleared := clearSlot_quietly routine current slot
    rw [ask_book, resetFallback_book]
    exact cleared.acts
  · cases answer
  · split at answer
    · obtain rfl := Option.some.inj answer
      exact (clearSlot_quietly routine current slot).trans_acts (fallback_closes _).acts
    · cases answer

theorem answerReadBack_acts (routine : Routine allowed) {r r' : Reply b} {run : PipelineRun}
    {u : Understanding} (current : r.engine.state.run = some run)
    (reading : run.step = .awaitingConfirmation) (answer : r.answerReadBack run u = some r') :
    Book.Acts b allowed r.book r'.book := by
  unfold answerReadBack at answer
  dsimp only at answer
  split at answer
  · cases answer
  · split at answer
    · obtain rfl := Option.some.inj answer
      have agreed : Book.Quietly b allowed r.book (r.mapEngine fun e => e.mapRun fun run =>
          { run with
            confirmed := true
            slots := run.slots.map fun _ st => { st with confirmed := true } }).book :=
        mapRun_quietly current (routine _ _ rfl) (.agree reading (sameValues_map _ _ fun _ _ => rfl))
      exact agreed.trans_acts (advanceReset_closes _).acts
    · have said := sayOptional_book r.resetFallback
        ((b.pipelineOf run).confirm.map ConfirmConfig.askChange) true
      generalize r.resetFallback.sayOptional
        ((b.pipelineOf run).confirm.map ConfirmConfig.askChange) true = asked at said answer
      rw [resetFallback_book] at said
      rw [← said]
      split at answer
      · obtain rfl := Option.some.inj answer
        exact (finishRun_closes asked "declined" none).acts
      · obtain rfl := Option.some.inj answer
        have here := (congrArg (fun B : Book => B.ledger.run) said).trans current
        exact (mapRun_quietly here (routine _ _ rfl) (.step rfl (by simp))).acts
    · cases answer

/-- **The answer to what is read back.** -/
theorem answered_acts (routine : Routine allowed) {r r' : Reply b} {u : Understanding}
    (answer : r.answered u = some r') : Book.Acts b allowed r.book r'.book := by
  unfold answered at answer
  split at answer
  · cases answer
  · rename_i run current
    split at answer
    · rename_i slot reading
      exact answerSlot_acts routine current reading answer
    · rename_i reading
      exact answerReadBack_acts routine current reading answer
    · cases answer

end Answers

section Tasks

/-- A task started once the current run was set aside or gone. -/
theorem startRun_move {e e' : Engine b} {aside : Bool} {pipeline : String}
    (other : aside → ∃ r, e.state.run = some r ∧ r.pipeline ≠ pipeline)
    (left : e'.book = { e.book with ledger := e.book.ledger.left aside }) (intent : String) :
    ∃ l, Move b (.start pipeline aside) e.book.ledger l ∧
      (e'.startRun pipeline intent).book = { e.book with ledger := l } := by
  obtain ⟨slots, carried, started⟩ := Engine.startRun_eq e' pipeline intent
  have ledger : e'.state.toLedger = e.book.ledger.left aside := congrArg Book.ledger left
  have desk : e'.desk = e.desk := congrArg Book.desk left
  refine ⟨e.book.ledger.started aside pipeline intent slots, .start other ?_, ?_⟩
  · rw [ledger] at carried
    exact carried
  · rw [ledger] at started
    show (⟨(e'.startRun pipeline intent).state.toLedger, [], e'.desk⟩ : Book) = _
    rw [started, desk]
    unfold Ledger.started Ledger.left
    simp only [Bool.false_eq_true, if_false, List.append_nil]
    rfl

/-- The task of an utterance sets the current run aside: of another task, and not empty. -/
def utteranceAside (run : Option PipelineRun) (pipeline : String) : Bool :=
  run.any fun run => run.pipeline != pipeline && !run.slots.isEmpty

theorem suspendFor_book (e : Engine b) (pipeline : String) : (suspendFor e pipeline).book =
    { e.book with ledger := e.book.ledger.left (utteranceAside e.state.run pipeline) } := by
  unfold suspendFor utteranceAside
  cases current : e.state.run with
  | none =>
    have idle : e.book.ledger.run = none := current
    rw [Option.any_none, Ledger.left_idle idle]
  | some run =>
    have here : e.book.ledger.run = some run := current
    rw [Option.any_some]
    dsimp only
    split
    · rename_i keeps
      have aside : (run.pipeline != pipeline && !run.slots.isEmpty) = true := by
        rw [Bool.and_eq_true, bne_iff_ne]
        exact keeps
      rw [aside, Ledger.left_true here]
      rfl
    · rename_i goes
      have gone : (run.pipeline != pipeline && !run.slots.isEmpty) = false := by
        rw [← Bool.not_eq_true, Bool.and_eq_true, bne_iff_ne]
        exact goes
      rw [gone, Ledger.left_false]
      rfl

theorem utteranceAside_other {run : Option PipelineRun} {pipeline : String}
    (aside : utteranceAside run pipeline) : ∃ r, run = some r ∧ r.pipeline ≠ pipeline := by
  obtain ⟨r, current, keeps⟩ := Option.any_eq_true _ _ |>.mp aside
  rw [Bool.and_eq_true, bne_iff_ne] at keeps
  exact ⟨r, current, keeps.1⟩

/-- A task switched to by an utterance. -/
theorem switchFor_move (r : Reply b) (pipeline intent : String) : ∃ l,
    Move b (.start pipeline (utteranceAside r.engine.state.run pipeline)) r.book.ledger l ∧
      (r.mapEngine fun e => (suspendFor e pipeline).startRun pipeline intent).book =
        { r.book with ledger := l } := by
  obtain ⟨l, moved, started⟩ :=
    startRun_move utteranceAside_other (suspendFor_book r.engine pipeline) intent
  have ledger := congrArg Book.ledger started
  have desk := congrArg Book.desk started
  refine ⟨l, moved, ?_⟩
  show (⟨((suspendFor r.engine pipeline).startRun pipeline intent).book.ledger, r.out.orders,
    ((suspendFor r.engine pipeline).startRun pipeline intent).book.desk⟩ : Book) = _
  rw [ledger, desk]
  rfl

theorem inferTask_quietly {r : Reply b} (u : Understanding) (progressed : Bool)
    (may : ∀ p, r.engine.state.run = none → allowed (.start p false) r.book.ledger) :
    Book.Quietly b allowed r.book (r.inferTask u progressed).1.book := by
  unfold inferTask
  split
  · exact .refl _
  · rename_i idle
    split
    · exact .refl _
    · split
      · rename_i pipeline intent _
        obtain ⟨slots, carried, started⟩ := Engine.startRun_eq r.engine pipeline intent
        refine ⟨?_, rfl, rfl⟩
        show Path (Move b) allowed _ (r.engine.startRun pipeline intent).state.toLedger
        rw [started]
        exact .single (may pipeline idle) (.start (nofun) carried)
      · exact .refl _

theorem noTask_closes (r : Reply b) (offeredMore : Bool) (u : Understanding) :
    Book.Closes b r.book (r.noTask offeredMore u).book := by
  unfold noTask
  split
  · exact goodbye_closes r
  · split
    · exact .rests (sayNow_book r _ _)
    · exact fallback_closes r

theorem checkFills_quietly (keeps : Keeps allowed) (fills : List SlotFill) (c : Check b) (noted : Bool)
    (taken : List SlotFill) : Book.Quietly b allowed c.book (checkFills fills c noted taken).1.book := by
  induction fills generalizing c noted taken with
  | nil => exact .refl _
  | cons fill rest ih =>
    unfold checkFills
    dsimp only
    split
    · rename_i spoken _ _ _
      split
      · have checked := Check.checkPlace_quietly keeps c fill.slot fill.value spoken
        generalize c.checkPlace fill.slot fill.value spoken = result at checked ⊢
        obtain ⟨c', value⟩ := result
        cases value with
        | some value => exact checked.trans (ih c' _ _)
        | none => exact checked.trans (ih c' _ _)
      · exact ih c _ _
    · exact ih c _ _

/-- The values of an utterance, taken. -/
theorem takeValues_acts (routine : Routine allowed) (r : Reply b) (u : Understanding)
    (progressed : Bool) : Book.Acts b allowed r.book (r.takeValues u progressed).book := by
  unfold takeValues
  have checked := checkFills_quietly routine.keeps u.slots (⟨r.engine, [], []⟩ : Check b) false []
  generalize checkFills u.slots (⟨r.engine, [], []⟩ : Check b) false [] = result at checked ⊢
  obtain ⟨c, noted, fills⟩ := result
  dsimp only
  have stored := checked.trans (Engine.applyFills_quietly routine.keeps c.engine fills)
  generalize c.engine.applyFills fills = result at stored ⊢
  obtain ⟨e, applied⟩ := result
  dsimp only at stored ⊢
  have taken : Book.Quietly b allowed r.book ({ r with engine := e } : Reply b).book :=
    ⟨stored.path, rfl, stored.desk⟩
  refine taken.trans_acts ?_
  split
  · exact (fallback_closes _).acts
  · have acts := applyRules_acts routine (({ r with engine := e } : Reply b).resetFallback)
    have quietly := applyRules_quietly routine.keeps (({ r with engine := e } : Reply b).resetFallback)
    rw [resetFallback_book] at acts quietly
    generalize ({ r with engine := e } : Reply b).resetFallback.applyRules = result at acts quietly ⊢
    obtain ⟨r', took⟩ := result
    cases took with
    | true => exact acts
    | false => exact (quietly rfl).trans_acts (advance_advances r' _).closes.acts

theorem afterIntent_acts (routine : Routine allowed) (r : Reply b) (offeredMore : Bool)
    (u : Understanding) (started : Bool)
    (may : ∀ p, r.engine.state.run = none → allowed (.start p false) r.book.ledger) :
    Book.Acts b allowed r.book (r.afterIntent offeredMore u started).book := by
  unfold afterIntent
  have inferred := inferTask_quietly u started may
  generalize r.inferTask u started = result at inferred ⊢
  obtain ⟨r', progressed⟩ := result
  dsimp only
  refine inferred.trans_acts ?_
  split
  · exact (noTask_closes r' offeredMore u).acts
  · exact takeValues_acts routine r' u progressed

end Tasks

section Utterances

theorem respondOnTheWay_closes (r : Reply b) (response : String) :
    Book.Closes b r.book (r.respondOnTheWay response).book := by
  have said := sayNow_book r.resetFallback response true
  unfold respondOnTheWay
  generalize r.resetFallback.sayNow response true = r' at said ⊢
  rw [resetFallback_book] at said
  rw [← said]
  dsimp only
  split
  · exact (advance_advances r' false).closes
  · exact .rests (offerMore_book r')

/-- Whether an utterance answers what is being read back, and nothing more is made of it. -/
def answers (b : Business) (run : Option PipelineRun) (u : Understanding) : Bool :=
  match run with
  | none => false
  | some run =>
    match run.step with
    | .confirmingSlot slot =>
      match u.slot slot with
      | none => u.affirm.isSome
      | some fill => (b.slotConfig slot).any fun cfg => decide (fill.confidence < cfg.confirmBelow)
    | .awaitingConfirmation => !(u.slots.any fun s => (b.pipelineOf run).has s.slot) && u.affirm.isSome
    | _ => false

theorem answerSlot_isSome (r : Reply b) (slot : String) (u : Understanding) :
    (r.answerSlot slot u).isSome = match u.slot slot with
      | none => u.affirm.isSome
      | some fill => (b.slotConfig slot).any fun cfg => decide (fill.confidence < cfg.confirmBelow) := by
  unfold answerSlot
  cases u.slot slot with
  | none =>
    cases u.affirm with
    | none => rfl
    | some yes => cases yes <;> rfl
  | some fill =>
    dsimp only
    split
    · rename_i doubtful
      rw [doubtful]
      rfl
    · rename_i certain
      rw [(Bool.not_eq_true _).mp certain]
      rfl

theorem answerReadBack_isSome (r : Reply b) (run : PipelineRun) (u : Understanding) :
    (r.answerReadBack run u).isSome =
      (!(u.slots.any fun s => (b.pipelineOf run).has s.slot) && u.affirm.isSome) := by
  unfold answerReadBack
  dsimp only
  split
  · rename_i named
    rw [named]
    rfl
  · rename_i silent
    rw [(Bool.not_eq_true _).mp silent]
    cases u.affirm with
    | none => rfl
    | some yes =>
      cases yes
      · dsimp only
        split <;> rfl
      · rfl

theorem answered_isSome (r : Reply b) (u : Understanding) :
    (r.answered u).isSome = answers b r.engine.state.run u := by
  unfold answered answers
  cases r.engine.state.run with
  | none => rfl
  | some run =>
    dsimp only
    cases run.step with
    | collecting => rfl
    | confirmingSlot slot => exact answerSlot_isSome r slot u
    | awaitingConfirmation => exact answerReadBack_isSome r run u
    | executing => rfl

/-- The task that what was understood starts, and whether the current one is set aside. -/
def understoodStarts (b : Business) (run : Option PipelineRun) (u : Understanding) :
    Option (String × Bool) :=
  if answers b run u then none
  else match intentStep b run u with
    | .start pipeline _ => some (pipeline, utteranceAside run pipeline)
    | _ => none

/-- **What was understood** of an utterance, acted on: the task it starts first, then the rest. -/
theorem understood_acts (routine : Routine allowed) (r : Reply b) (u : Understanding)
    (infers : Infers allowed r.engine) :
    ∃ l, Opens b (understoodStarts b r.engine.state.run u) r.book.ledger l ∧
      Book.Acts b allowed { r.book with ledger := l } (r.understood u).book := by
  unfold understood understoodStarts
  have same : (r.mapEngine fun e => { e with offeredMore := false }).book = r.book := rfl
  have run : (r.mapEngine fun e => { e with offeredMore := false }).engine.state.run =
      r.engine.state.run := rfl
  generalize (r.mapEngine fun e => { e with offeredMore := false }) = r' at same run ⊢
  rw [← same, ← run, ← answered_isSome r' u]
  dsimp only
  have stay {r'' : Reply b} (acts : Book.Acts b allowed r'.book r''.book) :
      ∃ l, Opens b none r'.book.ledger l ∧
        Book.Acts b allowed { r'.book with ledger := l } r''.book := ⟨_, .stays, acts⟩
  cases answer : r'.answered u with
  | some answered => exact stay (answered_acts routine answer)
  | none =>
    dsimp only [Option.isSome_none, Bool.false_eq_true, if_false]
    cases intent : intentStep b r'.engine.state.run u with
    | stays =>
      exact stay (afterIntent_acts routine r' _ u false fun p idle =>
        infers p _ (run.symm.trans idle) (congrArg (fun B : Book => B.ledger.suspended) same))
    | unknown => exact stay (fallback_closes r').acts
    | handoff id => exact stay (handoff_closes r' _).acts
    | respond response => exact stay (respondOnTheWay_closes r' response).acts
    | start pipeline id =>
      obtain ⟨l, moved, switched⟩ := switchFor_move r' pipeline id
      refine ⟨l, .starts moved, ?_⟩
      rw [← switched]
      refine afterIntent_acts routine _ _ u true fun p idle => ?_
      exact absurd idle (by simp [mapEngine, Engine.startRun])

/-- The task an utterance starts by its intent, and whether the current one is set aside. -/
def utteranceStarts (e : Engine b) (u : Understanding) : Option (String × Bool) :=
  if e.state.phase ≠ .active ∨ u.noise ∨ b.isAbusive u.transcript ∨ (metaOf u).isSome then none
  else understoodStarts b e.state.run u

/-- An utterance steps back in the task. -/
def utteranceGoesBack (e : Engine b) (u : Understanding) : Prop :=
  e.state.phase = .active ∧ u.noise = false ∧ b.isAbusive u.transcript = false ∧
    metaOf u = some .goBack ∧ ∃ run, e.state.run = some run ∧ run.journal ≠ []

/-- An utterance cancels the task. -/
def utteranceCancels (e : Engine b) (u : Understanding) : Prop :=
  e.state.phase = .active ∧ u.noise = false ∧ b.isAbusive u.transcript = false ∧
    metaOf u = some .cancelCurrentFlow

/-- **`on_utterance`** acts on the ledger. -/
theorem onUtterance_acts (routine : Routine allowed) (e : Engine b) (u : Understanding)
    (undoes : utteranceGoesBack e u → ∀ l, allowed .undo l)
    (cancels : utteranceCancels e u → allowed .cancel e.state.toLedger)
    (infers : e.state.phase = .active → Infers allowed e) :
    ∃ l, Opens b (utteranceStarts e u) e.book.ledger l ∧
      Book.Acts b allowed { e.book with ledger := l } (answerBook (onUtterance e u)) := by
  unfold onUtterance utteranceStarts
  by_cases silent : e.state.phase ≠ .active ∨ u.noise
  · rw [if_pos silent, if_pos (by tauto)]
    exact ⟨_, .stays, (Book.Quietly.refl _).acts⟩
  · rw [if_neg silent]
    push Not at silent
    obtain ⟨active, clear⟩ := silent
    have clear : u.noise = false := by simpa using clear
    have hears : (hear e u.transcript).book = e.book := hear_book e u.transcript
    dsimp only
    by_cases abusive : b.isAbusive u.transcript
    · have abused := onAbuse_closes (hear e u.transcript)
      rw [hears] at abused
      rw [if_pos abusive, if_pos (by tauto)]
      exact ⟨_, .stays, abused.acts⟩
    · rw [if_neg abusive]
      have decent : b.isAbusive u.transcript = false := by simpa using abusive
      have calms : (calm (hear e u.transcript) u).book = e.book := (calm_book _ u).trans hears
      generalize calm (hear e u.transcript) u = e' at calms ⊢
      have run : e'.state.run = e.state.run := congrArg (fun B : Book => B.ledger.run) calms
      have suspended : e'.state.suspended = e.state.suspended :=
        congrArg (fun B : Book => B.ledger.suspended) calms
      have same : (begin e').book = e.book := calms
      have ledger : (begin e').book.ledger = e.state.toLedger := congrArg Book.ledger same
      rw [← same]
      cases mtd : metaOf u with
      | some m =>
        rw [if_pos (by simp), answerBook_finish]
        refine ⟨_, .stays, onMeta_acts (begin e') m (fun l back journal => ?_) fun cancel => ?_⟩
        · exact undoes ⟨active, clear, decent, by rw [mtd, back], run ▸ journal⟩ l
        · rw [ledger]
          exact cancels ⟨active, clear, decent, by rw [mtd, cancel]⟩
      | none =>
        rw [if_neg (by simp [active, clear, decent]), answerBook_finish, ← run]
        exact understood_acts routine (begin e') u fun p l idle same =>
          infers active p l (run.symm.trans idle) (same.trans suspended)

end Utterances

section Switching

@[simp] theorem hearForAgent_book (e : Engine b) (transcript : String) :
    (e.hearForAgent transcript).book = e.book := by
  have same := CallState.remember_toLedger { e.state with
    turns := e.state.turns + 1
    silenceReprompts := 0
    fallbackLevel := 0
    waiting := false } .caller transcript
  exact congrArg (fun l : Ledger => (⟨l, [], e.desk⟩ : Book)) same

/-- The agent's task sets the current run aside: not empty, and not executing. -/
def agentAside (run : Option PipelineRun) : Bool :=
  run.any fun run => !run.slots.isEmpty && !run.step.isExecuting

theorem setAside_book (e : Engine b) :
    e.setAside.book = { e.book with ledger := e.book.ledger.left (agentAside e.state.run) } := by
  unfold Engine.setAside agentAside
  cases current : e.state.run with
  | none =>
    have idle : e.book.ledger.run = none := current
    rw [Option.any_none, Ledger.left_idle idle]
  | some run =>
    have here : e.book.ledger.run = some run := current
    rw [Option.any_some]
    dsimp only
    split
    · rename_i keeps
      rw [keeps, Ledger.left_true here]
      rfl
    · rename_i goes
      rw [(Bool.not_eq_true _).mp goes, Ledger.left_false]
      rfl

/-- The task a decision of the agent switches to. -/
def switchesTo (e : Engine b) (intent : IntentConfig) : Option String :=
  intent.pipeline.filter fun p => e.state.run.map PipelineRun.pipeline != some p

/-- A task switched to by a decision of the agent. -/
theorem switchTask_acts (keeps : Keeps allowed) (e : Engine b) (intent : IntentConfig) :
    ∃ l, Opens b ((switchesTo e intent).map fun p => (p, agentAside e.state.run)) e.book.ledger l ∧
      Book.Quietly b allowed { e.book with ledger := l } (e.switchTask intent).book := by
  unfold Engine.switchTask switchesTo
  cases named : intent.pipeline with
  | none => exact ⟨_, .stays, .refl _⟩
  | some pipeline =>
    dsimp only [Option.filter_some]
    by_cases same : e.state.run.map PipelineRun.pipeline = some pipeline
    · rw [if_pos same, if_neg (by simpa using same)]
      exact ⟨_, .stays, .refl _⟩
    · rw [if_neg same, if_pos (by simpa using same), Option.map_some]
      have another : agentAside e.state.run → ∃ r, e.state.run = some r ∧ r.pipeline ≠ pipeline := by
        intro aside
        obtain ⟨r, current, -⟩ := Option.any_eq_true _ _ |>.mp aside
        exact ⟨r, current, fun here => same (by rw [current, Option.map_some, here])⟩
      obtain ⟨l, moved, started⟩ := startRun_move another (setAside_book e) intent.id
      have current : (e.setAside.startRun pipeline intent.id).state.run =
          some (e.setAside.newRun pipeline intent.id) := rfl
      obtain ⟨slots, filled, sourced⟩ := Engine.fillFromOtherTasks_eq current
      refine ⟨l, .starts moved, ?_⟩
      rw [← started, filled]
      exact ⟨.single (keeps _ _ rfl) (.run current (.fill sourced)), rfl, rfl⟩

/-- Without a task afterwards, none was switched to. -/
theorem switchTask_idle {e : Engine b} {intent : IntentConfig}
    (idle : (e.switchTask intent).state.run = none) : e.switchTask intent = e := by
  unfold Engine.switchTask at idle ⊢
  split
  · rfl
  · rename_i pipeline named
    rw [named] at idle
    dsimp only at idle
    split
    · rfl
    · rename_i other
      rw [if_neg other] at idle
      have current : (e.setAside.startRun pipeline intent.id).state.run =
          some (e.setAside.newRun pipeline intent.id) := rfl
      obtain ⟨slots, filled, -⟩ := Engine.fillFromOtherTasks_eq current
      rw [filled] at idle
      exact absurd idle (by simp [Engine.setRun])

end Switching

section Detours

theorem forceHandoff_closes (e : Engine b) (reason : String) :
    Book.Closes b e.book (answerBook (forceHandoff e reason)) := by
  unfold forceHandoff
  split
  · exact .rests rfl
  · have closes := handoff_closes (begin e) reason
    rw [begin_book] at closes
    dsimp only
    generalize (begin e).handoff reason = r at closes ⊢
    split
    · rename_i still
      rw [answerBook_finish, ends_book]
      obtain ⟨⟨orders, given, goes⟩, desk⟩ := closes
      exact ⟨⟨orders ++ [.hangup], by simp [given], .forced goes still⟩, desk⟩
    · rw [answerBook_finish]
      exact closes

/-- A reply of a turn that has given no order yet. -/
theorem engine_book {r : Reply b} (quiet : r.book.orders = []) : r.engine.book = r.book := by
  show (⟨r.engine.state.toLedger, [], r.engine.desk⟩ : Book) = ⟨_, r.out.orders, _⟩
  rw [show r.out.orders = [] from quiet]

theorem askRejected_acts (r : Reply b) (s : AgentStep) (slot : String) (quiet : r.book.orders = []) :
    Book.Acts b allowed r.book (answerBook (r.askRejected s slot)) := by
  have said := agentSay_book r none "" s.spoken
  unfold askRejected
  generalize r.agentSay none "" s.spoken = r' at said ⊢
  dsimp only
  rw [← said] at quiet ⊢
  split
  · rw [← engine_book quiet]
    exact (forceHandoff_closes r'.engine _).acts
  · refine (Book.Closes.rests ?_).acts
    split
    · rw [answerBook_finish, noteAsked_book, sayPrompts_book]
      rfl
    · split
      · rw [answerBook_finish]
        rfl
      · rw [answerBook_finish, questionRejected_book]
        rfl

theorem takeDetour_acts (routine : Routine allowed) (r : Reply b) (s : AgentStep) (d : Detour)
    (quiet : r.book.orders = []) :
    Book.Acts b allowed r.book (answerBook (r.takeDetour s d)) := by
  cases d with
  | askOptional slot =>
    refine (Book.Quietly.of_eq ?_).acts
    rw [takeDetour, answerBook_finish, askOptional_book]
  | askRejected slot => exact askRejected_acts r s slot quiet
  | nextQuestion =>
    rw [takeDetour, answerBook_finish]
    exact nextQuestion_acts routine r
  | askAgain slot =>
    refine (Book.Quietly.of_eq ?_).acts
    rw [takeDetour, answerBook_finish, askAgain_book, agentSay_book]

end Detours

section Acting

theorem doubtGoodbye_acts (routine : Routine allowed) (r : Reply b) (spoken : String) :
    Book.Acts b allowed r.book (r.doubtGoodbye spoken).book := by
  unfold doubtGoodbye
  dsimp only
  have said : (((r.modify fun s => { s with goodbyeDoubted := true }).agentSay none "" spoken)).book =
      r.book := agentSay_book _ _ _ _
  generalize (r.modify fun s => { s with goodbyeDoubted := true }).agentSay none "" spoken = r' at said ⊢
  have asked : (if b.hasResponse "did_not_catch" then r'.sayNow "did_not_catch" true else r').book =
      r.book := by
    split
    · rw [sayNow_book, said]
    · exact said
  generalize (if b.hasResponse "did_not_catch" then r'.sayNow "did_not_catch" true else r') =
    r'' at asked ⊢
  rw [← asked]
  split
  · exact (Book.Quietly.of_eq (askAgain_book r'' _)).acts
  · exact readBack_acts routine r'' true

theorem endCall_acts (routine : Routine allowed) (r : Reply b) (s : AgentStep) :
    Book.Acts b allowed r.book (r.endCall s).book := by
  unfold endCall
  split
  · split
    · exact (goodbye_closes r).acts
    · have ended := ends_closes (r.agentSay s.turn.phrase s.turn.say s.spoken)
      rw [agentSay_book] at ended
      exact ended.acts
  · have said := agentSay_book r none "" s.spoken
    dsimp only
    generalize r.agentSay none "" s.spoken = r' at said ⊢
    rw [← said]
    split
    · exact readBack_acts routine r' true
    · refine (Book.Quietly.of_eq ?_).acts
      generalize (if r'.engine.state.completed.isEmpty then "small_talk_answer"
        else "anything_else") = next
      split
      · exact sayNow_book r' _ _
      · rfl

theorem closeTask_acts (routine : Routine allowed) (r : Reply b) (s : AgentStep) :
    Book.Acts b allowed r.book (r.closeTask s).book := by
  unfold closeTask
  dsimp only
  generalize (if staysQuiet r.engine s then none else s.turn.phrase) = phrase
  generalize (if staysQuiet r.engine s then "" else s.turn.say) = say
  have said := agentSay_book r phrase say s.spoken
  generalize r.agentSay phrase say s.spoken = r' at said ⊢
  split
  · rename_i confirms
    rw [confirmsNow, Bool.and_eq_true, Option.any_eq_true] at confirms
    obtain ⟨-, run, current, reading⟩ := confirms
    have here : r'.book.ledger.run = some run := by
      rw [said]
      exact current
    have agreed : Book.Quietly b allowed r'.book r'.agree.book :=
      mapRun_quietly here (routine _ _ rfl)
        (.agree (eq_of_beq reading) (sameValues_map _ _ fun _ _ => rfl))
    rw [← said]
    exact agreed.trans_acts (advance_advances _ false).closes.acts
  · rw [← said]
    exact readBack_acts routine r' _

/-- **The agent's decision**, carried out. -/
theorem actOn_acts (routine : Routine allowed) (r : Reply b) (s : AgentStep) :
    Book.Acts b allowed r.book (r.actOn s).book := by
  unfold actOn
  split
  · split
    · have advanced := advance_advances (r.agentSay none "" s.spoken) false
      rw [agentSay_book] at advanced
      exact advanced.closes.acts
    · exact (Book.Quietly.of_eq (agentSay_book r _ _ _)).acts
  · have closed := handoff_closes (r.agentSay s.turn.phrase s.turn.say s.spoken) "caller_requested"
    rw [agentSay_book] at closed
    exact closed.acts
  · split
    · exact doubtGoodbye_acts routine r _
    · exact endCall_acts routine r s
  · exact closeTask_acts routine r s
  · exact closeTask_acts routine r s

theorem afterValues_acts (routine : Routine allowed) (r : Reply b) (s : AgentStep)
    (quiet : r.book.orders = []) : Book.Acts b allowed r.book (answerBook (r.afterValues s)) := by
  unfold afterValues
  split
  · exact takeDetour_acts routine r s _ quiet
  · rw [answerBook_finish, neverSilent_book]
    exact actOn_acts routine (r.noteAsked (r.engine.turnAsks s.turn)) s

end Acting

section AgentTurns

theorem turnFields_quietly (keeps : Keeps allowed) (e : Engine b) (transcript : String)
    (turn : AgentTurn) :
    Book.Quietly b allowed e.book (turnFields e transcript turn).1.book := by
  refine (Engine.misplacedCity_quietly keeps e transcript).trans (.of_eq ?_)
  exact Engine.throughReaders_book (e.misplacedCity transcript) transcript _

@[simp] theorem noteSameCity_book (e : Engine b) (transcript : String) :
    (noteSameCity e transcript).book = e.book := by
  unfold noteSameCity
  split <;> rfl

/-- Nothing that keeps what a run waits for starts one. -/
theorem keeps_idle {e e' : Engine b} (frame : SameWaits e.state.toLedger e'.state.toLedger)
    (idle : e'.state.run = none) : e.state.run = none := by
  cases current : e.state.run with
  | none => rfl
  | some run =>
    obtain ⟨run', here, -⟩ := frame.run run current
    exact absurd (here.symm.trans idle) (by simp)

/-- The engine once the values of a turn are taken; whether any changed, and those rejected. -/
theorem turnValues_quietly (keeps : Keeps allowed) (e : Engine b) (transcript : String)
    (turn : AgentTurn) (infers : Infers allowed e) :
    Book.Quietly b allowed e.book ((noteSameCity (turnFields e transcript turn).1
      transcript).applyAgentFields (turnFields e transcript turn).2.1).1.book := by
  have frame : SameWaits e.state.toLedger (turnFields e transcript turn).1.state.toLedger :=
    keepsStep_frame (fun label _ (may : label.keepsStep) => may)
      (turnFields_quietly (fun _ _ kept => kept) e transcript turn).path
  have fields := turnFields_quietly keeps e transcript turn
  generalize (turnFields e transcript turn).1 = e' at fields frame ⊢
  have noted : (noteSameCity e' transcript).book = e'.book := noteSameCity_book e' transcript
  have run : (noteSameCity e' transcript).state.run = e'.state.run :=
    congrArg (fun B : Book => B.ledger.run) noted
  have suspended : (noteSameCity e' transcript).state.suspended = e'.state.suspended :=
    congrArg (fun B : Book => B.ledger.suspended) noted
  refine fields.trans (noted ▸ Engine.applyAgentFields_quietly keeps _ _ fun p l idle same => ?_)
  exact infers p l (keeps_idle frame (run ▸ idle)) (same.trans (suspended.trans frame.suspended))

theorem takeTurn_acts (routine : Routine allowed) (e : Engine b) (transcript spoken : String)
    (turn : AgentTurn) (decided offeredMore : Bool) (infers : Infers allowed e) :
    Book.Acts b allowed e.book
      (answerBook (takeTurn e transcript spoken turn decided offeredMore)) := by
  have taken := turnValues_quietly routine.keeps e transcript turn infers
  unfold takeTurn
  generalize turnFields e transcript turn = result at taken ⊢
  obtain ⟨e', fields, inTown⟩ := result
  dsimp only at taken ⊢
  generalize (noteSameCity e' transcript).applyAgentFields fields = result at taken ⊢
  obtain ⟨e'', changed, rejected⟩ := result
  dsimp only at taken ⊢
  refine taken.trans_acts ?_
  have acts := applyRules_acts routine (begin e'')
  have quietly := applyRules_quietly routine.keeps (begin e'')
  generalize (begin e'').applyRules = result at acts quietly ⊢
  obtain ⟨r, took⟩ := result
  cases took with
  | true =>
    dsimp only
    rw [answerBook_finish, agentSay_book]
    exact acts
  | false =>
    have quiet := quietly rfl
    exact quiet.trans_acts (afterValues_acts routine r _ quiet.orders)

theorem askWhichWay_book (e : Engine b) (city spoken : String) :
    answerBook (askWhichWay e city spoken) = e.book := by
  unfold askWhichWay
  dsimp only
  rw [answerBook_finish, noteAsked_book, say_book, agentSay_book, begin_book]

theorem onTask_acts (routine : Routine allowed) (e : Engine b) (transcript spoken : String)
    (turn : AgentTurn) (decided offeredMore : Bool) (infers : Infers allowed e) :
    Book.Acts b allowed e.book
      (answerBook (onTask e transcript spoken turn decided offeredMore)) := by
  unfold onTask
  split
  · exact (Book.Quietly.of_eq (askWhichWay_book e _ spoken)).acts
  · exact takeTurn_acts routine e transcript spoken turn decided offeredMore infers

/-- The task a decision that is carried out starts, and whether the current one is set aside. -/
def carriedStarts (e : Engine b) (turn : AgentTurn) : Option (String × Bool) :=
  ((turn.task.bind b.intent).filter fun i => !i.handoff).bind fun i =>
    (switchesTo e i).map fun p => (p, agentAside e.state.run)

theorem carryOut_acts (routine : Routine allowed) (e : Engine b) (transcript spoken : String)
    (turn : AgentTurn) (decided offeredMore : Bool) (infers : Infers allowed e) :
    ∃ l, Opens b (carriedStarts e turn) e.book.ledger l ∧ Book.Acts b allowed
      { e.book with ledger := l }
      (answerBook (carryOut e transcript spoken turn decided offeredMore)) := by
  unfold carryOut carriedStarts
  split
  · rename_i aimless
    rw [aimless]
    exact ⟨_, .stays, onTask_acts routine e transcript spoken turn decided offeredMore infers⟩
  · rename_i intent task
    rw [task]
    split
    · rename_i transfer
      have closed := handoff_closes ((begin e).agentSay turn.phrase turn.say spoken)
        ("intent:" ++ intent.id)
      rw [agentSay_book, begin_book] at closed
      rw [answerBook_finish, Option.filter_some, if_neg (by simp [transfer])]
      exact ⟨_, .stays, closed.acts⟩
    · rename_i business
      rw [Option.filter_some, if_pos (by simpa using business), Option.bind_some]
      obtain ⟨l, opens, switched⟩ := switchTask_acts routine.keeps e intent
      refine ⟨l, opens, switched.trans_acts (onTask_acts routine _ transcript spoken turn decided
        offeredMore fun p l idle same => ?_)⟩
      have none' := switchTask_idle idle
      rw [none'] at idle same
      exact infers p l idle same

/-- The task a decision of the agent starts, and whether the current one is set aside. -/
def agentStarts (e : Engine b) (transcript : String) (turn : AgentTurn) : Option (String × Bool) :=
  let e := e.hearForAgent transcript
  if e.state.phase ≠ .active ∨ e.insistsOnGoodbye transcript ∨ b.isAbusive transcript ∨
      5 ≤ e.state.sameQuestionStreak then none
  else carriedStarts e (corrected e transcript turn).1

/-- **`on_agent_turn`** acts on the ledger. -/
theorem onAgentTurn_acts (routine : Routine allowed) (e : Engine b) (transcript : String)
    (turn : AgentTurn) (spoken : String) (infers : e.state.phase = .active → Infers allowed e) :
    ∃ l, Opens b (agentStarts e transcript turn) e.book.ledger l ∧ Book.Acts b allowed
      { e.book with ledger := l } (answerBook (onAgentTurn e transcript turn spoken)) := by
  have hears := hearForAgent_book e transcript
  unfold onAgentTurn agentStarts
  generalize e.hearForAgent transcript = e' at hears ⊢
  have run : e'.state.run = e.state.run := congrArg (fun B : Book => B.ledger.run) hears
  have suspended : e'.state.suspended = e.state.suspended :=
    congrArg (fun B : Book => B.ledger.suspended) hears
  have phase : e'.state.phase = e.state.phase := congrArg (fun B : Book => B.ledger.phase) hears
  dsimp only
  rw [phase]
  by_cases ended : e.state.phase ≠ .active
  · rw [if_pos ended, if_pos (.inl ended)]
    exact ⟨_, .stays, (Book.Quietly.refl _).acts⟩
  · rw [if_neg ended, ← hears]
    have active := not_not.mp ended
    by_cases goes : e'.insistsOnGoodbye transcript
    · rw [if_pos goes, if_pos (by tauto), answerBook_finish]
      exact ⟨_, .stays, (goodbye_closes (begin e')).acts⟩
    · rw [if_neg goes]
      by_cases abusive : b.isAbusive transcript
      · rw [if_pos abusive, if_pos (by tauto)]
        exact ⟨_, .stays, (onAbuse_closes e').acts⟩
      · rw [if_neg abusive]
        by_cases stuck : 5 ≤ e'.state.sameQuestionStreak
        · rw [if_pos stuck, if_pos (by tauto)]
          exact ⟨_, .stays, (forceHandoff_closes e' _).acts⟩
        · rw [if_neg stuck, if_neg (by tauto)]
          exact carryOut_acts routine e' transcript spoken _ _ e.offeredMore fun p l idle same =>
            infers active p l (run ▸ idle) (same.trans suspended)

end AgentTurns

section Results

theorem handoff_book {r : Reply b} (desk : r.engine.hasDesk) (reason : String) : ∃ summary,
    (r.handoff reason).book = ⟨{ r.book.ledger with phase := .handingOff },
      r.book.orders ++ [.handoff summary], r.book.desk⟩ := by
  unfold handoff
  rw [if_pos desk, push_book _ rfl]
  have said := sayNow_book r b.config.handoff.response true
  rw [← said]
  exact ⟨_, rfl⟩

/-- An action whose outcome stays unknown. -/
theorem outcomeUnknown_closes {r : Reply b} {run : PipelineRun} (current : r.book.ledger.run = some run)
    (runId : Nat) (error : String) :
    Book.Closes b r.book (r.outcomeUnknown (b.pipelineOf run) runId error).book := by
  unfold outcomeUnknown
  dsimp only
  split
  · rename_i desk
    have said := sayOptional_book r (b.pipelineOf run).onUnknown true
    have reached : (r.sayOptional (b.pipelineOf run).onUnknown true).engine.hasDesk := by
      have same : (r.sayOptional (b.pipelineOf run).onUnknown true).engine.desk = r.engine.desk :=
        congrArg Book.desk said
      unfold Engine.hasDesk at desk ⊢
      rw [same]
      exact desk
    obtain ⟨summary, book⟩ := handoff_book reached "action_outcome_unknown"
    rw [recordRun_book, book, said]
    refine ⟨⟨[.handoff summary], rfl, ?_⟩, rfl⟩
    have recorded := Closes.givesUp (b := b) summary
      (some (Json.obj [("error", .str error), ("outcome_unknown", .bool true), ("run_id", .int runId)]))
      current
    rw [Ledger.recorded_of_run current] at recorded
    rw [Ledger.recorded_of_run (l := { r.book.ledger with phase := .handingOff }) current]
    exact recorded
  · exact finishRun_closes r _ _

/-- A failure counted. -/
theorem countFailure_quietly (fails : Fails allowed) (r : Reply b) (action : String) (runId : Nat) :
    Book.Quietly b allowed r.book (r.mapEngine fun e => countFailure e action runId).book := by
  rw [mapEngine_book]
  unfold countFailure
  split
  · exact ⟨.single (fails.counts _) (.count (r.book.ledger.actionFailures + 1)
      r.book.ledger.failedActions), rfl, rfl⟩
  · exact ⟨.single (fails.counts _) (.count r.book.ledger.actionFailures _), rfl, rfl⟩

theorem sayFailure_quietly (fails : Fails allowed) (r : Reply b) (pipeline : PipelineConfig) :
    Book.Quietly b allowed r.book (r.sayFailure pipeline).book := by
  cases current : r.book.ledger.run with
  | none =>
    refine .of_eq ?_
    unfold sayFailure
    split
    · rename_i here
      exact absurd (current.symm.trans here) (by simp)
    · exact sayOptional_book r _ true
  | some run =>
    obtain ⟨said, which, book⟩ := sayFailure_book current pipeline
    rw [book]
    rcases which with rfl | rfl
    · exact .refl _
    · exact ⟨.single (fails.speaks _) (.sayFailure current), rfl, rfl⟩

theorem failed_acts (fails : Fails allowed) (r : Reply b) (pipeline : PipelineConfig) (action : String)
    (runId : Nat) (error : String) :
    Book.Acts b allowed r.book (r.failed pipeline action runId error).book := by
  unfold failed
  have counted := countFailure_quietly fails r action runId
  generalize (r.mapEngine fun e => countFailure e action runId) = r' at counted ⊢
  have said := sayFailure_quietly fails r' pipeline
  generalize r'.sayFailure pipeline = r'' at said ⊢
  refine (counted.trans said).trans_acts ?_
  dsimp only
  split
  · exact (handoff_closes r'' _).acts
  · exact (finishRun_closes r'' _ _).acts

@[simp] theorem saySuccess_book (r : Reply b) (pipeline : PipelineConfig) (value : Json) :
    (r.saySuccess pipeline value).book = r.book := by
  unfold saySuccess
  split
  · exact say_book r _ _ _
  · rfl

/-- **`on_action_result`** acts on the ledger. -/
theorem onActionResult_acts (fails : Fails allowed) (e : Engine b) (runId : Nat)
    (result : Except ActionFailure Json) :
    Book.Acts b allowed e.book (answerBook (onActionResult e runId result)) := by
  unfold onActionResult
  split
  · exact (Book.Quietly.refl _).acts
  · rename_i run current
    split
    · exact (Book.Quietly.refl _).acts
    · rename_i waits
      have waits := not_not.mp waits
      dsimp only
      cases result with
      | ok value =>
        dsimp only
        rw [answerBook_finish]
        unfold succeeded
        have said := saySuccess_book (begin e) (b.pipelineOf run) value
        rw [begin_book] at said
        rw [← said]
        exact (finishRun_closes _ _ _).acts
      | error failure =>
        dsimp only
        split
        · rename_i left
          rw [answerBook_finish]
          unfold retry
          rw [push_book _ rfl, mapRun_book (r := begin e) current]
          refine Book.Closes.acts ⟨⟨_, rfl, .retries (r := run) current waits left⟩, rfl⟩
        · split
          · rw [answerBook_finish]
            exact (outcomeUnknown_closes (r := begin e) current _ _).acts
          · rw [answerBook_finish]
            exact failed_acts fails (begin e) _ _ _ _

end Results

section Quiet

theorem greet_book (ctx : RenderContext) (greetings : List String) (r : Reply b) :
    (greet ctx greetings r).book = r.book := by
  induction greetings generalizing r with
  | nil => rfl
  | cons greeting rest ih =>
    have same := Engine.renderPlan_sameCall r.engine greeting ctx
    unfold greet
    generalize r.engine.renderPlan greeting ctx = rendered at same ⊢
    obtain ⟨plan, e⟩ := rendered
    have book : ({ r with engine := e } : Reply b).book = r.book := book_eq same rfl
    cases plan with
    | some plan => exact book
    | none => exact (ih _).trans book

@[simp] theorem start_book (e : Engine b) : answerBook (start e) = e.book := by
  unfold start
  rw [answerBook_finish, greet_book, begin_book]

@[simp] theorem replayLast_book (e : Engine b) : answerBook (replayLast e) = e.book := by
  unfold replayLast
  split <;> rw [answerBook_finish] <;> rfl

@[simp] theorem onNoise_book (e : Engine b) (interrupted : Bool) :
    answerBook (onNoise e interrupted) = e.book := by
  unfold onNoise
  split
  · rfl
  · dsimp only
    split
    · split
      · rfl
      · rw [answerBook_finish, speak_book]
        split
        · exact sayNow_book _ _ _
        · rfl
    · split
      · rw [answerBook_finish]
        exact sayOptional_book _ _ _
      · rfl

@[simp] theorem onUnheard_book (e : Engine b) : answerBook (onUnheard e) = e.book := by
  unfold onUnheard
  split
  · rfl
  · exact onNoise_book e false

@[simp] theorem onHello_book (e : Engine b) : answerBook (onHello e) = e.book := by
  unfold onHello
  split
  · exact onNoise_book e false
  · dsimp only
    split <;> rw [answerBook_finish]
    · exact sayNow_book (begin e) "i_hear_you" false
    · exact sayNow_book (begin e) "i_hear_you" false

theorem afterSilence_closes (e : Engine b) : Book.Closes b e.book (answerBook (afterSilence e)) := by
  unfold afterSilence
  dsimp only
  split
  · rw [answerBook_finish]
    exact goodbye_closes (begin e)
  · refine .rests ?_
    split
    · rw [answerBook_finish, sayNow_book, begin_book]
    · split <;> rw [answerBook_finish]
      · exact sayOptional_book (begin e) _ _
      · exact sayOptional_book (begin e) _ _

theorem onSilence_closes (e : Engine b) : Book.Closes b e.book (answerBook (onSilence e)) := by
  unfold onSilence
  split
  · exact .rests rfl
  · dsimp only
    split
    · rw [answerBook_finish]
      exact goodbye_closes (begin (e.modify fun s => { s with waiting := false }))
    · exact .from (by rfl) (afterSilence_closes _)

theorem onNoToOptional_acts (routine : Routine allowed) (e : Engine b) (text : String) :
    Book.Acts b allowed e.book (answerBook (onNoToOptional e text)) := by
  unfold onNoToOptional
  split
  · exact (Book.Quietly.refl _).acts
  · rename_i slot _
    have same := CallState.remember_toLedger { e.state with
      turns := e.state.turns + 1
      silenceReprompts := 0 } .caller text
    have heard : (e.modify fun s => { ({ s with turns := s.turns + 1, silenceReprompts := 0 } :
        CallState).remember .caller text with
          askedBeforeConfirm := (s.askedBeforeConfirm.insert slot)
          lastAsks := [] }).book = e.book :=
      congrArg (fun l : Ledger => (⟨l, [], e.desk⟩ : Book)) same
    dsimp only
    rw [answerBook_finish, ← heard]
    exact readBack_acts routine (begin _) true

theorem onClosing_closes (e : Engine b) (text : String) :
    Book.Closes b e.book (answerBook (onClosing e text)) := by
  unfold onClosing
  dsimp only
  split
  · exact .rests rfl
  · have same := CallState.remember_toLedger { e.state with turns := e.state.turns + 1 } .caller text
    have heard : ({ e with offeredMore := false }.modify fun s =>
        ({ s with turns := s.turns + 1 } : CallState).remember .caller text).book = e.book :=
      congrArg (fun l : Ledger => (⟨l, [], e.desk⟩ : Book)) same
    rw [answerBook_finish, ← heard]
    exact goodbye_closes (begin _)

@[simp] theorem hintTowns_book (e : Engine b) (transcript : String) :
    (hintTowns e transcript).book = e.book := by
  unfold hintTowns
  split <;> rfl

end Quiet

end Reply

section Operations

namespace Op

/-- The operations that change a setting of the call: one field, and nothing is said. -/
def isSetting : Op → Bool
  | setCustomer _ | setCallerPhone _ | setDesk _ | setGazetteer _ => true
  | _ => false

/-- An operation that takes a request's result. -/
def isResult : Op → Bool
  | actionResult .. => true
  | _ => false

/-- The task an operation starts, beside one that values name when there is none, and whether the
current one is set aside. -/
def starts (e : Engine b) : Op → Option (String × Bool)
  | utterance u => Reply.utteranceStarts e u
  | agentTurn transcript turn _ => Reply.agentStarts e transcript turn
  | _ => none

/-- The operation steps back in the task. -/
def goesBack (e : Engine b) : Op → Prop
  | utterance u => Reply.utteranceGoesBack e u
  | _ => False

/-- The operation cancels the task. -/
def cancels (e : Engine b) : Op → Prop
  | utterance u => Reply.utteranceCancels e u
  | _ => False

instance (e : Engine b) (op : Op) : Decidable (op.cancels e) := by
  cases op with
  | utterance u => exact inferInstanceAs (Decidable (_ ∧ _ ∧ _ ∧ _))
  | _ => exact isFalse id

end Op

/-- **Every operation refines the ledger machine.** -/
theorem apply_acts (routine : Routine allowed) (e : Engine b) (op : Op) (setting : op.isSetting = false)
    (undoes : op.goesBack e → ∀ l, allowed .undo l)
    (cancels : op.cancels e → allowed .cancel e.state.toLedger)
    (fails : op.isResult → Fails allowed)
    (infers : e.state.phase = .active → Infers allowed e) :
    ∃ l, Opens b (op.starts e) e.book.ledger l ∧
      Book.Acts b allowed { e.book with ledger := l } (answerBook (op.apply e)) := by
  cases op with
  | utterance u => exact Reply.onUtterance_acts routine e u undoes cancels infers
  | agentTurn transcript turn spoken =>
    exact Reply.onAgentTurn_acts routine e transcript turn spoken infers
  | start => exact ⟨_, .stays, (Book.Quietly.of_eq (Reply.start_book e)).acts⟩
  | noToOptional text => exact ⟨_, .stays, Reply.onNoToOptional_acts routine e text⟩
  | closing text => exact ⟨_, .stays, (Reply.onClosing_closes e text).acts⟩
  | silence => exact ⟨_, .stays, (Reply.onSilence_closes e).acts⟩
  | noise interrupted =>
    exact ⟨_, .stays, (Book.Quietly.of_eq (Reply.onNoise_book e interrupted)).acts⟩
  | unheard => exact ⟨_, .stays, (Book.Quietly.of_eq (Reply.onUnheard_book e)).acts⟩
  | hello => exact ⟨_, .stays, (Book.Quietly.of_eq (Reply.onHello_book e)).acts⟩
  | replayLast => exact ⟨_, .stays, (Book.Quietly.of_eq (Reply.replayLast_book e)).acts⟩
  | forceHandoff reason => exact ⟨_, .stays, (Reply.forceHandoff_closes e reason).acts⟩
  | actionResult runId result =>
    exact ⟨_, .stays, Reply.onActionResult_acts (fails rfl) e runId result⟩
  | setCustomer | setCallerPhone | setDesk | setGazetteer => cases setting
  | hintTowns transcript =>
    exact ⟨_, .stays, (Book.Quietly.of_eq (Reply.hintTowns_book e transcript)).acts⟩
  | renderResponse id => exact ⟨_, .stays, (Book.Quietly.of_eq rfl).acts⟩
  | renderPhrase id =>
    have same := Engine.renderPhrase_sameCall e id
    refine ⟨_, .stays, (Book.Quietly.of_eq ?_).acts⟩
    show (⟨(e.renderPhrase id).2.state.toLedger, [], (e.renderPhrase id).2.desk⟩ : Book) = _
    rw [same.ledger, same.desk]
    rfl
  | hearAgain second => exact ⟨_, .stays, (Book.Quietly.of_eq rfl).acts⟩
  | remember text =>
    exact ⟨_, .stays, (Book.Quietly.of_eq (congrArg (fun l : Ledger => (⟨l, [], e.desk⟩ : Book))
      (CallState.remember_toLedger e.state .agent text))).acts⟩

end Operations

end Callora
