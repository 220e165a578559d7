/-
**Advancing a task, on the ledger.**

`advance` is `Advances`, and what ends in it (`finishRun`, `readBack`, `nextQuestion`, `handoff`,
`fallback`, the rules) is a path of moves and a `Closes`. The induction of `advanceTo_advances` is on the
runs that are suspended: each one resumed is one fewer.
-/
import Callora.Ledger.Taking

set_option linter.unusedSectionVars false

namespace Callora

open Callora.Text Runs

variable {b : Business}

namespace Reply

section Books

@[simp] theorem begin_book (e : Engine b) : (begin e).book = e.book := rfl

@[simp] theorem mapEngine_book (r : Reply b) (f : Engine b → Engine b) :
    (r.mapEngine f).book = ⟨(f r.engine).state.toLedger, r.out.orders, (f r.engine).desk⟩ := rfl

theorem push_book (r : Reply b) {d : Directive} (order : d.isOrder) :
    (r.push d).book = { r.book with orders := r.book.orders ++ [d] } := by
  unfold push book
  rw [Out.orders_push, List.filter_cons_of_pos order, List.filter_nil]

theorem goodbye_book (r : Reply b) : r.goodbye.book =
    ⟨{ r.book.ledger with phase := .ending }, r.book.orders ++ [.hangup], r.book.desk⟩ := by
  unfold goodbye
  dsimp only
  rw [push_book _ rfl]
  have said := sayNow_book r (((b.metaOf .goodbye).bind CompiledMeta.response).getD b.config.goodbye) true
  exact congrArg (fun B : Book =>
    (⟨{ B.ledger with phase := .ending }, B.orders ++ [.hangup], B.desk⟩ : Book)) said

end Books

variable [Unicode]

section Finishing

/-- A call goes on after a run is over, unless the run was the call's task and succeeded. -/
theorem afterRun_book (r : Reply b) (pipeline : PipelineConfig) (outcome : String)
    (goesOn : ¬(pipeline.after = .end ∧ outcome = "success")) :
    (r.afterRun pipeline outcome).book = r.book := by
  unfold afterRun
  dsimp only
  split
  · split
    · exact sayNow_book r _ _
    · exact offerMore_book r
  · rename_i ends
    rw [if_neg fun success => goesOn ⟨by cases after : pipeline.after <;> simp_all, success⟩]
    exact offerMore_book r

theorem afterRun_goodbye (r : Reply b) (pipeline : PipelineConfig) (ends : pipeline.after = .end) :
    r.afterRun pipeline "success" = r.goodbye := by
  unfold afterRun
  simp [ends]

@[simp] theorem recordRun_book (r : Reply b) (outcome : String) (result : Option Json) :
    (r.mapEngine fun e => e.recordRun outcome result).book =
      { r.book with ledger := r.book.ledger.recorded outcome result } := rfl

/-- **A run is over**, and the next one goes on: `finish_run`, unless it ends the call. -/
theorem finishRunWith_advances (resume : Reply b → Reply b) {r : Reply b} {run : PipelineRun}
    {outcome : String} (result : Option Json) (current : r.engine.state.run = some run)
    (resumes : ∀ r' : Reply b, r'.engine.state.suspended.length < r.engine.state.suspended.length →
      Book.Advances b r'.book (resume r').book)
    (goesOn : (b.pipelineOf run).after = .end → outcome = "success" →
      r.engine.state.suspended ≠ []) :
    Book.Advances b { r.book with ledger := r.book.ledger.finished outcome result }
      (finishRunWith resume r outcome result).book := by
  have same : (r.mapEngine fun e => e.recordRun outcome result).engine.state.suspended =
      r.engine.state.suspended := Ledger.recorded_suspended _ _ _
  have finished : r.book.ledger.finished outcome result = { r.book.ledger.recorded outcome result with
      run := r.engine.state.suspended.getLast?
      suspended := r.engine.state.suspended.dropLast } := rfl
  unfold finishRunWith
  rw [current]
  dsimp only
  rw [same]
  cases last : r.engine.state.suspended.getLast? with
  | some resumed =>
    have nonempty : r.engine.state.suspended ≠ [] := by
      rintro empty
      simp [empty] at last
    have book : ((r.mapEngine fun e => e.recordRun outcome result).mapEngine fun e =>
        e.resumeRun resumed).book = { r.book with ledger := r.book.ledger.finished outcome result } := by
      rw [finished, last, ← same]
      rfl
    rw [← book]
    refine resumes _ ?_
    show (r.mapEngine fun e => e.recordRun outcome result).engine.state.suspended.dropLast.length < _
    rw [same, List.length_dropLast]
    have := List.length_pos_iff.mpr nonempty
    omega
  | none =>
    have empty : r.engine.state.suspended = [] := List.getLast?_eq_none_iff.mp last
    have said := afterRun_book (r.mapEngine fun e => e.recordRun outcome result) (b.pipelineOf run)
      outcome fun ⟨ends, success⟩ => goesOn ends success empty
    have idle : r.book.ledger.finished outcome result = r.book.ledger.recorded outcome result :=
      Ledger.finished_last empty outcome result
    dsimp only
    rw [said, recordRun_book, idle]
    exact ⟨⟨[], (List.append_nil _).symm, .idle (Ledger.recorded_run _ _ _)⟩, rfl⟩

end Finishing

section Advance

theorem mapRun_book {r : Reply b} {run : PipelineRun} (current : r.book.ledger.run = some run)
    (f : PipelineRun → PipelineRun) : (r.mapEngine fun e => e.mapRun f).book =
      { r.book with ledger := { r.book.ledger with run := some (f run) } } := by
  have mapped : (r.mapEngine fun e => e.mapRun f).book =
      { r.book with ledger := { r.book.ledger with run := r.book.ledger.run.map f } } := rfl
  rw [mapped, current, Option.map_some]

theorem mapRun_idle {r : Reply b} (idle : r.book.ledger.run = none) (f : PipelineRun → PipelineRun) :
    (r.mapEngine fun e => e.mapRun f).book = r.book := by
  have mapped : (r.mapEngine fun e => e.mapRun f).book =
      { r.book with ledger := { r.book.ledger with run := r.book.ledger.run.map f } } := rfl
  rw [mapped, idle, Option.map_none, ← idle]

@[simp] theorem sayFiller_book (r : Reply b) (filler : Option String) :
    (r.sayFiller filler).book = r.book := by
  unfold sayFiller
  split
  · rfl
  · rename_i filler _
    have same := Engine.renderPlan_sameCall r.engine filler r.renderCtx
    generalize r.engine.renderPlan filler r.renderCtx = rendered at same ⊢
    obtain ⟨plan, e⟩ := rendered
    cases plan with
    | none => exact book_eq same rfl
    | some plan => exact book_eq same (by simp)

/-- A failure said is at most noted. -/
theorem sayFailure_book {r : Reply b} {run : PipelineRun} (current : r.book.ledger.run = some run)
    (pipeline : PipelineConfig) : ∃ said,
      (said = r.book.ledger.failuresSaid ∨ said = r.book.ledger.failuresSaid ++ [run.serial]) ∧
      (r.sayFailure pipeline).book =
        { r.book with ledger := { r.book.ledger with failuresSaid := said } } := by
  unfold sayFailure
  split
  · rename_i response run' _ current'
    obtain rfl := Option.some.inj (current.symm.trans current')
    exact ⟨_, .inr rfl, sayNow_book _ response true⟩
  · exact ⟨_, .inl rfl, sayOptional_book r _ true⟩

/-- The request of a run. -/
theorem send_book {r : Reply b} {run : PipelineRun} (current : r.book.ledger.run = some run)
    (pipeline : PipelineConfig) (action : String) (runId : Nat) (input : Json) :
    (r.send pipeline action runId input).book =
      ⟨{ r.book.ledger with run := some { run with step := .executing runId, attempts := 1 } },
        r.book.orders ++ [.runAction runId action input], r.book.desk⟩ := by
  unfold send
  dsimp only
  rw [push_book _ rfl, sayFiller_book, mapRun_book current]

/-- Only a run whose read-back was not accepted is read back. -/
theorem nextStep_readBack {pipeline : PipelineConfig} {run : PipelineRun} {response : String}
    (ready : Engine.nextStep b pipeline run = .readBack response) : run.confirmed = false := by
  unfold Engine.nextStep at ready
  split at ready
  · cases ready
  · split at ready
    · cases ready
    · split at ready
      · rename_i open'
        simpa using (Option.filter_eq_some_iff.mp open').2
      · split at ready
        · cases ready
        · split at ready <;> cases ready

/-- What `advance` does with a run whose defaults are filled. -/
theorem perform_advances (finish : Reply b → String → Option Json → Reply b) {r : Reply b}
    {l : Ledger} {run : PipelineRun} {slots : BTreeMap SlotState} (current : l.run = some run)
    (filled : Filled b l run slots)
    (ledger : r.book.ledger = { l with run := some { run with slots := slots } })
    (finishes : ∀ (r' : Reply b) (outcome : String) (result : Option Json) (run' : PipelineRun),
      r'.book.ledger.run = some run' → r'.book.ledger.suspended = l.suspended → outcome ≠ "success" →
      Book.Advances b { r'.book with ledger := r'.book.ledger.finished outcome result }
        (finish r' outcome result).book)
    (acknowledge : Bool) :
    Book.Advances b ⟨l, r.book.orders, r.book.desk⟩ (r.perform finish (b.pipelineOf run) acknowledge
      (Engine.nextStep b (b.pipelineOf run) { run with slots := slots })).book := by
  have here : r.book.ledger.run = some { run with slots := slots } := by rw [ledger]
  have pauses : ∀ st : Step, st.isExecuting = false →
    (st = .awaitingConfirmation → run.confirmed = false) →
      Book.Advances b ⟨l, r.book.orders, r.book.desk⟩
        (r.mapEngine fun e => e.setStep st).book := by
    intro st waits open'
    unfold Engine.setStep
    rw [mapRun_book here, ledger]
    exact ⟨⟨[], (List.append_nil _).symm, .pauses (r := run) current filled waits open'⟩, rfl⟩
  cases ready : Engine.nextStep b (b.pipelineOf run) { run with slots := slots } with
  | confirmSlot slot spoken =>
    have said : (r.confirmSlot slot spoken).book =
        (r.mapEngine fun e => e.setStep (.confirmingSlot slot)).book := say_book _ _ _ _
    exact said ▸ pauses (.confirmingSlot slot) rfl (by simp)
  | askFor slot =>
    have asked := ask_book (r.mapEngine fun e => e.setStep (.collecting (some slot))) slot acknowledge
    exact asked ▸ pauses (.collecting (some slot)) rfl (by simp)
  | readBack response =>
    have said := sayNow_book (r.mapEngine fun e => e.setStep .awaitingConfirmation) response true
    exact said ▸ pauses .awaitingConfirmation rfl fun _ => by simpa using nextStep_readBack ready
  | act action =>
    have skipped : (r.modify fun s => { s with nextActionRun := s.nextActionRun + 1 }).book =
        ⟨{ l with nextActionRun := l.nextActionRun + 1, run := some { run with slots := slots } },
          r.book.orders, r.book.desk⟩ :=
      congrArg (fun l : Ledger => (⟨{ l with nextActionRun := l.nextActionRun + 1 },
        r.book.orders, r.book.desk⟩ : Book)) ledger
    have id : r.book.ledger.nextActionRun = l.nextActionRun := by rw [ledger]
    replace id : r.engine.state.nextActionRun = l.nextActionRun := id
    unfold perform act
    dsimp only
    rw [id]
    generalize (r.modify fun s => { s with nextActionRun := s.nextActionRun + 1 }) = r' at skipped ⊢
    have given : r'.engine.actionInput l.nextActionRun =
        ({ l with run := some { run with slots := slots } } : Ledger).actionInput l.nextActionRun := by
      show r'.book.ledger.actionInput _ = _
      rw [skipped]
      rfl
    split
    · have here' : r'.book.ledger.run = some { run with slots := slots } := by rw [skipped]
      obtain ⟨noted, which, said⟩ := sayFailure_book here' (b.pipelineOf run)
      rw [skipped] at which said
      have goes := finishes (r'.sayFailure (b.pipelineOf run)) "failed"
        (some (.obj [("error", .str "failed before in this call")])) { run with slots := slots }
        (by rw [said]) (by rw [said]) (by decide)
      rw [said] at goes
      obtain ⟨⟨orders, listed, goes⟩, desk⟩ := goes
      exact ⟨⟨orders, listed, .fails current filled ready which goes⟩, desk⟩
    · have sent := send_book (show r'.book.ledger.run = some { run with slots := slots } by rw [skipped])
        (b.pipelineOf run) action l.nextActionRun (r'.engine.actionInput l.nextActionRun)
      rw [sent, given, skipped]
      exact ⟨⟨_, rfl, .sends (r := run) current filled ready⟩, rfl⟩
  | complete =>
    have said := sayOptional_book r (b.pipelineOf run).onComplete true
    have goes := finishes (r.sayOptional (b.pipelineOf run).onComplete true) "completed" none
      { run with slots := slots } (by rw [said, here]) (by rw [said, ledger]) (by decide)
    rw [said, ledger] at goes
    obtain ⟨⟨orders, given, goes⟩, desk⟩ := goes
    exact ⟨⟨orders, given, .completes current filled ready goes⟩, desk⟩

/-- Filling the defaults of the current task is a move. -/
theorem fillDefaults_move {r : Reply b} {run : PipelineRun} (current : r.engine.state.run = some run) :
    ∃ slots, Filled b r.book.ledger run slots ∧
      (r.mapEngine fun e => e.fillDefaults (b.pipelineOf run)).book =
        { r.book with ledger := { r.book.ledger with run := some { run with slots := slots } } } := by
  obtain ⟨slots, same, filled⟩ := Engine.fillDefaults_eq current
  refine ⟨slots, filled, ?_⟩
  rw [mapEngine_book, same]
  rfl

theorem advanceOnce_advances {resume : Reply b → Reply b} {r : Reply b}
    (resumes : ∀ r' : Reply b, r'.engine.state.suspended.length < r.engine.state.suspended.length →
      Book.Advances b r'.book (resume r').book) (acknowledge : Bool) :
    Book.Advances b r.book (advanceOnce resume r acknowledge).book := by
  unfold advanceOnce
  cases current : r.engine.state.run with
  | none => exact ⟨⟨[], (List.append_nil _).symm, .idle current⟩, rfl⟩
  | some run =>
    obtain ⟨slots, filled, moved⟩ := fillDefaults_move current
    dsimp only
    generalize (r.mapEngine fun e => e.fillDefaults (b.pipelineOf run)) = r' at moved ⊢
    have here : r'.engine.state.run = some { run with slots := slots } :=
      congrArg (fun B : Book => B.ledger.run) moved
    have same : r'.engine.state.suspended = r.engine.state.suspended :=
      congrArg (fun B : Book => B.ledger.suspended) moved
    rw [here]
    have performed := perform_advances (r := r') (finishRunWith resume) current filled
      (by rw [moved]; rfl) (fun next outcome result run' current' suspended failed =>
        finishRunWith_advances _ result current' (fun r'' fewer => resumes r'' (by
          rw [show next.engine.state.suspended = r.engine.state.suspended from suspended] at fewer
          exact fewer)) fun _ success => absurd success failed) acknowledge
    rw [moved] at performed
    exact performed

/-- **`advance` is `Advances`**, with enough fuel for the runs suspended. -/
theorem advanceTo_advances (fuel : Nat) (r : Reply b) (acknowledge : Bool)
    (enough : r.engine.state.suspended.length ≤ fuel) :
    Book.Advances b r.book (advanceTo fuel r acknowledge).book := by
  induction fuel generalizing r acknowledge with
  | zero => exact advanceOnce_advances (fun r' fewer => by omega) acknowledge
  | succ fuel ih =>
    exact advanceOnce_advances (fun r' fewer => ih r' false (by omega)) acknowledge

theorem advance_advances (r : Reply b) (acknowledge : Bool) :
    Book.Advances b r.book (r.advance acknowledge).book :=
  advanceTo_advances _ r acknowledge le_rfl

/-- A run is over: the next one goes on, or the call ends with it. -/
theorem finishRun_cases {r : Reply b} {run : PipelineRun} (current : r.engine.state.run = some run)
    (outcome : String) (result : Option Json) :
    Book.Advances b { r.book with ledger := r.book.ledger.finished outcome result }
        (r.finishRun outcome result).book ∨
      outcome = "success" ∧ (b.pipelineOf run).after = .end ∧ r.engine.state.suspended = [] ∧
        (r.finishRun outcome result).book =
        ⟨{ r.book.ledger.finished outcome result with phase := .ending },
          r.book.orders ++ [.hangup], r.book.desk⟩ := by
  by_cases goesOn : (b.pipelineOf run).after = .end → outcome = "success" →
      r.engine.state.suspended ≠ []
  · exact .inl (finishRunWith_advances (fun r => r.advance false) result current
      (fun r' _ => advance_advances r' false) goesOn)
  · push Not at goesOn
    obtain ⟨ends, rfl, last⟩ := goesOn
    refine .inr ⟨rfl, ends, last, ?_⟩
    have recorded : r.book.ledger.finished "success" result = r.book.ledger.recorded "success" result :=
      Ledger.finished_last last _ _
    have none' : (r.mapEngine fun e => e.recordRun "success" result).engine.state.suspended = [] :=
      (Ledger.recorded_suspended _ _ _).trans last
    unfold finishRun finishRunWith
    rw [current]
    dsimp only
    rw [none']
    dsimp only [List.getLast?_nil]
    rw [afterRun_goodbye _ _ ends, goodbye_book, recorded]
    rfl

/-- **`finish_run`** closes an operation. -/
theorem finishRun_closes (r : Reply b) (outcome : String) (result : Option Json) :
    Book.Closes b r.book (r.finishRun outcome result).book := by
  cases current : r.engine.state.run with
  | none =>
    refine .rests ?_
    unfold finishRun finishRunWith
    rw [current]
  | some run =>
    rcases finishRun_cases current outcome result with ⟨⟨orders, given, goes⟩, desk⟩ | ⟨rfl,
      ends, last, book⟩
    · exact ⟨⟨orders, given, .finishes outcome result current goes⟩, desk⟩
    · rw [book]
      exact ⟨⟨[.hangup], rfl, .finishesCall result current last ends⟩, rfl⟩

/-- **`finish_run`** records the run, and advances the one suspended last. -/
theorem finishRun_advances {r : Reply b} {run : PipelineRun} (current : r.engine.state.run = some run)
    (outcome : String) (result : Option Json) : ∃ phase orders,
      Callora.Advances b { r.book.ledger.finished outcome result with phase := phase }
        (r.finishRun outcome result).book.ledger orders := by
  rcases finishRun_cases current outcome result with ⟨⟨orders, -, goes⟩, -⟩ | ⟨-, -, last, book⟩
  · exact ⟨_, orders, goes⟩
  · have idle : (r.book.ledger.finished outcome result).run = none := by
      show r.engine.state.suspended.getLast? = none
      rw [last]
      rfl
    rw [book]
    exact ⟨.ending, [], .idle idle⟩

end Advance

section Reading

variable {allowed : Allowed}

theorem fillDefaults_quietly (keeps : Keeps allowed) {r : Reply b} {run : PipelineRun}
    (current : r.engine.state.run = some run) :
    Book.Quietly b allowed r.book (r.mapEngine fun e => e.fillDefaults (b.pipelineOf run)).book := by
  obtain ⟨slots, filled, moved⟩ := fillDefaults_move current
  rw [moved]
  exact ⟨.single (keeps _ _ rfl) (.run current (.fill filled)), rfl, rfl⟩

/-- A change of the current run that is a move. -/
theorem mapRun_quietly {r : Reply b} {run : PipelineRun} {f : PipelineRun → PipelineRun} {label : Label}
    (current : r.book.ledger.run = some run) (may : allowed label r.book.ledger)
    (moved : RunMove b r.book.ledger label run (f run)) :
    Book.Quietly b allowed r.book (r.mapEngine fun e => e.mapRun f).book := by
  rw [mapRun_book current]
  exact ⟨.single may (.run current moved), rfl, rfl⟩

/-- **`read_back`** fills the defaults, and reads the task back, asks, or advances. -/
theorem readBack_acts (routine : Routine allowed) (r : Reply b) (askIfMissing : Bool) :
    Book.Acts b allowed r.book (r.readBack askIfMissing).book := by
  unfold readBack
  cases current : r.engine.state.run with
  | none => exact (Book.Quietly.refl _).acts
  | some run =>
    have filling := fillDefaults_quietly routine.keeps current
    dsimp only
    generalize (r.mapEngine fun e => e.fillDefaults (b.pipelineOf run)) = r' at filling ⊢
    refine filling.trans_acts ?_
    cases here : r'.engine.state.run with
    | none => exact (Book.Quietly.refl _).acts
    | some run' =>
      dsimp only
      split
      · split
        · exact (Book.Quietly.of_eq (ask_book r' _ false)).acts
        · exact (Book.Quietly.refl _).acts
      · rw [sayNow_book]
        exact (mapRun_quietly here (routine .readBack _ rfl) .readBack).acts
      · exact (advance_advances r' false).closes.acts

/-- **`next_question`** fills the defaults, and asks or reads the task back. -/
theorem nextQuestion_acts (routine : Routine allowed) (r : Reply b) :
    Book.Acts b allowed r.book r.nextQuestion.book := by
  unfold nextQuestion
  cases current : r.engine.state.run with
  | none => exact (Book.Quietly.refl _).acts
  | some run =>
    have filling := fillDefaults_quietly routine.keeps current
    dsimp only
    generalize (r.mapEngine fun e => e.fillDefaults (b.pipelineOf run)) = r' at filling ⊢
    refine filling.trans_acts ?_
    cases here : r'.engine.state.run with
    | none => exact (Book.Quietly.refl _).acts
    | some run' =>
      dsimp only
      split
      · refine (Book.Quietly.of_eq ?_).acts
        rw [ask_book]
        split <;> rfl
      · exact readBack_acts routine r' true

end Reading

section Transfers

theorem ends_book (r : Reply b) : ((r.modify fun s => { s with phase := .ending }).push .hangup).book =
    ⟨{ r.book.ledger with phase := .ending }, r.book.orders ++ [.hangup], r.book.desk⟩ :=
  push_book _ rfl

/-- A call that ends. -/
theorem ends_closes (r : Reply b) :
    Book.Closes b r.book ((r.modify fun s => { s with phase := .ending }).push .hangup).book := by
  rw [ends_book]
  exact ⟨⟨[.hangup], rfl, .hangsUp⟩, rfl⟩

theorem goodbye_closes (r : Reply b) : Book.Closes b r.book r.goodbye.book := by
  rw [goodbye_book]
  exact ⟨⟨[.hangup], rfl, .hangsUp⟩, rfl⟩

/-- **`handoff`** closes an operation. -/
theorem handoff_closes (r : Reply b) (reason : String) :
    Book.Closes b r.book (r.handoff reason).book := by
  unfold handoff
  dsimp only
  split
  · rw [push_book _ rfl]
    have said := sayNow_book r b.config.handoff.response true
    rw [← said]
    exact ⟨⟨_, rfl, .handsOff _⟩, rfl⟩
  · split
    · refine .rests ?_
      rw [sayNow_book]
      rfl
    · have said := sayNow_book r b.config.handoff.unavailableResponse true
      generalize r.sayNow b.config.handoff.unavailableResponse true = r' at said ⊢
      rw [← said]
      split
      · exact ends_closes r'
      · split
        · exact (advance_advances r' false).closes
        · exact .rests rfl

/-- **`fallback`** closes an operation. -/
theorem fallback_closes (r : Reply b) : Book.Closes b r.book r.fallback.book := by
  have same : (r.modify fun s => { s with fallbackLevel := s.fallbackLevel + 1 }).book = r.book := rfl
  unfold fallback
  generalize (r.modify fun s => { s with fallbackLevel := s.fallbackLevel + 1 }) = r' at same ⊢
  rw [← same]
  dsimp only
  split
  · exact handoff_closes r' _
  · split
    · have advanced := advance_advances (r'.sayNow (b.config.fallback.ladder.headD "") false) false
      rw [sayNow_book] at advanced
      exact advanced.closes
    · exact .rests (sayNow_book r' _ _)

end Transfers

section Rules

variable {allowed : Allowed}

/-- A rule that hits, marked as fired. -/
theorem fire_quietly (keeps : Keeps allowed) (r : Reply b) (id : String) :
    Book.Quietly b allowed r.book (r.mapEngine fun e => e.mapRun fun run =>
      { run with firedRules := run.firedRules ++ [id] }).book := by
  cases current : r.book.ledger.run with
  | none => exact .of_eq (mapRun_idle current _)
  | some run => exact mapRun_quietly current (keeps _ _ rfl) (.fire id)

/-- A rule that does not take the turn over at most writes its value. -/
theorem applyRule_quietly (keeps : Keeps allowed) {rule : RuleConfig}
    (listed : rule ∈ b.config.rules) (r : Reply b) (goesOn : (r.applyRule rule).2 = false) :
    Book.Quietly b allowed r.book (r.applyRule rule).1.book := by
  have fired := fire_quietly keeps r rule.id
  unfold applyRule at goesOn ⊢
  dsimp only at goesOn ⊢
  generalize (r.mapEngine fun e => e.mapRun fun run =>
      { run with firedRules := run.firedRules ++ [rule.id] }) = r' at fired goesOn ⊢
  cases effect : rule.effect with
  | reject response => simp [effect] at goesOn
  | handoff response reason => simp [effect] at goesOn
  | set slot value =>
    dsimp only
    split
    · rename_i v read
      refine fired.trans ?_
      cases current : r'.book.ledger.run with
      | none => exact .of_eq (mapRun_idle current _)
      | some run => exact mapRun_quietly current (keeps _ _ rfl) (.write listed effect read)
    · exact fired

/-- **A rule** applied. -/
theorem applyRule_acts (routine : Routine allowed) {rule : RuleConfig}
    (listed : rule ∈ b.config.rules) (r : Reply b) :
    Book.Acts b allowed r.book (r.applyRule rule).1.book := by
  cases goesOn : (r.applyRule rule).2 with
  | false => exact (applyRule_quietly routine.keeps listed r goesOn).acts
  | true =>
    have fired := fire_quietly routine.keeps r rule.id
    unfold applyRule at goesOn ⊢
    dsimp only at goesOn ⊢
    generalize (r.mapEngine fun e => e.mapRun fun run =>
        { run with firedRules := run.firedRules ++ [rule.id] }) = r' at fired goesOn ⊢
    refine fired.trans_acts ?_
    cases effect : rule.effect with
    | reject response =>
      dsimp only
      rw [ask_book, sayNow_book]
      cases current : r'.book.ledger.run with
      | none => exact (Book.Quietly.of_eq (mapRun_idle current _)).acts
      | some run =>
        rw [mapRun_book current]
        have cleared : Path (Move b) allowed r'.book.ledger
            { r'.book.ledger with run := some (run.clear rule.when.slot) } :=
          .single (routine _ _ rfl) (.run current (.clear rule.when.slot))
        exact Book.Quietly.acts
          ⟨cleared.trans (.single (routine _ _ rfl) (.run rfl (.step rfl (by simp)))),
          rfl, rfl⟩
    | handoff response reason =>
      have closed := handoff_closes (r'.sayOptional response true) ("rule:" ++ reason)
      rw [sayOptional_book] at closed
      exact closed.acts
    | set slot value =>
      simp only [effect] at goesOn
      split at goesOn <;> cases goesOn

/-- Rules that do not take the turn over at most write values. -/
theorem applyRulesFrom_quietly (keeps : Keeps allowed) {rules : List RuleConfig}
    (listed : ∀ rule ∈ rules, rule ∈ b.config.rules) (r : Reply b)
    (goesOn : (applyRulesFrom rules r).2 = false) :
    Book.Quietly b allowed r.book (applyRulesFrom rules r).1.book := by
  induction rules generalizing r with
  | nil => exact .refl _
  | cons rule rules ih =>
    have rest := fun rule' mem => listed rule' (List.mem_cons_of_mem rule mem)
    unfold applyRulesFrom at goesOn ⊢
    split at goesOn
    · rename_i hit
      rw [if_pos hit]
      have here := applyRule_quietly keeps (listed rule List.mem_cons_self) r
      generalize r.applyRule rule = applied at goesOn here ⊢
      obtain ⟨r', took⟩ := applied
      cases took with
      | true => cases goesOn
      | false => exact (here rfl).trans (ih rest r' goesOn)
    · rename_i miss
      rw [if_neg miss]
      exact ih rest r goesOn

theorem applyRulesFrom_acts (routine : Routine allowed) {rules : List RuleConfig}
    (listed : ∀ rule ∈ rules, rule ∈ b.config.rules) (r : Reply b) :
    Book.Acts b allowed r.book (applyRulesFrom rules r).1.book := by
  induction rules generalizing r with
  | nil => exact (Book.Quietly.refl _).acts
  | cons rule rules ih =>
    have rest := fun rule' mem => listed rule' (List.mem_cons_of_mem rule mem)
    unfold applyRulesFrom
    split
    · have here := applyRule_acts routine (listed rule List.mem_cons_self) r
      have goesOn := applyRule_quietly routine.keeps (listed rule List.mem_cons_self) r
      generalize r.applyRule rule = applied at here goesOn ⊢
      obtain ⟨r', took⟩ := applied
      cases took with
      | true => exact here
      | false => exact (goesOn rfl).trans_acts (ih rest r')
    · exact ih rest r

theorem applyRules_quietly (keeps : Keeps allowed) (r : Reply b) (goesOn : r.applyRules.2 = false) :
    Book.Quietly b allowed r.book r.applyRules.1.book :=
  applyRulesFrom_quietly keeps (fun _ mem => mem) r goesOn

/-- **The rules** of a turn. -/
theorem applyRules_acts (routine : Routine allowed) (r : Reply b) :
    Book.Acts b allowed r.book r.applyRules.1.book :=
  applyRulesFrom_acts routine (fun _ mem => mem) r

end Rules

end Reply

end Callora
