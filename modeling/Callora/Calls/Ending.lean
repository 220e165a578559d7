/-
**A call that is ending.**

Once a call is handed off or ends, nothing is heard any more (`over_book`); only the result of a request
still under way is acted on. `ending_call_stays`: the phase never changes again and no order is given, as
long as such a result is harmless: it sends no second attempt, transfers and ends nothing, and the task
resumed after it, if any, first asks something.

A success of the task that ends the call hangs up over a transfer (`lateSuccess_hangsUp`).
-/
import Callora.Calls.Call

set_option linter.unusedSectionVars false

namespace Callora

open Callora.Text Runs

/-- The task asks something, and waits for the caller. -/
def NextStep.asks : NextStep → Bool
  | .confirmSlot .. | .askFor _ | .readBack _ => true
  | _ => false

/-- No order is given, and the phase stays. -/
structure Book.Stays (B B' : Book) : Prop where
  orders : B'.orders = B.orders
  phase : B'.ledger.phase = B.ledger.phase

theorem Book.Stays.of_eq {B B' : Book} (same : B' = B) : Book.Stays B B' := by
  subst same
  exact ⟨rfl, rfl⟩

theorem Book.Stays.trans {B B' B'' : Book} (first : Book.Stays B B') (second : Book.Stays B' B'') :
    Book.Stays B B'' :=
  ⟨second.orders.trans first.orders, second.phase.trans first.phase⟩

section Ending

variable {b : Business} [Unicode]

namespace Engine

/-- What a run that was resumed does first is a question; so it is where none is suspended. -/
def resumesAsking (e : Engine b) (outcome : String) (result : Option Json) : Bool :=
  match e.state.suspended.getLast? with
  | none => true
  | some resumed =>
    (((e.recordRun outcome result).resumeRun resumed).fillDefaults (b.pipelineOf resumed)).state.run.all
      fun run => (nextStep b (b.pipelineOf resumed) run).asks

section Sources

variable {e e' : Engine b}

/-- The same runs, customer and cities noted: the same values to fill in. -/
structure SameSources (e e' : Engine b) : Prop where
  run : e'.state.run = e.state.run
  suspended : e'.state.suspended = e.state.suspended
  completed : e'.state.completed = e.state.completed
  customer : e'.state.customer = e.state.customer
  cities : e'.state.placeCities = e.state.placeCities

namespace SameSources

theorem of_ledger (ledger : e'.state.toLedger = e.state.toLedger)
    (cities : e'.state.placeCities = e.state.placeCities) : SameSources e e' :=
  ⟨congrArg Ledger.run ledger, congrArg Ledger.suspended ledger, congrArg Ledger.completed ledger,
    congrArg Ledger.customer ledger, cities⟩

theorem trans {e'' : Engine b} (first : SameSources e e') (second : SameSources e' e'') :
    SameSources e e'' :=
  ⟨second.run.trans first.run, second.suspended.trans first.suspended,
    second.completed.trans first.completed, second.customer.trans first.customer,
    second.cities.trans first.cities⟩

theorem setRun (same : SameSources e e') (run : PipelineRun) :
    SameSources (e.setRun run) (e'.setRun run) :=
  ⟨rfl, same.suspended, same.completed, same.customer, same.cities⟩

theorem taskSource (same : SameSources e e') (run : PipelineRun) (ps : PipelineSlot) :
    e'.taskSource run ps = e.taskSource run ps := by
  unfold Engine.taskSource
  rw [same.suspended, same.completed, same.cities]

theorem fillFromOtherTasks (same : SameSources e e') :
    SameSources e.fillFromOtherTasks e'.fillFromOtherTasks := by
  unfold Engine.fillFromOtherTasks
  rw [same.run]
  cases e.state.run with
  | none => exact same
  | some run =>
    simp only [same.taskSource]
    exact same.setRun _

theorem fillDefaults (same : SameSources e e') (pipeline : PipelineConfig) :
    (e'.fillDefaults pipeline).state.run = (e.fillDefaults pipeline).state.run := by
  have filled := same.fillFromOtherTasks
  unfold Engine.fillDefaults
  dsimp only
  generalize e.fillFromOtherTasks = f at filled ⊢
  generalize e'.fillFromOtherTasks = f' at filled ⊢
  have names : f'.fillName = f.fillName := by
    funext run ps
    unfold Engine.fillName customerGives
    rw [filled.customer]
  have defaults : f'.fillDefault = f.fillDefault := by
    funext run ps
    unfold Engine.fillDefault defaultState
    rw [filled.customer]
  rw [filled.run]
  cases f.state.run with
  | none => exact filled.run
  | some run =>
    unfold fillNames
    simp only [names, defaults]
    rfl

theorem recordRun (same : SameSources e e') (outcome : String) (result : Option Json) :
    SameSources (e.recordRun outcome result) (e'.recordRun outcome result) where
  run := (Ledger.recorded_run _ _ _).trans (Ledger.recorded_run _ _ _).symm
  suspended := by
    show (Ledger.recorded _ _ _).suspended = (Ledger.recorded _ _ _).suspended
    rw [Ledger.recorded_suspended, Ledger.recorded_suspended]
    exact same.suspended
  completed := by
    show (Ledger.recorded _ _ _).completed = (Ledger.recorded _ _ _).completed
    unfold Ledger.recorded
    rw [same.run]
    cases e.state.run with
    | none => exact same.completed
    | some run => exact congrArg (· ++ [_]) same.completed
  customer := by
    show (Ledger.recorded _ _ _).customer = (Ledger.recorded _ _ _).customer
    unfold Ledger.recorded
    rw [same.run]
    cases e.state.run <;> exact same.customer
  cities := same.cities

theorem resumesAsking (same : SameSources e e') (outcome : String) (result : Option Json) :
    e'.resumesAsking outcome result = e.resumesAsking outcome result := by
  have recorded := same.recordRun outcome result
  unfold Engine.resumesAsking
  rw [same.suspended]
  split
  · rfl
  · rename_i resumed _
    have resumed' : SameSources ((e.recordRun outcome result).resumeRun resumed)
        ((e'.recordRun outcome result).resumeRun resumed) :=
      ⟨rfl, congrArg List.dropLast recorded.suspended, recorded.completed, recorded.customer,
        recorded.cities⟩
    rw [resumed'.fillDefaults]

end SameSources

end Sources

end Engine

namespace Reply

section Asking

/-- What is done with a run that asks something is at most another step. -/
theorem perform_asks (finish : Reply b → String → Option Json → Reply b) (r : Reply b)
    (pipeline : PipelineConfig) (acknowledge : Bool) {next : NextStep} (asks : next.asks) :
    ∃ st, (r.perform finish pipeline acknowledge next).book =
      (r.mapEngine fun e => e.setStep st).book := by
  cases next with
  | confirmSlot slot spoken => exact ⟨.confirmingSlot slot, say_book _ _ _ _⟩
  | askFor slot => exact ⟨.collecting (some slot), ask_book _ _ _⟩
  | readBack response => exact ⟨.awaitingConfirmation, sayNow_book _ _ _⟩
  | act => cases asks
  | complete => cases asks

theorem advanceOnce_asks {resume : Reply b → Reply b} {r : Reply b} {run : PipelineRun}
    (current : r.engine.state.run = some run)
    (asks : (r.engine.fillDefaults (b.pipelineOf run)).state.run.all fun run' =>
      (Engine.nextStep b (b.pipelineOf run) run').asks) (acknowledge : Bool) :
    Book.Stays r.book (advanceOnce resume r acknowledge).book := by
  obtain ⟨slots, -, moved⟩ := fillDefaults_move current
  have filled : (r.mapEngine fun e => e.fillDefaults (b.pipelineOf run)).engine =
      r.engine.fillDefaults (b.pipelineOf run) := rfl
  rw [← filled] at asks
  unfold advanceOnce
  rw [current]
  dsimp only
  generalize (r.mapEngine fun e => e.fillDefaults (b.pipelineOf run)) = r' at moved asks ⊢
  have here : r'.engine.state.run = some { run with slots := slots } :=
    congrArg (fun B : Book => B.ledger.run) moved
  rw [here] at asks ⊢
  obtain ⟨st, same⟩ := perform_asks (finishRunWith resume) r' (b.pipelineOf run) acknowledge
    (by simpa using asks)
  have stepped : Book.Stays r'.book (r'.mapEngine fun e => e.setStep st).book := ⟨rfl, rfl⟩
  dsimp only
  rw [same]
  exact .trans (by rw [moved]; exact ⟨rfl, rfl⟩) stepped

theorem advance_asks {r : Reply b} {run : PipelineRun} (current : r.engine.state.run = some run)
    (asks : (r.engine.fillDefaults (b.pipelineOf run)).state.run.all fun run' =>
      (Engine.nextStep b (b.pipelineOf run) run').asks) (acknowledge : Bool) :
    Book.Stays r.book (r.advance acknowledge).book := by
  unfold advance
  cases r.engine.state.suspended.length with
  | zero => exact advanceOnce_asks current asks acknowledge
  | succ fuel => exact advanceOnce_asks current asks acknowledge

/-- A run that is over orders nothing more, when the call goes on and the next task asks something. -/
theorem finishRun_asks (r : Reply b) (outcome : String) (result : Option Json)
    (goesOn : ∀ run, r.engine.state.run = some run → r.engine.state.suspended = [] →
      ¬((b.pipelineOf run).after = .end ∧ outcome = "success"))
    (asks : r.engine.resumesAsking outcome result) :
    Book.Stays r.book (r.finishRun outcome result).book := by
  unfold finishRun finishRunWith
  cases current : r.engine.state.run with
  | none => exact ⟨rfl, rfl⟩
  | some run =>
    have same : (r.mapEngine fun e => e.recordRun outcome result).engine.state.suspended =
        r.engine.state.suspended := Ledger.recorded_suspended _ _ _
    have recorded : Book.Stays r.book (r.mapEngine fun e => e.recordRun outcome result).book := by
      refine ⟨rfl, ?_⟩
      rw [recordRun_book]
      unfold Ledger.recorded
      split <;> rfl
    dsimp only
    rw [same]
    unfold Engine.resumesAsking at asks
    cases last : r.engine.state.suspended.getLast? with
    | none =>
      dsimp only
      rw [afterRun_book _ _ _ (goesOn run current (List.getLast?_eq_none_iff.mp last))]
      exact recorded
    | some resumed =>
      rw [last] at asks
      have resumes : Book.Stays (r.mapEngine fun e => e.recordRun outcome result).book
          ((r.mapEngine fun e => e.recordRun outcome result).mapEngine fun e =>
            e.resumeRun resumed).book := ⟨rfl, rfl⟩
      exact (recorded.trans resumes).trans (advance_asks rfl asks false)

end Asking

section Results

theorem say_sources (r : Reply b) (response : String) (ctx : RenderContext) (record : Bool) :
    Engine.SameSources r.engine (r.say response ctx record).engine := by
  refine .of_ledger (congrArg Book.ledger (say_book r response ctx record)) ?_
  have cities : (r.engine.renderPlan response ctx).2.state.placeCities = r.engine.state.placeCities := rfl
  unfold say
  generalize r.engine.renderPlan response ctx = rendered at cities ⊢
  obtain ⟨plan, e⟩ := rendered
  cases plan <;> exact cities

theorem sayOptional_sources (r : Reply b) (response : Option String) (record : Bool) :
    Engine.SameSources r.engine (r.sayOptional response record).engine := by
  cases response with
  | none => exact ⟨rfl, rfl, rfl, rfl, rfl⟩
  | some response => exact say_sources r response _ record

theorem saySuccess_sources (r : Reply b) (pipeline : PipelineConfig) (value : Json) :
    Engine.SameSources r.engine (r.saySuccess pipeline value).engine := by
  unfold saySuccess
  split
  · exact say_sources r _ _ _
  · exact ⟨rfl, rfl, rfl, rfl, rfl⟩

theorem sayFailure_sources (r : Reply b) (pipeline : PipelineConfig) :
    Engine.SameSources r.engine (r.sayFailure pipeline).engine := by
  unfold sayFailure
  split
  · rename_i response run _ _
    have marked : Engine.SameSources r.engine (r.modify fun s =>
        { s with failuresSaid := s.failuresSaid ++ [run.serial] }).engine := ⟨rfl, rfl, rfl, rfl, rfl⟩
    exact marked.trans (say_sources _ _ _ _)
  · exact sayOptional_sources r _ _

theorem countFailure_sources (e : Engine b) (action : String) (runId : Nat) :
    Engine.SameSources e (countFailure e action runId) := by
  unfold countFailure
  split <;> exact ⟨rfl, rfl, rfl, rfl, rfl⟩

/-- A result that comes in a call that is ending is harmless: the call goes on after a success, an error
leaves nothing to try, to transfer or to give up, and the task resumed next asks something. -/
def harmless (e : Engine b) (runId : Nat) (result : Except ActionFailure Json) : Bool :=
  match e.state.run with
  | none => true
  | some run =>
    if run.step ≠ .executing runId then true
    else
      let pipeline := b.pipelineOf run
      match result with
      | .ok value =>
        (!e.state.suspended.isEmpty || pipeline.after == .continue) &&
          e.resumesAsking "success" (some value)
      | .error failure =>
        decide (maxAttempts b pipeline ≤ run.attempts) &&
          if failure.outcomeUnknown then
            !e.hasDesk && e.resumesAsking "unknown" (some (.obj [("error", .str failure.error),
              ("outcome_unknown", .bool true), ("run_id", .int runId)]))
          else
            decide ((countFailure e (pipeline.action.getD "") runId).state.actionFailures <
              b.config.handoff.afterActionFailures) &&
              e.resumesAsking "failed" (some (.obj [("error", .str failure.error)]))

theorem failed_stays (r : Reply b) (run : PipelineRun) (current : r.engine.state.run = some run)
    (pipeline : PipelineConfig) (action : String) (runId : Nat) (error : String)
    (few : (countFailure r.engine action runId).state.actionFailures <
      b.config.handoff.afterActionFailures)
    (asks : r.engine.resumesAsking "failed" (some (.obj [("error", .str error)]))) :
    Book.Stays r.book (r.failed pipeline action runId error).book := by
  have counted : Book.Stays r.book (r.mapEngine fun e => countFailure e action runId).book := by
    rw [mapEngine_book]
    unfold countFailure
    split <;> exact ⟨rfl, rfl⟩
  have sources : Engine.SameSources r.engine (r.mapEngine fun e => countFailure e action runId).engine :=
    countFailure_sources r.engine action runId
  have few' : (r.mapEngine fun e => countFailure e action runId).engine.state.actionFailures <
    b.config.handoff.afterActionFailures := few
  unfold failed
  generalize (r.mapEngine fun e => countFailure e action runId) = r' at counted sources few' ⊢
  obtain ⟨said, -, noted⟩ := sayFailure_book (sources.run.trans current) pipeline
  have sources' := sources.trans (sayFailure_sources r' pipeline)
  generalize r'.sayFailure pipeline = r'' at noted sources' ⊢
  have failures : r''.engine.state.actionFailures = r'.engine.state.actionFailures :=
    congrArg (fun B : Book => B.ledger.actionFailures) noted
  dsimp only
  rw [failures, if_neg (Nat.not_le.mpr few')]
  refine counted.trans (.trans (by rw [noted]; exact ⟨rfl, rfl⟩) (finishRun_asks r'' "failed" _
    (fun _ _ _ ends => absurd ends.2 (by decide)) ?_))
  rw [sources'.resumesAsking]
  exact asks

theorem onActionResult_stays (e : Engine b) (runId : Nat) (result : Except ActionFailure Json)
    (quiet : harmless e runId result) :
    Book.Stays e.book (answerBook (onActionResult e runId result)) := by
  unfold harmless at quiet
  unfold onActionResult
  cases current : e.state.run with
  | none => exact ⟨rfl, rfl⟩
  | some run =>
    rw [current] at quiet
    dsimp only at quiet ⊢
    split
    · exact ⟨rfl, rfl⟩
    · rename_i waits
      rw [if_neg waits] at quiet
      cases result with
      | ok value =>
        simp only [Bool.and_eq_true, Bool.or_eq_true] at quiet
        have said := saySuccess_book (begin e) (b.pipelineOf run) value
        have sources := saySuccess_sources (begin e) (b.pipelineOf run) value
        dsimp only
        rw [answerBook_finish]
        unfold succeeded
        generalize (begin e).saySuccess (b.pipelineOf run) value = r at said sources ⊢
        refine .trans (.of_eq said) (finishRun_asks r "success" (some value)
          (fun run' here empty ends => ?_) ((sources.resumesAsking _ _).trans quiet.2))
        obtain rfl := Option.some.inj ((sources.run.symm.trans here).symm.trans current)
        have none' : e.state.suspended = [] := sources.suspended.symm.trans empty
        rcases quiet.1 with waiting | goesOn
        · simp [none'] at waiting
        · rw [eq_of_beq goesOn] at ends
          exact absurd ends.1 (by simp)
      | error failure =>
        simp only [Bool.and_eq_true, decide_eq_true_eq] at quiet
        obtain ⟨used, quiet⟩ := quiet
        dsimp only
        rw [if_neg (Nat.not_lt.mpr used)]
        split
        · rename_i unknown
          rw [if_pos unknown, Bool.and_eq_true] at quiet
          rw [answerBook_finish]
          unfold outcomeUnknown
          dsimp only
          have alone : (begin e).engine.hasDesk = false := (Bool.not_eq_true' _).mp quiet.1
          rw [alone, if_neg Bool.false_ne_true]
          exact finishRun_asks (begin e) "unknown" _ (fun _ _ _ ends => absurd ends.2 (by decide)) quiet.2
        · rename_i known
          rw [if_neg known, Bool.and_eq_true, decide_eq_true_eq] at quiet
          rw [answerBook_finish]
          exact failed_stays (begin e) run current _ _ _ _ quiet.1 quiet.2

end Results

end Reply

section Over

/-- In a call that is ending, only the result of a request is acted on. -/
theorem Op.over_stays {e : Engine b} (ended : e.state.phase ≠ .active) (op : Op)
    (result : ∀ runId value, op ≠ .actionResult runId value) :
    Book.Stays e.book (answerBook (op.apply e)) := by
  have busy : Reply.isBusy e := by simp [Reply.isBusy, ended]
  cases op with
  | start => exact .of_eq (Reply.start_book e)
  | utterance u => exact .of_eq (by simp [Op.apply, Reply.onUtterance, ended])
  | agentTurn transcript turn spoken => exact .of_eq (by simp [Op.apply, Reply.onAgentTurn, ended])
  | noToOptional text =>
    have unasked : Reply.optionalAsked e = none := by
      unfold Reply.optionalAsked
      cases e.state.run with
      | none => rfl
      | some run => simp [ended]
    exact .of_eq (by simp [Op.apply, Reply.onNoToOptional, unasked])
  | closing text => exact .of_eq (by simp [Op.apply, Reply.onClosing, ended])
  | silence => exact .of_eq (by simp [Op.apply, Reply.onSilence, busy])
  | noise interrupted => exact .of_eq (Reply.onNoise_book e interrupted)
  | unheard => exact .of_eq (Reply.onUnheard_book e)
  | hello => exact .of_eq (Reply.onHello_book e)
  | replayLast => exact .of_eq (Reply.replayLast_book e)
  | forceHandoff reason => exact .of_eq (by simp [Op.apply, Reply.forceHandoff, ended])
  | actionResult runId value => exact absurd rfl (result runId value)
  | setCustomer customer => exact ⟨rfl, rfl⟩
  | setCallerPhone phone => exact ⟨rfl, rfl⟩
  | setDesk available => exact ⟨rfl, rfl⟩
  | setGazetteer gazetteer => exact ⟨rfl, rfl⟩
  | hintTowns transcript => exact .of_eq (Reply.hintTowns_book e transcript)
  | renderResponse id => exact .of_eq rfl
  | renderPhrase id =>
    have same := Engine.renderPhrase_sameCall e id
    exact ⟨rfl, congrArg Ledger.phase same.ledger⟩
  | hearAgain second => exact .of_eq rfl
  | remember text =>
    exact ⟨rfl, congrArg Ledger.phase (CallState.remember_toLedger e.state .agent text)⟩

/-- An operation that does no harm in a call that is ending: all but the results that go on. -/
def Op.harmless (e : Engine b) : Op → Bool
  | actionResult runId result => Reply.harmless e runId result
  | _ => true

theorem Op.ending_stays {e : Engine b} (ended : e.state.phase ≠ .active) {op : Op}
    (quiet : op.harmless e) : (op.leaves e).phase = e.state.phase ∧ op.orders e = [] := by
  have stays : Book.Stays e.book (answerBook (op.apply e)) := by
    by_cases result : ∀ runId value, op ≠ .actionResult runId value
    · exact op.over_stays ended result
    · push Not at result
      obtain ⟨runId, value, rfl⟩ := result
      exact Reply.onActionResult_stays e runId value quiet
  exact ⟨stays.phase, stays.orders⟩

/-- **A call that is ending stays ending**: whatever is done with it, as long as a result that still
comes in is harmless. -/
theorem ending_call_stays (b : Business) (seed : UInt64) (ops later : List Op)
    (ended : (Call.final b seed ops).state.phase ≠ .active)
    (quiet : ∀ ev ∈ Runs.events Op.apply (Call.final b seed ops) later, ev.input.harmless ev.before) :
    ∀ ev ∈ Runs.events Op.apply (Call.final b seed ops) later,
      ev.after.state.phase = (Call.final b seed ops).state.phase ∧
        ev.output.filter Directive.isOrder = [] := by
  intro ev listed
  obtain ⟨same, here, rfl'⟩ := invariant_at
    (P := fun e : Engine b => e.state.phase = (Call.final b seed ops).state.phase)
    (C := fun ev => ev.input.harmless ev.before) rfl
    (fun e op same quiet => (Op.ending_stays (same ▸ ended) quiet).1.trans same) quiet ev listed
  have stays := Op.ending_stays (same ▸ ended) here
  rw [rfl']
  exact ⟨stays.1.trans same, stays.2⟩

end Over

end Ending

section Sample

open Sample

/-- A ride is asked for and agreed to; its request is under way. -/
def rideRequested : List Op := [.start, asks "a ride for two" "ride" [number "seats" 2], agrees]

/-- A transfer to a person follows. -/
def transferred : List Op := [.setDesk true] ++ rideRequested ++ [.forceHandoff "operator"]

/-- A ride is refused once and asked for again; then comes the transfer. -/
def retriedTransferred : List Op :=
  [.setDesk true] ++ rideRequested ++ [.actionResult 1 (.error ⟨"full", false⟩), .forceHandoff "operator"]

set_option maxRecDepth 100000 in
/-- The second refusal comes while the transfer is pending, and a success of a request that is not
there. -/
theorem ending_call_stays_transferred : rides.Validated ∧
    ∀ ev ∈ Runs.events Op.apply (Call.final rides 7 retriedTransferred)
      [agrees, .silence, .actionResult 1 (.error ⟨"full", false⟩), .actionResult 2 (.ok .null)],
      ev.after.state.phase = (Call.final rides 7 retriedTransferred).state.phase ∧
        ev.output.filter Directive.isOrder = [] :=
  ⟨rides_validated, ending_call_stays rides 7 retriedTransferred _ (by decide +kernel)
    (by decide +kernel)⟩

set_option maxRecDepth 100000 in
/-- The ride is booked while the transfer is pending: the call hangs up instead. -/
theorem lateSuccess_hangsUp : rides.Validated ∧
    (Call.final rides 7 transferred).state.phase = .handingOff ∧
    (Call.final rides 7 (transferred ++ [.actionResult 1 (.ok .null)])).state.phase = .ending ∧
    ((Op.actionResult 1 (.ok .null)).orders (Call.final rides 7 transferred)).any Directive.isHangup :=
  ⟨rides_validated, by decide +kernel⟩

end Sample

end Callora
