/-
**Requests and their results.**

A request is sent with a run id, and the run waits for it (`Op.request`). While no operation moves the
task on (`Op.waits`):

- `result_recorded`: a value that comes back is recorded as the success of its run, whatever was said
  between;
- `no_second_request`: the run makes no other request, even if it is given up.

`advance` does not look whether a run waits for its action, so a question answered on the way sends the
request a second time (`faq_sendsAgain`), and a cancellation loses the result (`cancel_losesResult`).
-/
import Callora.Calls.Waiting
import Callora.Calls.Ending

set_option linter.unusedSectionVars false

namespace Callora

open Callora.Text Runs

/-- The run ids that orders request. -/
def requests (orders : List Directive) : List Nat := orders.filterMap Directive.runId?

section Requests

variable {b : Business} [Unicode] {l l' : Ledger} {orders : List Directive} {e : Engine b} {op : Op}
  {run : PipelineRun} {n : Nat}

/-- The current run waits for a request. -/
def Ledger.Awaits (l : Ledger) (n : Nat) : Prop := ∃ run, l.run = some run ∧ run.step = .executing n

theorem Advances.request (goes : Advances b l l' orders) (sent : n ∈ requests orders) : l'.Awaits n := by
  induction goes with
  | idle => cases sent
  | pauses => cases sent
  | sends current filled ready =>
    obtain rfl : n = _ := List.mem_singleton.mp sent
    exact ⟨_, rfl, rfl⟩
  | completes _ _ _ _ ih => exact ih sent
  | fails _ _ _ _ _ ih => exact ih sent

theorem Closes.request (closes : Closes b l l' orders) (sent : n ∈ requests orders) : l'.Awaits n := by
  induction closes with
  | rests => cases sent
  | advances goes => exact goes.request sent
  | hangsUp => cases sent
  | handsOff => cases sent
  | retries current waits =>
    obtain rfl : n = _ := List.mem_singleton.mp sent
    exact ⟨_, rfl, waits⟩
  | finishes _ _ _ goes => exact goes.request sent
  | finishesCall => cases sent
  | givesUp => cases sent
  | forced _ _ ih =>
    refine ih ?_
    simpa [requests, Directive.runId?] using sent

/-- **What is requested is waited for.** -/
theorem Op.request (sent : n ∈ requests (op.orders e)) : (op.leaves e).Awaits n := by
  have done := happens e op
  generalize op.leaves e = l' at done ⊢
  generalize op.orders e = orders at done sent
  cases done with
  | sets => cases sent
  | acts opens acts =>
    obtain ⟨m, path, closes⟩ := acts
    exact closes.request sent

/-- The result of a request that is tried again. -/
def Op.retries (run : PipelineRun) (b : Business) : Op → Bool
  | actionResult runId (.error _) => run.step == .executing runId &&
      decide (run.attempts < Reply.maxAttempts b (b.pipelineOf run))
  | _ => false

/-- **A retry**: the same request, once more. -/
theorem retry_book (failure : ActionFailure) (current : e.state.run = some run)
    (waits : run.step = .executing n) (left : run.attempts < Reply.maxAttempts b (b.pipelineOf run)) :
    answerBook (Reply.onActionResult e n (.error failure)) =
      ⟨{ e.state.toLedger with run := some { run with attempts := run.attempts + 1 } },
        [.runAction n ((b.pipelineOf run).action.getD "") (e.state.toLedger.actionInput n)], e.desk⟩ := by
  unfold Reply.onActionResult
  rw [current]
  dsimp only
  rw [if_neg (not_not.mpr waits), if_pos left, answerBook_finish]
  unfold Reply.retry
  rw [Reply.push_book _ rfl, Reply.mapRun_book (r := Reply.begin e) current]
  rfl

/-- What a retry leaves: the same run, waiting for the same request. -/
theorem Op.retries_keeps (current : e.state.run = some run) (waits : run.step = .executing n)
    (again : op.retries run b) :
    op.leaves e = { e.state.toLedger with run := some { run with attempts := run.attempts + 1 } } ∧
      op.orders e =
        [.runAction n ((b.pipelineOf run).action.getD "") (e.state.toLedger.actionInput n)] := by
  cases op with
  | actionResult runId result =>
    cases result with
    | ok value => cases again
    | error failure =>
      obtain ⟨here, left⟩ := Bool.and_eq_true _ _ ▸ again
      obtain rfl : n = runId := Step.executing.inj (waits.symm.trans (eq_of_beq here))
      have book := retry_book failure current waits (of_decide_eq_true left)
      exact ⟨congrArg Book.ledger book, congrArg Book.orders book⟩
  | _ => cases again

/-- A finished run is recorded, whatever is resumed after it. -/
theorem finishRun_records {r : Reply b} (current : r.engine.state.run = some run) (outcome : String)
    (result : Option Json) :
    run.record outcome result ∈ (r.finishRun outcome result).book.ledger.completed := by
  obtain ⟨phase, orders, goes⟩ := Reply.finishRun_advances current outcome result
  refine goes.completed _ ?_
  show _ ∈ (r.book.ledger.recorded outcome result).completed
  rw [Ledger.recorded_completed (show r.book.ledger.run = some run from current)]
  exact List.mem_append_right _ List.mem_cons_self

/-- A value that comes back is the success of the run that waits for it. -/
theorem success_records (current : e.state.run = some run) (waits : run.step = .executing n)
    (value : Json) : run.record "success" (some value) ∈
      ((Op.actionResult n (.ok value)).leaves e).completed := by
  show _ ∈ (answerBook (Reply.onActionResult e n (.ok value))).ledger.completed
  unfold Reply.onActionResult
  rw [current]
  dsimp only
  rw [if_neg (not_not.mpr waits), answerBook_finish]
  have said := Reply.saySuccess_book (Reply.begin e) (b.pipelineOf run) value
  exact finishRun_records ((congrArg (fun B : Book => B.ledger.run) said).trans current) _ _

/-- Where a request is under way, an operation waits, or its failure is tried again. -/
def keepsRequest (ev : CallEvent b) : Bool :=
  ev.before.state.run.all fun run => ev.input.waits ev.before run || ev.input.retries run b

/-- The current run is the one that made the request, waiting for it. -/
def Ledger.WaitsFor (l : Ledger) (n serial : Nat) (pipeline : String) : Prop :=
  ∃ run, l.run = some run ∧ run.step = .executing n ∧ run.serial = serial ∧ run.pipeline = pipeline

theorem Op.keeps_waitsFor {serial : Nat} {pipeline : String}
    (waiting : e.state.toLedger.WaitsFor n serial pipeline)
    (keeps : keepsRequest (event Op.apply e op)) : (op.leaves e).WaitsFor n serial pipeline := by
  obtain ⟨run, current, waits, rfl, rfl⟩ := waiting
  have goes : op.waits e run || op.retries run b := by simpa [keepsRequest, current] using keeps
  rcases Bool.or_eq_true _ _ ▸ goes with still | again
  · obtain ⟨run', here, same⟩ := (Op.waits_keeps current (by rw [waits]; rfl) still).run
    exact ⟨run', here, (same.step (by rw [waits]; rfl)).trans waits, same.serial, same.pipeline⟩
  · rw [(Op.retries_keeps current waits again).1]
    exact ⟨_, rfl, waits, rfl, rfl⟩

/-- **No result is lost**, while no operation moves the task on: the value that comes back is recorded as
the success of the run that asked for it. -/
theorem result_recorded (b : Business) (seed : UInt64) (ops : List Op) (op : Op) (n : Nat)
    (later : List Op) (value : Json) (sent : n ∈ requests (op.orders (Call.final b seed ops)))
    (keeps : ∀ ev ∈ Runs.events Op.apply (Call.final b seed (ops ++ [op])) later, keepsRequest ev) :
    ∃ run, (Call.final b seed (ops ++ [op])).state.run = some run ∧ run.step = .executing n ∧
      ∃ c ∈ (Call.final b seed
        (ops ++ [op] ++ later ++ [.actionResult n (.ok value)])).state.completed,
        c.serial = run.serial ∧ c.pipeline = run.pipeline ∧ c.outcome = "success" ∧
          c.result = some value := by
  have after : (Call.final b seed (ops ++ [op])).state.toLedger =
      op.leaves (Call.final b seed ops) := by
    unfold Call.final
    rw [final_append]
    rfl
  obtain ⟨run, current, waits⟩ := Op.request sent
  rw [← after] at current
  refine ⟨run, current, waits, ?_⟩
  have waiting : (Runs.final Op.apply (Call.final b seed (ops ++ [op])) later).state.toLedger.WaitsFor n
      run.serial run.pipeline :=
    invariant_final (P := fun e : Engine b =>
        e.state.toLedger.WaitsFor n run.serial run.pipeline)
      (C := fun ev => keepsRequest ev) ⟨run, current, waits, rfl, rfl⟩
      (fun _ _ waiting keeps => Op.keeps_waitsFor waiting keeps) keeps
  obtain ⟨run', current', waits', serial, pipeline⟩ := waiting
  refine ⟨run'.record "success" (some value), ?_, serial, pipeline, rfl, rfl⟩
  have last : (Call.final b seed
      (ops ++ [op] ++ later ++ [.actionResult n (.ok value)])).state.toLedger =
      (Op.actionResult n (.ok value)).leaves
        (Runs.final Op.apply (Call.final b seed (ops ++ [op])) later) := by
    unfold Call.final
    rw [final_append, final_append]
    rfl
  show _ ∈ (Call.final b seed _).state.toLedger.completed
  rw [last]
  exact success_records current' waits' value

/-- The operation gives the current run up: another task takes its place, or it is cancelled. -/
def Op.drops (e : Engine b) (op : Op) : Bool :=
  (op.starts e).any (fun (_, aside) => !aside) || decide (op.cancels e)

theorem cancel_leaves (cancels : op.cancels e) : op.leaves e =
    { e.state.toLedger.recorded "cancelled" none with suspended := [] } := by
  cases op with
  | utterance u =>
    obtain ⟨active, clear, decent, cancels⟩ := cancels
    have hears : (Reply.hear e u.transcript).book = e.book := Reply.hear_book e u.transcript
    have calms : (Reply.begin (Reply.calm (Reply.hear e u.transcript) u)).book = e.book :=
      (Reply.calm_book _ u).trans hears
    show (answerBook (Reply.onUtterance e u)).ledger = _
    unfold Reply.onUtterance
    rw [if_neg (by simp [active, clear])]
    dsimp only
    rw [if_neg (by simp [decent]), cancels]
    dsimp only
    rw [answerBook_finish]
    show (Reply.cancelFlow _ _).book.ledger = _
    rw [Reply.cancelFlow_book, calms]
    rfl
  | _ => exact absurd cancels id

/-- A run that is given up is gone. -/
theorem Op.drops_gone (numbered : e.state.toLedger.Numbered) (current : e.state.run = some run)
    (drops : op.drops e) : (op.leaves e).Gone run.serial := by
  rcases Bool.or_eq_true _ _ ▸ drops with replaced | cancelled
  · obtain ⟨⟨p, aside⟩, starts, goes⟩ := (Option.any_eq_true _ _).mp replaced
    obtain rfl : aside = false := by simpa using goes
    have done := happens e op
    generalize op.leaves e = l' at done ⊢
    generalize op.orders e = orders at done
    cases done with
    | sets customer phone setting => cases op <;> cases setting <;> cases starts
    | acts opens acts =>
      obtain ⟨m, path, closes⟩ := acts
      rw [starts] at opens
      cases opens with
      | starts moved =>
        cases moved with
        | run _ moved => cases moved
        | start =>
          have gone := path.preserves (P := fun m => m.Gone run.serial)
            (fun _ _ _ _ moved gone => moved.gone gone) (numbered.dropped current)
          exact closes.gone gone
  · rw [cancel_leaves (of_decide_eq_true cancelled)]
    refine ⟨?_, by simp [Ledger.openRuns]⟩
    show run.serial < (e.state.toLedger.recorded "cancelled" none).runsStarted
    rw [show (e.state.toLedger.recorded "cancelled" none).runsStarted = e.state.runsStarted from
      Ledger.finished_runsStarted _ _ _]
    exact (numbered.current current).2.2

theorem Op.keeps_numbered (e : Engine b) (op : Op) (numbered : e.state.toLedger.Numbered) :
    (op.leaves e).Numbered :=
  Op.apply_preserves numbered (fun _ _ => ⟨numbered.distinct, numbered.below⟩)
    (fun _ _ _ _ moved => moved.numbered numbered) (fun _ _ _ _ moved numbered => moved.numbered numbered)
    fun _ _ _ closes numbered => closes.numbered numbered

theorem Op.keeps_gone {serial : Nat} (op : Op) (gone : e.state.toLedger.Gone serial) :
    (op.leaves e).Gone serial :=
  Op.apply_preserves gone (fun _ _ => ⟨gone.before, gone.gone⟩)
    (fun _ _ _ _ moved => moved.gone gone) (fun _ _ _ _ moved gone => moved.gone gone)
    fun _ _ _ closes gone => closes.gone gone

/-- Where request `n` is under way, the operation waits, its failure is tried again, or the run is given
up. -/
def requestsOnce (n : Nat) (ev : CallEvent b) : Bool :=
  ev.before.state.run.all fun run =>
    run.step != .executing n || ev.input.waits ev.before run || ev.input.retries run b ||
      ev.input.drops ev.before

/-- The run of a request waits for it, or is gone. -/
structure Requested (l : Ledger) (n serial : Nat) (pipeline : String) : Prop where
  numbered : l.Numbered
  pending : l.WaitsFor n serial pipeline ∨ l.Gone serial

/-- The requests an operation makes for a run. -/
def RequestedFor (serial : Nat) (ev : CallEvent b) (n : Nat) : Prop :=
  n ∈ requests (ev.output.filter Directive.isOrder) ∧
    ev.after.state.run.any fun run => run.serial == serial

theorem Op.keeps_requested {serial : Nat} {pipeline : String}
    (requested : Requested e.state.toLedger n serial pipeline)
    (once : requestsOnce n (event Op.apply e op)) :
    Requested (op.leaves e) n serial pipeline ∧
      ∀ m, RequestedFor serial (event Op.apply e op) m → m = n := by
  have numbered := op.keeps_numbered e requested.numbered
  have none_for (gone : (op.leaves e).Gone serial) (m : Nat) :
      ¬RequestedFor serial (event Op.apply e op) m := by
    rintro ⟨-, here⟩
    obtain ⟨run', current, same⟩ := (Option.any_eq_true _ _).mp here
    refine gone.gone (List.mem_map.mpr ⟨run', ?_, eq_of_beq same⟩)
    rw [Ledger.openRuns_of_run (l := op.leaves e) current]
    exact List.mem_append_right _ List.mem_cons_self
  rcases requested.pending with ⟨run, current, waits, rfl, rfl⟩ | gone
  · have goes : op.waits e run ∨ op.retries run b ∨ op.drops e := by
      simpa [requestsOnce, current, waits, or_assoc] using once
    rcases goes with still | again | drops
    · have waiting := Op.waits_keeps current (by rw [waits]; rfl) still
      obtain ⟨run', here, same⟩ := waiting.run
      refine ⟨⟨numbered, .inl ⟨run', here, (same.step (by rw [waits]; rfl)).trans waits, same.serial,
        same.pipeline⟩⟩, fun m sent => ?_⟩
      obtain ⟨d, listed, named⟩ := List.mem_filterMap.mp sent.1
      exact absurd named (by simp [waiting.orders d listed])
    · obtain ⟨left, given⟩ := Op.retries_keeps current waits again
      refine ⟨⟨numbered, .inl ?_⟩, fun m sent => ?_⟩
      · rw [left]
        exact ⟨_, rfl, waits, rfl, rfl⟩
      · have sent : m ∈ requests (op.orders e) := sent.1
        rw [given] at sent
        exact List.mem_singleton.mp sent
    · have gone := Op.drops_gone requested.numbered current drops
      exact ⟨⟨numbered, .inr gone⟩, fun m sent => absurd sent (none_for gone m)⟩
  · have gone := op.keeps_gone gone
    exact ⟨⟨numbered, .inr gone⟩, fun m sent => absurd sent (none_for gone m)⟩

/-- **No second request**, while no operation moves on the task whose request is under way. -/
theorem no_second_request (b : Business) (seed : UInt64) (ops : List Op) (op : Op) (n : Nat)
    (later : List Op) (sent : n ∈ requests (op.orders (Call.final b seed ops)))
    (once : ∀ ev ∈ Runs.events Op.apply (Call.final b seed (ops ++ [op])) later, requestsOnce n ev) :
    ∃ run, (Call.final b seed (ops ++ [op])).state.run = some run ∧ run.step = .executing n ∧
      ∀ ev ∈ Runs.events Op.apply (Call.final b seed (ops ++ [op])) later,
        ∀ m, RequestedFor run.serial ev m → m = n := by
  have after : (Call.final b seed (ops ++ [op])).state.toLedger =
      op.leaves (Call.final b seed ops) := by
    unfold Call.final
    rw [final_append]
    rfl
  have numbered : (Call.final b seed (ops ++ [op])).state.toLedger.Numbered :=
    invariant_final (P := fun e : Engine b => e.state.toLedger.Numbered) (C := fun _ => True)
      Ledger.new_numbered (fun e op numbered _ => op.keeps_numbered e numbered) fun _ _ => trivial
  obtain ⟨run, current, waits⟩ := Op.request sent
  rw [← after] at current
  refine ⟨run, current, waits, fun ev listed => ?_⟩
  obtain ⟨requested, here, same⟩ := invariant_at
    (P := fun e : Engine b => Requested e.state.toLedger n run.serial run.pipeline)
    (C := fun ev => requestsOnce n ev) ⟨numbered, .inl ⟨run, current, waits, rfl, rfl⟩⟩
    (fun _ _ requested here => (Op.keeps_requested requested here).1) once ev listed
  rw [same] at here ⊢
  exact (Op.keeps_requested requested here).2

end Requests

section Sample

open Sample

/-- The ride is booked, whatever is said between. -/
theorem result_recorded_silence :
    ∃ run, (Call.final rides 7 rideRequested).state.run = some run ∧ run.step = .executing 1 ∧
      ∃ c ∈ (Call.final rides 7 (rideRequested ++ [.silence, agrees] ++
        [.actionResult 1 (.ok .null)])).state.completed,
        c.serial = run.serial ∧ c.pipeline = run.pipeline ∧ c.outcome = "success" ∧
          c.result = some .null :=
  result_recorded rides 7 [.start, asks "a ride for two" "ride" [number "seats" 2]] agrees 1
    [.silence, agrees] .null (by decide +kernel) (by decide +kernel)

/-- A cancellation while the request is under way loses its result. -/
theorem cancel_losesResult : rides.Validated ∧
    1 ∈ requests (agrees.orders (Call.final rides 7
      [.start, asks "a ride for two" "ride" [number "seats" 2]])) ∧
    ¬(Call.final rides 7 (rideRequested ++ [turns "cancel" .cancelCurrentFlow,
      .actionResult 1 (.ok .null)])).state.completed.any fun c => c.outcome == "success" :=
  ⟨rides_validated, by decide +kernel⟩

theorem no_second_request_failure :
    ∃ run, (Call.final rides 7 rideRequested).state.run = some run ∧ run.step = .executing 1 ∧
      ∀ ev ∈ Runs.events Op.apply (Call.final rides 7 rideRequested)
        [.silence, .actionResult 1 (.error ⟨"busy", false⟩), agrees],
        ∀ m, RequestedFor run.serial ev m → m = 1 :=
  no_second_request rides 7 [.start, asks "a ride for two" "ride" [number "seats" 2]] agrees 1
    [.silence, .actionResult 1 (.error ⟨"busy", false⟩), agrees] (by decide +kernel)
    (by decide +kernel)

/-- A question answered on the way requests the ride a second time. -/
theorem faq_sendsAgain : rides.Validated ∧
    requests (agrees.orders (Call.final rides 7
      [.start, asks "a ride for two" "ride" [number "seats" 2]])) = [1] ∧
    requests ((asks "opening hours" "hours" []).orders (Call.final rides 7 rideRequested)) = [2] ∧
    (Call.final rides 7 rideRequested).state.run.map PipelineRun.serial =
      (Call.final rides 7 (rideRequested ++ [asks "opening hours" "hours" []])).state.run.map
        PipelineRun.serial :=
  ⟨rides_validated, by decide +kernel⟩

end Sample

end Callora
