/-
**A request that may have been carried out.**

An attempt may fail so that nobody knows whether it was carried out. `unknown_neverFailed`: such a
request is recorded as unknown, its card is to be verified, and its failure is never said, while

* no known failure uses up its attempts (`keepsDoubt`): the code looks at the last attempt only
  (`laterFailure_said`);
* nothing moves the task on, cancels or drops it before its last result.

`Ledger.failuresSaid` only grows by runs that are over at once, but for the result of a request
(`Op.said_gone`).
-/
import Callora.Calls.Gate
import Callora.Engine.Orders

set_option linter.unusedSectionVars false

namespace Callora

open Callora.Text Runs

section Said

variable {b : Business} [Unicode] {l l' : Ledger} {r : PipelineRun} {orders : List Directive} {s : Nat}

/-- A run that is over, and whose failure was not said. -/
structure Ledger.Unsaid (l : Ledger) (s : Nat) : Prop where
  gone : l.Gone s
  unsaid : s ∉ l.failuresSaid

/-- The current run is not one that is over. -/
theorem Ledger.Gone.other (gone : l.Gone s) (current : l.run = some r) : s ≠ r.serial := by
  rintro rfl
  exact gone.gone (List.mem_map_of_mem (Ledger.mem_openRuns current))

theorem Ledger.finished_gone (gone : l.Gone s) (outcome : String) (result : Option Json) :
    (l.finished outcome result).Gone s := by
  refine ⟨by rw [Ledger.finished_runsStarted]; exact gone.before, fun listed => gone.gone ?_⟩
  rw [Ledger.finished_openRuns] at listed
  obtain ⟨q, waits, rfl⟩ := List.mem_map.mp listed
  exact List.mem_map_of_mem (List.mem_append_left _ waits)

/-- A run that is recorded is over. -/
theorem Ledger.Numbered.finished (numbered : l.Numbered) (current : l.run = some r) (outcome : String)
    (result : Option Json) : (l.finished outcome result).Gone r.serial := by
  obtain ⟨alone, -, before⟩ := numbered.current current
  refine ⟨by rw [Ledger.finished_runsStarted]; exact before, ?_⟩
  rw [Ledger.finished_openRuns]
  exact alone

theorem Ledger.finished_failuresSaid (l : Ledger) (outcome : String) (result : Option Json) :
    (l.finished outcome result).failuresSaid = l.failuresSaid := by
  show (l.recorded outcome result).failuresSaid = _
  unfold Ledger.recorded
  split <;> rfl

theorem Advances.gone (goes : Advances b l l' orders) (gone : l.Gone s) : l'.Gone s :=
  (Closes.advances goes).gone gone

/-- `advance` says no failure of a run that is over. -/
theorem Advances.unsaid (goes : Advances b l l' orders) (unsaid : l.Unsaid s) : l'.Unsaid s := by
  refine ⟨goes.gone unsaid.gone, ?_⟩
  induction goes with
  | idle => exact unsaid.unsaid
  | pauses => exact unsaid.unsaid
  | sends => exact unsaid.unsaid
  | completes current filled ready goes ih =>
    rename_i l l' r slots orders
    have moved : ({ l with run := some { r with slots := slots } } : Ledger).Gone s :=
      (Move.run (b := b) current (.fill filled)).gone unsaid.gone
    exact ih ⟨Ledger.finished_gone moved _ _, by
      rw [Ledger.finished_failuresSaid]
      exact unsaid.unsaid⟩
  | fails current filled ready spoken goes ih =>
    rename_i l l' r slots action said result orders
    have moved : ({ l with run := some { r with slots := slots } } : Ledger).Gone s :=
      (Move.run (b := b) current (.fill filled)).gone unsaid.gone
    have moved' : ({ l with
        nextActionRun := l.nextActionRun + 1
        failuresSaid := said
        run := some { r with slots := slots } } : Ledger).Gone s := ⟨moved.before, moved.gone⟩
    refine ih ⟨Ledger.finished_gone moved' _ _, ?_⟩
    rw [Ledger.finished_failuresSaid]
    rcases spoken with rfl | rfl
    · exact unsaid.unsaid
    · intro listed
      rcases List.mem_append.mp listed with before | now
      · exact unsaid.unsaid before
      · exact unsaid.gone.other current (List.mem_singleton.mp now)

theorem Closes.unsaid (closes : Closes b l l' orders) (unsaid : l.Unsaid s) : l'.Unsaid s := by
  refine ⟨closes.gone unsaid.gone, ?_⟩
  induction closes with
  | advances goes => exact (goes.unsaid unsaid).unsaid
  | finishes outcome result current goes =>
    refine (goes.unsaid ⟨Ledger.finished_gone unsaid.gone _ _, ?_⟩).unsaid
    rw [Ledger.finished_failuresSaid]
    exact unsaid.unsaid
  | finishesCall result current =>
    show s ∉ (Ledger.finished _ "success" result).failuresSaid
    rw [Ledger.finished_failuresSaid]
    exact unsaid.unsaid
  | givesUp summary result current =>
    rw [Ledger.recorded_of_run current]
    exact unsaid.unsaid
  | forced _ _ ih => exact ih
  | _ => exact unsaid.unsaid

theorem Move.unsaid {label : Label} (moved : Move b label l l') (unsaid : l.Unsaid s) : l'.Unsaid s := by
  refine ⟨moved.gone unsaid.gone, ?_⟩
  cases moved with
  | cancel =>
    show s ∉ (l.recorded "cancelled" none).failuresSaid
    unfold Ledger.recorded
    split <;> exact unsaid.unsaid
  | sayFailure current =>
    intro listed
    rcases List.mem_append.mp listed with before | now
    · exact unsaid.unsaid before
    · exact unsaid.gone.other current (List.mem_singleton.mp now)
  | _ => exact unsaid.unsaid

/-- **No failure is said of a run that is over.** -/
theorem Op.keeps_unsaid {e : Engine b} (op : Op) (unsaid : e.state.toLedger.Unsaid s) :
    (op.leaves e).Unsaid s :=
  Op.apply_preserves unsaid (fun _ _ => ⟨⟨unsaid.gone.before, unsaid.gone.gone⟩, unsaid.unsaid⟩)
    (fun _ _ _ _ moved => moved.unsaid unsaid) (fun _ _ _ _ moved unsaid => moved.unsaid unsaid)
    fun _ _ _ closes unsaid => closes.unsaid unsaid

/-- The runs whose failure is said were said before, or are over. -/
structure Ledger.SaidGone (said : List Nat) (l : Ledger) : Prop where
  numbered : l.Numbered
  gone : ∀ s ∈ l.failuresSaid, s ∈ said ∨ l.Gone s

variable {said : List Nat}

theorem Advances.saidGone (goes : Advances b l l' orders) (before : l.SaidGone said) :
    l'.SaidGone said := by
  refine ⟨(Closes.advances goes).numbered before.numbered, ?_⟩
  induction goes with
  | idle => exact before.gone
  | pauses current filled =>
    exact fun s listed => (before.gone s listed).imp_right fun gone =>
      (Advances.pauses current filled ‹_› ‹_›).gone gone
  | sends current filled ready =>
    exact fun s listed => (before.gone s listed).imp_right fun gone =>
      (Advances.sends current filled ready).gone gone
  | completes current filled ready goes ih =>
    rename_i l l' r slots orders
    have moved : ({ l with run := some { r with slots := slots } } : Ledger).SaidGone said :=
      ⟨(Move.run (b := b) current (.fill filled)).numbered before.numbered, fun s listed =>
        (before.gone s listed).imp_right (Move.run (b := b) current (.fill filled)).gone⟩
    refine ih ⟨moved.numbered.of_perm (Ledger.finished_serials rfl _ _)
      (Ledger.finished_runsStarted _ _ _), fun s listed => ?_⟩
    rw [Ledger.finished_failuresSaid] at listed
    exact (moved.gone s listed).imp_right fun gone => Ledger.finished_gone gone _ _
  | fails current filled ready spoken goes ih =>
    rename_i l l' r slots action noted result orders
    have numbered : ({ l with run := some { r with slots := slots } } : Ledger).Numbered :=
      (Move.run (b := b) current (.fill filled)).numbered before.numbered
    have moved : ∀ s, l.Gone s → ({ l with run := some { r with slots := slots } } : Ledger).Gone s :=
      fun s => (Move.run (b := b) current (.fill filled)).gone
    generalize middle : ({ l with
      nextActionRun := l.nextActionRun + 1
      failuresSaid := noted
      run := some { r with slots := slots } } : Ledger) = m at ih
    have here : m.run = some { r with slots := slots } := by rw [← middle]
    have numbered' : m.Numbered := by
      rw [← middle]
      exact ⟨numbered.distinct, numbered.below⟩
    refine ih ⟨numbered'.of_perm (Ledger.finished_serials here _ _)
      (Ledger.finished_runsStarted _ _ _), fun s listed => ?_⟩
    rw [Ledger.finished_failuresSaid] at listed
    have listed : s ∈ l.failuresSaid ∨ s = r.serial := by
      rw [← middle] at listed
      rcases spoken with rfl | rfl
      · exact .inl listed
      · exact (List.mem_append.mp listed).imp_right List.mem_singleton.mp
    rcases listed with old | rfl
    · refine (before.gone s old).imp_right fun gone => Ledger.finished_gone ?_ _ _
      rw [← middle]
      exact ⟨(moved s gone).before, (moved s gone).gone⟩
    · exact .inr (numbered'.finished here _ _)

theorem Closes.saidGone (closes : Closes b l l' orders) (before : l.SaidGone said) :
    l'.SaidGone said := by
  refine ⟨closes.numbered before.numbered, ?_⟩
  induction closes with
  | advances goes => exact (goes.saidGone before).gone
  | retries current waits left =>
    exact fun s listed => (before.gone s listed).imp_right fun gone =>
      (Closes.retries current waits left).gone gone
  | finishes outcome result current goes =>
    refine (goes.saidGone ⟨before.numbered.of_perm (Ledger.finished_serials current _ _)
      (Ledger.finished_runsStarted _ _ _), fun s listed => ?_⟩).gone
    rw [Ledger.finished_failuresSaid] at listed
    exact (before.gone s listed).imp_right fun gone => Ledger.finished_gone gone _ _
  | finishesCall result current last ends =>
    intro s listed
    have listed : s ∈ (Ledger.finished _ "success" result).failuresSaid := listed
    rw [Ledger.finished_failuresSaid] at listed
    exact (before.gone s listed).imp_right fun gone =>
      (Closes.finishesCall (b := b) result current last ends).gone gone
  | givesUp summary result current =>
    intro s listed
    refine (before.gone s ?_).imp_right fun gone =>
      (Closes.givesUp (b := b) summary result current).gone gone
    rw [Ledger.recorded_of_run current] at listed
    exact listed
  | forced _ _ ih =>
    exact fun s listed => (ih s listed).imp_right fun gone => ⟨gone.before, gone.gone⟩
  | rests => exact before.gone
  | hangsUp => exact fun s listed => (before.gone s listed).imp_right fun gone => ⟨gone.before, gone.gone⟩
  | handsOff =>
    exact fun s listed => (before.gone s listed).imp_right fun gone => ⟨gone.before, gone.gone⟩

theorem Move.saidGone {label : Label} (moved : Move b label l l') (quiet : label ≠ .sayFailure)
    (before : l.SaidGone said) : l'.SaidGone said := by
  refine ⟨moved.numbered before.numbered, fun s listed => ?_⟩
  have old : s ∈ l.failuresSaid := by
    cases moved with
    | cancel =>
      have listed : s ∈ (l.recorded "cancelled" none).failuresSaid := listed
      unfold Ledger.recorded at listed
      split at listed <;> exact listed
    | sayFailure => exact absurd rfl quiet
    | _ => exact listed
  exact (before.gone s old).imp_right moved.gone

/-- **Only a result says the failure of a run that goes on.** -/
theorem Op.said_gone {e : Engine b} {op : Op} (own : op.isResult = false)
    (numbered : e.state.toLedger.Numbered) : ∀ s ∈ (op.leaves e).failuresSaid,
      s ∈ e.state.failuresSaid ∨ (op.leaves e).Gone s :=
  (Op.apply_preserves (P := fun l => l.SaidGone e.state.failuresSaid)
    ⟨numbered, fun _ listed => .inl listed⟩
    (fun _ _ => ⟨⟨numbered.distinct, numbered.below⟩, fun _ listed => .inl listed⟩)
    (fun _ _ _ _ moved => moved.saidGone (by simp) ⟨numbered, fun _ listed => .inl listed⟩)
    (fun label _ _ may moved before => moved.saidGone (by
      rintro rfl
      rw [Op.allows, own] at may
      cases may) before)
    fun _ _ _ closes before => closes.saidGone before).gone

end Said

section Acting

variable {b : Business} [Unicode] {l l' : Ledger} {r : PipelineRun} {orders : List Directive}

/-- The task of a run under way is one of the business. -/
def Ledger.Acting (b : Business) (l : Ledger) : Prop :=
  ∀ r ∈ l.openRuns, r.step.isExecuting → (b.pipeline r.pipeline).isSome

theorem pipeline_of_action {action : String} (named : (b.pipelineOf r).action = some action) :
    (b.pipeline r.pipeline).isSome := by
  unfold Business.pipelineOf at named
  cases known : b.pipeline r.pipeline with
  | some pipeline => rfl
  | none =>
    rw [known] at named
    cases named

/-- The current run moves on, as a task of the business if it is under way. -/
theorem Ledger.Acting.of_run {r' : PipelineRun} (acting : l.Acting b)
    (opened : l'.openRuns = l.suspended ++ [r'])
    (known : r'.step.isExecuting → (b.pipeline r'.pipeline).isSome) : l'.Acting b := by
  intro q listed executing
  rw [opened] at listed
  rcases List.mem_append.mp listed with waits | here
  · exact acting q (List.mem_append_left _ waits) executing
  · obtain rfl : q = r' := List.mem_singleton.mp here
    exact known executing

theorem Ledger.Acting.of_subset (acting : l.Acting b) (fewer : ∀ r ∈ l'.openRuns, r ∈ l.openRuns) :
    l'.Acting b :=
  fun r listed => acting r (fewer r listed)

theorem Ledger.Acting.finished (acting : l.Acting b) (outcome : String) (result : Option Json) :
    (l.finished outcome result).Acting b :=
  acting.of_subset fun q listed => by
    rw [Ledger.finished_openRuns] at listed
    exact List.mem_append_left _ listed

theorem Advances.acting (goes : Advances b l l' orders) (acting : l.Acting b) : l'.Acting b := by
  induction goes with
  | idle => exact acting
  | pauses current filled waits =>
    exact acting.of_run rfl fun executing => absurd executing (by simp [waits])
  | sends current filled ready =>
    exact acting.of_run rfl fun _ => pipeline_of_action (Gate.of_ready ready).1
  | completes _ _ _ _ ih =>
    refine ih fun q listed => ?_
    rw [Ledger.finished_openRuns] at listed
    exact acting q (List.mem_append_left _ listed)
  | fails _ _ _ _ _ ih =>
    refine ih fun q listed => ?_
    rw [Ledger.finished_openRuns] at listed
    exact acting q (List.mem_append_left _ listed)

theorem Closes.acting (closes : Closes b l l' orders) (acting : l.Acting b) : l'.Acting b := by
  induction closes with
  | rests => exact acting
  | advances goes => exact goes.acting acting
  | hangsUp => exact acting
  | handsOff => exact acting
  | retries current waits left =>
    rename_i r _
    exact acting.of_run rfl fun executing => acting r (Ledger.mem_openRuns current) executing
  | finishes outcome result current goes => exact goes.acting (acting.finished _ _)
  | finishesCall result current =>
    exact (acting.finished "success" result).of_subset fun _ listed => listed
  | givesUp summary result current =>
    refine acting.of_subset fun q listed => ?_
    rw [Ledger.recorded_of_run current] at listed
    exact List.mem_append_left _ (by simpa [Ledger.openRuns] using listed)
  | forced _ _ ih => exact ih

theorem Move.acting {label : Label} (moved : Move b label l l') (acting : l.Acting b) : l'.Acting b := by
  intro q listed executing
  rcases moved.sources q listed with ⟨before, -⟩ | ⟨-, idle⟩ | ⟨r, current, -, goes⟩
  · exact acting q before executing
  · exact absurd executing (by simp [idle])
  · rw [goes.sameRun.pipeline]
    exact acting r (Ledger.mem_openRuns current) (goes.executing executing)

theorem Op.keeps_acting {e : Engine b} (op : Op) (acting : e.state.toLedger.Acting b) :
    (op.leaves e).Acting b :=
  Op.apply_preserves acting (fun _ _ => acting) (fun _ _ _ _ moved => moved.acting acting)
    (fun _ _ _ _ moved acting => moved.acting acting) fun _ _ _ closes acting => closes.acting acting

end Acting

section Results

variable {b : Business} [Unicode] {e : Engine b} {l l' : Ledger} {run : PipelineRun} {n : Nat}

/-- A run is over, with this outcome; other runs go on. -/
structure Ends (l : Ledger) (run : PipelineRun) (outcome : String) (l' : Ledger) : Prop where
  record : ∃ result, run.record outcome result ∈ l'.completed
  gone : l'.Gone run.serial
  unsaid : run.serial ∉ l.failuresSaid → run.serial ∉ l'.failuresSaid
  said : ∀ s ∈ l'.failuresSaid, s ∈ l.failuresSaid ∨ l'.Gone s

/-- The run suspended last advances once the current one is recorded. -/
theorem Ends.of_advances {outcome : String} {result : Option Json} {phase : Phase}
    {orders : List Directive} (numbered : l.Numbered) (current : l.run = some run)
    (goes : Advances b { l.finished outcome result with phase := phase } l' orders) :
    Ends l run outcome l' := by
  have gone : ({ l.finished outcome result with phase := phase } : Ledger).Gone run.serial :=
    ⟨(numbered.finished current outcome result).before, (numbered.finished current outcome result).gone⟩
  have said : ({ l.finished outcome result with phase := phase } : Ledger).failuresSaid =
    l.failuresSaid :=
    Ledger.finished_failuresSaid l outcome result
  have finished : (l.finished outcome result).Numbered :=
    numbered.of_perm (Ledger.finished_serials current _ _) (Ledger.finished_runsStarted _ _ _)
  refine ⟨⟨result, goes.completed _ ?_⟩, goes.gone gone, fun unsaid => (goes.unsaid ⟨gone, ?_⟩).unsaid,
    (goes.saidGone ⟨⟨finished.distinct, finished.below⟩, fun s listed => .inl ?_⟩).gone⟩
  · show _ ∈ (l.recorded outcome result).completed
    rw [Ledger.recorded_completed current]
    exact List.mem_append_right _ List.mem_cons_self
  · rw [said]
    exact unsaid
  · rw [said] at listed
    exact listed

theorem Ends.of_finishRun {r : Reply b} (numbered : r.book.ledger.Numbered)
    (current : r.book.ledger.run = some run) (outcome : String) (result : Option Json) :
    Ends r.book.ledger run outcome (r.finishRun outcome result).book.ledger := by
  obtain ⟨phase, orders, goes⟩ := Reply.finishRun_advances current outcome result
  exact .of_advances numbered current goes

/-- A result for no run under way changes nothing. -/
theorem Op.result_other (result : Except ActionFailure Json)
    (other : ∀ run, e.state.run = some run → run.step ≠ .executing n) :
    (Op.actionResult n result).leaves e = e.state.toLedger := by
  show (Reply.onActionResult e n result).2.state.toLedger = _
  unfold Reply.onActionResult
  cases current : e.state.run with
  | none => rfl
  | some run =>
    dsimp only
    rw [if_pos (other run current)]

/-- A value ends the run that waits for it. -/
theorem Op.success_ends (numbered : e.state.toLedger.Numbered) (current : e.state.run = some run)
    (waits : run.step = .executing n) (value : Json) :
    Ends e.state.toLedger run "success" ((Op.actionResult n (.ok value)).leaves e) := by
  show Ends _ _ _ (answerBook (Reply.onActionResult e n (.ok value))).ledger
  unfold Reply.onActionResult
  rw [current]
  dsimp only
  rw [if_neg (not_not.mpr waits), answerBook_finish]
  have said := Reply.saySuccess_book (Reply.begin e) (b.pipelineOf run) value
  have ends := Ends.of_finishRun (r := (Reply.begin e).saySuccess (b.pipelineOf run) value)
    (by rw [said]; exact numbered) (by rw [said]; exact current) "success" (some value)
  rw [said] at ends
  exact ends

variable {failure : ActionFailure}

/-- **The attempts used up with the outcome unknown** end the run so, with a desk and without one. -/
theorem Op.unknown_ends (numbered : e.state.toLedger.Numbered) (current : e.state.run = some run)
    (waits : run.step = .executing n) (used : Reply.maxAttempts b (b.pipelineOf run) ≤ run.attempts)
    (unknown : failure.outcomeUnknown) :
    Ends e.state.toLedger run "unknown" ((Op.actionResult n (.error failure)).leaves e) := by
  show Ends _ _ _ (answerBook (Reply.onActionResult e n (.error failure))).ledger
  unfold Reply.onActionResult
  rw [current]
  dsimp only
  rw [if_neg (not_not.mpr waits), if_neg (Nat.not_lt.mpr used), if_pos unknown, answerBook_finish]
  unfold Reply.outcomeUnknown
  dsimp only
  split
  · rename_i desk
    have said := Reply.sayOptional_book (Reply.begin e) (b.pipelineOf run).onUnknown true
    have reached : ((Reply.begin e).sayOptional (b.pipelineOf run).onUnknown true).engine.hasDesk := by
      have same : ((Reply.begin e).sayOptional (b.pipelineOf run).onUnknown true).engine.desk =
          e.desk := congrArg Book.desk said
      unfold Engine.hasDesk at desk ⊢
      rw [same]
      exact desk
    obtain ⟨summary, book⟩ := Reply.handoff_book reached "action_outcome_unknown"
    rw [Reply.recordRun_book, book, said]
    obtain ⟨alone, -, before⟩ := numbered.current current
    have here : ({ e.state.toLedger with phase := .handingOff } : Ledger).run = some run := current
    show Ends _ _ _ (Ledger.recorded { e.state.toLedger with phase := .handingOff } _ _)
    rw [Ledger.recorded_of_run here]
    refine ⟨⟨_, List.mem_append_right _ List.mem_cons_self⟩, ⟨before, ?_⟩, id,
      fun s listed => .inl listed⟩
    simpa [Ledger.openRuns] using alone
  · exact Ends.of_finishRun (r := Reply.begin e) numbered current _ _

theorem handoff_failed (r : Reply b) : ∃ phase, phase ≠ .active ∧
    (r.handoff "action_failed").book.ledger = { r.book.ledger with phase := phase } := by
  by_cases desk : r.engine.hasDesk
  · obtain ⟨summary, book⟩ := Reply.handoff_book desk "action_failed"
    exact ⟨.handingOff, by decide, by rw [book]⟩
  · refine ⟨.ending, by decide, ?_⟩
    have restart : (b.config.fallback.restart.filter fun _ =>
        "action_failed" == "not_understood" && r.engine.state.fallbackRestarts == 0) = none := by
      simp
    unfold Reply.handoff
    dsimp only
    rw [if_neg desk, restart]
    dsimp only
    rw [if_pos (by decide), Reply.ends_book, Reply.sayNow_book]

/-- **A known failure that uses up the attempts** ends the run, or the call with the run still open. -/
theorem Op.failure_ends (numbered : e.state.toLedger.Numbered) (current : e.state.run = some run)
    (waits : run.step = .executing n) (used : Reply.maxAttempts b (b.pipelineOf run) ≤ run.attempts)
    (known : failure.outcomeUnknown = false) :
    (∀ s ∈ ((Op.actionResult n (.error failure)).leaves e).failuresSaid,
      s ∈ e.state.failuresSaid ∨ s = run.serial ∨
      ((Op.actionResult n (.error failure)).leaves e).Gone s) ∧
    (((Op.actionResult n (.error failure)).leaves e).Gone run.serial ∨
      ((Op.actionResult n (.error failure)).leaves e).run = some run ∧
        ((Op.actionResult n (.error failure)).leaves e).phase ≠ .active) := by
  show (∀ s ∈ (answerBook (Reply.onActionResult e n (.error failure))).ledger.failuresSaid, _ ∨ _ ∨
    (answerBook (Reply.onActionResult e n (.error failure))).ledger.Gone s) ∧
    ((answerBook (Reply.onActionResult e n (.error failure))).ledger.Gone run.serial ∨
      (answerBook (Reply.onActionResult e n (.error failure))).ledger.run = _ ∧
        (answerBook (Reply.onActionResult e n (.error failure))).ledger.phase ≠ _)
  unfold Reply.onActionResult
  rw [current]
  dsimp only
  rw [if_neg (not_not.mpr waits), if_neg (Nat.not_lt.mpr used), known, if_neg Bool.false_ne_true,
    answerBook_finish]
  unfold Reply.failed
  obtain ⟨failures, failed, counted⟩ : ∃ failures failed,
      ((Reply.begin e).mapEngine fun e => Reply.countFailure e
        ((b.pipelineOf run).action.getD "") n).book =
        { e.book with ledger := { e.state.toLedger with
          actionFailures := failures
          failedActions := failed } } := by
    rw [Reply.mapEngine_book]
    unfold Reply.countFailure
    split
    · exact ⟨e.state.actionFailures + 1, e.state.failedActions, rfl⟩
    · exact ⟨e.state.actionFailures, _, rfl⟩
  generalize ((Reply.begin e).mapEngine fun e =>
    Reply.countFailure e ((b.pipelineOf run).action.getD "") n) = r at counted ⊢
  obtain ⟨noted, which, said⟩ := Reply.sayFailure_book (r := r) (by rw [counted]; exact current)
    (b.pipelineOf run)
  rw [counted] at which said
  generalize r.sayFailure (b.pipelineOf run) = r' at said ⊢
  have here : r'.book.ledger.run = some run := by rw [said]; exact current
  have numbered' : r'.book.ledger.Numbered := by rw [said]; exact ⟨numbered.distinct, numbered.below⟩
  have listed : ∀ s ∈ r'.book.ledger.failuresSaid, s ∈ e.state.failuresSaid ∨ s = run.serial := by
    rw [said]
    intro s listed
    rcases which with rfl | rfl
    · exact .inl listed
    · exact (List.mem_append.mp listed).imp_right List.mem_singleton.mp
  dsimp only
  split
  · obtain ⟨phase, over', left⟩ := handoff_failed r'
    rw [left]
    refine ⟨fun s mem => ?_, .inr ⟨here, over'⟩⟩
    exact (listed s mem).imp_right .inl
  · have ends := Ends.of_finishRun numbered' here "failed" (some (.obj [("error", .str failure.error)]))
    refine ⟨fun s mem => ?_, .inl ends.gone⟩
    rcases ends.said s mem with old | gone
    · exact (listed s old).imp_right .inl
    · exact .inr (.inr gone)

end Results

section Doubts

variable {b : Business} [Unicode] {e : Engine b} {op : Op} {run : PipelineRun} {n s : Nat}
  {pre : List (CallEvent b)} {ev : CallEvent b}

/-- The failure of request `n`, and the run that waits for it. -/
def failureOf (n : Nat) (ev : CallEvent b) : Option (PipelineRun × ActionFailure) :=
  match ev.input, ev.before.state.run with
  | .actionResult m (.error failure), some run =>
    if m = n ∧ run.step = .executing n then some (run, failure) else none
  | _, _ => none

/-- An attempt of request `n` failed, and may have been carried out. -/
def mayHaveArrived (n : Nat) (ev : CallEvent b) : Bool :=
  (failureOf n ev).any fun (_, failure) => failure.outcomeUnknown

/-- So did one of the request of run `s`. -/
def doubts (n s : Nat) (ev : CallEvent b) : Bool :=
  (failureOf n ev).any fun (run, failure) => failure.outcomeUnknown && run.serial == s

/-- A known failure uses up the attempts of request `n`. -/
def failsKnown (n : Nat) (ev : CallEvent b) : Bool :=
  (failureOf n ev).any fun (run, failure) => !failure.outcomeUnknown &&
    decide (Reply.maxAttempts b (b.pipelineOf run) ≤ run.attempts)

/-- An attempt of request `n` succeeded. -/
def succeeds (n : Nat) (ev : CallEvent b) : Bool :=
  match ev.input, ev.before.state.run with
  | .actionResult m (.ok _), some run => m == n && run.step == .executing n
  | _, _ => false

/-- No known failure uses up the attempts of a request that may have been carried out, and before its last
result nothing moves its task on. -/
def keepsDoubt (pre : List (CallEvent b)) (ev : CallEvent b) : Bool :=
  match ev.before.state.run with
  | none => true
  | some run =>
    match run.step with
    | .executing n =>
      (!pre.any (mayHaveArrived n) ||
        ((ev.input.waits ev.before run || ev.input.isResult) && !failsKnown n ev)) &&
      (!mayHaveArrived n ev || !pre.any (failsKnown n))
    | _ => true

theorem failureOf_eq {failure : ActionFailure} : failureOf n ev = some (run, failure) ↔
    ev.input = .actionResult n (.error failure) ∧ ev.before.state.run = some run ∧
      run.step = .executing n := by
  constructor
  · intro found
    unfold failureOf at found
    split at found
    · rename_i m failure' run' input current
      split at found
      · rename_i here
        obtain ⟨rfl, waits⟩ := here
        obtain ⟨rfl, rfl⟩ := Prod.mk.inj (Option.some.inj found)
        exact ⟨input, current, waits⟩
      · cases found
    · cases found
  · rintro ⟨input, current, waits⟩
    unfold failureOf
    rw [input, current]
    dsimp only
    rw [if_pos ⟨rfl, waits⟩]

theorem keepsDoubt_waits (keeps : keepsDoubt pre ev) (current : ev.before.state.run = some run)
    (waits : run.step = .executing n) (arrived : pre.any (mayHaveArrived n)) :
    (ev.input.waits ev.before run ∨ ev.input.isResult) ∧ failsKnown n ev = false := by
  unfold keepsDoubt at keeps
  rw [current] at keeps
  dsimp only at keeps
  rw [waits] at keeps
  dsimp only at keeps
  rw [arrived] at keeps
  simpa using ((Bool.and_eq_true _ _).mp keeps).1

theorem keepsDoubt_first (keeps : keepsDoubt pre ev) (arrived : mayHaveArrived n ev) :
    pre.any (failsKnown n) = false := by
  obtain ⟨⟨run, failure⟩, found, -⟩ := (Option.any_eq_true _ _).mp arrived
  obtain ⟨-, current, waits⟩ := failureOf_eq.mp found
  unfold keepsDoubt at keeps
  rw [current] at keeps
  dsimp only at keeps
  rw [waits] at keeps
  dsimp only at keeps
  rw [arrived] at keeps
  simpa using ((Bool.and_eq_true _ _).mp keeps).2

/-- The failure of the run was said, and the call is over; it waits for a request of which no attempt is
left. -/
def Ledger.Failed (l : Ledger) (evs : List (CallEvent b)) (s : Nat) : Prop :=
  l.phase ≠ .active ∧ ∃ run n, l.run = some run ∧ run.serial = s ∧ run.step = .executing n ∧
    Reply.maxAttempts b (b.pipelineOf run) ≤ run.attempts ∧ evs.any (failsKnown n)

/-- The run is recorded as unknown, and its failure was not said. -/
structure Ledger.Checked (b : Business) (l : Ledger) (s : Nat) : Prop where
  unsaid : l.Unsaid s
  record : ∃ c ∈ l.completed, c.serial = s ∧ c.outcome = "unknown" ∧ (b.pipeline c.pipeline).isSome

/-- What becomes of a request that may have been carried out. -/
def Settles (evs : List (CallEvent b)) (l : Ledger) (n s : Nat) : Prop :=
  (∃ pipeline, l.WaitsFor n s pipeline) ∨ evs.any (succeeds n) ∨ l.Checked b s

/-- **What the events of a call tell of its ledger.** -/
structure Doubtful (evs : List (CallEvent b)) (l : Ledger) : Prop where
  numbered : l.Numbered
  acting : l.Acting b
  apart : ∀ n, evs.any (mayHaveArrived n) → evs.any (failsKnown n) = false
  said : ∀ s ∈ l.failuresSaid, l.Gone s ∨ l.Failed evs s
  settles : ∀ n s, evs.any (doubts n s) → Settles evs l n s

theorem mayHaveArrived_of_doubts {evs : List (CallEvent b)} (doubted : evs.any (doubts n s)) :
    evs.any (mayHaveArrived n) := by
  obtain ⟨ev, listed, doubted⟩ := List.any_eq_true.mp doubted
  refine List.any_eq_true.mpr ⟨ev, listed, ?_⟩
  obtain ⟨found, here, unknown⟩ := (Option.any_eq_true _ _).mp doubted
  exact (Option.any_eq_true _ _).mpr ⟨found, here, (Bool.and_eq_true _ _ ▸ unknown).1⟩

/-- A run that waits for a request that may have been carried out was not said to have failed. -/
theorem Doubtful.unsaid {l : Ledger} (doubtful : Doubtful pre l) (current : l.run = some run)
    (waits : run.step = .executing n) (known : pre.any (failsKnown n) = false) :
    run.serial ∉ l.failuresSaid := by
  intro listed
  rcases doubtful.said _ listed with gone | ⟨-, run', n', current', -, waits', -, fails⟩
  · exact gone.other current rfl
  · obtain rfl := Option.some.inj (current.symm.trans current')
    obtain rfl := Step.executing.inj (waits.symm.trans waits')
    exact absurd fails (by simp [known])

theorem Op.keeps_completed (op : Op) {c : CompletedRun} (listed : c ∈ e.state.completed) :
    c ∈ (op.leaves e).completed :=
  Op.apply_preserves (P := fun l => c ∈ l.completed) listed (fun _ _ => listed)
    (fun _ _ _ _ moved => moved.completed c listed) (fun _ _ _ _ moved listed => moved.completed c listed)
    fun _ _ _ closes listed => closes.completed c listed

theorem Op.keeps_checked (op : Op) (checked : e.state.toLedger.Checked b s) :
    (op.leaves e).Checked b s := by
  obtain ⟨c, listed, told⟩ := checked.record
  exact ⟨op.keeps_unsaid checked.unsaid, c, op.keeps_completed listed, told⟩

/-- **A failure of a request that may have been carried out**: it is tried again, or recorded as
unknown. -/
theorem Doubtful.failure_settles {failure : ActionFailure} (doubtful : Doubtful pre e.state.toLedger)
    (current : e.state.run = some run) (waits : run.step = .executing n)
    (unsaid : run.serial ∉ e.state.failuresSaid)
    (fine : run.attempts < Reply.maxAttempts b (b.pipelineOf run) ∨ failure.outcomeUnknown)
    (evs : List (CallEvent b)) :
    Settles evs ((Op.actionResult n (.error failure)).leaves e) n run.serial := by
  by_cases left : run.attempts < Reply.maxAttempts b (b.pipelineOf run)
  · have again : (Op.actionResult n (.error failure)).retries run b := by
      simp [Op.retries, waits, left]
    rw [Settles, (Op.retries_keeps current waits again).1]
    exact .inl ⟨run.pipeline, _, rfl, waits, rfl, rfl⟩
  · have unknown := fine.resolve_left left
    have ends := Op.unknown_ends doubtful.numbered current waits (Nat.not_lt.mp left) unknown
    obtain ⟨result, listed⟩ := ends.record
    refine .inr (.inr ⟨⟨ends.gone, ends.unsaid unsaid⟩, _, listed, rfl, rfl, ?_⟩)
    exact doubtful.acting run (Ledger.mem_openRuns current) (by rw [waits]; rfl)

theorem Doubtful.apart_next (doubtful : Doubtful pre e.state.toLedger)
    (keeps : keepsDoubt pre (event Op.apply e op)) (n : Nat)
    (arrived : (pre ++ [event Op.apply e op]).any (mayHaveArrived n)) :
    (pre ++ [event Op.apply e op]).any (failsKnown n) = false := by
  rw [List.any_append, List.any_cons, List.any_nil, Bool.or_false] at arrived ⊢
  cases now : failsKnown n (event Op.apply e op) with
  | false =>
    rw [Bool.or_false]
    rcases (Bool.or_eq_true _ _).mp arrived with before | here
    · exact doubtful.apart n before
    · exact keepsDoubt_first keeps here
  | true =>
    obtain ⟨⟨run, failure⟩, found, known⟩ := (Option.any_eq_true _ _).mp now
    obtain ⟨-, current, waits⟩ := failureOf_eq.mp found
    rcases (Bool.or_eq_true _ _).mp arrived with before | here
    · rw [(keepsDoubt_waits keeps current waits before).2] at now
      cases now
    · unfold mayHaveArrived at here
      rw [found] at here
      simp only [Option.any_some] at here
      simp [here] at known

/-- In a call that is over, everything but a result waits. -/
theorem Op.over_waits (ended : e.state.phase ≠ .active) (own : op.isResult = false) : op.waits e run := by
  have active : (e.state.phase != .active) = true := bne_iff_ne.mpr ended
  cases op with
  | utterance u => simp [Op.waits, Reply.utteranceWaits, active]
  | agentTurn transcript turn spoken =>
    have same : (e.hearForAgent transcript).state.phase = e.state.phase :=
      congrArg (fun B : Book => B.ledger.phase) (Reply.hearForAgent_book e transcript)
    simp [Op.waits, Reply.agentWaits, same, active]
  | forceHandoff reason => simp [Op.waits, active]
  | actionResult => cases own
  | _ => rfl

theorem Ledger.Failed.later {l : Ledger} (failed : l.Failed pre s) : l.Failed (pre ++ [ev]) s := by
  obtain ⟨ended, run, n, current, serial, waits, used, fails⟩ := failed
  exact ⟨ended, run, n, current, serial, waits, used, by rw [List.any_append, fails, Bool.true_or]⟩

/-- A run whose failure was said waits on, whatever is done but a result. -/
theorem Op.keeps_failed (own : op.isResult = false) (failed : e.state.toLedger.Failed pre s) :
    (op.leaves e).Failed (pre ++ [event Op.apply e op]) s := by
  obtain ⟨ended, run, n, current, rfl, waits, used, fails⟩ := failed
  obtain ⟨run', current', same⟩ :=
    (Op.waits_keeps current (by rw [waits]; rfl) (Op.over_waits ended own)).run
  have stays := op.over_stays ended fun runId value here => by
    rw [here] at own
    cases own
  refine ⟨by rw [show (op.leaves e).phase = e.state.phase from stays.phase]; exact ended, run',
    n, current',
    same.serial, (same.step (by rw [waits]; rfl)).trans waits,
    ?_, by rw [List.any_append, fails, Bool.true_or]⟩
  rw [same.attempts, Business.pipelineOf, same.pipeline]
  exact used

/-- A failure said is of a run that is over, or the call is. -/
theorem Doubtful.said_result {result : Except ActionFailure Json}
    (doubtful : Doubtful pre e.state.toLedger)
    (current : e.state.run = some run) (waits : run.step = .executing n) :
    ∀ s ∈ ((Op.actionResult n result).leaves e).failuresSaid,
      ((Op.actionResult n result).leaves e).Gone s ∨
        ((Op.actionResult n result).leaves e).Failed
          (pre ++ [event Op.apply e (.actionResult n result)]) s := by
  intro s listed
  -- A run said to have failed before is over, or it is this one.
  have before (old : s ∈ e.state.failuresSaid) : ((Op.actionResult n result).leaves e).Gone s ∨
      s = run.serial ∧ Reply.maxAttempts b (b.pipelineOf run) ≤ run.attempts := by
    rcases doubtful.said s old with gone | ⟨-, run', n', current', rfl, -, used, -⟩
    · exact .inl (Op.keeps_gone _ gone)
    · obtain rfl := Option.some.inj (current.symm.trans current')
      exact .inr ⟨rfl, used⟩
  cases result with
  | ok value =>
    have ends := Op.success_ends doubtful.numbered current waits value
    rcases ends.said s listed with old | gone
    · rcases before old with gone | ⟨rfl, -⟩
      · exact .inl gone
      · exact .inl ends.gone
    · exact .inl gone
  | error failure =>
    by_cases left : run.attempts < Reply.maxAttempts b (b.pipelineOf run)
    · have again : (Op.actionResult n (.error failure)).retries run b := by simp [Op.retries, waits, left]
      have same := (Op.retries_keeps current waits again).1
      rcases before (by rw [same] at listed; exact listed) with gone | ⟨-, used⟩
      · exact .inl gone
      · exact absurd left (Nat.not_lt.mpr used)
    have used := Nat.not_lt.mp left
    cases unknown : failure.outcomeUnknown with
    | true =>
      have ends := Op.unknown_ends doubtful.numbered current waits used unknown
      rcases ends.said s listed with old | gone
      · rcases before old with gone | ⟨rfl, -⟩
        · exact .inl gone
        · exact .inl ends.gone
      · exact .inl gone
    | false =>
      obtain ⟨said, over'⟩ := Op.failure_ends doubtful.numbered current waits used unknown
      have here (same : s = run.serial) : ((Op.actionResult n (.error failure)).leaves e).Gone s ∨
          ((Op.actionResult n (.error failure)).leaves e).Failed
            (pre ++ [event Op.apply e (.actionResult n (.error failure))]) s := by
        subst same
        refine over'.imp_right fun ⟨still, ended⟩ => ⟨ended, run, n, still, rfl, waits, used, ?_⟩
        have fails : failsKnown n (event Op.apply e (.actionResult n (.error failure))) := by
          unfold failsKnown
          rw [failureOf_eq.mpr ⟨rfl, current, waits⟩]
          simp [unknown, used]
        rw [List.any_append, List.any_cons, fails, Bool.true_or, Bool.or_true]
      rcases said s listed with old | same | gone
      · rcases before old with gone | ⟨same, -⟩
        · exact .inl gone
        · exact here same
      · exact here same
      · exact .inl gone

theorem Doubtful.said_next (doubtful : Doubtful pre e.state.toLedger) :
    ∀ s ∈ (op.leaves e).failuresSaid,
      (op.leaves e).Gone s ∨ (op.leaves e).Failed (pre ++ [event Op.apply e op]) s := by
  intro s listed
  cases own : op.isResult with
  | false =>
    rcases Op.said_gone own doubtful.numbered s listed with old | gone
    · exact (doubtful.said s old).imp op.keeps_gone (Op.keeps_failed own)
    · exact .inl gone
  | true =>
    cases op with
    | actionResult n result =>
      by_cases delivered : ∃ run, e.state.run = some run ∧ run.step = .executing n
      · obtain ⟨run, current, waits⟩ := delivered
        exact doubtful.said_result current waits s listed
      · push Not at delivered
        rw [Op.result_other result delivered] at listed ⊢
        exact (doubtful.said s listed).imp_right .later
    | _ => cases own

/-- The run of a request that may have been carried out, before its last result. -/
theorem Doubtful.settles_waiting {pipeline : String} (doubtful : Doubtful pre e.state.toLedger)
    (keeps : keepsDoubt pre (event Op.apply e op)) (arrived : pre.any (mayHaveArrived n))
    (waiting : e.state.toLedger.WaitsFor n s pipeline) :
    Settles (pre ++ [event Op.apply e op]) (op.leaves e) n s := by
  obtain ⟨run, current, waits, rfl, rfl⟩ := waiting
  have unsaid := doubtful.unsaid current waits (doubtful.apart n arrived)
  obtain ⟨goes, fine⟩ := keepsDoubt_waits keeps current waits arrived
  have still (waiting : op.waits e run) :
    Settles (pre ++ [event Op.apply e op]) (op.leaves e) n run.serial :=
    .inl ⟨run.pipeline, Op.keeps_waitsFor ⟨run, current, waits, rfl, rfl⟩
      (by simp [keepsRequest, current, waiting])⟩
  rcases goes with waiting | own
  · exact still waiting
  · cases op with
    | actionResult m result =>
      by_cases same : m = n
      · subst same
        cases result with
        | ok value =>
          refine .inr (.inl ?_)
          rw [List.any_append]
          simp [succeeds, current, waits]
        | error failure =>
          refine doubtful.failure_settles current waits unsaid ?_ _
          by_contra wrong
          push Not at wrong
          unfold failsKnown at fine
          rw [failureOf_eq.mpr ⟨rfl, current, waits⟩] at fine
          simp [wrong.1, wrong.2] at fine
      · exact still (by simp [Op.waits, waits, Ne.symm same])
    | _ => cases own

theorem Doubtful.settles_next (doubtful : Doubtful pre e.state.toLedger)
    (keeps : keepsDoubt pre (event Op.apply e op)) (n s : Nat)
    (doubted : (pre ++ [event Op.apply e op]).any (doubts n s)) :
    Settles (pre ++ [event Op.apply e op]) (op.leaves e) n s := by
  rw [List.any_append, List.any_cons, List.any_nil, Bool.or_false] at doubted
  rcases (Bool.or_eq_true _ _).mp doubted with before | now
  · rcases doubtful.settles n s before with ⟨pipeline, waiting⟩ | succeeded | checked
    · exact doubtful.settles_waiting keeps (mayHaveArrived_of_doubts before) waiting
    · exact .inr (.inl (by rw [List.any_append, succeeded, Bool.true_or]))
    · exact .inr (.inr (op.keeps_checked checked))
  · obtain ⟨⟨run, failure⟩, found, here⟩ := (Option.any_eq_true _ _).mp now
    obtain ⟨unknown, serial⟩ := Bool.and_eq_true _ _ ▸ here
    obtain rfl : run.serial = s := eq_of_beq serial
    obtain ⟨input, current, waits⟩ := failureOf_eq.mp found
    obtain rfl : op = .actionResult n (.error failure) := input
    refine doubtful.failure_settles current waits (doubtful.unsaid current waits
      (keepsDoubt_first keeps ?_)) (.inr unknown) _
    unfold mayHaveArrived
    rw [found]
    exact unknown

theorem Doubtful.next (doubtful : Doubtful pre e.state.toLedger)
    (keeps : keepsDoubt pre (event Op.apply e op)) :
    Doubtful (pre ++ [event Op.apply e op]) (op.leaves e) :=
  ⟨op.keeps_numbered e doubtful.numbered, op.keeps_acting doubtful.acting, doubtful.apart_next keeps,
    doubtful.said_next, doubtful.settles_next keeps⟩

theorem Ledger.new_doubtful : Doubtful (b := b) [] Ledger.new :=
  ⟨Ledger.new_numbered, fun _ listed => absurd listed List.not_mem_nil, fun _ _ => rfl,
    fun _ listed => absurd listed List.not_mem_nil, fun _ _ doubted => absurd doubted (by simp)⟩

/-- One number, one record. -/
theorem Ledger.Numbered.same {l : Ledger} {c c' : CompletedRun} (numbered : l.Numbered)
    (listed : c ∈ l.completed) (listed' : c' ∈ l.completed) (same : c.serial = c'.serial) : c = c' :=
  List.inj_on_of_nodup_map (List.nodup_append.mp numbered.distinct).1 listed listed' same

/-- **A request that may have been carried out is never called failed**: its run still waits for it, or is
recorded as unknown with a card to verify, and its failure was not said. -/
theorem unknown_neverFailed (b : Business) (seed : UInt64) (ops : List Op)
    (keeps : Along (fun pre ev => keepsDoubt pre ev) (Call.events b seed ops)) (n s : Nat)
    (doubted : (Call.events b seed ops).any (doubts n s))
    (unanswered : (Call.events b seed ops).any (succeeds n) = false) :
    let l := (Call.final b seed ops).state.toLedger
    ((∃ pipeline, l.WaitsFor n s pipeline) ∨ ∃ c ∈ l.completed, c.serial = s) ∧
      (∀ c ∈ l.completed, c.serial = s → c.outcome = "unknown" ∧
        ∃ card ∈ orderCards b l, orderCard b l.callerPhone c = some card ∧ card.isVerify) ∧
      s ∉ l.failuresSaid := by
  have doubtful : Doubtful (Call.events b seed ops) (Call.final b seed ops).state.toLedger :=
    run_induction (P := fun pre (e : Engine b) => Doubtful pre e.state.toLedger) Ledger.new_doubtful
      (fun _ _ _ doubtful keeps => doubtful.next keeps) keeps
  have known := doubtful.apart n (mayHaveArrived_of_doubts doubted)
  have settled := doubtful.settles n s doubted
  generalize (Call.final b seed ops).state.toLedger = l at doubtful settled ⊢
  rcases settled with ⟨pipeline, waiting⟩ | succeeded | checked
  · refine ⟨.inl ⟨pipeline, waiting⟩, ?_⟩
    obtain ⟨run, current, waits, rfl, rfl⟩ := waiting
    refine ⟨fun c listed same => ?_, doubtful.unsaid current waits known⟩
    exact absurd (same ▸ List.mem_map_of_mem listed) (doubtful.numbered.current current).2.1
  · rw [unanswered] at succeeded
    cases succeeded
  · obtain ⟨c, listed, rfl, unknown, pipeline⟩ := checked.record
    refine ⟨.inr ⟨c, listed, rfl⟩, fun c' listed' same => ?_, checked.unsaid.unsaid⟩
    obtain rfl := doubtful.numbered.same listed' listed same
    obtain ⟨card, made⟩ := Option.isSome_iff_exists.mp ((orderCard_isSome l.callerPhone c').mpr pipeline)
    refine ⟨unknown, card, mem_orderCards.mpr ⟨c', listed, ?_, made⟩, made,
      (orderCard_verify made).mpr unknown⟩
    simp [CompletedRun.isOrder, unknown]

end Doubts

section Sample

open Sample

/-- The attempt timed out. -/
def timedOut : Op := .actionResult 1 (.error ⟨"timeout", true⟩)

/-- The first attempt times out; the second finds nobody. -/
def laterFailure : List Op := rideRequested ++ [timedOut, .actionResult 1 (.error ⟨"nobody", false⟩)]

set_option maxRecDepth 100000 in
/-- Both attempts time out. -/
theorem unknown_neverFailed_twice :
    let l := (Call.final rides 7 (rideRequested ++ [timedOut, .silence, timedOut])).state.toLedger
    ((∃ pipeline, l.WaitsFor 1 0 pipeline) ∨ ∃ c ∈ l.completed, c.serial = 0) ∧
      (∀ c ∈ l.completed, c.serial = 0 → c.outcome = "unknown" ∧
        ∃ card ∈ orderCards rides l, orderCard rides l.callerPhone c = some card ∧ card.isVerify) ∧
      0 ∉ l.failuresSaid :=
  unknown_neverFailed rides 7 (rideRequested ++ [timedOut, .silence, timedOut]) (by decide +kernel) 1 0
    (by decide +kernel) (by decide)

set_option maxRecDepth 100000 in
/-- **A ride that may be on its way is called failed**, where a later attempt fails. -/
theorem laterFailure_said : rides.Validated ∧
    (Call.events rides 7 laterFailure).any (doubts 1 0) ∧
    (Call.events rides 7 laterFailure).any (succeeds 1) = false ∧
    ((Call.final rides 7 laterFailure).state.completed.any fun c => c.serial == 0 &&
      c.outcome == "failed") ∧
    0 ∈ (Call.final rides 7 laterFailure).state.failuresSaid :=
  ⟨rides_validated, by decide +kernel⟩

end Sample

end Callora
