/-
**A call session.**

The session takes one event at a time until the call ends: it carries an engine operation out and executes
its directives, takes the result of a request, or ends the call, and then records the order cards.

- `Session.Follows`: of every run as many requests were made as are under way or have their result
  recorded;
- `requests_remembered`: so when a call has ended, and no end came while a request was under way,
  every request has its own record; a run that was finished without knowing the outcome has its
  card, to be verified, and no order is given twice, in every ended call.

No end of a call waits for a request that is under way, and its run is not over yet, so it has no card
(`hangUp_forgets`).
-/
import Callora.Calls.Requests
import Callora.Engine.Orders

set_option linter.unusedSectionVars false

namespace Callora

open Callora.Text Runs

section Machine

/-- How a call ended. -/
inductive Ending where
  | callerHungUp
  | agentHungUp
  | handedOff
  | timeLimit
  deriving DecidableEq

/-- What follows once the last words were heard. -/
inductive AfterSpeech where
  | hangup
  | handoff (summary : HandoffSummary)
  deriving DecidableEq

/-- A request under way. -/
structure Request where
  runId : Nat
  action : String
  input : Json

/-- What is recorded of a call. -/
inductive CallRecord where
  | turn (plan : SpeechPlan)
  | action (action : String) (input : Json) (result : Except ActionFailure Json)
  | handoff (summary : HandoffSummary)
  | order (card : Json)
  | ended (outcome : Ending)

namespace CallRecord

/-- The run id of an action's record. -/
def runId? : CallRecord → Option Nat
  | action _ input _ =>
    match input.get "run_id" with
    | some (.int n) => some n.toNat
    | _ => none
  | _ => none

/-- The card of an order. -/
def card? : CallRecord → Option Json
  | order card => some card
  | _ => none

end CallRecord

/-- What a session takes next. -/
inductive SessionEvent where
  /-- An engine operation: of the caller's audio, the recognizer, the agent, a timer, the customer
  lookup. -/
  | engine (op : Op) (own : op.isResult = false)
  /-- The result of one of the requests under way. -/
  | result (i : Nat) (result : Except ActionFailure Json)
  /-- The agent's words are over, or there were none; whether a transfer succeeds. -/
  | quiet (transferred : Bool)
  | callerHangsUp
  | timeLimit

structure Session (b : Business) where
  engine : Engine b
  inFlight : List Request
  afterSpeech : Option AfterSpeech
  records : List CallRecord
  ending : Option Ending

namespace Session

variable {b : Business} [Unicode]

/-- A session that starts. -/
def new (b : Business) (seed : UInt64) : Session b := ⟨Engine.new b seed, [], none, [], none⟩

/-- One directive, executed. -/
def carryOut (s : Session b) : Directive → Session b
  | .speak plan _ => { s with records := s.records ++ [.turn plan] }
  | .runAction runId action input =>
    { s with inFlight := s.inFlight ++ [⟨runId, action, input⟩] }
  | .handoff summary =>
    { s with records := s.records ++ [.handoff summary], afterSpeech := some (.handoff summary) }
  | .hangup => { s with afterSpeech := some .hangup }

/-- `Session::execute`. -/
def execute (s : Session b) (directives : List Directive) : Session b := directives.foldl carryOut s

/-- An engine operation, its directives executed. -/
def perform (s : Session b) (op : Op) : List Directive × Session b :=
  ((op.apply s.engine).1, { s with engine := (op.apply s.engine).2 }.execute (op.apply s.engine).1)

/-- A request whose result came: it is recorded. -/
def arrive (s : Session b) (i : Nat) (r : Request) (result : Except ActionFailure Json) : Session b :=
  { s with inFlight := s.inFlight.eraseIdx i, records := s.records ++ [.action r.action r.input result] }

/-- The end of a call: its orders are recorded. -/
def close (s : Session b) (ending : Ending) : Session b :=
  { s with
    records := s.records ++ (orderCards b s.engine.state.toLedger).map .order ++ [.ended ending]
    ending := some ending }

/-- `Session::terminate`. -/
def terminate (s : Session b) (transferred : Bool) : AfterSpeech → Session b
  | .hangup => s.close .agentHungUp
  | .handoff _ => s.close (if transferred then .handedOff else .agentHungUp)

/-- One event of a call that goes on. -/
def take (s : Session b) : SessionEvent → List Directive × Session b
  | .engine op _ => s.perform op
  | .result i result =>
    match s.inFlight[i]? with
    | none => ([], s)
    | some r => (s.arrive i r result).perform (.actionResult r.runId result)
  | .quiet transferred =>
    match s.afterSpeech with
    | none => ([], s)
    | some after => ([], { s with afterSpeech := none }.terminate transferred after)
  | .callerHangsUp => ([], s.close .callerHungUp)
  | .timeLimit => ([], s.close .timeLimit)

/-- **One event of a session.** Nothing is taken any more once the call has ended. -/
def step (s : Session b) (event : SessionEvent) : List Directive × Session b :=
  if s.ending.isSome then ([], s) else s.take event

/-- What happened at one event of a session. -/
abbrev Happening (b : Business) := Event (Session b) SessionEvent (List Directive)

/-- What happened in a session. -/
def events (b : Business) (seed : UInt64) (inputs : List SessionEvent) : List (Happening b) :=
  Runs.events step (new b seed) inputs

/-- The session a call reaches. -/
def final (b : Business) (seed : UInt64) (inputs : List SessionEvent) : Session b :=
  Runs.final step (new b seed) inputs

end Session

end Machine

section Execution

variable {b : Business} [Unicode] {s : Session b}

namespace Session

/-- The requests that directives start. -/
def started (directives : List Directive) : List Request :=
  directives.filterMap fun
    | .runAction runId action input => some ⟨runId, action, input⟩
    | _ => none

theorem mem_started {directives : List Directive} {r : Request} :
    r ∈ started directives ↔ .runAction r.runId r.action r.input ∈ directives := by
  simp only [started, List.mem_filterMap]
  constructor
  · rintro ⟨d, listed, made⟩
    cases d with
    | runAction runId action input =>
      obtain rfl := Option.some.inj made
      exact listed
    | _ => cases made
  · exact fun listed => ⟨_, listed, rfl⟩

theorem started_runIds (directives : List Directive) :
    (started directives).map Request.runId = requests directives := by
  rw [started, List.map_filterMap, requests]
  refine List.filterMap_congr fun d _ => ?_
  cases d <;> rfl

/-- Records of what was said: neither a card nor a result. -/
def Plain (said : List CallRecord) : Prop :=
  said.filterMap CallRecord.card? = [] ∧ said.filterMap CallRecord.runId? = []

/-- **What executing directives does.** -/
theorem execute_eq (s : Session b) (directives : List Directive) :
    (s.execute directives).engine = s.engine ∧
      (s.execute directives).inFlight = s.inFlight ++ started directives ∧
      (s.execute directives).ending = s.ending ∧
      ∃ said, (s.execute directives).records = s.records ++ said ∧ Plain said := by
  induction directives generalizing s with
  | nil => exact ⟨rfl, (List.append_nil _).symm, rfl, [], (List.append_nil _).symm, rfl, rfl⟩
  | cons d directives ih =>
    obtain ⟨engine, inFlight, ending, said, records, plain⟩ := ih (s.carryOut d)
    cases d with
    | speak plan filler =>
      refine ⟨engine, inFlight, ending, .turn plan :: said, ?_, plain⟩
      exact records.trans (List.append_assoc _ _ _)
    | runAction runId action input =>
      exact ⟨engine, inFlight.trans (List.append_assoc _ _ _), ending, said, records, plain⟩
    | handoff summary =>
      refine ⟨engine, inFlight, ending, .handoff summary :: said, ?_, plain⟩
      exact records.trans (List.append_assoc _ _ _)
    | hangup => exact ⟨engine, inFlight, ending, said, records, plain⟩

/-- What an operation does in a session. -/
theorem perform_eq (s : Session b) (op : Op) :
    (s.perform op).2.engine = (op.apply s.engine).2 ∧
      (s.perform op).2.inFlight = s.inFlight ++ started (s.perform op).1 ∧
      (s.perform op).2.ending = s.ending ∧
      ∃ said, (s.perform op).2.records = s.records ++ said ∧ Plain said :=
  execute_eq _ _

end Session

/-- Every request names itself in its input. -/
def NamesRun (d : Directive) : Prop := ∀ n action input, d = .runAction n action input →
  input.get "run_id" = some (.int n)

theorem namesRun_of_none {d : Directive} (other : d.runId? = none) : NamesRun d := by
  rintro n action input rfl
  cases other

theorem actionInput_runId {l : Ledger} {r : PipelineRun} (current : l.run = some r) (n : Nat) :
    (l.actionInput n).get "run_id" = some (.int n) := by
  unfold Ledger.actionInput
  rw [current]
  rfl

theorem Advances.names {l l' : Ledger} {orders : List Directive} (goes : Advances b l l' orders) :
    ∀ d ∈ orders, NamesRun d := by
  induction goes with
  | idle => exact fun d listed => absurd listed List.not_mem_nil
  | pauses => exact fun d listed => absurd listed List.not_mem_nil
  | sends current filled ready =>
    intro d listed n action input same
    obtain rfl := List.mem_singleton.mp listed
    obtain ⟨rfl, rfl, rfl⟩ := Directive.runAction.inj same
    exact actionInput_runId rfl _
  | completes _ _ _ _ ih => exact ih
  | fails _ _ _ _ _ ih => exact ih

theorem Closes.names {l l' : Ledger} {orders : List Directive} (closes : Closes b l l' orders) :
    ∀ d ∈ orders, NamesRun d := by
  induction closes with
  | rests => exact fun d listed => absurd listed List.not_mem_nil
  | advances goes => exact goes.names
  | hangsUp => exact fun d listed => namesRun_of_none (by rw [List.mem_singleton.mp listed]; rfl)
  | handsOff => exact fun d listed => namesRun_of_none (by rw [List.mem_singleton.mp listed]; rfl)
  | retries current waits =>
    intro d listed n action input same
    rw [List.mem_singleton.mp listed] at same
    obtain ⟨rfl, rfl, rfl⟩ := Directive.runAction.inj same
    exact actionInput_runId current _
  | finishes _ _ _ goes => exact goes.names
  | finishesCall => exact fun d listed => namesRun_of_none (by rw [List.mem_singleton.mp listed]; rfl)
  | givesUp => exact fun d listed => namesRun_of_none (by rw [List.mem_singleton.mp listed]; rfl)
  | forced _ _ ih =>
    intro d listed
    rcases List.mem_append.mp listed with before | last
    · exact ih d before
    · exact namesRun_of_none (by rw [List.mem_singleton.mp last]; rfl)

/-- **A request names its run.** -/
theorem Op.names (e : Engine b) (op : Op) : ∀ d ∈ (op.apply e).1, NamesRun d := by
  intro d listed n action input same
  have order : d ∈ op.orders e := List.mem_filter.mpr ⟨listed, by rw [same]; rfl⟩
  have done := happens e op
  generalize op.leaves e = l' at done
  generalize op.orders e = orders at done order
  cases done with
  | sets => cases order
  | acts opens acts =>
    obtain ⟨m, path, closes⟩ := acts
    exact closes.names d order n action input same

end Execution

section Memory

variable {b : Business} [Unicode] {s : Session b}

namespace Session

/-- The requests made so far, each with its run's number. -/
def sent (happened : List (Happening b)) : List Nat := happened.flatMap fun ev => requests ev.output

/-- The results recorded so far, each with its run's number. -/
def recorded (s : Session b) : List Nat := s.records.filterMap CallRecord.runId?

/-- The requests under way, each with its run's number. -/
def waiting (s : Session b) : List Nat := s.inFlight.map Request.runId

/-- A run's card, marked to be verified, is recorded. -/
def ToVerify (s : Session b) (serial : Option Nat) : Prop :=
  ∃ c ∈ s.engine.state.completed, some c.serial = serial ∧
    ∃ card, orderCard b s.engine.state.callerPhone c = some card ∧ card.isVerify ∧
      .order card ∈ s.records

/-- **Every request is remembered**: as many results of its run are recorded as requests were made,
or its run has a card to be verified. -/
def Remembers (s : Session b) (happened : List (Happening b)) : Prop :=
  ∀ ev ∈ happened, ∀ n ∈ requests ev.output,
    s.recorded.count n = (sent happened).count n ∨
    s.ToVerify (ev.after.engine.state.run.map PipelineRun.serial)

/-- Every run that was finished without knowing the outcome has its card, to be verified. -/
def DoubtsMarked (s : Session b) : Prop :=
  ∀ c ∈ s.engine.state.completed, c.outcome = "unknown" → (b.pipeline c.pipeline).isSome →
    s.ToVerify (some c.serial)

/-- Every finished run is an order once: the cards are those of the runs, and no run is finished twice. -/
def OrdersOnce (s : Session b) : Prop :=
  s.records.filterMap CallRecord.card? =
      (s.engine.state.completed.filter CompletedRun.isOrder).filterMap
        (orderCard b s.engine.state.callerPhone) ∧
    (s.engine.state.completed.map CompletedRun.serial).Nodup

/-- Whether the session ends at an input. -/
def endsAt (s : Session b) : SessionEvent → Bool
  | .callerHangsUp | .timeLimit => s.ending.isNone
  | .quiet _ => s.ending.isNone && s.afterSpeech.isSome
  | .engine _ _ | .result _ _ => false

/-- **The call does not end while a request is under way.** -/
def Waits (ev : Happening b) : Prop := ev.before.endsAt ev.input → ev.before.inFlight = []

/-- **What a session keeps**: of every run as many requests were made as are under way or recorded;
the orders are recorded at the end. -/
structure Follows (happened : List (Happening b)) (s : Session b) : Prop where
  balance : ∀ n, (sent happened).count n = s.waiting.count n + s.recorded.count n
  named : ∀ r ∈ s.inFlight, r.input.get "run_id" = some (.int r.runId)
  orders : s.records.filterMap CallRecord.card? =
    if s.ending.isSome then orderCards b s.engine.state.toLedger else []
  numbered : s.engine.state.toLedger.Numbered

theorem sent_concat (happened : List (Happening b)) (ev : Happening b) :
    sent (happened ++ [ev]) = sent happened ++ requests ev.output := by
  rw [sent, List.flatMap_append, List.flatMap_singleton, sent]

theorem recorded_append {s t : Session b} {said : List CallRecord}
    (records : t.records = s.records ++ said) :
    t.recorded = s.recorded ++ said.filterMap CallRecord.runId? := by
  rw [recorded, records, List.filterMap_append, recorded]

theorem new_follows (seed : UInt64) : Follows [] (new b seed) where
  balance := fun _ => rfl
  named := fun _ listed => absurd listed List.not_mem_nil
  orders := rfl
  numbered := Ledger.new_numbered

/-- Nothing happens at an event that makes no request and leaves the requests as they are. -/
theorem Follows.quiet {happened : List (Happening b)} {t : Session b} {ev : Happening b}
    (follows : Follows happened s) (silent : ev.output = []) (inFlight : t.inFlight = s.inFlight)
    (more : ∃ said, t.records = s.records ++ said ∧ said.filterMap CallRecord.runId? = [])
    (engine : t.engine = s.engine)
    (orders : t.records.filterMap CallRecord.card? =
      if t.ending.isSome then orderCards b t.engine.state.toLedger else []) :
    Follows (happened ++ [ev]) t := by
  obtain ⟨said, records, plain⟩ := more
  refine ⟨fun n => ?_, ?_, orders, engine ▸ follows.numbered⟩
  · have none' : requests ev.output = [] := by
      rw [silent]
      rfl
    rw [sent_concat, none', List.append_nil, recorded_append records, plain, List.append_nil,
      waiting, inFlight]
    exact follows.balance n
  · rw [inFlight]
    exact follows.named

/-- An operation whose directives are executed. -/
theorem Follows.perform {happened : List (Happening b)} {op : Op} {ev : Happening b}
    (follows : Follows happened s) (open' : s.ending = none) (output : ev.output = (s.perform op).1) :
    Follows (happened ++ [ev]) (s.perform op).2 := by
  obtain ⟨engine, inFlight, ending, said, records, cards, results⟩ := s.perform_eq op
  refine ⟨fun n => ?_, fun r here => ?_, ?_, ?_⟩
  · have balance := follows.balance n
    have waits : (s.perform op).2.waiting = s.waiting ++ requests (s.perform op).1 := by
      rw [waiting, inFlight, List.map_append, started_runIds, waiting]
    rw [sent_concat, output, waits, recorded_append records, results, List.append_nil, List.count_append,
      List.count_append]
    omega
  · rw [inFlight] at here
    rcases List.mem_append.mp here with before | new'
    · exact follows.named r before
    · exact op.names s.engine _ (mem_started.mp new') _ _ _ rfl
  · rw [records, List.filterMap_append, cards, List.append_nil, ending, follows.orders, open']
    rfl
  · rw [engine]
    exact op.keeps_numbered s.engine follows.numbered

/-- A result that comes takes its request off those under way, and is recorded. -/
theorem Follows.arrive {happened : List (Happening b)} {i : Nat} {r : Request}
    (follows : Follows happened s) (open' : s.ending = none) (here : s.inFlight[i]? = some r)
    (result : Except ActionFailure Json) : Follows happened (s.arrive i r result) := by
  obtain ⟨inside, rfl⟩ := List.getElem?_eq_some_iff.mp here
  refine ⟨fun n => ?_, fun r' listed => follows.named r' (List.mem_of_mem_eraseIdx listed), ?_,
    follows.numbered⟩
  · have balance := follows.balance n
    have result' : (s.arrive i s.inFlight[i] result).recorded = s.recorded ++ [s.inFlight[i].runId] := by
      rw [recorded_append rfl]
      simp only [List.filterMap_cons, List.filterMap_nil, CallRecord.runId?,
        follows.named _ (List.getElem_mem inside), Int.toNat_natCast]
    have waits : s.waiting.count n = [s.inFlight[i].runId].count n +
        (s.arrive i s.inFlight[i] result).waiting.count n := by
      have apart := (List.getElem_cons_eraseIdx_perm inside).map Request.runId
      rw [← List.count_append]
      exact (apart.count_eq n).symm
    rw [result', List.count_append]
    omega
  · show (s.records ++ [CallRecord.action _ _ result]).filterMap CallRecord.card? = _
    rw [List.filterMap_append, follows.orders, open']
    exact (congrArg (fun ending : Option Ending => if ending.isSome then _ else []) open').symm

/-- The end of a call. -/
theorem Follows.close {happened : List (Happening b)} {ev : Happening b} (follows : Follows happened s)
    (open' : s.ending = none) (silent : ev.output = []) (ending : Ending) :
    Follows (happened ++ [ev]) (s.close ending) := by
  refine follows.quiet silent rfl ⟨_, List.append_assoc _ _ _, ?_⟩ rfl ?_
  · rw [List.filterMap_append, List.filterMap_map]
    exact (List.append_nil _).trans (List.filterMap_eq_nil_iff.mpr fun _ _ => rfl)
  · show (s.records ++ (orderCards b s.engine.state.toLedger).map CallRecord.order ++
      [CallRecord.ended ending]).filterMap CallRecord.card? = orderCards b s.engine.state.toLedger
    have cards (l : List Json) : (l.map CallRecord.order).filterMap CallRecord.card? = l := by
      rw [List.filterMap_map]
      exact List.filterMap_some
    rw [List.filterMap_append, List.filterMap_append, follows.orders, open', cards]
    exact List.append_nil _

/-- **Every event keeps it.** -/
theorem Follows.step {happened : List (Happening b)} (follows : Follows happened s)
    (input : SessionEvent) :
    Follows (happened ++ [event Session.step s input]) (s.step input).2 := by
  have unchanged (still : s.step input = ([], s)) :
      Follows (happened ++ [event Session.step s input]) (s.step input).2 := by
    rw [still]
    exact follows.quiet (congrArg Prod.fst still) rfl
      ⟨[], (List.append_nil _).symm, rfl⟩ rfl follows.orders
  have closes {t : Session b} {outcome : Ending} (follows : Follows happened t)
      (open' : t.ending = none) (same : s.step input = ([], t.close outcome)) :
      Follows (happened ++ [event Session.step s input]) (s.step input).2 := by
    rw [same]
    exact follows.close open' (congrArg Prod.fst same) outcome
  have performs {t : Session b} {op : Op} (follows : Follows happened t) (open' : t.ending = none)
      (same : s.step input = t.perform op) :
      Follows (happened ++ [event Session.step s input]) (s.step input).2 := by
    rw [same]
    exact follows.perform open' (congrArg Prod.fst same)
  cases ending : s.ending with
  | some _ => exact unchanged (if_pos (by rw [ending]; rfl))
  | none =>
    have taken : s.step input = s.take input := if_neg (by rw [ending]; exact Bool.false_ne_true)
    cases input with
    | engine op own => exact performs follows ending taken
    | result i result =>
      unfold Session.take at taken
      dsimp only at taken
      cases here : s.inFlight[i]? with
      | none =>
        rw [here] at taken
        exact unchanged taken
      | some r =>
        rw [here] at taken
        exact performs (follows.arrive ending here result) ending taken
    | quiet transferred =>
      unfold Session.take at taken
      dsimp only at taken
      cases here : s.afterSpeech with
      | none =>
        rw [here] at taken
        exact unchanged taken
      | some after =>
        rw [here] at taken
        have cleared : Follows happened { s with afterSpeech := none } :=
          ⟨follows.balance, follows.named, follows.orders, follows.numbered⟩
        cases after with
        | hangup => exact closes cleared ending taken
        | handoff summary => exact closes cleared ending taken
    | callerHangsUp => exact closes follows ending taken
    | timeLimit => exact closes follows ending taken

theorem final_follows (b : Business) (seed : UInt64) (inputs : List SessionEvent) :
    Follows (events b seed inputs) (final b seed inputs) :=
  run_induction (C := fun _ _ => True) (new_follows seed) (fun _ _ input follows _ => follows.step input)
    fun _ _ _ _ => trivial

/-- **A step into the end of a call** leaves the requests as they are. -/
theorem step_ends (input : SessionEvent) (ended : (s.step input).2.ending.isSome) :
    (s.ending.isSome ∨ s.endsAt input) ∧ (s.step input).2.inFlight = s.inFlight := by
  cases ending : s.ending with
  | some outcome =>
    have still : s.step input = ([], s) := if_pos (by rw [ending]; rfl)
    exact ⟨.inl rfl, by rw [still]⟩
  | none =>
    have taken : s.step input = s.take input := if_neg (by rw [ending]; exact Bool.false_ne_true)
    rw [taken] at ended ⊢
    cases input with
    | engine op own =>
      rw [take, (s.perform_eq op).2.2.1, ending] at ended
      cases ended
    | result i result =>
      unfold take at ended
      dsimp only at ended
      cases here : s.inFlight[i]? with
      | none =>
        rw [here, ending] at ended
        cases ended
      | some r =>
        have open' : (s.arrive i r result).ending = none := ending
        rw [here, ((s.arrive i r result).perform_eq _).2.2.1, open'] at ended
        cases ended
    | quiet transferred =>
      unfold take at ended ⊢
      dsimp only at ended ⊢
      cases here : s.afterSpeech with
      | none =>
        rw [here, ending] at ended
        cases ended
      | some after =>
        refine ⟨.inr (by simp [endsAt, ending, here]), ?_⟩
        cases after <;> rfl
    | callerHangsUp => exact ⟨.inr (by simp [endsAt, ending]), rfl⟩
    | timeLimit => exact ⟨.inr (by simp [endsAt, ending]), rfl⟩

/-- Where no end comes while a request is under way, none is when the call has ended. -/
theorem final_idle {seed : UInt64} {inputs : List SessionEvent}
    (waits : ∀ ev ∈ events b seed inputs, Waits ev) :
    (final b seed inputs).ending.isSome → (final b seed inputs).inFlight = [] := by
  refine invariant_final (P := fun s => s.ending.isSome → s.inFlight = []) (fun ended => ?_)
    (fun s input idle waits ended => ?_) waits
  · cases ended
  · obtain ⟨ends, same⟩ := step_ends input ended
    rw [same]
    exact ends.elim idle waits

/-- **A request that was sent is not forgotten** in a call that does not end while one is under way.
In every ended call a run that was finished without knowing the outcome has its card to be verified,
and no order is given twice. -/
theorem requests_remembered (b : Business) (seed : UInt64) (inputs : List SessionEvent)
    (ended : (final b seed inputs).ending.isSome) :
    ((∀ ev ∈ events b seed inputs, Waits ev) → (final b seed inputs).Remembers (events b seed inputs)) ∧
      (final b seed inputs).DoubtsMarked ∧ (final b seed inputs).OrdersOnce := by
  have follows := final_follows b seed inputs
  have orders : (final b seed inputs).records.filterMap CallRecord.card? =
      orderCards b (final b seed inputs).engine.state.toLedger := by
    rw [follows.orders, if_pos ended]
  refine ⟨fun waits ev listed n _ => .inl ?_, fun c done unknown known => ?_, orders, ?_⟩
  · have balance := follows.balance n
    have idle : (final b seed inputs).waiting = [] := by
      rw [waiting, final_idle waits ended, List.map_nil]
    rw [idle, List.count_nil, Nat.zero_add] at balance
    exact balance.symm
  · obtain ⟨card, made⟩ := Option.isSome_iff_exists.mp ((orderCard_isSome _ c).mpr known)
    refine ⟨c, done, rfl, card, made, (orderCard_verify made).mpr unknown, ?_⟩
    have listed : card ∈ orderCards b (final b seed inputs).engine.state.toLedger :=
      mem_orderCards.mpr ⟨c, done, by simp [CompletedRun.isOrder, unknown], made⟩
    rw [← orders] at listed
    obtain ⟨record, held, same⟩ := List.mem_filterMap.mp listed
    cases record with
    | order other =>
      obtain rfl := Option.some.inj same
      exact held
    | _ => cases same
  · exact (List.nodup_append.mp follows.numbered.distinct).1

end Session

end Memory

section Sample

open Sample

/-- A ride is asked for, agreed to and requested. -/
def Sample.booking : List SessionEvent :=
  [.engine .start rfl, .engine (asks "a ride for two" "ride" [number "seats" 2]) rfl, .engine agrees rfl]

/-- The result comes before the caller hangs up. -/
theorem requests_remembered_ride :
    (Session.final rides 7 (booking ++ [.result 0 (.ok .null), .callerHangsUp])).Remembers
      (Session.events rides 7 (booking ++ [.result 0 (.ok .null), .callerHangsUp])) := by
  refine (Session.requests_remembered rides 7 (booking ++ [.result 0 (.ok .null), .callerHangsUp])
    (by decide +kernel)).1 fun ev listed ends => ?_
  have waits : (Session.events rides 7 (booking ++ [.result 0 (.ok .null), .callerHangsUp])).all fun ev =>
      !ev.before.endsAt ev.input || ev.before.inFlight.isEmpty := by decide +kernel
  have here := List.all_eq_true.mp waits ev listed
  rw [ends, Bool.not_true, Bool.false_or] at here
  exact List.isEmpty_iff.mp here

/-- **A caller who hangs up while the request is under way** leaves neither a record of it nor a card. -/
theorem hangUp_forgets : rides.Validated ∧
    ((Session.events rides 7 (booking ++ [.callerHangsUp])).map fun ev => requests ev.output) =
      [[], [], [1], []] ∧
    (Session.final rides 7 (booking ++ [.callerHangsUp])).ending = some .callerHungUp ∧
    ¬(Session.final rides 7 (booking ++ [.callerHangsUp])).records.any fun record =>
      record.runId?.isSome || record.card?.isSome :=
  ⟨rides_validated, by decide +kernel⟩

end Sample

end Callora
