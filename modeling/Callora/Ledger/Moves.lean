/-
**The ledger as an abstract machine.**

What the engine may do to the ledger of a call, whatever is said: it moves quietly (`Move`: a value is
stored, a task is started, a rule fires), and then at most one thing closes the operation (`Closes`: the
task advances, the call is transferred or ended, a run is over). Only a close gives orders.

- `Source` is where a value put into an empty slot may come from;
- `Advances` is the whole of `advance`: the task pauses, sends its request, or is over and the next one
  resumes;
- `Acts` is an operation: a path of allowed moves and a close.

`Ledger/Refines` shows that every operation of the engine is one of these.
-/
import Callora.Engine.Operations
import Callora.Library.Runs

set_option linter.unusedSectionVars false

namespace Callora

open Runs Callora.Text

section Moves

/-- What a quiet move is. -/
inductive Label where
  /-- Empty slots take values that are not the caller's own answers. -/
  | fill
  /-- An understood value is stored. -/
  | store (fill : SlotFill)
  /-- What was being read back is open again. -/
  | reopen
  /-- A stale place goes. -/
  | drop (slot : String)
  | clear (slot : String)
  | undo
  /-- A rule is marked as fired. -/
  | fire (id : String)
  /-- A rule's value is written. -/
  | write (slot : String)
  /-- A value read back alone is agreed to. -/
  | agreeSlot
  /-- The whole read-back is agreed to. -/
  | agree
  /-- The task waits for something else. -/
  | step
  /-- The task is read back. -/
  | readBack
  /-- A task is started; whether the current one is set aside for it. -/
  | start (pipeline : String) (aside : Bool)
  /-- The task is cancelled. -/
  | cancel
  /-- A failure is counted or remembered. -/
  | count
  /-- A failure is said. -/
  | sayFailure
  deriving DecidableEq

namespace Label

/-- The moves of the current run that leave it waiting for what it waits for. -/
def keepsStep : Label → Bool
  | undo | step | readBack | start .. | cancel | count | sayFailure => false
  | _ => true

/-- The moves of every operation: all but a step back, a new task, and the end or the failure of one. -/
def isRoutine : Label → Bool
  | undo | start .. | cancel | count | sayFailure => false
  | _ => true

theorem isRoutine_of_keepsStep {label : Label} (keeps : label.keepsStep) : label.isRoutine := by
  cases label <;> simp_all [keepsStep, isRoutine]

end Label

variable [Unicode]

/-- Where the value of an empty slot may come from. -/
inductive Source (b : Business) (l : Ledger) (r : PipelineRun) (slot : String) : SlotValue → Prop
  | suspended {ps : PipelineSlot} {source : String} {q : PipelineRun} {st : SlotState}
      (listed : ps ∈ (b.pipelineOf r).slots) (named : ps.slot = slot)
      (taken : ps.fromSlot = some source) (waits : q ∈ l.suspended)
      (held : q.slots[source]? = some st) : Source b l r slot st.value
  | completed {ps : PipelineSlot} {source : String} {c : CompletedRun} {v : SlotValue}
      (listed : ps ∈ (b.pipelineOf r).slots) (named : ps.slot = slot)
      (taken : ps.fromSlot = some source) (done : c ∈ l.completed)
      (held : c.slots[source]? = some v) : Source b l r slot v
  | city {ps : PipelineSlot} {source : String} (city : String)
      (listed : ps ∈ (b.pipelineOf r).slots) (named : ps.slot = slot)
      (taken : ps.fromSlot = some source) : Source b l r slot (.place city none none)
  | name {ps : PipelineSlot} {customer : Customer} {name : String}
      (listed : ps ∈ (b.pipelineOf r).slots) (named : ps.slot = slot)
      (taken : ps.fromCustomer = some "name") (known : l.customer = some customer)
      (called : customer.name = some name) : Source b l r slot (.text name)
  | place {ps : PipelineSlot} {key : String} {v : SlotValue}
      (listed : ps ∈ (b.pipelineOf r).slots) (named : ps.slot = slot)
      (taken : ps.fromCustomer = some key) (saved : customerPlace l.customer key = some v) :
      Source b l r slot v
  | default {ps : PipelineSlot} {d : Json} {v : SlotValue}
      (listed : ps ∈ (b.pipelineOf r).slots) (named : ps.slot = slot)
      (given : ps.default = some d) (read : defaultValue b slot d = some v) : Source b l r slot v

/-- Slots filled up from the sources: what was held is kept, and what is new has a source. -/
structure Filled (b : Business) (l : Ledger) (r : PipelineRun) (slots : BTreeMap SlotState) : Prop where
  kept : ∀ (k : String) (st : SlotState), r.slots[k]? = some st → slots[k]? = some st
  sourced : ∀ (k : String) (st : SlotState), slots[k]? = some st → r.slots[k]? = none →
    Source b l r k st.value

/-- Two slot maps hold the same values. -/
def SameValues (slots slots' : BTreeMap SlotState) : Prop :=
  ∀ k : String, slots[k]?.map SlotState.value = slots'[k]?.map SlotState.value

/-- A quiet move of the current run. -/
inductive RunMove (b : Business) (l : Ledger) : Label → PipelineRun → PipelineRun → Prop
  | fill {r : PipelineRun} {slots : BTreeMap SlotState} (filled : Filled b l r slots) :
      RunMove b l .fill r { r with slots := slots }
  | store {r : PipelineRun} (fill : SlotFill) (taken : Engine.accepts b (b.pipelineOf r) fill) :
      RunMove b l (.store fill) r (Engine.store r fill)
  | reopen {r : PipelineRun} (reading : r.step.isReadingBack) :
      RunMove b l .reopen r { r with step := .collecting none }
  | drop {r : PipelineRun} (slot : String) : RunMove b l (.drop slot) r (r.drop slot)
  | clear {r : PipelineRun} (slot : String) : RunMove b l (.clear slot) r (r.clear slot)
  | undo {r r' : PipelineRun} {slot : String} (undone : r.undo = some (r', slot)) :
      RunMove b l .undo r { r' with step := .collecting (some slot) }
  | fire {r : PipelineRun} (id : String) :
      RunMove b l (.fire id) r { r with firedRules := r.firedRules ++ [id] }
  | write {r : PipelineRun} {rule : RuleConfig} {slot : String} {value : Json} {v : SlotValue}
      (listed : rule ∈ b.config.rules) (sets : rule.effect = .set slot value)
      (read : defaultValue b slot value = some v) :
      RunMove b l (.write slot) r (r.set slot ⟨v, 1, .rule, true⟩)
  | agreeSlot {r : PipelineRun} {slot : String} {slots : BTreeMap SlotState}
      (reading : r.step = .confirmingSlot slot) (same : SameValues r.slots slots) :
      RunMove b l .agreeSlot r { r with slots := slots, step := .collecting none }
  | agree {r : PipelineRun} {slots : BTreeMap SlotState} (reading : r.step = .awaitingConfirmation)
      (same : SameValues r.slots slots) :
      RunMove b l .agree r { r with confirmed := true, slots := slots }
  | step {r : PipelineRun} {st : Step} (waits : st.isExecuting = false)
      (other : st ≠ .awaitingConfirmation) : RunMove b l .step r { r with step := st }
  | readBack {r : PipelineRun} :
      RunMove b l .readBack r { r with step := .awaitingConfirmation, confirmed := false }

/-- The current run set aside, or gone. -/
def Ledger.left (l : Ledger) (aside : Bool) : Ledger :=
  { l with run := none, suspended := l.suspended ++ if aside then l.run.toList else [] }

theorem Ledger.left_false (l : Ledger) : l.left false = { l with run := none } := by
  simp [left]

theorem Ledger.left_idle {l : Ledger} (idle : l.run = none) : l.left false = l := by
  rw [left_false, ← idle]

theorem Ledger.left_true {l : Ledger} {r : PipelineRun} (current : l.run = some r) :
    l.left true = { l with run := none, suspended := l.suspended ++ [r] } := by
  simp [left, current]

/-- A new task in the place of the current one, filled with values of the last one done. -/
def Ledger.started (l : Ledger) (aside : Bool) (pipeline intent : String)
    (slots : BTreeMap SlotState) : Ledger :=
  { l.left aside with
    run := some { PipelineRun.new l.runsStarted pipeline intent with slots := slots }
    runsStarted := l.runsStarted + 1 }

/-- A value that the last task done left for a slot of the same name. -/
def Carried (l : Ledger) (slots : BTreeMap SlotState) : Prop :=
  ∀ (k : String) (st : SlotState), slots[k]? = some st →
    ∃ c ∈ l.completed, c.slots[k]? = some st.value

/-- **A quiet move of the ledger.** -/
inductive Move (b : Business) : Label → Ledger → Ledger → Prop
  | run {label : Label} {l : Ledger} {r r' : PipelineRun} (current : l.run = some r)
      (moved : RunMove b l label r r') : Move b label l { l with run := some r' }
  | start {l : Ledger} {pipeline intent : String} {aside : Bool} {slots : BTreeMap SlotState}
      (other : aside → ∃ r, l.run = some r ∧ r.pipeline ≠ pipeline) (carried : Carried l slots) :
      Move b (.start pipeline aside) l (l.started aside pipeline intent slots)
  | cancel {l : Ledger} : Move b .cancel l { l.recorded "cancelled" none with suspended := [] }
  | count {l : Ledger} (failures : Nat) (failed : List String) :
      Move b .count l { l with actionFailures := failures, failedActions := failed }
  | sayFailure {l : Ledger} {r : PipelineRun} (current : l.run = some r) :
      Move b .sayFailure l { l with failuresSaid := l.failuresSaid ++ [r.serial] }

/-- The moves allowed in an operation. -/
abbrev Allowed := Label → Ledger → Prop

/-- How an operation opens: the task it switches to, if any, is started before all else. -/
inductive Opens (b : Business) : Option (String × Bool) → Ledger → Ledger → Prop
  | stays {l : Ledger} : Opens b none l l
  | starts {l l' : Ledger} {pipeline : String} {aside : Bool}
      (moved : Move b (.start pipeline aside) l l') : Opens b (some (pipeline, aside)) l l'

end Moves

section Closes

theorem Ledger.recorded_of_run {l : Ledger} {r : PipelineRun} (current : l.run = some r)
    (outcome : String) (result : Option Json) : l.recorded outcome result = { l with
      run := none
      completed := l.completed ++ [⟨r.serial, r.pipeline, outcome, r.values, result⟩] } := by
  unfold recorded
  rw [current]

/-- The current run recorded; the one suspended last is current again. -/
def Ledger.finished (l : Ledger) (outcome : String) (result : Option Json) : Ledger :=
  { l.recorded outcome result with
    run := l.suspended.getLast?
    suspended := l.suspended.dropLast }

theorem Ledger.finished_last {l : Ledger} (last : l.suspended = []) (outcome : String)
    (result : Option Json) : l.finished outcome result = l.recorded outcome result := by
  have gone := l.recorded_run outcome result
  have none' := (l.recorded_suspended outcome result).trans last
  unfold finished
  rw [last]
  generalize l.recorded outcome result = l' at gone none' ⊢
  cases l'
  simp_all

variable [Unicode]

/-- **`advance`**, on the ledger. -/
inductive Advances (b : Business) : Ledger → Ledger → List Directive → Prop
  | idle {l : Ledger} (none : l.run = none) : Advances b l l []
  | pauses {l : Ledger} {r : PipelineRun} {slots : BTreeMap SlotState} {st : Step}
      (current : l.run = some r) (filled : Filled b l r slots) (waits : st.isExecuting = false)
      (open' : st = .awaitingConfirmation → r.confirmed = false) :
      Advances b l { l with run := some { r with slots := slots, step := st } } []
  | sends {l : Ledger} {r : PipelineRun} {slots : BTreeMap SlotState} {action : String}
      (current : l.run = some r) (filled : Filled b l r slots)
      (ready : Engine.nextStep b (b.pipelineOf r) { r with slots := slots } = .act action) :
      Advances b l { l with
        nextActionRun := l.nextActionRun + 1
        run := some { r with slots := slots, step := .executing l.nextActionRun, attempts := 1 } }
        [.runAction l.nextActionRun action
          ({ l with run := some { r with slots := slots } }.actionInput l.nextActionRun)]
  | completes {l l' : Ledger} {r : PipelineRun} {slots : BTreeMap SlotState} {orders : List Directive}
      (current : l.run = some r) (filled : Filled b l r slots)
      (ready : Engine.nextStep b (b.pipelineOf r) { r with slots := slots } = .complete)
      (goes : Advances b ({ l with run := some { r with slots := slots } }.finished "completed" none)
        l' orders) : Advances b l l' orders
  | fails {l l' : Ledger} {r : PipelineRun} {slots : BTreeMap SlotState} {action : String}
      {said : List Nat} {result : Json} {orders : List Directive}
      (current : l.run = some r) (filled : Filled b l r slots)
      (ready : Engine.nextStep b (b.pipelineOf r) { r with slots := slots } = .act action)
      (spoken : said = l.failuresSaid ∨ said = l.failuresSaid ++ [r.serial])
      (goes : Advances b ({ l with
        nextActionRun := l.nextActionRun + 1
        failuresSaid := said
        run := some { r with slots := slots } }.finished "failed" (some result)) l' orders) :
      Advances b l l' orders

/-- **What closes an operation**, with the orders it gives. -/
inductive Closes (b : Business) : Ledger → Ledger → List Directive → Prop
  | rests {l : Ledger} : Closes b l l []
  | advances {l l' : Ledger} {orders : List Directive} (goes : Advances b l l' orders) :
      Closes b l l' orders
  | hangsUp {l : Ledger} : Closes b l { l with phase := .ending } [.hangup]
  | handsOff {l : Ledger} (summary : HandoffSummary) :
      Closes b l { l with phase := .handingOff } [.handoff summary]
  | retries {l : Ledger} {r : PipelineRun} {n : Nat} (current : l.run = some r)
      (waits : r.step = .executing n) (left : r.attempts < Reply.maxAttempts b (b.pipelineOf r)) :
      Closes b l { l with run := some { r with attempts := r.attempts + 1 } }
        [.runAction n ((b.pipelineOf r).action.getD "") (l.actionInput n)]
  | finishes {l l' : Ledger} {r : PipelineRun} {orders : List Directive} (outcome : String)
      (result : Option Json) (current : l.run = some r)
      (goes : Advances b (l.finished outcome result) l' orders) : Closes b l l' orders
  | finishesCall {l : Ledger} {r : PipelineRun} (result : Option Json) (current : l.run = some r)
      (last : l.suspended = []) (ends : (b.pipelineOf r).after = .end) :
      Closes b l { l.finished "success" result with phase := .ending } [.hangup]
  | givesUp {l : Ledger} {r : PipelineRun} (summary : HandoffSummary) (result : Option Json)
      (current : l.run = some r) :
      Closes b l { l.recorded "unknown" result with phase := .handingOff } [.handoff summary]
  | forced {l l' : Ledger} {orders : List Directive} (goes : Closes b l l' orders)
      (still : l'.phase = .active) : Closes b l { l' with phase := .ending } (orders ++ [.hangup])

end Closes

section Acts

variable [Unicode] {b : Business}

/-- **An operation on the ledger**: a path of allowed moves, and a close. -/
def Acts (b : Business) (allowed : Allowed) (l l' : Ledger) (orders : List Directive) : Prop :=
  ∃ m, Path (Move b) allowed l m ∧ Closes b m l' orders

variable {allowed : Allowed} {l m l' : Ledger} {orders : List Directive}

namespace Acts

theorem closing (close : Closes b l l' orders) : Acts b allowed l l' orders := ⟨l, .refl l, close⟩

theorem moving (path : Path (Move b) allowed l l') : Acts b allowed l l' [] := ⟨l', path, .rests⟩

theorem after (path : Path (Move b) allowed l m) (acts : Acts b allowed m l' orders) :
    Acts b allowed l l' orders := by
  obtain ⟨middle, rest, close⟩ := acts
  exact ⟨middle, path.trans rest, close⟩

end Acts

end Acts

section Books

variable [Unicode] {allowed : Allowed} {B B' B'' : Book}

/-- A book that moves quietly: no order, the same desk. -/
structure Book.Quietly (b : Business) (allowed : Allowed) (B B' : Book) : Prop where
  path : Path (Move b) allowed B.ledger B'.ledger
  orders : B'.orders = B.orders
  desk : B'.desk = B.desk

/-- A book on which an operation acts: it moves quietly, and gives the orders of its close. -/
structure Book.Acts (b : Business) (allowed : Allowed) (B B' : Book) : Prop where
  acts : ∃ orders, B'.orders = B.orders ++ orders ∧ Callora.Acts b allowed B.ledger B'.ledger orders
  desk : B'.desk = B.desk

/-- A book on which `advance` acts. -/
structure Book.Advances (b : Business) (B B' : Book) : Prop where
  goes : ∃ orders, B'.orders = B.orders ++ orders ∧ Callora.Advances b B.ledger B'.ledger orders
  desk : B'.desk = B.desk

/-- A book that an operation closes. -/
structure Book.Closes (b : Business) (B B' : Book) : Prop where
  goes : ∃ orders, B'.orders = B.orders ++ orders ∧ Callora.Closes b B.ledger B'.ledger orders
  desk : B'.desk = B.desk

variable {b : Business}

namespace Book

theorem Advances.closes (advances : Advances b B B') : Closes b B B' := by
  obtain ⟨⟨orders, given, goes⟩, desk⟩ := advances
  exact ⟨⟨orders, given, .advances goes⟩, desk⟩

theorem Closes.acts (closes : Closes b B B') : Acts b allowed B B' := by
  obtain ⟨⟨orders, given, goes⟩, desk⟩ := closes
  exact ⟨⟨orders, given, .closing goes⟩, desk⟩

theorem Closes.from (same : B'' = B) (closes : Closes b B'' B') : Closes b B B' := same ▸ closes

theorem Closes.rests (same : B' = B) : Closes b B B' := by
  subst same
  exact ⟨⟨[], (List.append_nil _).symm, .rests⟩, rfl⟩

theorem Quietly.refl (B : Book) : Quietly b allowed B B := ⟨.refl _, rfl, rfl⟩

theorem Quietly.of_eq (same : B' = B) : Quietly b allowed B B' := by
  subst same
  exact .refl B'

theorem Quietly.trans (first : Quietly b allowed B B') (second : Quietly b allowed B' B'') :
    Quietly b allowed B B'' :=
  ⟨first.path.trans second.path, second.orders.trans first.orders, second.desk.trans first.desk⟩

/-- Quiet moves are an operation that closes with nothing. -/
theorem Quietly.acts (quietly : Quietly b allowed B B') : Acts b allowed B B' :=
  ⟨⟨[], by rw [quietly.orders, List.append_nil], .moving quietly.path⟩, quietly.desk⟩

theorem Quietly.trans_acts (first : Quietly b allowed B B') (second : Acts b allowed B' B'') :
    Acts b allowed B B'' := by
  obtain ⟨⟨orders, given, acts⟩, desk⟩ := second
  exact ⟨⟨orders, by rw [given, first.orders], .after first.path acts⟩, desk.trans first.desk⟩

end Book

end Books

end Callora
