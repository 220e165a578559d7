/-
**A call: the engine as a machine.**

A call is a run of the machine that takes one operation at a time (`Call.events`), from a new engine.

- `Op.allows`: the moves an operation may make in a state;
- `happens`: what any operation does to the ledger: a setting changes the customer or the number, anything
  else opens and acts (`Opens`, `Acts`), with the orders of its directives;
- `Op.apply_preserves`: the invariant rule of one operation, from its openings, moves and closes.
-/
import Callora.Ledger.Refines
import Callora.Ledger.Serials

set_option linter.unusedSectionVars false

namespace Callora

open Callora.Text Runs

variable {b : Business} [Unicode]

/-- What happened at one operation of a call. -/
abbrev CallEvent (b : Business) := Event (Engine b) Op (List Directive)

namespace Call

/-- The events of a call. -/
def events (b : Business) (seed : UInt64) (ops : List Op) : List (CallEvent b) :=
  Runs.events Op.apply (Engine.new b seed) ops

/-- The engine a call reaches. -/
def final (b : Business) (seed : UInt64) (ops : List Op) : Engine b :=
  Runs.final Op.apply (Engine.new b seed) ops

end Call

/-- The order to hang up. -/
def Directive.isHangup : Directive → Bool
  | .hangup => true
  | _ => false

/-- The run id of a request. -/
def Directive.runId? : Directive → Option Nat
  | .runAction runId _ _ => some runId
  | _ => none

/-- The orders of an operation: its directives but for speech. -/
def Op.orders (e : Engine b) (op : Op) : List Directive := (op.apply e).1.filter Directive.isOrder

/-- The ledger an operation leaves. -/
def Op.leaves (e : Engine b) (op : Op) : Ledger := (op.apply e).2.state.toLedger

/-- The moves an operation may make, once it has opened. -/
def Op.allows (e : Engine b) (op : Op) : Allowed
  | .undo, _ => op.goesBack e
  | .cancel, l => op.cancels e ∧ l = e.state.toLedger
  | .start _ aside, l => e.state.phase = .active ∧ e.state.run = none ∧
      l.suspended = e.state.suspended ∧ aside = false
  | .count, _ => op.isResult
  | .sayFailure, _ => op.isResult
  | _, _ => True

/-- **What an operation does to the ledger.** -/
inductive Happens (b : Business) (e : Engine b) (op : Op) : Ledger → List Directive → Prop
  | sets (customer : Option Customer) (phone : Option String) (setting : op.isSetting) :
      Happens b e op { e.state.toLedger with customer := customer, callerPhone := phone } []
  | acts {l l' : Ledger} {orders : List Directive} (opens : Opens b (op.starts e) e.state.toLedger l)
      (acts : Acts b (op.allows e) l l' orders) : Happens b e op l' orders

theorem Op.allows_routine (e : Engine b) (op : Op) : Routine (op.allows e) := by
  intro label l routine
  cases label <;> trivial

theorem Op.allows_fails {e : Engine b} {op : Op} (result : op.isResult) : Fails (op.allows e) :=
  ⟨fun _ => result, fun _ => result⟩

/-- **Every operation happens on the ledger.** -/
theorem happens (e : Engine b) (op : Op) : Happens b e op (op.leaves e) (op.orders e) := by
  cases setting : op.isSetting with
  | true =>
    cases op with
    | setCustomer customer => exact .sets customer e.state.callerPhone rfl
    | setCallerPhone phone => exact .sets e.state.customer (phone.filter fun p => trim p ≠ "") rfl
    | setDesk available => exact .sets e.state.customer e.state.callerPhone rfl
    | setGazetteer gazetteer => exact .sets e.state.customer e.state.callerPhone rfl
    | _ => cases setting
  | false =>
    obtain ⟨l, opens, acts⟩ := apply_acts (op.allows_routine e) e op setting (fun back _ => back)
      (fun cancels => ⟨cancels, rfl⟩) (fun result => Op.allows_fails result)
        fun active p l idle same => ⟨active, idle, same, rfl⟩
    obtain ⟨orders, given, goes⟩ := acts.acts
    have same : op.orders e = orders := given
    exact .acts opens (same ▸ goes)

/-- **The invariant rule of an operation.** -/
theorem Op.apply_preserves {P : Ledger → Prop} {e : Engine b} {op : Op} (start : P e.state.toLedger)
    (sets : ∀ customer phone,
      P { e.state.toLedger with customer := customer, callerPhone := phone })
    (starts : ∀ p aside l, op.starts e = some (p, aside) →
      Move b (.start p aside) e.state.toLedger l → P l)
    (moves : ∀ label l l', op.allows e label l → Move b label l l' → P l → P l')
    (closes : ∀ l l' orders, Closes b l l' orders → P l → P l') : P (op.leaves e) := by
  have done := happens e op
  generalize op.leaves e = l' at done ⊢
  generalize op.orders e = orders at done
  cases done with
  | sets customer phone => exact sets customer phone
  | acts opened acts =>
    obtain ⟨m, path, close⟩ := acts
    refine closes m _ _ close (path.preserves moves ?_)
    generalize opening : op.starts e = started at opened
    cases opened with
    | stays => exact start
    | starts moved => exact starts _ _ _ opening moved

namespace Sample

/-- "Please do this", with the details given. -/
def asks (transcript intent : String) (slots : List SlotFill) : Op :=
  .utterance { Understanding.empty transcript with intent := some ⟨intent, 1⟩, slots := slots }

/-- Yes. -/
def agrees : Op := .utterance { Understanding.empty "yes" with affirm := some true }

/-- An intent about the conversation. -/
def turns (transcript : String) (m : MetaIntent) : Op :=
  .utterance { Understanding.empty transcript with metaIntent := some m }

/-- A number given for a slot. -/
def number (slot : String) (n : Int) : SlotFill := ⟨slot, .integer n, 1, .rules⟩

end Sample

end Callora
