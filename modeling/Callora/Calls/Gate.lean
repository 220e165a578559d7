/-
**The action gate.**

A fresh request is only made for a run that lacks nothing (`Gate`): its required slots hold values,
what is uncertain was agreed to, and a task with a read-back was agreed to as a whole.

That no value changed since needs the history of a call: `History` follows the moves of every operation
and keeps the runs agreed to after the last change of their values through `set`, `clear` or `undo`.
Every call has a history (`history_exists`), and every history of a call passes the gate (`action_gate`).
-/
import Callora.Calls.Requests

set_option linter.unusedSectionVars false

namespace Callora

open Callora.Text Runs

/-- **What a run must be for its request.** -/
structure Gate (b : Business) (run : PipelineRun) : Prop where
  required : ∀ ps ∈ (b.pipelineOf run).slots, ps.required → run.holds ps.slot
  certain : ∀ ps ∈ (b.pipelineOf run).slots, ∀ cfg, b.slotConfig ps.slot = some cfg →
    ∀ st, run.slots[ps.slot]? = some st → st.confidence < cfg.confirmBelow → st.confirmed
  acting : ∀ action ∈ (b.pipelineOf run).action, ∀ cfg, b.action action = some cfg →
    ∀ (slot : String) (st : SlotState), run.slots[slot]? = some st →
      st.confidence < cfg.minConfidence → st.confirmed
  agreed : (b.pipelineOf run).confirm.isSome → run.confirmed

section Ready

variable {b : Business} {run : PipelineRun} {action : String}

theorem gate_certain {pipeline : PipelineConfig} (clear : Engine.doubtfulSlot b pipeline run = none) :
    ∀ ps ∈ pipeline.slots, ∀ cfg, b.slotConfig ps.slot = some cfg →
      ∀ st, run.slots[ps.slot]? = some st → st.confidence < cfg.confirmBelow → st.confirmed := by
  intro ps listed cfg config st held below
  have sure := List.findSome?_eq_none_iff.mp clear ps listed
  by_contra open'
  simp [held, config, below, open'] at sure

theorem gate_acting {cfg : ActionConfig} (config : b.action action = some cfg)
    (clear : Engine.belowAction b action run = none) (slot : String) (st : SlotState)
    (held : run.slots[slot]? = some st) (below : st.confidence < cfg.minConfidence) : st.confirmed := by
  by_contra open'
  have listed : (slot, st) ∈ run.slots.toList := Std.ExtTreeMap.mem_toList_iff_getElem?_eq_some.mpr held
  have found : (run.slots.toList.find? fun held =>
      !held.2.confirmed && held.2.confidence < cfg.minConfidence).isSome := by
    rw [List.find?_isSome]
    exact ⟨_, listed, by simp [open', below]⟩
  obtain ⟨entry, here⟩ := Option.isSome_iff_exists.mp found
  simp [Engine.belowAction, config, here] at clear

/-- **A run that is ready for its action passes the gate.** -/
theorem Gate.of_ready (ready : Engine.nextStep b (b.pipelineOf run) run = .act action) :
    (b.pipelineOf run).action = some action ∧ Gate b run := by
  unfold Engine.nextStep at ready
  split at ready
  · cases ready
  · rename_i clear
    split at ready
    · cases ready
    · rename_i complete
      split at ready
      · cases ready
      · rename_i agreed
        split at ready
        · cases ready
        · rename_i chosen named
          split at ready
          · cases ready
          · rename_i sure
            cases ready
            refine ⟨named, ?_, gate_certain clear, ?_, ?_⟩
            · intro ps listed required
              have held := List.find?_eq_none.mp (Option.map_eq_none_iff.mp complete) ps listed
              simpa [required] using held
            · intro action' here cfg config
              obtain rfl : action' = action := Option.some.inj (here.symm.trans named)
              exact gate_acting config sure
            · intro confirms
              obtain ⟨confirm, config⟩ := Option.isSome_iff_exists.mp confirms
              simpa [config] using agreed

end Ready

section History

/-- The moves that change a value through `set`, `clear` or `undo`. -/
def Label.changes : Label → Bool
  | store _ | write _ | clear _ | undo => true
  | _ => false

open Classical in
/-- The runs agreed to since their values last changed, after a move. -/
noncomputable def agreedAfter (label : Label) (l l' : Ledger) (agreed : Set Nat) : Set Nat :=
  match l.run, l'.run with
  | some r, some r' =>
    if label = .agree then insert r.serial agreed
    else if label.changes ∧ ¬SameValues r.slots r'.slots then agreed \ {r.serial}
    else agreed
  | _, _ => agreed

variable {b : Business} [Unicode]

/-- A move, remembered. -/
def Remembers (b : Business) (label : Label) (x y : Ledger × Set Nat) : Prop :=
  Move b label x.1 y.1 ∧ y.2 = agreedAfter label x.1 y.1 x.2

/-- **An operation, move by move**, with the runs agreed to before and after it. -/
inductive Recalls (b : Business) (e : Engine b) (op : Op) (agreed : Set Nat) : Set Nat → Prop
  | sets (customer : Option Customer) (phone : Option String) (left : op.leaves e =
      { e.state.toLedger with customer := customer, callerPhone := phone }) (quiet : op.orders e = []) :
      Recalls b e op agreed agreed
  | acts {l m : Ledger} {agreed' : Set Nat} (opens : Opens b (op.starts e) e.state.toLedger l)
      (path : Path (Remembers b) (fun label x => op.allows e label x.1) (l, agreed) (m, agreed'))
      (closes : Closes b m (op.leaves e) (op.orders e)) : Recalls b e op agreed agreed'

/-- **A history of a call**, and the runs agreed to in the end. -/
inductive History (b : Business) (seed : UInt64) : List Op → Set Nat → Prop
  | new : History b seed [] ∅
  | next {ops : List Op} {op : Op} {agreed agreed' : Set Nat} (history : History b seed ops agreed)
      (recalls : Recalls b (Call.final b seed ops) op agreed agreed') :
      History b seed (ops ++ [op]) agreed'

theorem remembered {allowed : Allowed} {l m : Ledger} (path : Path (Move b) allowed l m)
    (agreed : Set Nat) : ∃ agreed',
      Path (Remembers b) (fun label x => allowed label x.1) (l, agreed) (m, agreed') := by
  induction path with
  | refl => exact ⟨agreed, .refl _⟩
  | tail _ moved ih =>
    rename_i l₁ l₂ _
    obtain ⟨before, path⟩ := ih
    obtain ⟨label, may, moved⟩ := moved
    exact ⟨agreedAfter label l₁ l₂ before, path.trans (.single (l := label) may ⟨moved, rfl⟩)⟩

theorem recalls_exists (e : Engine b) (op : Op) (agreed : Set Nat) :
    ∃ agreed', Recalls b e op agreed agreed' := by
  have done := happens e op
  generalize left : op.leaves e = l' at done
  generalize given : op.orders e = orders at done
  cases done with
  | sets customer phone => exact ⟨agreed, .sets customer phone left given⟩
  | acts opens acts =>
    obtain ⟨m, path, closes⟩ := acts
    obtain ⟨agreed', path⟩ := remembered path agreed
    exact ⟨agreed', .acts opens path (by rw [left, given]; exact closes)⟩

/-- **Every call has a history.** -/
theorem history_exists (b : Business) (seed : UInt64) (ops : List Op) :
    ∃ agreed, History b seed ops agreed := by
  induction ops using List.reverseRecOn with
  | nil => exact ⟨∅, .new⟩
  | append_singleton ops op ih =>
    obtain ⟨agreed, history⟩ := ih
    obtain ⟨agreed', recalls⟩ := recalls_exists (Call.final b seed ops) op agreed
    exact ⟨agreed', .next history recalls⟩

end History

section Agreements

variable {b : Business} [Unicode] {l l' : Ledger} {r r' : PipelineRun} {label : Label}

theorem PipelineRun.set_confirmed {slot : String} {st : SlotState} (agreed : (r.set slot st).confirmed) :
    r.confirmed ∧ SameValues r.slots (r.set slot st).slots := by
  unfold PipelineRun.set at agreed
  dsimp only at agreed
  by_cases changed : r.slots[slot]?.map SlotState.value = some st.value
  · refine ⟨by simpa [changed] using agreed, fun k => ?_⟩
    show _ = (r.slots.insert slot st)[k]?.map SlotState.value
    rw [Std.ExtTreeMap.getElem?_insert]
    split
    · rename_i here
      obtain rfl : slot = k := Std.LawfulEqOrd.eq_of_compare here
      rw [changed, Option.map_some]
    · rfl
  · simp [changed] at agreed

/-- A run agreed to after a move was agreed to before it, with the same values where the move changes
values; or the move is the agreement. -/
theorem RunMove.confirmed (moved : RunMove b l label r r') (agreed : r'.confirmed) :
    label = .agree ∨ r.confirmed ∧ (label.changes → SameValues r.slots r'.slots) := by
  cases moved with
  | store fill =>
    unfold Engine.store at agreed ⊢
    split
    · rename_i same
      rw [if_pos same] at agreed
      exact .inr ⟨agreed, fun _ _ => rfl⟩
    · rename_i other
      rw [if_neg other] at agreed
      exact .inr ⟨(PipelineRun.set_confirmed agreed).1, fun _ => (PipelineRun.set_confirmed agreed).2⟩
  | write =>
    exact .inr ⟨(PipelineRun.set_confirmed agreed).1, fun _ => (PipelineRun.set_confirmed agreed).2⟩
  | clear slot =>
    unfold PipelineRun.clear at agreed ⊢
    split
    · rename_i absent
      rw [absent] at agreed
      exact .inr ⟨agreed, fun _ _ => rfl⟩
    · rename_i previous held
      simp [held] at agreed
  | undo undone =>
    obtain ⟨entry, -, same⟩ := Option.map_eq_some_iff.mp undone
    obtain ⟨rfl, -⟩ := Prod.mk.inj same
    cases agreed
  | readBack => cases agreed
  | agree => exact .inl rfl
  | fill => exact .inr ⟨agreed, fun changes => by cases changes⟩
  | reopen => exact .inr ⟨agreed, fun changes => by cases changes⟩
  | drop => exact .inr ⟨agreed, fun changes => by cases changes⟩
  | fire => exact .inr ⟨agreed, fun changes => by cases changes⟩
  | agreeSlot => exact .inr ⟨agreed, fun changes => by cases changes⟩
  | step => exact .inr ⟨agreed, fun changes => by cases changes⟩

/-- A run whose action is under way after a move had it under way before. -/
theorem RunMove.executing (moved : RunMove b l label r r') (executing : r'.step.isExecuting) :
    r.step.isExecuting := by
  cases moved with
  | store fill =>
    unfold Engine.store at executing
    split at executing <;> exact executing
  | clear slot =>
    unfold PipelineRun.clear at executing
    split at executing <;> exact executing
  | reopen => cases executing
  | undo => cases executing
  | agreeSlot => cases executing
  | readBack => cases executing
  | step waits => exact absurd executing (by simp [waits])
  | _ => exact executing

/-- **What the history of a call tells of its ledger.** -/
structure Remembered (l : Ledger) (agreed : Set Nat) : Prop where
  numbered : l.Numbered
  agreed : ∀ r ∈ l.openRuns, r.confirmed → r.serial ∈ agreed
  attempted : ∀ r ∈ l.openRuns, r.step.isExecuting → 0 < r.attempts

theorem agreedAfter_other {agreed : Set Nat} {s : Nat}
    (other : label.changes → ∀ r, l.run = some r → r.serial ≠ s) (here : s ∈ agreed) :
    s ∈ agreedAfter label l l' agreed := by
  unfold agreedAfter
  split
  · rename_i r r' run run'
    split
    · exact Set.mem_insert_of_mem _ here
    · split
      · rename_i changed
        exact ⟨here, fun same => other changed.1 r run same.symm⟩
      · exact here
  · exact here

theorem agreedAfter_current {agreed : Set Nat} (current : l.run = some r) (moved : RunMove b l label r r')
    (confirmed : r'.confirmed) (before : r.confirmed → r.serial ∈ agreed) :
    r.serial ∈ agreedAfter label l { l with run := some r' } agreed := by
  unfold agreedAfter
  rw [current]
  dsimp only
  split
  · exact Set.mem_insert _ _
  · rename_i other
    rcases moved.confirmed confirmed with agree | ⟨still, same⟩
    · exact absurd agree other
    · rw [if_neg (fun changed => changed.2 (same changed.1))]
      exact before still

/-- A run open after a move was open before, is new, or is the current one, moved. -/
theorem Move.sources (moved : Move b label l l') : ∀ q ∈ l'.openRuns,
    (q ∈ l.openRuns ∧ (label.changes → q ∈ l.suspended)) ∨
      (q.confirmed = false ∧ q.step.isExecuting = false) ∨
      ∃ r, l.run = some r ∧ l' = { l with run := some q } ∧ RunMove b l label r q := by
  intro q listed
  cases moved with
  | run current moved =>
    rename_i r r'
    rcases List.mem_append.mp listed with waits | here
    · exact .inl ⟨List.mem_append_left _ waits, fun _ => waits⟩
    · obtain rfl : q = r' := List.mem_singleton.mp here
      exact .inr (.inr ⟨r, current, rfl, moved⟩)
  | start other carried =>
    rename_i pipeline intent aside slots
    rcases List.mem_append.mp listed with waits | new
    · refine .inl ⟨?_, fun changes => by cases changes⟩
      rcases List.mem_append.mp waits with suspended | left
      · exact List.mem_append_left _ suspended
      · split at left
        · exact List.mem_append_right _ left
        · exact absurd left List.not_mem_nil
    · obtain rfl := List.mem_singleton.mp new
      exact .inr (.inl ⟨rfl, rfl⟩)
  | cancel => exact absurd listed (by simp [Ledger.openRuns])
  | count => exact .inl ⟨listed, fun changes => by cases changes⟩
  | sayFailure => exact .inl ⟨listed, fun changes => by cases changes⟩

theorem Ledger.mem_openRuns (current : l.run = some r) : r ∈ l.openRuns := by
  rw [Ledger.openRuns_of_run current]
  exact List.mem_append_right _ List.mem_cons_self

/-- **A move keeps what is remembered.** -/
theorem Move.remembered {agreed : Set Nat} (moved : Move b label l l')
    (remembered : Remembered l agreed) :
    Remembered l' (agreedAfter label l l' agreed) := by
  refine ⟨moved.numbered remembered.numbered, fun q listed confirmed => ?_,
    fun q listed executing => ?_⟩
  · rcases moved.sources q listed with ⟨before, waits⟩ | ⟨fresh, -⟩ | ⟨r, current, rfl, goes⟩
    · refine agreedAfter_other (fun changes r current same => ?_) (remembered.agreed q before confirmed)
      exact (remembered.numbered.current current).1 (same ▸ List.mem_map_of_mem (waits changes))
    · exact absurd confirmed (by simp [fresh])
    · rw [goes.sameRun.serial]
      exact agreedAfter_current current goes confirmed
        (remembered.agreed r (Ledger.mem_openRuns current))
  · rcases moved.sources q listed with ⟨before, -⟩ | ⟨-, idle⟩ | ⟨r, current, rfl, goes⟩
    · exact remembered.attempted q before executing
    · exact absurd executing (by simp [idle])
    · rw [goes.sameRun.attempts]
      exact remembered.attempted r (Ledger.mem_openRuns current) (goes.executing executing)

end Agreements

section Closing

variable {b : Business} [Unicode] {l l' : Ledger} {orders : List Directive} {n : Nat}

/-- The run `r'` is `r`, agreed to as before; an action under way was attempted. -/
structure AgreedAs (r r' : PipelineRun) : Prop where
  serial : r'.serial = r.serial
  confirmed : r'.confirmed = r.confirmed
  attempted : r'.step.isExecuting → 0 < r'.attempts ∨ r.step.isExecuting ∧ r'.attempts = r.attempts

theorem AgreedAs.refl (r : PipelineRun) : AgreedAs r r :=
  ⟨rfl, rfl, fun executing => .inr ⟨executing, rfl⟩⟩

theorem AgreedAs.trans {r r' r'' : PipelineRun} (first : AgreedAs r r') (second : AgreedAs r' r'') :
    AgreedAs r r'' := by
  refine ⟨second.serial.trans first.serial, second.confirmed.trans first.confirmed, fun executing => ?_⟩
  rcases second.attempted executing with attempted | ⟨before, same⟩
  · exact .inl attempted
  · rw [same]
    exact first.attempted before

/-- Every run open in `l'` is one of `l`, agreed to as before. -/
def AgreedAlike (l l' : Ledger) : Prop := ∀ r' ∈ l'.openRuns, ∃ r ∈ l.openRuns, AgreedAs r r'

theorem AgreedAlike.trans {l'' : Ledger} (first : AgreedAlike l l') (second : AgreedAlike l' l'') :
    AgreedAlike l l'' := by
  intro r'' listed
  obtain ⟨r', here, later⟩ := second r'' listed
  obtain ⟨r, before, same⟩ := first r' here
  exact ⟨r, before, same.trans later⟩

theorem AgreedAlike.of_subset (fewer : ∀ r ∈ l'.openRuns, r ∈ l.openRuns) : AgreedAlike l l' :=
  fun r listed => ⟨r, fewer r listed, .refl r⟩

/-- The current run moves on. -/
theorem AgreedAlike.of_run {r r' : PipelineRun} (current : l.run = some r)
    (opened : l'.openRuns = l.suspended ++ [r']) (same : AgreedAs r r') : AgreedAlike l l' := by
  intro q listed
  rw [opened] at listed
  rcases List.mem_append.mp listed with waits | here
  · exact ⟨q, List.mem_append_left _ waits, .refl q⟩
  · obtain rfl : q = r' := List.mem_singleton.mp here
    exact ⟨r, Ledger.mem_openRuns current, same⟩

theorem Ledger.finished_agreed (outcome : String) (result : Option Json) :
    AgreedAlike l (l.finished outcome result) :=
  .of_subset fun r listed => by
    rw [Ledger.finished_openRuns] at listed
    exact List.mem_append_left _ listed

theorem Advances.agreed (goes : Advances b l l' orders) : AgreedAlike l l' := by
  induction goes with
  | idle => exact .of_subset fun _ listed => listed
  | pauses current filled waits =>
    exact .of_run current rfl ⟨rfl, rfl, fun executing => absurd executing (by simp [waits])⟩
  | sends current => exact .of_run current rfl ⟨rfl, rfl, fun _ => .inl Nat.one_pos⟩
  | completes current filled ready goes ih =>
    refine .trans (.of_subset fun r listed => ?_) ih
    rw [Ledger.finished_openRuns] at listed
    exact List.mem_append_left _ listed
  | fails current filled ready spoken goes ih =>
    refine .trans (.of_subset fun r listed => ?_) ih
    rw [Ledger.finished_openRuns] at listed
    exact List.mem_append_left _ listed

theorem Closes.agreed (closes : Closes b l l' orders) : AgreedAlike l l' := by
  induction closes with
  | rests => exact .of_subset fun _ listed => listed
  | advances goes => exact goes.agreed
  | hangsUp => exact .of_subset fun _ listed => listed
  | handsOff => exact .of_subset fun _ listed => listed
  | retries current => exact .of_run current rfl ⟨rfl, rfl, fun _ => .inl (Nat.succ_pos _)⟩
  | finishes outcome result current goes => exact .trans (Ledger.finished_agreed _ _) goes.agreed
  | finishesCall result current => exact Ledger.finished_agreed "success" result
  | givesUp summary result current =>
    refine .of_subset fun r listed => ?_
    rw [Ledger.recorded_of_run current] at listed
    exact List.mem_append_left _ (by simpa [Ledger.openRuns] using listed)
  | forced _ _ ih => exact ih

/-- **A close keeps what is remembered.** -/
theorem Closes.remembered {agreed : Set Nat} (closes : Closes b l l' orders)
    (remembered : Remembered l agreed) : Remembered l' agreed := by
  refine ⟨closes.numbered remembered.numbered, fun r' listed confirmed => ?_,
    fun r' listed executing => ?_⟩
  · obtain ⟨r, before, same⟩ := closes.agreed r' listed
    rw [same.serial]
    exact remembered.agreed r before (same.confirmed ▸ confirmed)
  · obtain ⟨r, before, same⟩ := closes.agreed r' listed
    rcases same.attempted executing with attempted | ⟨under, alike⟩
    · exact attempted
    · rw [alike]
      exact remembered.attempted r before under

/-- A run that makes its first request passes the gate. -/
def Passes (b : Business) (l : Ledger) (n : Nat) : Prop :=
  ∀ run, l.run = some run → run.step = .executing n → run.attempts = 1 → Gate b run

theorem Gate.executing {run : PipelineRun} (gate : Gate b run) (st : Step) (attempts : Nat) :
    Gate b { run with step := st, attempts := attempts } :=
  ⟨gate.required, gate.certain, gate.acting, gate.agreed⟩

theorem Advances.gate (goes : Advances b l l' orders) (sent : n ∈ requests orders) : Passes b l' n := by
  induction goes with
  | idle => cases sent
  | pauses => cases sent
  | sends current filled ready =>
    rintro run same - -
    obtain rfl := Option.some.inj same
    exact (Gate.of_ready ready).2.executing _ _
  | completes _ _ _ _ ih => exact ih sent
  | fails _ _ _ _ _ ih => exact ih sent

theorem Closes.gate (closes : Closes b l l' orders) (attempted : ∀ r ∈ l.openRuns, r.step.isExecuting →
    0 < r.attempts) (sent : n ∈ requests orders) : Passes b l' n := by
  induction closes with
  | rests => cases sent
  | advances goes => exact goes.gate sent
  | hangsUp => cases sent
  | handsOff => cases sent
  | retries current waits left =>
    -- A request that is tried again is not the first.
    rename_i l r n'
    rintro run same - first
    obtain rfl := Option.some.inj same
    have before := attempted r (Ledger.mem_openRuns current) (by rw [waits]; rfl)
    have first : r.attempts + 1 = 1 := first
    omega
  | finishes _ _ _ goes => exact goes.gate sent
  | finishesCall => cases sent
  | givesUp => cases sent
  | forced _ _ ih =>
    exact ih (by simpa [requests, Directive.runId?] using sent)

end Closing

section Gated

variable {b : Business} [Unicode] {seed : UInt64} {ops : List Op} {agreed : Set Nat}

theorem Recalls.moved {e : Engine b} {op : Op} {l m : Ledger} {agreed' : Set Nat}
    (remembered : Remembered e.state.toLedger agreed) (opens : Opens b (op.starts e) e.state.toLedger l)
    (path : Path (Remembers b) (fun label x => op.allows e label x.1) (l, agreed) (m, agreed')) :
    Remembered m agreed' := by
  have opened : Remembered l agreed := by
    generalize op.starts e = started at opens
    cases opens with
    | stays => exact remembered
    | starts moved =>
      have kept := moved.remembered remembered
      unfold agreedAfter at kept
      split at kept
      · rwa [if_neg (by simp), if_neg (by simp [Label.changes])] at kept
      · exact kept
  exact path.preserves (P := fun x => Remembered x.1 x.2) (fun label x y may moved kept => by
    rw [moved.2]
    exact moved.1.remembered kept) opened

theorem Recalls.remembered {e : Engine b} {op : Op} {agreed' : Set Nat}
    (recalls : Recalls b e op agreed agreed')
    (remembered : Remembered e.state.toLedger agreed) : Remembered (op.leaves e) agreed' := by
  cases recalls with
  | sets customer phone left =>
    rw [left]
    exact ⟨⟨remembered.numbered.distinct, remembered.numbered.below⟩, remembered.agreed,
      remembered.attempted⟩
  | acts opens path closes => exact closes.remembered (Recalls.moved remembered opens path)

theorem History.remembered (history : History b seed ops agreed) :
    Remembered (Call.final b seed ops).state.toLedger agreed := by
  induction history with
  | new =>
    exact ⟨Ledger.new_numbered, fun _ listed => absurd listed List.not_mem_nil,
      fun _ listed => absurd listed List.not_mem_nil⟩
  | next history recalls ih =>
    have kept := recalls.remembered ih
    unfold Call.final
    rw [final_append]
    exact kept

/-- **The action gate**: a run that makes its first request passes the gate, and in every history of the
call it was agreed to, if its task is read back, after the last change of its values. -/
theorem action_gate (b : Business) (seed : UInt64) (ops : List Op) (op : Op) (n : Nat)
    (sent : n ∈ requests (op.orders (Call.final b seed ops))) :
    ∃ run, (Call.final b seed (ops ++ [op])).state.run = some run ∧ run.step = .executing n ∧
      (run.attempts = 1 → Gate b run ∧ ((b.pipelineOf run).confirm.isSome →
        (∃ agreed, History b seed (ops ++ [op]) agreed) ∧
          ∀ agreed, History b seed (ops ++ [op]) agreed → run.serial ∈ agreed)) := by
  have after : (Call.final b seed (ops ++ [op])).state.toLedger =
      op.leaves (Call.final b seed ops) := by
    unfold Call.final
    rw [final_append]
    rfl
  obtain ⟨run, current, waits⟩ := Op.request sent
  rw [← after] at current
  refine ⟨run, current, waits, fun first => ?_⟩
  have gate : Gate b run := by
    obtain ⟨agreed, history⟩ := history_exists b seed ops
    obtain ⟨agreed', recalls⟩ := recalls_exists (Call.final b seed ops) op agreed
    cases recalls with
    | sets customer phone left quiet => simp [quiet, requests] at sent
    | acts opens path closes =>
      have moved := Recalls.moved history.remembered opens path
      rw [after] at current
      exact closes.gate moved.attempted sent run current waits first
  refine ⟨gate, fun confirms => ⟨history_exists b seed _, fun agreed history => ?_⟩⟩
  exact history.remembered.agreed run (Ledger.mem_openRuns current) (gate.agreed confirms)

end Gated

section Sample

open Sample

/-- The ride of the sample passes the gate. -/
theorem action_gate_ride :
    ∃ run, (Call.final rides 7 rideRequested).state.run = some run ∧ run.step = .executing 1 ∧
      (run.attempts = 1 → Gate rides run ∧ ((rides.pipelineOf run).confirm.isSome →
        (∃ agreed, History rides 7 rideRequested agreed) ∧
          ∀ agreed, History rides 7 rideRequested agreed → run.serial ∈ agreed)) :=
  action_gate rides 7 [.start, asks "a ride for two" "ride" [number "seats" 2]] agrees 1
    (by decide +kernel)

end Sample

end Callora
