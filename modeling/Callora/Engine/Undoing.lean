/-
**Going back.**

`PipelineRun.undo` takes back the last change of a run. Any changes are undone exactly, one entry of the
journal at a time; but the rules that fired stay listed, although the value they fired for is back.

* `changed_undo` — one change, undone: the slots and the journal of before.
* `rollsBack` — any changes, undone one by one.
* `listed_not_hit` — a rule that is listed does not apply, whatever it is about.
* `undo_exact_iff` — going back does all it should exactly in a run in which nothing is stale.
-/
import Callora.Engine.Flow

set_option linter.unusedSectionVars false

namespace Callora

open Callora.Text

/-- Whether a slot's value, if it has one, meets a rule's test. -/
def ConditionTest.met (test : ConditionTest) (value : Option SlotValue) : Bool :=
  match test with
  | .gt x => (value.bind SlotValue.asF64).any fun v => decide (x < v)
  | .lt x => (value.bind SlotValue.asF64).any fun v => decide (v < x)
  | .eq x => value.any fun v => v.matchesJson x
  | .present p => value.isSome == p

namespace PipelineRun

/-- The value a run holds for a slot. -/
def value (r : PipelineRun) (slot : String) : Option SlotValue := r.slots[slot]?.map SlotState.value

/-- A journaled change of a run. -/
inductive Change where
  | set (slot : String) (st : SlotState)
  | clear (slot : String)

/-- A change, made. -/
def change (r : PipelineRun) : Change → PipelineRun
  | .set slot st => r.set slot st
  | .clear slot => r.clear slot

/-- The changes, one after the other. -/
def changed (r : PipelineRun) (changes : List Change) : PipelineRun := changes.foldl change r

/-- So many changes taken back, with the slots that changed. -/
def undoTimes : Nat → PipelineRun → Option (PipelineRun × List String)
  | 0, r => some (r, [])
  | n + 1, r => do
    let (r, slot) ← r.undo
    let (r, slots) ← undoTimes n r
    some (r, slot :: slots)

section Undo

variable {r back : PipelineRun} {slot : String}

/-- The run without its last journal entry, and with the slot as the entry has it. -/
def restored (r : PipelineRun) (entry : JournalEntry) : PipelineRun :=
  { r with
    journal := r.journal.dropLast
    slots := match entry.previous with
      | some previous => r.slots.insert entry.slot previous
      | none => r.slots.erase entry.slot
    confirmed := false }

theorem undo_eq (r : PipelineRun) :
    r.undo = r.journal.getLast?.map fun entry => (r.restored entry, entry.slot) := rfl

theorem restored_slot (r : PipelineRun) (entry : JournalEntry) :
    (r.restored entry).slots[entry.slot]? = entry.previous := by
  unfold restored
  cases before : entry.previous with
  | some previous => exact Std.ExtTreeMap.getElem?_insert_self
  | none => exact Std.ExtTreeMap.getElem?_erase_self

theorem restored_other (r : PipelineRun) (entry : JournalEntry) {other : String}
    (apart : other ≠ entry.slot) :
    (r.restored entry).slots[other]? = r.slots[other]? := by
  have differ : compare entry.slot other ≠ .eq :=
    fun same => apart (Std.LawfulEqOrd.eq_of_compare same).symm
  unfold restored
  cases before : entry.previous with
  | some previous => exact Std.ExtTreeMap.getElem?_insert.trans (if_neg differ)
  | none => exact Std.ExtTreeMap.getElem?_erase.trans (if_neg differ)

/-- A slot put back as it was is all there was to undo. -/
theorem restored_slots {before : PipelineRun} {entry : JournalEntry}
    (was : before.slots[entry.slot]? = entry.previous)
    (others : ∀ other, other ≠ entry.slot → r.slots[other]? = before.slots[other]?) :
    (r.restored entry).slots = before.slots := by
  refine Std.ExtTreeMap.ext_getElem? fun key => ?_
  by_cases here : key = entry.slot
  · rw [here, restored_slot, was]
  · rw [restored_other r entry here, others key here]

/-- **One change, undone**: nothing was journaled and nothing changed, or its entry takes it back. -/
theorem changed_undo (r : PipelineRun) (c : Change) : r.change c = r ∨ ∃ entry,
    (r.change c).journal = r.journal ++ [entry] ∧ ∀ later : PipelineRun,
      later.slots = (r.change c).slots → (later.restored entry).slots = r.slots := by
  cases c with
  | set slot st =>
    refine .inr ⟨⟨slot, r.slots[slot]?⟩, rfl, fun later same => restored_slots rfl fun other apart => ?_⟩
    have differ : compare slot other ≠ .eq := fun same => apart (Std.LawfulEqOrd.eq_of_compare same).symm
    rw [same]
    exact Std.ExtTreeMap.getElem?_insert.trans (if_neg differ)
  | clear slot =>
    cases holds : r.slots[slot]? with
    | none =>
      refine .inl ?_
      show r.clear slot = r
      unfold clear
      rw [holds]
    | some previous =>
      have cleared : r.clear slot =
          { r with
            slots := r.slots.erase slot
            journal := r.journal ++ [⟨slot, some previous⟩]
            confirmed := false } := by
        unfold clear
        rw [holds]
      refine .inr ⟨⟨slot, some previous⟩, congrArg PipelineRun.journal cleared,
        fun later same => restored_slots holds fun other apart => ?_⟩
      have differ : compare slot other ≠ .eq :=
        fun same => apart (Std.LawfulEqOrd.eq_of_compare same).symm
      rw [same, show (r.change (.clear slot)).slots = r.slots.erase slot from
        congrArg PipelineRun.slots cleared]
      exact Std.ExtTreeMap.getElem?_erase.trans (if_neg differ)

/-- A run with the slots and the journal of another, taken back once. -/
theorem undo_of_journal {before : PipelineRun} {entry : JournalEntry}
    (journal : r.journal = before.journal ++ [entry]) : r.undo = some (r.restored entry, entry.slot) ∧
      (r.restored entry).journal = before.journal := by
  refine ⟨?_, ?_⟩
  · rw [undo_eq, journal, List.getLast?_concat]
    rfl
  · show r.journal.dropLast = before.journal
    rw [journal, List.dropLast_concat]

/-- **The changes of a run, undone**: as many times as they were journaled, and each time the slot of the
entry that was put back. -/
structure RollsBack (r : PipelineRun) (changes : List Change) : Prop where
  undone : ∃ entries back, (r.changed changes).journal = r.journal ++ entries ∧
    (r.changed changes).undoTimes entries.length = some (back, entries.reverse.map JournalEntry.slot) ∧
    back.slots = r.slots ∧ back.journal.length = r.journal.length ∧
    (0 < entries.length → back.confirmed = false)

/-- The induction of `rollsBack`: a run with the slots and the journal the changes left goes back to
those of before. -/
theorem undoTimes_changed (r : PipelineRun) (changes : List Change) : ∃ entries,
    (r.changed changes).journal = r.journal ++ entries ∧ ∀ later : PipelineRun,
      later.slots = (r.changed changes).slots → later.journal = (r.changed changes).journal → ∃ back,
        later.undoTimes entries.length = some (back, entries.reverse.map JournalEntry.slot) ∧
        back.slots = r.slots ∧ back.journal = r.journal ∧
        (0 < entries.length → back.confirmed = false) := by
  induction changes using List.reverseRecOn with
  | nil =>
    refine ⟨[], (List.append_nil _).symm, fun later slots journal => ?_⟩
    exact ⟨later, rfl, slots, journal, fun none' => absurd none' (lt_irrefl 0)⟩
  | append_singleton changes c ih =>
    obtain ⟨entries, pushed, ih⟩ := ih
    have step : r.changed (changes ++ [c]) = (r.changed changes).change c := List.foldl_concat ..
    rw [step]
    rcases changed_undo (r.changed changes) c with same | ⟨entry, journal, takesBack⟩
    · rw [same]
      exact ⟨entries, pushed, ih⟩
    · refine ⟨entries ++ [entry], by rw [journal, pushed, List.append_assoc],
        fun later slots logged => ?_⟩
      obtain ⟨undone, shorter⟩ := undo_of_journal (logged.trans journal)
      obtain ⟨back, all, same, old, denied⟩ := ih (later.restored entry) (takesBack later slots) shorter
      refine ⟨back, ?_, same, old, fun _ => ?_⟩
      · rw [List.length_append, List.length_singleton, List.reverse_append, List.reverse_singleton,
          List.singleton_append, List.map_cons]
        show (do
          let (run, slot) ← later.undo
          let (run, slots) ← undoTimes entries.length run
          some (run, slot :: slots)) = _
        rw [undone, Option.bind_eq_bind, Option.bind_some]
        show (undoTimes entries.length (later.restored entry)).bind _ = _
        rw [all]
        rfl
      · -- With no entry before it, this undo is the last one, and it withdraws the agreement.
        by_cases first : entries = []
        · subst first
          obtain ⟨rfl, -⟩ := Prod.mk.inj (Option.some.inj all)
          rfl
        · exact denied (List.length_pos_iff.mpr first)

/-- **Any changes are undone exactly.** -/
theorem rollsBack (r : PipelineRun) (changes : List Change) : RollsBack r changes := by
  obtain ⟨entries, pushed, undone⟩ := undoTimes_changed r changes
  obtain ⟨back, all, slots, journal, denied⟩ := undone _ rfl rfl
  exact ⟨entries, back, pushed, all, slots, congrArg List.length journal, denied⟩

/-- The slot an undo names is the one whose entry it took back, and no other changes. -/
def NamesRestored (r : PipelineRun) : Prop := ∀ back slot, r.undo = some (back, slot) →
  ∃ entry, r.journal = back.journal ++ [entry] ∧ entry.slot = slot ∧
    back.slots[slot]? = entry.previous ∧ ∀ other, other ≠ slot → back.slots[other]? = r.slots[other]?

theorem undo_cases (undone : r.undo = some (back, slot)) : ∃ entry,
    r.journal.getLast? = some entry ∧ back = r.restored entry ∧ slot = entry.slot := by
  rw [undo_eq, Option.map_eq_some_iff] at undone
  obtain ⟨entry, last, same⟩ := undone
  exact ⟨entry, last, (Prod.mk.inj same).1.symm, (Prod.mk.inj same).2.symm⟩

theorem namesRestored (r : PipelineRun) : NamesRestored r := by
  intro back slot undone
  obtain ⟨entry, last, rfl, rfl⟩ := undo_cases undone
  refine ⟨entry, ?_, rfl, restored_slot r entry, fun other apart => restored_other r entry apart⟩
  exact (List.dropLast_append_getLast? entry last).symm

end Undo

section Rules

variable (b : Business)

/-- **A rule fires once per value change**: after an undo that changed a value, no rule the value that is
back meets is listed as fired. -/
def RearmsRules (r : PipelineRun) : Prop := ∀ back slot, r.undo = some (back, slot) →
  back.value slot ≠ r.value slot → ∀ rule ∈ b.config.rules, rule.when.slot = slot →
    rule.when.test.met (back.value slot) = true → rule.id ∉ back.firedRules

/-- Nothing is stale: the value in the last entry of the journal is the one the run holds, or no rule it
meets is listed as fired. -/
def NothingStale (r : PipelineRun) : Prop := ∀ entry, r.journal.getLast? = some entry →
  entry.previous.map SlotState.value ≠ r.value entry.slot → ∀ rule ∈ b.config.rules,
    rule.when.slot = entry.slot → rule.when.test.met (entry.previous.map SlotState.value) = true →
      rule.id ∉ r.firedRules

variable {b}

theorem rearmsRules_iff (r : PipelineRun) : RearmsRules b r ↔ NothingStale b r := by
  have value (entry : JournalEntry) : (r.restored entry).value entry.slot =
      entry.previous.map SlotState.value := congrArg (Option.map SlotState.value) (restored_slot r entry)
  constructor
  · intro rearms entry last
    have undone : r.undo = some (r.restored entry, entry.slot) := by
      rw [undo_eq, last]
      rfl
    have rearmed := rearms _ _ undone
    rw [value] at rearmed
    exact rearmed
  · intro fresh back slot undone
    obtain ⟨entry, last, rfl, rfl⟩ := undo_cases undone
    rw [value]
    exact fresh entry last

/-- **Going back undoes exactly the last changes**, and lets the rules fire again, exactly in a run in
which nothing is stale. -/
theorem undo_exact_iff (r : PipelineRun) :
    ((∀ changes, RollsBack r changes) ∧ NamesRestored r ∧ RearmsRules b r) ↔ NothingStale b r := by
  refine ⟨fun ⟨_, _, rearms⟩ => (rearmsRules_iff r).mp rearms, fun fresh => ?_⟩
  exact ⟨rollsBack r, namesRestored r, (rearmsRules_iff r).mpr fresh⟩

end Rules

end PipelineRun

/-- `rule_hit`, by the test of its condition. -/
theorem Engine.ruleHit_eq {b : Business} (e : Engine b) (rule : RuleConfig) : e.ruleHit rule =
    e.state.run.any fun run => !(rule.pipeline.any (fun p => p != run.pipeline) ||
      run.firedRules.contains rule.id) && rule.when.test.met (run.value rule.when.slot) := by
  unfold ruleHit
  cases e.state.run with
  | none => rfl
  | some run =>
    simp only [Option.any_some]
    by_cases listed : (rule.pipeline.any (fun p => p != run.pipeline) ||
      run.firedRules.contains rule.id) = true
    · rw [if_pos listed, listed]
      rfl
    · rw [if_neg listed, Bool.eq_false_iff.mpr listed]
      unfold ConditionTest.met PipelineRun.value
      cases rule.when.test <;> simp

/-- A rule that is listed does not apply. -/
theorem Engine.listed_not_hit {b : Business} {e : Engine b} {rule : RuleConfig} {run : PipelineRun}
    (current : e.state.run = some run) (listed : rule.id ∈ run.firedRules) : e.ruleHit rule = false := by
  rw [ruleHit_eq, current, Option.any_some, List.contains_iff_mem.mpr listed, Bool.or_true]
  rfl

namespace Sample

/-- A ride for six, which the rule did not let through. -/
def turnedDown : PipelineRun :=
  ({ (PipelineRun.new 0 "ride" "ride").set "seats" ⟨.integer 6, 1, .rules, false⟩ with
    firedRules := ["many"] }).clear "seats"

/-- The six seats are back, and the rule that turned them down is still listed. -/
theorem turnedDown_stale : ¬((∀ changes, PipelineRun.RollsBack turnedDown changes) ∧
    PipelineRun.NamesRestored turnedDown ∧ PipelineRun.RearmsRules rides turnedDown) := by
  rintro ⟨-, -, rearms⟩
  have undone : turnedDown.undo =
    some (turnedDown.restored ⟨"seats", some ⟨.integer 6, 1, .rules, false⟩⟩,
    "seats") := by decide +kernel
  refine rearms _ _ undone (by decide) ⟨"many", none, ⟨"seats", .gt 4⟩, .reject "too_many"⟩
    (List.mem_singleton_self _) rfl (by decide) ?_
  decide

end Sample

end Callora
