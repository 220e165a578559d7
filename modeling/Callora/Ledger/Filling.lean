/-
**What fills and changes the slots, as moves.**

- `fillDefaults_eq`: filling defaults keeps what the run holds and adds values of a `Source`;
- `newRun_eq`: a new run only holds values the last finished task left (`Carried`);
- `startRun_eq`: starting a run is a move of the run alone.

Nothing here changes what a run waits for.
-/
import Callora.Ledger.Silent

set_option linter.unusedSectionVars false

namespace Callora

open Callora.Text Runs

variable {b : Business}

namespace PipelineRun

theorem holds_eq (r : PipelineRun) (slot : String) : r.holds slot = r.slots[slot]?.isSome :=
  Std.ExtTreeMap.contains_eq_isSome_getElem?

theorem values_getElem? (r : PipelineRun) (slot : String) :
    r.values[slot]? = r.slots[slot]?.map SlotState.value :=
  Std.ExtTreeMap.getElem?_map

end PipelineRun

section Filling

variable [Unicode] {l : Ledger} {r : PipelineRun} {slots : BTreeMap SlotState}

namespace Filled

theorem refl (l : Ledger) (r : PipelineRun) : Filled b l r r.slots :=
  ⟨fun _ _ held => held, fun k st held absent => by simp [held] at absent⟩

/-- A sourced value put into a slot the run did not hold. -/
theorem insert {slot : String} {st : SlotState} (filled : Filled b l r slots)
    (absent : r.slots[slot]? = none) (source : Source b l r slot st.value) :
    Filled b l r (slots.insert slot st) where
  kept k old held := by
    have other : slot ≠ k := by
      rintro rfl
      simp [absent] at held
    rw [Std.ExtTreeMap.getElem?_insert]
    simp [other, filled.kept k old held]
  sourced k new held missing := by
    rw [Std.ExtTreeMap.getElem?_insert] at held
    by_cases same : slot = k
    · subst same
      obtain rfl : st = new := by simpa using held
      exact source
    · exact filled.sourced k new (by simpa [same] using held) missing

/-- A sourced value put into a slot that holds none. -/
theorem fillAbsent {slot : String} {st : SlotState} (filled : Filled b l r slots)
    (source : Source b l r slot st.value) :
    ∃ slots', ({ r with slots := slots } : PipelineRun).fillAbsent slot st = { r with slots := slots' } ∧
      Filled b l r slots' := by
  unfold PipelineRun.fillAbsent
  split
  · exact ⟨slots, rfl, filled⟩
  · rename_i empty
    refine ⟨slots.insert slot st, rfl, filled.insert ?_ source⟩
    cases held : r.slots[slot]? with
    | none => rfl
    | some old => exact absurd (by simp [PipelineRun.holds_eq, filled.kept slot old held]) empty

/-- A list of fillings, one after the other. -/
theorem foldl {α : Type} {f : PipelineRun → α → PipelineRun} (xs : List α)
    (each : ∀ x ∈ xs, ∀ slots, Filled b l r slots →
      ∃ slots', f { r with slots := slots } x = { r with slots := slots' } ∧ Filled b l r slots')
    (filled : Filled b l r slots) :
    ∃ slots', xs.foldl f { r with slots := slots } = { r with slots := slots' } ∧
      Filled b l r slots' := by
  induction xs generalizing slots with
  | nil => exact ⟨slots, rfl, filled⟩
  | cons x xs ih =>
    obtain ⟨next, here, filled⟩ := each x List.mem_cons_self slots filled
    rw [List.foldl_cons, here]
    exact ih (fun y listed => each y (List.mem_cons_of_mem x listed)) filled

end Filled

end Filling

namespace Engine

section Defaults

variable {e : Engine b} {r : PipelineRun}

/-- A value of another task is one of the sources. -/
theorem taskSource_source [Unicode] {ps : PipelineSlot} {v : SlotValue}
    (listed : ps ∈ (b.pipelineOf r).slots) (found : e.taskSource r ps = some v) :
    r.slots[ps.slot]? = none ∧ Source b e.state.toLedger r ps.slot v := by
  unfold taskSource at found
  cases taken : ps.fromSlot with
  | none => simp [taken] at found
  | some source =>
    simp only [taken, Option.bind_eq_bind, Option.bind_some] at found
    split at found
    · cases found
    · rename_i empty
      refine ⟨by simpa [PipelineRun.holds_eq] using empty, ?_⟩
      rcases Option.or_eq_some_iff.mp found with suspended | ⟨-, found⟩
      · obtain ⟨q, waits, value⟩ := List.exists_of_findSome?_eq_some suspended
        obtain ⟨st, held, rfl⟩ := Option.map_eq_some_iff.mp value
        exact .suspended listed rfl taken (List.mem_reverse.mp waits) held
      · rcases Option.or_eq_some_iff.mp found with completed | ⟨-, city⟩
        · obtain ⟨c, done, held⟩ := List.exists_of_findSome?_eq_some completed
          exact .completed listed rfl taken (List.mem_reverse.mp done) held
        · obtain ⟨name, -, rfl⟩ := Option.map_eq_some_iff.mp city
          exact .city name listed rfl taken

theorem fillFromOtherTasks_eq [Unicode] (current : e.state.run = some r) :
    ∃ slots, e.fillFromOtherTasks = e.setRun { r with slots := slots } ∧
      Filled b e.state.toLedger r slots := by
  unfold fillFromOtherTasks
  rw [current]
  dsimp only
  obtain ⟨slots, same, filled⟩ := Filled.foldl (b := b) (l := e.state.toLedger) (r := r)
    (f := fun run (x : String × SlotValue) => run.fill x.1 ⟨x.2, 0.9, .confirmed, false⟩)
    ((b.pipelineOf r).slots.filterMap fun ps => (e.taskSource r ps).map fun v => (ps.slot, v))
    (by
      intro x mem slots filled
      obtain ⟨ps, listed, entry⟩ := List.mem_filterMap.mp mem
      obtain ⟨v, found, rfl⟩ := Option.map_eq_some_iff.mp entry
      obtain ⟨absent, source⟩ := taskSource_source listed found
      exact ⟨_, rfl, filled.insert absent source⟩)
    (Filled.refl e.state.toLedger r)
  exact ⟨slots, congrArg e.setRun same, filled⟩

variable [Unicode]

theorem fillNames_filled (e' : Engine b) {slots : BTreeMap SlotState}
    (same : e'.state.customer = e.state.customer) (filled : Filled b e.state.toLedger r slots) :
    ∃ slots', e'.fillNames (b.pipelineOf r) { r with slots := slots } = { r with slots := slots' } ∧
      Filled b e.state.toLedger r slots' := by
  unfold fillNames
  refine Filled.foldl _ (fun ps mem slots filled => ?_) filled
  obtain ⟨listed, named⟩ := List.mem_filter.mp mem
  have taken : ps.fromCustomer = some "name" := eq_of_beq named
  unfold fillName
  split
  · rename_i v given
    unfold customerGives at given
    simp only [taken, same, Option.bind_eq_bind, Option.bind_some] at given
    obtain ⟨customer, known, given⟩ := Option.bind_eq_some_iff.mp given
    rw [if_pos trivial] at given
    obtain ⟨name, kept, rfl⟩ := Option.map_eq_some_iff.mp given
    exact filled.fillAbsent (.name listed rfl taken known (Option.filter_eq_some_iff.mp kept).1)
  · exact ⟨slots, rfl, filled⟩

theorem defaultState_source {e' : Engine b} {ps : PipelineSlot} {st : SlotState}
    (same : e'.state.customer = e.state.customer) (listed : ps ∈ (b.pipelineOf r).slots)
    (given : e'.defaultState ps = some st) : Source b e.state.toLedger r ps.slot st.value := by
  unfold defaultState at given
  split at given
  · rename_i place saved
    obtain ⟨key, taken, saved⟩ := Option.bind_eq_some_iff.mp saved
    obtain rfl := Option.some.inj given
    exact .place listed rfl taken (same ▸ saved)
  · obtain ⟨v, read, rfl⟩ := Option.map_eq_some_iff.mp given
    obtain ⟨d, given, read⟩ := Option.bind_eq_some_iff.mp read
    exact .default listed rfl given read

/-- **Filling the defaults.** -/
theorem fillDefaults_eq (current : e.state.run = some r) :
    ∃ slots, e.fillDefaults (b.pipelineOf r) = e.setRun { r with slots := slots } ∧
      Filled b e.state.toLedger r slots := by
  obtain ⟨first, same, filled⟩ := fillFromOtherTasks_eq current
  unfold fillDefaults
  rw [same]
  obtain ⟨second, named, filled⟩ := fillNames_filled (e := e)
    (e.setRun { r with slots := first }) rfl filled
  obtain ⟨third, rest, filled⟩ := Filled.foldl (b := b) (l := e.state.toLedger) (r := r)
    (f := (e.setRun { r with slots := first }).fillDefault) (b.pipelineOf r).slots
    (by
      intro ps listed slots filled
      unfold fillDefault
      split
      · rename_i st given
        exact filled.fillAbsent (defaultState_source rfl listed given)
      · exact ⟨slots, rfl, filled⟩)
    filled
  refine ⟨third, ?_, filled⟩
  show setRun _ (List.foldl _ (fillNames _ _ _) _) = _
  rw [named, rest]
  rfl

end Defaults

section NewRuns

variable {e : Engine b}

theorem carry_carried {l : Ledger} {done : CompletedRun} (listed : done ∈ l.completed)
    (new : PipelineRun) (all : List PipelineSlot) (slots : BTreeMap SlotState)
    (carried : Carried l slots) :
    ∃ slots', all.foldl (carry done) { new with slots := slots } = { new with slots := slots' } ∧
      Carried l slots' := by
  induction all generalizing slots with
  | nil => exact ⟨slots, rfl, carried⟩
  | cons ps all ih =>
    rw [List.foldl_cons, carry]
    split
    · rename_i value held
      unfold PipelineRun.fillAbsent
      split
      · exact ih slots carried
      · refine ih (slots.insert ps.slot ⟨value, 0.85, .rules, false⟩) fun k st found => ?_
        rw [Std.ExtTreeMap.getElem?_insert] at found
        by_cases same : ps.slot = k
        · subst same
          obtain rfl : _ = st := by simpa using found
          exact ⟨done, listed, held⟩
        · exact carried k st (by simpa [same] using found)
    · exact ih slots carried

/-- **A new run** only holds what the last finished task left. -/
theorem newRun_eq (e : Engine b) (pipeline intent : String) :
    ∃ slots, e.newRun pipeline intent =
        { PipelineRun.new e.state.runsStarted pipeline intent with slots := slots } ∧
      Carried e.state.toLedger slots := by
  have nothing : Carried e.state.toLedger ∅ := fun k st held => by simp at held
  unfold newRun
  dsimp only
  split
  · exact ⟨∅, rfl, nothing⟩
  · split
    · exact ⟨∅, rfl, nothing⟩
    · rename_i config _ _ done last
      have listed : done ∈ e.state.completed :=
        List.mem_reverse.mp (List.mem_filter.mp (List.mem_of_mem_head? last)).1
      exact carry_carried listed (PipelineRun.new e.state.runsStarted pipeline intent)
        config.slots ∅ nothing

/-- Starting a task drops the current one. -/
theorem startRun_eq (e : Engine b) (pipeline intent : String) :
    ∃ slots, Carried e.state.toLedger slots ∧ (e.startRun pipeline intent).state.toLedger =
      e.state.toLedger.started false pipeline intent slots := by
  obtain ⟨slots, same, carried⟩ := newRun_eq e pipeline intent
  refine ⟨slots, carried, ?_⟩
  have moved : (e.startRun pipeline intent).state.toLedger = { e.state.toLedger with
      run := some (e.newRun pipeline intent)
      runsStarted := e.state.runsStarted + 1 } := rfl
  rw [moved, same, Ledger.started, Ledger.left, if_neg Bool.false_ne_true, List.append_nil]

end NewRuns

end Engine

end Callora
