/-
**Merging the model's reading into the rules'.**

`merge` never degrades what the rules read, when each of the two readings has at most one value for
a slot.

* `held` — the value a list of fills holds for a slot; `won` — which of two values for a slot stays.
* `held_foldl_mergeFill` — the value held after a merge, from those held before it.
* `parseResponse_one` — the model's reading has one value for a slot.
* `merge_merge` — merging the same reading again changes nothing.
* `merge_neverDegrades` — the whole contract of `merge`, as `NeverDegrades`.
-/
import Callora.Business.LlmReply

set_option linter.unusedSectionVars false

namespace Callora

open Callora.Text

/-- At most one value for a slot. -/
def OneEach (fills : List SlotFill) : Prop := (fills.map SlotFill.slot).Nodup

/-- The value a list holds for a slot: the first. -/
def held (fills : List SlotFill) (slot : String) : Option SlotFill := fills.find? fun s => s.slot == slot

/-- Of a value read and one of the model for the same slot, the one that stays. -/
def won (read fill : SlotFill) : SlotFill :=
  if read.confidence < 0.9 ∧ read.confidence ≤ fill.confidence then fill else read

section Fills

variable {fills new : List SlotFill} {read fill : SlotFill} {slot : String}

theorem held_slot (found : held fills slot = some fill) : fill.slot = slot := by
  have here := List.find?_some found
  exact eq_of_beq here

theorem held_mem (found : held fills slot = some fill) : fill ∈ fills := List.mem_of_find?_eq_some found

theorem held_none : held fills slot = none ↔ ∀ s ∈ fills, s.slot ≠ slot := by
  simp [held, List.find?_eq_none]

/-- With one value for a slot, what is listed is what is held. -/
theorem OneEach.held_iff (one : OneEach fills) : held fills fill.slot = some fill ↔ fill ∈ fills := by
  refine ⟨held_mem, fun listed => ?_⟩
  induction fills with
  | nil => cases listed
  | cons first rest ih =>
    obtain ⟨fresh, one⟩ := List.nodup_cons.mp one
    rcases List.mem_cons.mp listed with rfl | later
    · simp [held]
    · have other : first.slot ≠ fill.slot := fun same =>
        fresh (same ▸ List.mem_map_of_mem later)
      have skip : held (first :: rest) fill.slot = held rest fill.slot := by
        simp [held, other]
      rw [skip]
      exact ih one later

theorem won_slot (same : read.slot = fill.slot) : (won read fill).slot = fill.slot := by
  unfold won
  split
  · rfl
  · exact same

theorem won_sure (sure : 0.9 ≤ read.confidence) : won read fill = read := by
  unfold won
  rw [if_neg (fun low => absurd low.1 (not_lt.mpr sure))]

/-- The value that won wins again. -/
theorem won_won : won (won read fill) fill = won read fill := by
  by_cases low : read.confidence < 0.9 ∧ read.confidence ≤ fill.confidence
  · rw [show won read fill = fill from if_pos low]
    exact ite_self _
  · rw [show won read fill = read from if_neg low]
    exact if_neg low

/-- What is lost is below its replacement. -/
theorem won_cases : won read fill = read ∨
    (won read fill = fill ∧ read.confidence ≤ fill.confidence) := by
  by_cases low : read.confidence < 0.9 ∧ read.confidence ≤ fill.confidence
  · exact .inr ⟨if_pos low, low.2⟩
  · exact .inl (if_neg low)

/-- **The value held once one of the model was merged in.** -/
theorem held_mergeFill : held (mergeFill fills fill) slot =
    if fill.slot = slot then some (((held fills slot).map fun read => won read fill).getD fill)
    else held fills slot := by
  induction fills with
  | nil =>
    by_cases here : fill.slot = slot
    · simp [held, mergeFill, here]
    · simp [held, mergeFill, here]
  | cons read rest ih =>
    by_cases same : read.slot = fill.slot
    · have merged : mergeFill (read :: rest) fill = won read fill :: rest := if_pos same
      rw [merged]
      by_cases here : fill.slot = slot
      · have own : (won read fill).slot = slot := (won_slot same).trans here
        simp [held, own, same.trans here, here]
      · have own : (won read fill).slot ≠ slot := fun same' => here ((won_slot same).symm.trans same')
        have other : read.slot ≠ slot := fun same' => here (same ▸ same')
        simp [held, own, other, here]
    · have merged : mergeFill (read :: rest) fill = read :: mergeFill rest fill := if_neg same
      rw [merged]
      by_cases first : read.slot = slot
      · have here : fill.slot ≠ slot := fun here => same (first.trans here.symm)
        simp [held, first, here]
      · have skip : ∀ tail : List SlotFill, held (read :: tail) slot = held tail slot := by
          intro tail
          simp [held, first]
        rw [skip, skip, ih]

/-- **The value held once the model's were merged in**, one for a slot. -/
theorem held_foldl_mergeFill (one : OneEach new) : held (new.foldl mergeFill fills) slot =
    match held new slot with
    | none => held fills slot
    | some fill => some (((held fills slot).map fun read => won read fill).getD fill) := by
  induction new generalizing fills with
  | nil => rfl
  | cons first rest ih =>
    obtain ⟨fresh, one⟩ := List.nodup_cons.mp one
    rw [List.foldl_cons, ih one, held_mergeFill]
    by_cases here : first.slot = slot
    · have gone : held rest slot = none :=
        held_none.mpr fun s listed same => fresh (here.trans same.symm ▸ List.mem_map_of_mem listed)
      have own : held (first :: rest) slot = some first := by simp [held, here]
      simp only [gone, own, if_pos here]
    · have skip : held (first :: rest) slot = held rest slot := by simp [held, here]
      simp only [skip, if_neg here]

/-- A slot stays in its place, and a new one goes to the end. -/
theorem mergeFill_slots : (mergeFill fills fill).map SlotFill.slot =
    if fill.slot ∈ fills.map SlotFill.slot then fills.map SlotFill.slot
    else fills.map SlotFill.slot ++ [fill.slot] := by
  induction fills with
  | nil => rfl
  | cons read rest ih =>
    by_cases same : read.slot = fill.slot
    · have merged : mergeFill (read :: rest) fill = won read fill :: rest := if_pos same
      rw [merged, List.map_cons, List.map_cons, won_slot same, same, if_pos List.mem_cons_self]
    · have merged : mergeFill (read :: rest) fill = read :: mergeFill rest fill := if_neg same
      rw [merged, List.map_cons, List.map_cons, ih]
      by_cases listed : fill.slot ∈ rest.map SlotFill.slot
      · rw [if_pos listed, if_pos (List.mem_cons_of_mem _ listed)]
      · rw [if_neg listed,
          if_neg (fun here => (List.mem_cons.mp here).elim (fun e => same e.symm) listed)]
        rfl

theorem OneEach.mergeFill (one : OneEach fills) : OneEach (mergeFill fills fill) := by
  unfold OneEach
  rw [mergeFill_slots]
  by_cases listed : fill.slot ∈ fills.map SlotFill.slot
  · rw [if_pos listed]
    exact one
  · rw [if_neg listed]
    exact List.nodup_append.mpr ⟨one, List.nodup_singleton _,
      fun a here b last => by rw [List.mem_singleton.mp last]; exact fun same => listed (same ▸ here)⟩

theorem OneEach.foldl_mergeFill (one : OneEach fills) : OneEach (new.foldl Callora.mergeFill fills) := by
  induction new generalizing fills with
  | nil => exact one
  | cons first rest ih => exact ih one.mergeFill

/-- A value that does not win changes nothing. -/
theorem mergeFill_eq (kept : held fills fill.slot = some read) (stays : won read fill = read) :
    mergeFill fills fill = fills := by
  induction fills with
  | nil => cases kept
  | cons first rest ih =>
    by_cases same : first.slot = fill.slot
    · have here : first = read := by simpa [held, List.find?_cons, same] using kept
      have merged : mergeFill (first :: rest) fill = won first fill :: rest := if_pos same
      rw [merged, here, stays]
    · have merged : mergeFill (first :: rest) fill = first :: mergeFill rest fill := if_neg same
      rw [merged, ih (by simpa [held, List.find?_cons, same] using kept)]

/-- Values none of which wins change nothing. -/
theorem foldl_mergeFill_eq
    (stay : ∀ fill ∈ new, ∃ read, held fills fill.slot = some read ∧ won read fill = read) :
    new.foldl mergeFill fills = fills := by
  induction new with
  | nil => rfl
  | cons first rest ih =>
    obtain ⟨read, kept, stays⟩ := stay first List.mem_cons_self
    rw [List.foldl_cons, mergeFill_eq kept stays]
    exact ih fun fill listed => stay fill (List.mem_cons_of_mem _ listed)

end Fills

section Parsed

variable [Unicode] {b : Business} {ctx : Context}

theorem takeItem_one {u : Understanding} {item : LlmItem} (one : OneEach u.slots) :
    OneEach (takeItem b ctx u item).slots := by
  unfold takeItem
  cases read : readItem b ctx item with
  | none => exact one
  | some value =>
    dsimp only
    split
    · rename_i absent
      have fresh : ∀ s ∈ u.slots, s.slot ≠ item.slot := held_none.mp (Option.isNone_iff_eq_none.mp absent)
      show ((u.slots ++ [fillOf item value]).map SlotFill.slot).Nodup
      rw [List.map_append]
      refine List.nodup_append.mpr ⟨one, List.nodup_singleton _, fun a here b last => ?_⟩
      obtain ⟨s, listed, rfl⟩ := List.mem_map.mp here
      rw [List.mem_singleton.mp last]
      exact fresh s listed
    · exact one

/-- **The model's reading has at most one value for a slot.** -/
theorem parseResponse_one (transcript : String) (reply : Json) :
    OneEach (parseResponse b ctx transcript reply).slots := by
  have kept : ∀ (items : List LlmItem) (u : Understanding), OneEach u.slots →
      OneEach (items.foldl (takeItem b ctx) u).slots := by
    intro items
    induction items with
    | nil => exact fun _ one => one
    | cons item rest ih => exact fun u one => ih _ (takeItem_one one)
  exact kept _ _ List.nodup_nil

end Parsed

section Merged

variable {fast llm : Understanding}

/-- The rules' values a merge goes on with. -/
def keptFills (fast llm : Understanding) : List SlotFill := fast.slots.filter (keptByMerge llm)

theorem merge_slots (fast llm : Understanding) :
    (merge fast llm).slots = llm.slots.foldl mergeFill (keptFills fast llm) := rfl

theorem OneEach.kept (one : OneEach fast.slots) : OneEach (keptFills fast llm) :=
  one.sublist (List.filter_sublist.map SlotFill.slot)

theorem OneEach.merge (one : OneEach fast.slots) : OneEach (merge fast llm).slots :=
  (OneEach.kept one).foldl_mergeFill

/-- A value of the rules that is kept is held until the model's are merged in. -/
theorem held_kept (one : OneEach fast.slots) {fill : SlotFill} (read : fill ∈ fast.slots)
    (kept : keptByMerge llm fill = true) : held (keptFills fast llm) fill.slot = some fill :=
  (OneEach.kept one).held_iff.mpr (List.mem_filter.mpr ⟨read, kept⟩)

/-- A value of the rules that is not kept is doubtful, and of a slot the model does not mention. -/
theorem dropped_of_not_kept {fill : SlotFill} (dropped : keptByMerge llm fill = false) :
    fill.provenance = .rules ∧ fill.confidence < 0.6 ∧ ∀ s ∈ llm.slots, s.slot ≠ fill.slot := by
  simpa [keptByMerge, and_assoc] using dropped

/-- Every value of a merge is kept when the same reading is merged in again. -/
theorem keptFills_merge (fast llm : Understanding) :
    keptFills (merge fast llm) llm = (merge fast llm).slots := by
  refine List.filter_eq_self.mpr fun fill listed => ?_
  rcases mem_foldl_mergeFill (merge_slots fast llm ▸ listed) with before | new
  · exact (List.mem_filter.mp before).2
  · have mentioned : (llm.slots.any fun l => l.slot == fill.slot) = true :=
      List.any_eq_true.mpr ⟨fill, new, beq_self_eq_true _⟩
    simp [keptByMerge, mentioned]

theorem merge_merge_slots (one : OneEach llm.slots) :
    (merge (merge fast llm) llm).slots = (merge fast llm).slots := by
  rw [merge_slots, keptFills_merge]
  refine foldl_mergeFill_eq fun fill listed => ?_
  have own : held llm.slots fill.slot = some fill := one.held_iff.mpr listed
  rw [merge_slots, held_foldl_mergeFill one, own]
  cases before : held (keptFills fast llm) fill.slot with
  | none => exact ⟨fill, rfl, ite_self _⟩
  | some read => exact ⟨won read fill, rfl, won_won⟩

theorem mergeIntent_again (fast llm : Option IntentGuess) :
    mergeIntent (mergeIntent fast llm) llm = mergeIntent fast llm := by
  cases fast with
  | none =>
    cases llm with
    | none => rfl
    | some guess => exact if_neg (lt_irrefl _)
  | some read =>
    cases llm with
    | none => rfl
    | some guess =>
      by_cases surer : read.confidence < guess.confidence
      · rw [show mergeIntent (some read) (some guess) = some guess from if_pos surer]
        exact if_neg (lt_irrefl _)
      · rw [show mergeIntent (some read) (some guess) = some read from if_neg surer]
        exact if_neg surer

/-- **Merging the same reading again changes nothing.** -/
theorem merge_merge (fast : Understanding) (one : OneEach llm.slots) :
    merge (merge fast llm) llm = merge fast llm := by
  have slots : (merge (merge fast llm) llm).slots = (merge fast llm).slots := merge_merge_slots one
  have intent : (merge (merge fast llm) llm).intent = (merge fast llm).intent :=
    mergeIntent_again fast.intent llm.intent
  have metas : (merge (merge fast llm) llm).metaIntent = (merge fast llm).metaIntent := by
    show (fast.metaIntent.or llm.metaIntent).or llm.metaIntent = _
    rw [Option.or_assoc, Option.or_self]
    rfl
  have noise : (merge (merge fast llm) llm).noise = (merge fast llm).noise := by
    show (llm.noise && (merge (merge fast llm) llm).metaIntent.isNone &&
      (merge (merge fast llm) llm).intent.isNone && (merge (merge fast llm) llm).slots.isEmpty) = _
    rw [slots, intent, metas]
    rfl
  have affirm : (merge (merge fast llm) llm).affirm = (merge fast llm).affirm := by
    show (if (merge (merge fast llm) llm).noise then none else (merge fast llm).affirm.or llm.affirm) = _
    rw [noise]
    show _ = if (merge fast llm).noise then none else fast.affirm.or llm.affirm
    by_cases quiet : (merge fast llm).noise
    · rw [if_pos quiet, if_pos quiet]
    · rw [if_neg quiet, if_neg quiet]
      show (if (merge fast llm).noise then none else fast.affirm.or llm.affirm).or llm.affirm = _
      rw [if_neg quiet, Option.or_assoc, Option.or_self]
  have same : merge (merge fast llm) llm =
      { merge fast llm with
        metaIntent := (merge (merge fast llm) llm).metaIntent
        intent := (merge (merge fast llm) llm).intent
        affirm := (merge (merge fast llm) llm).affirm
        slots := (merge (merge fast llm) llm).slots
        noise := (merge (merge fast llm) llm).noise } := rfl
  rw [same, slots, intent, metas, noise, affirm]

/-- What becomes of a value the rules read: it stays, or a value of the model for its slot that is at
least as sure takes its place, or it was doubtful and of a slot the model does not mention. -/
def Fate (fast llm : Understanding) (fill : SlotFill) : Prop :=
  fill ∈ (merge fast llm).slots ∨
    (∃ by' ∈ llm.slots, by'.slot = fill.slot ∧ fill.confidence ≤ by'.confidence ∧
      by' ∈ (merge fast llm).slots) ∨
    (fill.provenance = .rules ∧ fill.confidence < 0.6 ∧ ∀ s ∈ llm.slots, s.slot ≠ fill.slot)

/-- **The contract of `merge`.** -/
structure NeverDegrades (fast llm : Understanding) : Prop where
  one : OneEach (merge fast llm).slots
  taken : ∀ fill ∈ (merge fast llm).slots, fill ∈ fast.slots ∨ fill ∈ llm.slots
  sure : ∀ fill ∈ fast.slots, 0.9 ≤ fill.confidence → fill ∈ (merge fast llm).slots
  fate : ∀ fill ∈ fast.slots, Fate fast llm fill
  noise : (merge fast llm).noise = true → (merge fast llm).metaIntent = none ∧
    (merge fast llm).intent = none ∧ (merge fast llm).affirm = none ∧ (merge fast llm).slots = []
  again : merge (merge fast llm) llm = merge fast llm

/-- A value of the rules that is kept stays, or loses to a value of the model that is as sure. -/
theorem kept_fate (oneFast : OneEach fast.slots) (oneLlm : OneEach llm.slots) {fill : SlotFill}
    (read : fill ∈ fast.slots) (kept : keptByMerge llm fill = true) :
    held (merge fast llm).slots fill.slot = some fill ∨ ∃ by' ∈ llm.slots, by'.slot = fill.slot ∧
      won fill by' = by' ∧ fill.confidence ≤ by'.confidence ∧ by' ∈ (merge fast llm).slots := by
  have before := held_kept oneFast read kept
  have after : held (llm.slots.foldl mergeFill (keptFills fast llm)) fill.slot = _ :=
    held_foldl_mergeFill oneLlm
  rw [before] at after
  cases mentioned : held llm.slots fill.slot with
  | none =>
    rw [mentioned] at after
    exact .inl after
  | some by' =>
    rw [mentioned] at after
    have outcome : won fill by' = fill ∨
      (won fill by' = by' ∧ fill.confidence ≤ by'.confidence) := won_cases
    rcases outcome with stays | ⟨loses, lower⟩
    · refine .inl (after.trans ?_)
      show some (won fill by') = some fill
      rw [stays]
    · refine .inr ⟨by', held_mem mentioned, held_slot mentioned, loses, lower, ?_⟩
      refine held_mem (after.trans ?_)
      show some (won fill by') = some by'
      rw [loses]

theorem merge_sure (oneFast : OneEach fast.slots) (oneLlm : OneEach llm.slots) {fill : SlotFill}
    (read : fill ∈ fast.slots) (sure : 0.9 ≤ fill.confidence) : fill ∈ (merge fast llm).slots := by
  have kept : keptByMerge llm fill = true := by
    by_contra dropped
    have low := (dropped_of_not_kept (Bool.eq_false_iff.mpr dropped)).2.1
    exact absurd (lt_of_le_of_lt sure low) (by decide +kernel)
  rcases kept_fate oneFast oneLlm read kept with stays | ⟨by', -, -, loses, -, listed⟩
  · exact held_mem stays
  · rw [won_sure sure] at loses
    exact loses ▸ listed

theorem merge_fate (oneFast : OneEach fast.slots) (oneLlm : OneEach llm.slots) {fill : SlotFill}
    (read : fill ∈ fast.slots) : Fate fast llm fill := by
  cases kept : keptByMerge llm fill with
  | true =>
    rcases kept_fate oneFast oneLlm read kept with stays | ⟨by', given, same, -, lower, listed⟩
    · exact .inl (held_mem stays)
    · exact .inr (.inl ⟨by', given, same, lower, listed⟩)
  | false => exact .inr (.inr (dropped_of_not_kept kept))

/-- Noise is only what says nothing. -/
theorem merge_noise (noise : (merge fast llm).noise = true) : (merge fast llm).metaIntent = none ∧
    (merge fast llm).intent = none ∧ (merge fast llm).affirm = none ∧ (merge fast llm).slots = [] := by
  have quiet : (llm.noise && (merge fast llm).metaIntent.isNone && (merge fast llm).intent.isNone &&
    (merge fast llm).slots.isEmpty) = true := noise
  simp only [Bool.and_eq_true, Option.isNone_iff_eq_none, List.isEmpty_iff] at quiet
  exact ⟨quiet.1.1.2, quiet.1.2, if_pos noise, quiet.2⟩

/-- **Merging the model's reading never degrades the rules'.** -/
theorem merge_neverDegrades (fast llm : Understanding) (oneFast : OneEach fast.slots)
    (oneLlm : OneEach llm.slots) : NeverDegrades fast llm where
  one := OneEach.merge oneFast
  taken := fun _ listed => mem_merge listed
  sure := fun _ read sure => merge_sure oneFast oneLlm read sure
  fate := fun _ read => merge_fate oneFast oneLlm read
  noise := merge_noise
  again := merge_merge fast oneLlm

/-- What the rules read of "two, from the station". -/
def Sample.twoFromStation : Understanding :=
  { Understanding.empty "two, from the station" with
    slots := [⟨"seats", .integer 2, 0.95, .rules⟩, ⟨"name", .text "station", 0.55, .rules⟩] }

/-- What the model read of it. -/
def Sample.threeFromStation : Understanding :=
  { Understanding.empty "two, from the station" with
    slots := [⟨"seats", .integer 3, 0.8, .llm⟩, ⟨"order", .integer 7, 0.7, .llm⟩] }

theorem twoFromStation_neverDegrades : NeverDegrades Sample.twoFromStation Sample.threeFromStation :=
  merge_neverDegrades _ _ (by unfold OneEach; decide) (by unfold OneEach; decide)

end Merged

end Callora
