/-
**What a valid business file refers to.**

A business file names things by their ids: responses, slots, pipelines, actions and deliveries.
`validate` finds a reference to a thing that is not there, but not in four places
(`BusinessConfig.unlisted`), and it tells how wide a range is by a subtraction of 64-bit integers,
which overflows (`rangeBad`).

- `agent_sound` to `rules_sound`: what each part of `validate` makes sure of;
- `validated_iff`: without an overflow and with those four references right, a file without issues
  has everything that it refers to.
-/
import Callora.Business.Compile

set_option linter.unusedSectionVars false

namespace Callora

open Callora.Text

section Arithmetic

/-- A subtraction of 64-bit integers; none where it overflows, which is a panic where overflows are
checked. -/
def subtract (a b : ℤ) : Option ℤ := if -2 ^ 63 ≤ a - b ∧ a - b < 2 ^ 63 then some (a - b) else none

/-- `lo > hi || hi - lo > 500`, as it is computed. -/
def rangeBad (range : ℤ × ℤ) : Option Bool :=
  if range.2 < range.1 then some true else (subtract range.2 range.1).map fun span => decide (500 < span)

/-- A range is not wider than a 64-bit integer tells. -/
def Narrow (range : ℤ × ℤ) : Prop := range.2 < 2 ^ 63 + range.1

instance (range : ℤ × ℤ) : Decidable (Narrow range) := inferInstanceAs (Decidable (_ < _))

theorem rangeBad_isSome_iff {range : ℤ × ℤ} : (rangeBad range).isSome ↔ Narrow range := by
  unfold rangeBad subtract Narrow
  split
  · simp
    omega
  · rw [Option.isSome_map]
    split
    · simp
      omega
    · simp
      omega

end Arithmetic

section References

/-- The range of a parameter. -/
def ParamConfig.range : ParamConfig → Option (ℤ × ℤ)
  | .count _ _ _ lo hi | .number _ lo hi => some (lo, hi)
  | _ => none

namespace BusinessConfig

variable (c : BusinessConfig)

/-- The ranges of all parameters. -/
def ranges : List (ℤ × ℤ) :=
  c.responses.toList.flatMap fun (_, r) => r.params.toList.filterMap fun (_, param) => param.range

/-- The responses the agent uses. -/
def agentResponses : List String := c.agent.toList.flatMap fun a => a.thinkingFiller.toList ++ a.phrases

/-- The responses the call itself uses. -/
def callResponses : List String :=
  [c.anythingElse, c.goodbye, c.confirmSlot] ++ c.acknowledgement.toList ++ c.fallback.restart.toList ++
    c.fallback.ladder ++ [c.handoff.response,
      c.handoff.unavailableResponse] ++ c.silence.response.toList ++
    c.silence.patientResponse.toList ++ c.voice.dynamicCover.toList ++
      c.understanding.thinkingFiller.toList

/-- The responses of the meta intents. -/
def metaResponses : List String := c.metaIntents.toList.flatMap fun (_, m) => m.response.toList

/-- The responses of the intents. -/
def intentResponses : List String := c.intents.flatMap fun i => i.respond.toList

/-- The responses of the pipelines. -/
def pipelineResponses : List String :=
  c.pipelines.toList.flatMap fun (_, p) => (p.slots.flatMap fun ps => ps.ask.toList) ++
    (p.confirm.toList.flatMap fun cf => [cf.response, cf.askChange]) ++ p.filler.toList ++
      p.onSuccess.toList ++
    p.onFailure.toList ++ p.onUnknown.toList ++ p.onComplete.toList

/-- The responses of the rules. -/
def ruleResponses : List String :=
  c.rules.flatMap fun rule => match rule.effect with
    | .reject response => [response]
    | .handoff response _ => response.toList
    | .set .. => []

/-- The responses said before others. -/
def prefixes : List String := c.responses.toList.flatMap fun (_, r) => r.prefixed.toList

/-- **The responses that `validate` does not look for**: what is said when a response is asked for
again, what is said after a task, and the greeting of a caller whose last ride is known. -/
def unlistedResponses : List String :=
  (c.responses.toList.flatMap fun (_, r) => r.again.toList) ++
    (c.pipelines.toList.flatMap fun (_, p) => p.offer.toList) ++
    c.customerLookup.toList.flatMap fun cl => cl.returningGreeting.toList

/-- Every response that the file names. -/
def responseIds : List String :=
  c.greeting :: c.agentResponses ++ c.callResponses ++ c.metaResponses ++ c.intentResponses ++
    c.pipelineResponses ++
    (c.customerLookup.toList.flatMap fun cl => cl.knownGreeting.toList) ++ c.prefixes ++
      c.ruleResponses ++
    c.unlistedResponses

/-- **The slots that `validate` does not look for**: those of other tasks a value is taken from. -/
def unlistedSlots : List String :=
  c.pipelines.toList.flatMap fun (_, p) => p.slots.flatMap fun ps => ps.fromSlot.toList

/-- Every slot that the file names. -/
def slotIds : List String :=
  (c.pipelines.toList.flatMap fun (_, p) => p.slots.map PipelineSlot.slot) ++
    (c.rules.flatMap fun rule => rule.when.slot :: match rule.effect with
      | .set slot _ => [slot]
      | _ => []) ++ c.unlistedSlots

/-- Every pipeline that the file names. -/
def pipelineIds : List String :=
  (c.intents.flatMap fun i => i.pipeline.toList) ++ c.rules.flatMap fun rule => rule.pipeline.toList

/-- Every action that the file names. -/
def actionIds : List String :=
  (c.pipelines.toList.flatMap fun (_, p) => p.action.toList) ++
    c.customerLookup.toList.map CustomerLookupConfig.action

/-- Every delivery that the file names. -/
def deliveryNames : List String := c.responses.toList.flatMap fun (_, r) => r.delivery.toList

/-- **A file with no dangling reference**, one effect of each intent, and ranges of 1 to 501 values. -/
structure Sound : Prop where
  responses : ∀ id ∈ c.responseIds, c.responses.contains id
  slots : ∀ id ∈ c.slotIds, c.slots.contains id
  pipelines : ∀ id ∈ c.pipelineIds, c.pipelines.contains id
  actions : ∀ id ∈ c.actionIds, c.actions.contains id
  deliveries : ∀ name ∈ c.deliveryNames, c.voice.deliveries.contains name
  effects : ∀ i ∈ c.intents, i.pipeline.isSome.toNat + i.respond.isSome.toNat + i.handoff.toNat = 1
  ranges : ∀ range ∈ c.ranges, 1 ≤ range.2 - range.1 + 1 ∧ range.2 - range.1 + 1 ≤ 501

/-- The references that `validate` does not look for are right. -/
def Listed : Prop :=
  (∀ id ∈ c.unlistedResponses, c.responses.contains id) ∧ ∀ id ∈ c.unlistedSlots, c.slots.contains id

end BusinessConfig

/-- **`validate` as it is computed**: none where the width of a range overflows. -/
def validated [Unicode] (rx : Regexes) (c : BusinessConfig) : Option (List Issue) :=
  (c.ranges.mapM rangeBad).map fun _ => validate rx c

end References

namespace Validate

section Nil

variable {c : BusinessConfig} {path message id : String} {bad : Bool} {α : Type}

@[simp] theorem issueIf_nil_iff : issueIf bad path message = [] ↔ bad = false := by
  unfold issueIf
  cases bad <;> simp

@[simp] theorem needResponse_nil_iff : needResponse c path id = [] ↔ c.responses.contains id = true := by
  simp [needResponse]

@[simp] theorem needOptional_nil_iff {reference : Option String} :
    needOptional c path reference = [] ↔ ∀ id ∈ reference.toList, c.responses.contains id = true := by
  cases reference <;> simp [needOptional]

/-- The issues of the entries of a list. -/
theorem mapIdx_nil_iff {f : ℕ → α → List Issue} {l : List α} :
    (l.mapIdx f).flatten = [] ↔ ∀ n x, l[n]? = some x → f n x = [] := by
  rw [List.flatten_eq_nil_iff]
  constructor
  · intro all n x here
    refine all _ (List.mem_iff_getElem?.mpr ⟨n, ?_⟩)
    rw [List.getElem?_mapIdx, here, Option.map_some]
  · intro all issues listed
    obtain ⟨n, here⟩ := List.mem_iff_getElem?.mp listed
    rw [List.getElem?_mapIdx] at here
    obtain ⟨x, found, rfl⟩ := Option.map_eq_some_iff.mp here
    exact all n x found

/-- Where no entry has an issue, each has what its check makes sure of. -/
theorem mapIdx_sound {f : ℕ → α → List Issue} {l : List α} {P : α → Prop}
    (none' : (l.mapIdx f).flatten = [])
    (sound : ∀ n x, f n x = [] → P x) : ∀ x ∈ l, P x := by
  intro x listed
  obtain ⟨n, here⟩ := List.mem_iff_getElem?.mp listed
  exact sound n x (mapIdx_nil_iff.mp none' n x here)

theorem map_sound {f : α → List Issue} {l : List α} {P : α → Prop} (none' : (l.map f).flatten = [])
    (sound : ∀ x, f x = [] → P x) : ∀ x ∈ l, P x :=
  fun x listed => sound x (List.flatten_eq_nil_iff.mp none' _ (List.mem_map_of_mem listed))

end Nil

section Parts

variable {c : BusinessConfig}

theorem agent_sound (none' : agent c = []) : ∀ id ∈ c.agentResponses, c.responses.contains id := by
  unfold agent at none'
  unfold BusinessConfig.agentResponses
  cases here : c.agent with
  | none => simp
  | some a =>
    simp only [here, List.append_eq_nil_iff] at none'
    obtain ⟨filler, phrases⟩ := none'
    have phrases' := mapIdx_sound phrases fun n id none' =>
      needResponse_nil_iff.mp (List.append_eq_nil_iff.mp none').1
    simpa [List.forall_mem_append, or_imp, forall_and] using ⟨by simpa using filler, phrases'⟩

theorem call_sound (none' : call c = []) : ∀ id ∈ c.callResponses, c.responses.contains id := by
  simp only [call, List.append_eq_nil_iff, needResponse_nil_iff, needOptional_nil_iff, and_assoc] at none'
  obtain ⟨anything, bye, confirm, -, acknowledgement, -, restart, ladder, desk, unavailable,
    silence, patient, cover,
    filler, -⟩ := none'
  have ladder' := mapIdx_sound ladder fun n id none' => needResponse_nil_iff.mp none'
  simp only [BusinessConfig.callResponses, List.forall_mem_append, List.forall_mem_cons, and_assoc]
  exact ⟨anything, bye, confirm, nofun, acknowledgement, restart, ladder', desk, unavailable, nofun,
    silence, patient,
    cover, filler⟩

theorem metaIntents_sound (none' : metaIntents c = []) :
    ∀ id ∈ c.metaResponses, c.responses.contains id := by
  have each := map_sound (List.append_eq_nil_iff.mp none').1 fun entry none' =>
    needOptional_nil_iff.mp (List.append_eq_nil_iff.mp none').2
  intro id listed
  obtain ⟨entry, here, named⟩ := List.mem_flatMap.mp listed
  exact each entry here id named

/-- The intents: one effect each, a known pipeline or a known response. -/
theorem intents_sound (none' : intents c = []) : ∀ i ∈ c.intents,
    i.pipeline.isSome.toNat + i.respond.isSome.toNat + i.handoff.toNat = 1 ∧
      (∀ id ∈ i.pipeline.toList, c.pipelines.contains id) ∧ ∀ id ∈ i.respond.toList,
      c.responses.contains id := by
  refine mapIdx_sound (List.append_eq_nil_iff.mp none').2 fun n i none' => ?_
  simp only [List.append_eq_nil_iff, issueIf_nil_iff, needOptional_nil_iff, and_assoc] at none'
  obtain ⟨-, one, pipeline, respond⟩ := none'
  refine ⟨by simpa using one, ?_, respond⟩
  cases named : i.pipeline with
  | none => simp
  | some p => simpa [named] using pipeline

/-- The pipelines: known slots, responses and actions. -/
theorem pipelines_sound (none' : pipelines c = []) : ∀ entry ∈ c.pipelines.toList,
    (∀ ps ∈ entry.2.slots, c.slots.contains ps.slot) ∧
    (∀ id ∈ entry.2.action.toList, c.actions.contains id) ∧
      ∀ id ∈ (entry.2.slots.flatMap fun ps => ps.ask.toList) ++
        (entry.2.confirm.toList.flatMap fun cf => [cf.response, cf.askChange]) ++ entry.2.filler.toList ++
        entry.2.onSuccess.toList ++ entry.2.onFailure.toList ++ entry.2.onUnknown.toList ++
          entry.2.onComplete.toList,
        c.responses.contains id := by
  refine map_sound none' fun entry none' => ?_
  simp only [List.append_eq_nil_iff, needOptional_nil_iff, and_assoc] at none'
  obtain ⟨slots, confirm, filler, success, failure, unknown, complete, action⟩ := none'
  have slots' : ∀ ps ∈ entry.2.slots, c.slots.contains ps.slot ∧ ∀ id ∈ ps.ask.toList,
    c.responses.contains id := by
    refine mapIdx_sound slots fun n ps none' => ?_
    simp only [pipelineSlot, List.append_eq_nil_iff, issueIf_nil_iff, needOptional_nil_iff,
      and_assoc] at none'
    exact ⟨by simpa using none'.1, none'.2.2.2⟩
  refine ⟨fun ps listed => (slots' ps listed).1, ?_, ?_⟩
  · unfold pipelineAction at action
    cases named : entry.2.action with
    | none => simp
    | some a =>
      simp only [named, List.append_eq_nil_iff] at action
      cases known : c.actions[a]? with
      | none => simp [known] at action
      | some _ =>
        rw [Option.toList_some, List.forall_mem_singleton,
          Std.ExtTreeMap.contains_eq_isSome_getElem?, known]
        rfl
  · simp only [List.forall_mem_append, and_assoc]
    refine ⟨fun id listed => ?_, fun id listed => ?_, filler, success, failure, unknown, complete⟩
    · obtain ⟨ps, here, named⟩ := List.mem_flatMap.mp listed
      exact (slots' ps here).2 id named
    · cases named : entry.2.confirm with
      | none => simp [named] at listed
      | some cf =>
        simp only [named, List.append_eq_nil_iff, needResponse_nil_iff] at confirm
        simp only [named, Option.toList_some, List.flatMap_singleton, List.mem_cons,
          List.not_mem_nil, or_false] at listed
        rcases listed with rfl | rfl
        · exact confirm.1
        · exact confirm.2

/-- The customer lookup: a known action and a known greeting. -/
theorem actions_sound (none' : actions c = []) : ∀ cl ∈ c.customerLookup.toList,
    c.actions.contains cl.action ∧ ∀ id ∈ cl.knownGreeting.toList, c.responses.contains id := by
  have lookup := (List.append_eq_nil_iff.mp none').2
  cases here : c.customerLookup with
  | none => simp
  | some cl =>
    simp only [here, List.append_eq_nil_iff, issueIf_nil_iff, needOptional_nil_iff] at lookup
    simpa using lookup

/-- The responses: a known delivery, a known prefix, and ranges of a size. -/
theorem responses_sound (none' : responses c = []) : ∀ entry ∈ c.responses.toList,
    (∀ name ∈ entry.2.delivery.toList, c.voice.deliveries.contains name) ∧
      (∀ id ∈ entry.2.prefixed.toList, c.responses.contains id) ∧
      ∀ range ∈ entry.2.params.toList.filterMap (fun (_, param) => param.range),
        1 ≤ range.2 - range.1 + 1 ∧ range.2 - range.1 + 1 ≤ 501 := by
  refine map_sound none' fun entry none' => ?_
  simp only [response, List.append_eq_nil_iff, and_assoc] at none'
  obtain ⟨-, delivery, lead, params, -⟩ := none'
  refine ⟨?_, ?_, ?_⟩
  · cases named : entry.2.delivery with
    | none => simp
    | some d => simpa [named] using delivery
  · cases named : entry.2.prefixed with
    | none => simp
    | some p =>
      simp only [named] at lead
      cases known : c.responses[p]? with
      | none => simp [known] at lead
      | some _ =>
        rw [Option.toList_some, List.forall_mem_singleton,
          Std.ExtTreeMap.contains_eq_isSome_getElem?, known]
        rfl
  · intro range listed
    obtain ⟨⟨name, param⟩, here, ranged⟩ := List.mem_filterMap.mp listed
    have fits := (List.append_eq_nil_iff.mp (map_sound params (fun _ => id) _ here)).1
    cases param with
    | count | number =>
      obtain rfl := Option.some.inj ranged
      simp only [issueIf_nil_iff, decide_eq_false_iff_not, not_or, not_lt] at fits
      omega
    | enum | time | text => cases ranged

/-- The slots a rule is about. -/
theorem rules_slots (none' : rules c = []) : ∀ rule ∈ c.rules, c.slots.contains rule.when.slot ∧
    ∀ slot value, rule.effect = .set slot value → c.slots.contains slot := by
  refine mapIdx_sound none' fun n rule none' => ?_
  simp only [List.append_eq_nil_iff, issueIf_nil_iff, and_assoc] at none'
  obtain ⟨known, -, effect⟩ := none'
  refine ⟨by simpa using known, fun slot value sets => ?_⟩
  rw [sets] at effect
  simpa using effect

/-- The rules: known pipelines and responses. -/
theorem rules_sound (none' : rules c = []) :
    (∀ rule ∈ c.rules, ∀ id ∈ rule.pipeline.toList, c.pipelines.contains id) ∧
    ∀ id ∈ c.ruleResponses, c.responses.contains id := by
  constructor
  · refine mapIdx_sound none' fun n rule none' => ?_
    have known := (List.append_eq_nil_iff.mp (List.append_eq_nil_iff.mp none').1).2
    cases named : rule.pipeline with
    | none => simp
    | some p => simpa [named] using known
  · intro id listed
    obtain ⟨rule, here, named⟩ := List.mem_flatMap.mp listed
    obtain ⟨n, here⟩ := List.mem_iff_getElem?.mp here
    have known := (List.append_eq_nil_iff.mp (mapIdx_nil_iff.mp none' n rule here)).2
    cases effect : rule.effect with
    | reject response =>
      simp only [effect, List.mem_singleton] at named known
      simpa [named] using known
    | handoff response reason =>
      simp only [effect] at named known
      exact needOptional_nil_iff.mp known id named
    | set slot value => simp [effect] at named

end Parts

end Validate

section Validity

variable [Unicode] {rx : Regexes} {c : BusinessConfig}

/-- **What a file without issues has**: everything but what is not looked for. -/
theorem sound_of_listed (none' : validate rx c = []) (listed : c.Listed) : c.Sound := by
  simp only [validate, List.append_eq_nil_iff, Validate.needResponse_nil_iff, and_assoc] at none'
  obtain ⟨-, greeting, agent, call, metas, intents, -, pipelines, actions, responses, rules, -⟩ := none'
  have intents := Validate.intents_sound intents
  have pipelines := Validate.pipelines_sound pipelines
  have actions := Validate.actions_sound actions
  have responses := Validate.responses_sound responses
  have slots := Validate.rules_slots rules
  have rules := Validate.rules_sound rules
  refine ⟨?_, ?_, ?_, ?_, ?_, fun i here => (intents i here).1, ?_⟩
  · simp only [BusinessConfig.responseIds, List.forall_mem_append, List.forall_mem_cons,
      List.cons_append, and_assoc]
    refine ⟨greeting, Validate.agent_sound agent, Validate.call_sound call,
      Validate.metaIntents_sound metas, ?_, ?_, ?_,
      ?_, rules.2, listed.1⟩
    · exact List.forall_mem_flatMap.mpr fun i here => (intents i here).2.2
    · exact List.forall_mem_flatMap.mpr fun entry here => (pipelines entry here).2.2
    · exact List.forall_mem_flatMap.mpr fun cl here => (actions cl here).2
    · exact List.forall_mem_flatMap.mpr fun entry here => (responses entry here).2.1
  · simp only [BusinessConfig.slotIds, List.forall_mem_append, and_assoc]
    refine ⟨?_, ?_, listed.2⟩
    · exact List.forall_mem_flatMap.mpr fun entry here => List.forall_mem_map.mpr (pipelines entry here).1
    · refine List.forall_mem_flatMap.mpr fun rule here =>
        List.forall_mem_cons.mpr ⟨(slots rule here).1, ?_⟩
      cases sets : rule.effect with
      | set slot value => simpa using (slots rule here).2 slot value sets
      | reject | handoff => exact nofun
  · rw [BusinessConfig.pipelineIds, List.forall_mem_append]
    exact ⟨List.forall_mem_flatMap.mpr fun i here => (intents i here).2.1,
      List.forall_mem_flatMap.mpr rules.1⟩
  · rw [BusinessConfig.actionIds, List.forall_mem_append]
    exact ⟨List.forall_mem_flatMap.mpr fun entry here => (pipelines entry here).2.1,
      List.forall_mem_map.mpr fun cl here => (actions cl here).1⟩
  · exact List.forall_mem_flatMap.mpr fun entry here => (responses entry here).1
  · exact List.forall_mem_flatMap.mpr fun entry here => (responses entry here).2.2

theorem BusinessConfig.Sound.listed (sound : c.Sound) : c.Listed := by
  constructor
  · exact (List.forall_mem_append.mp sound.responses).2
  · exact (List.forall_mem_append.mp sound.slots).2

/-- The widths of the ranges are computed just where none is too wide. -/
theorem validated_ne_none_iff : validated rx c ≠ none ↔ ∀ range ∈ c.ranges, Narrow range := by
  have each : ∀ ranges : List (ℤ × ℤ), ranges.mapM rangeBad ≠ none ↔ ∀ range ∈ ranges, Narrow range := by
    intro ranges
    induction ranges with
    | nil => simp
    | cons range ranges ih =>
      rw [List.forall_mem_cons, ← ih, ← rangeBad_isSome_iff, List.mapM_cons]
      cases rangeBad range with
      | none => simp
      | some bad => cases ranges.mapM rangeBad <;> simp
  rw [← each, validated, ne_eq, Option.map_eq_none_iff]

/-- A result is the list of issues. -/
theorem validated_some {issues : List Issue} (computed : validated rx c = some issues) :
    validate rx c = issues := by
  obtain ⟨_, -, same⟩ := Option.map_eq_some_iff.mp computed
  exact same

/-- **A valid file refers to nothing that is not there**, and its validation never fails: validation
is computed if and only if no range is wider than a 64-bit integer tells, and a file without issues
has all that it refers to if and only if the references that are not looked for are right. -/
theorem validated_iff (rx : Regexes) (c : BusinessConfig) :
    (validated rx c ≠ none ↔ ∀ range ∈ c.ranges, Narrow range) ∧
    (validated rx c = some [] → (c.Sound ↔ c.Listed)) :=
  ⟨validated_ne_none_iff, fun valid =>
    ⟨fun sound => sound.listed, sound_of_listed (validated_some valid)⟩⟩

end Validity

namespace Sample

/-- The greeting, asked for again, is another response, which is not there. -/
def dangling : BusinessConfig :=
  { config with
    responses := config.responses.insert "hello" { worded "hello" with again := some "nowhere" } }

/-- A number of any 64-bit value is said. -/
def wide : BusinessConfig :=
  { config with
    responses := config.responses.insert "count"
      { worded "\x7bn\x7d" with params := mapOf [("n", .number .masculine (-2 ^ 63) (2 ^ 63 - 1))] } }

set_option maxRecDepth 100000 in
/-- **The response that is not there is not looked for**, and the width of the range overflows. -/
theorem nowhere_unnoticed : @validated Unicode.plain (fun _ => .error "no pattern") wide = none ∧
    @validated Unicode.plain (fun _ => .error "no pattern") dangling = some [] ∧ ¬dangling.Sound := by
  refine ⟨by decide +kernel, by decide +kernel, fun sound => ?_⟩
  have there : dangling.responses.contains "nowhere" := sound.listed.1 "nowhere" (by decide +kernel)
  exact absurd there (by decide +kernel)

end Sample

end Callora
