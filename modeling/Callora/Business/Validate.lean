/-
**Validating a business file.**

`validate` lists the issues of a configuration: every cross-reference resolves and every value is in
range. A business is only ever built from a configuration without issues.

The regular expressions of the slots are compiled by a library; `Regexes` stands for it.
-/
import Callora.Business.Config

set_option linter.unusedSectionVars false

namespace Callora

open Callora.Text

section Placeholders

/-- The name of a placeholder that opens here, after its brace. -/
def placeholderName (cs : List Char) : Option String :=
  let isFirst (c : Char) := ('a' ≤ c && c ≤ 'z') || c == '_'
  let name := cs.takeWhile fun c => isFirst c || isAsciiDigit c
  match name, cs.drop name.length with
  | first :: _, close :: _ =>
    if isFirst first && close == Char.ofNat 0x7D then some (String.ofList name) else none
  | _, _ => none

/-- The placeholders from here on. -/
def placeholdersFrom : List Char → List String
  | [] => []
  | c :: cs =>
    (if c = Char.ofNat 0x7B then (placeholderName cs).toList else []) ++ placeholdersFrom cs

/-- `placeholders`: the placeholders of a response variant, in order. -/
def placeholders (template : String) : List String := placeholdersFrom template.toList

/-- A placeholder as it stands in a template. -/
def braced (name : String) : String :=
  String.ofList (Char.ofNat 0x7B :: (name.toList ++ [Char.ofNat 0x7D]))

end Placeholders

/-- A compiled regular expression: its named groups, and the spans of a match at or after a byte
(of the whole match, and of its group "value"). -/
structure Pattern where
  names : List String
  capturesAt : String → Nat → Option (Span × Span)

/-- The regular expression library: a pattern, or the reason it does not compile. -/
abbrev Regexes := String → Except String Pattern

/-- One validation problem, located by a path. -/
structure Issue where
  path : String
  message : String
  deriving DecidableEq

/-- `is_e164`. -/
def isE164 (value : String) : Bool :=
  match stripPrefix value "+" with
  | none => false
  | some digits =>
    8 ≤ bytes digits.toList && bytes digits.toList ≤ 15 && digits.toList.all isAsciiDigit &&
      !startsWith digits "0"

namespace Validate

/-- An issue, when the condition holds. -/
def issueIf (bad : Bool) (path message : String) : List Issue :=
  if bad then [⟨path, message⟩] else []

/-- `need_response`. -/
def needResponse (c : BusinessConfig) (path id : String) : List Issue :=
  issueIf (!c.responses.contains id) path ("unknown response `" ++ id ++ "`")

/-- `need_response` for an optional reference. -/
def needOptional (c : BusinessConfig) (path : String) : Option String → List Issue
  | some id => needResponse c path id
  | none => []

/-- An indexed path. -/
def indexed (path : String) (n : Nat) : String := path ++ "[" ++ toString n ++ "]"

/-- The business's own header: version, id, names, voice, lexicon. -/
def header (c : BusinessConfig) : List Issue :=
  let s := c.voice.settings
  let range (name : String) (value lo hi : F32) (bounds : String) :=
    issueIf (!decide (lo ≤ value ∧ value ≤ hi)) ("voice.settings." ++ name) ("must be within " ++ bounds)
  issueIf (c.schemaVersion != 1) "schema_version"
      ("unsupported version " ++ toString c.schemaVersion ++ ", expected 1") ++
    issueIf (c.id == "" || !c.id.toList.all fun ch =>
        ('a' ≤ ch && ch ≤ 'z') || isAsciiDigit ch || ch == '_' || ch == '-')
      "id" "must match [a-z0-9_-]+" ++
    ([("name", c.name), ("language", c.language), ("timezone", c.timezone)].map fun (field, value) =>
      issueIf (trim value == "") field "must not be empty").flatten ++
    issueIf (c.voice.voiceId.isNone && c.voice.voiceIdEnv.isNone) "voice"
      "set voice_id or voice_id_env" ++
    issueIf (!c.voice.deliveries.contains "normal") "voice.deliveries"
      "a `normal` delivery is required" ++
    range "stability" s.stability 0 1 "0..=1" ++
    range "similarity_boost" s.similarityBoost 0 1 "0..=1" ++
    range "style" s.style 0 1 "0..=1" ++
    range "speed" s.speed 0.7 1.2 "0.7..=1.2" ++
    issueIf (c.lexicon.affirm.isEmpty || c.lexicon.deny.isEmpty) "lexicon"
      "affirm and deny must not be empty"

/-- The agent's phrases: known, and of fixed wording. -/
def agent (c : BusinessConfig) : List Issue :=
  match c.agent with
  | none => []
  | some a =>
    needOptional c "agent.thinking_filler" a.thinkingFiller ++
      (a.phrases.mapIdx fun n id =>
        let fixed := match c.responses[id]? with
          | some r => r.variants.all fun t => (placeholders t).isEmpty
          | none => true
        needResponse c (indexed "agent.phrases" n) id ++
          issueIf (!fixed) (indexed "agent.phrases" n)
            ("`" ++ id ++ "` has placeholders; instant phrases must be fixed wording")).flatten

/-- The responses the call itself says. -/
def call (c : BusinessConfig) : List Issue :=
  let confirmUses := match c.responses[c.confirmSlot]? with
    | some r => r.variants.all fun t => (placeholders t).contains "value"
    | none => true
  needResponse c "anything_else" c.anythingElse ++
    needResponse c "goodbye" c.goodbye ++
    needResponse c "confirm_slot" c.confirmSlot ++
    issueIf (!confirmUses) "confirm_slot" ("every variant must use " ++ braced "value") ++
    needOptional c "acknowledgement" c.acknowledgement ++
    issueIf c.fallback.ladder.isEmpty "fallback.ladder" "needs at least one response" ++
    needOptional c "fallback.restart" c.fallback.restart ++
    (c.fallback.ladder.mapIdx fun n r => needResponse c (indexed "fallback.ladder" n) r).flatten ++
    needResponse c "handoff.response" c.handoff.response ++
    needResponse c "handoff.unavailable_response" c.handoff.unavailableResponse ++
    needOptional c "silence.response" c.silence.response ++
    needOptional c "silence.patient_response" c.silence.patientResponse ++
    needOptional c "voice.dynamic_cover" c.voice.dynamicCover ++
    needOptional c "understanding.thinking_filler" c.understanding.thinkingFiller ++
    issueIf (!decide (0 ≤ c.understanding.llmBelowCoverage ∧ c.understanding.llmBelowCoverage ≤ 1))
      "understanding.llm_below_coverage" "must be within 0..=1"

/-- The meta intents. -/
def metaIntents (c : BusinessConfig) : List Issue :=
  (c.metaIntents.toList.map fun (key, m) =>
    let path := "meta_intents." ++ key
    issueIf (MetaIntent.parse key).isNone path "unknown meta intent" ++
      issueIf (m.phrases.isEmpty && m.exact.isEmpty) path "needs phrases or exact" ++
      needOptional c (path ++ ".response") m.response).flatten ++
    ([MetaIntent.cancelCurrentFlow, MetaIntent.goodbye].map fun required =>
      match c.metaIntents[required.asStr]? with
      | some m => issueIf m.response.isNone ("meta_intents." ++ required.asStr) "needs a response"
      | none => []).flatten

/-- The intents: distinct ids, one target each. -/
def intents (c : BusinessConfig) : List Issue :=
  issueIf c.intents.isEmpty "intents" "at least one intent is required" ++
    (c.intents.mapIdx fun n i =>
      let path := indexed "intents" n ++ "(" ++ i.id ++ ")"
      let targets := i.pipeline.isSome.toNat + i.respond.isSome.toNat + i.handoff.toNat
      issueIf ((c.intents.take n).any fun j => j.id == i.id) path "duplicate intent id" ++
        issueIf (targets != 1) path "set exactly one of pipeline, respond, handoff" ++
        (match i.pipeline with
          | some p => issueIf (!c.pipelines.contains p) (path ++ ".pipeline")
              ("unknown pipeline `" ++ p ++ "`")
          | none => []) ++
        needOptional c (path ++ ".respond") i.respond).flatten

/-- The slots: patterns, ranges and thresholds. -/
def slots (rx : Regexes) (c : BusinessConfig) : List Issue :=
  (c.slots.toList.map fun (id, s) =>
    let path := "slots." ++ id
    (s.patterns.mapIdx fun n p =>
      match rx p with
      | .ok re => issueIf (!re.names.contains "value") (indexed (path ++ ".patterns") n)
          "needs a named group `value`"
      | .error e => [⟨indexed (path ++ ".patterns") n, e⟩]).flatten ++
      issueIf (s.kind == .enum && s.values.isEmpty) (path ++ ".values") "an enum slot needs values" ++
      (match s.min, s.max with
        | some lo, some hi => issueIf (decide (hi < lo)) path "min is greater than max"
        | _, _ => []) ++
      issueIf (!decide (0 ≤ s.rejectBelow ∧ s.rejectBelow ≤ s.confirmBelow ∧ s.confirmBelow ≤ 1)) path
        "need 0 <= reject_below <= confirm_below <= 1").flatten

/-- One slot of a pipeline. -/
def pipelineSlot (c : BusinessConfig) (before : List PipelineSlot) (path : String)
    (ps : PipelineSlot) : List Issue :=
  issueIf (!c.slots.contains ps.slot) path ("unknown slot `" ++ ps.slot ++ "`") ++
    issueIf (before.any fun other => other.slot == ps.slot) path "slot listed twice" ++
    issueIf (ps.required && ps.ask.isNone && ps.default.isNone) path
      "a required slot without a default needs `ask`" ++
    needOptional c (path ++ ".ask") ps.ask

/-- What a pipeline does once its slots are known. -/
def pipelineAction (c : BusinessConfig) (path : String) (p : PipelineConfig) : List Issue :=
  match p.action with
  | some a =>
    (match c.actions[a]? with
      | none => [⟨path ++ ".action", "unknown action `" ++ a ++ "`"⟩]
      | some action => issueIf (action.requiresConfirmation && p.confirm.isNone) (path ++ ".confirm")
          ("action `" ++ a ++ "` requires confirmation but the pipeline has no confirm step")) ++
      issueIf p.onSuccess.isNone (path ++ ".on_success") "a pipeline with an action needs on_success"
  | none =>
    issueIf p.onComplete.isNone path "a pipeline without an action needs on_complete"

/-- The pipelines. -/
def pipelines (c : BusinessConfig) : List Issue :=
  (c.pipelines.toList.map fun (id, p) =>
    let path := "pipelines." ++ id
    (p.slots.mapIdx fun n ps =>
      pipelineSlot c (p.slots.take n) (indexed (path ++ ".slots") n) ps).flatten ++
      (match p.confirm with
        | some cf => needResponse c (path ++ ".confirm.response") cf.response ++
            needResponse c (path ++ ".confirm.ask_change") cf.askChange
        | none => []) ++
      needOptional c (path ++ ".filler") p.filler ++
      needOptional c (path ++ ".on_success") p.onSuccess ++
      needOptional c (path ++ ".on_failure") p.onFailure ++
      needOptional c (path ++ ".on_unknown") p.onUnknown ++
      needOptional c (path ++ ".on_complete") p.onComplete ++
      pipelineAction c path p).flatten

/-- The actions and the customer lookup. -/
def actions (c : BusinessConfig) : List Issue :=
  (c.actions.toList.map fun (id, a) =>
    issueIf (a.backends == 0) ("actions." ++ id ++ ".backends") "needs at least one backend" ++
      issueIf (a.maxAttempts == 0) ("actions." ++ id ++ ".max_attempts") "must be at least 1").flatten ++
    match c.customerLookup with
    | some cl => issueIf (!c.actions.contains cl.action) "customer_lookup.action"
        ("unknown action `" ++ cl.action ++ "`") ++
        needOptional c "customer_lookup.known_greeting" cl.knownGreeting
    | none => []

/-- A parameter whose every value is recorded. -/
def pregenerable : Option ParamConfig → Bool
  | some (.count ..) | some (.number ..) | some (.enum _) => true
  | _ => false

/-- One response. -/
def response (c : BusinessConfig) (path : String) (r : ResponseConfig) : List Issue :=
  let used := (r.variants.map placeholders).flatten
  issueIf (r.variants.isEmpty || r.variants.any fun t => trim t == "") (path ++ ".variants")
      "needs non-empty variants" ++
    (match r.delivery with
      | some d => issueIf (!c.voice.deliveries.contains d) (path ++ ".delivery")
          ("unknown delivery `" ++ d ++ "`")
      | none => []) ++
    (match r.prefixed with
      | some p =>
        match c.responses[p]? with
        | none => [⟨path ++ ".prefix", "unknown response `" ++ p ++ "`"⟩]
        | some pr => issueIf pr.prefixed.isSome (path ++ ".prefix")
            "a prefix cannot itself have a prefix"
      | none => []) ++
    (r.params.toList.map fun (name, param) =>
      (match param with
        | .count _ _ _ lo hi | .number _ lo hi => issueIf (decide (hi < lo ∨ 500 < hi - lo))
            (path ++ ".params." ++ name) "range must be ordered and span at most 500"
        | _ => []) ++
        issueIf (!used.contains name) (path ++ ".params." ++ name) "declared but never used").flatten ++
    issueIf (decide (2 < (used.filter fun p => pregenerable r.params[p]?).eraseDups.length)) path
      "at most two pre-generated parameters per response (combinatorial library size)"

/-- The responses. -/
def responses (c : BusinessConfig) : List Issue :=
  (c.responses.toList.map fun (id, r) => response c ("responses." ++ id) r).flatten

/-- The rules. -/
def rules (c : BusinessConfig) : List Issue :=
  (c.rules.mapIdx fun n rule =>
    let path := indexed "rules" n ++ "(" ++ rule.id ++ ")"
    issueIf (!c.slots.contains rule.when.slot) (path ++ ".when.slot")
        ("unknown slot `" ++ rule.when.slot ++ "`") ++
      (match rule.pipeline with
        | some p => issueIf (!c.pipelines.contains p) (path ++ ".pipeline")
            ("unknown pipeline `" ++ p ++ "`")
        | none => []) ++
      match rule.effect with
      | .reject response => needResponse c (path ++ ".then.response") response
      | .handoff response _ => needOptional c (path ++ ".then.response") response
      | .set slot _ => issueIf (!c.slots.contains slot) (path ++ ".then.slot")
          ("unknown slot `" ++ slot ++ "`")).flatten

/-- The pronunciation dictionaries. -/
def pronunciations [Unicode] (c : BusinessConfig) : List Issue :=
  ([("pronunciations", c.pronunciations),
    ("pronunciations_feminine", c.pronunciationsFeminine)].map fun (field, dictionary) =>
      (dictionary.toList.map fun (word, spoken) =>
        issueIf (normalize word == "" || trim spoken == "") (field ++ "." ++ word)
          "empty entry").flatten).flatten

end Validate

/-- **`validate`: every issue of a configuration.** -/
def validate [Unicode] (rx : Regexes) (c : BusinessConfig) : List Issue :=
  Validate.header c ++ Validate.needResponse c "greeting" c.greeting ++ Validate.agent c ++
    Validate.call c ++ Validate.metaIntents c ++ Validate.intents c ++ Validate.slots rx c ++
    Validate.pipelines c ++ Validate.actions c ++ Validate.responses c ++ Validate.rules c ++
    Validate.pronunciations c

end Callora
