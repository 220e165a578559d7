/-
**The business file.**

Everything a business means lives in its configuration: its intents, pipelines, slots, rules, actions and
responses. The records below follow the schema field by field; fields that nothing here reads (the texts
given to the language model, timings, prices) are left out.
-/
import Callora.Business.Values

set_option linter.unusedSectionVars false

namespace Callora

open Callora.Text

section Voice

/-- Base settings of the voice. -/
structure VoiceSettings where
  stability : F32
  similarityBoost : F32
  style : F32
  speed : F32

/-- A named delivery; `pregenerate` records it in the voice library. -/
structure DeliveryConfig where
  pregenerate : Bool

structure VoiceConfig where
  voiceId : Option String
  voiceIdEnv : Option String
  settings : VoiceSettings
  deliveries : BTreeMap DeliveryConfig
  dynamicCover : Option String

end Voice

section Vocabulary

/-- The words every business listens for. -/
structure Lexicon where
  affirm : List String
  deny : List String
  fillers : List String
  now : List String
  correct : List String
  harmless : List String
  hello : List String
  nothing : List String
  transfer : List String
  abuse : List String
  sameCity : List String

/-- Intents about the conversation itself. -/
inductive MetaIntent where
  | repeatLast
  | didNotUnderstand
  | speakSlower
  | speakLouder
  | cancelCurrentFlow
  | goBack
  | transferHuman
  | goodbye
  | wait
  deriving DecidableEq

namespace MetaIntent

/-- `MetaIntent::ALL`. -/
def all : List MetaIntent :=
  [repeatLast, didNotUnderstand, speakSlower, speakLouder, cancelCurrentFlow, goBack, transferHuman,
    goodbye, wait]

/-- `MetaIntent::as_str`. -/
def asStr : MetaIntent → String
  | repeatLast => "repeat_last"
  | didNotUnderstand => "did_not_understand"
  | speakSlower => "speak_slower"
  | speakLouder => "speak_louder"
  | cancelCurrentFlow => "cancel_current_flow"
  | goBack => "go_back"
  | transferHuman => "transfer_human"
  | goodbye => "goodbye"
  | wait => "wait"

/-- `MetaIntent::parse`. -/
def parse (value : String) : Option MetaIntent := all.find? fun m => m.asStr == value

end MetaIntent

structure MetaIntentConfig where
  phrases : List String
  exact : List String
  response : Option String

structure IntentConfig where
  id : String
  description : String
  keywords : List String
  pipeline : Option String
  respond : Option String
  handoff : Bool
  switchConfidence : F32
  decisive : Bool

end Vocabulary

section Slots

inductive SlotKind where
  | text
  | place
  | integer
  | boolean
  | time
  | enum
  deriving DecidableEq

structure SlotConfig where
  kind : SlotKind
  description : String
  /-- A place needs its street, not only its city. -/
  precise : Bool
  /-- A place's street is asked for once, and the city then taken as it is. -/
  streetOnce : Bool
  patterns : List String
  cues : List String
  priority : Nat
  stripPrefixes : List String
  contextAliases : BTreeMap String
  min : Option Int
  max : Option Int
  values : BTreeMap (List String)
  synonyms : BTreeMap Json
  confirmBelow : F32
  rejectBelow : F32

structure PlaceConfig where
  name : String
  aliases : List String
  address : Option String

end Slots

section Pipelines

structure PipelineSlot where
  slot : String
  required : Bool
  ask : Option String
  default : Option Json
  fromCustomer : Option String
  fromSlot : Option String
  askBeforeConfirm : Bool

structure ConfirmConfig where
  response : String
  askChange : String

inductive AfterPipeline where
  | continue
  | end
  deriving DecidableEq

structure PipelineConfig where
  description : String
  slots : List PipelineSlot
  confirm : Option ConfirmConfig
  action : Option String
  filler : Option String
  onSuccess : Option String
  onFailure : Option String
  onUnknown : Option String
  onComplete : Option String
  after : AfterPipeline
  strictOrder : Bool
  offer : Option String

/-- `PipelineConfig::slots` has an entry for the slot. -/
def PipelineConfig.has (p : PipelineConfig) (slot : String) : Bool :=
  p.slots.any fun ps => ps.slot == slot

structure ActionConfig where
  description : String
  /-- How many backends it has; none of them is read here. -/
  backends : Nat
  requiresConfirmation : Bool
  minConfidence : F32
  maxAttempts : Nat

end Pipelines

section Responses

inductive ParamConfig where
  | count (gender : Gender) (singular plural : String) (low high : Int)
  | number (gender : Gender) (low high : Int)
  | enum (values : BTreeMap String)
  | time
  | text

structure ResponseConfig where
  variants : List String
  params : BTreeMap ParamConfig
  prefixed : Option String
  alone : Bool
  again : Option String
  delivery : Option String

end Responses

section Rules

inductive ConditionTest where
  | gt (x : ℚ)
  | lt (x : ℚ)
  | eq (x : Json)
  | present (p : Bool)

structure Condition where
  slot : String
  test : ConditionTest

inductive RuleEffect where
  | reject (response : String)
  | handoff (response : Option String) (reason : String)
  | set (slot : String) (value : Json)

structure RuleConfig where
  id : String
  pipeline : Option String
  when : Condition
  effect : RuleEffect

end Rules

section Call

structure FallbackConfig where
  ladder : List String
  restart : Option String

structure HandoffConfig where
  phoneNumberEnv : Option String
  response : String
  unavailableResponse : String
  afterActionFailures : Nat

structure SilenceConfig where
  maxReprompts : Nat
  response : Option String
  patientReprompts : Nat
  patientResponse : Option String

structure CustomerLookupConfig where
  action : String
  knownGreeting : Option String
  returningGreeting : Option String

structure AgentConfig where
  phrases : List String
  thinkingFiller : Option String

structure UnderstandingConfig where
  llmBelowCoverage : F32
  thinkingFiller : Option String

/-- **A business file.** -/
structure BusinessConfig where
  schemaVersion : Nat
  id : String
  name : String
  language : String
  timezone : String
  phoneNumbers : List String
  phoneNumbersEnv : Option String
  voice : VoiceConfig
  greeting : String
  lexicon : Lexicon
  metaIntents : BTreeMap MetaIntentConfig
  intents : List IntentConfig
  slots : BTreeMap SlotConfig
  places : List PlaceConfig
  informalPlaces : List String
  personalPlaces : List String
  sttKeyterms : List String
  serviceArea : List String
  pipelines : BTreeMap PipelineConfig
  actions : BTreeMap ActionConfig
  responses : BTreeMap ResponseConfig
  rules : List RuleConfig
  pronunciations : BTreeMap String
  pronunciationsFeminine : BTreeMap String
  fallback : FallbackConfig
  handoff : HandoffConfig
  silence : SilenceConfig
  customerLookup : Option CustomerLookupConfig
  understanding : UnderstandingConfig
  agent : Option AgentConfig
  anythingElse : String
  confirmSlot : String
  acknowledgement : Option String
  goodbye : String

end Call

end Callora
