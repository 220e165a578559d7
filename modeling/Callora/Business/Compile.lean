/-
**The compiled business.**

`Business` is a validated configuration with every matcher compiled; calls share it and nothing changes
it. `Business.compile` builds one from a configuration without issues, and from nothing else.

`Sample.rides` is a small one, to try the engine on: rides are booked after a read-back, a booked ride is
looked up without one.
-/
import Callora.Business.Validate

set_option linter.unusedSectionVars false

namespace Callora

open Callora.Text

structure CompiledMeta where
  intent : MetaIntent
  phrases : PhraseSet
  exact : PhraseSet
  response : Option String

structure CompiledPlace where
  name : String
  address : Option String
  aliases : PhraseSet

structure CompiledSlot where
  patterns : List Pattern
  enumValues : List (String × PhraseSet)
  contextAliases : List (PhraseSet × String)
  synonyms : List (PhraseSet × Json)
  stripPrefixes : List String

/-- **A business with its matchers compiled.** -/
structure Business where
  config : BusinessConfig
  phoneNumbers : List String
  affirm : PhraseSet
  deny : PhraseSet
  fillers : PhraseSet
  now : PhraseSet
  correct : PhraseSet
  harmless : PhraseSet
  hello : PhraseSet
  nothing : PhraseSet
  transfer : PhraseSet
  abuse : PhraseSet
  sameCity : PhraseSet
  informalPlaces : PhraseSet
  personalPlaces : PhraseSet
  metas : List CompiledMeta
  intentKeywords : List (String × PhraseSet)
  slots : BTreeMap CompiledSlot
  places : List CompiledPlace
  voiceId : Option String
  handoffNumber : Option String

namespace Business

section Lookups

variable (b : Business)

/-- `Business::intent`. -/
def intent (id : String) : Option IntentConfig := b.config.intents.find? fun i => i.id == id

/-- `Business::pipeline`. -/
def pipeline (id : String) : Option PipelineConfig := b.config.pipelines[id]?

/-- `Business::response`. -/
def response (id : String) : Option ResponseConfig := b.config.responses[id]?

/-- A response is configured. -/
def hasResponse (id : String) : Bool := (b.response id).isSome

/-- A slot's configuration. -/
def slotConfig (slot : String) : Option SlotConfig := b.config.slots[slot]?

/-- An action's configuration. -/
def action (id : String) : Option ActionConfig := b.config.actions[id]?

/-- `Business::meta`. -/
def metaOf (intent : MetaIntent) : Option CompiledMeta := b.metas.find? fun m => m.intent == intent

/-- A named delivery exists. -/
def hasDelivery (name : String) : Bool := b.config.voice.deliveries.contains name

/-- `Business::is_informal_place`. -/
def isInformalPlace [Unicode] (name : String) : Bool := b.informalPlaces.found (normalize name)

/-- `Business::is_personal_place`. -/
def isPersonalPlace [Unicode] (name : String) : Bool := b.personalPlaces.found (normalize name)

/-- `Business::is_abusive`. -/
def isAbusive [Unicode] (text : String) : Bool := b.abuse.found (normalize text)

/-- `Business::says_same_city`. -/
def saysSameCity [Unicode] (text : String) : Bool := b.sameCity.found (normalize text)

/-- `Business::announces_transfer`. -/
def announcesTransfer [Unicode] (text : String) : Bool := b.transfer.found (normalize text)

/-- `Business::stt_keyterms`: configured terms, then place names, then their aliases. -/
def sttKeyterms : List String :=
  let places := b.config.places.map PlaceConfig.name ++ (b.config.places.map PlaceConfig.aliases).flatten
  (((b.config.sttKeyterms ++ places).map trim).filter (· != "")).eraseDups

end Lookups

section Compiling

variable [Unicode] (rx : Regexes) (env : String → Option String)

/-- The compiled patterns of a slot, without those that do not compile. -/
def compilePatterns (patterns : List String) : List Pattern :=
  patterns.filterMap fun p => (rx p).toOption

/-- A slot's matchers. -/
def compileSlot (s : SlotConfig) : CompiledSlot where
  patterns := compilePatterns rx s.patterns
  enumValues := s.values.toList.map fun (canonical, phrases) => (canonical, PhraseSet.new phrases true)
  contextAliases := s.contextAliases.toList.map fun (phrase, key) => (PhraseSet.new [phrase] false, key)
  synonyms := s.synonyms.toList.map fun (phrase, value) => (PhraseSet.new [phrase] true, value)
  stripPrefixes := s.stripPrefixes

/-- The numbers the business is called on. -/
def allNumbers (c : BusinessConfig) : List String :=
  c.phoneNumbers ++ (match c.phoneNumbersEnv.bind env with
    | some value => ((split (· == ',') value).map trim).filter (· != "")
    | none => [])

/-- The number a transfer rings, from the environment. -/
def deskNumber (c : BusinessConfig) : Option String :=
  ((c.handoff.phoneNumberEnv.bind env).map trim).filter (· != "")

/-- The matchers of a configuration. -/
def build (c : BusinessConfig) : Business where
  config := c
  phoneNumbers := allNumbers env c
  affirm := PhraseSet.new c.lexicon.affirm false
  deny := PhraseSet.new c.lexicon.deny false
  fillers := PhraseSet.new c.lexicon.fillers false
  now := PhraseSet.new c.lexicon.now true
  correct := PhraseSet.new c.lexicon.correct false
  harmless := PhraseSet.new c.lexicon.harmless false
  hello := PhraseSet.new c.lexicon.hello false
  nothing := PhraseSet.new c.lexicon.nothing false
  transfer := PhraseSet.new c.lexicon.transfer false
  abuse := PhraseSet.new c.lexicon.abuse true
  sameCity := PhraseSet.new c.lexicon.sameCity true
  informalPlaces := PhraseSet.new c.informalPlaces true
  personalPlaces := PhraseSet.new c.personalPlaces true
  metas := c.metaIntents.toList.filterMap fun (key, m) =>
    (MetaIntent.parse key).map fun intent =>
      { intent := intent, phrases := PhraseSet.new m.phrases false,
        exact := PhraseSet.new m.exact false, response := m.response }
  intentKeywords := c.intents.map fun i => (i.id, PhraseSet.new i.keywords true)
  slots := c.slots.map fun _ s => compileSlot rx s
  places := c.places.map fun p =>
    { name := p.name, address := p.address, aliases := PhraseSet.new (p.aliases ++ [p.name]) true }
  voiceId := (c.voice.voiceId.or (c.voice.voiceIdEnv.bind env)).filter fun v => trim v != ""
  handoffNumber := deskNumber env c

/-- The patterns that do not compile, which `validate` lists too. -/
def brokenPatterns (c : BusinessConfig) : List Issue :=
  (c.slots.toList.map fun (id, s) =>
    (s.patterns.mapIdx fun n p =>
      match rx p with
      | .ok _ => []
      | .error e => [⟨Validate.indexed ("slots." ++ id ++ ".patterns") n, e⟩]).flatten).flatten

/-- Everything that keeps a configuration from being compiled. A phrase and a pronunciation are
compiled from an escaped text, which is refused for its size only; that is left out. -/
def issues (c : BusinessConfig) : List Issue :=
  validate rx c ++ brokenPatterns rx c ++
    ((allNumbers env c).mapIdx fun n number =>
      Validate.issueIf (!isE164 number) (Validate.indexed "phone_numbers" n)
        "must be an E.164 number").flatten ++
    (match deskNumber env c with
      | some n => Validate.issueIf (!isE164 n) "handoff.phone_number_env"
          "resolves to a value that is not E.164"
      | none => [])

/-- A configuration without issues has none that `validate` lists. -/
theorem validate_sound {rx : Regexes} {env : String → Option String} {c : BusinessConfig}
    (sound : issues rx env c = []) : validate rx c = [] := by
  simp only [issues, List.append_eq_nil_iff] at sound
  exact sound.1.1.1

/-- **`Business::compile`.** -/
def compile (c : BusinessConfig) : Except (List Issue) Business :=
  if issues rx env c = [] then .ok (build rx env c) else .error (issues rx env c)

end Compiling

/-- **A validated business**: what `compile` returned for some configuration, patterns and
environment. -/
def Validated [Unicode] (b : Business) : Prop :=
  ∃ rx env c, compile rx env c = .ok b

end Business

namespace Sample

/-- A map of the listed entries. -/
def mapOf {α : Type} (entries : List (String × α)) : BTreeMap α := Std.ExtTreeMap.ofList entries

/-- A response of one wording. -/
def worded (text : String) : ResponseConfig where
  variants := [text]
  params := ∅
  prefixed := none
  alone := false
  again := none
  delivery := none

/-- A slot with the thresholds of the schema. -/
def slotOf (kind : SlotKind) (description : String) : SlotConfig where
  kind := kind
  description := description
  precise := false
  streetOnce := false
  patterns := []
  cues := []
  priority := 50
  stripPrefixes := []
  contextAliases := ∅
  min := none
  max := none
  values := ∅
  synonyms := ∅
  confirmBelow := 0.6
  rejectBelow := 0.35

/-- An intent that starts a task. -/
def starts (id description : String) (keywords : List String) (pipeline : String) : IntentConfig where
  id := id
  description := description
  keywords := keywords
  pipeline := some pipeline
  respond := none
  handoff := false
  switchConfidence := 0.75
  decisive := false

/-- Booking a ride: read back, then sent; the call is over once it is booked. -/
def ride : PipelineConfig where
  description := "booking a ride"
  slots := [⟨"seats", true, some "ask_seats", none, none, none, false⟩,
    ⟨"name", false, none, none, some "name", none, false⟩]
  confirm := some ⟨"confirm", "change"⟩
  action := some "book"
  filler := none
  onSuccess := some "booked"
  onFailure := some "failed"
  onUnknown := some "unknown"
  onComplete := none
  after := .end
  strictOrder := false
  offer := none

/-- Looking a booked ride up: asked at once, and the call goes on. -/
def track : PipelineConfig where
  description := "looking a ride up"
  slots := [⟨"order", true, some "ask_order", none, none, none, false⟩]
  confirm := none
  action := some "status"
  filler := none
  onSuccess := some "done"
  onFailure := some "failed"
  onUnknown := none
  onComplete := none
  after := .continue
  strictOrder := false
  offer := none

/-- The business file. -/
def config : BusinessConfig where
  schemaVersion := 1
  id := "rides"
  name := "Rides"
  language := "en"
  timezone := "UTC"
  phoneNumbers := []
  phoneNumbersEnv := none
  voice := ⟨some "voice", none, ⟨0, 0, 0, 1⟩, mapOf [("normal", ⟨true⟩)], none⟩
  greeting := "hello"
  lexicon := ⟨["yes"], ["no"], [], [], [], [], [], [], [], [], []⟩
  metaIntents := mapOf [("go_back", ⟨["back"], [], none⟩),
    ("cancel_current_flow", ⟨["cancel"], [], some "cancelled"⟩)]
  intents := [starts "ride" "a ride" ["ride"] "ride", starts "shuttle" "a shuttle" ["shuttle"] "ride",
    starts "track" "where a booked ride is" ["track"] "track",
    ⟨"hours", "the opening hours", ["hours"], none, some "hours", false, 0.75, false⟩]
  slots := mapOf [("seats", slotOf .integer "seats"), ("order", slotOf .integer "order number"),
    ("name", slotOf .text "name")]
  places := []
  informalPlaces := []
  personalPlaces := []
  sttKeyterms := []
  serviceArea := []
  pipelines := mapOf [("ride", ride), ("track", track)]
  actions :=
    mapOf [("book", ⟨"books a ride", 1, true, 0, 2⟩), ("status", ⟨"finds a ride", 1, false, 0, 1⟩)]
  responses := mapOf [("hello", worded "hello"), ("hours", worded "always open"),
    ("cancelled", worded "cancelled"), ("ask_seats", worded "how many seats?"),
    ("ask_order", worded "which order?"), ("confirm", worded "shall I book it?"),
    ("change", worded "what should I change?"), ("booked", worded "booked"),
    ("failed", worded "it failed"),
    ("unknown", worded "not sure"), ("done", worded "done"), ("too_many", worded "that is too many"),
    ("more", worded "anything else?"), ("bye", worded "goodbye"),
    ("check", worded "did you say \x7bvalue\x7d?"), ("again", worded "say it again"),
    ("transfer", worded "one moment"), ("nobody", worded "nobody is free")]
  rules := [⟨"many", none, ⟨"seats", .gt 4⟩, .reject "too_many"⟩]
  pronunciations := ∅
  pronunciationsFeminine := ∅
  fallback := ⟨["again"], none⟩
  handoff := ⟨none, "transfer", "nobody", 2⟩
  silence := ⟨2, none, 0, none⟩
  customerLookup := none
  understanding := ⟨0.6, none⟩
  agent := none
  anythingElse := "more"
  confirmSlot := "check"
  acknowledgement := none
  goodbye := "bye"

/-- The sample calls are in ASCII. -/
scoped instance plain : Unicode := Unicode.plain

/-- No patterns, and an empty environment. -/
def rides : Business := @Business.build Unicode.plain (fun _ => .error "no pattern")
    (fun _ => none) config

set_option maxRecDepth 100000 in
theorem rides_validated : @Business.Validated Unicode.plain rides := by
  refine ⟨fun _ => .error "no pattern", fun _ => none, config, ?_⟩
  have sound : @Business.issues Unicode.plain (fun _ => .error "no pattern")
    (fun _ => none) config = [] := by
    decide +kernel
  unfold Business.compile
  rw [if_pos sound]
  rfl

end Sample

end Callora
