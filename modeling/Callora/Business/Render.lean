/-
**Speech plans.**

A response id becomes a `SpeechPlan`: its prefix, then the first of its variants (from the one the
chooser picks) whose placeholders all have values. `Variants` is what a call remembers of its choices.
The module ends with the decision of the language agent, whose phrases are responses too.
-/
import Callora.Business.Understanding

set_option linter.unusedSectionVars false

namespace Callora

open Callora.Text

inductive SegmentOrigin where
  /-- A fixed sentence. -/
  | static
  /-- A template whose values were all recorded. -/
  | template
  /-- Free content. -/
  | dynamic
  deriving DecidableEq

structure SpeechSegment where
  text : String
  responseId : String
  delivery : String
  origin : SegmentOrigin
  /-- It comes from its response's prefix. -/
  prefixed : Bool
  deriving DecidableEq

/-- What is said, one audio unit a segment. -/
structure SpeechPlan where
  segments : List SpeechSegment
  gainDb : ℚ
  deriving DecidableEq

namespace SpeechPlan

/-- `SpeechPlan::empty`. -/
def empty : SpeechPlan := ⟨[], 0⟩

/-- `SpeechPlan::free`. -/
def free (text delivery : String) (gainDb : ℚ) : SpeechPlan :=
  ⟨[⟨trim text, "agent", delivery, .dynamic, false⟩], gainDb⟩

/-- `SpeechPlan::then`: an acknowledgement is not repeated after something already said. -/
def andThen (p other : SpeechPlan) : SpeechPlan :=
  let afterSpeech := !p.segments.isEmpty
  { p with segments := p.segments ++ other.segments.dropWhile fun s => afterSpeech && s.prefixed }

/-- `SpeechPlan::is_empty`. -/
def isEmpty (p : SpeechPlan) : Bool := p.segments.isEmpty

/-- `SpeechPlan::text`. -/
def text (p : SpeechPlan) : String := join " " (p.segments.map SpeechSegment.text)

end SpeechPlan

/-- The values placeholders can take. -/
structure RenderContext where
  slots : BTreeMap SlotValue
  result : Option Json
  customer : Option Customer
  extra : BTreeMap String

/-- A placeholder's value before it is spoken. -/
inductive Raw where
  | number (n : Int)
  | text (t : String)
  | slot (v : SlotValue)

namespace RenderContext

/-- The context with no values. -/
def empty : RenderContext := ⟨∅, none, none, ∅⟩

/-- The context with one more value of its own. -/
def insert (ctx : RenderContext) (name value : String) : RenderContext :=
  { ctx with extra := ctx.extra.insert name value }

/-- A value of an action's result. -/
def resultValue : Json → Option Raw
  | .int n => if -2 ^ 63 ≤ n ∧ n < 2 ^ 63 then some (.number n) else some (.text (toString n))
  | .float _ text => some (.text text)
  | .str s => some (.text s)
  | .bool b => some (.text (if b then "true" else "false"))
  | _ => none

/-- A value of the customer record. -/
def customerValue (customer : Option Customer) (name : String) : Option Raw := do
  let c ← customer
  if name == "customer_name" then c.name.map .text
  else match ← (Json.obj c.data).get name with
    | .str s => some (.text s)
    | j => j.asI64.map .number

/-- `RenderContext::lookup`. -/
def lookup (ctx : RenderContext) (name : String) : Option Raw :=
  match ctx.extra[name]? with
  | some v => some (.text v)
  | none =>
    match ctx.result.bind fun r => r.get name with
    | some r => resultValue r
    | none =>
      match ctx.slots[name]? with
      | some v => some (.slot v)
      | none => customerValue ctx.customer name

end RenderContext

section Variants

/-- `place_in_sentence`: a place as a sentence says it, its city after "ב". -/
def placeInSentence (spoken : String) : String :=
  match rsplitOnce spoken ", " with
  | some (street, city) =>
    if trim street ≠ "" ∧ trim city ≠ "" ∧ !containsChar city ',' then trim street ++ " ב" ++ trim city
    else spoken
  | none => spoken

/-- A value as a number. -/
def Raw.asInt : Raw → Option Int
  | .number n => some n
  | .slot (.integer n) => some n
  | .text t => parseI64 (trim t)
  | _ => none

/-- A value as an enumeration's key. -/
def Raw.asKey : Raw → String
  | .slot (.enum v) => v
  | .text t => t
  | .number n => toString n
  | .slot v => v.spoken

/-- A value as free text. -/
def Raw.asText : Raw → String
  | .number n => toString n
  | .text t => t
  | .slot (.place spoken _ _) => placeInSentence spoken
  | .slot v => v.spoken

/-- `speak`: a value under its declared kind, and whether that text is recorded. -/
def speak (raw : Raw) : Option ParamConfig → Option (String × Bool)
  | some (.count gender singular plural lo hi) =>
    raw.asInt.map fun n => (countPhrase n gender singular plural, decide (lo ≤ n ∧ n ≤ hi))
  | some (.number gender lo hi) =>
    raw.asInt.map fun n => (numberWords n gender, decide (lo ≤ n ∧ n ≤ hi))
  | some (.enum values) =>
    match values[raw.asKey]? with
    | some spoken => some (spoken, true)
    | none => some (raw.asKey, false)
  | some .time | some .text | none => some (raw.asText, false)

/-- The placeholders of a variant, replaced one after the other. -/
def fillPlaceholders (response : ResponseConfig) (ctx : RenderContext) :
    List String → String → Bool → Option (String × Bool)
  | [], text, recorded => some (text, recorded)
  | name :: names, text, recorded => do
    let (spoken, pregenerated) ← speak (← ctx.lookup name) response.params[name]?
    fillPlaceholders response ctx names (replace text (braced name) spoken) (recorded && pregenerated)

/-- `render_variant`: `none` when a placeholder has no value. -/
def renderVariant (template : String) (response : ResponseConfig) (ctx : RenderContext) :
    Option (String × SegmentOrigin) :=
  match placeholders template with
  | [] => some (template, .static)
  | names => (fillPlaceholders response ctx names template true).map fun (text, recorded) =>
      (text, if recorded then .template else .dynamic)

end Variants

/-- The chooser's state and the variant chosen last for each response. -/
structure Variants where
  seed : UInt64
  last : BTreeMap Nat

namespace Variants

/-- `SeededChooser::choose`: an index below `n`, not the previous one when there is another. -/
def choose (seed : UInt64) (n : Nat) (previous : Option Nat) : Nat × UInt64 :=
  if n ≤ 1 then (0, seed)
  else
    let x := max seed 1
    let x := x ^^^ (x <<< 13)
    let x := x ^^^ (x >>> 7)
    let x := x ^^^ (x <<< 17)
    let pick := x.toNat % n
    (if previous = some pick then (pick + 1) % n else pick, x)

end Variants

/-- `Renderer`: the business, with a delivery and loudness for the call. -/
structure Renderer where
  business : Business
  deliveryOverride : Option String
  gainDb : ℚ

namespace Renderer

/-- `delivery_for`. -/
def deliveryFor (r : Renderer) (response : ResponseConfig) : String :=
  match r.deliveryOverride.filter r.business.hasDelivery with
  | some d => d
  | none => response.delivery.getD "normal"

/-- The first variant from `first` on, in turn, that has all its values, with its index. -/
def pickVariant (response : ResponseConfig) (ctx : RenderContext) (first : Nat) :
    Option (Nat × String × SegmentOrigin) :=
  let n := response.variants.length
  (List.range n).findSome? fun offset =>
    let index := (first + offset) % n
    (renderVariant (response.variants.getD index "") response ctx).map fun (text, origin) =>
      (index, text, origin)

/-- `Renderer::render`, to a depth of prefixes; a prefix has none of its own in a validated business. -/
def renderTo (r : Renderer) (ctx : RenderContext) :
    Nat → String → Variants → Option SpeechPlan × Variants
  | 0, _, v => (none, v)
  | depth + 1, responseId, v =>
    match r.business.response responseId with
    | none => (none, v)
    | some response =>
      let (lead, v) := match response.prefixed with
        | some pre =>
          let (plan, v) := r.renderTo ctx depth pre v
          ((plan.map SpeechPlan.segments).getD [], v)
        | none => ([], v)
      let (first, seed) := Variants.choose v.seed response.variants.length v.last[responseId]?
      match pickVariant response ctx first with
      | some (index, text, origin) =>
        let own := ⟨text, responseId, r.deliveryFor response, origin, false⟩
        (some ⟨lead.map (fun s => { s with prefixed := true }) ++ [own], r.gainDb⟩,
          ⟨seed, v.last.insert responseId index⟩)
      | none => (none, ⟨seed, v.last⟩)

/-- **`Renderer::render`**: a response, and its prefix, as a plan. -/
def render (r : Renderer) (responseId : String) (ctx : RenderContext) (v : Variants) :
    Option SpeechPlan × Variants :=
  r.renderTo ctx (r.business.config.responses.size + 1) responseId v

end Renderer

section Agent

/-- What the agent does beside talking. -/
inductive AgentAction where
  | none
  | readBack
  | submit
  | transfer
  | endCall
  deriving DecidableEq

/-- One decision of the agent. -/
structure AgentTurn where
  phrase : Option String
  say : String
  action : AgentAction
  task : Option String
  /-- The slots given in this utterance, in the caller's words. -/
  fields : List (String × String)
  /-- The slots this turn's question asks for. -/
  asks : List String
  deriving DecidableEq

variable (b : Business)

/-- `say_after_phrase`: whether the agent's own words are still said after its phrase. -/
def sayAfterPhrase [Unicode] (phrase sentence : String) : Bool :=
  match b.response phrase with
  | none => true
  | some r =>
    let said := normalize sentence
    let phraseAsks := r.variants.head?.any fun v => endsWithChar v '?'
    !r.alone && !(said == "" || r.variants.any fun v => normalize v == said) &&
      !(phraseAsks && containsChar sentence '?')

/-- `phrase_ids`: the agent's phrases, responses with nothing to fill in. -/
def phraseIds : List String :=
  match b.config.agent with
  | none => []
  | some agent => agent.phrases.filter fun id =>
      (b.response id).any fun r => r.variants.all fun v => !containsChar v (Char.ofNat 0x7B)

end Agent

end Callora
