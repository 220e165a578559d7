/-
**Understanding an utterance.**

`fastPath` reads an utterance by the business's own words: a meta intent, a business intent, yes or no,
and slot values. `parseSlotValue` reads one piece of text as the value of one slot; the agent's values
and the configured defaults go through it as well.
-/
import Callora.Business.Compile

set_option linter.unusedSectionVars false

namespace Callora

open Callora.Text

structure IntentGuess where
  id : String
  confidence : F32
  deriving DecidableEq

/-- What an utterance was understood to say. -/
structure Understanding where
  transcript : String
  metaIntent : Option MetaIntent
  intent : Option IntentGuess
  /-- Yes or no. -/
  affirm : Option Bool
  slots : List SlotFill
  frustrated : Bool
  coverage : F32
  /-- Nothing but filler words. -/
  noise : Bool
  deriving DecidableEq

namespace Understanding

/-- `Understanding::empty`. -/
def empty (transcript : String) : Understanding where
  transcript := transcript
  metaIntent := none
  intent := none
  affirm := none
  slots := []
  frustrated := false
  coverage := 0
  noise := false

/-- `Understanding::is_empty`. -/
def isEmpty (u : Understanding) : Bool :=
  u.metaIntent.isNone && u.intent.isNone && u.affirm.isNone && u.slots.isEmpty

/-- `Understanding::slot`. -/
def slot (u : Understanding) (id : String) : Option SlotFill := u.slots.find? fun s => s.slot == id

end Understanding

/-- What the conversation is waiting for. -/
structure Context where
  activePipeline : Option String
  awaitingSlot : Option String
  awaitingConfirmation : Bool
  customer : Option Customer

section Values

/-- `customer_place`. -/
def customerPlace (customer : Option Customer) (key : String) : Option SlotValue := do
  let place ← (← customer).places[key]?
  some (.place place.spoken place.address (some key))

/-- A `u32` of an object. -/
def u32Field (j : Json) (key : String) : Option Nat := do
  let n ← (← j.get key).asI64
  if 0 ≤ n ∧ n < 2 ^ 32 then some n.toNat else none

/-- A time slot's value as the configuration writes it. -/
def timeFromJson (j : Json) : Option TimeSpec := do
  let kind ← (← j.get "kind").asStr
  if kind == "now" then some .now
  else if kind == "in_minutes" then (u32Field j "minutes").map .inMinutes
  else if kind == "at" then
    some (.at (← u32Field j "hour") (← u32Field j "minute") (← u32Field j "day_offset"))
  else none

/-- `json_to_value`. -/
def jsonToValue (cfg : SlotConfig) (value : Json) : Option SlotValue :=
  match cfg.kind with
  | .integer => value.asI64.map .integer
  | .boolean => value.asBool.map .boolean
  | .enum => value.asStr.map .enum
  | .text => value.asStr.map .text
  | .place => value.asStr.map fun s => .place s none none
  | .time => (timeFromJson value).map .time

/-- `is_hesitation`: a drawn-out "אההה", however many letters it has. -/
def isHesitation (token : String) : Bool :=
  2 ≤ token.length && token.toList.all ['א', 'ה', 'מ'].contains

/-- A place the business knows, named whole. -/
def knownPlace (b : Business) (text : String) : Option (SlotValue × F32) :=
  (b.places.find? fun p => p.aliases.matchesWhole text b.fillers).map fun p =>
    (.place p.name p.address none, 0.95)

/-- The prefixes of a bare place taken off: a known place, or the words to take as the place. -/
def stripPlace (b : Business) (norm : String) : List String → (SlotValue × F32) ⊕ String
  | [] => .inr norm
  | pre :: rest =>
    match stripPrefix norm pre with
    | none => stripPlace b norm rest
    | some stripped =>
      match knownPlace b stripped with
      | some hit => .inl hit
      | none =>
        if 2 ≤ stripped.length && !startsWith stripped " " then .inr stripped
        else stripPlace b norm rest

/-- `parse_place`. -/
def parsePlace (b : Business) (compiled : Option CompiledSlot) (norm : String) (bare : Bool) :
    SlotValue × F32 :=
  match knownPlace b norm with
  | some hit => hit
  | none =>
    let prefixes := match compiled with
      | some c => if bare then c.stripPrefixes else []
      | none => []
    match stripPlace b norm prefixes with
    | .inl hit => hit
    | .inr candidate =>
      let contained := b.places.any fun p => p.aliases.found candidate
      let hasNumber := candidate.toList.any isAsciiDigit
      let confidence : F32 :=
        if contained || hasNumber then 0.85
        else if 2 ≤ (split (· == ' ') candidate).length then 0.75
        else 0.55
      (.place candidate none none, confidence)

/-- The words of a slot that stand for a value: a saved place of the customer, a synonym. -/
def spokenFor (b : Business) (cfg : SlotConfig) (compiled : CompiledSlot) (norm : String)
    (customer : Option Customer) : Option (SlotValue × F32) :=
  let alias? := compiled.contextAliases.findSome? fun (phrases, key) =>
    if phrases.found norm then customerPlace customer key else none
  let synonym? := compiled.synonyms.findSome? fun (set, value) =>
    if set.matchesWhole norm b.fillers then jsonToValue cfg value else none
  (alias?.or synonym?).map fun v => (v, 0.9)

variable [Unicode]

/-- The value of a slot by its kind. -/
def valueOfKind (b : Business) (cfg : SlotConfig) (compiled : Option CompiledSlot) (norm : String)
    (bare : Bool) : Option (SlotValue × F32) :=
  let atStart (set : PhraseSet) := match set.find norm with
    | some (_, start, _) => start == 0
    | none => false
  match cfg.kind with
  | .integer => do
    let n ← (findNumbers (tokens norm)).head?
    let inRange := cfg.min.all (· ≤ n.value) && cfg.max.all (n.value ≤ ·)
    some (.integer n.value, if inRange then (if bare then 0.9 else 0.85) else 0.2)
  | .boolean =>
    if atStart b.affirm then some (.boolean true, 0.9)
    else if atStart b.deny then some (.boolean false, 0.9)
    -- A pattern matched: the mention itself means yes.
    else if !bare then some (.boolean true, 0.8)
    else none
  | .time => (parseTime norm b.now).map fun (t, c) => (.time t, c)
  | .enum => do
    let (canonical, _) ← (← compiled).enumValues.find? fun (canonical, set) =>
      normalize canonical == norm || set.found norm
    some (.enum canonical, 0.85)
  | .text => some (.text norm, if bare then 0.8 else 0.75)
  | .place => some (parsePlace b compiled norm bare)

/-- **`parse_slot_value`**: a piece of text as a value of a slot. `bare` means the text is the
caller's whole answer to a question about it. -/
def parseSlotValue (b : Business) (slot : String) (cfg : SlotConfig) (text : String) (bare : Bool)
    (customer : Option Customer) : Option (SlotValue × F32) :=
  let norm := b.fillers.strip (normalize text)
  if norm == "" then none
  else
    let compiled := b.slots[slot]?
    match compiled.bind fun c => spokenFor b cfg c norm customer with
    | some hit => some hit
    | none => valueOfKind b cfg compiled norm bare

/-- **`default_value`**: a configured value, written the way a caller would say it. -/
def defaultValue (b : Business) (slot : String) (value : Json) : Option SlotValue := do
  let cfg ← b.slotConfig slot
  let spoken : Option SlotValue := do
    let text ← value.asStr
    if cfg.kind = .time ∧ text = "now" then some (.time .now)
    else (parseSlotValue b slot cfg (normalize text) true none).map Prod.fst
  spoken.or (jsonToValue cfg value)

end Values

section FastPath

variable [Unicode] (b : Business)

/-- What the meta intents' phrases find: an intent said whole, or the longest phrase contained. -/
def readMeta (norm : String) : List CompiledMeta → Option (MetaIntent × Nat) → Coverage →
    Option MetaIntent × Bool × Coverage
  | [], best, cov => (best.map Prod.fst, false, cov)
  | m :: metas, best, cov =>
    if m.exact.matchesWhole norm b.fillers then
      (some m.intent, true, cov.mark (0, bytes norm.toList))
    else match m.phrases.find norm with
      | some (p, span) =>
        if best.all fun (_, l) => decide (l < p.text.length) then
          readMeta norm metas (some (m.intent, p.text.length)) (cov.mark span)
        else readMeta norm metas best cov
      | none => readMeta norm metas best cov

/-- Yes or no, from the opening words: whichever comes first. -/
def readAffirm (norm : String) (cov : Coverage) : Option Bool × Coverage :=
  let opening := join " " ((tokens norm).take 3)
  match b.affirm.find opening, b.deny.find opening with
  | some (_, a), some (_, d) =>
    if a.1 ≤ d.1 then (some true, cov.mark a) else (some false, cov.mark d)
  | some (_, a), none => (some true, cov.mark a)
  | none, some (_, d) => (some false, cov.mark d)
  | none, none => (none, cov)

/-- The business intent with the most keywords; on a tie, the one mentioned first. -/
def readIntent (norm : String) :
    List (String × PhraseSet) → Option (String × Nat × Nat) → Coverage → Option IntentGuess × Coverage
  | [], best, cov =>
    (best.map fun (id, hits, _) => { id := id, confidence := min (0.6 + 0.12 * (hits : F32)) 0.9 }, cov)
  | (id, keywords) :: rest, best, cov =>
    let hits := keywords.count norm
    if hits = 0 then readIntent norm rest best cov
    else
      let first := (keywords.firstPosition norm).getD (2 ^ 64 - 1)
      let better := best.all fun (_, h, f) => decide (h < hits ∨ (hits = h ∧ first < f))
      readIntent norm rest (if better then some (id, hits, first) else best) (cov.markWords keywords)

/-- `intent_of_pipeline`. -/
def intentOfPipeline (pipeline : Option String) : Option String := do
  let p ← pipeline
  let i ← b.config.intents.find? fun i => i.pipeline == some p
  some i.id

/-- `slot_in_scope`. -/
def slotInScope (ctx : Context) (intent : Option IntentGuess) (slot : String) : Bool :=
  let pipeline := ctx.activePipeline.or (do (← b.intent (← intent).id).pipeline)
  (pipeline.bind b.pipeline).any fun p => p.has slot

/-- `strip_opening_affirm`. -/
def stripOpeningAffirm (norm : String) : String :=
  match b.affirm.find norm with
  | some (_, 0, stop) => trim (String.ofList (Coverage.dropBytes stop norm.toList))
  | _ => norm

/-- What has been read so far. -/
structure Reading where
  u : Understanding
  cov : Coverage

/-- `push_fill`, marking the bytes it was read from. -/
def Reading.push (r : Reading) (slot : String) (value : SlotValue) (confidence : F32)
    (provenance : Provenance) (span : Span) : Reading :=
  { u := if (r.u.slot slot).isNone then
      { r.u with slots := r.u.slots ++ [⟨slot, value, confidence, provenance⟩] } else r.u
    cov := r.cov.mark span }

/-- The characters of the bytes `[start, stop)`. -/
def sliceBytes (start stop : Nat) (cs : List Char) : List Char :=
  let rest := Coverage.dropBytes start cs
  rest.take (rest.length - (Coverage.dropBytes (stop - start) rest).length)

/-- A slot's pattern, tried from byte `pos` on: the value stops at the first byte something else
explained. `fuel` bounds the starts tried. -/
def readPattern (ctx : Context) (norm slot : String) (cfg : SlotConfig) (re : Pattern) (r : Reading) :
    Nat → Nat → Option Reading
  | 0, _ => none
  | fuel + 1, pos =>
    if bytes norm.toList < pos then none
    else match re.capturesAt norm pos with
      | none => none
      | some (whole, value) =>
        let covered := (List.range (value.2 - value.1)).find? fun k => r.cov.isCovered (value.1 + k)
        let stop := match covered with
          | some k => value.1 + k
          | none => max value.1 value.2
        let raw := trim (String.ofList (sliceBytes value.1 stop norm.toList))
        let taken : Option Reading :=
          if raw ≠ "" ∧ (Coverage.boundaries 0 norm.toList).contains stop then
            (parseSlotValue b slot cfg raw false ctx.customer).map fun (v, confidence) =>
              r.push slot v confidence .rules (whole.1, stop)
          else none
        match taken with
        | some r => some r
        | none => readPattern ctx norm slot cfg re r fuel (r.cov.boundaryFrom (whole.1 + 1))

/-- One slot's value: a time, a saved place of the customer, a pattern, a synonym. -/
def readSlot (ctx : Context) (norm slot : String) (cfg : SlotConfig) (r : Reading) : Reading :=
  match b.slots[slot]? with
  | none => r
  | some compiled =>
    let inScope := slotInScope b ctx r.u.intent slot
    let time? := if cfg.kind = .time ∧ inScope then parseTimeSpan r.cov.masked b.now else none
    match time? with
    | some (time, confidence, span) => r.push slot (.time time) confidence .rules span
    | none =>
      let alias? : Option (Span × SlotValue) := compiled.contextAliases.findSome? fun (phrases, key) => do
        let (_, span) ← phrases.find r.cov.masked
        some (span, ← customerPlace ctx.customer key)
      match alias? with
      | some (span, value) => r.push slot value 0.9 .customer span
      | none =>
        match compiled.patterns.findSome? fun re =>
            readPattern b ctx norm slot cfg re r (bytes norm.toList + 2) 0 with
        | some r => r
        | none =>
          let synonym? : Option (Span × SlotValue) :=
            if inScope then compiled.synonyms.findSome? fun (set, value) => do
              let (_, span) ← set.find r.cov.masked
              some (span, ← jsonToValue cfg value)
            else none
          match synonym? with
          | some (span, value) => r.push slot value 0.85 .rules span
          | none => r

/-- The slots, most specific first. -/
def slotOrder : List (String × SlotConfig) :=
  b.config.slots.toList.insertionSort fun x y => x.2.priority ≤ y.2.priority

/-- A bare answer to the question just asked: the reading with it, whether the question is
answered, and whether the answer is a doubtful correction. -/
def readAnswer (ctx : Context) (norm : String) (r : Reading) : Reading × Bool × Bool :=
  match ctx.awaitingSlot, r.u.metaIntent with
  | some slot, none =>
    let switching := r.u.intent.any fun i => decide (some i.id ≠ intentOfPipeline b ctx.activePipeline)
    if (r.u.slot slot).isNone && !switching then
      let read : Option (SlotConfig × SlotValue × F32) := do
        let cfg ← b.slotConfig slot
        let (v, c) ← parseSlotValue b slot cfg (stripOpeningAffirm b norm) true ctx.customer
        some (cfg, v, c)
      match read with
      | some (cfg, value, confidence) =>
        let r := r.push slot value confidence .rules (0, bytes norm.toList)
        let u := if cfg.kind ≠ .boolean then { r.u with affirm := none } else r.u
        ({ r with u := u }, true, ctx.awaitingConfirmation && decide (confidence < cfg.confirmBelow))
      | none => (r, false, false)
    else (r, (r.u.slot slot).isSome, false)
  | _, _ => (r, false, false)

/-- A value the rules read that is below its slot's `confirm_below`. -/
def doubtfulValue (u : Understanding) : Bool :=
  u.slots.any fun s =>
    s.provenance == .rules && (b.slotConfig s.slot).any fun c => decide (s.confidence < c.confirmBelow)

/-- The values of an utterance that is more than fillers, and whether the language model should
be asked. -/
def readValues (ctx : Context) (norm : String) (exact : Bool) (r : Reading) : Understanding × Bool :=
  let (intent, cov) := readIntent norm b.intentKeywords none r.cov
  let r : Reading := { u := { r.u with intent := intent }, cov := cov }
  let r := (slotOrder b).foldl (fun r (slot, cfg) => readSlot b ctx norm slot cfg r) r
  let (r, answered, unsure) := readAnswer b ctx norm r
  let u := { r.u with coverage := r.cov.ratio }
  (u, unsure || doubtfulValue b u || u.isEmpty ||
    (!exact && !answered && decide (u.coverage < b.config.understanding.llmBelowCoverage)))

/-- **`fast_path`**: an utterance as the business's own words read it, and whether the language
model should be asked. -/
def fastPath (ctx : Context) (transcript : String) : Understanding × Bool :=
  let norm := normalize transcript
  let u := Understanding.empty transcript
  if norm = "" then (u, false)
  else
    let cov := (Coverage.new norm).markWords b.fillers
    let (metaIntent, exact, cov) := readMeta b norm b.metas none cov
    let (affirm, cov) := readAffirm b norm cov
    -- A meta phrase that is really a denial must not also count as "no".
    let affirm := if metaIntent.isSome && affirm == some false && exact then none else affirm
    let u := { u with metaIntent := metaIntent, affirm := affirm }
    if metaIntent.isNone && affirm.isNone && (tokens (b.fillers.strip norm)).all isHesitation then
      ({ u with noise := true, coverage := 1 }, false)
    else readValues b ctx norm exact { u := u, cov := cov }

end FastPath

end Callora
