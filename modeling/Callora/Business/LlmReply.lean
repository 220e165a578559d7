/-
**The language model's reply.**

`parseResponse` reads the reply of the language model: its values go through the typed parsers, and what
does not fit the business is dropped. `merge` combines it with the rules' own reading.

A value is stored with the model's confidence, but the parser's is raised to 0.6 first. A value is
therefore stored below the parser's own confidence exactly where that floor reaches the slot's
`reject_below` and the parser does not (`Floored`): `llm_values_accepted`. An integer out of its range
gets in that way (`outOfRange_stored`).
-/
import Callora.Business.Understanding
import Mathlib.Data.List.Induction

set_option linter.unusedSectionVars false

namespace Callora

open Callora.Text

/-- A value of the reply: a slot, the caller's words and how sure the model is. -/
structure LlmItem where
  slot : String
  text : String
  confidence : F32
  deriving DecidableEq

section Reply

/-- `f64::clamp(0.0, 1.0)`. -/
def clampUnit (x : ℚ) : ℚ := max 0 (min x 1)

/-- One entry of the reply's `slots`. -/
def llmItem (item : Json) : Option LlmItem := do
  let slot ← (← item.get "slot").asStr
  let text ← (← item.get "value").asStr
  some ⟨slot, text, F32.ofRat (clampUnit (((item.get "confidence").bind Json.asF64).getD 0.6))⟩

/-- The entries of the reply's `slots`. -/
def llmItems (reply : Json) : List LlmItem :=
  match reply.get "slots" with
  | some (.arr items) => items.filterMap llmItem
  | _ => []

variable [Unicode] (b : Business) (ctx : Context)

/-- The parser's reading of an entry's words. -/
def readItem (item : LlmItem) : Option (SlotValue × F32) := do
  let cfg ← b.slotConfig item.slot
  parseSlotValue b item.slot cfg item.text true ctx.customer

/-- The value stored for an entry: the model's confidence, at most the parser's, of at least 0.6. -/
def fillOf (item : LlmItem) (read : SlotValue × F32) : SlotFill :=
  ⟨item.slot, read.1, min item.confidence (max read.2 0.6), .llm⟩

/-- The first value read for a slot counts. -/
def takeItem (u : Understanding) (item : LlmItem) : Understanding :=
  match readItem b ctx item with
  | none => u
  | some read =>
    if (u.slot item.slot).isNone then { u with slots := u.slots ++ [fillOf item read] } else u

/-- The reply's intent, of the business, with its confidence. -/
def llmIntent (reply : Json) : Option IntentGuess := do
  let id ← (← reply.get "intent").asStr
  let _ ← b.intent id
  some ⟨id, F32.ofRat (clampUnit (((reply.get "intent_confidence").bind Json.asF64).getD 0.7))⟩

/-- **`parse_response`**. -/
def parseResponse (transcript : String) (reply : Json) : Understanding :=
  let u : Understanding := { Understanding.empty transcript with
    coverage := 1
    metaIntent := ((reply.get "meta_intent").bind Json.asStr).bind MetaIntent.parse
    intent := llmIntent b reply
    affirm := (reply.get "affirm").bind Json.asBool
    frustrated := ((reply.get "frustrated").bind Json.asBool).getD false }
  let notForAgent := (reply.get "speech").bind Json.asStr == some "not_for_agent"
  let u := (llmItems reply).foldl (takeItem b ctx) u
  { u with noise := notForAgent && u.isEmpty }

end Reply

section Merge

/-- The intent of a merge: the model's fills a gap, and wins where it is surer. -/
def mergeIntent : Option IntentGuess → Option IntentGuess → Option IntentGuess
  | none, llm => llm
  | some fast, some llm => if fast.confidence < llm.confidence then some llm else some fast
  | some fast, none => some fast

/-- A value of the model among those read: it fills a gap, and wins over one that is not sure. -/
def mergeFill : List SlotFill → SlotFill → List SlotFill
  | [], fill => [fill]
  | read :: rest, fill =>
    if read.slot = fill.slot then
      (if read.confidence < 0.9 ∧ read.confidence ≤ fill.confidence then fill else read) :: rest
    else read :: mergeFill rest fill

/-- A doubtful value of the rules that the model did not see was a misreading. -/
def keptByMerge (llm : Understanding) (fill : SlotFill) : Bool :=
  fill.provenance != .rules || decide (0.6 ≤ fill.confidence) ||
    llm.slots.any fun l => l.slot == fill.slot

/-- **`merge`**: the rules' reading, with the language model's. -/
def merge (fast llm : Understanding) : Understanding :=
  let metaIntent := fast.metaIntent.or llm.metaIntent
  let intent := mergeIntent fast.intent llm.intent
  let slots := llm.slots.foldl mergeFill (fast.slots.filter (keptByMerge llm))
  let noise := llm.noise && metaIntent.isNone && intent.isNone && slots.isEmpty
  { fast with
    metaIntent := metaIntent
    intent := intent
    affirm := if noise then none else fast.affirm.or llm.affirm
    slots := slots
    frustrated := llm.frustrated
    coverage := 1
    noise := noise }

theorem mem_mergeFill {slots : List SlotFill} {fill x : SlotFill} (listed : x ∈ mergeFill slots fill) :
    x ∈ slots ∨ x = fill := by
  induction slots with
  | nil => exact .inr (List.mem_singleton.mp listed)
  | cons read rest ih =>
    unfold mergeFill at listed
    split at listed
    · rcases List.mem_cons.mp listed with here | later
      · split at here
        · exact .inr here
        · exact .inl (here ▸ List.mem_cons_self)
      · exact .inl (List.mem_cons_of_mem _ later)
    · rcases List.mem_cons.mp listed with here | later
      · exact .inl (here ▸ List.mem_cons_self)
      · exact (ih later).imp_left (List.mem_cons_of_mem _)

theorem mem_foldl_mergeFill {fills slots : List SlotFill} {x : SlotFill}
    (listed : x ∈ fills.foldl mergeFill slots) : x ∈ slots ∨ x ∈ fills := by
  induction fills generalizing slots with
  | nil => exact .inl listed
  | cons fill rest ih =>
    rcases ih listed with before | later
    · rcases mem_mergeFill before with read | rfl
      · exact .inl read
      · exact .inr List.mem_cons_self
    · exact .inr (List.mem_cons_of_mem _ later)

/-- **What is merged was read** by the rules or by the model. -/
theorem mem_merge {fast llm : Understanding} {fill : SlotFill} (listed : fill ∈ (merge fast llm).slots) :
    fill ∈ fast.slots ∨ fill ∈ llm.slots :=
  (mem_foldl_mergeFill listed).imp_left fun kept => (List.mem_filter.mp kept).1

end Merge

section Taken

variable [Unicode] {b : Business} {ctx : Context}

/-- The entry gives a value of the slot. -/
def gives (b : Business) (ctx : Context) (slot : String) (item : LlmItem) : Bool :=
  item.slot == slot && (readItem b ctx item).isSome

/-- **The entry counts**: it is the first of its slot that the parser reads. -/
def Kept (b : Business) (ctx : Context) (items : List LlmItem) (item : LlmItem) : Prop :=
  items.find? (gives b ctx item.slot) = some item

theorem takeItem_slots (b : Business) (ctx : Context) (u : Understanding) (item : LlmItem) : ∃ fills,
    (takeItem b ctx u item).slots = u.slots ++ fills ∧ ∀ fill, fill ∈ fills ↔
      (u.slot item.slot).isNone ∧ ∃ read, readItem b ctx item = some read ∧ fill = fillOf item read := by
  unfold takeItem
  cases read : readItem b ctx item with
  | none => exact ⟨[], (List.append_nil _).symm, by simp⟩
  | some value =>
    dsimp only
    split
    · rename_i absent
      refine ⟨[fillOf item value], rfl, fun fill => ?_⟩
      simp [absent]
    · rename_i held
      exact ⟨[], (List.append_nil _).symm, by simp [held]⟩

/-- **What is taken from a reply**: the entries that count. -/
theorem mem_takeItems {items : List LlmItem} {u : Understanding} (empty : u.slots = [])
    {fill : SlotFill} :
    fill ∈ (items.foldl (takeItem b ctx) u).slots ↔
      ∃ item read, Kept b ctx items item ∧ readItem b ctx item = some read ∧ fill = fillOf item read := by
  induction items using List.reverseRecOn generalizing fill with
  | nil => simp [empty, Kept]
  | append_singleton items last ih =>
    rw [List.foldl_append, List.foldl_cons, List.foldl_nil]
    obtain ⟨fills, same, taken⟩ := takeItem_slots b ctx (items.foldl (takeItem b ctx) u) last
    have first : ((items.foldl (takeItem b ctx) u).slot last.slot).isNone ↔
        items.find? (gives b ctx last.slot) = none := by
      rw [Understanding.slot, Option.isNone_iff_eq_none, List.find?_eq_none]
      constructor
      · intro absent
        by_contra found
        obtain ⟨item, kept⟩ := Option.ne_none_iff_exists'.mp found
        obtain ⟨here, readable⟩ := Bool.and_eq_true _ _ ▸ List.find?_some kept
        have here := eq_of_beq here
        obtain ⟨read, given⟩ := Option.isSome_iff_exists.mp readable
        exact absent _ (ih.mpr ⟨item, read, by rw [Kept, here]; exact kept, given, rfl⟩)
          (beq_iff_eq.mpr here)
      · intro none' fill listed here
        obtain ⟨item, read, kept, -, rfl⟩ := ih.mp listed
        have here : item.slot = last.slot := eq_of_beq here
        rw [Kept, here, none'] at kept
        cases kept
    rw [same, List.mem_append, ih, taken, first]
    simp only [Kept, List.find?_append]
    constructor
    · rintro (⟨item, read, kept, here⟩ | ⟨fresh, read, here, rfl⟩)
      · exact ⟨item, read, by rw [kept, Option.some_or], here⟩
      · exact ⟨last, read, by simp [fresh, gives, here], here, rfl⟩
    · rintro ⟨item, read, kept, here⟩
      cases found : items.find? (gives b ctx item.slot) with
      | some other =>
        rw [found, Option.some_or] at kept
        obtain rfl := Option.some.inj kept
        exact .inl ⟨other, read, found, here⟩
      | none =>
        rw [found, Option.none_or] at kept
        obtain rfl : last = item := List.mem_singleton.mp (List.mem_of_find?_eq_some kept) |>.symm
        exact .inr ⟨found, read, here⟩

/-- The value of an entry of the reply that counts. -/
structure FromEntry (b : Business) (ctx : Context) (reply : Json) (item : LlmItem) (fill : SlotFill) :
    Prop where
  kept : Kept b ctx (llmItems reply) item
  given : ∃ read, readItem b ctx item = some read ∧ fill = fillOf item read

theorem FromEntry.slot {reply : Json} {item : LlmItem} {fill : SlotFill}
    (entry : FromEntry b ctx reply item fill) : fill.slot = item.slot := by
  obtain ⟨read, -, rfl⟩ := entry.given
  rfl

/-- A value comes from one entry. -/
theorem FromEntry.unique {reply : Json} {item other : LlmItem} {fill : SlotFill}
    (entry : FromEntry b ctx reply item fill) (entry' : FromEntry b ctx reply other fill) :
    other = item := by
  have same : other.slot = item.slot := entry'.slot.symm.trans entry.slot
  have kept := entry'.kept
  rw [Kept, same, entry.kept] at kept
  exact (Option.some.inj kept).symm

theorem mem_parseResponse {transcript : String} {reply : Json} {fill : SlotFill} :
    fill ∈ (parseResponse b ctx transcript reply).slots ↔ ∃ item, FromEntry b ctx reply item fill := by
  refine (mem_takeItems rfl).trans ⟨?_, ?_⟩
  · rintro ⟨item, read, kept, given, same⟩
    exact ⟨item, kept, read, given, same⟩
  · rintro ⟨item, kept, read, given, same⟩
    exact ⟨item, read, kept, given, same⟩

/-- The parser's own confidence reaches the slot's `reject_below`. -/
def Accepted (b : Business) (ctx : Context) (item : LlmItem) : Prop :=
  ∀ cfg, b.slotConfig item.slot = some cfg →
    ∃ v c, readItem b ctx item = some (v, c) ∧ cfg.rejectBelow ≤ c

/-- **A value of the model that `apply_fills` would store is one the parser accepts.** -/
def Sound (b : Business) (ctx : Context) (reply : Json) (fill : SlotFill) : Prop :=
  ∃ item, FromEntry b ctx reply item fill ∧
    ((∀ cfg, b.slotConfig fill.slot = some cfg → cfg.rejectBelow ≤ fill.confidence) →
      Accepted b ctx item)

/-- **The floor lets an entry in**: the parser is below the slot's `reject_below`, 0.6 and the model are
not. -/
def Floored (b : Business) (ctx : Context) (item : LlmItem) : Prop :=
  ∃ cfg v c, b.slotConfig item.slot = some cfg ∧ readItem b ctx item = some (v, c) ∧
    c < cfg.rejectBelow ∧ cfg.rejectBelow ≤ 0.6 ∧ cfg.rejectBelow ≤ item.confidence

/-- A value that the floor does not let in is sound. -/
theorem FromEntry.sound {reply : Json} {item : LlmItem} {fill : SlotFill}
    (entry : FromEntry b ctx reply item fill) (clear : ¬Floored b ctx item) : Sound b ctx reply fill := by
  refine ⟨item, entry, fun reaches cfg config => ?_⟩
  obtain ⟨⟨value, parsed⟩, given, rfl⟩ := entry.given
  obtain ⟨model, floor⟩ := le_min_iff.mp (reaches cfg config)
  refine ⟨value, parsed, given, ?_⟩
  by_contra below
  have floor : cfg.rejectBelow ≤ 0.6 := (le_max_iff.mp floor).resolve_left below
  exact clear ⟨cfg, value, parsed, config, given, not_le.mp below, floor, model⟩

/-- A value that the floor lets in is taken, and not sound. -/
theorem Floored.refused {reply : Json} {item : LlmItem} (floored : Floored b ctx item)
    (kept : Kept b ctx (llmItems reply) item) (transcript : String) :
    ∃ fill ∈ (parseResponse b ctx transcript reply).slots, ¬Sound b ctx reply fill := by
  obtain ⟨cfg, value, parsed, config, given, below, floor, model⟩ := floored
  have entry : FromEntry b ctx reply item (fillOf item (value, parsed)) := ⟨kept, _, given, rfl⟩
  refine ⟨_, mem_parseResponse.mpr ⟨item, entry⟩, fun ⟨other, entry', accepted⟩ => ?_⟩
  obtain rfl := entry.unique entry'
  have reaches (cfg' : SlotConfig) (here : b.slotConfig other.slot = some cfg') :
      cfg'.rejectBelow ≤ min other.confidence (max parsed 0.6) := by
    obtain rfl := Option.some.inj (here.symm.trans config)
    exact le_min model (le_max_of_le_right floor)
  obtain ⟨v, c, same, sure⟩ := accepted reaches cfg config
  obtain ⟨-, rfl⟩ := Prod.mk.inj (Option.some.inj (same.symm.trans given))
  exact absurd sure (not_le.mpr below)

/-- **Every value of the language model that would be stored is one the parser accepts**, also after a
merge with a reading of the rules, exactly where the floor lets no entry in. -/
theorem llm_values_accepted (b : Business) (ctx : Context) (transcript : String) (reply : Json) :
    ((∀ fill ∈ (parseResponse b ctx transcript reply).slots, Sound b ctx reply fill) ∧
      ∀ fast : Understanding, (∀ fill ∈ fast.slots, fill.provenance ≠ .llm) →
        ∀ fill ∈ (merge fast (parseResponse b ctx transcript reply)).slots, fill.provenance = .llm →
          Sound b ctx reply fill) ↔
      ∀ item, Kept b ctx (llmItems reply) item → ¬Floored b ctx item := by
  constructor
  · rintro ⟨sound, -⟩ item kept floored
    obtain ⟨fill, listed, refused⟩ := floored.refused kept transcript
    exact refused (sound fill listed)
  · intro clear
    have sound : ∀ fill ∈ (parseResponse b ctx transcript reply).slots, Sound b ctx reply fill := by
      intro fill listed
      obtain ⟨item, entry⟩ := mem_parseResponse.mp listed
      exact entry.sound (clear item entry.kept)
    refine ⟨sound, fun fast rules fill listed model => ?_⟩
    rcases mem_merge listed with read | taken
    · exact absurd model (rules fill read)
    · exact sound fill taken

end Taken

namespace Sample

/-- Rides of at most eight. -/
def cappedConfig : BusinessConfig := { config with
  slots := config.slots.insert "seats" { slotOf .integer "seats" with max := some 8 } }

def capped : Business :=
  @Business.build Unicode.plain (fun _ => .error "no pattern") (fun _ => none) cappedConfig

set_option maxRecDepth 100000 in
theorem capped_validated : @Business.Validated Unicode.plain capped := by
  refine ⟨fun _ => .error "no pattern", fun _ => none, cappedConfig, ?_⟩
  have sound : @Business.issues Unicode.plain (fun _ => .error "no pattern") (fun _ => none)
      cappedConfig = [] := by
    decide +kernel
  unfold Business.compile
  rw [if_pos sound]
  rfl

/-- Ninety-nine seats, of which the model is sure. -/
def ninetyNine : Json := .obj [("slots", .arr [.obj [("slot", .str "seats"), ("value", .str "99"),
  ("confidence", .float 0.9 "0.9")]])]

/-- Nothing is asked. -/
def nothing : Context := ⟨none, none, false, none⟩

end Sample

section Sample

open Sample

/-- The entry of the reply. -/
def ninetyNineSeats : LlmItem := ⟨"seats", "99", 0.9⟩

set_option maxRecDepth 100000 in
/-- An integer out of its range is stored. -/
theorem outOfRange_stored : capped.Validated ∧
    ¬∀ fill ∈ (parseResponse capped nothing "ninety-nine" ninetyNine).slots,
      Sound capped nothing ninetyNine fill := by
  refine ⟨capped_validated, fun sound => ?_⟩
  have kept : Kept capped nothing (llmItems ninetyNine) ninetyNineSeats := by
    unfold Kept
    decide +kernel
  have given : readItem capped nothing ninetyNineSeats = some (.integer 99, 0.2) := by decide +kernel
  have threshold : (capped.slotConfig "seats").map SlotConfig.rejectBelow = some 0.35 := by decide +kernel
  obtain ⟨cfg, config, rejects⟩ := Option.map_eq_some_iff.mp threshold
  have floored : Floored capped nothing ninetyNineSeats :=
    ⟨cfg, _, _, config, given, by rw [rejects]; decide +kernel, by rw [rejects]; decide +kernel,
      by rw [rejects]; decide +kernel⟩
  obtain ⟨fill, listed, refused⟩ := floored.refused kept "ninety-nine"
  exact refused (sound fill listed)

end Sample

end Callora
