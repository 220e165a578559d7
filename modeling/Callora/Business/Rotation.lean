/-
**The wordings of a response take turns.**

A response is rendered with the first of its variants, from the one the chooser picks on and going round,
that has all its values.

* `pickVariant_eq_some` — which variant is taken.
* `renders_iff` — something is said exactly when some variant can be.
* `rotates_iff` — the variant said last is not said again, while there is another, exactly when it is not
  the first one that can be said from the pick on (`Turns`).
* `turns_of_before` — whatever the chooser picks, when the variant before the last one can be said.
-/
import Callora.Business.Compile
import Callora.Business.Render

set_option linter.unusedSectionVars false

namespace Callora

open Callora.Text

section Round

variable {n first i : Nat}

/-- How many steps it is from one place of a round of `n` to another. -/
def roundSteps (n first i : Nat) : Nat := (i + n - first) % n

theorem roundSteps_lt (some' : 0 < n) : roundSteps n first i < n := Nat.mod_lt _ some'

/-- That many steps on from the one is the other. -/
theorem round_reaches (first_lt : first < n) (i_lt : i < n) : (first + roundSteps n first i) % n = i := by
  unfold roundSteps
  rw [Nat.add_mod_mod, show first + (i + n - first) = i + n by omega, Nat.add_mod_right,
    Nat.mod_eq_of_lt i_lt]

/-- No other number of steps below `n` gets there. -/
theorem roundSteps_unique {k : Nat} (first_lt : first < n) (k_lt : k < n) :
    roundSteps n first ((first + k) % n) = k := by
  unfold roundSteps
  by_cases wraps : first + k < n
  · rw [Nat.mod_eq_of_lt wraps, show first + k + n - first = k + n by omega, Nat.add_mod_right,
      Nat.mod_eq_of_lt k_lt]
  · have low : first + k - n < n := by omega
    rw [Nat.mod_eq_sub_mod (Nat.le_of_not_lt wraps), Nat.mod_eq_of_lt low,
      show first + k - n + n - first = k by omega, Nat.mod_eq_of_lt k_lt]

end Round

namespace Variants

variable {seed : UInt64} {n p : Nat} {previous : Option Nat}

/-- A pick is one of the variants. -/
theorem choose_lt (some' : 0 < n) : (choose seed n previous).1 < n := by
  unfold choose
  by_cases one : n ≤ 1
  · rw [if_pos one]
    exact some'
  · rw [if_neg one]
    dsimp only
    split
    · exact Nat.mod_lt _ some'
    · exact Nat.mod_lt _ some'

end Variants

section Picking

variable (response : ResponseConfig) (ctx : RenderContext)

/-- The variant can be said: every placeholder has its value. -/
def Speakable (i : Nat) : Prop :=
  i < response.variants.length ∧ (renderVariant (response.variants.getD i "") response ctx).isSome = true

instance : DecidablePred (Speakable response ctx) := fun _ => inferInstanceAs (Decidable (_ ∧ _))

variable {response ctx} {first : Nat}

/-- **The variant taken**: the first from the pick on, going round, that can be said. -/
theorem pickVariant_eq_some {index : Nat} {text : String} {origin : SegmentOrigin}
    (first_lt : first < response.variants.length)
    (picked : Renderer.pickVariant response ctx first = some (index, text, origin)) :
    Speakable response ctx index ∧
      renderVariant (response.variants.getD index "") response ctx = some (text, origin) ∧
      ∀ k < roundSteps response.variants.length first index,
        ¬Speakable response ctx ((first + k) % response.variants.length) := by
  obtain ⟨before, offset, after, split, here, none'⟩ := List.findSome?_eq_some_iff.mp picked
  have place : before = List.range before.length ∧ offset = before.length ∧
      before.length < response.variants.length := by
    have total := congrArg List.length split
    rw [List.length_range, List.length_append, List.length_cons] at total
    have own : (List.range response.variants.length)[before.length]? = some offset := by
      rw [split, List.getElem?_append_right le_rfl, Nat.sub_self]
      rfl
    have lead := congrArg (List.take before.length) split
    rw [List.take_range, List.take_left, Nat.min_eq_left (by omega)] at lead
    rw [List.getElem?_range (by omega)] at own
    exact ⟨lead.symm, (Option.some.inj own).symm, by omega⟩
  obtain ⟨lead, rfl, low⟩ := place
  obtain ⟨said, rendered, same⟩ := Option.map_eq_some_iff.mp here
  obtain ⟨here, same⟩ := Prod.mk.inj same
  obtain rfl : said = (text, origin) := same
  subst here
  refine ⟨⟨Nat.mod_lt _ (by omega), by rw [rendered]; rfl⟩, rendered, fun k fewer speakable => ?_⟩
  rw [roundSteps_unique first_lt low] at fewer
  have skipped := none' k (lead ▸ List.mem_range.mpr fewer)
  rw [Option.map_eq_none_iff] at skipped
  rw [Speakable, skipped] at speakable
  exact absurd speakable.2 (by simp)

theorem pickVariant_isSome (first_lt : first < response.variants.length) :
    (Renderer.pickVariant response ctx first).isSome = true ↔ ∃ i, Speakable response ctx i := by
  constructor
  · intro picked
    obtain ⟨⟨index, text, origin⟩, picked⟩ := Option.isSome_iff_exists.mp picked
    exact ⟨index, (pickVariant_eq_some first_lt picked).1⟩
  · rintro ⟨i, i_lt, speakable⟩
    by_contra none'
    rw [Bool.not_eq_true, Option.isSome_eq_false_iff, Option.isNone_iff_eq_none] at none'
    have skipped := List.findSome?_eq_none_iff.mp none' (roundSteps response.variants.length first i)
      (List.mem_range.mpr (roundSteps_lt (by omega)))
    rw [Option.map_eq_none_iff, round_reaches first_lt i_lt] at skipped
    rw [skipped] at speakable
    cases speakable

/-- A variant is taken exactly when it can be said and none before it can, from the pick on. -/
theorem pickVariant_index {p : Nat} (first_lt : first < response.variants.length) :
    (∃ said, Renderer.pickVariant response ctx first = some (p, said)) ↔ Speakable response ctx p ∧
      ∀ k < roundSteps response.variants.length first p,
        ¬Speakable response ctx ((first + k) % response.variants.length) := by
  constructor
  · rintro ⟨⟨text, origin⟩, picked⟩
    have taken := pickVariant_eq_some first_lt picked
    exact ⟨taken.1, taken.2.2⟩
  · rintro ⟨speakable, none'⟩
    obtain ⟨⟨index, text, origin⟩, picked⟩ :=
      Option.isSome_iff_exists.mp ((pickVariant_isSome first_lt).mpr ⟨p, speakable⟩)
    obtain ⟨taken, -, before⟩ := pickVariant_eq_some first_lt picked
    have own := round_reaches first_lt speakable.1
    have other := round_reaches first_lt taken.1
    have same : index = p := by
      rcases Nat.lt_trichotomy (roundSteps response.variants.length first index)
        (roundSteps response.variants.length first p) with sooner | same | later
      · exact absurd (other.symm ▸ taken) (none' _ sooner)
      · rw [← own, ← other, same]
      · exact absurd (own.symm ▸ speakable) (before _ later)
    exact ⟨(text, origin), same ▸ picked⟩

end Picking

namespace Business

/-- No issue is left with a response of a validated business. -/
theorem Validated.response_sound [Unicode] {b : Business} (valid : b.Validated) {id : String}
    {response : ResponseConfig} (found : b.response id = some response) :
    Validate.response b.config ("responses." ++ id) response = [] := by
  obtain ⟨rx, env, c, compiled⟩ := valid
  unfold compile at compiled
  split at compiled
  · rename_i sound
    obtain rfl := Except.ok.inj compiled
    have none' : validate rx c = [] := validate_sound sound
    have ofResponses : Validate.responses c = [] := by
      simp only [validate, List.append_eq_nil_iff] at none'
      exact none'.1.1.2
    exact List.flatten_eq_nil_iff.mp ofResponses _ (List.mem_map.mpr ⟨(id, response),
      Std.ExtTreeMap.mem_toList_iff_getElem?_eq_some.mpr found, rfl⟩)
  · cases compiled

/-- The prefix of a validated business's response has none of its own. -/
theorem Validated.prefix_plain [Unicode] {b : Business} (valid : b.Validated) {id pre : String}
    {response : ResponseConfig} (found : b.response id = some response)
    (prefixed : response.prefixed = some pre) :
    ∃ lead, b.response pre = some lead ∧ lead.prefixed = none := by
  have own := valid.response_sound found
  simp only [Validate.response, List.append_eq_nil_iff, prefixed] at own
  have lead := own.1.1.2
  cases known : b.config.responses[pre]? with
  | none =>
    rw [known] at lead
    cases lead
  | some pr =>
    rw [known] at lead
    refine ⟨pr, known, ?_⟩
    by_contra some'
    have bad : pr.prefixed.isSome = true := Option.isSome_iff_ne_none.mpr some'
    dsimp only at lead
    rw [Validate.issueIf, if_pos bad] at lead
    cases lead

/-- A response of a validated business has a variant. -/
theorem Validated.variants_pos [Unicode] {b : Business} (valid : b.Validated) {id : String}
    {response : ResponseConfig} (found : b.response id = some response) :
    0 < response.variants.length := by
  have own := valid.response_sound found
  simp only [Validate.response, List.append_eq_nil_iff] at own
  by_contra empty
  have empty : response.variants.isEmpty = true :=
    List.isEmpty_iff.mpr (List.length_eq_zero_iff.mp (Nat.eq_zero_of_not_pos empty))
  rw [empty, Bool.true_or, Validate.issueIf, if_pos rfl] at own
  cases own.1.1.1.1

end Business

namespace Renderer

variable {r : Renderer} {ctx : RenderContext} {response : ResponseConfig} {id : String} {v : Variants}

/-- The prefix of a response, said, and the choices of the call after it. -/
def lead (r : Renderer) (ctx : RenderContext) (response : ResponseConfig) (v : Variants) :
    List SpeechSegment × Variants :=
  match response.prefixed with
  | some pre =>
    let (plan, v) := r.renderTo ctx r.business.config.responses.size pre v
    ((plan.map SpeechPlan.segments).getD [], v)
  | none => ([], v)

/-- The variant the chooser picks first. -/
def firstPick (r : Renderer) (id : String) (ctx : RenderContext) (response : ResponseConfig)
    (v : Variants) :
    Nat :=
  (Variants.choose (r.lead ctx response v).2.seed response.variants.length v.last[id]?).1

/-- A response without a prefix leaves the choices for the others as they were. -/
theorem renderTo_last_other {depth : Nat} {pre : String} {lead : ResponseConfig}
    (found : r.business.response pre = some lead) (plain : lead.prefixed = none) (apart : pre ≠ id) :
    (r.renderTo ctx depth pre v).2.last[id]? = v.last[id]? := by
  have differ : compare pre id ≠ .eq := fun same => apart (Std.LawfulEqOrd.eq_of_compare same)
  cases depth with
  | zero => rfl
  | succ depth =>
    unfold renderTo
    rw [found]
    simp only [plain]
    cases pickVariant lead ctx (Variants.choose v.seed lead.variants.length v.last[pre]?).1 with
    | none => rfl
    | some variant =>
      obtain ⟨index, text, origin⟩ := variant
      exact Std.ExtTreeMap.getElem?_insert.trans (if_neg differ)

theorem lead_last [Unicode] (valid : r.business.Validated)
    (found : r.business.response id = some response) :
    (r.lead ctx response v).2.last[id]? = v.last[id]? := by
  unfold lead
  cases prefixed : response.prefixed with
  | none => rfl
  | some pre =>
    obtain ⟨lead, known, plain⟩ := valid.prefix_plain found prefixed
    refine renderTo_last_other known plain fun same => ?_
    subst same
    rw [found] at known
    obtain rfl := Option.some.inj known
    rw [prefixed] at plain
    cases plain

/-- A response with its prefix said. -/
theorem render_found (found : r.business.response id = some response) :
    r.render id ctx v =
      let (lead, v) := r.lead ctx response v
      let (first, seed) := Variants.choose v.seed response.variants.length v.last[id]?
      match pickVariant response ctx first with
      | some (index, text, origin) =>
        let own := ⟨text, id, r.deliveryFor response, origin, false⟩
        (some ⟨lead.map (fun s => { s with prefixed := true }) ++ [own], r.gainDb⟩,
          ⟨seed, v.last.insert id index⟩)
      | none => (none, ⟨seed, v.last⟩) := by
  unfold render renderTo lead
  rewrite [found]
  rfl

/-- **A response, rendered**: the variant that is picked, said after the prefix and remembered. -/
theorem render_eq [Unicode] (valid : r.business.Validated)
    (found : r.business.response id = some response) (ctx : RenderContext) (v : Variants) :
    match pickVariant response ctx (r.firstPick id ctx response v) with
    | some (index, text, origin) => (∃ lead, (r.render id ctx v).1 =
        some ⟨lead ++ [⟨text, id, r.deliveryFor response, origin, false⟩], r.gainDb⟩) ∧
        (r.render id ctx v).2.last[id]? = some index
    | none => (r.render id ctx v).1 = none := by
  rw [render_found found]
  unfold firstPick
  dsimp only
  rw [lead_last valid found]
  cases pickVariant response ctx
    (Variants.choose (r.lead ctx response v).2.seed response.variants.length v.last[id]?).1 with
  | none => rfl
  | some variant => exact ⟨⟨_, rfl⟩, Std.ExtTreeMap.getElem?_insert_self⟩

/-- **The wordings of a response take turns.** -/
structure Rotates (r : Renderer) (id : String) (ctx : RenderContext) (response : ResponseConfig)
    (v : Variants) (p : Nat) : Prop where
  /-- Something is said exactly when some variant has all its values. -/
  renders : (r.render id ctx v).1.isSome = true ↔ ∃ i, Speakable response ctx i
  /-- What is said and remembered is such a variant. -/
  chosen : ∀ plan, (r.render id ctx v).1 = some plan → ∃ index text origin lead,
    (r.render id ctx v).2.last[id]? = some index ∧ Speakable response ctx index ∧
      renderVariant (response.variants.getD index "") response ctx = some (text, origin) ∧
      plan.segments = lead ++ [⟨text, id, r.deliveryFor response, origin, false⟩]
  /-- The variant said last is said again only when no other can be. -/
  rotates : (r.render id ctx v).1.isSome = true → (r.render id ctx v).2.last[id]? = some p →
    ∀ i, Speakable response ctx i → i = p

/-- The variant said last is not in the way: it cannot be said, or nothing else can, or another can that
comes before it, from the chooser's pick on and going round. -/
def Turns (response : ResponseConfig) (ctx : RenderContext) (first p : Nat) : Prop :=
  Speakable response ctx p → (∃ i, Speakable response ctx i ∧ i ≠ p) →
    ∃ k < roundSteps response.variants.length first p,
      Speakable response ctx ((first + k) % response.variants.length)

theorem render_isSome [Unicode] (valid : r.business.Validated)
    (found : r.business.response id = some response) :
    (r.render id ctx v).1.isSome = true ↔
      (pickVariant response ctx (r.firstPick id ctx response v)).isSome = true := by
  have rendered := render_eq valid found ctx v
  cases picked : pickVariant response ctx (r.firstPick id ctx response v) with
  | none =>
    rw [picked] at rendered
    rw [rendered]
    simp
  | some variant =>
    obtain ⟨index, text, origin⟩ := variant
    rw [picked] at rendered
    obtain ⟨⟨lead, said⟩, -⟩ := rendered
    rw [said]
    simp

/-- **The wordings take turns exactly when the last one is not in the way.** -/
theorem rotates_iff [Unicode] {p : Nat} (valid : r.business.Validated)
    (found : r.business.response id = some response) (last : v.last[id]? = some p) :
    Rotates r id ctx response v p ↔ Turns response ctx (r.firstPick id ctx response v) p := by
  have pick_lt : r.firstPick id ctx response v < response.variants.length :=
    Variants.choose_lt (valid.variants_pos found)
  have rendered := render_eq valid found ctx v
  have renders : (r.render id ctx v).1.isSome = true ↔ ∃ i, Speakable response ctx i :=
    (render_isSome valid found).trans (pickVariant_isSome pick_lt)
  constructor
  · rintro ⟨-, -, rotates⟩ speakable ⟨i, other, apart⟩
    by_contra none'
    have skipped : ∀ k < roundSteps response.variants.length (r.firstPick id ctx response v) p,
        ¬Speakable response ctx ((r.firstPick id ctx response v + k) % response.variants.length) :=
      fun k fewer here => none' ⟨k, fewer, here⟩
    obtain ⟨⟨text, origin⟩, picked⟩ := (pickVariant_index pick_lt).mpr ⟨speakable, skipped⟩
    rw [picked] at rendered
    exact apart (rotates (renders.mpr ⟨i, other⟩) rendered.2 i other)
  · intro turns
    refine ⟨renders, fun plan said => ?_, fun some' again i speakable => ?_⟩
    · cases picked : pickVariant response ctx (r.firstPick id ctx response v) with
      | none =>
        rw [picked, said] at rendered
        cases rendered
      | some variant =>
        obtain ⟨index, text, origin⟩ := variant
        rw [picked] at rendered
        obtain ⟨⟨lead, plan'⟩, remembered⟩ := rendered
        obtain ⟨taken, own, -⟩ := pickVariant_eq_some pick_lt picked
        obtain rfl := Option.some.inj (said.symm.trans plan')
        exact ⟨index, text, origin, lead, remembered, taken, own, rfl⟩
    · obtain ⟨⟨index, text, origin⟩, picked⟩ :=
        Option.isSome_iff_exists.mp ((render_isSome valid found).mp some')
      rw [picked] at rendered
      obtain rfl := Option.some.inj (rendered.2.symm.trans again)
      obtain ⟨taken, none'⟩ := (pickVariant_index pick_lt).mp ⟨_, picked⟩
      by_contra apart
      obtain ⟨k, fewer, sooner⟩ := turns taken ⟨i, speakable, apart⟩
      exact none' k fewer sooner

/-- **Whatever the chooser picks**, the wordings take turns when the one before the last can be said. -/
theorem turns_of_before {first p : Nat} (first_lt : first < response.variants.length)
    (p_lt : p < response.variants.length) (apart : first ≠ p)
    (speakable : Speakable response ctx ((p + response.variants.length - 1) % response.variants.length)) :
    Turns response ctx first p := by
  intro _ _
  have some' : 0 < roundSteps response.variants.length first p := by
    by_contra none'
    have reached := round_reaches first_lt p_lt
    rw [Nat.eq_zero_of_not_pos none', Nat.add_zero, Nat.mod_eq_of_lt first_lt] at reached
    exact apart reached
  refine ⟨roundSteps response.variants.length first p - 1, by omega, ?_⟩
  have reached := round_reaches first_lt p_lt
  have below : roundSteps response.variants.length first p < response.variants.length :=
    roundSteps_lt (by omega)
  have before : (first + (roundSteps response.variants.length first p - 1)) % response.variants.length =
      (p + response.variants.length - 1) % response.variants.length := by
    generalize roundSteps response.variants.length first p = steps at *
    generalize response.variants.length = n at *
    by_cases wraps : first + steps < n
    · rw [Nat.mod_eq_of_lt wraps] at reached
      rw [show p + n - 1 = p - 1 + n by omega, Nat.add_mod_right,
        show first + (steps - 1) = p - 1 by omega]
    · rw [Nat.mod_eq_sub_mod (Nat.le_of_not_lt wraps), Nat.mod_eq_of_lt (by omega)] at reached
      rw [show first + (steps - 1) = p + n - 1 by omega]
  rw [before]
  exact speakable

end Renderer

namespace Sample

/-- Three wordings of "wait", one of which names the driver. -/
def waiting : ResponseConfig :=
  { worded "one moment" with variants := ["one moment", "just a second", "\x7bdriver\x7d is looking"] }

/-- Rides with a caller kept waiting. -/
def waitingConfig : BusinessConfig := { config with responses := config.responses.insert "wait" waiting }

def waitingRides : Business :=
  @Business.build Unicode.plain (fun _ => .error "no pattern") (fun _ => none) waitingConfig

set_option maxRecDepth 100000 in
theorem waitingRides_validated : @Business.Validated Unicode.plain waitingRides := by
  refine ⟨fun _ => .error "no pattern", fun _ => none, waitingConfig, ?_⟩
  have sound : @Business.issues Unicode.plain (fun _ => .error "no pattern") (fun _ => none)
      waitingConfig = [] := by
    decide +kernel
  unfold Business.compile
  rw [if_pos sound]
  rfl

/-- The voice of the call. -/
def voice : Renderer := ⟨waitingRides, none, 0⟩

/-- A call that said "one moment". -/
def saidOneMoment (seed : UInt64) : Variants := ⟨seed, mapOf [("wait", 0)]⟩

theorem waiting_found : waitingRides.response "wait" = some waiting :=
  Std.ExtTreeMap.getElem?_insert_self

theorem oneMoment_last (seed : UInt64) : (saidOneMoment seed).last["wait"]? = some 0 := by
  show (mapOf [("wait", 0)])["wait"]? = some 0
  decide

open Renderer in
/-- With no driver known, "one moment" is said again although "just a second" could be. -/
theorem waiting_saidAgain : waitingRides.Validated ∧
    ¬Rotates voice "wait" .empty waiting (saidOneMoment 17) 0 := by
  refine ⟨waitingRides_validated, fun rotates => ?_⟩
  have again := rotates.rotates (by decide) (by decide) 1 (by decide)
  cases again

open Renderer in
/-- The next pick says "just a second". -/
theorem waiting_rotates : Rotates voice "wait" .empty waiting (saidOneMoment 1) 0 :=
  (rotates_iff waitingRides_validated waiting_found (oneMoment_last 1)).mpr
    fun _ _ => ⟨0, by decide, by decide⟩

end Sample

end Callora
