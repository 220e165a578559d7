/-
**The voice library.**

`libraryEntries` is what is recorded for a business: every fixed wording, in its own delivery and each one
that is recorded throughout, and every expansion of the templates whose placeholders all have finite
domains. `Renderer.renderWith` is the renderer with any chooser of variants.

- `expand_substitute`: the expansions of a template hold every choice of values, each placeholder replaced
  once;
- `library_covers`: so what the renderer calls fixed or recorded is in the library, where replacing a
  placeholder again changes nothing.

The renderer replaces a placeholder as often as the template lists it, so a value with the
placeholder in it is put in twice (`echo_notRecorded`).
-/
import Callora.Business.Render

set_option linter.unusedSectionVars false

namespace Callora

open Callora.Text

section Entries

/-- One recording. -/
structure LibraryEntry where
  responseId : String
  delivery : String
  text : String
  deriving DecidableEq

/-- The integers of a range, both ends with it. -/
def inclusive (low high : Int) : List Int :=
  (List.range (high + 1 - low).toNat).map fun (i : Nat) => low + i

/-- `param_domain`: every text of a placeholder, where they are finitely many. -/
def paramDomain : ParamConfig → Option (List String)
  | .count gender singular plural low high =>
    some ((inclusive low high).map fun n => countPhrase n gender singular plural)
  | .number gender low high => some ((inclusive low high).map fun n => numberWords n gender)
  | .enum values => some (values.toList.map Prod.snd)
  | .time | .text => none

/-- The first occurrences of names, but for those already seen. -/
def firsts : List String → List String → List String
  | _, [] => []
  | seen, name :: names =>
    if name ∈ seen then firsts seen names else name :: firsts (seen ++ [name]) names

/-- Every text with one of the values for each placeholder. -/
def expand : List (String × List String) → List String → List String
  | [], texts => texts
  | (name, values) :: domains, texts =>
    expand domains (texts.map fun t => values.map fun v => replace t (braced name) v).flatten

/-- The placeholders of a variant with their domains, where each has one. -/
def domainsOf (r : ResponseConfig) (names : List String) : Option (List (String × List String)) :=
  (firsts [] names).mapM fun name => (r.params[name]?.bind paramDomain).map fun values => (name, values)

/-- The deliveries in which every fixed wording is recorded. -/
def extraDeliveries (b : Business) : List String :=
  (b.config.voice.deliveries.toList.filter fun (_, d) => d.pregenerate).map Prod.fst

/-- The entries of a variant. -/
def variantEntries (b : Business) (id : String) (r : ResponseConfig) (variant : String) :
    List LibraryEntry :=
  let own := r.delivery.getD "normal"
  match placeholders variant with
  | [] => (own :: extraDeliveries b).map fun d => ⟨id, d, variant⟩
  | names =>
    match domainsOf r names with
    | none => []
    | some domains => (expand domains [variant]).map fun text => ⟨id, own, text⟩

/-- What entries are ordered by. -/
def LibraryEntry.key (e : LibraryEntry) : List String := [e.responseId, e.delivery, e.text]

/-- The order of the library. -/
def LibraryEntry.order (e f : LibraryEntry) : Ordering := compare e.key f.key

instance : Std.TransCmp LibraryEntry.order :=
  inferInstanceAs (Std.TransCmp (compareOn LibraryEntry.key))

instance : Std.LawfulEqCmp LibraryEntry.order where
  compare_self {e} := Std.ReflOrd.compare_self (a := e.key)
  eq_of_compare {e f} same := by
    have keys : e.key = f.key := Std.LawfulEqOrd.eq_of_compare same
    obtain ⟨id, rest⟩ := List.cons.inj keys
    obtain ⟨delivery, rest⟩ := List.cons.inj rest
    obtain ⟨text, -⟩ := List.cons.inj rest
    cases e
    cases f
    simp_all

/-- **`library_entries`**, in the library's order. -/
def libraryEntries (b : Business) : List LibraryEntry :=
  (Std.ExtTreeSet.ofList (b.config.responses.toList.map fun (id, r) =>
    (r.variants.map (variantEntries b id r)).flatten).flatten LibraryEntry.order).toList

theorem mem_libraryEntries {b : Business} {e : LibraryEntry} : e ∈ libraryEntries b ↔
    ∃ id r, b.config.responses[id]? = some r ∧ ∃ t ∈ r.variants, e ∈ variantEntries b id r t := by
  simp only [libraryEntries, Std.ExtTreeSet.mem_toList, Std.ExtTreeSet.mem_ofList, List.contains_eq_mem,
    decide_eq_true_eq, List.mem_flatten, List.mem_map, Prod.exists,
    Std.ExtTreeMap.mem_toList_iff_getElem?_eq_some]
  constructor
  · rintro ⟨l, ⟨id, r, found, rfl⟩, inside⟩
    obtain ⟨entries, listed, inside⟩ := List.mem_flatten.mp inside
    obtain ⟨t, variant, rfl⟩ := List.mem_map.mp listed
    exact ⟨id, r, found, t, variant, inside⟩
  · rintro ⟨id, r, found, t, variant, inside⟩
    exact ⟨_, ⟨id, r, found, rfl⟩, List.mem_flatten.mpr ⟨_, List.mem_map.mpr ⟨t, variant, rfl⟩, inside⟩⟩

end Entries

section Expansions

/-- Each name's placeholder replaced by its value, one after the other. -/
def substitute (value : String → String) : List String → String → String
  | [], text => text
  | name :: names, text => substitute value names (replace text (braced name) (value name))

variable {value : String → String}

theorem substitute_append (names more : List String) (text : String) :
    substitute value (names ++ more) text = substitute value more (substitute value names text) := by
  induction names generalizing text with
  | nil => rfl
  | cons name names ih => exact ih _

/-- **The expansions hold every choice of values.** -/
theorem expand_substitute {domains : List (String × List String)} {texts : List String} {text : String}
    (inside : ∀ d ∈ domains, value d.1 ∈ d.2) (listed : text ∈ texts) :
    substitute value (domains.map Prod.fst) text ∈ expand domains texts := by
  induction domains generalizing texts text with
  | nil => exact listed
  | cons domain domains ih =>
    obtain ⟨name, values⟩ := domain
    refine ih (fun d here => inside d (List.mem_cons_of_mem _ here)) ?_
    refine List.mem_flatten.mpr ⟨_, List.mem_map.mpr ⟨text, listed, rfl⟩, ?_⟩
    exact List.mem_map.mpr ⟨value name, inside (name, values) List.mem_cons_self, rfl⟩

/-- **A placeholder listed again changes nothing**: when its turn comes again, it does not stand in the
text any more. -/
def Steady (value : String → String) (names : List String) (text : String) : Prop :=
  ∀ pre name post, names = pre ++ name :: post → name ∈ pre →
    replace (substitute value pre text) (braced name) (value name) = substitute value pre text

theorem steady_of_nodup {names : List String} (once : names.Nodup) (text : String) :
    Steady value names text := by
  rintro pre name post rfl again
  obtain ⟨-, -, apart⟩ := List.nodup_append.mp once
  exact absurd rfl (apart name again name List.mem_cons_self)

theorem firsts_congr {seen seen' : List String} (same : ∀ name, name ∈ seen ↔ name ∈ seen')
    (names : List String) : firsts seen names = firsts seen' names := by
  induction names generalizing seen seen' with
  | nil => rfl
  | cons name names ih =>
    unfold firsts
    by_cases here : name ∈ seen
    · rw [if_pos here, if_pos ((same name).mp here), ih same]
    · have longer : ∀ other, other ∈ seen ++ [name] ↔ other ∈ seen' ++ [name] := by
        intro other
        rw [List.mem_append, List.mem_append, same other]
      rw [if_neg here, if_neg fun listed => here ((same name).mpr listed), ih longer]

theorem firsts_subset {seen names : List String} {name : String} (listed : name ∈ firsts seen names) :
    name ∈ names := by
  induction names generalizing seen with
  | nil => exact listed
  | cons first names ih =>
    unfold firsts at listed
    by_cases here : first ∈ seen
    · rw [if_pos here] at listed
      exact List.mem_cons_of_mem _ (ih listed)
    · rw [if_neg here] at listed
      rcases List.mem_cons.mp listed with rfl | later
      · exact List.mem_cons_self
      · exact List.mem_cons_of_mem _ (ih later)

/-- Then each placeholder is as well replaced once. -/
theorem substitute_firsts {text : String} {pre rest : List String}
    (steady : Steady value (pre ++ rest) text) :
    substitute value rest (substitute value pre text) =
      substitute value (firsts pre rest) (substitute value pre text) := by
  induction rest generalizing pre with
  | nil => rfl
  | cons name rest ih =>
    have split : pre ++ name :: rest = (pre ++ [name]) ++ rest := by simp
    have further := ih (split ▸ steady)
    rw [substitute_append] at further
    unfold firsts
    by_cases again : name ∈ pre
    · have still := steady pre name rest rfl again
      rw [if_pos again]
      have seen : firsts (pre ++ [name]) rest = firsts pre rest := by
        refine firsts_congr (fun other => ?_) rest
        rw [List.mem_append, List.mem_singleton]
        exact ⟨fun either => either.elim id fun same => same ▸ again, .inl⟩
      show substitute value rest (replace (substitute value pre text) (braced name) (value name)) = _
      rw [seen] at further
      simp only [substitute, still] at further ⊢
      exact further
    · rw [if_neg again]
      exact further

end Expansions

section Rendering

/-- Chooses a variant of a response, of so many, not the previous one. -/
abbrev Chooser (σ : Type) := σ → String → Nat → Option Nat → Nat × σ

/-- `SeededChooser`. -/
def seededChooser : Chooser UInt64 := fun seed _ n previous => Variants.choose seed n previous

variable {σ : Type}

/-- `Renderer::render`, with any chooser, to a depth of prefixes. -/
def Renderer.renderWith (r : Renderer) (choose : Chooser σ) (ctx : RenderContext) :
    Nat → String → σ → BTreeMap Nat → Option SpeechPlan × σ × BTreeMap Nat
  | 0, _, s, last => (none, s, last)
  | depth + 1, responseId, s, last =>
    match r.business.response responseId with
    | none => (none, s, last)
    | some response =>
      let (lead, s, last) := match response.prefixed with
        | some pre =>
          let (plan, s, last) := r.renderWith choose ctx depth pre s last
          ((plan.map SpeechPlan.segments).getD [], s, last)
        | none => ([], s, last)
      let (first, s) := choose s responseId response.variants.length last[responseId]?
      match Renderer.pickVariant response ctx first with
      | some (index, text, origin) =>
        let own := ⟨text, responseId, r.deliveryFor response, origin, false⟩
        (some ⟨lead.map (fun s => { s with prefixed := true }) ++ [own], r.gainDb⟩,
          s, last.insert responseId index)
      | none => (none, s, last)

/-- The renderer of a call is the one with the seeded chooser. -/
theorem Renderer.renderTo_eq (r : Renderer) (ctx : RenderContext) (depth : Nat) (id : String)
    (v : Variants) :
    r.renderTo ctx depth id v =
      let (plan, seed, last) := r.renderWith seededChooser ctx depth id v.seed v.last
      (plan, ⟨seed, last⟩) := by
  induction depth generalizing id v with
  | zero => rfl
  | succ depth ih =>
    unfold Renderer.renderTo Renderer.renderWith
    cases r.business.response id with
    | none => rfl
    | some response =>
      dsimp only
      cases response.prefixed with
      | none =>
        dsimp only [seededChooser]
        cases Renderer.pickVariant response ctx _ <;> rfl
      | some pre =>
        dsimp only
        rw [ih]
        dsimp only [seededChooser]
        cases Renderer.pickVariant response ctx _ <;> rfl

variable {b : Business} {ctx : RenderContext} {response : ResponseConfig}

/-- The value a context gives a placeholder of a response. -/
def spokenValue (response : ResponseConfig) (ctx : RenderContext) (name : String) : String :=
  (((ctx.lookup name).bind fun raw => speak raw response.params[name]?).map Prod.fst).getD ""

theorem mem_inclusive {low high n : Int} (above : low ≤ n) (below : n ≤ high) :
    n ∈ inclusive low high := by
  have inside : (n - low).toNat < (high + 1 - low).toNat := by omega
  have here : low + ((n - low).toNat : Int) = n := by omega
  exact List.mem_map.mpr ⟨(n - low).toNat, List.mem_range.mpr inside, here⟩

/-- What is said of a value as recorded is in its placeholder's domain. -/
theorem speak_domain {raw : Raw} {param : Option ParamConfig} {spoken : String}
    (said : speak raw param = some (spoken, true)) :
    ∃ values, param.bind paramDomain = some values ∧ spoken ∈ values := by
  unfold speak at said
  cases param with
  | none => simp at said
  | some param =>
    cases param with
    | count gender singular plural low high =>
      obtain ⟨n, -, same⟩ := Option.map_eq_some_iff.mp said
      obtain ⟨rfl, inside⟩ := Prod.mk.inj same
      obtain ⟨above, below⟩ := of_decide_eq_true inside
      exact ⟨_, rfl, List.mem_map.mpr ⟨n, mem_inclusive above below, rfl⟩⟩
    | number gender low high =>
      obtain ⟨n, -, same⟩ := Option.map_eq_some_iff.mp said
      obtain ⟨rfl, inside⟩ := Prod.mk.inj same
      obtain ⟨above, below⟩ := of_decide_eq_true inside
      exact ⟨_, rfl, List.mem_map.mpr ⟨n, mem_inclusive above below, rfl⟩⟩
    | enum values =>
      dsimp only at said
      cases found : values[raw.asKey]? with
      | none =>
        rw [found] at said
        simp at said
      | some spoken' =>
        rw [found] at said
        obtain rfl := (Prod.mk.inj (Option.some.inj said)).1
        refine ⟨_, rfl, List.mem_map.mpr ⟨(raw.asKey, spoken'), ?_, rfl⟩⟩
        exact Std.ExtTreeMap.mem_toList_iff_getElem?_eq_some.mpr found
    | time => simp at said
    | text => simp at said

/-- **What filling the placeholders gives**: each replaced by its value, in turn. -/
theorem fillPlaceholders_recorded {names : List String} {text text' : String} {recorded : Bool}
    (filled : fillPlaceholders response ctx names text recorded = some (text', true)) :
    recorded ∧ text' = substitute (spokenValue response ctx) names text ∧
      ∀ name ∈ names, ∃ values, response.params[name]?.bind paramDomain = some values ∧
        spokenValue response ctx name ∈ values := by
  induction names generalizing text recorded with
  | nil =>
    obtain ⟨rfl, rfl⟩ := Prod.mk.inj (Option.some.inj filled)
    exact ⟨rfl, rfl, fun _ listed => absurd listed List.not_mem_nil⟩
  | cons name names ih =>
    obtain ⟨raw, found, filled⟩ := Option.bind_eq_some_iff.mp filled
    obtain ⟨⟨spoken, pregenerated⟩, said, filled⟩ := Option.bind_eq_some_iff.mp filled
    have value : spokenValue response ctx name = spoken := by simp [spokenValue, found, said]
    obtain ⟨both, same, later⟩ := ih filled
    obtain ⟨before, rfl⟩ := Bool.and_eq_true _ _ ▸ both
    refine ⟨before, by rw [same, substitute, value], fun other listed => ?_⟩
    rcases List.mem_cons.mp listed with rfl | rest
    · rw [value]
      exact speak_domain said
    · exact later other rest

/-- The domains of a variant whose placeholders all have one. -/
theorem domainsOf_some {names : List String} {value : String → String}
    (finite : ∀ name ∈ names, ∃ values, response.params[name]?.bind paramDomain = some values ∧
      value name ∈ values) : ∃ domains, domainsOf response names = some domains ∧
        domains.map Prod.fst = firsts [] names ∧ ∀ d ∈ domains, value d.1 ∈ d.2 := by
  have each : ∀ name ∈ firsts [] names, ∃ values,
      response.params[name]?.bind paramDomain = some values ∧ value name ∈ values :=
    fun name listed => finite name (firsts_subset listed)
  unfold domainsOf
  generalize firsts [] names = listed at each
  induction listed with
  | nil => exact ⟨[], rfl, rfl, fun _ here => absurd here List.not_mem_nil⟩
  | cons name listed ih =>
    obtain ⟨values, found, inside⟩ := each name List.mem_cons_self
    obtain ⟨domains, rest, names', held⟩ := ih fun other here => each other (List.mem_cons_of_mem _ here)
    refine ⟨(name, values) :: domains, ?_, by rw [List.map_cons, names'], fun d here => ?_⟩
    · rw [List.mapM_cons, found, rest]
      rfl
    · rcases List.mem_cons.mp here with rfl | later
      · exact inside
      · exact held d later

/-- What a rendering of a response may say: it, and its prefix before it. -/
def Business.voiced (b : Business) : Nat → String → List String
  | 0, _ => []
  | depth + 1, id =>
    match b.response id with
    | none => []
    | some r => id :: (r.prefixed.map (b.voiced depth)).getD []

/-- **A placeholder that a variant lists again does not stand in it any more**, with the recorded
values of this context. -/
def ResponseConfig.SteadyIn (r : ResponseConfig) (ctx : RenderContext) : Prop :=
  ∀ t ∈ r.variants,
    (∀ name ∈ placeholders t, ∃ values, r.params[name]?.bind paramDomain = some values ∧
      spokenValue r ctx name ∈ values) → Steady (spokenValue r ctx) (placeholders t) t

/-- The variants that a rendering may choose are steady: those of the response and of its prefixes. -/
def Business.SteadyFor (b : Business) (ctx : RenderContext) (depth : Nat) (id : String) : Prop :=
  ∀ said ∈ b.voiced depth id, ∀ r, b.response said = some r → r.SteadyIn ctx

/-- A variant that was rendered as fixed or recorded, in the library in its response's delivery. -/
theorem renderVariant_recorded {id template text : String} {origin : SegmentOrigin}
    (steady : response.SteadyIn ctx)
    (listed : template ∈ response.variants)
    (rendered : renderVariant template response ctx = some (text, origin))
    (recorded : origin ≠ .dynamic) :
    ⟨id, response.delivery.getD "normal", text⟩ ∈ variantEntries b id response template := by
  unfold renderVariant at rendered
  unfold variantEntries
  have still := steady template listed
  generalize placeholders template = names at rendered still
  cases names with
  | nil =>
    obtain ⟨rfl, -⟩ := Prod.mk.inj (Option.some.inj rendered)
    exact List.mem_cons_self
  | cons name names =>
    obtain ⟨⟨text', all⟩, filled, same⟩ := Option.map_eq_some_iff.mp rendered
    obtain ⟨rfl, rfl⟩ := Prod.mk.inj same
    cases all with
    | false => exact absurd rfl recorded
    | true =>
      obtain ⟨-, rfl, finite⟩ := fillPlaceholders_recorded filled
      obtain ⟨domains, found', firsts', inside⟩ := domainsOf_some finite
      dsimp only
      rw [found']
      refine List.mem_map.mpr ⟨_, ?_, rfl⟩
      have once : substitute (spokenValue response ctx) (name :: names) template =
          substitute (spokenValue response ctx) (firsts [] (name :: names)) template :=
        @substitute_firsts _ template [] (name :: names) (still finite)
      rw [once, ← firsts']
      exact expand_substitute inside List.mem_cons_self

/-- A fixed wording is in the library in every delivery recorded throughout. -/
theorem renderVariant_static {id template text delivery : String}
    (rendered : renderVariant template response ctx = some (text, .static))
    (throughout : delivery ∈ extraDeliveries b) :
    ⟨id, delivery, text⟩ ∈ variantEntries b id response template := by
  unfold renderVariant at rendered
  unfold variantEntries
  generalize placeholders template = names at rendered
  cases names with
  | nil =>
    obtain ⟨rfl, -⟩ := Prod.mk.inj (Option.some.inj rendered)
    exact List.mem_map.mpr ⟨delivery, List.mem_cons_of_mem _ throughout, rfl⟩
  | cons name names =>
    obtain ⟨⟨text', all⟩, -, same⟩ := Option.map_eq_some_iff.mp rendered
    obtain ⟨-, origin⟩ := Prod.mk.inj same
    cases all <;> cases origin

/-- Where a variant comes from. -/
theorem pickVariant_some {first index : Nat} {text : String} {origin : SegmentOrigin}
    (picked : Renderer.pickVariant response ctx first = some (index, text, origin)) :
    ∃ template ∈ response.variants, renderVariant template response ctx = some (text, origin) := by
  obtain ⟨offset, listed, found⟩ := List.exists_of_findSome?_eq_some picked
  obtain ⟨⟨text', origin'⟩, rendered, same⟩ := Option.map_eq_some_iff.mp found
  obtain ⟨-, same⟩ := Prod.mk.inj same
  obtain ⟨rfl, rfl⟩ := Prod.mk.inj same
  have below := List.mem_range.mp listed
  have inside : (first + offset) % response.variants.length < response.variants.length :=
    Nat.mod_lt _ (Nat.zero_lt_of_lt below)
  rw [List.getD_eq_getElem?_getD, List.getElem?_eq_getElem inside, Option.getD_some] at rendered
  exact ⟨_, List.getElem_mem inside, rendered⟩

/-- A segment that the renderer may give: a variant of a response, in the renderer's delivery. -/
def Renderer.Gives (r : Renderer) (ctx : RenderContext) (segment : SpeechSegment) : Prop :=
  ∃ response, r.business.response segment.responseId = some response ∧
    segment.delivery = r.deliveryFor response ∧ ∃ template ∈ response.variants,
      renderVariant template response ctx = some (segment.text, segment.origin)

/-- **Every segment of a plan** is given by the response or a prefix of it. -/
theorem renderWith_gives {r : Renderer} {choose : Chooser σ} {depth : Nat} {id : String} {s : σ}
    {last : BTreeMap Nat} {plan : SpeechPlan}
    (rendered : (r.renderWith choose ctx depth id s last).1 = some plan) :
    ∀ segment ∈ plan.segments, segment.responseId ∈ r.business.voiced depth id ∧ r.Gives ctx segment := by
  induction depth generalizing id s last plan with
  | zero => cases rendered
  | succ depth ih =>
    unfold Renderer.renderWith at rendered
    cases found : r.business.response id with
    | none =>
      rw [found] at rendered
      cases rendered
    | some response =>
      rw [found] at rendered
      have own : r.business.voiced (depth + 1) id =
        id :: (response.prefixed.map (r.business.voiced depth)).getD [] := by
        rw [Business.voiced, found]
      have lead : ∀ segment ∈ (match response.prefixed with
          | some pre =>
            let (plan, s, last) := r.renderWith choose ctx depth pre s last
            ((plan.map SpeechPlan.segments).getD [], s, last)
          | none => ([], s, last)).1,
          segment.responseId ∈ r.business.voiced (depth + 1) id ∧ r.Gives ctx segment := by
        rw [own]
        cases response.prefixed with
        | none => exact fun _ listed => absurd listed List.not_mem_nil
        | some pre =>
          cases before : (r.renderWith choose ctx depth pre s last).1 with
          | none =>
            dsimp only
            rw [before]
            exact fun _ listed => absurd listed List.not_mem_nil
          | some plan' =>
            dsimp only
            rw [before]
            exact fun segment listed => (ih before segment listed).imp_left (List.mem_cons_of_mem _)
      dsimp only at rendered lead
      generalize (match response.prefixed with
          | some pre => _
          | none => _ : List SpeechSegment × σ × BTreeMap Nat) = led at rendered lead
      cases picked : Renderer.pickVariant response ctx
          (choose led.2.1 id response.variants.length led.2.2[id]?).1 with
      | none =>
        rw [picked] at rendered
        cases rendered
      | some variant =>
        obtain ⟨index, text, origin⟩ := variant
        rw [picked] at rendered
        obtain rfl := Option.some.inj rendered
        intro segment listed
        rcases List.mem_append.mp listed with before | last
        · obtain ⟨segment', here, rfl⟩ := List.mem_map.mp before
          exact lead segment' here
        · obtain rfl := List.mem_singleton.mp last
          exact ⟨own ▸ List.mem_cons_self, response, found, rfl, pickVariant_some picked⟩

/-- **The library covers what the renderer calls recorded.** With no override of the delivery every
fixed or recorded segment of a rendering is in the library, where the placeholders of its variants
are gone once they are replaced; and with a delivery recorded throughout every fixed one, in that
delivery. -/
theorem library_covers (b : Business) (choose : Chooser σ) (ctx : RenderContext) (depth : Nat)
    (id : String) (s : σ)
    (last : BTreeMap Nat) (gainDb : ℚ) :
    (b.SteadyFor ctx depth id →
      ∀ plan, ((⟨b, none, gainDb⟩ : Renderer).renderWith choose ctx depth id s last).1 = some plan →
        ∀ segment ∈ plan.segments, segment.origin ≠ .dynamic →
          ∃ e ∈ libraryEntries b, e.delivery = segment.delivery ∧ e.text = segment.text) ∧
    ∀ d config, b.config.voice.deliveries[d]? = some config → config.pregenerate →
      ∀ plan, ((⟨b, some d, gainDb⟩ : Renderer).renderWith choose ctx depth id s last).1 = some plan →
        ∀ segment ∈ plan.segments, segment.origin = .static →
          segment.delivery = d ∧
            ∃ e ∈ libraryEntries b, e.delivery = segment.delivery ∧ e.text = segment.text := by
  constructor
  · intro steady plan rendered segment listed recorded
    obtain ⟨said, response, found, delivery, template, variant, given⟩ :=
      renderWith_gives rendered segment listed
    refine ⟨_, mem_libraryEntries.mpr ⟨_, response, found, template, variant,
      renderVariant_recorded (steady _ said response found) variant given recorded⟩, ?_, rfl⟩
    exact delivery.symm
  · intro d config known throughout plan rendered segment listed fixed
    obtain ⟨-, response, found, delivery, template, variant, given⟩ :=
      renderWith_gives rendered segment listed
    have extra : d ∈ extraDeliveries b := by
      refine List.mem_map.mpr ⟨(d, config), List.mem_filter.mpr ⟨?_, throughout⟩, rfl⟩
      exact Std.ExtTreeMap.mem_toList_iff_getElem?_eq_some.mpr known
    have override : segment.delivery = d := by
      have has : b.hasDelivery d := by
        rw [Business.hasDelivery, Std.ExtTreeMap.contains_eq_isSome_getElem?, known]
        rfl
      have kept : (some d).filter b.hasDelivery = some d := by simp [has]
      rw [delivery, Renderer.deliveryFor]
      show (match (some d).filter b.hasDelivery with
        | some d => d
        | none => response.delivery.getD "normal") = d
      rw [kept]
    rw [fixed] at given
    exact ⟨override, _, mem_libraryEntries.mpr ⟨_, response, found, template, variant,
      renderVariant_static given extra⟩, override.symm, rfl⟩

end Rendering

section Sample

open Sample

/-- The sample business with one more response, of a placeholder with a fixed set of values. -/
def Sample.kinds (variant spoken : String) : BusinessConfig :=
  { config with
    responses := config.responses.insert "kind"
      ⟨[variant], mapOf [("kind", .enum (mapOf [("van", spoken)]))], none, false, none, none⟩ }

/-- A business that says it twice, with a value that has the placeholder in it. -/
def Sample.echo : Business :=
  @Business.build Unicode.plain (fun _ => .error "no pattern") (fun _ => none)
    (kinds "\x7bkind\x7d, \x7bkind\x7d" "\x7bkind\x7d van")

/-- A context in which the kind is a van. -/
def Sample.van : RenderContext := ⟨∅, none, none, mapOf [("kind", "van")]⟩

theorem steadyIn_of_once {r : ResponseConfig} (once : ∀ t ∈ r.variants, (placeholders t).Nodup)
    (ctx : RenderContext) :
    r.SteadyIn ctx := fun t listed _ => steady_of_nodup (once t listed) t

set_option maxRecDepth 100000 in
/-- Also the business with such a value has its other wordings in the library. -/
theorem library_covers_echo :
    ∀ plan, ((⟨echo, none, 0⟩ : Renderer).renderWith seededChooser van 2 "hello" 7 ∅).1 = some plan →
      ∀ segment ∈ plan.segments, segment.origin ≠ .dynamic →
        ∃ e ∈ libraryEntries echo, e.delivery = segment.delivery ∧ e.text = segment.text := by
  refine (library_covers echo seededChooser van 2 "hello" 7 ∅ 0).1 fun said listed r found => ?_
  have once : ∀ said ∈ echo.voiced 2 "hello", ((echo.response said).map fun r =>
      r.variants.map fun t => decide (placeholders t).Nodup).getD [] |>.all id := by decide
  refine steadyIn_of_once (fun t variant => ?_) van
  have each := once said listed
  rw [found] at each
  exact of_decide_eq_true (List.all_eq_true.mp each _ (List.mem_map.mpr ⟨t, variant, rfl⟩))

set_option maxRecDepth 100000 in
/-- **A value with its placeholder in it** is put in twice, and that text is not in the library. -/
theorem echo_notRecorded :
    @Business.Validated Unicode.plain echo ∧
      ((⟨echo, none, 0⟩ : Renderer).renderWith seededChooser van 2 "kind" 7 ∅).1 =
        some ⟨[⟨"\x7bkind\x7d van van, \x7bkind\x7d van van", "kind", "normal", .template, false⟩], 0⟩ ∧
      ∀ e ∈ libraryEntries echo, e.text ≠ "\x7bkind\x7d van van, \x7bkind\x7d van van" := by
  refine ⟨⟨fun _ => .error "no pattern", fun _ => none,
    kinds "\x7bkind\x7d, \x7bkind\x7d" "\x7bkind\x7d van", ?_⟩, ?_, ?_⟩
  · have sound : @Business.issues Unicode.plain (fun _ => .error "no pattern") (fun _ => none)
        (kinds "\x7bkind\x7d, \x7bkind\x7d" "\x7bkind\x7d van") = [] := by
      decide +kernel
    unfold Business.compile
    rw [if_pos sound]
    rfl
  · decide
  · decide +kernel

end Sample

end Callora
