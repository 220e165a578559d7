/-
**The fast path never cuts a character.**

`fastPath` marks what it explains from span to span. `Explains` says where a span comes from, six
ways: a phrase of a set, a phrase of a meta intent or of the opening, the whole text, a time, an
alias, a synonym of the masked text, or what a pattern matched up to the first byte explained.
`Explained` is every coverage that marking such spans leads to.

In each of them the covered bytes are whole characters and a span that is marked next is on
character boundaries (`Explains.onBoundaries`, `Explained.whole`), so the slice that a pattern's
value is taken from is (`slice_isSome`), and the loop over a pattern's matches ends
(`patternLoop_iff`). Every coverage of a run of `fastPath` is one of them (`coverages_explained`,
`whole_characters`).
-/
import Callora.Business.Understanding
import Callora.Text.Boundaries

set_option linter.unusedSectionVars false

namespace Callora

open Callora.Text

section Slices

variable {cov : Coverage} {text : String} {u v w : List Char} {value : Span} {start stop n pos : ℕ}

/-- Where the value of a match stops: at the first byte that something else explained, or where it
ends. -/
def stopAt (cov : Coverage) (value : Span) : ℕ :=
  match (List.range (value.2 - value.1)).find? fun k => cov.isCovered (value.1 + k) with
  | some k => value.1 + k
  | none => max value.1 value.2

theorem start_le_stopAt (cov : Coverage) (value : Span) : value.1 ≤ stopAt cov value := by
  unfold stopAt
  split
  · exact Nat.le_add_right _ _
  · exact Nat.le_max_left _ _

/-- **Where a value stops is on a boundary**, when whole characters are covered. -/
theorem stopAt_onBoundary (whole : cov.Whole) (on : OnBoundaries cov.text.toList value) :
    OnBoundary cov.text.toList (stopAt cov value) := by
  have long := on.2.le
  unfold stopAt
  split
  · next k first =>
    obtain ⟨covered, listed, before⟩ := List.find?_range_eq_some.mp first
    have inside := List.mem_range.mp listed
    exact whole.first on.1 (by omega) covered fun j earlier => by simpa using before j earlier
  · rcases Nat.le_total value.1 value.2 with le | le
    · rw [Nat.max_eq_right le]
      exact on.2
    · rw [Nat.max_eq_left le]
      exact on.1

/-- The slice `text[start..stop]`; there is none where the program stops, with an end inside a
character or the ends the other way round. -/
def slice? (text : String) (start stop : ℕ) : Option String :=
  if start ≤ stop ∧ OnBoundary text.toList start ∧ OnBoundary text.toList stop then
    some (String.ofList (sliceBytes start stop text.toList))
  else none

/-- **The slice of a value is always there.** -/
theorem slice_isSome (whole : cov.Whole) (on : OnBoundaries cov.text.toList value) :
    slice? cov.text value.1 (stopAt cov value) =
      some (String.ofList (sliceBytes value.1 (stopAt cov value) cov.text.toList)) :=
  if_pos ⟨start_le_stopAt cov value, on.1, stopAt_onBoundary whole on⟩

theorem le_boundaryFrom (cov : Coverage) (n : ℕ) : n ≤ cov.boundaryFrom n := by
  unfold Coverage.boundaryFrom
  cases found : (Coverage.boundaries 0 cov.text.toList).find? fun i => decide (n ≤ i) with
  | none => exact Nat.le_refl n
  | some i =>
    have enough := List.find?_some found
    exact of_decide_eq_true enough

/-- The first boundary from an offset on is one, inside the text. -/
theorem boundaryFrom_onBoundary (inside : n ≤ bytes cov.text.toList) :
    OnBoundary cov.text.toList (cov.boundaryFrom n) := by
  unfold Coverage.boundaryFrom
  cases found : (Coverage.boundaries 0 cov.text.toList).find? fun i => decide (n ≤ i) with
  | none =>
    have last := List.find?_eq_none.mp found _ (mem_boundaries.mpr (OnBoundary.stop cov.text.toList))
    exact absurd (decide_eq_true inside) last
  | some i => exact mem_boundaries.mp (List.mem_of_find?_eq_some found)

end Slices

section Sources

variable [Unicode] (b : Business) (ctx : Context) (norm : String)

/-- **What the regular expressions promise**: a match begins where it is asked for or later, on a
character boundary, and its value is a part of the text. -/
structure Pattern.Sound (re : Pattern) : Prop where
  later : ∀ {text pos whole value}, pos ≤ bytes text.toList →
    re.capturesAt text pos = some (whole, value) →
    pos ≤ whole.1
  boundary : ∀ {text pos whole value}, pos ≤ bytes text.toList →
    re.capturesAt text pos = some (whole, value) →
    OnBoundary text.toList whole.1 ∧ OnBoundaries text.toList value

/-- The patterns of a business are regular expressions. -/
def SoundPatterns : Prop :=
  ∀ (slot : String) (compiled : CompiledSlot), b.slots[slot]? = some compiled →
    ∀ re ∈ compiled.patterns, re.Sound

/-- **Where a span comes from that is marked next.** -/
inductive Explains (cov : Coverage) : Span → Prop where
  | words {set : PhraseSet} {p : Phrase} {start : ℕ} {span : Span} :
      (set = b.fillers ∨ ∃ id, (id, set) ∈ b.intentKeywords) → p ∈ set.phrases →
      OnBoundary norm.toList start →
      p.findIn (Coverage.dropBytes start norm.toList) = some span →
      Explains cov (start + span.1, start + span.2)
  | metaPhrase {m : CompiledMeta} {p : Phrase} {span : Span} :
      m ∈ b.metas → m.phrases.find norm = some (p, span) → Explains cov span
  | opening {set : PhraseSet} {p : Phrase} {span : Span} :
      (set = b.affirm ∨ set = b.deny) →
      set.find (join " " ((tokens norm).take 3)) = some (p, span) → Explains cov span
  | all : Explains cov (0, bytes norm.toList)
  | time {time : TimeSpec} {confidence : F32} {span : Span} :
      parseTimeSpan cov.masked b.now = some (time, confidence, span) → Explains cov span
  | placeAlias {slot key : String} {compiled : CompiledSlot} {set : PhraseSet} {p : Phrase}
    {span : Span} :
      b.slots[slot]? = some compiled → (set, key) ∈ compiled.contextAliases →
      set.find cov.masked = some (p, span) →
      Explains cov span
  | pattern {slot : String} {compiled : CompiledSlot} {re : Pattern} {pos : ℕ} {whole value : Span} :
      b.slots[slot]? = some compiled → re ∈ compiled.patterns → pos ≤ bytes norm.toList →
      re.capturesAt norm pos = some (whole, value) →
      (Coverage.boundaries 0 norm.toList).contains (stopAt cov value) = true →
      Explains cov (whole.1, stopAt cov value)
  | synonym {slot : String} {value : Json} {compiled : CompiledSlot} {set : PhraseSet} {p : Phrase}
    {span : Span} :
      b.slots[slot]? = some compiled → (set, value) ∈ compiled.synonyms →
      set.find cov.masked = some (p, span) →
      Explains cov span

/-- **The coverages that marking leads to.** -/
inductive Explained : Coverage → Prop where
  | new : Explained (Coverage.new norm)
  | mark {cov : Coverage} {span : Span} : Explained cov → Explains b norm cov span →
    Explained (cov.mark span)

variable {b norm} {cov : Coverage} {span : Span}

/-- The first words of a text are its beginning. -/
theorem join_take_prefix (ws : List String) (k : ℕ) :
    (join " " (ws.take k)).toList <+: (join " " ws).toList := by
  cases ws with
  | nil => simp
  | cons w ws =>
    cases k with
    | zero => exact List.nil_prefix
    | succ k =>
      rw [List.take_succ_cons, join_toList_cons, join_toList_cons]
      refine (List.prefix_append_right_inj _).mpr ⟨(ws.drop k).flatMap fun w => ' ' :: w.toList, ?_⟩
      rw [← List.flatMap_append, List.take_append_drop]

/-- **A span that is marked next is on character boundaries.** -/
theorem Explains.onBoundaries (normal : Normal norm) (sound : SoundPatterns b) (text : cov.text = norm)
    (source : Explains b norm cov span) : OnBoundaries norm.toList span := by
  have masked : ∀ {span}, Edges cov.masked.toList span → OnBoundaries norm.toList span := by
    intro span edges
    rw [← text]
    exact (Coverage.edges_of_masked edges).onBoundaries
  cases source with
  | words _ _ on found =>
    obtain ⟨u, v, same, rfl⟩ := on
    rw [same, dropBytes_append] at found
    obtain ⟨⟨u₁, v₁, same₁, offset₁⟩, ⟨u₂, v₂, same₂, offset₂⟩⟩ := (findIn_edges found).onBoundaries
    refine ⟨⟨u ++ u₁, v₁, by rw [same, same₁, List.append_assoc], by rw [bytes_append, offset₁]⟩,
      ⟨u ++ u₂, v₂, by rw [same, same₂, List.append_assoc], by rw [bytes_append, offset₂]⟩⟩
  | metaPhrase _ found => exact (find_edges found).onBoundaries
  | opening _ found =>
    have front := join_take_prefix (tokens norm) 3
    rw [normal.join_tokens] at front
    obtain ⟨start, stop⟩ := (find_edges found).onBoundaries
    exact ⟨start.of_prefix front, stop.of_prefix front⟩
  | all => exact ⟨.start _, .stop _⟩
  | time read => exact masked (parseTimeSpan_edges (Coverage.masked_normal (text ▸ normal)) read)
  | placeAlias _ _ found => exact masked (find_edges found)
  | pattern held listed inside found on =>
    exact ⟨((sound _ _ held _ listed).boundary inside found).1,
      mem_boundaries.mp (List.contains_iff_mem.mp on)⟩
  | synonym _ _ found => exact masked (find_edges found)

/-- **In every coverage that is reached, the covered bytes are whole characters.** -/
theorem Explained.whole (normal : Normal norm) (sound : SoundPatterns b)
    (reached : Explained b norm cov) :
    cov.text = norm ∧ cov.Whole := by
  induction reached with
  | new => exact ⟨rfl, .new norm⟩
  | mark _ source ih =>
    obtain ⟨text, whole⟩ := ih
    refine ⟨text, whole.mark ?_⟩
    rw [text]
    exact source.onBoundaries normal sound text

end Sources

section Loop

variable [Unicode] (b : Business) (ctx : Context) (norm slot : String) (cfg : SlotConfig)
    (re : Pattern) (r : Reading)

/-- What the loop over a pattern's matches makes of one of them. -/
def tryMatch (whole value : Span) : Option Reading :=
  let stop := stopAt r.cov value
  let raw := trim (String.ofList (sliceBytes value.1 stop norm.toList))
  if raw ≠ "" ∧ (Coverage.boundaries 0 norm.toList).contains stop then
    (parseSlotValue b slot cfg raw false ctx.customer).map fun (v, confidence) =>
      r.push slot v confidence .rules (whole.1, stop)
  else none

theorem readPattern_succ (fuel pos : ℕ) : readPattern b ctx norm slot cfg re r (fuel + 1) pos =
    if bytes norm.toList < pos then none
    else match re.capturesAt norm pos with
      | none => none
      | some (whole, value) =>
        match tryMatch b ctx norm slot cfg r whole value with
        | some r => some r
        | none => readPattern b ctx norm slot cfg re r fuel (r.cov.boundaryFrom (whole.1 + 1)) := by
  rw [readPattern]
  split
  · rfl
  · cases re.capturesAt norm pos with
    | none => rfl
    | some spans =>
      obtain ⟨whole, value⟩ := spans
      dsimp only
      cases took : tryMatch b ctx norm slot cfg r whole value <;> unfold tryMatch stopAt at took
      all_goals
        dsimp only at took ⊢
        generalize (List.range (value.2 - value.1)).find? (fun k => r.cov.isCovered (value.1 + k)) =
        covered at took ⊢
        cases covered with
        | none =>
          dsimp only at took ⊢
          rw [took]
        | some k =>
          dsimp only at took ⊢
          rw [took]

/-- **The loop over a pattern's matches**, from a byte on, as it ends: what it reads, after finitely
many matches. -/
inductive PatternLoop : ℕ → Option Reading → Prop where
  | past {pos : ℕ} : bytes norm.toList < pos → PatternLoop pos none
  | unmatched {pos : ℕ} : pos ≤ bytes norm.toList → re.capturesAt norm pos = none → PatternLoop pos none
  | taken {pos : ℕ} {whole value : Span} {r' : Reading} :
      pos ≤ bytes norm.toList → re.capturesAt norm pos = some (whole, value) →
      tryMatch b ctx norm slot cfg r whole value = some r' → PatternLoop pos (some r')
  | next {pos : ℕ} {whole value : Span} {result : Option Reading} :
      pos ≤ bytes norm.toList → re.capturesAt norm pos = some (whole, value) →
      tryMatch b ctx norm slot cfg r whole value = none →
      PatternLoop (r.cov.boundaryFrom (whole.1 + 1)) result →
      PatternLoop pos result

variable {b ctx norm slot cfg re r}

/-- **The loop ends**: each match begins after the one before. -/
theorem patternLoop_ends (sound : re.Sound) {fuel pos : ℕ} (enough : bytes norm.toList + 2 ≤ fuel + pos) :
    PatternLoop b ctx norm slot cfg re r pos (readPattern b ctx norm slot cfg re r fuel pos) := by
  induction fuel generalizing pos with
  | zero => exact .past (by omega)
  | succ fuel ih =>
    rw [readPattern_succ]
    split
    · next past => exact .past past
    · next inside =>
      have inside := Nat.le_of_not_lt inside
      cases found : re.capturesAt norm pos with
      | none => exact .unmatched inside found
      | some spans =>
        obtain ⟨whole, value⟩ := spans
        dsimp only
        cases took : tryMatch b ctx norm slot cfg r whole value with
        | some r' => exact .taken inside found took
        | none =>
          have later := sound.later inside found
          have next := le_boundaryFrom r.cov (whole.1 + 1)
          exact .next inside found took (ih (by omega))

/-- The loop ends with one result. -/
theorem PatternLoop.unique {pos : ℕ} {one other : Option Reading}
    (first : PatternLoop b ctx norm slot cfg re r pos one)
    (second : PatternLoop b ctx norm slot cfg re r pos other) : one = other := by
  induction first with
  | past far =>
    cases second with
    | past => rfl
    | unmatched => rfl
    | taken inside => omega
    | next inside => omega
  | unmatched inside found =>
    cases second with
    | past => rfl
    | unmatched => rfl
    | taken _ found' => cases found.symm.trans found'
    | next _ found' => cases found.symm.trans found'
  | taken inside found took =>
    cases second with
    | past far => omega
    | unmatched _ found' => cases found.symm.trans found'
    | taken _ found' took' =>
      cases found.symm.trans found'
      exact took.symm.trans took'
    | next _ found' took' =>
      cases found.symm.trans found'
      cases took.symm.trans took'
  | next inside found took _ ih =>
    cases second with
    | past far => omega
    | unmatched _ found' => cases found.symm.trans found'
    | taken _ found' took' =>
      cases found.symm.trans found'
      cases took.symm.trans took'
    | next _ found' _ rest =>
      cases found.symm.trans found'
      exact ih rest

/-- What the loop marks, when it takes a match. -/
theorem PatternLoop.marks {pos : ℕ} {r' : Reading}
    (loop : PatternLoop b ctx norm slot cfg re r pos (some r')) :
    ∃ pos whole value, pos ≤ bytes norm.toList ∧ re.capturesAt norm pos = some (whole, value) ∧
      (Coverage.boundaries 0 norm.toList).contains (stopAt r.cov value) = true ∧
      r'.cov = r.cov.mark (whole.1, stopAt r.cov value) := by
  generalize result : some r' = out at loop
  induction loop with
  | past => cases result
  | unmatched => cases result
  | taken inside found took =>
    obtain rfl := Option.some.inj result
    unfold tryMatch at took
    dsimp only at took
    split at took
    · next kept =>
      obtain ⟨⟨v, confidence⟩, -, rfl⟩ := Option.map_eq_some_iff.mp took
      exact ⟨_, _, _, inside, found, kept.2, rfl⟩
    · cases took
  | next _ _ _ _ ih => exact ih result

/-- **The loop of the program is that of the function.** -/
theorem patternLoop_iff (sound : re.Sound) {result : Option Reading} :
    PatternLoop b ctx norm slot cfg re r 0 result ↔
    result = readPattern b ctx norm slot cfg re r (bytes norm.toList + 2) 0 := by
  have ends : PatternLoop b ctx norm slot cfg re r 0
    (readPattern b ctx norm slot cfg re r (bytes norm.toList + 2) 0) :=
    patternLoop_ends sound (Nat.le_refl _)
  exact ⟨fun loop => loop.unique ends, fun same => same ▸ ends⟩

end Loop

section Stages

variable [Unicode] {b : Business} {norm : String} {cov : Coverage} {set : PhraseSet}

theorem Explained.text (explained : Explained b norm cov) : cov.text = norm := by
  induction explained with
  | new => rfl
  | mark _ _ ih => exact ih

theorem markPhrase_explained {p : Phrase} (own : set = b.fillers ∨ ∃ id, (id, set) ∈ b.intentKeywords)
    (listed : p ∈ set.phrases) (fuel : ℕ) {start : ℕ} (explained : Explained b norm cov)
    (on : start < bytes norm.toList → OnBoundary norm.toList start) :
    Explained b norm (Coverage.markPhrase p fuel start cov) := by
  induction fuel generalizing start cov with
  | zero => exact explained
  | succ fuel ih =>
    have text := explained.text
    rw [Coverage.markPhrase, text]
    split
    · next inside =>
      cases found : p.findIn (Coverage.dropBytes start norm.toList) with
      | none => exact explained
      | some span =>
        refine ih (explained.mark (.words own listed (on inside) found)) fun further => ?_
        have later := le_boundaryFrom cov (start + max span.2 1)
        rw [← text]
        exact boundaryFrom_onBoundary (by rw [text]; omega)
    · exact explained

/-- **The phrases of a set.** -/
theorem markWords_explained (own : set = b.fillers ∨ ∃ id, (id, set) ∈ b.intentKeywords)
    (explained : Explained b norm cov) : Explained b norm (cov.markWords set) := by
  have all : ∀ (phrases : List Phrase) (cov : Coverage), (∀ p ∈ phrases, p ∈ set.phrases) →
    Explained b norm cov →
      Explained b norm (phrases.foldl
        (fun cov p => Coverage.markPhrase p (bytes cov.text.toList) 0 cov) cov) := by
    intro phrases
    induction phrases with
    | nil => exact fun _ _ explained => explained
    | cons p phrases ih =>
      intro cov listed explained
      obtain ⟨first, rest⟩ := List.forall_mem_cons.mp listed
      exact ih _ rest (markPhrase_explained own first _ explained fun _ => .start _)
  exact all set.phrases cov (fun _ listed => listed) explained

/-- **The meta intents.** -/
theorem readMeta_explained {metas : List CompiledMeta} (listed : ∀ m ∈ metas, m ∈ b.metas)
    (best : Option (MetaIntent × ℕ)) (explained : Explained b norm cov) :
    Explained b norm (readMeta b norm metas best cov).2.2 := by
  induction metas generalizing best cov with
  | nil => exact explained
  | cons m metas ih =>
    obtain ⟨first, rest⟩ := List.forall_mem_cons.mp listed
    rw [readMeta]
    split
    · exact explained.mark .all
    · split
      · next p span found =>
        split
        · exact ih rest _ (explained.mark (.metaPhrase first found))
        · exact ih rest _ explained
      · exact ih rest _ explained

/-- **Yes or no.** -/
theorem readAffirm_explained (explained : Explained b norm cov) :
    Explained b norm (readAffirm b norm cov).2 := by
  unfold readAffirm
  dsimp only
  split
  · next a d yes no =>
    split
    · exact explained.mark (.opening (.inl rfl) yes)
    · exact explained.mark (.opening (.inr rfl) no)
  · next a yes _ => exact explained.mark (.opening (.inl rfl) yes)
  · next d _ no => exact explained.mark (.opening (.inr rfl) no)
  · exact explained

/-- **The intents' keywords.** -/
theorem readIntent_explained {keywords : List (String × PhraseSet)}
    (listed : ∀ k ∈ keywords, k ∈ b.intentKeywords)
    (best : Option (String × ℕ × ℕ)) (explained : Explained b norm cov) :
    Explained b norm (readIntent norm keywords best cov).2 := by
  induction keywords generalizing best cov with
  | nil => exact explained
  | cons k keywords ih =>
    obtain ⟨first, rest⟩ := List.forall_mem_cons.mp listed
    obtain ⟨id, set⟩ := k
    rw [readIntent]
    split
    · exact ih rest _ explained
    · exact ih rest _ (markWords_explained (.inr ⟨id, first⟩) explained)

/-- **A slot's value**: a time, an alias, what a pattern matched, or a synonym. -/
theorem readSlot_explained (sound : SoundPatterns b) (ctx : Context) (slot : String)
    (cfg : SlotConfig) {r : Reading}
    (explained : Explained b norm r.cov) : Explained b norm (readSlot b ctx norm slot cfg r).cov := by
  unfold readSlot
  split
  · exact explained
  · next compiled held =>
    dsimp only
    split
    · next time confidence span read =>
      split at read
      · exact explained.mark (.time read)
      · cases read
    · split
      · next span value said =>
        obtain ⟨⟨set, key⟩, listed, here⟩ := List.exists_of_findSome?_eq_some said
        obtain ⟨⟨p, span'⟩, found, rest⟩ := Option.bind_eq_some_iff.mp here
        obtain ⟨place, -, same⟩ := Option.bind_eq_some_iff.mp rest
        obtain ⟨rfl, rfl⟩ := Prod.mk.inj (Option.some.inj same)
        exact explained.mark (.placeAlias held listed found)
      · split
        · next r' taken =>
          obtain ⟨re, listed, loop⟩ := List.exists_of_findSome?_eq_some taken
          have ends := (patternLoop_iff (sound slot compiled held re listed)).mpr loop.symm
          obtain ⟨pos, whole, value, inside, found, kept, same⟩ := ends.marks
          rw [same]
          exact explained.mark (.pattern held listed inside found kept)
        · split
          · next span value said =>
            split at said
            · obtain ⟨⟨set, json⟩, listed, here⟩ := List.exists_of_findSome?_eq_some said
              obtain ⟨⟨p, span'⟩, found, rest⟩ := Option.bind_eq_some_iff.mp here
              obtain ⟨value', -, same⟩ := Option.bind_eq_some_iff.mp rest
              obtain ⟨rfl, rfl⟩ := Prod.mk.inj (Option.some.inj same)
              exact explained.mark (.synonym held listed found)
            · cases said
          · exact explained

/-- **A bare answer.** -/
theorem readAnswer_explained (ctx : Context) {r : Reading} (explained : Explained b norm r.cov) :
    Explained b norm (readAnswer b ctx norm r).1.cov := by
  unfold readAnswer
  split
  · dsimp only
    split
    · split
      · exact explained.mark .all
      · exact explained
    · exact explained
  · exact explained

end Stages

section Run

variable [Unicode] (b : Business) (ctx : Context) (transcript : String)

/-- What is read before the intent: a meta intent and yes or no, and whether the meta intent was all
that was said. -/
def opened : Bool × Reading :=
  let norm := normalize transcript
  let (metaIntent, exact, cov) := readMeta b norm b.metas none ((Coverage.new norm).markWords b.fillers)
  let (affirm, cov) := readAffirm b norm cov
  let affirm := if metaIntent.isSome && affirm == some false && exact then none else affirm
  (exact,
    { u := { Understanding.empty transcript with
      metaIntent := metaIntent, affirm := affirm }, cov := cov })

/-- The reading with the intent. -/
def asked : Reading :=
  let r := (opened b transcript).2
  let (intent, cov) := readIntent (normalize transcript) b.intentKeywords none r.cov
  { u := { r.u with intent := intent }, cov := cov }

/-- The reading after the first slots. -/
def slotsRead (n : ℕ) : Reading :=
  ((slotOrder b).take n).foldl
    (fun r (slot, cfg) => readSlot b ctx (normalize transcript) slot cfg r) (asked b transcript)

/-- The reading at the end. -/
def lastReading : Reading :=
  (readAnswer b ctx (normalize transcript) (slotsRead b ctx transcript (slotOrder b).length)).1

/-- **The coverages of a run**: when it begins, with the fillers, the meta intents, yes or no, the
intents, after each slot, and at the end. -/
def coverages : List Coverage :=
  let norm := normalize transcript
  let filled := (Coverage.new norm).markWords b.fillers
  [Coverage.new norm, filled, (readMeta b norm b.metas none filled).2.2, (opened b transcript).2.cov,
    (asked b transcript).cov] ++
  (List.range ((slotOrder b).length + 1)).map (fun n => (slotsRead b ctx transcript n).cov) ++
  [(lastReading b ctx transcript).cov]

variable {b ctx transcript}

/-- What `fastPath` understands is what these readings come to. -/
theorem fastPath_reading (some' : normalize transcript ≠ "") :
    (fastPath b ctx transcript).1 = { (opened b transcript).2.u with noise := true, coverage := 1 } ∨
      (fastPath b ctx transcript).1 =
        { (lastReading b ctx transcript).u with
          coverage := (lastReading b ctx transcript).cov.ratio } := by
  have same : fastPath b ctx transcript =
      if (opened b transcript).2.u.metaIntent.isNone && (opened b transcript).2.u.affirm.isNone &&
          (tokens (b.fillers.strip (normalize transcript))).all isHesitation then
        ({ (opened b transcript).2.u with noise := true, coverage := 1 }, false)
      else readValues b ctx (normalize transcript) (opened b transcript).1 (opened b transcript).2 := by
    unfold fastPath
    dsimp only
    rw [if_neg some']
    rfl
  rw [same]
  split
  · exact .inl rfl
  · right
    unfold readValues lastReading slotsRead
    rw [List.take_length]
    rfl

theorem opened_explained : Explained b (normalize transcript) (opened b transcript).2.cov :=
  readAffirm_explained
    (readMeta_explained (fun _ listed => listed) _ (markWords_explained (.inl rfl) .new))

theorem asked_explained : Explained b (normalize transcript) (asked b transcript).cov :=
  readIntent_explained (fun _ listed => listed) _ opened_explained

theorem slotsRead_explained (sound : SoundPatterns b) (n : ℕ) :
    Explained b (normalize transcript) (slotsRead b ctx transcript n).cov := by
  unfold slotsRead
  generalize (slotOrder b).take n = slots
  have start : Explained b (normalize transcript) (asked b transcript).cov := asked_explained
  generalize asked b transcript = r at start
  induction slots generalizing r with
  | nil => exact start
  | cons slot slots ih => exact ih _ (readSlot_explained sound ctx slot.1 slot.2 start)

/-- **Every coverage of a run is one that marking leads to.** -/
theorem coverages_explained (sound : SoundPatterns b) :
    ∀ cov ∈ coverages b ctx transcript, Explained b (normalize transcript) cov := by
  intro cov listed
  simp only [coverages, List.cons_append, List.nil_append, List.mem_cons, List.mem_append, List.mem_map,
    List.not_mem_nil, or_false] at listed
  rcases listed with rfl | rfl | rfl | rfl | rfl | ⟨n, -, rfl⟩ | rfl
  · exact .new
  · exact markWords_explained (.inl rfl) .new
  · exact readMeta_explained (fun _ listed => listed) _ (markWords_explained (.inl rfl) .new)
  · exact opened_explained
  · exact asked_explained
  · exact slotsRead_explained sound n
  · exact readAnswer_explained ctx (slotsRead_explained sound _)

/-- **The fast path never cuts a character.** What is understood comes from a run whose coverages
are all reached by marking spans of the six kinds. In every coverage reached so: every span that is
marked next is on character boundaries of the normalized text, and the covered bytes are whole
characters; the masked text has every character of the text, or underscores for it, at the bytes
where it stands in the text; the slice a pattern's value is taken from, whatever it matched from
whatever byte, is on boundaries and does not stop the program; and the loop over a pattern's matches
ends. -/
theorem whole_characters
    (tables : ∀ c, c ≠ ' ' → Unicode.lowercase c ≠ [] ∧ ' ' ∉ Unicode.lowercase c) (b : Business)
    (sound : SoundPatterns b) (ctx : Context) (transcript : String) :
    let norm := normalize transcript
    (norm ≠ "" →
      (fastPath b ctx transcript).1 = { (opened b transcript).2.u with noise := true, coverage := 1 } ∨
      (fastPath b ctx transcript).1 =
        { (lastReading b ctx transcript).u with coverage := (lastReading b ctx transcript).cov.ratio }) ∧
    (∀ cov ∈ coverages b ctx transcript, Explained b norm cov) ∧
    ∀ cov, Explained b norm cov →
      (∀ span, Explains b norm cov span → OnBoundaries norm.toList span) ∧
      (cov.text = norm ∧ cov.Whole) ∧
      (bytes cov.masked.toList = bytes norm.toList ∧ cov.MaskedInPlace) ∧
      ∀ (slot : String) (compiled : CompiledSlot), b.slots[slot]? = some compiled →
      ∀ re ∈ compiled.patterns,
        (∀ pos whole value, pos ≤ bytes norm.toList → re.capturesAt norm pos = some (whole, value) →
          slice? norm value.1 (stopAt cov value) =
            some (String.ofList (sliceBytes value.1 (stopAt cov value) norm.toList))) ∧
        ∀ cfg u result, PatternLoop b ctx norm slot cfg re ⟨u, cov⟩ 0 result ↔
          result = readPattern b ctx norm slot cfg re ⟨u, cov⟩ (bytes norm.toList + 2) 0 := by
  intro norm
  have normal : Normal norm := normalize_normal tables transcript
  refine ⟨fastPath_reading, coverages_explained sound, fun cov explained => ?_⟩
  obtain ⟨text, whole⟩ := explained.whole normal sound
  refine ⟨fun span source => source.onBoundaries normal sound text, ⟨text, whole⟩,
    ⟨?_, cov.maskedInPlace⟩, ?_⟩
  · rw [Coverage.masked, String.toList_ofList, Coverage.bytes_maskedChars, text]
  · intro slot compiled held re listed
    have regex := sound slot compiled held re listed
    refine ⟨fun pos whole' value inside found => ?_, fun cfg u result => patternLoop_iff regex⟩
    have on := (regex.boundary inside found).2
    rw [← text] at on ⊢
    exact slice_isSome whole on

end Run

section Patterned

attribute [local instance] Unicode.plain

/-- The pattern of a value that is all the rest of the text. -/
def restPattern : Pattern where
  names := ["value"]
  capturesAt := fun text pos =>
    ((Coverage.boundaries 0 text.toList).find? fun i => pos ≤ i && i < bytes text.toList).map fun i =>
      ((i, bytes text.toList), (i, bytes text.toList))

theorem restPattern_sound : restPattern.Sound := by
  have spans : ∀ {text pos whole value}, restPattern.capturesAt text pos = some (whole, value) →
      pos ≤ whole.1 ∧ OnBoundary text.toList whole.1 ∧ OnBoundaries text.toList value := by
    intro text pos whole value found
    obtain ⟨i, first, same⟩ := Option.map_eq_some_iff.mp found
    obtain ⟨rfl, rfl⟩ := Prod.mk.inj same
    have after := List.find?_some first
    have on := mem_boundaries.mp (List.mem_of_find?_eq_some first)
    exact ⟨of_decide_eq_true (Bool.and_eq_true_iff.mp after).1, on, on, .stop _⟩
  exact ⟨fun _ found => (spans found).1, fun _ found => (spans found).2⟩

/-- The sample business, with a pattern for the name. -/
def patterned : Business :=
  { Sample.rides with slots := (∅ : BTreeMap CompiledSlot).insert "name" ⟨[restPattern], [], [], [], []⟩ }

theorem patterned_sound : SoundPatterns patterned := by
  intro slot compiled held re listed
  have held' : ((∅ : BTreeMap CompiledSlot).insert "name" ⟨[restPattern], [], [], [], []⟩)[slot]? =
    some compiled := held
  rw [Std.ExtTreeMap.getElem?_insert] at held'
  split at held'
  · obtain rfl := Option.some.inj held'
    obtain rfl := List.mem_singleton.mp listed
    exact restPattern_sound
  · simp at held'

theorem name_read_whole :
    (lastReading patterned ⟨none, some "name", false, none⟩ "a ride for דנה").cov.Whole := by
  have all := whole_characters
    (fun c other => ⟨List.cons_ne_nil _ _, fun space => other (List.mem_singleton.mp space).symm⟩)
      patterned
    patterned_sound ⟨none, some "name", false, none⟩ "a ride for דנה"
  exact (all.2.2 _ (all.2.1 _ (by simp [coverages]))).2.1.2

end Patterned

end Callora
