/-
**Stripping the phrases of a set, and matching a phrase whole.**

A set strips its phrases one after the other, longest first, each in one pass from the left. A
removal brings together the words around it, and what it brings together is not looked for behind
the cursor, nor, in a later pass, as an earlier phrase. And the words of a phrase are stripped of
the fillers too, before the phrase is compared with what is left of the text.

- `drain_cut`, `strip_leaves`: a pass removes the occurrences of a phrase, and a set those of its phrases;
- `seamless`: no removal of the passes brings together a phrase that was looked for;
- `strip_clean`: then no phrase is left, and stripping again changes nothing;
- `phrase_recognised`: when a phrase of a set is matched by its own words.
-/
import Callora.Library.Factors
import Callora.Text.Spans

set_option linter.unusedSectionVars false

namespace Callora.Text

open Factors

section Passes

variable {pt toks u v : List String} {fuel : ℕ}

/-- **A pass removes the occurrences of a phrase.** -/
theorem drain_cut (some' : pt ≠ []) (enough : toks.length ≤ fuel) :
    Cut pt toks (PhraseSet.drain pt fuel toks) := by
  have short : ∀ {fuel : ℕ}, Cut pt [] (PhraseSet.drain pt fuel []) := by
    intro fuel
    have nothing : PhraseSet.drain pt fuel [] = [] := by cases fuel <;> rfl
    rw [nothing]
    exact .clear fun found => some' (List.infix_nil.mp found)
  induction fuel generalizing toks with
  | zero =>
    obtain rfl := List.eq_nil_of_length_eq_zero (Nat.le_zero.mp enough)
    exact short
  | succ fuel ih =>
    cases toks with
    | nil => exact short
    | cons t toks =>
      have less : toks.length ≤ fuel := Nat.le_of_succ_le_succ enough
      by_cases found : pt <+: t :: toks
      · obtain ⟨rest, same⟩ := found
        have step : PhraseSet.drain pt (fuel + 1) (t :: toks) = PhraseSet.drain pt fuel rest := by
          rw [PhraseSet.drain, if_pos (List.isPrefixOf_iff_prefix.mpr ⟨rest, same⟩), ← same,
            List.drop_left]
        have fewer : rest.length ≤ fuel := by
          have long := congrArg List.length same
          have one := List.length_pos_of_ne_nil some'
          rw [List.length_append, List.length_cons] at long
          omega
        rw [step, ← same]
        exact (ih fewer).here
      · have step : PhraseSet.drain pt (fuel + 1) (t :: toks) = t :: PhraseSet.drain pt fuel toks := by
          rw [PhraseSet.drain, if_neg fun is => found (List.isPrefixOf_iff_prefix.mp is)]
        rw [step]
        exact (ih less).skip found

end Passes

section Strip

variable {s : PhraseSet} {text : String}

/-- The words of the phrases that have some, in order. -/
def PhraseSet.wordings (s : PhraseSet) : List (List String) :=
  (s.phrases.map fun p => tokens p.text).filter fun pt => !pt.isEmpty

/-- What is left of the words of a text. -/
def PhraseSet.left (s : PhraseSet) (toks : List String) : List String :=
  s.wordings.foldl (fun toks pt => PhraseSet.drain pt toks.length toks) toks

theorem strip_eq (s : PhraseSet) (text : String) : s.strip text = join " " (s.left (tokens text)) := by
  have each : ∀ (phrases : List Phrase) (toks : List String),
      phrases.foldl (fun toks p =>
        let pt := tokens p.text
        if pt.isEmpty then toks else PhraseSet.drain pt toks.length toks) toks =
      ((phrases.map fun p => tokens p.text).filter fun pt => !pt.isEmpty).foldl
        (fun toks pt => PhraseSet.drain pt toks.length toks) toks := by
    intro phrases
    induction phrases with
    | nil => exact fun toks => rfl
    | cons p phrases ih =>
      intro toks
      rw [List.foldl_cons, ih, List.map_cons]
      by_cases empty : (tokens p.text).isEmpty
      · simp [empty]
      · simp [empty]
  exact congrArg (join " ") (each s.phrases (tokens text))

theorem wordings_ne_nil {pt : List String} (listed : pt ∈ s.wordings) : pt ≠ [] := by
  have some' := (List.mem_filter.mp listed).2
  rintro rfl
  cases some'

/-- **A set removes the occurrences of its phrases**, one phrase after the other. -/
theorem left_leaves (s : PhraseSet) (toks : List String) : Leaves s.wordings toks (s.left toks) := by
  have each : ∀ (pts : List (List String)) (toks : List String), (∀ pt ∈ pts, pt ≠ []) →
      Leaves pts toks (pts.foldl (fun toks pt => PhraseSet.drain pt toks.length toks) toks) := by
    intro pts
    induction pts with
    | nil => exact fun toks _ => .nil toks
    | cons pt pts ih =>
      intro toks some'
      rw [List.foldl_cons]
      exact .cons (drain_cut (some' pt List.mem_cons_self) le_rfl)
        (ih _ fun q listed => some' q (List.mem_cons_of_mem _ listed))
  exact each s.wordings toks fun pt => wordings_ne_nil

theorem left_words (s : PhraseSet) (text : String) : Words (s.left (tokens text)) :=
  Words.sublist (fun w listed => tokens_words w listed) (left_leaves s _).sublist

theorem tokens_strip (s : PhraseSet) (text : String) : tokens (s.strip text) = s.left (tokens text) := by
  rw [strip_eq]
  exact tokens_join (left_words s text)

end Strip

/-! ### Nothing is left, and nothing is left to strip -/

section Seams

/-- A phrase that stands across two lists of words. -/
def across (u v p : List String) : Bool :=
  (List.range p.length).any fun k => 0 < k && (p.take k).isSuffixOf u && (p.drop k).isPrefixOf v

/-- In a pass of `pt`, with `before` behind the cursor: no removal brings together, from the words
before and after it, a phrase that was looked for. -/
def seamlessPass (looked : List (List String)) (pt : List String) : ℕ → List String → List String → Bool
  | 0, _, _ => true
  | _, _, [] => true
  | fuel + 1, before, t :: toks =>
    if pt.isPrefixOf (t :: toks) then
      let rest := (t :: toks).drop pt.length
      (looked.all fun p => !across before rest p) && seamlessPass looked pt fuel before rest
    else seamlessPass looked pt fuel (before ++ [t]) toks

/-- In the passes of some phrases, after those of the phrases that were looked for. -/
def seamlessFrom : List (List String) → List (List String) → List String → Bool
  | _, [], _ => true
  | looked, pt :: pts, toks =>
    seamlessPass (pt :: looked) pt toks.length [] toks &&
      seamlessFrom (pt :: looked) pts (PhraseSet.drain pt toks.length toks)

/-- **No removal of the passes of a set brings together a phrase that was looked for.** -/
def PhraseSet.seamless (s : PhraseSet) (text : String) : Bool := seamlessFrom [] s.wordings (tokens text)

variable {u v p pt toks : List String} {looked pts : List (List String)} {fuel : ℕ}

theorem across_iff : across u v p ↔ Across u v p := by
  simp only [across, List.any_eq_true, List.mem_range, Bool.and_eq_true, decide_eq_true_eq,
    List.isSuffixOf_iff_suffix, List.isPrefixOf_iff_prefix]
  constructor
  · rintro ⟨k, less, ⟨some', ends⟩, begins⟩
    refine ⟨p.take k, p.drop k, ?_, ?_, (List.take_append_drop k p).symm, ends, begins⟩
    · exact List.ne_nil_of_length_pos (by rw [List.length_take]; omega)
    · exact List.ne_nil_of_length_pos (by rw [List.length_drop]; omega)
  · rintro ⟨x, y, some', some'', rfl, ends, begins⟩
    have one := List.length_pos_of_ne_nil some'
    have two := List.length_pos_of_ne_nil some''
    refine ⟨x.length, by rw [List.length_append]; omega, ⟨one, ?_⟩, ?_⟩
    · rwa [List.take_left]
    · rwa [List.drop_left]

/-- **A seamless pass leaves no phrase that was looked for**: no phrase of an earlier pass stands in
the words, and none of this pass begins behind the cursor. -/
theorem drain_clean (some' : pt ≠ []) (enough : toks.length ≤ fuel)
    (seamless : seamlessPass (pt :: looked) pt fuel u toks) (earlier : ∀ p ∈ looked, ¬ p <:+: u ++ toks)
    (passed : ∀ a b, a ++ pt ++ b = u ++ toks → u.length ≤ a.length) :
    ∀ p ∈ pt :: looked, ¬ p <:+: u ++ PhraseSet.drain pt fuel toks := by
  have short : ∀ {u : List String} {fuel : ℕ}, (∀ p ∈ looked, ¬ p <:+: u ++ []) →
      (∀ a b, a ++ pt ++ b = u ++ [] → u.length ≤ a.length) →
      ∀ p ∈ pt :: looked, ¬ p <:+: u ++ PhraseSet.drain pt fuel [] := by
    intro u fuel earlier passed p listed
    have nothing : PhraseSet.drain pt fuel [] = [] := by cases fuel <;> rfl
    rw [nothing]
    rcases List.mem_cons.mp listed with rfl | before
    · rintro ⟨a, b, same⟩
      have later := passed a b same
      have long := congrArg List.length same
      have one := List.length_pos_of_ne_nil some'
      simp only [List.length_append, List.length_nil] at long
      omega
    · exact earlier p before
  induction fuel generalizing u toks with
  | zero =>
    obtain rfl := List.eq_nil_of_length_eq_zero (Nat.le_zero.mp enough)
    exact short earlier passed
  | succ fuel ih =>
    cases toks with
    | nil => exact short earlier passed
    | cons t toks =>
      have less : toks.length ≤ fuel := Nat.le_of_succ_le_succ enough
      by_cases found : pt <+: t :: toks
      · obtain ⟨rest, same⟩ := found
        have is := List.isPrefixOf_iff_prefix.mpr ⟨rest, same⟩
        have fewer : rest.length ≤ fuel := by
          have long := congrArg List.length same
          have one := List.length_pos_of_ne_nil some'
          rw [List.length_append, List.length_cons] at long
          omega
        rw [PhraseSet.drain, if_pos is, ← same, List.drop_left]
        rw [seamlessPass, if_pos is, ← same, List.drop_left, Bool.and_eq_true] at seamless
        have apart : ∀ p ∈ pt :: looked, ¬ Across u rest p := by
          intro p listed across'
          have none' := List.all_eq_true.mp seamless.1 p listed
          simp [across_iff.mpr across'] at none'
        rw [← same] at earlier passed
        refine ih fewer seamless.2 (fun p before inside => ?_) fun a b whole => ?_
        · rcases infix_append_iff.mp inside with here | there | between
          · exact earlier p before (here.trans (List.prefix_append _ _).isInfix)
          · exact earlier p before (there.trans ⟨u ++ pt, [], by simp⟩)
          · exact apart p (List.mem_cons_of_mem _ before) between
        · by_contra behind
          rcases occurrence_cases whole (Nat.lt_of_not_le behind) with ⟨b', rfl⟩ | between
          · exact behind (passed a (b' ++ (pt ++ rest)) (by simp))
          · exact apart pt List.mem_cons_self between
      · have isNot : ¬ pt.isPrefixOf (t :: toks) = true :=
          fun is => found (List.isPrefixOf_iff_prefix.mp is)
        rw [PhraseSet.drain, if_neg isNot]
        rw [seamlessPass, if_neg isNot] at seamless
        have moved : ∀ ws : List String, u ++ t :: ws = (u ++ [t]) ++ ws := fun ws => by simp
        rw [moved] at earlier passed ⊢
        refine ih less seamless earlier fun a b whole => ?_
        have later := passed a b whole
        rw [List.length_append, List.length_singleton]
        by_contra behind
        have here : a.length = u.length := by omega
        rw [← moved, List.append_assoc] at whole
        obtain ⟨rfl, tails⟩ := List.append_inj whole here
        exact found ⟨b, tails⟩

theorem left_clean (some' : ∀ pt ∈ pts, pt ≠ []) (seamless : seamlessFrom looked pts toks)
    (earlier : ∀ p ∈ looked, ¬ p <:+: toks) :
    ∀ p, p ∈ looked ∨ p ∈ pts → ¬ p <:+: pts.foldl
    (fun toks pt => PhraseSet.drain pt toks.length toks) toks := by
  induction pts generalizing looked toks with
  | nil => exact fun p listed => earlier p (listed.resolve_right List.not_mem_nil)
  | cons pt pts ih =>
    rw [seamlessFrom, Bool.and_eq_true] at seamless
    have pass := drain_clean (u := []) (some' pt List.mem_cons_self) le_rfl seamless.1 earlier
      fun a b _ => Nat.zero_le _
    intro p listed
    rw [List.foldl_cons]
    refine ih (fun q listed => some' q (List.mem_cons_of_mem _ listed)) seamless.2 pass p ?_
    rcases listed with before | now
    · exact .inl (List.mem_cons_of_mem _ before)
    · refine (List.mem_cons.mp now).imp (fun same => ?_) id
      rw [same]
      exact List.mem_cons_self

/-- **Stripping removes every occurrence**, where no removal brings a phrase together: no phrase of
the set is left, stripping again changes nothing, and so a text is matched whole as often as it is
stripped. -/
theorem strip_clean (s : PhraseSet) (text : String) (seamless : s.seamless text) :
    (∀ p ∈ s.phrases, tokens p.text ≠ [] → ¬ tokens p.text <:+: tokens (s.strip text)) ∧
      s.strip (s.strip text) = s.strip text ∧
        ∀ set : PhraseSet, set.matchesWhole (s.strip text) s = set.matchesWhole text s := by
  have clean : ∀ pt ∈ s.wordings, ¬ pt <:+: s.left (tokens text) := fun pt listed =>
    left_clean (fun pt => wordings_ne_nil) seamless
      (fun p none' => absurd none' List.not_mem_nil) pt (.inr listed)
  have again : s.strip (s.strip text) = s.strip text := by
    rw [strip_eq s (s.strip text), tokens_strip, (left_leaves s _).unique (Leaves.clear clean), strip_eq]
  refine ⟨fun p listed some' => ?_, again, fun set => ?_⟩
  · rw [tokens_strip]
    refine clean _ (List.mem_filter.mpr ⟨List.mem_map.mpr ⟨p, listed, rfl⟩, ?_⟩)
    simpa using some'
  · simp only [PhraseSet.matchesWhole, again]

end Seams

/-! ### A phrase matched by its own words -/

section Whole

variable [Unicode] {fillers : PhraseSet} {items : List String} {allowPrefixes : Bool}

/-- A phrase of a set that was built from items is normalized, and not empty. -/
theorem new_phrases {p : Phrase} (listed : p ∈ (PhraseSet.new items allowPrefixes).phrases) :
    ∃ item ∈ items, p.text = normalize item ∧ normalize item ≠ "" := by
  have built := (List.perm_insertionSort _ _).mem_iff.mp listed
  obtain ⟨item, held, rfl⟩ := List.mem_map.mp built
  obtain ⟨member, some'⟩ := List.mem_filter.mp held
  exact ⟨item, member, rfl, by simpa using some'⟩

variable {p : Phrase}

theorem new_normal (tables : ∀ c, c ≠ ' ' → Unicode.lowercase c ≠ [] ∧ ' ' ∉ Unicode.lowercase c)
    (listed : p ∈ (PhraseSet.new items allowPrefixes).phrases) : Normal p.text := by
  obtain ⟨item, -, same, -⟩ := new_phrases listed
  rw [same]
  exact normalize_normal tables item

theorem matchesWhole_iff {set : PhraseSet} {text : String} :
    set.matchesWhole text fillers ↔ ∃ q ∈ set.phrases, q.text = fillers.strip text := by
  simp [PhraseSet.matchesWhole]

/-- A text with no filler among its words is left as it is. -/
theorem strip_untaken (normal : Normal p.text)
    (untaken : ∀ filler ∈ fillers.wordings, ¬ filler <:+: tokens p.text) :
    fillers.strip p.text = p.text := by
  rw [strip_eq, (left_leaves fillers (tokens p.text)).unique (Leaves.clear untaken)]
  exact normal.join_tokens

/-- A text that is left as it is has no filler among its words. -/
theorem untaken_of_strip (kept : fillers.strip p.text = p.text) :
    ∀ filler ∈ fillers.wordings, ¬ filler <:+: tokens p.text := by
  have same : fillers.left (tokens p.text) = tokens p.text := by rw [← tokens_strip, kept]
  exact (left_leaves fillers (tokens p.text)).kept (fun filler => wordings_ne_nil)
    (congrArg List.length same)

/-- **A configured phrase none of whose words a filler takes is matched by its own words**; a phrase
with a filler among its words is matched where what is left of them happens to be another phrase of
the set, and nowhere else. -/
theorem phrase_recognised (tables : ∀ c, c ≠ ' ' → Unicode.lowercase c ≠ [] ∧ ' ' ∉ Unicode.lowercase c)
    (fillers : PhraseSet) (items : List String) (allowPrefixes : Bool) (p : Phrase)
    (configured : p ∈ (PhraseSet.new items allowPrefixes).phrases) :
    ((∀ filler ∈ fillers.wordings, ¬ filler <:+: tokens p.text) →
      (PhraseSet.new items allowPrefixes).matchesWhole p.text fillers) ∧
    ((PhraseSet.new items allowPrefixes).matchesWhole p.text fillers →
      (∀ filler ∈ fillers.wordings, ¬ filler <:+: tokens p.text) ∨
        ∃ q ∈ (PhraseSet.new items allowPrefixes).phrases, q.text ≠ p.text ∧ (tokens q.text).Sublist
        (tokens p.text)) := by
  refine ⟨fun untaken => ?_, fun matched => ?_⟩
  · exact matchesWhole_iff.mpr
      ⟨p, configured, (strip_untaken (new_normal tables configured) untaken).symm⟩
  · obtain ⟨q, listed, same⟩ := matchesWhole_iff.mp matched
    by_cases kept : q.text = p.text
    · exact .inl (untaken_of_strip (same.symm.trans kept))
    · refine .inr ⟨q, listed, kept, ?_⟩
      rw [same, tokens_strip]
      exact (left_leaves fillers (tokens p.text)).sublist

end Whole

attribute [local instance] Unicode.plain

/-- A set with "thank you" and "um", and a text with both. -/
theorem thanks_stripped :
    let fillers := PhraseSet.new ["um", "thank you"] false
    let text := "um ok thank you"
    (∀ p ∈ fillers.phrases, tokens p.text ≠ [] → ¬ tokens p.text <:+: tokens (fillers.strip text)) ∧
      fillers.strip (fillers.strip text) = fillers.strip text ∧
        ∀ set : PhraseSet, set.matchesWhole (fillers.strip text) fillers =
        set.matchesWhole text fillers :=
  strip_clean _ _ (by decide)

/-- "um" between the words of "thank you": they are left, and a second stripping removes them. -/
theorem thanks_left : ¬ ∀ (_ : Unicode) (items : List String) (text : String), Normal text →
    (∀ p ∈ (PhraseSet.new items false).phrases,
      ¬ tokens p.text <:+: tokens ((PhraseSet.new items false).strip text)) ∧
      (PhraseSet.new items false).strip ((PhraseSet.new items false).strip text) =
        (PhraseSet.new items false).strip text := by
  intro all
  have again := (all Unicode.plain ["thank you", "um"] "thank um you" (by decide)).2
  revert again
  decide

/-- "I need nothing" has no filler, and is matched; and it is matched by no other phrase. -/
theorem nothing_recognised :
    let set := PhraseSet.new ["לא צריך כלום"] false
    let fillers := PhraseSet.new ["אה"] false
    ((∀ filler ∈ fillers.wordings, ¬ filler <:+: tokens "לא צריך כלום") →
      set.matchesWhole "לא צריך כלום" fillers) ∧
    (set.matchesWhole "לא צריך כלום" fillers →
      (∀ filler ∈ fillers.wordings, ¬ filler <:+: tokens "לא צריך כלום") ∨
        ∃ q ∈ set.phrases, q.text ≠ "לא צריך כלום" ∧
        (tokens q.text).Sublist (tokens "לא צריך כלום")) := by
  have tables : ∀ c : Char, c ≠ ' ' → Unicode.lowercase c ≠ [] ∧ ' ' ∉ Unicode.lowercase c :=
    fun c other =>
    ⟨List.cons_ne_nil _ _, fun space => other (List.mem_singleton.mp space).symm⟩
  exact phrase_recognised tables (PhraseSet.new ["אה"] false) ["לא צריך כלום"] false
    ⟨"לא צריך כלום", false⟩
    (by decide)

/-- "No need": the need is a filler, so what is left is another phrase. -/
theorem noNeed_unrecognised : ¬ ∀ (_ : Unicode) (fillers : PhraseSet) (items : List String)
    (allowPrefixes : Bool),
    ∀ p ∈ (PhraseSet.new items allowPrefixes).phrases,
      (PhraseSet.new items allowPrefixes).matchesWhole p.text fillers := by
  intro all
  have matched := all Unicode.plain (PhraseSet.new ["צריך"] false) ["לא צריך"] false ⟨"לא צריך",
    false⟩ (by decide)
  revert matched
  decide

end Callora.Text
