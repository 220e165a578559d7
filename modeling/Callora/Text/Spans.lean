/-
**Words and spans of a normalized text.**

A normalized text is its words with one space between them (`Normal`, `normalize_normal`). A span of
it falls on token boundaries when it begins where a word begins and ends where a word ends
(`TokenSpan`); the spans of tokens are such (`tokenSpan_tokens`), and so is what a phrase is found
in (`find_tokenSpan`). Words written out with spaces around them stand in a text where they are some
of its words (`spaced_infix_iff`).
-/
import Callora.Text.Matching
import Callora.Text.Search

set_option linter.unusedSectionVars false

namespace Callora.Text

section Splitting

variable {sep : Char → Bool}

attribute [local simp] splitChars in
/-- A separator splits the text in two. -/
theorem splitChars_append (cs ds acc : List Char) {c : Char} (ends : sep c = true) :
    splitChars sep (cs ++ c :: ds) acc = splitChars sep cs acc ++ splitChars sep ds [] := by
  induction cs generalizing acc with
  | nil => simp [ends]
  | cons d cs ih =>
    rw [List.cons_append, splitChars, splitChars]
    split
    · rw [ih, List.cons_append]
    · exact ih _

/-- A word without separators is one piece. -/
theorem splitChars_word (cs acc : List Char) (word : ∀ c ∈ cs, sep c = false) :
    splitChars sep cs acc = [acc.reverse ++ cs] := by
  induction cs generalizing acc with
  | nil => simp [splitChars]
  | cons c cs ih =>
    obtain ⟨own, rest⟩ := List.forall_mem_cons.mp word
    rw [splitChars, if_neg (by simp [own]), ih _ rest]
    simp

theorem splitChars_under_way (cs ds acc : List Char) (word : ' ' ∉ cs) :
    splitChars (· == ' ') (cs ++ ds) acc = splitChars (· == ' ') ds (cs.reverse ++ acc) := by
  induction cs generalizing acc with
  | nil => rfl
  | cons c cs ih =>
    obtain ⟨other, rest⟩ := not_or.mp fun listed => word (List.mem_cons.mpr listed)
    have own : ¬(c == ' ') = true := by simpa using fun same : c = ' ' => other same.symm
    rw [List.cons_append, splitChars, if_neg own, ih _ rest]
    simp

theorem splitChars_ne_nil (cs acc : List Char) : splitChars sep cs acc ≠ [] := by
  induction cs generalizing acc with
  | nil => simp [splitChars]
  | cons c cs ih =>
    rw [splitChars]
    split
    · exact List.cons_ne_nil _ _
    · exact ih _

/-- Pieces have no separators. -/
theorem splitChars_pieces (cs acc : List Char) (clean : ∀ c ∈ acc, sep c = false) :
    ∀ piece ∈ splitChars sep cs acc, ∀ c ∈ piece, sep c = false := by
  induction cs generalizing acc with
  | nil => simpa [splitChars] using clean
  | cons c cs ih =>
    rw [splitChars]
    split
    · refine List.forall_mem_cons.mpr ⟨by simpa using clean, ih [] (by simp)⟩
    · next other =>
      exact ih (c :: acc) (List.forall_mem_cons.mpr ⟨by simpa using other, clean⟩)

/-- Separators at the start separate nothing. -/
theorem splitChars_dropWhile (cs : List Char) :
    (splitChars sep (cs.dropWhile sep) []).filter (fun w => !w.isEmpty) =
      (splitChars sep cs []).filter fun w => !w.isEmpty := by
  induction cs with
  | nil => rfl
  | cons c cs ih =>
    by_cases ends : sep c = true
    · rw [List.dropWhile_cons_of_pos ends, ih, splitChars, if_pos ends]
      rfl
    · rw [List.dropWhile_cons_of_neg ends]

/-- Nor do those at the end. -/
theorem splitChars_rdropWhile (cs : List Char) :
    (splitChars sep (cs.rdropWhile sep) []).filter (fun w => !w.isEmpty) =
      (splitChars sep cs []).filter fun w => !w.isEmpty := by
  induction cs using List.reverseRecOn with
  | nil => rfl
  | append_singleton cs c ih =>
    by_cases ends : sep c = true
    · rw [List.rdropWhile_concat_pos _ _ _ ends, ih, splitChars_append cs [] [] ends, List.filter_append]
      simp [splitChars]
    · rw [List.rdropWhile_concat_neg _ _ _ ends]

theorem splitWhitespace_trim (s : String) : splitWhitespace (trim s) = splitWhitespace s := by
  rw [splitWhitespace, splitWhitespace, toList_trim, splitChars_rdropWhile, splitChars_dropWhile]

/-- The words, each of them mapped, are the pieces mapped, without the empty ones. -/
theorem splitWhitespace_map {f : List Char → List Char} (nothing : f [] = []) (s : String) :
    ((splitWhitespace s).map fun w => String.ofList (f w.toList)).filter (fun w => !w.isEmpty) =
      (((splitChars isWhitespace s.toList []).map f).filter fun w => !w.isEmpty).map String.ofList := by
  unfold splitWhitespace
  generalize splitChars isWhitespace s.toList [] = pieces
  induction pieces with
  | nil => rfl
  | cons piece pieces ih =>
    by_cases empty : piece = []
    · simpa [empty, nothing] using ih
    · by_cases none' : f piece = []
      · simpa [empty, none', String.isEmpty_iff] using ih
      · simpa [empty, none', String.isEmpty_iff] using ih

end Splitting

section Joining

theorem join_toList_cons (w : String) (ws : List String) :
    (join " " (w :: ws)).toList = w.toList ++ (ws.flatMap fun w => ' ' :: w.toList) := by
  induction ws generalizing w with
  | nil => simp [join]
  | cons v ws ih =>
    have step : (join " " (w :: v :: ws)).toList = w.toList ++ ' ' :: (join " " (v :: ws)).toList := by
      simp [join]
    rw [step, ih v]
    simp

/-- What was split at the spaces, joined again, is the text. -/
theorem join_splitChars (cs acc : List Char) :
    (join " " ((splitChars (· == ' ') cs acc).map String.ofList)).toList = acc.reverse ++ cs := by
  induction cs generalizing acc with
  | nil => simp [splitChars, join]
  | cons c cs ih =>
    by_cases space : c = ' '
    · subst space
      have rest := ih []
      have some' : splitChars (· == ' ') cs [] ≠ [] := splitChars_ne_nil cs []
      obtain ⟨first, more, pieces⟩ := List.exists_cons_of_ne_nil some'
      rw [splitChars, if_pos (by rfl), List.map_cons, join_toList_cons, String.toList_ofList]
      rw [pieces, List.map_cons, join_toList_cons, String.toList_ofList] at rest
      rw [pieces, List.map_cons, List.flatMap_cons, String.toList_ofList, List.cons_append, rest]
      simp
    · rw [splitChars, if_neg (by simpa using space), ih]
      simp

end Joining

section Normal

/-- **A normalized text**: its words, with one space between them and none around. -/
def Normal (text : String) : Prop := text = "" ∨ [] ∉ splitChars (· == ' ') text.toList []

instance (text : String) : Decidable (Normal text) := by
  unfold Normal
  infer_instance

variable {text : String}

/-- A normalized text is its tokens, joined. -/
theorem Normal.join_tokens (normal : Normal text) : join " " (tokens text) = text := by
  rcases normal with rfl | words'
  · rfl
  · have all : (splitChars (· == ' ') text.toList []).filter (fun w => !w.isEmpty) =
        splitChars (· == ' ') text.toList [] := by
      refine List.filter_eq_self.mpr fun w listed => ?_
      cases w with
      | nil => exact absurd listed words'
      | cons => rfl
    refine String.toList_inj.mp ?_
    rw [tokens, words, all, join_splitChars]
    rfl

theorem tokens_words : ∀ tok ∈ tokens text, tok.toList ≠ [] ∧ ' ' ∉ tok.toList := by
  intro tok listed
  obtain ⟨w, held, rfl⟩ := List.mem_map.mp listed
  obtain ⟨piece, some'⟩ := List.mem_filter.mp held
  rw [String.toList_ofList]
  refine ⟨by simpa using some', fun space => ?_⟩
  have clean := splitChars_pieces text.toList [] (by simp) w piece ' ' space
  cases clean

variable {u v w : List Char}

theorem Normal.no_double (normal : Normal text) : text.toList ≠ u ++ ' ' :: ' ' :: v := by
  intro same
  rcases normal with rfl | words'
  · simp at same
  · rw [same, splitChars_append u (' ' :: v) [] (by rfl), splitChars, if_pos (by rfl)] at words'
    simp at words'

theorem Normal.no_first (normal : Normal text) : text.toList ≠ ' ' :: v := by
  intro same
  rcases normal with rfl | words'
  · simp at same
  · rw [same, splitChars, if_pos (by rfl)] at words'
    simp at words'

theorem Normal.no_last (normal : Normal text) : text.toList ≠ u ++ [' '] := by
  intro same
  rcases normal with rfl | words'
  · simp at same
  · rw [same, splitChars_append u [] [] (by rfl)] at words'
    simp [splitChars] at words'

section Normalize

variable [Unicode]

theorem toLowercase_word
    (tables : ∀ c, c ≠ ' ' → Unicode.lowercase c ≠ [] ∧ ' ' ∉ Unicode.lowercase c) {c : Char}
    (letter : c ≠ ' ') : toLowercase c ≠ [] ∧ ' ' ∉ toLowercase c := by
  unfold toLowercase
  split
  · refine ⟨List.cons_ne_nil _ _, fun space => letter ?_⟩
    have lower : c.toLower = ' ' := (List.mem_singleton.mp space).symm
    unfold Char.toLower at lower
    split at lower
    · next upper =>
      have value : c.val + 32 = 32 := congrArg Char.val lower
      have large : 65 ≤ c.val := upper.1
      have zero : c.val = 0 := by simpa using value
      rw [zero] at large
      exact absurd large (by decide)
    · exact lower
  · split
    · exact ⟨List.cons_ne_nil _ _, fun space => letter (List.mem_singleton.mp space).symm⟩
    · exact tables c letter

/-- What `normalize` leaves of its output: a space at the end is dropped. -/
def dropSpace (cs : List Char) : List Char := if cs.getLast? = some ' ' then cs.dropLast else cs

theorem dropSpace_append (cs ds : List Char) (some' : ds ≠ []) :
    dropSpace (cs ++ ds) = cs ++ dropSpace ds := by
  unfold dropSpace
  rw [List.getLast?_append_of_ne_nil _ some', List.dropLast_append_of_ne_nil some']
  split <;> rfl

theorem dropSpace_word (cs ds : List Char) (word : ' ' ∉ cs) :
    dropSpace (cs ++ ds) = cs ++ dropSpace ds := by
  by_cases some' : ds = []
  · subst some'
    have kept : dropSpace cs = cs := if_neg fun space => word (List.mem_of_getLast? space)
    rw [List.append_nil, kept]
    exact (List.append_nil cs).symm
  · exact dropSpace_append cs ds some'

/-- **No two spaces are written in a row**: with something of a word written, or nothing, the pieces
of what the loop writes are words. -/
theorem normalizeLoop_pieces
    (tables : ∀ c, c ≠ ' ' → Unicode.lowercase c ≠ [] ∧ ' ' ∉ Unicode.lowercase c)
    (cs : List Char) :
    (∀ acc : List Char, acc ≠ [] → [] ∉ splitChars (· == ' ') (dropSpace (normalizeLoop cs false)) acc) ∧
    (normalizeLoop cs true = [] ∨ [] ∉ splitChars (· == ' ') (dropSpace (normalizeLoop cs true)) []) := by
  induction cs with
  | nil =>
    refine ⟨fun acc some' => ?_, .inl rfl⟩
    simpa [normalizeLoop, dropSpace, splitChars] using some'
  | cons ch rest ih =>
    obtain ⟨going, fresh⟩ := ih
    unfold normalizeLoop
    cases read : normalizeChar ch with
    | none => exact ⟨going, fresh⟩
    | some c =>
      by_cases space : c = ' '
      · subst space
        refine ⟨fun acc some' => ?_, fresh⟩
        show [] ∉ splitChars (· == ' ') (dropSpace (' ' :: normalizeLoop rest true)) acc
        by_cases nothing : normalizeLoop rest true = []
        · rw [nothing]
          simpa [dropSpace, splitChars] using some'
        · have pieces := fresh.resolve_left nothing
          have kept : dropSpace (' ' :: normalizeLoop rest true) =
            ' ' :: dropSpace (normalizeLoop rest true) :=
            dropSpace_append [' '] _ nothing
          rw [kept, splitChars, if_pos (by rfl)]
          simpa [pieces] using some'
      · obtain ⟨some', word⟩ := toLowercase_word tables space
        have letters : ∀ acc : List Char,
            [] ∉ splitChars (· == ' ') (dropSpace (toLowercase c ++ normalizeLoop rest false)) acc := by
          intro acc
          rw [dropSpace_word _ _ word, splitChars_under_way _ _ _ word]
          exact going _ (List.append_ne_nil_of_left_ne_nil (by simpa using some') acc)
        dsimp only
        rw [if_neg space, if_neg space]
        exact ⟨fun acc _ => letters acc, .inr (letters [])⟩

/-- **What `normalize` gives is a normalized text.** -/
theorem normalize_normal
    (tables : ∀ c, c ≠ ' ' → Unicode.lowercase c ≠ [] ∧ ' ' ∉ Unicode.lowercase c) (input : String) :
    Normal (normalize input) := by
  have same : (normalize input).toList = dropSpace (normalizeLoop input.toList true) := by
    rw [normalize, String.toList_ofList]
    rfl
  rcases (normalizeLoop_pieces tables input.toList).2 with nothing | pieces
  · refine .inl (String.toList_inj.mp ?_)
    rw [same, nothing]
    rfl
  · right
    rw [same]
    exact pieces

end Normalize

end Normal

section Spans

variable {text : String} {u v w : List Char}

theorem bytes_append (cs ds : List Char) : bytes (cs ++ ds) = bytes cs + bytes ds := by
  simp [bytes]

theorem bytes_pos (some' : v ≠ []) : 0 < bytes v := by
  cases v with
  | nil => exact absurd rfl some'
  | cons c v =>
    have one := c.utf8Size_pos
    simp only [bytes, List.map_cons, List.sum_cons]
    omega

/-- **A span on token boundaries**: it begins where a word begins and ends where a word ends, and
something stands in it. -/
def TokenSpan (text : String) (span : Span) : Prop :=
  ∃ u v w, text.toList = u ++ v ++ w ∧ span = (bytes u, bytes (u ++ v)) ∧ v ≠ [] ∧
    (u = [] ∨ u.getLast? = some ' ') ∧ (w = [] ∨ w.head? = some ' ') ∧
    v.head? ≠ some ' ' ∧ v.getLast? ≠ some ' '

/-- Such a span lies inside the text and is not empty. -/
theorem TokenSpan.inside {span : Span} (on : TokenSpan text span) :
    span.1 < span.2 ∧ span.2 ≤ bytes text.toList := by
  obtain ⟨u, v, w, same, rfl, some', -⟩ := on
  have more := bytes_pos some'
  dsimp only
  rw [same, bytes_append (u ++ v) w, bytes_append u v]
  omega

/-- The words, each with the space after it. -/
def spaced (ws : List String) : List Char := ws.flatMap fun w => w.toList ++ [' ']

theorem spaced_concat (ws : List String) (w : String) :
    spaced (ws ++ [w]) = spaced ws ++ (w.toList ++ [' ']) := by
  simp [spaced]

/-- A text of words, cut before one of them. -/
theorem join_append (ws : List String) (first : String) (more : List String) :
    (join " " (ws ++ first :: more)).toList = spaced ws ++ (join " " (first :: more)).toList := by
  induction ws with
  | nil => rfl
  | cons w ws ih =>
    cases ws with
    | nil => simp [join_toList_cons, spaced]
    | cons next ws =>
      rw [List.cons_append, List.cons_append, join_toList_cons, List.flatMap_cons]
      rw [List.cons_append, join_toList_cons] at ih
      simp only [spaced, List.flatMap_cons, List.append_assoc, List.cons_append, List.nil_append] at ih ⊢
      rw [ih]

theorem spaced_append (vs ws : List String) : spaced (vs ++ ws) = spaced vs ++ spaced ws := by
  simp [spaced]

/-- **The span of some tokens falls on token boundaries.** -/
theorem tokenSpan_tokens (normal : Normal text) {before between after : List String} {last : String}
    (same : tokens text = before ++ (between ++ last :: after)) :
    TokenSpan text (bytes (spaced before), bytes (spaced (before ++ between)) + bytes last.toList) := by
  have words' : ∀ tok ∈ before ++ (between ++ last :: after), tok.toList ≠ [] ∧ ' ' ∉ tok.toList := by
    rw [← same]
    exact tokens_words
  have last' := words' last (by simp)
  refine ⟨spaced before, spaced between ++ last.toList, after.flatMap fun w => ' ' :: w.toList, ?_,
    ?_, ?_, ?_, ?_,
    ?_, ?_⟩
  · have whole := congrArg String.toList normal.join_tokens
    rw [same, ← List.append_assoc, join_append, join_toList_cons, spaced_append] at whole
    rw [← whole]
    simp only [List.append_assoc]
  · rw [spaced_append, bytes_append, bytes_append, bytes_append, Nat.add_assoc]
  · exact List.append_ne_nil_of_right_ne_nil _ last'.1
  · rcases List.eq_nil_or_concat before with rfl | ⟨front, w, rfl⟩
    · exact .inl rfl
    · right
      rw [List.concat_eq_append, spaced_concat, ← List.append_assoc, List.getLast?_concat]
  · cases after with
    | nil => exact .inl rfl
    | cons w after => exact .inr rfl
  · cases between with
    | nil =>
      intro space
      exact last'.2 (List.mem_of_mem_head? space)
    | cons w between =>
      obtain ⟨some', clean⟩ := words' w (by simp)
      intro space
      simp only [spaced, List.flatMap_cons, List.append_assoc] at space
      rw [List.head?_append_of_ne_nil _ some'] at space
      exact clean (List.mem_of_mem_head? space)
  · rw [List.getLast?_append_of_ne_nil _ last'.1]
    exact fun space => last'.2 (List.mem_of_getLast? space)

end Spans

section Words

variable {c : Char} {u v s t : List Char} {ns ps toks : List String}

/-- Two words that end at the same character. -/
theorem prefix_word_iff (clean : c ∉ u) (clean' : c ∉ v) : u ++ c :: s <+: v ++ c :: t ↔
    u = v ∧ s <+: t := by
  induction u generalizing v with
  | nil =>
    cases v with
    | nil => simp
    | cons d v =>
      have other : c ≠ d := fun same => clean' (same ▸ List.mem_cons_self)
      simp [List.cons_prefix_cons, other]
  | cons d u ih =>
    have other : c ≠ d := fun same => clean (same ▸ List.mem_cons_self)
    have rest : c ∉ u := fun listed => clean (List.mem_cons_of_mem _ listed)
    cases v with
    | nil => simp [List.cons_prefix_cons, other.symm]
    | cons e v =>
      have rest' : c ∉ v := fun listed => clean' (List.mem_cons_of_mem _ listed)
      rw [List.cons_append, List.cons_append, List.cons_prefix_cons, ih rest rest',
        List.cons.injEq, and_assoc]

theorem infix_skip (clean : c ∉ u) (found : c :: s <:+: u ++ t) : c :: s <:+: t := by
  induction u with
  | nil => exact found
  | cons d u ih =>
    have rest : c ∉ u := fun listed => clean (List.mem_cons_of_mem _ listed)
    rcases List.infix_cons_iff.mp found with here | later
    · obtain ⟨same, -⟩ := List.cons_prefix_cons.mp here
      exact absurd (same ▸ List.mem_cons_self) clean
    · exact ih rest later

theorem spaced_cons (w : String) (ws : List String) :
    spaced (w :: ws) = w.toList ++ ' ' :: spaced ws := by
  simp [spaced]

/-- Words, none of them empty, without spaces. -/
def Words (toks : List String) : Prop := ∀ w ∈ toks, w.toList ≠ [] ∧ ' ' ∉ w.toList

theorem Words.sublist (words' : Words toks) {less : List String} (sub : less.Sublist toks) : Words less :=
  fun w listed => words' w (sub.subset listed)

/-- Words joined and read again. -/
theorem tokens_join (words' : Words toks) : tokens (join " " toks) = toks := by
  induction toks with
  | nil => rfl
  | cons w ws ih =>
    obtain ⟨letters, clean⟩ := words' w List.mem_cons_self
    have later : Words ws := fun w' listed => words' w' (List.mem_cons_of_mem _ listed)
    have separates : ∀ c ∈ w.toList, (c == ' ') = false := fun c listed => by
      simpa using fun same : c = ' ' => clean (same ▸ listed)
    cases ws with
    | nil =>
      have one : (join " " [w]).toList = w.toList := by simp [join]
      rw [tokens, words, one, splitChars_word _ _ separates]
      simp [letters]
    | cons next ws =>
      have ih := ih later
      rw [tokens, words] at ih ⊢
      have whole : (join " " (w :: next :: ws)).toList =
        w.toList ++ ' ' :: (join " " (next :: ws)).toList := by
        have cut := join_append [w] next ws
        rw [List.singleton_append] at cut
        rw [cut, spaced_cons]
        simp [spaced]
      rw [whole, splitChars_append _ _ _ (by rfl), List.filter_append, List.map_append, ih,
        splitChars_word _ _ separates]
      simp [letters]

/-- Words written out begin a text of words where they are its first words. -/
theorem spaced_prefix_iff (clean : ∀ w ∈ ns, ' ' ∉ w.toList) (clean' : ∀ w ∈ ps, ' ' ∉ w.toList) :
    spaced ns <+: spaced ps ↔ ns <+: ps := by
  induction ns generalizing ps with
  | nil => simp [spaced]
  | cons n ns ih =>
    cases ps with
    | nil => simp [spaced]
    | cons p ps =>
      rw [spaced_cons, spaced_cons, prefix_word_iff (clean n List.mem_cons_self)
        (clean' p List.mem_cons_self),
        ih (fun w listed => clean w (List.mem_cons_of_mem _ listed))
          fun w listed => clean' w (List.mem_cons_of_mem _ listed), List.cons_prefix_cons,
          String.toList_inj]

/-- **Words with spaces around them stand in a text where they are some of its words**, one after the
other. -/
theorem spaced_infix_iff (clean : ∀ w ∈ ns, ' ' ∉ w.toList) (clean' : ∀ w ∈ ps, ' ' ∉ w.toList) :
    ' ' :: spaced ns <:+: ' ' :: spaced ps ↔ ns <:+: ps := by
  constructor
  · intro found
    induction ps with
    | nil =>
      cases ns with
      | nil => exact List.infix_rfl
      | cons n ns =>
        have long := found.length_le
        simp only [spaced_cons, List.length_cons, List.length_append] at long
        simp [spaced] at long
    | cons p ps ih =>
      have later : ∀ w ∈ ps, ' ' ∉ w.toList := fun w listed => clean' w (List.mem_cons_of_mem _ listed)
      rcases List.infix_cons_iff.mp found with here | after
      · have first : ns <+: p :: ps :=
          (spaced_prefix_iff clean clean').mp (List.cons_prefix_cons.mp here).2
        exact first.isInfix
      · rw [spaced_cons] at after
        exact (ih later (infix_skip (clean' p List.mem_cons_self) after)).trans
          (List.infix_cons List.infix_rfl)
  · rintro ⟨before, after, rfl⟩
    have edge : ∃ u, ' ' :: spaced before = u ++ [' '] := by
      rcases List.eq_nil_or_concat' before with rfl | ⟨front, w, rfl⟩
      · exact ⟨[], rfl⟩
      · exact ⟨' ' :: (spaced front ++ w.toList), by simp [spaced_concat]⟩
    obtain ⟨u, same⟩ := edge
    refine ⟨u, spaced after, ?_⟩
    rw [spaced_append, spaced_append, ← List.cons_append, ← List.cons_append, same]
    simp

/-- A normalized text between spaces. -/
theorem Normal.between_spaces {text : String} (normal : Normal text) (some' : text ≠ "") :
    (" " ++ text ++ " ").toList = ' ' :: spaced (tokens text) := by
  have whole := congrArg String.toList normal.join_tokens
  rcases List.eq_nil_or_concat' (tokens text) with none' | ⟨front, last, same⟩
  · rw [none'] at whole
    exact absurd (String.toList_inj.mp whole).symm some'
  · rw [same, join_append] at whole
    have one : (join " " [last]).toList = last.toList := by simp [join]
    rw [same, spaced_concat, String.toList_append, String.toList_append, ← whole, one]
    simp

end Words

section Phrases

variable {p : Phrase} {cs m : List Char}

/-- What the body of a phrase takes: the phrase with the letters before it, then a space or the end. -/
theorem body_taken (found : p.body cs = some m) : ∃ v w, cs = v ++ w ∧ p.text.toList <:+ v ∧
    ((w = [] ∧ m = v) ∨ (w.head? = some ' ' ∧ m = v ++ [' '])) := by
  obtain ⟨k, -, here⟩ := List.exists_of_findSome?_eq_some found
  dsimp only at here
  split at here
  · split at here
    · next rest =>
      obtain rfl := Option.some.inj here
      have split' := dropPrefix_eq_some_iff.mp rest
      refine ⟨cs.take k ++ p.text.toList, [], ?_, List.suffix_append _ _, .inl ⟨rfl, rfl⟩⟩
      rw [List.append_assoc, ← split', List.take_append_drop]
    · next after rest =>
      obtain rfl := Option.some.inj here
      have split' := dropPrefix_eq_some_iff.mp rest
      refine ⟨cs.take k ++ p.text.toList, ' ' :: after, ?_, List.suffix_append _ _, .inr ⟨rfl, rfl⟩⟩
      rw [List.append_assoc, ← split', List.take_append_drop]
    · cases here
  · cases here

/-- A match that begins here: with a space before it, or at the start of the text. -/
theorem matchHere_taken {atStart : Bool} (found : p.matchHere atStart cs = some m) :
    (atStart = true ∧ p.body cs = some m) ∨ ∃ rest m', cs = ' ' :: rest ∧ p.body rest = some m' ∧
    m = ' ' :: m' := by
  unfold Phrase.matchHere at found
  split at found
  · next here =>
    obtain rfl := Option.some.inj found
    split at here
    · next start => exact .inl ⟨start, here⟩
    · cases here
  · split at found
    · obtain ⟨m', body, rfl⟩ := Option.map_eq_some_iff.mp found
      exact .inr ⟨_, m', rfl, body, rfl⟩
    · cases found

/-- The search looks at one place after the other. -/
theorem search_taken {atStart : Bool} {at' start : Nat}
    (found : p.search cs atStart at' = some (start, m)) :
    ∃ u rest, cs = u ++ rest ∧ start = at' + bytes u ∧
      p.matchHere (atStart && u.isEmpty) rest = some m := by
  induction cs generalizing atStart at' with
  | nil =>
    obtain ⟨m', here, same⟩ := Option.map_eq_some_iff.mp found
    obtain ⟨rfl, rfl⟩ := Prod.mk.inj same
    exact ⟨[], [], rfl, rfl, by simpa using here⟩
  | cons c cs ih =>
    rw [Phrase.search] at found
    split at found
    · next here =>
      obtain ⟨rfl, rfl⟩ := Prod.mk.inj (Option.some.inj found)
      exact ⟨[], c :: cs, rfl, rfl, by simpa using here⟩
    · obtain ⟨u, rest, same, start', here⟩ := ih found
      refine ⟨c :: u, rest, by rw [same]; rfl, ?_, by simpa using here⟩
      rw [start']
      simp only [bytes, List.map_cons, List.sum_cons]
      omega

/-- The span of a body that begins where a word does, without the space after it. -/
theorem body_span {text : String} (normal : Normal text) (some' : p.text ≠ "") {u rest : List Char}
    (same : text.toList = u ++ rest) (body : p.body rest = some m)
    (before : u = [] ∨ u.getLast? = some ' ') :
    TokenSpan text (bytes u, bytes u + bytes m - (if m.getLast? = some ' ' then 1 else 0)) ∧
      m.head? ≠ some ' ' ∧ m ≠ [] ∧ (m.getLast? = some ' ' → 1 < bytes m) := by
  obtain ⟨v, w, rfl, suffix, after⟩ := body_taken body
  have nonempty : v ≠ [] := by
    rintro rfl
    exact some' (String.toList_inj.mp (List.suffix_nil.mp suffix))
  have first : v.head? ≠ some ' ' := by
    intro space
    obtain ⟨v', rfl⟩ : ∃ v', v = ' ' :: v' := by
      cases v with
      | nil => cases space
      | cons c v => exact ⟨v, by rw [Option.some.inj space]⟩
    rcases before with rfl | before
    · exact normal.no_first same
    · obtain ⟨u', rfl⟩ := List.getLast?_eq_some_iff.mp before
      exact normal.no_double (u := u') (v := v' ++ w) (by rw [same]; simp)
  have last : v.getLast? ≠ some ' ' := by
    intro space
    obtain ⟨v', rfl⟩ := List.getLast?_eq_some_iff.mp space
    rcases after with ⟨rfl, -⟩ | ⟨space', -⟩
    · exact normal.no_last (by rw [same, List.append_nil, ← List.append_assoc])
    · cases w with
      | nil => cases space'
      | cons c w =>
        obtain rfl := Option.some.inj space'
        exact normal.no_double (u := u ++ v') (v := w) (by rw [same]; simp)
  have words' : TokenSpan text (bytes u, bytes u + bytes v) := by
    rw [← bytes_append]
    refine ⟨u, v, w, by rw [same, List.append_assoc], rfl, nonempty, before, ?_, first, last⟩
    rcases after with ⟨rfl, -⟩ | ⟨space, -⟩
    · exact .inl rfl
    · exact .inr space
  have more := bytes_pos nonempty
  rcases after with ⟨-, rfl⟩ | ⟨-, rfl⟩
  · rw [if_neg last]
    exact ⟨words', first, nonempty, fun space => absurd space last⟩
  · have one : bytes [' '] = 1 := rfl
    rw [List.getLast?_concat, if_pos rfl, bytes_append, one, List.head?_append_of_ne_nil _ nonempty]
    exact ⟨words', first, List.append_ne_nil_of_left_ne_nil nonempty _, fun _ => by omega⟩

/-- **A phrase is found on token boundaries** in a normalized text. -/
theorem find_tokenSpan {text : String} {span : Span} (normal : Normal text) (some' : p.text ≠ "")
    (found : p.find text = some span) : TokenSpan text span := by
  obtain ⟨⟨start, m⟩, searched, rfl⟩ := Option.map_eq_some_iff.mp found
  obtain ⟨u, rest, same, rfl, here⟩ := search_taken searched
  rcases matchHere_taken here with ⟨start, body⟩ | ⟨rest', m', rfl, body, rfl⟩
  · obtain ⟨words', first, -, long⟩ := body_span normal some' same body
      (.inl (List.isEmpty_iff.mp (Bool.and_eq_true_iff.mp start).2))
    by_cases space : m.getLast? = some ' '
    · simpa [first, space, long space] using words'
    · simpa [first, space] using words'
  · have same' : text.toList = (u ++ [' ']) ++ rest' := by
      rw [same, List.append_assoc]
      rfl
    obtain ⟨words', -, nonempty, long⟩ := body_span normal some' same' body (.inr List.getLast?_concat)
    have one : bytes [' '] = 1 := rfl
    have whole : bytes (' ' :: m') = 1 + bytes m' := by
      rw [← one, ← bytes_append]
      rfl
    have last : (' ' :: m').getLast? = m'.getLast? := by
      cases m' with
      | nil => exact absurd rfl nonempty
      | cons c m' => rfl
    rw [bytes_append, one, Nat.add_assoc, ← whole] at words'
    dsimp only
    rw [last, whole]
    rw [whole] at words'
    by_cases space : m'.getLast? = some ' '
    · have more : 1 < 1 + bytes m' := by
        have := long space
        omega
      simpa [space, more] using words'
    · simpa [space] using words'

end Phrases

end Callora.Text
