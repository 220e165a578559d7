/-
**Hearing more never un-hears a word, but for sounds cut off at the end.**

What was heard is its words (`saidWords`), and two texts with a sentence mark between them are the
words of the one and of the other (`saidWords_append`): what is near a word, or near a stretch of
the speech, stays near (`nearHeard_mono`). The sounds are those of the one and of the other too, but
a window of them is cut off where they end: a name whose last consonant was not heard before the end
sounds like the shorter window (`SaidShort`), and no longer when more follows. Nothing else is lost
(`soundsSaid_cases`, `unheardWords_append_iff`).
-/
import Callora.Business.Distance
import Callora.Text.Spans

set_option linter.unusedSectionVars false

namespace Callora

open Callora.Text

section Marks

variable [Unicode]

/-- What `norm` writes for a character: the letter folded, or a space for what stands between words. -/
def mark (c : Char) : Option Char :=
  let c := foldFinal c
  if isAlphanumeric c then some c
  else if isWhitespace c || c == '-' || c == Char.ofNat 0x05BE || c == ',' then some ' ' else none

variable {cs : List Char} {blank : Bool}

theorem space_not_alphanumeric : isAlphanumeric ' ' = false := rfl

/-- One character of `norm`. -/
theorem normLoop_cons (c : Char) (cs : List Char) (blank : Bool) : normLoop (c :: cs) blank =
    match mark c with
    | some l =>
    if l = ' ' then (if blank then normLoop cs blank else ' ' :: normLoop cs true)
    else l :: normLoop cs false
    | none => normLoop cs blank := by
  rw [normLoop, mark]
  by_cases letter : isAlphanumeric (foldFinal c) = true
  · have other : foldFinal c ≠ ' ' := fun same => by
      rw [same, space_not_alphanumeric] at letter
      cases letter
    simp only [letter, if_true, if_neg other]
  · by_cases between :
      (isWhitespace (foldFinal c) || foldFinal c == '-' || foldFinal c == Char.ofNat 0x05BE ||
        foldFinal c == ',') = true
    · cases blank <;> simp [letter, between]
    · cases blank <;> simp [letter, between]

/-- **Single spaces part the same words**: with nothing of a word written after a space, the pieces of the
loop's text are those of all the marks. -/
theorem normLoop_pieces (cs acc : List Char) (fresh : blank = true → acc = []) :
    (splitChars (· == ' ') (normLoop cs blank) acc).filter (fun w => !w.isEmpty) =
      (splitChars (· == ' ') (cs.filterMap mark) acc).filter fun w => !w.isEmpty := by
  induction cs generalizing blank acc with
  | nil => rfl
  | cons c cs ih =>
    rw [normLoop_cons]
    cases seen : mark c with
    | none =>
      rw [List.filterMap_cons_none seen]
      exact ih acc fresh
    | some l =>
      rw [List.filterMap_cons_some seen]
      dsimp only
      by_cases space : l = ' '
      · subst space
        have ends : ∀ ds, splitChars (· == ' ') (' ' :: ds) acc =
          acc.reverse :: splitChars (· == ' ') ds [] := fun ds => by
          rw [splitChars, if_pos (by rfl)]
        rw [if_pos rfl, ends]
        cases blank with
        | true =>
          obtain rfl := fresh rfl
          exact ih [] fun _ => rfl
        | false =>
          rw [if_neg (by simp), ends, List.filter_cons, List.filter_cons, ih [] fun _ => rfl]
      · have own : ¬(l == ' ') = true := by simpa using space
        rw [if_neg space, splitChars, if_neg own, splitChars, if_neg own]
        exact ih (l :: acc) (by simp)

/-- The loop writes no white space but spaces. -/
theorem normLoop_spaces (blanks : ∀ c, isWhitespace c = true → isAlphanumeric c = false)
    (cs : List Char) (blank : Bool) :
    ∀ c ∈ normLoop cs blank, isWhitespace c = (c == ' ') := by
  induction cs generalizing blank with
  | nil => simp [normLoop]
  | cons c cs ih =>
    rw [normLoop]
    split
    · next letter =>
      refine List.forall_mem_cons.mpr ⟨?_, ih false⟩
      have other : (foldFinal c == ' ') = false := beq_eq_false_iff_ne.mpr fun same => by
        rw [same, space_not_alphanumeric] at letter
        cases letter
      rw [other]
      refine Bool.eq_false_iff.mpr fun white => ?_
      rw [blanks _ white] at letter
      cases letter
    · split
      · exact List.forall_mem_cons.mpr ⟨rfl, ih true⟩
      · exact ih blank

theorem trimEnd_spaces {s : String} (spaces : ∀ c ∈ s.toList, isWhitespace c = (c == ' ')) :
    (trimEnd s).toList = s.toList.rdropWhile (· == ' ') := by
  have alike : ∀ cs : List Char, (∀ c ∈ cs, isWhitespace c = (c == ' ')) →
      cs.dropWhile isWhitespace = cs.dropWhile (· == ' ') := by
    intro cs same
    induction cs with
    | nil => rfl
    | cons c cs ih =>
      obtain ⟨own, rest⟩ := List.forall_mem_cons.mp same
      rw [List.dropWhile_cons, List.dropWhile_cons, own, ih rest]
  rw [trimEnd, trimEndMatches, String.toList_ofList, List.rdropWhile,
    alike _ fun c listed => spaces c (List.mem_reverse.mp listed)]

/-- **The words of a name** are what stands between its spaces. -/
theorem words_norm (blanks : ∀ c, isWhitespace c = true → isAlphanumeric c = false) (s : String) :
    words (norm s) = ((splitChars (· == ' ') (s.toList.filterMap mark) []).filter fun w => !w.isEmpty).map
      String.ofList := by
  have spaces := normLoop_spaces blanks s.toList true
  rw [words, norm, trimEnd_spaces (by rwa [String.toList_ofList]), splitChars_rdropWhile,
    String.toList_ofList,
    normLoop_pieces _ [] fun _ => rfl]

/-- A text without its spaces is its words. -/
theorem flatMap_words (s : String) : (words s).flatMap String.toList = s.toList.filter (· != ' ') := by
  have pieces : ∀ cs acc : List Char, (((splitChars (· == ' ') cs acc).filter fun w => !w.isEmpty).map
      String.ofList).flatMap String.toList = acc.reverse ++ cs.filter (· != ' ') := by
    intro cs
    induction cs with
    | nil =>
      intro acc
      by_cases none' : acc = [] <;> simp [splitChars, none']
    | cons c cs ih =>
      intro acc
      by_cases space : c = ' '
      · have rest := ih []
        rw [List.reverse_nil, List.nil_append] at rest
        rw [splitChars, if_pos (by simpa using space)]
        by_cases none' : acc = []
        · simpa [none', space] using rest
        · simpa [none', space] using rest
      · rw [splitChars, if_neg (by simpa using space), ih]
        simp [space]
  rw [words, pieces, List.reverse_nil, List.nil_append]

end Marks

section Heard

variable [Unicode] {h h1 h2 v : String}

/-- A text in which no Latin letter stands. -/
def NoLatin (h : String) : Prop := ∀ c ∈ h.toList, c.isAlpha = false

/-- The words of what was heard, as a place is compared with them. -/
def saidWords (h : String) : List String := words (norm (h ++ " " ++ hebrewLetters h))

theorem NoLatin.append (first : NoLatin h1) (second : NoLatin h2) : NoLatin (h1 ++ ". " ++ h2) := by
  intro c listed
  rw [String.toList_append, String.toList_append, List.mem_append, List.mem_append] at listed
  rcases listed with (listed | mark) | listed
  · exact first c listed
  · rcases List.mem_cons.mp mark with rfl | mark
    · rfl
    · rw [List.mem_singleton.mp mark]
      rfl
  · exact second c listed

/-- Without Latin letters there is nothing to write in Hebrew ones. -/
theorem NoLatin.hebrewLetters (none' : NoLatin h) : hebrewLetters h = "" := by
  have pieces : ∀ cs : List Char, (∀ c ∈ cs, c.isAlpha = false) →
      ∀ w ∈ splitChars (fun c => !c.isAlpha) cs [], w = [] := by
    intro cs
    induction cs with
    | nil => simp [splitChars]
    | cons c cs ih =>
      intro none'
      obtain ⟨own, rest⟩ := List.forall_mem_cons.mp none'
      rw [splitChars, if_pos (by simp [own])]
      exact List.forall_mem_cons.mpr ⟨rfl, ih rest⟩
  have long : ((split (fun c => !c.isAlpha) h).filter fun w => decide (2 ≤ w.length)) = [] := by
    refine List.filter_eq_nil_iff.mpr fun w listed => ?_
    obtain ⟨piece, held, rfl⟩ := List.mem_map.mp listed
    rw [pieces _ none' piece held]
    decide
  rw [Callora.hebrewLetters, long]
  rfl

/-- **What was heard is the words of the one text and of the other.** -/
theorem saidWords_append (blanks : ∀ c, isWhitespace c = true → isAlphanumeric c = false)
    (first : NoLatin h1)
    (second : NoLatin h2) : saidWords (h1 ++ ". " ++ h2) = saidWords h1 ++ saidWords h2 := by
  have said : ∀ {h}, NoLatin h → saidWords h =
      ((splitChars (· == ' ') (h.toList.filterMap mark) []).filter fun w => !w.isEmpty).map
        String.ofList := by
    intro h none'
    have spaced' : (h ++ " " ++ "").toList.filterMap mark = h.toList.filterMap mark ++ ' ' :: [] := by
      simp only [String.toList_append, List.filterMap_append, List.append_assoc]
      rfl
    rw [saidWords, none'.hebrewLetters, words_norm blanks, spaced', splitChars_append _ _ _ (by rfl),
      List.filter_append]
    simp [splitChars]
  have both : (h1 ++ ". " ++ h2).toList.filterMap mark =
      h1.toList.filterMap mark ++ ' ' :: h2.toList.filterMap mark := by
    simp only [String.toList_append, List.filterMap_append, List.append_assoc]
    rfl
  rw [said (first.append second), said first, said second, both, splitChars_append _ _ _ (by rfl),
    List.filter_append, List.map_append]

end Heard

section Picked

variable {α : Type} {p q : ℕ → α → Bool} {ws : List α} {w : α}

/-- The elements that are picked, each by its place and what it is. -/
def picked (p : ℕ → α → Bool) (ws : List α) : List α :=
  (ws.mapIdx fun i w => if p i w then [w] else []).flatten

theorem picked_cons (p : ℕ → α → Bool) (w : α) (ws : List α) :
    picked p (w :: ws) = (if p 0 w then [w] else []) ++ picked (fun i => p (i + 1)) ws := by
  rw [picked, List.mapIdx_cons, List.flatten_cons, picked]

theorem picked_sublist (le : ∀ i w, ws[i]? = some w → p i w = true → q i w = true) :
    (picked p ws).Sublist (picked q ws) := by
  induction ws generalizing p q with
  | nil => exact List.Sublist.refl _
  | cons w ws ih =>
    rw [picked_cons, picked_cons]
    refine List.Sublist.append ?_ (ih fun i w' held => le (i + 1) w' held)
    by_cases own : p 0 w = true
    · rw [if_pos own, if_pos (le 0 w rfl own)]
    · rw [if_neg own]
      exact List.nil_sublist _

theorem mem_picked : w ∈ picked p ws ↔ ∃ i, ws[i]? = some w ∧ p i w = true := by
  simp only [picked, List.mem_flatten, List.mem_mapIdx]
  constructor
  · rintro ⟨_, ⟨i, within, rfl⟩, listed⟩
    split at listed
    · next own =>
      obtain rfl := List.mem_singleton.mp listed
      exact ⟨i, List.getElem?_eq_getElem within, own⟩
    · cases listed
  · rintro ⟨i, held, own⟩
    obtain ⟨within, rfl⟩ := List.getElem?_eq_some_iff.mp held
    exact ⟨_, ⟨i, within, rfl⟩, by simp [own]⟩

/-- Of different elements, no more are picked only where each was picked before. -/
theorem picked_of_sublist (nodup : ws.Nodup) (sub : (picked p ws).Sublist (picked q ws)) {i : ℕ}
    (held : ws[i]? = some w) (own : p i w = true) : q i w = true := by
  obtain ⟨j, held', own'⟩ := mem_picked.mp (sub.subset (mem_picked.mpr ⟨i, held, own⟩))
  obtain ⟨within, same⟩ := List.getElem?_eq_some_iff.mp held
  obtain ⟨within', same'⟩ := List.getElem?_eq_some_iff.mp held'
  obtain rfl : i = j := nodup.getElem_inj_iff.mp (same.trans same'.symm)
  exact own'

end Picked

section Near

variable {heardWords : List String} {w : String}

/-- **What was near stays near.** -/
theorem nearHeard_mono (near : nearHeard heardWords (heardWords.flatMap String.toList) w = true)
    (more : List String) :
    nearHeard (heardWords ++ more) ((heardWords ++ more).flatMap String.toList) w = true := by
  rw [nearHeard_iff] at near ⊢
  rcases near with ⟨h, listed, close⟩ | ⟨piece, long, short, within, close⟩
  · exact .inl ⟨h, List.mem_append_left _ listed, close⟩
  · refine .inr ⟨piece, long, short, within.trans ?_, close⟩
    rw [List.flatMap_append]
    exact (List.prefix_append _ _).isInfix

end Near

section Sounds

variable {name : String} {sounds later : List Char} {starts others : List ℕ}

/-- The sounds of more words follow those heard. -/
theorem soundsHeard_append (ws vs : List String) : ∃ later others,
    soundsHeard (ws ++ vs) = ((soundsHeard ws).1 ++ later, (soundsHeard ws).2 ++ others) := by
  induction vs using List.reverseRecOn with
  | nil => exact ⟨[], [], by simp⟩
  | append_singleton vs v ih =>
    obtain ⟨later, others, same⟩ := ih
    rw [← List.append_assoc, soundsHeard, List.foldl_concat, ← soundsHeard, same]
    dsimp only
    split
    · exact ⟨later, others, rfl⟩
    · exact ⟨_, _, by rw [List.append_assoc, List.append_assoc, List.append_assoc]⟩

/-- A name whose sounds are those up to the end, from the start of a word, but for one that is missing. -/
def ShortOf (sounds : List Char) (starts : List ℕ) (name : String) : Prop :=
  4 ≤ (sound name).length ∧ ∃ start ∈ starts, start + (sound name).length = sounds.length + 1 ∧
    Reaches 1 (sound name) (String.ofList (sounds.drop start))

/-- Such a name sounds like what was heard. -/
theorem ShortOf.soundsLike (short : ShortOf sounds starts name) :
    soundsLike sounds starts name = true := by
  obtain ⟨long, start, listed, end', close⟩ := short
  refine soundsLike_iff.mpr ⟨long, start, listed, _, .inl rfl, ?_⟩
  rwa [List.take_of_length_le]
  rw [List.length_drop]
  omega

/-- **A name that sounds like what was heard sounds like what was heard with more, or it is short of
its last sound.** -/
theorem soundsLike_cases (like : soundsLike sounds starts name = true) (later : List Char)
    (others : List ℕ) :
    ShortOf sounds starts name ∨ soundsLike (sounds ++ later) (starts ++ others) name = true := by
  obtain ⟨long, start, listed, size, sizes, close⟩ := soundsLike_iff.mp like
  have length := length_le_distance (String.ofList ((sounds.drop start).take size)) (sound name)
  have one : distance (String.ofList ((sounds.drop start).take size)) (sound name) ≤ 1 :=
    distance_le_iff.mpr close.symm
  rw [String.length_ofList, List.length_take, List.length_drop] at length
  have among := List.mem_append_left others listed
  have window : ∀ size, start + size ≤ sounds.length →
      ((sounds ++ later).drop start).take size = (sounds.drop start).take size := by
    intro size inside
    rw [List.drop_append_of_le_length (by omega),
      List.take_append_of_le_length (by rw [List.length_drop]; omega)]
  by_cases inside : start + size ≤ sounds.length
  · right
    exact soundsLike_iff.mpr ⟨long, start, among, size, sizes, by rwa [window size inside]⟩
  · have all : (sounds.drop start).take size = sounds.drop start :=
      List.take_of_length_le (by rw [List.length_drop]; omega)
    rw [all] at close
    -- the window is cut off: what is left of it has the length of the name, or one less
    by_cases exact' : start + (sound name).length = sounds.length
    · right
      refine soundsLike_iff.mpr ⟨long, start, among, _, .inl rfl, ?_⟩
      rw [window _ (by omega)]
      rwa [List.take_of_length_le (by rw [List.length_drop]; omega)]
    · exact .inl ⟨long, start, listed, by omega, close⟩

end Sounds

section Unheard

variable [Unicode] {v h h1 h2 : String} {i : ℕ}

/-- Whether a word of a place is near what was heard, with its first letter or without. -/
def saidNear (h w : String) : Bool :=
  let near := nearHeard (saidWords h) ((norm (h ++ " " ++ hebrewLetters h)).toList.filter (· != ' '))
  near w || (stripLetter w).any near

/-- The names a word of a place is part of: with the next word, with the one before, with both. -/
def namesAt (v : String) (i : ℕ) : List String :=
  let ws := namingWords v
  let stretch (first last : ℕ) := join "" ((ws.drop first).take (last + 1 - first))
  let last := min (i + 1) (ws.length - 1)
  [stretch i last, stretch (i - 1) i, stretch (i - 1) last]

/-- A word of a place that is near nothing heard. -/
def Missed (v h : String) (i : ℕ) : Prop := ∃ w, (namingWords v)[i]? = some w ∧ saidNear h w = false

/-- A word whose name, with the words beside it, sounds like what was heard. -/
def SoundsSaid (v h : String) (i : ℕ) : Prop :=
  ∃ name ∈ namesAt v i, soundsLike (soundsHeard (saidWords h)).1 (soundsHeard (saidWords h)).2 name = true

/-- A word whose name sounds like what was heard up to the end, short of one sound. -/
def SaidShort (v h : String) (i : ℕ) : Prop :=
  ∃ name ∈ namesAt v i, ShortOf (soundsHeard (saidWords h)).1 (soundsHeard (saidWords h)).2 name

/-- A word of a place that nobody said. -/
def Unheard (v h : String) (i : ℕ) : Prop := Missed v h i ∧ ¬SoundsSaid v h i

/-- The rule of `unheard_words` for one word. -/
def unheardAt (v h : String) (i : ℕ) (w : String) : Bool :=
  !saidNear h w &&
    !(namesAt v i).any (soundsLike (soundsHeard (saidWords h)).1 (soundsHeard (saidWords h)).2)

attribute [local irreducible] soundsHeard in
theorem unheardWords_eq (v h : String) : unheardWords v h = picked (unheardAt v h) (namingWords v) := by
  unfold unheardWords picked unheardAt saidNear saidWords
  refine congrArg List.flatten (List.mapIdx_eq_mapIdx_iff.mpr fun i within => ?_)
  dsimp only
  rw [List.getD_eq_getElem?_getD, List.getElem?_map, List.getElem?_eq_getElem within]
  simp [namesAt, Bool.or_assoc]

theorem unheard_iff : Unheard v h i ↔ ∃ w, (namingWords v)[i]? = some w ∧ unheardAt v h i w = true := by
  simp only [Unheard, Missed, SoundsSaid, unheardAt, Bool.and_eq_true, Bool.not_eq_true',
    List.any_eq_false,
    Bool.not_eq_true, not_exists, not_and]
  constructor
  · rintro ⟨⟨w, held, far⟩, silent⟩
    exact ⟨w, held, far, silent⟩
  · rintro ⟨w, held, far, silent⟩
    exact ⟨⟨w, held, far⟩, silent⟩

theorem SaidShort.soundsSaid (short : SaidShort v h i) : SoundsSaid v h i := by
  obtain ⟨name, listed, short⟩ := short
  exact ⟨name, listed, short.soundsLike⟩

/-- **What was missed in more was missed in less.** -/
theorem Missed.less (blanks : ∀ c, isWhitespace c = true → isAlphanumeric c = false) (first : NoLatin h1)
    (second : NoLatin h2) (missed : Missed v (h1 ++ ". " ++ h2) i) : Missed v h1 i := by
  obtain ⟨w, held, far⟩ := missed
  refine ⟨w, held, Bool.eq_false_iff.mpr fun said => ?_⟩
  have mono : ∀ w,
    nearHeard (saidWords h1) ((norm (h1 ++ " " ++ hebrewLetters h1)).toList.filter (· != ' ')) w = true →
      nearHeard (saidWords (h1 ++ ". " ++ h2))
        ((norm (h1 ++ ". " ++ h2 ++ " " ++ hebrewLetters (h1 ++ ". " ++ h2))).toList.filter
          (· != ' ')) w = true := by
    intro w close
    rw [← flatMap_words, ← saidWords] at close ⊢
    rw [saidWords_append blanks first second]
    exact nearHeard_mono close _
  refine Bool.eq_false_iff.mp far ?_
  simp only [saidNear, Bool.or_eq_true, Option.any_eq_true] at said ⊢
  exact said.imp (mono w) fun ⟨rest, here, close⟩ => ⟨rest, here, mono rest close⟩

/-- **A name that sounded said sounds said in more**, but for one that was short of its last sound. -/
theorem soundsSaid_cases (blanks : ∀ c, isWhitespace c = true → isAlphanumeric c = false)
    (first : NoLatin h1)
    (second : NoLatin h2) (said : SoundsSaid v h1 i) :
    SaidShort v h1 i ∨ SoundsSaid v (h1 ++ ". " ++ h2) i := by
  obtain ⟨name, listed, like⟩ := said
  obtain ⟨later, others, more⟩ := soundsHeard_append (saidWords h1) (saidWords h2)
  refine (soundsLike_cases like later others).imp (fun short => ⟨name, listed, short⟩) fun like =>
    ⟨name, listed, ?_⟩
  rw [saidWords_append blanks first second, more]
  exact like

/-- **When no word becomes unheard**: none hangs on a name that was short of its last sound, and is
not said with what follows. -/
theorem unheard_append_iff (blanks : ∀ c, isWhitespace c = true → isAlphanumeric c = false)
    (first : NoLatin h1)
    (second : NoLatin h2) : (∀ i, Unheard v (h1 ++ ". " ++ h2) i → Unheard v h1 i) ↔
      ∀ i, Missed v (h1 ++ ". " ++ h2) i → SaidShort v h1 i → SoundsSaid v (h1 ++ ". " ++ h2) i := by
  constructor
  · intro less i missed short
    by_contra silent
    exact (less i ⟨missed, silent⟩).2 short.soundsSaid
  · rintro safe i ⟨missed, silent⟩
    refine ⟨missed.less blanks first second, fun said => ?_⟩
    rcases soundsSaid_cases blanks first second said with short | more
    · exact silent (safe i missed short)
    · exact silent more

/-- **Hearing more un-hears a word exactly when its name was short of its last sound**: no word of
the place is unheard at a place where it was not, if and only if none that is missed in all of the
speech was said in the first of it short of one sound, and is not said in all of it. Then the words
unheard are a sub-list of those before, and for a place whose words differ only then. -/
theorem unheardWords_append_iff (blanks : ∀ c, isWhitespace c = true → isAlphanumeric c = false)
    (v h1 h2 : String)
    (first : NoLatin h1) (second : NoLatin h2) :
    let more := h1 ++ ". " ++ h2
    let Safe := ∀ i, Missed v more i → SaidShort v h1 i → SoundsSaid v more i
    ((∀ i, Unheard v more i → Unheard v h1 i) ↔ Safe) ∧
      (Safe → (unheardWords v more).Sublist (unheardWords v h1)) ∧
      ((namingWords v).Nodup → ((unheardWords v more).Sublist (unheardWords v h1) ↔ Safe)) := by
  intro more Safe
  have places := unheard_append_iff (v := v) blanks first second
  have sub : Safe → (unheardWords v more).Sublist (unheardWords v h1) := by
    intro safe
    rw [unheardWords_eq, unheardWords_eq]
    refine picked_sublist fun i w held own => ?_
    obtain ⟨w', held', own'⟩ := unheard_iff.mp (places.mpr safe i (unheard_iff.mpr ⟨w, held, own⟩))
    obtain rfl := Option.some.inj (held.symm.trans held')
    exact own'
  refine ⟨places, sub, fun nodup => ⟨fun less => places.mp fun i unheard => ?_, sub⟩⟩
  rw [unheardWords_eq, unheardWords_eq] at less
  obtain ⟨w, held, own⟩ := unheard_iff.mp unheard
  exact unheard_iff.mpr ⟨w, held, picked_of_sublist nodup less held own⟩

end Unheard

section Runs

attribute [local instance] Unicode.plain

theorem noLatin_iff {h : String} : NoLatin h ↔ h.toList.all (fun c => !c.isAlpha) = true := by
  simp [NoLatin, List.all_eq_true]

theorem street_still_said :
    (unheardWords "דיזנגוף" ("דיזנגוף" ++ ". " ++ "כן")).Sublist (unheardWords "דיזנגוף" "דיזנגוף") := by
  refine (unheardWords_append_iff plain_blanks "דיזנגוף" "דיזנגוף" "כן" (noLatin_iff.mpr (by decide))
    (noLatin_iff.mpr (by decide))).2.1 fun i missed => ?_
  obtain ⟨w, held, far⟩ := missed
  have near : ∀ w ∈ namingWords "דיזנגוף", saidNear ("דיזנגוף" ++ ". " ++ "כן") w = true := by
    decide +kernel
  rw [near w (List.mem_of_getElem? held)] at far
  cases far

/-- A street said short of its last sound, and then a yes. -/
theorem yes_unhears_street : ¬∀ v h1 h2 : String, NoLatin h1 → NoLatin h2 →
    (unheardWords v (h1 ++ ". " ++ h2)).Sublist (unheardWords v h1) := by
  intro all
  have less :=
    all "דיזנגוף" "די זה הגופה" "כן" (noLatin_iff.mpr (by decide)) (noLatin_iff.mpr (by decide))
  revert less
  decide +kernel

end Runs

end Callora
