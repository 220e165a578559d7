/-
**The words of a text, and how they are read.**

`keptWords` are what the words of a text keep of their characters. Whether two texts with the same
words are read alike depends on the digits: a text without any is read as it is written
(`same_words`), and the digits of any other text can be set apart by signs, so that each of them is
said for itself, as a number or as a percentage (`sayAll_apart`, `sayAll_percents`). The two have
the words of the text, and are not read alike; so one of them is not read as the text is
(`misread`).
-/
import Callora.Text.Recasts

set_option linter.unusedSectionVars false

namespace Callora.Text

open Regex

section Keeping

variable {keep less : Char → Bool}

/-- The words of a text, with the characters that are kept; words of which nothing is left are dropped. -/
def keptWords (keep : Char → Bool) (text : String) : List String :=
  ((splitWhitespace text).map fun w => String.ofList (w.toList.filter keep)).filter fun w => !w.isEmpty

/-- What is not kept does not separate. -/
theorem splitChars_filter (sep : Char → Bool) (cs acc : List Char) :
    (splitChars sep cs acc).map (List.filter keep) =
      splitChars sep (cs.filter fun c => sep c || keep c) (acc.filter keep) := by
  induction cs generalizing acc with
  | nil => simp [splitChars, List.filter_reverse]
  | cons c cs ih =>
    by_cases ends : sep c = true
    · rw [List.filter_cons_of_pos (by simp [ends]), splitChars, if_pos ends, splitChars,
        if_pos ends, List.map_cons, ih,
        List.filter_reverse]
      rfl
    · by_cases own : keep c = true
      · rw [List.filter_cons_of_pos (by simp [own]), splitChars, if_neg ends, splitChars, if_neg ends, ih,
          List.filter_cons_of_pos own]
      · rw [List.filter_cons_of_neg (by simp [ends, own]), splitChars, if_neg ends, ih,
          List.filter_cons_of_neg own]

/-- The words are the pieces of what is kept. -/
theorem keptWords_pieces (text : String) : keptWords keep text =
    ((splitChars isWhitespace (text.toList.filter fun c => isWhitespace c || keep c) []).filter
      fun w => !w.isEmpty).map String.ofList := by
  rw [keptWords, splitWhitespace_map (by rfl), splitChars_filter]
  rfl

/-- Texts with the same words keep the same of them when less is kept. -/
theorem keptWords_less (within : ∀ c, less c = true → keep c = true) {s t : String}
    (same : keptWords keep s = keptWords keep t) : keptWords less s = keptWords less t := by
  have again : ∀ text, keptWords less text =
      ((keptWords keep text).map fun w => String.ofList (w.toList.filter less)).filter fun w =>
        !w.isEmpty := by
    intro text
    have both : ∀ w : String, (w.toList.filter keep).filter less = w.toList.filter less := by
      intro w
      rw [List.filter_filter]
      refine List.filter_congr fun c _ => ?_
      cases own : less c with
      | false => rfl
      | true => rw [within c own]; rfl
    unfold keptWords
    generalize splitWhitespace text = ws
    induction ws with
    | nil => rfl
    | cons w ws ih =>
      by_cases nothing : w.toList.filter keep = []
      · have none' : w.toList.filter less = [] := by rw [← both, nothing]; rfl
        simpa [nothing, none'] using ih
      · by_cases none' : w.toList.filter less = []
        · simpa [nothing, none', both, String.isEmpty_iff] using ih
        · simpa [nothing, none', both, String.isEmpty_iff] using ih
  rw [again, again, same]

/-- The characters of the words. -/
theorem keptWords_letters (text : String) : (keptWords keep text).flatMap String.toList =
    text.toList.filter fun c => !isWhitespace c && keep c := by
  have flat : ∀ pieces : List (List Char),
    ((pieces.filter fun w => !w.isEmpty).map String.ofList).flatMap String.toList =
      pieces.flatten := by
    intro pieces
    induction pieces with
    | nil => rfl
    | cons piece pieces ih =>
      cases piece with
      | nil => exact ih
      | cons c piece =>
        rw [List.filter_cons_of_pos (by rfl), List.map_cons, List.flatMap_cons, ih, String.toList_ofList]
        rfl
  have letters : ∀ cs acc : List Char, (splitChars isWhitespace cs acc).flatten =
      acc.reverse ++ cs.filter fun c => !isWhitespace c := by
    intro cs
    induction cs with
    | nil => intro acc; simp [splitChars]
    | cons c cs ih =>
      intro acc
      by_cases space : isWhitespace c = true
      · rw [splitChars, if_pos space, List.flatten_cons, ih, List.filter_cons_of_neg (by simp [space])]
        rfl
      · rw [splitChars, if_neg space, ih, List.filter_cons_of_pos (by simpa using space),
          List.reverse_cons,
          List.append_assoc]
        rfl
  rw [keptWords_pieces, flat, letters, List.filter_filter]
  refine List.filter_congr fun c _ => ?_
  cases isWhitespace c <;> simp

/-- A word is not empty, and all of it is kept. -/
theorem keptWords_mem {text w : String} (listed : w ∈ keptWords keep text) :
    w.toList ≠ [] ∧ ∀ c ∈ w.toList, keep c = true := by
  obtain ⟨held, some'⟩ := List.mem_filter.mp listed
  obtain ⟨word, -, rfl⟩ := List.mem_map.mp held
  refine ⟨fun nothing => ?_, fun c own => ?_⟩
  · rw [String.toList_inj.mp (nothing.trans String.toList_empty.symm)] at some'
    cases some'
  · rw [String.toList_ofList] at own
    exact (List.mem_filter.mp own).2

end Keeping

section Tidy

variable {keep : Char → Bool}

/-- Collapsed white space separates the same words. -/
theorem splitChars_spaces (cs : List Char) (prev : Option Char) (acc : List Char) :
    (splitChars isWhitespace (Re.replaceFrom spaces (fun _ => [' ']) prev 0 cs) acc).filter
    (fun w => !w.isEmpty) =
      (splitChars isWhitespace cs acc).filter fun w => !w.isEmpty := by
  refine replace_rec (P := fun _ cs out => ∀ acc,
    (splitChars isWhitespace out acc).filter (fun w => !w.isEmpty) =
    (splitChars isWhitespace cs acc).filter fun w => !w.isEmpty) (fun _ _ => rfl) ?_ ?_ prev cs acc
  · intro prev c cs out none' ih acc
    have letter : ¬isWhitespace c = true := by
      intro space
      have head : (spaces.run prev (c :: cs)).head? = _ := plus_head space
      rw [Re.first, head] at none'
      cases none'
    rw [splitChars, if_neg letter, splitChars, if_neg letter, ih]
  · intro prev cs m out found ih acc
    obtain ⟨c, rest, rfl, own, rfl⟩ := spaces_first found
    have blank : isWhitespace ' ' = true := rfl
    rw [List.singleton_append, splitChars, if_pos blank, splitChars, if_pos own, List.filter_cons,
      List.filter_cons,
      ih, splitChars_dropWhile]

/-- Tidying keeps the words. -/
theorem keptWords_tidy (cs : List Char) : keptWords keep (String.ofList (tidy cs)) = keptWords keep
    (String.ofList cs) := by
  have same : splitWhitespace (String.ofList (tidy cs)) = splitWhitespace (String.ofList cs) := by
    rw [← splitWhitespace_trim (String.ofList cs), splitWhitespace, splitWhitespace, tidy,
      String.toList_ofList,
      Re.replaceAll, splitChars_spaces]
  rw [keptWords, keptWords, same]

end Tidy

section Reading

variable [Unicode] [RegexTables] {s t : String}

/-- A letter, a digit or an apostrophe. -/
def isLoose (c : Char) : Bool := isAlphanumeric c || "'".toList.contains c

/-- The words that are compared when punctuation and spacing do not count. -/
def looseWords (text : String) : List String := keptWords isLoose text

/-- The letters and digits of a text, word by word. -/
def letterWords (text : String) : List String := keptWords isAlphanumeric text

theorem letterWords_loose (same : looseWords s = looseWords t) : letterWords s = letterWords t :=
  keptWords_less (fun c own => by simp [isLoose, own]) same

/-- A text without digits is read as it is written. -/
theorem letterWords_clean (clean : ∀ c ∈ t.toList, isDecimal c = false) :
    letterWords (normalizeHebrew t) = letterWords t := by
  rw [normalizeHebrew, sayAll_id clean, letterWords, keptWords_tidy, String.ofList_toList]
  rfl

/-- The digits of a text are among its words. -/
theorem loose_clean (numerals : ∀ c, isDecimal c = true → isAlphanumeric c = true)
    (same : looseWords s = looseWords t)
    (clean : ∀ c ∈ t.toList, isDecimal c = false) : ∀ c ∈ s.toList, isDecimal c = false := by
  intro c listed
  by_contra own
  rw [Bool.not_eq_false] at own
  have solid : isWhitespace c = false := by
    by_contra space
    rw [isDecimal_space (by simpa using space)] at own
    cases own
  have letters := congrArg (List.flatMap String.toList) same
  rw [looseWords, looseWords, keptWords_letters, keptWords_letters] at letters
  have held : c ∈ s.toList.filter fun c => !isWhitespace c && isLoose c :=
    List.mem_filter.mpr ⟨listed, by simp [isLoose, solid, numerals c own]⟩
  rw [letters] at held
  rw [clean c (List.mem_filter.mp held).1] at own
  cases own

/-- **Texts without digits that have the same words are read alike.** -/
theorem same_words (numerals : ∀ c, isDecimal c = true → isAlphanumeric c = true)
    (same : looseWords s = looseWords t)
    (clean : ∀ c ∈ t.toList, isDecimal c = false) :
    letterWords (normalizeHebrew s) = letterWords (normalizeHebrew t) := by
  rw [letterWords_clean clean, letterWords_clean (loose_clean numerals same clean),
    letterWords_loose same]

end Reading

section Apart

variable [RegexTables] {sign : Char} {cs : List Char}

/-- A text with signs around each of its digits. -/
def setApart (sign : Char) (cs : List Char) : List Char :=
  cs.flatMap fun c => if isDecimal c then [sign, c, sign] else [c]

theorem setApart_cons (c : Char) (cs : List Char) :
    setApart sign (c :: cs) = (if isDecimal c then [sign, c, sign] else [c]) ++ setApart sign cs := rfl

theorem setApart_lone (other : isDecimal sign = false) (cs : List Char) :
    Lone isDecimal sign (setApart sign cs) := by
  have first : ∀ cs, ∀ c ∈ (setApart sign cs).head?, isDecimal c = false := by
    intro cs c listed
    cases cs with
    | nil => cases listed
    | cons d cs =>
      rw [setApart_cons] at listed
      split at listed
      · obtain rfl := Option.some.inj listed
        exact other
      · next none' =>
        obtain rfl := Option.some.inj listed
        simpa using none'
  induction cs with
  | nil => exact .nil
  | cons c cs ih =>
    rw [setApart_cons]
    refine List.isChain_append.mpr ⟨?_, ih, fun a last b head => ⟨fun own => ?_, fun own => ?_⟩⟩
    · split
      · exact .cons_cons ⟨by simp [other], fun _ => rfl⟩
          (.cons_cons ⟨fun _ => rfl, by simp [other]⟩ (.singleton _))
      · exact .singleton c
    · have none' : isDecimal a = false := by
        split at last
        · have same : some sign = some a := last
          rwa [← Option.some.inj same]
        · next none' =>
          have same : some c = some a := last
          rw [← Option.some.inj same]
          simpa using none'
      rw [none'] at own
      cases own
    · rw [first cs b head] at own
      cases own

/-- Signs that are not kept change no word. -/
theorem setApart_words {keep : Char → Bool} (dropped : keep sign = false)
    (solid : isWhitespace sign = false)
    (cs : List Char) : keptWords keep (String.ofList (setApart sign cs)) = keptWords keep
    (String.ofList cs) := by
  have same : (setApart sign cs).filter (fun c => isWhitespace c || keep c) =
      cs.filter fun c => isWhitespace c || keep c := by
    induction cs with
    | nil => rfl
    | cons c cs ih =>
      have own : (if isDecimal c then [sign, c, sign] else [c]).filter
        (fun c => isWhitespace c || keep c) =
          [c].filter fun c => isWhitespace c || keep c := by
        split
        · simp [List.filter_cons, dropped, solid]
        · rfl
      rw [setApart_cons, List.filter_append, ih, own]
      exact (List.filter_append [c] cs).symm
  rw [keptWords_pieces, keptWords_pieces, String.toList_ofList, String.toList_ofList, same]

end Apart

section Patterns

variable [RegexTables] {sign : Char}

theorem any_digit : Needs (fun _ => true) 1 digit := Needs.chars fun _ _ => rfl

theorem moneyBefore_solid (other : moneyBefore.takes sign = false) :
    Solid isDecimal sign moneyBefore := by
  have two : Needs (fun _ => true) 2 moneyBefore :=
    ((Needs.chars fun _ _ => rfl).seq
      ((Needs.none _).seq (any_digit.rep.group.seq (Needs.none _)))).mono (by decide)
  exact Solid.whole two moneyBefore_needs other

theorem moneyAfter_solid (other : moneyAfter.takes sign = false) : Solid isDecimal sign moneyAfter := by
  have mark : Needs (fun _ => true) 1 shekel :=
    (Needs.chars fun _ _ => rfl).alt ((Needs.lit rfl).alt ((Needs.lit rfl).alt
      (((Needs.lit rfl).seq (Needs.none _)).mono (by decide))))
  have two : Needs (fun _ => true) 2 moneyAfter :=
    (any_digit.rep.group.seq ((Needs.none _).seq ((Needs.none _).seq mark))).mono (by decide)
  exact Solid.whole two moneyAfter_needs other

theorem percent_solid (other : percent.takes sign = false) : Solid isDecimal sign percent := by
  have two : Needs (fun _ => true) 2 percent :=
    (any_digit.rep.group.seq ((Needs.none _).seq (Needs.chars fun _ _ => rfl))).mono (by decide)
  exact Solid.whole two percent_needs other

theorem identifier_solid (other : identifier.takes sign = false) : Solid isDecimal sign identifier := by
  have two : Needs (fun _ => true) 2 identifier :=
    ((Needs.none _).seq (((Needs.none _).seq ((Needs.none _).seq ((Needs.chars fun _ _ => rfl).seq
      (Needs.chars fun _ _ => rfl).rep))).group)).mono (by decide)
  exact Solid.whole two identifier_needs other

theorem phone_solid (other : (Re.alts subscriberNumber [tollFreeNumber]).takes sign = false) :
    Solid isDecimal sign phone := by
  have seven : Needs isDecimal 7 (.alts subscriberNumber [tollFreeNumber]) :=
    (subscriberNumber_needs.mono (by decide)).alt tollFreeNumber_needs
  have whole : Solid isDecimal sign (.alts subscriberNumber [tollFreeNumber]) :=
    Solid.whole ((seven.wider fun _ _ => rfl).mono (by decide)) (seven.mono (by decide)) other
  exact (whole.group.left _).right _

theorem time_solid (other : minuteText.takes sign = false) : Solid isDecimal sign time := by
  have two : Needs isDecimal 2 minuteText := (range_needs (by decide) (by decide)).seq digit_needs
  have minute : Solid isDecimal sign minuteText :=
    Solid.whole (two.wider fun _ _ => rfl) (two.mono (by decide)) other
  exact (((minute.group.left _).right _).right _).right _

theorem date_solid (day : (Re.seqs [.opt (range '0' '3'), digit]).takes sign = false)
    (mark : (oneOf "/.").takes sign = false) : Solid isDecimal sign date := by
  have one : Needs isDecimal 1 (.seqs [.opt (range '0' '3'), digit]) := (Needs.none _).seq digit_needs
  exact (Solid.across one.group (Needs.chars fun _ _ => rfl) day mark _).right _

end Patterns

section Saying

variable [RegexTables] {prev : Option Char} {c : Char} {cs ys : List Char}

theorem percent_first (own : isDecimal c = true) :
    percent.first prev (c :: '%' :: ys) = some ⟨[c, '%'], ys, [(1, [c])]⟩ := by
  have lone : ((Re.rep 1 (some 2) digit : Pat).run prev ([c] ++ '%' :: ys)).head? =
    some ⟨[c], '%' :: ys, []⟩ :=
    rep_block (List.cons_ne_nil _ _) (by simp) (by simpa using own) fun d same => by
      obtain rfl := Option.some.inj same
      rfl
  have none' : ((Re.star space : Pat).run (some c) ([] ++ '%' :: ys)).head? = some ⟨[], '%' :: ys, []⟩ :=
    star_block (fun d absurd' => absurd absurd' List.not_mem_nil) fun d same => by
      obtain rfl := Option.some.inj same
      rfl
  have sign : ((oneOf "%").run (some c) ('%' :: ys)).head? = some ⟨['%'], ys, []⟩ := chars_head rfl
  have after : ((Re.seq (.star space) (oneOf "%")).run (some c) ('%' :: ys)).head? =
    some ⟨['%'], ys, []⟩ :=
    followed_head none' sign
  have head : (percent.run prev (c :: '%' :: ys)).head? = some ⟨[c, '%'], ys, [(1, [c])]⟩ :=
    followed_head (group_head lone) after
  rw [Re.first, head]
  rfl

theorem percent_begins : Begins isDecimal percent := (Begins.chars isDecimal).rep.group.seq _

theorem number_begins : Begins isDecimal number := (Begins.chars isDecimal).rep

/-- A digit with its sign, said. -/
def percentOf (c : Char) : List Char := '%' :: (numberWords (valueOf [c]) .masculine ++ " אחוז").toList

theorem percents_said (cs : List Char) : Re.replaceAll percent sayPercent (setApart '%' cs) =
    cs.flatMap fun c => if isDecimal c then percentOf c else [c] := by
  refine replaceFrom_flatMap fun c _ prev ys => ?_
  by_cases own : isDecimal c = true
  · refine ⟨some '%', ?_⟩
    have sign : percent.replaceFrom sayPercent prev 0 (['%'] ++ c :: '%' :: ys) =
        ['%'] ++ percent.replaceFrom sayPercent (some '%') 0 (c :: '%' :: ys) :=
      replaceFrom_begins percent_begins fun d listed => by
        rw [List.mem_singleton.mp listed]
        rfl
    rw [if_pos own, if_pos own]
    refine sign.trans ?_
    rw [replaceFrom_hit (percent_first own)]
    rfl
  · rw [if_neg own, if_neg own]
    exact ⟨_, replaceFrom_begins percent_begins (by simpa using own)⟩

/-- A digit between two signs, said. -/
def numeralOf (c : Char) : List Char := '|' :: (sayNumber ⟨[c], [], []⟩ ++ ['|'])

theorem numerals_said (cs : List Char) : Re.replaceAll number sayNumber (setApart '|' cs) =
    cs.flatMap fun c => if isDecimal c then numeralOf c else [c] := by
  refine replaceFrom_flatMap fun c _ prev ys => ?_
  have bar : ∀ prev ys, number.replaceFrom sayNumber prev 0 (['|'] ++ ys) =
      ['|'] ++ number.replaceFrom sayNumber (some '|') 0 ys := fun prev ys =>
    replaceFrom_begins number_begins fun d listed => by
      rw [List.mem_singleton.mp listed]
      rfl
  by_cases own : isDecimal c = true
  · have found : number.first (some '|') (c :: '|' :: ys) = some ⟨[c], '|' :: ys, []⟩ := by
      rw [number_first own]
      rfl
    refine ⟨some '|', ?_⟩
    rw [if_pos own, if_pos own]
    have next : number.replaceFrom sayNumber (some c) 0 ('|' :: ys) = _ := bar (some c) ys
    refine (bar prev (c :: '|' :: ys)).trans ?_
    rw [replaceFrom_hit found]
    show ['|'] ++ (sayNumber ⟨[c], [], []⟩ ++ number.replaceFrom sayNumber (some c) 0 ('|' :: ys)) = _
    rw [next]
    simp [numeralOf]
  · rw [if_neg own, if_neg own]
    exact ⟨_, replaceFrom_begins number_begins (by simpa using own)⟩

theorem percentOf_clean (own : isDecimal c = true) : ∀ d ∈ percentOf c, isDecimal d = false := by
  have decimal : ∀ d ∈ [c], isDecimal d = true := by simpa using own
  have few : valueOf [c] ≤ 9999 := by
    unfold valueOf
    cases read : parseI64 (String.ofList [c]) with
    | none => decide
    | some n =>
      have bound := (parseI64_digits decimal read).2
      rw [List.length_singleton] at bound
      show n ≤ 9999
      omega
  have spoken : Spoken (numberWords (valueOf [c]) .masculine ++ " אחוז") :=
    (numberWords_spoken (valueOf_nonneg decimal) few .masculine).append (by decide)
  exact List.forall_mem_cons.mpr ⟨rfl, spoken.noDigits⟩

/-- **Between percent signs every digit is a percentage.** -/
theorem sayAll_percents (cs : List Char) :
    sayAll (setApart '%' cs) = cs.flatMap fun c => if isDecimal c then percentOf c else [c] := by
  have lone : Lone isDecimal '%' (setApart '%' cs) := setApart_lone rfl cs
  have before : Re.replaceAll moneyBefore sayMoney (setApart '%' cs) = setApart '%' cs :=
    replace_lone (moneyBefore_solid rfl) lone
  have after : Re.replaceAll moneyAfter sayMoney (setApart '%' cs) = setApart '%' cs :=
    replace_lone (moneyAfter_solid rfl) lone
  have clean : ∀ d ∈ cs.flatMap fun c => if isDecimal c then percentOf c else [c],
    isDecimal d = false := by
    intro d listed
    obtain ⟨c, -, own⟩ := List.mem_flatMap.mp listed
    split at own
    · next digit' => exact percentOf_clean digit' d own
    · next other =>
      rw [List.mem_singleton.mp own]
      simpa using other
  unfold sayAll
  dsimp only
  rw [before, after, percents_said, replaceAll_clean _ identifier_needs clean,
    replaceAll_clean _ phone_needs clean,
    replaceAll_clean _ time_needs clean, replaceAll_clean _ date_needs clean,
    replaceAll_clean _ number_needs clean]

/-- **Between bars every digit is a number.** -/
theorem sayAll_apart (cs : List Char) :
    sayAll (setApart '|' cs) = cs.flatMap fun c => if isDecimal c then numeralOf c else [c] := by
  have lone : Lone isDecimal '|' (setApart '|' cs) := setApart_lone rfl cs
  have alone : ∀ {r : Pat} (f : Said), Solid isDecimal '|' r →
    Re.replaceAll r f (setApart '|' cs) = setApart '|' cs :=
    fun f solid => replace_lone solid lone
  unfold sayAll
  dsimp only
  rw [alone _ (moneyBefore_solid rfl), alone _ (moneyAfter_solid rfl), alone _ (percent_solid rfl),
    alone _ (identifier_solid rfl), alone _ (phone_solid rfl), alone _ (time_solid rfl),
    alone _ (date_solid rfl rfl),
    numerals_said]

end Saying

section Misreading

variable [RegexTables] {c : Char} {cs : List Char}

/-- The letter of the word for a percentage that is in no number. -/
def isZayin (c : Char) : Bool := c == 'ז'

/-- No digit is said with it. -/
theorem numeralOf_count (own : isDecimal c = true) : (numeralOf c).countP isZayin = 0 := by
  by_cases ascii : isAsciiDigit c = true
  · have listed : ∀ n < 58, 48 ≤ n → (numeralOf (Char.ofNat n)).countP isZayin = 0 := by decide
    simp only [isAsciiDigit, Bool.and_eq_true, decide_eq_true_eq] at ascii
    have low : 48 ≤ c.toNat := ascii.1
    have high : c.toNat ≤ 57 := ascii.2
    have same := listed c.toNat (by omega) low
    rwa [Char.ofNat_toNat] at same
  · have none' : digitsValue [c] = none := by simp [digitsValue, ascii]
    have signs : c ≠ '-' ∧ c ≠ '+' := by
      refine ⟨?_, ?_⟩
      · rintro rfl
        cases own
      · rintro rfl
        cases own
    have unread : parseI64 (String.ofList [c]) = none := by
      simp [parseI64, signs, none']
    have silent : digitsSpelled [c] = "" := by
      simp [digitsSpelled, ascii, join]
    have said : sayNumber ⟨[c], [], []⟩ = [] := by
      unfold sayNumber
      dsimp only
      rw [unread, silent]
      rfl
    rw [numeralOf, said]
    rfl

theorem percentOf_count : 0 < (percentOf c).countP isZayin := by
  refine List.countP_pos_iff.mpr ⟨'ז', ?_, rfl⟩
  simp [percentOf]

theorem countP_flatMap_eq {K : Char → Bool} {g : Char → List Char}
    (each : ∀ c ∈ cs, (g c).countP K = [c].countP K) :
    (cs.flatMap g).countP K = cs.countP K := by
  induction cs with
  | nil => rfl
  | cons c cs ih =>
    obtain ⟨own, rest⟩ := List.forall_mem_cons.mp each
    rw [List.flatMap_cons, List.countP_append, own, ih rest, ← List.countP_append, List.singleton_append]

theorem countP_flatMap_ge {K : Char → Bool} {g : Char → List Char}
    (each : ∀ c ∈ cs, [c].countP K ≤ (g c).countP K) :
    cs.countP K ≤ (cs.flatMap g).countP K := by
  induction cs with
  | nil => exact Nat.le_refl 0
  | cons c cs ih =>
    obtain ⟨own, rest⟩ := List.forall_mem_cons.mp each
    rw [List.flatMap_cons, List.countP_append, ← List.singleton_append, List.countP_append]
    exact Nat.add_le_add own (ih rest)

theorem digit_count (own : isDecimal c = true) : [c].countP isZayin = 0 := by
  rw [List.countP_singleton, if_neg]
  intro same
  rw [eq_of_beq same] at own
  cases own

theorem apart_count (cs : List Char) : (sayAll (setApart '|' cs)).countP isZayin = cs.countP isZayin := by
  rw [sayAll_apart]
  refine countP_flatMap_eq fun c _ => ?_
  by_cases own : isDecimal c = true
  · rw [if_pos own, numeralOf_count own, digit_count own]
  · rw [if_neg own]

/-- As percentages, one of them has it. -/
theorem percents_count (digit' : ∃ c ∈ cs, isDecimal c = true) :
    cs.countP isZayin < (sayAll (setApart '%' cs)).countP isZayin := by
  obtain ⟨c, listed, own⟩ := digit'
  obtain ⟨before, after, rfl⟩ := List.append_of_mem listed
  have each : ∀ d, [d].countP isZayin ≤ (if isDecimal d then percentOf d else [d]).countP isZayin := by
    intro d
    split
    · next digit' => rw [digit_count digit']; exact Nat.zero_le _
    · exact Nat.le_refl _
  have whole : ∀ cs : List Char, cs.countP isZayin ≤ (sayAll (setApart '%' cs)).countP isZayin := by
    intro cs
    rw [sayAll_percents]
    exact countP_flatMap_ge fun d _ => each d
  have left := whole before
  have right := whole after
  have here : 0 < (percentOf c).countP isZayin := percentOf_count
  have none' : (c :: after).countP isZayin = after.countP isZayin := by
    rw [← List.singleton_append, List.countP_append, digit_count own, Nat.zero_add]
  rw [sayAll_percents] at left right ⊢
  rw [List.flatMap_append, List.flatMap_cons, if_pos own]
  simp only [List.countP_append, none']
  omega

variable [Unicode]

/-- The words of what is prepared have the letter as often as it is said. -/
theorem letterWords_count (text : String) :
    ((letterWords (normalizeHebrew text)).flatMap String.toList).countP isZayin =
    (sayAll text.toList).countP isZayin := by
  have solid : ∀ c, isZayin c = true → isWhitespace c = false ∧ isAlphanumeric c = true := by
    intro c own
    rw [eq_of_beq own]
    exact ⟨rfl, rfl⟩
  rw [normalizeHebrew, letterWords, keptWords_tidy, keptWords_letters, List.countP_filter,
    String.toList_ofList]
  refine List.countP_congr fun c _ => ?_
  cases own : isZayin c with
  | false => simp
  | true => simp [solid c own]

/-- **A text with a digit shares its words with one that is read otherwise.** -/
theorem misread {t : String} (digit' : ∃ c ∈ t.toList, isDecimal c = true) :
    ∃ u, looseWords u = looseWords t ∧ letterWords (normalizeHebrew u) ≠ letterWords
    (normalizeHebrew t) := by
  have shared : ∀ sign, isLoose sign = false → isWhitespace sign = false →
      looseWords (String.ofList (setApart sign t.toList)) = looseWords t := by
    intro sign dropped solid
    rw [looseWords, setApart_words dropped solid, String.ofList_toList]
    rfl
  by_contra alike
  push Not at alike
  have bars := congrArg (List.flatMap String.toList) (alike _ (shared '|' rfl rfl))
  have percents := congrArg (List.flatMap String.toList) (alike _ (shared '%' rfl rfl))
  have same := congrArg (List.countP isZayin) (bars.trans percents.symm)
  rw [letterWords_count, letterWords_count, String.toList_ofList, String.toList_ofList, apart_count]
    at same
  exact absurd same (Nat.ne_of_lt (percents_count digit'))

end Misreading

end Callora.Text
