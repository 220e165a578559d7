/-
**What is prepared for speaking has no digits.**

The last replacement of `normalizeHebrew` covers every digit that is left, and what it says is words
(`sayNumber_spoken`); on a text without digits no replacement has anything to replace (`sayAll_id`), and a
text that was tidied is tidy (`tidy_tidy`). So nothing is left to prepare a second time.
-/
import Callora.Text.Speech
import Callora.Text.Spans
import Mathlib.Data.List.Chain

set_option linter.unusedSectionVars false

namespace Callora.Text

open Regex

attribute [local instance] decidableListed

section Words

/-- The characters of words: Hebrew letters and spaces. -/
def isSpoken (c : Char) : Bool := c == ' ' || (0x05D0 ≤ c.toNat && c.toNat ≤ 0x05EA)

/-- A text of words. -/
def Spoken (s : String) : Prop := ∀ c ∈ s.toList, isSpoken c = true

instance (s : String) : Decidable (Spoken s) := by
  unfold Spoken
  infer_instance

theorem Spoken.append {s t : String} (first : Spoken s) (second : Spoken t) : Spoken (s ++ t) := by
  unfold Spoken
  rw [String.toList_append]
  exact List.forall_mem_append.mpr ⟨first, second⟩

theorem Spoken.join {parts : List String} (all : ∀ part ∈ parts, Spoken part) :
    Spoken (join " " parts) := by
  cases parts with
  | nil => exact fun c listed => absurd listed List.not_mem_nil
  | cons part parts =>
    obtain ⟨first, rest⟩ := List.forall_mem_cons.mp all
    unfold Spoken
    rw [join_toList_cons]
    refine List.forall_mem_append.mpr ⟨first, fun c listed => ?_⟩
    obtain ⟨w, held, own⟩ := List.mem_flatMap.mp listed
    rcases List.mem_cons.mp own with rfl | letter
    · rfl
    · exact rest w held c letter

/-- A part of a number, looked up in its table. -/
theorem spoken_getD {table : List String} (all : ∀ part ∈ table, Spoken part) (i : Nat) :
    Spoken (table.getD i "") := by
  rw [List.getD_eq_getElem?_getD]
  cases found : table[i]? with
  | none => exact fun c listed => absurd listed List.not_mem_nil
  | some part => exact all part (List.mem_of_getElem? found)

theorem spoken_tables : (∀ part ∈ tens, Spoken part) ∧ (∀ part ∈ hundreds, Spoken part) ∧
    (∀ part ∈ thousands, Spoken part) ∧ (∀ part ∈ unitsM, Spoken part) ∧ (∀ part ∈ unitsF, Spoken part) ∧
    (∀ part ∈ teensM, Spoken part) ∧ (∀ part ∈ teensF, Spoken part) := by
  decide

/-- The parts of a number, from the units and teens of either gender. -/
theorem parts_spoken {units teens : List String} (hunits : ∀ part ∈ units, Spoken part)
    (hteens : ∀ part ∈ teens, Spoken part) (n rest below : Nat) :
    ∀ part ∈ (if 1000 ≤ n then [thousands.getD (n / 1000) ""] else []) ++
      (if 100 ≤ rest then [hundreds.getD (rest / 100) ""] else []) ++
      (if 20 ≤ below then
        tens.getD (below / 10) "" :: (if below % 10 ≠ 0 then [units.getD (below % 10) ""] else [])
      else if 10 ≤ below then [teens.getD (below - 10) ""]
      else if 0 < below then [units.getD below ""]
      else []), Spoken part := by
  obtain ⟨decades, hundred, thousand, -⟩ := spoken_tables
  have none' : ∀ part ∈ ([] : List String), Spoken part :=
    fun part listed => absurd listed List.not_mem_nil
  have one : ∀ {part}, Spoken part → ∀ part' ∈ [part], Spoken part' := by
    intro part spoken part' listed
    rwa [List.mem_singleton.mp listed]
  refine List.forall_mem_append.mpr ⟨List.forall_mem_append.mpr ⟨?_, ?_⟩, ?_⟩
  · split
    · exact one (spoken_getD thousand _)
    · exact none'
  · split
    · exact one (spoken_getD hundred _)
    · exact none'
  · split
    · refine List.forall_mem_cons.mpr ⟨spoken_getD decades _, ?_⟩
      split
      · exact one (spoken_getD hunits _)
      · exact none'
    · split
      · exact one (spoken_getD hteens _)
      · split
        · exact one (spoken_getD hunits _)
        · exact none'

theorem numberParts_spoken (n : Nat) (gender : Gender) : ∀ part ∈ numberParts n gender, Spoken part := by
  obtain ⟨-, -, -, unitsM', unitsF', teensM', teensF'⟩ := spoken_tables
  cases gender with
  | masculine => exact parts_spoken unitsM' teensM' _ _ _
  | feminine => exact parts_spoken unitsF' teensF' _ _ _

theorem joinParts_spoken {parts : List String} (all : ∀ part ∈ parts, Spoken part) :
    Spoken (joinParts parts) := by
  have vav : Spoken "ו" := by decide
  unfold joinParts
  split
  · next last ends =>
    split
    · refine Spoken.join (List.forall_mem_append.mpr ⟨fun part listed => ?_, fun part listed => ?_⟩)
      · exact all part (List.dropLast_subset parts listed)
      · rw [List.mem_singleton.mp listed]
        exact vav.append (all last (List.mem_of_getLast? ends))
    · exact Spoken.join all
  · exact fun c listed => absurd listed List.not_mem_nil

/-- **A number up to 9999 is said in words.** -/
theorem numberWords_spoken {n : Int} (low : 0 ≤ n) (high : n ≤ 9999) (gender : Gender) :
    Spoken (numberWords n gender) := by
  unfold numberWords
  rw [if_neg (by omega)]
  split
  · decide
  · exact joinParts_spoken (numberParts_spoken _ gender)

theorem countPhrase_spoken {n : Int} (low : 0 ≤ n) (high : n ≤ 9999) (gender : Gender)
    {singular plural : String}
    (one : Spoken singular) (many : Spoken plural) : Spoken (countPhrase n gender singular plural) := by
  have space : Spoken " " := by decide
  unfold countPhrase
  split
  · exact one
  · split
    · cases gender with
      | masculine => exact Spoken.append (by decide) many
      | feminine => exact Spoken.append (by decide) many
    · exact ((numberWords_spoken low high gender).append space).append many

/-- A time is said in words. -/
theorem clockWords_spoken (hour : Nat) {minute : Nat} (high : minute ≤ 9999) :
    Spoken (clockWords hour minute) := by
  have hours :
    Spoken (numberWords ((if hour % 12 = 0 then 12 else hour % 12 : Nat) : Int) .feminine) := by
    refine numberWords_spoken (by omega) ?_ .feminine
    split <;> omega
  unfold clockWords
  dsimp only
  split
  · exact hours
  · split
    · exact hours.append (by decide)
    · split
      · exact hours.append (by decide)
      · exact (hours.append (by decide)).append (numberWords_spoken (by omega) (by omega) .feminine)

theorem digitsSpelled_spoken (s : List Char) : Spoken (digitsSpelled s) := by
  refine Spoken.join fun part listed => ?_
  obtain ⟨c, held, rfl⟩ := List.mem_map.mp listed
  have digit' := (List.mem_filter.mp held).2
  simp only [isAsciiDigit, Bool.and_eq_true, decide_eq_true_eq] at digit'
  have low : 48 ≤ c.toNat := digit'.1
  have high : c.toNat ≤ 57 := digit'.2
  unfold digitValue
  exact numberWords_spoken (by omega) (by omega) .feminine

end Words

section Digits

variable [RegexTables] {cs : List Char}

theorem isDecimal_spoken {c : Char} (spoken : isSpoken c = true) : isDecimal c = false := by
  unfold isSpoken at spoken
  rcases Bool.or_eq_true_iff.mp spoken with blank | letter
  · rw [beq_iff_eq.mp blank]
    rfl
  · simp only [Bool.and_eq_true, decide_eq_true_eq] at letter
    have high : ¬c.toNat < 0x80 := by omega
    have block : inHebrewBlock c = true := by
      unfold inHebrewBlock
      simp only [Bool.and_eq_true, decide_eq_true_eq]
      omega
    rw [isDecimal, if_neg high, block]
    rfl

/-- Words have no digits. -/
theorem Spoken.noDigits {s : String} (spoken : Spoken s) : ∀ c ∈ s.toList, isDecimal c = false :=
  fun c listed => isDecimal_spoken (spoken c listed)

theorem isDecimal_ascii {c : Char} (ascii : isAsciiDigit c = true) : isDecimal c = true := by
  have small : c.toNat < 0x80 := by
    simp only [isAsciiDigit, Bool.and_eq_true, decide_eq_true_eq] at ascii
    have high : c.toNat ≤ 57 := ascii.2
    omega
  rw [isDecimal, if_pos small]
  exact ascii

theorem isDecimal_space {c : Char} (blank : isWhitespace c = true) : isDecimal c = false := by
  unfold isDecimal
  split
  · by_contra own
    have digit' : isAsciiDigit c = true := by simpa using own
    simp only [isAsciiDigit, Bool.and_eq_true, decide_eq_true_eq] at digit'
    have low : 48 ≤ c.toNat := digit'.1
    have high : c.toNat ≤ 57 := digit'.2
    simp only [isWhitespace, Bool.or_eq_true, Bool.and_eq_true, decide_eq_true_eq, beq_iff_eq] at blank
    omega
  · split
    · rfl
    · exact RegexTables.decimal_space c blank

theorem foldl_digits_lt (cs : List Char) (all : cs.all isAsciiDigit = true) (n : Nat) :
    cs.foldl (fun n c => 10 * n + (c.toNat - 48)) n < (n + 1) * 10 ^ cs.length := by
  induction cs generalizing n with
  | nil => simp
  | cons c cs ih =>
    rw [List.all_cons, Bool.and_eq_true] at all
    obtain ⟨own, rest⟩ := all
    have high : c.toNat ≤ 57 := by
      simp only [isAsciiDigit, Bool.and_eq_true, decide_eq_true_eq] at own
      exact own.2
    have later := ih rest (10 * n + (c.toNat - 48))
    rw [List.foldl_cons, List.length_cons, Nat.pow_succ]
    refine Nat.lt_of_lt_of_le later ?_
    calc (10 * n + (c.toNat - 48) + 1) * 10 ^ cs.length
        ≤ ((n + 1) * 10) * 10 ^ cs.length := Nat.mul_le_mul_right _ (by omega)
      _ = (n + 1) * (10 ^ cs.length * 10) := by rw [Nat.mul_assoc, Nat.mul_comm 10]

theorem digitsValue_lt {v : Nat} (read : digitsValue cs = some v) : v < 10 ^ cs.length := by
  unfold digitsValue at read
  split at read
  · cases read
  · split at read
    · next all =>
      obtain rfl := Option.some.inj read
      simpa using foldl_digits_lt cs all 0
    · cases read

/-- A number read from digits: it is not negative, and has no more digits than that. -/
theorem parseI64_digits {n : Int} (decimal : ∀ c ∈ cs, isDecimal c = true)
    (read : parseI64 (String.ofList cs) = some n) : 0 ≤ n ∧ n < 10 ^ cs.length := by
  have sign : ∀ rest, cs ≠ '-' :: rest ∧ cs ≠ '+' :: rest := by
    intro rest
    refine ⟨fun same => ?_, fun same => ?_⟩
    · have own := decimal '-' (by rw [same]; exact List.mem_cons_self)
      cases own
    · have own := decimal '+' (by rw [same]; exact List.mem_cons_self)
      cases own
  unfold parseI64 at read
  rw [String.toList_ofList] at read
  split at read
  · exact absurd rfl (sign _).1
  · exact absurd rfl (sign _).2
  · obtain ⟨v, lifted, rfl⟩ := Option.map_eq_some_iff.mp read
    obtain ⟨k, held, same⟩ := Option.bind_eq_some_iff.mp lifted
    obtain rfl : (k : Int) = v := Option.some.inj same
    have small := digitsValue_lt (Option.filter_eq_some_iff.mp held).1
    refine ⟨Int.natCast_nonneg k, ?_⟩
    exact_mod_cast small

theorem length_le_bytes_chars (cs : List Char) : cs.length ≤ bytes cs := by
  induction cs with
  | nil => exact Nat.le_refl 0
  | cons c cs ih =>
    have one := c.utf8Size_pos
    simp only [bytes, List.length_cons, List.map_cons, List.sum_cons] at ih ⊢
    omega

/-- **A plain number is said in words**, in full or digit by digit. -/
theorem sayNumber_spoken (m : Match Char Nat) (decimal : ∀ c ∈ m.taken, isDecimal c = true) :
    ∀ c ∈ sayNumber m, isSpoken c = true := by
  unfold sayNumber
  split
  · next n read =>
    split
    · next short =>
      obtain ⟨low, high⟩ := parseI64_digits decimal read
      have few : m.taken.length ≤ 4 := by
        rcases short with ⟨four, -⟩ | zero
        · exact Nat.le_trans (length_le_bytes_chars m.taken) four
        · rw [zero]
          decide
      have bound : (10 : Int) ^ m.taken.length ≤ 10 ^ 4 := by
        exact_mod_cast Nat.pow_le_pow_right (by decide) few
      exact numberWords_spoken low (by omega) .feminine
    · exact digitsSpelled_spoken m.taken
  · exact digitsSpelled_spoken m.taken

end Digits

section NeedDigits

variable [RegexTables]

theorem digit_needs : Needs isDecimal 1 digit := Needs.chars fun _ own => own

theorem moneyBefore_needs : Needs isDecimal 1 moneyBefore :=
  ((Needs.none _).seq ((Needs.none _).seq (digit_needs.rep.group.seq (Needs.none _)))).mono (by decide)

theorem moneyAfter_needs : Needs isDecimal 1 moneyAfter :=
  (digit_needs.rep.group.seq (Needs.none _)).mono (by decide)

theorem percent_needs : Needs isDecimal 1 percent :=
  (digit_needs.rep.group.seq (Needs.none _)).mono (by decide)

theorem identifier_needs : Needs isDecimal 1 identifier := by
  have ascii : Needs isDecimal 1 (range '0' '9') := Needs.chars fun c own => isDecimal_ascii own
  exact ((Needs.none _).seq
    (((Needs.none _).seq ((Needs.none _).seq (ascii.seq (Needs.none _)))).group)).mono (by decide)

theorem oneOf_needs {set : String} (all : ∀ c ∈ set.toList, isAsciiDigit c = true) :
    Needs isDecimal 1 (oneOf set) :=
  Needs.chars fun c own => isDecimal_ascii (all c (by simpa using own))

theorem range_needs {first last : Char} (low : '0' ≤ first) (high : last ≤ '9') :
    Needs isDecimal 1 (range first last) := by
  refine Needs.chars fun c own => isDecimal_ascii ?_
  simp only [Bool.and_eq_true, decide_eq_true_eq] at own
  simp only [isAsciiDigit, Bool.and_eq_true, decide_eq_true_eq]
  exact ⟨Char.le_trans low own.1, Char.le_trans own.2 high⟩

theorem subscriberNumber_needs : Needs isDecimal 8 subscriberNumber := by
  have area : Needs isDecimal 1
    (.alts (.seqs [oneOf "5", digit]) [.seqs [oneOf "7", digit], oneOf "23489"]) :=
    (((oneOf_needs (by decide)).seq (Needs.none _)).mono (by decide)).alt
      ((((oneOf_needs (by decide)).seq (Needs.none _)).mono (by decide)).alt (oneOf_needs (by decide)))
  have digits : Needs isDecimal 7 (.times 7 (.seqs [phoneGap, digit])) :=
    (((Needs.none _).seq digit_needs).rep).mono (by decide)
  exact (Needs.none _).seq (area.seq digits)

theorem tollFreeNumber_needs : Needs isDecimal 7 tollFreeNumber :=
  ((oneOf_needs (by decide)).seq ((Needs.none _).seq ((oneOf_needs (by decide)).seq ((Needs.none _).seq
    ((Needs.none _).seq (digit_needs.rep.seq ((Needs.none _).seq digit_needs.rep))))))).mono (by decide)

/-- A phone number has at least seven digits. -/
theorem phone_needs : Needs isDecimal 7 phone :=
  ((Needs.none _).seq
    ((((subscriberNumber_needs.mono (by decide)).alt tollFreeNumber_needs).group).seq
      (Needs.none _))).mono (by decide)

/-- A time has at least three. -/
theorem time_needs : Needs isDecimal 3 time := by
  have hour : Needs isDecimal 1
    (.alts (.seqs [.opt (oneOf "01"), digit]) [.seqs [oneOf "2", range '0' '3']]) :=
    (((Needs.none _).seq digit_needs).mono (by decide)).alt
      (((oneOf_needs (by decide)).seq (Needs.none _)).mono (by decide))
  have minute : Needs isDecimal 2 (.seqs [range '0' '5', digit]) :=
    (range_needs (by decide) (by decide)).seq digit_needs
  exact ((Needs.none _).seq
    (hour.group.seq ((Needs.none _).seq (minute.group.seq (Needs.none _))))).mono (by decide)

/-- A date has at least two. -/
theorem date_needs : Needs isDecimal 2 date := by
  have one : ∀ r : Pat, Needs isDecimal 1 (.seqs [.opt r, digit]) :=
    fun r => (Needs.none _).seq digit_needs
  exact ((Needs.none _).seq
    ((one _).group.seq ((Needs.none _).seq ((one _).group.seq (Needs.none _))))).mono (by decide)

theorem number_needs : Needs isDecimal 1 number := digit_needs.rep.mono (by decide)

variable {s : List Char}

theorem countP_zero (clean : ∀ c ∈ s, isDecimal c = false) : s.countP isDecimal = 0 :=
  List.countP_eq_zero.mpr fun c listed => by simp [clean c listed]

/-- A replacement of something with digits leaves a text without them alone. -/
theorem replaceAll_clean {r : Pat} {n : Nat} (f : Said) (needs : Needs isDecimal (n + 1) r)
    (clean : ∀ c ∈ s, isDecimal c = false) : Re.replaceAll r f s = s :=
  replace_few needs (by rw [countP_zero clean]; exact Nat.succ_pos n)

/-- When the amounts are said and no digit is left, all is said. -/
theorem sayAll_money {t u : List Char} (first : Re.replaceAll moneyBefore sayMoney s = t)
    (second : Re.replaceAll moneyAfter sayMoney t = u) (clean : ∀ c ∈ u, isDecimal c = false) :
    sayAll s = u := by
  unfold sayAll
  dsimp only
  rw [first, second, replaceAll_clean _ percent_needs clean, replaceAll_clean _ identifier_needs clean,
    replaceAll_clean _ phone_needs clean, replaceAll_clean _ time_needs clean,
    replaceAll_clean _ date_needs clean,
    replaceAll_clean _ number_needs clean]

/-- **A text without digits has nothing to be said.** -/
theorem sayAll_id (clean : ∀ c ∈ s, isDecimal c = false) : sayAll s = s :=
  sayAll_money (replaceAll_clean _ moneyBefore_needs clean)
    (replaceAll_clean _ moneyAfter_needs clean) clean

theorem number_first {prev : Option Char} {c : Char} (own : isDecimal c = true) :
    number.first prev (c :: s) = some ⟨c :: s.takeWhile isDecimal, s.dropWhile isDecimal, []⟩ := by
  have head : (number.run prev (c :: s)).head? = _ := plus_head own
  rw [Re.first, head]
  rfl

theorem number_decimal {prev : Option Char} {m : Match Char Nat} (found : number.first prev s = some m) :
    ∀ c ∈ m.taken, isDecimal c = true :=
  run_takes number prev s m (first_some found).1

/-- **The last replacement leaves no digit.** -/
theorem sayNumbers_clean (s : List Char) :
    ∀ c ∈ Re.replaceAll number sayNumber s, isDecimal c = false := by
  refine replace_clears (fun prev c cs own none' => ?_) fun prev cs m found c listed => ?_
  · rw [number_first own] at none'
    cases none'
  · exact isDecimal_spoken (sayNumber_spoken m (number_decimal found) c listed)

end NeedDigits

section Tidy

variable {cs out : List Char}

theorem spaces_first {prev : Option Char} {m : Match Char Nat} (found : spaces.first prev cs = some m) :
    ∃ c rest, cs = c :: rest ∧ isWhitespace c = true ∧
      m = ⟨c :: rest.takeWhile isWhitespace, rest.dropWhile isWhitespace, []⟩ := by
  cases cs with
  | nil => cases found
  | cons c rest =>
    by_cases own : isWhitespace c = true
    · have head : (spaces.run prev (c :: rest)).head? = _ := plus_head own
      rw [Re.first, head] at found
      exact ⟨c, rest, rfl, own, (Option.some.inj found).symm⟩
    · have begins : Begins isWhitespace spaces := (Begins.chars isWhitespace).rep
      rw [Re.first, begins.run_other (by simpa using own)] at found
      cases found

theorem filter_dropWhile (p : Char → Bool) (cs : List Char) :
    (cs.dropWhile p).filter (fun c => !p c) = cs.filter fun c => !p c := by
  have none' : (cs.takeWhile p).filter (fun c => !p c) = [] :=
    List.filter_eq_nil_iff.mpr fun c listed => by simp [List.mem_takeWhile_imp listed]
  have split' := congrArg (List.filter fun c => !p c)
    (List.takeWhile_append_dropWhile (p := p) (l := cs))
  rw [List.filter_append, none', List.nil_append] at split'
  exact split'

/-- What a text is when its white space was collapsed. -/
structure Collapses (cs out : List Char) : Prop where
  single : out.IsChain fun a b => isWhitespace a = true → isWhitespace b = false
  blank : ∀ c ∈ out, isWhitespace c = true → c = ' '
  first : ∀ c ∈ out.head?, isWhitespace c = true → ∃ d ∈ cs.head?, isWhitespace d = true
  last : ∀ c ∈ out.getLast?, isWhitespace c = true → ∃ d ∈ cs.getLast?, isWhitespace d = true
  letters : out.filter (fun c => !isWhitespace c) = cs.filter fun c => !isWhitespace c
  empty : out = [] → cs = []

theorem Collapses.letter {c : Char} (other : ¬isWhitespace c = true) (collapses : Collapses cs out) :
    Collapses (c :: cs) (c :: out) where
  single := List.isChain_cons.mpr ⟨fun _ _ space => absurd space other, collapses.single⟩
  blank := List.forall_mem_cons.mpr ⟨fun space => absurd space other, collapses.blank⟩
  first := by
    intro d same space
    obtain rfl := Option.some.inj same
    exact absurd space other
  last := by
    intro d same space
    by_cases none' : out = []
    · subst none'
      obtain rfl := Option.some.inj same
      exact absurd space other
    · have some' : cs ≠ [] := by
        rintro rfl
        have letters := collapses.letters
        obtain ⟨e, rest, rfl⟩ := List.exists_cons_of_ne_nil none'
        by_cases blank : isWhitespace e = true
        · obtain ⟨d', absurd', -⟩ := collapses.first e rfl blank
          cases absurd'
        · simp [blank] at letters
      rw [List.getLast?_cons_of_ne_nil none'] at same
      rw [List.getLast?_cons_of_ne_nil some']
      exact collapses.last d same space
  letters := by
    rw [List.filter_cons, List.filter_cons, collapses.letters]
  empty := fun absurd' => absurd absurd' (List.cons_ne_nil _ _)

/-- **White space is collapsed**, and nothing else changes. -/
theorem spaces_collapse (prev : Option Char) (cs : List Char) :
    Collapses cs (Re.replaceFrom spaces (fun _ => [' ']) prev 0 cs) := by
  refine replace_rec (P := fun _ cs out => Collapses cs out) ?_ ?_ ?_ prev cs
  · exact fun _ => ⟨.nil, by simp, by simp, by simp, rfl, fun _ => rfl⟩
  · intro prev c cs out none' collapses
    refine collapses.letter fun space => ?_
    have head : (spaces.run prev (c :: cs)).head? = _ := plus_head space
    rw [Re.first, head] at none'
    cases none'
  · intro prev cs m out found collapses
    obtain ⟨c, rest, rfl, own, rfl⟩ := spaces_first found
    have after : ∀ d ∈ (rest.dropWhile isWhitespace).head?, isWhitespace d = false := by
      intro d listed
      have other := List.head?_dropWhile_not isWhitespace rest
      rw [Option.mem_def.mp listed] at other
      simpa using other
    show Collapses (c :: rest) (' ' :: out)
    refine ⟨?_, ?_, ?_, ?_, ?_, ?_⟩
    · refine List.isChain_cons.mpr ⟨fun d listed _ => ?_, collapses.single⟩
      by_contra space
      obtain ⟨e, listed', space'⟩ := collapses.first d listed (by simpa using space)
      rw [after e listed'] at space'
      cases space'
    · exact List.forall_mem_cons.mpr ⟨fun _ => rfl, collapses.blank⟩
    · exact fun _ _ _ => ⟨c, rfl, own⟩
    · intro d same space
      by_cases none' : out = []
      · have all : rest.dropWhile isWhitespace = [] := collapses.empty none'
        have spaces' : ∀ e ∈ c :: rest, isWhitespace e = true :=
          List.forall_mem_cons.mpr ⟨own, List.dropWhile_eq_nil_iff.mp all⟩
        obtain ⟨e, ends⟩ : ∃ e, (c :: rest).getLast? = some e := ⟨_, rfl⟩
        exact ⟨e, ends, spaces' e (List.mem_of_getLast? ends)⟩
      · rw [List.getLast?_cons_of_ne_nil none'] at same
        obtain ⟨e, listed, space'⟩ := collapses.last d same space
        refine ⟨e, ?_, space'⟩
        have suffix : (c :: rest).getLast? = (rest.dropWhile isWhitespace).getLast? := by
          have some' : rest.dropWhile isWhitespace ≠ [] := by
            intro nothing
            rw [nothing] at listed
            cases listed
          rw [← List.takeWhile_append_dropWhile (p := isWhitespace) (l := rest), ← List.cons_append,
            List.getLast?_append_of_ne_nil _ some']
          congr 1
          rw [List.takeWhile_append_dropWhile]
        rw [suffix]
        exact listed
    · have blank : isWhitespace ' ' = true := rfl
      rw [List.filter_cons, List.filter_cons, collapses.letters]
      simp only [own, blank, Bool.not_true, Bool.false_eq_true, if_false]
      exact filter_dropWhile isWhitespace rest
    · exact fun absurd' => absurd absurd' (List.cons_ne_nil _ _)

/-- No white space around, and no more than a space between. -/
structure Tidied (cs : List Char) : Prop where
  single : cs.IsChain fun a b => isWhitespace a = true → isWhitespace b = false
  blank : ∀ c ∈ cs, isWhitespace c = true → c = ' '
  first : ∀ c ∈ cs.head?, isWhitespace c = false
  last : ∀ c ∈ cs.getLast?, isWhitespace c = false

theorem tidy_tidied (cs : List Char) : Tidied (tidy cs) := by
  have collapses := spaces_collapse none (trim (String.ofList cs)).toList
  refine ⟨collapses.single, collapses.blank, fun c listed => ?_, fun c listed => ?_⟩
  · by_contra space
    obtain ⟨d, listed', space'⟩ := collapses.first c listed (by simpa using space)
    rw [toList_trim, String.toList_ofList] at listed'
    obtain ⟨rest, same⟩ := List.head?_eq_some_iff.mp listed'
    obtain ⟨more, whole⟩ := List.rdropWhile_prefix isWhitespace (cs.dropWhile isWhitespace)
    have other := List.head?_dropWhile_not isWhitespace cs
    rw [← whole, same] at other
    simp [space'] at other
  · by_contra space
    obtain ⟨d, listed', space'⟩ := collapses.last c listed (by simpa using space)
    rw [toList_trim, String.toList_ofList] at listed'
    have some' : (cs.dropWhile isWhitespace).rdropWhile isWhitespace ≠ [] := by
      intro nothing
      rw [nothing] at listed'
      cases listed'
    have other := List.rdropWhile_last_not isWhitespace (cs.dropWhile isWhitespace) some'
    rw [Option.mem_def, List.getLast?_eq_some_getLast some'] at listed'
    rw [Option.some.inj listed'] at other
    exact other space'

theorem tidied_spaces {prev : Option Char}
    (single : cs.IsChain fun a b => isWhitespace a = true → isWhitespace b = false)
    (blank : ∀ c ∈ cs, isWhitespace c = true → c = ' ') :
    Re.replaceFrom spaces (fun _ => [' ']) prev 0 cs = cs := by
  refine replace_rec (P := fun _ cs out =>
    (cs.IsChain fun a b => isWhitespace a = true → isWhitespace b = false) →
    (∀ c ∈ cs, isWhitespace c = true → c = ' ') → out = cs) (fun _ _ _ => rfl) ?_ ?_ prev cs single blank
  · intro prev c cs out _ ih single blank
    rw [ih (List.isChain_cons.mp single).2 (List.forall_mem_cons.mp blank).2]
  · intro prev cs m out found ih single blank
    obtain ⟨c, rest, rfl, own, rfl⟩ := spaces_first found
    obtain ⟨next, single⟩ := List.isChain_cons.mp single
    obtain ⟨one, blank⟩ := List.forall_mem_cons.mp blank
    have none' : rest.takeWhile isWhitespace = [] ∧ rest.dropWhile isWhitespace = rest := by
      cases rest with
      | nil => exact ⟨rfl, rfl⟩
      | cons d rest =>
        have other : ¬isWhitespace d = true := by simp [next d rfl own]
        exact ⟨List.takeWhile_cons_of_neg other, List.dropWhile_cons_of_neg other⟩
    rw [none'.2] at ih
    rw [ih single blank, one own]
    rfl

/-- **What was tidied is tidy.** -/
theorem tidy_tidied_eq (tidied : Tidied cs) : tidy cs = cs := by
  have trimmed : (trim (String.ofList cs)).toList = cs := by
    have first : cs.dropWhile isWhitespace = cs := by
      cases cs with
      | nil => rfl
      | cons c cs => exact List.dropWhile_cons_of_neg (by simp [tidied.first c rfl])
    rw [toList_trim, String.toList_ofList, first]
    refine (List.rdropWhile_eq_self_iff).mpr fun some' => ?_
    have other := tidied.last _ (List.getLast?_eq_some_getLast some')
    simp [other]
  unfold tidy
  rw [trimmed]
  exact tidied_spaces tidied.single tidied.blank

theorem tidy_tidy (cs : List Char) : tidy (tidy cs) = tidy cs := tidy_tidied_eq (tidy_tidied cs)

/-- Tidying keeps everything but white space, in its order. -/
theorem tidy_letters (cs : List Char) :
    (tidy cs).filter (fun c => !isWhitespace c) = cs.filter fun c => !isWhitespace c := by
  rw [tidy, Re.replaceAll, (spaces_collapse none _).letters, toList_trim, String.toList_ofList,
    List.rdropWhile, List.filter_reverse,
    filter_dropWhile, List.filter_reverse, List.reverse_reverse, filter_dropWhile]

/-- Tidying keeps as many of everything else. -/
theorem tidy_countP {K : Char → Bool} (solid : ∀ c, K c = true → isWhitespace c = false)
    (cs : List Char) :
    (tidy cs).countP K = cs.countP K := by
  have letters : ∀ cs : List Char, (cs.filter fun c => !isWhitespace c).countP K = cs.countP K := by
    intro cs
    rw [List.countP_filter]
    refine List.countP_congr fun c _ => ?_
    cases own : K c with
    | false => simp
    | true => simp [solid c own]
  rw [← letters, tidy_letters, letters]

/-- Tidying writes nothing but spaces. -/
theorem tidy_mem {c : Char} (listed : c ∈ tidy cs) : c = ' ' ∨ c ∈ cs := by
  by_cases space : isWhitespace c = true
  · exact .inl ((tidy_tidied cs).blank c listed space)
  · have kept : c ∈ (tidy cs).filter fun c => !isWhitespace c :=
      List.mem_filter.mpr ⟨listed, by simp [space]⟩
    rw [tidy_letters] at kept
    exact .inr (List.mem_filter.mp kept).1

end Tidy

section Prepared

variable [RegexTables]

theorem normalizeHebrew_clean (text : String) :
    ∀ c ∈ (normalizeHebrew text).toList, isDecimal c = false := by
  unfold normalizeHebrew
  rw [String.toList_ofList]
  intro c listed
  rcases tidy_mem listed with rfl | said
  · rfl
  · exact sayNumbers_clean _ c said

/-- **What was prepared has no digit, and preparing it again changes nothing.** -/
theorem normalizeHebrew_prepared (text : String) :
    (∀ c ∈ (normalizeHebrew text).toList, isDecimal c = false) ∧
      normalizeHebrew (normalizeHebrew text) = normalizeHebrew text := by
  refine ⟨normalizeHebrew_clean text, ?_⟩
  have said : sayAll (normalizeHebrew text).toList = (normalizeHebrew text).toList :=
    sayAll_id (normalizeHebrew_clean text)
  calc normalizeHebrew (normalizeHebrew text)
      = String.ofList (tidy (sayAll (normalizeHebrew text).toList)) := rfl
    _ = String.ofList (tidy (tidy (sayAll text.toList))) := by
        rw [said, normalizeHebrew, String.toList_ofList]
    _ = normalizeHebrew text := by
        rw [tidy_tidy, normalizeHebrew]

end Prepared

end Callora.Text
