/-
**A listed street and its own name.**

The list keeps the names of a locality's streets as they are written; a lookup first takes words out
of what was said: "רחוב" before the name, and the words that say what a locality is. So a street is
asked for by other words than those it is listed by (`asked`). Where these lead to the street
(`Reaches`), its name with a house number finds it, whatever order the maps are gone through in
(`listed_found`); a name of which nothing is taken out does, unless it is heard as the locality's
own (`reaches_of_kept`). A street called "קבוץ גלויות" is asked for as "גלויות", and there is no
such street (`exiles_lost`).
-/
import Callora.Business.Rows
import Callora.Business.OneAnswer
import Callora.Business.Unheard
import Callora.Library.Gaps

set_option linter.unusedSectionVars false

namespace Callora

open Callora.Text Unordered

namespace Localities

section Words

variable [Unicode]

/-- The words a street is asked for by, of those of its name. -/
def askedWords (name : String) : List String :=
  let ws := words (norm name)
  let ws := if ws.head? = some "רחוב" ∨ ws.head? = some "רח" then ws.tail else ws
  ws.filter fun w => !kindWords.contains w

/-- **The name a street is asked for by.** -/
def asked (name : String) : String := join " " (askedWords name)

/-- A decimal house number. -/
def Decimal (n : String) : Prop := n ≠ "" ∧ isNumber n = true

theorem mark_digit {c : Char} (digit : isAsciiDigit c = true) : mark c = some c := by
  have ⟨low, high⟩ : '0' ≤ c ∧ c ≤ '9' := by simpa [isAsciiDigit] using digit
  have ascii : c.toNat < 0x80 := lt_of_le_of_lt (show c.toNat ≤ 57 from high) (by decide)
  have folded : foldFinal c = c := by
    unfold foldFinal
    split_ifs with h1 h2 h3 h4 h5
    all_goals first | rfl | (subst_vars; exact absurd ascii (by decide))
  have letter : isAlphanumeric c = true := by
    rw [isAlphanumeric, if_pos ascii, Char.isAlphanum, Char.isDigit]
    simp only [Bool.or_eq_true, Bool.and_eq_true, decide_eq_true_eq]
    exact .inr ⟨low, high⟩
  rw [mark, folded]
  exact if_pos letter

/-- `norm` writes no two spaces in a row, and none around: with something of a word written, or
nothing, the pieces of what the loop writes are words. -/
theorem normLoop_words (cs : List Char) :
    (∀ acc : List Char, acc ≠ [] →
      [] ∉ splitChars (· == ' ') ((normLoop cs false).rdropWhile (· == ' ')) acc) ∧
      ((normLoop cs true).rdropWhile (· == ' ') = [] ∨
        [] ∉ splitChars (· == ' ') ((normLoop cs true).rdropWhile (· == ' ')) []) := by
  induction cs with
  | nil => simp [normLoop, splitChars]
  | cons c cs ih =>
    obtain ⟨going, fresh⟩ := ih
    rw [normLoop_cons, normLoop_cons]
    cases mark c with
    | none => exact ⟨going, fresh⟩
    | some l =>
      dsimp only
      by_cases space : l = ' '
      · subst space
        refine ⟨fun acc some' => ?_, fresh⟩
        rw [if_pos rfl, if_neg Bool.false_ne_true, Gaps.rdropWhile_blank (by rfl)]
        by_cases nothing : (normLoop cs true).rdropWhile (· == ' ') = []
        · rw [if_pos nothing]
          simpa [splitChars] using some'
        · rw [if_neg nothing, splitChars, if_pos (by rfl)]
          simpa [fresh.resolve_left nothing] using some'
      · have kept : ∀ ds, (l :: ds).rdropWhile (· == ' ') = l :: ds.rdropWhile (· == ' ') :=
          Gaps.rdropWhile_letter (by simpa using space)
        have letters : ∀ acc,
          [] ∉ splitChars (· == ' ') ((l :: normLoop cs false).rdropWhile (· == ' ')) acc := by
          intro acc
          rw [kept, splitChars, if_neg (by simpa using space)]
          exact going _ (List.cons_ne_nil _ _)
        rw [if_neg space, if_neg space]
        exact ⟨fun acc _ => letters acc, .inr (letters [])⟩

/-- **A name is its words.** -/
theorem join_words (blanks : ∀ c, isWhitespace c = true → isAlphanumeric c = false) (name : String) :
    join " " (words (norm name)) = norm name := by
  have trimmed : (norm name).toList = (normLoop name.toList true).rdropWhile (· == ' ') := by
    have spaces := normLoop_spaces blanks name.toList true
    rw [norm, trimEnd_spaces (by rwa [String.toList_ofList]), String.toList_ofList]
  have normal : Normal (norm name) := by
    rcases (normLoop_words name.toList).2 with nothing | pieces
    · exact .inl (String.toList_inj.mp (trimmed.trans nothing))
    · exact .inr (trimmed ▸ pieces)
  exact normal.join_tokens

/-- A house number is a word more. -/
theorem words_number (blanks : ∀ c, isWhitespace c = true → isAlphanumeric c = false)
    (name : String) {n : String}
    (decimal : Decimal n) : words (norm (name ++ " " ++ n)) = words (norm name) ++ [n] := by
  have digits : ∀ c ∈ n.toList, isAsciiDigit c = true := List.all_eq_true.mp decimal.2
  have kept : n.toList.filterMap mark = n.toList := by
    rw [List.filterMap_congr fun c listed => mark_digit (digits c listed), List.filterMap_some]
  have marks : (name ++ " " ++ n).toList.filterMap mark =
    name.toList.filterMap mark ++ ' ' :: n.toList := by
    rw [String.toList_append, String.toList_append, List.filterMap_append, List.filterMap_append, kept,
      List.append_assoc]
    rfl
  have word : ∀ c ∈ n.toList, (c == ' ') = false := by
    intro c listed
    refine beq_eq_false_iff_ne.mpr ?_
    rintro rfl
    exact absurd (digits _ listed) (by decide)
  have some' : n.toList ≠ [] := fun none' => decimal.1 (String.toList_inj.mp none')
  rw [words_norm blanks, words_norm blanks, marks, splitChars_append _ _ _ (by rfl),
    splitChars_word _ _ word,
    List.filter_append, List.map_append]
  simp [some']

/-- What a name with a house number asks a locality for. -/
theorem query_number (blanks : ∀ c, isWhitespace c = true → isAlphanumeric c = false) {name n : String}
    (named : ∀ w ∈ words (norm name), isNumber w = false) (decimal : Decimal n) (ci : ℕ) (said : String) :
    query (words (norm (name ++ " " ++ n))) (ci, said, (words (norm (name ++ " " ++ n))).length, 0) =
      ⟨ci, said, some n, askedWords name⟩ := by
  have beside : (words (norm name) ++ [n]).take (words (norm name) ++ [n]).length ++
      (words (norm name) ++ [n]).drop ((words (norm name) ++ [n]).length + 0) =
      words (norm name) ++ [n] := by
    rw [List.take_length, Nat.add_zero, List.drop_length, List.append_nil]
  have number : (words (norm name) ++ [n]).find? isNumber = some n := by
    rw [List.find?_append, List.find?_eq_none.mpr fun w listed => by simp [named w listed]]
    simp [decimal.2]
  have letters : ((words (norm name) ++ [n]).filter fun w => !isNumber w) = words (norm name) := by
    rw [List.filter_append, List.filter_eq_self.mpr fun w listed => by simp [named w listed]]
    simp [decimal.2]
  rw [words_number blanks name decimal]
  simp only [query, beside, number, letters, askedWords]

end Words

section Lookup

variable [Unicode]

/-- A name of one locality. -/
def CalledBy (g : Localities) (key : String) (ci : ℕ) : Prop :=
  ∃ said, g.cityKeys.get key = some (ci, said)

/-- **The name of a street leads to it**: there are words to ask for it by, which are not heard as
the locality's own name; and the first row called so is of a street that has the name, and of which
the list keeps the names. -/
structure Reaches (g : Localities) (rs : List Row) (ci : ℕ) (name : String) : Prop where
  letters : ∀ w ∈ words (norm name), isNumber w = false
  some_word : askedWords name ≠ []
  not_city : ¬g.CalledBy (asked name) ci
  bare_not_city : ∀ w bare, askedWords name = [w] → stripLetter w = some bare → ¬g.CalledBy bare ci
  street : ∃ r, rs.find? (fun r => norm r.streetName = asked name) = some r ∧
    (r.streetCode ≠ ownCode ∨ (streetCodes rs).length ≤ 30) ∧
    ∃ r' ∈ rs, r'.streetCode = r.streetCode ∧ norm r'.streetName = norm name

/-- **A street and a number are found in a locality**, as a street that has the name, by its
official name. -/
def FoundAs (g : Localities) (rs : List Row) (ci : ℕ) (said city name n : String) : Prop :=
  ∃ r ∈ rs, norm r.streetName = norm name ∧ ∃ street streetSaid,
    officialName (ofStreet rs r.streetCode) = some street ∧
    g.resolveWithin (name ++ " " ++ n) city =
      some (.found ⟨said, (g.city ci).name, some street, streetSaid, some n, none⟩)

variable {g : Localities} {rs : List Row} {ci : ℕ} {said city name n : String}

theorem not_calledBy {key : String} (none' : g.cityKeys.get key = none) (ci : ℕ) :
    ¬g.CalledBy key ci := by
  rintro ⟨said, called⟩
  rw [none'] at called
  cases called

theorem isOwn_iff {q : Query} {key : String} : g.isOwn q key = true ↔ g.CalledBy key q.ci := by
  rw [isOwn, CalledBy]
  cases g.cityKeys.get key with
  | none => simp
  | some found => simp [Prod.ext_iff]

/-- Such a name asks for a street, and not for the locality. -/
theorem Reaches.not_namesCity (reaches : g.Reaches rs ci name) (said : String) (number : Option String) :
    g.namesCity ⟨ci, said, number, askedWords name⟩ = false := by
  have empty : (askedWords name).isEmpty = false := by simpa using reaches.some_word
  have own : g.isOwn ⟨ci, said, number, askedWords name⟩ (asked name) = false :=
    Bool.eq_false_iff.mpr fun same => reaches.not_city (isOwn_iff.mp same)
  rw [namesCity]
  simp only [Query.heard]
  rw [empty, Bool.false_or, ← asked, own, Bool.false_or]
  refine Bool.eq_false_iff.mpr fun bare => ?_
  obtain ⟨one, bare⟩ := Bool.and_eq_true_iff.mp bare
  obtain ⟨w, only⟩ := List.length_eq_one_iff.mp (beq_iff_eq.mp one)
  have heard : asked name = w := by
    rw [asked, only]
    simp [join]
  cases stripped : stripLetter w with
  | none =>
    rw [heard, stripped] at bare
    cases bare
  | some b =>
    rw [heard, stripped] at bare
    exact reaches.bare_not_city w b only stripped (isOwn_iff.mp bare)

/-- The first name looked for is the one asked for. -/
theorem exactStreet_asked {si : ℕ} (said : String) (number : Option String) (some' : askedWords name ≠ [])
    (held : (g.city ci).streetKeys.get (asked name) = some si) :
    g.exactStreet ⟨ci, said, number, askedWords name⟩ = some (.found ⟨said, (g.city ci).name,
      some ((g.city ci).street si), (g.city ci).streetWritten.get (asked name), number, none⟩) := by
  obtain ⟨rest, candidates⟩ : ∃ rest, forms (askedWords name) = asked name :: rest := by
    obtain ⟨w, ws, eq⟩ := List.exists_cons_of_ne_nil some'
    rw [asked, eq]
    exact ⟨_, rfl⟩
  rw [exactStreet]
  simp only [Query.candidates]
  rw [candidates, List.findSome?_cons, held]
  rfl

theorem resolveIn_exact {ws : List String} {named : Named} {l : Lookup}
    (names : g.namesCity (query ws named) = false)
    (found : g.exactStreet (query ws named) = some l) : g.resolveIn ws named = l := by
  rw [resolveIn, names, if_neg Bool.false_ne_true, searches, List.findSome?_cons, found]
  rfl

theorem resolveWithinWritten_called {street : String}
    (called : g.cityKeys.get (norm city) = some (ci, said))
    (some' : words (norm street) ≠ []) : g.resolveWithinWritten street city =
      some (g.resolveIn (words (norm street)) (ci, said, (words (norm street)).length, 0)) := by
  have filled : ¬(words (norm street)).isEmpty = true := by simpa using some'
  rw [resolveWithinWritten, called]
  simp only [Option.bind_eq_bind, Option.bind_some]
  rw [if_neg filled]

/-- **A name of which nothing is taken out leads to its street**, unless it is one of the locality
itself with more than thirty streets, or is heard as the locality's name. -/
theorem reaches_of_kept (blanks : ∀ c, isWhitespace c = true → isAlphanumeric c = false) {r : Row}
    (first : rs.find? (fun r => norm r.streetName = norm name) = some r)
    (stays : r.streetCode ≠ ownCode ∨ (streetCodes rs).length ≤ 30)
    (numbers : ∀ w ∈ words (norm name), isNumber w = false) (some' : words (norm name) ≠ [])
    (title : (words (norm name)).head? ≠ some "רחוב" ∧ (words (norm name)).head? ≠ some "רח")
    (kinds : ∀ w ∈ words (norm name), w ∉ kindWords) (city : ¬g.CalledBy (norm name) ci)
    (bare : ∀ b, stripLetter (norm name) = some b → ¬g.CalledBy b ci) : g.Reaches rs ci name := by
  have kept : askedWords name = words (norm name) := by
    rw [askedWords, if_neg fun either => either.elim title.1 title.2]
    exact List.filter_eq_self.mpr fun w listed => by simpa using kinds w listed
  have same : asked name = norm name := by
    rw [asked, kept, join_words blanks]
  constructor
  · exact numbers
  · rwa [kept]
  · rwa [same]
  · intro w b only stripped
    have one : norm name = w := by
      rw [← same, asked, only]
      simp [join]
    exact bare b (one ▸ stripped)
  · have alike : norm r.streetName = norm name := by simpa using List.find?_some first
    rw [same]
    exact ⟨r, first, stays, r, List.mem_of_find?_eq_some first, rfl, alike⟩

/-- A reading with a street and a number is the answer. -/
theorem resolveWithin_number {street : String} {l : Lookup}
    (first : g.resolveWithinWritten street city = some l)
    (number : hasNumber l = true) : g.resolveWithin street city = some l := by
  rw [resolveWithin, first]
  exact if_pos number

/-- **Every listed street whose name leads to it is found by it**, with its house number, in every run. -/
theorem listed_found (blanks : ∀ c, isWhitespace c = true → isAlphanumeric c = false) {text code : String}
    (same : (Localities.fromTsv text).Same g) (listed : (cityCodes (rowsOf text))[ci]? = some code)
    (called : g.cityKeys.get (norm city) = some (ci, said)) (decimal : Decimal n)
    (reaches : g.Reaches (ofCity (rowsOf text) code) ci name) :
    g.FoundAs (ofCity (rowsOf text) code) ci said city name n := by
  obtain ⟨r, first, stays, r', here, alike, names⟩ := reaches.street
  have read := readCity_read (rowsOf text) code
  have known : r.streetCode ∈ (readCity (rowsOf text) code).codes :=
    (read.known _).mpr ⟨r, List.mem_of_find?_eq_some first, rfl⟩
  have city' := same.city ci
  rw [Localities.fromTsv, city_ofRows listed] at city'
  have held : (g.city ci).streetKeys.get (asked name) =
    some ((readCity (rowsOf text) code).place r.streetCode) := by
    rw [← HashMap.get_same city'.streetKeys, read.get_close, first]
    simp [Option.filter_some, stays]
  have street : officialName (ofStreet (ofCity (rowsOf text) code) r'.streetCode) =
      some ((g.city ci).street ((readCity (rowsOf text) code).place r.streetCode)) := by
    rw [alike, read.street_close known, City.street, City.street, city'.streets]
  have asks := query_number blanks reaches.letters decimal ci said
  have found := exactStreet_asked said (some n) reaches.some_word held
  have answer : g.resolveWithinWritten (name ++ " " ++ n) city = some
      (.found ⟨said, (g.city ci).name,
        some ((g.city ci).street ((readCity (rowsOf text) code).place r.streetCode)),
        (g.city ci).streetWritten.get (asked name), some n, none⟩) := by
    rw [resolveWithinWritten_called called (by simp [words_number blanks name decimal]), resolveIn_exact]
    · rw [asks]
      exact reaches.not_namesCity said (some n)
    · rw [asks]
      exact found
  exact ⟨r', here, names, _, _, street, resolveWithin_number answer rfl⟩

end Lookup

section Samples

attribute [local instance] Unicode.plain

/-- Two rows of שדרות. -/
def sderotText : String := "1031\tשדרות\t126\tקבוץ גלויות\tofficial\n1031\tשדרות\t125\tהגפן\tofficial"

def exiles : Row := ⟨"1031", "שדרות", "126", "קבוץ גלויות", "official"⟩

def gefen : Row := ⟨"1031", "שדרות", "125", "הגפן", "official"⟩

/-- The rows that are read of the text. -/
def sderotRows : {rows : List Row // rowsOf sderotText = rows} := ⟨[exiles, gefen], by decide +kernel⟩

def sderot : Localities := .ofRows sderotRows

/-- One street is asked for by its name, and the other by a word of it, which leads to none. -/
theorem sderot_asked : (cityCodes sderotRows)[0]? = some "1031" ∧
    sderot.cityKeys.get (norm "שדרות") = some (0, "שדרות") ∧
    sderot.cityKeys.get (norm exiles.streetName) = none ∧ sderot.cityKeys.get "הגפנ" = none ∧
    sderot.cityKeys.get "גפנ" = none ∧
    (∀ r ∈ sderotRows.1, ∀ w ∈ words (norm r.streetName), isNumber w = false) ∧
    askedWords gefen.streetName = ["הגפנ"] ∧ asked gefen.streetName = "הגפנ" ∧
    stripLetter "הגפנ" = some "גפנ" ∧
    (ofCity sderotRows "1031").find? (fun r => norm r.streetName = "הגפנ") = some gefen ∧
    (sderot.resolveWithin (exiles.streetName ++ " " ++ "5") "שדרות").any hasStreet = false := by
  decide +kernel

theorem sderot_read : (Localities.fromTsv sderotText).Same sderot := by
  rw [fromTsv, sderotRows.2]
  exact ⟨List.forall₂_same.mpr fun c _ => City.Same.refl c, List.Perm.refl _⟩

theorem gefen_reached : sderot.Reaches (ofCity sderotRows "1031") 0 gefen.streetName := by
  obtain ⟨-, -, -, word, bare, numbers, words, name, stripped, first, -⟩ := sderot_asked
  constructor
  · exact numbers gefen (.tail _ (.head _))
  · rw [words]
    exact List.cons_ne_nil _ _
  · rw [name]
    exact not_calledBy word 0
  · intro w b only strips
    obtain rfl := List.singleton_inj.mp (words.symm.trans only)
    obtain rfl := Option.some.inj (stripped.symm.trans strips)
    exact not_calledBy bare 0
  · rw [name]
    exact ⟨gefen, first, .inl (by decide), gefen, List.mem_of_find?_eq_some first, rfl, rfl⟩

/-- A street is found by its name. -/
theorem gefen_found :
    sderot.FoundAs (ofCity (rowsOf sderotText) "1031") 0 "שדרות" "שדרות" gefen.streetName "5" :=
  listed_found plain_blanks sderot_read (sderotRows.2 ▸ sderot_asked.1) sderot_asked.2.1
    ⟨by decide, by decide⟩
    (sderotRows.2 ▸ gefen_reached)

/-- **The ingathering of the exiles is no street**: "קבוץ" is taken for a word of the locality. -/
theorem exiles_lost : ¬∀ (text : String) (g : Localities) (ci : ℕ) (code city said : String),
    (Localities.fromTsv text).Same g → (cityCodes (rowsOf text))[ci]? = some code →
    g.cityKeys.get (norm city) = some (ci, said) →
    ∀ r ∈ ofCity (rowsOf text) code, r.streetCode ≠ ownCode →
    (∀ ci, ¬g.CalledBy (norm r.streetName) ci) → (∀ w ∈ words (norm r.streetName), isNumber w = false) →
    ∀ n, Decimal n → g.FoundAs (ofCity (rowsOf text) code) ci said city r.streetName n := by
  intro all
  obtain ⟨code, called, noCity, -, -, numbers, -, -, -, -, lost⟩ := sderot_asked
  obtain ⟨r, -, -, street, streetSaid, -, found⟩ :=
    all sderotText sderot 0 "1031" "שדרות" "שדרות" sderot_read
    (sderotRows.2 ▸ code) called exiles (sderotRows.2 ▸ .head _) (by decide) (not_calledBy noCity)
    (numbers exiles (.head _)) "5" ⟨by decide, by decide⟩
  rw [found] at lost
  cases lost

end Samples

end Localities

end Callora
