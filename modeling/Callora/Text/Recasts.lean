/-
**What every replacement takes, and what it puts in its place.**

A match of a pattern is a numeral with what leads to it, and what stands around it: the character before
and after, or the announcement of an identifier. What stands around is put back, the rest is said
(`Recast`). From this follows for each replacement which beginnings of a text it keeps (`Recasts.leads`)
and which characters are never lost (`Recasts.keeps`).
-/
import Callora.Text.Search
import Callora.Text.Spoken

set_option linter.unusedSectionVars false

namespace Callora.Text

open Regex

attribute [local instance] decidableListed

section Voice

/-- The characters of what is said: words, and the digits of a number that is too large for words. -/
def isVoiced (c : Char) : Bool := isSpoken c || isAsciiDigit c

/-- What is said. -/
def Voiced (s : String) : Prop := ∀ c ∈ s.toList, isVoiced c = true

theorem Spoken.voiced {s : String} (spoken : Spoken s) : Voiced s :=
  fun c listed => Bool.or_eq_true_iff.mpr (.inl (spoken c listed))

theorem Voiced.append {s t : String} (first : Voiced s) (second : Voiced t) : Voiced (s ++ t) := by
  unfold Voiced
  rw [String.toList_append]
  exact List.forall_mem_append.mpr ⟨first, second⟩

theorem isAsciiDigit_isDigit {c : Char} (own : c.isDigit = true) : isAsciiDigit c = true := by
  simp only [Char.isDigit, Bool.and_eq_true, decide_eq_true_eq] at own
  simp only [isAsciiDigit, Bool.and_eq_true, decide_eq_true_eq]
  exact own

theorem toString_voiced {n : Int} (low : 0 ≤ n) : Voiced (toString n) := by
  obtain ⟨k, rfl⟩ := Int.eq_ofNat_of_zero_le low
  intro c listed
  have digits : (toString (k : Int)).toList = Nat.toDigits 10 k := Nat.toList_repr
  rw [digits] at listed
  exact Bool.or_eq_true_iff.mpr
    (.inr (isAsciiDigit_isDigit (Nat.isDigit_of_mem_toDigits (by decide) (by decide) listed)))

theorem numberWords_voiced {n : Int} (low : 0 ≤ n) (gender : Gender) : Voiced (numberWords n gender) := by
  by_cases high : n ≤ 9999
  · exact (numberWords_spoken low high gender).voiced
  · unfold numberWords
    rw [if_pos (by omega)]
    exact toString_voiced low

theorem countPhrase_voiced {n : Int} (low : 0 ≤ n) (gender : Gender) {singular plural : String}
    (one : Spoken singular) (many : Spoken plural) : Voiced (countPhrase n gender singular plural) := by
  have blank : Spoken " " := by decide
  unfold countPhrase
  split
  · exact one.voiced
  · split
    · cases gender with
      | masculine => exact (Spoken.append (by decide) many).voiced
      | feminine => exact (Spoken.append (by decide) many).voiced
    · exact ((numberWords_voiced low gender).append blank.voiced).append many.voiced

variable [RegexTables]

theorem valueOf_nonneg {cs : List Char} (decimal : ∀ c ∈ cs, isDecimal c = true) : 0 ≤ valueOf cs := by
  unfold valueOf
  cases read : parseI64 (String.ofList cs) with
  | none => exact Int.le_refl 0
  | some n => exact (parseI64_digits decimal read).1

theorem money_voiced {whole : List Char} (decimal : ∀ c ∈ whole, isDecimal c = true)
    (cents : Option (List Char)) :
    Voiced (money whole cents) := by
  have shekels : Voiced (countPhrase (valueOf whole) .masculine "שקל אחד" "שקל") :=
    countPhrase_voiced (valueOf_nonneg decimal) .masculine (by decide) (by decide)
  have also' : Spoken " ו" := by decide
  unfold money
  dsimp only
  split
  · next c read =>
    have low : 0 < c := by simpa using (Option.filter_eq_some_iff.mp read).2
    exact (shekels.append also'.voiced).append
      (countPhrase_voiced (Int.le_of_lt low) .feminine (by decide) (by decide))
  · exact shekels

end Voice

section Recast

variable [RegexTables]

/-- A character that may stand between the beginning of what is replaced and its first digit. -/
def isLead (c : Char) : Bool :=
  c == '₪' || isWhitespace c || c == '-' || c == '+' || ('A' ≤ c && c ≤ 'Z') || ('a' ≤ c && c ≤ 'z')

/-- A numeral: a digit, what leads to it, and what follows. -/
def Numeral (cs : List Char) : Prop :=
  ∃ lead d rest, cs = lead ++ d :: rest ∧ isDecimal d = true ∧ ∀ c ∈ lead, isLead c = true

theorem Numeral.append {cs : List Char} (numeral : Numeral cs) (more : List Char) :
    Numeral (cs ++ more) := by
  obtain ⟨lead, d, rest, rfl, own, leading⟩ := numeral
  exact ⟨lead, d, rest ++ more, by simp, own, leading⟩

theorem Numeral.lead {cs lead : List Char} (numeral : Numeral cs)
    (leading : ∀ c ∈ lead, isLead c = true) :
    Numeral (lead ++ cs) := by
  obtain ⟨before, d, rest, rfl, own, leading'⟩ := numeral
  exact ⟨lead ++ before, d, rest, by simp, own, List.forall_mem_append.mpr ⟨leading, leading'⟩⟩

/-- A run of digits that is not empty. -/
theorem Numeral.digits {ds : List Char} (some' : 1 ≤ ds.countP isDecimal)
    (all : ∀ c ∈ ds, isDecimal c = true) :
    Numeral ds := by
  cases ds with
  | nil => cases some'
  | cons d rest => exact ⟨[], d, rest, rfl, all d List.mem_cons_self, by simp⟩

/-- **What is taken, and what stands in its place.** -/
inductive Recast (core voice : Char → Bool) : List Char → List Char → Prop where
  | intro (before after : List Char) {inner said : List Char} (numeral : Numeral inner)
      (within : ∀ c ∈ inner, core c = true) (voiced : said = inner ∨ ∀ c ∈ said, voice c = true) :
      Recast core voice (before ++ inner ++ after) (before ++ said ++ after)

/-- A match all of which is said. -/
theorem Recast.whole {core voice : Char → Bool} {taken said : List Char} (numeral : Numeral taken)
    (within : ∀ c ∈ taken, core c = true) (voiced : ∀ c ∈ said, voice c = true) :
    Recast core voice taken said := by
  have recast := Recast.intro [] [] numeral within (.inr voiced)
  simpa using recast

/-- A pattern whose every match is recast so. -/
def Recasts (core voice : Char → Bool) (r : Pat) (f : Said) : Prop :=
  ∀ prev cs m, r.first prev cs = some m → Recast core voice m.taken (f m)

variable {core voice K : Char → Bool} {r : Pat} {f : Said}

theorem Recasts.leads (recasts : Recasts core voice r f) : Leads isDecimal isLead r f := by
  intro prev cs m found
  have recast := recasts prev cs m found
  generalize m.taken = taken at recast
  generalize f m = out at recast
  obtain ⟨before, after, ⟨lead, d, rest, rfl, own, leading⟩, -, -⟩ := recast
  next said => exact ⟨before, lead, d, rest ++ after, said ++ after, by simp, by simp, leading, own⟩

/-- Characters that are never replaced are never lost. -/
theorem Recasts.keeps (recasts : Recasts core voice r f) (outside : ∀ c, K c = true → core c = false)
    (prev : Option Char) (cs : List Char) : cs.countP K ≤ (r.replaceFrom f prev 0 cs).countP K := by
  refine replace_countP_ge fun prev cs m found => ?_
  have recast := recasts prev cs m found
  generalize m.taken = taken at recast ⊢
  generalize f m = out at recast ⊢
  obtain ⟨before, after, -, within, -⟩ := recast
  next inner said =>
    have none' : inner.countP K = 0 := by
      refine List.countP_eq_zero.mpr fun c listed held => ?_
      have absurd' := within c listed
      rw [outside c held] at absurd'
      cases absurd'
    simp only [List.countP_append]
    omega

end Recast

section Amounts

variable [RegexTables]

theorem oneOf_takes {set : String} {c : Char} (own : (oneOf set).takes c = true) : c ∈ set.toList :=
  List.contains_iff_mem.mp own

/-- Digits that a pattern takes at least one of. -/
theorem run_digits {least : Nat} {more : Option Nat} {prev : Option Char} {cs : List Char}
    {m : Match Char Nat}
    (listed : m ∈ (Re.rep (least + 1) more digit).run prev cs) :
    Numeral m.taken ∧ ∀ c ∈ m.taken, isDecimal c = true := by
  have decimal : ∀ c ∈ m.taken, isDecimal c = true := run_takes _ _ _ m listed
  have enough := digit_needs.rep _ _ m listed
  exact ⟨Numeral.digits (by omega) decimal, decimal⟩

theorem sayMoney_voiced {m : Match Char Nat} {whole : List Char}
    (decimal : ∀ c ∈ whole, isDecimal c = true)
    (first : m.get 1 = some whole) : ∀ c ∈ sayMoney m, isVoiced c = true := by
  rw [sayMoney, groupText, first]
  exact money_voiced decimal _

/-- An amount after the sign: the sign, white space, and a digit. -/
theorem moneyBefore_parts {prev : Option Char} {cs : List Char} {m : Match Char Nat}
    (listed : m ∈ moneyBefore.run prev cs) :
    ∃ gap whole more, m.taken = '₪' :: (gap ++ (whole ++ more)) ∧ m.get 1 = some whole ∧
      (∀ c ∈ gap, isWhitespace c = true) ∧ Numeral whole ∧ ∀ c ∈ whole, isDecimal c = true := by
  obtain ⟨sign, hsign, m₁, listed₁, rfl⟩ := mem_seq.mp listed
  obtain ⟨gap, hgap, m₂, listed₂, rfl⟩ := mem_seq.mp listed₁
  obtain ⟨group, hgroup, cents, hcents, rfl⟩ := mem_seq.mp listed₂
  obtain ⟨whole, hwhole, rfl⟩ := mem_group.mp hgroup
  obtain ⟨numeral, decimal⟩ := run_digits hwhole
  obtain ⟨c, left, -, own, rfl⟩ := mem_chars.mp hsign
  have same : c ∈ ['₪'] := List.contains_iff_mem.mp own
  obtain rfl := List.mem_singleton.mp same
  refine ⟨gap.taken, whole.taken, cents.taken, rfl, ?_, run_takes _ _ _ gap hgap, numeral, decimal⟩
  rw [get_andThen, get_andThen, get_andThen,
    run_get_none (r := centsPattern) rfl _ _ cents hcents, get_group]
  rfl

theorem moneyAfter_recasts : Recasts moneyAfter.takes isVoiced moneyAfter sayMoney := by
  intro prev cs m found
  have listed := (first_some found).1
  have within := run_takes moneyAfter prev cs m listed
  obtain ⟨group, hgroup, m₁, listed₁, rfl⟩ := mem_seq.mp listed
  obtain ⟨whole, hwhole, rfl⟩ := mem_group.mp hgroup
  obtain ⟨numeral, decimal⟩ := run_digits hwhole
  have others : m₁.get 1 = none :=
    run_get_none (r := .seqs [centsPattern, .star space, shekel]) rfl _ _ m₁ listed₁
  refine Recast.whole (numeral.append m₁.taken) within (sayMoney_voiced decimal ?_)
  rw [get_andThen, others, get_group]
  rfl

theorem percent_recasts : Recasts percent.takes isVoiced percent sayPercent := by
  intro prev cs m found
  have listed := (first_some found).1
  have within := run_takes percent prev cs m listed
  obtain ⟨group, hgroup, m₁, listed₁, rfl⟩ := mem_seq.mp listed
  obtain ⟨whole, hwhole, rfl⟩ := mem_group.mp hgroup
  obtain ⟨numeral, decimal⟩ := run_digits hwhole
  have others : m₁.get 1 = none := run_get_none (r := .seqs [.star space, oneOf "%"]) rfl _ _ m₁ listed₁
  have first : Match.get (Match.andThen { whole with groups := (1, whole.taken) :: whole.groups } m₁) 1 =
      some whole.taken := by
    rw [get_andThen, others, get_group]
    rfl
  refine Recast.whole (numeral.append m₁.taken) within ?_
  rw [sayPercent, groupText, first]
  exact (numberWords_voiced (valueOf_nonneg decimal) .masculine).append (Spoken.voiced (by decide))

theorem number_recasts : Recasts number.takes isVoiced number sayNumber := by
  intro prev cs m found
  have decimal := number_decimal found
  exact Recast.whole (run_digits (first_some found).1).1 decimal
    fun c listed => Bool.or_eq_true_iff.mpr (.inl (sayNumber_spoken m decimal c listed))

end Amounts

section Numerals

variable [RegexTables]

theorem identifierText_numeral {prev : Option Char} {cs : List Char} {m : Match Char Nat}
    (listed : m ∈ identifierText.run prev cs) : Numeral m.taken := by
  obtain ⟨letters, hletters, m₁, listed₁, rfl⟩ := mem_seq.mp listed
  obtain ⟨dash, hdash, m₂, listed₂, rfl⟩ := mem_seq.mp listed₁
  obtain ⟨first, hfirst, rest, hrest, rfl⟩ := mem_seq.mp listed₂
  obtain ⟨d, left, -, own, rfl⟩ := mem_chars.mp hfirst
  have letters' : ∀ c ∈ letters.taken, isLead c = true := by
    intro c listed
    have latin : (('A' ≤ c && c ≤ 'Z') || ('a' ≤ c && c ≤ 'z')) = true :=
      run_takes _ _ _ letters hletters c listed
    rw [isLead, Bool.or_assoc _ (_ && _), latin, Bool.or_true]
  have dashes : ∀ c ∈ dash.taken, isLead c = true := by
    intro c listed
    rw [List.mem_singleton.mp (oneOf_takes (run_takes _ _ _ dash hdash c listed))]
    rfl
  have digit' : isDecimal d = true := isDecimal_ascii own
  have numeral : Numeral ([d] ++ rest.taken) := ⟨[], d, rest.taken, rfl, digit', by simp⟩
  exact (numeral.lead dashes).lead letters'

/-- The characters of an identifier as it is spelled. -/
def isSpelled (c : Char) : Bool := isSpoken c || c.isAlpha || c == ','

theorem isAlpha_toUpper {c : Char} (own : c.isAlpha = true) : c.toUpper.isAlpha = true := by
  have ascii : ∀ n < 128, (Char.ofNat n).isAlpha = true →
    (Char.ofNat n).toUpper.isAlpha = true := by decide
  have small : c.toNat < 128 := by
    have cased : (c.isUpper || c.isLower) = true := own
    rcases Bool.or_eq_true_iff.mp cased with upper | lower
    · have bound : c.toNat ≤ 90 := (of_decide_eq_true upper).2
      omega
    · have bound : c.toNat ≤ 122 := of_decide_eq_true (Bool.and_eq_true_iff.mp lower).2
      omega
  have same := ascii c.toNat small
  rw [Char.ofNat_toNat] at same
  exact same own

theorem mem_splitPattern {pattern : List Char} {fuel : Nat} {s : List Char} :
    ∀ piece ∈ splitPattern pattern fuel s, ∀ c ∈ piece, c ∈ s := by
  induction fuel generalizing s with
  | zero =>
    intro piece listed c own
    rwa [List.mem_singleton.mp listed] at own
  | succ fuel ih =>
    intro piece listed c own
    unfold splitPattern at listed
    split at listed
    · next before after found =>
      rw [splitFirst_eq_append found]
      rcases List.mem_cons.mp listed with rfl | later
      · simp [own]
      · simp [ih piece later c own]
    · rwa [List.mem_singleton.mp listed] at own

theorem mem_intersperse {α : Type} {sep x : α} {xs : List α} (listed : x ∈ xs.intersperse sep) :
    x = sep ∨ x ∈ xs := by
  induction xs with
  | nil => cases listed
  | cons y ys ih =>
    cases ys with
    | nil => exact .inr listed
    | cons z zs =>
      rw [List.intersperse_cons_cons] at listed
      rcases List.mem_cons.mp listed with rfl | later
      · exact .inr List.mem_cons_self
      · rcases List.mem_cons.mp later with same | rest
        · exact .inl same
        · exact (ih rest).imp_right (List.mem_cons_of_mem y)

theorem mem_join {sep : String} {pieces : List String} {c : Char}
    (listed : c ∈ (join sep pieces).toList) :
    c ∈ sep.toList ∨ ∃ piece ∈ pieces, c ∈ piece.toList := by
  rw [join, String.toList_ofList] at listed
  obtain ⟨part, held, own⟩ := List.mem_flatten.mp listed
  rcases mem_intersperse held with rfl | piece
  · exact .inl own
  · obtain ⟨word, held', rfl⟩ := List.mem_map.mp piece
    exact .inr ⟨word, held', own⟩

/-- What replaces a pattern has no other characters. -/
theorem mem_replace {s pattern by' : String} {c : Char} (listed : c ∈ (replace s pattern by').toList) :
    c ∈ by'.toList ∨ c ∈ s.toList := by
  rcases mem_join listed with sep | ⟨piece, held, own⟩
  · exact .inl sep
  · obtain ⟨part, held', rfl⟩ := List.mem_map.mp held
    rw [String.toList_ofList] at own
    exact .inr (mem_splitPattern part held' c own)

theorem spellIdentifier_spelled (id : List Char) :
    ∀ c ∈ (spellIdentifier id).toList, isSpelled c = true := by
  intro c listed
  rcases mem_replace listed with comma | spelled
  · have same : c ∈ [','] := comma
    rw [List.mem_singleton.mp same]
    rfl
  · rcases mem_join spelled with blank | ⟨piece, held, own⟩
    · have same : c ∈ [' '] := blank
      rw [List.mem_singleton.mp same]
      rfl
    · obtain ⟨d, -, said⟩ := List.mem_filterMap.mp held
      split at said
      · next digit' =>
        obtain rfl := Option.some.inj said
        have spoken := digitsSpelled_spoken [d]
        simp only [digitsSpelled, List.filter_cons, digit', if_true, List.filter_nil, List.map_cons,
          List.map_nil] at spoken
        have one : ∀ s : String, (join " " [s]).toList = s.toList := by
          intro s
          rw [join_toList_cons]
          simp
        have word := spoken c (by rw [one]; exact own)
        simp [isSpelled, word]
      · split at said
        · next letter' =>
          obtain rfl := Option.some.inj said
          rw [String.toList_ofList] at own
          rw [List.mem_singleton.mp own]
          simp [isSpelled, isAlpha_toUpper letter']
        · split at said
          · obtain rfl := Option.some.inj said
            have same : c ∈ [','] := own
            rw [List.mem_singleton.mp same]
            rfl
          · cases said

/-- The announcement of an identifier is kept, whatever it is. -/
theorem identifier_recasts : Recasts identifierText.takes isSpelled identifier sayIdentifier := by
  intro prev cs m found
  obtain ⟨before, hbefore, id, hid, rfl⟩ := mem_seq.mp (first_some found).1
  obtain ⟨lead, -, rfl⟩ := mem_group.mp hbefore
  obtain ⟨inner, hinner, rfl⟩ := mem_group.mp hid
  have recast : Recast identifierText.takes isSpelled (lead.taken ++ inner.taken ++ [])
      (lead.taken ++ (spellIdentifier inner.taken).toList ++ []) :=
    .intro lead.taken [] (identifierText_numeral hinner) (run_takes identifierText _ _ inner hinner)
      (.inr (spellIdentifier_spelled inner.taken))
  rw [List.append_nil, List.append_nil] at recast
  have first : groupText (Match.andThen { lead with groups := (1, lead.taken) :: lead.groups }
      { inner with groups := (2, inner.taken) :: inner.groups }) 1 = lead.taken := by
    rw [groupText, get_andThen, get_group_other rfl,
      run_get_none (r := identifierText) rfl _ _ inner hinner, get_group]
    rfl
  have second : groupText (Match.andThen { lead with groups := (1, lead.taken) :: lead.groups }
      { inner with groups := (2, inner.taken) :: inner.groups }) 2 = inner.taken := by
    rw [groupText, get_andThen, get_group]
    rfl
  rw [sayIdentifier, first, second]
  exact recast

theorem phoneNumber_numeral {prev : Option Char} {cs : List Char} {m : Match Char Nat}
    (listed : m ∈ (Re.alts subscriberNumber [tollFreeNumber]).run prev cs) : Numeral m.taken := by
  have lone : ∀ {set : String} {prev cs}, (∀ c ∈ set.toList, isAsciiDigit c = true) →
      ∀ a ∈ (oneOf set).run prev cs, Numeral a.taken := by
    intro set prev cs digits a listed
    obtain ⟨d, left, -, own, rfl⟩ := mem_chars.mp listed
    exact ⟨[], d, [], rfl, isDecimal_ascii (digits d (List.contains_iff_mem.mp own)), by simp⟩
  rcases mem_alt.mp listed with subscriber | tollFree
  · obtain ⟨prefix', hprefix, m₁, -, rfl⟩ := mem_seq.mp subscriber
    refine Numeral.append ?_ m₁.taken
    rcases mem_alt.mp hprefix with abroad | home
    · obtain ⟨code, hcode, gap, -, rfl⟩ := mem_seq.mp abroad
      refine Numeral.append ?_ gap.taken
      rw [run_lit code hcode]
      exact ⟨['+'], '9', ['7', '2'], rfl, rfl, by decide⟩
    · exact lone (by decide) prefix' home
  · obtain ⟨first, hfirst, m₁, -, rfl⟩ := mem_seq.mp tollFree
    exact (lone (by decide) first hfirst).append m₁.taken

/-- What stands before a phone number and after it is kept. -/
theorem phone_recasts :
    Recasts (Re.alts subscriberNumber [tollFreeNumber]).takes isVoiced phone sayPhone := by
  intro prev cs m found
  obtain ⟨before, hbefore, m₁, listed₁, rfl⟩ := mem_seq.mp (first_some found).1
  obtain ⟨inner, hinner, after, hafter, rfl⟩ := mem_seq.mp listed₁
  obtain ⟨before, hbefore', rfl⟩ := mem_group.mp hbefore
  obtain ⟨inner, hinner', rfl⟩ := mem_group.mp hinner
  obtain ⟨after, hafter', rfl⟩ := mem_group.mp hafter
  have none₂ : ∀ k, inner.get k = none := fun k => run_get_none rfl _ _ inner hinner'
  have none₃ : ∀ k, after.get k = none := fun k => run_get_none rfl _ _ after hafter'
  have recast : Recast (Re.alts subscriberNumber [tollFreeNumber]).takes isVoiced
      (before.taken ++ inner.taken ++ after.taken)
        (before.taken ++ (digitsSpelled inner.taken).toList ++ after.taken) :=
    .intro before.taken after.taken (phoneNumber_numeral hinner') (run_takes _ _ _ inner hinner')
      (.inr (digitsSpelled_spoken inner.taken).voiced)
  rw [List.append_assoc] at recast
  have put : ∀ m : Match Char Nat, m.get 1 = some before.taken → m.get 2 = some inner.taken →
      m.get 3 = some after.taken →
      sayPhone m = before.taken ++ (digitsSpelled inner.taken).toList ++ after.taken := by
    intro m one two three
    rw [sayPhone, groupText, groupText, groupText, one, two, three]
    rfl
  rw [put]
  · exact recast
  · simp [get_andThen, get_group, get_group_other, none₂, none₃]
  · simp [get_andThen, get_group, get_group_other, none₃]
  · simp [get_andThen, get_group]

end Numerals

section Clock

variable [RegexTables]

/-- `[01]?\d|2[0-3]`, and `[0-3]?\d` and the like: digits, and at least one. -/
theorem twoDigits_numeral {r : Pat} (only : ∀ c, r.takes c = true → isDecimal c = true)
    (needs : Needs isDecimal 1 r)
    {prev : Option Char} {cs : List Char} {m : Match Char Nat} (listed : m ∈ r.run prev cs) :
    Numeral m.taken ∧ ∀ c ∈ m.taken, isDecimal c = true := by
  have decimal : ∀ c ∈ m.taken, isDecimal c = true :=
    fun c own => only c (run_takes r prev cs m listed c own)
  exact ⟨Numeral.digits (needs prev cs m listed) decimal, decimal⟩

theorem unsignedOf_lt (cs : List Char) : unsignedOf cs < 10 ^ cs.length := by
  unfold unsignedOf
  cases read : parseU32 (String.ofList cs) with
  | none => exact Nat.pow_pos (by decide)
  | some n =>
    unfold parseU32 at read
    rw [String.toList_ofList] at read
    have value := (Option.filter_eq_some_iff.mp read).1
    show n < 10 ^ cs.length
    split at value
    · exact Nat.lt_of_lt_of_le (digitsValue_lt value) (Nat.pow_le_pow_right (by decide) (Nat.le_succ _))
    · exact digitsValue_lt value

theorem oneOf_decimal {set : String} (digits : ∀ c ∈ set.toList, isAsciiDigit c = true) {c : Char}
    (own : (oneOf set).takes c = true) : isDecimal c = true :=
  isDecimal_ascii (digits c (oneOf_takes own))

theorem range_decimal {first last : Char} (low : '0' ≤ first) (high : last ≤ '9') {c : Char}
    (own : (range first last : Pat).takes c = true) : isDecimal c = true := by
  have both : (decide (first ≤ c) && decide (c ≤ last)) = true := own
  simp only [Bool.and_eq_true, decide_eq_true_eq] at both
  refine isDecimal_ascii ?_
  simp only [isAsciiDigit, Bool.and_eq_true, decide_eq_true_eq]
  exact ⟨Char.le_trans low both.1, Char.le_trans both.2 high⟩

/-- `[01]?\d|2[0-3]` -/
def hourText : Pat := .alts (.seqs [.opt (oneOf "01"), digit]) [.seqs [oneOf "2", range '0' '3']]

/-- `[0-5]\d` -/
def minuteText : Pat := .seqs [range '0' '5', digit]

theorem hourText_decimal {c : Char} (own : hourText.takes c = true) : isDecimal c = true := by
  rcases Bool.or_eq_true_iff.mp own with low | high
  · rcases Bool.or_eq_true_iff.mp low with tens | units
    · exact oneOf_decimal (by decide) tens
    · exact units
  · rcases Bool.or_eq_true_iff.mp high with tens | units
    · exact oneOf_decimal (by decide) tens
    · exact range_decimal (by decide) (by decide) units

theorem hourText_needs : Needs isDecimal 1 hourText :=
  (((Needs.none _).seq digit_needs).mono (by decide)).alt
    (((oneOf_needs (by decide)).seq (Needs.none _)).mono (by decide))

theorem minuteText_decimal {c : Char} (own : minuteText.takes c = true) : isDecimal c = true := by
  rcases Bool.or_eq_true_iff.mp own with tens | units
  · exact range_decimal (by decide) (by decide) tens
  · exact units

theorem minuteText_length {prev : Option Char} {cs : List Char} {m : Match Char Nat}
    (listed : m ∈ minuteText.run prev cs) : m.taken.length = 2 := by
  obtain ⟨tens, htens, units, hunits, rfl⟩ := mem_seq.mp listed
  obtain ⟨c, rest, -, -, rfl⟩ := mem_chars.mp htens
  obtain ⟨d, rest', -, -, rfl⟩ := mem_chars.mp hunits
  rfl

/-- The characters of a time. -/
def isClock (c : Char) : Bool := isDecimal c || c == ':'

/-- What a time takes: the character before it, the hour and the minute, and the character after it. -/
theorem time_parts {prev : Option Char} {cs : List Char} {m : Match Char Nat}
    (found : time.first prev cs = some m) :
    ∃ before hour minute after, m.taken = before ++ (hour ++ ':' :: minute) ++ after ∧
      sayTime m = before ++ (clockWords (unsignedOf hour) (unsignedOf minute)).toList ++ after ∧
      Numeral hour ∧ (∀ c ∈ hour, isDecimal c = true) ∧ (∀ c ∈ minute, isDecimal c = true) ∧
      minute.length = 2 ∧
      (before = [] ∧ prev = none ∨ ∃ c, before = [c] ∧ isDecimal c = false) ∧
      (after = [] ∧ m.left = [] ∨ ∃ c, after = [c] ∧ isDecimal c = false) := by
  obtain ⟨before, hbefore, m₁, listed₁, rfl⟩ := mem_seq.mp (first_some found).1
  obtain ⟨hour, hhour, m₂, listed₂, rfl⟩ := mem_seq.mp listed₁
  obtain ⟨colon, hcolon, m₃, listed₃, rfl⟩ := mem_seq.mp listed₂
  obtain ⟨minute, hminute, after, hafter, rfl⟩ := mem_seq.mp listed₃
  obtain ⟨before, hbefore', rfl⟩ := mem_group.mp hbefore
  obtain ⟨hour, hhour', rfl⟩ := mem_group.mp hhour
  obtain ⟨minute, hminute', rfl⟩ := mem_group.mp hminute
  obtain ⟨after, hafter', rfl⟩ := mem_group.mp hafter
  obtain ⟨c, left, -, own, rfl⟩ := mem_chars.mp hcolon
  have colon : c ∈ [':'] := List.contains_iff_mem.mp own
  obtain rfl : c = ':' := List.mem_singleton.mp colon
  obtain ⟨numeral, decimal⟩ := twoDigits_numeral (fun _ => hourText_decimal) hourText_needs hhour'
  have colon' : ∀ k, Match.get ({ taken := [':'], left := left, groups := [] } : Match Char Nat) k =
    none := fun _ => rfl
  have none₂ : ∀ k, hour.get k = none := fun k => run_get_none (r := hourText) rfl _ _ hour hhour'
  have none₃ : ∀ k, minute.get k = none := fun k => run_get_none (r := minuteText) rfl _ _ minute hminute'
  have none₄ : ∀ k, after.get k = none := fun k => run_get_none rfl _ _ after hafter'
  refine ⟨before.taken, hour.taken, minute.taken, after.taken, ?_, ?_, numeral, decimal,
    fun c own => minuteText_decimal (run_takes minuteText _ _ minute hminute' c own),
    minuteText_length hminute', ?_, ?_⟩
  · simp [Match.andThen]
  · have put : ∀ m : Match Char Nat, m.get 1 = some before.taken → m.get 2 = some hour.taken →
        m.get 3 = some minute.taken → m.get 4 = some after.taken →
        sayTime m = before.taken ++ (clockWords (unsignedOf hour.taken)
          (unsignedOf minute.taken)).toList ++ after.taken := by
      intro m one two three four
      rw [sayTime, groupText, groupText, groupText, groupText, one, two, three, four]
      rfl
    refine put _ ?_ ?_ ?_ ?_
    · simp [get_andThen, get_group, get_group_other, colon', none₂, none₃, none₄]
    · simp [get_andThen, get_group, get_group_other, colon', none₃, none₄]
    · simp [get_andThen, get_group, get_group_other, none₄]
    · simp [get_andThen, get_group]
  · rcases mem_alt.mp hbefore' with start | other
    · obtain ⟨first, rfl⟩ := mem_look.mp start
      exact .inl ⟨rfl, Option.isNone_iff_eq_none.mp first⟩
    · obtain ⟨c, rest, -, own, rfl⟩ := mem_chars.mp other
      exact .inr ⟨c, rfl, by simpa using own⟩
  · rcases mem_alt.mp hafter' with other | stop
    · obtain ⟨c, rest, -, own, rfl⟩ := mem_chars.mp other
      exact .inr ⟨c, rfl, by simpa using own⟩
    · obtain ⟨last, rfl⟩ := mem_look.mp stop
      exact .inl ⟨rfl, List.head?_eq_none_iff.mp (Option.isNone_iff_eq_none.mp last)⟩

theorem time_recasts : Recasts isClock isVoiced time sayTime := by
  intro prev cs m found
  obtain ⟨before, hour, minute, after, taken, said, numeral, hours, minutes, two, -, -⟩ :=
    time_parts found
  have within : ∀ c ∈ hour ++ ':' :: minute, isClock c = true := by
    refine List.forall_mem_append.mpr
      ⟨fun c listed => ?_, List.forall_mem_cons.mpr ⟨by simp [isClock], fun c listed => ?_⟩⟩
    · simp [isClock, hours c listed]
    · simp [isClock, minutes c listed]
  have few : unsignedOf minute ≤ 9999 := by
    have bound := unsignedOf_lt minute
    rw [two] at bound
    omega
  rw [taken, said]
  exact .intro before after (numeral.append _) within (.inr (clockWords_spoken _ few).voiced)

/-- The characters of a date. -/
def isCalendar (c : Char) : Bool := isDecimal c || c == '/' || c == '.'

/-- `[/.](\d{2,4})` -/
def yearText : Pat := .seqs [oneOf "/.", .group 4 (.between 2 4 digit)]

theorem months_spoken : ∀ month ∈ months, Spoken month := by
  decide

/-- The year of a date is written in digits. -/
theorem yearText_decimal {prev : Option Char} {cs : List Char} {m : Match Char Nat}
    (listed : m ∈ yearText.opt.run prev cs) :
    ∀ y, m.get 4 = some y → ∀ c ∈ y, isDecimal c = true := by
  refine rep_rec (P := fun _ _ m => ∀ y, m.get 4 = some y → ∀ c ∈ y, isDecimal c = true)
    (fun _ y absurd' => by cases absurd') ?_ (fun _ _ same => same) m listed
  intro _ prev cs a ha b ih y same
  rw [get_andThen] at same
  rcases Option.or_eq_some_iff.mp same with later | ⟨-, own⟩
  · exact ih y later
  · obtain ⟨mark, hmark, group, hgroup, rfl⟩ := mem_seq.mp ha
    obtain ⟨year, hyear, rfl⟩ := mem_group.mp hgroup
    rw [get_andThen, get_group] at own
    obtain rfl := Option.some.inj own
    exact run_takes _ _ _ year hyear

/-- A date is said, or left as it is written. -/
theorem sayDate_cases {m : Match Char Nat} {before after : List Char} (one : m.get 1 = some before)
    (year : ∀ y, m.get 4 = some y → ∀ c ∈ y, isDecimal c = true) (five : m.get 5 = some after) :
    sayDate m = m.taken ∨ ∃ words, sayDate m = before ++ words ++ after ∧ ∀ c ∈ words,
    isVoiced c = true := by
  unfold sayDate
  dsimp only
  split
  · exact .inl rfl
  · next valid =>
    obtain ⟨days, -⟩ := not_or.mp valid
    obtain ⟨low, high⟩ := not_not.mp days
    have first : groupText m 1 = before := by rw [groupText, one]; rfl
    have last : groupText m 5 = after := by rw [groupText, five]; rfl
    rw [first, last]
    refine .inr ⟨_, rfl, ?_⟩
    have day : Spoken (numberWords (valueOf (groupText m 2)) .masculine) :=
      numberWords_spoken (by omega) (by omega) .masculine
    have month : Spoken " ב" := by decide
    refine ((day.append month).append (spoken_getD months_spoken _)).voiced.append ?_
    split
    · next y found =>
      obtain ⟨text, four, read⟩ := Option.bind_eq_some_iff.mp found
      have low := (parseI64_digits (year text four) read).1
      have year' : 0 ≤ yearOf y := by
        unfold yearOf
        split <;> omega
      have blank : Spoken " " := by decide
      exact blank.voiced.append (numberWords_voiced year' .feminine)
    · exact fun c absurd' => absurd absurd' List.not_mem_nil

/-- `[0-3]?\d` and `[01]?\d`. -/
theorem opt_digit_numeral {r : Pat} (only : ∀ c, r.takes c = true → isDecimal c = true)
    {prev : Option Char}
    {cs : List Char} {m : Match Char Nat} (listed : m ∈ (Re.seqs [.opt r, digit]).run prev cs) :
    Numeral m.taken ∧ ∀ c ∈ m.taken, isDecimal c = true := by
  refine twoDigits_numeral (r := .seqs [.opt r, digit]) (fun c own => ?_)
    ((Needs.none _).seq digit_needs) listed
  rcases Bool.or_eq_true_iff.mp own with tens | units
  · exact only c tens
  · exact units

theorem date_recasts : Recasts isCalendar isVoiced date sayDate := by
  intro prev cs m found
  obtain ⟨before, hbefore, m₁, listed₁, rfl⟩ := mem_seq.mp (first_some found).1
  obtain ⟨day, hday, m₂, listed₂, rfl⟩ := mem_seq.mp listed₁
  obtain ⟨mark, hmark, m₃, listed₃, rfl⟩ := mem_seq.mp listed₂
  obtain ⟨month, hmonth, m₄, listed₄, rfl⟩ := mem_seq.mp listed₃
  obtain ⟨year, hyear, after, hafter, rfl⟩ := mem_seq.mp listed₄
  obtain ⟨before, hbefore', rfl⟩ := mem_group.mp hbefore
  obtain ⟨day, hday', rfl⟩ := mem_group.mp hday
  obtain ⟨month, hmonth', rfl⟩ := mem_group.mp hmonth
  obtain ⟨after, hafter', rfl⟩ := mem_group.mp hafter
  obtain ⟨numeral, days⟩ := opt_digit_numeral (fun _ => range_decimal (by decide) (by decide)) hday'
  obtain ⟨-, months⟩ := opt_digit_numeral (fun _ => oneOf_decimal (by decide)) hmonth'
  have marks : ∀ c, (oneOf "/.").takes c = true → isCalendar c = true := by
    intro c own
    have listed : c ∈ ['/', '.'] := oneOf_takes own
    rcases List.mem_cons.mp listed with slash | dot
    · simp [isCalendar, slash]
    · simp [isCalendar, List.mem_singleton.mp dot]
  have digits : ∀ c, isDecimal c = true → isCalendar c = true := by
    intro c own
    simp [isCalendar, own]
  have years : ∀ c ∈ year.taken, isCalendar c = true := by
    intro c listed
    rcases Bool.or_eq_true_iff.mp (run_takes yearText.opt _ _ year hyear c listed) with mark' | own
    · exact marks c mark'
    · exact digits c own
  have within : ∀ c ∈ day.taken ++ (mark.taken ++ (month.taken ++ year.taken)), isCalendar c = true :=
    List.forall_mem_append.mpr ⟨fun c own => digits c (days c own), List.forall_mem_append.mpr
      ⟨fun c own => marks c (run_takes _ _ _ mark hmark c own), List.forall_mem_append.mpr
        ⟨fun c own => digits c (months c own), years⟩⟩⟩
  have none₀ : ∀ k, before.get k = none := fun k => run_get_none rfl _ _ before hbefore'
  have none₁ : ∀ k, mark.get k = none := fun k => run_get_none (r := oneOf "/.") rfl _ _ mark hmark
  have none₂ : ∀ k, day.get k = none :=
    fun k => run_get_none (r := .seqs [.opt (range '0' '3'), digit]) rfl _ _ day hday'
  have none₃ : ∀ k, month.get k = none :=
    fun k => run_get_none (r := .seqs [.opt (oneOf "01"), digit]) rfl _ _ month hmonth'
  have none₄ : ∀ k, (k == 4) = false → year.get k = none := by
    intro k other
    refine run_get_none (r := yearText.opt) ?_ _ _ year hyear
    show (false || (k == 4 || false)) = false
    rw [other]
    rfl
  have none₅ : ∀ k, after.get k = none := fun k => run_get_none rfl _ _ after hafter'
  have recast : ∀ m : Match Char Nat,
      m.taken = before.taken ++ (day.taken ++ (mark.taken ++ (month.taken ++ year.taken))) ++
        after.taken →
        m.get 1 = some before.taken → m.get 4 = year.get 4 → m.get 5 = some after.taken →
          Recast isCalendar isVoiced m.taken (sayDate m) := by
    intro m taken one four five
    have dated : ∀ y, m.get 4 = some y → ∀ c ∈ y, isDecimal c = true := by
      rw [four]
      exact yearText_decimal hyear
    rcases sayDate_cases one dated five with same | ⟨words, same, voiced⟩
    · rw [same, taken]
      exact .intro before.taken after.taken (numeral.append _) within (.inl rfl)
    · rw [same, taken]
      exact .intro before.taken after.taken (numeral.append _) within (.inr voiced)
  refine recast _ ?_ ?_ ?_ ?_
  · simp [Match.andThen]
  · simp [get_andThen, get_group, get_group_other, none₁, none₂, none₃, none₄, none₅]
  · simp [get_andThen, get_group_other, none₀, none₁, none₂, none₃, none₅]
  · simp [get_andThen, get_group]

end Clock

end Callora.Text
