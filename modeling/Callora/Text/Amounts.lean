/-
**How an amount of money is said.**

A whole amount below ten thousand, after the shekel sign or before it, is said as that amount when its
numeral is read as one (`moneyBefore_hit`, `moneyAfter_hit`). A comma before the last three digits is read
as a decimal mark: after the sign two digits become agorot and the last one is left over
(`comma_read`), before the sign the comma stays between two numbers (`comma_left`). And a sign in front
of the text takes the numeral of a sign behind it (`sign_read`). `amount_said_iff` puts them together.
-/
import Callora.Text.Recasts

set_option linter.unusedSectionVars false

namespace Callora.Text

open Regex

attribute [local instance] decidableListed

section Written

/-- How the digits of a whole amount are grouped. -/
inductive Grouping where
  | plain
  | comma
  deriving DecidableEq, Repr

/-- The last three digits. -/
def lastThree (n : Nat) : List Char :=
  [Nat.digitChar (n / 100 % 10), Nat.digitChar (n / 10 % 10), Nat.digitChar (n % 10)]

/-- A whole amount in digits: with a comma before the last three of more. -/
def Grouping.write : Grouping → Nat → List Char
  | plain, n => Nat.toDigits 10 n
  | comma, n => if n < 1000 then Nat.toDigits 10 n else Nat.toDigits 10 (n / 1000) ++ ',' :: lastThree n

/-- Where the shekel sign stands. -/
inductive SignSide where
  | first
  | last
  deriving DecidableEq, Repr

/-- An amount as it is written: the sign, white space, and the numeral. -/
def SignSide.write : SignSide → List Char → List Char → List Char
  | first, gap, numeral => '₪' :: (gap ++ numeral)
  | last, gap, numeral => numeral ++ (gap ++ ['₪'])

/-- A text that ends with a shekel sign, whatever white space follows it. -/
def EndsInSign (before : List Char) : Prop :=
  ∃ front gap, before = front ++ '₪' :: gap ∧ ∀ c ∈ gap, isWhitespace c = true

/-- The words for an amount. -/
def shekels (n : Nat) : List Char := (countPhrase n .masculine "שקל אחד" "שקל").toList

/-- **The amount is said as that amount**, between what stands around it. -/
def SaidAsAmount [RegexTables] (before amount after : List Char) (n : Nat) : Prop :=
  normalizeHebrew (String.ofList (before ++ amount ++ after)) =
    String.ofList (tidy (before ++ shekels n ++ after))

end Written

section Digits

variable [RegexTables] {n : Nat}

theorem toDigits_ascii : ∀ c ∈ Nat.toDigits 10 n, isAsciiDigit c = true :=
  fun _ listed => isAsciiDigit_isDigit (Nat.isDigit_of_mem_toDigits (by decide) (by decide) listed)

theorem toDigits_decimal : ∀ c ∈ Nat.toDigits 10 n, isDecimal c = true :=
  fun c listed => isDecimal_ascii (toDigits_ascii c listed)

theorem digitsValue_toDigits : digitsValue (Nat.toDigits 10 n) = some n := by
  unfold digitsValue
  split
  · next none' => exact absurd none' Nat.toDigits_ne_nil
  · rw [if_pos (List.all_eq_true.mpr toDigits_ascii)]
    exact congrArg some Nat.ofDigitChars_ten_toDigits

theorem valueOf_toDigits (small : n < 2 ^ 63) : valueOf (Nat.toDigits 10 n) = n := by
  have sign : ∀ rest c, Nat.toDigits 10 n = c :: rest → isAsciiDigit c = true :=
    fun rest c same => toDigits_ascii c (by rw [same]; exact List.mem_cons_self)
  unfold valueOf parseI64
  rw [String.toList_ofList]
  split
  · next rest same => cases sign rest '-' same
  · next rest same => cases sign rest '+' same
  · rw [digitsValue_toDigits, Option.filter_some, if_pos (by simpa using small)]
    rfl

theorem money_toDigits (small : n < 10000) : (money (Nat.toDigits 10 n) none).toList = shekels n := by
  unfold money shekels
  rw [valueOf_toDigits (by omega)]
  rfl

theorem digitChar_decimal {k : Nat} (small : k < 10) : isDecimal (Nat.digitChar k) = true := by
  have listed : Nat.digitChar k ∈ Nat.toDigits 10 k := by
    rw [Nat.toDigits_of_lt_base small]
    exact List.mem_singleton_self _
  exact toDigits_decimal _ listed

theorem lastThree_decimal (n : Nat) : ∀ c ∈ lastThree n, isDecimal c = true := by
  have small : ∀ k, k % 10 < 10 := fun k => Nat.mod_lt k (by decide)
  simp only [lastThree, List.forall_mem_cons]
  exact ⟨digitChar_decimal (small _), digitChar_decimal (small _), digitChar_decimal (small _), by simp⟩

end Digits

section Matching

variable [RegexTables] {prev : Option Char} {gap whole rest : List Char}

/-- Nothing is left to be agorot where no digit follows. -/
theorem cents_none (clean : ∀ c ∈ rest, isDecimal c = false) :
    (centsPattern.run prev rest).head? = some (.nothing rest) := by
  have needs : Needs isDecimal 1 (.seqs [oneOf ".,", .group 2 (.between 1 2 digit)] : Pat) :=
    (Needs.none _).seq digit_needs.rep.group
  exact opt_head_none (needs.run_few (by rw [countP_zero clean]; decide))

/-- Two digits after a comma are agorot. -/
theorem cents_two {a b : Char} (tens : isDecimal a = true) (units : isDecimal b = true) :
    (centsPattern.run prev (',' :: a :: b :: rest)).head? = some ⟨[',', a, b], rest, [(2, [a, b])]⟩ := by
  have mark : (".,".toList.contains ',') = true := by decide
  have two : ∀ prev, ((Re.between 1 2 digit).run prev (a :: b :: rest)).head? = some ⟨[a, b], rest, []⟩ :=
    fun prev => followed_head (chars_head tens) (opt_head (chars_head units))
  have inner : ((Re.seqs [oneOf ".,", .group 2 (.between 1 2 digit)] : Pat).run prev
    (',' :: a :: b :: rest)).head? =
      some ⟨[',', a, b], rest, [(2, [a, b])]⟩ := followed_head (chars_head mark) (group_head (two _))
  exact opt_head inner

/-- **An amount after the sign.** -/
theorem moneyBefore_hit {cents : Match Char Nat} (blank : ∀ c ∈ gap, isWhitespace c = true)
    (some' : whole ≠ [])
    (few : whole.length ≤ 6) (digits : ∀ c ∈ whole, isDecimal c = true)
    (ends : ∀ c ∈ rest.head?, isDecimal c = false)
    (after : ∀ prev, (centsPattern.run prev rest).head? = some cents) :
    moneyBefore.first prev ('₪' :: (gap ++ (whole ++ rest))) =
      some ⟨'₪' :: (gap ++ (whole ++ cents.taken)), cents.left, cents.groups ++ [(1, whole)]⟩ := by
  have sign : ("₪".toList.contains '₪') = true := by decide
  have next : ∀ c ∈ (whole ++ rest).head?, isWhitespace c = false := by
    intro c first
    obtain ⟨d, more, rfl⟩ := List.exists_cons_of_ne_nil some'
    obtain rfl := Option.some.inj first
    by_contra space
    have own := digits d List.mem_cons_self
    rw [isDecimal_space (by simpa using space)] at own
    cases own
  have head : (moneyBefore.run prev ('₪' :: (gap ++ (whole ++ rest)))).head? = some _ :=
    followed_head (chars_head sign) (followed_head (star_block blank next)
      (followed_head (group_head (rep_block some' few digits ends)) (after _)))
  rw [Re.first, head]
  simp [Match.andThen, Option.filter_some]

/-- **An amount before the sign.** -/
theorem moneyAfter_hit (blank : ∀ c ∈ gap, isWhitespace c = true) (some' : whole ≠ [])
    (few : whole.length ≤ 6)
    (digits : ∀ c ∈ whole, isDecimal c = true) (clean : ∀ c ∈ rest, isDecimal c = false) :
    moneyAfter.first prev (whole ++ (gap ++ '₪' :: rest)) =
    some ⟨whole ++ (gap ++ ['₪']), rest, [(1, whole)]⟩ := by
  have sign : ("₪".toList.contains '₪') = true := by decide
  have none' : ∀ c ∈ gap ++ '₪' :: rest, isDecimal c = false := by
    refine List.forall_mem_append.mpr ⟨fun c listed => isDecimal_space (blank c listed), ?_⟩
    exact List.forall_mem_cons.mpr ⟨rfl, clean⟩
  have ends : ∀ c ∈ (gap ++ '₪' :: rest).head?, isDecimal c = false :=
    fun c first => none' c (List.mem_of_mem_head? first)
  have next : ∀ c ∈ ('₪' :: rest).head?, isWhitespace c = false := by
    intro c first
    obtain rfl := Option.some.inj first
    rfl
  have head : (moneyAfter.run prev (whole ++ (gap ++ '₪' :: rest))).head? = some _ :=
    followed_head (group_head (rep_block some' few digits ends)) (followed_head (cents_none none')
      (followed_head (star_block blank next) (alt_head (chars_head sign))))
  rw [Re.first, head]
  simp [Match.andThen, Match.nothing, Option.filter_some]

/-- From a text without digits, an amount after the sign reaches no further than white space. -/
theorem moneyBefore_reach {c x : Char} {v : List Char} {m : Match Char Nat}
    (found : moneyBefore.first prev (c :: (v ++ x :: rest)) = some m)
    (clean : ∀ y ∈ v, isDecimal y = false)
    (solid : isWhitespace x = false) : c = '₪' ∧ (∀ y ∈ v, isWhitespace y = true) ∧
    isDecimal x = true := by
  obtain ⟨gap, whole, more, taken, -, blank, ⟨lead, d, after, same, own, -⟩, decimal⟩ :=
    moneyBefore_parts (first_some found).1
  have text := first_text found
  rw [taken] at text
  obtain ⟨sign, text⟩ := List.cons.inj text
  -- The whole amount begins with a digit.
  obtain ⟨e, whole', rfl⟩ : ∃ e whole', whole = e :: whole' := by
    rw [same]
    cases lead with
    | nil => exact ⟨d, after, rfl⟩
    | cons e lead => exact ⟨e, _, rfl⟩
  have digit' := decimal e List.mem_cons_self
  have here : ∀ as, x :: rest = as ++ e :: (whole' ++ more ++ m.left) →
    (∀ y ∈ as, isWhitespace y = true) → as = [] := by
    intro as same blank
    cases as with
    | nil => rfl
    | cons y as =>
      obtain ⟨rfl, -⟩ := List.cons.inj same
      have space := blank x List.mem_cons_self
      rw [solid] at space
      cases space
  have split' : gap ++ e :: (whole' ++ more ++ m.left) = v ++ x :: rest := by
    rw [← text]
    simp
  rcases List.append_eq_append_iff.mp split' with ⟨as, left, right⟩ | ⟨as, left, right⟩
  · cases as with
    | nil =>
      obtain ⟨rfl, -⟩ := List.cons.inj right
      rw [List.append_nil] at left
      exact ⟨sign.symm, by rw [left]; exact blank, digit'⟩
    | cons y as =>
      obtain ⟨rfl, -⟩ := List.cons.inj right
      have absurd' := clean e (by rw [left]; simp)
      rw [digit'] at absurd'
      cases absurd'
  · have spaces' : ∀ y ∈ as, isWhitespace y = true :=
      fun y listed => blank y (by rw [left]; simp [listed])
    obtain rfl := here as right spaces'
    obtain ⟨rfl, -⟩ := List.cons.inj right
    rw [List.append_nil] at left
    exact ⟨sign.symm, by rw [← left]; exact blank, digit'⟩

/-- What stands before a sign is passed. -/
theorem moneyBefore_pass_sign {before : List Char} (clean : ∀ c ∈ before, isDecimal c = false) :
    Re.replaceAll moneyBefore sayMoney (before ++ '₪' :: rest) =
      before ++ Re.replaceFrom moneyBefore sayMoney (before.getLast?.or none) 0 ('₪' :: rest) := by
  refine replaceFrom_prefix fun u c v prev same => ?_
  cases found : moneyBefore.first prev (c :: (v ++ '₪' :: rest)) with
  | none => rfl
  | some m =>
    have within : ∀ y ∈ v, isDecimal y = false := fun y listed => clean y (by rw [same]; simp [listed])
    obtain ⟨-, -, absurd'⟩ := moneyBefore_reach found within rfl
    cases absurd'

/-- What stands before a digit is passed, when it does not end in a sign. -/
theorem moneyBefore_pass_digit {before : List Char} {x : Char} (clean : ∀ c ∈ before, isDecimal c = false)
    (digit' : isDecimal x = true) (unsigned : ¬EndsInSign before) :
    Re.replaceAll moneyBefore sayMoney (before ++ x :: rest) =
      before ++ Re.replaceFrom moneyBefore sayMoney (before.getLast?.or none) 0 (x :: rest) := by
  refine replaceFrom_prefix fun u c v prev same => ?_
  have solid : isWhitespace x = false := by
    by_contra space
    rw [isDecimal_space (by simpa using space)] at digit'
    cases digit'
  cases found : moneyBefore.first prev (c :: (v ++ x :: rest)) with
  | none => rfl
  | some m =>
    have within : ∀ y ∈ v, isDecimal y = false := fun y listed => clean y (by rw [same]; simp [listed])
    obtain ⟨rfl, blank, -⟩ := moneyBefore_reach found within solid
    exact absurd ⟨u, v, same, blank⟩ unsigned

end Matching

section Reading

variable [RegexTables] {before after gap whole rest : List Char} {n : Nat}

theorem shekels_clean (small : n < 10000) : ∀ c ∈ shekels n, isDecimal c = false :=
  (countPhrase_spoken (by omega) (by omega) .masculine (by decide) (by decide)).noDigits

theorem toDigits_few (small : n < 10000) : (Nat.toDigits 10 n).length ≤ 6 := by
  have four : (Nat.toDigits 10 n).length ≤ 4 :=
    (Nat.length_toDigits_le_iff (by decide) (by decide)).mpr small
  omega

theorem clean_head (clean : ∀ c ∈ rest, isDecimal c = false) : ∀ c ∈ rest.head?, isDecimal c = false :=
  fun c first => clean c (List.mem_of_mem_head? first)

theorem said_clean (clean : ∀ c ∈ before, isDecimal c = false) (small : n < 10000)
    (clean' : ∀ c ∈ after, isDecimal c = false) :
    ∀ c ∈ before ++ (shekels n ++ after), isDecimal c = false :=
  List.forall_mem_append.mpr ⟨clean, List.forall_mem_append.mpr ⟨shekels_clean small, clean'⟩⟩

theorem moneyBefore_said {prev : Option Char} (some' : whole ≠ []) (few : whole.length ≤ 6)
    (digits : ∀ c ∈ whole, isDecimal c = true) (blank : ∀ c ∈ gap, isWhitespace c = true)
    (clean : ∀ c ∈ after, isDecimal c = false) :
    Re.replaceFrom moneyBefore sayMoney prev 0
    ('₪' :: (gap ++ (whole ++ after))) = (money whole none).toList ++ after := by
  rw [replaceFrom_hit
    (moneyBefore_hit blank some' few digits (clean_head clean) fun _ => cents_none clean)]
  have rest' : ∀ prev, Re.replaceFrom moneyBefore sayMoney prev 0 after = after :=
    fun prev => replace_few moneyBefore_needs (by rw [countP_zero clean]; decide)
  exact congrArg ((money whole none).toList ++ ·) (rest' _)

theorem moneyAfter_said {prev : Option Char} (some' : whole ≠ []) (few : whole.length ≤ 6)
    (digits : ∀ c ∈ whole, isDecimal c = true) (blank : ∀ c ∈ gap, isWhitespace c = true)
    (clean : ∀ c ∈ after, isDecimal c = false) :
    Re.replaceFrom moneyAfter sayMoney prev 0
    (whole ++ (gap ++ '₪' :: after)) = (money whole none).toList ++ after := by
  rw [replaceFrom_hit (moneyAfter_hit blank some' few digits clean)]
  have rest' : ∀ prev, Re.replaceFrom moneyAfter sayMoney prev 0 after = after :=
    fun prev => replace_few moneyAfter_needs (by rw [countP_zero clean]; decide)
  exact congrArg ((money whole none).toList ++ ·) (rest' _)

/-- **A plain amount after the sign is said as it is.** -/
theorem plain_first (small : n < 10000) (clean : ∀ c ∈ before, isDecimal c = false)
    (blank : ∀ c ∈ gap, isWhitespace c = true) (clean' : ∀ c ∈ after, isDecimal c = false) :
    sayAll (before ++ '₪' :: (gap ++ (Nat.toDigits 10 n ++ after))) = before ++ (shekels n ++ after) := by
  have said := said_clean clean small clean'
  refine sayAll_money ?_ (replaceAll_clean _ moneyAfter_needs said) said
  rw [moneyBefore_pass_sign clean,
    moneyBefore_said Nat.toDigits_ne_nil (toDigits_few small) toDigits_decimal blank clean',
    money_toDigits small]

/-- What stands before the numeral of an amount before the sign is kept, and so is the sign. -/
theorem moneyBefore_last {numeral : List Char} {x : Char} (clean : ∀ c ∈ before, isDecimal c = false)
    (unsigned : ¬EndsInSign before) (digit' : isDecimal x = true) (signless : ∀ c ∈ x :: numeral, c ≠ '₪')
    (blank : ∀ c ∈ gap, isWhitespace c = true) (clean' : ∀ c ∈ after, isDecimal c = false) :
    Re.replaceAll moneyBefore sayMoney (before ++ (x :: numeral ++ (gap ++ '₪' :: after))) =
      before ++ (x :: numeral ++ (gap ++ '₪' :: after)) := by
  have begins : Begins "₪".toList.contains moneyBefore := (Begins.chars _).seq _
  have other : ∀ c ∈ x :: numeral ++ gap, ("₪".toList.contains c) = false := by
    have solid : isWhitespace '₪' = false := rfl
    have notSign : ∀ c, c ≠ '₪' → ("₪".toList.contains c) = false := by
      intro c different
      by_contra own
      have listed : c ∈ ['₪'] := List.contains_iff_mem.mp (by simpa using own)
      exact different (List.mem_singleton.mp listed)
    refine List.forall_mem_append.mpr
      ⟨fun c listed => notSign c (signless c listed), fun c listed => notSign c ?_⟩
    rintro rfl
    have space := blank _ listed
    rw [solid] at space
    cases space
  have none' : ('₪' :: after).countP isDecimal < 1 := by
    rw [countP_zero (List.forall_mem_cons.mpr ⟨rfl, clean'⟩)]
    decide
  rw [List.cons_append, moneyBefore_pass_digit clean digit' unsigned, ← List.cons_append,
    ← List.append_assoc,
    replaceFrom_begins begins other, replace_few moneyBefore_needs none']

/-- **A plain amount before the sign is said as it is**, unless another sign stands in front of it. -/
theorem plain_last (small : n < 10000) (clean : ∀ c ∈ before, isDecimal c = false)
    (unsigned : ¬EndsInSign before)
    (blank : ∀ c ∈ gap, isWhitespace c = true) (clean' : ∀ c ∈ after, isDecimal c = false) :
    sayAll (before ++ (Nat.toDigits 10 n ++ (gap ++ '₪' :: after))) = before ++ (shekels n ++ after) := by
  have said := said_clean clean small clean'
  obtain ⟨x, numeral, digits⟩ := List.exists_cons_of_ne_nil (Nat.toDigits_ne_nil (n := n) (b := 10))
  have decimal : ∀ c ∈ x :: numeral, isDecimal c = true := by
    rw [← digits]
    exact toDigits_decimal
  have signless : ∀ c ∈ x :: numeral, c ≠ '₪' := by
    rintro c listed rfl
    cases decimal _ listed
  have kept := moneyBefore_last clean unsigned (decimal x List.mem_cons_self) signless blank clean'
  rw [← digits] at kept
  refine sayAll_money kept ?_ said
  have begins : Begins isDecimal moneyAfter := (Begins.group (Begins.rep (Begins.chars isDecimal))).seq _
  rw [Re.replaceAll, replaceFrom_begins begins clean,
    moneyAfter_said Nat.toDigits_ne_nil (toDigits_few small) toDigits_decimal blank clean',
    money_toDigits small]

end Reading

section Misreading

variable [RegexTables] {before after gap whole rest : List Char} {n : Nat}

/-- A beginning without digits, that leads to none, is kept by all that follows the first replacement. -/
theorem sayAll_prefix {beginning s : List Char} (clean : ∀ c ∈ beginning, isDecimal c = false)
    (ends : ∀ c ∈ beginning.getLast?, isLead c = false)
    (first : beginning <+: Re.replaceAll moneyBefore sayMoney s) :
    beginning <+: sayAll s := by
  have step : ∀ {r : Pat} {f : Said} {t : List Char}, Leads isDecimal isLead r f → beginning <+: t →
      beginning <+: Re.replaceAll r f t := by
    rintro r f t leads ⟨rest, rfl⟩
    exact replace_leads leads clean ends
  exact step number_recasts.leads
    (step date_recasts.leads (step time_recasts.leads (step phone_recasts.leads
    (step identifier_recasts.leads (step percent_recasts.leads (step moneyAfter_recasts.leads first))))))

/-- A text that does not end on the way to a numeral. -/
def EndsApart (s : String) : Prop := ∀ c ∈ s.toList.getLast?, isLead c = false

instance (s : String) : Decidable (EndsApart s) :=
  Option.decidableForallMem s.toList.getLast?

theorem EndsApart.append {s t : String} (some' : t.toList ≠ []) (ends : EndsApart t) :
    EndsApart (s ++ t) := by
  unfold EndsApart
  rw [String.toList_append, List.getLast?_append_of_ne_nil _ some']
  exact ends

/-- A counted noun ends as the noun does. -/
theorem EndsApart.countPhrase (k : Int) (gender : Gender) {singular plural : String}
    (one : EndsApart singular)
    (some' : plural.toList ≠ []) (many : EndsApart plural) :
    EndsApart (countPhrase k gender singular plural) := by
  unfold Text.countPhrase
  split
  · exact one
  · split
    · cases gender with
      | masculine => exact many.append some'
      | feminine => exact many.append some'
    · exact many.append some'

/-- The words for the shekels of an amount. -/
def wholeWords (whole : List Char) : List Char :=
  (countPhrase (valueOf whole) .masculine "שקל אחד" "שקל").toList

theorem money_prefix (whole : List Char) (cents : Option (List Char)) :
    wholeWords whole <+: (money whole cents).toList := by
  unfold money wholeWords
  dsimp only
  split
  · rw [String.toList_append, String.toList_append, List.append_assoc]
    exact List.prefix_append _ _
  · exact List.prefix_refl _

theorem wholeWords_spoken (few : whole.length ≤ 4) (digits : ∀ c ∈ whole, isDecimal c = true) :
    ∀ c ∈ wholeWords whole, isSpoken c = true := by
  have bounds : 0 ≤ valueOf whole ∧ valueOf whole ≤ 9999 := by
    unfold valueOf
    cases read : parseI64 (String.ofList whole) with
    | none => decide
    | some k =>
      obtain ⟨low, high⟩ := parseI64_digits digits read
      have bound : (10 : Int) ^ whole.length ≤ 10 ^ 4 := by
        exact_mod_cast Nat.pow_le_pow_right (by decide) few
      exact ⟨low, by simp only [Option.getD_some]; omega⟩
  exact countPhrase_spoken bounds.1 bounds.2 .masculine (by decide) (by decide)

/-- A counted noun has the letters of the noun. -/
theorem countPhrase_mem {c : Char} (k : Int) (gender : Gender) {singular plural : String}
    (one : c ∈ singular.toList)
    (many : c ∈ plural.toList) : c ∈ (countPhrase k gender singular plural).toList := by
  have within : ∀ s : String, c ∈ (s ++ plural).toList := by
    intro s
    rw [String.toList_append]
    exact List.mem_append_right _ many
  unfold countPhrase
  split
  · exact one
  · split
    · cases gender with
      | masculine => exact within _
      | feminine => exact within _
    · exact within _

theorem shekel_mem (whole : List Char) : 'ש' ∈ wholeWords whole :=
  countPhrase_mem _ _ (by decide) (by decide)

/-- **What is taken after a sign is said**, and what stands before the sign is kept. -/
theorem sign_read {cents : Match Char Nat} (clean : ∀ c ∈ before, isDecimal c = false)
    (blank : ∀ c ∈ gap, isWhitespace c = true) (some' : whole ≠ []) (few : whole.length ≤ 4)
    (digits : ∀ c ∈ whole, isDecimal c = true) (ends : ∀ c ∈ rest.head?, isDecimal c = false)
    (after : ∀ prev, (centsPattern.run prev rest).head? = some cents) :
    before ++ wholeWords whole <+: sayAll (before ++ '₪' :: (gap ++ (whole ++ rest))) := by
  have spoken := wholeWords_spoken few digits
  refine sayAll_prefix
    (List.forall_mem_append.mpr ⟨clean, fun c listed => isDecimal_spoken (spoken c listed)⟩) ?_ ?_
  · have apart : EndsApart (countPhrase (valueOf whole) .masculine "שקל אחד" "שקל") :=
      .countPhrase _ _ (by decide) (by decide) (by decide)
    intro c last
    have some'' : wholeWords whole ≠ [] := List.ne_nil_of_mem (shekel_mem whole)
    rw [List.getLast?_append_of_ne_nil _ some''] at last
    exact apart c last
  · have six : whole.length ≤ 6 := Nat.le_trans few (by decide)
    rw [moneyBefore_pass_sign clean, replaceFrom_hit (moneyBefore_hit blank some' six digits ends after)]
    have listed : cents ∈ centsPattern.run none rest := List.mem_of_mem_head? (after none)
    have unnamed : cents.get 1 = none := run_get_none (r := centsPattern) rfl _ _ cents listed
    refine (List.prefix_append_right_inj before).mpr (List.IsPrefix.trans ?_ (List.prefix_append _ _))
    have first : Match.get
      (⟨'₪' :: (gap ++ (whole ++ cents.taken)), cents.left, cents.groups ++ [(1, whole)]⟩ :
        Match Char Nat) 1 = some whole := by
      show (cents.groups ++ [(1, whole)]).lookup 1 = some whole
      have unnamed' : cents.groups.lookup 1 = none := unnamed
      rw [List.lookup_append, unnamed']
      rfl
    rw [sayMoney, groupText, first]
    exact money_prefix whole _

/-- The text without its white space. -/
def visible (cs : List Char) : List Char := cs.filter fun c => !isWhitespace c

theorem visible_append (xs ys : List Char) : visible (xs ++ ys) = visible xs ++ visible ys :=
  List.filter_append xs ys

/-- What two texts that are tidied to the same have after a common beginning. -/
theorem tidy_cancel {common xs ys : List Char} (same : tidy (common ++ xs) = tidy (common ++ ys)) :
    visible xs = visible ys := by
  have letters : visible (common ++ xs) = visible (common ++ ys) :=
    calc visible (common ++ xs) = visible (tidy (common ++ xs)) := (tidy_letters _).symm
      _ = visible (tidy (common ++ ys)) := by rw [same]
      _ = visible (common ++ ys) := tidy_letters _
  rw [visible_append, visible_append] at letters
  exact List.append_cancel_left letters

/-- An amount after a sign, in whichever grouping, and what it is taken for. -/
theorem write_read (grouping : Grouping) (small : n < 10000) (clean : ∀ c ∈ before, isDecimal c = false)
    (blank : ∀ c ∈ gap, isWhitespace c = true) (clean' : ∀ c ∈ rest, isDecimal c = false) :
    ∃ whole, before ++ wholeWords whole <+: sayAll
    (before ++ '₪' :: (gap ++ (grouping.write n ++ rest))) ∧
      (grouping = .comma → 1000 ≤ n → whole = Nat.toDigits 10 (n / 1000)) ∧ ∀ c ∈ wholeWords whole,
      isSpoken c = true := by
  have four : ∀ {k}, k < 10000 → (Nat.toDigits 10 k).length ≤ 4 :=
    fun small => (Nat.length_toDigits_le_iff (by decide) (by decide)).mpr small
  have plain : before ++ wholeWords (Nat.toDigits 10 n) <+: sayAll
    (before ++ '₪' :: (gap ++ (Nat.toDigits 10 n ++ rest))) :=
    sign_read clean blank Nat.toDigits_ne_nil (four small) toDigits_decimal
      (clean_head clean') fun _ => cents_none clean'
  cases grouping with
  | plain =>
    exact ⟨_, plain, (fun absurd' => by cases absurd'), wholeWords_spoken (four small) toDigits_decimal⟩
  | comma =>
    by_cases few : n < 1000
    · refine ⟨_, ?_, fun _ many => absurd many (by omega),
        wholeWords_spoken (four small) toDigits_decimal⟩
      rw [Grouping.write, if_pos few]
      exact plain
    · have small' : n / 1000 < 10000 := by omega
      refine ⟨Nat.toDigits 10 (n / 1000), ?_, fun _ _ => rfl,
        wholeWords_spoken (four small') toDigits_decimal⟩
      rw [Grouping.write, if_neg few, List.append_assoc]
      have digit' : ∀ k, isDecimal (Nat.digitChar (k % 10)) = true :=
        fun k => digitChar_decimal (Nat.mod_lt k (by decide))
      refine sign_read clean blank Nat.toDigits_ne_nil (four small') toDigits_decimal ?_ fun _ =>
        cents_two (digit' _) (digit' _)
      intro c first
      obtain rfl := Option.some.inj first
      rfl

/-- Thousands are said first. -/
theorem shekels_thousands (many : 1000 ≤ n) (small : n < 10000) :
    (thousands.getD (n / 1000) "").toList <+: shekels n := by
  have parts : ∃ more, numberParts n .masculine = thousands.getD (n / 1000) "" :: more := by
    unfold numberParts
    dsimp only
    rw [if_pos many, List.append_assoc]
    exact ⟨_, rfl⟩
  obtain ⟨more, parts⟩ := parts
  have words : (thousands.getD (n / 1000) "").toList <+: (numberWords n .masculine).toList := by
    have zero : ¬(n : Int) = 0 := by omega
    rw [numberWords, if_neg (by omega), if_neg zero, Int.toNat_natCast, parts, joinParts]
    split
    · next last _ =>
      cases more with
      | nil =>
        rw [if_neg (by simp), join_toList_cons]
        exact List.prefix_append _ _
      | cons part more =>
        rw [if_pos (by simp), List.dropLast_cons_cons, List.cons_append, join_toList_cons]
        exact List.prefix_append _ _
    · next none' => cases none'
  have one : ¬(n : Int) = 1 := by omega
  have two : ¬(n : Int) = 2 := by omega
  rw [shekels, countPhrase, if_neg one, if_neg two, String.toList_append, String.toList_append,
    List.append_assoc]
  exact words.trans (List.prefix_append _ _)

/-- No thousands begin as so many shekels do. -/
theorem thousands_apart : ∀ k < 10, 1 ≤ k →
    ¬visible (shekels k) <+: visible (thousands.getD k "").toList ∧
    ¬visible (thousands.getD k "").toList <+: visible (shekels k) := by
  decide

/-- **A comma after the sign is read as a decimal mark.** -/
theorem comma_first (many : 1000 ≤ n) (small : n < 10000) (clean : ∀ c ∈ before, isDecimal c = false)
    (blank : ∀ c ∈ gap, isWhitespace c = true) (clean' : ∀ c ∈ after, isDecimal c = false) :
    ¬SaidAsAmount before (SignSide.first.write gap (Grouping.comma.write n)) after n := by
  intro said
  obtain ⟨whole, ⟨rest, text⟩, read, -⟩ := write_read .comma small clean blank clean'
  have same := String.ofList_inj.mp said
  rw [String.toList_ofList, SignSide.write, List.append_assoc, List.cons_append,
    List.append_assoc, ← text,
    List.append_assoc, List.append_assoc] at same
  have letters := tidy_cancel same
  rw [visible_append, visible_append] at letters
  have value : wholeWords whole = shekels (n / 1000) := by
    rw [read rfl many, wholeWords, valueOf_toDigits (by omega)]
    rfl
  obtain ⟨more, thousand⟩ := shekels_thousands many small
  rw [value, ← thousand, visible_append, List.append_assoc] at letters
  obtain ⟨one, other⟩ := thousands_apart (n / 1000) (by omega) (by omega)
  have heard : visible (shekels (n / 1000)) <+: visible (shekels (n / 1000)) ++ visible rest :=
    List.prefix_append _ _
  have meant : visible (thousands.getD (n / 1000) "").toList <+: visible (shekels (n / 1000)) ++
    visible rest := by
    rw [letters]
    exact List.prefix_append _ _
  rcases List.prefix_or_prefix_of_prefix heard meant with short | long
  · exact one short
  · exact other long

/-- **A sign in front of the text takes the amount** of the sign behind it. -/
theorem last_behind (grouping : Grouping) (small : n < 10000) (clean : ∀ c ∈ before, isDecimal c = false)
    (signed : EndsInSign before) (blank : ∀ c ∈ gap, isWhitespace c = true)
    (clean' : ∀ c ∈ after, isDecimal c = false) :
    ¬SaidAsAmount before (SignSide.last.write gap (grouping.write n)) after n := by
  intro said
  obtain ⟨front, space, rfl, blank'⟩ := signed
  have others : ∀ c ∈ gap ++ '₪' :: after, isDecimal c = false := List.forall_mem_append.mpr
    ⟨fun c listed => isDecimal_space (blank c listed), List.forall_mem_cons.mpr ⟨rfl, clean'⟩⟩
  have clean'' : ∀ c ∈ front, isDecimal c = false :=
    fun c listed => clean c (List.mem_append_left _ listed)
  obtain ⟨whole, ⟨rest, text⟩, -, spoken⟩ := write_read grouping small clean'' blank' others
  have same := String.ofList_inj.mp said
  have written : front ++ '₪' :: space ++ SignSide.last.write gap (grouping.write n) ++ after =
      front ++ '₪' :: (space ++ (grouping.write n ++ (gap ++ '₪' :: after))) := by
    simp [SignSide.write]
  rw [String.toList_ofList, written, ← text, List.append_assoc, List.append_assoc,
    List.append_assoc] at same
  have letters := tidy_cancel same
  have sign : '₪' ∈ (visible (wholeWords whole ++ rest)).head? := by
    rw [letters]
    rfl
  have shekel : 'ש' ∈ visible (wholeWords whole) := List.mem_filter.mpr ⟨shekel_mem whole, rfl⟩
  rw [visible_append, List.head?_append_of_ne_nil _ (List.ne_nil_of_mem shekel)] at sign
  cases spoken '₪' (List.mem_filter.mp (List.mem_of_mem_head? sign)).1

/-- A sign begins with the shekel sign or with its word. -/
theorem shekel_begins : Begins (fun c => c == '₪' || c == 'ש') (shekel : Pat) := by
  have sign : Begins (fun c => c == '₪' || c == 'ש') (oneOf "₪" : Pat) :=
    (Begins.chars _).mono fun c own => by
    have listed : c ∈ ['₪'] := List.contains_iff_mem.mp own
    rw [List.mem_singleton.mp listed]
    rfl
  exact sign.alt ((Begins.lit rfl).alt ((Begins.lit rfl).alt ((Begins.lit rfl).seq _)))

/-- One digit, when none follows it. -/
theorem run_digit {least : Nat} {more : Option Nat} {prev : Option Char} {x y : Char} {m : Match Char Nat}
    (listed : m ∈ (Re.rep (least + 1) more digit).run prev (x :: y :: rest))
    (other : isDecimal y = false) :
    m.left = y :: rest := by
  obtain ⟨⟨lead, d, after, same, -, -⟩, decimal⟩ := run_digits listed
  have text := run_text _ _ _ m listed
  cases taken : m.taken with
  | nil =>
    rw [taken] at same
    cases lead <;> cases same
  | cons e es =>
    rw [taken] at text decimal
    obtain ⟨-, rest'⟩ := List.cons.inj text
    cases es with
    | nil => exact rest'
    | cons f es =>
      obtain ⟨rfl, -⟩ := List.cons.inj rest'
      have own := decimal f (by simp)
      rw [other] at own
      cases own

/-- What agorot leave of a comma and three digits: it begins with the comma or a digit. -/
theorem cents_left {prev : Option Char} {a b c : Char} {m : Match Char Nat} (units : isDecimal b = true)
    (last : isDecimal c = true) (listed : m ∈ centsPattern.run prev (',' :: a :: b :: c :: rest)) :
    ∃ d t, m.left = d :: t ∧ (d = ',' ∨ isDecimal d = true) := by
  rcases mem_opt listed with rfl | ⟨inner, hinner, -, same⟩
  · exact ⟨',', _, rfl, .inl rfl⟩
  · rw [same]
    obtain ⟨mark, hmark, group, hgroup, rfl⟩ := mem_seq.mp hinner
    obtain ⟨d, left, text, -, rfl⟩ := mem_chars.mp hmark
    obtain ⟨rfl, rfl⟩ := List.cons.inj text
    obtain ⟨digits, hdigits, rfl⟩ := mem_group.mp hgroup
    obtain ⟨first, hfirst, more, hmore, rfl⟩ := mem_followed.mp hdigits
    obtain ⟨e, left, text, -, rfl⟩ := mem_chars.mp hfirst
    obtain ⟨rfl, rfl⟩ := List.cons.inj text
    rcases mem_opt (r := digit) hmore with rfl | ⟨second, hsecond, -, same⟩
    · exact ⟨b, _, rfl, .inr units⟩
    · obtain ⟨f, left, text, -, rfl⟩ := mem_chars.mp hsecond
      obtain ⟨rfl, rfl⟩ := List.cons.inj text
      exact ⟨c, rest, same, .inr last⟩

/-- **Digits up to a comma are no amount** before a sign behind three digits more. -/
theorem moneyAfter_comma {prev : Option Char} {x a b c : Char} (units : isDecimal b = true)
    (last : isDecimal c = true) :
    moneyAfter.first prev (x :: ',' :: a :: b :: c :: rest) = none := by
  cases found : moneyAfter.first prev (x :: ',' :: a :: b :: c :: rest) with
  | none => rfl
  | some m =>
    obtain ⟨group, hgroup, m₁, listed₁, rfl⟩ := mem_seq.mp (first_some found).1
    obtain ⟨whole, hwhole, rfl⟩ := mem_group.mp hgroup
    obtain ⟨cents, hcents, m₂, listed₂, rfl⟩ := mem_seq.mp listed₁
    obtain ⟨gap, hgap, sign, hsign, rfl⟩ := mem_seq.mp listed₂
    have left := run_digit hwhole rfl
    dsimp only at hcents hgap hsign
    rw [left] at hcents
    obtain ⟨d, t, left', own⟩ := cents_left units last hcents
    rw [left'] at hgap
    -- Neither white space nor a sign follows.
    have solid : isWhitespace d = false := by
      rcases own with rfl | digit'
      · rfl
      · by_contra space
        rw [isDecimal_space (by simpa using space)] at digit'
        cases digit'
    have other : (d == '₪' || d == 'ש') = false := by
      rcases own with rfl | digit'
      · rfl
      · refine Bool.or_eq_false_iff.mpr ⟨beq_false_of_ne ?_, beq_false_of_ne ?_⟩
        · rintro rfl
          cases digit'
        · rintro rfl
          cases digit'
    have text := run_text _ _ _ gap hgap
    have blank : ∀ y ∈ gap.taken, isWhitespace y = true := run_takes _ _ _ gap hgap
    cases taken : gap.taken with
    | nil =>
      rw [taken] at text
      have left'' : gap.left = d :: t := text
      have none' : ∀ prev, shekel.run prev (d :: t) = [] := fun _ => shekel_begins.run_other other
      rw [left''] at hsign
      have absurd' : sign ∈ shekel.run _ (d :: t) := hsign
      rw [none'] at absurd'
      cases absurd'
    | cons e es =>
      rw [taken] at text blank
      obtain ⟨rfl, -⟩ := List.cons.inj text
      rw [blank e List.mem_cons_self] at solid
      cases solid

theorem isComma_outside {core : Char → Bool} (other : core ',' = false) : ∀ c, (c == ',') = true →
    core c = false := by
  intro c same
  rwa [eq_of_beq same]

/-- **A comma before a sign stays**, between two numbers. -/
theorem comma_last (many : 1000 ≤ n) (small : n < 10000) (clean : ∀ c ∈ before, isDecimal c = false)
    (unsigned : ¬EndsInSign before) (blank : ∀ c ∈ gap, isWhitespace c = true)
    (clean' : ∀ c ∈ after, isDecimal c = false) :
    ¬SaidAsAmount before (SignSide.last.write gap (Grouping.comma.write n)) after n := by
  intro said
  have decimal : ∀ k, isDecimal (Nat.digitChar (k % 10)) = true :=
    fun k => digitChar_decimal (Nat.mod_lt k (by decide))
  have lead : isDecimal (Nat.digitChar (n / 1000)) = true := digitChar_decimal (by omega)
  have written : before ++ SignSide.last.write gap (Grouping.comma.write n) ++ after =
      before ++ (Nat.digitChar (n / 1000) :: ',' :: lastThree n ++ (gap ++ '₪' :: after)) := by
    rw [Grouping.write, if_neg (by omega), Nat.toDigits_of_lt_base (by omega)]
    simp [SignSide.write]
  have signless : ∀ c ∈ Nat.digitChar (n / 1000) :: ',' :: lastThree n, c ≠ '₪' := by
    rintro c listed rfl
    rcases List.mem_cons.mp listed with same | listed
    · rw [← same] at lead
      cases lead
    · rcases List.mem_cons.mp listed with same | listed
      · cases same
      · cases lastThree_decimal n '₪' listed
  have first := moneyBefore_last clean unsigned lead signless blank clean'
  have begins : Begins isDecimal moneyAfter := (Begins.group (Begins.rep (Begins.chars isDecimal))).seq _
  have comma : ∀ prev cs, moneyAfter.first prev (',' :: cs) = none := by
    intro prev cs
    rw [Re.first, begins.run_other rfl]
    rfl
  have thousand : ∀ prev, moneyAfter.first prev
    (Nat.digitChar (n / 1000) :: ',' :: (lastThree n ++ (gap ++ '₪' :: after))) =
      none := fun _ => moneyAfter_comma (decimal _) (decimal _)
  have second : Re.replaceAll moneyAfter sayMoney
      (before ++ (Nat.digitChar (n / 1000) :: ',' :: lastThree n ++ (gap ++ '₪' :: after))) =
      before ++ Nat.digitChar (n / 1000) :: ',' :: ((money (lastThree n) none).toList ++ after) := by
    rw [Re.replaceAll, replaceFrom_begins begins clean, List.cons_append, List.cons_append,
      replaceFrom_pass (thousand _), replaceFrom_pass (comma _ _),
      moneyAfter_said (by simp [lastThree]) (by simp [lastThree]) (lastThree_decimal n) blank clean']
  -- Nothing of what follows loses the comma.
  have kept :
    (before ++ Nat.digitChar (n / 1000) :: ',' :: ((money (lastThree n) none).toList ++
      after)).countP (· == ',') ≤
      (sayAll
        (before ++
          (Nat.digitChar (n / 1000) :: ',' :: lastThree n ++ (gap ++ '₪' :: after)))).countP
            (· == ',') := by
    unfold sayAll
    dsimp only
    rw [first, second]
    exact (percent_recasts.keeps (isComma_outside rfl) _ _).trans
      ((identifier_recasts.keeps (isComma_outside rfl) _ _).trans
      ((phone_recasts.keeps (isComma_outside rfl) _ _).trans
        ((time_recasts.keeps (isComma_outside rfl) _ _).trans
        ((date_recasts.keeps (isComma_outside rfl) _ _).trans
          (number_recasts.keeps (isComma_outside rfl) _ _)))))
  have same := String.ofList_inj.mp said
  rw [String.toList_ofList, written] at same
  have commas := congrArg (List.countP (· == ',')) same
  rw [tidy_countP (isComma_outside rfl), tidy_countP (isComma_outside rfl)] at commas
  have wordless : (shekels n).countP (· == ',') = 0 := by
    refine List.countP_eq_zero.mpr fun c listed own => ?_
    have spoken : isSpoken c = true :=
      countPhrase_spoken (by omega) (by omega) .masculine (by decide) (by decide) c listed
    rw [eq_of_beq own] at spoken
    cases spoken
  rw [commas] at kept
  simp only [List.countP_append, List.countP_cons, wordless, beq_self_eq_true, if_true] at kept
  omega

end Misreading

section Said

variable [RegexTables] {before after gap : List Char} {n : Nat}

theorem write_plain {grouping : Grouping} (plain : grouping = .plain ∨ n < 1000) :
    grouping.write n = Nat.toDigits 10 n := by
  cases grouping with
  | plain => rfl
  | comma =>
    rcases plain with absurd' | few
    · cases absurd'
    · rw [Grouping.write, if_pos few]

/-- **An amount is said as that amount exactly when** it is written without a comma, and no sign
stands in front of the text whose sign follows. -/
theorem amount_said_iff (side : SignSide) (grouping : Grouping) (small : n < 10000)
    (clean : ∀ c ∈ before, isDecimal c = false) (blank : ∀ c ∈ gap, isWhitespace c = true)
    (clean' : ∀ c ∈ after, isDecimal c = false) :
    SaidAsAmount before (side.write gap (grouping.write n)) after n ↔
      (grouping = .plain ∨ n < 1000) ∧ (side = .first ∨ ¬EndsInSign before) := by
  have tidied : ∀ {amount : List Char}, sayAll (before ++ amount ++ after) =
    before ++ (shekels n ++ after) →
      SaidAsAmount before amount after n := by
    intro amount said
    rw [SaidAsAmount, normalizeHebrew, String.toList_ofList, said, List.append_assoc]
  constructor
  · intro said
    by_cases plain : grouping = .plain ∨ n < 1000
    · refine ⟨plain, ?_⟩
      cases side with
      | first => exact .inl rfl
      | last => exact .inr fun signed => last_behind grouping small clean signed blank clean' said
    · obtain ⟨comma, many⟩ := not_or.mp plain
      have grouped : grouping = .comma := by
        cases grouping with
        | plain => exact absurd rfl comma
        | comma => rfl
      subst grouped
      cases side with
      | first => exact absurd said (comma_first (by omega) small clean blank clean')
      | last =>
        by_cases signed : EndsInSign before
        · exact absurd said (last_behind .comma small clean signed blank clean')
        · exact absurd said (comma_last (by omega) small clean signed blank clean')
  · rintro ⟨plain, sign⟩
    rw [write_plain plain]
    cases side with
    | first =>
      refine tidied ?_
      have text : before ++ SignSide.first.write gap (Nat.toDigits 10 n) ++ after =
          before ++ '₪' :: (gap ++ (Nat.toDigits 10 n ++ after)) := by
        simp [SignSide.write]
      rw [text]
      exact plain_first small clean blank clean'
    | last =>
      refine tidied ?_
      have text : before ++ SignSide.last.write gap (Nat.toDigits 10 n) ++ after =
          before ++ (Nat.toDigits 10 n ++ (gap ++ '₪' :: after)) := by
        simp [SignSide.write]
      rw [text]
      exact plain_last small clean (sign.resolve_left (by decide)) blank clean'

end Said

theorem four_fifty_said :
    @SaidAsAmount .plain "זה עולה ".toList
    (SignSide.last.write [' '] (Grouping.plain.write 450)) " בלבד".toList 450 :=
  (@amount_said_iff .plain "זה עולה ".toList " בלבד".toList [' '] 450 .last .plain (by decide)
    (by decide) (by decide)
    (by decide)).mpr ⟨.inl rfl, .inr fun ⟨front, space, same, _⟩ => by
      have sign : '₪' ∈ "זה עולה ".toList := by rw [same]; simp
      revert sign
      decide⟩

/-- An amount with a comma is split, on either side of the sign. -/
theorem twelve_hundred_split :
    ¬@SaidAsAmount .plain [] "₪1,200".toList [] 1200 ∧ ¬@SaidAsAmount .plain [] "1,200₪".toList
    [] 1200 := by
  have none' : ∀ p : Char → Prop, ∀ c ∈ ([] : List Char), p c :=
    fun _ c absurd' => absurd absurd' List.not_mem_nil
  constructor
  · exact @comma_first .plain [] [] [] 1200 (by decide) (by decide) (none' _) (none' _) (none' _)
  · refine @comma_last .plain [] [] [] 1200 (by decide) (by decide) (none' _) ?_ (none' _) (none' _)
    rintro ⟨front, space, same, -⟩
    simp at same

end Callora.Text
