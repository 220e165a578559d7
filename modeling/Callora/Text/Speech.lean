/-
**Preparing text for a TTS engine.**

`normalizeHebrew` turns every digit sequence of a text into words, with the context that decides how it is
said: money, percentage, identifier, phone number, time, date, or a plain number. It is a chain of
replacements of regular expressions, each of them written here beside its source.
-/
import Callora.Library.Regex
import Callora.Text.Hebrew

set_option linter.unusedSectionVars false

namespace Callora.Text

open Regex

/-- **The character tables of the regex library**, asked only outside ASCII, Hebrew and the currency
signs. -/
class RegexTables where
  /-- `\d`: the decimal digits of every script. -/
  decimal : Char → Bool
  /-- `\w`: letters, marks, digits and connecting punctuation. -/
  word : Char → Bool
  /-- White space is no digit. -/
  decimal_space : ∀ c, isWhitespace c = true → decimal c = false

/-- The tables of texts in ASCII, Hebrew and currency signs. -/
@[reducible] def RegexTables.plain : RegexTables where
  decimal := fun _ => false
  word := fun _ => false
  decimal_space := fun _ _ => rfl

/-- What holds of every character of a text is decided along the text. -/
@[reducible] def decidableListed {p : Char → Prop} [DecidablePred p] (cs : List Char) :
    Decidable (∀ c ∈ cs, p c) :=
  List.decidableBAll p cs

section Classes

/-- A point or a letter of the Hebrew block. -/
def isHebrewWord (c : Char) : Bool :=
  let n := c.toNat
  (0x0591 ≤ n && n ≤ 0x05BD) || n == 0x05BF || n == 0x05C1 || n == 0x05C2 || n == 0x05C4 || n == 0x05C5 ||
    n == 0x05C7 || (0x05D0 ≤ n && n ≤ 0x05EA) || (0x05EF ≤ n && n ≤ 0x05F2)

/-- A code point of the block of currency signs: no digit, and no word. -/
def isCurrency (c : Char) : Bool :=
  0x20A0 ≤ c.toNat && c.toNat ≤ 0x20CF

/-- `\d`. -/
def isDecimal [RegexTables] (c : Char) : Bool :=
  if c.toNat < 0x80 then isAsciiDigit c
  else if inHebrewBlock c || isCurrency c then false
  else RegexTables.decimal c

/-- `\w`. -/
def isWord [RegexTables] (c : Char) : Bool :=
  if c.toNat < 0x80 then c.isAlphanum || c == '_'
  else if inHebrewBlock c then isHebrewWord c
  else if isCurrency c then false
  else RegexTables.word c

/-- A pattern: its groups are numbered, and the named ones with them. -/
abbrev Pat := Re Char Nat

variable [RegexTables]

def digit : Pat := .chars isDecimal

def nonDigit : Pat := .chars fun c => !isDecimal c

def space : Pat := .chars isWhitespace

def oneOf (set : String) : Pat := .chars set.toList.contains

def text (word : String) : Pat := .lit word.toList

def range (first last : Char) : Pat := .chars fun c => first ≤ c && c ≤ last

/-- `[A-Za-z]`. -/
def letter : Pat := .chars fun c => ('A' ≤ c && c ≤ 'Z') || ('a' ≤ c && c ≤ 'z')

/-- `\b`. -/
def wordEdge : Pat := .look fun prev next => prev.any isWord != next.any isWord

end Classes

section Patterns

variable [RegexTables]

/-- `(?:[.,](\d{1,2}))?` -/
def centsPattern : Pat := .opt (.seqs [oneOf ".,", .group 2 (.between 1 2 digit)])

/-- `₪\s*(\d{1,6})(?:[.,](\d{1,2}))?` -/
def moneyBefore : Pat := .seqs [oneOf "₪", .star space, .group 1 (.between 1 6 digit), centsPattern]

/-- `₪|ש״ח|ש\x22ח|שח\b` -/
def shekel : Pat := .alts (oneOf "₪") [text "ש״ח", text "ש\"ח", .seqs [text "שח", wordEdge]]

/-- `(\d{1,6})(?:[.,](\d{1,2}))?\s*(?:₪|ש״ח|ש\x22ח|שח\b)` -/
def moneyAfter : Pat := .seqs [.group 1 (.between 1 6 digit), centsPattern, .star space, shekel]

/-- `(\d{1,3})\s*%` -/
def percent : Pat := .seqs [.group 1 (.between 1 3 digit), .star space, oneOf "%"]

/-- `[\s-]?` -/
def phoneGap : Pat := .opt (.chars fun c => isWhitespace c || c == '-')

/-- `(?:\+972[\s-]?|0)(?:5\d|7\d|[2-489])(?:[\s-]?\d){7}` -/
def subscriberNumber : Pat :=
  .seqs [.alts (.seqs [text "+972", phoneGap]) [oneOf "0"],
    .alts (.seqs [oneOf "5", digit]) [.seqs [oneOf "7", digit], oneOf "23489"],
    .times 7 (.seqs [phoneGap, digit])]

/-- `1[\s-]?[78]00[\s-]?\d{2,3}[\s-]?\d{3,4}` -/
def tollFreeNumber : Pat :=
  .seqs [oneOf "1", phoneGap, oneOf "78", text "00", phoneGap, .between 2 3 digit, phoneGap,
    .between 3 4 digit]

/-- `(?P<pre>^|[^\d+])(?P<num>…|…)(?P<post>\D|$)` -/
def phone : Pat :=
  .seqs [.group 1 (.alts .start [.chars fun c => !(isDecimal c || c == '+')]),
    .group 2 (.alts subscriberNumber [tollFreeNumber]), .group 3 (.alts nonDigit [.stop])]

/-- `(?P<pre>^|\D)([01]?\d|2[0-3]):([0-5]\d)(?P<post>\D|$)` -/
def time : Pat :=
  .seqs [.group 1 (.alts .start [nonDigit]),
    .group 2 (.alts (.seqs [.opt (oneOf "01"), digit]) [.seqs [oneOf "2", range '0' '3']]), oneOf ":",
    .group 3 (.seqs [range '0' '5', digit]), .group 4 (.alts nonDigit [.stop])]

/-- `(?P<pre>^|\D)([0-3]?\d)[/.]([01]?\d)(?:[/.](\d{2,4}))?(?P<post>[^\d/.]|$)` -/
def date : Pat :=
  .seqs [.group 1 (.alts .start [nonDigit]), .group 2 (.seqs [.opt (range '0' '3'), digit]), oneOf "/.",
    .group 3 (.seqs [.opt (oneOf "01"), digit]), .opt (.seqs [oneOf "/.", .group 4 (.between 2 4 digit)]),
    .group 5 (.alts (.chars fun c => !(isDecimal c || c == '/' || c == '.')) [.stop])]

/-- `(?:ה?הזמנה|ה?מעקב|ה?תיק(?: ה?שירות)?|ה?אסמכתא|ה?אישור|ה?אימות|קוד|order|tracking)` -/
def announcement : Pat :=
  .alts (.seqs [.opt (oneOf "ה"), text "הזמנה"])
    [.seqs [.opt (oneOf "ה"), text "מעקב"],
      .seqs [.opt (oneOf "ה"), text "תיק", .opt (.seqs [oneOf " ", .opt (oneOf "ה"), text "שירות"])],
      .seqs [.opt (oneOf "ה"), text "אסמכתא"], .seqs [.opt (oneOf "ה"), text "אישור"],
      .seqs [.opt (oneOf "ה"), text "אימות"], text "קוד", text "order", text "tracking"]

/-- `(?:\s+(?:שלך|שלכם|מספר|הוא|היא|הם|#|no\.?|number))*` -/
def announcementWords : Pat :=
  .star
    (.seqs [.plus space, .alts (text "שלך") [text "שלכם", text "מספר", text "הוא", text "היא", text "הם",
    oneOf "#", .seqs [text "no", .opt (oneOf ".")], text "number"]])

/-- `[A-Za-z]{0,4}-?[0-9][A-Za-z0-9-]{3,}` -/
def identifierText : Pat :=
  .seqs [.between 0 4 letter, .opt (oneOf "-"), range '0' '9',
    .rep 3 none (.chars fun c => c.isAlphanum || c == '-')]

/-- `(?P<lead>…\s*[:#]?\s*)(?P<id>…)` -/
def identifier : Pat :=
  .seqs [.group 1 (.seqs [announcement, announcementWords, .star space, .opt (oneOf ":#"), .star space]),
    .group 2 identifierText]

/-- `\d+` -/
def number : Pat := .plus digit

/-- `\s+` -/
def spaces : Pat := .plus space

end Patterns

section Saying

/-- `MONTHS`. -/
def months : List String :=
  ["ינואר", "פברואר", "מרץ", "אפריל", "מאי", "יוני", "יולי", "אוגוסט", "ספטמבר", "אוקטובר",
    "נובמבר", "דצמבר"]

/-- The value of an ASCII digit. -/
def digitValue (c : Char) : Int := c.toNat - 48

/-- `digits_spelled`: the digits one by one. -/
def digitsSpelled (s : List Char) : String :=
  join " " ((s.filter isAsciiDigit).map fun c => numberWords (digitValue c) .feminine)

/-- `spell_identifier`: letters and digits one by one; separators become pauses. -/
def spellIdentifier (id : List Char) : String :=
  replace (join " " (id.filterMap fun c =>
    if isAsciiDigit c then some (numberWords (digitValue c) .feminine)
    else if c.isAlpha then some (String.ofList [c.toUpper])
    else if c = '-' then some ","
    else none)) " ," ","

/-- `str::parse::<i64>` on the text of a group, zero where it fails. -/
def valueOf (s : List Char) : Int := (parseI64 (String.ofList s)).getD 0

/-- `money`: a price as it is said on the phone. -/
def money (whole : List Char) (cents : Option (List Char)) : String :=
  let out := countPhrase (valueOf whole) .masculine "שקל אחד" "שקל"
  match (cents.bind fun c => parseI64 (String.ofList c)).filter fun c => 0 < c with
  | some c => out ++ " ו" ++ countPhrase c .feminine "אגורה אחת" "אגורות"
  | none => out

/-- What a match says, over its groups. -/
abbrev Said := Match Char Nat → List Char

/-- The text of a group that took part in the match. -/
def groupText (m : Match Char Nat) (name : Nat) : List Char := (m.get name).getD []

def sayMoney : Said := fun m => (money (groupText m 1) (m.get 2)).toList

def sayPercent : Said := fun m => (numberWords (valueOf (groupText m 1)) .masculine ++ " אחוז").toList

def sayIdentifier : Said := fun m => groupText m 1 ++ (spellIdentifier (groupText m 2)).toList

def sayPhone : Said := fun m => groupText m 1 ++ (digitsSpelled (groupText m 2)).toList ++ groupText m 3

/-- `str::parse::<u32>` on the text of a group, zero where it fails. -/
def unsignedOf (s : List Char) : Nat := (parseU32 (String.ofList s)).getD 0

def sayTime : Said := fun m =>
  groupText m 1 ++ (clockWords (unsignedOf (groupText m 2)) (unsignedOf (groupText m 3))).toList ++
    groupText m 4

/-- The year of a date: two digits are of this century. -/
def yearOf (y : Int) : Int := if y < 100 then 2000 + y else y

def sayDate : Said := fun m =>
  let day := valueOf (groupText m 2)
  let month := (valueOf (groupText m 3)).toNat
  if ¬(1 ≤ day ∧ day ≤ 31) ∨ ¬(1 ≤ month ∧ month ≤ 12) then m.taken
  else
    let year := match (m.get 4).bind fun y => parseI64 (String.ofList y) with
      | some y => " " ++ numberWords (yearOf y) .feminine
      | none => ""
    groupText m 1 ++ (numberWords day .masculine ++ " ב" ++ months.getD (month - 1) "" ++
      year).toList ++ groupText m 5

/-- A plain number up to four digits, in words; a longer one, or one with a zero first, digit by digit. -/
def sayNumber : Said := fun m =>
  match parseI64 (String.ofList m.taken) with
  | some n =>
    if (bytes m.taken ≤ 4 ∧ m.taken.head? ≠ some '0') ∨
      m.taken = ['0'] then (numberWords n .feminine).toList
    else (digitsSpelled m.taken).toList
  | none => (digitsSpelled m.taken).toList

end Saying

section Normalizing

variable [RegexTables]

/-- The end of `normalize_hebrew`: no white space around, and one space between. -/
def tidy (s : List Char) : List Char :=
  Re.replaceAll spaces (fun _ => [' ']) (trim (String.ofList s)).toList

/-- The replacements of `normalize_hebrew`, one after the other. -/
def sayAll (s : List Char) : List Char :=
  let s := Re.replaceAll moneyBefore sayMoney s
  let s := Re.replaceAll moneyAfter sayMoney s
  let s := Re.replaceAll percent sayPercent s
  let s := Re.replaceAll identifier sayIdentifier s
  let s := Re.replaceAll phone sayPhone s
  let s := Re.replaceAll time sayTime s
  let s := Re.replaceAll date sayDate s
  Re.replaceAll number sayNumber s

/-- **`normalize_hebrew`.** -/
def normalizeHebrew (text : String) : String := String.ofList (tidy (sayAll text.toList))

end Normalizing

end Callora.Text
