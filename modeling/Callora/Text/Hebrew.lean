/-
**Hebrew numbers.**

Reading numbers out of transcripts (`findNumbers`, `withDigits`) and saying them with the right gender
(`numberWords`, `countPhrase`, `clockWords`).
-/
import Callora.Text.Matching

set_option linter.unusedSectionVars false

namespace Callora.Text

/-- Grammatical gender of the counted noun. -/
inductive Gender where
  | masculine
  | feminine
  deriving DecidableEq, Repr

section Saying

def unitsM : List String :=
  ["אפס", "אחד", "שניים", "שלושה", "ארבעה", "חמישה", "שישה", "שבעה", "שמונה", "תשעה"]

def unitsF : List String :=
  ["אפס", "אחת", "שתיים", "שלוש", "ארבע", "חמש", "שש", "שבע", "שמונה", "תשע"]

def teensM : List String :=
  ["עשרה", "אחד עשר", "שנים עשר", "שלושה עשר", "ארבעה עשר", "חמישה עשר", "שישה עשר", "שבעה עשר",
    "שמונה עשר", "תשעה עשר"]

def teensF : List String :=
  ["עשר", "אחת עשרה", "שתים עשרה", "שלוש עשרה", "ארבע עשרה", "חמש עשרה", "שש עשרה", "שבע עשרה",
    "שמונה עשרה", "תשע עשרה"]

def tens : List String :=
  ["", "", "עשרים", "שלושים", "ארבעים", "חמישים", "שישים", "שבעים", "שמונים", "תשעים"]

def hundreds : List String :=
  ["", "מאה", "מאתיים", "שלוש מאות", "ארבע מאות", "חמש מאות", "שש מאות", "שבע מאות", "שמונה מאות",
    "תשע מאות"]

def thousands : List String :=
  ["", "אלף", "אלפיים", "שלושת אלפים", "ארבעת אלפים", "חמשת אלפים", "ששת אלפים", "שבעת אלפים",
    "שמונת אלפים", "תשעת אלפים"]

/-- The parts of a number between 1 and 9999, largest first. -/
def numberParts (n : Nat) (gender : Gender) : List String :=
  let (units, teens) := match gender with
    | .masculine => (unitsM, teensM)
    | .feminine => (unitsF, teensF)
  let rest := n % 1000
  let below := rest % 100
  (if 1000 ≤ n then [thousands.getD (n / 1000) ""] else []) ++
    (if 100 ≤ rest then [hundreds.getD (rest / 100) ""] else []) ++
    (if 20 ≤ below then
      tens.getD (below / 10) "" :: (if below % 10 ≠ 0 then [units.getD (below % 10) ""] else [])
    else if 10 ≤ below then [teens.getD (below - 10) ""]
    else if 0 < below then [units.getD below ""]
    else [])

/-- The last of several parts takes a vav. -/
def joinParts (parts : List String) : String :=
  match parts.getLast? with
  | some last => if 1 < parts.length then join " " (parts.dropLast ++ ["ו" ++ last]) else join " " parts
  | none => ""

/-- `number_words`: a number as it is said. -/
def numberWords (n : Int) (gender : Gender) : String :=
  if n < 0 ∨ 9999 < n then toString n
  else if n = 0 then "אפס"
  else joinParts (numberParts n.toNat gender)

/-- `count_phrase`: a counted noun. -/
def countPhrase (n : Int) (gender : Gender) (singular plural : String) : String :=
  if n = 1 then singular
  else if n = 2 then
    match gender with
    | .masculine => "שני " ++ plural
    | .feminine => "שתי " ++ plural
  else numberWords n gender ++ " " ++ plural

/-- `clock_words`: a time of day as it is said. -/
def clockWords (hour minute : Nat) : String :=
  let h12 := if hour % 12 = 0 then 12 else hour % 12
  let hourWords := numberWords h12 .feminine
  if minute = 0 then hourWords
  else if minute = 15 then hourWords ++ " ורבע"
  else if minute = 30 then hourWords ++ " וחצי"
  else hourWords ++ " ו" ++ numberWords minute .feminine

end Saying

section Reading

/-- The value of a word for one to nine. -/
def unitValue (word : String) : Option Int :=
  if ["אחד", "אחת"].contains word then some 1
  else if ["שניים", "שתיים", "שני", "שתי", "שתים", "שנים", "שנַיִם"].contains word then some 2
  else if ["שלוש", "שלושה", "שלושת", "שלש"].contains word then some 3
  else if ["ארבע", "ארבעה", "ארבעת"].contains word then some 4
  else if ["חמש", "חמישה", "חמשת", "חמשה"].contains word then some 5
  else if ["שש", "שישה", "ששת", "ששה"].contains word then some 6
  else if ["שבע", "שבעה", "שבעת"].contains word then some 7
  else if ["שמונה", "שמונת"].contains word then some 8
  else if ["תשע", "תשעה", "תשעת"].contains word then some 9
  else none

/-- The value of a word for a multiple of ten. -/
def tensValue (word : String) : Option Int :=
  (tens.findIdx? fun t => t != "" && t == word).map fun i => (i : Int) * 10

/-- What a word contributes to a number. -/
inductive Piece where
  | unit (u : Int)
  | ten
  | tens (t : Int)
  | hundred (h : Int)
  | hundreds
  | digits (v : Int)
  deriving DecidableEq, Repr

/-- `piece`: a number word or a numeral. -/
def piece (word : String) : Option Piece :=
  match parseI64 word with
  | some v => some (.digits v)
  | none =>
    match unitValue word with
    | some u => some (.unit u)
    | none =>
      if ["עשר", "עשרה", "עשרת"].contains word then some .ten
      else match tensValue word with
        | some t => some (.tens t)
        | none =>
          if word == "מאה" then some (.hundred 100)
          else if word == "מאתיים" then some (.hundred 200)
          else if word == "מאות" then some .hundreds
          else none

/-- A number found in tokens `[start, end)`. -/
structure FoundNumber where
  value : Int
  start : Nat
  stop : Nat
  deriving DecidableEq, Repr

/-- What a piece does to the number read so far, if it continues it. -/
def Piece.join (p : Piece) (total current : Int) : Option (Int × Int) :=
  match p with
  | .unit u => if current % 10 = 0 then some (total, current + u) else none
  | .ten =>
    if 1 ≤ current % 100 ∧ current % 100 ≤ 9 then some (total, current + 10)
    else if current = 0 then some (total, 10)
    else none
  | .tens t => if current % 100 = 0 then some (total, current + t) else none
  | .hundred h => if current = 0 then some (total, h) else none
  | .hundreds => if 1 ≤ current ∧ current ≤ 9 then some (total + current * 100, 0) else none
  | .digits _ => none

/-- The words of one compound number: how many, and its value. A leading vav joins the parts. -/
def compound : List String → Bool → Int → Int → Nat → Nat × Int
  | [], _, total, current, used => (used, total + current)
  | tok :: toks, started, total, current, used =>
    let p := match piece tok with
      | some p => some p
      | none => if started then (stripPrefix tok "ו").bind piece else none
    match p.bind fun p => p.join total current with
    | some (total, current) => compound toks true total current (used + 1)
    | none => (used, total + current)

/-- The scan of `find_numbers`; `skip` tokens belong to the number found last. -/
def scanNumbers : List String → Nat → Nat → List FoundNumber
  | [], _, _ => []
  | _ :: toks, i, skip + 1 => scanNumbers toks (i + 1) skip
  | tok :: toks, i, 0 =>
    match piece tok with
    | none => scanNumbers toks (i + 1) 0
    | some (.digits v) => ⟨v, i, i + 1⟩ :: scanNumbers toks (i + 1) 0
    | some .hundreds => scanNumbers toks (i + 1) 0
    | some _ =>
      let (used, value) := compound (tok :: toks) false 0 0 0
      if used = 0 then scanNumbers toks (i + 1) 0
      else ⟨value, i, i + used⟩ :: scanNumbers toks (i + 1) (used - 1)

/-- `find_numbers`: every number in the tokens, digits and Hebrew words. -/
def findNumbers (toks : List String) : List FoundNumber := scanNumbers toks 0 0

/-- The tokens with each number found written in digits. -/
def digitTokens (found : List FoundNumber) : List String → Nat → Nat → List String
  | [], _, _ => []
  | _ :: toks, i, skip + 1 => digitTokens found toks (i + 1) skip
  | tok :: toks, i, 0 =>
    match found.find? fun n => n.start == i with
    | some n => toString n.value :: digitTokens found toks (i + 1) (max n.stop (i + 1) - (i + 1))
    | none => tok :: digitTokens found toks (i + 1) 0

/-- `with_digits`: a text with its number words written in digits. -/
def withDigits (text : String) : String :=
  let toks := splitWhitespace (replace text "," " , ")
  replace (replace (join " " (digitTokens (findNumbers toks) toks 0 0)) " , " ", ") " ," ","

end Reading

end Callora.Text
