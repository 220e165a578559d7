/-
**Localities and streets.**

What the engine knows of the list of localities and streets: how names are compared (`norm`, `distance`,
`sound`), which words of a place nobody said (`unheardWords`), and what a lookup answers. The list itself
is `Gazetteer`: the lookups the engine asks it for, whatever its rows are.
-/
import Callora.Text.Matching

set_option linter.unusedSectionVars false

namespace Callora

open Callora.Text

section Names

variable [Unicode]

/-- A final letter as it is written inside a word. -/
def foldFinal (c : Char) : Char :=
  if c = 'ך' then 'כ' else if c = 'ם' then 'מ' else if c = 'ן' then 'נ'
  else if c = 'ף' then 'פ' else if c = 'ץ' then 'צ' else c

/-- The loop of `norm`: `blank` tells that nothing or a space was written last. -/
def normLoop : List Char → Bool → List Char
  | [], _ => []
  | c :: cs, blank =>
    let c := foldFinal c
    if isAlphanumeric c then c :: normLoop cs false
    else if (isWhitespace c || c == '-' || c == Char.ofNat 0x05BE || c == ',') && !blank then
      ' ' :: normLoop cs true
    else normLoop cs blank

/-- `norm`: letters and digits only, final letters folded, single spaces. -/
def norm (s : String) : String := trimEnd (String.ofList (normLoop s.toList true))

/-- `strip_prefix`: the word after a single prefix letter. -/
def stripLetter (word : String) : Option String :=
  match word.toList with
  | first :: rest =>
    if ['מ', 'ל', 'ב', 'ו', 'ה'].contains first && 2 < word.length then some (String.ofList rest)
    else none
  | [] => none

/-- The next row of the edit-distance table: `diagonal` is the cell above and before. -/
def distanceRow (ca : Char) : List Char → Nat → List Nat → Nat → List Nat
  | cb :: bs, diagonal, above :: row, left =>
    let cell := min (min (diagonal + (if ca = cb then 0 else 1)) (above + 1)) (left + 1)
    cell :: distanceRow ca bs above row cell
  | _, _, _, _ => []

/-- The rows of the table, one for each character of the first word. -/
def distanceRows (b : List Char) : List Char → Nat → List Nat → List Nat
  | [], _, prev => prev
  | ca :: as, i, prev =>
    match prev with
    | [] => []
    | first :: rest => distanceRows b as (i + 1) ((i + 1) :: distanceRow ca b first rest (i + 1))

/-- `distance`: how many edits apart two words are. -/
def distance (a b : String) : Nat :=
  (distanceRows b.toList a.toList 0 (List.range (b.length + 1))).getLastD 0

/-- `sound`: the consonants a word keeps when spoken fast. -/
def sound (s : String) : String :=
  String.ofList ((s.toList.filter fun c => !(['א', 'ע', 'ה', 'ו', 'י', ' '].contains c)).map fun c =>
    if c = 'כ' then 'ק' else if c = 'ט' then 'ת' else if c = 'ש' then 'ס' else c)

/-- A Latin letter in rough Hebrew. -/
def hebrewLetter (c : Char) : Option Char :=
  if c = 'b' then some 'ב' else if "gj".toList.contains c then some 'ג'
  else if c = 'd' then some 'ד' else if c = 'h' then some 'ה'
  else if "uovw".toList.contains c then some 'ו' else if c = 'z' then some 'ז'
  else if c = 't' then some 'ט' else if "iy".toList.contains c then some 'י'
  else if "kcq".toList.contains c then some 'ק' else if c = 'l' then some 'ל'
  else if c = 'm' then some 'מ' else if c = 'n' then some 'נ'
  else if "sx".toList.contains c then some 'ס' else if "pf".toList.contains c then some 'פ'
  else if c = 'r' then some 'ר' else none

/-- `hebrew_letters`: the Latin words of a text in rough Hebrew letters. -/
def hebrewLetters (text : String) : String :=
  join " " (((split (fun c => !(c.isAlpha)) text).filter fun w => 2 ≤ w.length).map fun w =>
    String.ofList ((w.toList.map Char.toLower).filterMap hebrewLetter))

/-- Every stretch of `size` characters. -/
def stretches (size : Nat) : List Char → List String
  | [] => if size = 0 then [""] else []
  | c :: cs =>
    if size ≤ (c :: cs).length then String.ofList ((c :: cs).take size) :: stretches size cs else []

/-- A word close to one heard, or to a stretch of the speech with the spaces removed. -/
def nearHeard (heardWords : List String) (compact : List Char) (w : String) : Bool :=
  let len := w.length
  let glued := if 9 ≤ len then 2 else 1
  heardWords.any (fun h => distance w h ≤ max ((len + 2) / 3) 1) ||
    ((List.range (len + 2 - max (len - 1) 1)).any fun k =>
      (stretches (max (len - 1) 1 + k) compact).any fun piece => distance w piece ≤ glued)

/-- The consonants heard, and where a word (or the word after a prefix letter) starts in them. -/
def soundsHeard (heardWords : List String) : List Char × List Nat :=
  heardWords.foldl (fun (sounds, starts) w =>
    let w := String.ofList (w.toList.filter fun c => !isAsciiDigit c)
    let s := (sound w).toList
    if s.isEmpty then (sounds, starts)
    else (sounds ++ s, starts ++ [sounds.length] ++
      (if (stripLetter w).isSome && 1 < s.length then [sounds.length + 1] else []))) ([], [])

/-- Whether a name of four consonants or more sounds like a stretch that starts a word. -/
def soundsLike (sounds : List Char) (starts : List Nat) (name : String) : Bool :=
  let name := sound name
  let len := name.length
  4 ≤ len && starts.any fun start =>
    [len, len + 1].any fun size => distance name (String.ofList ((sounds.drop start).take size)) ≤ 1

/-- The words of a place that name it: no numbers, no "street". -/
def namingWords (value : String) : List String :=
  (words (norm value)).filter fun w =>
    2 ≤ w.length && !w.toList.all isAsciiDigit &&
      !(["רחוב", "רח", "שדרות", "שד", "דרכ", "סמטת", "כיכר"].contains w)

/-- `unheard_words`: the words of a place the caller never said, not even garbled. -/
def unheardWords (value heard : String) : List String :=
  let heard := norm (heard ++ " " ++ hebrewLetters heard)
  let heardWords := words heard
  let compact := heard.toList.filter (· != ' ')
  let near := nearHeard heardWords compact
  let ws := namingWords value
  let unheard := ws.map fun w => !near w && !((stripLetter w).any near)
  let (sounds, starts) := soundsHeard heardWords
  let stretch (first last : Nat) :=
    soundsLike sounds starts (join "" ((ws.drop first).take (last + 1 - first)))
  (ws.mapIdx fun i w =>
    let first := i - 1
    let last := min (i + 1) (ws.length - 1)
    if unheard.getD i false && !(stretch i last || stretch first i || stretch first last) then [w]
    else []).flatten

end Names

/-- A place that is not a street: its address when mapped, and where it is. -/
structure PlaceInfo where
  address : Option String
  point : String
  deriving DecidableEq

/-- A place found in the list. -/
structure Address where
  citySaid : String
  city : String
  street : Option String
  streetSaid : Option String
  number : Option String
  place : Option PlaceInfo
  deriving DecidableEq

namespace Address

/-- `Address::format_parts`. -/
def formatParts (street number : Option String) (city : String) : String :=
  match street, number with
  | some s, some n => s ++ " " ++ n ++ ", " ++ city
  | some s, none => s ++ ", " ++ city
  | none, _ => city

/-- `Address::spoken`: how the place is read back. -/
def spoken (a : Address) : String := formatParts (a.streetSaid.or a.street) a.number a.citySaid

/-- `Address::official`: what dispatch receives. -/
def official (a : Address) : String :=
  match a.place, a.street with
  | some p, some name =>
    name ++ (match p.address with | some at' => ", " ++ at' | none => "") ++ ", " ++ a.city ++
      " (" ++ p.point ++ ")"
  | _, _ => formatParts a.street a.number a.city

end Address

/-- What a lookup answers. -/
inductive Lookup where
  | found (a : Address)
  | noCity (closest : List String)
  | noStreet (city heard : String) (closest : List String)
  deriving DecidableEq

namespace Lookup

/-- The address, when one was found. -/
def address? : Lookup → Option Address
  | found a => some a
  | _ => none

end Lookup

/-- **The list of localities and streets**, by the lookups made in it. -/
structure Gazetteer where
  resolve : String → Lookup
  resolveWithin : String → String → Option Lookup
  townsNamed : String → List String
  townNames : Nat → List String
  areaTownsHeard : String → List String → List (String × String)
  townsSoundingLike : String → List (String × String)
  streetSaidInstead : String → String → Option String
  streetHeard : String → String → String → Bool

end Callora
