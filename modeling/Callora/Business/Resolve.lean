/-
**How a place is resolved.**

The list of localities with their streets and places, and the searches for the words of a place in it:
`resolve` for a place as the caller gave it, `resolveWithin` for a street in a named locality,
`townsSoundingLike` for words that sound like a town. The keys of localities, streets and places stand in
hash maps, which some searches go through entry by entry.

A locality's own searches are tried one after the other (`searches`): the names as they are, then small
misspellings, then what sounds alike.
-/
import Callora.Business.Gazetteer
import Callora.Library.Unordered
import Callora.Text.Hebrew
import Mathlib.Data.Prod.Lex
import Mathlib.Data.String.Basic

set_option linter.unusedSectionVars false

namespace Callora

open Callora.Text Unordered

/-- A place that is not a street. -/
structure Place where
  name : String
  address : Option String
  point : String
  deriving DecidableEq

/-- A locality; its keys are normalized names, with indices among the streets and the places. -/
structure City where
  name : String
  streets : List String
  streetKeys : HashMap String Nat
  /-- Each key's name as written. -/
  streetWritten : HashMap String String
  places : List Place
  placeKeys : HashMap String Nat
  streets_in : ∀ e ∈ streetKeys.entries, e.2 < streets.length
  places_in : ∀ e ∈ placeKeys.entries, e.2 < places.length

/-- **The list of localities**; a key of a locality has its index and the alias as written. -/
structure Localities where
  cities : List City
  cityKeys : HashMap String (Nat × String)
  cities_in : ∀ e ∈ cityKeys.entries, e.2.1 < cities.length

namespace City

theorem none_in : ∀ e ∈ ([] : List (String × Nat)), e.2 < 0 :=
  fun _ listed => absurd listed List.not_mem_nil

/-- A locality of nothing, which no key leads to. -/
def nowhere : City :=
  ⟨"", [], ⟨[], List.nodup_nil⟩, ⟨[], List.nodup_nil⟩, [], ⟨[], List.nodup_nil⟩, none_in, none_in⟩

def street (c : City) (si : Nat) : String := c.streets.getD si ""

def place (c : City) (pi : Nat) : Place := c.places.getD pi ⟨"", none, ""⟩

end City

def Localities.city (g : Localities) (ci : Nat) : City := g.cities.getD ci City.nowhere

section Sounds

/-- A letter of a name as it sounds: `i` is its place in the word, of `n` letters. -/
def soundsAs (n i : Nat) (c : Char) : Char :=
  if c = 'ע' then 'א'
  else if c = 'ה' ∧ (i = 0 ∨ i + 1 = n) ∧ 1 < n then 'א'
  else if c = 'כ' then 'ק' else if c = 'ט' then 'ת' else if c = 'ש' then 'ס' else c

/-- `spelling`: a name as it sounds whatever its spelling. -/
def spelling (s : String) : String :=
  join " " ((words s).map fun w =>
    String.ofList ((w.toList.zipIdx.filter fun (c, i) => i == 0 || !(c == 'ו' || c == 'י')).map
      fun (c, i) => soundsAs w.length i c))

/-- `ashkenazi`: ת and ס one sound, "טש" the same as "ץ". -/
def ashkenazi (s : String) : String := replace (replace (sound s) "ת" "ס") "סס" "צ"

/-- `close_enough`: a misspelling small enough to correct without asking. -/
def closeEnough (heard key : String) : Bool :=
  5 ≤ key.length && 5 ≤ heard.length && distance heard key ≤ (if 8 ≤ key.length then 2 else 1)

end Sounds

section Windows

/-- The words as one name, and without a prefix letter before the first. -/
def forms : List String → List String
  | [] => [""]
  | w :: ws => join " " (w :: ws) :: ((stripLetter w).map fun bare => join " " (bare :: ws)).toList

/-- The lengths up to a bound, the longest first. -/
def lengths (bound : Nat) (ws : List String) : List Nat :=
  ((List.range (min bound ws.length)).map (· + 1)).reverse

/-- The runs of so many words with their place. -/
def windows (ws : List String) (len : Nat) : List (Nat × List String) :=
  (List.range (ws.length + 1 - len)).map fun start => (start, (ws.drop start).take len)

/-- Different names, in order, up to a number. -/
def firstDistinct (limit : Nat) : List String → List String → List String
  | out, [] => out
  | out, name :: names =>
    let out := if out.contains name then out else out ++ [name]
    if out.length = limit then out else firstDistinct limit out names

/-- `dedup_by` of neighbours with one name. -/
def dedupNames : List (ℕ ×ₗ String) → List (ℕ ×ₗ String)
  | [] => []
  | x :: xs =>
    match dedupNames xs with
    | [] => [x]
    | y :: ys => if (ofLex y).2 = (ofLex x).2 then x :: ys else x :: y :: ys

end Windows

/-- A locality named in the words: its index, the alias, and where its name stands. -/
abbrev Named := Nat × String × Nat × Nat

namespace Localities

variable [Unicode] (g : Localities)

/-- `find_cities`, by exact names. -/
def namedCities (ws : List String) : List Named :=
  (lengths 4 ws).flatMap fun len => (windows ws len).reverse.flatMap fun (start, window) =>
    (forms window).filterMap fun key => (g.cityKeys.get key).map fun (ci, said) => (ci, said, start, len)

/-- A misspelled locality: one unambiguous small difference. -/
def misspelledCity (ws : List String) : Option Named :=
  (lengths 3 ws).findSome? fun len => (windows ws len).reverse.findSome? fun (start, window) =>
    (forms window).findSome? fun key =>
      (only (fun (k, _) => closeEnough key k) g.cityKeys.entries).map fun (_, ci, said) =>
        (ci, said, start, len)

/-- **`find_cities`**: the localities named, the longest names and the latest first. -/
def findCities (ws : List String) : List Named :=
  if (g.namedCities ws).isEmpty then (g.misspelledCity ws).toList else g.namedCities ws

/-- A locality near a name, and how near. -/
def nearCity (key : String) (entry : String × (Nat × String)) : Option (ℕ ×ₗ String) :=
  if !(sound key).isEmpty && sound key == sound entry.1 then some (toLex (0, entry.2.2))
  else if distance key entry.1 ≤ 2 then some (toLex (distance key entry.1 + 1, entry.2.2))
  else none

/-- `closest_cities`. -/
def closestCities (ws : List String) : List String :=
  let scored := ((lengths 2 ws).reverse.flatMap fun len => (windows ws len).flatMap fun (_, window) =>
    ((forms window).filter fun key => 3 ≤ key.length).flatMap fun key =>
      g.cityKeys.entries.filterMap (nearCity key))
  firstDistinct 3 [] ((sorted scored).map fun x => (ofLex x).2)

section Searching

/-- What a place asks a locality for. -/
structure Query where
  ci : Nat
  said : String
  number : Option String
  streetWords : List String

/-- The street's name as heard. -/
def Query.heard (q : Query) : String := join " " q.streetWords

/-- The names looked for: as heard, and without a prefix letter. -/
def Query.candidates (q : Query) : List String := forms q.streetWords

/-- A word of digits only. -/
def isNumber (w : String) : Bool := w.toList.all isAsciiDigit

/-- Words that say what a locality is. -/
def kindWords : List String := ["מושב", "קיבוצ", "קבוצ", "העיר", "עיר", "יישוב", "ישוב"]

/-- The words beside the locality's name: a house number, and a street. -/
def query (ws : List String) (named : Named) : Query :=
  let (ci, said, start, len) := named
  let rest := ws.take start ++ ws.drop (start + len)
  let streetWords := rest.filter fun w => !isNumber w
  let streetWords :=
    if streetWords.head? = some "רחוב" ∨ streetWords.head? = some "רח" then streetWords.tail
    else streetWords
  ⟨ci, said, rest.find? isNumber, streetWords.filter fun w => !kindWords.contains w⟩

variable (q : Query)

/-- The locality, with a street of it. -/
def foundStreet (street streetSaid : Option String) : Lookup :=
  .found ⟨q.said, (g.city q.ci).name, street, streetSaid, q.number, none⟩

/-- A place of the locality. -/
def foundPlace (pi : Nat) : Lookup :=
  let p := (g.city q.ci).place pi
  .found ⟨q.said, (g.city q.ci).name, some p.name, none, none, some ⟨p.address, p.point⟩⟩

/-- The name of the locality itself. -/
def isOwn (key : String) : Bool := ((g.cityKeys.get key).map fun (ci, _) => ci == q.ci) == some true

/-- No street is named, or only the locality itself. -/
def namesCity : Bool :=
  q.streetWords.isEmpty || g.isOwn q q.heard ||
    (q.streetWords.length == 1 && (stripLetter q.heard).any (g.isOwn q))

/-- A street by one of its names. -/
def exactStreet : Option Lookup :=
  q.candidates.findSome? fun c => ((g.city q.ci).streetKeys.get c).map fun si =>
    g.foundStreet q (some ((g.city q.ci).street si)) ((g.city q.ci).streetWritten.get c)

/-- A place by one of its names; a house number means a street. -/
def exactPlace : Option Lookup :=
  if q.number.isSome then none
  else q.candidates.findSome? fun c => ((g.city q.ci).placeKeys.get c).map (g.foundPlace q)

/-- A street by a misspelled name: the first one close enough. -/
def closeStreet : Option Lookup :=
  q.candidates.findSome? fun c =>
    ((g.city q.ci).streetKeys.entries.find? fun (k, _) => closeEnough c k).map
    fun (_, si) => g.foundStreet q (some ((g.city q.ci).street si)) none

/-- A place by a misspelled name: the first one close enough. -/
def closePlace : Option Lookup :=
  if q.number.isSome then none
  else q.candidates.findSome? fun c =>
    ((g.city q.ci).placeKeys.entries.find? fun (k, _) => closeEnough c k).map
    fun (_, pi) => g.foundPlace q pi

/-- The one street whose names sound so. -/
def streetBy (as : String → String) (heard : String) : Option Lookup :=
  (unanimous (((g.city q.ci).streetKeys.entries.filter fun (k, _) => as k == heard).map Prod.snd)).map
    fun si => g.foundStreet q (some ((g.city q.ci).street si)) none

/-- The same name spelled another way. -/
def spelledStreet : Option Lookup :=
  let heard := spelling q.heard
  if 3 ≤ (heard.toList.filter (· != ' ')).length then g.streetBy q spelling heard else none

/-- The same consonants in Ashkenazi speech. -/
def ashkenaziStreet : Option Lookup :=
  let heard := ashkenazi q.heard
  if 4 ≤ heard.length then g.streetBy q ashkenazi heard else none

/-- Another locality with one of these streets, whose name is at most a consonant more or less away. -/
def soundHit (sounds : String) (entry : String × (Nat × String)) : Option (ℕ ×ₗ ℕ ×ₗ ℕ) :=
  if entry.2.1 = q.ci then none
  else
    let d := distance sounds (sound entry.1)
    if 1 < d ∨ (d = 1 ∧ sounds.length = (sound entry.1).length) then none
    else (q.candidates.findSome? (g.city entry.2.1).streetKeys.get).map fun si =>
      toLex (d, toLex (entry.2.1, si))

/-- One more entry, unless its locality is among the hits. -/
def addHit (sounds : String) (hits : List (ℕ ×ₗ ℕ ×ₗ ℕ)) (entry : String × (Nat × String)) :
    List (ℕ ×ₗ ℕ ×ₗ ℕ) :=
  if hits.any fun h => (ofLex (ofLex h).2).1 == entry.2.1 then hits
    else hits ++ (g.soundHit q sounds entry).toList

/-- The nearest, when it is nearer than any other. -/
def nearest : List (ℕ ×ₗ ℕ ×ₗ ℕ) → Option (Nat × Nat)
  | [] => none
  | [h] => some (ofLex (ofLex h).2)
  | h :: h' :: _ => if (ofLex h).1 < (ofLex h').1 then some (ofLex (ofLex h).2) else none

/-- `sound_alike_with_street`. -/
def soundAlikeWithStreet : Option (Nat × Nat) :=
  let sounds := sound (norm q.said)
  if sounds.isEmpty then none else nearest (sorted (g.cityKeys.entries.foldl (g.addHit q sounds) []))

/-- A locality that sounds like the one said, and has the street. -/
def soundAlike : Option Lookup :=
  (g.soundAlikeWithStreet q).map fun (ci, si) =>
    .found ⟨(g.city ci).name, (g.city ci).name, some ((g.city ci).street si), none, q.number, none⟩

/-- The one street that sounds like the name heard. -/
def soundsLikeStreet : Option String :=
  let heard := sound q.heard
  let bySound := if 3 ≤ heard.length then
      (g.city q.ci).streetKeys.entries.filterMap fun (k, si) =>
        if 3 ≤ (sound k).length ∧ distance heard (sound k) ≤ 1 then
          some (toLex (distance heard (sound k), (g.city q.ci).street si)) else none
    else []
  match (dedupNames (sorted bySound)).map ofLex with
  | [(0, s)] => some s
  | (0, s) :: (1, _) :: _ => some s
  | [(1, s)] => some s
  | _ => none

/-- The names nearest in spelling, up to three, a third off at most. -/
def nearNames (limit : Nat) : List String → List (ℕ ×ₗ String) → List String
  | closest, [] => closest
  | closest, x :: xs =>
    if limit < (ofLex x).1 ∨ closest.length = 3 then closest
    else nearNames limit (if closest.contains (ofLex x).2 then closest else closest ++ [(ofLex x).2]) xs

/-- No such street: the closest names. -/
def noStreet : Lookup :=
  let near := ((g.city q.ci).streetKeys.entries.map fun (k, si) =>
      toLex (distance q.heard k, (g.city q.ci).street si)) ++
    ((g.city q.ci).placeKeys.entries.map fun (k, pi) =>
      toLex (distance q.heard k, ((g.city q.ci).place pi).name))
  .noStreet (g.city q.ci).name q.heard
    (nearNames (max (q.heard.length / 3) 1) (g.soundsLikeStreet q).toList (sorted near))

/-- The searches of a locality, one after the other. -/
def searches : List (Option Lookup) :=
  [g.exactStreet q, g.exactPlace q, g.closeStreet q, g.closePlace q, g.spelledStreet q,
    g.ashkenaziStreet q,
    g.soundAlike q]

/-- **`resolve_in`**. -/
def resolveIn (ws : List String) (named : Named) : Lookup :=
  let q := query ws named
  if g.namesCity q then g.foundStreet q none none
  else ((g.searches q).findSome? id).getD (g.noStreet q)

end Searching

section Resolving

/-- A street was found, or only a locality, or not even that. -/
def score : Lookup → Nat
  | .found a => if a.street.isSome then 0 else 1
  | _ => 2

/-- The first reading of the best score. -/
def bestReading : Lookup → List Lookup → Lookup
  | best, [] => best
  | best, l :: ls => bestReading (if score l < score best then l else best) ls

/-- The best of the readings; `unnamed` when there are none. -/
def anyReading (unnamed : Lookup) : List Lookup → Lookup
  | [] => unnamed
  | reading :: readings => bestReading reading readings

/-- `resolve_written`. -/
def resolveWritten (text : String) : Lookup :=
  let ws := words (norm text)
  anyReading (.noCity (g.closestCities ws)) ((g.findCities ws).map (g.resolveIn ws))

/-- A street was found. -/
def hasStreet (l : Lookup) : Bool := score l == 0

/-- A street was found, with a house number. -/
def hasNumber (l : Lookup) : Bool :=
  match l with
  | .found a => a.street.isSome && a.number.isSome
  | _ => false

/-- `without_punctuation`. -/
def withoutPunctuation (text : String) : String :=
  trim (String.ofList (text.toList.filter fun c => !(['.', '?', '!', '…'].contains c)))

/-- The words with their numbers in digits. -/
def inDigits (text : String) : String := withDigits (withoutPunctuation text)

/-- **`resolve`**: a house number in words is tried in digits when the words as written find no street. -/
def resolve (text : String) : Lookup :=
  let first := g.resolveWritten text
  if hasStreet first then first
  else if inDigits text = text then first
  else
    let second := g.resolveWritten (inDigits text)
    if hasStreet second then second else first

/-- `resolve_within_written`. -/
def resolveWithinWritten (street city : String) : Option Lookup := do
  let (ci, said) ← g.cityKeys.get (norm city)
  let ws := words (norm street)
  if ws.isEmpty then none else some (g.resolveIn ws (ci, said, ws.length, 0))

/-- **`resolve_within`**: a street or place in one named locality only. -/
def resolveWithin (street city : String) : Option Lookup := do
  let first ← g.resolveWithinWritten street city
  if hasNumber first then some first
  else if inDigits street = street then some first
  else
    match g.resolveWithinWritten (inDigits street) city with
    | some second =>
      some (if hasStreet second ∧ (hasNumber second ∨ ¬ hasStreet first) then second else first)
    | none => some first

end Resolving

section Towns

/-- Common words that look like a town after a prefix. -/
def commonWords : List String :=
  ["לומר", "מומר", "מודים", "משרת", "לשרת", "מזור", "מילת", "מרכז", "לרכז"]

/-- `town_without_first_letter`: a town whose first letter recognition swallowed after a prefix. -/
def townWithoutFirstLetter (word : String) : Option String := do
  let bare ← (stripLetter word).filter fun b => 3 ≤ b.length
  if !(word.toList.head? == some 'מ' || word.toList.head? == some 'ל') || commonWords.contains word ||
      g.cityKeys.contains word || g.cityKeys.contains bare then none
  else ["א", "ע"].findSome? fun lead => do
    let (ci, _) ← g.cityKeys.get (lead ++ bare)
    if 20 ≤ (g.city ci).streets.length then some (g.city ci).name else none

/-- A town of one word that sounds so. -/
def townSounding (heard : String) (entry : String × (Nat × String)) : Bool :=
  !(containsChar entry.1 ' ') && 20 ≤ (g.city entry.2.1).streets.length && sound entry.1 == heard

/-- A phrase with its town, once for each word. -/
def noteTown (out : List (String × String)) (word name : String) : List (String × String) :=
  if out.any fun (w, _) => w == word then out else out ++ [(word, name)]

/-- The towns that a word sounds like, by one form of it. -/
def townOfForm (word : String) (out : List (String × String)) (form : String) : List (String × String) :=
  if g.cityKeys.contains form || (sound form).length < 3 then out
  else
    match only (g.townSounding (sound form)) g.cityKeys.entries with
    | some (_, _, name) => noteTown out word name
    | none => out

/-- One word of the text. -/
def townOfWord (out : List (String × String)) (word : String) : List (String × String) :=
  if word.length < 3 || g.cityKeys.contains word then out
  else
    match g.townWithoutFirstLetter word with
    | some name => noteTown out word name
    | none => (word :: (stripLetter word).toList).foldl (g.townOfForm word) out

/-- **`towns_sounding_like`**: the words that sound like exactly one town. -/
def townsSoundingLike (text : String) : List (String × String) :=
  (words (norm text)).foldl g.townOfWord []

end Towns

end Localities

end Callora
