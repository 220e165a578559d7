/-
**Checking a place against the list of localities and streets.**

`checkPlace` looks a place up (`lookupPlace`, which only reads) and then takes it in its official
spelling, notes its city and asks for the street, or rejects it with a note to the agent. Of the ledger
it changes at most one thing: a stale place goes when its city is given anew (`checkPlace_quietly`).
-/
import Callora.Engine.Slots

set_option linter.unusedSectionVars false

namespace Callora

open Callora.Text

/-- The engine while the values of a turn are checked, with the notes for the agent and the slots
rejected so far. -/
structure Check (b : Business) where
  engine : Engine b
  notes : List String
  rejected : List String

namespace Check

variable {b : Business}

/-- A note for the agent. -/
def note (c : Check b) (text : String) : Check b := { c with notes := c.notes ++ [text] }

/-- A slot rejected. -/
def reject (c : Check b) (slot : String) : Check b := { c with rejected := c.rejected ++ [slot] }

/-- The state of the call changed. -/
def modify (c : Check b) (f : CallState → CallState) : Check b := { c with engine := c.engine.modify f }

end Check

/-- `prompt`. -/
def prompt (response : String) (values : List (String × String)) : Prompt :=
  ⟨response, Std.ExtTreeMap.ofList values⟩

/-- What is known of a place while it is checked. -/
structure PlaceCheck where
  slot : String
  spoken : String
  raw : String
  precise : Bool
  streetOnce : Bool
  cityBefore : Option String
  /-- "street, city" as the agent wrote it was found. -/
  explicitGiven : Bool
  /-- Two misses and no desk: the place is taken as the caller says it. -/
  giveUp : Bool
  /-- The street as the caller said it. -/
  said : String

/-- The parenthesis with the closest names, when there are any. -/
def closestHint (opening closing : String) (closest : List String) : String :=
  if closest.isEmpty then "" else opening ++ join ", " closest ++ closing

/-- A text in double quotes. -/
def quoted (text : String) : String := Json.quoteMark ++ text ++ Json.quoteMark

/-- `street_before_city`: the street and house number in a place whose city was not made out. -/
def streetBeforeCity (raw : String) : Option String :=
  let hasDigit (s : String) := s.toList.any isAsciiDigit
  match splitOnce raw "," with
  | some (street, rest) =>
    if hasDigit (trim street) && trim rest != "" then some (trim street) else none
  | none => do
    let ws := splitWhitespace raw
    let at' ← ws.findIdx? fun w => w.toList.all isAsciiDigit
    if 0 < at' && at' + 1 < ws.length then some (join " " (ws.take (at' + 1))) else none

namespace Engine

variable {b : Business}

section Lookup

/-- The city given before for a slot, or of the value it corrects. -/
def cityBefore (e : Engine b) (g : Gazetteer) (slot : String) : Option String :=
  (e.state.placeCities[slot]?).or (do
    let st ← (← e.state.run).slots[slot]?
    match st.value with
    | .place spoken _ _ => ((g.resolve spoken).address?).map Address.citySaid
    | _ => none)

/-- The answer is another town by its name. -/
def anotherTown (g : Gazetteer) (cityBefore : Option String) (spoken : String) : Bool :=
  (g.resolve spoken).address?.any fun a =>
    a.street.isNone && a.place.isNone && a.number.isNone && cityBefore != some a.citySaid &&
      (g.townNames 20).contains a.city

/-- A lookup that found a street. -/
def foundStreet (l : Lookup) : Bool := l.address?.any fun a => a.street.isSome

/-- The first lookup: "street, city" as written, the street in the city given before, or the words
alone; with a prefix letter put back when they name no city. -/
def firstLookup (g : Gazetteer) (prefixes : List String) (cityBefore : Option String)
    (explicit : Option Lookup) (spoken : String) : Lookup :=
  let inCityBefore := ((cityBefore.filter fun _ => !anotherTown g cityBefore spoken).map fun city =>
    g.resolve (spoken ++ ", " ++ city)).filter foundStreet
  let lookup := (explicit.or inCityBefore).getD (g.resolve spoken)
  match lookup with
  | .noCity _ =>
    ((prefixes.map fun p => g.resolve (p ++ spoken)).find? fun l => l.address?.isSome).getD lookup
  | _ => lookup

/-- The city for a street given before without one; with the street as the caller said it. -/
def joinStreet (e : Engine b) (g : Gazetteer) (slot raw : String) (lookup : Lookup) :
    String × Lookup :=
  match lookup, e.state.placeStreets[slot]? with
  | .found a, some street =>
    if a.street.isNone && a.number.isNone then
      match g.resolveWithin street a.citySaid with
      | some joined => (street, joined)
      | none => (raw, lookup)
    else (raw, lookup)
  | _, _ => (raw, lookup)

/-- Words with no locality, looked up in the city given before. -/
def inCityBefore (g : Gazetteer) (cityBefore : Option String) (spoken : String) (lookup : Lookup) :
    Lookup :=
  match lookup, cityBefore with
  | .noCity _, some city => (g.resolveWithin spoken city).getD lookup
  | _, _ => lookup

/-- The house number for a street given before without one. -/
def joinNumber (e : Engine b) (g : Gazetteer) (slot spoken : String) (lookup : Lookup) : Lookup :=
  match e.state.placeNumbers[slot]? with
  | some (street, city) =>
    let number := trim spoken
    if number != "" && number.toList.all isAsciiDigit then
      (g.resolveWithin (street ++ " " ++ number) city).getD lookup
    else lookup
  | none => lookup

/-- The street in the city named now, with the number said before. -/
def joinDoubted (e : Engine b) (g : Gazetteer) (slot : String) (lookup : Lookup) : Lookup :=
  match lookup, e.state.doubtedNumbers[slot]? with
  | .found a, some number =>
    if a.street.isSome && a.number.isNone && a.place.isNone then
      let street := (a.streetSaid.or a.street).getD ""
      match g.resolveWithin (street ++ " " ++ number) a.citySaid with
      | some joined => if joined.address?.any fun j => j.number.isSome then joined else lookup
      | none => lookup
    else lookup
  | _, _ => lookup

/-- The place's lookup, with what is known of it. -/
def lookupPlace (e : Engine b) (g : Gazetteer) (slot spoken raw : String) : PlaceCheck × Lookup :=
  let cityBefore := e.cityBefore g slot
  let explicit := (rsplitOnce raw ",").bind fun (street, city) => g.resolveWithin street (trim city)
  let lookup := firstLookup g (prefixesOf b slot) cityBefore explicit spoken
  let (said, lookup) := e.joinStreet g slot raw lookup
  let lookup := inCityBefore g cityBefore spoken lookup
  let lookup := e.joinNumber g slot spoken lookup
  let lookup := e.joinDoubted g slot lookup
  ({ slot := slot, spoken := spoken, raw := raw
     precise := (b.slotConfig slot).any SlotConfig.precise
     streetOnce := (b.slotConfig slot).any SlotConfig.streetOnce
     cityBefore := cityBefore
     explicitGiven := explicit.isSome
     giveUp := b.handoffNumber.isNone && decide (2 ≤ (e.state.placeRejections[slot]?).getD 0)
     said := said }, lookup)

end Lookup

section Heard

variable [Unicode]

/-- What the stream heard of the caller, and what the system offered. -/
def stream (e : Engine b) : String := join ". " (e.state.callerLines ++ e.state.offeredStreets)

/-- A street only the second hearing heard. -/
def unheardStreet (e : Engine b) (g : Gazetteer) (slot : String) (a : Address) : Option String :=
  if a.place.isNone && e.state.secondHearing.isSome && !e.state.unheardStreets.contains slot then
    (a.street.filter fun s => !g.streetHeard a.city s e.stream).map fun _ =>
      (a.streetSaid.or a.street).getD ""
  else none

/-- A town only the second hearing heard. -/
def unheardTown (e : Engine b) (g : Gazetteer) (slot : String) (a : Address) : Option String :=
  if a.street.isNone && a.place.isNone && e.state.secondHearing.isSome &&
      !e.state.unheardStreets.contains (slot ++ ":town") then
    let heard := (g.townsNamed e.stream).contains a.city ||
      (g.areaTownsHeard e.stream b.config.serviceArea).any (fun (_, t) => t == a.city) ||
      (decide (4 ≤ (norm a.citySaid).length) && (unheardWords a.citySaid e.stream).isEmpty)
    if heard then none else some a.citySaid
  else none

end Heard

end Engine

namespace Check

variable {b : Business} [Unicode]

/-- `ask_personal_place`: a place of the caller's own; its address is asked. -/
def askPersonalPlace (c : Check b) (p : PlaceCheck) : Check b :=
  let place := (c.engine.personalPlaceNamed ((c.engine.state.lastCallerLine).getD "")).getD "המקום"
  let c := c.note (p.slot ++ " " ++ quoted p.spoken ++ " is a place of the caller's own (" ++ place ++
    "), not an address: it was not taken. The system              " ++
    "asked for its address; pass the address they give")
  if b.hasResponse "personal_place_address" then
    let c := c.modify fun s => { s with
      doubtConfirm := s.doubtConfirm.insert p.slot [prompt "personal_place_address" [("place", place)]] }
    c.reject p.slot
  else c

/-- A street the system offers, once. -/
def offer (c : Check b) (street : String) : Check b :=
  c.modify fun s =>
    if s.offeredStreets.contains street then s
    else { s with offeredStreets := s.offeredStreets ++ [street] }

/-- A town only the second hearing heard: asked about. -/
def doubtTown (c : Check b) (p : PlaceCheck) (town : String) : Check b :=
  let c := c.note (p.slot ++ ": only the second hearing heard the town " ++ town ++
    "; the caller's words do not sound like it, so                      " ++
    "it was not taken. The system asked whether they said it: if they agree, pass " ++
    quoted town ++ "; if not, ask                      for the town again")
  let c := (c.modify fun s =>
    { s with unheardStreets := s.unheardStreets.insert (p.slot ++ ":town") }).offer town
  let c := c.modify fun s => { s with
    doubtConfirm := s.doubtConfirm.insert p.slot [prompt "town_heard_check" [("town", town)]] }
  c.reject p.slot

/-- A street only the second hearing heard: asked about. -/
def doubtStreet (c : Check b) (p : PlaceCheck) (a : Address) (street : String) : Check b :=
  let number := a.number.getD ""
  let named := trim (street ++ " " ++ number)
  let c := c.note (p.slot ++ ": only the second hearing heard the street " ++ street ++
    "; the caller's words do not sound like                      " ++
    "it, so it was not taken. The system asked whether they said it: if they agree, pass " ++
    quoted (named ++ ", " ++ a.citySaid) ++ ";                      if not, ask for the street again")
  let c := (c.modify fun s =>
    { s with unheardStreets := s.unheardStreets.insert p.slot }).offer street
  let c := c.modify fun s => { s with
    doubtedNumbers := if number = "" then s.doubtedNumbers else s.doubtedNumbers.insert p.slot number
    doubtConfirm := s.doubtConfirm.insert p.slot
      [prompt "street_heard_check" [("street", named), ("city", a.citySaid)]]
    placeCities := s.placeCities.insert p.slot a.citySaid }
  c.reject p.slot

/-- A city noted for a place that needs its street; a value from elsewhere goes. -/
def noteCity (c : Check b) (p : PlaceCheck) (a : Address) (text : String) : Check b :=
  let c := c.note text
  { c with engine := (c.engine.dropStalePlace p.slot a.citySaid).noteCity p.slot a.citySaid }

/-- A street without its house number: the number is asked on its own, once. -/
def askNumber (c : Check b) (p : PlaceCheck) (a : Address) : Check b :=
  let street := (a.streetSaid.or a.street).getD ""
  let c := c.note (p.slot ++ ": street " ++ street ++ " in " ++ a.citySaid ++
    " is noted; now ask for the house number there" ++
    c.engine.saidAs (c.engine.partQuestion p.slot "number") ++
    "; if the caller does not know it, pass the street again")
  let c := c.modify fun s => { s with
    numberAsked := s.numberAsked.insert p.slot
    placeNumbers := s.placeNumbers.insert p.slot (street, a.citySaid)
    placeCities := s.placeCities.erase p.slot }
  c.reject p.slot

/-- A place taken: what was doubted about it goes. -/
def takePlace (c : Check b) (p : PlaceCheck) : Check b :=
  c.modify fun s => { s with
    placeCities := s.placeCities.erase p.slot
    placeStreets := s.placeStreets.erase p.slot
    placeNumbers := s.placeNumbers.erase p.slot
    doubtConfirm := s.doubtConfirm.erase p.slot
    placeRejections := s.placeRejections.erase p.slot }

/-- The note of a city whose street is asked next. -/
def cityNote (c : Check b) (p : PlaceCheck) (a : Address) (ask after : String) : String :=
  p.slot ++ " city " ++ a.citySaid ++ " is noted; now ask for the street " ++ ask ++
    c.engine.saidAsIn (c.engine.partQuestion p.slot "street") (some a.citySaid) ++ after

/-- A place that was found. -/
def foundPlace (c : Check b) (g : Gazetteer) (p : PlaceCheck) (a : Address) :
    Check b × Option SlotValue :=
  let unheardTown := (c.engine.unheardTown g p.slot a).filter fun _ => b.hasResponse "town_heard_check"
  let unheardStreet := (c.engine.unheardStreet g p.slot a).filter fun _ =>
    b.hasResponse "street_heard_check"
  match unheardTown, unheardStreet with
  | some town, _ => (c.doubtTown p town, none)
  | none, some street => (c.doubtStreet p a street, none)
  | none, none =>
    -- A street and number without its city, which the words happen to name a locality.
    if a.street.isNone && a.number.isSome && p.cityBefore.isNone && !p.explicitGiven then
      let c := c.note (p.slot ++ " " ++ quoted p.spoken ++
        " is a street and number without its city (not the locality " ++ a.city ++ "); ask which city" ++
        c.engine.saidAs (c.engine.partQuestion p.slot "city") ++ ", and pass the street with it")
      ((c.modify fun s => { s with placeStreets := s.placeStreets.insert p.slot p.spoken }).reject p.slot,
        none)
    else if p.streetOnce && !p.precise && a.street.isNone &&
        c.engine.state.placeCities[p.slot]? != some a.citySaid then
      (c.noteCity p a (c.cityNote p a "there, once"
        "; if the caller does not know, pass the city again"), none)
    else if p.precise && a.street.isNone then
      (c.noteCity p a (c.cityNote p a "and house number (or a landmark) there" ""), none)
    else if a.street.isSome && a.number.isNone && a.place.isNone &&
        !c.engine.state.numberAsked.contains p.slot &&
        b.hasResponse (c.engine.partQuestion p.slot "number") then
      (c.askNumber p a, none)
    else (c.takePlace p, some (.place a.spoken (some a.official) none))

/-- A place whose city was not made out: not taken, and its city asked. -/
def askUnknown (c : Check b) (p : PlaceCheck) (closest : List String) : Check b :=
  let c := c.note (p.slot ++ " " ++ quoted p.spoken ++ " is no place the system knows" ++
    closestHint " (closest localities: " "; if the caller meant one, confirm it)" closest ++
    "; it was not taken. The system asked which city it is in")
  let c := c.modify fun s => { s with
    placeRejections := s.placeRejections.insert p.slot ((s.placeRejections[p.slot]?).getD 0 + 1) }
  match (streetBeforeCity p.raw).filter fun _ => b.hasResponse "street_city_unknown" with
  | some street =>
    let c := c.note ("the street " ++ quoted street ++ " is kept: pass only the city the caller names")
    let c := c.modify fun s => { s with
      doubtConfirm := s.doubtConfirm.insert p.slot [prompt "street_city_unknown" [("street", street)]]
      placeStreets := s.placeStreets.insert p.slot street }
    c.reject p.slot
  | none =>
    let unknown := c.engine.partQuestion p.slot "unknown"
    let c := if b.hasResponse unknown then
        c.modify fun s => { s with
          doubtConfirm := s.doubtConfirm.insert p.slot [prompt unknown [("heard", trim p.spoken)]] }
      else c
    c.reject p.slot

/-- What the driver is told of a place that was not checked. -/
def unverified (said : String) : String := said ++ " (מקום לא מאומת: לתאם עם הנוסע)"

/-- A place with no locality in it. -/
def noCityPlace (c : Check b) (p : PlaceCheck) (value : SlotValue) (closest : List String) :
    Check b × Option SlotValue :=
  if p.precise || p.streetOnce then
    if b.isPersonalPlace p.spoken then (c.askPersonalPlace p, none)
    else if !p.giveUp then (c.askUnknown p closest, none)
    else
      (c.note (p.slot ++ " " ++ quoted p.spoken ++ " is taken as the caller said it, not checked"),
        some (.place (trim p.spoken) (some (unverified (trim p.spoken))) none))
  else
    let hint := if closest.isEmpty then "ask which city"
      else "closest localities: " ++ join ", " closest ++ "; if the caller meant one, confirm it"
    (c.note (p.slot ++ " " ++ quoted p.spoken ++ " names no Israeli locality (" ++ hint ++ ")"),
      some value)

/-- The street of a place as the caller said it, without its number. -/
def saidStreet (p : PlaceCheck) (heard : String) : String :=
  let first := ((split (· == ',') p.said).head?).getD p.said
  let street :=
    join " " (splitWhitespace (String.ofList (first.toList.filter fun ch => !isAsciiDigit ch)))
  if street = "" then heard else street

/-- What is asked about a street that was not found. -/
def notFoundPrompts (b : Business) (street city : String) (suggestion : Option String) : List Prompt :=
  match suggestion.filter fun _ => b.hasResponse "street_not_found_suggest" with
  | some s => [prompt "street_not_found_suggest"
      [("heard", street), ("city", city), ("suggestion", s)]]
  | none =>
    if b.hasResponse "street_not_found" then
      [prompt "street_not_found" [("heard", street), ("city", city)]]
    else []

/-- A street its city does not have, the first time: said so, and the closest one offered. -/
def doubtMissing (c : Check b) (p : PlaceCheck) (city heard : String) (closest : List String) :
    Check b :=
  let number := String.ofList (p.said.toList.filter isAsciiDigit)
  let suggestion := closest.head?
  let saidCity := p.cityBefore.getD (((splitString city " - ").head?).getD city)
  let prompts := notFoundPrompts b (saidStreet p heard) saidCity suggestion
  let meant := match suggestion with
    | some s => "if they agree to " ++ s ++ ", pass " ++
        quoted (trim (s ++ " " ++ number) ++ ", " ++ city) ++ "; "
    | none => ""
  let withNumber := if number = "" then "" else " and its house number " ++ number
  let c := match suggestion with
    | some s => c.offer s
    | none => c
  let c := c.note (p.slot ++ ": " ++ city ++ " has no street " ++ quoted heard ++
    "; it was not taken. The system said so and asked what they meant: " ++ meant ++
    "if they name another city, pass the street" ++ withNumber ++
    " with that city; if they insist on what they said, pass it again as it is: it will be taken" ++
    closestHint " (the closest streets there: "
      "; if one sounds like it, ask whether the caller meant it)" closest)
  let c := c.modify fun s => { s with
    doubtedStreets := s.doubtedStreets.insert p.slot
    doubtedNumbers := if number = "" then s.doubtedNumbers else s.doubtedNumbers.insert p.slot number
    placeRejections := s.placeRejections.insert p.slot ((s.placeRejections[p.slot]?).getD 0 + 1)
    doubtConfirm := if prompts.isEmpty then s.doubtConfirm else s.doubtConfirm.insert p.slot prompts
    placeCities := s.placeCities.insert p.slot city }
  c.reject p.slot

/-- Neither a street nor a place on the list, the first time: its address is asked. -/
def askAddress (c : Check b) (p : PlaceCheck) (city heard : String) (closest : List String) : Check b :=
  let c := c.note (p.slot ++ ": " ++ quoted heard ++ " is not a street or a known place in " ++ city ++
    closestHint " (close names there: " "; if one sounds like it, ask whether the caller meant it)"
      closest ++ ". Ask for its address" ++ c.engine.saidAs "ask_place_address" ++
    "; if the caller does not know it, pass the place again as they said it")
  let c := c.modify fun s => { s with
    doubtedStreets := s.doubtedStreets.insert p.slot
    placeCities := s.placeCities.insert p.slot city }
  c.reject p.slot

/-- A place taken as the caller said it, in its city. -/
def takeSaid (c : Check b) (p : PlaceCheck) (city : String) : Check b × Option SlotValue :=
  let name := (stripSuffix (trim p.spoken) city).map fun rest =>
    trim (trimEndMatches (· == ',') (trim rest))
  let said := match name.filter (· ≠ "") with
    | some name => name ++ ", " ++ city
    | none => p.spoken
  (c.modify fun s => { s with placeCities := s.placeCities.erase p.slot },
    some (.place said (some (unverified said)) none))

/-- A street its city does not have. -/
def noStreetPlace (c : Check b) (p : PlaceCheck) (city heard : String) (closest : List String) :
    Check b × Option SlotValue :=
  let personal := b.isPersonalPlace heard &&
    (c.engine.personalPlaceNamed ((c.engine.state.lastCallerLine).getD "")).isSome
  let doubtable := !b.isInformalPlace heard && !c.engine.state.doubtedStreets.contains p.slot
  if personal then (c.askPersonalPlace p, none)
  else if (p.said.toList.any isAsciiDigit || (p.precise && !closest.isEmpty)) && !p.giveUp &&
    doubtable then
    (c.doubtMissing p city heard closest, none)
  else if doubtable then (c.askAddress p city heard closest, none)
  else c.takeSaid p city

/-- **`check_place`**: a place the business does not know itself, checked against the list. `none`
when it cannot be used as it is. -/
def checkPlace (c : Check b) (slot : String) (value : SlotValue) (raw : String) :
    Check b × Option SlotValue :=
  match c.engine.gazetteer, value with
  | some g, .place spoken none none =>
    let (p, lookup) := c.engine.lookupPlace g slot spoken raw
    match lookup with
    | .found a =>
      let c := if a.number.isSome then
          c.modify fun s => { s with doubtedNumbers := s.doubtedNumbers.erase slot }
        else c
      c.foundPlace g p a
    | .noCity closest => c.noCityPlace p value closest
    | .noStreet city heard closest => c.noStreetPlace p city heard closest
  | _, _ => (c, some value)

end Check

end Callora
