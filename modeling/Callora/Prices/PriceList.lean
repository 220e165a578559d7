/-
**A price bot's list, and the quote for one ride out of it.**

The list is read line by line: a line of neighbourhoods opens a section, a line with seats and a
price is a car, a price there and back belongs to the car before it. Only the numbers are read. A
quote takes the section of a neighbourhood that is named, or the route's, and in it the smallest car
that seats everybody.

- `parse_cars`: every section of a list that is read has a car;
- `named_iff`: a neighbourhood is named where its words stand among a place's words, one after the other;
- `sectionFor_chosen`, `vehicleFor_some`, `largest_some`: which section, and which car;
- `quote_right`: so every list that is read gives a quote, and it is the right car's.
-/
import Callora.Text.Speech
import Callora.Text.Spans
import Callora.Text.Search
import Mathlib.Data.List.MinMax
import Mathlib.Data.Prod.Lex

set_option linter.unusedSectionVars false

namespace Callora.Prices

open Text Regex

/-! ### The list -/

structure Vehicle where
  /-- As the bot wrote it. -/
  label : String
  seats : ℕ
  /-- The roomier car of the same size, dearer. -/
  roomy : Bool
  oneWay : ℕ
  /-- There and back. -/
  roundTrip : Option ℕ
  deriving DecidableEq, Repr

structure Section where
  /-- The neighbourhoods these prices are for; empty for the route itself. -/
  neighborhoods : List String
  vehicles : List Vehicle
  deriving DecidableEq, Repr

structure PriceList where
  distanceKm : Option ℕ
  duration : Option String
  tier : Option String
  sections : List Section
  deriving DecidableEq, Repr

section Reading

variable [RegexTables]

/-- `(\d+)\s*מק` -/
def seatsPattern : Pat := .seqs [.group 1 (.plus digit), .star space, text "מק"]

/-- `\d[\d,]*` -/
def priceDigits : Pat := .seqs [digit, .star (.chars fun c => isDecimal c || c == ',')]

/-- `₪\s*(\d[\d,]*)|(\d[\d,]*)\s*(?:₪|ש״ח|ש\x22ח|שח|שקל)` -/
def pricePattern : Pat :=
  .alts (.seqs [oneOf "₪", .star space, .group 1 priceDigits])
    [.seqs [.group 2 priceDigits, .star space,
      .alts (oneOf "₪") [text "ש״ח", text "ש\"ח", text "שח", text "שקל"]]]

/-- `(\d+)\s*ק` -/
def kmPattern : Pat := .seqs [.group 1 (.plus digit), .star space, text "ק"]

/-- A group of the leftmost match. -/
def captured (p : Pat) (line : String) (group : ℕ) : Option String := do
  let m ← p.search none line.toList
  let cs ← m.get group
  return String.ofList cs

def priceIn (line : String) : Option ℕ := do
  let m ← pricePattern.search none line.toList
  let cs ← (m.get 1).or (m.get 2)
  parseU32 (String.ofList (cs.filter isAsciiDigit))

/-- What follows the dash, without the emoji. -/
def valueAfterDash [Unicode] (line : String) : Option String := do
  let (_, v) ← (splitOnce line " - ").or (splitOnce line "-")
  let kept := v.toList.filter fun c => isAlphanumeric c || isWhitespace c || "'״\"׳".toList.contains c
  let v := join " " (splitWhitespace (String.ofList kept))
  if v = "" then none else some v

/-- The label of a vehicle's line, from its first digit on. -/
def labelOf (line : String) : String :=
  let before := ((split (· == '₪') line).head?).getD line
  let before := trim (trimEndMatches (fun c => c == '-' || c == '–' || c == ':') (trimEnd before))
  match before.toList.dropWhile fun c => !isAsciiDigit c with
  | [] => trim before
  | cs => trim (String.ofList cs)

/-- The neighbourhoods of a line. -/
def neighborhoodsOf (line : String) : List String :=
  ((split (fun c => c == '/' || c == ',') line).map fun n => join " " (splitWhitespace n)).filter (· ≠ "")

/-- The list as far as it was read. -/
structure Parsing where
  list : PriceList
  current : Section
  expectNeighborhoods : Bool

def Parsing.start : Parsing := ⟨⟨none, none, none, []⟩, ⟨[], []⟩, false⟩

/-- The section under way is over, if it has cars. -/
def Parsing.close (s : Parsing) : Parsing :=
  if s.current.vehicles.isEmpty then s
  else { s with list := { s.list with sections := s.list.sections ++ [s.current] }, current := ⟨[], []⟩ }

/-- A price there and back, for the last car. -/
def giveRoundTrip (price : ℕ) (vehicles : List Vehicle) : List Vehicle :=
  match vehicles.getLast? with
  | some v => vehicles.dropLast ++ [{ v with roundTrip := some (v.roundTrip.getD price) }]
  | none => vehicles

/-- What a line that names no neighbourhoods is about. -/
inductive Line
  | neighborhoods
  | distance
  | duration
  | tier
  /-- A price there and back. -/
  | roundTrip (price : ℕ)
  | car (seats price : ℕ)
  | other
  deriving DecidableEq, Repr

def lineOf (line : String) : Line :=
  if contains line "שכונות" then .neighborhoods
  else if contains line "מרחק" then .distance
  else if contains line "זמן משוער" then .duration
  else if contains line "מחירון" && contains line "סוג" then .tier
  else
    match priceIn line with
    | none => .other
    | some price =>
      if contains line "צדדים" || contains line "הלוך חזור" then .roundTrip price
      else
        match (captured seatsPattern line 1).bind parseU32 with
        | some seats => .car seats price
        | none => .other

variable [Unicode]

/-- A line that names no neighbourhoods. -/
def Parsing.readPrices (s : Parsing) (line : String) : Parsing :=
  match lineOf line with
  | .neighborhoods => { s.close with expectNeighborhoods := true }
  | .distance =>
    { s with list := { s.list with distanceKm := (captured kmPattern line 1).bind parseU32 } }
  | .duration => { s with list := { s.list with duration := valueAfterDash line } }
  | .tier => { s with list := { s.list with tier := valueAfterDash line } }
  | .roundTrip price =>
    { s with current := { s.current with vehicles := giveRoundTrip price s.current.vehicles } }
  | .car seats price =>
    let car : Vehicle := ⟨labelOf line, seats, contains line "מרווח", price, none⟩
    { s with current := { s.current with vehicles := s.current.vehicles ++ [car] } }
  | .other => s

/-- A line after a heading that has a slash, or neither seats nor a price. -/
def namesNeighborhoods (line : String) : Bool :=
  containsChar line '/' || (seatsPattern.search none line.toList).isNone && (priceIn line).isNone

/-- A line of the list. -/
def Parsing.readLine (s : Parsing) (raw : String) : Parsing :=
  let line := trim raw
  if line = "" then s
  else if s.expectNeighborhoods && namesNeighborhoods line then
    { s with expectNeighborhoods := false, current := { s.current with
      neighborhoods := neighborhoodsOf line } }
  else { s with expectNeighborhoods := false }.readPrices line

/-- **The price list in a bot's reply**, if it has a vehicle's price. -/
def parse (text : String) : Option PriceList :=
  let list := ((lines text).foldl Parsing.readLine .start).close.list
  if list.sections.isEmpty then none else some list

end Reading

/-! ### The quote -/

/-- The quote for a ride: a field that is not in it is `none`. -/
structure Quote where
  price : ℕ
  vehicle : String
  seats : ℕ
  neighborhood : Bool
  distanceKm : Option ℕ
  duration : Option (Option String)
  tier : Option String
  moreThanOneCar : Option Bool
  roundTrip : Option ℕ
  price6 : Option ℕ
  response : String
  deriving DecidableEq, Repr

section Quotes

/-- The smallest car first, the ordinary one before the roomy one, then the cheaper. -/
def Vehicle.size (v : Vehicle) : ℕ ×ₗ Bool ×ₗ ℕ := toLex (v.seats, toLex (v.roomy, v.oneWay))

/-- The largest car last, and the ordinary one of a size, then the cheaper. -/
def Vehicle.largeness (v : Vehicle) : ℕ ×ₗ (Bool ×ₗ ℕ)ᵒᵈ :=
  toLex (v.seats, OrderDual.toDual (toLex (v.roomy, v.oneWay)))

/-- The smallest car that seats `people`; `min_by_key` takes the first of several. -/
def vehicleFor (section' : Section) (people : ℕ) : Option Vehicle :=
  (section'.vehicles.filter fun v => people ≤ v.seats).argmin Vehicle.size

/-- The largest car; `max_by_key` takes the last of several. -/
def largest (section' : Section) : Option Vehicle := section'.vehicles.reverse.argmax Vehicle.largeness

variable [Unicode]

/-- A neighbourhood is named in one of the places. -/
def named (places : List String) (n : String) : Bool :=
  let n := normalize n
  n ≠ "" && places.any fun p => contains (" " ++ normalize p ++ " ") (" " ++ n ++ " ")

variable (list : PriceList)

/-- The section of a neighbourhood that is named, or the route's, or the first; a list without
sections has no first, and its index panics. -/
def PriceList.sectionFor (places : List String) : Except String Section :=
  match (list.sections.find? fun s => s.neighborhoods.any (named places)).or
      (list.sections.find? fun s => s.neighborhoods.isEmpty) with
  | some section' => .ok section'
  | none =>
    match list.sections with
    | first :: _ => .ok first
    | [] => .error "index out of bounds"

/-- The largest car's price, for a group no car seats. -/
def PriceList.bigGroup (section' : Section) : Option Quote := do
  let big ← largest section'
  return ⟨big.oneWay, big.label, big.seats, !section'.neighborhoods.isEmpty, list.distanceKm,
    none, list.tier,
    some true, none, none, "price_answer_big_group"⟩

/-- The price of a car that seats everybody. -/
def PriceList.oneCar (section' : Section) (car : Vehicle) (passengers : Option ℕ)
    (roundTrip : Bool) : Quote :=
  let quote : Quote :=
    ⟨car.oneWay, car.label, car.seats, !section'.neighborhoods.isEmpty, list.distanceKm,
    some list.duration, list.tier, none, none, none, "price_answer"⟩
  match if roundTrip then car.roundTrip else none with
  | some both => { quote with roundTrip := some both, response := "price_answer_round_trip" }
  | none =>
    -- who is coming is not known: the price for up to four, and for up to six
    match if passengers.isNone then (vehicleFor section' 6).filter fun six => car.seats < six.seats
      else none with
    | some six => { quote with price6 := some six.oneWay, response := "price_answer_sizes" }
    | none => quote

/-- Everybody who rides. -/
def people (passengers : Option ℕ) : ℕ := max (passengers.getD 1) 1

/-- **The quote for a ride**, or the panic of an index. -/
def PriceList.quote (passengers : Option ℕ) (roundTrip : Bool) (places : List String) :
    Except String (Option Quote) := do
  let section' ← list.sectionFor places
  match vehicleFor section' (people passengers) with
  | none => return list.bigGroup section'
  | some car => return some (list.oneCar section' car passengers roundTrip)

end Quotes

/-! ### What is read -/

section Cars

variable [RegexTables] [Unicode]

/-- Every section that is read has a car. -/
def Parsing.Cars (s : Parsing) : Prop := ∀ section' ∈ s.list.sections, section'.vehicles ≠ []

theorem Parsing.Cars.close {s : Parsing} (cars : s.Cars) : s.close.Cars := by
  unfold Parsing.close
  split
  · exact cars
  · rename_i some'
    intro section' listed
    rcases List.mem_append.mp listed with before | last
    · exact cars section' before
    · rw [List.mem_singleton.mp last]
      exact fun none' => some' (by simp [none'])

/-- A line changes no section that is over, and ends the one under way where it has a car. -/
theorem Parsing.Cars.readPrices {s : Parsing} (cars : s.Cars) (line : String) :
    (s.readPrices line).Cars := by
  unfold Parsing.readPrices
  cases lineOf line with
  | neighborhoods => exact cars.close
  | distance | duration | tier | roundTrip | car | other => exact cars

theorem Parsing.Cars.readLine {s : Parsing} (cars : s.Cars) (raw : String) : (s.readLine raw).Cars := by
  simp only [Parsing.readLine]
  by_cases blank : trim raw = ""
  · rw [if_pos blank]
    exact cars
  · rw [if_neg blank]
    by_cases names : (s.expectNeighborhoods && namesNeighborhoods (trim raw)) = true
    · rw [if_pos names]
      exact fun section' listed => cars section' listed
    · rw [if_neg names]
      have same : Parsing.Cars { s with expectNeighborhoods := false } := cars
      exact same.readPrices _

/-- **A list that is read has a section, and every section has a car.** -/
theorem parse_cars {text : String} {list : PriceList} (read : parse text = some list) :
    list.sections ≠ [] ∧ ∀ section' ∈ list.sections, section'.vehicles ≠ [] := by
  have cars : ∀ (raws : List String) (s : Parsing), s.Cars → (raws.foldl Parsing.readLine s).Cars := by
    intro raws
    induction raws with
    | nil => exact fun s cars => cars
    | cons raw raws ih =>
      intro s cars
      rw [List.foldl_cons]
      exact ih _ (cars.readLine raw)
  have all := (cars (lines text) .start fun section' listed => absurd listed List.not_mem_nil).close
  simp only [parse] at read
  split at read
  · cases read
  · rename_i some'
    obtain rfl := Option.some.inj read
    exact ⟨fun none' => some' (by simp [none']), all⟩

end Cars

/-! ### What is quoted -/

section Choices

variable [Unicode]

/-- A neighbourhood is named as whole words in a place. -/
def NamedIn (place n : String) : Prop :=
  tokens (normalize n) ≠ [] ∧ tokens (normalize n) <:+: tokens (normalize place)

/-- **The section of a ride**: a listed neighbourhood of it is named in a place, or none is named in
the list and it is the route's own, when there is one. -/
def Chosen (list : PriceList) (places : List String) (section' : Section) : Prop :=
  (∃ n ∈ section'.neighborhoods, ∃ place ∈ places, NamedIn place n) ∨
    (∀ other ∈ list.sections, ∀ n ∈ other.neighborhoods, ∀ place ∈ places, ¬ NamedIn place n) ∧
      (section'.neighborhoods = [] ∨ ∀ other ∈ list.sections, other.neighborhoods ≠ [])

/-- A car that is no larger than another: fewer seats; as many, and it is the ordinary one; or it is no
dearer. -/
def Vehicle.NoLarger (v w : Vehicle) : Prop :=
  v.seats < w.seats ∨ v.seats = w.seats ∧
    (v.roomy = false ∧ w.roomy = true ∨ v.roomy = w.roomy ∧ v.oneWay ≤ w.oneWay)

/-- **The quote of the right car**: the smallest that seats everybody, or, where none does, the
largest, and that it takes more than one. -/
structure Right (section' : Section) (riders : ℕ) (quote : Quote) : Prop where
  seated : (∃ car ∈ section'.vehicles, riders ≤ car.seats) →
    ∃ car ∈ section'.vehicles, riders ≤ car.seats ∧
    (∀ other ∈ section'.vehicles, riders ≤ other.seats → car.NoLarger other) ∧
    quote.price = car.oneWay ∧ quote.seats = car.seats ∧ quote.moreThanOneCar = none
  crowded : (∀ car ∈ section'.vehicles, car.seats < riders) → ∃ car ∈ section'.vehicles,
    (∀ other ∈ section'.vehicles, other.seats ≤ car.seats) ∧
    quote.price = car.oneWay ∧ quote.seats = car.seats ∧ quote.moreThanOneCar = some true

variable {list : PriceList} {section' : Section} {car : Vehicle} {riders : ℕ} {places : List String}
    {n : String}

theorem noLarger_of_size {v w : Vehicle} (small : v.size ≤ w.size) : v.NoLarger w := by
  rw [Vehicle.size, Vehicle.size, Prod.Lex.le_iff] at small
  refine small.imp id fun ⟨seats, rest⟩ => ⟨seats, ?_⟩
  rw [Prod.Lex.le_iff] at rest
  refine rest.imp (fun roomier => ?_) id
  exact Bool.lt_iff.mp roomier

theorem seats_of_largeness {v w : Vehicle} (large : v.largeness ≤ w.largeness) : v.seats ≤ w.seats := by
  rw [Vehicle.largeness, Vehicle.largeness, Prod.Lex.le_iff] at large
  exact large.elim (fun fewer => le_of_lt fewer) fun same => le_of_eq same.1

/-- **The smallest car that seats everybody.** -/
theorem vehicleFor_some (found : vehicleFor section' riders = some car) : car ∈ section'.vehicles ∧
    riders ≤ car.seats ∧ ∀ other ∈ section'.vehicles, riders ≤ other.seats → car.NoLarger other := by
  obtain ⟨listed, seats⟩ := List.mem_filter.mp (List.argmin_mem (show car ∈ List.argmin _ _ from found))
  refine ⟨listed, of_decide_eq_true seats, fun other member enough => noLarger_of_size ?_⟩
  exact List.le_of_mem_argmin (List.mem_filter.mpr ⟨member, decide_eq_true enough⟩) found

theorem vehicleFor_none : vehicleFor section' riders = none ↔
    ∀ car ∈ section'.vehicles, car.seats < riders := by
  simp [vehicleFor, List.argmin_eq_none, List.filter_eq_nil_iff]

/-- A section with a car has a largest one. -/
theorem largest_some (some' : section'.vehicles ≠ []) : ∃ car, largest section' = some car ∧
    car ∈ section'.vehicles ∧ ∀ other ∈ section'.vehicles, other.seats ≤ car.seats := by
  cases found : largest section' with
  | none => exact absurd (List.reverse_eq_nil_iff.mp (List.argmax_eq_none.mp found)) some'
  | some car =>
    refine ⟨car, rfl, List.mem_reverse.mp (List.argmax_mem (show car ∈ List.argmax _ _ from found)), ?_⟩
    exact fun other member => seats_of_largeness
      (List.le_of_mem_argmax (List.mem_reverse.mpr member) found)

variable (tables : ∀ c, c ≠ ' ' → Unicode.lowercase c ≠ [] ∧ ' ' ∉ Unicode.lowercase c)

include tables in
/-- **A neighbourhood is named where its words are some of a place's words.** -/
theorem named_iff : named places n ↔ ∃ place ∈ places, NamedIn place n := by
  have normal := normalize_normal tables n
  by_cases empty : normalize n = ""
  · have none' : tokens (normalize n) = [] := by rw [empty]; rfl
    refine iff_of_false (by simp [named, empty]) ?_
    rintro ⟨place, -, some', -⟩
    exact some' none'
  · have some' : tokens (normalize n) ≠ [] := by
      intro none'
      have whole := normal.join_tokens
      rw [none'] at whole
      exact empty whole.symm
    have each : ∀ place, contains (" " ++ normalize place ++ " ") (" " ++ normalize n ++ " ") ↔
      NamedIn place n := by
      intro place
      have spaces := normal.between_spaces empty
      have found : contains (" " ++ normalize place ++ " ") (" " ++ normalize n ++ " ") ↔
          ' ' :: spaced (tokens (normalize n)) <:+: (" " ++ normalize place ++ " ").toList := by
        rw [← spaces, contains, ← Option.ne_none_iff_isSome, ne_eq,
          splitFirst_eq_none_iff (by simp), not_not]
      have clean : ∀ text, ∀ w ∈ tokens text, ' ' ∉ w.toList :=
        fun text w listed => (tokens_words w listed).2
      rw [found, NamedIn]
      refine Iff.trans ?_ (and_iff_right some').symm
      by_cases blank : normalize place = ""
      · have short : tokens (normalize place) = [] := by rw [blank]; rfl
        obtain ⟨w, ws, same⟩ := List.exists_cons_of_ne_nil some'
        have letters := (tokens_words w (same ▸ List.mem_cons_self)).1
        rw [short, same, List.infix_nil, blank, spaced_cons]
        refine iff_of_false (fun infix' => ?_) (List.cons_ne_nil _ _)
        have long := infix'.length_le
        have one : 0 < w.toList.length := List.length_pos_of_ne_nil letters
        simp only [List.length_cons, List.length_append] at long
        have two : (" " ++ "" ++ " ").toList.length = 2 := by decide
        omega
      · rw [(normalize_normal tables place).between_spaces blank]
        exact spaced_infix_iff (clean _) (clean _)
    simp [named, empty, each]

include tables in
theorem any_named_iff : section'.neighborhoods.any (named places) ↔
    ∃ n ∈ section'.neighborhoods, ∃ place ∈ places, NamedIn place n := by
  simp only [List.any_eq_true, named_iff tables]

include tables in
/-- **The section of a list that has one.** -/
theorem sectionFor_chosen (some' : list.sections ≠ []) (places : List String) :
    ∃ section' ∈ list.sections, list.sectionFor places = .ok section' ∧ Chosen list places section' := by
  unfold PriceList.sectionFor
  cases listed : list.sections.find? fun s => s.neighborhoods.any (named places) with
  | some section' =>
    have is := List.find?_some listed
    exact ⟨section', List.mem_of_find?_eq_some listed, rfl, .inl ((any_named_iff tables).mp is)⟩
  | none =>
    have unnamed : ∀ other ∈ list.sections, ∀ n ∈ other.neighborhoods, ∀ place ∈ places,
      ¬ NamedIn place n := by
      intro other member n here place given is
      exact List.find?_eq_none.mp listed other member
        ((any_named_iff tables).mpr ⟨n, here, place, given, is⟩)
    cases own : list.sections.find? fun s => s.neighborhoods.isEmpty with
    | some section' =>
      have route :=
        List.isEmpty_iff.mp (List.find?_some (p := fun s : Section => s.neighborhoods.isEmpty) own)
      exact ⟨section', List.mem_of_find?_eq_some own, rfl, .inr ⟨unnamed, .inl route⟩⟩
    | none =>
      have noRoute : ∀ other ∈ list.sections, other.neighborhoods ≠ [] := fun other member empty =>
        List.find?_eq_none.mp own other member (List.isEmpty_iff.mpr empty)
      cases sections : list.sections with
      | nil => exact absurd sections some'
      | cons first rest =>
        rw [sections] at unnamed noRoute
        refine ⟨first, List.mem_cons_self, rfl, .inr ?_⟩
        rw [sections]
        exact ⟨unnamed, .inr noRoute⟩

/-- The price and the seats of a quote are its car's. -/
theorem oneCar_car (passengers : Option ℕ) (roundTrip : Bool) :
    (list.oneCar section' car passengers roundTrip).price = car.oneWay ∧
      (list.oneCar section' car passengers roundTrip).seats = car.seats ∧
      (list.oneCar section' car passengers roundTrip).moreThanOneCar = none := by
  unfold PriceList.oneCar
  simp only
  split
  · exact ⟨rfl, rfl, rfl⟩
  · split <;> exact ⟨rfl, rfl, rfl⟩

end Choices

section Quoted

variable [RegexTables] [Unicode]

/-- **A quote is the right car's price**: every list that is read gives one, of the section of the
ride, and its price and seats are those of the smallest car there that seats everybody, or of the
largest. -/
theorem quote_right (tables : ∀ c, c ≠ ' ' → Unicode.lowercase c ≠ [] ∧ ' ' ∉ Unicode.lowercase c)
    (text : String)
    (list : PriceList) (read : parse text = some list) (passengers : Option ℕ) (roundTrip : Bool)
    (places : List String) :
    (list.sections ≠ [] ∧ ∀ section' ∈ list.sections, section'.vehicles ≠ []) ∧
      ∃ section' ∈ list.sections, Chosen list places section' ∧
        ∃ quote, list.quote passengers roundTrip places = .ok (some quote) ∧
          Right section' (people passengers) quote := by
  have cars := parse_cars read
  obtain ⟨section', listed, is, chosen⟩ := sectionFor_chosen tables cars.1 places
  refine ⟨cars, section', listed, chosen, ?_⟩
  have quoted : list.quote passengers roundTrip places =
      match vehicleFor section' (people passengers) with
      | none => .ok (list.bigGroup section')
      | some car => .ok (some (list.oneCar section' car passengers roundTrip)) := by
    rw [PriceList.quote, is]
    rfl
  cases seated : vehicleFor section' (people passengers) with
  | some car =>
    rw [seated] at quoted
    obtain ⟨member, enough, least⟩ := vehicleFor_some seated
    refine ⟨_, quoted, fun _ => ⟨car, member, enough, least, oneCar_car passengers roundTrip⟩,
      fun crowded => ?_⟩
    exact absurd enough (Nat.not_le.mpr (crowded car member))
  | none =>
    rw [seated] at quoted
    have crowded := vehicleFor_none.mp seated
    obtain ⟨big, found, member, most⟩ := largest_some (cars.2 section' listed)
    simp only [PriceList.bigGroup, found] at quoted
    refine ⟨_, quoted, ?_, fun _ => ⟨big, member, most, rfl, rfl, rfl⟩⟩
    rintro ⟨car, member', enough⟩
    exact absurd enough (Nat.not_le.mpr (crowded car member'))

end Quoted

/-- The route's car, and a neighbourhood's. -/
def shortList : PriceList :=
  ⟨none, none, none, [⟨[], [⟨"4 מק", 4, false, 9, none⟩]⟩, ⟨["גילה"], [⟨"4 מק", 4, false, 8, none⟩]⟩]⟩

attribute [local instance] Unicode.plain in
/-- A ride to a listed neighbourhood; who is coming is not known. -/
theorem gilo_right : (shortList.sections ≠ [] ∧ ∀ section' ∈ shortList.sections, section'.vehicles ≠ []) ∧
    ∃ section' ∈ shortList.sections, Chosen shortList ["אלעד", "גילה, ירושלים"] section' ∧
      ∃ quote, shortList.quote none false ["אלעד", "גילה, ירושלים"] = .ok (some quote) ∧
        Right section' (people none) quote :=
  @quote_right RegexTables.plain Unicode.plain (fun c other => ⟨List.cons_ne_nil _ _, fun space =>
    other (List.mem_singleton.mp space).symm⟩) "4 מק ₪9\nשכונות\nגילה\n4 מק ₪8" shortList
      (by decide +kernel)
    none false ["אלעד", "גילה, ירושלים"]

end Callora.Prices
