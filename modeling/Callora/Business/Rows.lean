/-
**The list of localities, from its rows.**

`fromTsv` reads the rows of the list one after the other: a locality is made at its first row, a
street at the first row of its code, and each name of a street is a key of it, unless an earlier row
had the name. What the tables hold after the last row is told by the rows of a locality alone:

- `loaded_cities`: the localities are those of the rows, in the order of their first rows;
- `Read.get_close`: a name leads to the street of the first row that has it;
- `Read.street_close`: a street is called by its official name.
-/
import Callora.Business.Resolve
import Mathlib.Data.List.Dedup

set_option linter.unusedSectionVars false

namespace Callora

open Callora.Text Unordered

section Reading

/-- A row: a name of a street of a locality. -/
structure Row where
  cityCode : String
  cityName : String
  streetCode : String
  streetName : String
  kind : String
  deriving DecidableEq

/-- A line of five columns. -/
def Row.ofLine (line : String) : Option Row :=
  match split (· == '\t') line with
  | [cityCode, cityName, streetCode, streetName, kind] =>
    some ⟨cityCode, cityName, streetCode, streetName, kind⟩
  | _ => none

/-- The rows of a text; lines with a `#` are comments. -/
def rowsOf (text : String) : List Row :=
  ((lines text).filter fun l => !(startsWith l "#") && !(trim l == "")).filterMap Row.ofLine

/-- The code of the row that stands for the locality itself. -/
def ownCode : String := "9000"

/-- **A locality as its rows are read**: its streets with their codes, and their keys. -/
structure CityRows where
  code : String
  name : String
  streets : List (String × String)
  keys : HashMap String ℕ
  written : HashMap String String
  /-- The street that stands for the locality itself. -/
  own : Option ℕ
  keys_in : ∀ e ∈ keys.entries, e.2 < streets.length

namespace CityRows

/-- A locality of which no street was read. -/
def fresh (code name : String) : CityRows := ⟨code, name, [], .empty, .empty, none, nofun⟩

variable [Unicode] (c : CityRows) (row : Row)

/-- The codes of the streets. -/
def codes : List String := c.streets.map Prod.fst

/-- The place of a street; a new one comes behind the others. -/
def place (streetCode : String) : ℕ := c.codes.idxOf streetCode

/-- The streets with that of a row, by its official name if this is it. -/
def withStreet : List (String × String) :=
  let streets := if row.streetCode ∈ c.codes then c.streets
    else c.streets ++ [(row.streetCode, row.streetName)]
  if row.kind = "official" then streets.set (c.place row.streetCode) (row.streetCode,
    row.streetName) else streets

theorem withStreet_length : (c.withStreet row).length =
    if row.streetCode ∈ c.codes then c.streets.length else c.streets.length + 1 := by
  unfold withStreet
  split <;> split <;> simp

theorem place_lt : c.place row.streetCode < (c.withStreet row).length := by
  rw [withStreet_length]
  split
  · next known =>
    have inside := List.idxOf_lt_length_of_mem known
    rwa [codes, List.length_map] at inside
  · next new =>
    have last := List.idxOf_eq_length new
    rw [codes, List.length_map] at last
    exact Nat.lt_succ_of_le (Nat.le_of_eq last)

/-- A row of the locality is read. -/
def add : CityRows where
  code := c.code
  name := c.name
  streets := c.withStreet row
  keys := c.keys.orInsert (norm row.streetName) (c.place row.streetCode)
  written := c.written.orInsert (norm row.streetName) row.streetName
  own := if row.streetCode = ownCode then some (c.place row.streetCode) else c.own
  keys_in := by
    intro e listed
    rcases HashMap.mem_orInsert listed with before | rfl
    · refine (c.keys_in e before).trans_le ?_
      rw [withStreet_length]
      split
      · exact Nat.le_refl _
      · exact Nat.le_succ _
    · exact c.place_lt row

/-- **A locality with streets of its own**: its name is not one of its streets. -/
def close : City where
  name := c.name
  streets := c.streets.map Prod.snd
  streetKeys := if 30 < c.streets.length then c.keys.retain fun e => !(c.own == some e.2) else c.keys
  streetWritten := c.written
  places := []
  placeKeys := .empty
  streets_in := by
    intro e listed
    rw [List.length_map]
    refine c.keys_in e ?_
    split at listed
    · exact (List.mem_filter.mp listed).1
    · exact listed
  places_in := nofun

end CityRows

variable [Unicode]

/-- A row is read, by the locality of its code or by a new one. -/
def addRow (row : Row) : List CityRows → List CityRows
  | [] => [(CityRows.fresh row.cityCode row.cityName).add row]
  | c :: cs => if c.code = row.cityCode then c.add row :: cs else c :: addRow row cs

/-- The localities of the rows. -/
def loaded (rows : List Row) : List CityRows := rows.foldl (fun cs row => addRow row cs) []

/-- The names a locality is known by: its own up to a bracket, and the parts of "תל אביב - יפו". -/
def aliasesOf (name : String) : List String :=
  let name := trim ((split (· == '(') name).headD name)
  name :: if contains name " - " then (splitString name " - ").map trim else []

/-- The keys of the localities, with the alias as written. -/
def aliasKeys (cities : List City) : List (String × (ℕ × String)) :=
  cities.zipIdx.flatMap fun (c, ci) => (aliasesOf c.name).filterMap fun said =>
    if 2 ≤ (norm said).length then some (norm said, ci, said) else none

/-- The short names of the localities called "עילית". -/
def shortKeys (cities : List City) : List (String × (ℕ × String)) :=
  cities.zipIdx.flatMap fun (c, ci) => [" עילית", " עלית"].filterMap fun suffix =>
    (stripSuffix c.name suffix).bind fun base =>
      if 3 ≤ (norm base).length then some (norm base, ci, c.name) else none

/-- **`Gazetteer::from_tsv`**, from the rows. -/
def Localities.ofRows (rows : List Row) : Localities where
  cities := (loaded rows).map CityRows.close
  cityKeys :=
    .firsts (aliasKeys ((loaded rows).map CityRows.close) ++ shortKeys ((loaded rows).map CityRows.close))
  cities_in := by
    intro e listed
    generalize (loaded rows).map CityRows.close = cities at listed ⊢
    rcases List.mem_append.mp (HashMap.mem_firsts listed) with listed | listed
    · obtain ⟨⟨c, ci⟩, here, listed⟩ := List.mem_flatMap.mp listed
      obtain ⟨said, -, made⟩ := List.mem_filterMap.mp listed
      split at made
      · obtain rfl := Option.some.inj made
        simpa using (List.mem_zipIdx here).2.1
      · cases made
    · obtain ⟨⟨c, ci⟩, here, listed⟩ := List.mem_flatMap.mp listed
      obtain ⟨suffix, -, made⟩ := List.mem_filterMap.mp listed
      obtain ⟨base, -, made⟩ := Option.bind_eq_some_iff.mp made
      split at made
      · obtain rfl := Option.some.inj made
        simpa using (List.mem_zipIdx here).2.1
      · cases made

/-- **`Gazetteer::from_tsv`.** -/
def Localities.fromTsv (text : String) : Localities := .ofRows (rowsOf text)

end Reading

section Spec

/-- The official name of a street, by its rows: the last one said to be, or else the first. -/
def officialName (rs : List Row) : Option String :=
  ((rs.filter fun r => r.kind = "official").getLast?.or rs.head?).map Row.streetName

/-- The rows of a locality. -/
def ofCity (rows : List Row) (code : String) : List Row := rows.filter fun r => r.cityCode = code

/-- The rows of a street. -/
def ofStreet (rs : List Row) (code : String) : List Row := rs.filter fun r => r.streetCode = code

/-- The codes of the streets of a locality. -/
def streetCodes (rs : List Row) : List String := (rs.map Row.streetCode).dedup

theorem ofStreet_concat (rs : List Row) (row : Row) (code : String) :
    ofStreet (rs ++ [row]) code = ofStreet rs code ++ if row.streetCode = code then [row] else [] := by
  rw [ofStreet, ofStreet, List.filter_append]
  by_cases own : row.streetCode = code <;> simp [own]

theorem officialName_concat (rs : List Row) (row : Row) : officialName (rs ++ [row]) =
    if row.kind = "official" ∨ rs = [] then some row.streetName else officialName rs := by
  unfold officialName
  rw [List.filter_append]
  by_cases official : row.kind = "official"
  · simp [official]
  · cases rs with
    | nil => simp [official]
    | cons r rs => simp [official]

variable [Unicode]

namespace CityRows

variable (c : CityRows) (row : Row)

/-- **What was read of the rows of a locality.** -/
structure Read (rs : List Row) (c : CityRows) : Prop where
  nodup : c.codes.Nodup
  known : ∀ code, code ∈ c.codes ↔ ∃ r ∈ rs, r.streetCode = code
  keys : ∀ k, c.keys.get k = (rs.find? fun r => norm r.streetName = k).map fun r => c.place r.streetCode
  official : ∀ st ∈ c.streets, officialName (ofStreet rs st.1) = some st.2
  own : c.own = if ownCode ∈ c.codes then some (c.place ownCode) else none

/-- A row brings its street, if it is new. -/
theorem add_codes : (c.add row).codes = if row.streetCode ∈ c.codes then c.codes
    else c.codes ++ [row.streetCode] := by
  have named : ∀ streets : List (String × String), ∀ i, (streets.map Prod.fst)[i]? = some row.streetCode →
      (streets.set i (row.streetCode, row.streetName)).map Prod.fst = streets.map Prod.fst := by
    intro streets i here
    rw [List.map_set]
    obtain ⟨inside, same⟩ := List.getElem?_eq_some_iff.mp here
    rw [← same, List.set_getElem_self]
  show (c.withStreet row).map Prod.fst = _
  unfold withStreet
  dsimp only
  by_cases known : row.streetCode ∈ c.codes
  · have here : c.codes[c.place row.streetCode]? = some row.streetCode :=
      List.getElem?_eq_some_iff.mpr ⟨List.idxOf_lt_length_of_mem known, List.getElem_idxOf _⟩
    rw [if_pos known, if_pos known]
    split
    · exact named _ _ here
    · rfl
  · have last : c.place row.streetCode = c.codes.length := List.idxOf_eq_length known
    rw [if_neg known, if_neg known]
    split
    · rw [named _ _ (by simp [last, codes])]
      simp [codes]
    · simp [codes]

theorem add_place {code : String} (known : code ∈ c.codes) : (c.add row).place code = c.place code := by
  rw [place, add_codes, place]
  split
  · rfl
  · exact List.idxOf_append_of_mem known

theorem add_place_own : (c.add row).place row.streetCode = c.place row.streetCode := by
  by_cases known : row.streetCode ∈ c.codes
  · exact c.add_place row known
  · rw [place, add_codes, if_neg known, List.idxOf_append_of_notMem known, place,
      List.idxOf_eq_length known]
    simp

theorem fresh_read (code name : String) : Read [] (fresh code name) :=
  ⟨List.nodup_nil, by simp [fresh, codes], fun _ => rfl, nofun, rfl⟩

variable {c row} {rs : List Row}

/-- The streets after a row: its own with its name, if it is official or new, and those that were
there. -/
theorem withStreet_cases (nodup : c.codes.Nodup) {st : String × String} (listed : st ∈ c.withStreet row) :
    (st = (row.streetCode, row.streetName) ∧ (row.kind = "official" ∨ row.streetCode ∉ c.codes)) ∨
      st ∈ c.streets ∧ (st.1 = row.streetCode → row.kind ≠ "official") := by
  unfold withStreet at listed
  dsimp only at listed
  by_cases official : row.kind = "official"
  · rw [if_pos official] at listed
    obtain ⟨j, inside, same⟩ := List.mem_iff_getElem.mp listed
    rw [List.getElem_set] at same
    split at same
    · exact .inl ⟨same.symm, .inl official⟩
    · next elsewhere =>
      right
      by_cases known : row.streetCode ∈ c.codes
      · simp only [if_pos known] at same inside
        rw [List.length_set] at inside
        subst same
        refine ⟨List.getElem_mem _, fun own => absurd ?_ elsewhere⟩
        have held : j < c.codes.length := by rwa [codes, List.length_map]
        have here : c.codes[j] = row.streetCode := by simpa [codes] using own
        rw [place, ← here]
        exact nodup.idxOf_getElem j held
      · simp only [if_neg known] at same inside
        have last : c.place row.streetCode = c.streets.length := by
          rw [place, List.idxOf_eq_length known, codes, List.length_map]
        have earlier : j < c.streets.length := by
          rw [List.length_set, List.length_append, List.length_singleton] at inside
          omega
        rw [List.getElem_append_left earlier] at same
        subst same
        refine ⟨List.getElem_mem _, fun own => absurd ?_ known⟩
        rw [← own]
        exact List.mem_map_of_mem (List.getElem_mem _)
  · rw [if_neg official] at listed
    split at listed
    · exact .inr ⟨listed, fun _ => official⟩
    · next new =>
      rcases List.mem_append.mp listed with before | last
      · exact .inr ⟨before, fun _ => official⟩
      · exact .inl ⟨List.mem_singleton.mp last, .inr new⟩

theorem add_known (code : String) : code ∈ (c.add row).codes ↔
    code ∈ c.codes ∨ row.streetCode = code := by
  rw [add_codes]
  split
  · next listed => exact ⟨.inl, fun either => either.elim id fun own => own ▸ listed⟩
  · rw [List.mem_append, List.mem_singleton, eq_comm]

theorem add_keys : (c.add row).keys = c.keys.orInsert (norm row.streetName)
    (c.place row.streetCode) := rfl

theorem add_own :
    (c.add row).own = if row.streetCode = ownCode then some (c.place row.streetCode) else c.own := rfl

namespace Read

theorem add_nodup (read : Read rs c) : (c.add row).codes.Nodup := by
  rw [add_codes]
  split
  · exact read.nodup
  · next new => exact List.nodup_append_comm.mp (List.nodup_cons.mpr ⟨new, read.nodup⟩)

theorem get_add (read : Read rs c) (k : String) : (c.add row).keys.get k =
    ((rs ++ [row]).find? fun r => norm r.streetName = k).map fun r => (c.add row).place r.streetCode := by
  have before : ((rs.find? fun r => norm r.streetName = k).map fun r => c.place r.streetCode) =
      (rs.find? fun r => norm r.streetName = k).map fun r => (c.add row).place r.streetCode := by
    refine Option.map_congr fun r found => (c.add_place row ?_).symm
    exact (read.known _).mpr ⟨r, List.mem_of_find?_eq_some found, rfl⟩
  have last : (if norm row.streetName = k then some (c.place row.streetCode) else none) =
      ([row].find? fun r => norm r.streetName = k).map fun r => (c.add row).place r.streetCode := by
    by_cases own : norm row.streetName = k
    · simp [own, c.add_place_own row]
    · simp [own]
  rw [add_keys, HashMap.get_orInsert, read.keys, before, last, List.find?_append, Option.map_or]

theorem add_official (read : Read rs c) {st : String × String} (listed : st ∈ c.withStreet row) :
    officialName (ofStreet (rs ++ [row]) st.1) = some st.2 := by
  rw [ofStreet_concat]
  have empty : ∀ code, code ∉ c.codes → ofStreet rs code = [] := by
    intro code new
    refine List.filter_eq_nil_iff.mpr fun r here own => new ?_
    exact (read.known code).mpr ⟨r, here, by simpa using own⟩
  rcases withStreet_cases read.nodup listed with ⟨rfl, why⟩ | ⟨before, why⟩
  · rw [if_pos rfl, officialName_concat, if_pos]
    exact why.imp_right (empty _)
  · have same := read.official st before
    by_cases own : row.streetCode = st.1
    · rw [if_pos own, officialName_concat, if_neg, same]
      rintro (official | none')
      · exact why own.symm official
      · rw [none'] at same
        cases same
    · rw [if_neg own, List.append_nil, same]

theorem own_add (read : Read rs c) :
    (c.add row).own = if ownCode ∈ (c.add row).codes then some ((c.add row).place ownCode) else none := by
  rw [add_own]
  by_cases own : row.streetCode = ownCode
  · rw [if_pos own, if_pos ((add_known _).mpr (.inr own)), ← own, c.add_place_own row]
  · rw [if_neg own, read.own]
    by_cases before : ownCode ∈ c.codes
    · rw [if_pos before, if_pos ((add_known _).mpr (.inl before)), c.add_place row before]
    · rw [if_neg before, if_neg fun listed => ((add_known _).mp listed).elim before own]

/-- **A row more.** -/
theorem add (read : Read rs c) : Read (rs ++ [row]) (c.add row) where
  nodup := read.add_nodup
  known code := by
    rw [add_known, read.known]
    simp [or_and_right, exists_or]
  keys := read.get_add
  official _ listed := read.add_official listed
  own := read.own_add

end Read

namespace Read

theorem length (read : Read rs c) : c.streets.length = (streetCodes rs).length := by
  have same : c.codes.Perm (streetCodes rs) := by
    refine (List.perm_ext_iff_of_nodup read.nodup (List.nodup_dedup _)).mpr fun code => ?_
    rw [read.known, List.mem_dedup, List.mem_map]
  have lengths := same.length_eq
  rwa [codes, List.length_map] at lengths

theorem place_code (read : Read rs c) {code : String} (known : code ∈ c.codes) :
    ∃ name, c.streets[c.place code]? = some (code, name) ∧ officialName
    (ofStreet rs code) = some name := by
  have inside : c.place code < c.streets.length := by
    have here := List.idxOf_lt_length_of_mem known
    rwa [codes, List.length_map] at here
  have own : c.streets[c.place code].1 = code := by
    have held : c.place code < c.codes.length := by rwa [codes, List.length_map]
    have here : c.codes[c.place code] = code := List.getElem_idxOf held
    simpa [codes] using here
  refine ⟨c.streets[c.place code].2, ?_, ?_⟩
  · rw [List.getElem?_eq_getElem inside]
    exact congrArg some (Prod.ext own rfl)
  · have official := read.official _ (List.getElem_mem inside)
    rwa [own] at official

theorem place_own (read : Read rs c) {code : String} (known : code ∈ c.codes) :
    c.own = some (c.place code) ↔ code = ownCode := by
  rw [read.own]
  constructor
  · intro same
    split at same
    · next own =>
      have alike := Option.some.inj same
      rw [place, place] at alike
      exact ((List.idxOf_inj own).mp alike).symm
    · cases same
  · rintro rfl
    exact if_pos known

/-- **A name leads to the street of the first row that has it**, unless this is the locality itself
with more than thirty streets. -/
theorem get_close (read : Read rs c) (k : String) : c.close.streetKeys.get k =
    ((rs.find? fun r => norm r.streetName = k).filter fun r =>
      r.streetCode ≠ ownCode ∨ (streetCodes rs).length ≤ 30).map fun r => c.place r.streetCode := by
  have closed : c.close.streetKeys =
    if 30 < c.streets.length then c.keys.retain fun e => !(c.own == some e.2) else c.keys := rfl
  rw [closed, read.length]
  by_cases many : 30 < (streetCodes rs).length
  · rw [if_pos many, HashMap.get_retain, read.keys]
    cases found : rs.find? fun r => norm r.streetName = k with
    | none => rfl
    | some r =>
      have own := read.place_own ((read.known _).mpr ⟨r, List.mem_of_find?_eq_some found, rfl⟩)
      have few : ¬(streetCodes rs).length ≤ 30 := Nat.not_le.mpr many
      by_cases same : r.streetCode = ownCode
      · simp [Option.filter_some, own.mpr same, same, few]
      · have other : c.own ≠ some (c.place r.streetCode) := fun held => same (own.mp held)
        simp [Option.filter_some, other, same]
  · rw [if_neg many, read.keys]
    have few : (streetCodes rs).length ≤ 30 := Nat.not_lt.mp many
    cases rs.find? fun r => norm r.streetName = k <;> simp [few]

/-- **A street is called by its official name.** -/
theorem street_close (read : Read rs c) {code : String} (known : code ∈ c.codes) :
    officialName (ofStreet rs code) = some (c.close.street (c.place code)) := by
  obtain ⟨name, here, official⟩ := read.place_code known
  have called : c.close.street (c.place code) = name := by
    show (c.streets.map Prod.snd).getD (c.place code) "" = name
    rw [List.getD_eq_getElem?_getD, List.getElem?_map, here]
    rfl
  rw [called, official]

end Read

/-- What is read of the rows of a locality. -/
theorem foldl_read (rs : List Row) (code name : String) :
    Read rs (rs.foldl CityRows.add (fresh code name)) := by
  induction rs using List.reverseRecOn with
  | nil => exact fresh_read code name
  | append_singleton rs row ih =>
    rw [List.foldl_append]
    exact ih.add

end CityRows

/-- The codes of the localities, in the order of their first rows. -/
def cityCodes (rows : List Row) : List String :=
  rows.foldl (fun codes row => if row.cityCode ∈ codes then codes else codes ++ [row.cityCode]) []

/-- The locality of a code, as its rows are read. -/
def readCity (rows : List Row) (code : String) : CityRows :=
  (ofCity rows code).foldl CityRows.add
    (.fresh code (((ofCity rows code).head?.map Row.cityName).getD ""))

theorem cityCodes_concat (rows : List Row) (row : Row) : cityCodes (rows ++ [row]) =
    if row.cityCode ∈ cityCodes rows then cityCodes rows else cityCodes rows ++ [row.cityCode] := by
  rw [cityCodes, List.foldl_append]
  rfl

theorem mem_cityCodes {rows : List Row} {code : String} : code ∈ cityCodes rows ↔
    ∃ r ∈ rows, r.cityCode = code := by
  induction rows using List.reverseRecOn with
  | nil => simp [cityCodes]
  | append_singleton rows row ih =>
    have known : code ∈ cityCodes (rows ++ [row]) ↔ code ∈ cityCodes rows ∨ row.cityCode = code := by
      rw [cityCodes_concat]
      split
      · next listed => exact ⟨.inl, fun either => either.elim id fun own => own ▸ listed⟩
      · rw [List.mem_append, List.mem_singleton, eq_comm]
    rw [known, ih]
    simp [or_and_right, exists_or]

theorem cityCodes_nodup (rows : List Row) : (cityCodes rows).Nodup := by
  induction rows using List.reverseRecOn with
  | nil => exact List.nodup_nil
  | append_singleton rows row ih =>
    rw [cityCodes_concat]
    split
    · exact ih
    · next new => exact List.nodup_append_comm.mp (List.nodup_cons.mpr ⟨new, ih⟩)

theorem readCity_code (rows : List Row) (code : String) : (readCity rows code).code = code := by
  have keeps : ∀ (rs : List Row) (c : CityRows), (rs.foldl CityRows.add c).code = c.code := by
    intro rs
    induction rs with
    | nil => exact fun _ => rfl
    | cons r rs ih => exact fun c => ih (c.add r)
  exact keeps _ _

/-- The rows of other localities do not matter. -/
theorem readCity_other {rows : List Row} {row : Row} {code : String} (other : row.cityCode ≠ code) :
    readCity (rows ++ [row]) code = readCity rows code := by
  have same : ofCity (rows ++ [row]) code = ofCity rows code := by
    rw [ofCity, List.filter_append, List.filter_singleton]
    simp [other, ofCity]
  rw [readCity, same, readCity]

theorem readCity_known {rows : List Row} {row : Row} (known : row.cityCode ∈ cityCodes rows) :
    readCity (rows ++ [row]) row.cityCode = (readCity rows row.cityCode).add row := by
  obtain ⟨r, here, own⟩ := mem_cityCodes.mp known
  have more : ofCity (rows ++ [row]) row.cityCode = ofCity rows row.cityCode ++ [row] := by
    simp [ofCity]
  have some' : ofCity rows row.cityCode ≠ [] :=
    List.ne_nil_of_mem (List.mem_filter.mpr ⟨here, by simpa using own⟩)
  rw [readCity, more, List.head?_append_of_ne_nil _ some', List.foldl_append]
  rfl

theorem readCity_new {rows : List Row} {row : Row} (new : row.cityCode ∉ cityCodes rows) :
    readCity (rows ++ [row]) row.cityCode = (CityRows.fresh row.cityCode row.cityName).add row := by
  have none' : ofCity rows row.cityCode = [] := by
    refine List.filter_eq_nil_iff.mpr fun r here own =>
      new (mem_cityCodes.mpr ⟨r, here, by simpa using own⟩)
  have more : ofCity (rows ++ [row]) row.cityCode = [row] := by
    simpa [ofCity] using none'
  rw [readCity, more]
  rfl

theorem addRow_known {row : Row} {codes : List String} {f : String → CityRows}
    (named : ∀ code, (f code).code = code)
    (nodup : codes.Nodup) (known : row.cityCode ∈ codes) : addRow row (codes.map f) =
      codes.map fun code => if code = row.cityCode then (f code).add row else f code := by
  induction codes with
  | nil => cases known
  | cons code codes ih =>
    obtain ⟨new, nodup⟩ := List.nodup_cons.mp nodup
    rw [List.map_cons, addRow, named, List.map_cons]
    by_cases own : code = row.cityCode
    · rw [if_pos own, if_pos own]
      refine congrArg _ (List.map_congr_left fun other there => (if_neg ?_).symm)
      rintro rfl
      exact new (own ▸ there)
    · rw [if_neg own, if_neg own, ih nodup ((List.mem_cons.mp known).resolve_left (Ne.symm own))]

theorem addRow_new {row : Row} {codes : List String} {f : String → CityRows}
    (named : ∀ code, (f code).code = code)
    (new : row.cityCode ∉ codes) : addRow row (codes.map f) =
      codes.map f ++ [(CityRows.fresh row.cityCode row.cityName).add row] := by
  induction codes with
  | nil => rfl
  | cons code codes ih =>
    obtain ⟨other, new⟩ := not_or.mp (List.mem_cons.not.mp new)
    rw [List.map_cons, addRow, named, if_neg (Ne.symm other), ih new, List.cons_append]

/-- **The localities are those of the rows.** -/
theorem loaded_cities (rows : List Row) : loaded rows = (cityCodes rows).map (readCity rows) := by
  induction rows using List.reverseRecOn with
  | nil => rfl
  | append_singleton rows row ih =>
    have step : loaded (rows ++ [row]) = addRow row (loaded rows) := by
      rw [loaded, List.foldl_append]
      rfl
    rw [step, ih, cityCodes_concat]
    split
    · next known =>
      rw [addRow_known (readCity_code rows) (cityCodes_nodup rows) known]
      refine List.map_congr_left fun code _ => ?_
      by_cases own : code = row.cityCode
      · rw [if_pos own, own, readCity_known known]
      · rw [if_neg own, readCity_other (Ne.symm own)]
    · next new =>
      rw [addRow_new (readCity_code rows) new, List.map_append, List.map_singleton, readCity_new new]
      refine congrArg (· ++ _) (List.map_congr_left fun code listed => (readCity_other ?_).symm)
      rintro rfl
      exact new listed

theorem readCity_read (rows : List Row) (code : String) :
    CityRows.Read (ofCity rows code) (readCity rows code) :=
  CityRows.foldl_read _ _ _

/-- A locality of the list is what is read of its rows. -/
theorem city_ofRows {rows : List Row} {ci : ℕ} {code : String}
    (here : (cityCodes rows)[ci]? = some code) :
    (Localities.ofRows rows).city ci = (readCity rows code).close := by
  show ((loaded rows).map CityRows.close).getD ci .nowhere = _
  rw [loaded_cities, List.getD_eq_getElem?_getD, List.getElem?_map, List.getElem?_map, here]
  rfl

/-- **The list of a text has for a name what the rows say**: the street of the first row of the
locality with that name, by its official name; nothing for the locality itself, where it has more
than thirty streets. -/
theorem fromTsv_street {text code : String} {ci : ℕ} (listed : (cityCodes (rowsOf text))[ci]? = some code)
    (k : String) :
    (((Localities.fromTsv text).city ci).streetKeys.get k).map
    ((Localities.fromTsv text).city ci).street =
      (((ofCity (rowsOf text) code).find? fun r => norm r.streetName = k).filter fun r =>
        r.streetCode ≠ ownCode ∨ (streetCodes (ofCity (rowsOf text) code)).length ≤ 30).bind fun r =>
          officialName (ofStreet (ofCity (rowsOf text) code) r.streetCode) := by
  have read := readCity_read (rowsOf text) code
  rw [Localities.fromTsv, city_ofRows listed, read.get_close, Option.map_map]
  cases found : (ofCity (rowsOf text) code).find? fun r => norm r.streetName = k with
  | none => rfl
  | some r =>
    have known := (read.known _).mpr ⟨r, List.mem_of_find?_eq_some found, rfl⟩
    rw [Option.filter_some]
    split
    · rw [Option.map_some, Option.bind_some, Function.comp_apply, read.street_close known]
    · rfl

end Spec

/-- A street with two names, whose first row has the other one. -/
def twoNames : String := "7\tלוד\t9\tהרב\tsynonym\n7\tלוד\t9\tקוק\tofficial"

theorem other_name : (((@Localities.fromTsv Unicode.plain twoNames).city 0).streetKeys.get "הרב").map
    ((@Localities.fromTsv Unicode.plain twoNames).city 0).street = some "קוק" :=
  (@fromTsv_street Unicode.plain twoNames "7" 0 (by decide +kernel) "הרב").trans (by decide +kernel)

end Callora
