/-
**One answer for one place.**

The hash maps of the list are gone through in another order in every run (`Localities.Same`). Most
searches do not see it: a lookup by key, the one entry that fits, what all entries agree on, a
sorted list. Two do:

* the first key close enough to a misspelled name, where two keys of different streets are
  (`FirstAgrees`);
* the locality that sounds like the one said, where one locality has keys at two distances
  (`SoundsSettled`).

`one_answer`: where these are settled whenever they are reached (`Steady`), the answers are those of
every run; `townsSoundingLike` is so always. Two streets one letter apart give two answers
(`twoStreets_differ`).
-/
import Callora.Business.Resolve
import Mathlib.Data.List.Perm.Basic
import Mathlib.Data.List.Induction

set_option linter.unusedSectionVars false

namespace Callora

open Callora.Text Unordered

/-- The same locality in another run. -/
structure City.Same (c c' : City) : Prop where
  name : c.name = c'.name
  streets : c.streets = c'.streets
  places : c.places = c'.places
  streetKeys : c.streetKeys.Same c'.streetKeys
  streetWritten : c.streetWritten.Same c'.streetWritten
  placeKeys : c.placeKeys.Same c'.placeKeys

namespace Localities

/-- **The same list in another run.** -/
structure Same (g g' : Localities) : Prop where
  cities : List.Forall₂ City.Same g.cities g'.cities
  keys : g.cityKeys.Same g'.cityKeys

variable [Unicode] {g g' : Localities} {q : Query}

section Unseen

theorem City.Same.refl (c : City) : c.Same c :=
  ⟨rfl, rfl, rfl, List.Perm.refl _, List.Perm.refl _, List.Perm.refl _⟩

theorem Same.city (same : g.Same g') (ci : Nat) : (g.city ci).Same (g'.city ci) := by
  have all := same.cities
  rw [Localities.city, Localities.city]
  generalize g.cities = cities at all ⊢
  generalize g'.cities = cities' at all ⊢
  induction all generalizing ci with
  | nil => exact City.Same.refl _
  | cons first _ ih =>
    cases ci with
    | zero => exact first
    | succ ci => exact ih ci

theorem Same.street (same : g.Same g') (ci si : Nat) :
    (g.city ci).street si = (g'.city ci).street si := by
  rw [City.street, City.street, (same.city ci).streets]

theorem Same.place (same : g.Same g') (ci pi : Nat) : (g.city ci).place pi = (g'.city ci).place pi := by
  rw [City.place, City.place, (same.city ci).places]

theorem findCities_same (same : g.Same g') (ws : List String) : g.findCities ws = g'.findCities ws := by
  have named : g.namedCities ws = g'.namedCities ws := by
    simp only [namedCities, HashMap.get_same same.keys]
  have misspelled : g.misspelledCity ws = g'.misspelledCity ws := by
    simp only [misspelledCity, only_same same.keys]
  rw [findCities, findCities, named, misspelled]

theorem closestCities_same (same : g.Same g') (ws : List String) :
    g.closestCities ws = g'.closestCities ws := by
  simp only [closestCities]
  rw [sorted_same]
  refine List.Perm.flatMap_left _ fun len _ => List.Perm.flatMap_left _ fun window _ => ?_
  exact List.Perm.flatMap_left _ fun key _ => List.Perm.filterMap _ same.keys

theorem foundStreet_same (same : g.Same g') (street streetSaid : Option String) :
    g.foundStreet q street streetSaid = g'.foundStreet q street streetSaid := by
  rw [foundStreet, foundStreet, (same.city q.ci).name]

theorem foundPlace_same (same : g.Same g') (pi : Nat) : g.foundPlace q pi = g'.foundPlace q pi := by
  simp only [foundPlace, (same.city q.ci).name, same.place]

theorem namesCity_same (same : g.Same g') : g.namesCity q = g'.namesCity q := by
  have own : g.isOwn q = g'.isOwn q := by
    funext key
    rw [isOwn, isOwn, HashMap.get_same same.keys]
  rw [namesCity, namesCity, own]

theorem exactStreet_same (same : g.Same g') : g.exactStreet q = g'.exactStreet q := by
  simp only [exactStreet, HashMap.get_same (same.city q.ci).streetKeys,
    HashMap.get_same (same.city q.ci).streetWritten, same.street, foundStreet_same same]

theorem exactPlace_same (same : g.Same g') : g.exactPlace q = g'.exactPlace q := by
  have found : g.foundPlace q = g'.foundPlace q := funext fun pi => foundPlace_same same pi
  simp only [exactPlace, HashMap.get_same (same.city q.ci).placeKeys, found]

theorem streetBy_same (same : g.Same g') (as : String → String) (heard : String) :
    g.streetBy q as heard = g'.streetBy q as heard := by
  have fits :=
    unanimous_same (((same.city q.ci).streetKeys.filter fun entry => as entry.1 == heard).map Prod.snd)
  simp only [streetBy, fits, same.street, foundStreet_same same]

theorem spelledStreet_same (same : g.Same g') : g.spelledStreet q = g'.spelledStreet q := by
  rw [spelledStreet, spelledStreet, streetBy_same same]

theorem ashkenaziStreet_same (same : g.Same g') : g.ashkenaziStreet q = g'.ashkenaziStreet q := by
  rw [ashkenaziStreet, ashkenaziStreet, streetBy_same same]

theorem soundsLikeStreet_same (same : g.Same g') : g.soundsLikeStreet q = g'.soundsLikeStreet q := by
  simp only [soundsLikeStreet, same.street]
  rw [sorted_same]
  by_cases long : 3 ≤ (sound q.heard).length
  · rw [if_pos long, if_pos long]
    exact List.Perm.filterMap _ (same.city q.ci).streetKeys
  · rw [if_neg long, if_neg long]

theorem noStreet_same (same : g.Same g') : g.noStreet q = g'.noStreet q := by
  have near := sorted_same (((same.city q.ci).streetKeys.map fun entry =>
    toLex (distance q.heard entry.1, (g'.city q.ci).street entry.2)).append
      ((same.city q.ci).placeKeys.map fun entry =>
      toLex (distance q.heard entry.1, ((g'.city q.ci).place entry.2).name)))
  simp only [noStreet, same.street, same.place, (same.city q.ci).name, soundsLikeStreet_same same, near]

end Unseen

section Close

variable (g q)

/-- The streets of the keys close to a name. -/
def closeStreets (c : String) : List String :=
  ((g.city q.ci).streetKeys.entries.filter fun (k, _) => closeEnough c k).map fun (_, si) =>
    (g.city q.ci).street si

/-- The places of the keys close to a name. -/
def closePlaces (c : String) : List Place :=
  ((g.city q.ci).placeKeys.entries.filter fun (k, _) => closeEnough c k).map fun (_, pi) =>
    (g.city q.ci).place pi

variable {g q}

/-- A misspelled street is the same one, where the keys close to it are of one street. -/
theorem closeStreet_same (same : g.Same g') (agrees : FirstAgrees (g.closeStreets q) q.candidates) :
    g.closeStreet q = g'.closeStreet q := by
  have first := findSome?_same (fun street => g'.foundStreet q (some street) none)
    (same.city q.ci).streetKeys agrees
  simp only [closeStreet, same.street, foundStreet_same same] at first ⊢
  exact first

theorem closePlace_same (same : g.Same g')
    (agrees : q.number = none → FirstAgrees (g.closePlaces q) q.candidates) :
    g.closePlace q = g'.closePlace q := by
  rw [closePlace, closePlace]
  cases number : q.number with
  | some n => rfl
  | none =>
    have first :=
      findSome?_same (fun p : Place => Lookup.found ⟨q.said, (g'.city q.ci).name, some p.name, none,
      none, some ⟨p.address, p.point⟩⟩) (same.city q.ci).placeKeys (agrees number)
    simp only [foundPlace, same.place, (same.city q.ci).name] at first ⊢
    exact first

end Close

section Sounds

/-- The locality of a hit, and how far its name is from the one said. -/
def locality (h : ℕ ×ₗ ℕ ×ₗ ℕ) : Nat := (ofLex (ofLex h).2).1

def away (h : ℕ ×ₗ ℕ ×ₗ ℕ) : Nat := (ofLex h).1

variable (g q)

/-- The hits of all keys. -/
def soundHits : List (ℕ ×ₗ ℕ ×ₗ ℕ) := g.cityKeys.entries.filterMap (g.soundHit q (sound (norm q.said)))

/-- **The locality that sounds like the one said is settled**: the hits are of one locality, or no
locality has hits at two distances, or two localities sound the same as it in all their keys. -/
def SoundsSettled : Prop :=
  (∀ h ∈ g.soundHits q, ∀ h' ∈ g.soundHits q, locality h = locality h') ∨
    (∀ h ∈ g.soundHits q, ∀ h' ∈ g.soundHits q, locality h = locality h' → away h = away h') ∨
    ∃ z ∈ g.soundHits q, ∃ z' ∈ g.soundHits q, locality z ≠ locality z' ∧
      ∀ h ∈ g.soundHits q, locality h = locality z ∨ locality h = locality z' → away h = 0

variable {g q}

theorem soundHit_some {sounds : String} {entry : String × (Nat × String)} {h : ℕ ×ₗ ℕ ×ₗ ℕ}
    (hit : g.soundHit q sounds entry = some h) : locality h = entry.2.1 ∧
      q.candidates.findSome? (g.city (locality h)).streetKeys.get = some (ofLex (ofLex h).2).2 := by
  rw [soundHit] at hit
  by_cases own : entry.2.1 = q.ci
  · rw [if_pos own] at hit
    cases hit
  rw [if_neg own] at hit
  dsimp only at hit
  by_cases far : 1 < distance sounds (sound entry.1) ∨
      (distance sounds (sound entry.1) = 1 ∧ sounds.length = (sound entry.1).length)
  · rw [if_pos far] at hit
    cases hit
  rw [if_neg far] at hit
  obtain ⟨si, found, rfl⟩ := Option.map_eq_some_iff.mp hit
  exact ⟨rfl, found⟩

/-- Two hits of one locality at one distance are the same. -/
theorem hit_unique {h h' : ℕ ×ₗ ℕ ×ₗ ℕ} (first : h ∈ g.soundHits q) (second : h' ∈ g.soundHits q)
    (place : locality h = locality h') : (ofLex h).2 = (ofLex h').2 ∧ (away h = away h' → h = h') := by
  obtain ⟨_, _, hit⟩ := List.mem_filterMap.mp first
  obtain ⟨_, _, hit'⟩ := List.mem_filterMap.mp second
  have street := (soundHit_some hit).2
  rw [place, (soundHit_some hit').2] at street
  have rest : (ofLex h).2 = (ofLex h').2 := by
    refine ofLex.injective (Prod.ext place (Option.some.inj street).symm)
  exact ⟨rest, fun near => ofLex.injective (Prod.ext near rest)⟩

/-- What the loop collects: one hit for each locality. -/
structure Collected (hits all : List (ℕ ×ₗ ℕ ×ₗ ℕ)) : Prop where
  sub : ∀ h ∈ hits, h ∈ all
  once : (hits.map locality).Nodup
  each : ∀ h ∈ all, ∃ h' ∈ hits, locality h' = locality h

theorem addHit_collected {sounds : String} {hits all : List (ℕ ×ₗ ℕ ×ₗ ℕ)} (so : Collected hits all)
    (entry : String × (Nat × String)) :
    Collected (g.addHit q sounds hits entry) (all ++ (g.soundHit q sounds entry).toList) := by
  rw [addHit]
  by_cases known : hits.any fun h => (ofLex (ofLex h).2).1 == entry.2.1
  · rw [if_pos known]
    obtain ⟨h, listed, place⟩ := List.any_eq_true.mp known
    refine ⟨fun h listed => List.mem_append_left _ (so.sub h listed), so.once, fun h' inside => ?_⟩
    rcases List.mem_append.mp inside with before | here
    · exact so.each h' before
    · have hit := Option.mem_toList.mp here
      exact ⟨h, listed, (eq_of_beq place).trans (soundHit_some hit).1.symm⟩
  · rw [if_neg known]
    cases hit : g.soundHit q sounds entry with
    | none => simpa using so
    | some h =>
      have place := (soundHit_some hit).1
      have fresh : locality h ∉ hits.map locality := by
        intro listed
        obtain ⟨h', inside, same⟩ := List.mem_map.mp listed
        exact known (List.any_eq_true.mpr ⟨h', inside, beq_iff_eq.mpr (same.trans place)⟩)
      refine ⟨?_, ?_, ?_⟩
      · intro h' inside
        rcases List.mem_append.mp inside with before | here
        · exact List.mem_append_left _ (so.sub h' before)
        · exact List.mem_append_right _ here
      · rw [List.map_append]
        refine List.nodup_append.mpr ⟨so.once, by simp, ?_⟩
        rintro a inside b here rfl
        rw [List.mem_singleton.mp here] at inside
        exact fresh inside
      · intro h' inside
        rcases List.mem_append.mp inside with before | here
        · obtain ⟨h'', listed, same⟩ := so.each h' before
          exact ⟨h'', List.mem_append_left _ listed, same⟩
        · exact ⟨h', List.mem_append_right _ here, rfl⟩

theorem collected_entries (sounds : String) (entries : List (String × (Nat × String))) :
    Collected (entries.foldl (g.addHit q sounds) []) (entries.filterMap (g.soundHit q sounds)) := by
  induction entries using List.reverseRecOn with
  | nil => exact ⟨by simp, by simp, by simp⟩
  | append_singleton entries entry ih =>
    rw [List.foldl_append, List.filterMap_append]
    have next : Collected (g.addHit q sounds (entries.foldl (g.addHit q sounds) []) entry) _ :=
      addHit_collected ih entry
    cases hit : g.soundHit q sounds entry with
    | none =>
      rw [hit] at next
      simpa [hit] using next
    | some h =>
      rw [hit] at next
      simpa [hit] using next

/-- **The nearest hit is nearer than any other.** -/
theorem nearest_eq_some_iff {hits : List (ℕ ×ₗ ℕ ×ₗ ℕ)} (once : (hits.map locality).Nodup)
    {x : Nat × Nat} :
    nearest (sorted hits) = some x ↔
      ∃ h ∈ hits, x = ofLex (ofLex h).2 ∧ ∀ h' ∈ hits, h' ≠ h → away h < away h' := by
  have same : (sorted hits).Perm hits := List.mergeSort_perm hits _
  have order : (sorted hits).Pairwise (· ≤ ·) := List.pairwise_mergeSort' (· ≤ ·) hits
  have distinct : (sorted hits).Nodup := (same.nodup_iff).mpr once.of_map
  simp only [← same.mem_iff]
  generalize sorted hits = s at order distinct
  match s with
  | [] => simp [nearest]
  | [h] =>
    simp only [nearest, List.mem_singleton]
    constructor
    · rintro ⟨⟩
      exact ⟨h, rfl, rfl, fun h' one other => absurd one other⟩
    · rintro ⟨_, rfl, rfl, -⟩
      rfl
  | h :: h' :: rest =>
    have least : ∀ k ∈ h :: h' :: rest, away h ≤ away k := by
      intro k listed
      rcases List.mem_cons.mp listed with rfl | later
      · exact le_rfl
      · exact Prod.Lex.monotone_fst _ _ ((List.pairwise_cons.mp order).1 k later)
    have second : ∀ k ∈ h' :: rest, away h' ≤ away k := by
      intro k listed
      rcases List.mem_cons.mp listed with rfl | later
      · exact le_rfl
      · exact Prod.Lex.monotone_fst _ _
          ((List.pairwise_cons.mp (List.pairwise_cons.mp order).2).1 k later)
    have apart : h ≠ h' := by
      rintro rfl
      exact (List.nodup_cons.mp distinct).1 List.mem_cons_self
    rw [nearest]
    by_cases nearer : (ofLex h).1 < (ofLex h').1
    · rw [if_pos nearer]
      constructor
      · rintro ⟨⟩
        refine ⟨h, List.mem_cons_self, rfl, fun k listed other => ?_⟩
        rcases List.mem_cons.mp listed with rfl | later
        · exact absurd rfl other
        · exact lt_of_lt_of_le nearer (second k later)
      · rintro ⟨k, listed, rfl, strict⟩
        by_cases first : k = h
        · rw [first]
        · exact absurd (strict h List.mem_cons_self (Ne.symm first)) (not_lt.mpr (least k listed))
    · rw [if_neg nearer]
      constructor
      · rintro ⟨⟩
      · rintro ⟨k, listed, rfl, strict⟩
        by_cases first : k = h
        · rw [first] at strict
          exact absurd (strict h' (by simp) apart.symm) nearer
        · exact absurd (strict h List.mem_cons_self (Ne.symm first)) (not_lt.mpr (least k listed))

theorem soundHits_same (same : g.Same g') : (g.soundHits q).Perm (g'.soundHits q) := by
  have hit : g.soundHit q = g'.soundHit q := by
    funext sounds entry
    have keys : (g.city entry.2.1).streetKeys.get = (g'.city entry.2.1).streetKeys.get :=
      funext fun k => HashMap.get_same (same.city entry.2.1).streetKeys k
    rw [soundHit, soundHit, keys]
  rw [soundHits, soundHits, hit]
  exact List.Perm.filterMap _ same.keys

/-- A hit nearer than any other, in one run, is so in another. -/
theorem nearest_moves {hits hits' : List (ℕ ×ₗ ℕ ×ₗ ℕ)} (here : Collected hits (g.soundHits q))
    (there : Collected hits' (g.soundHits q)) (settled : g.SoundsSettled q) {x : Nat × Nat}
    (found : ∃ h ∈ hits, x = ofLex (ofLex h).2 ∧ ∀ h' ∈ hits, h' ≠ h → away h < away h') :
    ∃ h ∈ hits', x = ofLex (ofLex h).2 ∧ ∀ h' ∈ hits', h' ≠ h → away h < away h' := by
  obtain ⟨h, listed, rfl, strict⟩ := found
  obtain ⟨k, inside, place⟩ := there.each h (here.sub h listed)
  have rest := (hit_unique (there.sub k inside) (here.sub h listed) place).1
  refine ⟨k, inside, by rw [rest], fun k' inside' other => ?_⟩
  have once : locality k' ≠ locality k := fun alike =>
    other (List.inj_on_of_nodup_map there.once inside' inside alike)
  rcases settled with one | level | ⟨z, zHit, z', zHit', apart, zero⟩
  · exact absurd (one k' (there.sub k' inside') k (there.sub k inside)) once
  · obtain ⟨h', listed', place'⟩ := here.each k' (there.sub k' inside')
    have far : h' ≠ h := by
      rintro rfl
      exact once (place'.symm.trans place.symm)
    rw [level k (there.sub k inside) h (here.sub h listed) place,
      ← level h' (here.sub h' listed') k' (there.sub k' inside') place']
    exact strict h' listed' far
  · obtain ⟨a, aListed, aPlace⟩ := here.each z zHit
    obtain ⟨b, bListed, bPlace⟩ := here.each z' zHit'
    have aZero := zero a (here.sub a aListed) (.inl aPlace)
    have bZero := zero b (here.sub b bListed) (.inr bPlace)
    have different : a ≠ b := by
      rintro rfl
      exact apart (aPlace.symm.trans bPlace)
    by_cases first : a = h
    · have nearer := strict b bListed (first ▸ different.symm)
      omega
    · have nearer := strict a aListed first
      omega

theorem soundAlike_same (same : g.Same g')
    (settled : (sound (norm q.said)).isEmpty = false → g.SoundsSettled q) :
    g.soundAlike q = g'.soundAlike q := by
  have nearest : g.soundAlikeWithStreet q = g'.soundAlikeWithStreet q := by
    rw [soundAlikeWithStreet, soundAlikeWithStreet]
    by_cases empty : (sound (norm q.said)).isEmpty
    · rw [if_pos empty, if_pos empty]
    rw [if_neg empty, if_neg empty]
    have settled := settled (by simpa using empty)
    have all := soundHits_same (q := q) same
    have here : Collected _ (g.soundHits q) := collected_entries (sound (norm q.said)) g.cityKeys.entries
    have other : Collected _ (g'.soundHits q) :=
      collected_entries (sound (norm q.said)) g'.cityKeys.entries
    have there : Collected (g'.cityKeys.entries.foldl (g'.addHit q (sound (norm q.said))) [])
      (g.soundHits q) :=
      ⟨fun h listed => all.mem_iff.mpr (other.sub h listed), other.once,
        fun h listed => other.each h (all.mem_iff.mp listed)⟩
    refine Option.ext fun x => ?_
    rw [nearest_eq_some_iff here.once, nearest_eq_some_iff there.once]
    exact ⟨nearest_moves here there settled, nearest_moves there here settled⟩
  simp only [soundAlike, nearest, (same.city _).name, same.street]

end Sounds

section Answers

variable (g q)

/-- No street or place of the locality is called so. -/
def NoExact : Prop := g.exactStreet q = none ∧ g.exactPlace q = none

/-- No street or place of the locality is called almost so. -/
def NoClose : Prop := (∀ c ∈ q.candidates, g.closeStreets q c = []) ∧
  (q.number = none → ∀ c ∈ q.candidates, g.closePlaces q c = [])

/-- No street of the locality is spelled or pronounced so. -/
def NoSpelled : Prop := g.spelledStreet q = none ∧ g.ashkenaziStreet q = none

/-- **The searches of a locality are settled**: whenever one that sees the order is reached, it has one
answer. -/
structure Steady : Prop where
  streets : g.NoExact q → FirstAgrees (g.closeStreets q) q.candidates
  places : g.NoExact q → (∀ c ∈ q.candidates, g.closeStreets q c = []) → q.number = none →
    FirstAgrees (g.closePlaces q) q.candidates
  sounds : g.NoExact q → g.NoClose q → g.NoSpelled q → (sound (norm q.said)).isEmpty = false →
    g.SoundsSettled q

/-- A place in one of the localities it names. -/
def SteadyIn (ws : List String) (named : Named) : Prop :=
  g.namesCity (query ws named) = false → g.Steady (query ws named)

/-- A place as it is written. -/
def SteadyWritten (text : String) : Prop :=
  ∀ named ∈ g.findCities (words (norm text)), g.SteadyIn (words (norm text)) named

/-- **A place is settled**: as it is written, and in digits when no street was found. -/
structure SteadyPlace (text : String) : Prop where
  written : g.SteadyWritten text
  digits : hasStreet (g.resolveWritten text) = false → inDigits text ≠ text →
    g.SteadyWritten (inDigits text)

/-- A street in a named locality. -/
def SteadyStreet (street city : String) : Prop :=
  ∀ ci said, g.cityKeys.get (norm city) = some (ci, said) →
    g.SteadyIn (words (norm street)) (ci, said, (words (norm street)).length, 0)

/-- **A street in a named locality is settled**: as it is written, and in digits when no number was
found. -/
structure SteadyWithin (street city : String) : Prop where
  written : g.SteadyStreet street city
  digits : inDigits street ≠ street →
    (∀ l, g.resolveWithinWritten street city = some l → hasNumber l = false) →
    g.SteadyStreet (inDigits street) city

variable {g q}

theorem closeStreets_empty (c : String) :
    g.closeStreets q c = [] ↔ (g.city q.ci).streetKeys.entries.find?
    (fun (k, _) => closeEnough c k) = none := by
  rw [closeStreets, List.map_eq_nil_iff, List.filter_eq_nil_iff, List.find?_eq_none]

theorem closePlaces_empty (c : String) :
    g.closePlaces q c = [] ↔ (g.city q.ci).placeKeys.entries.find?
    (fun (k, _) => closeEnough c k) = none := by
  rw [closePlaces, List.map_eq_nil_iff, List.filter_eq_nil_iff, List.find?_eq_none]

theorem closeStreet_none : g.closeStreet q = none ↔ ∀ c ∈ q.candidates, g.closeStreets q c = [] := by
  rw [closeStreet, List.findSome?_eq_none_iff]
  simp only [Option.map_eq_none_iff, closeStreets_empty]

theorem closePlace_none : g.closePlace q = none ↔
    (q.number = none → ∀ c ∈ q.candidates, g.closePlaces q c = []) := by
  rw [closePlace]
  cases q.number with
  | some n => simp
  | none =>
    rw [if_neg (by simp), List.findSome?_eq_none_iff]
    simp only [Option.map_eq_none_iff, closePlaces_empty, forall_const]

/-- The searches of a settled locality give the same in every run. -/
theorem searches_same (same : g.Same g') (steady : g.Steady q) :
    (g.searches q).findSome? id = (g'.searches q).findSome? id := by
  have exactStreet := exactStreet_same (q := q) same
  have exactPlace := exactPlace_same (q := q) same
  have spelled := spelledStreet_same (q := q) same
  have ashkenazi := ashkenaziStreet_same (q := q) same
  simp only [searches, List.findSome?_cons, id]
  rw [← exactStreet, ← exactPlace, ← spelled, ← ashkenazi]
  cases street : g.exactStreet q with
  | some l => rfl
  | none =>
    cases place : g.exactPlace q with
    | some l => rfl
    | none =>
      have noExact : g.NoExact q := ⟨street, place⟩
      have close := closeStreet_same same (steady.streets noExact)
      rw [← close]
      dsimp only
      cases near : g.closeStreet q with
      | some l => rfl
      | none =>
        have noStreet := closeStreet_none.mp near
        have closeP := closePlace_same same (steady.places noExact noStreet)
        rw [← closeP]
        dsimp only
        cases nearPlace : g.closePlace q with
        | some l => rfl
        | none =>
          have noClose : g.NoClose q := ⟨noStreet, closePlace_none.mp nearPlace⟩
          cases bySpelling : g.spelledStreet q with
          | some l => rfl
          | none =>
            cases byAshkenazi : g.ashkenaziStreet q with
            | some l => rfl
            | none =>
              have alike := soundAlike_same same (steady.sounds noExact noClose ⟨bySpelling, byAshkenazi⟩)
              rw [← alike]

theorem resolveIn_same (same : g.Same g') {ws : List String} {named : Named}
    (steady : g.SteadyIn ws named) :
    g.resolveIn ws named = g'.resolveIn ws named := by
  rw [resolveIn, resolveIn, ← namesCity_same same, foundStreet_same same, noStreet_same same]
  by_cases names : g.namesCity (query ws named)
  · rw [if_pos names, if_pos names]
  · rw [if_neg names, if_neg names, searches_same same (steady (by simpa using names))]

theorem resolveWritten_same (same : g.Same g') {text : String} (steady : g.SteadyWritten text) :
    g.resolveWritten text = g'.resolveWritten text := by
  have readings : (g.findCities (words (norm text))).map (g.resolveIn (words (norm text))) =
      (g'.findCities (words (norm text))).map (g'.resolveIn (words (norm text))) := by
    rw [← findCities_same same]
    exact List.map_congr_left fun named listed => resolveIn_same same (steady named listed)
  rw [resolveWritten, resolveWritten]
  rw [readings, closestCities_same same]

theorem resolve_same (same : g.Same g') {text : String} (steady : g.SteadyPlace text) :
    g.resolve text = g'.resolve text := by
  rw [resolve, resolve]
  rw [← resolveWritten_same same steady.written]
  by_cases street : hasStreet (g.resolveWritten text)
  · rw [if_pos street, if_pos street]
  rw [if_neg street, if_neg street]
  by_cases digits : inDigits text = text
  · rw [if_pos digits, if_pos digits]
  · rw [if_neg digits, if_neg digits,
      ← resolveWritten_same same (steady.digits (by simpa using street) digits)]

theorem resolveWithinWritten_same (same : g.Same g') {street city : String}
    (steady : g.SteadyStreet street city) :
    g.resolveWithinWritten street city = g'.resolveWithinWritten street city := by
  rw [resolveWithinWritten, resolveWithinWritten, ← HashMap.get_same same.keys]
  cases key : g.cityKeys.get (norm city) with
  | none => simp only [Option.bind_eq_bind, Option.bind_none]
  | some found =>
    obtain ⟨ci, said⟩ := found
    simp only [Option.bind_eq_bind, Option.bind_some]
    rw [resolveIn_same same (steady ci said key)]

theorem resolveWithin_same (same : g.Same g') {street city : String}
    (steady : g.SteadyWithin street city) :
    g.resolveWithin street city = g'.resolveWithin street city := by
  rw [resolveWithin, resolveWithin, ← resolveWithinWritten_same same steady.written]
  cases first : g.resolveWithinWritten street city with
  | none => simp only [Option.bind_eq_bind, Option.bind_none]
  | some l =>
    simp only [Option.bind_eq_bind, Option.bind_some]
    by_cases number : hasNumber l
    · rw [if_pos number, if_pos number]
    rw [if_neg number, if_neg number]
    by_cases digits : inDigits street = street
    · rw [if_pos digits, if_pos digits]
    · have second := steady.digits digits fun l' found => by
        obtain rfl := Option.some.inj (first.symm.trans found)
        simpa using number
      rw [if_neg digits, if_neg digits, ← resolveWithinWritten_same same second]

theorem townsSoundingLike_same (same : g.Same g') (text : String) :
    g.townsSoundingLike text = g'.townsSoundingLike text := by
  have contains : g.cityKeys.contains = g'.cityKeys.contains :=
    funext fun k => HashMap.contains_same same.keys k
  have swallowed : g.townWithoutFirstLetter = g'.townWithoutFirstLetter := by
    funext word
    simp only [townWithoutFirstLetter, contains, HashMap.get_same same.keys, (same.city _).streets,
      (same.city _).name]
  have sounding : g.townSounding = g'.townSounding := by
    funext heard entry
    rw [townSounding, townSounding, (same.city _).streets]
  have form : g.townOfForm = g'.townOfForm := by
    funext word out form
    rw [townOfForm, townOfForm, contains, sounding, only_same same.keys]
  have word : g.townOfWord = g'.townOfWord := by
    funext out word
    rw [townOfWord, townOfWord, contains, swallowed, form]
  rw [townsSoundingLike, townsSoundingLike, word]

/-- **One answer for one place**: two runs over the same list give the same answer to a place, and to a
street in a locality, wherever these are settled; and the same towns to every text. -/
theorem one_answer (same : g.Same g') (text street city : String) :
    (g.SteadyPlace text → g.resolve text = g'.resolve text) ∧
      (g.SteadyWithin street city → g.resolveWithin street city = g'.resolveWithin street city) ∧
      g.townsSoundingLike text = g'.townsSoundingLike text :=
  ⟨resolve_same same, resolveWithin_same same, townsSoundingLike_same same text⟩

end Answers

section Samples

/-- A street called by its name needs no search that sees the order. -/
theorem steady_of_exact (found : (g.exactStreet q).isSome) : g.Steady q := by
  have exact : ¬ g.NoExact q := by
    rintro ⟨none, -⟩
    rw [none] at found
    cases found
  exact ⟨fun no => absurd no exact, fun no => absurd no exact, fun no => absurd no exact⟩

/-- אלעד with two streets, one letter apart, gone through in one order. -/
def elad (first second : String × Nat) (apart : first.1 ≠ second.1) (firstIn : first.2 < 2)
    (secondIn : second.2 < 2) : Localities where
  cities :=
    [⟨"אלעד", ["רבי מאיר", "רבי יאיר"], ⟨[first, second], by simpa using apart⟩, ⟨[], List.nodup_nil⟩, [],
    ⟨[], List.nodup_nil⟩, by simp; omega, City.none_in⟩]
  cityKeys := ⟨[("אלעד", 0, "אלעד")], by simp⟩
  cities_in := by simp

def meirFirst : Localities := elad ("רבי מאיר", 0) ("רבי יאיר", 1) (by decide) (by decide) (by decide)

def yairFirst : Localities := elad ("רבי יאיר", 1) ("רבי מאיר", 0) (by decide) (by decide) (by decide)

omit [Unicode] in
theorem meirFirst_same : meirFirst.Same yairFirst where
  cities := .cons ⟨rfl, rfl, rfl, List.Perm.swap _ _ _, List.Perm.refl _, List.Perm.refl _⟩ .nil
  keys := List.Perm.refl _

omit [Unicode] in
theorem one_answer_elad :
    @resolve Unicode.plain meirFirst "רבי מאיר 5, אלעד" =
    @resolve Unicode.plain yairFirst "רבי מאיר 5, אלעד" := by
  let _ := Unicode.plain
  refine (one_answer meirFirst_same "רבי מאיר 5, אלעד" "" "").1 ⟨?_, ?_⟩
  · have called : ∀ named ∈ meirFirst.findCities (words (norm "רבי מאיר 5, אלעד")),
        (meirFirst.exactStreet (query (words (norm "רבי מאיר 5, אלעד")) named)).isSome := by decide
    exact fun named listed _ => steady_of_exact (called named listed)
  · have found : hasStreet (meirFirst.resolveWritten "רבי מאיר 5, אלעד") = true := by decide
    exact fun no => absurd (found.symm.trans no) (by decide)

end Samples

end Localities

/-- **Two streets give two answers** to a name that is one letter from both. -/
theorem twoStreets_differ : ¬ ∀ (g g' : Localities) (text : String), g.Same g' →
    @Localities.resolve Unicode.plain g text = @Localities.resolve Unicode.plain g' text := by
  intro claimed
  have same := claimed _ _ "רבי זאיר 5, אלעד" Localities.meirFirst_same
  revert same
  decide

end Callora
