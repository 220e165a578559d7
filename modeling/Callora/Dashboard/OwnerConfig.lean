/-
**What the owner changes of a business's configuration.**

The changes are kept as a patch over the business file: `set` writes one item into the patch, or takes it
out, and `merge` lays the patch over the file. Only the items of `EDITABLE` may be changed.

- `find_set`: the item that was set is found in the patch;
- `find_set_of_apart`: an item that neither contains it nor is part of it is left as it was;
- `editable_apart`: two editable items are never one part of the other.
-/
import Callora.Business.Values
import Callora.Text.Strings

set_option linter.unusedSectionVars false

namespace Callora.Dashboard

open Text

/-! ### The patch -/

/-- The fields of an object. -/
abbrev Fields := List (String × Json)

/-- `Map::insert`. -/
def insertField : Fields → String → Json → Fields
  | [], key, value => [(key, value)]
  | (k, v) :: rest, key, value =>
    if k = key then (key, value) :: rest else (k, v) :: insertField rest key value

/-- `Map::remove`, whatever the order of the rest. -/
def removeField (fields : Fields) (key : String) : Fields := fields.filter fun (k, _) => k ≠ key

/-- The fields of a child that is an object; another child is replaced by an empty one. -/
def childFields (fields : Fields) (key : String) : Fields :=
  match (Json.obj fields).get key with
  | some (.obj child) => child
  | _ => []

/-- `set_in`: sets the item or removes it, dropping objects left empty. -/
def setIn : Fields → List String → Option Json → Fields
  | fields, [], _ => fields
  | fields, [first], some v => insertField fields first v
  | fields, [first], none => removeField fields first
  | fields, first :: next :: rest, value =>
    if value.isNone ∧ ((Json.obj fields).get first).isNone then fields
    else
      let inner := setIn (childFields fields first) (next :: rest) value
      if inner.isEmpty then removeField (insertField fields first (.obj inner)) first
      else insertField fields first (.obj inner)

/-- The parts of a dotted path. -/
def parts (path : String) : List String := Text.split (· == '.') path

/-- `owner_config::set`. -/
def set (patch : Json) (path : String) (value : Option Json) : Json :=
  match patch with
  | .obj fields => .obj (setIn fields (parts path) value)
  | _ => .obj (setIn [] (parts path) value)

mutual

/-- `owner_config::merge`: objects merged key by key, anything else replaced. -/
def merge : Json → Json → Json
  | .obj base, .obj patch => .obj (mergeFields base patch)
  | _, patch => patch

/-- The fields of a patch, one after the other. -/
def mergeFields : Fields → Fields → Fields
  | base, [] => base
  | base, (k, v) :: patch =>
    mergeFields (insertField base k (merge (((Json.obj base).get k).getD .null) v)) patch

end

/-! ### The items -/

/-- What may be changed, as dotted paths into the business JSON; `*` is any one key. -/
def EDITABLE : List String :=
  ["agent.persona", "agent.rules", "agent.timeout_ms", "agent.filler_after_ms", "responses.*.variants",
   "lexicon.*", "meta_intents.*.exact", "meta_intents.*.phrases", "silence.reprompt_after_ms",
   "silence.max_reprompts", "silence.patient_after_ms", "silence.patient_reprompts", "voice.tempo",
   "understanding.second_hearing", "slots.passengers.max", "rules", "service_area", "stt_keyterms",
   "personal_places", "informal_places"]

/-- A path is an item of a pattern. -/
def fits (want path : List String) : Bool :=
  want.length = path.length ∧ (want.zip path).all fun (w, p) => p ≠ "" ∧ (w = "*" ∨ w = p)

/-- `owner_config::editable`. -/
def editable (path : String) : Bool := EDITABLE.any fun pattern => fits (parts pattern) (parts path)

/-- What a patch has for an item. -/
def find : Json → List String → Option Json
  | v, [] => some v
  | v, key :: rest => (v.get key).bind (find · rest)

/-! ### Setting an item -/

section Setting

variable {fields : Fields} {key other : String} {v : Json}

theorem get_insertField_self : (Json.obj (insertField fields key v)).get key = some v := by
  induction fields with
  | nil => simp [insertField, Json.get]
  | cons first rest ih =>
    obtain ⟨k, old⟩ := first
    by_cases same : k = key
    · simp [insertField, same, Json.get]
    · simpa [insertField, same, Json.get] using ih

theorem get_insertField_other (apart : other ≠ key) :
    (Json.obj (insertField fields key v)).get other = (Json.obj fields).get other := by
  induction fields with
  | nil => simp [insertField, Json.get, apart.symm]
  | cons first rest ih =>
    obtain ⟨k, old⟩ := first
    by_cases same : k = key
    · subst same
      simp [insertField, Json.get, apart.symm]
    · by_cases here : k = other
      · subst here
        simp [insertField, same, Json.get]
      · simpa [insertField, same, Json.get, here] using ih

theorem get_removeField_self : (Json.obj (removeField fields key)).get key = none := by
  simp [removeField, Json.get, List.find?_eq_none]

theorem get_removeField_other (apart : other ≠ key) :
    (Json.obj (removeField fields key)).get other = (Json.obj fields).get other := by
  induction fields with
  | nil => rfl
  | cons first rest ih =>
    obtain ⟨k, old⟩ := first
    by_cases same : k = key
    · subst same
      simpa [removeField, Json.get, apart.symm] using ih
    · by_cases here : k = other
      · subst here
        simp [removeField, same, Json.get]
      · simpa [removeField, same, Json.get, here] using ih

/-- What a child has is what its object has. -/
theorem find_childFields {next : String} {rest : List String} :
    find (.obj (childFields fields key)) (next :: rest) = find (.obj fields) (key :: next :: rest) := by
  have empty : ∀ child : Json, (∀ inner, child ≠ .obj inner) → child.get next = none := by
    intro child notObject
    cases child with
    | obj inner => exact absurd rfl (notObject inner)
    | _ => rfl
  show (Json.get _ next).bind _ = (Json.get _ key).bind _
  rw [childFields]
  split
  · rename_i child here
    rw [here]
    rfl
  · rename_i other here
    cases found : (Json.obj fields).get key with
    | none => rfl
    | some child =>
      show none = (child.get next).bind _
      rw [empty child fun inner same => here inner (found.trans (congrArg some same))]
      rfl

/-- **The item that was set is found.** -/
theorem find_setIn {path : List String} (named : path ≠ []) (value : Option Json) :
    find (.obj (setIn fields path value)) path = value := by
  fun_induction setIn fields path value with
  | case1 => exact absurd rfl named
  | case2 fields first v => simp [find, get_insertField_self]
  | case3 fields first => simp [find, get_removeField_self]
  | case4 fields first next rest value absent =>
    have none : value = none := Option.isNone_iff_eq_none.mp absent.1
    show (Json.get _ first).bind _ = value
    rw [Option.isNone_iff_eq_none.mp absent.2, none]
    rfl
  | case5 fields first next rest value present inner empty ih =>
    have found := ih (List.cons_ne_nil _ _)
    have nothing : inner = [] := List.isEmpty_iff.mp empty
    rw [show setIn (childFields fields first) (next :: rest) value = [] from nothing] at found
    show (Json.get _ first).bind _ = value
    rw [get_removeField_self, ← found]
    rfl
  | case6 fields first next rest value present inner filled ih =>
    show (Json.get _ first).bind _ = value
    rw [get_insertField_self]
    exact ih (List.cons_ne_nil _ _)

/-- **Another item is left as it was.** -/
theorem find_setIn_of_apart {path item : List String} (value : Option Json) (outside : ¬ path <+: item)
    (within : ¬ item <+: path) : find (.obj (setIn fields path value)) item = find
    (.obj fields) item := by
  fun_induction setIn fields path value generalizing item with
  | case1 => rfl
  | case2 fields first v =>
    cases item with
    | nil => exact absurd (List.nil_prefix) within
    | cons key item =>
      have apart : key ≠ first := by
        rintro rfl
        exact outside (by simp)
      simp [find, get_insertField_other apart]
  | case3 fields first =>
    cases item with
    | nil => exact absurd (List.nil_prefix) within
    | cons key item =>
      have apart : key ≠ first := by
        rintro rfl
        exact outside (by simp)
      simp [find, get_removeField_other apart]
  | case4 => rfl
  | case5 fields first next rest value present inner empty =>
    rename_i ih
    rcases item with _ | ⟨key, _ | ⟨key', item⟩⟩
    · exact absurd List.nil_prefix within
    · have apart : key ≠ first := by
        rintro rfl
        exact within (by simp)
      simp [find, get_removeField_other apart, get_insertField_other apart]
    · by_cases same : key = first
      · subst same
        have deeper := @ih (key' :: item) (fun pre => outside (List.cons_prefix_cons.mpr ⟨rfl, pre⟩))
          fun pre => within (List.cons_prefix_cons.mpr ⟨rfl, pre⟩)
        have nothing : setIn (childFields fields key) (next :: rest) value = [] :=
          List.isEmpty_iff.mp empty
        rw [← @find_childFields fields, ← deeper, nothing]
        show (Json.get _ key).bind _ = _
        rw [get_removeField_self]
        rfl
      · simp [find, get_removeField_other same, get_insertField_other same]
  | case6 fields first next rest value present inner filled =>
    rename_i ih
    rcases item with _ | ⟨key, _ | ⟨key', item⟩⟩
    · exact absurd List.nil_prefix within
    · have apart : key ≠ first := by
        rintro rfl
        exact within (by simp)
      simp [find, get_insertField_other apart]
    · by_cases same : key = first
      · subst same
        have deeper := @ih (key' :: item) (fun pre => outside (List.cons_prefix_cons.mpr ⟨rfl, pre⟩))
          fun pre => within (List.cons_prefix_cons.mpr ⟨rfl, pre⟩)
        rw [← @find_childFields fields, ← deeper]
        show (Json.get _ key).bind _ = _
        rw [get_insertField_self]
        rfl
      · simp [find, get_insertField_other same]

end Setting

/-- What is set is set in an object that has what the patch had. -/
theorem set_eq (patch : Json) (path : String) (value : Option Json) :
    ∃ fields, set patch path value = .obj (setIn fields (parts path) value) ∧
      ∀ key item, find (.obj fields) (key :: item) = find patch (key :: item) := by
  cases patch with
  | obj fields => exact ⟨fields, rfl, fun _ _ => rfl⟩
  | _ => exact ⟨[], rfl, fun _ _ => rfl⟩

/-! ### Editable items -/

/-- The parts of the patterns. -/
theorem patterns : EDITABLE.map parts =
    [["agent", "persona"], ["agent", "rules"], ["agent", "timeout_ms"], ["agent", "filler_after_ms"],
     ["responses", "*", "variants"], ["lexicon", "*"], ["meta_intents", "*", "exact"],
     ["meta_intents", "*", "phrases"], ["silence", "reprompt_after_ms"], ["silence", "max_reprompts"],
     ["silence", "patient_after_ms"], ["silence", "patient_reprompts"], ["voice", "tempo"],
     ["understanding", "second_hearing"], ["slots", "passengers", "max"], ["rules"], ["service_area"],
     ["stt_keyterms"], ["personal_places"], ["informal_places"]] := by
  decide +kernel

/-- The first part of an item says how many parts it has. -/
def arity (first : String) : ℕ :=
  if first ∈ ["responses", "meta_intents", "slots"] then 3
  else if first ∈ ["rules", "service_area", "stt_keyterms", "personal_places", "informal_places"] then 1
  else 2

/-- What an item of a pattern has as its first part, and how many. -/
theorem fits_cons {first : String} {rest path : List String} (named : first ≠ "*")
    (fit : fits (first :: rest) path) : ∃ more, path = first :: more ∧
    path.length = (first :: rest).length := by
  have both : (first :: rest).length = path.length ∧
      ((first :: rest).zip path).all fun (w, p) => p ≠ "" ∧ (w = "*" ∨ w = p) := by
    simpa only [fits, Bool.decide_and, Bool.and_eq_true, decide_eq_true_eq] using fit
  cases path with
  | nil => cases both.1
  | cons key more =>
    have head : first = "*" ∨ first = key := by
      have all := both.2
      rw [List.zip_cons_cons, List.all_cons, Bool.and_eq_true, decide_eq_true_eq] at all
      exact all.1.2
    obtain rfl := head.resolve_left named
    exact ⟨more, rfl, both.1.symm⟩

theorem length_of_editable {path : String} (may : editable path) :
    ∃ first rest, parts path = first :: rest ∧ (parts path).length = arity first := by
  obtain ⟨pattern, listed, fit⟩ := List.any_eq_true.mp may
  have known : parts pattern ∈ EDITABLE.map parts := List.mem_map_of_mem listed
  have shapes : ∀ want ∈ EDITABLE.map parts, ∃ first rest, want = first :: rest ∧ first ≠ "*" ∧
      (first :: rest).length = arity first := by
    rw [patterns]
    simp [arity]
  obtain ⟨first, rest, shape, named, long⟩ := shapes _ known
  rw [shape] at fit
  obtain ⟨more, same, length⟩ := fits_cons named fit
  exact ⟨first, more, same, length.trans long⟩

/-- **Of two editable items neither is part of the other.** -/
theorem editable_apart {path item : String} (may : editable path) (may' : editable item)
    (differ : parts path ≠ parts item) : ¬ parts path <+: parts item := by
  intro part
  obtain ⟨first, rest, shape, length⟩ := length_of_editable may
  obtain ⟨first', rest', shape', length'⟩ := length_of_editable may'
  have same : first = first' := by
    rw [shape, shape'] at part
    exact (List.cons_prefix_cons.mp part).1
  exact differ (part.eq_of_length (by rw [length, length', same]))

/-- **The item that was set is what the patch has for it.** -/
theorem find_set {path : String} (may : editable path) (patch : Json) (value : Option Json) :
    find (set patch path value) (parts path) = value := by
  obtain ⟨fields, same, -⟩ := set_eq patch path value
  obtain ⟨first, rest, shape, -⟩ := length_of_editable may
  rw [same]
  exact find_setIn (shape ▸ List.cons_ne_nil first rest) value

/-- **Another item is what it was.** -/
theorem find_set_other {path item : String} (may : editable path) (may' : editable item)
    (differ : parts path ≠ parts item) (patch : Json) (value : Option Json) :
    find (set patch path value) (parts item) = find patch (parts item) := by
  obtain ⟨fields, same, before⟩ := set_eq patch path value
  obtain ⟨first, rest, shape, -⟩ := length_of_editable may'
  rw [same, find_setIn_of_apart value (editable_apart may may' differ)
    (editable_apart may' may differ.symm),
    shape, before]

end Callora.Dashboard
