/-
**The owner's patch is a map from items to values.**

After any changes the patch is a tree (`Tree`): its keys are distinct, no object in it but itself is
empty, and every branch ends at an editable item, whose value is no object (`Branches`). Setting and
resetting keep it so (`Tree.setIn`), whatever their order.

- `find_merge_item`, `find_merge_rest`: laid over a configuration, a tree gives its items, and
  leaves the rest;
- `walk_branches`: what `changed` lists of a tree are its items, each once;
- `patched_items`: the tree's items are those whose last change set a value.
-/
import Callora.Dashboard.OwnerConfig
import Callora.Text.Spans

set_option linter.unusedSectionVars false

namespace Callora.Dashboard

open Text

/-! ### The paths of a patch -/

/-- `Value::is_object`. -/
def isObject : Json → Bool
  | .obj _ => true
  | _ => false

mutual

/-- `owner_config::walk`: what it pushes. -/
def walk : Json → String → List String
  | .obj fields, at' => if at' ≠ "" ∧ editable at' then [at'] else walkFields fields at'
  | _, at' => if at' ≠ "" ∧ editable at' then [at'] else []

/-- The children of an object, one after the other. -/
def walkFields : Fields → String → List String
  | [], _ => []
  | (k, child) :: rest, at' =>
    walk child (if at' = "" then k else at' ++ "." ++ k) ++ walkFields rest at'

end

/-- `owner_config::changed`: the dotted paths the patch changes, each down to an editable item. -/
def changed (patch : Json) : List String := walk patch ""

section Parts

variable {s k : String}

/-- The pieces with the separator between them are the text. -/
theorem intercalate_splitChars (sep : Char) (cs acc : List Char) :
    [sep].intercalate (splitChars (· == sep) cs acc) = acc.reverse ++ cs := by
  induction cs generalizing acc with
  | nil => simp [splitChars]
  | cons c cs ih =>
    by_cases ends : c = sep
    · subst ends
      have some' : splitChars (· == c) cs [] ≠ [] := splitChars_ne_nil cs []
      obtain ⟨first, more, pieces⟩ := List.exists_cons_of_ne_nil some'
      have rest := ih []
      rw [pieces] at rest
      rw [splitChars, if_pos (by simp), pieces, List.intercalate_cons_cons, rest]
      simp
    · rw [splitChars, if_neg (by simpa using ends), ih]
      simp

/-- A path is known by its parts. -/
theorem parts_inj {s t : String} (same : parts s = parts t) : s = t := by
  have pieces : splitChars (· == '.') s.toList [] = splitChars (· == '.') t.toList [] :=
    List.map_injective_iff.mpr (fun a b eq => by simpa using congrArg String.toList eq) same
  have texts := congrArg (['.'].intercalate) pieces
  exact String.toList_inj.mp (by simpa [intercalate_splitChars] using texts)

/-- A part has no dot. -/
theorem no_dot (part : k ∈ parts s) : ∀ c ∈ k.toList, (c == '.') = false := by
  obtain ⟨piece, listed, rfl⟩ := List.mem_map.mp part
  simpa using splitChars_pieces s.toList [] (by simp) piece listed

theorem parts_of_no_dot (clean : ∀ c ∈ k.toList, (c == '.') = false) : parts k = [k] := by
  simp [parts, split, splitChars_word _ _ clean]

theorem parts_append (s : String) (clean : ∀ c ∈ k.toList, (c == '.') = false) :
    parts (s ++ "." ++ k) = parts s ++ [k] := by
  have dotted : (s ++ "." ++ k).toList = s.toList ++ '.' :: k.toList := by simp
  rw [parts, split, dotted, splitChars_append _ _ _ (by rfl), splitChars_word _ _ clean]
  simp [parts, split]

end Parts

/-! ### The tree of a patch -/

/-- Every branch of a value ends at an item, whose value is no object; its objects are not empty,
and their keys are distinct. -/
inductive Branches : (List String → Prop) → Json → Prop
  | leaf {item : List String → Prop} {v : Json} (ends : item []) (whole : isObject v = false) :
      Branches item v
  | node {item : List String → Prop} {fields : Fields} (some' : fields ≠ [])
    (once : (fields.map Prod.fst).Nodup)
      (branches : ∀ field ∈ fields, Branches (fun rest => item (field.1 :: rest)) field.2) :
      Branches item (.obj fields)

/-- The fields of a patch whose branches end at items; it may have none. -/
structure Tree (item : List String → Prop) (fields : Fields) : Prop where
  once : (fields.map Prod.fst).Nodup
  branches : ∀ field ∈ fields, Branches (fun rest => item (field.1 :: rest)) field.2

section Trees

variable {item : List String → Prop} {fields : Fields} {key : String} {v : Json}

theorem mem_of_get (found : (Json.obj fields).get key = some v) : (key, v) ∈ fields := by
  obtain ⟨⟨k, w⟩, held, rfl⟩ := Option.map_eq_some_iff.mp found
  have same : k = key := by simpa using List.find?_some held
  exact same ▸ List.mem_of_find?_eq_some held

theorem get_of_mem (once : (fields.map Prod.fst).Nodup) (listed : (key, v) ∈ fields) :
    (Json.obj fields).get key = some v := by
  induction fields with
  | nil => cases listed
  | cons first rest ih =>
    obtain ⟨own, apart⟩ := List.nodup_cons.mp once
    rcases List.mem_cons.mp listed with rfl | later
    · simp [Json.get]
    · have differ : first.1 ≠ key := by
        rintro rfl
        exact own (List.mem_map.mpr ⟨_, later, rfl⟩)
      simpa [Json.get, differ] using ih apart later

/-- The keys after an insertion. -/
theorem keys_insertField : (insertField fields key v).map Prod.fst =
    if key ∈ fields.map Prod.fst then fields.map Prod.fst else fields.map Prod.fst ++ [key] := by
  induction fields with
  | nil => rfl
  | cons first rest ih =>
    obtain ⟨k, old⟩ := first
    by_cases same : k = key
    · simp [insertField, same]
    · rw [insertField, if_neg same, List.map_cons, List.map_cons, ih]
      by_cases later : key ∈ rest.map Prod.fst
      · rw [if_pos later, if_pos (List.mem_cons_of_mem _ later)]
      · rw [if_neg later, if_neg fun listed => (List.mem_cons.mp listed).elim (same ·.symm) later]
        rfl

theorem mem_insertField {field : String × Json} (listed : field ∈ insertField fields key v) :
    field = (key, v) ∨ field ∈ fields := by
  induction fields with
  | nil => exact .inl (List.mem_singleton.mp listed)
  | cons first rest ih =>
    obtain ⟨k, old⟩ := first
    rw [insertField] at listed
    split at listed
    · exact (List.mem_cons.mp listed).imp_right (List.mem_cons_of_mem _)
    · rcases List.mem_cons.mp listed with rfl | later
      · exact .inr List.mem_cons_self
      · exact (ih later).imp_right (List.mem_cons_of_mem _)

theorem removeField_insertField : removeField
    (insertField fields key v) key = removeField fields key := by
  induction fields with
  | nil => simp [insertField, removeField]
  | cons first rest ih =>
    obtain ⟨k, old⟩ := first
    by_cases same : k = key
    · simp [insertField, removeField, same]
    · simpa [insertField, removeField, same] using ih

theorem Tree.nil : Tree item [] := ⟨List.nodup_nil, fun _ listed => absurd listed List.not_mem_nil⟩

theorem Tree.insert (tree : Tree item fields) (branch : Branches (fun rest => item (key :: rest)) v) :
    Tree item (insertField fields key v) where
  once := by
    rw [keys_insertField]
    split
    · exact tree.once
    · next fresh =>
      refine tree.once.append (List.nodup_singleton key) fun k listed here => fresh ?_
      exact List.mem_singleton.mp here ▸ listed
  branches field listed := by
    rcases mem_insertField listed with rfl | before
    · exact branch
    · exact tree.branches field before

theorem Tree.remove (tree : Tree item fields) (key : String) : Tree item (removeField fields key) where
  once := tree.once.sublist (List.filter_sublist.map _)
  branches field listed := tree.branches field (List.mem_filter.mp listed).1

/-- A child's fields are a tree of what follows its key. -/
theorem Tree.child (tree : Tree item fields) (key : String) :
    Tree (fun rest => item (key :: rest)) (childFields fields key) := by
  rw [childFields]
  split
  · next child found =>
    cases tree.branches _ (mem_of_get found) with
    | leaf ends whole => cases whole
    | node some' once branches => exact ⟨once, branches⟩
  · exact .nil

/-- A tree that is not empty stands at a branch. -/
theorem Tree.branch (tree : Tree item fields) (some' : fields ≠ []) : Branches item (.obj fields) :=
  .node some' tree.once tree.branches

/-- **Setting an item, or resetting it, keeps the tree.** -/
theorem Tree.setIn (tree : Tree item fields) {path : List String} {value : Option Json} (ends : item path)
    (whole : ∀ v, value = some v → isObject v = false) : Tree item (setIn fields path value) := by
  fun_induction Dashboard.setIn fields path value generalizing item with
  | case1 => exact tree
  | case2 fields first v => exact tree.insert (.leaf ends (whole v rfl))
  | case3 fields first => exact tree.remove first
  | case4 => exact tree
  | case5 fields first next rest value present inner empty =>
    rw [removeField_insertField]
    exact tree.remove first
  | case6 fields first next rest value present inner filled =>
    rename_i ih
    have deeper := ih (tree.child first) ends whole
    exact tree.insert (deeper.branch fun nothing => filled (List.isEmpty_iff.mpr nothing))

/-- What is found in a branch, and is no object, is at an item. -/
theorem Branches.item_of_find (branches : Branches item v) {path : List String} {w : Json}
    (found : find v path = some w) (whole : isObject w = false) : item path := by
  induction branches generalizing path with
  | leaf ends leaf =>
    cases path with
    | nil => exact ends
    | cons key path =>
      rename_i v
      have nothing : v.get key = none := by
        cases v with
        | obj => cases leaf
        | _ => rfl
      rw [find, nothing] at found
      cases found
  | node some' once branches ih =>
    cases path with
    | nil =>
      cases found
      cases whole
    | cons key path =>
      obtain ⟨child, here, below⟩ := Option.bind_eq_some_iff.mp found
      exact ih _ (mem_of_get here) below

/-- No branch is empty. -/
theorem Branches.not_empty (branches : Branches item v) (path : List String) :
    find v path ≠ some (.obj []) := by
  induction branches generalizing path with
  | leaf ends leaf =>
    rename_i v
    cases v with
    | obj => cases leaf
    | _ => cases path <;> exact fun found => nomatch found
  | node some' once branches ih =>
    cases path with
    | nil =>
      intro found
      cases found
      exact some' rfl
    | cons key path =>
      intro found
      obtain ⟨child, here, below⟩ := Option.bind_eq_some_iff.mp found
      exact ih _ (mem_of_get here) path below

/-- Every branch has an item. -/
theorem Branches.exists_item (branches : Branches item v) :
    ∃ path w, find v path = some w ∧ isObject w = false ∧ item path := by
  induction branches with
  | leaf ends whole => exact ⟨[], _, rfl, whole, ends⟩
  | node some' once branches ih =>
    rename_i fields
    obtain ⟨⟨key, child⟩, more, rfl⟩ := List.exists_cons_of_ne_nil some'
    obtain ⟨path, w, found, whole, ends⟩ := ih (key, child) List.mem_cons_self
    refine ⟨key :: path, w, ?_, whole, ends⟩
    rw [find, get_of_mem once List.mem_cons_self]
    exact found

end Trees

/-! ### The patch laid over a configuration -/

section Laid

variable {item : List String → Prop} {fields base : Fields} {v w b : Json}

/-- What a key has when a patch with distinct keys is laid over an object. -/
theorem get_mergeFields (once : (fields.map Prod.fst).Nodup) (base : Fields) (key : String) :
    (Json.obj (mergeFields base fields)).get key =
      match (Json.obj fields).get key with
      | none => (Json.obj base).get key
      | some v => some (merge (((Json.obj base).get key).getD .null) v) := by
  induction fields generalizing base with
  | nil => rfl
  | cons first rest ih =>
    obtain ⟨k, v⟩ := first
    obtain ⟨own, apart⟩ := List.nodup_cons.mp once
    rw [mergeFields, ih apart]
    by_cases same : k = key
    · subst same
      have nothing : (Json.obj rest).get k = none := by
        cases found : (Json.obj rest).get k with
        | none => rfl
        | some v => exact absurd (List.mem_map_of_mem (f := Prod.fst) (mem_of_get found)) own
      rw [nothing, get_insertField_self]
      simp [Json.get]
    · have here : (Json.obj ((k, v) :: rest)).get key = (Json.obj rest).get key := by
        simp [Json.get, same]
      rw [here, get_insertField_other (Ne.symm same)]

/-- What a key has when a patch is laid over any value. -/
theorem get_merge (once : (fields.map Prod.fst).Nodup) (b : Json) (key : String) :
    (merge b (.obj fields)).get key =
      match (Json.obj fields).get key with
      | none => b.get key
      | some v => some (merge ((b.get key).getD .null) v) := by
  have replaced : (Json.obj fields).get key =
      match (Json.obj fields).get key with
      | none => none
      | some v => some (merge (none.getD .null) v) := by
    cases (Json.obj fields).get key with
    | none => rfl
    | some v => cases v <;> rfl
  cases b with
  | obj base => exact get_mergeFields once base key
  | _ => exact replaced

/-- **An item of the patch is what the configuration has for it**, laid under the patch. -/
theorem find_merge_item (branches : Branches item v) {path : List String} (found : find v path = some w)
    (whole : isObject w = false) (b : Json) : find (merge b v) path = some w := by
  induction branches generalizing path b with
  | leaf ends leaf =>
    rename_i v
    have over' : merge b v = v := by
      cases v with
      | obj => cases leaf
      | _ => cases b <;> rfl
    rw [over', found]
  | node some' once branches ih =>
    cases path with
    | nil =>
      cases found
      cases whole
    | cons key path =>
      obtain ⟨child, here, below⟩ := Option.bind_eq_some_iff.mp found
      rw [find, get_merge once b key, here]
      exact ih _ (mem_of_get here) below _

/-- **The rest is as it was**: what neither contains an item of the patch nor is part of one. -/
theorem find_merge_rest (branches : Branches item v) {q : List String} (b : Json)
    (away : ∀ path w, find v path = some w → isObject w = false → ¬ path <+: q ∧ ¬ q <+: path) :
    find (merge b v) q = find b q := by
  induction branches generalizing q b with
  | leaf ends whole => exact absurd List.nil_prefix (away [] _ rfl whole).1
  | node some' once branches ih =>
    rename_i fields
    cases q with
    | nil =>
      obtain ⟨path, w, found, whole, -⟩ := (Branches.node some' once branches).exists_item
      exact absurd List.nil_prefix (away path w found whole).2
    | cons key q =>
      rw [find, find, get_merge once b key]
      cases here : (Json.obj fields).get key with
      | none => rfl
      | some child =>
        have listed := mem_of_get here
        have deeper : ∀ path w, find child path = some w → find (.obj fields) (key :: path) = some w := by
          intro path w found
          rw [find, here]
          exact found
        have below : find (merge ((b.get key).getD .null) child) q = find ((b.get key).getD .null) q := by
          refine ih _ listed _ fun path w found whole => ?_
          obtain ⟨outside, within⟩ := away (key :: path) w (deeper path w found) whole
          exact ⟨fun part => outside (List.cons_prefix_cons.mpr ⟨rfl, part⟩),
            fun part => within (List.cons_prefix_cons.mpr ⟨rfl, part⟩)⟩
        show find (merge ((b.get key).getD .null) child) q = _
        rw [below]
        cases b.get key with
        | some old => rfl
        | none =>
          cases q with
          | cons => rfl
          | nil =>
            obtain ⟨path, w, found, whole, -⟩ := (branches _ listed).exists_item
            exact absurd (List.cons_prefix_cons.mpr ⟨rfl, List.nil_prefix⟩)
              (away (key :: path) w (deeper path w found) whole).2

end Laid

/-! ### What is listed as changed -/

/-- The parts of an editable item. -/
def IsItem (q : List String) : Prop := ∃ path, editable path ∧ parts path = q

theorem IsItem.eq_of_prefix {p q : List String} (item : IsItem p) (item' : IsItem q)
    (part : p <+: q) : p = q := by
  obtain ⟨path, may, rfl⟩ := item
  obtain ⟨path', may', rfl⟩ := item'
  by_contra differ
  exact editable_apart may may' differ part

/-- A part of an item is not empty. -/
theorem IsItem.ne_empty {q : List String} (item : IsItem q) {k : String} (listed : k ∈ q) : k ≠ "" := by
  obtain ⟨path, may, rfl⟩ := item
  obtain ⟨pattern, -, fit⟩ := List.any_eq_true.mp may
  have both : (parts pattern).length = (parts path).length ∧
      ((parts pattern).zip (parts path)).all fun pair => pair.2 ≠ "" ∧
      (pair.1 = "*" ∨ pair.1 = pair.2) := by
    simpa only [fits, Bool.decide_and, Bool.and_eq_true, decide_eq_true_eq] using fit
  rw [← List.map_snd_zip both.1.ge] at listed
  obtain ⟨pair, held, rfl⟩ := List.mem_map.mp listed
  exact (of_decide_eq_true (List.all_eq_true.mp both.2 pair held)).1

theorem IsItem.no_dot {q : List String} (item : IsItem q) {k : String} (listed : k ∈ q) :
    ∀ c ∈ k.toList, (c == '.') = false := by
  obtain ⟨path, -, rfl⟩ := item
  exact Dashboard.no_dot listed

/-- The paths are those of a value's items below a path, each once. -/
def Lists (paths : List String) (q : List String) (v : Json) : Prop :=
  paths.Nodup ∧ ∀ path, path ∈ paths ↔
    ∃ rest w, parts path = q ++ rest ∧ find v rest = some w ∧ isObject w = false

section Listed

variable {fields : Fields} {v : Json}

theorem walkFields_eq (fields : Fields) (at' : String) : walkFields fields at' =
    fields.flatMap fun field => walk field.2 (if at' = "" then field.1 else at' ++ "." ++ field.1) := by
  induction fields with
  | nil => rfl
  | cons first rest ih => rw [walkFields, ih, List.flatMap_cons]

/-- An object's items are those of its fields. -/
theorem lists_fields {q : List String} (step : String → String) (once : (fields.map Prod.fst).Nodup)
    (each : ∀ field ∈ fields, Lists (walk field.2 (step field.1)) (q ++ [field.1]) field.2) :
    Lists (fields.flatMap fun field => walk field.2 (step field.1)) q (.obj fields) := by
  refine ⟨List.nodup_flatMap.mpr ⟨fun field listed => (each field listed).1, ?_⟩, fun path => ?_⟩
  · refine (List.pairwise_map.mp once).imp_of_mem fun {a b} heldA heldB differ path inA inB => differ ?_
    obtain ⟨rest, -, first, -⟩ := ((each a heldA).2 path).mp inA
    obtain ⟨rest', -, second, -⟩ := ((each b heldB).2 path).mp inB
    have same : q ++ ([a.1] ++ rest) = q ++ ([b.1] ++ rest') := by
      rw [← List.append_assoc, ← List.append_assoc, ← first, second]
    exact (List.cons.inj (List.append_cancel_left same)).1
  · rw [List.mem_flatMap]
    constructor
    · rintro ⟨⟨key, child⟩, listed, walked⟩
      obtain ⟨rest, w, same, found, whole⟩ := ((each _ listed).2 path).mp walked
      refine ⟨key :: rest, w, by simpa using same, ?_, whole⟩
      rw [find, get_of_mem once listed]
      exact found
    · rintro ⟨_ | ⟨key, rest⟩, w, same, found, whole⟩
      · cases found
        cases whole
      · obtain ⟨child, here, below⟩ := Option.bind_eq_some_iff.mp found
        have listed := mem_of_get here
        exact ⟨_, listed, ((each _ listed).2 path).mpr ⟨rest, w, by simpa using same, below, whole⟩⟩

/-- **What a branch lists are its items.** -/
theorem walk_branches {item : List String → Prop} (branches : Branches item v) (at' : String)
    (named : at' ≠ "")
    (items : ∀ rest, item rest → IsItem (parts at' ++ rest)) : Lists (walk v at') (parts at') v := by
  induction branches generalizing at' with
  | leaf ends whole =>
    rename_i v
    obtain ⟨path, may, same⟩ := items [] ends
    obtain rfl : path = at' := parts_inj (by simpa using same)
    have walked : walk v path = [path] := by
      cases v <;> simp [walk, named, may]
    have bare : ∀ rest w, find v rest = some w → rest = [] := by
      rintro (_ | ⟨key, rest⟩) w found
      · rfl
      · cases v with
        | obj => cases whole
        | _ => cases found
    rw [walked]
    refine ⟨List.nodup_singleton _, fun other => ⟨fun listed => ?_, ?_⟩⟩
    · obtain rfl := List.mem_singleton.mp listed
      exact ⟨[], v, by simp, rfl, whole⟩
    · rintro ⟨rest, w, same', found, -⟩
      obtain rfl := bare rest w found
      exact List.mem_singleton.mpr (parts_inj (by simpa using same'))
  | node some' once branches ih =>
    rename_i item fields
    have above : ¬ editable at' := by
      intro may
      obtain ⟨path, w, found, whole, ends⟩ := (Branches.node some' once branches).exists_item
      have same := IsItem.eq_of_prefix ⟨at', may, rfl⟩ (items path ends) (List.prefix_append _ _)
      obtain rfl : path = [] := by simpa using same
      cases found
      cases whole
    have walked : walk (.obj fields) at' = fields.flatMap fun field =>
      walk field.2 (at' ++ "." ++ field.1) := by
      rw [walk, if_neg fun both => above both.2, walkFields_eq]
      simp [named]
    rw [walked]
    refine lists_fields (fun k => at' ++ "." ++ k) once fun field listed => ?_
    obtain ⟨path, -, -, -, ends⟩ := (branches field listed).exists_item
    have dotted : parts (at' ++ "." ++ field.1) = parts at' ++ [field.1] :=
      parts_append at' ((items _ ends).no_dot (List.mem_append_right _ List.mem_cons_self))
    rw [← dotted]
    refine ih field listed _ (by simp) fun rest more => ?_
    rw [dotted, List.append_assoc]
    exact items _ more

/-- **What `changed` lists of a tree are its items, each once.** -/
theorem lists_changed (tree : Tree IsItem fields) : Lists (changed (.obj fields)) [] (.obj fields) := by
  have walked : changed (.obj fields) = fields.flatMap fun field => walk field.2 field.1 := by
    rw [changed, walk, if_neg fun both => both.1 rfl, walkFields_eq]
    simp
  rw [walked]
  refine lists_fields id tree.once fun field listed => ?_
  obtain ⟨path, -, -, -, ends⟩ := (tree.branches field listed).exists_item
  have alone : parts field.1 = [field.1] := parts_of_no_dot (ends.no_dot List.mem_cons_self)
  have below := walk_branches (tree.branches field listed) field.1 (ends.ne_empty List.mem_cons_self)
    fun rest more => by rw [alone]; exact more
  rwa [alone] at below

end Listed

/-! ### Every sequence of changes -/

/-- A change of an editable item: a value that is no object and not null, or back to the file's. -/
structure Change where
  path : String
  value : Option Json
  may : editable path
  whole : ∀ v, value = some v → isObject v = false ∧ v ≠ .null

/-- The patch after the changes, from the empty one. -/
def patched (changes : List Change) : Json :=
  changes.foldl (fun patch c => set patch c.path c.value) (.obj [])

/-- What the last change of a path set it to, if it set a value. -/
def last (changes : List Change) (path : String) : Option Json :=
  changes.foldl (fun v c => if c.path = path then c.value else v) none

section Changes

variable (changes : List Change)

/-- **The patch is a tree, whatever the changes.** -/
theorem patched_tree : ∃ fields, patched changes = .obj fields ∧ Tree IsItem fields := by
  induction changes using List.reverseRecOn with
  | nil => exact ⟨[], rfl, .nil⟩
  | append_singleton changes c ih =>
    obtain ⟨fields, same, tree⟩ := ih
    refine ⟨setIn fields (parts c.path) c.value, ?_,
      tree.setIn ⟨c.path, c.may, rfl⟩ fun v set => (c.whole v set).1⟩
    rw [patched, List.foldl_concat, ← patched, same]
    rfl

/-- The tree's items are those whose last change set a value. -/
theorem find_patched {path : String} (may : editable path) :
    find (patched changes) (parts path) = last changes path := by
  induction changes using List.reverseRecOn with
  | nil =>
    obtain ⟨first, rest, shape, -⟩ := length_of_editable may
    rw [shape]
    rfl
  | append_singleton changes c ih =>
    rw [patched, last, List.foldl_concat, List.foldl_concat, ← patched, ← last]
    by_cases same : c.path = path
    · subst same
      rw [if_pos rfl]
      exact find_set c.may _ _
    · rw [if_neg same, find_set_other c.may may (fun eq => same (parts_inj eq)), ih]

theorem last_may {path : String} {v : Json} (set : last changes path = some v) :
    editable path ∧ isObject v = false := by
  induction changes using List.reverseRecOn with
  | nil => cases set
  | append_singleton changes c ih =>
    rw [last, List.foldl_concat, ← last] at set
    split at set
    · next same => exact ⟨same ▸ c.may, (c.whole v set).1⟩
    · exact ih set

/-- What is found in a tree, and is no object, is at an item. -/
theorem Tree.item_of_find {item : List String → Prop} {fields : Fields} (tree : Tree item fields)
    {path : List String} {w : Json} (found : find (.obj fields) path = some w)
    (whole : isObject w = false) :
    item path := by
  refine (tree.branch ?_).item_of_find found whole
  rintro rfl
  cases path with
  | nil =>
    cases found
    cases whole
  | cons key path => cases found

/-- The patch's items are the paths whose last change set a value. -/
theorem patched_items {path : String} : (last changes path).isSome ↔
    ∃ w, find (patched changes) (parts path) = some w ∧ isObject w = false := by
  constructor
  · intro set
    obtain ⟨v, set⟩ := Option.isSome_iff_exists.mp set
    obtain ⟨may, whole⟩ := last_may changes set
    exact ⟨v, (find_patched changes may).trans set, whole⟩
  · rintro ⟨w, found, whole⟩
    obtain ⟨fields, same, tree⟩ := patched_tree changes
    obtain ⟨item, may, named⟩ := tree.item_of_find (same ▸ found) whole
    obtain rfl := parts_inj named
    rw [← find_patched changes may, found]
    rfl

/-- **The owner's patch is a map from items to values.** After any changes: laid over a
configuration it gives every path last set its value and leaves everything else; it lists exactly
the paths last set, each once; no object in it is empty; and with every path reset it is empty. -/
theorem patch_is_map (base : Fields) (changes : List Change) :
    (∀ path v, last changes path = some v →
      find (merge (.obj base) (patched changes)) (parts path) = some v) ∧
      (∀ q, (∀ path, (last changes path).isSome → ¬ parts path <+: q ∧ ¬ q <+: parts path) →
        find (merge (.obj base) (patched changes)) q = find (.obj base) q) ∧
      (changed (patched changes)).Nodup ∧
      (∀ path, path ∈ changed (patched changes) ↔ (last changes path).isSome) ∧
      (∀ q, q ≠ [] → find (patched changes) q ≠ some (.obj [])) ∧
      ((∀ path, last changes path = none) → patched changes = .obj []) := by
  obtain ⟨fields, same, tree⟩ := patched_tree changes
  have items := @patched_items changes
  rw [same] at items ⊢
  have listed : Lists (changed (.obj fields)) [] (.obj fields) := lists_changed tree
  refine ⟨fun path v set => ?_, fun q away => ?_, listed.1, fun path => ?_, fun q below found => ?_,
    fun reset => ?_⟩
  · obtain ⟨may, whole⟩ := last_may changes set
    have found : find (.obj fields) (parts path) = some v := by rw [← same, find_patched changes may, set]
    by_cases none' : fields = []
    · subst none'
      obtain ⟨first, rest, shape, -⟩ := length_of_editable may
      rw [shape] at found
      cases found
    · exact find_merge_item (tree.branch none') found whole _
  · by_cases none' : fields = []
    · subst none'
      rfl
    · refine find_merge_rest (tree.branch none') _ fun p w found whole => ?_
      obtain ⟨path, may, rfl⟩ := tree.item_of_find found whole
      exact away path (items.mpr ⟨w, found, whole⟩)
  · rw [listed.2, items]
    simp
  · by_cases none' : fields = []
    · subst none'
      obtain ⟨key, rest, rfl⟩ := List.exists_cons_of_ne_nil below
      cases found
    · exact (tree.branch none').not_empty q found
  · by_contra some'
    have filled : fields ≠ [] := fun nothing => some' (by rw [nothing])
    obtain ⟨p, w, found, whole, path, may, rfl⟩ := (tree.branch filled).exists_item
    have set := items.mpr ⟨w, found, whole⟩
    rw [reset path] at set
    cases set

end Changes

end Callora.Dashboard
