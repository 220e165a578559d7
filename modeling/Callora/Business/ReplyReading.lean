/-
**The streamed reading of a reply, and the parsed one.**

`SayStream` reads a reply before it is complete; `serde_json` parses it when it is. The two agree
(`Agrees`) where the streamed reader finds the keys it looks for: no value ahead of a key is taken
for it (`Located`), and what it reads there is what is written (`Decodable`). For each value one
lemma says when it is read right (`action_agrees_iff`, `fields_agrees_iff`, `asks_agrees_iff`,
`phrase_agrees_iff`, `say_agrees_iff`); `streamed_agrees_iff` is all of them. A field whose value is
the name of a later key is not read (`namedField_missed`).
-/
import Callora.Business.ReplyText

set_option linter.unusedSectionVars false

namespace Callora

open Callora.Text

section Readers

open SayStream (letters find rfind fromStrVec fieldOf)

/-- **A reader of JSON on the texts of a reply**: it gives what they say, and nothing for an array that is
cut short. -/
structure Reads (fromStr : List Char → Option Json) (r : ReplyText) : Prop where
  whole : fromStr r.text = some r.value
  fields : fromStr r.fieldsText = some (r.fields.value FieldText.toJson)
  asks : fromStr r.asksText = some (r.asks.value fun s => .str s.value)
  fields_cut : ∀ part, part <+: r.fieldsText → part ≠ r.fieldsText → fromStr part = none
  asks_cut : ∀ part, part <+: r.asksText → part ≠ r.asksText → fromStr part = none

/-- What follows the first occurrence. -/
def behind (p s : List Char) : Option (List Char) := (splitFirst p s).map Prod.snd

theorem behind_eq_some {p s after : List Char} (found : behind p s = some after) :
    ∃ before, splitFirst p s = some (before, after) := by
  obtain ⟨⟨before, after'⟩, first, same⟩ := Option.map_eq_some_iff.mp found
  obtain rfl : after' = after := same
  exact ⟨before, first⟩

theorem gap_absent (g : Gap) {c : Char} (other : c ∉ [' ', '\t', '\n', '\r']) : c ∉ g.1 :=
  fun listed => other (g.2 c listed)

variable {r : ReplyText} {fromStr : List Char → Option Json}

theorem behind_lead (r : ReplyText) (k : ReplyKey) :
    behind (inQuotes k.name) r.text = behind (inQuotes k.name) r.fromAction := by
  have opening :=
    splitFirst_skip (u := []) (v := r.fromAction)
      (not_infix_of_outside (by simp) (inQuotes_ne_nil k.name))
    (name_outside k '{' (by simp)) (inQuotes_ne_nil k.name)
  rw [List.nil_append] at opening
  rw [behind, ReplyText.text, splitFirst_pass (gap_outside _ k) (inQuotes_ne_nil _), opening, behind,
    Option.map_map, Option.map_map]
  rfl

theorem behind_entry {k other : ReplyKey} (different : k ≠ other) {value : List Char}
    (absent : ¬ inQuotes k.name <:+: value) (rest : List Char) :
    behind (inQuotes k.name) (r.entry other value ++ ',' :: rest) = behind (inQuotes k.name) rest := by
  rw [behind, ReplyText.entry, splitFirst_member different absent, Option.map_map]
  rfl

theorem behind_entry_self (k : ReplyKey) (value rest : List Char) :
    behind (inQuotes k.name) (r.entry k value ++ rest) = some ((r.spaces k).colon.1 ++
      ':' :: ((r.spaces k).value.1 ++ (value ++ ((r.spaces k).comma.1 ++ rest)))) := by
  rw [behind, ReplyText.entry, splitFirst_member_self]
  rfl

/-- The first colon of a key and its value stands between them. -/
theorem behind_colon_entry (k : ReplyKey) (value rest : List Char) :
    behind [':'] (r.entry k value ++ rest) =
      some ((r.spaces k).value.1 ++ (value ++ ((r.spaces k).comma.1 ++ rest))) := by
  have absent : ':' ∉ (r.spaces k).key.1 ++ (inQuotes k.name ++ (r.spaces k).colon.1) := by
    simp only [List.mem_append, not_or]
    exact ⟨gap_absent _ (by decide), name_outside k ':' (by simp), gap_absent _ (by decide)⟩
  have found :=
    splitFirst_char (v := (r.spaces k).value.1 ++ (value ++ ((r.spaces k).comma.1 ++ rest))) absent
  simp only [List.append_assoc] at found
  rw [behind, ReplyText.entry, member]
  simp only [List.append_assoc, List.cons_append]
  rw [found]
  rfl

/-- A colon is looked for past what has none. -/
theorem behind_char_pass {c : Char} {u : List Char} (absent : c ∉ u) (v : List Char) :
    behind [c] (u ++ v) = behind [c] v := by
  rw [behind, splitFirst_pass (fun d listed same => ?_) (List.cons_ne_nil _ _), behind, Option.map_map]
  · rfl
  · obtain rfl := List.mem_singleton.mp same
    exact absent listed

theorem behind_char {c : Char} {u : List Char} (absent : c ∉ u) (v : List Char) :
    behind [c] (u ++ c :: v) = some v := by
  rw [behind, splitFirst_char absent]
  rfl

section Action

/-- The action is read up to its first quote. -/
theorem action_eq {s : SayStream} (whole : s.raw = r.text) : ∃ rest name after,
    splitFirst ['"'] (r.action.body ++ '"' :: rest) = some (name, after) ∧
      s.action = some (AgentAction.parse (String.ofList name)) := by
  obtain ⟨before, key⟩ := behind_eq_some
    ((behind_lead r .action).trans (behind_entry_self .action r.action.text (',' :: r.fromFields)))
  have absent : '"' ∉ (r.spaces .action).colon.1 ++ ':' :: (r.spaces .action).value.1 := by
    simp [gap_absent]
  have value := splitFirst_char (v := r.action.body ++ '"' :: ((r.spaces .action).comma.1 ++
    ',' :: r.fromFields)) absent
  obtain ⟨name, after, quote⟩ := splitFirst_char_of_mem (c := '"')
    (s := r.action.body ++ '"' :: ((r.spaces .action).comma.1 ++ ',' :: r.fromFields)) (by simp)
  refine ⟨_, name, after, quote, ?_⟩
  simp only [List.append_assoc, List.cons_append] at value
  rw [SayStream.action, whole]
  simp only [ReplyKey.name] at key
  simp [key, StringText.text, value, quote]

/-- No action has a backslash in its name. -/
theorem parse_backslash {name : List Char} (listed : '\\' ∈ name) :
    AgentAction.parse (String.ofList name) = .none := by
  rw [AgentAction.parse, List.find?_eq_none.mpr]
  · rfl
  · rintro ⟨n, action⟩ member same
    obtain rfl : n = String.ofList name := eq_of_beq same
    have plain : ∀ entry ∈ AgentAction.all, '\\' ∉ entry.1.toList := by decide
    exact plain _ member (by rwa [String.toList_ofList])

theorem action_agrees_iff {s : SayStream} (whole : s.raw = r.text) :
    s.action = some (AgentAction.parse r.action.value) ↔
      r.action.isPlain ∨ AgentAction.parse r.action.value = .none := by
  obtain ⟨rest, name, after, found, read⟩ := action_eq whole
  rw [read]
  by_cases plain : r.action.isPlain
  · rw [splitFirst_char (plain_quote plain)] at found
    obtain ⟨rfl, rfl⟩ := Prod.mk.inj (Option.some.inj found)
    rw [plain_body plain, String.ofList_toList]
    simp [plain]
  · rw [parse_backslash (escaped_name plain found)]
    simp [plain, eq_comm]

end Action

section Fields

/-- A key's own text, up to its value, has no other name. -/
theorem lead_absent {k other : ReplyKey} (different : k ≠ other) (g : Gap) :
    ¬ inQuotes k.name <:+: inQuotes other.name ++ g.1 := by
  rw [infix_append_outside_iff (gap_outside g k) (inQuotes_ne_nil _)]
  exact inQuotes_other different

theorem later_ne_fields {k : ReplyKey} (listed : k ∈ [ReplyKey.asks, .phrase, .say]) : k ≠ .fields := by
  rintro rfl
  simp at listed

/-- The text from the fields' name on, up to the fields. -/
theorem behind_fields (r : ReplyText) : ∃ past lead, ∃ gap : Gap,
    behind (inQuotes (ReplyKey.name .fields)) r.text = some past ∧
    inQuotes (ReplyKey.name .fields) ++ past = lead ++ ':' :: (gap.1 ++ (r.fieldsText ++
      ((r.spaces .fields).comma.1 ++ ',' :: r.fromAsks))) ∧
    '[' ∉ lead ∧ ∀ k ∈ [ReplyKey.asks, .phrase, .say], ¬ inQuotes k.name <:+: lead := by
  have unlisted : '[' ∉ inQuotes (ReplyKey.name .fields) := name_outside .fields '[' (by simp)
  cases named : splitFirst (inQuotes (ReplyKey.name .fields)) r.action.text with
  | some parts =>
    -- The action ends with the name: between it and the key there is nothing to be found.
    obtain ⟨before, past⟩ := parts
    obtain rfl := inQuotes_ends named
    obtain ⟨ahead, found⟩ := splitFirst_member_value .action (by decide) named (r.spaces .action)
      (',' :: r.fromFields)
    refine ⟨(r.spaces .action).comma.1 ++ ',' :: r.fromFields, inQuotes (ReplyKey.name .fields) ++
      ((r.spaces .action).comma.1 ++ ',' :: ((r.spaces .fields).key.1 ++
        (inQuotes (ReplyKey.name .fields) ++
        (r.spaces .fields).colon.1))), (r.spaces .fields).value, ?_, ?_, ?_, ?_⟩
    · rw [behind_lead, ReplyText.fromAction, ReplyText.entry, behind, found]
      rfl
    · simp [ReplyText.fromFields, ReplyText.entry, member]
    · simp [unlisted, gap_absent]
    · intro k listed
      have different := later_ne_fields listed
      rw [← List.append_assoc, infix_append_cons_iff (name_outside k ',' (by simp)) (inQuotes_ne_nil _),
        infix_pass_iff (gap_outside _ k) (inQuotes_ne_nil _)]
      exact not_or.mpr ⟨lead_absent different _, lead_absent different _⟩
  | none =>
    have absent := (splitFirst_eq_none_iff (inQuotes_ne_nil _)).mp named
    refine ⟨(r.spaces .fields).colon.1 ++ ':' :: ((r.spaces .fields).value.1 ++ (r.fieldsText ++
      ((r.spaces .fields).comma.1 ++ ',' :: r.fromAsks))), inQuotes (ReplyKey.name .fields) ++
        (r.spaces .fields).colon.1, (r.spaces .fields).value, ?_, ?_, ?_, ?_⟩
    · rw [behind_lead, ReplyText.fromAction, behind_entry (by decide) absent, ReplyText.fromFields,
        behind_entry_self]
    · simp
    · simp [unlisted, gap_absent]
    · exact fun k listed => lead_absent (later_ne_fields listed) _

section Finding

variable {p u v : List Char} {c : Char}

theorem find_skip (absent : ¬ p <:+: u) (outside : c ∉ p) (nonempty : p ≠ []) :
    find p (u ++ c :: v) = (find p v).map (u.length + 1 + ·) := by
  rw [find, splitFirst_skip absent outside nonempty, find, Option.map_map, Option.map_map]
  congr 1
  funext ⟨before, after⟩
  simp
  omega

theorem find_pass (outside : ∀ c ∈ u, c ∉ p) (nonempty : p ≠ []) :
    find p (u ++ v) = (find p v).map (u.length + ·) := by
  rw [find, splitFirst_pass outside nonempty, find, Option.map_map, Option.map_map]
  congr 1
  funext ⟨before, after⟩
  simp

theorem find_append {n : Nat} (found : find p u = some n) (v : List Char) : find p (u ++ v) = some n := by
  obtain ⟨⟨before, after⟩, first, rfl⟩ := Option.map_eq_some_iff.mp found
  rw [find, splitFirst_append first]
  rfl

theorem find_here (nonempty : p ≠ []) : find p (p ++ v) = some 0 := by
  rw [find, splitFirst_here p v nonempty]
  rfl

theorem find_char (absent : c ∉ u) : find [c] (u ++ c :: v) = some u.length := by
  rw [find, splitFirst_char absent]
  rfl

theorem rfind_char (absent : c ∉ v) : rfind c (u ++ c :: v) = some u.length := by
  have reversed : (u ++ c :: v).reverse = v.reverse ++ c :: u.reverse := by simp
  rw [rfind, reversed, splitFirst_char (by simpa using absent)]
  simp

/-- What is found is inside the text. -/
theorem find_infix {s : List Char} (nonempty : p ≠ []) (within : p <:+: s) :
    ∃ n, find p s = some n ∧ n + p.length ≤ s.length := by
  cases found : splitFirst p s with
  | none => exact absurd within ((splitFirst_eq_none_iff nonempty).mp found)
  | some parts =>
    refine ⟨parts.1.length, by rw [find, found]; rfl, ?_⟩
    have whole := congrArg List.length (splitFirst_eq_append found)
    simp only [List.length_append] at whole
    omega

end Finding

/-- The position of a later key in the text from the fields' name on. -/
theorem stop_eq {lead : List Char} (gap : Gap) (r : ReplyText)
    (leads : ∀ k ∈ [ReplyKey.asks, .phrase, .say], ¬ inQuotes k.name <:+: lead)
    (absent : ∀ k ∈ [ReplyKey.asks, .phrase, .say], ¬ inQuotes k.name <:+: r.fieldsText)
    {u : List Char} (upto : u = lead ++ ':' :: (gap.1 ++ (r.fieldsText ++ (r.spaces .fields).comma.1))) :
    ([find (inQuotes (ReplyKey.name .asks)) (u ++ ',' :: r.fromAsks),
      find (inQuotes (ReplyKey.name .phrase)) (u ++ ',' :: r.fromAsks),
      find (inQuotes (ReplyKey.name .say)) (u ++ ',' :: r.fromAsks)].filterMap id).min? =
        some (u.length + 1 + (r.spaces .asks).key.1.length) := by
  have clear : ∀ k ∈ [ReplyKey.asks, .phrase, .say], ¬ inQuotes k.name <:+: u := by
    intro k listed
    rw [upto, infix_append_cons_iff (name_outside k ':' (by simp)) (inQuotes_ne_nil _),
      infix_pass_iff (gap_outside _ k) (inQuotes_ne_nil _),
      infix_append_outside_iff (gap_outside _ k) (inQuotes_ne_nil _)]
    exact not_or.mpr ⟨leads k listed, absent k listed⟩
  have position : ∀ k ∈ [ReplyKey.asks, .phrase, .say],
      find (inQuotes k.name) (u ++ ',' :: r.fromAsks) =
      (find (inQuotes k.name) (inQuotes (ReplyKey.name .asks) ++
        ((r.spaces .asks).colon.1 ++ ':' :: ((r.spaces .asks).value.1 ++ (r.asksText ++
          (r.spaces .asks).comma.1)) ++ ',' :: r.fromPhrase))).map
            fun n => u.length + 1 + ((r.spaces .asks).key.1.length + n) := by
    intro k listed
    rw [find_skip (clear k listed) (name_outside k ',' (by simp)) (inQuotes_ne_nil _), ReplyText.fromAsks,
      ReplyText.entry, member, List.append_assoc, List.append_assoc,
      find_pass (gap_outside _ k) (inQuotes_ne_nil _), Option.map_map]
    simp only [List.append_assoc]
    rfl
  have own := position .asks (by simp)
  rw [find_here (inQuotes_ne_nil _), Option.map_some, Nat.add_zero] at own
  rw [List.min?_eq_some_iff]
  refine ⟨?_, ?_⟩
  · simp only [List.mem_filterMap]
    exact ⟨_, List.mem_cons_self, own⟩
  · intro n listed
    obtain ⟨at', member, same⟩ := List.mem_filterMap.mp listed
    obtain rfl : at' = some n := same
    simp only [List.mem_cons, List.not_mem_nil, or_false] at member
    have later : ∀ k ∈ [ReplyKey.asks, .phrase, .say],
      some n = find (inQuotes k.name) (u ++ ',' :: r.fromAsks) →
        u.length + 1 + (r.spaces .asks).key.1.length ≤ n := by
      intro k inside found
      rw [position k inside] at found
      obtain ⟨m, -, rfl⟩ := Option.map_eq_some_iff.mp found.symm
      omega
    rcases member with here | here | here
    · exact later .asks (by simp) here
    · exact later .phrase (by simp) here
    · exact later .say (by simp) here

end Fields

section Fields

/-- The field that is read. -/
theorem fieldOf_toJson (f : FieldText) : fieldOf f.toJson = some (f.slot.value, f.value.value) := by
  simp [fieldOf, FieldText.toJson, Json.get, Json.asStr]

/-- `Value::as_array`. -/
def Json.asArray : Json → Option (List Json)
  | .arr items => some items
  | _ => none

theorem fields_value (r : ReplyText) : (r.fields.value FieldText.toJson).asArray.map
    (·.filterMap fieldOf) =
    some (r.fields.items.map fun (_, f, _) => (f.slot.value, f.value.value)) := by
  rw [ArrayText.value, Json.asArray, Option.map_some, List.filterMap_map]
  congr 1
  rw [← List.filterMap_eq_map]
  refine List.filterMap_congr fun ⟨_, f, _⟩ _ => ?_
  exact fieldOf_toJson f

/-- What is read of the text from the fields' name to a later key. -/
def readHead (fromStr : List Char → Option Json) (head : List Char) :
    Option (List (String × String)) := do
  let opening ← find ['['] head
  let closing ← rfind ']' head
  let items ← fromStrVec fromStr ((head.take (closing + 1)).drop opening)
  some (items.filterMap fieldOf)

/-- The first later key after the fields' name. -/
def firstStop (after : List Char) : Option Nat :=
  ([find (inQuotes (ReplyKey.name .asks)) after, find (inQuotes (ReplyKey.name .phrase)) after,
    find (inQuotes (ReplyKey.name .say)) after].filterMap id).min?

theorem fields_eq {s : SayStream} {past : List Char}
    (key : behind (inQuotes (ReplyKey.name .fields)) s.raw = some past) : s.fields fromStr =
      (firstStop (inQuotes (ReplyKey.name .fields) ++ past)).bind fun stop =>
        readHead fromStr ((inQuotes (ReplyKey.name .fields) ++ past).take stop) := by
  obtain ⟨before, key⟩ := behind_eq_some key
  simp only [ReplyKey.name] at key
  rw [SayStream.fields, key]
  rfl

/-- What is read of a text with one array in its middle. -/
theorem readHead_array {lead inner rest : List Char} (before : '[' ∉ lead) (past : ']' ∉ rest) :
    readHead fromStr (lead ++ ('[' :: inner ++ [']'] ++ rest)) =
      (fromStrVec fromStr ('[' :: inner ++ [']'])).map (·.filterMap fieldOf) := by
  have opening := find_char (v := inner ++ ']' :: rest) before
  have closing := rfind_char (u := lead ++ '[' :: inner) past
  have part : ((lead ++ '[' :: (inner ++ ']' :: rest)).take
    ((lead ++ '[' :: inner).length + 1)).drop lead.length =
      '[' :: inner ++ [']'] := by
    have whole : lead ++ '[' :: (inner ++ ']' :: rest) =
      (lead ++ '[' :: inner ++ [']']) ++ rest := by simp
    rw [whole, List.take_left' (by simp; omega), List.append_assoc, List.drop_left]
  simp only [List.append_assoc, List.cons_append, List.nil_append] at opening closing part ⊢
  rw [readHead, opening, closing]
  simp only [Option.bind_eq_bind, Option.bind_some]
  rw [part]
  cases fromStrVec fromStr ('[' :: (inner ++ [']'])) <;> rfl

/-- **The fields are read** where no later key's name stands in them. -/
theorem fields_read {s : SayStream} (whole : s.raw = r.text) (reads : Reads fromStr r)
    (absent : ∀ k ∈ [ReplyKey.asks, .phrase, .say], ¬ inQuotes k.name <:+: r.fieldsText) :
    s.fields fromStr = (r.fields.value FieldText.toJson).asArray.map (·.filterMap fieldOf) := by
  obtain ⟨past, lead, gap, key, upto, unlisted, leads⟩ := behind_fields r
  have stop := stop_eq gap r leads absent rfl
  have text : inQuotes (ReplyKey.name .fields) ++ past =
      (lead ++ ':' :: (gap.1 ++ (r.fieldsText ++ (r.spaces .fields).comma.1))) ++ ',' :: r.fromAsks := by
    rw [upto]
    simp
  have head : (inQuotes (ReplyKey.name .fields) ++ past).take
      ((lead ++ ':' :: (gap.1 ++ (r.fieldsText ++ (r.spaces .fields).comma.1))).length + 1 +
        (r.spaces .asks).key.1.length) =
        (lead ++ ':' :: gap.1) ++ ('[' :: r.fields.inner FieldText.text ++ [']'] ++
          ((r.spaces .fields).comma.1 ++ ',' :: (r.spaces .asks).key.1)) := by
    obtain ⟨later, asks⟩ : ∃ later, r.fromAsks = (r.spaces .asks).key.1 ++ later :=
      ⟨_, by rw [ReplyText.fromAsks, ReplyText.entry, member, List.append_assoc]⟩
    have parts : (lead ++ ':' :: (gap.1 ++ (r.fieldsText ++ (r.spaces .fields).comma.1))) ++
        ',' :: ((r.spaces .asks).key.1 ++ later) =
      ((lead ++ ':' :: (gap.1 ++ (r.fieldsText ++ (r.spaces .fields).comma.1))) ++
        ',' :: (r.spaces .asks).key.1) ++ later := by simp
    rw [text, asks, parts, List.take_left' (by simp; omega)]
    simp [ReplyText.fieldsText, ArrayText.text]
  rw [fields_eq (by rw [whole]; exact key), firstStop, text, stop, Option.bind_some, ← text, head,
    readHead_array (by simp [unlisted, gap_absent]) (by simp [gap_absent])]
  have read := reads.fields
  rw [ReplyText.fieldsText, ArrayText.text] at read
  rw [fromStrVec, read]
  rfl

theorem find_absent {c : Char} {s : List Char} (absent : c ∉ s) : find [c] s = none := by
  rw [find, (splitFirst_eq_none_iff (List.cons_ne_nil _ _)).mpr]
  · rfl
  · exact fun listed => absent (listed.subset (by simp))

/-- Of an array that is cut short nothing is read. -/
theorem readHead_cut {lead part : List Char} (inner : List Char) (before : '[' ∉ lead)
    (cut : ∀ part, part <+: '[' :: inner → part ≠ '[' :: inner → fromStr part = none)
    (short : part <+: lead ++ '[' :: inner) (proper : part ≠ lead ++ '[' :: inner) :
    readHead fromStr part = none := by
  obtain ⟨rest, same⟩ := short
  have within : part <+: lead ∨ ∃ piece, part = lead ++ piece ∧ piece ++ rest = '[' :: inner := by
    rcases List.append_eq_append_iff.mp same with ⟨later, here, -⟩ | ⟨piece, here, there⟩
    · exact .inl ⟨later, here.symm⟩
    · exact .inr ⟨piece, here, there.symm⟩
  rcases within with within | ⟨piece, rfl, whole⟩
  · rw [readHead, find_absent fun listed => before (within.subset listed)]
    rfl
  · cases piece with
    | nil =>
      rw [List.append_nil, readHead, find_absent before]
      rfl
    | cons c piece =>
      obtain ⟨rfl, inside⟩ := List.cons.inj whole
      rw [readHead, find_char before]
      cases closing : rfind ']' (lead ++ '[' :: piece) with
      | none => rfl
      | some last =>
        have nothing : fromStr (('[' :: piece).take (last + 1 - lead.length)) = none := by
          have start := List.take_prefix (last + 1 - lead.length) ('[' :: piece)
          refine cut _ (start.trans ⟨rest, whole⟩) fun all => proper ?_
          have long := start.length_le
          rw [all, ← whole, List.length_append] at long
          have empty : rest = [] := List.length_eq_zero_iff.mp (by omega)
          rw [← whole, empty, List.append_nil]
        simp only [Option.bind_eq_bind, Option.bind_some]
        rw [List.drop_take, List.drop_left, fromStrVec, nothing]
        rfl

/-- **The fields are missed** where a later key's name stands in them. -/
theorem fields_missed {s : SayStream} (whole : s.raw = r.text) (reads : Reads fromStr r) {k : ReplyKey}
    (later : k ∈ [ReplyKey.asks, .phrase, .say]) (named : inQuotes k.name <:+: r.fieldsText) :
    s.fields fromStr = none := by
  obtain ⟨past, lead, gap, key, upto, unlisted, leads⟩ := behind_fields r
  rw [fields_eq (by rw [whole]; exact key)]
  cases stop' : firstStop (inQuotes (ReplyKey.name .fields) ++ past) with
  | none => rfl
  | some stop =>
    have text : inQuotes (ReplyKey.name .fields) ++ past =
        ((lead ++ ':' :: gap.1) ++ r.fieldsText) ++
          ((r.spaces .fields).comma.1 ++ ',' :: r.fromAsks) := by
      rw [upto]
      simp
    have within : inQuotes k.name <:+: (lead ++ ':' :: gap.1) ++ r.fieldsText :=
      List.infix_append_of_infix_right named
    obtain ⟨n, found, inside⟩ := find_infix (inQuotes_ne_nil k.name) within
    have here : find (inQuotes k.name) (inQuotes (ReplyKey.name .fields) ++ past) = some n := by
      rw [text]
      exact find_append found _
    have early : stop ≤ n := by
      refine (List.min?_eq_some_iff.mp stop').2 n ?_
      simp only [List.mem_cons, List.not_mem_nil, or_false] at later
      rw [List.mem_filterMap]
      refine ⟨some n, ?_, rfl⟩
      rcases later with rfl | rfl | rfl <;> simp [here]
    have pos := List.length_pos_of_ne_nil (inQuotes_ne_nil k.name)
    have size : stop < ((lead ++ ':' :: gap.1) ++ r.fieldsText).length := by omega
    rw [Option.bind_some, text, List.take_append_of_le_length size.le]
    refine readHead_cut (r.fields.inner FieldText.text ++ [']']) (by simp [unlisted, gap_absent])
      reads.fields_cut (List.take_prefix _ _) fun all => ?_
    have short : min stop ((lead ++ ':' :: gap.1) ++ r.fieldsText).length =
        ((lead ++ ':' :: gap.1) ++ r.fieldsText).length := by
      rw [← List.length_take]
      exact congrArg List.length all
    omega

theorem fields_agrees_iff {s : SayStream} (whole : s.raw = r.text) (reads : Reads fromStr r) :
    s.fields fromStr = (r.fields.value FieldText.toJson).asArray.map (·.filterMap fieldOf) ↔
      ∀ k ∈ [ReplyKey.asks, .phrase, .say], ¬ inQuotes k.name <:+: r.fieldsText := by
  constructor
  · intro agrees k later named
    rw [fields_missed whole reads later named, fields_value] at agrees
    cases agrees
  · exact fields_read whole reads

end Fields

section Asks

/-- The asks' name is found at its key, where it stands in no value before. -/
theorem behind_asks (action : ¬ inQuotes (ReplyKey.name .asks) <:+: r.action.text)
    (fields : ¬ inQuotes (ReplyKey.name .asks) <:+: r.fieldsText) :
    behind (inQuotes (ReplyKey.name .asks)) r.text = some ((r.spaces .asks).colon.1 ++
      ':' :: ((r.spaces .asks).value.1 ++
        (r.asksText ++ ((r.spaces .asks).comma.1 ++ ',' :: r.fromPhrase)))) := by
  rw [behind_lead, ReplyText.fromAction, behind_entry (by decide) action, ReplyText.fromFields,
    behind_entry (by decide) fields, ReplyText.fromAsks, behind_entry_self]

/-- What the question asks for is read up to the first bracket. -/
theorem asks_eq (fromStr : List Char → Option Json) {s : SayStream} (whole : s.raw = r.text)
    (action : ¬ inQuotes (ReplyKey.name .asks) <:+: r.action.text)
    (fields : ¬ inQuotes (ReplyKey.name .asks) <:+: r.fieldsText) : ∃ list rest,
      splitFirst [']'] ('[' :: r.asks.inner StringText.text ++ ']' :: rest) = some list ∧
        s.asks fromStr = (fromStrVec fromStr (list.1 ++ [']'])).map (·.filterMap Json.asStr) := by
  obtain ⟨before, key⟩ := behind_eq_some (behind_asks action fields)
  have absent : '[' ∉ (r.spaces .asks).colon.1 ++ ':' :: (r.spaces .asks).value.1 := by simp [gap_absent]
  have opening :=
    splitFirst_char (v := r.asks.inner StringText.text ++ ']' :: ((r.spaces .asks).comma.1 ++
    ',' :: r.fromPhrase)) absent
  obtain ⟨list, after, closing⟩ := splitFirst_char_of_mem (c := ']')
    (s := '[' :: r.asks.inner StringText.text ++
      ']' :: ((r.spaces .asks).comma.1 ++ ',' :: r.fromPhrase)) (by simp)
  refine ⟨(list, after), _, closing, ?_⟩
  simp only [List.append_assoc, List.cons_append] at opening closing
  simp only [ReplyKey.name] at key
  rw [SayStream.asks, whole, key]
  simp only [ReplyText.asksText, ArrayText.text, List.append_assoc, List.cons_append, List.nil_append]
  rw [opening]
  simp only [Option.bind_eq_bind, Option.bind_some]
  rw [closing, Option.bind_some]
  cases fromStrVec fromStr (list ++ [']']) <;> rfl

theorem asks_value (r : ReplyText) : (r.asks.value fun s => .str s.value).asArray.map
    (·.filterMap Json.asStr) =
    some (r.asks.items.map fun (_, s, _) => s.value) := by
  rw [ArrayText.value, Json.asArray, Option.map_some, List.filterMap_map]
  congr 1
  rw [← List.filterMap_eq_map]
  exact List.filterMap_congr fun _ _ => rfl

theorem asks_agrees_iff {s : SayStream} (whole : s.raw = r.text) (reads : Reads fromStr r)
    (action : ¬ inQuotes (ReplyKey.name .asks) <:+: r.action.text)
    (fields : ¬ inQuotes (ReplyKey.name .asks) <:+: r.fieldsText) :
    s.asks fromStr = (r.asks.value fun s => .str s.value).asArray.map (·.filterMap Json.asStr) ↔
      ']' ∉ r.asks.inner StringText.text := by
  obtain ⟨⟨list, after⟩, rest, closing, read⟩ := asks_eq fromStr whole action fields
  rw [read]
  constructor
  · intro agrees listed
    obtain ⟨first, later, inner, absent⟩ := List.eq_append_cons_of_mem listed
    have early :=
      splitFirst_char (c := ']') (u := '[' :: first) (v := later ++ ']' :: rest) (by simp [absent])
    simp only [inner, List.append_assoc, List.cons_append] at closing early
    rw [early] at closing
    obtain ⟨rfl, -⟩ := Prod.mk.inj (Option.some.inj closing)
    have nothing : fromStr ('[' :: first ++ [']']) = none := by
      refine reads.asks_cut _ ⟨later ++ [']'], ?_⟩ fun all => ?_
      · rw [ReplyText.asksText, ArrayText.text, inner]
        simp
      · rw [ReplyText.asksText, ArrayText.text, inner] at all
        simpa using congrArg List.length all
    rw [asks_value, fromStrVec, nothing] at agrees
    cases agrees
  · intro absent
    have first :=
      splitFirst_char (c := ']') (u := '[' :: r.asks.inner StringText.text) (v := rest) (by simp [absent])
    rw [first] at closing
    obtain ⟨rfl, -⟩ := Prod.mk.inj (Option.some.inj closing)
    have read := reads.asks
    rw [ReplyText.asksText, ArrayText.text] at read
    rw [fromStrVec, read]
    rfl

end Asks

section Phrase

theorem optionText_head (o : Option StringText) (rest : List Char) :
    (optionText o ++ rest).dropWhile isWhitespace =
    optionText o ++ rest := by
  cases o with
  | none => rfl
  | some s => rfl

theorem gap_isWhitespace (g : Gap) : ∀ c ∈ g.1, isWhitespace c := by
  intro c listed
  have blank := g.2 c listed
  simp only [List.mem_cons, List.not_mem_nil, or_false] at blank
  rcases blank with rfl | rfl | rfl | rfl <;> decide

theorem dropWhile_gap (g : Gap) (rest : List Char) :
    (g.1 ++ rest).dropWhile isWhitespace = rest.dropWhile isWhitespace := by
  rw [List.dropWhile_append_of_pos (gap_isWhitespace g)]

/-- The phrase's name is found at its key, or in the list before it, with no colon in between. -/
theorem behind_phrase (action : ¬ inQuotes (ReplyKey.name .phrase) <:+: r.action.text)
    (fields : ¬ inQuotes (ReplyKey.name .phrase) <:+: r.fieldsText)
    (asks : ∀ before past, splitFirst (inQuotes (ReplyKey.name .phrase)) r.asksText =
      some (before, past) →
      ':' ∉ past) : ∃ past, behind (inQuotes (ReplyKey.name .phrase)) r.text = some past ∧
        behind [':'] past = some ((r.spaces .phrase).value.1 ++ (optionText r.phrase ++
          ((r.spaces .phrase).comma.1 ++ ',' :: r.fromSay))) := by
  rw [behind_lead, ReplyText.fromAction, behind_entry (by decide) action, ReplyText.fromFields,
    behind_entry (by decide) fields, ReplyText.fromAsks]
  cases named : splitFirst (inQuotes (ReplyKey.name .phrase)) r.asksText with
  | none =>
    have absent := (splitFirst_eq_none_iff (inQuotes_ne_nil _)).mp named
    refine ⟨_, by rw [behind_entry (by decide) absent, ReplyText.fromPhrase, behind_entry_self], ?_⟩
    rw [behind_char_pass (gap_absent _ (by decide))]
    exact behind_char (u := []) (by simp) _
  | some parts =>
    obtain ⟨before, past⟩ := parts
    obtain ⟨ahead, found⟩ := splitFirst_member_value .asks (by decide) named (r.spaces .asks)
      (',' :: r.fromPhrase)
    refine ⟨past ++ ((r.spaces .asks).comma.1 ++ ',' :: r.fromPhrase),
      by rw [behind, ReplyText.entry, found]; rfl, ?_⟩
    have absent : ':' ∉ past ++ ((r.spaces .asks).comma.1 ++ [',']) := by
      simp [asks before past named, gap_absent]
    have pass := behind_char_pass absent r.fromPhrase
    simp only [List.append_assoc, List.singleton_append] at pass
    rw [pass, ReplyText.fromPhrase, behind_colon_entry]

/-- The id of a phrase is read up to its first quote. -/
theorem phrase_id (id : StringText) (rest : List Char) :
    ((splitFirst ['"'] (id.body ++ '"' :: rest)).bind fun (name, _) =>
        if name.isEmpty then none else some (String.ofList name)) = some id.value ↔
      id.isPlain ∧ id.pieces ≠ [] := by
  obtain ⟨name, after, found⟩ := splitFirst_char_of_mem (c := '"') (s := id.body ++ '"' :: rest) (by simp)
  rw [found, Option.bind_some]
  dsimp only
  by_cases plain : id.isPlain
  · rw [splitFirst_char (plain_quote plain)] at found
    obtain ⟨rfl, -⟩ := Prod.mk.inj (Option.some.inj found)
    rw [plain_body plain, String.ofList_toList]
    by_cases empty : id.pieces = []
    · simp [StringText.value, empty]
    · simp [StringText.value, empty, plain]
  · have other := escaped_name_ne plain found
    have different : String.ofList name ≠ id.value := by
      rintro same
      exact other (by rw [← same, String.toList_ofList])
    by_cases empty : name.isEmpty
    · simp [empty, plain]
    · simp [empty, plain, different]

theorem phrase_agrees_iff {s : SayStream} (whole : s.raw = r.text)
    (action : ¬ inQuotes (ReplyKey.name .phrase) <:+: r.action.text)
    (fields : ¬ inQuotes (ReplyKey.name .phrase) <:+: r.fieldsText)
    (asks : ∀ before past, splitFirst (inQuotes (ReplyKey.name .phrase)) r.asksText =
      some (before, past) →
      ':' ∉ past) : s.phrase = (optionValue r.phrase).asStr ↔
        ∀ id, r.phrase = some id → id.isPlain ∧ id.pieces ≠ [] := by
  obtain ⟨past, key, colon⟩ := behind_phrase action fields asks
  obtain ⟨before, key⟩ := behind_eq_some key
  obtain ⟨lead, colon⟩ := behind_eq_some colon
  simp only [ReplyKey.name] at key
  rw [SayStream.phrase, whole, key]
  simp only [Option.bind_eq_bind, Option.bind_some]
  rw [colon, Option.bind_some, dropWhile_gap, optionText_head]
  cases r.phrase with
  | none =>
    have noString : dropPrefix
      (optionText none ++ ((r.spaces .phrase).comma.1 ++ ',' :: r.fromSay)) ['"'] =
      none := rfl
    rw [noString]
    simp [optionValue, Json.asStr]
  | some id =>
    have opening : dropPrefix
      (optionText (some id) ++ ((r.spaces .phrase).comma.1 ++ ',' :: r.fromSay)) ['"'] =
        some (id.body ++ '"' :: ((r.spaces .phrase).comma.1 ++ ',' :: r.fromSay)) := by
      rw [dropPrefix_eq_some_iff]
      simp [optionText, StringText.text]
    rw [opening, Option.bind_some]
    refine (phrase_id id _).trans ?_
    simp

end Phrase

section Say

/-- The colon of `say` is the first after its name, where the phrase is no text that is cut by it. -/
theorem behind_say (action : ¬ inQuotes (ReplyKey.name .say) <:+: r.action.text)
    (fields : ¬ inQuotes (ReplyKey.name .say) <:+: r.fieldsText)
    (asks : ¬ inQuotes (ReplyKey.name .say) <:+: r.asksText) :
    ∃ past, behind (inQuotes (ReplyKey.name .say)) r.text = some past ∧
      behind [':'] past =
      some ((r.spaces .say).value.1 ++ (r.say.text ++ ((r.spaces .say).comma.1 ++ r.tail))) := by
  rw [behind_lead, ReplyText.fromAction, behind_entry (by decide) action, ReplyText.fromFields,
    behind_entry (by decide) fields, ReplyText.fromAsks, behind_entry (by decide) asks,
    ReplyText.fromPhrase]
  cases named : splitFirst (inQuotes (ReplyKey.name .say)) (optionText r.phrase) with
  | none =>
    have absent := (splitFirst_eq_none_iff (inQuotes_ne_nil _)).mp named
    refine ⟨_, by rw [behind_entry (by decide) absent, ReplyText.fromSay, behind_entry_self], ?_⟩
    rw [behind_char_pass (gap_absent _ (by decide))]
    exact behind_char (u := []) (by simp) _
  | some parts =>
    -- The phrase ends with the name, and the key follows.
    obtain ⟨before, past⟩ := parts
    obtain rfl : past = [] := by
      cases phrase : r.phrase with
      | none =>
        rw [phrase] at named
        cases named
      | some id =>
        rw [phrase] at named
        exact inQuotes_ends named
    obtain ⟨ahead, found⟩ := splitFirst_member_value .phrase (by decide) named (r.spaces .phrase)
      (',' :: r.fromSay)
    refine ⟨(r.spaces .phrase).comma.1 ++
      ',' :: r.fromSay, by rw [behind, ReplyText.entry, found]; rfl, ?_⟩
    have absent : ':' ∉ (r.spaces .phrase).comma.1 ++ [','] := by simp [gap_absent]
    have pass := behind_char_pass absent r.fromSay
    simp only [List.append_assoc, List.singleton_append] at pass
    rw [pass, ReplyText.fromSay, behind_colon_entry]

/-- `say` is decoded to its end. -/
theorem decodeSay_text (action : ¬ inQuotes (ReplyKey.name .say) <:+: r.action.text)
    (fields : ¬ inQuotes (ReplyKey.name .say) <:+: r.fieldsText)
    (asks : ¬ inQuotes (ReplyKey.name .say) <:+: r.asksText) :
    decodeSay r.text = some (r.say.heard, true) := by
  obtain ⟨past, key, colon⟩ := behind_say action fields asks
  obtain ⟨before, key⟩ := behind_eq_some key
  obtain ⟨lead, colon⟩ := behind_eq_some colon
  have quote := splitFirst_char (c := '"') (u := (r.spaces .say).value.1)
    (v := r.say.body ++ '"' :: ((r.spaces .say).comma.1 ++ r.tail)) (gap_absent _ (by decide))
  have text : r.say.text ++ ((r.spaces .say).comma.1 ++ r.tail) =
      '"' :: (r.say.body ++ '"' :: ((r.spaces .say).comma.1 ++ r.tail)) := by simp [StringText.text]
  have blank : (r.spaces .say).value.1.all isWhitespace := List.all_eq_true.mpr (gap_isWhitespace _)
  simp only [ReplyKey.name] at key
  rw [text] at colon
  simp only [decodeSay, key, Option.bind_eq_bind, Option.bind_some]
  rw [colon, Option.bind_some, quote, Option.bind_some, if_pos blank, decodeString_body]

theorem say_agrees_iff {chunks : List (List Char)} (whole : chunks.flatten = r.text)
    (action : ¬ inQuotes (ReplyKey.name .say) <:+: r.action.text)
    (fields : ¬ inQuotes (ReplyKey.name .say) <:+: r.fieldsText)
    (asks : ¬ inQuotes (ReplyKey.name .say) <:+: r.asksText) :
    letters ((SayStream.pieces chunks).flatMap String.toList) = letters r.say.value.toList ↔
      ∀ p ∈ r.say.pieces, p.isDecoded := by
  rw [SayStream.letters_pieces, whole, SayStream.decoded, decodeSay_text action fields asks]
  exact letters_heard_iff r.say

end Say

section Agreement

/-- **The streamed reading is the parsed one**, however the text was cut: the action, the fields, what the
question asks for and the phrase are those of the parsed value, and what is said is its `say`. -/
def Agrees (fromStr : List Char → Option Json) (r : ReplyText) : Prop :=
  ∀ chunks : List (List Char), chunks.flatten = r.text →
    let s := (SayStream.pushAll {} chunks).2
    let parsed := fun key => (fromStr r.text).bind fun value => value.get key
    s.action = ((parsed "action").bind Json.asStr).map AgentAction.parse ∧
      s.fields fromStr = ((parsed "fields").bind Json.asArray).map (·.filterMap fieldOf) ∧
      s.asks fromStr = ((parsed "asks").bind Json.asArray).map (·.filterMap Json.asStr) ∧
      s.phrase = (parsed "phrase").bind Json.asStr ∧
      letters ((SayStream.pieces chunks).flatMap String.toList) =
        letters (((parsed "say").bind Json.asStr).getD "").toList

/-- **The keys are found**: no value ahead of a key is taken for it. A listed detail may be named as the
phrase's key if no colon follows it in the list. -/
structure Located (r : ReplyText) : Prop where
  action : ∀ k ∈ [ReplyKey.asks, .phrase, .say], ¬ inQuotes k.name <:+: r.action.text
  asks : ¬ inQuotes (ReplyKey.name .say) <:+: r.asksText
  phrase : ∀ before past, splitFirst (inQuotes (ReplyKey.name .phrase)) r.asksText = some (before, past) →
    ':' ∉ past

/-- **What is read is what is written**: an action's name and a phrase's id have no escape, no field
is named as a later key, no bracket is in the list of details, and `say` has no `\b`, no `\f` and no
surrogate pair. -/
structure Decodable (r : ReplyText) : Prop where
  action : r.action.isPlain ∨ AgentAction.parse r.action.value = .none
  fields : ∀ k ∈ [ReplyKey.asks, .phrase, .say], ¬ inQuotes k.name <:+: r.fieldsText
  asks : ']' ∉ r.asks.inner StringText.text
  phrase : ∀ id, r.phrase = some id → id.isPlain ∧ id.pieces ≠ []
  say : ∀ p ∈ r.say.pieces, p.isDecoded

theorem pushAll_raw (s : SayStream) (chunks : List (List Char)) :
    (s.pushAll chunks).2.raw = s.raw ++ chunks.flatten := by
  induction chunks generalizing s with
  | nil => simp [SayStream.pushAll]
  | cons delta deltas ih =>
    have here : (s.push delta).2.raw = s.raw ++ delta := by
      rw [SayStream.push]
      cases decodeSay (s.raw ++ delta) <;> rfl
    show ((s.push delta).2.pushAll deltas).2.raw = _
    rw [ih, here, List.flatten_cons, List.append_assoc]

/-- The values of the five keys that are read early. -/
theorem value_get (r : ReplyText) : r.value.get "action" = some (.str r.action.value) ∧
    r.value.get "fields" = some (r.fields.value FieldText.toJson) ∧
    r.value.get "asks" = some (r.asks.value fun s => .str s.value) ∧
    r.value.get "phrase" = some (optionValue r.phrase) ∧ r.value.get "say" = some (.str r.say.value) := by
  simp [ReplyText.value, Json.get]

/-- **The streamed reading is the parsed one**, where the keys are found, exactly if what is read is
what is written. -/
theorem streamed_agrees_iff (reads : Reads fromStr r) (located : Located r) :
    Agrees fromStr r ↔ Decodable r := by
  obtain ⟨getAction, getFields, getAsks, getPhrase, getSay⟩ := value_get r
  have agrees_iff : Agrees fromStr r ↔ ∀ chunks : List (List Char), chunks.flatten = r.text →
      (SayStream.pushAll {} chunks).2.action = some (AgentAction.parse r.action.value) ∧
      (SayStream.pushAll {} chunks).2.fields fromStr =
        (r.fields.value FieldText.toJson).asArray.map (·.filterMap fieldOf) ∧
      (SayStream.pushAll {} chunks).2.asks fromStr =
        (r.asks.value fun s => .str s.value).asArray.map (·.filterMap Json.asStr) ∧
      (SayStream.pushAll {} chunks).2.phrase = (optionValue r.phrase).asStr ∧
      letters ((SayStream.pieces chunks).flatMap String.toList) = letters r.say.value.toList := by
    simp only [Agrees, reads.whole, Option.bind_some, getAction, getFields, getAsks, getPhrase, getSay]
    rfl
  rw [agrees_iff]
  constructor
  · intro agrees
    have raw : (SayStream.pushAll {} [r.text]).2.raw = r.text := by simp [pushAll_raw]
    obtain ⟨action, fields, asks, phrase, say⟩ := agrees [r.text] (by simp)
    have absent := (fields_agrees_iff raw reads).mp fields
    exact {
      action := (action_agrees_iff raw).mp action
      fields := absent
      asks := (asks_agrees_iff raw reads (located.action .asks (by simp))
        (absent .asks (by simp))).mp asks
      phrase := (phrase_agrees_iff raw (located.action .phrase (by simp)) (absent .phrase (by simp))
        located.phrase).mp phrase
      say := (say_agrees_iff (by simp) (located.action .say (by simp)) (absent .say (by simp))
        located.asks).mp say }
  · intro decodable chunks same
    have raw : (SayStream.pushAll {} chunks).2.raw = r.text := by simp [pushAll_raw, same]
    have absent := decodable.fields
    exact ⟨(action_agrees_iff raw).mpr decodable.action, (fields_agrees_iff raw reads).mpr absent,
      (asks_agrees_iff raw reads (located.action .asks (by simp)) (absent .asks (by simp))).mpr
        decodable.asks,
      (phrase_agrees_iff raw (located.action .phrase (by simp)) (absent .phrase (by simp))
        located.phrase).mpr decodable.phrase,
      (say_agrees_iff same (located.action .say (by simp)) (absent .say (by simp))
        located.asks).mpr decodable.say⟩

/-- A reader that knows the texts of one reply. -/
def readerOf (r : ReplyText) (text : List Char) : Option Json :=
  if text = r.text then some r.value
  else if text = r.fieldsText then some (r.fields.value FieldText.toJson)
  else if text = r.asksText then some (r.asks.value fun s => .str s.value)
  else none

theorem length_text (r : ReplyText) :
    r.fieldsText.length < r.text.length ∧ r.asksText.length < r.text.length := by
  simp only [ReplyText.text, ReplyText.fromAction, ReplyText.fromFields, ReplyText.fromAsks,
    ReplyText.entry,
    member, List.length_append, List.length_cons]
  omega

theorem readerOf_reads (fields : ¬ r.asksText <+: r.fieldsText) (asks : ¬ r.fieldsText <+: r.asksText) :
    Reads (readerOf r) r := by
  obtain ⟨shortFields, shortAsks⟩ := length_text r
  have notWhole : ∀ part, part.length < r.text.length → part ≠ r.text := by
    rintro part short rfl
    omega
  have apart : r.asksText ≠ r.fieldsText := fun same => fields (same ▸ List.prefix_rfl)
  refine ⟨if_pos rfl, ?_, ?_, ?_, ?_⟩
  · rw [readerOf, if_neg (notWhole _ shortFields), if_pos rfl]
  · rw [readerOf, if_neg (notWhole _ shortAsks), if_neg apart, if_pos rfl]
  · intro part start proper
    have other : part ≠ r.asksText := by
      rintro rfl
      exact fields start
    rw [readerOf, if_neg (notWhole _ (Nat.lt_of_le_of_lt start.length_le shortFields)), if_neg proper,
      if_neg other]
  · intro part start proper
    have other : part ≠ r.fieldsText := by
      rintro rfl
      exact asks start
    rw [readerOf, if_neg (notWhole _ (Nat.lt_of_le_of_lt start.length_le shortAsks)), if_neg other,
      if_neg proper]

section Samples

def noGap : Gap := ⟨[], by simp⟩
def oneGap : Gap := ⟨[' '], by simp⟩
def oneSpace : Spaces := ⟨oneGap, noGap, oneGap, noGap⟩

/-- A reply with one field and one detail asked for. -/
def replyWith (value say : StringText) : ReplyText where
  lead := noGap
  trail := noGap
  spaces := fun _ => oneSpace
  action := StringText.ofPlain "none"
  fields := ⟨[(noGap, ⟨oneSpace, StringText.ofPlain "customer_name", oneSpace, value⟩, noGap)], noGap⟩
  asks := ⟨[(noGap, StringText.ofPlain "pickup", noGap)], noGap⟩
  phrase := none
  say := say
  task := none
  read := StringText.ofPlain "calm"
  tone := StringText.ofPlain "neutral"

theorem readerOf_replyWith (value say : StringText) :
    Reads (readerOf (replyWith value say)) (replyWith value say) :=
  readerOf_reads (by rintro ⟨rest, same⟩; cases same) (by rintro ⟨rest, same⟩; cases same)

/-- What the caller hears: "סגור.", a quote and a line break. -/
def heardSay : StringText :=
  ⟨(StringText.ofPlain "סגור. לאן").pieces ++ [.escape .quote, .escape .newline]⟩

/-- A ride for "דנה". -/
def rideReply : ReplyText := replyWith (StringText.ofPlain "דנה") heardSay

theorem names_absent {text : List Char} {keys : List ReplyKey}
    (none : ∀ k ∈ keys, splitFirst (inQuotes k.name) text = none) :
    ∀ k ∈ keys, ¬ inQuotes k.name <:+: text :=
  fun k listed => (splitFirst_eq_none_iff (inQuotes_ne_nil _)).mp (none k listed)

theorem rideReply_located : Located rideReply where
  action := names_absent (by decide)
  asks := (splitFirst_eq_none_iff (inQuotes_ne_nil _)).mp (by decide)
  phrase := fun before past found => nomatch found

theorem rideReply_decodable : Decodable rideReply where
  action := .inl rfl
  fields := names_absent (by decide)
  asks := by decide
  phrase := fun id some => nomatch some
  say := by decide

theorem streamed_agrees_ride : Agrees (readerOf rideReply) rideReply :=
  (streamed_agrees_iff (readerOf_replyWith _ _) rideReply_located).mpr rideReply_decodable

end Samples

/-- **A field that is named as a key is missed**: the fields of this reply are read as none. -/
theorem namedField_missed :
    ¬ ∀ (fromStr : List Char → Option Json) (r : ReplyText), Reads fromStr r → Agrees fromStr r := by
  intro claimed
  have reads := readerOf_replyWith (StringText.ofPlain "say") heardSay
  obtain ⟨-, fields, -⟩ := claimed _ _ reads [(replyWith (StringText.ofPlain "say") heardSay).text]
    (by simp)
  have named : inQuotes (ReplyKey.name .say) <:+:
    (replyWith (StringText.ofPlain "say") heardSay).fieldsText :=
    ⟨"[\x7b \"slot\": \"customer_name\", \"value\": ".toList, "\x7d]".toList, by decide⟩
  rw [fields_missed (by simp [pushAll_raw]) reads (k := .say) (by simp) named, reads.whole] at fields
  cases fields

end Agreement

end Readers

end Callora
