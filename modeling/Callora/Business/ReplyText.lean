/-
**The text of the agent's reply.**

A reply is written as JSON: `ReplyText` is its syntax, with the schema's keys in the schema's order, every
space and every escape, and `ReplyText.value` is what it says. The streamed reader looks for the keys by
their quoted names, and has an escape decoder of its own:

* `splitFirst_member`: a value without the name is passed, `inQuotes_ends`: in a string a quoted
  name is found at its end only;
* `decodeString_body`: what is heard of a string, where a surrogate pair is lost and `\b`, `\f` become
  letters; `letters_heard_iff`: exactly without these a string is heard as it is.
-/
import Callora.Business.SayStream

set_option linter.unusedSectionVars false

namespace Callora

open Callora.Text

section Strings

/-- A hexadecimal digit, in either case. -/
abbrev HexDigit := { c : Char // (hexDigit c).isSome }

/-- The four digits after `\u`. -/
structure Hex4 where
  a : HexDigit
  b : HexDigit
  c : HexDigit
  d : HexDigit

namespace Hex4

def text (hex : Hex4) : List Char := [hex.a.1, hex.b.1, hex.c.1, hex.d.1]

def digit (d : HexDigit) : Nat := (hexDigit d.1).get d.2

def value (hex : Hex4) : Nat :=
  16 * (16 * (16 * (16 * 0 + digit hex.a) + digit hex.b) + digit hex.c) + digit hex.d

end Hex4

/-- The escapes of one letter. -/
inductive Escape where
  | quote
  | backslash
  | slash
  | backspace
  | formFeed
  | newline
  | carriageReturn
  | tab
  deriving DecidableEq

namespace Escape

/-- The letter after the backslash. -/
def letter : Escape → Char
  | quote => '"'
  | backslash => '\\'
  | slash => '/'
  | backspace => 'b'
  | formFeed => 'f'
  | newline => 'n'
  | carriageReturn => 'r'
  | tab => 't'

/-- The character it stands for. -/
def value : Escape → Char
  | quote => '"'
  | backslash => '\\'
  | slash => '/'
  | backspace => Char.ofNat 0x08
  | formFeed => Char.ofNat 0x0C
  | newline => '\n'
  | carriageReturn => '\r'
  | tab => '\t'

end Escape

/-- A character that stands for itself in a string. -/
def Bare (c : Char) : Prop := c ≠ '"' ∧ c ≠ '\\' ∧ 0x20 ≤ c.toNat

instance (c : Char) : Decidable (Bare c) := inferInstanceAs (Decidable (_ ∧ _ ∧ _))

/-- The two halves of a surrogate pair. -/
def Surrogates (high low : Nat) : Prop :=
  (0xD800 ≤ high ∧ high ≤ 0xDBFF) ∧ 0xDC00 ≤ low ∧ low ≤ 0xDFFF

instance (high low : Nat) : Decidable (Surrogates high low) :=
  inferInstanceAs (Decidable ((_ ∧ _) ∧ _ ∧ _))

/-- One character of a string, as it is written. -/
inductive Piece where
  | plain (c : Char) (bare : Bare c)
  | escape (e : Escape)
  | unicode (hex : Hex4) (scalar : hex.value.isValidChar)
  | pair (high low : Hex4) (surrogates : Surrogates high.value low.value)

namespace Piece

/-- How it is written. -/
def text : Piece → List Char
  | plain c _ => [c]
  | escape e => ['\\', e.letter]
  | unicode hex _ => '\\' :: 'u' :: hex.text
  | pair high low _ => '\\' :: 'u' :: high.text ++ '\\' :: 'u' :: low.text

/-- The character it is. -/
def value : Piece → Char
  | plain c _ => c
  | escape e => e.value
  | unicode hex _ => Char.ofNat hex.value
  | pair high low _ => Char.ofNat (0x10000 + (high.value - 0xD800) * 0x400 + (low.value - 0xDC00))

def isPlain : Piece → Bool
  | plain _ _ => true
  | _ => false

/-- It is decoded as the character it is, or as another space. -/
def isDecoded : Piece → Bool
  | escape .backspace => false
  | escape .formFeed => false
  | pair _ _ _ => false
  | _ => true

end Piece

/-- A string, as it is written. -/
structure StringText where
  pieces : List Piece

namespace StringText

/-- What stands between its quotes. -/
def body (s : StringText) : List Char := s.pieces.flatMap Piece.text

def text (s : StringText) : List Char := '"' :: s.body ++ ['"']

def value (s : StringText) : String := String.ofList (s.pieces.map Piece.value)

/-- A string written without escapes. -/
def isPlain (s : StringText) : Bool := s.pieces.all Piece.isPlain

/-- The string of the characters that stand for themselves. -/
def ofPlain (s : String) : StringText :=
  ⟨s.toList.filterMap fun c => if bare : Bare c then some (.plain c bare) else none⟩

end StringText

end Strings

section Values

/-- The white space of JSON. -/
abbrev Gap := { cs : List Char // ∀ c ∈ cs, c ∈ [' ', '\t', '\n', '\r'] }

/-- The white space before a key, after it, before its value and after it. -/
structure Spaces where
  key : Gap
  colon : Gap
  value : Gap
  comma : Gap

/-- A key with its value. -/
def member (spaces : Spaces) (key : String) (value : List Char) : List Char :=
  spaces.key.1 ++
    (inQuotes key ++ (spaces.colon.1 ++ ':' :: (spaces.value.1 ++ (value ++ spaces.comma.1))))

/-- An array, as it is written; `empty` stands between the brackets of an empty one. -/
structure ArrayText (α : Type) where
  items : List (Gap × α × Gap)
  empty : Gap

namespace ArrayText

variable {α : Type}

/-- What stands between its brackets. -/
def inner (text : α → List Char) (a : ArrayText α) : List Char :=
  if a.items.isEmpty then a.empty.1
  else ((a.items.map fun (before, item, past) => before.1 ++ text item ++ past.1).intersperse
    [',']).flatten

def text (text : α → List Char) (a : ArrayText α) : List Char := '[' :: a.inner text ++ [']']

def value (value : α → Json) (a : ArrayText α) : Json := .arr (a.items.map fun (_, item, _) => value item)

end ArrayText

/-- A field of the reply. -/
structure FieldText where
  slotSpaces : Spaces
  slot : StringText
  valueSpaces : Spaces
  value : StringText

namespace FieldText

def text (f : FieldText) : List Char :=
  '{' :: member f.slotSpaces "slot" f.slot.text ++
    ',' :: member f.valueSpaces "value" f.value.text ++ ['}']

def toJson (f : FieldText) : Json := .obj [("slot", .str f.slot.value), ("value", .str f.value.value)]

end FieldText

/-- A string or `null`. -/
def optionText : Option StringText → List Char
  | none => "null".toList
  | some s => s.text

def optionValue : Option StringText → Json
  | none => .null
  | some s => .str s.value

end Values

/-- The keys of a reply, in the schema's order. -/
inductive ReplyKey where
  | action
  | fields
  | asks
  | phrase
  | say
  | task
  | read
  | tone
  deriving DecidableEq

def ReplyKey.name : ReplyKey → String
  | action => "action"
  | fields => "fields"
  | asks => "asks"
  | phrase => "phrase"
  | say => "say"
  | task => "task"
  | read => "read"
  | tone => "tone"

/-- **A reply, as it is written.** The names of the keys stand as they are, without escapes. -/
structure ReplyText where
  lead : Gap
  trail : Gap
  spaces : ReplyKey → Spaces
  action : StringText
  fields : ArrayText FieldText
  asks : ArrayText StringText
  phrase : Option StringText
  say : StringText
  task : Option StringText
  read : StringText
  tone : StringText

namespace ReplyText

variable (r : ReplyText)

/-- A key of the reply with its value. -/
def entry (key : ReplyKey) (value : List Char) : List Char := member (r.spaces key) key.name value

def fieldsText : List Char := r.fields.text FieldText.text
def asksText : List Char := r.asks.text StringText.text

/-- The reply after its `say`. -/
def tail : List Char :=
  ',' :: (r.entry .task (optionText r.task) ++ ',' :: (r.entry .read r.read.text ++
    ',' :: (r.entry .tone r.tone.text ++ '}' :: r.trail.1)))

def fromSay : List Char := r.entry .say r.say.text ++ r.tail
def fromPhrase : List Char := r.entry .phrase (optionText r.phrase) ++ ',' :: r.fromSay
def fromAsks : List Char := r.entry .asks r.asksText ++ ',' :: r.fromPhrase
def fromFields : List Char := r.entry .fields r.fieldsText ++ ',' :: r.fromAsks
def fromAction : List Char := r.entry .action r.action.text ++ ',' :: r.fromFields

/-- **The text of the reply.** -/
def text : List Char := r.lead.1 ++ '{' :: r.fromAction

/-- **What the reply says.** -/
def value : Json :=
  .obj [("action", .str r.action.value), ("fields", r.fields.value FieldText.toJson),
    ("asks", r.asks.value fun s => .str s.value), ("phrase", optionValue r.phrase),
    ("say", .str r.say.value),
    ("task", optionValue r.task), ("read", .str r.read.value), ("tone", .str r.tone.value)]

end ReplyText

section Found

/-- No key has a character of the punctuation around it. -/
theorem name_outside (k : ReplyKey) :
    ∀ c ∈ [' ', '\t', '\n', '\r', ':', ',', '{', '}', '[', ']'], c ∉ inQuotes k.name := by
  intro c listed
  simp only [List.mem_cons, List.not_mem_nil, or_false] at listed
  rcases listed with rfl | rfl | rfl | rfl | rfl | rfl | rfl | rfl | rfl | rfl <;> cases k <;>
    simp [inQuotes, ReplyKey.name]

theorem gap_outside (g : Gap) (k : ReplyKey) : ∀ c ∈ g.1, c ∉ inQuotes k.name := by
  intro c listed
  refine name_outside k c ?_
  have blank := g.2 c listed
  simp only [List.mem_cons, List.not_mem_nil, or_false] at blank ⊢
  rcases blank with rfl | rfl | rfl | rfl <;> simp

theorem inQuotes_ne_nil (key : String) : inQuotes key ≠ [] := List.cons_ne_nil _ _

theorem inQuotes_other {k other : ReplyKey} (different : k ≠ other) :
    ¬ inQuotes k.name <:+: inQuotes other.name := by
  rw [← splitFirst_eq_none_iff (inQuotes_ne_nil _)]
  cases k <;> cases other <;> first | exact absurd rfl different | rfl

/-- A quoted name is found in a key's text or in its value's. -/
theorem infix_member_iff (k other : ReplyKey) (spaces : Spaces) (value : List Char) :
    inQuotes k.name <:+: member spaces other.name value ↔
      inQuotes k.name <:+: inQuotes other.name ∨ inQuotes k.name <:+: value := by
  have some := inQuotes_ne_nil k.name
  rw [member, infix_pass_iff (gap_outside _ k) some, ← List.append_assoc,
    infix_append_cons_iff (name_outside k ':' (by simp)) some,
    infix_append_outside_iff (gap_outside _ k) some,
    infix_pass_iff (gap_outside _ k) some, infix_append_outside_iff (gap_outside _ k) some]

/-- **A value without the name is passed.** -/
theorem splitFirst_member {k other : ReplyKey} (different : k ≠ other) {value : List Char}
    (absent : ¬ inQuotes k.name <:+: value) (spaces : Spaces) (rest : List Char) :
    splitFirst (inQuotes k.name) (member spaces other.name value ++ ',' :: rest) =
      (splitFirst (inQuotes k.name) rest).map fun (before, after) =>
        (member spaces other.name value ++ ',' :: before, after) := by
  refine splitFirst_skip ?_ (name_outside k ',' (by simp)) (inQuotes_ne_nil _)
  rw [infix_member_iff]
  exact not_or.mpr ⟨inQuotes_other different, absent⟩

/-- A key is found where it stands. -/
theorem splitFirst_member_self (k : ReplyKey) (spaces : Spaces) (value rest : List Char) :
    splitFirst (inQuotes k.name) (member spaces k.name value ++ rest) = some (spaces.key.1,
      spaces.colon.1 ++ ':' :: (spaces.value.1 ++ (value ++ (spaces.comma.1 ++ rest)))) := by
  rw [member, List.append_assoc, splitFirst_pass (gap_outside _ k) (inQuotes_ne_nil _), List.append_assoc,
    splitFirst_here _ _ (inQuotes_ne_nil _)]
  simp

/-- A name found in a value is found there. -/
theorem splitFirst_member_value {k : ReplyKey} (other : ReplyKey) (different : k ≠ other)
    {value before after : List Char}
    (found : splitFirst (inQuotes k.name) value = some (before, after)) (spaces : Spaces)
    (rest : List Char) :
    ∃ ahead, splitFirst (inQuotes k.name) (member spaces other.name value ++ rest) =
      some (ahead, after ++ (spaces.comma.1 ++ rest)) := by
  have some := inQuotes_ne_nil k.name
  have key : ¬ inQuotes k.name <:+: inQuotes other.name ++ spaces.colon.1 := by
    rw [infix_append_outside_iff (gap_outside _ k) some]
    exact inQuotes_other different
  rw [member, List.append_assoc, splitFirst_pass (gap_outside _ k) some]
  simp only [List.append_assoc, List.cons_append]
  rw [← List.append_assoc (inQuotes other.name), splitFirst_skip key (name_outside k ':' (by simp)) some,
    splitFirst_pass (gap_outside _ k) some, splitFirst_append found]
  exact ⟨_, rfl⟩

end Found

namespace Piece

/-- What is heard of it: a surrogate is no character, and an escape the decoder does not know is its
letter. -/
def heard : Piece → List Char
  | plain c _ => [c]
  | escape .newline => [' ']
  | escape .carriageReturn => [' ']
  | escape .tab => [' ']
  | escape e => [e.letter]
  | unicode hex _ => [Char.ofNat hex.value]
  | pair _ _ _ => []

end Piece

/-- What is heard of a string. -/
def StringText.heard (s : StringText) : List Char := s.pieces.flatMap Piece.heard

section Heard

theorem hexDigit_ne_quote (d : HexDigit) : d.1 ≠ '"' := by
  intro same
  have digit := d.2
  rw [same] at digit
  exact absurd digit (by decide)

theorem hexDigit_ne_plus (d : HexDigit) : d.1 ≠ '+' := by
  intro same
  have digit := d.2
  rw [same] at digit
  exact absurd digit (by decide)

theorem hexDigit_eq (d : HexDigit) : hexDigit d.1 = some (Hex4.digit d) := (Option.some_get d.2).symm

theorem hexDigit_lt (d : HexDigit) : Hex4.digit d < 16 := by
  have read := hexDigit_eq d
  rw [hexDigit] at read
  by_cases decimal : '0' ≤ d.1 ∧ d.1 ≤ '9'
  · have top : d.1.toNat ≤ 57 := decimal.2
    rw [if_pos decimal] at read
    have same := Option.some.inj read
    omega
  rw [if_neg decimal] at read
  by_cases small : 'a' ≤ d.1 ∧ d.1 ≤ 'f'
  · have top : d.1.toNat ≤ 102 := small.2
    rw [if_pos small] at read
    have same := Option.some.inj read
    omega
  rw [if_neg small] at read
  by_cases large : 'A' ≤ d.1 ∧ d.1 ≤ 'F'
  · have top : d.1.toNat ≤ 70 := large.2
    rw [if_pos large] at read
    have same := Option.some.inj read
    omega
  · rw [if_neg large] at read
    cases read

theorem Hex4.value_lt (hex : Hex4) : hex.value < 2 ^ 32 := by
  have a := hexDigit_lt hex.a
  have b := hexDigit_lt hex.b
  have c := hexDigit_lt hex.c
  have d := hexDigit_lt hex.d
  rw [Hex4.value]
  omega

theorem fromHex_text (hex : Hex4) : fromHex hex.text = some hex.value := by
  have digits : hexValue hex.text = some hex.value := by
    simp [hexValue, Hex4.text, Hex4.value, hexDigit_eq]
  have unsigned : ¬ hex.text.head? = some '+' := fun sign => hexDigit_ne_plus hex.a (Option.some.inj sign)
  have small := hex.value_lt
  rw [fromHex, if_neg unsigned]
  show (hexValue hex.text).filter (· < 2 ^ 32) = _
  rw [digits, Option.filter_some, if_pos (by simpa using small)]

theorem unicodeEscape_text (hex : Hex4) :
    unicodeEscape hex.text = if hex.value.isValidChar then some (Char.ofNat hex.value) else none := by
  rw [unicodeEscape, fromHex_text]
  rfl

/-- A half of a surrogate pair is no character. -/
theorem surrogates_invalid {high low : Nat} (halves : Surrogates high low) :
    ¬ high.isValidChar ∧ ¬ low.isValidChar := by
  unfold Surrogates at halves
  unfold Nat.isValidChar
  omega

theorem put_put (cs ds : List Char) (read : List Char × Bool) :
    put cs (put ds read) = put (cs ++ ds) read := by
  simp [put]

theorem decodeString_piece (p : Piece) (rest : List Char) :
    decodeString (p.text ++ rest) = put p.heard (decodeString rest) := by
  cases p with
  | plain c bare => exact decodeString_plain bare.1 bare.2.1 rest
  | escape e =>
    cases e with
    | newline => exact decodeString_space (by decide) rest
    | carriageReturn => exact decodeString_space (by decide) rest
    | tab => exact decodeString_space (by decide) rest
    | _ => exact decodeString_escape (by decide) (by decide) rest
  | unicode hex scalar =>
    have read := decodeString_unicode hex.a.1 hex.b.1 hex.c.1 hex.d.1 rest
    rw [show [hex.a.1, hex.b.1, hex.c.1, hex.d.1] = hex.text from rfl, unicodeEscape_text,
      if_pos scalar] at read
    exact read
  | pair high low surrogates =>
    obtain ⟨noHigh, noLow⟩ := surrogates_invalid surrogates
    have first :=
      decodeString_unicode high.a.1 high.b.1 high.c.1 high.d.1 ('\\' :: 'u' :: low.text ++ rest)
    have second := decodeString_unicode low.a.1 low.b.1 low.c.1 low.d.1 rest
    rw [show [high.a.1, high.b.1, high.c.1, high.d.1] = high.text from rfl, unicodeEscape_text,
      if_neg noHigh] at first
    rw [show [low.a.1, low.b.1, low.c.1, low.d.1] = low.text from rfl, unicodeEscape_text,
      if_neg noLow] at second
    refine first.trans ?_
    show put [] (decodeString ('\\' :: 'u' :: low.a.1 :: low.b.1 :: low.c.1 :: low.d.1 :: rest)) = _
    rw [second, put_put]
    rfl

/-- **What is heard of a string**, up to its closing quote. -/
theorem decodeString_body (s : StringText) (rest : List Char) :
    decodeString (s.body ++ '"' :: rest) = (s.heard, true) := by
  obtain ⟨pieces⟩ := s
  rw [StringText.body, StringText.heard]
  induction pieces with
  | nil => exact decodeString_quote rest
  | cons p pieces ih =>
    rw [List.flatMap_cons, List.append_assoc, decodeString_piece, ih, List.flatMap_cons]
    rfl

end Heard

section Quotes

theorem quote_mem_hex (hex : Hex4) : '"' ∉ hex.text := by
  simp [Hex4.text, (hexDigit_ne_quote _).symm]

/-- A quote in a string is written after a backslash. -/
theorem Piece.text_quote {p : Piece} {before after : List Char}
    (written : p.text = before ++ '"' :: after) :
    ∃ front, before = front ++ ['\\'] := by
  have listed : '"' ∈ p.text := by simp [written]
  cases p with
  | plain c bare => exact absurd (List.mem_singleton.mp listed).symm bare.1
  | escape e =>
    cases before with
    | nil => cases written
    | cons c before =>
      obtain ⟨rfl, later⟩ := List.cons.inj written
      cases before with
      | nil => exact ⟨[], rfl⟩
      | cons d before =>
        have none := congrArg List.length later
        simp at none
  | unicode hex scalar =>
    have none := quote_mem_hex hex
    simp [Piece.text, none] at listed
  | pair high low surrogates =>
    have noHigh := quote_mem_hex high
    have noLow := quote_mem_hex low
    simp [Piece.text, noHigh, noLow] at listed

theorem body_quote {pieces : List Piece} {before after : List Char}
    (written : pieces.flatMap Piece.text = before ++ '"' :: after) :
    ∃ front, before = front ++ ['\\'] := by
  induction pieces generalizing before with
  | nil => simp at written
  | cons p pieces ih =>
    rw [List.flatMap_cons] at written
    rcases List.append_eq_append_iff.mp written with ⟨later, here, rest⟩ | ⟨cut, here, rest⟩
    · obtain ⟨front, same⟩ := ih rest
      exact ⟨p.text ++ front, by rw [here, same, List.append_assoc]⟩
    · cases cut with
      | nil =>
        have start : pieces.flatMap Piece.text = [] ++ '"' :: after := rest.symm
        obtain ⟨front, same⟩ := ih start
        exact absurd same (by simp)
      | cons c cut =>
        obtain ⟨rfl, -⟩ := List.cons.inj rest
        exact Piece.text_quote here

theorem name_last (k : ReplyKey) (front : List Char) : inQuotes k.name ≠ front ++ ['\\', '"'] := by
  intro same
  have last := congrArg (fun cs => cs.reverse.tail.head?) same
  cases k <;> simp [inQuotes, ReplyKey.name] at last

/-- **In a string a quoted name is found at its end only.** -/
theorem inQuotes_ends {k : ReplyKey} {s : StringText} {before past : List Char}
    (found : splitFirst (inQuotes k.name) s.text = some (before, past)) : past = [] := by
  have written := splitFirst_eq_append found
  rcases List.eq_nil_or_concat past with empty | ⟨middle, c, rfl⟩
  · exact empty
  · exfalso
    rw [List.concat_eq_append, StringText.text, ← List.append_assoc] at written
    obtain ⟨start, -⟩ := List.append_inj' written rfl
    -- The name's closing quote is inside the string, so a backslash stands before it.
    have closing : before ++ inQuotes k.name ++ middle =
      (before ++ '"' :: k.name.toList) ++ '"' :: middle := by
      simp [inQuotes]
    rw [closing] at start
    cases before with
    | nil =>
      rw [List.nil_append] at start
      obtain ⟨-, inside⟩ := List.cons.inj start
      obtain ⟨front, ends⟩ := body_quote inside
      exact name_last k ('"' :: front) (by simp [inQuotes, ends])
    | cons c before =>
      obtain ⟨-, inside⟩ := List.cons.inj start
      obtain ⟨front, ends⟩ := body_quote inside
      have last := congrArg (fun cs => cs.reverse.head?) ends
      cases k <;> simp [ReplyKey.name] at last

theorem plain_text {p : Piece} (plain : p.isPlain) : p.text = [p.value] := by
  cases p with
  | plain c bare => rfl
  | _ => cases plain

/-- An escape is longer than what it is. -/
theorem escaped_text {p : Piece} (escaped : ¬ p.isPlain) : ∃ rest, p.text = '\\' :: rest ∧ rest ≠ [] := by
  cases p with
  | plain c bare => exact absurd rfl escaped
  | escape e => exact ⟨[e.letter], rfl, List.cons_ne_nil _ _⟩
  | unicode hex scalar => exact ⟨'u' :: hex.text, rfl, List.cons_ne_nil _ _⟩
  | pair high low surrogates =>
    exact ⟨'u' :: high.text ++ '\\' :: 'u' :: low.text, rfl, List.cons_ne_nil _ _⟩

theorem quote_mem_text {p : Piece} (listed : '"' ∈ p.text) : p.value = '"' := by
  cases p with
  | plain c bare => exact absurd (List.mem_singleton.mp listed).symm bare.1
  | escape e =>
    cases e with
    | quote => rfl
    | _ => exact absurd listed (by decide)
  | unicode hex scalar =>
    have none := quote_mem_hex hex
    simp [Piece.text, none] at listed
  | pair high low surrogates =>
    have noHigh := quote_mem_hex high
    have noLow := quote_mem_hex low
    simp [Piece.text, noHigh, noLow] at listed

theorem plain_body {s : StringText} (plain : s.isPlain) : s.body = s.value.toList := by
  rw [StringText.isPlain, List.all_eq_true] at plain
  rw [StringText.body, StringText.value, String.toList_ofList, List.map_eq_flatMap]
  exact List.flatMap_congr fun p listed => plain_text (plain p listed)

theorem text_length (p : Piece) : 0 < p.text.length ∧ (p.text.length = 1 → p.isPlain) := by
  by_cases plain : p.isPlain
  · rw [plain_text plain]
    exact ⟨Nat.one_pos, fun _ => plain⟩
  · obtain ⟨rest, written, some⟩ := escaped_text plain
    have more := List.length_pos_of_ne_nil some
    rw [written, List.length_cons]
    exact ⟨Nat.succ_pos _, fun short => by omega⟩

theorem length_body (pieces : List Piece) : pieces.length ≤ (pieces.flatMap Piece.text).length ∧
    ((pieces.flatMap Piece.text).length = pieces.length → pieces.all Piece.isPlain) := by
  induction pieces with
  | nil => simp
  | cons p pieces ih =>
    obtain ⟨pos, single⟩ := text_length p
    rw [List.flatMap_cons, List.length_append, List.length_cons]
    refine ⟨by omega, ?_⟩
    intro same
    rw [List.all_cons, Bool.and_eq_true]
    exact ⟨single (by omega), ih.2 (by omega)⟩

theorem plain_quote {s : StringText} (plain : s.isPlain) : '"' ∉ s.body := by
  intro listed
  rw [StringText.isPlain, List.all_eq_true] at plain
  obtain ⟨p, member, listed⟩ := List.mem_flatMap.mp listed
  have here := plain p member
  cases p with
  | plain c bare => exact bare.1 (List.mem_singleton.mp listed).symm
  | _ => cases here

/-- The first quote of a string with escapes stands after a backslash. -/
theorem escaped_name {s : StringText} (escaped : ¬ s.isPlain) {rest name after : List Char}
    (found : splitFirst ['"'] (s.body ++ '"' :: rest) = some (name, after)) : '\\' ∈ name := by
  obtain ⟨pieces⟩ := s
  simp only [StringText.isPlain, StringText.body] at escaped found
  induction pieces generalizing name with
  | nil => exact absurd rfl escaped
  | cons p pieces ih =>
    rw [List.flatMap_cons, List.append_assoc] at found
    by_cases here : p.isPlain
    · cases p with
      | plain c bare =>
        have later : ¬ pieces.all Piece.isPlain := by simpa [here] using escaped
        have other : ¬ ['"'] <+: c :: (pieces.flatMap Piece.text ++ '"' :: rest) := by simp [bare.1.symm]
        simp only [Piece.text, List.singleton_append] at found
        rw [splitFirst_cons_other other] at found
        obtain ⟨⟨name', after'⟩, inside, same⟩ := Option.map_eq_some_iff.mp found
        obtain ⟨rfl, rfl⟩ := Prod.mk.inj same
        exact List.mem_cons_of_mem c (ih later inside)
      | _ => cases here
    · obtain ⟨text, written, -⟩ := escaped_text here
      rw [written, List.cons_append, splitFirst_cons_other (by simp)] at found
      obtain ⟨⟨name', after'⟩, found, same⟩ := Option.map_eq_some_iff.mp found
      obtain ⟨rfl, rfl⟩ := Prod.mk.inj same
      exact List.mem_cons_self

/-- A string with escapes is not what stands before its first quote. -/
theorem escaped_name_ne {s : StringText} (escaped : ¬ s.isPlain) {rest name after : List Char}
    (found : splitFirst ['"'] (s.body ++ '"' :: rest) = some (name, after)) : name ≠ s.value.toList := by
  rintro rfl
  have unquoted := splitFirst_char_absent found
  have noQuote : '"' ∉ s.body := by
    intro listed
    obtain ⟨p, member, listed⟩ := List.mem_flatMap.mp listed
    refine unquoted ?_
    rw [StringText.value, String.toList_ofList]
    exact List.mem_map.mpr ⟨p, member, quote_mem_text listed⟩
  rw [splitFirst_char noQuote] at found
  have same := congrArg List.length (Prod.mk.inj (Option.some.inj found)).1
  rw [StringText.value, String.toList_ofList, List.length_map] at same
  exact escaped ((length_body s.pieces).2 same)

end Quotes

section Letters

open SayStream (letters letters_append)

/-- The characters of a string with their own escapes are heard, and others are not. -/
theorem letters_decoded {p : Piece} (decoded : p.isDecoded) : letters p.heard = letters [p.value] := by
  cases p with
  | plain c bare => rfl
  | escape e => cases e <;> first | rfl | exact absurd decoded (by decide)
  | unicode hex scalar => rfl
  | pair high low surrogates => cases decoded

theorem toNat_ofNat {n : Nat} (valid : n.isValidChar) : (Char.ofNat n).toNat = n := by
  rw [Char.ofNat, dif_pos valid]
  rfl

/-- What a surrogate pair stands for is no ASCII character and no space. -/
theorem pair_value {high low : Hex4} (surrogates : Surrogates high.value low.value) :
    0x10000 ≤ (Piece.pair high low surrogates).value.toNat := by
  have valid : (0x10000 + (high.value - 0xD800) * 0x400 + (low.value - 0xDC00)).isValidChar := by
    unfold Surrogates at surrogates
    unfold Nat.isValidChar
    omega
  rw [Piece.value, toNat_ofNat valid]
  omega

theorem letters_pair {high low : Hex4} (surrogates : Surrogates high.value low.value) :
    letters [(Piece.pair high low surrogates).value] = [(Piece.pair high low surrogates).value] := by
  have big := pair_value surrogates
  have seen : isWhitespace (Piece.pair high low surrogates).value = false := by
    simp only [isWhitespace, Bool.or_eq_false_iff, Bool.and_eq_false_iff, decide_eq_false_iff_not,
      beq_eq_false_iff_ne]
    omega
  simp [letters, seen]

def isFormFeed : Piece → Bool
  | .escape .formFeed => true
  | _ => false

def isBackspace : Piece → Bool
  | .escape .backspace => true
  | _ => false

def isPair : Piece → Bool
  | .pair _ _ _ => true
  | _ => false

theorem pair_ne {high low : Hex4} (surrogates : Surrogates high.value low.value) {c : Char}
    (small : c.toNat < 0x10000) : (Piece.pair high low surrogates).value ≠ c := by
  intro same
  have big := pair_value surrogates
  rw [same] at big
  omega

theorem count_formFeed (p : Piece) :
    (letters p.heard).count 'f' = (letters [p.value]).count 'f' + if isFormFeed p then 1 else 0 := by
  cases p with
  | plain c bare => rfl
  | escape e => cases e <;> rfl
  | unicode hex scalar => rfl
  | pair high low surrogates =>
    rw [letters_pair]
    simp [Piece.heard, letters, isFormFeed, pair_ne surrogates (c := 'f') (by decide)]

theorem count_backspace (p : Piece) :
    (letters [p.value]).count (Char.ofNat 8) =
      (letters p.heard).count (Char.ofNat 8) + if isBackspace p then 1 else 0 := by
  cases p with
  | plain c bare => rfl
  | escape e => cases e <;> rfl
  | unicode hex scalar => rfl
  | pair high low surrogates =>
    rw [letters_pair]
    simp [Piece.heard, letters, isBackspace, pair_ne surrogates (c := Char.ofNat 8) (by decide)]

theorem length_pair (p : Piece) : (letters [p.value]).length + (if isFormFeed p then 1 else 0) =
    (letters p.heard).length + if isPair p then 1 else 0 := by
  cases p with
  | plain c bare => rfl
  | escape e => cases e <;> rfl
  | unicode hex scalar => rfl
  | pair high low surrogates =>
    rw [letters_pair]
    rfl

theorem letters_value_cons (p : Piece) (pieces : List Piece) :
    letters ((p :: pieces).map Piece.value) = letters [p.value] ++ letters (pieces.map Piece.value) := by
  rw [← letters_append]
  rfl

/-- What is heard of a string counts its form feeds as letters, and lacks its backspaces and surrogate
pairs. -/
theorem heard_counts (pieces : List Piece) :
    (letters (pieces.flatMap Piece.heard)).count 'f' =
        (letters (pieces.map Piece.value)).count 'f' + pieces.countP isFormFeed ∧
      (letters (pieces.map Piece.value)).count (Char.ofNat 8) =
        (letters (pieces.flatMap Piece.heard)).count (Char.ofNat 8) + pieces.countP isBackspace ∧
      (letters (pieces.map Piece.value)).length + pieces.countP isFormFeed =
        (letters (pieces.flatMap Piece.heard)).length + pieces.countP isPair := by
  induction pieces with
  | nil => exact ⟨rfl, rfl, rfl⟩
  | cons p pieces ih =>
    obtain ⟨feeds, backspaces, lengths⟩ := ih
    have feed := count_formFeed p
    have backspace := count_backspace p
    have length := length_pair p
    simp only [letters_value_cons, List.flatMap_cons, letters_append, List.count_append,
      List.length_append,
      List.countP_cons]
    omega

theorem isDecoded_iff (p : Piece) :
    p.isDecoded ↔ isFormFeed p = false ∧ isBackspace p = false ∧ isPair p = false := by
  cases p with
  | escape e => cases e <;> simp [Piece.isDecoded, isFormFeed, isBackspace, isPair]
  | _ => simp [Piece.isDecoded, isFormFeed, isBackspace, isPair]

/-- **A string is heard as it is** exactly when it has no `\b`, no `\f` and no surrogate pair. -/
theorem letters_heard_iff (s : StringText) :
    letters s.heard = letters s.value.toList ↔ ∀ p ∈ s.pieces, p.isDecoded := by
  rw [StringText.heard, StringText.value, String.toList_ofList]
  constructor
  · intro same p listed
    obtain ⟨feeds, backspaces, lengths⟩ := heard_counts s.pieces
    rw [same] at feeds backspaces lengths
    have noFeed : s.pieces.countP isFormFeed = 0 := by omega
    have noBackspace : s.pieces.countP isBackspace = 0 := by omega
    have noPair : s.pieces.countP isPair = 0 := by omega
    rw [List.countP_eq_zero] at noFeed noBackspace noPair
    exact (isDecoded_iff p).mpr ⟨by simpa using noFeed p listed, by simpa using noBackspace p listed,
      by simpa using noPair p listed⟩
  · intro decoded
    obtain ⟨pieces⟩ := s
    induction pieces with
    | nil => rfl
    | cons p pieces ih =>
      rw [List.flatMap_cons, letters_append, letters_value_cons,
        letters_decoded (decoded p List.mem_cons_self),
        ih fun q listed => decoded q (List.mem_cons_of_mem p listed)]

end Letters

end Callora
