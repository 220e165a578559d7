/-
**The agent's reply while it streams in.**

`SayStream` reads the reply of the model before it is complete: each chunk is added to the text, and the
finished sentences of its `say` are handed out. `decodeSay` is the `say` decoded so far; the other values
(`action`, `fields`, `asks`, `phrase`) are looked for by their quoted names.

* `decodeSay_append`: **decoding is monotone.** What is decoded of the beginning stays, and a closed `say`
  is final; a cut inside an escape or a name decodes to less, never to something else;
* `sentences_append`: the sentences of a longer text are those of its beginning, and those of what
  was left;
* `pieces_flatten`, `letters_pieces`: the chunks do not matter, and every character that is decoded
  and no space is said once, in order.

The texts are lists of characters, and an offset counts characters.
-/
import Callora.Business.Render
import Callora.Library.Chunks
import Callora.Text.Search

set_option linter.unusedSectionVars false

namespace Callora

open Callora.Text

namespace AgentAction

/-- `AgentAction::ALL`. -/
def all : List (String × AgentAction) :=
  [("none", none), ("read_back", readBack), ("submit", submit), ("transfer", transfer),
    ("end_call", endCall)]

/-- `AgentAction::parse`: an unknown name is no action. -/
def parse (s : String) : AgentAction := ((all.find? fun (n, _) => n == s).map Prod.snd).getD none

end AgentAction

section Escapes

/-- `char::to_digit(16)`. -/
def hexDigit (c : Char) : Option Nat :=
  if '0' ≤ c ∧ c ≤ '9' then some (c.toNat - 48)
  else if 'a' ≤ c ∧ c ≤ 'f' then some (c.toNat - 87)
  else if 'A' ≤ c ∧ c ≤ 'F' then some (c.toNat - 55)
  else none

/-- The value of hexadecimal digits. -/
def hexValue (cs : List Char) : Option Nat :=
  cs.foldlM (fun n c => (hexDigit c).map (16 * n + ·)) 0

/-- `u32::from_str_radix(_, 16)`: a sign may stand before the digits. -/
def fromHex (cs : List Char) : Option Nat :=
  let digits := if cs.head? = some '+' then cs.tail else cs
  if digits.isEmpty then none else (hexValue digits).filter (· < 2 ^ 32)

/-- `char::from_u32`: a surrogate is no character. -/
def fromU32 (n : Nat) : Option Char := if n.isValidChar then some (Char.ofNat n) else none

/-- The character of `\u` and four letters, if they make one. -/
def unicodeEscape (hex : List Char) : Option Char := (fromHex hex).bind fromU32

end Escapes

section Decoding

/-- Characters decoded before the rest. -/
def put (cs : List Char) (read : List Char × Bool) : List Char × Bool := (cs ++ read.1, read.2)

/-- The string after its opening quote, decoded, and whether its closing quote has arrived. -/
def decodeString : List Char → List Char × Bool
  | [] => ([], false)
  | ch :: chars =>
    if ch = '"' then ([], true)
    else if ch = '\\' then
      match chars with
      | [] => ([], false)
      | escaped :: chars =>
        if escaped = 'n' ∨ escaped = 't' ∨ escaped = 'r' then put [' '] (decodeString chars)
        else if escaped = 'u' then
          match chars with
          | a :: b :: c :: d :: chars => put (unicodeEscape [a, b, c, d]).toList (decodeString chars)
          -- Fewer than four letters: nothing is read of them, and the text ends here.
          | _ => ([], false)
        else put [escaped] (decodeString chars)
    else put [ch] (decodeString chars)

/-- A key, in its quotes. -/
def inQuotes (key : String) : List Char := '"' :: key.toList ++ ['"']

/-- **`decode_say`**. -/
def decodeSay (raw : List Char) : Option (List Char × Bool) := do
  let (_, after) ← splitFirst (inQuotes "say") raw
  let (_, after) ← splitFirst [':'] after
  let (gap, after) ← splitFirst ['"'] after
  if gap.all isWhitespace then some (decodeString after) else none

end Decoding

section Sentences

/-- A mark that ends a sentence, by what follows it: "3.5" and "..." do not. -/
def endsSentence (closed : Bool) (c : Char) (rest : List Char) : Bool :=
  (c == '.' || c == '?' || c == '!') &&
    match rest with
    | n :: _ => isWhitespace n
    | [] => closed

/-- The finished sentences of a text; `piece` is what stands before it since the last one. -/
def sentences (closed : Bool) : List Char → List Char → List (List Char)
  | _, [] => []
  | piece, c :: rest =>
    if endsSentence closed c rest then (piece ++ [c]) :: sentences closed [] rest
    else sentences closed (piece ++ [c]) rest

/-- What is said: trimmed, and not empty. -/
def spoken (pieces : List (List Char)) : List String :=
  (pieces.map fun piece => trim (String.ofList piece)).filter fun s => !s.isEmpty

end Sentences

/-- `SayStream`: the reply so far, and how many characters of its decoded `say` were handed out. -/
structure SayStream where
  raw : List Char := []
  emitted : Nat := 0

namespace SayStream

/-- **`push`**: the sentences a chunk completes. -/
def push (s : SayStream) (delta : List Char) : List String × SayStream :=
  let raw := s.raw ++ delta
  match decodeSay raw with
  | none => ([], ⟨raw, s.emitted⟩)
  | some (text, closed) =>
    let ended := sentences closed [] (text.drop s.emitted)
    (spoken ended, ⟨raw, s.emitted + ended.flatten.length⟩)

/-- **`rest`**: what is left of `say`, a last sentence with no mark. -/
def rest (s : SayStream) : Option String × SayStream :=
  match decodeSay s.raw with
  | none => (none, s)
  | some (text, _) =>
    let left := trim (String.ofList (text.drop s.emitted))
    (if left.isEmpty then none else some left, ⟨s.raw, text.length⟩)

/-- The sentences of the chunks, one after the other. -/
def pushAll : SayStream → List (List Char) → List String × SayStream
  | s, [] => ([], s)
  | s, delta :: deltas =>
    let (out, s) := s.push delta
    let (more, s) := s.pushAll deltas
    (out ++ more, s)

/-- **What is said of a reply** that streams in: the sentences, then what is left. -/
def pieces (chunks : List (List Char)) : List String :=
  let (out, s) := pushAll {} chunks
  out ++ s.rest.1.toList

/-- `action`: the action, once the reply has got that far. -/
def action (s : SayStream) : Option AgentAction := do
  let (_, after) ← splitFirst (inQuotes "action") s.raw
  let (_, value) ← splitFirst ['"'] after
  let (name, _) ← splitFirst ['"'] value
  some (AgentAction.parse (String.ofList name))

/-- `str::find`, in characters. -/
def find (p s : List Char) : Option Nat := (splitFirst p s).map fun (before, _) => before.length

/-- `str::rfind` of a character, in characters. -/
def rfind (c : Char) (s : List Char) : Option Nat :=
  (splitFirst [c] s.reverse).map fun (_, before) => before.length

/-- `serde_json::from_str::<Vec<Value>>`, from the reader of one value. -/
def fromStrVec (fromStr : List Char → Option Json) (text : List Char) : Option (List Json) :=
  match fromStr text with
  | some (.arr items) => some items
  | _ => none

/-- A field of the reply: its slot and value. -/
def fieldOf (item : Json) : Option (String × String) := do
  let slot ← (← item.get "slot").asStr
  let value ← (← item.get "value").asStr
  some (slot, value)

/-- `fields`: the fields, once the reply has got past them. -/
def fields (fromStr : List Char → Option Json) (s : SayStream) : Option (List (String × String)) := do
  let (_, past) ← splitFirst (inQuotes "fields") s.raw
  let after := inQuotes "fields" ++ past
  let stops := [find (inQuotes "asks") after, find (inQuotes "phrase") after, find (inQuotes "say") after]
  let stop ← (stops.filterMap id).min?
  let head := after.take stop
  let opening ← find ['['] head
  let closing ← rfind ']' head
  let items ← fromStrVec fromStr ((head.take (closing + 1)).drop opening)
  some (items.filterMap fieldOf)

/-- `asks`: what the question asks for, once its list is complete; none when the reply got past it
without one. -/
def asks (fromStr : List Char → Option Json) (s : SayStream) : Option (List String) :=
  match splitFirst (inQuotes "asks") s.raw with
  | none =>
    if (splitFirst (inQuotes "phrase") s.raw).isSome ||
      (splitFirst (inQuotes "say") s.raw).isSome then some []
    else none
  | some (_, after) => do
    let (_, list) ← splitFirst ['['] after
    let (list, _) ← splitFirst [']'] ('[' :: list)
    let items ← fromStrVec fromStr (list ++ [']'])
    some (items.filterMap Json.asStr)

/-- `phrase`: the recorded phrase to play, once its id is complete. -/
def phrase (s : SayStream) : Option String := do
  let (_, after) ← splitFirst (inQuotes "phrase") s.raw
  let (_, value) ← splitFirst [':'] after
  let id ← dropPrefix (value.dropWhile isWhitespace) ['"']
  let (id, _) ← splitFirst ['"'] id
  if id.isEmpty then none else some (String.ofList id)

end SayStream

section Monotone

attribute [local simp] decodeString.eq_def in
theorem decodeString_quote (chars : List Char) : decodeString ('"' :: chars) = ([], true) := by
  simp

theorem decodeString_plain {ch : Char} (notQuote : ch ≠ '"') (plain : ch ≠ '\\') (chars : List Char) :
    decodeString (ch :: chars) = put [ch] (decodeString chars) := by
  rw [decodeString.eq_def]
  dsimp only
  rw [if_neg notQuote, if_neg plain]

theorem decodeString_space {escaped : Char} (space : escaped = 'n' ∨ escaped = 't' ∨ escaped = 'r')
    (chars : List Char) : decodeString ('\\' :: escaped :: chars) = put [' '] (decodeString chars) := by
  rw [decodeString.eq_def]
  dsimp only
  rw [if_neg (by decide), if_pos rfl, if_pos space]

theorem decodeString_unicode (a b c d : Char) (chars : List Char) :
    decodeString ('\\' :: 'u' :: a :: b :: c :: d :: chars) =
      put (unicodeEscape [a, b, c, d]).toList (decodeString chars) := by
  rw [decodeString.eq_def]
  dsimp only
  rw [if_neg (by decide), if_pos rfl, if_neg (by decide), if_pos rfl]

theorem decodeString_escape {escaped : Char}
    (notSpace : ¬ (escaped = 'n' ∨ escaped = 't' ∨ escaped = 'r'))
    (notUnicode : escaped ≠ 'u') (chars : List Char) :
    decodeString ('\\' :: escaped :: chars) = put [escaped] (decodeString chars) := by
  rw [decodeString.eq_def]
  dsimp only
  rw [if_neg (by decide), if_pos rfl, if_neg notSpace, if_neg notUnicode]

/-- What was read of a text, and what of a longer one: what is decoded stays, and a closed string is
final. -/
def Extends (first whole : List Char × Bool) : Prop :=
  ∃ later, whole.1 = first.1 ++ later ∧ (first.2 = true → later = [] ∧ whole.2 = true)

theorem Extends.put {first whole : List Char × Bool} (longer : Extends first whole) (cs : List Char) :
    Extends (put cs first) (put cs whole) := by
  obtain ⟨later, same, final⟩ := longer
  exact ⟨later, by rw [Callora.put, Callora.put, same, List.append_assoc], final⟩

theorem Extends.of_open (whole : List Char × Bool) : Extends ([], false) whole :=
  ⟨whole.1, rfl, fun closed => nomatch closed⟩

theorem decodeString_append (s more : List Char) :
    Extends (decodeString s) (decodeString (s ++ more)) := by
  fun_induction decodeString s with
  | case1 => exact Extends.of_open _
  | case2 chars =>
    rw [List.cons_append, decodeString_quote]
    exact ⟨[], rfl, fun _ => ⟨rfl, rfl⟩⟩
  | case3 => exact Extends.of_open _
  | case4 escaped chars space _ ih =>
    rw [List.cons_append, List.cons_append, decodeString_space space]
    exact ih.put _
  | case5 a b c d chars _ _ ih =>
    simp only [List.cons_append, decodeString_unicode]
    exact ih.put _
  | case6 => exact Extends.of_open _
  | case7 escaped chars notSpace notUnicode _ ih =>
    rw [List.cons_append, List.cons_append, decodeString_escape notSpace notUnicode]
    exact ih.put _
  | case8 ch chars notQuote plain ih =>
    rw [List.cons_append, decodeString_plain notQuote plain]
    exact ih.put _

/-- **Decoding is monotone**: a longer reply decodes to what was decoded, and more. -/
theorem decodeSay_append {raw : List Char} {read : List Char × Bool} (found : decodeSay raw = some read)
    (more : List Char) : ∃ whole, decodeSay (raw ++ more) = some whole ∧ Extends read whole := by
  simp only [decodeSay, Option.bind_eq_bind, Option.bind_eq_some_iff] at found
  obtain ⟨⟨_, afterKey⟩, key, ⟨_, afterColon⟩, colon, ⟨gap, afterQuote⟩, quote, found⟩ := found
  by_cases blank : gap.all isWhitespace
  · rw [if_pos blank] at found
    obtain rfl := Option.some.inj found
    refine ⟨decodeString (afterQuote ++ more), ?_, decodeString_append afterQuote more⟩
    simp only [decodeSay, splitFirst_append key, splitFirst_append colon, splitFirst_append quote,
      Option.bind_eq_bind, Option.bind_some, if_pos blank]
  · rw [if_neg blank] at found
    cases found

end Monotone

section Written

/-- What is heard of a character that was written as `serde_json` writes it: tabs and line ends are
spaces, and of a backspace or a form feed the letter of its escape is left. -/
def heardAs (c : Char) : Char :=
  let n := c.toNat
  if n = 0x09 ∨ n = 0x0A ∨ n = 0x0D then ' ' else if n = 0x08 then 'b' else if n = 0x0C then 'f' else c

theorem unicodeEscape_control : ∀ n < 0x20, unicodeEscape
    ['0', '0', Json.hexDigit (n / 16), Json.hexDigit (n % 16)] =
    some (Char.ofNat n) := by
  decide

/-- **A character that was written is read back**, as it is heard. -/
theorem decodeString_written (c : Char) (rest : List Char) :
    decodeString (Json.escape c ++ rest) = put [heardAs c] (decodeString rest) := by
  have named : ∀ d : Char, c.toNat = d.toNat → c = d := fun _ => Char.toNat_inj.mp
  by_cases marked : c.toNat = 0x22 ∨ c.toNat = 0x5C
  · have written : Json.escape c = ['\\', c] := if_pos marked
    have heard : heardAs c = c := by
      unfold heardAs
      dsimp only
      rw [if_neg (by omega), if_neg (by omega), if_neg (by omega)]
    rw [written, heard]
    refine decodeString_escape ?_ ?_ rest
    · rintro (rfl | rfl | rfl) <;> revert marked <;> decide
    · rintro rfl
      revert marked
      decide
  by_cases back : c.toNat = 0x08
  · obtain rfl := named '\x08' back
    exact decodeString_escape (by decide) (by decide) rest
  by_cases tab : c.toNat = 0x09
  · obtain rfl := named '\t' tab
    exact decodeString_space (by decide) rest
  by_cases line : c.toNat = 0x0A
  · obtain rfl := named '\n' line
    exact decodeString_space (by decide) rest
  by_cases feed : c.toNat = 0x0C
  · obtain rfl := named '\x0c' feed
    exact decodeString_escape (by decide) (by decide) rest
  by_cases back' : c.toNat = 0x0D
  · obtain rfl := named '\r' back'
    exact decodeString_space (by decide) rest
  have heard : heardAs c = c := by
    unfold heardAs
    dsimp only
    rw [if_neg (by omega), if_neg back, if_neg feed]
  rw [heard]
  by_cases control : c.toNat < 0x20
  · have written : Json.escape c =
        ['\\', 'u', '0', '0', Json.hexDigit (c.toNat / 16), Json.hexDigit (c.toNat % 16)] := by
      unfold Json.escape
      dsimp only
      rw [if_neg marked, if_neg back, if_neg tab, if_neg line, if_neg feed, if_neg back', if_pos control]
    have read := unicodeEscape_control c.toNat control
    rw [Char.ofNat_toNat] at read
    rw [written]
    refine (decodeString_unicode '0' '0' _ _ rest).trans ?_
    rw [read]
    rfl
  · have written : Json.escape c = [c] := by
      unfold Json.escape
      dsimp only
      rw [if_neg marked, if_neg back, if_neg tab, if_neg line, if_neg feed, if_neg back', if_neg control]
    rw [written]
    refine decodeString_plain ?_ ?_ rest
    · rintro rfl
      exact marked (.inl rfl)
    · rintro rfl
      exact marked (.inr rfl)

theorem decodeString_writtenAll (cs rest : List Char) :
    decodeString ((cs.map Json.escape).flatten ++ '"' :: rest) = (cs.map heardAs, true) := by
  induction cs with
  | nil => exact decodeString_quote rest
  | cons c cs ih =>
    rw [List.map_cons, List.flatten_cons, List.append_assoc, decodeString_written, ih]
    rfl

/-- **The `say` of a reply is read back as it was written**, behind whatever comes before its key
and whatever comes after it. -/
theorem decodeSay_written {before gap gap' : List Char} (first : ¬ inQuotes "say" <:+: before ++ ['"'])
    (spaces : ∀ c ∈ gap ++ gap', isWhitespace c) (said : String) (rest : List Char) :
    decodeSay
    (before ++ (inQuotes "say" ++ (gap ++ ':' :: (gap' ++ ((Json.quote said).toList ++ rest))))) =
      some (said.toList.map heardAs, true) := by
  have quoted : (Json.quote said).toList ++ rest =
      '"' :: ((said.toList.map Json.escape).flatten ++ '"' :: rest) := by
    simp [Json.quote, Json.quoteMark]
  have key :=
    splitFirst_marked (by decide) first (gap ++ ':' :: (gap' ++ ((Json.quote said).toList ++ rest)))
  have colon : splitFirst [':'] (gap ++ ':' :: (gap' ++ ((Json.quote said).toList ++ rest))) =
      some (gap, gap' ++ ((Json.quote said).toList ++ rest)) :=
    splitFirst_char fun listed => absurd (spaces ':' (List.mem_append_left _ listed)) (by decide)
  have opening : splitFirst ['"'] (gap' ++ ((Json.quote said).toList ++ rest)) =
      some (gap', (said.toList.map Json.escape).flatten ++ '"' :: rest) := by
    rw [quoted]
    exact splitFirst_char fun listed => absurd (spaces '"' (List.mem_append_right _ listed)) (by decide)
  have blank : gap'.all isWhitespace :=
    List.all_eq_true.mpr fun c listed => spaces c (List.mem_append_right _ listed)
  rw [decodeSay, inQuotes, List.cons_append, key, Option.bind_eq_bind, Option.bind_some]
  simp only [colon, opening, blank, Option.bind_some]
  rw [decodeString_writtenAll]
  rfl

end Written

section Cutting

/-- What of a text is in no finished sentence. -/
def unfinished (closed : Bool) (piece text : List Char) : List Char :=
  (piece ++ text).drop (sentences closed piece text).flatten.length

theorem endsSentence_append {closed whole : Bool} {c : Char} {rest more : List Char}
    (final : closed = true → more = [] ∧ whole = true) (seen : rest = [] → closed = true) :
    endsSentence whole c (rest ++ more) = endsSentence closed c rest := by
  cases rest with
  | cons n rest => rfl
  | nil =>
    obtain rfl := seen rfl
    obtain ⟨rfl, rfl⟩ := final rfl
    rfl

/-- The sentences of a longer text, from the middle of a sentence on: those of its beginning, and those
of what was left. -/
theorem sentences_append_from {closed whole : Bool} {more : List Char}
    (final : closed = true → more = [] ∧ whole = true) (u piece : List Char)
    (unbroken : sentences whole [] (piece ++ (u ++ more)) = sentences whole piece (u ++ more)) :
    sentences whole piece (u ++ more) =
      sentences closed piece u ++ sentences whole [] (unfinished closed piece u ++ more) := by
  induction u generalizing piece with
  | nil =>
    rw [← unbroken]
    simp [sentences, unfinished]
  | cons c u ih =>
    by_cases last : u = [] ∧ closed = false
    · obtain ⟨rfl, rfl⟩ := last
      have goesOn : endsSentence false c [] = false := by simp [endsSentence]
      simp only [unfinished, sentences, goesOn]
      simpa using unbroken.symm
    · have seen : u = [] → closed = true := by
        intro empty
        simpa [empty] using last
      have same := endsSentence_append (c := c) final seen
      by_cases ends : endsSentence closed c u
      · have left : unfinished closed piece (c :: u) = unfinished closed [] u := by
          simp only [unfinished, sentences, if_pos ends, List.flatten_cons, List.length_append,
            List.length_cons, List.nil_append, List.length_nil]
          rw [← List.drop_drop]
          simp
        rw [left, sentences, if_pos ends, List.cons_append, sentences, same, if_pos ends,
          ih [] rfl, List.cons_append]
      · have left : unfinished closed piece (c :: u) = unfinished closed (piece ++ [c]) u := by
          simp [unfinished, sentences, ends]
        have goesOn : sentences whole piece (c :: (u ++ more)) =
            sentences whole (piece ++ [c]) (u ++ more) := by
          rw [sentences, same, if_neg ends]
        rw [left, List.cons_append, goesOn, sentences, if_neg ends]
        refine ih (piece ++ [c]) ?_
        rw [List.append_assoc, List.singleton_append, ← goesOn]
        exact unbroken

/-- **The sentences of a longer text** are those of its beginning, and those of what was left. -/
theorem sentences_append {closed whole : Bool} {more : List Char}
    (final : closed = true → more = [] ∧ whole = true) (u : List Char) :
    sentences whole [] (u ++ more) =
      sentences closed [] u ++ sentences whole [] (unfinished closed [] u ++ more) :=
  sentences_append_from final u [] rfl

/-- The finished sentences and what is left are the text. -/
theorem sentences_flatten (closed : Bool) (text piece : List Char) :
    (sentences closed piece text).flatten ++ unfinished closed piece text = piece ++ text := by
  induction text generalizing piece with
  | nil => simp [sentences, unfinished]
  | cons c rest ih =>
    by_cases ends : endsSentence closed c rest
    · have later := ih []
      simp only [unfinished, sentences, if_pos ends, List.flatten_cons, List.length_append] at later ⊢
      rw [← List.drop_drop, List.append_cons piece c rest, List.drop_left' (by simp), List.append_assoc,
        List.append_assoc]
      simpa using later
    · have later := ih (piece ++ [c])
      simp only [unfinished, sentences, if_neg ends] at later ⊢
      simpa using later

/-- No sentence is finished in what is left. -/
theorem sentences_unfinished (closed : Bool) (text : List Char) :
    sentences closed [] (unfinished closed [] text) = [] := by
  have final : closed = true → ([] : List Char) = [] ∧ closed = true := fun shut => ⟨rfl, shut⟩
  simpa using sentences_append final text

theorem spoken_append (first later : List (List Char)) :
    spoken (first ++ later) = spoken first ++ spoken later := by
  simp [spoken]

end Cutting

namespace SayStream

section Chunking

theorem push_none {s : SayStream} {delta : List Char} (unread : decodeSay (s.raw ++ delta) = none) :
    s.push delta = ([], ⟨s.raw ++ delta, s.emitted⟩) := by
  simp only [push, unread]

theorem push_some {s : SayStream} {delta text : List Char} {closed : Bool}
    (read : decodeSay (s.raw ++ delta) = some (text, closed)) :
    s.push delta = (spoken (sentences closed [] (text.drop s.emitted)),
      ⟨s.raw ++ delta, s.emitted + (sentences closed [] (text.drop s.emitted)).flatten.length⟩) := by
  simp only [push, read]

/-- **A settled stream**: no finished sentence is still to be handed out. -/
def Settled (s : SayStream) : Prop :=
  match decodeSay s.raw with
  | none => s.emitted = 0
  | some (text, closed) => s.emitted ≤ text.length ∧ sentences closed [] (text.drop s.emitted) = []

theorem Settled.emitted_le {s : SayStream} (settled : s.Settled) {delta text : List Char} {closed : Bool}
    (read : decodeSay (s.raw ++ delta) = some (text, closed)) : s.emitted ≤ text.length := by
  rw [Settled] at settled
  cases before : decodeSay s.raw with
  | none =>
    rw [before] at settled
    exact settled ▸ Nat.zero_le _
  | some first =>
    rw [before] at settled
    obtain ⟨whole, again, later, same, -⟩ := decodeSay_append before delta
    obtain rfl := Option.some.inj (again.symm.trans read)
    have within := settled.1
    rw [show text = first.1 ++ later from same, List.length_append]
    omega

/-- What a settled stream has left after a push. -/
theorem drop_emitted (text : List Char) (closed : Bool) (emitted : Nat) :
    text.drop (emitted + (sentences closed [] (text.drop emitted)).flatten.length) =
      unfinished closed [] (text.drop emitted) := by
  rw [unfinished, List.nil_append, List.drop_drop]

theorem Settled.push {s : SayStream} (settled : s.Settled) (delta : List Char) :
    (s.push delta).2.Settled := by
  cases read : decodeSay (s.raw ++ delta) with
  | none =>
    rw [push_none read, Settled, read]
    rw [Settled] at settled
    cases before : decodeSay s.raw with
    | none => rwa [before] at settled
    | some first =>
      obtain ⟨whole, again, -⟩ := decodeSay_append before delta
      rw [read] at again
      cases again
  | some whole =>
    obtain ⟨text, closed⟩ := whole
    rw [push_some read, Settled, read]
    refine ⟨?_, ?_⟩
    · have within := settled.emitted_le read
      have whole := congrArg List.length (sentences_flatten closed (text.drop s.emitted) [])
      simp only [List.length_append, List.nil_append, List.length_drop] at whole
      show s.emitted + _ ≤ _
      omega
    · show sentences closed [] (text.drop (s.emitted + _)) = []
      rw [drop_emitted]
      exact sentences_unfinished closed _

/-- **A push does not see the cuts.** -/
theorem Settled.push_append {s : SayStream} (settled : s.Settled) (xs ys : List Char) :
    s.push (xs ++ ys) = ((s.push xs).1 ++ ((s.push xs).2.push ys).1, ((s.push xs).2.push ys).2) := by
  cases first : decodeSay (s.raw ++ xs) with
  | none =>
    rw [push_none first]
    simp only [SayStream.push, List.append_assoc, List.nil_append]
  | some read =>
    obtain ⟨text, closed⟩ := read
    obtain ⟨⟨whole, shut⟩, again, later, same, final⟩ := decodeSay_append first ys
    obtain rfl : whole = text ++ later := same
    have start := settled.emitted_le first
    have both : decodeSay (s.raw ++ (xs ++ ys)) = some (text ++ later, shut) := by
      rw [← List.append_assoc]
      exact again
    rw [push_some first, push_some (s := ⟨s.raw ++ xs, _⟩) again, push_some both]
    have rest : (text ++ later).drop
      (s.emitted + (sentences closed [] (text.drop s.emitted)).flatten.length) =
        unfinished closed [] (text.drop s.emitted) ++ later := by
      have within := congrArg List.length (sentences_flatten closed (text.drop s.emitted) [])
      simp only [List.length_append, List.nil_append, List.length_drop] at within
      rw [List.drop_append_of_le_length (by omega), drop_emitted]
    have parts : sentences shut [] ((text ++ later).drop s.emitted) =
        sentences closed [] (text.drop s.emitted) ++
          sentences shut [] (unfinished closed [] (text.drop s.emitted) ++ later) := by
      rw [List.drop_append_of_le_length start]
      exact sentences_append final (text.drop s.emitted)
    simp only [rest, parts, spoken_append, List.flatten_append, List.length_append, Nat.add_assoc,
      List.append_assoc]

theorem Settled.push_nil {s : SayStream} (settled : s.Settled) : s.push [] = ([], s) := by
  rw [Settled] at settled
  cases read : decodeSay s.raw with
  | none => rw [push_none (by rwa [List.append_nil]), List.append_nil]
  | some first =>
    rw [read] at settled
    have again : decodeSay (s.raw ++ []) = some (first.1, first.2) := by rwa [List.append_nil]
    rw [push_some again, settled.2, List.append_nil]
    rfl

/-- A push, as a reader of pieces that never fails. -/
def reader (s : SayStream) (delta : List Char) : Option (List String × SayStream) := some (s.push delta)

theorem reader_seamless : Chunks.Seamless reader Settled where
  nothing := fun s settled => congrArg some settled.push_nil
  splits := fun s settled xs ys => congrArg some (settled.push_append xs ys)
  kept := by
    rintro s settled xs given t pushed
    obtain rfl : (s.push xs).2 = t := congrArg Prod.snd (Option.some.inj pushed)
    exact settled.push xs

theorem feed_reader (s : SayStream) (chunks : List (List Char)) :
    Chunks.feed reader s chunks = some (s.pushAll chunks) := by
  induction chunks generalizing s with
  | nil => rfl
  | cons delta deltas ih =>
    rw [Chunks.feed, reader, Chunks.andThen_some, ih]
    rfl

theorem settled_empty : Settled {} := rfl

/-- The chunks are pushed as the whole text is. -/
theorem pushAll_flatten (chunks : List (List Char)) : pushAll {} chunks = push {} chunks.flatten := by
  have uncut := reader_seamless.feed_flatten settled_empty chunks
  rw [feed_reader] at uncut
  exact Option.some.inj uncut

end Chunking

section Said

/-- The characters of a text that are no space. -/
def letters (cs : List Char) : List Char := cs.filter fun c => !isWhitespace c

/-- The `say` of a reply, decoded; nothing where there is none. -/
def decoded (raw : List Char) : List Char := ((decodeSay raw).map Prod.fst).getD []

@[simp] theorem letters_append (cs ds : List Char) : letters (cs ++ ds) = letters cs ++ letters ds := by
  simp [letters]

theorem letters_dropWhile (cs : List Char) : letters (cs.dropWhile isWhitespace) = letters cs := by
  induction cs with
  | nil => rfl
  | cons c cs ih =>
    by_cases space : isWhitespace c
    · rw [List.dropWhile_cons_of_pos space, ih]
      simp [letters, space]
    · rw [List.dropWhile_cons_of_neg space]

theorem letters_reverse (cs : List Char) : letters cs.reverse = (letters cs).reverse := by
  simp [letters]

/-- Trimming takes spaces only. -/
theorem letters_trim (cs : List Char) : letters (trim (String.ofList cs)).toList = letters cs := by
  simp only [trim, trimMatches, trimEndMatches, trimStartMatches, String.toList_ofList]
  rw [letters_reverse, letters_dropWhile, letters_reverse, letters_dropWhile, List.reverse_reverse]

/-- What is said of sentences has their letters. -/
theorem letters_spoken (pieces : List (List Char)) :
    letters ((spoken pieces).flatMap String.toList) = letters pieces.flatten := by
  induction pieces with
  | nil => rfl
  | cons piece pieces ih =>
    have here : letters ((spoken [piece]).flatMap String.toList) = letters piece := by
      rw [← letters_trim piece]
      by_cases empty : (trim (String.ofList piece)).isEmpty
      · rw [String.isEmpty_iff.mp empty]
        simp [spoken, empty]
      · simp [spoken, empty]
    rw [← List.singleton_append, spoken_append, List.flatMap_append, letters_append, here, ih,
      List.flatten_append, letters_append, List.flatten_singleton]

/-- What is left has the letters that were not handed out. -/
theorem letters_rest {s : SayStream} {text : List Char} {closed : Bool}
    (read : decodeSay s.raw = some (text, closed)) :
    letters (s.rest.1.toList.flatMap String.toList) = letters (text.drop s.emitted) := by
  simp only [rest, read]
  rw [← letters_trim (text.drop s.emitted)]
  by_cases empty : (trim (String.ofList (text.drop s.emitted))).isEmpty
  · rw [if_pos empty, String.isEmpty_iff.mp empty]
    rfl
  · rw [if_neg empty]
    simp

theorem pieces_eq (chunks : List (List Char)) :
    pieces chunks = (push {} chunks.flatten).1 ++ (push {} chunks.flatten).2.rest.1.toList := by
  rw [pieces, pushAll_flatten]

theorem pieces_flatten (chunks : List (List Char)) : pieces chunks = pieces [chunks.flatten] := by
  rw [pieces_eq, pieces_eq [chunks.flatten], List.flatten_singleton]

/-- What is said has every letter of the decoded `say`. -/
theorem letters_pieces (chunks : List (List Char)) :
    letters ((pieces chunks).flatMap String.toList) = letters (decoded chunks.flatten) := by
  rw [pieces_eq, List.flatMap_append, letters_append]
  cases read : decodeSay chunks.flatten with
  | none =>
    rw [push_none (s := {}) (by simpa using read)]
    simp [rest, decoded, read, letters]
  | some whole =>
    obtain ⟨text, closed⟩ := whole
    have found : decodeSay (([] : List Char) ++ chunks.flatten) = some (text, closed) := by
      simpa using read
    have parts := sentences_flatten closed text []
    rw [push_some (s := {}) found, letters_spoken, letters_rest found]
    show letters (sentences closed [] text).flatten ++
      letters (text.drop (0 + (sentences closed [] (text.drop 0)).flatten.length)) = _
    rw [drop_emitted text closed 0, ← letters_append]
    show letters ((sentences closed [] text).flatten ++ unfinished closed [] text) = _
    rw [parts, decoded, read]
    rfl

example : pieces ["\x7b\"sa".toList, "y\": \"3.5".toList, " \\u05".toList, "d0. ok\"\x7d".toList] =
    ["3.5 א.", "ok"] := by decide +kernel

/-- **What is written as the `say` of a reply is said**, wherever its key stands first and however
the reply is cut: every character that is no space, once and in order. -/
theorem said_as_written {chunks : List (List Char)} {before gap gap' more : List Char} (said : String)
    (first : ¬ inQuotes "say" <:+: before ++ ['"']) (spaces : ∀ c ∈ gap ++ gap', isWhitespace c)
    (written : chunks.flatten =
      before ++ (inQuotes "say" ++ (gap ++ ':' :: (gap' ++ ((Json.quote said).toList ++ more))))) :
    letters ((pieces chunks).flatMap String.toList) = letters (said.toList.map heardAs) := by
  rw [letters_pieces, decoded, written, decodeSay_written first spaces]
  rfl

/-- A greeting with a line end in it, behind the action and cut in the middle. -/
theorem hello_said : letters ((pieces ["\x7b\"action\": \"none\", \"say\": \"he".toList,
    "y\\nyou\"\x7d".toList]).flatMap String.toList) = letters ("hey\nyou".toList.map heardAs) :=
  @said_as_written _ "\x7b\"action\": \"none\", ".toList [] [' '] ['}'] "hey\nyou"
    ((splitFirst_eq_none_iff (List.cons_ne_nil _ _)).mp (by decide))
      (List.forall_mem_singleton.mpr rfl) (by decide)

end Said

end SayStream

end Callora
