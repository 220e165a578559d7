/-
**UTF-8.**

`utf8` is the bytes of a text, `fromUtf8Lossy` the text of bytes: what is no letter becomes the
replacement character, one for each broken part. The bytes of a text are read back as the text:
`lossy_utf8`.
-/
import Mathlib.Data.List.Basic

set_option linter.unusedSectionVars false

namespace Callora.Text

/-- The bytes of a text. -/
def utf8 (cs : List Char) : List UInt8 := cs.flatMap String.utf8EncodeChar

/-- The letter that bytes start with. -/
def firstLetter (bs : List UInt8) : Option Char := bs.toByteArray.utf8DecodeChar? 0

/-- How many bytes of a broken letter one replacement character stands for. -/
def brokenLength : List UInt8 → Nat
  | [] => 0
  | b :: rest =>
    let second := rest.headD 0
    if 0xE0 ≤ b ∧ b ≤ 0xEF then
      let low : UInt8 := if b = 0xE0 then 0xA0 else 0x80
      let high : UInt8 := if b = 0xED then 0x9F else 0xBF
      if low ≤ second ∧ second ≤ high then 2 else 1
    else if 0xF0 ≤ b ∧ b ≤ 0xF4 then
      let low : UInt8 := if b = 0xF0 then 0x90 else 0x80
      let high : UInt8 := if b = 0xF4 then 0x8F else 0xBF
      let third := rest.tail.headD 0
      if low ≤ second ∧ second ≤ high then (if 0x80 ≤ third ∧ third ≤ 0xBF then 3 else 2) else 1
    else 1

/-- The text of bytes; `fuel` bounds the letters. -/
def lossyFrom : Nat → List UInt8 → List Char
  | 0, _ => []
  | _ + 1, [] => []
  | fuel + 1, b :: rest =>
    match firstLetter (b :: rest) with
    | some c => c :: lossyFrom fuel ((b :: rest).drop c.utf8Size)
    | none => Char.ofNat 0xFFFD :: lossyFrom fuel ((b :: rest).drop (brokenLength (b :: rest)))

/-- **`String::from_utf8_lossy`**. -/
def fromUtf8Lossy (bs : List UInt8) : List Char := lossyFrom bs.length bs

@[simp] theorem utf8_cons (c : Char) (cs : List Char) :
    utf8 (c :: cs) = String.utf8EncodeChar c ++ utf8 cs :=
  rfl

@[simp] theorem utf8_append (cs ds : List Char) : utf8 (cs ++ ds) = utf8 cs ++ utf8 ds := by
  simp [utf8]

theorem utf8_flatten (texts : List (List Char)) : utf8 texts.flatten = (texts.map utf8).flatten := by
  induction texts with
  | nil => rfl
  | cons text texts ih => rw [List.flatten_cons, utf8_append, ih, List.map_cons, List.flatten_cons]

theorem firstLetter_utf8 (c : Char) (bs : List UInt8) :
    firstLetter (String.utf8EncodeChar c ++ bs) = some c := by
  rw [firstLetter, List.toByteArray_append]
  exact ByteArray.utf8DecodeChar?_utf8EncodeChar_append

theorem lossyFrom_utf8 (cs : List Char) {fuel : Nat} (enough : cs.length ≤ fuel) :
    lossyFrom fuel (utf8 cs) = cs := by
  induction cs generalizing fuel with
  | nil => cases fuel <;> rfl
  | cons c cs ih =>
    obtain ⟨fuel, rfl⟩ := Nat.exists_eq_add_of_le' enough
    have size : (String.utf8EncodeChar c).length = c.utf8Size := String.length_utf8EncodeChar c
    obtain ⟨b, rest, bytes⟩ : ∃ b rest, String.utf8EncodeChar c ++ utf8 cs = b :: rest := by
      refine List.exists_cons_of_ne_nil fun empty => ?_
      have pos := c.utf8Size_pos
      have gone := congrArg List.length empty
      rw [List.length_append, size, List.length_nil] at gone
      omega
    have letter := firstLetter_utf8 c (utf8 cs)
    have later : (b :: rest).drop c.utf8Size = utf8 cs := by
      rw [← bytes, ← size, List.drop_left]
    rw [utf8_cons, bytes, List.length_cons, ← Nat.add_assoc, lossyFrom]
    rw [bytes] at letter
    rw [letter]
    dsimp only
    rw [later, ih (Nat.le_add_left _ _)]

theorem utf8_length (cs : List Char) : cs.length ≤ (utf8 cs).length := by
  induction cs with
  | nil => exact Nat.le_refl _
  | cons c cs ih =>
    have pos := c.utf8Size_pos
    rw [utf8_cons, List.length_append, String.length_utf8EncodeChar, List.length_cons]
    omega

/-- **The bytes of a text are read back as the text.** -/
theorem lossy_utf8 (cs : List Char) : fromUtf8Lossy (utf8 cs) = cs := lossyFrom_utf8 cs (utf8_length cs)

/-- Bytes that start as a text's do are those of the text and what follows it. -/
theorem utf8_prefix {cs ds : List Char} {bs : List UInt8} (same : utf8 cs ++ bs = utf8 ds) :
    ∃ more, ds = cs ++ more ∧ bs = utf8 more := by
  induction cs generalizing ds with
  | nil => exact ⟨ds, rfl, same⟩
  | cons c cs ih =>
    rw [utf8_cons, List.append_assoc] at same
    have letter := firstLetter_utf8 c (utf8 cs ++ bs)
    rw [same] at letter
    cases ds with
    | nil => cases letter
    | cons d ds =>
      rw [utf8_cons, firstLetter_utf8] at letter
      obtain rfl := Option.some.inj letter
      rw [utf8_cons] at same
      obtain ⟨more, rfl, rest⟩ := ih (List.append_cancel_left same)
      exact ⟨more, rfl, rest⟩

end Callora.Text
