/-
**No recognized word is lost or repeated: when.**

The readers of Soniox and of Deepgram, as recognizers of one loop.

- `Soniox.server`, `Deepgram.server`: what the two servers' messages hold;
- `Soniox.conserves`, `Deepgram.conserves`: an utterance holds exactly the final pieces read since
  it was taken;
- `unsure_word`: what Soniox was unsure of are words of the utterance;
- `words_kept`: every run in which no final piece is passed by tells each of them once and in order,
  and partials of what is still to be told; and every run tells no empty final, and unsure words of
  the final after them.

When the stream ends, what the utterance holds is not told (`last_words_lost`).
-/
import Callora.Providers.Readers
import Callora.Providers.Sse
import Callora.Text.Spans

set_option linter.unusedSectionVars false

namespace Callora.Recognizers

open Text Runs

/-- `Value::as_array`. -/
def asArray : Json → Option (List Json)
  | .arr items => some items
  | _ => none

/-! ### Soniox -/

namespace Soniox

structure Token where
  text : String
  isFinal : Bool
  confidence : F32

/-- A server message, as far as the session cares. -/
inductive Heard
  | tokens (tokens : List Token) (fin : Bool)
  | error (text : String)
  | finished

/-- A word heard with less confidence than this goes to the agent as unsure. -/
def UNSURE_BELOW : F32 := 0.8

section Messages

/-- The items of a message's `tokens`. -/
def items (v : Json) : List Json := ((v.get "tokens").bind asArray).getD []

/-- What an item of `tokens` is; the ends of a finalize and of an utterance are no tokens. -/
def token (t : Json) : Option Token := do
  let text ← (t.get "text").bind Json.asStr
  if text = "<fin>" ∨ text = "<end>" then none
  else
    some {
      text := text
      isFinal := ((t.get "is_final").bind Json.asBool).getD false
      confidence := F32.ofRat (((t.get "confidence").bind Json.asF64).getD 1) }

/-- Whether an item is the end of a finalize. -/
def isFin (t : Json) : Bool := (t.get "text").bind Json.asStr == some "<fin>"

/-- `heard`. -/
def heard (v : Json) : Heard :=
  match v.get "error_code" with
  | some code =>
    let kind := ((v.get "error_type").bind Json.asStr).getD ""
    let message := ((v.get "error_message").bind Json.asStr).getD "unknown error"
    .error ("soniox " ++ code.toText ++ " " ++ kind ++ ": " ++ message)
  | none =>
    if (v.get "finished").bind Json.asBool = some true then .finished
    else .tokens ((items v).filterMap token) ((items v).any isFin)

end Messages

/-- The utterance in progress: its final tokens, and the latest non-final ones (each message carries
all the non-final tokens anew). -/
structure Utterance where
  finals : List (String × F32)
  interim : String

section Words

variable [Unicode]

/-- A piece between two spaces: with a space before it, a word ends. -/
def addPiece (confidence : F32) (st : List (String × F32) × String × F32) (piece : String × ℕ) :
    List (String × F32) × String × F32 :=
  let (words, current) := if 0 < piece.2 ∧ st.2.1 ≠ "" then (st.1 ++ [st.2], ("", 1)) else st
  if piece.1 ≠ "" then (words, (current.1 ++ piece.1, min current.2 confidence)) else (words, current)

/-- A token's pieces. -/
def addToken (st : List (String × F32) × String × F32) (t : String × F32) :
    List (String × F32) × String × F32 :=
  (split (· == ' ') t.1).zipIdx.foldl (addPiece t.2) st

/-- A word without the signs around it. -/
def bare (word : String) : String := trimMatches (fun c => !isAlphanumeric c) word

/-- `unsure_words`: the words (tokens joined at the spaces) with their least confident token, the
unsure ones. -/
def unsureWords (tokens : List (String × F32)) : List (String × F32) :=
  let (words, current) := tokens.foldl addToken ([], ("", 1))
  let words := if current.1 ≠ "" then words ++ [current] else words
  (words.map fun (w, p) => (bare w, p)).filter fun (w, p) => w ≠ "" ∧ p < UNSURE_BELOW

end Words

namespace Utterance

/-- `Utterance::push`. -/
def push (u : Utterance) (tokens : List Token) : Utterance where
  finals := u.finals ++ (tokens.filter (·.isFinal)).map fun t => (t.text, t.confidence)
  interim := String.join ((tokens.filter (!·.isFinal)).map (·.text))

/-- `Utterance::text`. -/
def text (u : Utterance) : String := String.join (u.finals.map Prod.fst)

/-- `Utterance::partial`. -/
def soFar (u : Utterance) : Option String :=
  let text := trim (u.text ++ u.interim)
  if text ≠ "" then some text else none

variable [Unicode]

/-- `Utterance::take`: the utterance's words and the ones it was unsure of. -/
def take (u : Utterance) : Option (String × List (String × F32)) × Utterance :=
  let text := trim u.text
  (if text ≠ "" then some (text, unsureWords u.finals) else none, ⟨[], ""⟩)

end Utterance

/-- `finished`: an utterance's events, its unsure words first, then its words. -/
def finished : Option (String × List (String × F32)) → List SttEvent
  | none => []
  | some (text, unsure) => (if unsure = [] then [] else [.unsure unsure]) ++ [.final text]

/-- What a message does to the utterance. -/
def reply (u : Utterance) : Heard → Reply Utterance
  | .tokens tokens fin =>
    if fin then .fin (u.push tokens)
      else .tells ((u.push tokens).soFar.map SttEvent.soFar).toList (u.push tokens)
  | .error e => .tells [.error e] u
  | .finished => .finished

/-- The reader of `Soniox::open`. -/
def recognizer [Unicode] : Recognizer Utterance where
  empty := ⟨[], ""⟩
  take u := (finished u.take.1, u.take.2)
  hear u v := reply u (heard v)

/-- The words of an item of `tokens`, if it has any. -/
def words (t : Json) : Option String :=
  ((t.get "text").bind Json.asStr).filter fun text => text ≠ "<fin>" ∧ text ≠ "<end>"

/-- The items of a message that are final, or those that are not. -/
def itemsOf (final : Bool) (v : Json) : List Json :=
  (((v.get "tokens").bind asArray).getD []).filter fun t =>
    decide ((t.get "is_final").bind Json.asBool = some true) == final

/-- The message is an error. -/
def isError (v : Json) : Bool := (v.get "error_code").isSome

/-- The message is the server's end, unless it is an error. -/
def isOver (v : Json) : Bool := (v.get "finished").bind Json.asBool == some true

/-- **Soniox**: the pieces are the tokens' texts, with their spaces. -/
def server : Server where
  pieces v := (itemsOf true v).filterMap words
  interim v := String.join ((itemsOf false v).filterMap words)
  fin v := !isError v && !isOver v &&
    (((v.get "tokens").bind asArray).getD []).any fun t => (t.get "text").bind Json.asStr == some "<fin>"
  silent v := isError v || isOver v
  ends v := !isError v && isOver v
  glue pieces := trim (String.join pieces)

end Soniox

/-! ### Deepgram -/

namespace Deepgram

/-- A server message, as far as the session cares. -/
inductive Heard
  | result (text : String) (isFinal fromFinalize : Bool)
  | error (text : String)
  | other

/-- A flag of a message. -/
def flag (v : Json) (k : String) : Bool := ((v.get k).bind Json.asBool).getD false

/-- `heard`. -/
def heard (v : Json) : Heard :=
  match (v.get "type").bind Json.asStr with
  | some "Results" =>
    let text :=
      ((Providers.pointer v ["channel", "alternatives", "0", "transcript"]).bind Json.asStr).getD ""
    .result (trim text) (flag v "is_final") (flag v "from_finalize")
  | some "Error" =>
    .error
      ((["description", "message", "err_msg"].findSome? fun k => (v.get k).bind Json.asStr).getD
        "unknown error")
  | _ => .other

/-- The finals of the utterance in progress; none of them is empty. -/
structure Utterance where
  finals : List String
  filled : "" ∉ finals

namespace Utterance

def empty : Utterance := ⟨[], List.not_mem_nil⟩

/-- `Utterance::push_final`. -/
def pushFinal (u : Utterance) (text : String) : Utterance :=
  if some' : text = "" then u else ⟨u.finals ++ [text], by simp [u.filled, Ne.symm some']⟩

/-- `Utterance::partial`: everything heard so far, with the words not yet final after it. -/
def soFar (u : Utterance) (interim : String) : Option String :=
  let text := (u.finals ++ [interim]).filter (· ≠ "")
  if text = [] then none else some (join " " text)

/-- `Utterance::take`. -/
def take (u : Utterance) : Option String × Utterance :=
  let text := join " " u.finals
  (if text ≠ "" then some text else none, .empty)

end Utterance

/-- What a message does to the utterance. -/
def reply (u : Utterance) : Heard → Reply Utterance
  | .result text true fromFinalize =>
    if fromFinalize then .fin (u.pushFinal text) else .tells [] (u.pushFinal text)
  | .result text false _ => .tells ((u.soFar text).map SttEvent.soFar).toList u
  | .error e => .tells [.error e] u
  | .other => .tells [] u

/-- The reader of `Deepgram::open`. -/
def recognizer : Recognizer Utterance where
  empty := .empty
  take u := ((u.take.1.map SttEvent.final).toList, u.take.2)
  hear u v := reply u (heard v)

/-- A message with a transcript: whether it is final, and the transcript without white space around it. -/
def transcript (v : Json) : Option (Bool × String) :=
  if (v.get "type").bind Json.asStr = some "Results" then
    some ((v.get "is_final").bind Json.asBool == some true,
      trim
        (((Providers.pointer v ["channel", "alternatives", "0", "transcript"]).bind Json.asStr).getD ""))
  else none

/-- **Deepgram**: the pieces are the transcripts that are not empty, with a space between them. -/
def server : Server where
  pieces v :=
    match transcript v with
    | some (true, text) => [text].filter (· ≠ "")
    | _ => []
  interim v :=
    match transcript v with
    | some (false, text) => text
    | _ => ""
  fin v := (transcript v).any Prod.fst && (v.get "from_finalize").bind Json.asBool == some true
  silent _ := false
  ends _ := false
  glue pieces := join " " (pieces.filter (· ≠ ""))

end Deepgram

/-! ### Words -/

section Splitting

variable {sep : Char → Bool} {cs : List Char} {init : List (List Char)} {last acc : List Char}

/-- A text that goes on is split where it was left. -/
theorem splitChars_resume (split : splitChars sep cs acc = init ++ [last]) (ds : List Char) :
    splitChars sep (cs ++ ds) acc = init ++ splitChars sep ds last.reverse := by
  induction cs generalizing acc init with
  | nil =>
    cases init with
    | nil =>
      rw [← (List.cons.inj split).1, List.reverse_reverse]
      rfl
    | cons first init => exact absurd (List.cons.inj split).2.symm (by simp)
  | cons c cs ih =>
    rw [splitChars] at split
    rw [List.cons_append, splitChars]
    split at split
    · next ends =>
      rw [if_pos ends]
      cases init with
      | nil => exact absurd (List.cons.inj split).2 (splitChars_ne_nil cs [])
      | cons first init =>
        obtain ⟨rfl, rest⟩ := List.cons.inj split
        rw [ih rest, List.cons_append]
    · next word => rw [if_neg word, ih split]

/-- What was carried stands before the first piece. -/
theorem splitChars_carried (cs acc : List Char) :
    ∃ piece more, splitChars sep cs [] = piece :: more ∧
    splitChars sep cs acc = (acc.reverse ++ piece) :: more := by
  induction cs generalizing acc with
  | nil => exact ⟨[], [], rfl, by simp [splitChars]⟩
  | cons c cs ih =>
    rw [splitChars, splitChars]
    split
    · exact ⟨[], _, rfl, by simp⟩
    · obtain ⟨piece, more, alone, -⟩ := ih []
      obtain ⟨piece₁, more₁, alone₁, one⟩ := ih [c]
      obtain ⟨piece₂, more₂, alone₂, all⟩ := ih (c :: acc)
      obtain ⟨rfl, rfl⟩ := List.cons.inj (alone.symm.trans alone₁)
      obtain ⟨rfl, rfl⟩ := List.cons.inj (alone.symm.trans alone₂)
      exact ⟨_, _, one, by simp [all]⟩

end Splitting

namespace Soniox

section Unsure

variable [Unicode]

/-- The words and the one under way are pieces of what was read. -/
def Pieces (read : List Char) (st : List (String × F32) × String × F32) : Prop :=
  ∃ init, splitChars (· == ' ') read [] = init ++ [st.2.1.toList] ∧ ∀ w ∈ st.1, w.1.toList ∈ init

variable {read : List Char} {st : List (String × F32) × String × F32} {confidence : F32} {piece : String}

theorem no_space (clean : ' ' ∉ piece.toList) : ∀ c ∈ piece.toList, (c == ' ') = false := by
  intro c listed
  refine beq_eq_false_iff_ne.mpr ?_
  rintro rfl
  exact clean listed

/-- A first piece goes on with the word under way. -/
theorem Pieces.first (pieces : Pieces read st) (clean : ' ' ∉ piece.toList) :
    Pieces (read ++ piece.toList) (addPiece confidence st (piece, 0)) := by
  obtain ⟨init, split, words⟩ := pieces
  have alone : splitChars (· == ' ') (read ++ piece.toList) [] =
    init ++ [st.2.1.toList ++ piece.toList] := by
    rw [splitChars_resume split, splitChars_word _ _ (no_space clean), List.reverse_reverse]
  by_cases empty : piece = ""
  · refine ⟨init, ?_, ?_⟩
    · rw [alone]
      simp [addPiece, empty]
    · simpa [addPiece, empty] using words
  · refine ⟨init, ?_, ?_⟩
    · rw [alone]
      simp [addPiece, empty]
    · simpa [addPiece, empty] using words

/-- A later piece begins a word. -/
theorem Pieces.later (pieces : Pieces read st) (clean : ' ' ∉ piece.toList) (n : ℕ) :
    Pieces (read ++ ' ' :: piece.toList) (addPiece confidence st (piece, n + 1)) := by
  obtain ⟨init, split, words⟩ := pieces
  have two : splitChars (· == ' ') (read ++ ' ' :: piece.toList) [] =
    (init ++ [st.2.1.toList]) ++ [piece.toList] := by
    rw [splitChars_append _ _ _ (by rfl), split, splitChars_word _ _ (no_space clean)]
    rfl
  refine ⟨init ++ [st.2.1.toList], ?_, ?_⟩
  · rw [two]
    by_cases begun : st.2.1 = "" <;> by_cases empty : piece = "" <;> simp [addPiece, begun, empty]
  · intro w listed
    by_cases begun : st.2.1 = ""
    · have before : w ∈ st.1 := by
        by_cases empty : piece = "" <;> simpa [addPiece, begun, empty] using listed
      exact List.mem_append_left _ (words w before)
    · have before : w ∈ st.1 ++ [st.2] := by
        by_cases empty : piece = "" <;> simpa [addPiece, begun, empty] using listed
      rcases List.mem_append.mp before with earlier | own
      · exact List.mem_append_left _ (words w earlier)
      · rw [List.mem_singleton.mp own]
        exact List.mem_append_right _ List.mem_cons_self

theorem Pieces.rest (pieces : Pieces read st) (confidence : F32) (more : List String)
    (clean : ∀ p ∈ more, ' ' ∉ p.toList) (n : ℕ) :
    Pieces (read ++ more.flatMap fun p => ' ' :: p.toList)
    ((more.zipIdx (n + 1)).foldl (addPiece confidence) st) := by
  induction more generalizing read st n with
  | nil => simpa using pieces
  | cons p more ih =>
    obtain ⟨own, clean'⟩ := List.forall_mem_cons.mp clean
    have next : Pieces (read ++ ' ' :: p.toList) (addPiece confidence st (p, n + 1)) := pieces.later own n
    have below := ih next clean' (n + 1)
    rw [List.flatMap_cons, ← List.append_assoc, List.zipIdx_cons, List.foldl_cons]
    exact below

/-- A token's pieces go on where the tokens before it ended. -/
theorem Pieces.token (pieces : Pieces read st) (t : String × F32) :
    Pieces (read ++ t.1.toList) (addToken st t) := by
  have some' : splitChars (· == ' ') t.1.toList [] ≠ [] := splitChars_ne_nil t.1.toList []
  obtain ⟨first, more, all⟩ := List.exists_cons_of_ne_nil some'
  have clean : ∀ p ∈ splitChars (· == ' ') t.1.toList [], ∀ c ∈ p, (c == ' ') = false :=
    splitChars_pieces t.1.toList [] (by simp)
  rw [all] at clean
  obtain ⟨own, clean'⟩ := List.forall_mem_cons.mp clean
  have chars : t.1.toList = (String.ofList first).toList ++
      (more.map String.ofList).flatMap fun p => ' ' :: p.toList := by
    have whole := join_splitChars t.1.toList []
    rw [all, List.map_cons, join_toList_cons] at whole
    exact whole.symm
  have begun : Pieces (read ++ (String.ofList first).toList) (addPiece t.2 st (String.ofList first, 0)) :=
    pieces.first fun space => by simpa using own ' ' (by simpa using space)
  have rest := begun.rest t.2 (more.map String.ofList) (by
    intro p listed space
    obtain ⟨q, held, rfl⟩ := List.mem_map.mp listed
    simpa using clean' q held ' ' (by simpa using space)) 0
  rw [chars, ← List.append_assoc, addToken, split, all, List.map_cons, List.zipIdx_cons, List.foldl_cons]
  exact rest

theorem Pieces.tokens (tokens : List (String × F32)) :
    Pieces (String.join (tokens.map Prod.fst)).toList (tokens.foldl addToken ([], ("", 1))) := by
  induction tokens using List.reverseRecOn with
  | nil => exact ⟨[], by simp [splitChars], by simp⟩
  | append_singleton tokens t ih =>
    have chars : (String.join ((tokens ++ [t]).map Prod.fst)).toList =
        (String.join (tokens.map Prod.fst)).toList ++ t.1.toList := by
      simp [String.toList_join]
    rw [chars, List.foldl_concat]
    exact ih.token t

/-! White space at the ends of a text is no part of a bare word. -/

theorem toList_bare (word : String) : (bare word).toList =
    (word.toList.dropWhile fun c => !isAlphanumeric c).rdropWhile fun c => !isAlphanumeric c :=
  toList_trimMatches _ word

/-- Every bare word of a text is one of the other's. -/
def Covers (text within : List Char) : Prop :=
  ∀ piece ∈ splitChars (· == ' ') text [], bare (String.ofList piece) ≠ "" →
    ∃ piece' ∈ splitChars (· == ' ') within [], bare (String.ofList piece') = bare (String.ofList piece)

theorem Covers.refl (text : List Char) : Covers text text := fun piece listed _ => ⟨piece, listed, rfl⟩

theorem Covers.trans {text middle within : List Char} (first : Covers text middle)
    (second : Covers middle within) :
    Covers text within := by
  intro piece listed some'
  obtain ⟨piece', listed', same⟩ := first piece listed some'
  obtain ⟨piece'', listed'', same'⟩ := second piece' listed' (by rw [same]; exact some')
  exact ⟨piece'', listed'', same'.trans same⟩

variable {c : Char} {cs : List Char}

theorem bare_nil : bare (String.ofList []) = "" := rfl

theorem bare_cons (sign : isAlphanumeric c = false) (piece : List Char) :
    bare (String.ofList (c :: piece)) = bare (String.ofList piece) := by
  refine String.toList_inj.mp ?_
  rw [toList_bare, toList_bare, String.toList_ofList, String.toList_ofList,
    List.dropWhile_cons_of_pos (by simp [sign])]

theorem bare_concat (sign : isAlphanumeric c = false) (piece : List Char) :
    bare (String.ofList (piece ++ [c])) = bare (String.ofList piece) := by
  refine String.toList_inj.mp ?_
  rw [toList_bare, toList_bare, String.toList_ofList, String.toList_ofList, List.dropWhile_append]
  split
  · next all =>
    have nothing : piece.dropWhile (fun c => !isAlphanumeric c) = [] := by simpa using all
    simp [nothing, sign]
  · exact List.rdropWhile_concat_pos _ _ _ (by simp [sign])

theorem covers_cons (blanks : ∀ c, isWhitespace c = true → isAlphanumeric c = false)
    (white : isWhitespace c = true) :
    Covers (c :: cs) cs := by
  intro piece listed some'
  by_cases space : c = ' '
  · subst space
    rw [splitChars, if_pos (by rfl)] at listed
    rcases List.mem_cons.mp listed with rfl | later
    · exact absurd bare_nil some'
    · exact ⟨piece, later, rfl⟩
  · obtain ⟨first, more, alone, all⟩ := @splitChars_carried (· == ' ') cs [c]
    rw [splitChars, if_neg (by simpa using space), all] at listed
    rw [alone]
    rcases List.mem_cons.mp listed with rfl | later
    · exact ⟨first, List.mem_cons_self, (bare_cons (blanks c white) first).symm⟩
    · exact ⟨piece, List.mem_cons_of_mem _ later, rfl⟩

theorem covers_concat (blanks : ∀ c, isWhitespace c = true → isAlphanumeric c = false)
    (white : isWhitespace c = true) : Covers (cs ++ [c]) cs := by
  intro piece listed some'
  have pieces : splitChars (· == ' ') cs [] ≠ [] := splitChars_ne_nil cs []
  obtain ⟨init, last, split⟩ := (List.eq_nil_or_concat' _).resolve_left pieces
  rw [splitChars_resume split] at listed
  rw [split]
  have before : piece ∈ init → ∃ piece' ∈ init ++ [last],
    bare (String.ofList piece') = bare (String.ofList piece) :=
    fun earlier => ⟨piece, List.mem_append_left _ earlier, rfl⟩
  by_cases space : c = ' '
  · subst space
    rw [splitChars, if_pos (by rfl), List.reverse_reverse] at listed
    rcases List.mem_append.mp listed with earlier | late
    · exact before earlier
    · rcases List.mem_cons.mp late with rfl | empty
      · exact ⟨piece, by simp, rfl⟩
      · rw [List.mem_singleton.mp empty] at some'
        exact absurd bare_nil some'
  · rw [splitChars, if_neg (by simpa using space), splitChars, List.reverse_cons,
      List.reverse_reverse] at listed
    rcases List.mem_append.mp listed with earlier | late
    · exact before earlier
    · rw [List.mem_singleton.mp late]
      exact ⟨last, by simp, (bare_concat (blanks c white) last).symm⟩

/-- The words of a text are words of the text trimmed. -/
theorem covers_trim (blanks : ∀ c, isWhitespace c = true → isAlphanumeric c = false) (text : String) :
    Covers text.toList (trim text).toList := by
  have left : ∀ cs : List Char, Covers cs (cs.dropWhile isWhitespace) := by
    intro cs
    induction cs with
    | nil => exact .refl _
    | cons c cs ih =>
      by_cases white : isWhitespace c = true
      · rw [List.dropWhile_cons_of_pos white]
        exact (covers_cons blanks white).trans ih
      · rw [List.dropWhile_cons_of_neg white]
        exact .refl _
  have right : ∀ cs : List Char, Covers cs (cs.rdropWhile isWhitespace) := by
    intro cs
    induction cs using List.reverseRecOn with
    | nil => exact .refl _
    | append_singleton cs c ih =>
      by_cases white : isWhitespace c = true
      · rw [List.rdropWhile_concat_pos _ _ _ white]
        exact (covers_concat blanks white).trans ih
      · rw [List.rdropWhile_concat_neg _ _ _ white]
        exact .refl _
  rw [toList_trim]
  exact (left _).trans (right _)

/-- A word of a text, without the signs around it. -/
def IsWord (word text : String) : Prop := ∃ piece ∈ split (· == ' ') text, bare piece = word

/-- **What an utterance was unsure of are words of it.** -/
theorem unsure_word (blanks : ∀ c, isWhitespace c = true → isAlphanumeric c = false)
    (tokens : List (String × F32)) :
    ∀ w ∈ unsureWords tokens, IsWord w.1 (trim (String.join (tokens.map Prod.fst))) := by
  intro w listed
  obtain ⟨init, all, words⟩ := Pieces.tokens tokens
  obtain ⟨held, sure⟩ := List.mem_filter.mp listed
  obtain ⟨⟨word, p⟩, among, rfl⟩ := List.mem_map.mp held
  have some' : bare word ≠ "" := (of_decide_eq_true sure).1
  have piece : word.toList ∈ splitChars (· == ' ') (String.join (tokens.map Prod.fst)).toList [] := by
    rw [all]
    split at among
    · rcases List.mem_append.mp among with before | last
      · exact List.mem_append_left _ (words _ before)
      · rw [← List.mem_singleton.mp last]
        exact List.mem_append_right _ List.mem_cons_self
    · exact List.mem_append_left _ (words _ among)
  obtain ⟨piece', listed', same⟩ := covers_trim blanks _ _ piece (by rwa [String.ofList_toList])
  exact ⟨String.ofList piece', List.mem_map_of_mem listed', by rw [same, String.ofList_toList]⟩

end Unsure

section Reading

variable [Unicode]

theorem finals_finished (taken : Option (String × List (String × F32))) :
    finals (finished taken) = (taken.map Prod.fst).toList := by
  rcases taken with _ | ⟨text, unsure⟩
  · rfl
  · by_cases sure : unsure = [] <;> simp [finished, finals, sure]

/-- The texts of the final tokens. -/
def Utterance.held (u : Utterance) : List String := u.finals.map Prod.fst

theorem take_eq (u : Utterance) : finals (recognizer.take u).1 = [server.glue u.held].filter
    (· ≠ "") := by
  have glued : server.glue u.held = trim u.text := rfl
  have taken : (recognizer.take u).1 = finished u.take.1 := by simp only [recognizer]
  rw [glued, taken, finals_finished, Utterance.take]
  by_cases some' : trim u.text = "" <;> simp [some']

theorem soFar_take (u : Utterance) (p : String) : .soFar p ∉ (recognizer.take u).1 := by
  have taken : (recognizer.take u).1 = finished u.take.1 := by simp only [recognizer]
  rw [taken]
  rcases u.take.1 with _ | ⟨text, unsure⟩
  · simp [finished]
  · by_cases sure : unsure = [] <;> simp [finished, sure]

theorem heard_error {v : Json} (failed : isError v = true) : ∃ e, heard v = .error e := by
  obtain ⟨code, is⟩ := Option.isSome_iff_exists.mp failed
  exact ⟨_, by rw [heard, is]⟩

theorem heard_over {v : Json} (sound : isError v = false) (ends : isOver v = true) :
    heard v = .finished := by
  have none' : v.get "error_code" = none := by simpa [isError] using sound
  rw [heard, none']
  exact if_pos (eq_of_beq ends)

theorem heard_tokens {v : Json} (sound : isError v = false) (goes : isOver v = false) :
    heard v = .tokens ((items v).filterMap token) ((items v).any isFin) := by
  have none' : v.get "error_code" = none := by simpa [isError] using sound
  rw [heard, none']
  exact if_neg fun ends => by simp [isOver, ends] at goes

/-- What a token says is what the words of its item are. -/
theorem token_eq (t : Json) : token t = (words t).map fun text =>
    ⟨text, decide ((t.get "is_final").bind Json.asBool = some true),
      F32.ofRat (((t.get "confidence").bind Json.asF64).getD 1)⟩ := by
  have final : ((t.get "is_final").bind Json.asBool).getD false =
      decide ((t.get "is_final").bind Json.asBool = some true) := by
    rcases (t.get "is_final").bind Json.asBool with _ | _ | _ <;> rfl
  cases text : (t.get "text").bind Json.asStr with
  | none => simp [token, words, text]
  | some text' =>
    by_cases mark : text' = "<fin>" ∨ text' = "<end>"
    · rcases mark with rfl | rfl <;> simp [token, words, text]
    · obtain ⟨one, two⟩ := not_or.mp mark
      simp [token, words, text, one, two, final]

/-- The texts of the tokens that are final, or of those that are not, are the words of their items. -/
theorem token_texts (ts : List Json) (final : Bool) :
    ((ts.filterMap token).filter fun t => t.isFinal == final).map (·.text) =
      (ts.filter fun t =>
        decide ((t.get "is_final").bind Json.asBool = some true) == final).filterMap words := by
  induction ts with
  | nil => rfl
  | cons t ts ih =>
    cases said : words t with
    | none =>
      have none' : token t = none := by rw [token_eq, said, Option.map_none]
      rw [List.filterMap_cons_none none', ih, List.filter_cons]
      split
      · rw [List.filterMap_cons_none said]
      · rfl
    | some text =>
      have own := token_eq t
      rw [said, Option.map_some] at own
      rw [List.filterMap_cons_some own, List.filter_cons, List.filter_cons]
      split
      · rw [List.map_cons, List.filterMap_cons_some said, ih]
      · exact ih

theorem message_texts (v : Json) (final : Bool) :
    (((items v).filterMap token).filter fun t => t.isFinal == final).map
    (·.text) = (itemsOf final v).filterMap words :=
  token_texts (items v) final

/-- The final tokens of a message are its final pieces, -/
theorem push_finals (u : Utterance) (v : Json) :
    (u.push ((items v).filterMap token)).held = u.held ++ server.pieces v := by
  have own := message_texts v true
  simp only [beq_true] at own
  simp only [Utterance.held, Utterance.push, List.map_append, List.map_map, Function.comp_def]
  exact congrArg (u.finals.map Prod.fst ++ ·) own

/-- and the others its words that are not final yet. -/
theorem push_interim (u : Utterance) (v : Json) :
    (u.push ((items v).filterMap token)).interim = server.interim v := by
  have own := message_texts v false
  simp only [beq_false] at own
  exact congrArg String.join own

/-- What a message does, by what it is: an error, the server's end, or tokens. -/
theorem hear_cases (u : Utterance) (v : Json) :
    (server.silent v = true ∧ server.fin v = false ∧
        ((∃ e, recognizer.hear u v = .tells [.error e] u) ∨
          server.ends v = true ∧ recognizer.hear u v = .finished)) ∨
      (server.silent v = false ∧ ∃ u' : Utterance, u'.held = u.held ++ server.pieces v ∧
        u'.interim = server.interim v ∧ recognizer.hear u v =
          if server.fin v then .fin u' else .tells (u'.soFar.map SttEvent.soFar).toList u') := by
  have hears : recognizer.hear u v = reply u (heard v) := rfl
  cases failed : isError v with
  | true =>
    obtain ⟨e, is⟩ := heard_error failed
    exact .inl ⟨by simp [server, failed], by simp [server, failed], .inl ⟨e, by rw [hears, is, reply]⟩⟩
  | false =>
    cases ends : isOver v with
    | true =>
      refine .inl ⟨by simp [server, ends], by simp [server, ends],
        .inr ⟨by simp [server, failed, ends], ?_⟩⟩
      rw [hears, heard_over failed ends, reply]
    | false =>
      refine .inr ⟨by simp [server, failed, ends], u.push ((items v).filterMap token), push_finals u v,
        push_interim u v, ?_⟩
      have fin : server.fin v = (items v).any isFin := by
        simp only [server, failed, ends, Bool.not_false, Bool.true_and]
        rfl
      rw [hears, heard_tokens failed ends, reply, fin]

/-- What is told of the utterance under way. -/
theorem soFar_eq {u : Utterance} {p : String} (said : u.soFar = some p) :
    p = server.glue (u.held ++ [u.interim]) := by
  have whole : u.text ++ u.interim = String.join (u.held ++ [u.interim]) := by
    refine String.toList_inj.mp ?_
    simp [Utterance.text, Utterance.held, String.toList_join]
  rw [Utterance.soFar, whole] at said
  split at said
  · exact (Option.some.inj said).symm
  · cases said

/-- **An utterance holds exactly the final pieces read since it was taken.** -/
theorem conserves : server.Conserves Utterance.held recognizer where
  empty := rfl
  take u := ⟨take_eq u, rfl⟩
  whole := soFar_take
  tells u v events u' answer := by
    rcases hear_cases u v with ⟨silent, goes, ⟨e, is⟩ | ⟨-, is⟩⟩ | ⟨silent, u'', held, interim, is⟩
    · rw [is] at answer
      obtain ⟨rfl, rfl⟩ := Reply.tells.inj answer
      exact ⟨rfl, goes, by simp [silent], by simp⟩
    · rw [is] at answer
      cases answer
    · rw [is] at answer
      cases goes : server.fin v with
      | true =>
        rw [if_pos goes] at answer
        cases answer
      | false =>
        rw [if_neg (by simp [goes])] at answer
        obtain ⟨rfl, rfl⟩ := Reply.tells.inj answer
        refine ⟨?_, rfl, by simp [silent, held], fun p listed => ?_⟩
        · cases u''.soFar <;> rfl
        · obtain ⟨q, said, same⟩ := Option.map_eq_some_iff.mp (Option.mem_toList.mp listed)
          rw [← SttEvent.soFar.inj same, soFar_eq said, interim]
  fin u v u' answer := by
    rcases hear_cases u v with ⟨-, -, ⟨e, is⟩ | ⟨-, is⟩⟩ | ⟨-, u'', held, -, is⟩
    · rw [is] at answer
      cases answer
    · rw [is] at answer
      cases answer
    · rw [is] at answer
      split at answer
      · next fin =>
        obtain rfl := Reply.fin.inj answer
        exact ⟨fin, held⟩
      · cases answer
  finished u v answer := by
    rcases hear_cases u v with ⟨silent, goes, ⟨e, is⟩ | ⟨ends, -⟩⟩ | ⟨-, u'', -, -, is⟩
    · rw [is] at answer
      cases answer
    · exact ⟨ends, silent, goes⟩
    · rw [is] at answer
      split at answer <;> cases answer

end Reading

end Soniox

namespace Deepgram

theorem flag_eq (v : Json) (k : String) : flag v k = ((v.get k).bind Json.asBool == some true) := by
  rw [flag]
  rcases (v.get k).bind Json.asBool with _ | _ | _ <;> rfl

theorem pushFinal_finals (u : Utterance) (text : String) :
    (u.pushFinal text).finals = u.finals ++ [text].filter (· ≠ "") := by
  unfold Utterance.pushFinal
  split
  · next none' => simp [none']
  · next some' => simp [some']

theorem glue_finals (u : Utterance) : server.glue u.finals = join " " u.finals := by
  refine congrArg (join " ") (List.filter_eq_self.mpr fun text listed => ?_)
  simp only [decide_eq_true_eq]
  rintro rfl
  exact u.filled listed

theorem take_eq (u : Utterance) : finals (recognizer.take u).1 = [server.glue u.finals].filter
    (· ≠ "") := by
  have taken : (recognizer.take u).1 = (u.take.1.map SttEvent.final).toList := rfl
  rw [glue_finals, taken, Utterance.take]
  by_cases some' : join " " u.finals = "" <;> simp [some', finals]

/-- What a message does, by what it is: a final transcript, one that is not, or none. -/
theorem hear_cases (u : Utterance) (v : Json) :
    (∃ text, server.pieces v = [text].filter (· ≠ "") ∧ recognizer.hear u v =
        if server.fin v then .fin (u.pushFinal text) else .tells [] (u.pushFinal text)) ∨
      (server.pieces v = [] ∧ server.fin v = false ∧
        (recognizer.hear u v = .tells ((u.soFar (server.interim v)).map SttEvent.soFar).toList u ∨
          recognizer.hear u v = .tells [] u ∨ ∃ e, recognizer.hear u v = .tells [.error e] u)) := by
  have hears : recognizer.hear u v = reply u (heard v) := rfl
  by_cases results : (v.get "type").bind Json.asStr = some "Results"
  · obtain ⟨text, transcript'⟩ : ∃ text, transcript v = some (flag v "is_final", text) ∧
        heard v = .result text (flag v "is_final") (flag v "from_finalize") := by
      refine ⟨trim
        (((Providers.pointer v ["channel", "alternatives", "0", "transcript"]).bind Json.asStr).getD ""),
        ?_, ?_⟩
      · rw [transcript, if_pos results, flag_eq]
      · rw [heard, results]
        rfl
    obtain ⟨is, said⟩ := transcript'
    cases final : flag v "is_final" with
    | true =>
      rw [final] at is said
      refine .inl ⟨text, by simp only [server, is], ?_⟩
      have fin : server.fin v = flag v "from_finalize" := by simp [server, is, flag_eq]
      rw [hears, said, reply, fin]
    | false =>
      rw [final] at is said
      refine .inr ⟨by simp only [server, is], by simp [server, is], .inl ?_⟩
      have interim : server.interim v = text := by simp only [server, is]
      rw [hears, said, reply, interim]
  · have none' : transcript v = none := by rw [transcript, if_neg results]
    refine .inr ⟨by simp only [server, none'], by simp [server, none'], .inr ?_⟩
    cases said : heard v with
    | result text isFinal fromFinalize =>
      unfold heard at said
      split at said
      · next is => exact absurd is results
      · cases said
      · cases said
    | error e => exact .inr ⟨e, by rw [hears, said, reply]⟩
    | other => exact .inl (by rw [hears, said, reply])

/-- **An utterance holds exactly the final pieces read since it was taken.** -/
theorem conserves : server.Conserves Utterance.finals recognizer where
  empty := rfl
  take u := ⟨take_eq u, rfl⟩
  whole u p := by
    have taken : (recognizer.take u).1 = (u.take.1.map SttEvent.final).toList := rfl
    rw [taken]
    cases u.take.1 <;> simp
  tells u v events u' answer := by
    rcases hear_cases u v with ⟨text, pieces, is⟩ | ⟨pieces, goes, is | is | ⟨e, is⟩⟩
    · rw [is] at answer
      split at answer
      · cases answer
      · next goes =>
        obtain ⟨rfl, rfl⟩ := Reply.tells.inj answer
        exact ⟨rfl, by simpa using goes, by rw [pushFinal_finals, pieces]; rfl, by simp⟩
    · rw [is] at answer
      obtain ⟨rfl, rfl⟩ := Reply.tells.inj answer
      refine ⟨?_, goes, by rw [pieces]; simp, fun p listed => ?_⟩
      · cases u.soFar (server.interim v) <;> rfl
      · obtain ⟨q, said, same⟩ := Option.map_eq_some_iff.mp (Option.mem_toList.mp listed)
        rw [← SttEvent.soFar.inj same]
        unfold Utterance.soFar at said
        dsimp only at said
        split at said
        · cases said
        · exact (Option.some.inj said).symm
    · rw [is] at answer
      obtain ⟨rfl, rfl⟩ := Reply.tells.inj answer
      exact ⟨rfl, goes, by rw [pieces]; simp, by simp⟩
    · rw [is] at answer
      obtain ⟨rfl, rfl⟩ := Reply.tells.inj answer
      exact ⟨rfl, goes, by rw [pieces]; simp, by simp⟩
  fin u v u' answer := by
    rcases hear_cases u v with ⟨text, pieces, is⟩ | ⟨pieces, goes, is | is | ⟨e, is⟩⟩
    · rw [is] at answer
      split at answer
      · next fin =>
        obtain rfl := Reply.fin.inj answer
        exact ⟨fin, by rw [pushFinal_finals, pieces]⟩
      · cases answer
    all_goals
      rw [is] at answer
      cases answer
  finished u v answer := by
    rcases hear_cases u v with ⟨text, pieces, is⟩ | ⟨pieces, goes, is | is | ⟨e, is⟩⟩
    · rw [is] at answer
      split at answer <;> cases answer
    all_goals
      rw [is] at answer
      cases answer

end Deepgram

/-! ### What every run tells -/

/-- An event that announces unsure words has the final it speaks of right after it. -/
def Announced (word : String → String → Prop) (events : List SttEvent) : Prop :=
  ∀ pre ws post, events = pre ++ .unsure ws :: post →
    ∃ t rest, post = .final t :: rest ∧ ∀ w ∈ ws, word w.1 t

/-- What every run tells: no empty final, and unsure words of the final right after them. -/
structure WellTold {υ : Type} (r : Recognizer υ) (word : String → String → Prop)
    (inputs : List ReaderInput) : Prop where
  finals : "" ∉ finals (told (reading r inputs))
  unsure : Announced word (told (reading r inputs))

theorem Announced.append {word : String → String → Prop} {xs ys : List SttEvent}
    (first : Announced word xs)
    (second : Announced word ys) : Announced word (xs ++ ys) := by
  intro pre ws post split
  rcases List.append_eq_append_iff.mp split with ⟨more, rfl, rest⟩ | ⟨more, rfl, rest⟩
  · exact second more ws post rest
  · cases more with
    | nil => exact second [] ws post (by simpa using rest.symm)
    | cons e more =>
      obtain ⟨rfl, rfl⟩ := List.cons.inj rest
      obtain ⟨t, later, rfl, words⟩ := first pre ws more rfl
      exact ⟨t, later ++ ys, rfl, words⟩

theorem Announced.flatMap {word : String → String → Prop} {α : Type} {f : α → List SttEvent} {xs : List α}
    (each : ∀ x ∈ xs, Announced word (f x)) : Announced word (xs.flatMap f) := by
  induction xs with
  | nil => exact fun pre ws post split => by simp at split
  | cons x xs ih =>
    obtain ⟨own, rest⟩ := List.forall_mem_cons.mp each
    exact own.append (ih rest)

/-- Where nothing is unsure. -/
theorem announced_of_none {word : String → String → Prop} {events : List SttEvent}
    (none' : ∀ ws, .unsure ws ∉ events) : Announced word events := by
  rintro pre ws post rfl
  exact absurd (List.mem_append_right _ List.mem_cons_self) (none' ws)

theorem mem_finals {events : List SttEvent} {t : String} : t ∈ finals events ↔ .final t ∈ events := by
  constructor
  · intro listed
    obtain ⟨e, held, is⟩ := List.mem_filterMap.mp listed
    cases e <;> cases is
    exact held
  · exact fun held => List.mem_filterMap.mpr ⟨_, held, rfl⟩

section Runs

variable {υ : Type} {server : Server} {r : Recognizer υ} {held : υ → List String}

/-- A recognizer of a server makes no empty final. -/
theorem finals_filled (conserves : server.Conserves held r) (inputs : List ReaderInput) :
    "" ∉ finals (told (reading r inputs)) := by
  intro listed
  obtain ⟨ev, member, tells⟩ := List.mem_flatMap.mp (mem_finals.mp listed)
  revert tells
  refine output_of_turn (P := fun _ _ events => .final "" ∉ events) (by simp)
    (fun _ _ u tells => ?_) (by simp)
    (fun s v events u answer tells => ?_) inputs ev member
  · have empty := mem_finals.mpr tells
    rw [(conserves.take u).1] at empty
    simp at empty
  · have empty := mem_finals.mpr tells
    rw [(conserves.tells _ _ _ _ answer).1] at empty
    cases empty

end Runs

namespace Soniox

variable [Unicode]

/-- The unsure words of an utterance are told right before its text. -/
theorem announced_take (blanks : ∀ c, isWhitespace c = true → isAlphanumeric c = false) (u : Utterance) :
    Announced IsWord (recognizer.take u).1 := by
  simp only [recognizer, Utterance.take]
  by_cases some' : trim u.text ≠ ""
  · rw [if_pos some', finished]
    by_cases sure : unsureWords u.finals = []
    · rw [if_pos sure]
      exact announced_of_none (by simp)
    · rw [if_neg sure]
      intro pre ws post split
      cases pre with
      | nil =>
        obtain ⟨same, rest⟩ := List.cons.inj split
        obtain rfl := SttEvent.unsure.inj same
        exact ⟨_, [], rest.symm, unsure_word blanks u.finals⟩
      | cons e pre =>
        obtain ⟨-, rest⟩ := List.cons.inj split
        have listed : SttEvent.unsure ws ∈ [SttEvent.final (trim u.text)] := by
          rw [show [SttEvent.final (trim u.text)] = pre ++ .unsure ws :: post from rest]
          exact List.mem_append_right _ List.mem_cons_self
        simp at listed
  · rw [if_neg some']
    exact announced_of_none (by simp [finished])

/-- What Soniox tells in every run. -/
theorem wellTold (blanks : ∀ c, isWhitespace c = true → isAlphanumeric c = false)
    (inputs : List ReaderInput) :
    WellTold recognizer IsWord inputs where
  finals := finals_filled conserves inputs
  unsure := by
    refine Announced.flatMap (output_of_turn (P := fun _ _ events => Announced IsWord events)
      (fun _ _ => announced_of_none (by simp)) (fun _ _ u => announced_take blanks u)
      (fun _ _ => announced_of_none (by simp)) (fun s v events u answer => ?_) inputs)
    refine announced_of_none fun ws listed => ?_
    rcases hear_cases s.utterance v with ⟨-, -, ⟨e, is⟩ | ⟨-, is⟩⟩ | ⟨-, u', -, -, is⟩
    · rw [is] at answer
      obtain ⟨rfl, -⟩ := Reply.tells.inj answer
      simp at listed
    · rw [is] at answer
      cases answer
    · rw [is] at answer
      split at answer
      · cases answer
      · obtain ⟨rfl, -⟩ := Reply.tells.inj answer
        obtain ⟨q, -, same⟩ := Option.map_eq_some_iff.mp (Option.mem_toList.mp listed)
        cases same

end Soniox

namespace Deepgram

/-- What Deepgram tells in every run: it is never unsure. -/
theorem wellTold (inputs : List ReaderInput) : WellTold recognizer (fun _ _ => False) inputs where
  finals := finals_filled conserves inputs
  unsure := by
    refine Announced.flatMap (output_of_turn (P := fun _ _ events => Announced (fun _ _ => False) events)
      (fun _ _ => announced_of_none (by simp)) (fun _ _ u => announced_of_none fun ws listed => ?_)
      (fun _ _ => announced_of_none (by simp))
        (fun s v events u answer => announced_of_none fun ws listed => ?_) inputs)
    · have taken : (recognizer.take u).1 = (u.take.1.map SttEvent.final).toList := rfl
      rw [taken] at listed
      obtain ⟨q, -, same⟩ := Option.map_eq_some_iff.mp (Option.mem_toList.mp listed)
      cases same
    · rcases hear_cases s.utterance v with ⟨text, -, is⟩ | ⟨-, -, is | is | ⟨e, is⟩⟩
      · rw [is] at answer
        split at answer
        · cases answer
        · obtain ⟨rfl, -⟩ := Reply.tells.inj answer
          simp at listed
      · rw [is] at answer
        obtain ⟨rfl, -⟩ := Reply.tells.inj answer
        obtain ⟨q, -, same⟩ := Option.map_eq_some_iff.mp (Option.mem_toList.mp listed)
        cases same
      · rw [is] at answer
        obtain ⟨rfl, -⟩ := Reply.tells.inj answer
        simp at listed
      · rw [is] at answer
        obtain ⟨rfl, -⟩ := Reply.tells.inj answer
        simp at listed

end Deepgram

/-! ### Both readers -/

/-- No final piece is passed by in a run. -/
def CompleteRun {υ : Type} (server : Server) (r : Recognizer υ) (inputs : List ReaderInput) : Prop :=
  Along (fun pre ev => server.Complete pre ev) (reading r inputs)

/-- What a run has to tell is told. -/
def KeptRun {υ : Type} (server : Server) (r : Recognizer υ) (inputs : List ReaderInput) : Prop :=
  server.Kept (reading r inputs) (final (Reader.step r) (Reader.begun r) inputs)

/-- **No recognized word is lost or repeated.** A run of either reader in which no final piece is
passed by tells each of them exactly once and in order, and as partials what is still to be told
with the latest words after it; and every run tells no empty final, and unsure words of the final
right after them. -/
theorem words_kept [Unicode] (blanks : ∀ c, isWhitespace c = true → isAlphanumeric c = false)
    (inputs : List ReaderInput) :
    ((CompleteRun Soniox.server Soniox.recognizer inputs →
      KeptRun Soniox.server Soniox.recognizer inputs) ∧
      WellTold Soniox.recognizer Soniox.IsWord inputs) ∧
    ((CompleteRun Deepgram.server Deepgram.recognizer inputs →
      KeptRun Deepgram.server Deepgram.recognizer inputs) ∧
      WellTold Deepgram.recognizer (fun _ _ => False) inputs) :=
  ⟨⟨kept_of_complete Soniox.conserves inputs, Soniox.wellTold blanks inputs⟩,
    ⟨kept_of_complete Deepgram.conserves inputs, Deepgram.wellTold inputs⟩⟩

section Runs

/-- A message of Soniox with a final token, and the end of a finalize with it or not. -/
def Soniox.message (text : String) (fin : Bool) : Json :=
  .obj [("tokens", .arr (.obj [("text", .str text), ("is_final", .bool true)] ::
    if fin then [.obj [("text", .str "<fin>"), ("is_final", .bool true)]] else []))]

/-- A message of Deepgram with a transcript. -/
def Deepgram.message (text : String) (isFinal fin : Bool) : Json :=
  .obj [("type", .str "Results"), ("is_final", .bool isFinal), ("from_finalize", .bool fin),
    ("channel", .obj [("alternatives", .arr [.obj [("transcript", .str text)]])])]

/-- Words that are finalized before the stream ends. -/
def Soniox.answered : List ReaderInput := [.message (Soniox.message "כן " false), .finalize 0,
  .message (Soniox.message "תודה" true), .ended]

def Deepgram.answered : List ReaderInput := [.message (Deepgram.message "כן" true false), .finalize 0,
  .message (Deepgram.message "תוד" false false), .message (Deepgram.message "תודה" true true), .ended]

theorem answered_kept :
    letI := Unicode.plain
    KeptRun Soniox.server Soniox.recognizer Soniox.answered ∧
      KeptRun Deepgram.server Deepgram.recognizer Deepgram.answered := by
  let _ := Unicode.plain
  refine ⟨(words_kept plain_blanks Soniox.answered).1.1 ?_,
    (words_kept plain_blanks Deepgram.answered).2.1 ?_⟩
  · unfold CompleteRun
    decide +kernel
  · unfold CompleteRun
    decide +kernel

/-- A word that is final when the stream ends, and was not asked for. -/
def Soniox.unasked : List ReaderInput := [.message (Soniox.message "כן" false), .ended]

/-- When the stream ends, the words that wait are not told. -/
theorem last_words_lost : ¬ ∀ (_ : Unicode) (inputs : List ReaderInput),
    KeptRun Soniox.server Soniox.recognizer inputs := by
  intro all
  have kept := (all Unicode.plain Soniox.unasked).ended
  revert kept
  decide +kernel

end Runs

end Callora.Recognizers
