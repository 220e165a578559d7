/-
**The words of a transcript.**

Two transcripts say the same when their words are the same, punctuation, spacing and case aside. What the
session does to a transcript on its way to the agent (trimming, joining two with a space, taking a broken
sentence's marks off its end) keeps its words, or puts them one after the other.
-/
import Callora.Text.Spans

set_option linter.unusedSectionVars false

namespace Callora.Answering

open Text (Unicode isAlphanumeric isWhitespace toLowercase splitChars splitChars_append splitWhitespace
  splitWhitespace_map splitWhitespace_trim trim trimEnd trimEndMatches)

section Source

variable [Unicode]

/-- A piece without punctuation or case. -/
def bare (piece : List Char) : List Char := (piece.filter isAlphanumeric).flatMap toLowercase

/-- The words of a sentence, without punctuation or case. -/
def words (s : String) : List String :=
  ((splitWhitespace s).map fun w => String.ofList (bare w.toList)).filter fun w => !w.isEmpty

/-- The same words, ignoring punctuation, spacing and case. -/
def sameWords (a b : String) : Bool := words a == words b

end Source

/-- `ends_with`, of one of some marks at the end of a sentence. -/
def sentenceMarks : List Char := ['.', ',', '?', '!']

/-- A sentence the caller broke off: the recognizer's trailing "..." or "-", or a lone Hebrew letter. -/
def isUnfinished (text : String) : Bool :=
  let t := trimEnd text
  let loneLetter := match (splitWhitespace (trimEndMatches sentenceMarks.contains t)).getLast? with
    | some w => w.length == 1 && w.toList.all fun c => 'א' ≤ c && c ≤ 'ת'
    | none => false
  Text.endsWith t "..." || Text.endsWith t "…" || Text.endsWith t "-" || loneLetter

/-- "אני רוצה", "צריך": the start of a request the caller paused in. -/
def beginsARequest (text : String) : Bool :=
  let last :=
    ((splitWhitespace (trimEndMatches (sentenceMarks ++ ['…', ' ']).contains text)).getLast?).getD ""
  ["רוצה", "רוצים", "צריך", "צריכה", "צריכים", "מבקש", "מבקשת"].contains last

/-- What is taken off a broken sentence, before it is answered as it is. -/
def brokenMarks : List Char := ['.', '…', '-', ' ']

/-! ### What keeps the words -/

section Splitting

variable {sep : Char → Bool} {c : Char} {s t piece : List Char}

/-- A character that leaves no trace in a piece leaves none in the pieces. -/
theorem map_splitChars_concat {β : Type} {f : List Char → β} (inside : ¬ sep c)
    (traceless : ∀ piece, f (piece ++ [c]) = f piece) :
    (splitChars sep (s ++ [c]) piece).map f = (splitChars sep s piece).map f := by
  induction s generalizing piece with
  | nil => simp [splitChars, inside, traceless]
  | cons first s ih =>
    by_cases here : sep first
    · rw [List.cons_append, splitChars, if_pos here, List.map_cons, ih, splitChars, if_pos here,
        List.map_cons]
    · rw [List.cons_append, splitChars, if_neg here, ih, splitChars, if_neg here]

end Splitting

section Words

variable [Unicode] {c : Char} {s t : List Char}

@[simp] theorem bare_nil : bare [] = [] := rfl

theorem bare_concat (mark : isAlphanumeric c = false) (piece : List Char) :
    bare (piece ++ [c]) = bare piece := by
  simp [bare, List.filter_append, mark]

/-- The words are the bare pieces, without the empty ones. -/
theorem words_ofList (s : List Char) :
    words (String.ofList s) =
    (((splitChars isWhitespace s []).map bare).filter fun w => !w.isEmpty).map String.ofList := by
  rw [words, splitWhitespace_map bare_nil, String.toList_ofList]

/-- Two transcripts with a space between them. -/
theorem words_append (a b : String) : words (a ++ " " ++ b) = words a ++ words b := by
  have joined : a ++ " " ++ b = String.ofList (a.toList ++ ' ' :: b.toList) :=
    String.toList_inj.mp (by simp)
  have left : a = String.ofList a.toList := String.toList_inj.mp (by simp)
  have right : b = String.ofList b.toList := String.toList_inj.mp (by simp)
  rw [joined, words_ofList, splitChars_append _ _ _ (by decide), List.map_append,
    List.filter_append, List.map_append,
    ← words_ofList, ← words_ofList, ← left, ← right]

/-- A space, or a mark, at the end. -/
theorem words_concat (outer : isWhitespace c = true ∨ isAlphanumeric c = false) :
    words (String.ofList (s ++ [c])) = words (String.ofList s) := by
  by_cases space : isWhitespace c = true
  · rw [words_ofList, splitChars_append _ _ _ space, words_ofList]
    simp [splitChars]
  · rw [words_ofList, map_splitChars_concat space (bare_concat (outer.resolve_left space)), words_ofList]

/-- Spaces and marks are taken off the end. -/
theorem words_trimEndMatches {p : Char → Bool}
    (outer : ∀ c, p c → isWhitespace c = true ∨ isAlphanumeric c = false)
    (text : String) : words (trimEndMatches p text) = words text := by
  have taken : ∀ s : List Char, words (String.ofList (s.reverse.dropWhile p).reverse) =
    words (String.ofList s) := by
    intro s
    induction s using List.reverseRecOn with
    | nil => rfl
    | append_singleton s c ih =>
      by_cases off : p c
      · rw [List.reverse_append, List.reverse_singleton, List.singleton_append,
          List.dropWhile_cons_of_pos off, ih,
          words_concat (outer c off)]
      · rw [List.reverse_append, List.reverse_singleton, List.singleton_append,
          List.dropWhile_cons_of_neg off,
          List.reverse_cons, List.reverse_reverse]
  have all := taken text.toList
  rwa [String.ofList_toList] at all

/-- `trim` takes off spaces. -/
theorem words_trim (text : String) : words (trim text) = words text := by
  rw [words, words, splitWhitespace_trim]

/-- A broken sentence's marks are no words. -/
theorem words_released (ellipsis : isAlphanumeric '…' = false) (text : String) :
    words (trimEndMatches brokenMarks.contains text) = words text := by
  refine words_trimEndMatches (fun c listed => ?_) text
  have mark : c = '.' ∨ c = '…' ∨ c = '-' ∨ c = ' ' := by simpa [brokenMarks] using listed
  rcases mark with rfl | rfl | rfl | rfl
  · exact .inr rfl
  · exact .inr ellipsis
  · exact .inr rfl
  · exact .inl rfl

end Words

end Callora.Answering
