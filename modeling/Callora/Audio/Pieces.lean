/-
**A long sentence in pieces.**

A sentence too long to be synthesized at once is cut after every comma and sentence mark
(`splitMarks`), and the trimmed pieces are merged where two are short (`mergeShort`).

- `join_mergeShort`: merging changes nothing of the sentence the pieces make;
- `join_splitForTts`: the pieces of a long sentence, joined, are its letters with a space after
  every mark and the gaps it had elsewhere;
- `splitForTts_whole`: so they are the sentence with its white space collapsed, and cut no word,
  exactly when the white space stands as `Spaced` tells.

A mark inside a number is followed by a space in the pieces (`price_cut`).
-/
import Callora.Library.Gaps
import Callora.Text.Spans

set_option linter.unusedSectionVars false

namespace Callora.Audio

open Text Gaps

/-! ### The pieces -/

/-- The characters a sentence is cut after. -/
def isMark (c : Char) : Bool := c == ',' || c == '.' || c == '?' || c == '!'

/-- The parts of a sentence, the one under way carried reversed; a last one of white space is dropped. -/
def splitMarks : List Char → List Char → List String
  | [], current =>
    let last := String.ofList current.reverse
    if trim last = "" then [] else [last]
  | c :: cs, current =>
    if isMark c then String.ofList (c :: current).reverse :: splitMarks cs []
      else splitMarks cs (c :: current)

/-- A piece is joined to the one before it when both together are short. -/
def pushPiece (out : List String) (p : String) : List String :=
  match out.getLast? with
  | some last => if last.length + p.length < 20 then out.dropLast ++ [last ++ " " ++ p] else out ++ [p]
  | none => out ++ [p]

/-- The pieces, merged. -/
def mergeShort (pieces : List String) : List String := pieces.foldl pushPiece []

/-- The most characters that are read whole. -/
def SHORT : Nat := 160

/-- `split_for_tts`: pieces of a sentence short enough for fast live TTS. -/
def splitForTts (text : String) : List String :=
  if text.length ≤ SHORT then [text]
  else mergeShort (((splitMarks text.toList []).map trim).filter (· ≠ ""))

/-- The text with its white space collapsed and its ends trimmed. -/
def collapsed (text : String) : String := join " " (splitWhitespace text)

/-- No boundary between two pieces falls between two characters that stand together in the text. -/
def KeepsWords (text : String) (pieces : List String) : Prop :=
  ∀ ps qs u a b v, pieces = ps ++ qs → ps ≠ [] → qs ≠ [] → text.toList = u ++ a :: b :: v →
    isWhitespace a = false → isWhitespace b = false →
      letters isWhitespace (ps.flatMap String.toList) ≠ letters isWhitespace (u ++ [a])

/-- How the white space stands. In a text that is read whole: none at its ends, and single spaces.
In a longer one: some after every mark but the last character, and single spaces between other
characters. -/
def Spaced (text : String) : Prop :=
  let (lead, rs) := runs isWhitespace text.toList
  if text.length ≤ SHORT then
    lead = [] ∧ (∀ run ∈ rs.getLast?, run.2 = []) ∧ ∀ run ∈ rs.dropLast, run.2 = [] ∨ run.2 = [' ']
  else ∀ run ∈ rs.dropLast, if isMark run.1 then run.2 ≠ [] else run.2 = [] ∨ run.2 = [' ']

instance (text : String) : Decidable (Spaced text) := by
  unfold Spaced
  infer_instance

/-! ### Merging -/

section Merging

theorem toList_join (pieces : List String) :
    (join " " pieces).toList = [' '].intercalate (pieces.map String.toList) := by
  simp [join, List.intercalate]

theorem intercalate_append {α : Type} (sep : List α) {xs ys : List (List α)} (some' : xs ≠ [])
    (some'' : ys ≠ []) :
    sep.intercalate (xs ++ ys) = sep.intercalate xs ++ sep ++ sep.intercalate ys := by
  induction xs with
  | nil => exact absurd rfl some'
  | cons x xs ih =>
    cases xs with
    | nil => simp [List.intercalate_cons_of_ne_nil some'']
    | cons next rest =>
      rw [List.cons_append, List.intercalate_cons_of_ne_nil (by simp), ih (List.cons_ne_nil _ _),
        List.intercalate_cons_cons]
      simp

/-- A separator within a piece, or between two. -/
theorem join_merged (init rest : List String) (last p : String) :
    join " " (init ++ (last ++ " " ++ p) :: rest) = join " " (init ++ last :: p :: rest) := by
  refine String.toList_inj.mp ?_
  rw [toList_join, toList_join]
  induction init with
  | nil =>
    cases rest with
    | nil => simp
    | cons next rest => simp [List.intercalate_cons_cons]
  | cons first init ih =>
    rw [List.cons_append, List.cons_append, List.map_cons, List.map_cons,
      List.intercalate_cons_of_ne_nil (by simp), List.intercalate_cons_of_ne_nil (by simp), ih]

theorem join_pushPiece (out : List String) (p : String) (rest : List String) :
    join " " (pushPiece out p ++ rest) = join " " (out ++ p :: rest) := by
  cases found : out.getLast? with
  | none => simp [pushPiece, found]
  | some last =>
    obtain ⟨init, rfl⟩ := List.getLast?_eq_some_iff.mp found
    by_cases short : last.length + p.length < 20
    · simp only [pushPiece, found, if_pos short, List.dropLast_concat, List.append_assoc,
        List.singleton_append]
      simpa using join_merged init rest last p
    · simp [pushPiece, found, short]

/-- **Merging changes nothing of the sentence the pieces make.** -/
theorem join_mergeShort (pieces : List String) : join " " (mergeShort pieces) = join " " pieces := by
  have each : ∀ pieces out, join " " (pieces.foldl pushPiece out) = join " " (out ++ pieces) := by
    intro pieces
    induction pieces with
    | nil => simp
    | cons p rest ih =>
      intro out
      rw [List.foldl_cons, ih, join_pushPiece]
  exact each pieces []

end Merging

/-! ### Cutting -/

section Cutting

/-- A space after a mark, and the gap there was elsewhere. -/
def afterMarks (a : Char) (gap : List Char) : List Char := if isMark a then [' '] else gap

/-- A space for every gap that is not empty. -/
def single (_ : Char) (gap : List Char) : List Char := if gap = [] then [] else [' ']

theorem toList_trim_runs (s : String) :
    (trim s).toList = write (fun _ gap => gap) (runs isWhitespace s.toList).2 := by
  rw [← trim_eq, toList_trim]

/-- A piece before others. -/
theorem intercalate_cons {α : Type} (sep x : List α) (xs : List (List α)) :
    sep.intercalate (x :: xs) = x ++ if xs = [] then [] else sep ++ sep.intercalate xs := by
  by_cases none' : xs = []
  · simp [none']
  · rw [if_neg none', List.intercalate_cons_of_ne_nil none', List.append_assoc]

/-- Pieces that are not empty make nothing only where there are none. -/
theorem intercalate_eq_nil {α : Type} {sep : List α} {xs : List (List α)} (filled : ∀ x ∈ xs, x ≠ []) :
    sep.intercalate xs = [] ↔ xs = [] := by
  cases xs with
  | nil => simp
  | cons x xs =>
    rw [intercalate_cons]
    simp [filled x List.mem_cons_self]

theorem isMark_letter {c : Char} (mark : isMark c = true) : isWhitespace c = false := by
  simp only [isMark, Bool.or_eq_true, beq_iff_eq] at mark
  rcases mark with ((rfl | rfl) | rfl) | rfl <;> rfl

/-- The pieces of a text, as lists of characters, the one under way carried reversed. -/
def cut (cs current : List Char) : List (List Char) :=
  (((splitMarks cs current).map trim).filter (· ≠ "")).map String.toList

theorem cut_filled (cs current : List Char) : ∀ x ∈ cut cs current, x ≠ [] := by
  intro x listed
  obtain ⟨s, held, rfl⟩ := List.mem_map.mp listed
  have named : s ≠ "" := of_decide_eq_true (List.mem_filter.mp held).2
  exact fun nothing => named (String.toList_inj.mp (by simpa using nothing))

theorem fst_mem_of_runs {cs : List Char} {run : Char × List Char}
    (listed : run ∈ (runs isWhitespace cs).2) :
    run.1 ∈ cs := by
  have named : run.1 ∈ letters isWhitespace cs := by
    rw [letters_eq]
    exact List.mem_map_of_mem listed
  exact (List.mem_filter.mp named).1

/-- Without marks, every gap is what it was. -/
theorem afterMarks_clean {current : List Char} (clean : ∀ c ∈ current, isMark c = false) :
    ∀ run ∈ (runs isWhitespace current.reverse).2, afterMarks run.1 run.2 = run.2 := by
  intro run listed
  have other := clean _ (List.mem_reverse.mp (fst_mem_of_runs listed))
  exact if_neg (by simp [other])

/-- **The pieces, joined, are the letters with a space after every mark.** -/
theorem intercalate_cut (cs current : List Char) (clean : ∀ c ∈ current, isMark c = false) :
    [' '].intercalate (cut cs current) = write afterMarks
    (runs isWhitespace (current.reverse ++ cs)).2 := by
  induction cs generalizing current with
  | nil =>
    have whole : write afterMarks (runs isWhitespace current.reverse).2 =
      (trim (String.ofList current.reverse)).toList := by
      rw [toList_trim_runs, String.toList_ofList]
      exact write_congr fun run listed => afterMarks_clean clean run (List.dropLast_subset _ listed)
    rw [List.append_nil, whole, cut, splitMarks]
    by_cases nothing : trim (String.ofList current.reverse) = ""
    · simp [nothing]
    · simp [nothing]
  | cons c cs ih =>
    by_cases mark : isMark c = true
    · have letter := isMark_letter mark
      have piece : (trim (String.ofList (c :: current).reverse)).toList =
          write afterMarks ((runs isWhitespace current.reverse).2 ++ [(c, [])]) := by
        rw [toList_trim_runs, String.toList_ofList, List.reverse_cons, runs_append_letter _ letter]
        refine write_congr fun run listed => (afterMarks_clean clean run ?_).symm
        simpa [runs] using listed
      have filled : trim (String.ofList (c :: current).reverse) ≠ "" := by
        intro nothing
        rw [nothing] at piece
        exact absurd (write_eq_nil.mp piece.symm) (by simp)
      have rest := ih [] (by simp)
      have head : cut (c :: cs) current =
        (trim (String.ofList (c :: current).reverse)).toList :: cut cs [] := by
        rw [cut, splitMarks, if_pos mark, List.map_cons,
          List.filter_cons_of_pos (p := fun x => decide (x ≠ "")) (decide_eq_true filled),
          List.map_cons, cut]
      have ends : cut cs [] = [] ↔ (runs isWhitespace cs).2 = [] := by
        rw [← intercalate_eq_nil (cut_filled cs []), rest, write_eq_nil]
        rfl
      have spaced : afterMarks c (runs isWhitespace cs).1 = [' '] := if_pos mark
      rw [head, intercalate_cons, piece, rest, runs_append_letter _ letter,
        write_append afterMarks _ c (runs isWhitespace cs).1, spaced]
      simp only [ends]
      rfl
    · have other : isMark c = false := by simpa using mark
      have step : cut (c :: cs) current = cut cs (c :: current) := by
        rw [cut, splitMarks, if_neg mark, cut]
      rw [step, ih (c :: current) (List.forall_mem_cons.mpr ⟨other, clean⟩)]
      simp

/-- **The words with a space between them are the letters with a space for every gap.** -/
theorem intercalate_words (cs acc : List Char) (word : ∀ c ∈ acc, isWhitespace c = false) :
    [' '].intercalate ((splitChars isWhitespace cs acc).filter fun w => !w.isEmpty) =
      write single (runs isWhitespace (acc.reverse ++ cs)).2 := by
  have whole : ∀ {acc : List Char}, (∀ c ∈ acc, isWhitespace c = false) →
      write single (runs isWhitespace acc.reverse).2 = acc.reverse := by
    intro acc word
    have keeps : ∀ a, single a [] = [] := fun _ => rfl
    exact (write_word (fun c listed => word c (List.mem_reverse.mp listed)) keeps).1
  induction cs generalizing acc with
  | nil =>
    rw [List.append_nil, whole word, splitChars]
    cases acc with
    | nil => rfl
    | cons => simp
  | cons c cs ih =>
    cases space : isWhitespace c with
    | true =>
      have rest := ih [] (by simp)
      have filled : ∀ w ∈ (splitChars isWhitespace cs []).filter fun w => !w.isEmpty, w ≠ [] := by
        rintro w listed rfl
        exact absurd (List.mem_filter.mp listed).2 (by simp)
      have ends : ((splitChars isWhitespace cs []).filter fun w => !w.isEmpty) = [] ↔
        (runs isWhitespace cs).2 = [] := by
        rw [← intercalate_eq_nil filled, rest, write_eq_nil]
        rfl
      rw [splitChars, if_pos space]
      cases acc with
      | nil =>
        rw [List.filter_cons_of_neg (by simp), rest, List.reverse_nil, List.nil_append, List.nil_append,
          runs_blank space]
      | cons d acc =>
        have letter : isWhitespace d = false := word d List.mem_cons_self
        have own : (d :: acc).reverse =
          write single ((runs isWhitespace acc.reverse).2 ++ [(d, [])]) := by
          have same := whole word
          rw [List.reverse_cons, runs_append_letter _ letter] at same
          rw [List.reverse_cons]
          exact same.symm
        have gap : single d (runs isWhitespace (c :: cs)).1 = [' '] := by
          rw [runs_blank space]
          rfl
        have after : write single (runs isWhitespace ((d :: acc).reverse ++ c :: cs)).2 =
          (d :: acc).reverse ++
            if (runs isWhitespace cs).2 = [] then []
            else [' '] ++ write single (runs isWhitespace cs).2 := by
          calc write single (runs isWhitespace ((d :: acc).reverse ++ c :: cs)).2
              = write single ((runs isWhitespace acc.reverse).2 ++
                  (d, (runs isWhitespace (c :: cs)).1) :: (runs isWhitespace (c :: cs)).2) := by
                rw [List.reverse_cons, List.append_assoc, List.singleton_append,
                  runs_append_letter _ letter]
            _ = _ := by rw [write_append, gap, ← own, runs_blank space]
        rw [after, List.filter_cons_of_pos (by simp), intercalate_cons, rest]
        simp only [ends]
        rfl
    | false =>
      rw [splitChars, if_neg (by simp [space]), ih (c :: acc) (List.forall_mem_cons.mpr ⟨space, word⟩)]
      simp

end Cutting

/-! ### What the pieces make -/

section Whole

variable {text : String}

/-- **The pieces of a long sentence, joined, are its letters with a space after every mark.** -/
theorem join_splitForTts (long : SHORT < text.length) :
    (join " " (splitForTts text)).toList = write afterMarks (runs isWhitespace text.toList).2 := by
  rw [splitForTts, if_neg (Nat.not_le.mpr long), join_mergeShort, toList_join]
  exact intercalate_cut text.toList [] (by simp)

theorem toList_collapsed (text : String) :
    (collapsed text).toList = write single (runs isWhitespace text.toList).2 := by
  rw [collapsed, toList_join, splitWhitespace, List.map_map]
  simpa [Function.comp_def] using intercalate_words text.toList [] (by simp)

theorem single_eq_self {a : Char} {gap : List Char} : single a gap = gap ↔ gap = [] ∨ gap = [' '] := by
  unfold single
  split
  · next none' => simp [none']
  · next some' => simp [some', eq_comm]

theorem single_blank (text : String) :
    ∀ run ∈ (runs isWhitespace text.toList).2, ∀ c ∈ single run.1 run.2, isWhitespace c = true := by
  intro run _ c listed
  unfold single at listed
  split at listed
  · cases listed
  · rw [List.mem_singleton.mp listed]
    rfl

theorem runs_apart (text : String) : ∀ run ∈ (runs isWhitespace text.toList).2,
    isWhitespace run.1 = false :=
  fun run listed => (runs_letters _ run listed).1

/-- What the pieces make of a text that is read whole. -/
theorem whole_of_short (short : text.length ≤ SHORT) :
    join " " (splitForTts text) = collapsed text ↔ Spaced text := by
  have pieces : join " " (splitForTts text) = text := by
    rw [splitForTts, if_pos short]
    exact String.toList_inj.mp (by simp [toList_join])
  rw [pieces, ← String.toList_inj, toList_collapsed]
  have gaps : Spaced text ↔ (runs isWhitespace text.toList).1 = [] ∧
      gapped single (runs isWhitespace text.toList).2 = (runs isWhitespace text.toList).2 := by
    rw [Spaced, gapped_eq_self]
    simp only [if_pos short, single_eq_self]
  rw [gaps]
  constructor
  · intro same
    have apart' := congrArg (runs isWhitespace) same
    rw [runs_write (runs_apart text) (single_blank text)] at apart'
    refine ⟨congrArg Prod.fst apart', (congrArg Prod.snd apart').symm⟩
  · rintro ⟨lead, same⟩
    have flat := @runs_flatten _ isWhitespace text.toList
    rw [write_flatten, same, ← List.nil_append (List.flatMap _ _), ← lead, flat]

/-- What the pieces make of a longer text. -/
theorem whole_of_long (long : SHORT < text.length) : join " " (splitForTts text) = collapsed text ↔
    Spaced text := by
  rw [← String.toList_inj, join_splitForTts long, toList_collapsed, write_eq_write (runs_apart text)]
  · rw [Spaced]
    simp only [if_neg (Nat.not_le.mpr long)]
    refine forall₂_congr fun run _ => ?_
    unfold afterMarks
    split
    · unfold single
      split
      · next none' => simp [none']
      · next some' => simp [some']
    · rw [eq_comm, single_eq_self]
  · intro run listed c held
    unfold afterMarks at held
    split at held
    · rw [List.mem_singleton.mp held]
      rfl
    · exact (runs_letters _ run listed).2 c held
  · exact single_blank text

end Whole

/-! ### Where the boundaries fall -/

section Boundaries

variable {text : String}

/-- A piece ends with a character that is not white space. -/
def Ends (p : String) : Prop := ∃ u a, p.toList = u ++ [a] ∧ isWhitespace a = false

theorem ends_trim {s : String} (filled : trim s ≠ "") : Ends (trim s) := by
  have chars := toList_trim s
  have some' : (s.toList.dropWhile isWhitespace).rdropWhile isWhitespace ≠ [] := by
    intro nothing
    exact filled (String.toList_inj.mp (chars.trans nothing))
  refine ⟨_, _, chars.trans (List.dropLast_append_getLast some').symm, ?_⟩
  simpa using List.rdropWhile_last_not isWhitespace _ some'

theorem ends_append {s p : String} (ends : Ends p) : Ends (s ++ p) := by
  obtain ⟨u, a, same, letter⟩ := ends
  exact ⟨s.toList ++ u, a, by simp [same], letter⟩

theorem ends_pushPiece {out : List String} {p : String} (all : ∀ q ∈ out, Ends q) (ends : Ends p) :
    ∀ q ∈ pushPiece out p, Ends q := by
  intro q listed
  unfold pushPiece at listed
  have pushed : q ∈ out ++ [p] → Ends q := by
    intro held
    rcases List.mem_append.mp held with before | last
    · exact all q before
    · exact List.mem_singleton.mp last ▸ ends
  split at listed
  · split at listed
    · rcases List.mem_append.mp listed with before | last
      · exact all q (List.dropLast_subset _ before)
      · exact List.mem_singleton.mp last ▸ ends_append ends
    · exact pushed listed
  · exact pushed listed

/-- Every piece of a long sentence ends with a character that is not white space. -/
theorem ends_splitForTts (long : SHORT < text.length) : ∀ p ∈ splitForTts text, Ends p := by
  have each : ∀ pieces out : List String, (∀ p ∈ out, Ends p) → (∀ p ∈ pieces, Ends p) →
      ∀ p ∈ pieces.foldl pushPiece out, Ends p := by
    intro pieces
    induction pieces with
    | nil => exact fun out all _ => all
    | cons first rest ih =>
      intro out all ends
      obtain ⟨own, ends'⟩ := List.forall_mem_cons.mp ends
      exact ih _ (ends_pushPiece all own) ends'
  rw [splitForTts, if_neg (Nat.not_le.mpr long)]
  refine each _ [] (by simp) fun p listed => ?_
  obtain ⟨held, filled⟩ := List.mem_filter.mp listed
  obtain ⟨s, -, rfl⟩ := List.mem_map.mp held
  exact ends_trim (of_decide_eq_true filled)

theorem letters_join (pieces : List String) :
    letters isWhitespace (join " " pieces).toList = letters isWhitespace
    (pieces.flatMap String.toList) := by
  rw [toList_join]
  induction pieces with
  | nil => rfl
  | cons p rest ih =>
    rw [List.map_cons, intercalate_cons, List.flatMap_cons, letters, letters, List.filter_append,
      List.filter_append]
    congr 1
    split
    · next none' => simp [List.map_eq_nil_iff.mp none']
    · exact ih

/-- **Pieces that make the sentence cut no word.** -/
theorem keepsWords_of_whole (long : SHORT < text.length)
    (whole : join " " (splitForTts text) = collapsed text) :
    KeepsWords text (splitForTts text) := by
  rintro ps qs u a b v pieces some' some'' chars own own' same
  -- What stands before the boundary ends with a letter, and a space follows.
  obtain ⟨init, last, rfl⟩ : ∃ init last, ps = init ++ [last] :=
    List.eq_nil_or_concat' ps |>.resolve_left some'
  obtain ⟨x, e, ends, letter⟩ : Ends last := ends_splitForTts long last (by simp [pieces])
  obtain ⟨before, written⟩ : ∃ before, (join " " (init ++ [last])).toList = before ++ [e] := by
    rw [toList_join, List.map_append]
    by_cases none' : init = []
    · exact ⟨x, by simp [none', ends]⟩
    · refine ⟨[' '].intercalate (init.map String.toList) ++ [' '] ++ x, ?_⟩
      rw [intercalate_append _ (by simpa using none') (by simp)]
      simp [ends]
  have cut' : (join " " (splitForTts text)).toList = before ++ e :: ' ' :: (join " " qs).toList := by
    rw [pieces, toList_join, List.map_append,
      intercalate_append _ (by simp) (by simpa using some''), ← toList_join,
      ← toList_join, written]
    simp
  -- In the collapsed text the two characters stand together.
  obtain ⟨y, z, together, letters'⟩ := write_together u v own own' rfl
    (by rw [← chars]; exact single_blank text)
  have kept : before ++ e :: ' ' :: (join " " qs).toList = y ++ a :: b :: z := by
    rw [← cut', whole, toList_collapsed, chars, together]
  have named : letters isWhitespace (before ++ [e]) = letters isWhitespace (y ++ [a]) := by
    rw [← written, letters_join, same, letters']
  obtain rfl := eq_of_letters kept letter own named
  have next := (List.cons.inj (List.append_cancel_left kept)).2
  rw [← (List.cons.inj next).1] at own'
  cases own'

end Boundaries

/-- **The pieces of a sentence are the sentence, exactly where its white space stands so**: joined
by spaces they are the text with its white space collapsed, and no boundary falls inside a word. -/
theorem splitForTts_whole (text : String) :
    (join " " (splitForTts text) = collapsed text ∧ KeepsWords text (splitForTts text)) ↔
    Spaced text := by
  by_cases short : text.length ≤ SHORT
  · rw [← whole_of_short short, and_iff_left]
    rintro ps qs u a b v pieces some' some'' - - - -
    rw [splitForTts, if_pos short] at pieces
    have lengths := congrArg List.length pieces
    rw [List.length_append, List.length_singleton] at lengths
    have first := List.length_pos_iff.mpr some'
    have second := List.length_pos_iff.mpr some''
    omega
  · have long : SHORT < text.length := Nat.not_le.mp short
    rw [← whole_of_long long]
    exact and_iff_left_of_imp (keepsWords_of_whole long)

/-- A mark that no white space follows is followed by a space in the pieces. -/
theorem not_whole {cs : List Char} (long : SHORT < cs.length)
    (cut' : ¬ ∀ run ∈ (runs isWhitespace cs).2.dropLast,
      if isMark run.1 then run.2 ≠ [] else run.2 = [] ∨ run.2 = [' ']) :
    join " " (splitForTts (String.ofList cs)) ≠ collapsed (String.ofList cs) := by
  intro whole
  have longer : SHORT < (String.ofList cs).length := by rwa [String.length_ofList]
  rw [whole_of_long longer, Spaced, String.toList_ofList] at whole
  simp only [if_neg (Nat.not_le.mpr longer)] at whole
  exact cut' whole

/-- A ride in a sentence that tells several, and what they cost. -/
def leg : List Char := "מבני ברק לאלעד, מחר בשש. ".toList

def cost : List Char := "ביחד 1,200 שקלים.".toList

set_option maxRecDepth 4000 in
/-- The comma of a price cuts it. -/
theorem price_cut : ¬ ∀ text,
    join " " (splitForTts text) = collapsed text ∧ KeepsWords text (splitForTts text) := by
  intro all
  have long : SHORT < ((List.replicate 6 leg).flatten ++ cost).length := by
    have legs : leg.length = 25 := by decide
    have costs : cost.length = 17 := by decide
    simp [SHORT, legs, costs]
  exact not_whole long (by decide) (all _).1

end Callora.Audio
