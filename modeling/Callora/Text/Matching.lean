/-
**Text normalization and phrase matching.**

Everything the engine compares goes through `normalize`, on both sides, so that the configured phrases
and the transcripts meet in one form. A `Phrase` is found as whole words (with up to two Hebrew prefix
letters before it, where its set allows them); a `PhraseSet` holds its phrases longest first; `Coverage`
records which bytes of an utterance something has explained.

Spans are byte offsets into the normalized text, as in the source.
-/
import Callora.Library.F32
import Callora.Text.Strings
import Mathlib.Data.List.Sort

set_option linter.unusedSectionVars false

namespace Callora.Text

section Normalize

/-- Single-letter Hebrew prefixes (and, the, in, to, from, that, as). -/
def hebrewPrefixes : List Char := "והבלמשכ".toList

/-- What a character becomes before the spaces are collapsed; `none` drops it. -/
def normalizeChar [Unicode] (ch : Char) : Option Char :=
  let n := ch.toNat
  -- Niqqud and cantillation marks.
  if 0x0591 ≤ n && n ≤ 0x05C7 && n != 0x05BE then none
  -- Gershayim and double quotes mark acronyms.
  else if n == 0x22 || n == 0x05F4 || n == 0x201C || n == 0x201D then none
  -- Geresh changes pronunciation: kept, in one spelling.
  else if n == 0x27 || n == 0x05F3 || n == 0x2019 || n == 0x60 then some (Char.ofNat 0x27)
  -- Maqaf and dashes join words.
  else if n == 0x05BE || n == 0x2D || n == 0x2013 || n == 0x2014 then some ' '
  else if isAlphanumeric ch then some ch
  else if n == 0x3A then some ':'
  else some ' '

/-- The loop of `normalize`; `lastSpace` tells that nothing or a space was written last. -/
def normalizeLoop [Unicode] : List Char → Bool → List Char
  | [], _ => []
  | ch :: rest, lastSpace =>
    match normalizeChar ch with
    | none => normalizeLoop rest lastSpace
    | some c =>
      if c = ' ' then
        if lastSpace then normalizeLoop rest true else ' ' :: normalizeLoop rest true
      else toLowercase c ++ normalizeLoop rest false

/-- Lowercase, strip niqqud and punctuation, unify geresh and quotes, collapse whitespace. -/
def normalize [Unicode] (input : String) : String :=
  let out := normalizeLoop input.toList true
  String.ofList (if out.getLast? = some ' ' then out.dropLast else out)

/-- The tokens of a normalized text. -/
def tokens (normalized : String) : List String := words normalized

end Normalize

/-- The length in bytes of the encoded characters. -/
def bytes (cs : List Char) : Nat := (cs.map Char.utf8Size).sum

/-- A span of bytes `[start, end)`. -/
abbrev Span := Nat × Nat

/-- A configured phrase, normalized, and whether prefix letters may stand before it. -/
structure Phrase where
  text : String
  allowPrefixes : Bool
  deriving DecidableEq, Repr

namespace Phrase

/-- `Phrase::new`. -/
def new [Unicode] (phrase : String) (allowPrefixes : Bool) : Phrase :=
  { text := normalize phrase, allowPrefixes := allowPrefixes }

/-- The prefix letters, the phrase, and the space or the end of the text after it. The longest
prefix is tried first. -/
def body (p : Phrase) (cs : List Char) : Option (List Char) :=
  (if p.allowPrefixes then [2, 1, 0] else [0]).findSome? fun k =>
    let pre := cs.take k
    if pre.length = k && pre.all hebrewPrefixes.contains then
      match dropPrefix (cs.drop k) p.text.toList with
      | some [] => some (pre ++ p.text.toList)
      | some (' ' :: _) => some (pre ++ p.text.toList ++ [' '])
      | _ => none
    else none

/-- A match that begins here: at the start of the text, or with the space before it. -/
def matchHere (p : Phrase) (atStart : Bool) (cs : List Char) : Option (List Char) :=
  match if atStart then p.body cs else none with
  | some m => some m
  | none =>
    match cs with
    | ' ' :: rest => (p.body rest).map (' ' :: ·)
    | _ => none

/-- The leftmost match, with the byte it begins at. -/
def search (p : Phrase) : List Char → Bool → Nat → Option (Nat × List Char)
  | [], atStart, at' => (p.matchHere atStart []).map fun m => (at', m)
  | c :: cs, atStart, at' =>
    match p.matchHere atStart (c :: cs) with
    | some m => some (at', m)
    | none => p.search cs false (at' + c.utf8Size)

/-- `Phrase::find` on characters: the span of the match without the spaces around it. -/
def findIn (p : Phrase) (cs : List Char) : Option Span :=
  (p.search cs true 0).map fun (start, m) =>
    (start + (if m.head? = some ' ' then 1 else 0),
      start + bytes m - (if m.getLast? = some ' ' && 1 < bytes m then 1 else 0))

/-- `Phrase::find`: the byte span of the phrase in a normalized text. -/
def find (p : Phrase) (normalized : String) : Option Span := p.findIn normalized.toList

end Phrase

/-- `PhraseSet`: the phrases of one lexicon, longest first. -/
structure PhraseSet where
  phrases : List Phrase
  deriving DecidableEq, Repr

namespace PhraseSet

/-- `PhraseSet::new`: items that normalize to nothing are left out. -/
def new [Unicode] (items : List String) (allowPrefixes : Bool) : PhraseSet :=
  let phrases := (items.filter fun p => normalize p != "").map (Phrase.new · allowPrefixes)
  ⟨phrases.insertionSort fun p q => q.text.length ≤ p.text.length⟩

/-- `PhraseSet::is_empty`. -/
def isEmpty (s : PhraseSet) : Bool := s.phrases.isEmpty

/-- The longest phrase found, with its span. -/
def find (s : PhraseSet) (normalized : String) : Option (Phrase × Span) :=
  s.phrases.findSome? fun p => (p.find normalized).map fun span => (p, span)

/-- Whether some phrase is found. -/
def found (s : PhraseSet) (normalized : String) : Bool := (s.find normalized).isSome

/-- Remove every consecutive occurrence of `pt`, scanning once from the left. -/
def drain (pt : List String) : Nat → List String → List String
  | 0, toks => toks
  | _, [] => []
  | fuel + 1, t :: toks =>
    if pt.isPrefixOf (t :: toks) then drain pt fuel ((t :: toks).drop pt.length)
    else t :: drain pt fuel toks

/-- `PhraseSet::strip`: remove every phrase of the set, exact tokens only. -/
def strip (s : PhraseSet) (normalized : String) : String :=
  let toks := s.phrases.foldl (fun toks p =>
    let pt := tokens p.text
    if pt.isEmpty then toks else drain pt toks.length toks) (tokens normalized)
  join " " toks

/-- `PhraseSet::matches_whole`: the utterance is, after the fillers, nothing but one phrase. -/
def matchesWhole (s : PhraseSet) (normalized : String) (fillers : PhraseSet) : Bool :=
  let stripped := fillers.strip normalized
  s.phrases.any fun p => p.text == stripped

/-- `PhraseSet::first_position`. -/
def firstPosition (s : PhraseSet) (normalized : String) : Option Nat :=
  (s.phrases.filterMap fun p => (p.find normalized).map Prod.fst).min?

/-- `PhraseSet::count`: how many phrases match. -/
def count (s : PhraseSet) (normalized : String) : Nat :=
  (s.phrases.filter fun p => (p.find normalized).isSome).length

end PhraseSet

/-- `Coverage`: which bytes of a normalized text have been explained. -/
structure Coverage where
  covered : List Bool
  text : String
  deriving DecidableEq, Repr

namespace Coverage

/-- The characters from a byte offset on. -/
def dropBytes : Nat → List Char → List Char
  | 0, cs => cs
  | _, [] => []
  | n + 1, c :: cs => dropBytes (n + 1 - c.utf8Size) cs

/-- The byte offsets at which a character begins, and the end of the text. -/
def boundaries : Nat → List Char → List Nat
  | at', [] => [at']
  | at', c :: cs => at' :: boundaries (at' + c.utf8Size) cs

/-- `Coverage::new`. -/
def new (normalized : String) : Coverage :=
  { covered := List.replicate (bytes normalized.toList) false, text := normalized }

/-- `Coverage::mark`. -/
def mark (cov : Coverage) (span : Span) : Coverage :=
  { cov with covered := cov.covered.mapIdx fun i c => c || (span.1 ≤ i && i < span.2) }

/-- The first character boundary from `at` on. -/
def boundaryFrom (cov : Coverage) (at' : Nat) : Nat :=
  ((boundaries 0 cov.text.toList).find? fun i => at' ≤ i).getD at'

/-- The loop of `Coverage::mark_words` for one phrase. -/
def markPhrase (p : Phrase) : Nat → Nat → Coverage → Coverage
  | 0, _, cov => cov
  | fuel + 1, start, cov =>
    if start < bytes cov.text.toList then
      match p.findIn (dropBytes start cov.text.toList) with
      | none => cov
      | some (s, e) =>
        markPhrase p fuel (cov.boundaryFrom (start + max e 1)) (cov.mark (start + s, start + e))
    else cov

/-- `Coverage::mark_words`: mark every phrase of a set. -/
def markWords (cov : Coverage) (set : PhraseSet) : Coverage :=
  set.phrases.foldl (fun cov p => markPhrase p (bytes cov.text.toList) 0 cov) cov

/-- `Coverage::is_covered`. -/
def isCovered (cov : Coverage) (byte : Nat) : Bool := cov.covered.getD byte false

/-- The characters with what has been explained replaced by underscores, byte for byte. -/
def maskedChars (cov : Coverage) : Nat → List Char → List Char
  | _, [] => []
  | i, c :: cs =>
    (if c != ' ' && cov.isCovered i then List.replicate c.utf8Size '_' else [c]) ++
      cov.maskedChars (i + c.utf8Size) cs

/-- `Coverage::masked`. -/
def masked (cov : Coverage) : String := String.ofList (cov.maskedChars 0 cov.text.toList)

/-- Whether each byte belongs to a space. -/
def spaceBytes (cs : List Char) : List Bool :=
  (cs.map fun c => List.replicate c.utf8Size (c == ' ')).flatten

/-- `Coverage::ratio`: the fraction of non-space bytes that is explained. -/
def ratio (cov : Coverage) : F32 :=
  let inked := (cov.covered.zip (spaceBytes cov.text.toList)).filter fun (_, space) => !space
  if inked.isEmpty then 1 else ((inked.filter Prod.fst).length : F32) / inked.length

end Coverage

end Callora.Text
