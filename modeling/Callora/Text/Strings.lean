/-
**The string functions the core calls.**

The standard library's string operations on which every text the engine compares is built: trimming,
splitting, prefixes and suffixes, substring search, number parsing. They are written over the
characters of the string and agree with the documented behaviour of the library.

- `Unicode` carries the character tables outside ASCII and the Hebrew block, which are concrete here;
- `isWhitespace`, `trim`, `splitWhitespace` follow the `White_Space` property;
- `splitOnce`, `rsplitOnce`, `stripPrefix`, `contains` search for a literal pattern.
-/
import Mathlib.Data.List.Basic
import Mathlib.Data.List.DropRight
import Mathlib.Data.Nat.Notation
import Mathlib.Algebra.Group.Nat.Defs

set_option linter.unusedSectionVars false

namespace Callora.Text

/-- **The character tables of the standard library**, asked only outside ASCII and the Hebrew block. -/
class Unicode where
  /-- `char::is_alphanumeric`. -/
  alphanumeric : Char → Bool
  /-- `char::to_lowercase`. -/
  lowercase : Char → List Char

/-- The tables of a line on which nothing but ASCII and Hebrew is heard. -/
@[reducible] def Unicode.plain : Unicode where
  alphanumeric := fun _ => false
  lowercase := fun c => [c]

section Characters

/-- A code point of the Hebrew block. -/
def inHebrewBlock (c : Char) : Bool :=
  0x0590 ≤ c.toNat && c.toNat ≤ 0x05FF

/-- A Hebrew letter, or one of the points that count as alphabetic. -/
def isHebrewAlphabetic (c : Char) : Bool :=
  let n := c.toNat
  (0x05D0 ≤ n && n ≤ 0x05EA) || (0x05EF ≤ n && n ≤ 0x05F2) || (0x05B0 ≤ n && n ≤ 0x05BD) ||
    n == 0x05BF || n == 0x05C1 || n == 0x05C2 || n == 0x05C4 || n == 0x05C5 || n == 0x05C7

/-- `char::is_alphanumeric`. -/
def isAlphanumeric [Unicode] (c : Char) : Bool :=
  if c.toNat < 0x80 then c.isAlphanum
  else if inHebrewBlock c then isHebrewAlphabetic c
  else Unicode.alphanumeric c

/-- `char::to_lowercase`: Hebrew has no case. -/
def toLowercase [Unicode] (c : Char) : List Char :=
  if c.toNat < 0x80 then [c.toLower]
  else if inHebrewBlock c then [c]
  else Unicode.lowercase c

/-- `char::is_whitespace`: the `White_Space` property. -/
def isWhitespace (c : Char) : Bool :=
  let n := c.toNat
  (0x09 ≤ n && n ≤ 0x0D) || n == 0x20 || n == 0x85 || n == 0xA0 || n == 0x1680 ||
    (0x2000 ≤ n && n ≤ 0x200A) || n == 0x2028 || n == 0x2029 || n == 0x202F || n == 0x205F ||
    n == 0x3000

/-- `char::is_ascii_digit`. -/
def isAsciiDigit (c : Char) : Bool :=
  '0' ≤ c && c ≤ '9'

/-- White space is no letter and no digit. -/
theorem plain_blanks (c : Char) (white : isWhitespace c = true) :
    @isAlphanumeric Unicode.plain c = false := by
  unfold isAlphanumeric
  split
  · next ascii =>
    have value : c.toNat = 0x20 ∨ 0x09 ≤ c.toNat ∧ c.toNat ≤ 0x0D := by
      simp only [isWhitespace, Bool.or_eq_true, Bool.and_eq_true, decide_eq_true_eq, beq_iff_eq] at white
      omega
    have small : ∀ n : Fin 0x80, n.val = 0x20 ∨ 0x09 ≤ n.val ∧ n.val ≤ 0x0D →
      (Char.ofNat n.val).isAlphanum = false := by
      decide
    have sign := small ⟨c.toNat, ascii⟩ value
    rwa [Char.ofNat_toNat] at sign
  · split
    · next hebrew =>
      simp only [isWhitespace, inHebrewBlock, Bool.or_eq_true, Bool.and_eq_true, decide_eq_true_eq,
        beq_iff_eq] at white hebrew
      omega
    · rfl

end Characters

section Trimming

/-- `str::trim_start_matches` for a set of characters. -/
def trimStartMatches (p : Char → Bool) (s : String) : String :=
  String.ofList (s.toList.dropWhile p)

/-- `str::trim_end_matches` for a set of characters. -/
def trimEndMatches (p : Char → Bool) (s : String) : String :=
  String.ofList (s.toList.reverse.dropWhile p).reverse

/-- `str::trim_matches` for a set of characters. -/
def trimMatches (p : Char → Bool) (s : String) : String :=
  trimEndMatches p (trimStartMatches p s)

/-- `str::trim`. -/
def trim (s : String) : String := trimMatches isWhitespace s

/-- `str::trim_end`. -/
def trimEnd (s : String) : String := trimEndMatches isWhitespace s

theorem toList_trimMatches (p : Char → Bool) (s : String) :
    (trimMatches p s).toList = (s.toList.dropWhile p).rdropWhile p := by
  simp [trimMatches, trimEndMatches, trimStartMatches, List.rdropWhile]

theorem toList_trim (s : String) : (trim s).toList =
    (s.toList.dropWhile isWhitespace).rdropWhile isWhitespace :=
  toList_trimMatches isWhitespace s

/-- What was trimmed is not trimmed again. -/
theorem trimMatches_idem (p : Char → Bool) (s : String) :
    trimMatches p (trimMatches p s) = trimMatches p s := by
  have start : ((s.toList.dropWhile p).rdropWhile p).dropWhile p =
    (s.toList.dropWhile p).rdropWhile p := by
    refine List.dropWhile_eq_self_iff.mpr fun some => ?_
    have within := List.rdropWhile_prefix p (s.toList.dropWhile p)
    rw [within.getElem some]
    exact List.dropWhile_eq_self_iff.mp (List.dropWhile_idempotent _ _) (some.trans_le within.length_le)
  refine String.toList_inj.mp ?_
  rw [toList_trimMatches, toList_trimMatches, start]
  exact List.rdropWhile_idempotent _ _

end Trimming

section Searching

/-- `str::starts_with`. -/
def startsWith (s pattern : String) : Bool :=
  pattern.toList.isPrefixOf s.toList

/-- `str::ends_with`. -/
def endsWith (s pattern : String) : Bool :=
  pattern.toList.isSuffixOf s.toList

/-- A text that ends with the character, whatever spaces follow it. -/
def endsWithChar (s : String) (c : Char) : Bool :=
  (trimEnd s).toList.getLast? == some c

/-- The rest of `s` after `p`, when `s` starts with it. -/
def dropPrefix : List Char → List Char → Option (List Char)
  | s, [] => some s
  | [], _ :: _ => none
  | c :: s, d :: p => if c = d then dropPrefix s p else none

/-- `str::strip_prefix`. -/
def stripPrefix (s pattern : String) : Option String :=
  (dropPrefix s.toList pattern.toList).map String.ofList

/-- `str::strip_suffix`. -/
def stripSuffix (s pattern : String) : Option String :=
  (dropPrefix s.toList.reverse pattern.toList.reverse).map fun r => String.ofList r.reverse

/-- What stands before and after the first occurrence of `p`. -/
def splitFirst (p : List Char) : List Char → Option (List Char × List Char)
  | [] => if p.isEmpty then some ([], []) else none
  | c :: s =>
    match dropPrefix (c :: s) p with
    | some rest => some ([], rest)
    | none => (splitFirst p s).map fun (before, after) => (c :: before, after)

/-- `str::split_once`. -/
def splitOnce (s pattern : String) : Option (String × String) :=
  (splitFirst pattern.toList s.toList).map fun (a, b) => (String.ofList a, String.ofList b)

/-- `str::rsplit_once`. -/
def rsplitOnce (s pattern : String) : Option (String × String) :=
  (splitFirst pattern.toList.reverse s.toList.reverse).map fun (after, before) =>
    (String.ofList before.reverse, String.ofList after.reverse)

/-- `str::contains` for a string. -/
def contains (s pattern : String) : Bool :=
  (splitFirst pattern.toList s.toList).isSome

/-- `str::contains` for a character. -/
def containsChar (s : String) (c : Char) : Bool :=
  s.toList.contains c

end Searching

section Splitting

/-- The pieces between the separators, the piece under way carried reversed. -/
def splitChars (sep : Char → Bool) : List Char → List Char → List (List Char)
  | [], piece => [piece.reverse]
  | c :: s, piece =>
    if sep c then piece.reverse :: splitChars sep s [] else splitChars sep s (c :: piece)

/-- `str::split` for a set of characters: empty pieces are kept. -/
def split (sep : Char → Bool) (s : String) : List String :=
  (splitChars sep s.toList []).map String.ofList

/-- `str::split_whitespace`. -/
def splitWhitespace (s : String) : List String :=
  ((splitChars isWhitespace s.toList []).filter fun w => !w.isEmpty).map String.ofList

/-- The words of a normalized text: what stands between single spaces. -/
def words (s : String) : List String :=
  ((splitChars (· == ' ') s.toList []).filter fun w => !w.isEmpty).map String.ofList

/-- `str::lines`: a carriage return before a newline goes with it. -/
def lines (s : String) : List String :=
  let pieces := split (· == '\n') s
  (pieces.dropLast.map fun line => (stripSuffix line "\r").getD line) ++
    (pieces.getLast?.filter (· ≠ "")).toList

/-- `slice::join`. -/
def join (sep : String) (pieces : List String) : String :=
  String.ofList ((pieces.map String.toList).intersperse sep.toList).flatten

/-- The pieces between the occurrences of a pattern; `fuel` bounds their number. -/
def splitPattern (p : List Char) : Nat → List Char → List (List Char)
  | 0, s => [s]
  | fuel + 1, s =>
    match splitFirst p s with
    | some (before, after) => before :: splitPattern p fuel after
    | none => [s]

/-- `str::split` for a nonempty string. -/
def splitString (s pattern : String) : List String :=
  (splitPattern pattern.toList s.length s.toList).map String.ofList

/-- `str::replace` for a nonempty string. -/
def replace (s pattern by' : String) : String :=
  join by' (splitString s pattern)

end Splitting

section Numbers

/-- The value of a nonempty run of decimal digits. -/
def digitsValue : List Char → Option Nat
  | [] => none
  | cs => if cs.all isAsciiDigit then some (cs.foldl (fun n c => 10 * n + (c.toNat - 48)) 0) else none

/-- `str::parse::<u32>`. -/
def parseU32 (s : String) : Option Nat :=
  let digits := match s.toList with
    | '+' :: rest => rest
    | cs => cs
  (digitsValue digits).filter (· < 2 ^ 32)

/-- `str::parse::<i64>`. -/
def parseI64 (s : String) : Option Int :=
  match s.toList with
  | '-' :: rest => ((digitsValue rest).filter (· ≤ 2 ^ 63)).map fun n => -(n : Int)
  | '+' :: rest => ((digitsValue rest).filter (· < 2 ^ 63)).map fun n => (n : Int)
  | cs => ((digitsValue cs).filter (· < 2 ^ 63)).map fun n => (n : Int)

end Numbers

end Callora.Text
