/-
**Time values.**

`TimeSpec` is a time slot's value ("now", "in ten minutes", "at 8:30"); `parseTimeSpan` reads one out of
a normalized utterance, with its confidence and the bytes it was read from.
-/
import Callora.Text.Hebrew

set_option linter.unusedSectionVars false

namespace Callora.Text

/-- A time slot's value. -/
inductive TimeSpec where
  | now
  | inMinutes (minutes : Nat)
  | at (hour minute dayOffset : Nat)
  deriving DecidableEq, Repr

/-- `TimeSpec::spoken`: the form of a read-back. -/
def TimeSpec.spoken : TimeSpec → String
  | .now => "עכשיו"
  | .inMinutes 30 => "בעוד חצי שעה"
  | .inMinutes 15 => "בעוד רבע שעה"
  | .inMinutes 60 => "בעוד שעה"
  | .inMinutes minutes => "בעוד " ++ countPhrase minutes .feminine "דקה" "דקות"
  | .at hour minute dayOffset =>
    let day := match dayOffset with
      | 0 => ""
      | 1 => "מחר "
      | _ => "בעוד כמה ימים "
    day ++ "ב" ++ clockWords hour minute

/-- A time read from tokens: the value, its confidence, and the tokens `[start, end)`. -/
abbrev TimeRead := TimeSpec × F32 × Nat × Nat

section Tokens

/-- Clock digits: "08:30", with a "ב" or "ל" before them. -/
def clockDigits (dayOffset : Nat) : List String → Option String → Nat → Option TimeRead
  | [], _, _ => none
  | t :: toks, before, i =>
    let bare := trimStartMatches "בל".toList.contains t
    let read := do
      let (h, m) ← splitOnce bare ":"
      let h ← parseU32 h
      let m ← parseU32 m
      if h < 24 ∧ m < 60 then
        let start := if 0 < i ∧ before = some "בשעה" then i - 1 else i
        some (.at h m dayOffset, (0.9 : F32), start, i + 1)
      else none
    match read with
    | some r => some r
    | none => clockDigits dayOffset toks (some t) (i + 1)

/-- The spans of time that are said as a phrase: its minutes and its words. -/
def relativePhrases : List (String × Nat × Nat) :=
  [("חצי שעה", 30, 2), ("רבע שעה", 15, 2), ("שעה וחצי", 90, 2), ("שעה", 60, 1), ("דקה", 1, 1)]

/-- "in ...": a time from now. -/
def relativeTime (toks : List String) : Option TimeRead := do
  let pos ← toks.findIdx? fun t => t == "בעוד" || t == "עוד"
  let rest := toks.drop (pos + 1)
  let joined := join " " rest
  match relativePhrases.find? fun (phrase, _, _) => startsWith joined phrase with
  | some (_, minutes, count) => some (.inMinutes minutes, 0.9, pos, pos + 1 + count)
  | none =>
    let n ← (findNumbers rest).head?
    if n.start = 0 then
      let unit := rest.getD n.stop ""
      let minutes := if startsWith unit "שעות" then n.value * 60 else n.value
      let unitWords :=
        if startsWith unit "שעות" || startsWith unit "דקות" || startsWith unit "דקה" then 1 else 0
      if 1 ≤ minutes ∧ minutes ≤ 24 * 60 then
        some (.inMinutes minutes.toNat, 0.85, pos, pos + 1 + n.stop + unitWords)
      else none
    else none

/-- The hour said at token `i`: its word, whether "בשעה" announced it, and what follows. -/
def hourWord (t : String) (toks : List String) : Option (String × Bool × List String) :=
  if t == "בשעה" then
    match toks with
    | next :: rest => some (next, true, rest)
    | [] => none
  else (stripPrefix t "ב").map fun stripped => (stripped, false, toks)

/-- "at eight thirty": an hour in words. -/
def spokenHour (dayOffset : Nat) : List String → Nat → Option TimeRead
  | [], _ => none
  | t :: toks, i =>
    let read : Option TimeRead := do
      let (word, explicit, rest) ← hourWord t toks
      let probe := word :: rest.take 3
      let n ← (findNumbers probe).head?
      let plausibleHour : Bool := (1 ≤ n.value ∧ n.value ≤ 12) ∨ (explicit ∧ 0 ≤ n.value ∧ n.value < 24)
      if n.start ≠ 0 ∨ !plausibleHour then none
      else
        let tail := probe.getD n.stop ""
        let minute := if tail == "וחצי" then 30 else if tail == "ורבע" then 15 else 0
        -- A bare hour is taken only with a minute word or after "בשעה".
        if !explicit ∧ minute = 0 then none
        else
          let used := (if explicit then 1 else 0) + n.stop + (if minute ≠ 0 then 1 else 0)
          some (.at n.value.toNat minute dayOffset, if explicit then 0.85 else 0.75, i, i + used)
    match read with
    | some r => some r
    | none => spokenHour dayOffset toks (i + 1)

/-- `parse_tokens`. -/
def parseTokens (toks : List String) : Option TimeRead :=
  let dayOffset := if toks.any fun t => t == "מחר" || t == "tomorrow" then 1 else 0
  match clockDigits dayOffset toks none 0 with
  | some r => some r
  | none =>
    match relativeTime toks with
    | some r => some r
    | none => spokenHour dayOffset toks 0

end Tokens

/-- The byte at which each token begins. -/
def tokenOffsets : List String → Nat → List Nat
  | [], _ => []
  | t :: toks, at' => at' :: tokenOffsets toks (at' + bytes t.toList + 1)

/-- `parse_time_span`: a time in a normalized text, and the bytes used. -/
def parseTimeSpan (text : String) (now : PhraseSet) : Option (TimeSpec × F32 × Span) :=
  match now.find text with
  | some (_, span) => some (.now, 0.95, span)
  | none =>
    let toks := tokens text
    let offsets := tokenOffsets toks 0
    (parseTokens toks).map fun (time, confidence, a, b) =>
      let b := max (min b toks.length) (a + 1)
      (time, confidence, offsets.getD a 0, offsets.getD (b - 1) 0 + bytes (toks.getD (b - 1) "").toList)

/-- `parse_time`. -/
def parseTime [Unicode] (utterance : String) (now : PhraseSet) : Option (TimeSpec × F32) :=
  (parseTimeSpan (normalize utterance) now).map fun (t, c, _) => (t, c)

end Callora.Text
