/-
**The arithmetic of a time.**

`parseTimeSpan` once more, with the machine's arithmetic: an `i64` sum or product, a `usize` sum, or
an index that the code would refuse gives `none`. The numbers of a text are unbounded, so that the
product of hours and minutes is the one step that can fail (`parseTimeSpanChecked_none_iff`); what
is read otherwise is what `parseTimeSpan` reads, a valid time in words of the text
(`soundTime_iff`).
-/
import Callora.Text.Time
import Callora.Text.SaidNumbers

set_option linter.unusedSectionVars false

namespace Callora.Text

section Machine

/-- A value of an `i64`. -/
def FitsI64 (n : Int) : Prop := -2 ^ 63 ≤ n ∧ n < 2 ^ 63

instance (n : Int) : Decidable (FitsI64 n) := by
  unfold FitsI64
  infer_instance

/-- The result of an `i64` operation, `none` when it overflows. -/
def i64 (n : Int) : Option Int := if FitsI64 n then some n else none

/-- The result of a `usize` operation. -/
def usize (n : Nat) : Option Nat := if n < 2 ^ 64 then some n else none

theorem i64_fits {n : Int} (fits : FitsI64 n) : i64 n = some n := if_pos fits

theorem usize_fits {n : Nat} (fits : n < 2 ^ 64) : usize n = some n := if_pos fits

end Machine

section Code

/-- The fold of `find_numbers` over one number, in `i64`. -/
def compoundChecked : List String → Bool → Int → Int → Nat → Option (Nat × Int)
  | [], _, total, current, used => (i64 (total + current)).map fun value => (used, value)
  | tok :: toks, started, total, current, used =>
    match (heardAs started tok).bind fun p => p.join total current with
    | some (total, current) => do
      let total ← i64 total
      let current ← i64 current
      compoundChecked toks true total current (used + 1)
    | none => (i64 (total + current)).map fun value => (used, value)

/-- The scan of `find_numbers`, in `i64`. -/
def scanChecked : List String → Nat → Nat → Option (List FoundNumber)
  | [], _, _ => some []
  | _ :: toks, i, skip + 1 => scanChecked toks (i + 1) skip
  | tok :: toks, i, 0 =>
    match piece tok with
    | none => scanChecked toks (i + 1) 0
    | some (.digits v) => (scanChecked toks (i + 1) 0).map (⟨v, i, i + 1⟩ :: ·)
    | some .hundreds => scanChecked toks (i + 1) 0
    | some _ => do
      let (used, value) ← compoundChecked (tok :: toks) false 0 0 0
      if used = 0 then scanChecked toks (i + 1) 0
      else (scanChecked toks (i + 1) (used - 1)).map (⟨value, i, i + used⟩ :: ·)

/-- `find_numbers`, in `i64`. -/
def findNumbersChecked (toks : List String) : Option (List FoundNumber) := scanChecked toks 0 0

/-- The hour and minute a token writes in digits. -/
def clockTime (t : String) : Option (Nat × Nat) := do
  let (h, m) ← splitOnce (trimStartMatches "בל".toList.contains t) ":"
  let h ← parseU32 h
  let m ← parseU32 m
  if h < 24 ∧ m < 60 then some (h, m) else none

/-- Clock digits at the token `i` and after; the token before is looked up. -/
def clockDigitsChecked (dayOffset : Nat) (toks : List String) : List String → Nat →
    Option (Option TimeRead)
  | [], _ => some none
  | t :: later, i =>
    match clockTime t with
    | some (h, m) => do
      let before ← if 0 < i then toks[i - 1]?.map some else some none
      let start := if before = some "בשעה" then i - 1 else i
      let stop ← usize (i + 1)
      some (some (.at h m dayOffset, (0.9 : F32), start, stop))
    | none => clockDigitsChecked dayOffset toks later (i + 1)

/-- The words that say the unit of a number. -/
def unitWords (unit : String) : Nat :=
  if startsWith unit "שעות" || startsWith unit "דקות" || startsWith unit "דקה" then 1 else 0

/-- A number of minutes or hours after the token `pos`: the product of hours and minutes is an `i64`. -/
def relativeNumberChecked (pos : Nat) (rest : List String) : Option (Option TimeRead) := do
  let found ← findNumbersChecked rest
  match found.head? with
  | none => some none
  | some n =>
    if n.start = 0 then do
      let unit := rest.getD n.stop ""
      let minutes ← if startsWith unit "שעות" then i64 (n.value * 60) else some n.value
      if 1 ≤ minutes ∧ minutes ≤ 24 * 60 then do
        let stop ← usize (pos + 1 + n.stop + unitWords unit)
        some (some (.inMinutes minutes.toNat, 0.85, pos, stop))
      else some none
    else some none

/-- "in ...": a time from now. -/
def relativeTimeChecked (toks : List String) : Option (Option TimeRead) :=
  match toks.findIdx? fun t => t == "בעוד" || t == "עוד" with
  | none => some none
  | some pos => do
    let rest ← if pos + 1 ≤ toks.length then some (toks.drop (pos + 1)) else none
    match relativePhrases.find? fun (phrase, _, _) => startsWith (join " " rest) phrase with
    | some (_, minutes, count) => do
      let stop ← usize (pos + 1 + count)
      some (some (.inMinutes minutes, 0.9, pos, stop))
    | none => relativeNumberChecked pos rest

/-- "at eight thirty", in `i64`. -/
def spokenHourChecked (dayOffset : Nat) : List String → Nat → Option (Option TimeRead)
  | [], _ => some none
  | t :: toks, i =>
    match hourWord t toks with
    | none => spokenHourChecked dayOffset toks (i + 1)
    | some (word, explicit, rest) => do
      let probe := word :: rest.take 3
      let found ← findNumbersChecked probe
      match found.head? with
      | none => spokenHourChecked dayOffset toks (i + 1)
      | some n =>
        let plausibleHour : Bool := (1 ≤ n.value ∧ n.value ≤ 12) ∨ (explicit ∧ 0 ≤ n.value ∧ n.value < 24)
        let tail := probe.getD n.stop ""
        let minute := if tail == "וחצי" then 30 else if tail == "ורבע" then 15 else 0
        if n.start ≠ 0 ∨ !plausibleHour then spokenHourChecked dayOffset toks (i + 1)
        else if !explicit ∧ minute = 0 then spokenHourChecked dayOffset toks (i + 1)
        else do
          let used := (if explicit then 1 else 0) + n.stop + (if minute ≠ 0 then 1 else 0)
          let stop ← usize (i + used)
          some (some (.at n.value.toNat minute dayOffset, if explicit then 0.85 else 0.75, i, stop))

/-- `parse_tokens`. -/
def parseTokensChecked (toks : List String) : Option (Option TimeRead) := do
  let dayOffset := if toks.any fun t => t == "מחר" || t == "tomorrow" then 1 else 0
  match ← clockDigitsChecked dayOffset toks toks 0 with
  | some r => some (some r)
  | none =>
    match ← relativeTimeChecked toks with
    | some r => some (some r)
    | none => spokenHourChecked dayOffset toks 0

/-- The byte at which each token begins, in `usize`. -/
def tokenOffsetsChecked : List String → Nat → Option (List Nat)
  | [], _ => some []
  | t :: toks, at' => do
    let next ← usize (at' + (bytes t.toList + 1))
    (tokenOffsetsChecked toks next).map (at' :: ·)

/-- `parse_time_span`, with every overflow and every index out of range as `none`. -/
def parseTimeSpanChecked (text : String) (now : PhraseSet) : Option (Option (TimeSpec × F32 × Span)) :=
  match now.find text with
  | some (_, span) => some (some (.now, 0.95, span))
  | none => do
    let toks := tokens text
    let offsets ← tokenOffsetsChecked toks 0
    match ← parseTokensChecked toks with
    | none => some none
    | some (time, confidence, a, b) => do
      let b := max (min b toks.length) (a + 1)
      let start ← offsets[a]?
      let last ← offsets[b - 1]?
      let word ← toks[b - 1]?
      let stop ← usize (last + bytes word.toList)
      some (some (time, confidence, start, stop))

end Code

section Growing

/-- The values of the words: a piece adds little, and takes nothing away. -/
def Piece.Small : Piece → Prop
  | .unit u => 0 ≤ u ∧ u ≤ 9
  | .tens t => 0 ≤ t ∧ t ≤ 90
  | .hundred h => 0 ≤ h ∧ h ≤ 200
  | .digits v => FitsI64 v
  | _ => True

theorem unitValue_small {word : String} {u : Int} (read : unitValue word = some u) : 0 ≤ u ∧ u ≤ 9 := by
  unfold unitValue at read
  split_ifs at read
  all_goals
    obtain rfl := Option.some.inj read
    decide

theorem tensValue_small {word : String} {t : Int} (read : tensValue word = some t) : 0 ≤ t ∧ t ≤ 90 := by
  obtain ⟨v, lifted, rfl⟩ := Option.map_eq_some_iff.mp read
  obtain ⟨i, found, same⟩ := Option.bind_eq_some_iff.mp lifted
  obtain rfl : (i : Int) = v := Option.some.inj same
  have within : i < tens.length := (List.findIdx?_eq_some_iff_getElem.mp found).1
  have ten : tens.length = 10 := rfl
  omega

theorem parseI64_fits {word : String} {v : Int} (read : parseI64 word = some v) : FitsI64 v := by
  unfold parseI64 at read
  unfold FitsI64
  split at read
  all_goals
    obtain ⟨v, lifted, rfl⟩ := Option.map_eq_some_iff.mp read
    obtain ⟨n, held, same⟩ := Option.bind_eq_some_iff.mp lifted
    obtain rfl : (n : Int) = v := Option.some.inj same
    have bound := of_decide_eq_true (Option.filter_eq_some_iff.mp held).2
    omega

theorem piece_small {word : String} {p : Piece} (read : piece word = some p) : p.Small := by
  unfold piece at read
  cases digits : parseI64 word with
  | some v =>
    rw [digits] at read
    obtain rfl := Option.some.inj read
    exact parseI64_fits digits
  | none =>
    rw [digits] at read
    cases unit : unitValue word with
    | some u =>
      rw [unit] at read
      obtain rfl := Option.some.inj read
      exact unitValue_small unit
    | none =>
      rw [unit] at read
      cases decade : tensValue word with
      | some t =>
        rw [decade] at read
        dsimp only at read
        split_ifs at read
        · obtain rfl := Option.some.inj read
          trivial
        · obtain rfl := Option.some.inj read
          exact tensValue_small decade
      | none =>
        rw [decade] at read
        dsimp only at read
        split_ifs at read
        all_goals
          obtain rfl := Option.some.inj read
          simp [Piece.Small]

theorem heardAs_small {started : Bool} {tok : String} {p : Piece} (heard : heardAs started tok = some p) :
    p.Small := by
  unfold heardAs at heard
  cases read : piece tok with
  | some q =>
    rw [read] at heard
    obtain rfl := Option.some.inj heard
    exact piece_small read
  | none =>
    rw [read] at heard
    cases started with
    | false => cases heard
    | true =>
      obtain ⟨rest, -, inner⟩ := Option.bind_eq_some_iff.mp heard
      exact piece_small inner

variable {total current t c : Int}

/-- What a number read so far has grown to. -/
structure Grows (total current t c : Int) : Prop where
  aside : 0 ≤ t
  going : 0 ≤ c
  more : total + current ≤ t + c
  little : t + c ≤ total + current + 900

/-- **A piece that joins makes the number larger, by less than a thousand.** -/
theorem join_grows {p : Piece} (small : p.Small) (total_pos : 0 ≤ total) (current_pos : 0 ≤ current)
    (joins : p.join total current = some (t, c)) : Grows total current t c := by
  cases p with
  | digits v => cases joins
  | unit u =>
    obtain ⟨low, high⟩ := small
    rw [Piece.join] at joins
    split_ifs at joins
    obtain ⟨rfl, rfl⟩ := Prod.mk.inj (Option.some.inj joins)
    constructor <;> omega
  | ten =>
    rw [Piece.join] at joins
    split_ifs at joins
    all_goals
      obtain ⟨rfl, rfl⟩ := Prod.mk.inj (Option.some.inj joins)
      constructor <;> omega
  | tens decade =>
    obtain ⟨low, high⟩ := small
    rw [Piece.join] at joins
    split_ifs at joins
    obtain ⟨rfl, rfl⟩ := Prod.mk.inj (Option.some.inj joins)
    constructor <;> omega
  | hundred h =>
    obtain ⟨low, high⟩ := small
    rw [Piece.join] at joins
    split_ifs at joins
    obtain ⟨rfl, rfl⟩ := Prod.mk.inj (Option.some.inj joins)
    constructor <;> omega
  | hundreds =>
    rw [Piece.join] at joins
    split_ifs at joins
    obtain ⟨rfl, rfl⟩ := Prod.mk.inj (Option.some.inj joins)
    constructor <;> omega

/-- What the fold makes of the tokens: how far it goes, and what it comes to. -/
theorem compound_grows (toks : List String) (started : Bool) (used : Nat) (total_pos : 0 ≤ total)
    (current_pos : 0 ≤ current) :
    used ≤ (compound toks started total current used).1 ∧
      (compound toks started total current used).1 ≤ used + toks.length ∧
      total + current ≤ (compound toks started total current used).2 ∧
      (compound toks started total current used).2 ≤ total + current + 900 * toks.length := by
  induction toks generalizing started total current used with
  | nil => simp [compound]
  | cons tok toks ih =>
    rw [compound_cons]
    cases joins : (heardAs started tok).bind fun p => p.join total current with
    | none =>
      dsimp only
      simp only [List.length_cons]
      omega
    | some next =>
      obtain ⟨t, c⟩ := next
      obtain ⟨p, heard, joined⟩ := Option.bind_eq_some_iff.mp joins
      have grows := join_grows (heardAs_small heard) total_pos current_pos joined
      obtain ⟨more, few, large, bound⟩ := ih true (used + 1) grows.aside grows.going
      have step := grows.little
      have grown := grows.more
      dsimp only
      simp only [List.length_cons]
      push_cast
      omega

/-- **A number in words overflows exactly when it is too large**: it only grows, so that a sum that
does not fit on the way does not fit at the end. -/
theorem compoundChecked_eq (toks : List String) (started : Bool) (used : Nat) (total_pos : 0 ≤ total)
    (current_pos : 0 ≤ current) :
    compoundChecked toks started total current used =
      if FitsI64 (compound toks started total current used).2 then
        some (compound toks started total current used) else none := by
  induction toks generalizing started total current used with
  | nil =>
    rw [compoundChecked, compound, i64]
    split <;> rfl
  | cons tok toks ih =>
    rw [compoundChecked, compound_cons]
    cases joins : (heardAs started tok).bind fun p => p.join total current with
    | none =>
      show (i64 (total + current)).map _ = _
      rw [i64]
      split <;> rfl
    | some next =>
      obtain ⟨t, c⟩ := next
      obtain ⟨p, heard, joined⟩ := Option.bind_eq_some_iff.mp joins
      have grows := join_grows (heardAs_small heard) total_pos current_pos joined
      have later := (compound_grows toks true (used + 1) grows.aside grows.going).2.2.1
      have total' := grows.aside
      have current' := grows.going
      show ((i64 t).bind fun t => (i64 c).bind fun c => compoundChecked toks true t c (used + 1)) = _
      by_cases fits : FitsI64 (compound toks true t c (used + 1)).2
      · have both : FitsI64 t ∧ FitsI64 c := by
          unfold FitsI64 at fits ⊢
          omega
        rw [i64_fits both.1, i64_fits both.2]
        exact ih true (used + 1) grows.aside grows.going
      · rw [if_neg fits]
        unfold i64
        split
        · split
          · show compoundChecked toks true t c (used + 1) = none
            rw [ih true (used + 1) grows.aside grows.going, if_neg fits]
          · rfl
        · rfl

end Growing

section Numbers

variable {toks : List String} {n : FoundNumber}

/-- Every number found fits. -/
def AllFit (found : List FoundNumber) : Prop := ∀ n ∈ found, FitsI64 n.value

instance (found : List FoundNumber) : Decidable (AllFit found) := by
  unfold AllFit
  infer_instance

theorem map_cons_fits {found : List FoundNumber} (fits : FitsI64 n.value) :
    (if AllFit found then some found else none).map (n :: ·) =
      if AllFit (n :: found) then some (n :: found) else none := by
  have same : AllFit (n :: found) ↔ AllFit found := by
    unfold AllFit
    rw [List.forall_mem_cons]
    exact and_iff_right fits
  by_cases all : AllFit found
  · rw [if_pos all, if_pos (same.mpr all)]
    rfl
  · rw [if_neg all, if_neg fun one => all (same.mp one)]
    rfl

theorem heardAs_of_piece {started : Bool} {tok : String} {p : Piece} (read : piece tok = some p) :
    heardAs started tok = some p := by
  rw [heardAs, read]

/-- A number word begins a number of at least that word. -/
theorem compound_pos {tok : String} {p : Piece} (read : piece tok = some p) (starts : p.Starts) :
    0 < (compound (tok :: toks) false 0 0 0).1 := by
  have joins : ∃ t c, p.join 0 0 = some (t, c) ∧ 0 ≤ t ∧ 0 ≤ c := by
    have small := piece_small read
    cases p with
    | hundreds => exact absurd rfl starts.1
    | digits v => exact absurd rfl (starts.2 v)
    | unit u => exact ⟨0, 0 + u, rfl, le_refl 0, by have := small.1; omega⟩
    | ten => exact ⟨0, 10, rfl, le_refl 0, by decide⟩
    | tens t => exact ⟨0, 0 + t, rfl, le_refl 0, by have := small.1; omega⟩
    | hundred h => exact ⟨0, h, rfl, le_refl 0, small.1⟩
  obtain ⟨t, c, joined, aside, going⟩ := joins
  rw [compound_cons, heardAs_of_piece read, Option.bind_some, joined]
  exact (compound_grows toks true 1 aside going).1

/-- A number in words is found where it begins, with the words its fold takes. -/
theorem scanNumbers_words {tok : String} {p : Piece} (read : piece tok = some p)
    (starts : p.Starts) (i : Nat) :
    scanNumbers (tok :: toks) i 0 =
      ⟨(compound (tok :: toks) false 0 0 0).2, i, i + (compound (tok :: toks) false 0 0 0).1⟩ ::
        scanNumbers toks (i + 1) ((compound (tok :: toks) false 0 0 0).1 - 1) := by
  have some' : 0 < (compound (tok :: toks) false 0 0 0).1 := compound_pos read starts
  have whole : compound (tok :: toks) false 0 0 0 = ((compound (tok :: toks) false 0 0 0).1 - 1 + 1,
      (compound (tok :: toks) false 0 0 0).2) := by
    rw [Nat.sub_add_cancel some']
  rw [scanNumbers_cons (heardAs_of_piece read) starts whole]
  congr 2
  omega

/-- Its fold in `i64`, and the scan of what comes after it. -/
theorem scanChecked_words {tok : String} {p : Piece} (read : piece tok = some p)
    (starts : p.Starts) (i : Nat)
    (later : ∀ skip, scanChecked toks (i + 1) skip =
      if AllFit (scanNumbers toks (i + 1) skip) then some (scanNumbers toks (i + 1) skip) else none) :
    scanChecked (tok :: toks) i 0 =
      if AllFit (scanNumbers (tok :: toks) i 0) then some (scanNumbers (tok :: toks) i 0) else none := by
  have some' : 0 < (compound (tok :: toks) false 0 0 0).1 := compound_pos read starts
  have code : scanChecked (tok :: toks) i 0 =
      (compoundChecked (tok :: toks) false 0 0 0).bind fun (used, value) =>
        if used = 0 then scanChecked toks (i + 1) 0
        else (scanChecked toks (i + 1) (used - 1)).map (⟨value, i, i + used⟩ :: ·) := by
    rw [scanChecked, read]
    cases p with
    | hundreds => exact absurd rfl starts.1
    | digits v => exact absurd rfl (starts.2 v)
    | _ => rfl
  rw [code, scanNumbers_words read starts, compoundChecked_eq _ _ _ (le_refl 0) (le_refl 0)]
  by_cases fits : FitsI64 (compound (tok :: toks) false 0 0 0).2
  · rw [if_pos fits]
    show (if (compound (tok :: toks) false 0 0 0).1 = 0 then _ else _) = _
    rw [if_neg (by omega), later]
    exact map_cons_fits fits
  · rw [if_neg fits, if_neg fun all => fits (all _ List.mem_cons_self)]
    rfl

/-- **The scan of a text fails exactly when a number in it does not fit.** -/
theorem scanChecked_eq (toks : List String) (i skip : Nat) :
    scanChecked toks i skip =
      if AllFit (scanNumbers toks i skip) then some (scanNumbers toks i skip) else none := by
  have empty : AllFit [] := fun n listed => absurd listed List.not_mem_nil
  induction toks generalizing i skip with
  | nil =>
    rw [scanChecked, scanNumbers, if_pos empty]
  | cons tok toks ih =>
    cases skip with
    | succ skip =>
      rw [scanChecked, scanNumbers]
      exact ih (i + 1) skip
    | zero =>
      cases read : piece tok with
      | none =>
        rw [scanChecked, scanNumbers, read]
        exact ih (i + 1) 0
      | some p =>
        cases p with
        | hundreds =>
          rw [scanChecked, scanNumbers, read]
          exact ih (i + 1) 0
        | digits v =>
          rw [scanChecked, scanNumbers, read]
          dsimp only
          rw [ih]
          exact map_cons_fits (piece_small read)
        | unit u => exact scanChecked_words read (by simp [Piece.Starts]) i (ih (i + 1))
        | ten => exact scanChecked_words read (by simp [Piece.Starts]) i (ih (i + 1))
        | tens t => exact scanChecked_words read (by simp [Piece.Starts]) i (ih (i + 1))
        | hundred h => exact scanChecked_words read (by simp [Piece.Starts]) i (ih (i + 1))

/-- A number found in the tokens: a part of them, which fits when they are not too many. -/
structure Within (toks : List String) (i : Nat) (n : FoundNumber) : Prop where
  starts : i ≤ n.start
  some' : n.start < n.stop
  stops : n.stop ≤ i + toks.length
  fits : 900 * toks.length < 2 ^ 63 → FitsI64 n.value

theorem Within.cons {tok : String} {i : Nat} (within : Within toks (i + 1) n) :
    Within (tok :: toks) i n := by
  obtain ⟨starts, some', stops, fits⟩ := within
  constructor
  · omega
  · exact some'
  · rw [List.length_cons]
    omega
  · intro few
    rw [List.length_cons] at few
    exact fits (by omega)

theorem scanNumbers_within (toks : List String) (i skip : Nat) :
    ∀ n ∈ scanNumbers toks i skip, Within toks i n := by
  induction toks generalizing i skip with
  | nil =>
    intro n listed
    rw [scanNumbers] at listed
    cases listed
  | cons tok toks ih =>
    intro n listed
    -- A number in words is as long as its fold says, and no larger than its words allow.
    have words : ∀ p, piece tok = some p → p.Starts → n ∈ scanNumbers (tok :: toks) i 0 →
        Within (tok :: toks) i n := by
      intro p read starts listed
      have some' : 0 < (compound (tok :: toks) false 0 0 0).1 := compound_pos read starts
      obtain ⟨-, few, large, bound⟩ := compound_grows (tok :: toks) false 0 (le_refl 0) (le_refl 0)
      rw [scanNumbers_words read starts] at listed
      rcases List.mem_cons.mp listed with rfl | later
      · constructor
        · exact le_refl i
        · dsimp only
          omega
        · dsimp only
          omega
        · intro short
          unfold FitsI64
          dsimp only
          omega
      · exact (ih (i + 1) _ n later).cons
    cases skip with
    | succ skip =>
      rw [scanNumbers] at listed
      exact (ih (i + 1) skip n listed).cons
    | zero =>
      cases read : piece tok with
      | none =>
        rw [scanNumbers, read] at listed
        exact (ih (i + 1) 0 n listed).cons
      | some p =>
        cases p with
        | hundreds =>
          rw [scanNumbers, read] at listed
          exact (ih (i + 1) 0 n listed).cons
        | digits v =>
          rw [scanNumbers, read] at listed
          rcases List.mem_cons.mp listed with rfl | later
          · constructor
            · exact le_refl i
            · exact Nat.lt_succ_self i
            · simp
            · exact fun _ => piece_small read
          · exact (ih (i + 1) 0 n later).cons
        | unit u => exact words _ read (by simp [Piece.Starts]) listed
        | ten => exact words _ read (by simp [Piece.Starts]) listed
        | tens t => exact words _ read (by simp [Piece.Starts]) listed
        | hundred h => exact words _ read (by simp [Piece.Starts]) listed

theorem findNumbers_within (head : (findNumbers toks).head? = some n) : Within toks 0 n :=
  scanNumbers_within toks 0 0 n (List.mem_of_mem_head? head)

/-- The numbers of a short text fit. -/
theorem findNumbersChecked_short (few : 900 * toks.length < 2 ^ 63) :
    findNumbersChecked toks = some (findNumbers toks) := by
  have all : AllFit (scanNumbers toks 0 0) :=
    fun n listed => (scanNumbers_within toks 0 0 n listed).fits few
  exact (scanChecked_eq toks 0 0).trans (if_pos all)

end Numbers

section Branches

variable {toks later : List String}

/-- A time of the day, or at most a day away. -/
def TimeSpec.InRange : TimeSpec → Prop
  | .now => True
  | .inMinutes minutes => 1 ≤ minutes ∧ minutes ≤ 1440
  | .at hour minute _ => hour < 24 ∧ minute < 60

/-- A time read from the tokens: one in range, that begins at one of them. -/
structure ReadFrom (toks : List String) (r : TimeRead) : Prop where
  time : r.1.InRange
  token : r.2.2.1 < toks.length

theorem clockDigits_cons (dayOffset : Nat) (t : String) (before : Option String) (i : Nat) :
    clockDigits dayOffset (t :: toks) before i =
      match clockTime t with
      | some (h, m) =>
        some (.at h m dayOffset, (0.9 : F32), if 0 < i ∧ before = some "בשעה" then i - 1 else i, i + 1)
      | none => clockDigits dayOffset toks (some t) (i + 1) := by
  rw [clockDigits]
  unfold clockTime
  cases splitOnce (trimStartMatches "בל".toList.contains t) ":" with
  | none => rfl
  | some parts =>
    cases hour : parseU32 parts.1 with
    | none => simp [hour]
    | some h =>
      cases minute : parseU32 parts.2 with
      | none => simp [hour, minute]
      | some m =>
        by_cases fits : h < 24 ∧ m < 60
        · simp [hour, minute, fits]
        · simp [hour, minute, fits]

theorem clockTime_valid {t : String} {h m : Nat} (read : clockTime t = some (h, m)) :
    h < 24 ∧ m < 60 := by
  obtain ⟨parts, -, rest⟩ := Option.bind_eq_some_iff.mp read
  obtain ⟨h', -, rest⟩ := Option.bind_eq_some_iff.mp rest
  obtain ⟨m', -, rest⟩ := Option.bind_eq_some_iff.mp rest
  split at rest
  · next fits =>
    obtain ⟨rfl, rfl⟩ := Prod.mk.inj (Option.some.inj rest)
    exact fits
  · cases rest

/-- **Clock digits are read within the tokens**, and what they give is a time of day. -/
theorem clockDigitsChecked_eq (dayOffset : Nat) (held : toks.length < 2 ^ 64) (later front : List String)
    (same : toks = front ++ later) :
    clockDigitsChecked dayOffset toks later front.length =
      some (clockDigits dayOffset later front.getLast? front.length) := by
  induction later generalizing front with
  | nil => rfl
  | cons t later ih =>
    have length : toks.length = front.length + (later.length + 1) := by
      rw [same, List.length_append, List.length_cons]
    rw [clockDigitsChecked, clockDigits_cons]
    cases read : clockTime t with
    | none =>
      have next := ih (front ++ [t]) (by rw [same, List.append_assoc]; rfl)
      rw [List.length_append, List.getLast?_concat] at next
      exact next
    | some time =>
      have stop : usize (front.length + 1) = some (front.length + 1) := usize_fits (by omega)
      dsimp only
      rw [stop]
      by_cases first : 0 < front.length
      · have before : toks[front.length - 1]? = front.getLast? := by
          rw [same, List.getElem?_append_left (by omega), List.getLast?_eq_getElem?]
        obtain ⟨last, ends⟩ : ∃ last, front.getLast? = some last :=
          ⟨_, List.getLast?_eq_some_getLast (List.ne_nil_of_length_pos first)⟩
        rw [if_pos first, before, ends]
        simp [first]
      · have none' : front = [] := List.eq_nil_of_length_eq_zero (by omega)
        subst none'
        rfl

theorem clockDigits_valid (dayOffset : Nat) {r : TimeRead} (later front : List String)
    (same : toks = front ++ later)
    (read : clockDigits dayOffset later front.getLast? front.length = some r) : ReadFrom toks r := by
  induction later generalizing front with
  | nil => cases read
  | cons t later ih =>
    rw [clockDigits_cons] at read
    cases time : clockTime t with
    | none =>
      rw [time] at read
      refine ih (front ++ [t]) (by rw [same, List.append_assoc]; rfl) ?_
      rw [List.length_append, List.getLast?_concat]
      exact read
    | some time' =>
      rw [time] at read
      obtain rfl := Option.some.inj read
      refine ⟨clockTime_valid time, ?_⟩
      have length : toks.length = front.length + (later.length + 1) := by
        rw [same, List.length_append, List.length_cons]
      dsimp only
      split <;> omega

/-- No clock digits are read exactly when no token writes a time. -/
theorem clockDigits_eq_none_iff (dayOffset : Nat) (before : Option String) (i : Nat) :
    clockDigits dayOffset toks before i = none ↔ ∀ t ∈ toks, clockTime t = none := by
  induction toks generalizing before i with
  | nil => exact iff_of_true rfl fun t listed => absurd listed List.not_mem_nil
  | cons t toks ih =>
    rw [clockDigits_cons, List.forall_mem_cons]
    cases read : clockTime t with
    | none => simp [ih]
    | some time => simp

theorem flag_le_one (p : Prop) [Decidable p] : (if p then 1 else 0) ≤ 1 := by
  split <;> decide

/-- **A spoken hour overflows nothing**: it is read from four tokens. -/
theorem spokenHourChecked_eq (dayOffset : Nat) (i : Nat) (held : i + toks.length < 2 ^ 63) :
    spokenHourChecked dayOffset toks i = some (spokenHour dayOffset toks i) := by
  induction toks generalizing i with
  | nil => rfl
  | cons t toks ih =>
    rw [List.length_cons] at held
    have next := ih (i + 1) (by omega)
    rw [spokenHourChecked, spokenHour]
    cases word' : hourWord t toks with
    | none => exact next
    | some parts =>
      obtain ⟨word, explicit, rest⟩ := parts
      have short : (word :: rest.take 3).length ≤ 4 := by
        rw [List.length_cons, List.length_take]
        omega
      have numbers : findNumbersChecked (word :: rest.take 3) =
        some (findNumbers (word :: rest.take 3)) :=
        findNumbersChecked_short (by omega)
      simp only [numbers, Option.bind_eq_bind, Option.bind_some]
      cases first : (findNumbers (word :: rest.take 3)).head? with
      | none => exact next
      | some n =>
        have within := findNumbers_within first
        have stops := within.stops
        simp only [Option.bind_some]
        by_cases guarded : n.start ≠ 0 ∨ !decide ((1 ≤ n.value ∧ n.value ≤ 12) ∨
            (explicit ∧ 0 ≤ n.value ∧ n.value < 24))
        · rw [if_pos guarded, if_pos guarded]
          exact next
        · rw [if_neg guarded, if_neg guarded]
          by_cases bare : !explicit ∧ (if (word :: rest.take 3).getD n.stop "" == "וחצי" then 30
              else if (word :: rest.take 3).getD n.stop "" == "ורבע" then 15 else 0) = 0
          · rw [if_pos bare, if_pos bare]
            exact next
          · have fits : i + ((if explicit then 1 else 0) + n.stop +
                (if (if (word :: rest.take 3).getD n.stop "" == "וחצי" then 30
                  else if (word :: rest.take 3).getD n.stop "" == "ורבע" then 15
                  else 0) ≠ 0 then 1 else 0)) <
                2 ^ 64 := by
              have first := flag_le_one (explicit = true)
              have last := flag_le_one ((if (word :: rest.take 3).getD n.stop "" == "וחצי" then 30
                else if (word :: rest.take 3).getD n.stop "" == "ורבע" then 15 else 0) ≠ 0)
              omega
            rw [if_neg bare, if_neg bare, usize_fits fits]
            rfl

/-- The hour said is one of the day. -/
theorem spokenHour_valid (dayOffset : Nat) {r : TimeRead} (later front : List String)
    (same : toks = front ++ later) (read : spokenHour dayOffset later front.length = some r) :
    ReadFrom toks r := by
  induction later generalizing front with
  | nil => cases read
  | cons t later ih =>
    have length : toks.length = front.length + (later.length + 1) := by
      rw [same, List.length_append, List.length_cons]
    have next := ih (front ++ [t]) (by rw [same, List.append_assoc]; rfl)
    rw [List.length_append] at next
    rw [spokenHour] at read
    split at read
    · next r' own =>
      obtain rfl := Option.some.inj read
      obtain ⟨⟨word, explicit, rest⟩, -, own⟩ := Option.bind_eq_some_iff.mp own
      obtain ⟨n, -, own⟩ := Option.bind_eq_some_iff.mp own
      dsimp only at own
      by_cases implausible : n.start ≠ 0 ∨ !decide ((1 ≤ n.value ∧ n.value ≤ 12) ∨
          (explicit ∧ 0 ≤ n.value ∧ n.value < 24))
      · rw [if_pos implausible] at own
        cases own
      · rw [if_neg implausible] at own
        by_cases bare : !explicit ∧ (if (word :: rest.take 3).getD n.stop "" == "וחצי" then 30
            else if (word :: rest.take 3).getD n.stop "" == "ורבע" then 15 else 0) = 0
        · rw [if_pos bare] at own
          cases own
        · rw [if_neg bare] at own
          obtain rfl := Option.some.inj own
          refine ⟨?_, by dsimp only; omega⟩
          obtain ⟨-, reasonable⟩ := not_or.mp implausible
          simp only [Bool.not_eq_true', Bool.not_eq_false, decide_eq_true_eq] at reasonable
          refine ⟨?_, ?_⟩
          · rcases reasonable with ⟨low, high⟩ | ⟨-, low, high⟩
            · omega
            · omega
          · split
            · decide
            · split <;> decide
    · exact next read

/-- The tokens after the word that says "in". -/
def afterIn (toks : List String) : Option (Nat × List String) :=
  (toks.findIdx? fun t => t == "בעוד" || t == "עוד").map fun pos => (pos, toks.drop (pos + 1))

/-- No span of time said as a phrase stands there. -/
def NoPhrase (rest : List String) : Prop :=
  relativePhrases.find? (fun (phrase, _, _) => startsWith (join " " rest) phrase) = none

instance (rest : List String) : Decidable (NoPhrase rest) := by
  unfold NoPhrase
  infer_instance

/-- Hours whose minutes are no `i64`. -/
def HoursOverflow (rest : List String) : Prop :=
  ∃ n ∈ (findNumbers rest).head?, n.start = 0 ∧ startsWith (rest.getD n.stop "") "שעות" = true ∧
    ¬FitsI64 (n.value * 60)

instance (rest : List String) : Decidable (HoursOverflow rest) := by
  unfold HoursOverflow
  infer_instance

/-- **When a time from now overflows**: it is no phrase, and a number of it is no `i64`, or its
hours are no `i64` in minutes. -/
def RelativeOverflow (toks : List String) : Prop :=
  ∃ said ∈ afterIn toks, NoPhrase said.2 ∧ (¬AllFit (findNumbers said.2) ∨ HoursOverflow said.2)

instance (toks : List String) : Decidable (RelativeOverflow toks) := by
  unfold RelativeOverflow
  infer_instance

theorem afterIn_some {pos : Nat} {rest : List String} (found : afterIn toks = some (pos, rest)) :
    pos < toks.length ∧ rest = toks.drop (pos + 1) ∧
      (toks.findIdx? fun t => t == "בעוד" || t == "עוד") = some pos := by
  obtain ⟨pos', found', same⟩ := Option.map_eq_some_iff.mp found
  obtain ⟨rfl, rfl⟩ := Prod.mk.inj same
  exact ⟨(List.findIdx?_eq_some_iff_getElem.mp found').1, rfl, found'⟩

/-- The number branch of `relativeTime`. -/
def relativeNumber (pos : Nat) (rest : List String) : Option TimeRead := do
  let n ← (findNumbers rest).head?
  if n.start = 0 then
    let unit := rest.getD n.stop ""
    let minutes := if startsWith unit "שעות" then n.value * 60 else n.value
    if 1 ≤ minutes ∧ minutes ≤ 24 * 60 then
      some (.inMinutes minutes.toNat, 0.85, pos, pos + 1 + n.stop + unitWords unit)
    else none
  else none

theorem hoursOverflow_iff {rest : List String} {n : FoundNumber}
    (first : (findNumbers rest).head? = some n) :
    HoursOverflow rest ↔
      n.start = 0 ∧ startsWith (rest.getD n.stop "") "שעות" = true ∧ ¬FitsI64 (n.value * 60) := by
  constructor
  · rintro ⟨n', first', overflow⟩
    rw [first] at first'
    obtain rfl := Option.some.inj first'
    exact overflow
  · intro overflow
    exact ⟨n, first, overflow⟩

/-- **A number of hours overflows exactly when its minutes, or a number itself, are no `i64`.** -/
theorem relativeNumberChecked_eq {pos : Nat} {rest : List String} (held : pos + rest.length < 2 ^ 63) :
    relativeNumberChecked pos rest =
      if AllFit (findNumbers rest) ∧ ¬HoursOverflow rest then some (relativeNumber pos rest)
      else none := by
  have scan := scanChecked_eq rest 0 0
  unfold relativeNumberChecked relativeNumber
  by_cases all : AllFit (findNumbers rest)
  · have numbers : findNumbersChecked rest = some (findNumbers rest) := scan.trans (if_pos all)
    rw [numbers]
    simp only [Option.bind_eq_bind, Option.bind_some]
    cases first : (findNumbers rest).head? with
    | none =>
      have none' : ¬HoursOverflow rest := by
        rintro ⟨n, some', -⟩
        rw [first] at some'
        cases some'
      rw [if_pos ⟨all, none'⟩]
      rfl
    | some n =>
      have stops := (findNumbers_within first).stops
      have fits : pos + 1 + n.stop + unitWords (rest.getD n.stop "") < 2 ^ 64 := by
        have flag : unitWords (rest.getD n.stop "") ≤ 1 := flag_le_one _
        omega
      dsimp only [Option.bind_some]
      by_cases start : n.start = 0
      · rw [if_pos start, if_pos start]
        by_cases hours : startsWith (rest.getD n.stop "") "שעות" = true
        · rw [if_pos hours, if_pos hours]
          by_cases large : FitsI64 (n.value * 60)
          · have none' : ¬HoursOverflow rest :=
              fun over' => ((hoursOverflow_iff first).mp over').2.2 large
            rw [if_pos ⟨all, none'⟩, i64_fits large, Option.bind_some, usize_fits fits]
            split <;> rfl
          · have over' : HoursOverflow rest := (hoursOverflow_iff first).mpr ⟨start, hours, large⟩
            rw [if_neg fun both => both.2 over', i64, if_neg large]
            rfl
        · have none' : ¬HoursOverflow rest := fun over' => hours ((hoursOverflow_iff first).mp over').2.1
          have both : AllFit (findNumbers rest) ∧ ¬HoursOverflow rest := ⟨all, none'⟩
          rw [if_neg hours, if_neg hours, if_pos both, usize_fits fits]
          split <;> rfl
      · have none' : ¬HoursOverflow rest := fun over' => start ((hoursOverflow_iff first).mp over').1
        rw [if_neg start, if_neg start, if_pos ⟨all, none'⟩]
  · rw [if_neg fun both => all both.1, show findNumbersChecked rest = none from scan.trans (if_neg all)]
    rfl

/-- **A time from now, in the machine's arithmetic**: it fails exactly where it overflows. -/
theorem relativeTimeChecked_eq (held : toks.length < 2 ^ 63) :
    relativeTimeChecked toks = if RelativeOverflow toks then none else some (relativeTime toks) := by
  unfold relativeTimeChecked relativeTime
  cases found : afterIn toks with
  | none =>
    have absent : (toks.findIdx? fun t => t == "בעוד" || t == "עוד") = none :=
      Option.map_eq_none_iff.mp found
    have none' : ¬RelativeOverflow toks := by
      rintro ⟨said, some', -⟩
      rw [found] at some'
      cases some'
    rw [if_neg none', absent]
    rfl
  | some parts =>
    obtain ⟨pos, rest⟩ := parts
    obtain ⟨within, rfl, at'⟩ := afterIn_some found
    have length : (toks.drop (pos + 1)).length = toks.length - (pos + 1) := List.length_drop
    have overflow_iff : RelativeOverflow toks ↔ NoPhrase (toks.drop (pos + 1)) ∧
        (¬AllFit (findNumbers (toks.drop (pos + 1))) ∨ HoursOverflow (toks.drop (pos + 1))) := by
      constructor
      · rintro ⟨said, same, overflow⟩
        rw [found] at same
        obtain rfl := Option.some.inj same
        exact overflow
      · intro overflow
        exact ⟨_, found, overflow⟩
    rw [at']
    simp only [if_pos (show pos + 1 ≤ toks.length from within), Option.bind_eq_bind, Option.bind_some]
    cases phrase : relativePhrases.find?
      (fun (phrase, _, _) => startsWith (join " " (toks.drop (pos + 1))) phrase) with
    | some said =>
      obtain ⟨phrase', minutes, count⟩ := said
      have few : count ≤ 2 := by
        have counts : ∀ said ∈ relativePhrases, said.2.2 ≤ 2 := by decide
        exact counts _ (List.mem_of_find?_eq_some phrase)
      have none' : ¬RelativeOverflow toks := by
        intro over'
        have absent := (overflow_iff.mp over').1
        unfold NoPhrase at absent
        rw [phrase] at absent
        cases absent
      dsimp only
      rw [if_neg none', usize_fits (by omega)]
      rfl
    | none =>
      dsimp only
      rw [relativeNumberChecked_eq (by omega)]
      by_cases fits : AllFit (findNumbers (toks.drop (pos + 1))) ∧ ¬HoursOverflow (toks.drop (pos + 1))
      · have none' : ¬RelativeOverflow toks := by
          intro over'
          rcases (overflow_iff.mp over').2 with large | hours
          · exact large fits.1
          · exact fits.2 hours
        rw [if_pos fits, if_neg none']
        rfl
      · have over' : RelativeOverflow toks := overflow_iff.mpr ⟨phrase, by
          by_cases all : AllFit (findNumbers (toks.drop (pos + 1)))
          · exact .inr (by_contra fun none' => fits ⟨all, none'⟩)
          · exact .inl all⟩
        rw [if_neg fits, if_pos over']

theorem relativeNumber_valid {pos : Nat} {rest : List String} {r : TimeRead} (within : pos < toks.length)
    (read : relativeNumber pos rest = some r) : ReadFrom toks r := by
  obtain ⟨n, -, read⟩ := Option.bind_eq_some_iff.mp read
  dsimp only at read
  generalize (if startsWith (rest.getD n.stop "") "שעות" then n.value * 60 else n.value) = minutes at read
  split at read
  · split at read
    · next bounds =>
      obtain rfl := Option.some.inj read
      have low : 1 ≤ minutes.toNat := by omega
      have high : minutes.toNat ≤ 1440 := by omega
      exact ⟨⟨low, high⟩, within⟩
    · cases read
  · cases read

/-- A time from now is at most a day away. -/
theorem relativeTime_valid {r : TimeRead} (read : relativeTime toks = some r) : ReadFrom toks r := by
  obtain ⟨pos, at', read⟩ := Option.bind_eq_some_iff.mp read
  have within : pos < toks.length := (List.findIdx?_eq_some_iff_getElem.mp at').1
  dsimp only at read
  split at read
  · next phrase' minutes count said =>
    obtain rfl := Option.some.inj read
    have minutes' : ∀ said ∈ relativePhrases, 1 ≤ said.2.1 ∧ said.2.1 ≤ 1440 := by decide
    exact ⟨minutes' _ (List.mem_of_find?_eq_some said), within⟩
  · exact relativeNumber_valid within read

end Branches

section Whole

variable {text : String} {toks : List String}

/-- **When a time overflows**: no token is a time in digits, and the time from now it asks for
overflows. -/
def TokensOverflow (toks : List String) : Prop :=
  (∀ t ∈ toks, clockTime t = none) ∧ RelativeOverflow toks

/-- **The tokens, read in the machine's arithmetic.** -/
theorem parseTokensChecked_eq (held : toks.length < 2 ^ 63) :
    (TokensOverflow toks → parseTokensChecked toks = none) ∧
      (¬TokensOverflow toks → parseTokensChecked toks = some (parseTokens toks)) := by
  generalize dayOffset' : (if toks.any fun t => t == "מחר" || t == "tomorrow" then 1 else 0) = dayOffset
  have digits : clockDigitsChecked dayOffset toks toks 0 = some (clockDigits dayOffset toks none 0) :=
    clockDigitsChecked_eq dayOffset (by omega) toks [] rfl
  have spoken : spokenHourChecked dayOffset toks 0 = some (spokenHour dayOffset toks 0) :=
    spokenHourChecked_eq dayOffset 0 (by omega)
  have relative := relativeTimeChecked_eq held
  unfold parseTokensChecked parseTokens
  rw [dayOffset']
  dsimp only
  rw [digits]
  cases clock : clockDigits dayOffset toks none 0 with
  | some r =>
    refine ⟨fun overflow => ?_, fun _ => rfl⟩
    have none' := (clockDigits_eq_none_iff dayOffset none 0).mpr overflow.1
    rw [clock] at none'
    cases none'
  | none =>
    have none' := (clockDigits_eq_none_iff dayOffset none 0).mp clock
    refine ⟨fun overflow => ?_, fun fine => ?_⟩
    · show (relativeTimeChecked toks).bind _ = none
      rw [relative, if_pos overflow.2]
      rfl
    · show (relativeTimeChecked toks).bind _ = _
      rw [relative, if_neg fun overflow => fine ⟨none', overflow⟩]
      cases time : relativeTime toks with
      | some r => rfl
      | none => exact spoken

theorem parseTokens_valid {r : TimeRead} (read : parseTokens toks = some r) : ReadFrom toks r := by
  unfold parseTokens at read
  dsimp only at read
  split at read
  · next clock =>
    obtain rfl := Option.some.inj read
    exact clockDigits_valid _ toks [] rfl clock
  · split at read
    · next time =>
      obtain rfl := Option.some.inj read
      exact relativeTime_valid time
    · exact spokenHour_valid _ toks [] rfl read

theorem tokenOffsets_getElem (toks : List String) (at' i : Nat) (within : i < toks.length) :
    (tokenOffsets toks at')[i]? = some (at' + bytes (spaced (toks.take i))) := by
  induction toks generalizing at' i with
  | nil => exact absurd within (Nat.not_lt_zero _)
  | cons t toks ih =>
    cases i with
    | zero => rfl
    | succ i =>
      have one : bytes [' '] = 1 := rfl
      rw [tokenOffsets, List.getElem?_cons_succ, ih _ _ (Nat.lt_of_succ_lt_succ within),
        List.take_succ_cons]
      simp only [spaced, List.flatMap_cons, bytes_append, one]
      congr 1
      omega

/-- The sums of the offsets are the bytes of the text, and one. -/
theorem tokenOffsetsChecked_eq (toks : List String) (at' : Nat)
    (held : at' + bytes (spaced toks) < 2 ^ 64) :
    tokenOffsetsChecked toks at' = some (tokenOffsets toks at') := by
  induction toks generalizing at' with
  | nil => rfl
  | cons t toks ih =>
    have one : bytes [' '] = 1 := rfl
    have sum : bytes (spaced (t :: toks)) = bytes t.toList + 1 + bytes (spaced toks) := by
      simp only [spaced, List.flatMap_cons, bytes_append, one]
    rw [tokenOffsetsChecked, usize_fits (by omega)]
    show (tokenOffsetsChecked toks (at' + (bytes t.toList + 1))).map _ = _
    rw [ih _ (by omega), tokenOffsets, Nat.add_assoc]
    rfl

theorem length_le_bytes (words' : ∀ tok ∈ toks, tok.toList ≠ []) :
    2 * toks.length ≤ bytes (spaced toks) := by
  induction toks with
  | nil => exact Nat.zero_le _
  | cons t toks ih =>
    have rest := ih fun tok listed => words' tok (List.mem_cons_of_mem _ listed)
    have more := bytes_pos (words' t List.mem_cons_self)
    have one : bytes [' '] = 1 := rfl
    simp only [spaced, List.flatMap_cons, bytes_append, List.length_cons, one] at rest ⊢
    omega

theorem bytes_spaced_tokens (normal : Normal text) :
    bytes (spaced (tokens text)) ≤ bytes text.toList + 1 := by
  have joined := normal.join_tokens
  rcases List.eq_nil_or_concat (tokens text) with none' | ⟨front, last, same⟩
  · rw [none']
    exact Nat.zero_le _
  · have one : bytes [' '] = 1 := rfl
    rw [List.concat_eq_append] at same
    have whole := congrArg String.toList joined
    rw [same, join_append, join_toList_cons] at whole
    rw [same, spaced_concat, ← whole]
    simp only [List.flatMap_nil, List.append_nil, bytes_append, one]
    omega

end Whole

section Sound

variable {text : String}

/-- **A text is read soundly**: no arithmetic of the machine overflows, no index is out of range,
and a time that is read is in range, with a span on the token boundaries of the text. -/
def SoundTime (text : String) (now : PhraseSet) : Prop :=
  ∃ result, parseTimeSpanChecked text now = some result ∧
    ∀ time confidence span, result = some (time, confidence, span) → time.InRange ∧ TokenSpan text span

/-- **Where the reading of a time overflows.** -/
def TimeOverflow (text : String) (now : PhraseSet) : Prop :=
  now.find text = none ∧ TokensOverflow (tokens text)

theorem phraseSet_text [Unicode] (items : List String) (allowPrefixes : Bool) :
    ∀ p ∈ (PhraseSet.new items allowPrefixes).phrases, p.text ≠ "" := by
  intro p listed
  have one : p ∈ (items.filter fun p => normalize p != "").map (Phrase.new · allowPrefixes) :=
    (List.perm_insertionSort _ _).subset listed
  obtain ⟨item, kept, rfl⟩ := List.mem_map.mp one
  have some' := (List.mem_filter.mp kept).2
  exact bne_iff_ne.mp some'

variable {now : PhraseSet}

/-- The tokens of a time that is read: those before, all but the last of its own, its last and those
after. -/
theorem tokens_cut {toks : List String} {a stop : Nat} (after : a ≤ stop) (last : stop < toks.length) :
    toks.take a ++ (toks.take stop).drop a = toks.take stop ∧
      toks = toks.take a ++ ((toks.take stop).drop a ++ toks[stop] :: toks.drop (stop + 1)) := by
  have front : toks.take a ++ (toks.take stop).drop a = toks.take stop := by
    have shorter : (toks.take stop).take a = toks.take a := by
      rw [List.take_take, Nat.min_eq_left after]
    rw [← shorter, List.take_append_drop]
  refine ⟨front, ?_⟩
  rw [← List.append_assoc, front, ← List.drop_eq_getElem_cons last, List.take_append_drop]

/-- **The span of a time that is read**, from its offsets: no index is out of range. -/
theorem span_read (normal : Normal text) {a b : Nat} (within : a < (tokens text).length) :
    ∃ start last word, (tokenOffsets (tokens text) 0)[a]? = some start ∧
      (tokenOffsets (tokens text) 0)[max (min b (tokens text).length) (a + 1) - 1]? = some last ∧
      (tokens text)[max (min b (tokens text).length) (a + 1) - 1]? = some word ∧
      TokenSpan text (start, last + bytes word.toList) := by
  obtain ⟨stop, stop', after, last⟩ : ∃ stop,
    max (min b (tokens text).length) (a + 1) - 1 = stop ∧ a ≤ stop ∧
      stop < (tokens text).length := ⟨_, rfl, by omega, by omega⟩
  obtain ⟨front, cut⟩ := tokens_cut after last
  have span := tokenSpan_tokens normal cut
  rw [front] at span
  have first := tokenOffsets_getElem (tokens text) 0 a within
  have second := tokenOffsets_getElem (tokens text) 0 stop last
  rw [Nat.zero_add] at first second
  rw [stop']
  exact ⟨_, _, _, first, second, List.getElem?_eq_getElem last, span⟩

/-- What is read is a phrase for now, or a time in range on the token boundaries of the text. -/
theorem parseTimeSpan_cases (normal : Normal text) {time : TimeSpec} {confidence : F32} {span : Span}
    (read : parseTimeSpan text now = some (time, confidence, span)) :
    (time = .now ∧ ∃ p, now.find text = some (p, span)) ∨ time.InRange ∧ TokenSpan text span := by
  unfold parseTimeSpan at read
  cases found : now.find text with
  | some said =>
    obtain ⟨p, span'⟩ := said
    rw [found] at read
    obtain ⟨rfl, rest⟩ := Prod.mk.inj (Option.some.inj read)
    obtain ⟨-, rfl⟩ := Prod.mk.inj rest
    exact .inl ⟨rfl, p, rfl⟩
  | none =>
    rw [found] at read
    obtain ⟨⟨time', confidence', a, b⟩, tokens', same⟩ := Option.map_eq_some_iff.mp read
    have valid := parseTokens_valid tokens'
    obtain ⟨start, last, word, first, second, third, on⟩ := span_read (b := b) normal valid.token
    obtain ⟨rfl, rest⟩ := Prod.mk.inj same
    obtain ⟨-, rfl⟩ := Prod.mk.inj rest
    refine .inr ⟨valid.time, ?_⟩
    simp only [List.getD_eq_getElem?_getD, first, second, third, Option.getD_some]
    exact on

/-- **What is read is a time in range, on the token boundaries of the text.** -/
theorem parseTimeSpan_valid (normal : Normal text) (phrases : ∀ p ∈ now.phrases, p.text ≠ "")
    {time : TimeSpec}
    {confidence : F32} {span : Span} (read : parseTimeSpan text now = some (time, confidence, span)) :
    time.InRange ∧ TokenSpan text span := by
  rcases parseTimeSpan_cases normal read with ⟨rfl, p, found⟩ | valid
  · obtain ⟨p', listed, found'⟩ := List.exists_of_findSome?_eq_some found
    obtain ⟨span', here, same⟩ := Option.map_eq_some_iff.mp found'
    obtain ⟨rfl, rfl⟩ := Prod.mk.inj same
    exact ⟨trivial, find_tokenSpan normal (phrases _ listed) here⟩
  · exact valid

theorem tokens_held (normal : Normal text) (held : bytes text.toList < 2 ^ 63) :
    (tokens text).length < 2 ^ 63 ∧ tokenOffsetsChecked
    (tokens text) 0 = some (tokenOffsets (tokens text) 0) := by
  have words' : 2 * (tokens text).length ≤ bytes (spaced (tokens text)) :=
    length_le_bytes fun tok listed => (tokens_words tok listed).1
  have few := bytes_spaced_tokens normal
  exact ⟨by omega, tokenOffsetsChecked_eq _ 0 (by omega)⟩

/-- **The machine's arithmetic is the arithmetic of the numbers, unless it overflows.** -/
theorem parseTimeSpanChecked_eq (now : PhraseSet) (normal : Normal text)
    (held : bytes text.toList < 2 ^ 63) :
    (TimeOverflow text now → parseTimeSpanChecked text now = none) ∧
      (¬TimeOverflow text now → parseTimeSpanChecked text now = some (parseTimeSpan text now)) := by
  obtain ⟨long, offsets⟩ := tokens_held normal held
  obtain ⟨overflows, reads⟩ := parseTokensChecked_eq long
  unfold parseTimeSpanChecked parseTimeSpan
  cases found : now.find text with
  | some said =>
    refine ⟨fun overflow => ?_, fun _ => rfl⟩
    have none' := overflow.1
    rw [found] at none'
    cases none'
  | none =>
    simp only [offsets, Option.bind_eq_bind, Option.bind_some]
    refine ⟨fun overflow => ?_, fun fine => ?_⟩
    · rw [overflows overflow.2]
      rfl
    · rw [reads fun overflow => fine ⟨found, overflow⟩, Option.bind_some]
      cases read : parseTokens (tokens text) with
      | none => rfl
      | some r =>
        obtain ⟨time, confidence, a, b⟩ := r
        obtain ⟨start, last, word, first, second, third, on⟩ :=
          span_read (b := b) normal (parseTokens_valid read).token
        have inside := on.inside.2
        have fits : last + bytes word.toList < 2 ^ 64 := by
          dsimp only at inside
          omega
        simp only [first, second, third, Option.bind_some, usize_fits fits, Option.map_some,
          List.getD_eq_getElem?_getD, Option.getD_some]

/-- **A normalized text is read soundly exactly when it does not ask for hours that overflow.** -/
theorem soundTime_iff [Unicode] (items : List String) (allowPrefixes : Bool) (normal : Normal text)
    (held : bytes text.toList < 2 ^ 63) :
    SoundTime text (PhraseSet.new items allowPrefixes) ↔
      ¬TimeOverflow text (PhraseSet.new items allowPrefixes) := by
  obtain ⟨overflows, reads⟩ := parseTimeSpanChecked_eq (PhraseSet.new items allowPrefixes) normal held
  constructor
  · rintro ⟨result, checked, -⟩ overflow
    rw [overflows overflow] at checked
    cases checked
  · intro fine
    refine ⟨_, reads fine, fun time confidence span read => ?_⟩
    exact parseTimeSpan_valid normal (phraseSet_text items allowPrefixes) read

attribute [local instance] Unicode.plain

/-- "In ten minutes" is read soundly. -/
theorem inTenMinutes_sound : SoundTime "בעוד עשר דקות" (PhraseSet.new ["עכשיו"] true) := by
  have minutes : ¬RelativeOverflow (tokens "בעוד עשר דקות") := by
    decide
  exact (soundTime_iff ["עכשיו"] true (by decide) (by decide)).mpr fun overflow => minutes overflow.2.2

/-- Hours in numbers that an `i64` holds can be minutes that it does not hold. -/
theorem hours_overflow : ¬∀ (items : List String) (allowPrefixes : Bool) (text : String), Normal text →
    bytes text.toList < 2 ^ 63 → SoundTime text (PhraseSet.new items allowPrefixes) := by
  intro all
  obtain ⟨result, checked, -⟩ := all [] true "בעוד 200000000000000000 שעות" (by decide) (by decide)
  have overflow : parseTimeSpanChecked "בעוד 200000000000000000 שעות" (PhraseSet.new [] true) = none := by
    decide
  rw [overflow] at checked
  cases checked

end Sound

end Callora.Text
