/-
**A number that was said, heard again.**

`numberWords` says a number part by part, with a vav on the last one; `findNumbers` reads the words
back with a fold over what each of them stands for. Between the two stand the pieces (`pieces`):
what the words of a number are heard as (`heard_saidWords`), and what the fold makes of them
(`joins_pieces`).

* `findNumbers_said` — among words that are no numbers, the one number found is the one said;
* `heard_iff` — except for a hundred and ten and for two hundred and ten: after a hundred the reader
  takes a ten only with units before it, so that the ten is left over.
-/
import Callora.Text.Hebrew
import Callora.Text.Spans

set_option linter.unusedSectionVars false

namespace Callora.Text

section Words

theorem splitWhitespace_append (cs ds : List Char) :
    splitWhitespace (String.ofList (cs ++ ' ' :: ds)) =
      splitWhitespace (String.ofList cs) ++ splitWhitespace (String.ofList ds) := by
  unfold splitWhitespace
  rw [String.toList_ofList, String.toList_ofList, String.toList_ofList,
    splitChars_append cs ds [] (by decide), List.filter_append, List.map_append]

/-- The words of a text that was joined are the words of its parts. -/
theorem splitWhitespace_join (parts : List String) :
    splitWhitespace (join " " parts) = parts.flatMap splitWhitespace := by
  induction parts with
  | nil => rfl
  | cons part parts ih =>
    cases parts with
    | nil => simp [join]
    | cons next parts =>
      have joined : join " " (part :: next :: parts) =
          String.ofList (part.toList ++ ' ' :: (join " " (next :: parts)).toList) := by
        simp [join]
      rw [joined, splitWhitespace_append, String.ofList_toList, String.ofList_toList, ih]
      rfl

end Words

section Pieces

/-- What a word is heard as; within a number a leading vav is dropped. -/
def heardAs (started : Bool) (tok : String) : Option Piece :=
  match piece tok with
  | some p => some p
  | none => if started then (stripPrefix tok "ו").bind piece else none

/-- What the words of a number are heard as, the first of them `started` or not. -/
def heardAll (started : Bool) : List String → List (Option Piece)
  | [] => []
  | tok :: toks => heardAs started tok :: heardAll true toks

/-- What the pieces make of the number read so far, when each of them continues it. -/
def joinAll : List Piece → Int → Int → Option (Int × Int)
  | [], total, current => some (total, current)
  | p :: ps, total, current =>
    (p.join total current).bind fun (total, current) => joinAll ps total current

/-- The pieces of the hundreds of a number. -/
def hundredsPieces (h : Nat) : List Piece :=
  if h = 0 then [] else if h ≤ 2 then [.hundred (100 * h)] else [.unit h, .hundreds]

/-- The pieces of the tens and units of a number. -/
def belowPieces (below : Nat) : List Piece :=
  if 20 ≤ below then .tens (10 * (below / 10)) :: (if below % 10 ≠ 0 then [.unit (below % 10)] else [])
  else if 10 < below then [.unit (below - 10 : Nat), .ten]
  else if below = 10 then [.ten]
  else if 0 < below then [.unit below]
  else []

/-- The pieces of a number below a thousand. -/
def pieces (n : Nat) : List Piece := hundredsPieces (n / 100) ++ belowPieces (n % 100)

variable {ps qs : List Piece} {total current t c : Int}

theorem joinAll_cons {p : Piece} (first : p.join total current = some (t, c)) :
    joinAll (p :: ps) total current = joinAll ps t c := by
  rw [joinAll, first]
  rfl

theorem joinAll_append (first : joinAll ps total current = some (t, c)) :
    joinAll (ps ++ qs) total current = joinAll qs t c := by
  induction ps generalizing total current with
  | nil =>
    obtain ⟨rfl, rfl⟩ := Prod.mk.inj (Option.some.inj first)
    rfl
  | cons p ps ih =>
    obtain ⟨⟨t', c'⟩, one, rest⟩ := Option.bind_eq_some_iff.mp first
    rw [List.cons_append, joinAll, one]
    exact ih rest

/-- **The hundreds, read**: a word for a hundred stays the number under way, counted hundreds are
put aside. -/
theorem joins_hundreds {h : Nat} (small : h ≤ 9) :
    joinAll (hundredsPieces h) 0 0 = 
      some (if h ≤ 2 then (0, 100 * (h : Int)) else (100 * (h : Int), 0)) := by
  unfold hundredsPieces
  by_cases none' : h = 0
  · subst none'
    rfl
  · rw [if_neg none']
    by_cases one : h ≤ 2
    · rw [if_pos one, if_pos one]
      rfl
    · rw [if_neg one, if_neg one]
      have unit : (Piece.unit h).join 0 0 = some (0, (h : Int)) := by
        simp [Piece.join]
      have many : Piece.hundreds.join 0 (h : Int) = some (100 * (h : Int), 0) := by
        have counted : 1 ≤ (h : Int) ∧ (h : Int) ≤ 9 := by omega
        rw [Piece.join, if_pos counted, Int.zero_add, Int.mul_comm]
      exact (joinAll_cons unit).trans (joinAll_cons many)

/-- **The tens and units, read** after hundreds. A ten of its own is read only when it comes first. -/
theorem joins_below {below : Nat} (small : below < 100) (whole : current % 100 = 0)
    (first : below = 10 → current = 0) :
    joinAll (belowPieces below) total current = some (total, current + below) := by
  have units : current % 10 = 0 := by omega
  unfold belowPieces
  by_cases large : 20 ≤ below
  · have decade : (Piece.tens (10 * ((below / 10 : Nat) : Int))).join total current =
        some (total, current + 10 * (below / 10 : Nat)) := by
      rw [Piece.join, if_pos whole]
    rw [if_pos large]
    by_cases more : below % 10 ≠ 0
    · have rest : (Piece.unit ((below % 10 : Nat) : Int)).join total (current + 10 * (below / 10 : Nat)) =
          some (total, current + 10 * (below / 10 : Nat) + (below % 10 : Nat)) := by
        rw [Piece.join, if_pos (by omega)]
      have sum : current + 10 * ((below / 10 : Nat) : Int) + ((below % 10 : Nat) : Int) =
        current + below := by
        omega
      rw [if_pos more, ← sum]
      exact (joinAll_cons decade).trans (joinAll_cons rest)
    · have sum : current + 10 * ((below / 10 : Nat) : Int) = current + below := by omega
      rw [if_neg more, ← sum]
      exact joinAll_cons decade
  · rw [if_neg large]
    by_cases teen : 10 < below
    · have unit : (Piece.unit ((below - 10 : Nat) : Int)).join total current =
          some (total, current + (below - 10 : Nat)) := by
        rw [Piece.join, if_pos units]
      have ten : Piece.ten.join total (current + (below - 10 : Nat)) =
          some (total, current + (below - 10 : Nat) + 10) := by
        rw [Piece.join, if_pos (by omega)]
      have sum : current + ((below - 10 : Nat) : Int) + 10 = current + below := by omega
      rw [if_pos teen, ← sum]
      exact (joinAll_cons unit).trans (joinAll_cons ten)
    · rw [if_neg teen]
      by_cases ten : below = 10
      · obtain rfl := first ten
        subst ten
        rfl
      · rw [if_neg ten]
        by_cases unit : 0 < below
        · have read : (Piece.unit (below : Int)).join total current = some (total, current + below) := by
            rw [Piece.join, if_pos units]
          rw [if_pos unit]
          exact joinAll_cons read
        · obtain rfl : below = 0 := by omega
          rw [if_neg unit]
          simp [joinAll]

/-- **The pieces of a number, joined, are the number.** -/
theorem joins_pieces {n : Nat} (small : n ≤ 999) (readable : n ≠ 110 ∧ n ≠ 210) :
    ∃ t c, joinAll (pieces n) 0 0 = some (t, c) ∧ t + c = n := by
  have hundreds := joins_hundreds (h := n / 100) (by omega)
  by_cases word : n / 100 ≤ 2
  · rw [if_pos word] at hundreds
    refine ⟨0, 100 * (n / 100 : Nat) + (n % 100 : Nat), ?_, by omega⟩
    exact (joinAll_append hundreds).trans (joins_below (by omega) (by omega) (by omega))
  · rw [if_neg word] at hundreds
    refine ⟨100 * (n / 100 : Nat), 0 + (n % 100 : Nat), ?_, by omega⟩
    exact (joinAll_append hundreds).trans (joins_below (by omega) rfl (fun _ => rfl))

end Pieces

section Said

/-- The units and teens of a gender. -/
def unitsOf (gender : Gender) : List String := if gender = .masculine then unitsM else unitsF

def teensOf (gender : Gender) : List String := if gender = .masculine then teensM else teensF

/-- The words of a number as it is said. -/
def saidWords (n : Nat) (gender : Gender) : List String := splitWhitespace (numberWords n gender)

/-- The words of a part, which may have taken a vav. -/
def partWords (vav : Bool) (part : String) : List String :=
  splitWhitespace (if vav then "ו" ++ part else part)

/-- A part is heard as pieces, as it stands at the beginning and with a vav after others. -/
def HeardPart (part : String) (ps : List Piece) : Prop :=
  ps ≠ [] ∧ heardAll false (partWords false part) = ps.map some ∧
    heardAll true (partWords false part) = ps.map some ∧
    heardAll true (partWords true part) = ps.map some

instance (part : String) (ps : List Piece) : Decidable (HeardPart part ps) := by
  unfold HeardPart
  infer_instance

theorem heardPart_hundreds : ∀ h < 10, 0 < h → HeardPart (hundreds.getD h "") (hundredsPieces h) := by
  decide +kernel

theorem heardPart_tens : ∀ t < 10, 2 ≤ t → HeardPart (tens.getD t "") [.tens (10 * t)] := by
  decide

theorem heardPart_units (gender : Gender) :
    ∀ u < 10, 0 < u → HeardPart ((unitsOf gender).getD u "") [.unit u] := by
  cases gender <;> decide

theorem heardPart_teens (gender : Gender) :
    ∀ u < 10, HeardPart ((teensOf gender).getD u "") (if u = 0 then [.ten] else [.unit u, .ten]) := by
  cases gender <;> decide +kernel

/-- The parts of a number below a thousand, with the pieces of each. -/
theorem heard_numberParts {n : Nat} (small : n ≤ 999) (gender : Gender) :
    ∃ pss, List.Forall₂ HeardPart (numberParts n gender) pss ∧ pss.flatten = pieces n := by
  have parts : numberParts n gender = (if 100 ≤ n then [hundreds.getD (n / 100) ""] else []) ++
      (if 20 ≤ n % 100 then tens.getD (n % 100 / 10) "" ::
        (if n % 100 % 10 ≠ 0 then [(unitsOf gender).getD (n % 100 % 10) ""] else [])
      else if 10 ≤ n % 100 then [(teensOf gender).getD (n % 100 - 10) ""]
      else if 0 < n % 100 then [(unitsOf gender).getD (n % 100) ""] else []) := by
    have rest : n % 1000 = n := by omega
    have few : ¬1000 ≤ n := by omega
    unfold numberParts
    cases gender with
    | masculine => simp only [rest, if_neg few, List.nil_append]; rfl
    | feminine => simp only [rest, if_neg few, List.nil_append]; rfl
  have hundreds' : ∃ pss, List.Forall₂ HeardPart
    (if 100 ≤ n then [hundreds.getD (n / 100) ""] else []) pss ∧
      pss.flatten = hundredsPieces (n / 100) := by
    by_cases some' : 100 ≤ n
    · rw [if_pos some']
      exact ⟨[_], .cons (heardPart_hundreds (n / 100) (by omega) (by omega)) .nil, by simp⟩
    · have none' : n / 100 = 0 := by omega
      rw [if_neg some', none']
      exact ⟨[], .nil, rfl⟩
  have below : ∃ pss, List.Forall₂ HeardPart
      (if 20 ≤ n % 100 then tens.getD (n % 100 / 10) "" ::
        (if n % 100 % 10 ≠ 0 then [(unitsOf gender).getD (n % 100 % 10) ""] else [])
      else if 10 ≤ n % 100 then [(teensOf gender).getD (n % 100 - 10) ""]
      else if 0 < n % 100 then [(unitsOf gender).getD (n % 100) ""] else []) pss ∧
      pss.flatten = belowPieces (n % 100) := by
    unfold belowPieces
    by_cases large : 20 ≤ n % 100
    · have decade := heardPart_tens (n % 100 / 10) (by omega) (by omega)
      rw [if_pos large, if_pos large]
      by_cases more : n % 100 % 10 ≠ 0
      · rw [if_pos more, if_pos more]
        exact ⟨[_, _], .cons decade (.cons (heardPart_units gender _ (by omega) (by omega)) .nil), rfl⟩
      · rw [if_neg more, if_neg more]
        exact ⟨[_], .cons decade .nil, rfl⟩
    · rw [if_neg large, if_neg large]
      by_cases teen : 10 ≤ n % 100
      · have heard := heardPart_teens gender (n % 100 - 10) (by omega)
        rw [if_pos teen]
        refine ⟨[_], .cons heard .nil, ?_⟩
        by_cases ten : n % 100 = 10
        · rw [ten]
          rfl
        · rw [if_neg (by omega : ¬n % 100 - 10 = 0), if_pos (by omega : 10 < n % 100)]
          rfl
      · rw [if_neg teen, if_neg (by omega : ¬10 < n % 100), if_neg (by omega : ¬n % 100 = 10)]
        by_cases unit : 0 < n % 100
        · rw [if_pos unit, if_pos unit]
          exact ⟨[_], .cons (heardPart_units gender _ (by omega) unit) .nil, rfl⟩
        · rw [if_neg unit, if_neg unit]
          exact ⟨[], .nil, rfl⟩
  obtain ⟨hs, heardHundreds, sameHundreds⟩ := hundreds'
  obtain ⟨bs, heardBelow, sameBelow⟩ := below
  refine ⟨hs ++ bs, ?_, ?_⟩
  · rw [parts]
    exact List.rel_append heardHundreds heardBelow
  · rw [List.flatten_append, sameHundreds, sameBelow]
    rfl

theorem heardAll_append (started : Bool) (xs ys : List String) (some' : xs ≠ [] ∨ started = true) :
    heardAll started (xs ++ ys) = heardAll started xs ++ heardAll true ys := by
  induction xs generalizing started with
  | nil =>
    rcases some' with absurd' | rfl
    · exact absurd rfl absurd'
    · rfl
  | cons x xs ih =>
    rw [List.cons_append, heardAll, heardAll, ih true (.inr rfl)]
    rfl

/-- The words of the parts, with a vav on the last of them. -/
def vavWords : List String → List String
  | [] => []
  | [last] => partWords true last
  | part :: next :: parts => partWords false part ++ vavWords (next :: parts)

theorem vavWords_eq (parts : List String) {last : String} (ends : parts.getLast? = some last) :
    (parts.dropLast ++ ["ו" ++ last]).flatMap splitWhitespace = vavWords parts := by
  induction parts with
  | nil => cases ends
  | cons part parts ih =>
    cases parts with
    | nil =>
      obtain rfl := Option.some.inj ends
      simp [vavWords, partWords]
    | cons next parts =>
      rw [vavWords, ← ih ends]
      rfl

variable {parts : List String} {pss : List (List Piece)}

theorem heard_vavWords (heard : List.Forall₂ HeardPart parts pss) :
    heardAll true (vavWords parts) = pss.flatten.map some := by
  induction heard with
  | nil => rfl
  | @cons part ps parts pss first rest ih =>
    cases rest with
    | nil =>
      rw [vavWords, first.2.2.2]
      simp
    | cons next rest =>
      rw [vavWords, heardAll_append true _ _ (.inr rfl), first.2.2.1, ih]
      simp

/-- **Parts that were joined are heard as their pieces.** -/
theorem heard_joinParts (heard : List.Forall₂ HeardPart parts pss) :
    heardAll false (splitWhitespace (joinParts parts)) = pss.flatten.map some := by
  cases heard with
  | nil => rfl
  | @cons part ps parts pss first rest =>
    have own := first.2.1
    cases rest with
    | nil =>
      have single : joinParts [part] = part := by simp [joinParts, join]
      rw [single]
      simpa [partWords] using own
    | @cons next qs parts pss second rest =>
      have nonempty : partWords false part ≠ [] := by
        intro empty
        rw [empty] at own
        exact first.1 (List.map_eq_nil_iff.mp own.symm)
      obtain ⟨last, ends⟩ : ∃ last, (part :: next :: parts).getLast? = some last := ⟨_, rfl⟩
      have joined : joinParts (part :: next :: parts) =
          join " " ((part :: next :: parts).dropLast ++ ["ו" ++ last]) := by
        unfold joinParts
        rw [ends]
        rfl
      rw [joined, splitWhitespace_join, vavWords_eq _ ends, vavWords,
        heardAll_append false _ _ (.inl nonempty),
        own, heard_vavWords (.cons second rest)]
      simp

/-- **What was said is heard as the number's pieces.** -/
theorem heard_saidWords {n : Nat} (some' : 1 ≤ n) (small : n ≤ 999) (gender : Gender) :
    heardAll false (saidWords n gender) = (pieces n).map some := by
  obtain ⟨pss, heard, same⟩ := heard_numberParts small gender
  have said : numberWords n gender = joinParts (numberParts n gender) := by
    unfold numberWords
    rw [if_neg (by omega), if_neg (by omega)]
    rfl
  rw [saidWords, said, heard_joinParts heard, same]

end Said

section Among

/-- A word that is no number word and no numeral, and no number word behind a vav. -/
def Stranger (tok : String) : Prop :=
  piece tok = none ∧ ∀ p, (stripPrefix tok "ו").bind piece = some p → ∃ v, p = .digits v

instance (tok : String) : Decidable (Stranger tok) :=
  decidable_of_iff (piece tok = none ∧ (match (stripPrefix tok "ו").bind piece with
    | none | some (.digits _) => true
    | _ => false) = true) <| by
    unfold Stranger
    cases (stripPrefix tok "ו").bind piece with
    | none => simp
    | some p => cases p <;> simp

variable {ws before after toks : List String} {ps : List Piece} {total current t c : Int}

theorem compound_cons (tok : String) (started : Bool) (total current : Int) (used : Nat) :
    compound (tok :: toks) started total current used =
      match (heardAs started tok).bind fun p => p.join total current with
      | some (total, current) => compound toks true total current (used + 1)
      | none => (used, total + current) := by
  rw [compound]
  rfl

/-- A stranger ends a number. -/
theorem Stranger.ends {tok : String} (stranger : Stranger tok) (started : Bool) (total current : Int) :
    ((heardAs started tok).bind fun p => p.join total current) = none := by
  unfold heardAs
  rw [stranger.1]
  cases started with
  | false => rfl
  | true =>
    show ((stripPrefix tok "ו").bind piece).bind _ = none
    cases read : (stripPrefix tok "ו").bind piece with
    | none => rfl
    | some p =>
      obtain ⟨v, rfl⟩ := stranger.2 p read
      rfl

/-- **A compound number is read to its end**: its words, heard as pieces that all join, and no more. -/
theorem compound_said {started : Bool} {used : Nat} (heard : heardAll started ws = ps.map some)
    (joins : joinAll ps total current = some (t, c)) (strangers : ∀ tok ∈ after, Stranger tok) :
    compound (ws ++ after) started total current used = (used + ws.length, t + c) := by
  induction ws generalizing started total current used ps with
  | nil =>
    obtain rfl := List.map_eq_nil_iff.mp heard.symm
    obtain ⟨rfl, rfl⟩ := Prod.mk.inj (Option.some.inj joins)
    cases after with
    | nil => rfl
    | cons tok after =>
      have ends := (strangers tok List.mem_cons_self).ends started total current
      rw [List.nil_append, compound_cons, ends]
      rfl
  | cons w ws ih =>
    cases ps with
    | nil => cases heard
    | cons p ps =>
      obtain ⟨first, rest⟩ := List.cons.inj heard
      obtain ⟨⟨t', c'⟩, one, more⟩ := Option.bind_eq_some_iff.mp joins
      rw [List.cons_append, compound_cons, first, Option.bind_some, one]
      dsimp only
      rw [ih rest more, List.length_cons]
      congr 1
      omega

theorem scanNumbers_strangers (strangers : ∀ tok ∈ before, Stranger tok) (i : Nat) :
    scanNumbers (before ++ toks) i 0 = scanNumbers toks (i + before.length) 0 := by
  induction before generalizing i with
  | nil => rfl
  | cons tok before ih =>
    have none' := (strangers tok List.mem_cons_self).1
    rw [List.cons_append, scanNumbers, none']
    dsimp only
    rw [ih (fun tok listed => strangers tok (List.mem_cons_of_mem _ listed)), List.length_cons]
    congr 1
    omega

theorem scanNumbers_skip (i : Nat) : scanNumbers (ws ++ toks) i ws.length = scanNumbers toks
    (i + ws.length) 0 := by
  induction ws generalizing i with
  | nil => rfl
  | cons w ws ih =>
    rw [List.cons_append, List.length_cons, scanNumbers, ih]
    congr 1
    omega

theorem scanNumbers_none (strangers : ∀ tok ∈ after, Stranger tok) (i : Nat) :
    scanNumbers after i 0 = [] := by
  have all : scanNumbers (after ++ []) i 0 = scanNumbers [] (i + after.length) 0 :=
    scanNumbers_strangers strangers i
  rw [List.append_nil] at all
  exact all

/-- The pieces a number may begin with. -/
def Piece.Starts (p : Piece) : Prop := p ≠ .hundreds ∧ ∀ v, p ≠ .digits v

theorem pieces_start {n : Nat} (some' : 1 ≤ n) (small : n ≤ 999) :
    ∃ p ps, pieces n = p :: ps ∧ p.Starts := by
  unfold pieces hundredsPieces
  by_cases none' : n / 100 = 0
  · rw [if_pos none']
    unfold belowPieces
    by_cases large : 20 ≤ n % 100
    · rw [if_pos large]
      exact ⟨_, _, rfl, by simp [Piece.Starts]⟩
    · by_cases teen : 10 < n % 100
      · rw [if_neg large, if_pos teen]
        exact ⟨_, _, rfl, by simp [Piece.Starts]⟩
      · by_cases ten : n % 100 = 10
        · rw [if_neg large, if_neg teen, if_pos ten]
          exact ⟨_, _, rfl, by simp [Piece.Starts]⟩
        · rw [if_neg large, if_neg teen, if_neg ten, if_pos (by omega)]
          exact ⟨_, _, rfl, by simp [Piece.Starts]⟩
  · rw [if_neg none']
    split
    · exact ⟨_, _, rfl, by simp [Piece.Starts]⟩
    · exact ⟨_, _, rfl, by simp [Piece.Starts]⟩

/-- A number that begins here is found with its words, and the scan goes on after them. -/
theorem scanNumbers_cons {tok : String} {p : Piece} {used : Nat} {value : Int}
    (read : heardAs false tok = some p)
    (starts : p.Starts) (whole : compound (tok :: toks) false 0 0 0 = (used + 1, value)) (i : Nat) :
    scanNumbers (tok :: toks) i 0 = ⟨value, i, i + used + 1⟩ :: scanNumbers toks (i + 1) used := by
  have own : piece tok = some p := by
    unfold heardAs at read
    cases known : piece tok with
    | none =>
      rw [known] at read
      cases read
    | some q =>
      rw [known] at read
      exact read
  rw [scanNumbers, own]
  cases p with
  | hundreds => exact absurd rfl starts.1
  | digits v => exact absurd rfl (starts.2 v)
  | unit u => rw [whole]; rfl
  | ten => rw [whole]; rfl
  | tens t => rw [whole]; rfl
  | hundred h => rw [whole]; rfl

/-- **A number that was said is found**: among strangers, it is the one number, and its words are
its own. -/
theorem findNumbers_said {n : Nat} (some' : 1 ≤ n) (small : n ≤ 999) (readable : n ≠ 110 ∧ n ≠ 210)
    (gender : Gender) (strangers : ∀ tok ∈ before ++ after, Stranger tok) :
    findNumbers (before ++ saidWords n gender ++ after) =
      [⟨n, before.length, before.length + (saidWords n gender).length⟩] := by
  have heard := heard_saidWords some' small gender
  obtain ⟨t, c, joins, sum⟩ := joins_pieces small readable
  obtain ⟨p, ps, first, starts⟩ := pieces_start some' small
  have around : ∀ tok ∈ after, Stranger tok :=
    fun tok listed => strangers tok (List.mem_append_right _ listed)
  have whole : compound (saidWords n gender ++ after) false 0 0 0 =
    (0 + (saidWords n gender).length, t + c) :=
    compound_said heard joins around
  rw [findNumbers, List.append_assoc,
    scanNumbers_strangers (fun tok listed => strangers tok (List.mem_append_left _ listed)), Nat.zero_add]
  cases said : saidWords n gender with
  | nil =>
    rw [said, first] at heard
    cases heard
  | cons w ws =>
    rw [said, first] at heard
    rw [said, sum, Nat.zero_add, List.cons_append] at whole
    have read : heardAs false w = some p := (List.cons.inj heard).1
    rw [List.cons_append, scanNumbers_cons read starts whole, scanNumbers_skip, scanNumbers_none around]
    rfl

/-- **A hundred and ten is heard as a hundred**, and so with two hundred: the ten is not taken. -/
theorem findNumbers_ten (after : List String) {n h : Nat} (read : pieces n = [.hundred h, .ten])
    (whole : (h : Int) % 100 = 0)
    (some' : h ≠ 0) (one : 1 ≤ n) (small : n ≤ 999) (gender : Gender)
    (strangers : ∀ tok ∈ before, Stranger tok) :
    ∃ later, findNumbers (before ++ saidWords n gender ++ after) =
      ⟨h, before.length, before.length + 1⟩ :: later := by
  have heard := heard_saidWords one small gender
  rw [read] at heard
  rw [findNumbers, List.append_assoc, scanNumbers_strangers strangers, Nat.zero_add]
  cases said : saidWords n gender with
  | nil =>
    rw [said] at heard
    cases heard
  | cons w ws =>
    rw [said] at heard
    obtain ⟨hundred, rest⟩ := List.cons.inj heard
    cases ws with
    | nil => cases rest
    | cons w' ws =>
      have ten : heardAs true w' = some .ten := (List.cons.inj rest).1
      have alone : compound (w :: w' :: (ws ++ after)) false 0 0 0 = (0 + 1, (h : Int)) := by
        have taken : (Piece.hundred h).join 0 0 = some (0, (h : Int)) := rfl
        have refused : Piece.ten.join 0 (h : Int) = none := by
          rw [Piece.join, if_neg (by omega), if_neg (by omega)]
        rw [compound_cons, hundred, Option.bind_some, taken]
        dsimp only
        rw [compound_cons, ten, Option.bind_some, refused]
        simp
      exact ⟨_, scanNumbers_cons hundred (by simp [Piece.Starts]) alone before.length⟩

end Among

section Digits

variable {before after toks ws : List String} {f : FoundNumber}

theorem digitTokens_before (i : Nat) (early : i + before.length ≤ f.start) :
    digitTokens [f] (before ++ toks) i 0 = before ++ digitTokens [f] toks (i + before.length) 0 := by
  induction before generalizing i with
  | nil => rfl
  | cons tok before ih =>
    have other : (f.start == i) = false := by
      rw [List.length_cons] at early
      simp only [beq_eq_false_iff_ne, ne_eq]
      omega
    have rest : i + 1 + before.length = i + (tok :: before).length := by
      rw [List.length_cons]
      omega
    rw [List.cons_append, digitTokens, List.find?_cons, other, ← rest, List.cons_append, ← ih]
    · rfl
    · rw [rest]
      exact early

theorem digitTokens_skip (i : Nat) :
    digitTokens [f] (ws ++ toks) i ws.length = digitTokens [f] toks (i + ws.length) 0 := by
  induction ws generalizing i with
  | nil => rfl
  | cons w ws ih =>
    rw [List.cons_append, List.length_cons, digitTokens, ih]
    congr 1
    omega

theorem digitTokens_after (i : Nat) (late : f.start < i) : digitTokens [f] toks i 0 = toks := by
  induction toks generalizing i with
  | nil => rfl
  | cons tok toks ih =>
    have other : (f.start == i) = false := by
      simp only [beq_eq_false_iff_ne, ne_eq]
      omega
    rw [digitTokens, List.find?_cons, other]
    exact congrArg (tok :: ·) (ih (i + 1) (by omega))

/-- The words of the one number found are replaced by its digits, and nothing else is. -/
theorem digitTokens_found {w : String} (value : Int) :
    digitTokens [⟨value, before.length, before.length + (w :: ws).length⟩]
    (before ++ (w :: ws ++ after)) 0 0 =
      before ++ [toString value] ++ after := by
  rw [digitTokens_before 0 (by simp), Nat.zero_add, List.cons_append, digitTokens, List.find?_cons]
  have here : (before.length == before.length) = true := beq_self_eq_true _
  have rest : max (before.length + (w :: ws).length) (before.length + 1) - (before.length + 1) =
    ws.length := by
    rw [List.length_cons]
    omega
  rw [here]
  dsimp only
  rw [rest, digitTokens_skip, digitTokens_after _ (by dsimp only; omega)]
  simp

end Digits

section Hearing

/-- The commas of a text are put back to the words before them. -/
def closeCommas (text : String) : String := replace (replace text " , " ", ") " ," ","

/-- **A number said among other words is the number heard**: it alone is found, in its own words,
and those words alone are written in digits. -/
def Heard (n : Nat) (gender : Gender) (before after : List String) : Prop :=
  findNumbers (before ++ saidWords n gender ++ after) =
    [⟨n, before.length, before.length + (saidWords n gender).length⟩] ∧
  ∀ text, splitWhitespace (replace text "," " , ") = before ++ saidWords n gender ++ after →
    withDigits text = closeCommas (join " " (before ++ [toString n] ++ after))

/-- **Every number up to 999 is heard as it was said, but a hundred and ten and two hundred and ten.** -/
theorem heard_iff {n : Nat} {before after : List String} (some' : 1 ≤ n) (small : n ≤ 999)
    (gender : Gender)
    (strangers : ∀ tok ∈ before ++ after, Stranger tok) :
    Heard n gender before after ↔ n ≠ 110 ∧ n ≠ 210 := by
  constructor
  · rintro ⟨found, -⟩
    have ahead : ∀ tok ∈ before, Stranger tok :=
      fun tok listed => strangers tok (List.mem_append_left _ listed)
    refine ⟨fun same => ?_, fun same => ?_⟩
    · subst same
      obtain ⟨later, other⟩ :=
        findNumbers_ten after (n := 110) (h := 100) rfl rfl (by omega) some' small gender
        ahead
      rw [other] at found
      have values : ((100 : Nat) : Int) = (110 : Nat) :=
        congrArg FoundNumber.value (List.cons.inj found).1
      exact absurd values (by decide)
    · subst same
      obtain ⟨later, other⟩ :=
        findNumbers_ten after (n := 210) (h := 200) rfl rfl (by omega) some' small gender
        ahead
      rw [other] at found
      have values : ((200 : Nat) : Int) = (210 : Nat) :=
        congrArg FoundNumber.value (List.cons.inj found).1
      exact absurd values (by decide)
  · intro readable
    have found := findNumbers_said some' small readable gender strangers
    refine ⟨found, fun text same => ?_⟩
    unfold withDigits
    dsimp only
    rw [same, found]
    cases said : saidWords n gender with
    | nil =>
      have heard := heard_saidWords some' small gender
      obtain ⟨p, ps, first, -⟩ := pieces_start some' small
      rw [said, first] at heard
      cases heard
    | cons w ws =>
      rw [List.append_assoc, digitTokens_found]
      rfl

/-- A hundred and twenty five, between other words. -/
theorem heard_between : Heard 125 .feminine ["יש", "לנו"] ["תחנות"] :=
  (heard_iff (by decide) (by decide) .feminine (by decide)).mpr (by decide)

/-- A hundred and ten is not heard as it was said. -/
theorem not_heard_hundred_ten : ¬∀ (n : Nat) (gender : Gender) (before after : List String),
    1 ≤ n → n ≤ 999 →
    (∀ tok ∈ before ++ after, Stranger tok) → Heard n gender before after := by
  intro all
  have found := (all 110 .feminine [] [] (by decide) (by decide) (by simp)).1
  have other : findNumbers ([] ++ saidWords 110 .feminine ++ []) = [⟨100, 0, 1⟩] := by
    decide
  rw [other] at found
  exact absurd found (by decide)

end Hearing

end Callora.Text
