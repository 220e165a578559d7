/-
**White space around a text is not said.**

`normalizeHebrew` trims the text at last. Until then each replacement leaves white space at an end
of the text where it is, though some of them take a character before or behind a numeral.

* `Spares.plain`, `Spares.framed` — a replacement of numerals, and of numerals with a character before
  and one behind;
* `sayAll_around` — so all of them together;
* `normalizeHebrew_trim` — a text is read as it is without the white space around it.
-/
import Callora.Library.Edges
import Callora.Text.Recasts

set_option linter.unusedSectionVars false

namespace Callora.Text

open Regex

attribute [local instance] decidableListed

section Inked

variable {r s : Pat} {blank : Char}

/-- **An expression that takes no white space.** -/
def Inked (r : Pat) : Prop := ∀ c, r.takes c = true → isWhitespace c = false

theorem Inked.seq (first : Inked r) (second : Inked s) : Inked (.seq r s) := fun c own =>
  (Bool.or_eq_true_iff.mp own).elim (first c) (second c)

theorem Inked.rep {least : Nat} {more : Option Nat} (inner : Inked r) : Inked (.rep least more r) := inner

theorem Inked.group {name : Nat} (inner : Inked r) : Inked (.group name r) := inner

theorem Inked.oneOf {set : String} (all : ∀ c ∈ set.toList, isWhitespace c = false) :
    Inked (oneOf set) := fun c own => all c (List.contains_iff_mem.mp own)

/-- A visible character of ASCII is no white space. -/
theorem visible_inked {p : Char → Bool} (visible : ∀ c, p c = true → 32 < c.toNat ∧ c.toNat < 127) :
    Inked (.chars p) := by
  intro c own
  have inside := visible c own
  simp only [isWhitespace, Bool.or_eq_false_iff, Bool.and_eq_false_iff, decide_eq_false_iff_not,
    beq_eq_false_iff_ne]
  omega

theorem latin_visible {c : Char} (own : c.isAlphanum = true) : 32 < c.toNat ∧ c.toNat < 127 := by
  rcases Bool.or_eq_true_iff.mp own with letter | digit'
  · have cased : (c.isUpper || c.isLower) = true := letter
    rcases Bool.or_eq_true_iff.mp cased with upper | lower
    · obtain ⟨low, high⟩ := of_decide_eq_true upper
      have low : 65 ≤ c.toNat := low
      have high : c.toNat ≤ 90 := high
      omega
    · obtain ⟨low, high⟩ := Bool.and_eq_true_iff.mp lower
      have low : 97 ≤ c.toNat := of_decide_eq_true low
      have high : c.toNat ≤ 122 := of_decide_eq_true high
      omega
  · obtain ⟨low, high⟩ := Bool.and_eq_true_iff.mp digit'
    have low : 48 ≤ c.toNat := of_decide_eq_true low
    have high : c.toNat ≤ 57 := of_decide_eq_true high
    omega

theorem digit_inked [RegexTables] : Inked digit := by
  intro c own
  by_contra white
  have decimal : isDecimal c = true := own
  rw [isDecimal_space (by simpa using white)] at decimal
  cases decimal

/-- Digits of a range are no white space. -/
theorem range_inked [RegexTables] {first last : Char} (low : '0' ≤ first) (high : last ≤ '9') :
    Inked (range first last) := fun c own => digit_inked c (range_decimal low high own)

theorem Inked.begins {p : Char → Bool} (inked : Inked (.chars p)) :
    Begins (fun c => !isWhitespace c) (.chars p : Pat) :=
  (Begins.chars p).mono fun c own => by rw [inked c own]; rfl

theorem Inked.ends {p : Char → Bool} (inked : Inked (.chars p)) :
    Ends (fun c => !isWhitespace c) (.chars p : Pat) :=
  Ends.chars fun c own => by rw [inked c own]; rfl

theorem Inked.shuns (inked : Inked r) (white : isWhitespace blank = true) : Shuns blank r := by
  refine Shuns.of_takes (Bool.eq_false_iff.mpr fun takes => ?_)
  rw [inked blank takes] at white
  cases white

theorem any_char (p : Char → Bool) : Needs (fun _ => true) 1 (.chars p : Pat) :=
  Needs.chars fun _ _ => rfl

end Inked

section Spares

/-- **A replacement that leaves white space at an end of the text where it is.** -/
structure Spares (r : Pat) (f : Said) : Prop where
  ahead : ∀ blank, isWhitespace blank = true → ∀ cs,
    r.replaceAll f (blank :: cs) = blank :: r.replaceAll f cs
  behind : ∀ blank, isWhitespace blank = true → ∀ cs,
    r.replaceAll f (cs ++ [blank]) = r.replaceAll f cs ++ [blank]

variable {r s : Pat} {f : Said} {p q : Char → Bool} {n : Nat}

/-- A replacement whose matches neither begin nor end with white space. -/
theorem Spares.plain (begins : Begins (fun c => !isWhitespace c) r) (blind : Blind r)
    (ends : Ends (fun c => !isWhitespace c) r)
    (even : ∀ blank, isWhitespace blank = true → Even blank r)
    (same : ∀ blank m, f (m.behind blank) = f m) : Spares r f where
  ahead _ white cs := begins.replaceAll_ahead (by rw [white]; rfl) blind cs
  behind blank white cs :=
    (ends.shuns (by rw [white]; rfl)).replaceAll_behind (even blank white) (same blank) cs

/-- A replacement whose matches have a character before and one behind, white space among them, and
put both back. -/
theorem Spares.framed (own : ∀ c, isWhitespace c = true → p c = true)
    (begins : Begins (fun c => !isWhitespace c) s) (blind : Blind s)
    (closes : ∀ blank, isWhitespace blank = true → Closes blank n s)
    (keeps : ∀ blank cs, ∀ m ∈ s.run none cs, f (m.opened 1 [blank]) = blank :: f (m.opened 1 []))
    (same : ∀ blank m, f (m.behind blank) = f m)
    (more : ∀ blank m groups, m.groups = (n, []) :: groups → f (m.closed blank) = f m ++ [blank]) :
    Spares (.seq (opening 1 p) s) f where
  ahead blank white cs :=
    opening_ahead begins (by rw [white]; rfl) (own blank white) blind (keeps blank) cs
  behind blank white cs := by
    have some' : Needs (fun _ => true) 1 s := by
      intro prev cs m listed
      obtain ⟨c, rest, taken, -⟩ := begins prev cs m listed
      rw [taken, List.countP_true]
      exact Nat.le_add_left 1 _
    have quits : ∀ prev, s.run prev [] = [] := fun _ => some'.run_few Nat.one_pos
    have even : Even blank (opening 1 p) := Even.start.alt (Even.chars p)
    exact ((closes blank white).seq even (.inr quits)).replaceAll_behind
      (((Needs.none _).seq some').mono (by decide)) (same blank) (fun _ _ m _ => more blank m) cs

end Spares

section Plain

variable [RegexTables] {blank : Char}

theorem space_even : Even blank (.star space) := (Even.chars _).rep (any_char _)

theorem cents_even : Even blank centsPattern :=
  ((Even.chars _).seq (Even.chars _).bounded.group).bounded

theorem cents_blind : Blind centsPattern := ((Blind.chars _).seq (Blind.chars _).rep.group).rep

theorem digits_begin {least : Nat} {more : Option Nat} :
    Begins (fun c => !isWhitespace c) (.rep (least + 1) more digit) := digit_inked.begins.rep

theorem digits_end {least : Nat} {more : Option Nat} :
    Ends (fun c => !isWhitespace c) (.rep (least + 1) more digit) := digit_inked.ends.rep

theorem moneyBefore_spares : Spares moneyBefore sayMoney := by
  refine .plain ((Inked.oneOf (by decide)).begins.seq _) ?_ ?_ (fun blank _ => ?_) fun _ _ => rfl
  · exact (Blind.chars _).seq ((Blind.chars _).rep.seq ((Blind.chars _).rep.group.seq cents_blind))
  · exact .seq _ (.seq _ (.seqRep digits_end.group (.seq _ digits_end.group)))
  · exact (Even.chars _).seq (space_even.seq ((Even.chars _).bounded.group.seq cents_even))

/-- White space after "שח" is the end of the word. -/
theorem shekel_even (edge : isWord blank = false) : Even blank shekel := by
  have same : Even blank wordEdge := fun prev => by
    show (prev.any isWord != false) = (prev.any isWord != isWord blank)
    rw [edge]
  exact (Even.chars _).alt ((Even.lit _).alt ((Even.lit _).alt ((Even.lit _).seq same)))

theorem shekel_ends : Ends (fun c => !isWhitespace c) shekel := by
  have word : Ends (fun c => !isWhitespace c) (.seq (text "שח") wordEdge) := by
    intro prev cs m listed
    obtain ⟨a, one, b, two, rfl⟩ := mem_seq.mp listed
    obtain ⟨-, rfl⟩ := mem_look.mp two
    rw [Match.andThen, run_lit a one]
    exact ⟨'ח', rfl, rfl⟩
  exact (Inked.oneOf (by decide)).ends.alt ((Ends.lit ⟨'ח', rfl, rfl⟩).alt
    ((Ends.lit ⟨'ח', rfl, rfl⟩).alt word))

theorem moneyAfter_spares (edges : ∀ c, isWhitespace c = true → isWord c = false) :
    Spares moneyAfter sayMoney := by
  have blind : Blind shekel := (Blind.chars _).alt ((Blind.lit _).alt ((Blind.lit _).alt
    ((Blind.lit _).after (Needs.lit rfl) _)))
  refine .plain (digits_begin.group.seq _) ?_ (.seq _ (.seq _ (.seq _ shekel_ends)))
    (fun blank white => ?_) fun _ _ => rfl
  · exact (Blind.chars _).rep.group.seq (cents_blind.seq ((Blind.chars _).rep.seq blind))
  · exact (Even.chars _).bounded.group.seq
      (cents_even.seq (space_even.seq (shekel_even (edges blank white))))

theorem percent_spares : Spares percent sayPercent := by
  refine .plain (digits_begin.group.seq _) ?_ (.seq _ (.seq _ (Inked.oneOf (by decide)).ends))
    (fun blank _ => ?_) fun _ _ => rfl
  · exact (Blind.chars _).rep.group.seq ((Blind.chars _).rep.seq (Blind.chars _))
  · exact (Even.chars _).bounded.group.seq (space_even.seq (Even.chars _))

theorem number_spares : Spares number sayNumber :=
  .plain digits_begin (Blind.chars _).rep digits_end (fun _ _ => (Even.chars _).rep (any_char _))
    fun _ _ => rfl

end Plain

section Announced

variable [RegexTables] {blank : Char}

/-- A word that is announced, with an article before it or without. -/
theorem article_begins {c : Char} {word : List Char} (inked : isWhitespace c = false) :
    Begins (fun c => !isWhitespace c) (.seq (.opt (oneOf "ה")) (.lit (c :: word)) : Pat) :=
  (Inked.oneOf (by decide)).begins.opt (Begins.lit (by rw [inked]; rfl))

theorem article_blind (word : List Char) : Blind (.seq (.opt (oneOf "ה")) (.lit word) : Pat) :=
  (Blind.chars _).rep.seq (Blind.lit word)

theorem article_even (word : List Char) : Even blank (.seq (.opt (oneOf "ה")) (.lit word) : Pat) :=
  (Even.chars _).bounded.seq (Even.lit word)

theorem announcement_begins : Begins (fun c => !isWhitespace c) announcement := by
  have file : Begins (fun c => !isWhitespace c)
      (.seqs [.opt (oneOf "ה"), text "תיק", .opt (.seqs [oneOf " ", .opt (oneOf "ה"), text "שירות"])]) :=
    (Inked.oneOf (by decide)).begins.opt ((Begins.lit (by decide)).seq _)
  have plain : Begins (fun c => !isWhitespace c) (.alts (text "קוד") [text "order", text "tracking"]) :=
    (Begins.lit (by decide)).alt ((Begins.lit (by decide)).alt (Begins.lit (by decide)))
  exact (article_begins (by decide)).alt ((article_begins (by decide)).alt (file.alt
    ((article_begins (by decide)).alt ((article_begins (by decide)).alt
      ((article_begins (by decide)).alt plain)))))

theorem announcement_blind : Blind announcement := by
  have file : Blind
      (.seqs [.opt (oneOf "ה"), text "תיק", .opt (.seqs [oneOf " ", .opt (oneOf "ה"), text "שירות"])]) :=
    (Blind.chars _).rep.seq ((Blind.lit _).seq ((Blind.chars _).seq (article_blind _)).rep)
  have plain : Blind (.alts (text "קוד") [text "order", text "tracking"]) :=
    (Blind.lit _).alt ((Blind.lit _).alt (Blind.lit _))
  exact (article_blind _).alt
    ((article_blind _).alt (file.alt ((article_blind _).alt ((article_blind _).alt
    ((article_blind _).alt plain)))))

theorem announcement_even : Even blank announcement := by
  have file : Even blank
      (.seqs [.opt (oneOf "ה"), text "תיק", .opt (.seqs [oneOf " ", .opt (oneOf "ה"), text "שירות"])]) :=
    (Even.chars _).bounded.seq ((Even.lit _).seq ((Even.chars _).seq (article_even _)).bounded)
  have plain : Even blank (.alts (text "קוד") [text "order", text "tracking"]) :=
    (Even.lit _).alt ((Even.lit _).alt (Even.lit _))
  exact (article_even _).alt ((article_even _).alt (file.alt ((article_even _).alt ((article_even _).alt
    ((article_even _).alt plain)))))

theorem announcementWords_blind : Blind announcementWords :=
  ((Blind.chars _).rep.seq ((Blind.lit _).alt ((Blind.lit _).alt ((Blind.lit _).alt ((Blind.lit _).alt
    ((Blind.lit _).alt
      ((Blind.lit _).alt ((Blind.chars _).alt (((Blind.lit _).seq (Blind.chars _).rep).alt
      (Blind.lit _)))))))))).rep

theorem announcementWords_even : Even blank announcementWords :=
  (((Even.chars _).rep (any_char _)).seq ((Even.lit _).alt ((Even.lit _).alt ((Even.lit _).alt
    ((Even.lit _).alt ((Even.lit _).alt ((Even.lit _).alt ((Even.chars _).alt
      (((Even.lit _).seq (Even.chars _).bounded).alt (Even.lit _)))))))))).rep
    (((any_char _).rep.seq (Needs.none _)).mono (by decide))

theorem identifierText_ends : Ends (fun c => !isWhitespace c) identifierText := by
  have tail : Inked (.chars fun c => c.isAlphanum || c == '-') := by
    refine visible_inked fun c own => ?_
    rcases Bool.or_eq_true_iff.mp own with word | dash
    · exact latin_visible word
    · obtain rfl := eq_of_beq dash
      decide
  exact .seq _ (.seq _ (.seq _ tail.ends.rep))

theorem identifier_spares : Spares identifier sayIdentifier := by
  refine .plain ((announcement_begins.seq _).group.seq _) ?_ (.seq _ identifierText_ends.group)
    (fun blank _ => ?_) fun _ _ => rfl
  · exact (announcement_blind.seq (announcementWords_blind.seq ((Blind.chars _).rep.seq
      ((Blind.chars _).rep.seq (Blind.chars _).rep)))).group.seq
        ((Blind.chars _).rep.seq
          ((Blind.chars _).rep.seq ((Blind.chars _).seq (Blind.chars _).rep))).group
  · have words : Even blank
        (.seqs [announcement, announcementWords, .star space, .opt (oneOf ":#"), .star space]) :=
      announcement_even.seq (announcementWords_even.seq (space_even.seq
        ((Even.chars _).bounded.seq space_even)))
    have text : Even blank identifierText :=
      (Even.chars _).bounded.seq ((Even.chars _).bounded.seq ((Even.chars _).seq
        ((Even.chars _).rep (any_char _))))
    exact words.group.seq text.group

end Announced

section Framed

variable [RegexTables] {m : Match Char Nat} {k n : Nat}

theorem groupText_opened (unnamed : m.get 1 = none) (text : List Char) :
    groupText (m.opened 1 text) 1 = text := by
  rw [groupText, get_opened unnamed]
  rfl

theorem groupText_opened_other (other : (k == 1) = false) (text : List Char) :
    groupText (m.opened 1 text) k = groupText m k := by
  rw [groupText, get_opened_other other, groupText]

theorem groupText_closed {groups : List (Nat × List Char)} (own : m.groups = (n, []) :: groups)
    (blank : Char) : groupText (m.closed blank) n = groupText m n ++ [blank] := by
  have none' : m.get n = some [] := by
    unfold Match.get
    rw [own, List.lookup_cons_self]
  rw [groupText, get_closed own, groupText, none']
  rfl

theorem groupText_closed_other {groups : List (Nat × List Char)} (own : m.groups = (n, []) :: groups)
    (other : (k == n) = false) (blank : Char) : groupText (m.closed blank) k = groupText m k := by
  rw [groupText, get_closed_other own other, groupText]

theorem phoneGap_blind : Blind phoneGap := (Blind.chars _).rep

theorem phoneGap_even {blank : Char} : Even blank phoneGap := (Even.chars _).bounded

theorem phoneNumber_begins : Begins (fun c => !isWhitespace c)
    (.alts subscriberNumber [tollFreeNumber]) := by
  have country : Begins (fun c => !isWhitespace c) (.seqs [text "+972", phoneGap]) :=
    (Begins.lit (by decide)).seq _
  exact ((country.alt (Inked.oneOf (by decide)).begins).seq _).alt
    ((Inked.oneOf (by decide)).begins.seq _)

theorem phoneNumber_blind : Blind (.alts subscriberNumber [tollFreeNumber]) := by
  have area : Blind (.alts (.seqs [oneOf "5", digit]) [.seqs [oneOf "7", digit], oneOf "23489"]) :=
    ((Blind.chars _).seq (Blind.chars _)).alt (((Blind.chars _).seq (Blind.chars _)).alt (Blind.chars _))
  have subscriber : Blind subscriberNumber :=
    (((Blind.lit _).seq phoneGap_blind).alt (Blind.chars _)).seq
      (area.seq (phoneGap_blind.seq (Blind.chars _)).rep)
  have tollFree : Blind tollFreeNumber :=
    (Blind.chars _).seq (phoneGap_blind.seq ((Blind.chars _).seq ((Blind.lit _).seq (phoneGap_blind.seq
      ((Blind.chars _).rep.seq (phoneGap_blind.seq (Blind.chars _).rep))))))
  exact subscriber.alt tollFree

theorem phoneNumber_even {blank : Char} : Even blank (.alts subscriberNumber [tollFreeNumber]) := by
  have area : Even blank (.alts (.seqs [oneOf "5", digit]) [.seqs [oneOf "7", digit], oneOf "23489"]) :=
    ((Even.chars _).seq (Even.chars _)).alt (((Even.chars _).seq (Even.chars _)).alt (Even.chars _))
  have subscriber : Even blank subscriberNumber :=
    (((Even.lit _).seq phoneGap_even).alt (Even.chars _)).seq
      (area.seq (phoneGap_even.seq (Even.chars _)).bounded)
  have tollFree : Even blank tollFreeNumber :=
    (Even.chars _).seq (phoneGap_even.seq ((Even.chars _).seq ((Even.lit _).seq (phoneGap_even.seq
      ((Even.chars _).bounded.seq (phoneGap_even.seq (Even.chars _).bounded))))))
  exact subscriber.alt tollFree

/-- A phone number ends with a digit. -/
theorem phoneNumber_ends : Ends (fun c => !isWhitespace c) (.alts subscriberNumber [tollFreeNumber]) := by
  have subscriber : Ends (fun c => !isWhitespace c) subscriberNumber :=
    .seq _ (.seq _ (Ends.seq _ digit_inked.ends).rep)
  exact subscriber.alt
    (.seq _ (.seq _ (.seq _ (.seq _ (.seq _ (.seq _ (.seq _ digits_end)))))))

/-- White space is no digit, and none of the marks of a number. -/
theorem white_apart {marks : List Char} (inked : ∀ c ∈ marks, isWhitespace c = false) {c : Char}
    (white : isWhitespace c = true) : isDecimal c = false ∧ ∀ mark ∈ marks, (c == mark) = false := by
  refine ⟨isDecimal_space white, fun mark listed => beq_eq_false_iff_ne.mpr ?_⟩
  rintro rfl
  rw [inked c listed] at white
  cases white

theorem phone_spares : Spares phone sayPhone := by
  have apart : ∀ c, isWhitespace c = true → (!(isDecimal c || c == '+')) = true := by
    intro c white
    obtain ⟨digit', plus⟩ := @white_apart _ ['+'] (by decide) c white
    rw [digit', plus '+' List.mem_cons_self]
    rfl
  refine Spares.framed (n := 3) apart (phoneNumber_begins.group.seq _) ?_ (fun blank white => ?_)
    (fun blank cs m listed => ?_) (fun _ _ => rfl) fun blank m groups own => ?_
  · exact phoneNumber_blind.group.seq ((Blind.chars _).alt Blind.stop).group
  · exact .seq phoneNumber_even.group (.inl (phoneNumber_ends.group.shuns (by rw [white]; rfl)))
      (.closing (by rw [isDecimal_space white]; rfl))
  · have unnamed : m.get 1 = none := run_get_none rfl _ _ m listed
    simp only [sayPhone, groupText_opened unnamed, groupText_opened_other (k := 2) rfl,
      groupText_opened_other (k := 3) rfl]
    rfl
  · rw [sayPhone, sayPhone, groupText_closed own, groupText_closed_other own rfl,
      groupText_closed_other own rfl, ← List.append_assoc]

theorem nonDigit_white (c : Char) (white : isWhitespace c = true) : (!isDecimal c) = true := by
  rw [isDecimal_space white]
  rfl

theorem time_spares : Spares time sayTime := by
  have hour : Begins (fun c => !isWhitespace c) hourText :=
    ((Inked.oneOf (by decide)).begins.opt digit_inked.begins).alt ((Inked.oneOf (by decide)).begins.seq _)
  refine Spares.framed (n := 4) nonDigit_white (hour.group.seq _) ?_ (fun blank white => ?_)
    (fun blank cs m listed => ?_) (fun _ _ => rfl) fun blank m groups own => ?_
  · have hour : Blind hourText :=
      ((Blind.chars _).rep.seq (Blind.chars _)).alt ((Blind.chars _).seq (Blind.chars _))
    have minute : Blind minuteText := (Blind.chars _).seq (Blind.chars _)
    exact hour.group.seq ((Blind.chars _).seq (minute.group.seq ((Blind.chars _).alt Blind.stop).group))
  · have apart : (!isWhitespace blank) = false := by rw [white]; rfl
    have hourEnds : Ends (fun c => !isWhitespace c) hourText :=
      (Ends.seq _ digit_inked.ends).alt (.seq _ (range_inked (by decide) (by decide)).ends)
    have minuteEnds : Ends (fun c => !isWhitespace c) minuteText := .seq _ digit_inked.ends
    have hour : Even blank hourText :=
      ((Even.chars _).bounded.seq (Even.chars _)).alt ((Even.chars _).seq (Even.chars _))
    have minute : Even blank minuteText := (Even.chars _).seq (Even.chars _)
    have closes : Closes blank 4 (closing 4 fun c => !isDecimal c) :=
      .closing (nonDigit_white blank white)
    have colon : Shuns blank (oneOf ":") := (Inked.oneOf (by decide)).shuns white
    exact .seq hour.group (.inl (hourEnds.group.shuns apart))
      (.seq (Even.chars _) (.inl colon) (.seq minute.group (.inl (minuteEnds.group.shuns apart)) closes))
  · have unnamed : m.get 1 = none := run_get_none rfl _ _ m listed
    simp only [sayTime, groupText_opened unnamed, groupText_opened_other (k := 2) rfl,
      groupText_opened_other (k := 3) rfl, groupText_opened_other (k := 4) rfl]
    rfl
  · rw [sayTime, sayTime, groupText_closed own, groupText_closed_other own rfl,
      groupText_closed_other own rfl, groupText_closed_other own rfl, ← List.append_assoc]

theorem date_spares : Spares date sayDate := by
  have day : Begins (fun c => !isWhitespace c) (.seq (.opt (range '0' '3')) digit) :=
    (range_inked (by decide) (by decide)).begins.opt digit_inked.begins
  refine Spares.framed (n := 5) nonDigit_white (day.group.seq _) ?_ (fun blank white => ?_)
    (fun blank cs m listed => ?_) (fun _ _ => rfl) fun blank m groups own => ?_
  · have two : ∀ p : Char → Bool, Blind (.seqs [.opt (.chars p), digit]) :=
      fun _ => (Blind.chars _).rep.seq (Blind.chars _)
    exact (two _).group.seq ((Blind.chars _).seq ((two _).group.seq
      (((Blind.chars _).seq (Blind.chars _).rep.group).rep.seq ((Blind.chars _).alt Blind.stop).group)))
  · have ends : ∀ r : Pat, Ends (fun c => !isWhitespace c) (.seq r digit) :=
      fun r => .seq r digit_inked.ends
    have shuns : ∀ (n : Nat) (r : Pat), Shuns blank (.group n (.seq r digit)) :=
      fun _ r => (ends r).group.shuns (by rw [white]; rfl)
    have even : ∀ (n : Nat) (p : Char → Bool), Even blank (.group n (.seqs [.opt (.chars p), digit])) :=
      fun _ _ => ((Even.chars _).bounded.seq (Even.chars _)).group
    have marks : Inked (oneOf "/.") := Inked.oneOf (by decide)
    have year : Shuns blank yearText.opt := (marks.seq digit_inked.rep.group).rep.shuns white
    have yearEven : Even blank yearText.opt := ((Even.chars _).seq (Even.chars _).bounded.group).bounded
    have closes : Closes blank 5 (closing 5 fun c => !(isDecimal c || c == '/' || c == '.')) := by
      obtain ⟨digit', apart⟩ := @white_apart _ ['/', '.'] (by decide) blank white
      refine .closing ?_
      rw [digit', apart '/' (by decide), apart '.' (by decide)]
      rfl
    exact .seq (even 2 _) (.inl (shuns 2 _)) (.seq (Even.chars _) (.inl (marks.shuns white))
      (.seq (even 3 _) (.inl (shuns 3 _)) (.seq yearEven (.inl year) closes)))
  · have unnamed : m.get 1 = none := run_get_none rfl _ _ m listed
    have year (text : List Char) : (m.opened 1 text).get 4 = m.get 4 := get_opened_other rfl text
    simp only [sayDate, groupText_opened unnamed, groupText_opened_other (k := 2) rfl,
      groupText_opened_other (k := 3) rfl, groupText_opened_other (k := 5) rfl, year]
    -- What is no date is put back as it is, the character before it included.
    split
    · rfl
    · rfl
  · have year : (m.closed blank).get 4 = m.get 4 := get_closed_other own rfl blank
    have taken : (m.closed blank).taken = m.taken ++ [blank] := by
      unfold Match.closed
      rw [own]
    simp only [sayDate, groupText_closed_other (k := 1) own rfl, groupText_closed_other (k := 2) own rfl,
      groupText_closed_other (k := 3) own rfl, groupText_closed own, year, taken]
    split
    · rfl
    · exact (List.append_assoc _ _ _).symm

end Framed

section Trimmed

variable {before after cs : List Char} {r : Pat} {f : Said}

theorem Spares.around (spares : Spares r f) (first : ∀ c ∈ before, isWhitespace c = true)
    (last : ∀ c ∈ after, isWhitespace c = true) (cs : List Char) :
    r.replaceAll f (before ++ (cs ++ after)) = before ++ (r.replaceAll f cs ++ after) := by
  induction before with
  | nil =>
    induction after using List.reverseRecOn with
    | nil => rw [List.append_nil, List.append_nil, List.nil_append, List.nil_append]
    | append_singleton after c ih =>
      have rest := ih fun d listed => last d (List.mem_append_left _ listed)
      rw [List.nil_append, List.nil_append] at rest ⊢
      rw [← List.append_assoc, spares.behind c (last c (by simp)), rest, List.append_assoc]
  | cons c before ih =>
    obtain ⟨white, rest⟩ := List.forall_mem_cons.mp first
    rw [List.cons_append, spares.ahead c white, ih rest, List.cons_append]

theorem trim_around (first : ∀ c ∈ before, isWhitespace c = true)
    (last : ∀ c ∈ after, isWhitespace c = true) :
    trim (String.ofList (before ++ (cs ++ after))) = trim (String.ofList cs) := by
  refine String.toList_inj.mp ?_
  rw [toList_trim, toList_trim, String.toList_ofList, String.toList_ofList,
    List.dropWhile_append_of_pos first, List.dropWhile_append]
  cases kept : cs.dropWhile isWhitespace with
  | nil =>
    rw [List.isEmpty_nil, if_pos rfl, List.dropWhile_eq_nil_iff.mpr last]
  | cons c rest =>
    rw [List.isEmpty_cons, if_neg Bool.false_ne_true, List.rdropWhile, List.reverse_append,
      List.dropWhile_append_of_pos fun c listed => last c (List.mem_reverse.mp listed), List.rdropWhile]

variable [RegexTables]

/-- **What is said of a text leaves the white space around it where it is.** -/
theorem sayAll_around (edges : ∀ c, isWhitespace c = true → isWord c = false)
    (first : ∀ c ∈ before, isWhitespace c = true) (last : ∀ c ∈ after, isWhitespace c = true) :
    sayAll (before ++ (cs ++ after)) = before ++ (sayAll cs ++ after) := by
  unfold sayAll
  dsimp only
  rw [moneyBefore_spares.around first last, (moneyAfter_spares edges).around first last,
    percent_spares.around first last, identifier_spares.around first last,
    phone_spares.around first last, time_spares.around first last, date_spares.around first last,
    number_spares.around first last]

/-- **A text is read as it is without the white space around it.** -/
theorem normalizeHebrew_trim (edges : ∀ c, isWhitespace c = true → isWord c = false) (text : String) :
    normalizeHebrew (trim text) = normalizeHebrew text := by
  have whole : text.toList = text.toList.takeWhile isWhitespace ++
      ((trim text).toList ++ (text.toList.dropWhile isWhitespace).rtakeWhile isWhitespace) := by
    rw [toList_trim, List.rdropWhile_append_rtakeWhile, List.takeWhile_append_dropWhile]
  have first : ∀ c ∈ text.toList.takeWhile isWhitespace, isWhitespace c = true :=
    fun c listed => List.mem_takeWhile_imp listed
  have last : ∀ c ∈ (text.toList.dropWhile isWhitespace).rtakeWhile isWhitespace,
      isWhitespace c = true := fun c listed => List.mem_rtakeWhile_imp listed
  have said : tidy (sayAll text.toList) = tidy (sayAll (trim text).toList) := by
    rw [whole, sayAll_around edges first last, tidy, trim_around first last, tidy]
  rw [normalizeHebrew, normalizeHebrew, said]

end Trimmed

end Callora.Text
