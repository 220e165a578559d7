/-
**A text, and the text with a blank before or behind it.**

A blank is a character that a replacement leaves alone at the ends of a text. Expressions that ask
for the character before or behind take a blank there as they take the end.

* `Blind` — what comes before a text makes no difference to an expression;
* `Even` — its assertions do not tell the end of a text from a blank behind it;
* `run_behind` — with a blank behind, the matches that do not take it are those without;
* `Shuns`, `Ends` — no match ends with the blank, as each ends with a character of a class;
* `Closes` — a match that ends with the text takes the blank behind it;
* `Begins.replaceAll_ahead`, `opening_ahead` — a blank before a text stays before what is replaced;
* `Shuns.replaceAll_behind`, `Closes.replaceAll_behind` — and one behind it stays behind.
-/
import Callora.Library.Regex

set_option linter.unusedSectionVars false

namespace Regex

variable {α ν : Type} {r s : Re α ν}

section Blind

/-- **What comes before a text makes no difference.** -/
def Matcher.Blind (run : Matcher α ν) : Prop := ∀ prev prev' cs, run prev cs = run prev' cs

/-- An expression whose matches do not depend on what comes before. -/
def Blind (r : Re α ν) : Prop := Matcher.Blind r.run

theorem followed_blind {first second : Matcher α ν} (one : first.Blind) (two : second.Blind) :
    (followed first second).Blind := by
  intro prev prev' cs
  unfold followed
  rw [one prev prev']
  exact congrArg (List.flatMap · _) (funext fun m => by rw [two (m.last prev) (m.last prev')])

theorem Blind.chars (p : α → Bool) : Blind (Re.chars p : Re α ν) := fun _ _ _ => rfl

theorem Blind.stop : Blind (Re.stop : Re α ν) := fun _ _ _ => rfl

theorem Blind.nil : Blind (Re.nil : Re α ν) := fun _ _ _ => rfl

theorem Blind.seq (first : Blind r) (second : Blind s) : Blind (.seq r s) := followed_blind first second

theorem Blind.alt (first : Blind r) (second : Blind s) : Blind (.alt r s) := by
  intro prev prev' cs
  exact congrArg₂ (· ++ ·) (first prev prev' cs) (second prev prev' cs)

theorem Blind.group {name : ν} (inner : Blind r) : Blind (.group name r) := by
  intro prev prev' cs
  exact congrArg (List.map _) (inner prev prev' cs)

theorem Blind.rep {least : Nat} {more : Option Nat} (inner : Blind r) : Blind (.rep least more r) := by
  have extra : ∀ k, (upTo r.run k).Blind := by
    intro k
    induction k with
    | zero => exact fun _ _ _ => rfl
    | succ k ih =>
      intro prev prev' cs
      exact congrArg (· ++ _) (followed_blind inner ih prev prev' cs)
  have all : ∀ most, (exactly r.run (upTo r.run most) least).Blind := by
    intro most
    induction least with
    | zero => exact extra most
    | succ least ih => exact followed_blind inner ih
  exact fun prev prev' cs => all _ prev prev' cs

theorem Blind.lit [BEq α] (word : List α) : Blind (Re.lit word : Re α ν) := by
  induction word with
  | nil => exact Blind.nil
  | cons c word ih =>
    cases word with
    | nil => exact Blind.chars _
    | cons d word => exact (Blind.chars _).seq ih

/-- A match takes something. -/
theorem Needs.ne_nil {n : Nat} {prev : Option α} {cs : List α} {m : Match α ν}
    (needs : Needs (fun _ => true) (n + 1) r) (listed : m ∈ r.run prev cs) : m.taken ≠ [] := by
  intro none
  have few := needs prev cs m listed
  rw [none] at few
  exact absurd few (Nat.not_succ_le_zero n)

/-- After an expression that takes something, what came before it is out of sight. -/
theorem Blind.after (first : Blind r) (some' : Needs (fun _ => true) 1 r) (s : Re α ν) :
    Blind (.seq r s) := by
  intro prev prev' cs
  show followed r.run s.run prev cs = followed r.run s.run prev' cs
  unfold followed
  rw [first prev prev']
  refine List.flatMap_congr fun m listed => ?_
  obtain ⟨c, last⟩ := Option.ne_none_iff_exists'.mp
    (mt List.getLast?_eq_none_iff.mp (some'.ne_nil listed))
  rw [Match.last, Match.last, last, Option.some_or, Option.some_or]

/-- What may come first, and what comes then, begin with a character of the class. -/
theorem Begins.opt {K : α → Bool} (first : Begins K r) (second : Begins K s) :
    Begins K (.seq r.opt s) := by
  intro prev cs m listed
  obtain ⟨a, one, b, two, rfl⟩ := mem_seq.mp listed
  rcases mem_opt one with rfl | ⟨a', inner, taken, -⟩
  · exact second _ _ b two
  · obtain ⟨c, rest, begun, own⟩ := first prev cs a' inner
    exact ⟨c, rest ++ b.taken, by rw [Match.andThen, taken, begun]; rfl, own⟩

end Blind

section Behind

variable {blank : α} {prev : Option α} {cs : List α}

/-- A match, in the text with a blank behind it. -/
def Match.behind (blank : α) (m : Match α ν) : Match α ν := { m with left := m.left ++ [blank] }

/-- A match that leaves something. -/
def Match.goesOn (m : Match α ν) : Bool := !m.left.isEmpty

/-- With a blank behind, the matches that do not take it are those without. -/
def Matcher.Even (blank : α) (run : Matcher α ν) : Prop := ∀ prev cs,
  (run prev (cs ++ [blank])).filter Match.goesOn = (run prev cs).map (Match.behind blank)

/-- **The assertions do not tell the end of a text from a blank behind it**, and what is repeated
without a limit takes something. -/
def Even (blank : α) : Re α ν → Prop
  | .look p => ∀ prev, p prev none = p prev (some blank)
  | .chars _ => True
  | .seq r s | .alt r s => Even blank r ∧ Even blank s
  | .rep _ more r => Even blank r ∧ (more = none → Needs (fun _ => true) 1 r)
  | .group _ r => Even blank r

theorem Even.chars (p : α → Bool) : Even blank (Re.chars p : Re α ν) := trivial

theorem Even.seq (first : Even blank r) (second : Even blank s) : Even blank (.seq r s) := ⟨first, second⟩

theorem Even.alt (first : Even blank r) (second : Even blank s) : Even blank (.alt r s) := ⟨first, second⟩

theorem Even.group {name : ν} (inner : Even blank r) : Even blank (.group name r) := inner

theorem Even.bounded {least most : Nat} (inner : Even blank r) : Even blank (.rep least (some most) r) :=
  ⟨inner, nofun⟩

theorem Even.rep {least : Nat} (inner : Even blank r) (some' : Needs (fun _ => true) 1 r) :
    Even blank (.rep least none r) := ⟨inner, fun _ => some'⟩

theorem Even.nil : Even blank (Re.nil : Re α ν) := fun _ => rfl

theorem Even.start : Even blank (Re.start : Re α ν) := fun _ => rfl

theorem Even.lit [BEq α] (word : List α) : Even blank (Re.lit word : Re α ν) := by
  induction word with
  | nil => exact Even.nil
  | cons c word ih =>
    cases word with
    | nil => exact Even.chars _
    | cons d word => exact (Even.chars _).seq ih

/-- Only what goes on leads to a match that goes on. -/
theorem flatMap_goesOn {g : Match α ν → List (Match α ν)} {l : List (Match α ν)}
    (ends : ∀ m ∈ l, m.goesOn = false → g m = []) : l.flatMap g = (l.filter Match.goesOn).flatMap g := by
  induction l with
  | nil => rfl
  | cons m l ih =>
    have rest := ih fun other listed => ends other (List.mem_cons_of_mem _ listed)
    cases goes : m.goesOn with
    | true => rw [List.filter_cons_of_pos goes, List.flatMap_cons, List.flatMap_cons, rest]
    | false =>
      rw [List.filter_cons_of_neg (by simp [goes]), List.flatMap_cons, ends m List.mem_cons_self goes,
        List.nil_append, rest]

theorem followed_even {first second : Matcher α ν} (one : first.Even blank) (two : second.Even blank)
    (text : ∀ prev cs, ∀ m ∈ second prev cs, m.taken ++ m.left = cs) :
    (followed first second).Even blank := by
  intro prev cs
  unfold followed
  rw [List.filter_flatMap, List.map_flatMap, flatMap_goesOn, one, List.flatMap_map]
  · refine List.flatMap_congr fun m _ => ?_
    rw [List.filter_map, List.map_map]
    have same : (second ((m.behind blank).last prev) (m.behind blank).left).filter
        (Match.goesOn ∘ (m.behind blank).andThen) =
        (second (m.last prev) m.left).map (Match.behind blank) :=
      two _ _
    rw [same, List.map_map]
    rfl
  · intro m _ stops
    have nothing : m.left = [] := by simpa [Match.goesOn] using stops
    refine List.filter_eq_nil_iff.mpr fun b listed => ?_
    obtain ⟨b, within, rfl⟩ := List.mem_map.mp listed
    have none' := (List.append_eq_nil_iff.mp ((text _ _ b within).trans nothing)).2
    simp [Match.goesOn, Match.andThen, none']

theorem upTo_text (k : Nat) : ∀ prev cs, ∀ m ∈ upTo r.run k prev cs, m.taken ++ m.left = cs :=
  run_text (Re.rep 0 (some k) r)

theorem exactly_text (k least : Nat) :
    ∀ prev cs, ∀ m ∈ exactly r.run (upTo r.run k) least prev cs, m.taken ++ m.left = cs :=
  run_text (Re.rep least (some k) r)

theorem upTo_even (inner : Matcher.Even blank r.run) (k : Nat) : (upTo r.run k).Even blank := by
  have none' : ∀ cs : List α,
      ([Match.nothing (cs ++ [blank])] : List (Match α ν)).filter Match.goesOn =
      [Match.nothing cs].map (Match.behind blank) := by
    intro cs
    exact List.filter_cons_of_pos (by simp [Match.goesOn, Match.nothing])
  induction k with
  | zero => exact fun _ cs => none' cs
  | succ k ih =>
    intro prev cs
    unfold upTo
    rw [List.filter_append, List.map_append, none', followed_even inner ih (upTo_text k)]

theorem exactly_even (inner : Matcher.Even blank r.run) (k least : Nat) :
    (exactly r.run (upTo r.run k) least).Even blank := by
  induction least with
  | zero => exact upTo_even inner k
  | succ least ih => exact followed_even inner ih (exactly_text k least)

/-- What a match of something leaves is shorter than the text. -/
theorem Needs.shorter (needs : Needs (fun _ => true) 1 r) {m : Match α ν} (listed : m ∈ r.run prev cs) :
    m.left.length < cs.length := by
  rw [← run_text r prev cs m listed, List.length_append]
  exact Nat.lt_add_of_pos_left (List.length_pos_iff.mpr (needs.ne_nil listed))

/-- As many repetitions as the text has characters are enough. -/
theorem upTo_enough (some' : Needs (fun _ => true) 1 r) {k : Nat} (enough : cs.length ≤ k) :
    upTo r.run (k + 1) prev cs = upTo r.run k prev cs := by
  induction k generalizing prev cs with
  | zero =>
    have none' : r.run prev cs = [] := List.eq_nil_iff_forall_not_mem.mpr fun m listed =>
      absurd (some'.shorter listed) (by omega)
    show (r.run prev cs).flatMap _ ++ [_] = [_]
    rw [none']
    rfl
  | succ k ih =>
    have same : followed r.run (upTo r.run (k + 1)) prev cs = followed r.run (upTo r.run k) prev cs := by
      refine List.flatMap_congr fun m listed => ?_
      have shorter := some'.shorter listed
      rw [ih (by omega)]
    exact congrArg (· ++ [Match.nothing cs]) same

theorem exactly_enough (some' : Needs (fun _ => true) 1 r) {k : Nat} (enough : cs.length ≤ k)
    (least : Nat) :
    exactly r.run (upTo r.run (k + 1)) least prev cs = exactly r.run (upTo r.run k) least prev cs := by
  induction least generalizing prev cs with
  | zero => exact upTo_enough some' enough
  | succ least ih =>
    refine List.flatMap_congr fun m listed => ?_
    have shorter := some'.shorter listed
    rw [ih (by omega)]

/-- **With a blank behind, the matches that do not take it are those without.** -/
theorem run_behind (even : Even blank r) : Matcher.Even blank r.run := by
  induction r with
  | look p =>
    intro prev cs
    have next : p prev (cs ++ [blank]).head? = p prev cs.head? := by
      cases cs with
      | nil => exact (even prev).symm
      | cons c cs => rfl
    show (if p prev (cs ++ [blank]).head? then _ else _ : List _).filter _ =
      (if _ then _ else _ : List _).map _
    rw [next]
    split
    · exact List.filter_cons_of_pos (by simp [Match.goesOn, Match.nothing])
    · rfl
  | chars p =>
    intro prev cs
    cases cs with
    | nil =>
      show (if p blank then [Match.mk [blank] [] []] else []).filter _ = []
      split <;> rfl
    | cons c cs =>
      show (if p c then [Match.mk [c] (cs ++ [blank]) []] else []).filter _ =
        (if p c then [Match.mk [c] cs []] else []).map _
      split
      · exact List.filter_cons_of_pos (by simp [Match.goesOn])
      · rfl
  | seq r s hr hs => exact followed_even (hr even.1) (hs even.2) (run_text s)
  | alt r s hr hs =>
    intro prev cs
    show (r.run prev _ ++ s.run prev _).filter _ = (r.run prev _ ++ s.run prev _).map _
    rw [List.filter_append, List.map_append, hr even.1, hs even.2]
  | rep least more r hr =>
    intro prev cs
    cases more with
    | some most => exact exactly_even (hr even.1) most least prev cs
    | none =>
      show (exactly r.run (upTo r.run (cs ++ [blank]).length) least prev (cs ++ [blank])).filter _ =
        (exactly r.run (upTo r.run cs.length) least prev cs).map _
      rw [List.length_append, List.length_singleton, exactly_even (hr even.1),
        exactly_enough (even.2 rfl) (Nat.le_refl _)]
  | group name r hr =>
    intro prev cs
    show ((r.run prev _).map _).filter _ = ((r.run prev _).map _).map _
    rw [List.filter_map, List.map_map]
    have same : (r.run prev (cs ++ [blank])).filter (Match.goesOn ∘ fun m =>
        { m with groups := (name, m.taken) :: m.groups }) = (r.run prev cs).map (Match.behind blank) :=
      hr even prev cs
    rw [same, List.map_map]
    rfl

end Behind

section Shuns

variable {blank : α} {prev : Option α} {cs : List α} {f : Match α ν → List α}

/-- **No match ends with the blank.** -/
def Shuns (blank : α) (r : Re α ν) : Prop :=
  ∀ prev cs, ∀ m ∈ r.run prev cs, m.taken.getLast? ≠ some blank

theorem Shuns.of_takes (never : r.takes blank = false) : Shuns blank r := by
  intro prev cs m listed last
  have takes := run_takes r prev cs m listed blank (List.mem_of_getLast? last)
  rw [never] at takes
  cases takes

/-- **Every match ends with a character of a class.** -/
def Ends (K : α → Bool) (r : Re α ν) : Prop :=
  ∀ prev cs, ∀ m ∈ r.run prev cs, ∃ c ∈ m.taken.getLast?, K c = true

variable {K : α → Bool}

theorem Ends.shuns (ends : Ends K r) (other : K blank = false) : Shuns blank r := by
  intro prev cs m listed last
  obtain ⟨c, own, held⟩ := ends prev cs m listed
  obtain rfl := Option.some.inj (last.symm.trans own)
  rw [other] at held
  cases held

theorem Ends.chars {p : α → Bool} (within : ∀ c, p c = true → K c = true) :
    Ends K (Re.chars p : Re α ν) := by
  intro prev cs m listed
  obtain ⟨c, rest, -, own, rfl⟩ := mem_chars.mp listed
  exact ⟨c, rfl, within c own⟩

/-- What is taken last decides. -/
theorem ends_append {xs ys : List α} (second : ∃ c ∈ ys.getLast?, K c = true) :
    ∃ c ∈ (xs ++ ys).getLast?, K c = true := by
  obtain ⟨c, last, own⟩ := second
  exact ⟨c, by rw [List.getLast?_append, last, Option.some_or]; rfl, own⟩

theorem Ends.seq (r : Re α ν) (second : Ends K s) : Ends K (.seq r s) := by
  intro prev cs m listed
  obtain ⟨a, -, b, two, rfl⟩ := mem_seq.mp listed
  exact ends_append (second _ _ b two)

theorem Ends.alt (first : Ends K r) (second : Ends K s) : Ends K (.alt r s) := by
  intro prev cs m listed
  rcases mem_alt.mp listed with one | other
  · exact first prev cs m one
  · exact second prev cs m other

theorem Ends.group {name : ν} (inner : Ends K r) : Ends K (.group name r) := by
  intro prev cs m listed
  obtain ⟨a, one, rfl⟩ := mem_group.mp listed
  exact inner prev cs a one

/-- Repetitions end as each of them does, where there is one. -/
theorem Ends.repeated (inner : Ends K r) {least : Nat} {more : Option Nat} :
    ∀ m ∈ (Re.rep least more r).run prev cs,
      (∃ c ∈ m.taken.getLast?, K c = true) ∨ least = 0 ∧ m.taken = [] := by
  refine rep_rec (P := fun k _ m => (∃ c ∈ m.taken.getLast?, K c = true) ∨ k = 0 ∧ m.taken = [])
    (fun _ => .inr ⟨rfl, rfl⟩) (fun k prev cs a one b rest => .inl ?_) fun _ m ends => ?_
  · rcases rest with ends | ⟨-, none'⟩
    · exact ends_append ends
    · rw [Match.andThen, none', List.append_nil]
      exact inner prev cs a one
  · exact .inl (ends.resolve_right fun absurd' => Nat.one_ne_zero absurd'.1)

theorem Ends.rep {least : Nat} {more : Option Nat} (inner : Ends K r) :
    Ends K (.rep (least + 1) more r) := fun _ _ m listed =>
  (inner.repeated m listed).resolve_right fun absurd' => Nat.succ_ne_zero least absurd'.1

/-- What may be repeated behind it ends as it does. -/
theorem Ends.seqRep {least : Nat} {more : Option Nat} (first : Ends K r) (second : Ends K s) :
    Ends K (.seq r (.rep least more s)) := by
  intro prev cs m listed
  obtain ⟨a, one, b, two, rfl⟩ := mem_seq.mp listed
  rcases second.repeated b two with ends | ⟨-, none'⟩
  · exact ends_append ends
  · rw [Match.andThen, none', List.append_nil]
    exact first prev cs a one

theorem Ends.lit [BEq α] [LawfulBEq α] {word : List α} (own : ∃ c ∈ word.getLast?, K c = true) :
    Ends K (Re.lit word : Re α ν) := fun _ _ m listed => by rwa [run_lit m listed]

/-- A blank behind the text is not taken. -/
theorem Shuns.run_behind (shuns : Shuns blank r) (even : Even blank r) :
    r.run prev (cs ++ [blank]) = (r.run prev cs).map (Match.behind blank) := by
  rw [← Regex.run_behind even]
  refine (List.filter_eq_self.mpr fun m listed => ?_).symm
  have text := run_text r _ _ m listed
  cases left : m.left with
  | nil =>
    rw [left, List.append_nil] at text
    exact absurd (by rw [text, List.getLast?_concat]) (shuns _ _ m listed)
  | cons c rest => simp [Match.goesOn, left]

end Shuns

section Closes

variable {blank : α} {n : ν} {prev : Option α} {cs : List α}

/-- **One more character of a class, or the end of the text**: a group. -/
def closing (n : ν) (q : α → Bool) : Re α ν := .group n (.alt (.chars q) .stop)

/-- A match that came to the end of the text, where a blank is behind it: its last group has the
blank. -/
def Match.closed (blank : α) (m : Match α ν) : Match α ν :=
  match m.groups with
  | (n, []) :: groups => ⟨m.taken ++ [blank], [], (n, [blank]) :: groups⟩
  | _ => m.behind blank

theorem get_closed [BEq ν] [ReflBEq ν] {m : Match α ν} {groups : List (ν × List α)}
    (own : m.groups = (n, []) :: groups) (blank : α) : (m.closed blank).get n = some [blank] := by
  unfold Match.closed
  rw [own]
  exact List.lookup_cons_self

theorem get_closed_other [BEq ν] {m : Match α ν} {groups : List (ν × List α)} {name : ν}
    (own : m.groups = (n, []) :: groups) (other : (name == n) = false) (blank : α) :
    (m.closed blank).get name = m.get name := by
  unfold Match.closed Match.get
  rw [own, List.lookup_cons, List.lookup_cons, other]

/-- **Where the text ends, the last group takes the blank behind it.** -/
structure Closes (blank : α) (n : ν) (r : Re α ν) : Prop where
  last : ∀ prev cs, ∀ m ∈ r.run prev cs,
    ∃ text groups, m.groups = (n, text) :: groups ∧ (text = [] → m.left = [])
  run : ∀ prev cs, r.run prev (cs ++ [blank]) = (r.run prev cs).map (Match.closed blank)

theorem Closes.closing {q : α → Bool} (own : q blank = true) : Closes blank n (closing n q) := by
  constructor
  · intro prev cs m listed
    obtain ⟨a, inner, rfl⟩ := mem_group.mp listed
    refine ⟨a.taken, a.groups, rfl, fun none => ?_⟩
    rcases mem_alt.mp inner with one | stops
    · obtain ⟨c, rest, -, -, rfl⟩ := mem_chars.mp one
      cases none
    · obtain ⟨ends, rfl⟩ := mem_look.mp stops
      simpa [Match.nothing] using ends
  · intro prev cs
    cases cs with
    | nil =>
      show ((if q blank then [Match.mk [blank] [] []] else []) ++ []).map _ = _
      rw [if_pos own]
      rfl
    | cons c cs =>
      show ((if q c then [Match.mk [c] (cs ++ [blank]) []] else []) ++ []).map _ =
        (((if q c then [Match.mk [c] cs []] else []) ++ []).map _).map _
      split <;> rfl

/-- What comes before takes no blank at the end, or else nothing follows it there. -/
theorem Closes.seq (even : Even blank r) (quits : Shuns blank r ∨ ∀ prev, s.run prev [] = [])
    (closes : Closes blank n s) : Closes blank n (.seq r s) := by
  have groups : ∀ {a b : Match α ν} {prev cs}, b ∈ s.run prev cs →
      ((a.behind blank).andThen (b.closed blank)) = (a.andThen b).closed blank := by
    intro a b prev cs listed
    obtain ⟨text, groups, same, -⟩ := closes.last _ _ b listed
    obtain ⟨taken, left, own⟩ := b
    obtain rfl : own = (n, text) :: groups := same
    cases text with
    | nil => simp [Match.closed, Match.andThen, Match.behind]
    | cons c text => simp [Match.closed, Match.andThen, Match.behind]
  constructor
  · intro prev cs m listed
    obtain ⟨a, -, b, two, rfl⟩ := mem_seq.mp listed
    obtain ⟨text, groups, same, ends⟩ := closes.last _ _ b two
    exact ⟨text, groups ++ a.groups, by rw [Match.andThen, same]; rfl, ends⟩
  · intro prev cs
    have stops : ∀ a ∈ r.run prev (cs ++ [blank]), a.goesOn = false →
        (s.run (a.last prev) a.left).map a.andThen = [] := by
      intro a listed stops
      have nothing : a.left = [] := by simpa [Match.goesOn] using stops
      rcases quits with shuns | none'
      · have text := run_text r _ _ a listed
        rw [nothing, List.append_nil] at text
        exact absurd (by rw [text, List.getLast?_concat]) (shuns _ _ a listed)
      · rw [nothing, none']
        rfl
    show (r.run prev (cs ++ [blank])).flatMap _ = ((r.run prev cs).flatMap _).map _
    rw [flatMap_goesOn stops, run_behind even, List.flatMap_map, List.map_flatMap]
    refine List.flatMap_congr fun a _ => ?_
    show (s.run (a.last prev) (a.left ++ [blank])).map _ = _
    rw [closes.run, List.map_map, List.map_map]
    exact List.map_congr_left fun b listed => groups listed

end Closes

section Replacing

variable {blank : α} {n : ν} {f : Match α ν → List α} {prev : Option α} {cs : List α}

/-- What the first match is with a blank behind the text: the same, or it takes the text and the
blank, which stays behind what is put for it. -/
def Grows (blank : α) (f : Match α ν → List α) (m m' : Match α ν) : Prop :=
  m'.taken = m.taken ∧ f m' = f m ∨
    m.left = [] ∧ m'.taken = m.taken ++ [blank] ∧ f m' = f m ++ [blank]

/-- **A blank behind a text stays behind what is replaced in it.** -/
theorem replaceAll_grows
    (none' : ∀ prev cs, r.first prev cs = none → r.first prev (cs ++ [blank]) = none)
    (some' : ∀ prev cs m, r.first prev cs = some m →
      ∃ m', r.first prev (cs ++ [blank]) = some m' ∧ Grows blank f m m') (cs : List α) :
    r.replaceAll f (cs ++ [blank]) = r.replaceAll f cs ++ [blank] := by
  have alone (prev : Option α) : r.replaceFrom f prev 0 [blank] = [blank] := by
    have nothing : r.first prev [] = none := Option.eq_none_iff_forall_not_mem.mpr fun m found =>
      (first_some found).2 (List.append_eq_nil_iff.mp (first_text found)).1
    exact replaceFrom_pass (none' prev [] nothing)
  refine replace_rec (P := fun prev cs out => r.replaceFrom f prev 0 (cs ++ [blank]) = out ++ [blank])
    alone ?_ ?_ none cs
  · intro prev c cs out found ih
    have passed : r.first prev (c :: (cs ++ [blank])) = none := none' prev (c :: cs) found
    exact (replaceFrom_pass passed).trans (congrArg (c :: ·) ih)
  · intro prev cs m out found ih
    obtain ⟨m', found', grows⟩ := some' prev cs m found
    have text := first_text found'
    rw [replaceFrom_hit found']
    rcases grows with ⟨taken, same⟩ | ⟨ends, taken, more⟩
    · rw [taken, ← first_text found, List.append_assoc] at text
      rw [Match.last, taken, List.append_cancel_left text, same, List.append_assoc]
      exact congrArg (f m ++ ·) ih
    · rw [ends, List.nil_append, alone] at ih
      rw [taken, ← first_text found, ends, List.append_nil] at text
      rw [List.append_right_eq_self.mp text, more, (List.append_eq_singleton_iff.mp ih.symm).elim And.left
        fun other => absurd other.2 (List.cons_ne_nil _ _)]
      simp [Re.replaceFrom]

/-- No blank behind a text is taken by what shuns it. -/
theorem Shuns.replaceAll_behind (shuns : Shuns blank r) (even : Even blank r)
    (same : ∀ m, f (m.behind blank) = f m) (cs : List α) :
    r.replaceAll f (cs ++ [blank]) = r.replaceAll f cs ++ [blank] := by
  have first (prev : Option α) (cs : List α) :
      r.first prev (cs ++ [blank]) = (r.first prev cs).map (Match.behind blank) := by
    unfold Re.first
    rw [shuns.run_behind even, List.head?_map]
    cases (r.run prev cs).head? with
    | none => rfl
    | some m => cases taken : m.taken <;> simp [Option.filter, Match.behind, taken]
  refine replaceAll_grows (fun prev cs none' => ?_) (fun prev cs m found => ?_) cs
  · rw [first, none', Option.map_none]
  · exact ⟨m.behind blank, by rw [first, found, Option.map_some], .inl ⟨rfl, same m⟩⟩

/-- A blank behind a text stays behind what is put for a match that closes with it. -/
theorem Closes.replaceAll_behind (closes : Closes blank n r) (needs : Needs (fun _ => true) 1 r)
    (same : ∀ m, f (m.behind blank) = f m)
    (more : ∀ prev cs, ∀ m ∈ r.run prev cs, ∀ groups, m.groups = (n, []) :: groups →
      f (m.closed blank) = f m ++ [blank]) (cs : List α) :
    r.replaceAll f (cs ++ [blank]) = r.replaceAll f cs ++ [blank] := by
  have first (prev : Option α) (cs : List α) :
      r.first prev (cs ++ [blank]) = (r.first prev cs).map (Match.closed blank) := by
    unfold Re.first
    rw [closes.run, List.head?_map]
    cases found : (r.run prev cs).head? with
    | none => rfl
    | some m =>
      have listed := List.mem_of_head? found
      have own := needs.ne_nil listed
      have taken : (m.closed blank).taken ≠ [] := by
        unfold Match.closed
        split
        · exact List.append_ne_nil_of_right_ne_nil _ (List.cons_ne_nil _ _)
        · exact own
      simp [Option.filter, own, taken]
  refine replaceAll_grows (fun prev cs none' => ?_) (fun prev cs m found => ?_) cs
  · rw [first, none', Option.map_none]
  · refine ⟨m.closed blank, by rw [first, found, Option.map_some], ?_⟩
    have listed := (first_some found).1
    obtain ⟨text, groups, own, ends⟩ := closes.last _ _ m listed
    cases text with
    | nil =>
      refine .inr ⟨ends rfl, ?_, more _ _ m listed groups own⟩
      unfold Match.closed
      rw [own]
    | cons c text =>
      have going : m.closed blank = m.behind blank := by
        unfold Match.closed
        rw [own]
      rw [going]
      exact .inl ⟨rfl, same m⟩

/-- Where an expression does not look back, it does not matter what comes before. -/
theorem Blind.replaceFrom (blind : Blind r) (prev prev' : Option α) (cs : List α) :
    r.replaceFrom f prev 0 cs = r.replaceFrom f prev' 0 cs := by
  cases cs with
  | nil => rfl
  | cons c cs =>
    have same : r.first prev (c :: cs) = r.first prev' (c :: cs) := by
      unfold Re.first
      rw [blind prev prev']
    rw [Re.replaceFrom, Re.replaceFrom, same]

/-- A blank before a text is passed by what does not begin with one, and does not look back. -/
theorem Begins.replaceAll_ahead {K : α → Bool} (begins : Begins K r) (other : K blank = false)
    (blind : Blind r) (cs : List α) : r.replaceAll f (blank :: cs) = blank :: r.replaceAll f cs := by
  have passed : r.replaceFrom f none 0 ([blank] ++ cs) = [blank] ++ r.replaceFrom f (some blank) 0 cs :=
    replaceFrom_begins begins (by simpa using other)
  exact passed.trans (congrArg (blank :: ·) (blind.replaceFrom _ _ cs))

/-- **The beginning of the text, or one character of a class before**: a group. -/
def opening (n : ν) (p : α → Bool) : Re α ν := .group n (.alt .start (.chars p))

/-- A match with its first group before it. -/
def Match.opened (n : ν) (text : List α) (m : Match α ν) : Match α ν :=
  ⟨text ++ m.taken, m.left, m.groups ++ [(n, text)]⟩

theorem get_opened [BEq ν] [ReflBEq ν] {m : Match α ν} (unnamed : m.get n = none) (text : List α) :
    (m.opened n text).get n = some text := by
  show List.lookup n (m.groups ++ [(n, text)]) = some text
  rw [List.lookup_append, show List.lookup n m.groups = none from unnamed, Option.none_or,
    List.lookup_cons_self]

theorem get_opened_other [BEq ν] {m : Match α ν} {name : ν} (other : (name == n) = false)
    (text : List α) : (m.opened n text).get name = m.get name := by
  show List.lookup name (m.groups ++ [(n, text)]) = List.lookup name m.groups
  rw [List.lookup_append, List.lookup_cons, other]
  exact Option.or_none

variable {p : α → Bool}

/-- What an opening leads to: at the beginning of the text the rest itself, or the rest after a
character. -/
theorem opening_run (blind : Blind s) (prev : Option α) (cs : List α) :
    (Re.seq (opening n p) s).run prev cs =
      (if prev.isNone then (s.run none cs).map (Match.opened n []) else []) ++
        match cs with
        | [] => []
        | c :: rest => if p c then (s.run none rest).map (Match.opened n [c]) else [] := by
  have after (text rest : List α) : (s.run ((⟨text, rest, [(n, text)]⟩ : Match α ν).last prev) rest).map
      (⟨text, rest, [(n, text)]⟩ : Match α ν).andThen = (s.run none rest).map (Match.opened n text) := by
    rw [blind _ none]
    rfl
  show (((if prev.isNone then [Match.nothing cs] else []) ++ (Re.chars p).run prev cs).map
    _).flatMap _ = _
  rw [List.map_append, List.flatMap_append]
  congr 1
  · split
    · exact (List.flatMap_singleton _ _).trans (after [] cs)
    · rfl
  · cases cs with
    | nil => rfl
    | cons c rest =>
      show ((if p c then [Match.mk [c] rest []] else []).map _).flatMap _ = if p c then _ else []
      by_cases own : p c = true
      · rw [if_pos own, if_pos own]
        exact (List.flatMap_singleton _ _).trans (after [c] rest)
      · rw [if_neg own, if_neg own]
        rfl

/-- **A blank before a text stays before it, also where it is taken as the character before.** -/
theorem opening_ahead {K : α → Bool} (begins : Begins K s) (other : K blank = false)
    (own : p blank = true) (blind : Blind s)
    (keeps : ∀ cs, ∀ m ∈ s.run none cs, f (m.opened n [blank]) = blank :: f (m.opened n []))
    (cs : List α) :
    (Re.seq (opening n p) s).replaceAll f (blank :: cs) =
      blank :: (Re.seq (opening n p) s).replaceAll f cs := by
  have ahead : (Re.seq (opening n p) s).run none (blank :: cs) =
      (s.run none cs).map (Match.opened n [blank]) := by
    rw [opening_run blind, begins.run_other other]
    exact if_pos own
  show Re.replaceFrom _ f none 0 (blank :: cs) = blank :: Re.replaceFrom _ f none 0 cs
  cases rest : s.run none cs with
  | nil =>
    rw [replaceFrom_pass (by rw [Re.first, ahead, rest]; rfl)]
    cases cs with
    | nil => rfl
    | cons c cs =>
      have same : (Re.seq (opening n p) s).first (some blank) (c :: cs) =
          (Re.seq (opening n p) s).first none (c :: cs) := by
        unfold Re.first
        rw [opening_run blind, opening_run blind, rest]
        rfl
      rw [Re.replaceFrom, Re.replaceFrom, same]
  | cons m others =>
    have listed : m ∈ s.run none cs := rest ▸ List.mem_cons_self
    obtain ⟨d, taken, begun, -⟩ := begins none cs m listed
    have found : (Re.seq (opening n p) s).first none (blank :: cs) = some (m.opened n [blank]) := by
      rw [Re.first, ahead, rest]
      rfl
    have found' : (Re.seq (opening n p) s).first none cs = some (m.opened n []) := by
      rw [Re.first, opening_run blind, rest]
      simp [Match.opened, begun, Option.filter]
    have last : (m.opened n [blank]).last none = (m.opened n []).last none := by
      simp [Match.last, Match.opened, begun]
    rw [replaceFrom_hit found, replaceFrom_hit found', keeps cs m listed, last]
    rfl

end Replacing

end Regex
