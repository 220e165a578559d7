/-
**Regular expressions that are matched leftmost, first alternative first.**

`Re.run` lists the matches of an expression at one place in the order in which a backtracking
matcher tries them: the first alternative before the second, one more repetition before one less.
`replaceAll` takes the first of them at the leftmost place that has one, and goes on after it; an
expression to replace takes at least one character.

* `run_text` — what a match takes, and what it leaves, is the text;
* `rep_rec` — the induction over repetitions;
* `run_takes` — a match takes only what its expression may take;
* `Needs`, `Begins`, `Solid` — what every match takes of a class of characters, rule by rule;
* `replace_rec` — the induction over what is replaced and what is passed;
* `replace_few`, `replace_lone`, `replace_leads`, `replace_clears` — what a replacement leaves
  alone, keeps and removes;
* `replace_countP_ge` — how much of a class is left.
-/
import Mathlib.Data.List.Basic
import Mathlib.Data.List.Chain
import Mathlib.Data.Nat.Notation

set_option linter.unusedSectionVars false

namespace Regex

section Syntax

/-- A regular expression over characters `α` with groups named by `ν`. -/
inductive Re (α ν : Type) where
  /-- An assertion about the characters before and after. -/
  | look (p : Option α → Option α → Bool)
  /-- One character of a class. -/
  | chars (p : α → Bool)
  | seq (r s : Re α ν)
  | alt (r s : Re α ν)
  /-- At least `least` repetitions and `more` on top of them, as many as possible first. -/
  | rep (least : Nat) (more : Option Nat) (r : Re α ν)
  | group (name : ν) (r : Re α ν)

/-- What an expression has matched: the characters taken, those left, and the groups, the last one
first. -/
structure Match (α ν : Type) where
  taken : List α
  left : List α
  groups : List (ν × List α)

variable {α ν : Type}

namespace Match

/-- A match of nothing. -/
def nothing (cs : List α) : Match α ν := ⟨[], cs, []⟩

/-- The character before what is left. -/
def last (m : Match α ν) (prev : Option α) : Option α := m.taken.getLast?.or prev

/-- A match and one of what it left. -/
def andThen (m n : Match α ν) : Match α ν := ⟨m.taken ++ n.taken, n.left, n.groups ++ m.groups⟩

/-- The text of a group. -/
def get [BEq ν] (m : Match α ν) (name : ν) : Option (List α) := m.groups.lookup name

end Match

/-- The matches at a place: what comes before it, and the text from it on. -/
abbrev Matcher (α ν : Type) := Option α → List α → List (Match α ν)

/-- One matcher after the other. -/
def followed (first second : Matcher α ν) : Matcher α ν := fun prev cs =>
  (first prev cs).flatMap fun m => (second (m.last prev) m.left).map m.andThen

/-- At most so many repetitions, one more before one less. -/
def upTo (step : Matcher α ν) : Nat → Matcher α ν
  | 0 => fun _ cs => [.nothing cs]
  | k + 1 => fun prev cs => followed step (upTo step k) prev cs ++ [.nothing cs]

/-- So many repetitions, and then the rest. -/
def exactly (step rest : Matcher α ν) : Nat → Matcher α ν
  | 0 => rest
  | k + 1 => followed step (exactly step rest k)

namespace Re

/-- **The matches of an expression**, in the order of its preferences. -/
def run : Re α ν → Matcher α ν
  | look p => fun prev cs => if p prev cs.head? then [.nothing cs] else []
  | chars p => fun _ cs =>
    match cs with
    | c :: rest => if p c then [⟨[c], rest, []⟩] else []
    | [] => []
  | seq r s => followed r.run s.run
  | alt r s => fun prev cs => r.run prev cs ++ s.run prev cs
  | rep least more r => fun prev cs => exactly r.run (upTo r.run (more.getD cs.length)) least prev cs
  | group name r =>
    fun prev cs => (r.run prev cs).map fun m => { m with groups := (name, m.taken) :: m.groups }

/-- The beginning of the text. -/
def start : Re α ν := look fun prev _ => prev.isNone

/-- The end of the text. -/
def stop : Re α ν := look fun _ next => next.isNone

/-- Nothing at all. -/
def nil : Re α ν := look fun _ _ => true

/-- One expression after the other. -/
def seqs : List (Re α ν) → Re α ν
  | [] => nil
  | [r] => r
  | r :: rs => seq r (seqs rs)

/-- The first expression that matches. -/
def alts (first : Re α ν) : List (Re α ν) → Re α ν
  | [] => first
  | r :: rs => alt first (alts r rs)

/-- The characters of a word. -/
def lit [BEq α] (word : List α) : Re α ν := seqs (word.map fun c => chars (· == c))

def opt (r : Re α ν) : Re α ν := rep 0 (some 1) r

def star (r : Re α ν) : Re α ν := rep 0 none r

def plus (r : Re α ν) : Re α ν := rep 1 none r

def between (least most : Nat) (r : Re α ν) : Re α ν := rep least (some (most - least)) r

def times (n : Nat) (r : Re α ν) : Re α ν := rep n (some 0) r

/-- The characters an expression may take. -/
def takes : Re α ν → α → Bool
  | look _ => fun _ => false
  | chars p => p
  | seq r s | alt r s => fun c => r.takes c || s.takes c
  | rep _ _ r | group _ r => r.takes

/-- An expression with a group of the name. -/
def names [BEq ν] (name : ν) : Re α ν → Bool
  | look _ | chars _ => false
  | seq r s | alt r s => r.names name || s.names name
  | rep _ _ r => r.names name
  | group other r => name == other || r.names name

/-- The leftmost match, the preferred one there. -/
def search (r : Re α ν) : Option α → List α → Option (Match α ν)
  | prev, [] => (r.run prev []).head?
  | prev, c :: cs => (r.run prev (c :: cs)).head?.or (search r (some c) cs)

/-- The match that is preferred, if it takes something. -/
def first (r : Re α ν) (prev : Option α) (cs : List α) : Option (Match α ν) :=
  (r.run prev cs).head?.filter fun m => !m.taken.isEmpty

/-- The text with each match replaced; `skip` characters belong to the match replaced last. -/
def replaceFrom (r : Re α ν) (f : Match α ν → List α) : Option α → Nat → List α → List α
  | _, _, [] => []
  | _, skip + 1, c :: cs => replaceFrom r f (some c) skip cs
  | prev, 0, c :: cs =>
    match r.first prev (c :: cs) with
    | some m => f m ++ replaceFrom r f (some c) (m.taken.length - 1) cs
    | none => c :: replaceFrom r f (some c) 0 cs

/-- **Every match of a text, from the left, replaced.** -/
def replaceAll (r : Re α ν) (f : Match α ν → List α) (cs : List α) : List α := replaceFrom r f none 0 cs

end Re

end Syntax

section Matches

variable {α ν : Type} {r s : Re α ν} {prev : Option α} {cs : List α} {m : Match α ν}

attribute [local simp] Match.andThen in
theorem mem_followed {first second : Matcher α ν} :
    m ∈ followed first second prev cs ↔
      ∃ a ∈ first prev cs, ∃ b ∈ second (a.last prev) a.left, m = a.andThen b := by
  unfold followed
  simp only [List.mem_flatMap, List.mem_map, eq_comm]

theorem mem_look {p : Option α → Option α → Bool} :
    m ∈ (Re.look p : Re α ν).run prev cs ↔ p prev cs.head? = true ∧ m = .nothing cs := by
  show m ∈ (if p prev cs.head? then [Match.nothing cs] else []) ↔ _
  split <;> simp_all

theorem mem_chars {p : α → Bool} :
    m ∈ (Re.chars p : Re α ν).run prev cs ↔
    ∃ c rest, cs = c :: rest ∧ p c = true ∧ m = ⟨[c], rest, []⟩ := by
  cases cs with
  | nil => exact iff_of_false List.not_mem_nil fun ⟨c, rest, same, _⟩ => by cases same
  | cons c rest =>
    show m ∈ (if p c then [Match.mk [c] rest []] else []) ↔ _
    by_cases own : p c = true
    · rw [if_pos own, List.mem_singleton]
      exact ⟨fun same => ⟨c, rest, rfl, own, same⟩,
        fun ⟨d, tail, text, _, same⟩ => by cases text; exact same⟩
    · rw [if_neg own]
      exact iff_of_false List.not_mem_nil fun ⟨d, tail, text, held, _⟩ => by cases text; exact own held

theorem mem_seq : m ∈ (Re.seq r s).run prev cs ↔
    ∃ a ∈ r.run prev cs, ∃ b ∈ s.run (a.last prev) a.left, m = a.andThen b := mem_followed

theorem mem_alt : m ∈ (Re.alt r s).run prev cs ↔ m ∈ r.run prev cs ∨ m ∈ s.run prev cs := List.mem_append

theorem mem_group {name : ν} : m ∈ (Re.group name r).run prev cs ↔
    ∃ a ∈ r.run prev cs, m = { a with groups := (name, a.taken) :: a.groups } := by
  show m ∈ (r.run prev cs).map _ ↔ _
  simp only [List.mem_map, eq_comm]

/-- **What holds of nothing, and with one more repetition, holds of any number of them**: `P k` is what
`k` repetitions, at least, make of a text. -/
theorem rep_rec {P : Nat → List α → Match α ν → Prop} (none' : ∀ cs, P 0 cs (.nothing cs))
    (one : ∀ k prev cs, ∀ a ∈ r.run prev cs, ∀ b, P k a.left b → P (k + 1) cs (a.andThen b))
    (weaken : ∀ cs m, P 1 cs m → P 0 cs m) {least : Nat} {more : Option Nat} :
    ∀ m ∈ (Re.rep least more r).run prev cs, P least cs m := by
  have extra : ∀ k prev cs, ∀ m ∈ upTo r.run k prev cs, P 0 cs m := by
    intro k
    induction k with
    | zero =>
      intro prev cs m listed
      rw [List.mem_singleton.mp listed]
      exact none' cs
    | succ k ih =>
      intro prev cs m listed
      rcases List.mem_append.mp listed with again | less
      · obtain ⟨a, first, b, second, rfl⟩ := mem_followed.mp again
        exact weaken _ _ (one 0 prev cs a first b (ih _ _ b second))
      · rw [List.mem_singleton.mp less]
        exact none' cs
  show ∀ m ∈ exactly r.run (upTo r.run (more.getD cs.length)) least prev cs, P least cs m
  generalize more.getD cs.length = most
  induction least generalizing prev cs with
  | zero => exact extra most prev cs
  | succ least ih =>
    intro m listed
    obtain ⟨a, first, b, second, rfl⟩ := mem_followed.mp listed
    exact one least prev cs a first b (ih b second)

/-- **What a match takes, and what it leaves, is the text.** -/
theorem run_text (r : Re α ν) (prev : Option α) (cs : List α) :
    ∀ m ∈ r.run prev cs, m.taken ++ m.left = cs := by
  -- A match and one of what it left: together they take the text apart.
  have both : ∀ {a b : Match α ν} {cs : List α}, a.taken ++ a.left = cs → b.taken ++ b.left = a.left →
      (a.andThen b).taken ++ (a.andThen b).left = cs := by
    intro a b cs first second
    rw [Match.andThen, List.append_assoc, second, first]
  induction r generalizing prev cs with
  | look p =>
    intro m listed
    obtain ⟨-, rfl⟩ := mem_look.mp listed
    rfl
  | chars p =>
    intro m listed
    obtain ⟨c, rest, rfl, -, rfl⟩ := mem_chars.mp listed
    rfl
  | seq r s hr hs =>
    intro m listed
    obtain ⟨a, first, b, second, rfl⟩ := mem_seq.mp listed
    exact both (hr prev cs a first) (hs _ _ b second)
  | alt r s hr hs =>
    intro m listed
    rcases mem_alt.mp listed with one | other
    · exact hr prev cs m one
    · exact hs prev cs m other
  | rep least more r hr =>
    exact rep_rec (P := fun _ cs m => m.taken ++ m.left = cs) (fun _ => rfl)
      (fun _ prev cs a first b second => both (hr prev cs a first) second) fun _ _ same => same
  | group name r hr =>
    intro m listed
    obtain ⟨a, first, rfl⟩ := mem_group.mp listed
    exact hr prev cs a first

/-- **A match takes only what its expression may take.** -/
theorem run_takes (r : Re α ν) (prev : Option α) (cs : List α) :
    ∀ m ∈ r.run prev cs, ∀ c ∈ m.taken, r.takes c = true := by
  induction r generalizing prev cs with
  | look p =>
    intro m listed
    obtain ⟨-, rfl⟩ := mem_look.mp listed
    exact fun c absurd' => absurd absurd' List.not_mem_nil
  | chars p =>
    intro m listed
    obtain ⟨c, rest, -, own, rfl⟩ := mem_chars.mp listed
    intro d same
    rwa [List.mem_singleton.mp same]
  | seq r s hr hs =>
    intro m listed
    obtain ⟨a, first, b, second, rfl⟩ := mem_seq.mp listed
    refine List.forall_mem_append.mpr ⟨fun c own => ?_, fun c own => ?_⟩
    · exact Bool.or_eq_true_iff.mpr (.inl (hr prev cs a first c own))
    · exact Bool.or_eq_true_iff.mpr (.inr (hs _ _ b second c own))
  | alt r s hr hs =>
    intro m listed c own
    rcases mem_alt.mp listed with one | other
    · exact Bool.or_eq_true_iff.mpr (.inl (hr prev cs m one c own))
    · exact Bool.or_eq_true_iff.mpr (.inr (hs prev cs m other c own))
  | rep least more r hr =>
    refine rep_rec (P := fun _ _ m => ∀ c ∈ m.taken, r.takes c = true)
      (fun _ c absurd' => absurd absurd' List.not_mem_nil) ?_ fun _ _ same => same
    exact fun _ prev cs a first b second => List.forall_mem_append.mpr ⟨hr prev cs a first, second⟩
  | group name r hr =>
    intro m listed
    obtain ⟨a, first, rfl⟩ := mem_group.mp listed
    exact hr prev cs a first

theorem get_andThen [BEq ν] {a b : Match α ν} {name : ν} :
    (a.andThen b).get name = (b.get name).or (a.get name) :=
  List.lookup_append

theorem get_group [BEq ν] [ReflBEq ν] {a : Match α ν} {name : ν} {text : List α} :
    Match.get { a with groups := (name, text) :: a.groups } name = some text :=
  List.lookup_cons_self

theorem get_group_other [BEq ν] {a : Match α ν} {name other : ν} {text : List α}
    (different : (name == other) = false) :
    Match.get { a with groups := (other, text) :: a.groups } name = a.get name := by
  show List.lookup name ((other, text) :: a.groups) = _
  rw [List.lookup_cons, different]
  rfl

/-- **A match has no group that its expression does not name.** -/
theorem run_get_none [BEq ν] {name : ν} {r : Re α ν} (unnamed : r.names name = false)
    (prev : Option α) (cs : List α) :
    ∀ m ∈ r.run prev cs, m.get name = none := by
  induction r generalizing prev cs with
  | look p =>
    intro m listed
    obtain ⟨-, rfl⟩ := mem_look.mp listed
    rfl
  | chars p =>
    intro m listed
    obtain ⟨c, rest, -, -, rfl⟩ := mem_chars.mp listed
    rfl
  | seq r s hr hs =>
    intro m listed
    obtain ⟨one, two⟩ := Bool.or_eq_false_iff.mp unnamed
    obtain ⟨a, first, b, second, rfl⟩ := mem_seq.mp listed
    rw [get_andThen, hr one prev cs a first, hs two _ _ b second]
    rfl
  | alt r s hr hs =>
    intro m listed
    obtain ⟨left, right⟩ := Bool.or_eq_false_iff.mp unnamed
    rcases mem_alt.mp listed with one | other
    · exact hr left prev cs m one
    · exact hs right prev cs m other
  | rep least more r hr =>
    refine rep_rec (P := fun _ _ m => m.get name = none) (fun _ => rfl) ?_ fun _ _ same => same
    intro _ prev cs a first b second
    rw [get_andThen, hr unnamed prev cs a first, second]
    rfl
  | group other r hr =>
    intro m listed
    obtain ⟨different, inner⟩ := Bool.or_eq_false_iff.mp unnamed
    obtain ⟨a, first, rfl⟩ := mem_group.mp listed
    rw [get_group_other different, hr inner prev cs a first]

/-- What a word takes is the word. -/
theorem run_lit [BEq α] [LawfulBEq α] {word : List α} : ∀ {prev : Option α} {cs : List α},
    ∀ m ∈ (Re.lit word : Re α ν).run prev cs, m.taken = word := by
  induction word with
  | nil =>
    intro prev cs m listed
    obtain ⟨-, rfl⟩ := mem_look.mp listed
    rfl
  | cons c word ih =>
    intro prev cs m listed
    have one : ∀ {prev cs}, ∀ a ∈ (Re.chars (· == c) : Re α ν).run prev cs, a.taken = [c] := by
      intro prev cs a listed
      obtain ⟨d, rest, -, own, rfl⟩ := mem_chars.mp listed
      rw [eq_of_beq own]
    cases word with
    | nil => exact one m listed
    | cons d word =>
      obtain ⟨a, first, b, second, rfl⟩ := mem_seq.mp listed
      rw [Match.andThen, one a first, ih b second]
      rfl

end Matches

section Needs

variable {α ν : Type} {r s : Re α ν} {K : α → Bool} {m n : Nat}

/-- **Every match takes at least so many characters of a class.** -/
def Needs (K : α → Bool) (n : Nat) (r : Re α ν) : Prop :=
  ∀ prev cs, ∀ a ∈ r.run prev cs, n ≤ a.taken.countP K

theorem Needs.none (r : Re α ν) : Needs K 0 r := fun _ _ _ _ => Nat.zero_le _

theorem Needs.mono (needs : Needs K n r) (fewer : m ≤ n) : Needs K m r :=
  fun prev cs a listed => Nat.le_trans fewer (needs prev cs a listed)

theorem Needs.wider {J : α → Bool} (needs : Needs K n r) (within : ∀ c, K c = true → J c = true) :
    Needs J n r :=
  fun prev cs a listed => Nat.le_trans (needs prev cs a listed)
    (List.countP_mono_left fun c _ => within c)

theorem Needs.chars {p : α → Bool} (within : ∀ c, p c = true → K c = true) :
    Needs K 1 (Re.chars p : Re α ν) := by
  intro prev cs a listed
  obtain ⟨c, rest, -, own, rfl⟩ := mem_chars.mp listed
  simp [within c own]

theorem Needs.seq (first : Needs K m r) (second : Needs K n s) : Needs K (m + n) (.seq r s) := by
  intro prev cs a listed
  obtain ⟨a, one, b, two, rfl⟩ := mem_seq.mp listed
  have both := Nat.add_le_add (first prev cs a one) (second _ _ b two)
  rwa [← List.countP_append] at both

theorem Needs.alt (first : Needs K n r) (second : Needs K n s) : Needs K n (.alt r s) := by
  intro prev cs a listed
  rcases mem_alt.mp listed with one | other
  · exact first prev cs a one
  · exact second prev cs a other

theorem Needs.rep {least : Nat} {more : Option Nat} (each : Needs K n r) :
    Needs K (least * n) (.rep least more r) := by
  intro prev cs
  refine rep_rec (P := fun k _ a => k * n ≤ a.taken.countP K) (fun _ => by simp) ?_ ?_
  · intro k prev cs a one b rest
    have both := Nat.add_le_add (each prev cs a one) rest
    rw [← List.countP_append] at both
    rw [Nat.succ_mul, Nat.add_comm]
    exact both
  · intro _ a _
    simp

/-- A text with too few characters of the class has no match. -/
theorem Needs.run_few {prev : Option α} {cs : List α} (needs : Needs K n r) (few : cs.countP K < n) :
    r.run prev cs = [] := by
  refine List.eq_nil_iff_forall_not_mem.mpr fun a listed => ?_
  have enough := needs prev cs a listed
  have text := congrArg (List.countP K) (run_text r prev cs a listed)
  rw [List.countP_append] at text
  omega

theorem Needs.group {name : ν} (inner : Needs K n r) : Needs K n (.group name r) := by
  intro prev cs a listed
  obtain ⟨a, one, rfl⟩ := mem_group.mp listed
  exact inner prev cs a one

theorem Needs.lit [BEq α] [LawfulBEq α] {c : α} {word : List α} (own : K c = true) :
    Needs K 1 (Re.lit (c :: word) : Re α ν) := by
  intro prev cs a listed
  rw [run_lit a listed, List.countP_cons_of_pos own]
  exact Nat.le_add_left 1 _

/-- **Every match begins with a character of a class.** -/
def Begins (K : α → Bool) (r : Re α ν) : Prop :=
  ∀ prev cs, ∀ a ∈ r.run prev cs, ∃ c rest, a.taken = c :: rest ∧ K c = true

theorem Begins.chars (p : α → Bool) : Begins p (Re.chars p : Re α ν) := by
  intro prev cs a listed
  obtain ⟨c, rest, -, own, rfl⟩ := mem_chars.mp listed
  exact ⟨c, [], rfl, own⟩

theorem Begins.seq (first : Begins K r) (s : Re α ν) : Begins K (.seq r s) := by
  intro prev cs a listed
  obtain ⟨a, one, b, two, rfl⟩ := mem_seq.mp listed
  obtain ⟨c, rest, taken, own⟩ := first prev cs a one
  exact ⟨c, rest ++ b.taken, by rw [Match.andThen, taken]; rfl, own⟩

theorem Begins.group {name : ν} (inner : Begins K r) : Begins K (.group name r) := by
  intro prev cs a listed
  obtain ⟨a, one, rfl⟩ := mem_group.mp listed
  exact inner prev cs a one

theorem Begins.rep {least : Nat} {more : Option Nat} (inner : Begins K r) :
    Begins K (.rep (least + 1) more r) := by
  intro prev cs a listed
  obtain ⟨a, one, b, two, rfl⟩ := mem_followed.mp listed
  obtain ⟨c, rest, taken, own⟩ := inner prev cs a one
  exact ⟨c, rest ++ b.taken, by rw [Match.andThen, taken]; rfl, own⟩

theorem Begins.mono {J : α → Bool} (begins : Begins K r) (within : ∀ c, K c = true → J c = true) :
    Begins J r := by
  intro prev cs a listed
  obtain ⟨c, rest, taken, own⟩ := begins prev cs a listed
  exact ⟨c, rest, taken, within c own⟩

theorem Begins.alt (first : Begins K r) (second : Begins K s) : Begins K (.alt r s) := by
  intro prev cs a listed
  rcases mem_alt.mp listed with one | other
  · exact first prev cs a one
  · exact second prev cs a other

theorem Begins.lit [BEq α] [LawfulBEq α] {c : α} {word : List α} (own : K c = true) :
    Begins K (Re.lit (c :: word) : Re α ν) :=
  fun _ _ a listed => ⟨c, word, run_lit a listed, own⟩

theorem Begins.run_other {prev : Option α} {c : α} {cs : List α} (begins : Begins K r)
    (other : K c = false) :
    r.run prev (c :: cs) = [] := by
  refine List.eq_nil_iff_forall_not_mem.mpr fun a listed => ?_
  obtain ⟨d, rest, taken, own⟩ := begins prev _ a listed
  have text := run_text r prev _ a listed
  rw [taken] at text
  obtain ⟨rfl, -⟩ := List.cons.inj text
  rw [other] at own
  cases own

/-- **Every match has a part without the mark, of two characters or more, with one of a class.** -/
def Solid (K : α → Bool) (mark : α) (r : Re α ν) : Prop :=
  ∀ prev cs, ∀ a ∈ r.run prev cs, ∃ u part v, a.taken = u ++ part ++ v ∧ 2 ≤ part.length ∧
    (∃ c ∈ part, K c = true) ∧ mark ∉ part

variable {mark : α}

theorem Solid.whole (two : Needs (fun _ => true) 2 r) (one : Needs K 1 r) (other : r.takes mark = false) :
    Solid K mark r := by
  intro prev cs a listed
  have long := two prev cs a listed
  rw [List.countP_true] at long
  refine ⟨[], a.taken, [], by simp, long, List.countP_pos_iff.mp (one prev cs a listed), fun held => ?_⟩
  rw [run_takes r prev cs a listed mark held] at other
  cases other

/-- One of the class, and what comes after it. -/
theorem Solid.across (first : Needs K 1 r) (second : Needs (fun _ => true) 1 s)
    (one : r.takes mark = false)
    (two : s.takes mark = false) (t : Re α ν) : Solid K mark (.seq r (.seq s t)) := by
  intro prev cs a listed
  obtain ⟨a, ha, rest, hrest, rfl⟩ := mem_seq.mp listed
  obtain ⟨b, hb, c, hc, rfl⟩ := mem_seq.mp hrest
  have here := first prev cs a ha
  have next := second _ _ b hb
  have some' : a.taken.countP K ≤ a.taken.length := List.countP_le_length
  rw [List.countP_true] at next
  obtain ⟨d, held, own⟩ := List.countP_pos_iff.mp here
  refine ⟨[], a.taken ++ b.taken, c.taken, by simp [Match.andThen], ?_, ⟨d, by simp [held], own⟩,
    fun absurd' => ?_⟩
  · rw [List.length_append]
    omega
  · rcases List.mem_append.mp absurd' with left | right
    · rw [run_takes r prev cs a ha mark left] at one
      cases one
    · rw [run_takes s _ _ b hb mark right] at two
      cases two

theorem Solid.left (first : Solid K mark r) (s : Re α ν) : Solid K mark (.seq r s) := by
  intro prev cs a listed
  obtain ⟨a, one, b, two, rfl⟩ := mem_seq.mp listed
  obtain ⟨u, part, v, taken, solid⟩ := first prev cs a one
  exact ⟨u, part, v ++ b.taken, by rw [Match.andThen, taken]; simp, solid⟩

theorem Solid.right (r : Re α ν) (second : Solid K mark s) : Solid K mark (.seq r s) := by
  intro prev cs a listed
  obtain ⟨a, one, b, two, rfl⟩ := mem_seq.mp listed
  obtain ⟨u, part, v, taken, solid⟩ := second _ _ b two
  exact ⟨a.taken ++ u, part, v, by rw [Match.andThen, taken]; simp, solid⟩

theorem Solid.group {name : ν} (inner : Solid K mark r) : Solid K mark (.group name r) := by
  intro prev cs a listed
  obtain ⟨a, one, rfl⟩ := mem_group.mp listed
  exact inner prev cs a one

/-- A text in which the characters of a class stand between marks. -/
def Lone (K : α → Bool) (mark : α) (cs : List α) : Prop :=
  cs.IsChain fun a b => (K a = true → b = mark) ∧ (K b = true → a = mark)

theorem Lone.part {part cs : List α} (lone : Lone K mark cs) (within : part <:+: cs) : Lone K mark part :=
  List.IsChain.infix lone within

/-- In such a text nothing solid is matched. -/
theorem Solid.run_lone {prev : Option α} {cs : List α} (solid : Solid K mark r) (lone : Lone K mark cs) :
    r.run prev cs = [] := by
  refine List.eq_nil_iff_forall_not_mem.mpr fun a listed => ?_
  obtain ⟨u, part, v, taken, long, ⟨c, held, own⟩, none'⟩ := solid prev cs a listed
  have within : part <:+: cs := ⟨u, v ++ a.left, by
    rw [← run_text r prev cs a listed, taken]
    simp only [List.append_assoc]⟩
  have chain : List.IsChain _ part := Lone.part lone within
  obtain ⟨before, after, rfl⟩ := List.append_of_mem held
  cases after with
  | cons d after =>
    have next := (List.isChain_cons_cons.mp (List.isChain_append.mp chain).2.1).1.1 own
    exact none' (by simp [next])
  | nil =>
    rcases List.eq_nil_or_concat before with rfl | ⟨before, d, rfl⟩
    · simp at long
    · rw [List.concat_eq_append] at chain none'
      have last := (List.isChain_append.mp chain).2.2 d (by simp) c rfl
      exact none' (by simp [last.2 own])

end Needs

section Preferred

variable {α ν : Type} {r s : Re α ν} {prev : Option α} {cs : List α} {p : α → Bool} {m : Match α ν}

/-- The preferred match of one matcher after the other, where the first one's goes on. -/
theorem followed_head {first second : Matcher α ν} {a b : Match α ν}
    (one : (first prev cs).head? = some a)
    (two : (second (a.last prev) a.left).head? = some b) :
    (followed first second prev cs).head? = some (a.andThen b) := by
  obtain ⟨as, firsts⟩ := List.head?_eq_some_iff.mp one
  obtain ⟨bs, seconds⟩ := List.head?_eq_some_iff.mp two
  unfold followed
  rw [firsts, List.flatMap_cons, seconds]
  rfl

theorem chars_head {c : α} (own : p c = true) : ((Re.chars p : Re α ν).run prev (c :: cs)).head? =
    some ⟨[c], cs, []⟩ := by
  show (if p c then [Match.mk [c] cs []] else []).head? = _
  rw [if_pos own]
  rfl

theorem group_head {name : ν} {a : Match α ν} (inner : (r.run prev cs).head? = some a) :
    ((Re.group name r).run prev cs).head? = some { a with groups := (name, a.taken) :: a.groups } := by
  show ((r.run prev cs).map _).head? = _
  rw [List.head?_map, inner]
  rfl

theorem alt_head {a : Match α ν} (inner : (r.run prev cs).head? = some a) :
    ((Re.alt r s).run prev cs).head? = some a := by
  show (r.run prev cs ++ s.run prev cs).head? = _
  rw [List.head?_append, inner]
  rfl

theorem opt_head {a : Match α ν} (inner : (r.run prev cs).head? = some a) :
    (r.opt.run prev cs).head? = some ⟨a.taken, a.left, a.groups⟩ := by
  have whole : (followed r.run (upTo r.run 0) prev cs).head? = some (a.andThen (.nothing a.left)) :=
    followed_head inner rfl
  show (followed r.run (upTo r.run 0) prev cs ++ [Match.nothing cs]).head? = _
  rw [List.head?_append, whole]
  simp [Match.andThen, Match.nothing]

theorem opt_head_none (none' : r.run prev cs = []) : (r.opt.run prev cs).head? = some (.nothing cs) := by
  show (followed r.run (upTo r.run 0) prev cs ++ [Match.nothing cs]).head? = _
  unfold followed
  rw [none']
  rfl

/-- Repetitions of one class take as many of its characters as there are. -/
theorem upTo_head {k : Nat} (enough : (cs.takeWhile p).length ≤ k) :
    (upTo (Re.chars p : Re α ν).run k prev cs).head? = some ⟨cs.takeWhile p, cs.dropWhile p, []⟩ := by
  induction k generalizing prev cs with
  | zero =>
    have none' : cs.takeWhile p = [] := List.eq_nil_of_length_eq_zero (Nat.le_zero.mp enough)
    have all : cs.dropWhile p = cs := by
      have whole := List.takeWhile_append_dropWhile (p := p) (l := cs)
      rw [none'] at whole
      exact whole
    rw [none', all]
    rfl
  | succ k ih =>
    show (followed _ _ prev cs ++ [Match.nothing cs]).head? = _
    rw [List.head?_append]
    cases cs with
    | nil => rfl
    | cons c cs =>
      by_cases own : p c = true
      · rw [List.takeWhile_cons_of_pos own, List.length_cons] at enough
        have rest : (upTo (Re.chars p : Re α ν).run k (some c) cs).head? = _ :=
          ih (Nat.le_of_succ_le_succ enough)
        rw [followed_head (chars_head own) rest, List.takeWhile_cons_of_pos own,
          List.dropWhile_cons_of_pos own]
        rfl
      · have none' : (Re.chars p : Re α ν).run prev (c :: cs) = [] := if_neg own
        have nothing : followed (Re.chars p : Re α ν).run (upTo (Re.chars p).run k) prev (c :: cs) =
          [] := by
          unfold followed
          rw [none']
          rfl
        rw [nothing, List.takeWhile_cons_of_neg own, List.dropWhile_cons_of_neg own]
        rfl

theorem star_head : ((Re.chars p : Re α ν).star.run prev cs).head? =
    some ⟨cs.takeWhile p, cs.dropWhile p, []⟩ :=
  upTo_head (List.takeWhile_prefix p).length_le

/-- At least one character of a class, and as many as there are. -/
theorem rep_one_head {c : α} {more : Option Nat} (own : p c = true)
    (enough : (cs.takeWhile p).length ≤ more.getD (cs.length + 1)) :
    ((Re.rep 1 more (.chars p) : Re α ν).run prev (c :: cs)).head? =
      some ⟨c :: cs.takeWhile p, cs.dropWhile p, []⟩ :=
  followed_head (chars_head own) (upTo_head enough)

theorem plus_head {c : α} (own : p c = true) : ((Re.chars p : Re α ν).plus.run prev (c :: cs)).head? =
    some ⟨c :: cs.takeWhile p, cs.dropWhile p, []⟩ :=
  rep_one_head own (Nat.le_succ_of_le (List.takeWhile_prefix p).length_le)

/-- A block of a class, and what does not go on with it. -/
theorem takeWhile_block {xs ys : List α} (all : ∀ c ∈ xs, p c = true)
    (ends : ∀ c ∈ ys.head?, p c = false) :
    (xs ++ ys).takeWhile p = xs ∧ (xs ++ ys).dropWhile p = ys := by
  have none' : ys.takeWhile p = [] ∧ ys.dropWhile p = ys := by
    cases ys with
    | nil => exact ⟨rfl, rfl⟩
    | cons y ys =>
      have other : ¬p y = true := by simp [ends y rfl]
      exact ⟨List.takeWhile_cons_of_neg other, List.dropWhile_cons_of_neg other⟩
  rw [List.takeWhile_append_of_pos all, List.dropWhile_append_of_pos all, none'.1, none'.2,
    List.append_nil]
  exact ⟨rfl, rfl⟩

theorem star_block {xs ys : List α} (all : ∀ c ∈ xs, p c = true) (ends : ∀ c ∈ ys.head?, p c = false) :
    ((Re.chars p : Re α ν).star.run prev (xs ++ ys)).head? = some ⟨xs, ys, []⟩ := by
  obtain ⟨taken, left⟩ := takeWhile_block all ends
  rw [star_head, taken, left]

/-- A block of a class, which is not longer than may be taken, is taken whole. -/
theorem rep_block {xs ys : List α} {most : Nat} (some' : xs ≠ []) (few : xs.length ≤ most + 1)
    (all : ∀ c ∈ xs, p c = true) (ends : ∀ c ∈ ys.head?, p c = false) :
    ((Re.rep 1 (some most) (.chars p) : Re α ν).run prev (xs ++ ys)).head? = some ⟨xs, ys, []⟩ := by
  cases xs with
  | nil => exact absurd rfl some'
  | cons x xs =>
    obtain ⟨own, rest⟩ := List.forall_mem_cons.mp all
    obtain ⟨taken, left⟩ := takeWhile_block rest ends
    rw [List.cons_append, rep_one_head own, taken, left]
    rw [taken]
    exact Nat.le_of_succ_le_succ few

theorem mem_opt : m ∈ r.opt.run prev cs → m = .nothing cs ∨ ∃ a ∈ r.run prev cs, m.taken = a.taken ∧
    m.left = a.left := by
  intro listed
  rcases List.mem_append.mp listed with again | less
  · obtain ⟨a, one, b, two, rfl⟩ := mem_followed.mp again
    rw [List.mem_singleton.mp two]
    exact .inr ⟨a, one, List.append_nil _, rfl⟩
  · exact .inl (List.mem_singleton.mp less)

end Preferred

section Replacing

variable {α ν : Type} {r : Re α ν} {f : Match α ν → List α} {prev : Option α} {cs : List α}
    {m : Match α ν}

theorem first_some (found : r.first prev cs = some m) : m ∈ r.run prev cs ∧ m.taken ≠ [] := by
  obtain ⟨head, some'⟩ := Option.filter_eq_some_iff.mp found
  exact ⟨List.mem_of_mem_head? head, by simpa using some'⟩

theorem first_text (found : r.first prev cs = some m) : m.taken ++ m.left = cs :=
  run_text r prev cs m (first_some found).1

theorem replaceFrom_skip (xs ys : List α) : r.replaceFrom f prev xs.length (xs ++ ys) =
    r.replaceFrom f (xs.getLast?.or prev) 0 ys := by
  induction xs generalizing prev with
  | nil => rfl
  | cons x xs ih =>
    have last : (x :: xs).getLast?.or prev = xs.getLast?.or (some x) := by
      cases xs with
      | nil => rfl
      | cons y xs => simp [List.getLast?_cons]
    rw [List.cons_append, List.length_cons, last, ← ih]
    cases h : xs ++ ys <;> rfl

attribute [local simp] Re.replaceFrom in
/-- What is replaced here: the match, and the rest after it. -/
theorem replaceFrom_hit (found : r.first prev cs = some m) :
    r.replaceFrom f prev 0 cs = f m ++ r.replaceFrom f (m.last prev) 0 m.left := by
  have text := first_text found
  obtain ⟨c, taken, same⟩ := List.exists_cons_of_ne_nil (first_some found).2
  obtain ⟨rest, left, groups⟩ := m
  subst same
  subst text
  have skip : r.replaceFrom f (some c) taken.length (taken ++ left) = _ := replaceFrom_skip taken left
  have last : (c :: taken).getLast?.or prev = taken.getLast?.or (some c) := by
    cases taken with
    | nil => rfl
    | cons d taken => simp [List.getLast?_cons]
  dsimp only [List.cons_append] at found ⊢
  rw [Re.replaceFrom, found]
  show f _ ++ r.replaceFrom f (some c) (taken.length + 1 - 1) (taken ++ left) = _
  rw [Nat.add_sub_cancel, skip, Match.last, last]

theorem replaceFrom_pass {c : α} (none' : r.first prev (c :: cs) = none) :
    r.replaceFrom f prev 0 (c :: cs) = c :: r.replaceFrom f (some c) 0 cs := by
  rw [Re.replaceFrom, none']

/-- **The induction over a replacement**: a character that is passed, or a match that is replaced. -/
theorem replace_rec {P : Option α → List α → List α → Prop} (nil : ∀ prev, P prev [] [])
    (pass : ∀ prev c cs out, r.first prev (c :: cs) = none → P (some c) cs out →
      P prev (c :: cs) (c :: out))
    (hit : ∀ prev cs m out, r.first prev cs = some m → P (m.last prev) m.left out →
      P prev cs (f m ++ out))
    (prev : Option α) (cs : List α) : P prev cs (r.replaceFrom f prev 0 cs) := by
  induction size : cs.length using Nat.strongRecOn generalizing prev cs with
  | _ size ih =>
    subst size
    cases found : r.first prev cs with
    | some m =>
      rw [replaceFrom_hit found]
      have shorter : m.left.length < cs.length := by
        have text := congrArg List.length (first_text found)
        have some' := List.length_pos_of_ne_nil (first_some found).2
        rw [List.length_append] at text
        omega
      exact hit prev cs m _ found (ih _ shorter _ _ rfl)
    | none =>
      cases cs with
      | nil => exact nil prev
      | cons c cs =>
        rw [replaceFrom_pass found]
        exact pass prev c cs _ found (ih cs.length (Nat.lt_succ_self _) _ _ rfl)

/-- A part at whose places nothing matches is passed. -/
theorem replaceFrom_prefix {xs ys : List α} (none' : ∀ u c v prev, xs = u ++ c :: v →
    r.first prev (c :: (v ++ ys)) = none) :
    r.replaceFrom f prev 0 (xs ++ ys) = xs ++ r.replaceFrom f (xs.getLast?.or prev) 0 ys := by
  induction xs generalizing prev with
  | nil => rfl
  | cons x xs ih =>
    have last : (x :: xs).getLast?.or prev = xs.getLast?.or (some x) := by
      cases xs with
      | nil => rfl
      | cons y xs => simp [List.getLast?_cons]
    rw [List.cons_append, replaceFrom_pass (none' [] x xs prev rfl), last,
      ih fun u c v prev same => none' (x :: u) c v prev (by rw [same]; rfl)]
    rfl

/-- A part without the characters that a match begins with is passed. -/
theorem replaceFrom_begins {K : α → Bool} {xs ys : List α} (begins : Begins K r)
    (other : ∀ c ∈ xs, K c = false) :
    r.replaceFrom f prev 0 (xs ++ ys) = xs ++ r.replaceFrom f (xs.getLast?.or prev) 0 ys := by
  refine replaceFrom_prefix fun u c v prev same => ?_
  have own : K c = false := other c (by rw [same]; simp)
  rw [Re.first, begins.run_other own]
  rfl

/-- **A text with too few characters of a class is left alone.** -/
theorem replace_few {K : α → Bool} {n : Nat} (needs : Needs K n r) (few : cs.countP K < n) :
    r.replaceFrom f prev 0 cs = cs := by
  refine replace_rec (P := fun _ cs out => cs.countP K < n → out = cs) (fun _ _ => rfl) ?_ ?_ prev cs few
  · intro prev c cs out _ ih few
    rw [List.countP_cons] at few
    rw [ih (by omega)]
  · intro prev cs m out found _ few
    have enough := needs prev cs m (first_some found).1
    have text := congrArg (List.countP K) (first_text found)
    rw [List.countP_append] at text
    omega

/-- A text in which the characters of a class stand between marks is left alone by what takes more
of it. -/
theorem replace_lone {K : α → Bool} {mark : α} (solid : Solid K mark r) (lone : Lone K mark cs) :
    r.replaceFrom f prev 0 cs = cs := by
  have passed : r.replaceFrom f prev 0 (cs ++ []) = cs ++ r.replaceFrom f (cs.getLast?.or prev) 0 [] := by
    refine replaceFrom_prefix fun u c v prev same => ?_
    have part : c :: (v ++ []) <:+: cs := ⟨u, [], by rw [same]; simp⟩
    rw [Re.first, solid.run_lone (Lone.part lone part)]
    rfl
  rw [List.append_nil] at passed
  rw [passed, Re.replaceFrom, List.append_nil]

/-- **A text is replaced part by part**, when each part is, whatever follows it. -/
theorem replaceFrom_flatMap {β : Type} {xs : List β} {h g : β → List α}
    (each : ∀ x ∈ xs, ∀ prev ys, ∃ prev',
    r.replaceFrom f prev 0 (h x ++ ys) = g x ++ r.replaceFrom f prev' 0 ys) :
    r.replaceFrom f prev 0 (xs.flatMap h) = xs.flatMap g := by
  induction xs generalizing prev with
  | nil => rfl
  | cons x xs ih =>
    obtain ⟨own, rest⟩ := List.forall_mem_cons.mp each
    obtain ⟨prev', head⟩ := own prev (xs.flatMap h)
    rw [List.flatMap_cons, List.flatMap_cons, head, ih rest]

/-- **What every replacement keeps of its match is kept in the text.** -/
theorem replace_countP_ge {K : α → Bool}
    (more : ∀ prev cs m, r.first prev cs = some m → m.taken.countP K ≤ (f m).countP K) :
    cs.countP K ≤ (r.replaceFrom f prev 0 cs).countP K := by
  refine replace_rec (P := fun _ cs out => cs.countP K ≤ out.countP K)
    (fun _ => Nat.le_refl 0) ?_ ?_ prev cs
  · intro prev c cs out _ ih
    rw [List.countP_cons, List.countP_cons]
    omega
  · intro prev cs m out found ih
    have one := more prev cs m found
    rw [← first_text found, List.countP_append, List.countP_append]
    omega

/-- **A replacement that keeps what leads to the characters of a class**: from what is kept on, a match
comes to such a character through characters of another. -/
def Leads (K J : α → Bool) (r : Re α ν) (f : Match α ν → List α) : Prop :=
  ∀ prev cs m, r.first prev cs = some m → ∃ kept lead d rest said,
    m.taken = kept ++ lead ++ d :: rest ∧ f m = kept ++ said ∧ (∀ c ∈ lead, J c = true) ∧ K d = true

/-- A beginning that has no such character, and does not lead to one, is within what is kept. -/
theorem prefix_kept {K J : α → Bool} {xs ys kept lead rest : List α} {d : α}
    (text : xs ++ ys = kept ++ lead ++ d :: rest) (clean : ∀ c ∈ xs, K c = false)
    (ends : ∀ c ∈ xs.getLast?, J c = false) (leading : ∀ c ∈ lead, J c = true) (own : K d = true) :
    xs <+: kept := by
  -- A part of what leads to the character cannot end the beginning.
  have within : ∀ {more as : List α}, kept ++ lead = xs ++ as → xs = kept ++ more →
    lead = more ++ as → xs <+: kept := by
    intro more as _ same split'
    cases last : more.getLast? with
    | none =>
      rw [List.getLast?_eq_none_iff.mp last, List.append_nil] at same
      exact ⟨[], by rw [same, List.append_nil]⟩
    | some e =>
      have some' : more ≠ [] := by
        rintro rfl
        cases last
      have other : J e = false := ends e (by rw [same, List.getLast?_append_of_ne_nil _ some', last]; rfl)
      have lead' : J e = true :=
        leading e (by rw [split']; exact List.mem_append_left _ (List.mem_of_getLast? last))
      rw [other] at lead'
      cases lead'
  have beyond : ∃ as, kept ++ lead = xs ++ as := by
    rcases List.append_eq_append_iff.mp text with ⟨as, same, -⟩ | ⟨bs, same, rest'⟩
    · exact ⟨as, same⟩
    · cases bs with
      | nil => exact ⟨[], by rw [same, List.append_nil, List.append_nil]⟩
      | cons e bs =>
        obtain ⟨rfl, -⟩ := List.cons.inj rest'
        have other := clean d (by rw [same]; simp)
        rw [own] at other
        cases other
  obtain ⟨as, same⟩ := beyond
  rcases List.append_eq_append_iff.mp same with ⟨cs, left, right⟩ | ⟨cs, left, right⟩
  · exact within same left right
  · exact ⟨cs, left.symm⟩

/-- **A beginning without such characters, that does not lead to one, is kept.** -/
theorem replace_leads {K J : α → Bool} (leads : Leads K J r f) {xs ys : List α}
    (clean : ∀ c ∈ xs, K c = false)
    (ends : ∀ c ∈ xs.getLast?, J c = false) : xs <+: r.replaceFrom f prev 0 (xs ++ ys) := by
  induction xs generalizing prev with
  | nil => exact List.nil_prefix
  | cons x xs ih =>
    cases found : r.first prev (x :: (xs ++ ys)) with
    | none =>
      rw [List.cons_append, replaceFrom_pass found]
      refine (List.prefix_cons_inj x).mpr (ih (List.forall_mem_cons.mp clean).2 fun c last => ends c ?_)
      have some' : xs ≠ [] := by
        rintro rfl
        cases last
      rwa [List.getLast?_cons_of_ne_nil some']
    | some m =>
      obtain ⟨kept, lead, d, rest, said, taken, out, leading, own⟩ := leads prev _ m found
      have text := first_text found
      rw [taken, List.append_assoc, List.cons_append] at text
      have beyond : x :: xs <+: kept := prefix_kept text.symm clean ends leading own
      rw [List.cons_append, replaceFrom_hit found, out]
      exact (beyond.trans (List.prefix_append _ _)).trans (List.prefix_append _ _)

/-- **What is matched wherever it stands, and stands in no replacement, is gone.** -/
theorem replace_clears {K : α → Bool} (here : ∀ prev c cs, K c = true → r.first prev (c :: cs) ≠ none)
    (clean : ∀ prev cs m, r.first prev cs = some m → ∀ c ∈ f m, K c = false) :
    ∀ c ∈ r.replaceFrom f prev 0 cs, K c = false := by
  refine replace_rec (P := fun _ _ out => ∀ c ∈ out, K c = false) (fun _ => by simp) ?_ ?_ prev cs
  · intro prev c cs out none' ih
    refine List.forall_mem_cons.mpr ⟨?_, ih⟩
    by_contra own
    exact here prev c cs (by simpa using own) none'
  · intro prev cs m out found ih
    exact List.forall_mem_append.mpr ⟨clean prev cs m found, ih⟩

end Replacing

end Regex
