/-
**A list as its letters, each with the gap after it.**

Some elements are blank, the others are letters. `runs` takes a list apart: the blanks before its
first letter, and its letters, each with the blanks after it. `write f` puts letters together again,
with what `f` makes of a gap between every two of them.

- `runs_write`: what was written is taken apart into the letters with the gaps written;
- `write_eq_write`: so two ways of writing agree when they agree on every gap between two letters;
- `trim_eq`: a list without the blanks at its ends is its letters written with their own gaps;
- `eq_of_letters`: two starts of a list that end at a letter and have the same letters are the same.
-/
import Mathlib.Data.List.DropRight
import Mathlib.Data.List.Basic

set_option linter.unusedSectionVars false

namespace Gaps

variable {α : Type}

/-- The blanks before the first letter, and the letters, each with the blanks after it. -/
def runs (blank : α → Bool) : List α → List α × List (α × List α)
  | [] => ([], [])
  | c :: cs =>
    if blank c then (c :: (runs blank cs).1, (runs blank cs).2)
    else ([], (c, (runs blank cs).1) :: (runs blank cs).2)

/-- The letters, with what `f` makes of the gap between every two. -/
def write (f : α → List α → List α) : List (α × List α) → List α
  | [] => []
  | [(a, _)] => [a]
  | (a, gap) :: next :: rest => a :: f a gap ++ write f (next :: rest)

/-- The letters with the gaps that `write` writes after them. -/
def gapped (f : α → List α → List α) : List (α × List α) → List (α × List α)
  | [] => []
  | [(a, _)] => [(a, [])]
  | (a, gap) :: next :: rest => (a, f a gap) :: gapped f (next :: rest)

/-- The elements that are not blank. -/
def letters (blank : α → Bool) (cs : List α) : List α := cs.filter fun c => !blank c

section Runs

variable {blank : α → Bool} {c : α} {cs : List α}

attribute [local simp] runs in
theorem runs_blank (own : blank c = true) :
    runs blank (c :: cs) = (c :: (runs blank cs).1, (runs blank cs).2) := by
  simp [own]

theorem runs_letter (own : blank c = false) :
    runs blank (c :: cs) = ([], (c, (runs blank cs).1) :: (runs blank cs).2) := by
  rw [runs, if_neg (by simp [own])]

theorem runs_blanks {w : List α} (blanks : ∀ c ∈ w, blank c = true) (cs : List α) :
    runs blank (w ++ cs) = (w ++ (runs blank cs).1, (runs blank cs).2) := by
  induction w with
  | nil => rfl
  | cons c w ih =>
    obtain ⟨own, rest⟩ := List.forall_mem_cons.mp blanks
    rw [List.cons_append, runs_blank own, ih rest]
    rfl

/-- What stands before the first letter is blank. -/
theorem runs_lead (cs : List α) : ∀ c ∈ (runs blank cs).1, blank c = true := by
  induction cs with
  | nil => exact fun _ listed => absurd listed List.not_mem_nil
  | cons c cs ih =>
    cases own : blank c with
    | true =>
      rw [runs_blank own]
      exact List.forall_mem_cons.mpr ⟨own, ih⟩
    | false =>
      rw [runs_letter own]
      exact fun _ listed => absurd listed List.not_mem_nil

/-- What stands before a letter, and what stands after it. -/
theorem runs_append_letter (xs : List α) (own : blank c = false) (cs : List α) :
    runs blank (xs ++ c :: cs) =
      ((runs blank xs).1, (runs blank xs).2 ++ (c, (runs blank cs).1) :: (runs blank cs).2) := by
  induction xs with
  | nil => exact runs_letter own
  | cons d xs ih =>
    cases first : blank d with
    | true => rw [List.cons_append, runs_blank first, runs_blank first, ih]
    | false => rw [List.cons_append, runs_letter first, runs_letter first, ih, List.cons_append]

/-- The letters are not blank, and the gaps are. -/
theorem runs_letters (cs : List α) :
    ∀ run ∈ (runs blank cs).2, blank run.1 = false ∧ ∀ c ∈ run.2, blank c = true := by
  induction cs with
  | nil => exact fun _ listed => absurd listed List.not_mem_nil
  | cons c cs ih =>
    cases own : blank c with
    | true =>
      rw [runs_blank own]
      exact ih
    | false =>
      rw [runs_letter own]
      exact List.forall_mem_cons.mpr ⟨⟨own, runs_lead cs⟩, ih⟩

theorem letters_eq (cs : List α) : letters blank cs = (runs blank cs).2.map Prod.fst := by
  induction cs with
  | nil => rfl
  | cons c cs ih =>
    cases own : blank c with
    | true =>
      rw [runs_blank own, ← ih]
      simp [letters, own]
    | false =>
      rw [runs_letter own, List.map_cons, ← ih]
      simp [letters, own]

/-- Parts of a list have nothing else than the list. -/
theorem runs_flatten (cs : List α) :
    (runs blank cs).1 ++ (runs blank cs).2.flatMap (fun run => run.1 :: run.2) = cs := by
  induction cs with
  | nil => rfl
  | cons c cs ih =>
    cases own : blank c with
    | true =>
      rw [runs_blank own, List.cons_append, ih]
    | false =>
      rw [runs_letter own, List.nil_append, List.flatMap_cons, List.cons_append, ih]

end Runs

section Writing

variable {blank : α → Bool} {f g : α → List α → List α} {rs : List (α × List α)}

theorem write_cons_of_ne_nil (f : α → List α → List α) (a : α) (gap : List α) (some' : rs ≠ []) :
    write f ((a, gap) :: rs) = a :: f a gap ++ write f rs := by
  obtain ⟨next, rest, rfl⟩ := List.exists_cons_of_ne_nil some'
  rfl

attribute [local simp] write gapped in
theorem write_eq_nil : write f rs = [] ↔ rs = [] := by
  rcases rs with _ | ⟨⟨a, gap⟩, _ | ⟨next, rest⟩⟩ <;> simp

/-- **What was written is taken apart into its letters and the gaps written.** -/
theorem runs_write (apart : ∀ run ∈ rs, blank run.1 = false)
    (gaps : ∀ run ∈ rs, ∀ c ∈ f run.1 run.2, blank c = true) :
    runs blank (write f rs) = ([], gapped f rs) := by
  induction rs with
  | nil => rfl
  | cons run rs ih =>
    obtain ⟨a, gap⟩ := run
    obtain ⟨own, apart'⟩ := List.forall_mem_cons.mp apart
    obtain ⟨blanks, gaps'⟩ := List.forall_mem_cons.mp gaps
    cases rs with
    | nil => simp [write, gapped, runs, own]
    | cons next rest =>
      have below := ih apart' gaps'
      show runs blank (a :: (f a gap ++ write f (next :: rest))) =
        ([], (a, f a gap) :: gapped f (next :: rest))
      rw [runs_letter own, runs_blanks blanks, below, List.append_nil]

theorem gapped_eq_gapped : gapped f rs = gapped g rs ↔
    ∀ run ∈ rs.dropLast, f run.1 run.2 = g run.1 run.2 := by
  induction rs with
  | nil => simp [gapped]
  | cons run rs ih =>
    obtain ⟨a, gap⟩ := run
    cases rs with
    | nil => simp [gapped]
    | cons next rest =>
      rw [gapped, gapped, List.cons.injEq, ih, List.dropLast_cons_cons, List.forall_mem_cons]
      simp

theorem write_flatten (f : α → List α → List α) (rs : List (α × List α)) :
    write f rs = (gapped f rs).flatMap fun run => run.1 :: run.2 := by
  induction rs with
  | nil => rfl
  | cons run rs ih =>
    obtain ⟨a, gap⟩ := run
    cases rs with
    | nil => rfl
    | cons next rest =>
      rw [gapped, List.flatMap_cons, ← ih]
      rfl

theorem gapped_letters (f : α → List α → List α) (rs : List (α × List α)) :
    (gapped f rs).map Prod.fst = rs.map Prod.fst := by
  induction rs with
  | nil => rfl
  | cons run rs ih =>
    cases rs with
    | nil => rfl
    | cons next rest =>
      rw [gapped, List.map_cons, ih]
      rfl

/-- What is written has the letters it was written from. -/
theorem letters_write (apart : ∀ run ∈ rs, blank run.1 = false)
    (gaps : ∀ run ∈ rs, ∀ c ∈ f run.1 run.2, blank c = true) :
    letters blank (write f rs) = rs.map Prod.fst := by
  rw [letters_eq, runs_write apart gaps, gapped_letters]

/-- The last letter is written last. -/
theorem write_concat (f : α → List α → List α) (rs : List (α × List α)) (a : α) :
    ∃ before, write f (rs ++ [(a, [])]) = before ++ [a] := by
  induction rs with
  | nil => exact ⟨[], rfl⟩
  | cons run rs ih =>
    obtain ⟨before, same⟩ := ih
    refine ⟨run.1 :: f run.1 run.2 ++ before, ?_⟩
    rw [List.cons_append, write_cons_of_ne_nil _ _ _ (by simp), same, List.append_assoc]

/-- Ways of writing that agree on the gaps between two letters write the same. -/
theorem write_congr (agree : ∀ run ∈ rs.dropLast, f run.1 run.2 = g run.1 run.2) :
    write f rs = write g rs := by
  rw [write_flatten, write_flatten, gapped_eq_gapped.mpr agree]

/-- **Two ways of writing agree when they agree on every gap between two letters.** -/
theorem write_eq_write (apart : ∀ run ∈ rs, blank run.1 = false)
    (gaps : ∀ run ∈ rs, ∀ c ∈ f run.1 run.2, blank c = true)
    (gaps' : ∀ run ∈ rs, ∀ c ∈ g run.1 run.2, blank c = true) :
    write f rs = write g rs ↔ ∀ run ∈ rs.dropLast, f run.1 run.2 = g run.1 run.2 := by
  refine ⟨fun same => gapped_eq_gapped.mp ?_, write_congr⟩
  have apart' := congrArg (runs blank) same
  rw [runs_write apart gaps, runs_write apart gaps'] at apart'
  exact (Prod.mk.inj apart').2

/-- Letters after others are written after them. -/
theorem write_append (f : α → List α → List α) (rs : List (α × List α)) (a : α) (gap : List α)
    (more : List (α × List α)) : write f (rs ++ (a, gap) :: more) =
      write f (rs ++ [(a, [])]) ++ if more = [] then [] else f a gap ++ write f more := by
  induction rs with
  | nil =>
    cases more with
    | nil => rfl
    | cons next rest => rw [if_neg (List.cons_ne_nil _ _)]; rfl
  | cons run rs ih =>
    obtain ⟨b, gap'⟩ := run
    rw [List.cons_append, List.cons_append, write_cons_of_ne_nil _ _ _ (by simp),
      write_cons_of_ne_nil _ _ _ (by simp), ih, List.append_assoc]

/-- A list of letters is written as it is. -/
theorem write_word {w : List α} (word : ∀ c ∈ w, blank c = false) (keeps : ∀ a, f a [] = []) :
    write f (runs blank w).2 = w ∧ (runs blank w).1 = [] := by
  induction w with
  | nil => exact ⟨rfl, rfl⟩
  | cons c w ih =>
    obtain ⟨own, rest⟩ := List.forall_mem_cons.mp word
    obtain ⟨same, lead⟩ := ih rest
    rw [runs_letter own]
    refine ⟨?_, rfl⟩
    by_cases none' : (runs blank w).2 = []
    · rw [none'] at same ⊢
      rw [← same]
      rfl
    · rw [write_cons_of_ne_nil _ _ _ none', lead, keeps, same]
      rfl

/-- Letters written with their own gaps, where the last has none. -/
theorem gapped_eq_self : gapped f rs = rs ↔
    (∀ run ∈ rs.getLast?, run.2 = []) ∧ ∀ run ∈ rs.dropLast, f run.1 run.2 = run.2 := by
  induction rs with
  | nil => simp [gapped]
  | cons run rs ih =>
    obtain ⟨a, gap⟩ := run
    cases rs with
    | nil => simp [gapped, eq_comm]
    | cons next rest =>
      rw [gapped, List.cons.injEq, ih, List.dropLast_cons_cons, List.forall_mem_cons,
        List.getLast?_cons_cons]
      simp only [Prod.mk.injEq, true_and]
      tauto

end Writing

/-- **Letters that stand together are written together.** -/
theorem write_together {f : α → List α → List α} {blank : α → Bool} (u v : List α) {a b : α}
    (own : blank a = false) (own' : blank b = false) (keeps : f a [] = [])
    (gaps : ∀ run ∈ (runs blank (u ++ a :: b :: v)).2, ∀ c ∈ f run.1 run.2, blank c = true) :
    ∃ y z, write f (runs blank (u ++ a :: b :: v)).2 = y ++ a :: b :: z ∧
      letters blank (y ++ [a]) = letters blank (u ++ [a]) := by
  have apart := runs_append_letter u own (b :: v)
  rw [runs_letter own'] at apart
  rw [apart] at gaps ⊢
  obtain ⟨y, same⟩ := write_concat f (runs blank u).2 a
  obtain ⟨z, rest⟩ : ∃ z, write f ((b, (runs blank v).1) :: (runs blank v).2) = b :: z := by
    by_cases none' : (runs blank v).2 = []
    · exact ⟨[], by rw [none']; rfl⟩
    · exact ⟨_, write_cons_of_ne_nil f b _ none'⟩
  refine ⟨y, z, ?_, ?_⟩
  · rw [write_append, same, if_neg (List.cons_ne_nil _ _), keeps, rest]
    simp
  · rw [← same, letters_write, letters, List.filter_append, ← letters, letters_eq, List.map_append]
    · simp [own]
    · intro run listed
      rcases List.mem_append.mp listed with before | last
      · exact (runs_letters u run before).1
      · rw [List.mem_singleton.mp last]
        exact own
    · intro run listed c held
      rcases List.mem_append.mp listed with before | last
      · exact gaps run (List.mem_append_left _ before) c held
      · rw [List.mem_singleton.mp last, keeps] at held
        cases held

section Trimming

variable {blank : α → Bool}

theorem rdropWhile_letter {c : α} (own : blank c = false) (cs : List α) :
    (c :: cs).rdropWhile blank = c :: cs.rdropWhile blank := by
  induction cs using List.reverseRecOn with
  | nil => simp [own]
  | append_singleton cs d ih =>
    rw [← List.cons_append, List.rdropWhile_concat, List.rdropWhile_concat, ih]
    split <;> rfl

theorem rdropWhile_blank {c : α} (own : blank c = true) (cs : List α) :
    (c :: cs).rdropWhile blank = if cs.rdropWhile blank = [] then [] else c :: cs.rdropWhile blank := by
  induction cs using List.reverseRecOn with
  | nil => simp [own]
  | append_singleton cs d ih =>
    rw [← List.cons_append, List.rdropWhile_concat, List.rdropWhile_concat, ih]
    by_cases last : blank d = true
    · simp [last]
    · simp [last]

/-- A list without the blanks at its end. -/
theorem rdropWhile_eq (cs : List α) : cs.rdropWhile blank =
    if (runs blank cs).2 = [] then [] else (runs blank cs).1 ++ write (fun _ gap => gap)
    (runs blank cs).2 := by
  induction cs with
  | nil => rfl
  | cons c cs ih =>
    have found : (runs blank cs).2 = [] ∨ (runs blank cs).2 ≠ [] := em _
    cases own : blank c with
    | true =>
      rw [runs_blank own, rdropWhile_blank own, ih]
      rcases found with none' | some'
      · rw [if_pos none', if_pos rfl, if_pos none']
      · have filled : (runs blank cs).1 ++ write (fun _ gap => gap) (runs blank cs).2 ≠ [] :=
          List.append_ne_nil_of_right_ne_nil _ fun nothing => some' (write_eq_nil.mp nothing)
        rw [if_neg some', if_neg filled, if_neg some', List.cons_append]
    | false =>
      rw [runs_letter own, rdropWhile_letter own, ih, if_neg (List.cons_ne_nil _ _), List.nil_append]
      rcases found with none' | some'
      · rw [if_pos none', none']
        rfl
      · rw [if_neg some', write_cons_of_ne_nil _ _ _ some', List.cons_append]

/-- **A list without the blanks at its ends is its letters with the gaps between them.** -/
theorem trim_eq (cs : List α) :
    (cs.dropWhile blank).rdropWhile blank = write (fun _ gap => gap) (runs blank cs).2 := by
  induction cs with
  | nil => rfl
  | cons c cs ih =>
    cases own : blank c with
    | true => rw [runs_blank own, List.dropWhile_cons_of_pos own, ih]
    | false =>
      rw [List.dropWhile_cons_of_neg (by simp [own]), rdropWhile_eq, runs_letter own,
        if_neg (List.cons_ne_nil _ _), List.nil_append]

end Trimming

section Starts

variable {blank : α → Bool}

/-- **Two starts of a list that end at a letter and have the same letters are the same.** -/
theorem eq_of_letters {p q s t : List α} {a b : α} (whole : p ++ a :: s = q ++ b :: t)
    (own : blank a = false)
    (own' : blank b = false) (same : letters blank (p ++ [a]) = letters blank (q ++ [b])) : p = q := by
  have shorter : ∀ {p q s t : List α} {a b : α}, p ++ a :: s = q ++ b :: t → blank b = false →
      letters blank (p ++ [a]) = letters blank (q ++ [b]) → p.length ≤ q.length → p = q := by
    intro p q s t a b whole own' same short
    by_contra differ
    obtain ⟨more, rfl⟩ : p <+: q :=
      List.prefix_of_prefix_length_le (List.prefix_append p (a :: s))
        (whole ▸ List.prefix_append q (b :: t)) short
    have filled : more ≠ [] := by
      rintro rfl
      exact differ (List.append_nil p).symm
    obtain ⟨c, more, rfl⟩ := List.exists_cons_of_ne_nil filled
    rw [List.append_assoc] at whole
    have first : a = c := (List.cons.inj (List.append_cancel_left whole)).1
    subst first
    have longer : letters blank (p ++ a :: more ++ [b]) =
        letters blank (p ++ [a]) ++ (letters blank more ++ [b]) := by
      rw [show p ++ a :: more ++ [b] = (p ++ [a]) ++ (more ++ [b]) by simp, letters, List.filter_append,
        List.filter_append more]
      simp [letters, own']
    have lengths := congrArg List.length (same.trans longer)
    simp only [List.length_append, List.length_singleton] at lengths
    omega
  rcases Nat.le_total p.length q.length with short | short
  · exact shorter whole own' same short
  · exact (shorter whole.symm own same.symm short).symm

end Starts

end Gaps
