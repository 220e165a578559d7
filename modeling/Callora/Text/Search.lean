/-
**Where a text is found first.**

`splitFirst` is the one search of the library: it gives what stands before and after the first occurrence.
What is found in the beginning of a text is found there in the whole (`splitFirst_append`); a part that
ends in a character outside the pattern, and does not contain it, is passed (`splitFirst_skip`).
-/
import Callora.Text.Strings

set_option linter.unusedSectionVars false

namespace Callora.Text

variable {p s t u v before after : List Char} {c : Char}

attribute [local simp] dropPrefix in
theorem dropPrefix_eq_some_iff : dropPrefix s p = some t ↔ s = p ++ t := by
  induction p generalizing s with
  | nil => simp
  | cons d p ih =>
    cases s with
    | nil => simp
    | cons c s =>
      by_cases same : c = d
      · simp [same, ih]
      · simp [same]

theorem dropPrefix_eq_none_iff : dropPrefix s p = none ↔ ¬ p <+: s := by
  constructor
  · rintro none ⟨t, rfl⟩
    rw [dropPrefix_eq_some_iff.mpr rfl] at none
    cases none
  · intro other
    cases found : dropPrefix s p with
    | none => rfl
    | some t => exact absurd ⟨t, (dropPrefix_eq_some_iff.mp found).symm⟩ other

attribute [local simp] splitFirst in
theorem splitFirst_cons_start (here : c :: s = p ++ t) : splitFirst p (c :: s) = some ([], t) := by
  simp [dropPrefix_eq_some_iff.mpr here]

theorem splitFirst_cons_other (other : ¬ p <+: c :: s) :
    splitFirst p (c :: s) = (splitFirst p s).map fun (before, after) => (c :: before, after) := by
  rw [splitFirst, dropPrefix_eq_none_iff.mpr other]

/-- What stands before and after is the text, around the pattern. -/
theorem splitFirst_eq_append (found : splitFirst p s = some (before, after)) :
    s = before ++ p ++ after := by
  induction s generalizing before with
  | nil =>
    rw [splitFirst] at found
    by_cases empty : p.isEmpty
    · rw [if_pos empty] at found
      obtain ⟨rfl, rfl⟩ := Prod.mk.inj (Option.some.inj found)
      simpa using empty
    · rw [if_neg empty] at found
      cases found
  | cons c s ih =>
    by_cases here : p <+: c :: s
    · obtain ⟨t, same⟩ := here
      rw [splitFirst_cons_start same.symm] at found
      obtain ⟨rfl, rfl⟩ := Prod.mk.inj (Option.some.inj found)
      exact same.symm
    · rw [splitFirst_cons_other here] at found
      obtain ⟨⟨before', after'⟩, later, same⟩ := Option.map_eq_some_iff.mp found
      obtain ⟨rfl, rfl⟩ := Prod.mk.inj same
      rw [ih later]
      rfl

/-- **What is found in the beginning of a text is found there in the whole.** -/
theorem splitFirst_append (found : splitFirst p s = some (before, after)) (more : List Char) :
    splitFirst p (s ++ more) = some (before, after ++ more) := by
  induction s generalizing before with
  | nil =>
    rw [splitFirst] at found
    by_cases empty : p.isEmpty
    · rw [if_pos empty] at found
      obtain ⟨rfl, rfl⟩ := Prod.mk.inj (Option.some.inj found)
      obtain rfl := List.isEmpty_iff.mp empty
      cases more <;> rfl
    · rw [if_neg empty] at found
      cases found
  | cons c s ih =>
    by_cases here : p <+: c :: s
    · obtain ⟨t, same⟩ := here
      rw [splitFirst_cons_start same.symm] at found
      obtain ⟨rfl, rfl⟩ := Prod.mk.inj (Option.some.inj found)
      refine splitFirst_cons_start ?_
      rw [← List.append_assoc, same]
      rfl
    · rw [splitFirst_cons_other here] at found
      obtain ⟨⟨before', after'⟩, later, same⟩ := Option.map_eq_some_iff.mp found
      obtain ⟨rfl, rfl⟩ := Prod.mk.inj same
      have unmoved : ¬ p <+: c :: (s ++ more) := by
        intro start
        have long : (c :: s).length < p.length := by
          refine Nat.lt_of_not_le fun short => here ?_
          exact List.prefix_of_prefix_length_le start (List.prefix_append (c :: s) more) short
        have short := congrArg List.length (splitFirst_eq_append later)
        simp only [List.length_append, List.length_cons] at short long
        omega
      rw [List.cons_append, splitFirst_cons_other unmoved, ih later]
      rfl

/-- A pattern does not go past a character it does not have. -/
theorem prefix_of_prefix_append (start : p <+: u ++ c :: v) (outside : c ∉ p) : p <+: u := by
  have whole : u ++ [c] <+: u ++ c :: v := ⟨v, by simp⟩
  rcases List.prefix_or_prefix_of_prefix start whole with within | past
  · rcases List.prefix_concat_iff.mp within with rfl | within
    · exact absurd (by simp) outside
    · exact within
  · exact absurd (past.subset (by simp)) outside

theorem infix_append_cons_iff (outside : c ∉ p) (nonempty : p ≠ []) :
    p <:+: u ++ c :: v ↔ p <:+: u ∨ p <:+: v := by
  induction u with
  | nil =>
    rw [List.nil_append, List.infix_cons_iff]
    have other : ¬ p <+: c :: v := fun start =>
      nonempty (List.prefix_nil.mp (prefix_of_prefix_append (u := []) start outside))
    simp [other, nonempty]
  | cons d u ih =>
    rw [List.cons_append, List.infix_cons_iff, List.infix_cons_iff, ih]
    have same : p <+: d :: (u ++ c :: v) ↔ p <+: d :: u := by
      constructor
      · exact fun start => prefix_of_prefix_append (u := d :: u) start outside
      · rintro ⟨t, start⟩
        exact ⟨t ++ c :: v, by rw [← List.append_assoc, start, List.cons_append]⟩
    rw [same, or_assoc]

/-- **A part without the pattern is passed.** It ends in a character that the pattern does not have. -/
theorem splitFirst_skip (absent : ¬ p <:+: u) (outside : c ∉ p) (nonempty : p ≠ []) :
    splitFirst p (u ++ c :: v) =
      (splitFirst p v).map fun (before, after) => (u ++ c :: before, after) := by
  induction u with
  | nil =>
    refine splitFirst_cons_other fun start => nonempty ?_
    exact List.prefix_nil.mp (prefix_of_prefix_append (u := []) start outside)
  | cons d u ih =>
    have other : ¬ p <+: d :: (u ++ c :: v) := fun start =>
      absent (prefix_of_prefix_append (u := d :: u) start outside).isInfix
    rw [List.cons_append, splitFirst_cons_other other,
      ih fun later => absent (List.infix_cons later), Option.map_map]
    rfl

/-- A part whose characters the pattern does not have is passed. -/
theorem splitFirst_pass (outside : ∀ c ∈ u, c ∉ p) (nonempty : p ≠ []) :
    splitFirst p (u ++ v) = (splitFirst p v).map fun (before, after) => (u ++ before, after) := by
  induction u with
  | nil =>
    rw [List.nil_append]
    cases splitFirst p v <;> rfl
  | cons c u ih =>
    have other : ¬ p <+: c :: (u ++ v) := fun start =>
      nonempty (List.prefix_nil.mp (prefix_of_prefix_append (u := []) start (outside c (by simp))))
    rw [List.cons_append, splitFirst_cons_other other,
      ih fun d listed => outside d (List.mem_cons_of_mem c listed), Option.map_map]
    rfl

theorem not_infix_of_outside (outside : ∀ c ∈ u, c ∉ p) (nonempty : p ≠ []) : ¬ p <:+: u := by
  intro within
  obtain ⟨c, listed⟩ := List.exists_mem_of_ne_nil p nonempty
  exact outside c (within.subset listed) listed

theorem infix_pass_iff (outside : ∀ c ∈ u, c ∉ p) (nonempty : p ≠ []) : p <:+: u ++ v ↔ p <:+: v := by
  induction u with
  | nil => rfl
  | cons c u ih =>
    have head := infix_append_cons_iff (u := []) (v := u ++ v) (outside c (by simp)) nonempty
    rw [List.cons_append, ← ih fun d listed => outside d (List.mem_cons_of_mem c listed)]
    simpa [nonempty] using head

theorem infix_append_outside_iff (outside : ∀ c ∈ v, c ∉ p) (nonempty : p ≠ []) :
    p <:+: u ++ v ↔ p <:+: u := by
  cases v with
  | nil => rw [List.append_nil]
  | cons c v =>
    have none : ¬ p <:+: v :=
      not_infix_of_outside (fun d listed => outside d (List.mem_cons_of_mem c listed)) nonempty
    rw [infix_append_cons_iff (outside c (by simp)) nonempty]
    simp [none]

theorem splitFirst_here (p t : List Char) (nonempty : p ≠ []) : splitFirst p (p ++ t) = some ([], t) := by
  cases p with
  | nil => exact absurd rfl nonempty
  | cons c p => exact splitFirst_cons_start rfl

/-- **A word between two marks is found where it first stands**, behind whatever text: it does not
overlap itself by more than a mark. -/
theorem splitFirst_marked (plain : c ∉ p) (absent : ¬ c :: (p ++ [c]) <:+: u ++ [c]) (v : List Char) :
    splitFirst (c :: (p ++ [c])) (u ++ (c :: (p ++ [c]) ++ v)) = some (u, v) := by
  induction u with
  | nil => exact splitFirst_here _ v (List.cons_ne_nil _ _)
  | cons d u ih =>
    have other : ¬ c :: (p ++ [c]) <+: d :: (u ++ (c :: (p ++ [c]) ++ v)) := by
      intro start
      have mark : d :: (u ++ [c]) <+: d :: (u ++ (c :: (p ++ [c]) ++ v)) := ⟨p ++ [c] ++ v, by simp⟩
      rcases List.prefix_or_prefix_of_prefix start mark with within | past
      · exact absent within.isInfix
      · obtain ⟨rfl, past⟩ := List.cons_prefix_cons.mp past
        rcases List.prefix_concat_iff.mp past with same | past
        · rw [List.cons_append, same] at absent
          exact absent (List.infix_refl _)
        · exact plain (past.subset (by simp))
    rw [List.cons_append, splitFirst_cons_other other, ih fun later => absent (List.infix_cons later)]
    rfl

/-- A single character is found after what does not have it. -/
theorem splitFirst_char (absent : c ∉ u) : splitFirst [c] (u ++ c :: v) = some (u, v) := by
  induction u with
  | nil => exact splitFirst_here [c] v (List.cons_ne_nil c [])
  | cons d u ih =>
    obtain ⟨other, later⟩ := not_or.mp (fun h => absent (List.mem_cons.mpr h))
    rw [List.cons_append, splitFirst_cons_other (by simp [other]), ih later]
    rfl

theorem splitFirst_char_of_mem (listed : c ∈ s) :
    ∃ before after, splitFirst [c] s = some (before, after) := by
  obtain ⟨u, v, rfl, absent⟩ := List.eq_append_cons_of_mem listed
  exact ⟨u, v, splitFirst_char absent⟩

theorem splitFirst_char_absent (found : splitFirst [c] s = some (before, after)) : c ∉ before := by
  intro listed
  obtain ⟨u, v, rfl, absent⟩ := List.eq_append_cons_of_mem listed
  have first := splitFirst_char (v := v ++ c :: after) absent
  rw [splitFirst_eq_append found] at found
  simp only [List.append_assoc, List.cons_append, List.nil_append] at found
  rw [first] at found
  have short := congrArg List.length (Prod.mk.inj (Option.some.inj found)).1
  simp at short

theorem splitFirst_eq_none_iff (nonempty : p ≠ []) : splitFirst p s = none ↔ ¬ p <:+: s := by
  constructor
  · rintro none ⟨u, v, rfl⟩
    induction u with
    | nil =>
      rw [List.nil_append, splitFirst_here p v nonempty] at none
      cases none
    | cons d u ih =>
      by_cases here : p <+: d :: (u ++ p ++ v)
      · obtain ⟨t, same⟩ := here
        rw [List.cons_append, List.cons_append, splitFirst_cons_start same.symm] at none
        cases none
      · rw [List.cons_append, List.cons_append, splitFirst_cons_other here,
          Option.map_eq_none_iff] at none
        exact ih none
  · intro absent
    cases found : splitFirst p s with
    | none => rfl
    | some parts => exact absurd ⟨parts.1, parts.2, (splitFirst_eq_append found).symm⟩ absent

end Callora.Text
