/-
**Byte offsets between characters.**

An offset into a text is on a boundary when some first characters of the text have that many bytes
(`OnBoundary`, `mem_boundaries`). No offset on a boundary is inside a character
(`OnBoundary.outside`), so what is marked from boundary to boundary covers whole characters
(`Coverage.Whole`, `Coverage.Whole.mark`), and the first covered byte after a boundary is on one
(`Coverage.Whole.first`).

What stands beside a space, or at an end, is at an edge (`Edge`). A phrase is found between edges of
the text it is looked up in, whatever that text is (`findIn_edges`), and so is a time
(`parseTimeSpan_edges`). The masked text has its spaces where the text has them, so its edges are
edges of the text (`Coverage.edge_of_masked`).
-/
import Callora.Text.TimeArithmetic

set_option linter.unusedSectionVars false

namespace Callora.Text

section Offsets

variable {cs u v : List Char} {c : Char} {n m at' : ℕ}

@[simp] theorem bytes_nil : bytes [] = 0 := rfl

@[simp] theorem bytes_cons (c : Char) (cs : List Char) : bytes (c :: cs) = c.utf8Size + bytes cs := by
  simp [bytes]

@[simp] theorem utf8Size_space : ' '.utf8Size = 1 := rfl

/-- **An offset on a character boundary.** -/
def OnBoundary (cs : List Char) (n : ℕ) : Prop := ∃ u v, cs = u ++ v ∧ n = bytes u

/-- A span from boundary to boundary. -/
def OnBoundaries (cs : List Char) (span : Span) : Prop := OnBoundary cs span.1 ∧ OnBoundary cs span.2

theorem OnBoundary.start (cs : List Char) : OnBoundary cs 0 := ⟨[], cs, rfl, rfl⟩

theorem OnBoundary.stop (cs : List Char) : OnBoundary cs (bytes cs) :=
  ⟨cs, [], (List.append_nil cs).symm, rfl⟩

theorem OnBoundary.le (on : OnBoundary cs n) : n ≤ bytes cs := by
  obtain ⟨u, v, rfl, rfl⟩ := on
  rw [bytes_append]
  exact Nat.le_add_right _ _

theorem OnBoundary.of_prefix {ds : List Char} (on : OnBoundary cs n) (front : cs <+: ds) :
    OnBoundary ds n := by
  obtain ⟨u, v, rfl, rfl⟩ := on
  obtain ⟨w, rfl⟩ := front
  exact ⟨u, v ++ w, List.append_assoc _ _ _, rfl⟩

theorem mem_boundaries_from : n ∈ Coverage.boundaries at' cs ↔
    ∃ u v, cs = u ++ v ∧ n = at' + bytes u := by
  induction cs generalizing at' with
  | nil => simp [Coverage.boundaries]
  | cons c cs ih =>
    rw [Coverage.boundaries, List.mem_cons, ih]
    constructor
    · rintro (rfl | ⟨u, v, rfl, rfl⟩)
      · exact ⟨[], c :: cs, rfl, rfl⟩
      · exact ⟨c :: u, v, rfl, by rw [bytes_cons, Nat.add_assoc]⟩
    · rintro ⟨u, v, same, rfl⟩
      cases u with
      | nil => exact .inl rfl
      | cons d u =>
        obtain ⟨rfl, rfl⟩ := List.cons.inj same
        exact .inr ⟨u, v, rfl, by rw [bytes_cons, Nat.add_assoc]⟩

/-- The offsets that are listed are those on a boundary. -/
theorem mem_boundaries : n ∈ Coverage.boundaries 0 cs ↔ OnBoundary cs n := by
  rw [mem_boundaries_from]
  simp only [Nat.zero_add, OnBoundary]

instance : Decidable (OnBoundary cs n) := decidable_of_iff _ mem_boundaries

/-- **No boundary is inside a character.** -/
theorem OnBoundary.outside (on : OnBoundary (u ++ c :: v) n) :
    n ≤ bytes u ∨ bytes u + c.utf8Size ≤ n := by
  obtain ⟨p, q, same, rfl⟩ := on
  rcases List.append_eq_append_iff.mp same with ⟨more, rfl, rest⟩ | ⟨more, rfl, -⟩
  · cases more with
    | nil => exact .inl (by simp)
    | cons d more =>
      right
      rw [bytes_append, bytes_cons, ← (List.cons.inj rest).1]
      omega
  · exact .inl (by rw [bytes_append]; exact Nat.le_add_right _ _)

/-- The character that an offset is in. -/
theorem exists_character (inside : n < bytes cs) :
    ∃ u c v, cs = u ++ c :: v ∧ bytes u ≤ n ∧ n < bytes u + c.utf8Size := by
  induction cs generalizing n with
  | nil => exact absurd inside (Nat.not_lt_zero n)
  | cons d cs ih =>
    rw [bytes_cons] at inside
    by_cases here : n < d.utf8Size
    · exact ⟨[], d, cs, rfl, Nat.zero_le n, by rwa [bytes_nil, Nat.zero_add]⟩
    · obtain ⟨u, c, v, rfl, after, before⟩ := ih (n := n - d.utf8Size) (by omega)
      exact ⟨d :: u, c, v, rfl, by rw [bytes_cons]; omega, by rw [bytes_cons]; omega⟩

theorem dropBytes_append (u v : List Char) : Coverage.dropBytes (bytes u) (u ++ v) = v := by
  induction u with
  | nil =>
    rw [bytes_nil, List.nil_append]
    cases v <;> rfl
  | cons c u ih =>
    obtain ⟨k, size⟩ := Nat.exists_eq_add_of_lt c.utf8Size_pos
    rw [Nat.zero_add] at size
    have more : bytes (c :: u) = k + bytes u + 1 := by
      rw [bytes_cons, size]
      omega
    rw [more, List.cons_append, Coverage.dropBytes, size]
    rw [show k + bytes u + 1 - (k + 1) = bytes u by omega]
    exact ih

end Offsets

section Edges

variable {cs u v : List Char} {n : ℕ}

/-- **An offset at an end of the text, or beside a space.** -/
def Edge (cs : List Char) (n : ℕ) : Prop :=
  ∃ u v, cs = u ++ v ∧ n = bytes u ∧ (u = [] ∨ v = [] ∨ u.getLast? = some ' ' ∨ v.head? = some ' ')

/-- A span between edges. -/
def Edges (cs : List Char) (span : Span) : Prop := Edge cs span.1 ∧ Edge cs span.2

theorem Edge.onBoundary (edge : Edge cs n) : OnBoundary cs n := by
  obtain ⟨u, v, same, offset, -⟩ := edge
  exact ⟨u, v, same, offset⟩

theorem Edges.onBoundaries {span : Span} (edges : Edges cs span) : OnBoundaries cs span :=
  ⟨edges.1.onBoundary, edges.2.onBoundary⟩

/-- What a phrase takes: from the start of the text or a space, to its end or a space. -/
theorem search_ends {p : Phrase} {start : ℕ} {m : List Char}
    (searched : p.search cs true 0 = some (start, m)) :
    ∃ u z, cs = u ++ m ++ z ∧ start = bytes u ∧ (u = [] ∨ m.head? = some ' ') ∧
    (z = [] ∨ m.getLast? = some ' ') := by
  obtain ⟨u, rest, rfl, rfl, here⟩ := search_taken searched
  rcases matchHere_taken here with ⟨start, body⟩ | ⟨rest', m', rfl, body, rfl⟩
  · have first : u = [] := List.isEmpty_iff.mp (Bool.and_eq_true_iff.mp start).2
    obtain ⟨v, w, rfl, -, ⟨rfl, rfl⟩ | ⟨space, rfl⟩⟩ := body_taken body
    · exact ⟨u, [], by simp, by simp, .inl first, .inl rfl⟩
    · obtain ⟨w', rfl⟩ := List.head?_eq_some_iff.mp space
      exact ⟨u, w', by simp, by simp, .inl first, .inr List.getLast?_concat⟩
  · obtain ⟨v, w, rfl, -, ⟨rfl, rfl⟩ | ⟨space, rfl⟩⟩ := body_taken body
    · exact ⟨u, [], by simp, by simp, .inr rfl, .inl rfl⟩
    · obtain ⟨w', rfl⟩ := List.head?_eq_some_iff.mp space
      refine ⟨u, w', by simp, by simp, .inr rfl, .inr ?_⟩
      rw [← List.cons_append]
      exact List.getLast?_concat

/-- **A phrase is found between edges**, in any text. -/
theorem findIn_edges {p : Phrase} {span : Span} (found : p.findIn cs = some span) : Edges cs span := by
  obtain ⟨⟨start, m⟩, searched, rfl⟩ := Option.map_eq_some_iff.mp found
  obtain ⟨u, z, rfl, rfl, before, after⟩ := search_ends searched
  simp only [Bool.and_eq_true, decide_eq_true_eq]
  constructor
  · by_cases space : m.head? = some ' '
    · obtain ⟨m', rfl⟩ := List.head?_eq_some_iff.mp space
      exact ⟨u ++ [' '], m' ++ z, by simp, by simp [bytes_append],
        .inr (.inr (.inl List.getLast?_concat))⟩
    · exact ⟨u, m ++ z, by simp, by simp [space], .inl (before.resolve_right space)⟩
  · dsimp only
    by_cases space : m.getLast? = some ' '
    · obtain ⟨m', rfl⟩ := List.getLast?_eq_some_iff.mp space
      by_cases more : 1 < bytes (m' ++ [' '])
      · refine ⟨u ++ m', ' ' :: z, by simp, ?_, .inr (.inr (.inr rfl))⟩
        rw [if_pos ⟨space, more⟩, bytes_append, bytes_append]
        simp
      · refine ⟨u ++ (m' ++ [' ']), z, by simp, ?_, .inr (.inr (.inl ?_))⟩
        · rw [if_neg fun both => more both.2, bytes_append u, Nat.sub_zero]
        · rw [← List.append_assoc]
          exact List.getLast?_concat
    · refine ⟨u ++ m, z, rfl, ?_, .inr (.inl (after.resolve_right space))⟩
      rw [if_neg fun both => space both.1, bytes_append, Nat.sub_zero]

/-- A set's phrase is found between edges. -/
theorem find_edges {set : PhraseSet} {text : String} {p : Phrase} {span : Span}
    (found : set.find text = some (p, span)) :
    Edges text.toList span := by
  obtain ⟨p', -, found'⟩ := List.exists_of_findSome?_eq_some found
  obtain ⟨span', here, same⟩ := Option.map_eq_some_iff.mp found'
  obtain ⟨-, rfl⟩ := Prod.mk.inj same
  exact findIn_edges here

theorem TokenSpan.edges {text : String} {span : Span} (on : TokenSpan text span) :
    Edges text.toList span := by
  obtain ⟨u, v, w, same, rfl, -, before, after, -⟩ := on
  refine ⟨⟨u, v ++ w, by rw [same, List.append_assoc], rfl, ?_⟩, ⟨u ++ v, w, same, rfl, ?_⟩⟩
  · exact before.imp id fun space => .inr (.inl space)
  · exact .inr (after.imp id .inr)

/-- **A time is read between edges** of a normalized text. -/
theorem parseTimeSpan_edges {text : String} (normal : Normal text) {now : PhraseSet}
    {time : TimeSpec} {confidence : F32}
    {span : Span} (read : parseTimeSpan text now = some (time, confidence, span)) :
    Edges text.toList span := by
  rcases parseTimeSpan_cases normal read with ⟨-, p, found⟩ | ⟨-, on⟩
  · exact find_edges found
  · exact on.edges

end Edges

namespace Coverage

variable {cov : Coverage} {cs u v acc acc' : List Char} {c : Char} {span : Span} {i n start stop : ℕ}

section Masked

theorem maskedChars_cons (cov : Coverage) (i : ℕ) (c : Char) (cs : List Char) :
    ∃ block, (block = [c] ∨ c ≠ ' ' ∧
    block = List.replicate c.utf8Size '_') ∧ bytes block = c.utf8Size ∧ cov.maskedChars i (c :: cs) =
      block ++ cov.maskedChars (i + c.utf8Size) cs := by
  rw [maskedChars]
  by_cases hidden : (c != ' ' && cov.isCovered i) = true
  · refine ⟨_, .inr ⟨?_, rfl⟩, ?_, by rw [if_pos hidden]⟩
    · simpa using (Bool.and_eq_true_iff.mp hidden).1
    · have one : '_'.utf8Size = 1 := rfl
      simp [bytes, one]
  · exact ⟨[c], .inl rfl, by simp, by rw [if_neg hidden]⟩

/-- **The masked text has the bytes of the text.** -/
theorem bytes_maskedChars (cov : Coverage) (i : ℕ) (cs : List Char) :
    bytes (cov.maskedChars i cs) = bytes cs := by
  induction cs generalizing i with
  | nil => rfl
  | cons c cs ih =>
    obtain ⟨block, -, size, same⟩ := cov.maskedChars_cons i c cs
    rw [same, bytes_append, size, ih, bytes_cons]

/-- Masking goes on where it stopped. -/
theorem maskedChars_append (cov : Coverage) (i : ℕ) (u v : List Char) :
    cov.maskedChars i (u ++ v) = cov.maskedChars i u ++ cov.maskedChars (i + bytes u) v := by
  induction u generalizing i with
  | nil => rfl
  | cons c u ih =>
    rw [List.cons_append, maskedChars, maskedChars, ih, List.append_assoc, bytes_cons, Nat.add_assoc]

/-- **The masked text keeps the offsets**: each character stands at its own bytes, or underscores do. -/
def MaskedInPlace (cov : Coverage) : Prop :=
  ∀ u c v, cov.text.toList = u ++ c :: v → ∃ before after, bytes before = bytes u ∧ cov.masked.toList =
    before ++ (if c != ' ' && cov.isCovered (bytes u) then List.replicate c.utf8Size '_'
      else [c]) ++ after

theorem maskedInPlace (cov : Coverage) : cov.MaskedInPlace := by
  intro u c v same
  refine ⟨cov.maskedChars 0 u, cov.maskedChars (bytes u + c.utf8Size) v, cov.bytes_maskedChars 0 u, ?_⟩
  rw [masked, String.toList_ofList, same, maskedChars_append, maskedChars, Nat.zero_add,
    List.append_assoc]

/-- A space of the masked text is one of the text. -/
theorem space_of_masked (same : cov.maskedChars i cs = u ++ ' ' :: v) :
    ∃ u' v', cs = u' ++ ' ' :: v' ∧ bytes u' = bytes u := by
  induction cs generalizing i u with
  | nil => simp [maskedChars] at same
  | cons c cs ih =>
    obtain ⟨block, kind, size, parts⟩ := cov.maskedChars_cons i c cs
    rw [parts] at same
    have later : ∀ u₂, u = block ++ u₂ → ∃ u' v', c :: cs = u' ++ ' ' :: v' ∧ bytes u' = bytes u := by
      rintro u₂ rfl
      rw [List.append_assoc] at same
      obtain ⟨u', v', rfl, bytes'⟩ := ih (List.append_cancel_left same)
      exact ⟨c :: u', v', rfl, by rw [bytes_cons, bytes_append, size, bytes']⟩
    rcases List.append_eq_append_iff.mp same with ⟨u₂, rfl, -⟩ | ⟨more, here, rest⟩
    · exact later u₂ rfl
    · cases more with
      | nil => exact later [] (by simpa using here.symm)
      | cons d more =>
        -- the space is in what stands for this character, which is then a space itself
        obtain ⟨rfl, -⟩ := List.cons.inj rest
        have listed : ' ' ∈ block := by
          rw [here]
          simp
        rcases kind with rfl | ⟨-, rfl⟩
        · obtain rfl := List.mem_singleton.mp listed
          obtain rfl : u = [] := by
            have length := congrArg List.length here
            simp only [List.length_append, List.length_cons, List.length_nil] at length
            exact List.length_eq_zero_iff.mp (by omega)
          exact ⟨[], cs, rfl, rfl⟩
        · cases List.eq_of_mem_replicate listed

/-- **The edges of the masked text are edges of the text.** -/
theorem edge_of_masked (edge : Edge (cov.maskedChars i cs) n) : Edge cs n := by
  obtain ⟨u, v, same, rfl, first | last | before | after⟩ := edge
  · exact ⟨[], cs, rfl, by rw [first, bytes_nil], .inl rfl⟩
  · have all := cov.bytes_maskedChars i cs
    rw [same, last, List.append_nil] at all
    exact ⟨cs, [], (List.append_nil cs).symm, all, .inr (.inl rfl)⟩
  · obtain ⟨u', rfl⟩ := List.getLast?_eq_some_iff.mp before
    rw [List.append_assoc, List.singleton_append] at same
    obtain ⟨u₂, v₂, rfl, bytes'⟩ := space_of_masked same
    refine ⟨u₂ ++ [' '], v₂, by simp, ?_, .inr (.inr (.inl List.getLast?_concat))⟩
    rw [bytes_append, bytes_append, bytes']
  · obtain ⟨v', rfl⟩ := List.head?_eq_some_iff.mp after
    obtain ⟨u₂, v₂, rfl, bytes'⟩ := space_of_masked same
    exact ⟨u₂, ' ' :: v₂, rfl, bytes'.symm, .inr (.inr (.inr rfl))⟩

theorem edges_of_masked (edges : Edges cov.masked.toList span) : Edges cov.text.toList span := by
  rw [masked, String.toList_ofList] at edges
  exact ⟨edge_of_masked edges.1, edge_of_masked edges.2⟩

theorem masked_pieces (cs : List Char) (both : acc' = [] ↔ acc = []) :
    [] ∈ splitChars (· == ' ') (cov.maskedChars i cs) acc' ↔ [] ∈ splitChars (· == ' ') cs acc := by
  have empty : ∀ piece : List Char, [] = piece.reverse ↔ piece = [] := fun piece =>
    eq_comm.trans List.reverse_eq_nil_iff
  induction cs generalizing i acc acc' with
  | nil => rwa [maskedChars, splitChars, splitChars, List.mem_singleton, List.mem_singleton, empty, empty]
  | cons c cs ih =>
    by_cases space : c = ' '
    · subst space
      have here : cov.maskedChars i (' ' :: cs) = ' ' :: cov.maskedChars (i + ' '.utf8Size) cs := by
        rw [maskedChars]
        rfl
      have later : [] ∈ splitChars (· == ' ') (cov.maskedChars (i + ' '.utf8Size) cs) [] ↔
          [] ∈ splitChars (· == ' ') cs [] := ih Iff.rfl
      rw [here, splitChars, splitChars, if_pos (by rfl), if_pos (by rfl), List.mem_cons,
        List.mem_cons, later, empty,
        empty, both]
    · obtain ⟨block, kind, size, same⟩ := cov.maskedChars_cons i c cs
      have letters : ' ' ∉ block := by
        rcases kind with rfl | ⟨-, rfl⟩
        · exact fun listed => space (List.mem_singleton.mp listed).symm
        · exact fun listed => nomatch List.eq_of_mem_replicate listed
      have some' : block ≠ [] := by
        rintro rfl
        have := c.utf8Size_pos
        rw [bytes_nil] at size
        omega
      rw [same, splitChars_under_way _ _ _ letters, splitChars, if_neg (by simpa using space)]
      exact ih (by simp [some'])

/-- The masked text of a normalized text is one. -/
theorem masked_normal (normal : Normal cov.text) : Normal cov.masked := by
  rcases normal with empty | pieces
  · left
    rw [masked, empty]
    rfl
  · right
    rw [masked, String.toList_ofList, masked_pieces _ Iff.rfl]
    exact pieces

end Masked

section Whole

/-- **The covered bytes are whole characters** of the text: each character is covered with all of
its bytes or with none. -/
structure Whole (cov : Coverage) : Prop where
  length : cov.covered.length = bytes cov.text.toList
  characters : ∀ u c v, cov.text.toList = u ++ c :: v → ∀ k < c.utf8Size,
    cov.isCovered (bytes u + k) = cov.isCovered (bytes u)

theorem Whole.new (text : String) : (Coverage.new text).Whole where
  length := List.length_replicate
  characters := by
    have none' : ∀ n, (Coverage.new text).isCovered n = false := fun n => by
      rw [isCovered, Coverage.new, List.getD_eq_getElem?_getD, List.getElem?_replicate]
      split <;> rfl
    intro u c v same k inside
    rw [none', none']

theorem isCovered_mark (whole : cov.covered.length = bytes cov.text.toList)
    (inside : n < bytes cov.text.toList) :
    (cov.mark span).isCovered n = (cov.isCovered n || (span.1 ≤ n && n < span.2)) := by
  have held : n < cov.covered.length := by rwa [whole]
  simp [isCovered, mark, List.getD_eq_getElem?_getD, List.getElem?_mapIdx, List.getElem?_eq_getElem held]

/-- **What is marked from boundary to boundary is whole characters.** -/
theorem Whole.mark (whole : cov.Whole) (on : OnBoundaries cov.text.toList span) :
    (cov.mark span).Whole where
  length := by
    rw [Coverage.mark, List.length_mapIdx]
    exact whole.length
  characters := by
    intro u c v same k inside
    have same' : cov.text.toList = u ++ c :: v := same
    obtain ⟨start, stop⟩ := on
    rw [same'] at start stop
    have long : bytes cov.text.toList = bytes u + (c.utf8Size + bytes v) := by
      rw [same', bytes_append, bytes_cons]
    rw [isCovered_mark whole.length (by omega), isCovered_mark whole.length (by omega),
      whole.characters u c v same' k inside]
    -- a boundary is not between the first byte of the character and another
    have first : (span.1 ≤ bytes u + k) = (span.1 ≤ bytes u) := by
      have := start.outside
      rw [eq_iff_iff]
      omega
    have last : (bytes u + k < span.2) = (bytes u < span.2) := by
      have := stop.outside
      rw [eq_iff_iff]
      omega
    simp only [first, last]

/-- **The first covered byte after a boundary is on one.** -/
theorem Whole.first (whole : cov.Whole) (on : OnBoundary cov.text.toList start) {k : ℕ}
    (inside : start + k < bytes cov.text.toList) (covered : cov.isCovered (start + k) = true)
    (before : ∀ j < k, cov.isCovered (start + j) = false) : OnBoundary cov.text.toList (start + k) := by
  obtain ⟨u, c, v, same, after, within⟩ := exists_character inside
  have here : cov.isCovered (bytes u) = true := by
    have all := whole.characters u c v same (start + k - bytes u) (by omega)
    rwa [Nat.add_sub_cancel' after, covered, eq_comm] at all
  have later : start ≤ bytes u := by
    rw [same] at on
    have := on.outside
    omega
  by_cases exact' : start + k = bytes u
  · exact ⟨u, c :: v, same, exact'⟩
  · -- the character would have a covered byte before the first
    have earlier := before (bytes u - start) (by omega)
    rw [Nat.add_sub_cancel' later, here] at earlier
    cases earlier

end Whole

end Coverage

end Callora.Text
