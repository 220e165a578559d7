/-
**How far two words are apart.**

The table of `distance` is filled row by row; a cell is the least number of edits between a
beginning of the one word and a beginning of the other (`Cells`, `distanceRow_cells`). The last cell
is that of the words (`distance_least`), so `distance` is a metric, and a rule that bounds it
accepts the words within that many edits (`distance_le_iff`, `closeEnough_iff`, `nearHeard_iff`,
`soundsLike_iff`).
-/
import Callora.Business.Resolve
import Callora.Library.Edits

set_option linter.unusedSectionVars false

namespace Callora

open Callora.Text Edits

section Table

variable {p q bs : List Char} {diagonal left n : ℕ} {row : List ℕ} {ca : Char}

/-- The cells of a row after the beginning `q`: the costs of `p` against each longer beginning. Both
beginnings are read from their ends. -/
inductive Cells (p : List Char) : List Char → List Char → List ℕ → Prop where
  | nil (q : List Char) : Cells p q [] []
  | cons {q bs : List Char} {cb : Char} {n : ℕ} {row : List ℕ} : Least n p (cb :: q) →
    Cells p (cb :: q) bs row →
      Cells p q (cb :: bs) (n :: row)

/-- **The next row.** -/
theorem distanceRow_cells (both : Least diagonal p q) (above : Cells p q bs row)
    (back : Least left (ca :: p) q) :
    Cells (ca :: p) q bs (distanceRow ca bs diagonal row left) := by
  induction bs generalizing q diagonal left row with
  | nil => exact .nil q
  | cons cb bs ih =>
    cases above with
    | cons up rest =>
      have cell := both.cons up back
      exact .cons cell (ih up rest cell)

/-- The row of the empty beginning. -/
theorem range_cells (q bs : List Char) : Cells [] q bs (List.range' (q.length + 1) bs.length) := by
  induction bs generalizing q with
  | nil => exact .nil q
  | cons cb bs ih => exact .cons (least_nil_left (cb :: q)) (ih (cb :: q))

/-- **The rows, one for each character.** -/
theorem distanceRows_cells (bs as p : List Char) {first : ℕ} (start : Least first p [])
    (cells : Cells p [] bs row) :
    ∃ first' row', distanceRows bs as p.length (first :: row) = first' :: row' ∧
      Least first' (as.reverse ++ p) [] ∧ Cells (as.reverse ++ p) [] bs row' := by
  induction as generalizing p first row with
  | nil => exact ⟨first, row, rfl, start, cells⟩
  | cons ca as ih =>
    have next : Least (p.length + 1) (ca :: p) [] := least_nil_right (ca :: p)
    obtain ⟨first', row', same, start', cells'⟩ := ih (ca :: p) next (distanceRow_cells start cells next)
    rw [List.reverse_cons, List.append_assoc]
    exact ⟨first', row', same, start', cells'⟩

/-- The last cell is that of all of the word. -/
theorem cells_last (first : Least n p q) (cells : Cells p q bs row) :
    Least ((n :: row).getLastD 0) p (bs.reverse ++ q) := by
  induction bs generalizing q n row with
  | nil =>
    cases cells
    exact first
  | cons cb bs ih =>
    cases cells with
    | cons next rest =>
      have last := ih next rest
      rw [List.getLastD_cons] at last ⊢
      rw [List.getLastD_cons, List.reverse_cons, List.append_assoc]
      exact last

/-- **`distance` is the least cost.** -/
theorem distance_least (a b : String) : Least (distance a b) a.toList b.toList := by
  have row : List.range (b.length + 1) = 0 :: List.range' 1 b.toList.length := by
    rw [List.range_eq_range', List.range'_succ, String.length_toList]
  obtain ⟨first, cells, same, start, rest⟩ :=
    distanceRows_cells b.toList a.toList [] (least_nil_left []) (range_cells [] b.toList)
  have last := (cells_last start rest).reverse
  rw [← same] at last
  unfold distance
  rw [row]
  simpa using last

/-- One text is within so many edits of another. -/
def Reaches (k : ℕ) (a b : String) : Prop := ∃ n ≤ k, Script n a.toList b.toList

/-- **A bound on the distance is a bound on the edits.** -/
theorem distance_le_iff {k : ℕ} {a b : String} : distance a b ≤ k ↔ Reaches k a b := by
  obtain ⟨script, least⟩ := (distance_least a b).isLeast
  exact ⟨fun few => ⟨_, few, script⟩, fun ⟨n, few, other⟩ => Nat.le_trans (least other) few⟩

end Table

section Metric

variable {k m : ℕ} {a b c : String}

theorem Reaches.symm (reaches : Reaches k a b) : Reaches k b a := by
  obtain ⟨n, few, script⟩ := reaches
  exact ⟨n, few, script.symm⟩

theorem Reaches.trans (first : Reaches k a b) (second : Reaches m b c) : Reaches (k + m) a c := by
  obtain ⟨n, few, script⟩ := first
  obtain ⟨n', few', script'⟩ := second
  exact ⟨n + n', Nat.add_le_add few few', script.trans script'⟩

theorem distance_comm (a b : String) : distance a b = distance b a := by
  have half : ∀ a b, distance a b ≤ distance b a := fun a b =>
    distance_le_iff.mpr (distance_le_iff.mp (Nat.le_refl (distance b a))).symm
  exact Nat.le_antisymm (half a b) (half b a)

theorem distance_eq_zero : distance a b = 0 ↔ a = b := by
  rw [← Nat.le_zero, distance_le_iff]
  constructor
  · rintro ⟨n, few, script⟩
    obtain rfl := Nat.le_zero.mp few
    exact String.toList_inj.mp (script_zero.mp script)
  · rintro rfl
    exact ⟨0, Nat.le_refl 0, .nil _⟩

theorem distance_triangle (a b c : String) : distance a c ≤ distance a b + distance b c :=
  distance_le_iff.mpr ((distance_le_iff.mp (Nat.le_refl _)).trans (distance_le_iff.mp (Nat.le_refl _)))

/-- Words are at least as far apart as their lengths. -/
theorem length_le_distance (a b : String) : b.length ≤ a.length + distance a b := by
  obtain ⟨n, few, script⟩ := distance_le_iff.mp (Nat.le_refl (distance a b))
  have long := script.length_le
  rw [String.length_toList, String.length_toList] at long
  omega

end Metric

section Rules

variable {w : String} {heardWords : List String} {compact sounds : List Char} {starts : List ℕ}

theorem closeEnough_iff {heard key : String} : closeEnough heard key = true ↔
    5 ≤ key.length ∧ 5 ≤ heard.length ∧ Reaches (if 8 ≤ key.length then 2 else 1) heard key := by
  rw [closeEnough, Bool.and_eq_true, Bool.and_eq_true, decide_eq_true_eq, decide_eq_true_eq,
    decide_eq_true_eq,
    distance_le_iff, and_assoc]

/-- The stretches are the parts of that length. -/
theorem mem_stretches {size : ℕ} {cs : List Char} {piece : String} :
    piece ∈ stretches size cs ↔ piece.toList <:+: cs ∧ piece.length = size := by
  have length : piece.length = piece.toList.length := String.length_toList.symm
  induction cs with
  | nil =>
    rw [stretches, List.infix_nil, length]
    split
    · next none' =>
      subst none'
      rw [List.mem_singleton, List.length_eq_zero_iff, and_self, ← String.toList_inj, String.toList_empty]
    · next some' =>
      refine iff_of_false List.not_mem_nil ?_
      rintro ⟨empty, same⟩
      rw [empty] at same
      exact some' same.symm
  | cons c cs ih =>
    rw [stretches, List.infix_cons_iff]
    split
    · next enough =>
      refine (List.mem_cons.trans (or_congr Iff.rfl ih)).trans ?_
      constructor
      · rintro (rfl | ⟨within, same⟩)
        · rw [String.toList_ofList]
          exact ⟨.inl (List.take_prefix _ _), by
            rw [String.length_ofList, List.length_take, Nat.min_eq_left enough]⟩
        · exact ⟨.inr within, same⟩
      · rintro ⟨here | within, same⟩
        · refine .inl (String.toList_inj.mp ?_)
          rw [String.toList_ofList, ← same, length]
          exact List.prefix_iff_eq_take.mp here
        · exact .inr ⟨within, same⟩
    · next short =>
      refine iff_of_false List.not_mem_nil ?_
      rintro ⟨here | within, same⟩
      · have long := here.length_le
        omega
      · have long := within.length_le
        rw [List.length_cons] at short
        omega

/-- What is near to something heard: within a third of its letters of a word, or within one letter,
two from nine letters on, of a stretch of the speech about as long. -/
theorem nearHeard_iff : nearHeard heardWords compact w = true ↔
    (∃ h ∈ heardWords, Reaches (max ((w.length + 2) / 3) 1) w h) ∨
      ∃ piece : String, max (w.length - 1) 1 ≤ piece.length ∧ piece.length ≤ w.length + 1 ∧
        piece.toList <:+: compact ∧ Reaches (if 9 ≤ w.length then 2 else 1) w piece := by
  simp only [nearHeard, Bool.or_eq_true, List.any_eq_true, decide_eq_true_eq, distance_le_iff,
    List.mem_range,
    mem_stretches]
  refine or_congr Iff.rfl ⟨?_, ?_⟩
  · rintro ⟨k, few, piece, ⟨within, same⟩, reaches⟩
    exact ⟨piece, by omega, by omega, within, reaches⟩
  · rintro ⟨piece, long, short, within, reaches⟩
    exact ⟨piece.length - max (w.length - 1) 1, by omega, piece, ⟨within, by omega⟩, reaches⟩

/-- What sounds like a stretch that starts a word: four consonants, and within one of it. -/
theorem soundsLike_iff {name : String} : soundsLike sounds starts name = true ↔
    4 ≤ (sound name).length ∧ ∃ start ∈ starts, ∃ size,
    (size = (sound name).length ∨ size = (sound name).length + 1) ∧
      Reaches 1 (sound name) (String.ofList ((sounds.drop start).take size)) := by
  simp only [soundsLike, Bool.and_eq_true, decide_eq_true_eq, List.any_eq_true, distance_le_iff,
    List.mem_cons,
    List.not_mem_nil, or_false]

/-- **`distance` is the least number of insertions, deletions and substitutions**; so it is a metric
that is at least the difference of the lengths, and every rule that bounds it accepts what is within
that many of them. -/
theorem distance_isLeast :
    (∀ a b, IsLeast {n | Script n a.toList b.toList} (distance a b)) ∧
    (∀ a b, distance a b = distance b a) ∧ (∀ a b, distance a b = 0 ↔ a = b) ∧
    (∀ a b : String, a.length - b.length ≤ distance a b ∧ b.length - a.length ≤ distance a b) ∧
    (∀ a b c, distance a c ≤ distance a b + distance b c) ∧
    (∀ heard key, closeEnough heard key = true ↔
      5 ≤ key.length ∧ 5 ≤ heard.length ∧ Reaches (if 8 ≤ key.length then 2 else 1) heard key) ∧
    (∀ heardWords compact w, nearHeard heardWords compact w = true ↔
      (∃ h ∈ heardWords, Reaches (max ((w.length + 2) / 3) 1) w h) ∨
        ∃ piece : String, max (w.length - 1) 1 ≤ piece.length ∧ piece.length ≤ w.length + 1 ∧
          piece.toList <:+: compact ∧ Reaches (if 9 ≤ w.length then 2 else 1) w piece) ∧
    ∀ sounds starts name, soundsLike sounds starts name = true ↔
      4 ≤ (sound name).length ∧ ∃ start ∈ starts, ∃ size,
        (size = (sound name).length ∨ size = (sound name).length + 1) ∧
          Reaches 1 (sound name) (String.ofList ((sounds.drop start).take size)) := by
  refine ⟨fun a b => (distance_least a b).isLeast, distance_comm, fun _ _ => distance_eq_zero,
    fun a b => ?_,
    distance_triangle, fun _ _ => closeEnough_iff, fun _ _ _ => nearHeard_iff,
    fun _ _ _ => soundsLike_iff⟩
  have one := length_le_distance a b
  have other := length_le_distance b a
  rw [distance_comm b a] at other
  omega

end Rules

end Callora
