/-
**Windows of time: how many moments fall in one, and how far apart they are.**

Moments are listed in the order they were granted, which need not be the order they come in.
`recent` keeps those a counter still counts at some time, and a moment granted while few are recent
overfills no window:

- `AtMost.concat`: at most `n` moments fall in any window, and fewer than `n` are recent when another is
  granted for now or later: then at most `n` still do;
- `recent_recent`: forgetting early what will be forgotten later changes nothing.
-/
import Mathlib.Data.List.Basic
import Mathlib.Data.Nat.Basic

namespace Windows

/-- A second, in nanoseconds. -/
def SECOND : ℕ := 1000000000

def HOUR : ℕ := 3600 * SECOND

def DAY : ℕ := 24 * 3600 * SECOND

/-- How many moments fall in the window of a length that opens at `x`. -/
def count (w x : ℕ) (l : List ℕ) : ℕ := l.countP fun t => x ≤ t ∧ t < x + w

/-- At most `n` moments fall in any window. -/
def AtMost (n w : ℕ) (l : List ℕ) : Prop := ∀ x, count w x l ≤ n

/-- The moments of the last window before `now`, and later ones. -/
def recent (w now : ℕ) (l : List ℕ) : List ℕ := l.filter fun t => now < t + w

/-- Two moments are never closer than `gap`. -/
def Apart (gap : ℕ) (l : List ℕ) : Prop := l.Pairwise fun p q => p + gap ≤ q ∨ q + gap ≤ p

variable {n m w w' x now now' gap d t : ℕ} {l : List ℕ}

theorem mem_recent : t ∈ recent w now l ↔ t ∈ l ∧ now < t + w := by
  rw [recent, List.mem_filter, decide_eq_true_eq]

theorem recent_append (l' : List ℕ) : recent w now (l ++ l') = recent w now l ++ recent w now l' :=
  List.filter_append ..

/-- What is forgotten early would be forgotten later. -/
theorem recent_recent (shorter : w ≤ w') (later : now ≤ now') :
    recent w now' (recent w' now l) = recent w now' l := by
  rw [recent, recent, List.filter_filter]
  refine List.filter_congr fun t _ => ?_
  have implied : now' < t + w → now < t + w' := fun counts => by omega
  simpa using implied

/-- A window that holds a moment of now or later holds recent moments only. -/
theorem count_le_recent (later : now ≤ d) (holds : d < x + w) :
    count w x l ≤ (recent w now l).length := by
  rw [count, recent, ← List.countP_eq_length_filter]
  refine List.countP_mono_left fun t _ inside => ?_
  have opened : x ≤ t := (of_decide_eq_true inside).1
  exact decide_eq_true (by omega)

theorem AtMost.nil : AtMost n w [] := fun _ => Nat.zero_le _

/-- **Where few are recent, another moment overfills no window.** -/
theorem AtMost.concat (within : AtMost n w l) (room : (recent w now l).length < n) (later : now ≤ d) :
    AtMost n w (l ++ [d]) := by
  intro x
  by_cases holds : x ≤ d ∧ d < x + w
  · have few : count w x l ≤ (recent w now l).length := count_le_recent later holds.2
    have one : count w x (l ++ [d]) = count w x l + 1 := by simp [count, holds]
    omega
  · have none : count w x (l ++ [d]) = count w x l := by simpa [count] using holds
    rw [none]
    exact within x

theorem Apart.nil : Apart gap [] := List.Pairwise.nil

theorem Apart.concat (apart : Apart gap l) (far : ∀ t ∈ l, t + gap ≤ d ∨ d + gap ≤ t) :
    Apart gap (l ++ [d]) := by
  refine List.pairwise_append.mpr ⟨apart, List.pairwise_singleton _ _, fun t listed d' last => ?_⟩
  rw [List.mem_singleton.mp last]
  exact far t listed

end Windows
