/-
**Runs of a deterministic machine, and labelled paths.**

A machine takes its inputs one at a time: `step s i` is what it answers to `i` in state `s`, and the state
it goes to. `events` lists what happened in a run and `final` is the state it reaches.

- `invariant_at`: what holds at the start and is kept by every event that meets a condition holds at every
  event of a run whose events all meet it;
- `run_induction`: what holds at the start, and is kept by every event that meets a condition, holds after
  every run whose events all meet it; both may speak about the events before;
- `events_split`: a run seen from one of its events;
- `Path.preserves`, `Path.related`: the invariant rules of a path of allowed labelled moves.
-/
import Mathlib.Data.List.Induction
import Mathlib.Logic.Relation

set_option linter.unusedSectionVars false

namespace Runs

/-- A log that grew by one, seen from one of its entries: from the new one, or from one before. -/
theorem split_concat {α : Type} {log pre post : List α} {x y : α}
    (split : log ++ [y] = pre ++ x :: post) :
    (pre = log ∧ x = y ∧ post = []) ∨ ∃ post', post = post' ++ [y] ∧ log = pre ++ x :: post' := by
  rcases List.eq_nil_or_concat post with rfl | ⟨post', last, rfl⟩
  · obtain ⟨rfl, same⟩ := List.append_inj' split rfl
    exact .inl ⟨rfl, (List.singleton_inj.mp same).symm, rfl⟩
  · rw [List.concat_eq_append] at split ⊢
    rw [← List.cons_append, ← List.append_assoc] at split
    obtain ⟨rfl, same⟩ := List.append_inj' split rfl
    obtain rfl := List.singleton_inj.mp same
    exact .inr ⟨post', rfl, rfl⟩

section Machine

variable {σ ι ο : Type}

/-- What happened at one input of a run. -/
structure Event (σ ι ο : Type) where
  before : σ
  input : ι
  output : ο
  after : σ

variable (step : σ → ι → ο × σ)

/-- The event of an input in a state. -/
def event (s : σ) (i : ι) : Event σ ι ο := ⟨s, i, (step s i).1, (step s i).2⟩

/-- The events of a run. -/
def events : σ → List ι → List (Event σ ι ο)
  | _, [] => []
  | s, i :: is => event step s i :: events (step s i).2 is

/-- The state a run reaches. -/
def final : σ → List ι → σ
  | s, [] => s
  | s, i :: is => final (step s i).2 is

variable {step}

@[simp] theorem event_before (s : σ) (i : ι) : (event step s i).before = s := rfl

@[simp] theorem event_input (s : σ) (i : ι) : (event step s i).input = i := rfl

@[simp] theorem event_output (s : σ) (i : ι) : (event step s i).output = (step s i).1 := rfl

theorem events_append (s : σ) (is js : List ι) :
    events step s (is ++ js) = events step s is ++ events step (final step s is) js := by
  induction is generalizing s with
  | nil => rfl
  | cons i is ih => simp only [List.cons_append, events, final, ih]

theorem final_append (s : σ) (is js : List ι) :
    final step s (is ++ js) = final step (final step s is) js := by
  induction is generalizing s with
  | nil => rfl
  | cons i is ih => simp only [List.cons_append, final, ih]

/-- A run seen from one of its events. -/
theorem events_split {s : σ} {is : List ι} {pre post : List (Event σ ι ο)} {ev : Event σ ι ο}
    (split : events step s is = pre ++ ev :: post) :
    ∃ is₁ i is₂, is = is₁ ++ i :: is₂ ∧ pre = events step s is₁ ∧
      ev = event step (final step s is₁) i ∧ post = events step ev.after is₂ := by
  induction is generalizing s pre with
  | nil => simp [events] at split
  | cons i is ih =>
    cases pre with
    | nil =>
      obtain ⟨rfl, rfl⟩ := List.cons.inj split
      exact ⟨[], i, is, rfl, rfl, rfl, rfl⟩
    | cons first pre =>
      obtain ⟨rfl, rest⟩ := List.cons.inj split
      obtain ⟨is₁, j, is₂, rfl, rfl, same, tail⟩ := ih rest
      exact ⟨i :: is₁, j, is₂, rfl, rfl, same, tail⟩

/-- **The invariant rule of runs**, where neither the condition nor the invariant looks back: it holds
wherever an event happens. -/
theorem invariant_at {C : Event σ ι ο → Prop} {P : σ → Prop} {s : σ} (start : P s)
    (kept : ∀ t i, P t → C (event step t i) → P (step t i).2) {is : List ι}
    (all : ∀ ev ∈ events step s is, C ev) :
    ∀ ev ∈ events step s is, P ev.before ∧ C ev ∧ ev = event step ev.before ev.input := by
  induction is generalizing s with
  | nil => exact fun ev listed => absurd listed List.not_mem_nil
  | cons i is ih =>
    intro ev listed
    have first : C (event step s i) := all _ List.mem_cons_self
    rcases List.mem_cons.mp listed with rfl | later
    · exact ⟨start, first, rfl⟩
    · exact ih (kept s i start first) (fun ev here => all ev (List.mem_cons_of_mem _ here)) ev later

/-- The invariant of a run whose events all meet the condition holds where the run ends. -/
theorem invariant_final {C : Event σ ι ο → Prop} {P : σ → Prop} {s : σ} (start : P s)
    (kept : ∀ t i, P t → C (event step t i) → P (step t i).2) {is : List ι}
    (all : ∀ ev ∈ events step s is, C ev) : P (final step s is) := by
  induction is generalizing s with
  | nil => exact start
  | cons i is ih =>
    have first : C (event step s i) := all _ List.mem_cons_self
    exact ih (kept s i start first) fun ev here => all ev (List.mem_cons_of_mem _ here)

/-- Every event meets a condition, which may look at the events before it. -/
def Along (C : List (Event σ ι ο) → Event σ ι ο → Prop) (evs : List (Event σ ι ο)) : Prop :=
  ∀ pre ev post, evs = pre ++ ev :: post → C pre ev

theorem Along.earlier {C : List (Event σ ι ο) → Event σ ι ο → Prop} {evs more : List (Event σ ι ο)}
    (along : Along C (evs ++ more)) : Along C evs := by
  intro pre ev post split
  exact along pre ev (post ++ more) (by rw [split, List.append_assoc, List.cons_append])

theorem along_iff {C : List (Event σ ι ο) → Event σ ι ο → Prop} {evs : List (Event σ ι ο)} :
    Along C evs ↔ ∀ k : Fin evs.length, C (evs.take k) (evs.get k) := by
  constructor
  · intro along k
    refine along _ _ (evs.drop (k + 1)) ?_
    rw [List.get_eq_getElem, List.getElem_cons_drop, List.take_append_drop]
  · rintro all pre ev post rfl
    have here := all ⟨pre.length, by simp⟩
    simpa using here

instance {C : List (Event σ ι ο) → Event σ ι ο → Prop} [∀ pre ev, Decidable (C pre ev)]
    (evs : List (Event σ ι ο)) : Decidable (Along C evs) :=
  decidable_of_iff _ along_iff.symm

/-- **The invariant rule of runs**, with the events before. -/
theorem run_induction {C : List (Event σ ι ο) → Event σ ι ο → Prop}
    {P : List (Event σ ι ο) → σ → Prop} {s : σ} (start : P [] s)
    (kept : ∀ pre t i, P pre t → C pre (event step t i) →
      P (pre ++ [event step t i]) (step t i).2)
    {is : List ι} (along : Along C (events step s is)) : P (events step s is) (final step s is) := by
  induction is using List.reverseRecOn with
  | nil => exact start
  | append_singleton is i ih =>
    rw [events_append] at along
    have last : C (events step s is) (event step (final step s is) i) := along _ _ [] rfl
    rw [events_append, final_append]
    exact kept _ _ _ (ih along.earlier) last

end Machine

section Paths

variable {σ label : Type}

/-- Allowed moves, one after the other. -/
def Path (move : label → σ → σ → Prop) (allowed : label → σ → Prop) : σ → σ → Prop :=
  Relation.ReflTransGen fun s t => ∃ l, allowed l s ∧ move l s t

variable {move : label → σ → σ → Prop} {allowed : label → σ → Prop} {s t u : σ}

namespace Path

theorem refl (s : σ) : Path move allowed s s := Relation.ReflTransGen.refl

theorem single {l : label} (may : allowed l s) (moved : move l s t) : Path move allowed s t :=
  Relation.ReflTransGen.single ⟨l, may, moved⟩

theorem trans (first : Path move allowed s t) (second : Path move allowed t u) :
    Path move allowed s u :=
  Relation.ReflTransGen.trans first second

/-- What every allowed move keeps, a path keeps. -/
theorem preserves {P : σ → Prop} (kept : ∀ l s t, allowed l s → move l s t → P s → P t)
    (path : Path move allowed s t) (start : P s) : P t := by
  induction path with
  | refl => exact start
  | tail _ moved ih =>
    obtain ⟨l, may, moved⟩ := moved
    exact kept l _ _ may moved ih

/-- A preorder that holds of every allowed move holds of a path. -/
theorem related {R : σ → σ → Prop} (reflexive : ∀ s, R s s)
    (transitive : ∀ s t u, R s t → R t u → R s u)
    (holds : ∀ l s t, allowed l s → move l s t → R s t) (path : Path move allowed s t) : R s t := by
  induction path with
  | refl => exact reflexive _
  | tail _ moved ih =>
    obtain ⟨l, may, moved⟩ := moved
    exact transitive _ _ _ ih (holds l _ _ may moved)

end Path

end Paths

end Runs
