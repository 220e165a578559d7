/-
**Searches in a map, whatever order it is gone through in.**

A hash map is gone through in an order of its own, another one in every run. `HashMap` holds the
entries in the order of one run; `Same` says that another run holds the same ones. A lookup by key
does not see the order (`get_same`); of the searches through all entries these do not:

* `only_same`: the one entry that fits, `unanimous_same`: what all entries that fit agree on;
* `sorted_same`: the entries, once sorted;
* `find?_same`, `findSome?_same`: the first entry that fits, as far as all that fit agree.
-/
import Mathlib.Data.List.Sort
import Mathlib.Data.List.Induction
import Mathlib.Data.List.Nodup

set_option linter.unusedSectionVars false

namespace Unordered

section Lists

variable {α β : Type} {l l' : List α}

/-- The one element that fits; nothing where there are several. -/
def only (p : α → Bool) (l : List α) : Option α :=
  match l.filter p with
  | [x] => some x
  | _ => none

/-- What all elements agree on. -/
def unanimous [DecidableEq α] : List α → Option α
  | [] => none
  | x :: xs => if xs.all (· = x) then some x else none

/-- The elements in their order. -/
def sorted [LinearOrder α] (l : List α) : List α := l.mergeSort fun a b => decide (a ≤ b)

theorem only_same (same : l.Perm l') (p : α → Bool) : only p l = only p l' := by
  have kept := same.filter p
  rw [only, only]
  cases here : l.filter p with
  | nil =>
    rw [here] at kept
    rw [List.nil_perm.mp kept]
  | cons x xs =>
    rw [here] at kept
    cases xs with
    | nil => rw [List.singleton_perm.mp kept]
    | cons y ys =>
      have long := kept.length_eq
      cases there : l'.filter p with
      | nil => rfl
      | cons x' xs' =>
        cases xs' with
        | nil =>
          rw [there] at long
          simp at long
        | cons y' ys' => rfl

theorem unanimous_eq_some_iff [DecidableEq α] {x : α} : unanimous l = some x ↔
    x ∈ l ∧ ∀ y ∈ l, y = x := by
  cases l with
  | nil => simp [unanimous]
  | cons a as =>
    by_cases agreed : as.all (· = a)
    · rw [unanimous, if_pos agreed]
      simp only [List.all_eq_true, decide_eq_true_eq] at agreed
      constructor
      · rintro ⟨rfl⟩
        exact ⟨List.mem_cons_self, fun y listed => (List.mem_cons.mp listed).elim id (agreed y)⟩
      · rintro ⟨-, all⟩
        rw [all a List.mem_cons_self]
    · rw [unanimous, if_neg agreed]
      simp only [List.all_eq_true, decide_eq_true_eq] at agreed
      constructor
      · rintro ⟨⟩
      · rintro ⟨-, all⟩
        refine absurd (fun y listed => ?_) agreed
        rw [all y (List.mem_cons_of_mem a listed), all a List.mem_cons_self]

theorem unanimous_same [DecidableEq α] (same : l.Perm l') : unanimous l = unanimous l' := by
  refine Option.ext fun x => ?_
  rw [unanimous_eq_some_iff, unanimous_eq_some_iff, same.mem_iff]
  simp only [same.mem_iff]

theorem sorted_same [LinearOrder α] (same : l.Perm l') : sorted l = sorted l' := by
  have order : ∀ l : List α, (sorted l).Pairwise (· ≤ ·) := fun l => List.pairwise_mergeSort' (· ≤ ·) l
  refine List.Perm.eq_of_pairwise' (order l) (order l') ?_
  exact (List.mergeSort_perm l _).trans (same.trans (List.mergeSort_perm l' _).symm)

/-- **The first that fits**, as far as all that fit agree. -/
theorem find?_same {p : α → Bool} {f : α → β} (same : l.Perm l')
    (agree : ∀ x ∈ l, ∀ y ∈ l, p x → p y → f x = f y) : (l.find? p).map f = (l'.find? p).map f := by
  cases here : l.find? p with
  | none =>
    have none : l'.find? p = none := by
      rw [List.find?_eq_none] at here ⊢
      exact fun x listed => here x (same.mem_iff.mpr listed)
    rw [none]
  | some x =>
    have fits : p x := List.find?_some here
    have listed := List.mem_of_find?_eq_some here
    cases there : l'.find? p with
    | none => exact absurd fits (List.find?_eq_none.mp there x (same.mem_iff.mp listed))
    | some y =>
      have other := same.mem_iff.mpr (List.mem_of_find?_eq_some there)
      rw [Option.map_some, Option.map_some, agree x listed y other fits (List.find?_some there)]

/-- Of several names, one after the other, the first with any hits has one answer. -/
def FirstAgrees {κ : Type} (hits : κ → List β) : List κ → Prop
  | [] => True
  | k :: ks => (∀ x ∈ hits k, ∀ y ∈ hits k, x = y) ∧ (hits k = [] → FirstAgrees hits ks)

/-- **The first hit of several names**, where the first name with any hits has one answer. -/
theorem findSome?_same {κ γ : Type} {p : κ → α → Bool} {f : α → β} (g : β → γ) (same : l.Perm l')
    {ks : List κ}
    (agrees : FirstAgrees (fun k => (l.filter (p k)).map f) ks) :
    (ks.findSome? fun k => (l.find? (p k)).map fun x => g (f x)) =
      ks.findSome? fun k => (l'.find? (p k)).map fun x => g (f x) := by
  induction ks with
  | nil => rfl
  | cons k ks ih =>
    obtain ⟨here, later⟩ := agrees
    have first : ((l.find? (p k)).map fun x => g (f x)) = (l'.find? (p k)).map fun x => g (f x) := by
      refine find?_same same fun x inside y other fits alike => ?_
      rw [here (f x) (List.mem_map_of_mem (List.mem_filter.mpr ⟨inside, fits⟩)) (f y)
        (List.mem_map_of_mem (List.mem_filter.mpr ⟨other, alike⟩))]
    rw [List.findSome?_cons, List.findSome?_cons, ← first]
    cases found : l.find? (p k) with
    | some x => rfl
    | none =>
      refine ih (later ?_)
      rw [List.find?_eq_none] at found
      rw [List.map_eq_nil_iff, List.filter_eq_nil_iff]
      exact found

end Lists

/-- **A map, in the order it is gone through in one run.** -/
structure HashMap (κ α : Type) where
  entries : List (κ × α)
  nodup : (entries.map Prod.fst).Nodup

namespace HashMap

variable {κ α : Type} [DecidableEq κ] {m m' : HashMap κ α}

def get (m : HashMap κ α) (k : κ) : Option α := (m.entries.find? fun e => e.1 = k).map Prod.snd

def contains (m : HashMap κ α) (k : κ) : Bool := (m.get k).isSome

/-- The empty map. -/
def empty : HashMap κ α := ⟨[], List.nodup_nil⟩

/-- `entry(k).or_insert(v)`. -/
def orInsert (m : HashMap κ α) (k : κ) (v : α) : HashMap κ α :=
  if known : k ∈ m.entries.map Prod.fst then m
  else ⟨m.entries ++ [(k, v)], by
    rw [List.map_append, List.map_singleton]
    exact List.nodup_append_comm.mp (List.nodup_cons.mpr ⟨known, m.nodup⟩)⟩

/-- The map of a list of entries, the first of a key. -/
def firsts (entries : List (κ × α)) : HashMap κ α := entries.foldl (fun m e => m.orInsert e.1 e.2) empty

/-- `retain`. -/
def retain (m : HashMap κ α) (keep : κ × α → Bool) : HashMap κ α :=
  ⟨m.entries.filter keep, m.nodup.sublist (List.filter_sublist.map Prod.fst)⟩

/-- The same map in another run. -/
def Same (m m' : HashMap κ α) : Prop := m.entries.Perm m'.entries

theorem key_unique (m : HashMap κ α) {e f : κ × α} (first : e ∈ m.entries) (second : f ∈ m.entries)
    (key : e.1 = f.1) : e = f := List.inj_on_of_nodup_map m.nodup first second key

/-- **A lookup does not see the order.** -/
theorem get_same (same : m.Same m') (k : κ) : m.get k = m'.get k := by
  refine find?_same same fun x first y second here there => ?_
  simp only [decide_eq_true_eq] at here there
  rw [m.key_unique first second (here.trans there.symm)]

theorem get_eq_none_iff {k : κ} : m.get k = none ↔ k ∉ m.entries.map Prod.fst := by
  rw [get, Option.map_eq_none_iff, List.find?_eq_none]
  constructor
  · intro none' listed
    obtain ⟨e, here, rfl⟩ := List.mem_map.mp listed
    exact none' e here (by simp)
  · intro absent e here fits
    exact absent (List.mem_map.mpr ⟨e, here, by simpa using fits⟩)

theorem mem_of_get {k : κ} {v : α} (found : m.get k = some v) : (k, v) ∈ m.entries := by
  obtain ⟨e, here, rfl⟩ := Option.map_eq_some_iff.mp found
  have key : e.1 = k := by simpa using List.find?_some here
  rw [← key]
  exact List.mem_of_find?_eq_some here

/-- An entry that is there stays. -/
theorem get_orInsert (m : HashMap κ α) (k k' : κ) (v : α) :
    (m.orInsert k v).get k' = (m.get k').or (if k = k' then some v else none) := by
  unfold orInsert
  split
  · next known =>
    by_cases same : k = k'
    · subst same
      obtain ⟨w, here⟩ := Option.ne_none_iff_exists'.mp fun none' => get_eq_none_iff.mp none' known
      rw [here]
      rfl
    · rw [if_neg same, Option.or_none]
  · rw [get, List.find?_append, Option.map_or]
    congr 1
    by_cases same : k = k' <;> simp [same]

theorem mem_orInsert {k : κ} {v : α} {e : κ × α} (listed : e ∈ (m.orInsert k v).entries) :
    e ∈ m.entries ∨ e = (k, v) := by
  unfold orInsert at listed
  split at listed
  · exact .inl listed
  · simpa using listed

theorem mem_firsts {entries : List (κ × α)} {e : κ × α} (listed : e ∈ (firsts entries).entries) :
    e ∈ entries := by
  induction entries using List.reverseRecOn with
  | nil => exact listed
  | append_singleton entries last ih =>
    rw [firsts, List.foldl_append] at listed
    rcases mem_orInsert listed with before | rfl
    · exact List.mem_append_left _ (ih before)
    · exact List.mem_append_right _ (List.mem_singleton_self _)

theorem get_retain (m : HashMap κ α) (keep : κ × α → Bool) (k : κ) :
    (m.retain keep).get k = (m.get k).filter fun v => keep (k, v) := by
  cases here : m.get k with
  | none =>
    have absent := get_eq_none_iff.mp here
    refine get_eq_none_iff.mpr fun listed => absent ?_
    obtain ⟨e, kept, rfl⟩ := List.mem_map.mp listed
    exact List.mem_map_of_mem (List.mem_filter.mp kept).1
  | some v =>
    have listed := mem_of_get here
    cases kept : keep (k, v) with
    | false =>
      rw [Option.filter_some, kept]
      refine get_eq_none_iff.mpr fun held => ?_
      obtain ⟨e, held, key⟩ := List.mem_map.mp held
      obtain ⟨held, keeps⟩ := List.mem_filter.mp held
      rw [m.key_unique held listed key, kept] at keeps
      cases keeps
    | true =>
      rw [Option.filter_some, kept]
      have held : (k, v) ∈ (m.retain keep).entries := List.mem_filter.mpr ⟨listed, kept⟩
      obtain ⟨w, there⟩ := Option.ne_none_iff_exists'.mp fun none' : (m.retain keep).get k = none =>
        get_eq_none_iff.mp none' (List.mem_map_of_mem held)
      have same := (m.retain keep).key_unique (mem_of_get there) held rfl
      rw [there, ← (Prod.mk.inj same).2]
      rfl

theorem contains_same (same : m.Same m') (k : κ) : m.contains k = m'.contains k := by
  rw [contains, contains, get_same same]

end HashMap

end Unordered
