/-
**A stream in pieces.**

A reader takes pieces of a stream and may fail: `push s piece` is what it gives for a piece, and the
state it goes to. `feed` gives it one piece after the other. Where nothing is read of an empty
piece, and a piece in two parts is the two parts one after the other, the cuts do not matter:
`feed_flatten`.
-/
import Mathlib.Data.List.Basic

set_option linter.unusedSectionVars false

namespace Chunks

variable {σ α ω : Type}

/-- What two readings give, one after the other. -/
def andThen (first : Option (List ω × σ)) (next : σ → Option (List ω × σ)) :
    Option (List ω × σ) :=
  first.bind fun (given, s) => (next s).map fun (rest, t) => (given ++ rest, t)

/-- What a reader gives for the pieces of a stream, one after the other. -/
def feed (push : σ → List α → Option (List ω × σ)) : σ → List (List α) → Option (List ω × σ)
  | s, [] => some ([], s)
  | s, piece :: pieces => andThen (push s piece) fun s => feed push s pieces

variable {push : σ → List α → Option (List ω × σ)} {P : σ → Prop}

/-- **A reader that does not see the cuts**, in the states where `P` holds. -/
structure Seamless (push : σ → List α → Option (List ω × σ)) (P : σ → Prop) : Prop where
  nothing : ∀ s, P s → push s [] = some ([], s)
  splits : ∀ s, P s → ∀ xs ys, push s (xs ++ ys) =
    andThen (push s xs) fun s => push s ys
  kept : ∀ s, P s → ∀ xs given t, push s xs = some (given, t) → P t

theorem andThen_some {given : List ω} {s : σ} (next : σ → Option (List ω × σ)) :
    andThen (some (given, s)) next = (next s).map fun (rest, t) => (given ++ rest, t) := rfl

/-- **The cuts do not matter.** -/
theorem Seamless.feed_flatten (seamless : Seamless push P) {s : σ} (start : P s)
    (pieces : List (List α)) : feed push s pieces = push s pieces.flatten := by
  induction pieces generalizing s with
  | nil => rw [List.flatten_nil, seamless.nothing s start, feed]
  | cons piece pieces ih =>
    rw [List.flatten_cons, seamless.splits s start, feed]
    cases pushed : push s piece with
    | none => rfl
    | some result =>
      rw [andThen_some, andThen_some, ih (seamless.kept s start piece result.1 result.2 pushed)]

end Chunks
