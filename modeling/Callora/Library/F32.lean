/-
**Numbers of single precision.**

A number of type `f32` is a rational number that some number is rounded to (`F32`): to the nearest
of the numbers `n * 2 ^ k` with at most 24 binary digits in `n`, ties to even (`asF32`). They are
compared as the rational numbers they are; a sum, a product, a quotient, a literal and a count are
the exact ones, rounded once.

Overflow to infinity and what is no number are left out.
-/
import Mathlib.Data.Int.Log
import Mathlib.Data.Rat.Floor

set_option linter.unusedSectionVars false

/-- The nearest integer, ties to even. -/
def nearestEven (x : ℚ) : ℤ :=
  let n := ⌊x⌋
  if 1 / 2 < x - n ∨ (x - n = 1 / 2 ∧ n % 2 = 1) then n + 1 else n

/-- **A number rounded to single precision**: to a multiple of the last place of its binary digits;
below `2 ^ -126` the last place stays. -/
def asF32 (x : ℚ) : ℚ :=
  let unit : ℚ := 2 ^ (max (Int.log 2 |x|) (-126) - 23)
  nearestEven (x / unit) * unit

example : asF32 0.6 = 5033165 / 8388608 ∧ asF32 16777217 = 16777216 ∧ asF32
    (-16777219) = -16777220 := by decide +kernel

/-- **The numbers of single precision.** -/
def F32 : Type := {x : ℚ // x ∈ Set.range asF32}

namespace F32

/-- `as f32`. -/
def ofRat (x : ℚ) : F32 := ⟨asF32 x, x, rfl⟩

instance : LinearOrder F32 := inferInstanceAs (LinearOrder {x : ℚ // x ∈ Set.range asF32})

instance : OfScientific F32 :=
  ⟨fun digits negative exponent => ofRat (OfScientific.ofScientific digits negative exponent)⟩

instance (n : Nat) : OfNat F32 n := ⟨ofRat n⟩

instance : NatCast F32 := ⟨fun n => ofRat n⟩

instance : Add F32 := ⟨fun x y => ofRat (x.1 + y.1)⟩

instance : Mul F32 := ⟨fun x y => ofRat (x.1 * y.1)⟩

instance : Div F32 := ⟨fun x y => ofRat (x.1 / y.1)⟩

example : ofRat 0.34999999 = 0.35 := by decide +kernel

end F32
