import Mathlib.Algebra.Order.Ring.Int
import Mathlib.Algebra.Order.Round

/-!
# Rounding to integers

The four directed and nearest roundings of a linearly ordered field to the integers.
-/

set_option autoImplicit false

namespace TcgRs.Library

inductive RoundingMode where
  | nearestEven | towardZero | down | up
  deriving DecidableEq, Repr

section
variable {K : Type} [Field K] [LinearOrder K] [IsStrictOrderedRing K] [FloorRing K]

/-- The integer for `x`; of two nearest ones, the even one. -/
def roundInt (mode : RoundingMode) (x : K) : ℤ :=
  match mode with
  | .nearestEven => if 2 * Int.fract x = 1 ∧ ¬ Even (round x) then ⌊x⌋ else round x
  | .towardZero => if 0 ≤ x then ⌊x⌋ else ⌈x⌉
  | .down => ⌊x⌋
  | .up => ⌈x⌉

variable (mode : RoundingMode) {x : K}

omit [IsStrictOrderedRing K] in
/-- Rounding goes to one of the two integers around. -/
theorem roundInt_eq_floor_or_ceil (x : K) : roundInt mode x = ⌊x⌋ ∨ roundInt mode x = ⌈x⌉ := by
  have hround : round x = ⌊x⌋ ∨ round x = ⌈x⌉ := by
    unfold round
    split
    · exact .inl rfl
    · exact .inr rfl
  cases mode with
  | nearestEven =>
    unfold roundInt
    dsimp only
    split
    · exact .inl rfl
    · exact hround
  | towardZero =>
    unfold roundInt
    dsimp only
    split
    · exact .inl rfl
    · exact .inr rfl
  | down => exact .inl rfl
  | up => exact .inr rfl

@[simp]
theorem roundInt_intCast (k : ℤ) : roundInt mode (k : K) = k := by
  cases roundInt_eq_floor_or_ceil mode (k : K) with
  | inl h => rw [h, Int.floor_intCast]
  | inr h => rw [h, Int.ceil_intCast]

theorem roundInt_nonneg (h : 0 ≤ x) : 0 ≤ roundInt mode x := by
  have hfloor : 0 ≤ ⌊x⌋ := Int.floor_nonneg.mpr h
  cases roundInt_eq_floor_or_ceil mode x with
  | inl hr => rw [hr]; exact hfloor
  | inr hr => rw [hr]; exact hfloor.trans (Int.floor_le_ceil x)

theorem roundInt_nonpos (h : x ≤ 0) : roundInt mode x ≤ 0 := by
  have hceil : ⌈x⌉ ≤ 0 := Int.ceil_le.mpr (by rwa [Int.cast_zero])
  cases roundInt_eq_floor_or_ceil mode x with
  | inl hr => rw [hr]; exact (Int.floor_le_ceil x).trans hceil
  | inr hr => rw [hr]; exact hceil

end

end TcgRs.Library
