import Mathlib.Algebra.Order.Field.Rat
import Mathlib.Data.BitVec
import Mathlib.Order.WithBot
import Mathlib.Tactic.Ring

/-!
# Binary floating-point formats

The values of bit patterns in a binary interchange format.  Every finite magnitude is a natural
number of units, the smallest positive value, and grows with the pattern; infinities are at the
ends of the order.
-/

set_option autoImplicit false

namespace TcgRs.Library

/-- A format by the widths of the exponent and of the fraction; the sign is one bit. -/
structure FloatFormat where
  expBits : Nat
  fracBits : Nat

namespace FloatFormat

def binary32 : FloatFormat := ⟨8, 23⟩
def binary64 : FloatFormat := ⟨11, 52⟩

variable (fmt : FloatFormat) {w : Nat}

/-! ## Fields -/

section
variable (x : BitVec w)

def frac : Nat := x.toNat % 2 ^ fmt.fracBits

def exp : Nat := x.toNat / 2 ^ fmt.fracBits % 2 ^ fmt.expBits

/-- The pattern without its sign. -/
def magnitude : Nat := x.toNat % 2 ^ (fmt.expBits + fmt.fracBits)

def isNeg : Bool := x.toNat / 2 ^ (fmt.expBits + fmt.fracBits) % 2 = 1

def maxExp : Nat := 2 ^ fmt.expBits - 1

def isNan : Bool := fmt.exp x = fmt.maxExp ∧ fmt.frac x ≠ 0

def isInf : Bool := fmt.exp x = fmt.maxExp ∧ fmt.frac x = 0

/-- A NaN whose highest fraction bit is clear. -/
def isSignaling : Bool := fmt.isNan x ∧ fmt.frac x < 2 ^ (fmt.fracBits - 1)

/-! ## Values -/

/-- The magnitude in units of the smallest positive value. -/
def units : Nat :=
  if fmt.exp x = 0 then fmt.frac x
  else (2 ^ fmt.fracBits + fmt.frac x) * 2 ^ (fmt.exp x - 1)

def signedUnits : Int := if fmt.isNeg x then -(fmt.units x : Int) else fmt.units x

/-- The smallest positive value. -/
def unit : ℚ := 2 ^ (2 - 2 ^ (fmt.expBits - 1) - fmt.fracBits : ℤ)

/-- The exact value of a finite pattern. -/
def toRat : ℚ := fmt.signedUnits x * fmt.unit

/-- The value of a pattern that is not a NaN. -/
def value : WithBot (WithTop ℚ) :=
  if fmt.isInf x then (if fmt.isNeg x then ⊥ else ((⊤ : WithTop ℚ) : WithBot (WithTop ℚ)))
  else ((fmt.toRat x : WithTop ℚ) : WithBot (WithTop ℚ))

/-- Comparisons are false for NaNs. -/
def eq (x y : BitVec w) : Bool := !fmt.isNan x && !fmt.isNan y && fmt.value x = fmt.value y

def lt (x y : BitVec w) : Bool := !fmt.isNan x && !fmt.isNan y && decide (fmt.value x < fmt.value y)

def le (x y : BitVec w) : Bool := !fmt.isNan x && !fmt.isNan y && decide (fmt.value x ≤ fmt.value y)

/-- How many units make one. -/
def perOne : Nat := 2 ^ (2 ^ (fmt.expBits - 1) + fmt.fracBits - 2)

/-- The integer part; an infinity counts as the next power of two. -/
def trunc (x : BitVec w) : Int := (fmt.signedUnits x).tdiv fmt.perOne

end

/-! ## Magnitudes -/

/-- The units of a magnitude. -/
def unitsOf (m : Nat) : Nat :=
  if m / 2 ^ fmt.fracBits = 0 then m % 2 ^ fmt.fracBits
  else (2 ^ fmt.fracBits + m % 2 ^ fmt.fracBits) * 2 ^ (m / 2 ^ fmt.fracBits - 1)

theorem unitsOf_lt_succ (m : Nat) : fmt.unitsOf m < fmt.unitsOf (m + 1) := by
  unfold unitsOf
  have hpos : 0 < 2 ^ fmt.fracBits := Nat.two_pow_pos _
  generalize 2 ^ fmt.fracBits = p at hpos
  have hr := Nat.mod_lt m hpos
  have hsplit := Nat.div_add_mod m p
  by_cases hlast : m % p + 1 < p
  · -- the next fraction
    have hnext : m + 1 = (m % p + 1) + p * (m / p) := by omega
    have hdiv : (m + 1) / p = m / p := by
      rw [hnext, Nat.add_mul_div_left _ _ hpos, Nat.div_eq_of_lt hlast, Nat.zero_add]
    have hmod : (m + 1) % p = m % p + 1 := by
      rw [hnext, Nat.add_mul_mod_self_left, Nat.mod_eq_of_lt hlast]
    rw [hdiv, hmod]
    split
    · exact Nat.lt_succ_self _
    · exact Nat.mul_lt_mul_of_pos_right (Nat.lt_succ_self _) (Nat.two_pow_pos _)
  · -- the next exponent
    have hnext : m + 1 = p * (m / p + 1) := by
      rw [Nat.mul_add, Nat.mul_one]
      omega
    have hdiv : (m + 1) / p = m / p + 1 := by rw [hnext, Nat.mul_div_cancel_left _ hpos]
    have hmod : (m + 1) % p = 0 := by rw [hnext, Nat.mul_mod_right]
    rw [hdiv, hmod, if_neg (Nat.succ_ne_zero _), Nat.add_sub_cancel, Nat.add_zero]
    split
    · rename_i hzero
      rw [hzero, Nat.pow_zero, Nat.mul_one]
      exact hr
    · rename_i hne
      obtain ⟨q, hq⟩ := Nat.exists_eq_succ_of_ne_zero hne
      have hpow := Nat.two_pow_pos q
      rw [hq, Nat.succ_sub_one, Nat.pow_succ, Nat.mul_comm (2 ^ q) 2, ← Nat.mul_assoc]
      exact Nat.mul_lt_mul_of_pos_right (by omega) hpow

theorem unitsOf_strictMono : StrictMono fmt.unitsOf :=
  strictMono_nat_of_lt_succ fmt.unitsOf_lt_succ

section
variable {fmt} {x y : BitVec w}

theorem exp_eq (fmt : FloatFormat) (x : BitVec w) :
    fmt.exp x = fmt.magnitude x / 2 ^ fmt.fracBits := by
  unfold exp magnitude
  rw [Nat.add_comm, Nat.pow_add, Nat.mod_mul_right_div_self]

theorem frac_eq (fmt : FloatFormat) (x : BitVec w) :
    fmt.frac x = fmt.magnitude x % 2 ^ fmt.fracBits := by
  unfold frac magnitude
  rw [Nat.mod_mod_of_dvd _ (Nat.pow_dvd_pow 2 (Nat.le_add_left _ _))]

theorem units_eq (fmt : FloatFormat) (x : BitVec w) :
    fmt.units x = fmt.unitsOf (fmt.magnitude x) := by
  unfold units unitsOf
  rw [exp_eq, frac_eq]

theorem units_eq_zero_iff (fmt : FloatFormat) (x : BitVec w) :
    fmt.units x = 0 ↔ fmt.magnitude x = 0 := by
  have hzero : fmt.unitsOf 0 = 0 := by
    unfold unitsOf
    rw [if_pos (Nat.zero_div _), Nat.zero_mod]
  rw [units_eq]
  constructor
  · intro h
    exact fmt.unitsOf_strictMono.injective (h.trans hzero.symm)
  · intro h
    rw [h, hzero]

theorem unit_pos (fmt : FloatFormat) : 0 < fmt.unit := by
  unfold unit
  exact zpow_pos two_pos _

/-- A pattern is its sign and its magnitude. -/
theorem eq_of_fields (hw : w = 1 + (fmt.expBits + fmt.fracBits))
    (hneg : fmt.isNeg x = fmt.isNeg y) (hmag : fmt.magnitude x = fmt.magnitude y) : x = y := by
  have hx := x.isLt
  have hy := y.isLt
  have hpow : 2 ^ w = 2 * 2 ^ (fmt.expBits + fmt.fracBits) := by
    rw [hw, Nat.pow_add, Nat.pow_one]
  unfold isNeg magnitude at *
  rw [hpow] at hx hy
  have hsign := Bool.eq_iff_iff.mp hneg
  rw [decide_eq_true_iff, decide_eq_true_iff] at hsign
  apply BitVec.eq_of_toNat_eq
  have hpos : 0 < 2 ^ (fmt.expBits + fmt.fracBits) := Nat.two_pow_pos _
  generalize 2 ^ (fmt.expBits + fmt.fracBits) = p at *
  have hdx : x.toNat / p < 2 := Nat.div_lt_of_lt_mul (by omega)
  have hdy : y.toNat / p < 2 := Nat.div_lt_of_lt_mul (by omega)
  have hdiv : x.toNat / p = y.toNat / p := by
    rw [Nat.mod_eq_of_lt hdx, Nat.mod_eq_of_lt hdy] at hsign
    generalize x.toNat / p = a at *
    generalize y.toNat / p = b at *
    omega
  rw [← Nat.div_add_mod x.toNat p, ← Nat.div_add_mod y.toNat p, hdiv, hmag]

theorem signedUnits_inj (h : fmt.signedUnits x = fmt.signedUnits y) :
    fmt.units x = fmt.units y ∧ (fmt.units x = 0 ∨ fmt.isNeg x = fmt.isNeg y) := by
  unfold signedUnits at h
  cases hx : fmt.isNeg x <;> cases hy : fmt.isNeg y <;> rw [hx, hy] at h <;>
    simp only [Bool.false_eq_true, Bool.true_eq_false, if_false, if_true, or_true, or_false,
      and_true] at h ⊢ <;> omega

theorem toRat_inj : fmt.toRat x = fmt.toRat y ↔ fmt.signedUnits x = fmt.signedUnits y := by
  unfold toRat
  rw [mul_left_inj' fmt.unit_pos.ne', Int.cast_inj]

/-- Infinities have one magnitude. -/
theorem magnitude_of_isInf (h : fmt.isInf x = true) :
    fmt.magnitude x = 2 ^ fmt.fracBits * fmt.maxExp := by
  unfold isInf at h
  obtain ⟨hexp, hfrac⟩ := of_decide_eq_true h
  rw [exp_eq] at hexp
  rw [frac_eq] at hfrac
  have hsplit := Nat.div_add_mod (fmt.magnitude x) (2 ^ fmt.fracBits)
  rw [hexp, hfrac] at hsplit
  exact hsplit.symm

theorem value_eq_iff : fmt.value x = fmt.value y ↔
    fmt.isInf x = fmt.isInf y ∧ (fmt.isInf x = true → fmt.isNeg x = fmt.isNeg y) ∧
      (fmt.isInf x = false → fmt.signedUnits x = fmt.signedUnits y) := by
  unfold value
  cases hx : fmt.isInf x <;> cases hy : fmt.isInf y
  · simp [toRat_inj]
  · cases fmt.isNeg y <;> simp
  · cases fmt.isNeg x <;> simp
  · cases fmt.isNeg x <;> cases fmt.isNeg y <;> simp

/-- Equal values other than zero have the same pattern. -/
theorem eq_of_value_eq (hw : w = 1 + (fmt.expBits + fmt.fracBits))
    (h : fmt.value x = fmt.value y) (hzero : fmt.magnitude x ≠ 0) : x = y := by
  obtain ⟨hinf, hsign, hunits⟩ := value_eq_iff.mp h
  cases hx : fmt.isInf x with
  | true =>
    refine eq_of_fields hw (hsign hx) ?_
    rw [magnitude_of_isInf hx, magnitude_of_isInf (hinf.symm.trans hx)]
  | false =>
    obtain ⟨hmag, hneg⟩ := signedUnits_inj (hunits hx)
    rw [units_eq_zero_iff] at hneg
    rw [units_eq, units_eq] at hmag
    exact eq_of_fields hw (hneg.resolve_left hzero) (fmt.unitsOf_strictMono.injective hmag)

/-! ## Finite patterns -/

/-- Neither a NaN nor an infinity. -/
def Finite (fmt : FloatFormat) (x : BitVec w) : Prop := fmt.isNan x = false ∧ fmt.isInf x = false

theorem value_of_finite (h : fmt.isInf x = false) :
    fmt.value x = ((fmt.toRat x : WithTop ℚ) : WithBot (WithTop ℚ)) := by
  unfold value
  rw [h]
  rfl

theorem lt_iff_toRat (hx : fmt.Finite x) (hy : fmt.Finite y) :
    fmt.lt x y = true ↔ fmt.toRat x < fmt.toRat y := by
  unfold lt
  rw [hx.1, hy.1, value_of_finite hx.2, value_of_finite hy.2, Bool.not_false, Bool.true_and,
    Bool.true_and, decide_eq_true_iff, WithBot.coe_lt_coe, WithTop.coe_lt_coe]

theorem le_iff_toRat (hx : fmt.Finite x) (hy : fmt.Finite y) :
    fmt.le x y = true ↔ fmt.toRat x ≤ fmt.toRat y := by
  unfold le
  rw [hx.1, hy.1, value_of_finite hx.2, value_of_finite hy.2, Bool.not_false, Bool.true_and,
    Bool.true_and, decide_eq_true_iff, WithBot.coe_le_coe, WithTop.coe_le_coe]

theorem isNeg_of_toRat_neg (h : fmt.toRat x < 0) : fmt.isNeg x = true := by
  cases hneg : fmt.isNeg x with
  | true => rfl
  | false =>
    unfold toRat signedUnits at h
    rw [hneg] at h
    exact absurd h (not_lt.mpr (mul_nonneg (by simp) fmt.unit_pos.le))

theorem isNeg_of_toRat_pos (h : 0 < fmt.toRat x) : fmt.isNeg x = false := by
  cases hneg : fmt.isNeg x with
  | false => rfl
  | true =>
    unfold toRat signedUnits at h
    rw [hneg] at h
    exact absurd h (not_lt.mpr (mul_nonpos_of_nonpos_of_nonneg (by simp) fmt.unit_pos.le))

/-! ## Integers -/

/-- A format in which one is a number of units. -/
def HasOne (fmt : FloatFormat) : Prop := 2 ≤ 2 ^ (fmt.expBits - 1) + fmt.fracBits

theorem unit_mul_perOne (h : fmt.HasOne) : fmt.unit * fmt.perOne = 1 := by
  unfold HasOne at h
  unfold unit perOne
  have hexp : (2 - 2 ^ (fmt.expBits - 1) - fmt.fracBits : ℤ) =
      -((2 ^ (fmt.expBits - 1) + fmt.fracBits - 2 : ℕ) : ℤ) := by
    push_cast [Nat.cast_sub h]
    ring
  rw [hexp, zpow_neg, zpow_natCast, Nat.cast_pow, Nat.cast_ofNat]
  exact inv_mul_cancel₀ (pow_ne_zero _ two_ne_zero)

theorem toRat_eq_intCast_iff (h : fmt.HasOne) (k : ℤ) :
    fmt.toRat x = k ↔ fmt.signedUnits x = k * fmt.perOne := by
  have hone := unit_mul_perOne h
  have hunit : (k : ℚ) = ((k * fmt.perOne : ℤ) : ℚ) * fmt.unit := by
    push_cast
    rw [mul_assoc, mul_comm (fmt.perOne : ℚ), hone, mul_one]
  unfold toRat
  rw [hunit, mul_left_inj' fmt.unit_pos.ne', Int.cast_inj]

theorem trunc_of_toRat (h : fmt.HasOne) {k : ℤ} (hk : fmt.toRat x = k) : fmt.trunc x = k := by
  have hpos : (fmt.perOne : ℤ) ≠ 0 := Int.natCast_ne_zero.mpr (Nat.two_pow_pos _).ne'
  unfold trunc
  rw [(toRat_eq_intCast_iff h k).mp hk]
  exact Int.mul_tdiv_cancel k hpos

end

end FloatFormat

end TcgRs.Library
