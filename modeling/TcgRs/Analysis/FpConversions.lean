import TcgRs.Analysis.FsDirty

/-!
# Conversions from floating point to integers

The signed conversions do what the specification says.  The unsigned ones raise NV for a negative
operand that rounds to zero, and the one to 32 bits does not sign-extend its result.
-/

set_option autoImplicit false
set_option linter.constructorNameAsVariable false

namespace TcgRs.Analysis.FpConversions

open TcgRs.Library TcgRs.Model TcgRs.Model.Riscv
open TcgRs.Interface.RiscvFloat TcgRs.Interface.RiscvExec
open FloatFormat
open CpuFields FpCode FpFlags FsDirty

variable {H : HostFloat} {T : HelperTable} {insn : FpInsn} {c c' : Cpu} {env : FpEnv}
variable {mode : RoundingMode} {val rm : BitVec 64}

/-! ## The host -/

theorem hasOne_binary64 : binary64.HasOne := by
  unfold HasOne
  decide

theorem isFinite_iff (x : BitVec 64) : isFinite x = true ↔ binary64.Finite x := by
  unfold isFinite FloatFormat.Finite
  rw [Bool.and_eq_true, Bool.not_eq_true', Bool.not_eq_true']

/-- A rounding mode of the specification is one of the host's, and raises nothing. -/
theorem mapRm_of (h : staticRm env rm = rmOf mode) : mapRm env rm = (hostRound mode, env) := by
  unfold mapRm
  rw [h]
  cases mode <;> rfl

/-- A finite pattern that stands for an integer. -/
structure IsInt (x : BitVec 64) (k : ℤ) : Prop where
  finite : binary64.Finite x
  toRat_eq : binary64.toRat x = k

theorem isInt_of_units {x : BitVec 64} {k : ℤ}
    (h : (binary64.isNan x = false ∧ binary64.isInf x = false) ∧
      binary64.signedUnits x = k * binary64.perOne) : IsInt x k :=
  ⟨h.1, (toRat_eq_intCast_iff hasOne_binary64 k).mpr h.2⟩

theorem isInt_zero : IsInt 0 0 := isInt_of_units (by decide +kernel)
theorem isInt_i32Min : IsInt I32_MIN_F64 (-2 ^ 31) := isInt_of_units (by decide +kernel)
theorem isInt_i32Max : IsInt I32_MAX_PLUS1_F64 (2 ^ 31) := isInt_of_units (by decide +kernel)
theorem isInt_i64Min : IsInt I64_MIN_F64 (-2 ^ 63) := isInt_of_units (by decide +kernel)
theorem isInt_i64Max : IsInt I64_MAX_PLUS1_F64 (2 ^ 63) := isInt_of_units (by decide +kernel)
theorem isInt_u32Max : IsInt U32_MAX_PLUS1_F64 (2 ^ 32) := isInt_of_units (by decide +kernel)
theorem isInt_u64Max : IsInt U64_MAX_PLUS1_F64 (2 ^ 64) := isInt_of_units (by decide +kernel)

theorem inRange_iff {lo hi x : BitVec 64} {low high k : ℤ} (hlo : IsInt lo low)
    (hhi : IsInt hi high) (hx : IsInt x k) : inRange lo hi x = true ↔ low ≤ k ∧ k < high := by
  unfold inRange
  rw [Bool.and_eq_true, le_iff_toRat hlo.finite hx.finite, lt_iff_toRat hx.finite hhi.finite,
    hlo.toRat_eq, hhi.toRat_eq, hx.toRat_eq, Int.cast_le, Int.cast_lt]

section
variable (hround : RoundsAt H mode val)
include hround

/-- The result of rounding is in range if the rounded value is. -/
theorem outOfRange_iff {lo hi : BitVec 64} {low high : ℤ} (hlo : IsInt lo low)
    (hhi : IsInt hi high) : outOfRange lo hi (H.rint (hostRound mode) val) ↔
      ¬ (low ≤ roundInt mode (binary64.toRat val) ∧ roundInt mode (binary64.toRat val) < high) := by
  have hvalid : (H.rint (hostRound mode) val).2 &&& FE_ALL_EXCEPT &&& FE_INVALID = 0 := by
    rw [hround.exceptions]
    split <;> decide
  rw [← inRange_iff hlo hhi ⟨hround.finite, hround.toRat_eq⟩]
  unfold outOfRange
  rw [hvalid, (isFinite_iff _).mpr hround.finite]
  simp

theorem rint_flags : mapFenvFlags ((H.rint (hostRound mode) val).2 &&& FE_ALL_EXCEPT) =
    if roundInt mode (binary64.toRat val) = binary64.toRat val then 0 else FFLAGS_NX := by
  rw [hround.exceptions]
  split <;> decide

/-- A cast of the rounded value is exact if it is in range. -/
theorem castSigned_rint {n : Nat} {low high : ℤ} (hlow : low = -2 ^ (n - 1))
    (hhigh : high = 2 ^ (n - 1) - 1)
    (hr : low ≤ roundInt mode (binary64.toRat val) ∧ roundInt mode (binary64.toRat val) ≤ high) :
    castSigned n (H.rint (hostRound mode) val).1 =
      BitVec.ofInt n (roundInt mode (binary64.toRat val)) := by
  unfold castSigned
  rw [hround.finite.1, trunc_of_toRat hasOne_binary64 hround.toRat_eq, ← hlow, ← hhigh,
    min_eq_right hr.2, max_eq_right hr.1]
  rfl

theorem castUnsigned_rint {n : Nat} {high : ℤ} (hhigh : high = 2 ^ n - 1)
    (hr : 0 ≤ roundInt mode (binary64.toRat val) ∧ roundInt mode (binary64.toRat val) ≤ high) :
    castUnsigned n (H.rint (hostRound mode) val).1 =
      BitVec.ofInt n (roundInt mode (binary64.toRat val)) := by
  unfold castUnsigned
  rw [hround.finite.1, trunc_of_toRat hasOne_binary64 hround.toRat_eq, ← hhigh,
    min_eq_right hr.2, max_eq_right hr.1]
  rfl

end

/-! ## Finite operands -/

theorem finite_of (hnan : ¬ binary64.isNan val = true) (hinf : ¬ binary64.isInf val = true) :
    binary64.Finite val := ⟨Bool.eq_false_iff.mpr hnan, Bool.eq_false_iff.mpr hinf⟩

theorem roundOf_of (h : staticRm env rm = rmOf mode) : roundOf env rm = hostRound mode :=
  congrArg Prod.fst (mapRm_of h)

theorem setInvalid_raises (env : FpEnv) : Raises FFLAGS_NV env (setInvalid env) :=
  (accrues_setInvalid env).raises

theorem rint_raises (hround : RoundsAt H mode val) (env : FpEnv) :
    Raises (if roundInt mode (binary64.toRat val) = binary64.toRat val then 0 else FFLAGS_NX) env
      (updateFflags env (mapFenvFlags ((H.rint (hostRound mode) val).2 &&& FE_ALL_EXCEPT))) := by
  rw [← rint_flags hround]
  exact (accrues_update env (mapFenvFlags_mask _)).raises

/-- What the specification says of a finite value. -/
theorem convertTo_finite (mode : RoundingMode) (low high : ℤ) (h : binary64.Finite val) :
    convertTo low high mode (.double val) =
      if roundInt mode (binary64.toRat val) < low then (low, FFLAGS_NV)
      else if high < roundInt mode (binary64.toRat val) then (high, FFLAGS_NV)
      else (roundInt mode (binary64.toRat val),
        if roundInt mode (binary64.toRat val) = binary64.toRat val then 0 else FFLAGS_NX) := by
  have hnan : FpValue.isNan (.double val) = false := h.1
  have hinf : FpValue.isInf (.double val) = false := h.2
  unfold convertTo
  rw [hnan, hinf]
  rfl

theorem convertTo_nan (low high : ℤ) (h : binary64.isNan val = true) :
    convertTo low high mode (.double val) = (high, FFLAGS_NV) := if_pos h

theorem convertTo_inf (low high : ℤ) (hnan : ¬ binary64.isNan val = true)
    (hinf : binary64.isInf val = true) :
    convertTo low high mode (.double val) =
      (if binary64.isNeg val then low else high, FFLAGS_NV) := by
  have hnan' : FpValue.isNan (.double val) = false := Bool.eq_false_iff.mpr hnan
  have hinf' : FpValue.isInf (.double val) = true := hinf
  unfold convertTo
  rw [hnan', hinf']
  rfl

/-! ## The signed conversions -/

/-- The constants of a conversion to signed integers of `n` bits. -/
structure SignedRange (n : Nat) (lo hi : BitVec 64) (low high : ℤ) : Prop where
  low_eq : low = -2 ^ (n - 1)
  high_eq : high = 2 ^ (n - 1) - 1
  low_nonpos : low ≤ 0
  high_nonneg : 0 ≤ high
  ofInt_low : BitVec.ofInt n low = BitVec.intMin n
  ofInt_high : BitVec.ofInt n high = BitVec.intMax n
  isInt_lo : IsInt lo low
  isInt_hi : IsInt hi (high + 1)

theorem signedRange_w :
    SignedRange 32 I32_MIN_F64 I32_MAX_PLUS1_F64 IntTarget.w.low IntTarget.w.high :=
  ⟨by decide, by decide, by decide, by decide, by decide, by decide, isInt_i32Min, isInt_i32Max⟩

theorem signedRange_l :
    SignedRange 64 I64_MIN_F64 I64_MAX_PLUS1_F64 IntTarget.l.low IntTarget.l.high :=
  ⟨by decide, by decide, by decide, by decide, by decide, by decide, isInt_i64Min, isInt_i64Max⟩

/-- The sign of a value whose rounding is below zero. -/
theorem isNeg_of_rounds_neg (h : roundInt mode (binary64.toRat val) < 0) :
    binary64.isNeg val = true := by
  apply isNeg_of_toRat_neg
  by_contra hge
  exact absurd (roundInt_nonneg mode (not_lt.mp hge)) (not_le.mpr h)

theorem isNeg_of_rounds_pos (h : 0 < roundInt mode (binary64.toRat val)) :
    binary64.isNeg val = false := by
  apply isNeg_of_toRat_pos
  by_contra hle
  exact absurd (roundInt_nonpos mode (not_lt.mp hle)) (not_le.mpr h)

theorem fcvtSigned_converts {n : Nat} {lo hi : BitVec 64} {low high : ℤ}
    (hrange : SignedRange n lo hi low high) (hmode : staticRm env rm = rmOf mode)
    (hround : binary64.Finite val → RoundsAt H mode val) :
    (fcvtSigned n lo hi H env val rm).1 =
        (BitVec.ofInt n (convertTo low high mode (.double val)).1).signExtend 64 ∧
      Raises (convertTo low high mode (.double val)).2 env (fcvtSigned n lo hi H env val rm).2 := by
  by_cases hnan : binary64.isNan val = true
  · rw [convertTo_nan low high hnan, hrange.ofInt_high]
    unfold fcvtSigned
    rw [if_pos hnan]
    exact ⟨rfl, setInvalid_raises env⟩
  by_cases hinf : binary64.isInf val = true
  · rw [convertTo_inf low high hnan hinf, apply_ite (BitVec.ofInt n), hrange.ofInt_low,
      hrange.ofInt_high]
    unfold fcvtSigned
    rw [if_neg hnan, if_pos hinf]
    exact ⟨rfl, setInvalid_raises env⟩
  have hfin := finite_of hnan hinf
  have hr := hround hfin
  rw [convertTo_finite mode low high hfin, fcvtSigned_finite H lo hi val rm n env hnan hinf,
    roundOf_of hmode, congrArg Prod.snd (mapRm_of hmode)]
  by_cases hlow : roundInt mode (binary64.toRat val) < low
  · have hout := (outOfRange_iff hr hrange.isInt_lo hrange.isInt_hi).mpr (by omega)
    rw [if_pos hlow, if_pos hout, isNeg_of_rounds_neg (hlow.trans_le hrange.low_nonpos),
      hrange.ofInt_low]
    exact ⟨rfl, setInvalid_raises env⟩
  by_cases hhigh : high < roundInt mode (binary64.toRat val)
  · have hout := (outOfRange_iff hr hrange.isInt_lo hrange.isInt_hi).mpr (by omega)
    rw [if_neg hlow, if_pos hhigh, if_pos hout,
      isNeg_of_rounds_pos (hrange.high_nonneg.trans_lt hhigh), hrange.ofInt_high]
    exact ⟨rfl, setInvalid_raises env⟩
  · have hin : ¬ outOfRange lo hi (H.rint (hostRound mode) val) := by
      rw [outOfRange_iff hr hrange.isInt_lo hrange.isInt_hi, not_not]
      omega
    rw [if_neg hlow, if_neg hhigh, if_neg hin,
      castSigned_rint hr hrange.low_eq hrange.high_eq ⟨not_lt.mp hlow, not_lt.mp hhigh⟩]
    exact ⟨rfl, rint_raises hr env⟩

/-! ## The unsigned conversions -/

structure UnsignedRange (n : Nat) (hi : BitVec 64) (high : ℤ) : Prop where
  high_eq : high = 2 ^ n - 1
  high_nonneg : 0 ≤ high
  ofInt_high : BitVec.ofInt n high = BitVec.allOnes n
  isInt_hi : IsInt hi (high + 1)

theorem unsignedRange_wu : UnsignedRange 32 U32_MAX_PLUS1_F64 IntTarget.wu.high :=
  ⟨by decide, by decide, by decide, isInt_u32Max⟩

theorem unsignedRange_lu : UnsignedRange 64 U64_MAX_PLUS1_F64 IntTarget.lu.high :=
  ⟨by decide, by decide, by decide, isInt_u64Max⟩

/-- A negative value that rounds to zero. -/
def NegativeToZero (mode : RoundingMode) (x : FpValue) : Prop :=
  x.isNan = false ∧ x.isInf = false ∧ x.toRat < 0 ∧ roundInt mode x.toRat = 0

/-- A negative value that rounds to zero counts as out of range. -/
theorem fcvtUnsigned_negativeToZero {n : Nat} {hi : BitVec 64}
    (h : NegativeToZero mode (.double val)) :
    fcvtUnsigned n hi H env val rm = (0, setInvalid env) := by
  obtain ⟨hnan, hinf, hneg, -⟩ := h
  have hnan' : binary64.isNan val = false := hnan
  have hinf' : binary64.isInf val = false := hinf
  have hlt : binary64.lt val 0 = true := by
    rw [lt_iff_toRat ⟨hnan, hinf⟩ isInt_zero.finite, isInt_zero.toRat_eq]
    exact hneg.trans_eq Int.cast_zero.symm
  unfold fcvtUnsigned
  rw [hnan', hinf', hlt]
  rfl

theorem convertTo_negativeToZero {high : ℤ} (hhigh : 0 ≤ high)
    (h : NegativeToZero mode (.double val)) :
    convertTo 0 high mode (.double val) = (0, FFLAGS_NX) := by
  obtain ⟨hnan, hinf, hneg, hzero⟩ := h
  have hne : ¬ (((0 : ℤ) : ℚ) = binary64.toRat val) := by
    rw [Int.cast_zero]
    exact (ne_of_lt hneg).symm
  have hr : roundInt mode (binary64.toRat val) = 0 := hzero
  rw [convertTo_finite mode 0 high ⟨hnan, hinf⟩, hr, if_neg (lt_irrefl 0), if_neg (not_lt.mpr hhigh),
    if_neg hne]

theorem fcvtUnsigned_converts {n : Nat} {hi : BitVec 64} {high : ℤ}
    (hrange : UnsignedRange n hi high) (hmode : staticRm env rm = rmOf mode)
    (hround : binary64.Finite val → RoundsAt H mode val)
    (hzero : ¬ NegativeToZero mode (.double val)) :
    (fcvtUnsigned n hi H env val rm).1 =
        (BitVec.ofInt n (convertTo 0 high mode (.double val)).1).setWidth 64 ∧
      Raises (convertTo 0 high mode (.double val)).2 env (fcvtUnsigned n hi H env val rm).2 := by
  have hofInt_zero : (BitVec.ofInt n 0).setWidth 64 = 0 := by simp
  by_cases hnan : binary64.isNan val = true
  · rw [convertTo_nan 0 high hnan, hrange.ofInt_high]
    unfold fcvtUnsigned
    rw [if_pos hnan]
    exact ⟨rfl, setInvalid_raises env⟩
  by_cases hinf : binary64.isInf val = true
  · rw [convertTo_inf 0 high hnan hinf]
    unfold fcvtUnsigned
    rw [if_neg hnan, if_pos hinf]
    refine ⟨?_, setInvalid_raises env⟩
    cases binary64.isNeg val with
    | true => exact hofInt_zero.symm
    | false => exact congrArg (BitVec.setWidth 64) hrange.ofInt_high.symm
  have hfin := finite_of hnan hinf
  rw [convertTo_finite mode 0 high hfin]
  have hlt_iff : binary64.lt val 0 = true ↔ binary64.toRat val < 0 := by
    rw [lt_iff_toRat hfin isInt_zero.finite, isInt_zero.toRat_eq, Int.cast_zero]
  by_cases hneg : binary64.lt val 0 = true
  · have hle := roundInt_nonpos mode (hlt_iff.mp hneg).le
    have hne : roundInt mode (binary64.toRat val) ≠ 0 := fun h =>
      hzero ⟨hfin.1, hfin.2, hlt_iff.mp hneg, h⟩
    unfold fcvtUnsigned
    rw [if_neg hnan, if_neg hinf, if_pos hneg, if_pos (lt_of_le_of_ne hle hne)]
    exact ⟨hofInt_zero.symm, setInvalid_raises env⟩
  have hr := hround hfin
  have hnonneg := roundInt_nonneg mode (not_lt.mp (hlt_iff.not.mp hneg))
  rw [fcvtUnsigned_finite H hi val rm n env hnan hinf hneg, roundOf_of hmode,
    congrArg Prod.snd (mapRm_of hmode), if_neg (not_lt.mpr hnonneg)]
  by_cases hhigh : high < roundInt mode (binary64.toRat val)
  · have hout := (outOfRange_iff hr isInt_zero hrange.isInt_hi).mpr (by omega)
    rw [if_pos hhigh, if_pos hout, hrange.ofInt_high]
    exact ⟨rfl, setInvalid_raises env⟩
  · have hin : ¬ outOfRange 0 hi (H.rint (hostRound mode) val) := by
      rw [outOfRange_iff hr isInt_zero hrange.isInt_hi, not_not]
      omega
    rw [if_neg hhigh, if_neg hin, castUnsigned_rint hr hrange.high_eq ⟨hnonneg, not_lt.mp hhigh⟩]
    exact ⟨rfl, rint_raises hr env⟩

/-! ## Instructions -/

/-- A conversion instruction. -/
structure Conversion where
  target : IntTarget
  isSingle : Bool
  args : ArgsR2Rm

def conversionOf : FpInsn → Option Conversion
  | .fcvtWS a => some ⟨.w, true, a⟩
  | .fcvtWuS a => some ⟨.wu, true, a⟩
  | .fcvtLS a => some ⟨.l, true, a⟩
  | .fcvtLuS a => some ⟨.lu, true, a⟩
  | .fcvtWD a => some ⟨.w, false, a⟩
  | .fcvtWuD a => some ⟨.wu, false, a⟩
  | .fcvtLD a => some ⟨.l, false, a⟩
  | .fcvtLuD a => some ⟨.lu, false, a⟩
  | _ => none

namespace Conversion

variable (k : Conversion)

def operand (c : Cpu) : FpValue :=
  if k.isSingle then .single (readF32Bits (c.field (.fpr k.args.rs1)))
  else .double (c.field (.fpr k.args.rs1))

/-- The result that the specification gives, and its flag. -/
def result (mode : RoundingMode) (c : Cpu) : Int × BitVec 64 :=
  k.target.convert mode (k.operand c)

end Conversion

/-- The operand as the conversion gets it. -/
def widened (H : HostFloat) : FpValue → BitVec 64
  | .single bits => H.widen bits
  | .double bits => bits

/-- What the code relies on: the host widens the operand exactly, and rounds it in the mode. -/
structure HostRounds (H : HostFloat) (mode : RoundingMode) (x : FpValue) : Prop where
  widens : ∀ bits, x = .single bits → WidensAt H bits
  rounds : binary64.Finite (widened H x) → RoundsAt H mode (widened H x)

/-- The result is in rd, and only the flag of the specification was raised. -/
def Converted (k : Conversion) (mode : RoundingMode) (c c' : Cpu) : Prop :=
  c'.hart = c.hart.setReg k.args.rd (k.target.register (k.result mode c).1) ∧
    Raises (k.result mode c).2 c.fpEnv c'.fpEnv

/-- The instruction is signed; or no negative operand rounds to zero, unless NV and NX are set anyway,
and no word from 2 ^ 31 on goes to a register. -/
def ConvertsRight (k : Conversion) (mode : RoundingMode) (c : Cpu) : Prop :=
  k.target = .w ∨ k.target = .l ∨
    ((NegativeToZero mode (k.operand c) →
        c.field .fflags &&& (FFLAGS_NV ||| FFLAGS_NX) = FFLAGS_NV ||| FFLAGS_NX) ∧
      (k.target = .wu → k.args.rd = 0 ∨ (k.result mode c).1 < 2 ^ 31))

/-! ## What an instruction leaves -/

def fcvt (H : HostFloat) (env : FpEnv) (val rm : BitVec 64) : IntTarget → BitVec 64 × FpEnv
  | .w => fcvtI32 H env val rm
  | .wu => fcvtU32 H env val rm
  | .l => fcvtI64 H env val rm
  | .lu => fcvtU64 H env val rm

theorem after_conversion {k : Conversion} (h : conversionOf insn = some k) :
    FpInsn.after H insn c =
      (c.setFpEnv (fcvt H c.fpEnv (widened H (k.operand c)) k.args.rm k.target).2).setReg k.args.rd
        (fcvt H c.fpEnv (widened H (k.operand c)) k.args.rm k.target).1 := by
  cases insn <;> cases h <;> rfl

/-- Widening makes no difference to the specification. -/
theorem convert_widened {x : FpValue} (h : HostRounds H mode x) (low high : ℤ) :
    convertTo low high mode x = convertTo low high mode (.double (widened H x)) := by
  cases x with
  | double bits => rfl
  | single bits =>
    have hw := h.widens bits rfl
    have hnan : FpValue.isNan (.double (H.widen bits)) = FpValue.isNan (.single bits) := hw.isNan_eq
    have hinf : FpValue.isInf (.double (H.widen bits)) = FpValue.isInf (.single bits) := hw.isInf_eq
    unfold widened convertTo
    rw [hnan, hinf]
    cases hn : FpValue.isNan (.single bits) with
    | true => rfl
    | false =>
      have hneg : FpValue.isNeg (.double (H.widen bits)) = FpValue.isNeg (.single bits) :=
        hw.isNeg_eq hn
      rw [hneg]
      cases hi : FpValue.isInf (.single bits) with
      | true => rfl
      | false =>
        have hq : FpValue.toRat (.double (H.widen bits)) = FpValue.toRat (.single bits) :=
          hw.toRat_eq ⟨hn, hi⟩
        rw [hq]

theorem negativeToZero_widened {x : FpValue} (h : HostRounds H mode x) :
    NegativeToZero mode (.double (widened H x)) ↔ NegativeToZero mode x := by
  cases x with
  | double bits => rfl
  | single bits =>
    have hw := h.widens bits rfl
    have hnan : FpValue.isNan (.double (H.widen bits)) = FpValue.isNan (.single bits) := hw.isNan_eq
    have hinf : FpValue.isInf (.double (H.widen bits)) = FpValue.isInf (.single bits) := hw.isInf_eq
    unfold NegativeToZero widened
    rw [hnan, hinf]
    refine and_congr_right fun hn => and_congr_right fun hi => ?_
    have hq : FpValue.toRat (.double (H.widen bits)) = FpValue.toRat (.single bits) :=
      hw.toRat_eq ⟨hn, hi⟩
    rw [hq]

/-- NV was raised in place of NX, which makes no difference if both flags are set. -/
theorem setInvalid_raises_inexact_iff (env : FpEnv) :
    Raises FFLAGS_NX env (setInvalid env) ↔
      env.fflags &&& (FFLAGS_NV ||| FFLAGS_NX) = FFLAGS_NV ||| FFLAGS_NX := by
  have hnv : ∀ i, (hi : i < 64) → FFLAGS_NV[i] = decide (i = 4) := by decide
  have hnx : ∀ i, (hi : i < 64) → FFLAGS_NX[i] = decide (i = 0) := by decide
  have hmask : ∀ i, (hi : i < 64) → FFLAGS_MASK[i] = decide (i < 5) := by decide
  constructor
  · intro h
    ext i hi
    have hbit := congrArg (fun v : BitVec 64 => v[i]) h.fflags_eq
    simp only [setInvalid, updateFflags, BitVec.getElem_and, BitVec.getElem_or, hnv i hi, hnx i hi,
      hmask i hi] at hbit ⊢
    grind
  · intro h
    refine ⟨?_, rfl⟩
    ext i hi
    have hbit := congrArg (fun v : BitVec 64 => v[i]) h
    simp only [setInvalid, updateFflags, BitVec.getElem_and, BitVec.getElem_or, hnv i hi, hnx i hi,
      hmask i hi] at hbit ⊢
    grind

theorem fcvtUnsigned_value {n : Nat} {hi : BitVec 64} {high : ℤ}
    (hrange : UnsignedRange n hi high) (hmode : staticRm env rm = rmOf mode)
    (hround : binary64.Finite val → RoundsAt H mode val) :
    (fcvtUnsigned n hi H env val rm).1 =
        (BitVec.ofInt n (convertTo 0 high mode (.double val)).1).setWidth 64 ∧
      (Raises (convertTo 0 high mode (.double val)).2 env (fcvtUnsigned n hi H env val rm).2 ↔
        (NegativeToZero mode (.double val) →
          env.fflags &&& (FFLAGS_NV ||| FFLAGS_NX) = FFLAGS_NV ||| FFLAGS_NX)) := by
  by_cases hzero : NegativeToZero mode (.double val)
  · rw [fcvtUnsigned_negativeToZero hzero, convertTo_negativeToZero hrange.high_nonneg hzero,
      setInvalid_raises_inexact_iff]
    exact ⟨by simp, (imp_iff_right hzero).symm⟩
  · obtain ⟨hvalue, hraises⟩ := fcvtUnsigned_converts hrange hmode hround hzero
    exact ⟨hvalue, iff_of_true hraises fun h => absurd h hzero⟩

theorem convertTo_bounds (mode : RoundingMode) {low high : ℤ} (h : low ≤ high) (x : FpValue) :
    low ≤ (convertTo low high mode x).1 ∧ (convertTo low high mode x).1 ≤ high := by
  unfold convertTo
  split_ifs <;> constructor <;> dsimp only <;> omega

/-- Extending a word with its sign or with zeros is the same below the middle. -/
theorem signExtend_eq_setWidth_iff {v : ℤ} (hv : 0 ≤ v ∧ v ≤ 2 ^ 32 - 1) :
    (BitVec.ofInt 32 v).setWidth 64 = (BitVec.ofInt 32 v).signExtend 64 ↔ v < 2 ^ 31 := by
  have hmsb : (BitVec.ofInt 32 v).msb = decide (2 ^ 31 ≤ v) := by
    rw [BitVec.msb_eq_decide, BitVec.toNat_ofInt, decide_eq_decide, Int.emod_eq_of_lt hv.1 (by omega)]
    omega
  constructor
  · intro h
    have hbit := congrArg (fun x : BitVec 64 => x.getLsbD 63) h
    rw [BitVec.getLsbD_signExtend, hmsb] at hbit
    simpa using hbit
  · intro h
    refine (BitVec.signExtend_eq_setWidth_of_msb_false ?_).symm
    rw [hmsb, decide_eq_false_iff_not]
    omega

theorem setReg_eq_iff (h : Hart) (rd : Fin 32) (v v' : BitVec 64) :
    h.setReg rd v = h.setReg rd v' ↔ rd = 0 ∨ v = v' := by
  unfold Hart.setReg
  by_cases hrd : rd = 0
  · rw [if_pos hrd, if_pos hrd]
    exact iff_of_true rfl (.inl hrd)
  · rw [if_neg hrd, if_neg hrd]
    constructor
    · intro heq
      have hx := congrFun (congrArg Hart.x heq) rd
      dsimp only at hx
      rw [Function.update_self, Function.update_self] at hx
      exact .inr hx
    · intro hor
      rw [hor.resolve_left hrd]

theorem setFpEnv_fpEnv (c : Cpu) (env : FpEnv) : (c.setFpEnv env).fpEnv = env := by
  have hfrm : (c.setFpEnv env).field .frm = env.frm := setField_self _ _ _
  unfold Cpu.fpEnv
  rw [setFpEnv_fflags, hfrm]

/-! ## Conversions of instructions -/

section
variable {k : Conversion}

/-- The property in terms of the conversion function. -/
theorem converted_iff (hk : conversionOf insn = some k) :
    Converted k mode c (FpInsn.after H insn c) ↔
      (k.args.rd = 0 ∨ (fcvt H c.fpEnv (widened H (k.operand c)) k.args.rm k.target).1 =
        k.target.register (k.result mode c).1) ∧
      Raises (k.result mode c).2 c.fpEnv
        (fcvt H c.fpEnv (widened H (k.operand c)) k.args.rm k.target).2 := by
  rw [after_conversion hk]
  unfold Converted
  rw [← setReg_eq_iff c.hart]
  refine and_congr Iff.rfl ?_
  have henv := setFpEnv_fpEnv c (fcvt H c.fpEnv (widened H (k.operand c)) k.args.rm k.target).2
  exact iff_of_eq (congrArg (Raises _ _) henv)

theorem after_converts_iff (hk : conversionOf insn = some k)
    (hmode : staticRm c.fpEnv k.args.rm = rmOf mode) (hhost : HostRounds H mode (k.operand c)) :
    Converted k mode c (FpInsn.after H insn c) ↔ ConvertsRight k mode c := by
  rw [converted_iff hk]
  have hround := hhost.rounds
  unfold ConvertsRight Conversion.result IntTarget.convert
  rw [convert_widened hhost, ← negativeToZero_widened hhost]
  generalize widened H (k.operand c) = val at hround
  cases htarget : k.target with
  | w =>
    obtain ⟨hvalue, hraises⟩ := fcvtSigned_converts signedRange_w hmode hround
    exact iff_of_true ⟨.inr hvalue, hraises⟩ (.inl rfl)
  | l =>
    obtain ⟨hvalue, hraises⟩ := fcvtSigned_converts signedRange_l hmode hround
    rw [BitVec.signExtend_eq] at hvalue
    exact iff_of_true ⟨.inr hvalue, hraises⟩ (.inr (.inl rfl))
  | lu =>
    obtain ⟨hvalue, hraises⟩ := fcvtUnsigned_value unsignedRange_lu hmode hround
    rw [BitVec.setWidth_eq] at hvalue
    constructor
    · exact fun hconv => .inr (.inr ⟨hraises.mp hconv.2, nofun⟩)
    · rintro (hw | hl | hright)
      · cases hw
      · cases hl
      · exact ⟨.inr hvalue, hraises.mpr hright.1⟩
  | wu =>
    obtain ⟨hvalue, hraises⟩ := fcvtUnsigned_value unsignedRange_wu hmode hround
    have hbound : (0 : ℤ) ≤ IntTarget.wu.high := by decide
    have hreg := signExtend_eq_setWidth_iff (convertTo_bounds mode hbound (.double val))
    rw [← hvalue] at hreg
    constructor
    · exact fun hconv => .inr (.inr ⟨hraises.mp hconv.2, fun _ => hconv.1.imp_right hreg.mp⟩)
    · rintro (hw | hl | hright)
      · cases hw
      · cases hl
      · exact ⟨(hright.2 rfl).imp_right hreg.mpr, hraises.mpr hright.1⟩

/-- A conversion to an integer does what the specification says on exactly these operands. -/
theorem executesFp_converts_iff {dc : RiscvDisasContext} (h : ExecutesFp H T dc insn c c')
    (hfs : fsOf c ≠ 0) (hk : conversionOf insn = some k)
    (hmode : staticRm c.fpEnv k.args.rm = rmOf mode) (hhost : HostRounds H mode (k.operand c)) :
    Converted k mode c c' ↔ ConvertsRight k mode c := by
  rw [executesFp_eq h hfs]
  exact after_converts_iff hk hmode hhost

end

/-! ## A word with the highest bit set -/

/-- The identity rounds what is an integer already. -/
theorem idleHost_rounds {k : ℤ} (h : IsInt val k) : RoundsAt idleHost mode val := by
  have hround : roundInt mode (binary64.toRat val) = k := by rw [h.toRat_eq, roundInt_intCast]
  refine ⟨h.finite, ?_, ?_⟩
  · rw [hround]
    exact h.toRat_eq
  · rw [hround, if_pos h.toRat_eq.symm]
    exact BitVec.zero_and

/-- All registers hold 2 ^ 31 in double precision, and FS is Dirty. -/
def bigCpu : Cpu where
  hart := ⟨fun _ => 0, 0, 0, 0, fun _ => 0⟩
  field
    | .fpr _ => I32_MAX_PLUS1_F64
    | .ustatus => USTATUS_FS_DIRTY
    | _ => 0

def bigConversion : Conversion := ⟨.wu, false, ⟨1, 2, 0⟩⟩

theorem bigCpu_converts :
    ExecutesFp idleHost numberedHelpers GuestCode.allExtensions (.fcvtWuD ⟨1, 2, 0⟩) bigCpu
      (FpInsn.after idleHost (.fcvtWuD ⟨1, 2, 0⟩) bigCpu) :=
  executesFp_all idleHost numberedHelpers (.fcvtWuD ⟨1, 2, 0⟩) rfl (by decide)

theorem bigCpu_host : HostRounds idleHost .nearestEven (bigConversion.operand bigCpu) :=
  ⟨nofun, fun _ => idleHost_rounds isInt_i32Max⟩

theorem word_not_extended :
    ¬ ∀ (H : HostFloat) (T : HelperTable) (dc : RiscvDisasContext) (insn : FpInsn) (c c' : Cpu)
      (k : Conversion) (mode : RoundingMode),
      ExecutesFp H T dc insn c c' → fsOf c ≠ 0 → conversionOf insn = some k →
      staticRm c.fpEnv k.args.rm = rmOf mode → HostRounds H mode (k.operand c) →
      Converted k mode c c' := by
  intro h
  have hconv := h _ _ _ _ _ _ bigConversion .nearestEven bigCpu_converts (by decide) rfl
    (by decide) bigCpu_host
  have hresult : (bigConversion.result .nearestEven bigCpu).1 = 2 ^ 31 := by
    have hround : roundInt .nearestEven (binary64.toRat I32_MAX_PLUS1_F64) = 2 ^ 31 := by
      rw [isInt_i32Max.toRat_eq, roundInt_intCast]
    have hspec := convertTo_finite .nearestEven IntTarget.wu.low IntTarget.wu.high
      isInt_i32Max.finite
    rw [hround, if_neg (by decide), if_neg (by decide)] at hspec
    exact congrArg Prod.fst hspec
  have hright := (after_converts_iff rfl (by decide) bigCpu_host).mp hconv
  cases hright with
  | inl hw => cases hw
  | inr hright =>
    cases hright with
    | inl hl => cases hl
    | inr hright =>
      have hsmall := (hright.2 rfl).resolve_left (by decide)
      rw [hresult] at hsmall
      exact absurd hsmall (by decide)

theorem executesFp_converts_iff_big :
    Converted bigConversion .nearestEven bigCpu
        (FpInsn.after idleHost (.fcvtWuD ⟨1, 2, 0⟩) bigCpu) ↔
      ConvertsRight bigConversion .nearestEven bigCpu :=
  executesFp_converts_iff bigCpu_converts (by decide) rfl (by decide) bigCpu_host

end TcgRs.Analysis.FpConversions
