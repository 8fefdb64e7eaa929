import Mathlib.Data.Prod.Lex
import Mathlib.Data.Rat.Floor
import TcgRs.Library.IntegerRounding
import TcgRs.Model.Riscv.Fpu

/-!
# Floating-point operations of the specification

Minimum and maximum of bit patterns: patterns are ordered by their exact values, with -0 below +0.
Conversions round the exact value to an integer and saturate.
-/

set_option autoImplicit false
set_option linter.constructorNameAsVariable false

namespace TcgRs.Interface.RiscvFloat

open TcgRs.Library TcgRs.Model.Riscv

variable {w : Nat}

/-! ## Flags -/

/-- The flags after an operation that raises `raised`: only the five low bits count. -/
structure Raises (raised : BitVec 64) (env env' : FpEnv) : Prop where
  fflags_eq : env'.fflags &&& FFLAGS_MASK = env.fflags &&& FFLAGS_MASK ||| raised
  frm_eq : env'.frm = env.frm

/-! ## Minimum and maximum -/

/-- A pattern by its value, and its sign where the values are equal. -/
def orderKey (fmt : FloatFormat) (x : BitVec w) : WithBot (WithTop ℚ) ×ₗ Bool :=
  toLex (fmt.value x, !fmt.isNeg x)

/-- What the specification says of a minimum, or of a maximum with the order reversed. -/
structure PicksLeast (fmt : FloatFormat) (canonicalNan : BitVec w)
    (below : WithBot (WithTop ℚ) ×ₗ Bool → WithBot (WithTop ℚ) ×ₗ Bool → Prop)
    (f : FpEnv → BitVec w → BitVec w → BitVec w × FpEnv) : Prop where
  both_nan : ∀ env a b, fmt.isNan a = true → fmt.isNan b = true → (f env a b).1 = canonicalNan
  left_nan : ∀ env a b, fmt.isNan a = true → fmt.isNan b = false → (f env a b).1 = b
  right_nan : ∀ env a b, fmt.isNan a = false → fmt.isNan b = true → (f env a b).1 = a
  least : ∀ env a b, fmt.isNan a = false → fmt.isNan b = false →
    ((f env a b).1 = a ∧ below (orderKey fmt a) (orderKey fmt b)) ∨
      ((f env a b).1 = b ∧ below (orderKey fmt b) (orderKey fmt a))
  flags : ∀ env a b,
    Raises (if fmt.isSignaling a || fmt.isSignaling b then FFLAGS_NV else 0) env (f env a b).2
  comm : ∀ env a b, f env a b = f env b a

/-! ## Values -/

/-- A value in one of the formats. -/
inductive FpValue where
  | single (bits : BitVec 32)
  | double (bits : BitVec 64)

namespace FpValue
open FloatFormat (binary32 binary64)

def isNan : FpValue → Bool
  | .single bits => binary32.isNan bits
  | .double bits => binary64.isNan bits

def isInf : FpValue → Bool
  | .single bits => binary32.isInf bits
  | .double bits => binary64.isInf bits

def isNeg : FpValue → Bool
  | .single bits => binary32.isNeg bits
  | .double bits => binary64.isNeg bits

def toRat : FpValue → ℚ
  | .single bits => binary32.toRat bits
  | .double bits => binary64.toRat bits

/-- The contents of a register that holds it. -/
def register : FpValue → BitVec 64
  | .single bits => nanboxF32 bits
  | .double bits => bits

/-- The contents of a register that holds the canonical NaN of the format. -/
def canonicalNan : FpValue → BitVec 64
  | .single _ => nanboxF32 0x7fc00000
  | .double _ => 0x7ff8000000000000

end FpValue

/-! ## Conversion to integers -/

/-- The encoding of a rounding mode. -/
def rmOf : RoundingMode → BitVec 64
  | .nearestEven => 0
  | .towardZero => 1
  | .down => 2
  | .up => 3

/-- The integer for a value, limited to a range, and the flag that it raises. -/
def convertTo (low high : Int) (mode : RoundingMode) (x : FpValue) : Int × BitVec 64 :=
  if x.isNan then (high, FFLAGS_NV)
  else if x.isInf then (if x.isNeg then low else high, FFLAGS_NV)
  else if roundInt mode x.toRat < low then (low, FFLAGS_NV)
  else if high < roundInt mode x.toRat then (high, FFLAGS_NV)
  else (roundInt mode x.toRat, if roundInt mode x.toRat = x.toRat then 0 else FFLAGS_NX)

/-- The integers that conversions produce. -/
inductive IntTarget where
  | w | wu | l | lu
  deriving DecidableEq, Repr

namespace IntTarget

def low : IntTarget → Int
  | .w => -2 ^ 31
  | .l => -2 ^ 63
  | .wu | .lu => 0

def high : IntTarget → Int
  | .w => 2 ^ 31 - 1
  | .wu => 2 ^ 32 - 1
  | .l => 2 ^ 63 - 1
  | .lu => 2 ^ 64 - 1

/-- The register that holds an integer: 32 bits are sign-extended, also those of `wu`. -/
def register (v : Int) : IntTarget → BitVec 64
  | .w | .wu => (BitVec.ofInt 32 v).signExtend 64
  | .l | .lu => BitVec.ofInt 64 v

def convert (target : IntTarget) : RoundingMode → FpValue → Int × BitVec 64 :=
  convertTo target.low target.high

end IntTarget

/-! ## The host -/

/-- The rounding mode as the host has it. -/
def hostRound : RoundingMode → BitVec 32
  | .nearestEven => FE_TONEAREST
  | .towardZero => FE_TOWARDZERO
  | .down => FE_DOWNWARD
  | .up => FE_UPWARD

open FloatFormat (binary32 binary64)

/-- `rint` rounds `val` in the mode, and raises the inexact exception if that changes it. -/
structure RoundsAt (H : HostFloat) (mode : RoundingMode) (val : BitVec 64) : Prop where
  finite : binary64.Finite (H.rint (hostRound mode) val).1
  toRat_eq : binary64.toRat (H.rint (hostRound mode) val).1 = roundInt mode (binary64.toRat val)
  exceptions : (H.rint (hostRound mode) val).2 &&& FE_ALL_EXCEPT =
    if roundInt mode (binary64.toRat val) = binary64.toRat val then 0 else FE_INEXACT

/-- Widening keeps what a pattern stands for. -/
structure WidensAt (H : HostFloat) (bits : BitVec 32) : Prop where
  isNan_eq : binary64.isNan (H.widen bits) = binary32.isNan bits
  isInf_eq : binary64.isInf (H.widen bits) = binary32.isInf bits
  isNeg_eq : binary32.isNan bits = false → binary64.isNeg (H.widen bits) = binary32.isNeg bits
  toRat_eq : binary32.Finite bits → binary64.toRat (H.widen bits) = binary32.toRat bits

end TcgRs.Interface.RiscvFloat
