import TcgRs.Library.BinaryFloat

/-!
# Floating-point helpers

The functions of `frontend/src/riscv/fpu.rs` on bit patterns.  Of the CPU state they only use the
accrued exception flags and the rounding mode.  The comparisons of the host are those of exact values.
Its arithmetic is a parameter: what an operation leaves in a rounding mode, and the exceptions it
raises.  The floating-point environment of the host is restored after each operation.
-/

set_option autoImplicit false

namespace TcgRs.Model.Riscv

open Library

def FFLAGS_NV : BitVec 64 := 1 <<< 4
def FFLAGS_DZ : BitVec 64 := 1 <<< 3
def FFLAGS_OF : BitVec 64 := 1 <<< 2
def FFLAGS_UF : BitVec 64 := 1 <<< 1
def FFLAGS_NX : BitVec 64 := 1 <<< 0
def FFLAGS_MASK : BitVec 64 := 0x1f

def FRM_MASK : BitVec 64 := 0x7
def FRM_DYN : BitVec 64 := 0x7

/-- The words of the CPU state that the helpers use. -/
@[ext]
structure FpEnv where
  fflags : BitVec 64
  frm : BitVec 64
  deriving DecidableEq

def updateFflags (env : FpEnv) (flags : BitVec 64) : FpEnv :=
  { env with fflags := (env.fflags ||| flags) &&& FFLAGS_MASK }

def setInvalid (env : FpEnv) : FpEnv := updateFflags env FFLAGS_NV

/-! ## NaNs -/

def nanboxF32 (bits : BitVec 32) : BitVec 64 := 0xffffffff00000000 ||| bits.setWidth 64

def canonicalNanF32 : BitVec 32 := 0x7fc00000

def canonicalNanF64 : BitVec 64 := 0x7ff8000000000000

/-- A single-precision operand that is not boxed is the canonical NaN. -/
def readF32Bits (raw : BitVec 64) : BitVec 32 :=
  if (raw >>> 32).setWidth 32 ≠ 0xffffffff then canonicalNanF32 else raw.setWidth 32

section
variable {w : Nat}

/-- A NaN: the exponent is all ones, and the fraction is not zero. -/
def isNanBits (fracBits : Nat) (expMask fracMask bits : BitVec w) : Bool :=
  (bits >>> fracBits) &&& expMask == expMask && bits &&& fracMask != 0

end

def isNanF32 (bits : BitVec 32) : Bool := isNanBits 23 0xff 0x7fffff bits

def isNanF64 (bits : BitVec 64) : Bool := isNanBits 52 0x7ff 0xfffffffffffff bits

def isSnanF32 (bits : BitVec 32) : Bool := isNanF32 bits && bits &&& (1 <<< 22) == 0

def isSnanF64 (bits : BitVec 64) : Bool := isNanF64 bits && bits &&& (1 <<< 51) == 0

/-! ## Minimum and maximum -/

/-- A format with the functions of the source on its bit patterns. -/
structure FpKind (w : Nat) where
  fmt : FloatFormat
  isNan : BitVec w → Bool
  isSnan : BitVec w → Bool
  canonicalNan : BitVec w

def f32Kind : FpKind 32 := ⟨.binary32, isNanF32, isSnanF32, canonicalNanF32⟩

def f64Kind : FpKind 64 := ⟨.binary64, isNanF64, isSnanF64, canonicalNanF64⟩

section
variable {w : Nat} (k : FpKind w)

def fmin (env : FpEnv) (a b : BitVec w) : BitVec w × FpEnv :=
  let env := if k.isSnan a || k.isSnan b then setInvalid env else env
  if k.isNan a || k.isNan b then
    if k.isNan a && k.isNan b then (k.canonicalNan, env)
    else (if k.isNan a then b else a, env)
  else if k.fmt.eq a b then
    if k.fmt.eq a 0 then (a ||| b, env) else (a, env)
  else (if k.fmt.lt a b then a else b, env)

def fmax (env : FpEnv) (a b : BitVec w) : BitVec w × FpEnv :=
  let env := if k.isSnan a || k.isSnan b then setInvalid env else env
  if k.isNan a || k.isNan b then
    if k.isNan a && k.isNan b then (k.canonicalNan, env)
    else (if k.isNan a then b else a, env)
  else if k.fmt.eq a b then
    if k.fmt.eq a 0 then (a &&& b, env) else (a, env)
  else (if k.fmt.lt b a then a else b, env)

end

def fminF32 (env : FpEnv) (a b : BitVec 32) : BitVec 32 × FpEnv := fmin f32Kind env a b

def fmaxF32 (env : FpEnv) (a b : BitVec 32) : BitVec 32 × FpEnv := fmax f32Kind env a b

def fminF64 (env : FpEnv) (a b : BitVec 64) : BitVec 64 × FpEnv := fmin f64Kind env a b

def fmaxF64 (env : FpEnv) (a b : BitVec 64) : BitVec 64 × FpEnv := fmax f64Kind env a b

/-! ## The environment of the host -/

def FE_INVALID : BitVec 32 := 0x01
def FE_DIVBYZERO : BitVec 32 := 0x04
def FE_OVERFLOW : BitVec 32 := 0x08
def FE_UNDERFLOW : BitVec 32 := 0x10
def FE_INEXACT : BitVec 32 := 0x20
def FE_ALL_EXCEPT : BitVec 32 := 0x3f

def FE_TONEAREST : BitVec 32 := 0x0000
def FE_DOWNWARD : BitVec 32 := 0x0400
def FE_UPWARD : BitVec 32 := 0x0800
def FE_TOWARDZERO : BitVec 32 := 0x0c00

/-- A bit pattern, and the exceptions that were raised. -/
abbrev FpResult (w : Nat) := BitVec w × BitVec 32

/-- Arithmetic on one format, in a rounding mode. -/
structure HostOps (w : Nat) where
  add : BitVec 32 → BitVec w → BitVec w → FpResult w
  sub : BitVec 32 → BitVec w → BitVec w → FpResult w
  mul : BitVec 32 → BitVec w → BitVec w → FpResult w
  div : BitVec 32 → BitVec w → BitVec w → FpResult w
  sqrt : BitVec 32 → BitVec w → FpResult w
  fma : BitVec 32 → BitVec w → BitVec w → BitVec w → FpResult w
  ofInt : BitVec 32 → Int → FpResult w

/-- The arithmetic of the host; widening is exact. -/
structure HostFloat where
  f32 : HostOps 32
  f64 : HostOps 64
  rint : BitVec 32 → BitVec 64 → FpResult 64
  narrow : BitVec 32 → BitVec 64 → FpResult 32
  widen : BitVec 32 → BitVec 64

def mapFenvFlags (flags : BitVec 32) : BitVec 64 :=
  (if flags &&& FE_INEXACT ≠ 0 then FFLAGS_NX else 0) |||
  (if flags &&& FE_UNDERFLOW ≠ 0 then FFLAGS_UF else 0) |||
  (if flags &&& FE_OVERFLOW ≠ 0 then FFLAGS_OF else 0) |||
  (if flags &&& FE_DIVBYZERO ≠ 0 then FFLAGS_DZ else 0) |||
  (if flags &&& FE_INVALID ≠ 0 then FFLAGS_NV else 0)

/-- The rounding mode of an instruction, or the dynamic one. -/
def staticRm (env : FpEnv) (rm : BitVec 64) : BitVec 64 :=
  if rm &&& FRM_MASK = FRM_DYN then env.frm &&& FRM_MASK else rm &&& FRM_MASK

/-- The mode of the host; an unknown one raises NV and rounds to nearest. -/
def mapRm (env : FpEnv) (rm : BitVec 64) : BitVec 32 × FpEnv :=
  let rm := staticRm env rm
  if rm = 0 then (FE_TONEAREST, env)
  else if rm = 1 then (FE_TOWARDZERO, env)
  else if rm = 2 then (FE_DOWNWARD, env)
  else if rm = 3 then (FE_UPWARD, env)
  else if rm = 4 then (FE_TONEAREST, env)
  else (FE_TONEAREST, setInvalid env)

/-- Run an operation in the rounding mode; the exceptions are those that it has raised. -/
def withFenvFlags {α : Type} (env : FpEnv) (rm : BitVec 64) (f : BitVec 32 → α × BitVec 32) :
    (α × BitVec 32) × FpEnv :=
  let (round, env) := mapRm env rm
  let (res, raised) := f round
  ((res, raised &&& FE_ALL_EXCEPT), env)

/-- The same, with the exceptions accrued. -/
def withFenv {α : Type} (env : FpEnv) (rm : BitVec 64) (f : BitVec 32 → α × BitVec 32) :
    α × FpEnv :=
  let ((res, flags), env) := withFenvFlags env rm f
  (res, updateFflags env (mapFenvFlags flags))

/-! ## Comparison and classification -/

section
variable {w : Nat} (k : FpKind w)

/-- A comparison for equality: only signaling NaNs are invalid. -/
def compareQuiet (env : FpEnv) (a b : BitVec w) : BitVec 64 × FpEnv :=
  let env := if k.isSnan a || k.isSnan b then setInvalid env else env
  if k.isNan a || k.isNan b then (0, env) else (if k.fmt.eq a b then 1 else 0, env)

/-- An ordered comparison: every NaN is invalid. -/
def compareSignaling (less : BitVec w → BitVec w → Bool) (env : FpEnv) (a b : BitVec w) :
    BitVec 64 × FpEnv :=
  if k.isNan a || k.isNan b then (0, setInvalid env) else (if less a b then 1 else 0, env)

/-- One bit for the class of a pattern. -/
def fclass (fracBits : Nat) (signBit expMask fracMask quietBit bits : BitVec w) : BitVec 64 :=
  let sign := bits &&& signBit != 0
  let exp := (bits >>> fracBits) &&& expMask
  let frac := bits &&& fracMask
  let isInf := exp == expMask && frac == 0
  let isNan := exp == expMask && frac != 0
  let isZero := exp == 0 && frac == 0
  let isSub := exp == 0 && frac != 0
  let isNorm := exp != 0 && exp != expMask
  let isSnan := isNan && frac &&& quietBit == 0
  let isQnan := isNan && !isSnan
  if isInf && sign then 1 <<< 0
  else if isNorm && sign then 1 <<< 1
  else if isSub && sign then 1 <<< 2
  else if isZero && sign then 1 <<< 3
  else if isZero && !sign then 1 <<< 4
  else if isSub && !sign then 1 <<< 5
  else if isNorm && !sign then 1 <<< 6
  else if isInf && !sign then 1 <<< 7
  else if isSnan then 1 <<< 8
  else if isQnan then 1 <<< 9
  else 0

end

def fclassF32 (bits : BitVec 32) : BitVec 64 :=
  fclass 23 (1 <<< 31) 0xff 0x7fffff (1 <<< 22) bits

def fclassF64 (bits : BitVec 64) : BitVec 64 :=
  fclass 52 (1 <<< 63) 0x7ff 0xfffffffffffff (1 <<< 51) bits

/-! ## Conversion to integers -/

def I32_MIN_F64 : BitVec 64 := 0xC1E0000000000000
def I32_MAX_PLUS1_F64 : BitVec 64 := 0x41E0000000000000
def I64_MIN_F64 : BitVec 64 := 0xC3E0000000000000
def I64_MAX_PLUS1_F64 : BitVec 64 := 0x43E0000000000000
def U32_MAX_PLUS1_F64 : BitVec 64 := 0x41F0000000000000
def U64_MAX_PLUS1_F64 : BitVec 64 := 0x43F0000000000000

open FloatFormat (binary32 binary64)

/-- A cast to a signed integer saturates. -/
def castSigned (n : Nat) (x : BitVec 64) : BitVec n :=
  if binary64.isNan x then 0
  else BitVec.ofInt n (max (-2 ^ (n - 1)) (min (2 ^ (n - 1) - 1) (binary64.trunc x)))

def castUnsigned (n : Nat) (x : BitVec 64) : BitVec n :=
  if binary64.isNan x then 0 else BitVec.ofInt n (max 0 (min (2 ^ n - 1) (binary64.trunc x)))

/-- `is_finite`. -/
def isFinite (x : BitVec 64) : Bool := !binary64.isNan x && !binary64.isInf x

/-- `(lo..hi).contains(x)`. -/
def inRange (lo hi x : BitVec 64) : Bool := binary64.le lo x && binary64.lt x hi

/-- The conversion to a signed integer of `n` bits, sign-extended. -/
def fcvtSigned (n : Nat) (lo hi : BitVec 64) (H : HostFloat) (env : FpEnv)
    (val rm : BitVec 64) : BitVec 64 × FpEnv :=
  let saturated := if binary64.isNeg val then BitVec.intMin n else BitVec.intMax n
  if binary64.isNan val then ((BitVec.intMax n).signExtend 64, setInvalid env)
  else if binary64.isInf val then (saturated.signExtend 64, setInvalid env)
  else
    let ((rounded, flags), env) := withFenvFlags env rm fun round => H.rint round val
    if flags &&& FE_INVALID ≠ 0 ∨ !isFinite rounded ∨ !inRange lo hi rounded then
      (saturated.signExtend 64, setInvalid env)
    else ((castSigned n rounded).signExtend 64, updateFflags env (mapFenvFlags flags))

/-- The conversion to an unsigned integer of `n` bits, zero-extended. -/
def fcvtUnsigned (n : Nat) (hi : BitVec 64) (H : HostFloat) (env : FpEnv) (val rm : BitVec 64) :
    BitVec 64 × FpEnv :=
  if binary64.isNan val then ((BitVec.allOnes n).setWidth 64, setInvalid env)
  else if binary64.isInf val then
    (if binary64.isNeg val then 0 else (BitVec.allOnes n).setWidth 64, setInvalid env)
  else if binary64.lt val 0 then (0, setInvalid env)
  else
    let ((rounded, flags), env) := withFenvFlags env rm fun round => H.rint round val
    if flags &&& FE_INVALID ≠ 0 ∨ !isFinite rounded ∨ !inRange 0 hi rounded then
      ((BitVec.allOnes n).setWidth 64, setInvalid env)
    else ((castUnsigned n rounded).setWidth 64, updateFflags env (mapFenvFlags flags))

def fcvtI32 : HostFloat → FpEnv → BitVec 64 → BitVec 64 → BitVec 64 × FpEnv :=
  fcvtSigned 32 I32_MIN_F64 I32_MAX_PLUS1_F64

def fcvtU32 : HostFloat → FpEnv → BitVec 64 → BitVec 64 → BitVec 64 × FpEnv :=
  fcvtUnsigned 32 U32_MAX_PLUS1_F64

def fcvtI64 : HostFloat → FpEnv → BitVec 64 → BitVec 64 → BitVec 64 × FpEnv :=
  fcvtSigned 64 I64_MIN_F64 I64_MAX_PLUS1_F64

def fcvtU64 : HostFloat → FpEnv → BitVec 64 → BitVec 64 → BitVec 64 × FpEnv :=
  fcvtUnsigned 64 U64_MAX_PLUS1_F64

end TcgRs.Model.Riscv
