import TcgRs.Model.Riscv.Fpu

/-!
# The helpers that generated code calls

The `helper_` functions of `frontend/src/riscv/fpu.rs`, each with the words that it gets in argument
registers, and their addresses.
-/

set_option autoImplicit false
set_option linter.constructorNameAsVariable false

namespace TcgRs.Model.Riscv

open Library

variable (H : HostFloat) (env : FpEnv) (a b c rm : BitVec 64)

/-! ## Single precision -/

/-- An operation with a single-precision result. -/
def withFenvF32 (f : BitVec 32 → FpResult 32) : BitVec 64 × FpEnv :=
  let (res, env) := withFenv env rm f
  (nanboxF32 res, env)

def negF32 (x : BitVec 32) : BitVec 32 := x ^^^ 0x80000000

def helperFaddS := withFenvF32 env rm fun r => H.f32.add r (readF32Bits a) (readF32Bits b)
def helperFsubS := withFenvF32 env rm fun r => H.f32.sub r (readF32Bits a) (readF32Bits b)
def helperFmulS := withFenvF32 env rm fun r => H.f32.mul r (readF32Bits a) (readF32Bits b)
def helperFdivS := withFenvF32 env rm fun r => H.f32.div r (readF32Bits a) (readF32Bits b)
def helperFsqrtS := withFenvF32 env rm fun r => H.f32.sqrt r (readF32Bits a)

def helperFmaddS := withFenvF32 env rm fun r =>
  H.f32.fma r (readF32Bits a) (readF32Bits b) (readF32Bits c)

def helperFmsubS := withFenvF32 env rm fun r =>
  H.f32.fma r (readF32Bits a) (readF32Bits b) (negF32 (readF32Bits c))

def helperFnmsubS := withFenvF32 env rm fun r =>
  H.f32.fma r (negF32 (readF32Bits a)) (readF32Bits b) (readF32Bits c)

def helperFnmaddS := withFenvF32 env rm fun r =>
  H.f32.fma r (negF32 (readF32Bits a)) (readF32Bits b) (negF32 (readF32Bits c))

/-- The magnitude of the first operand with a sign made from both. -/
def fsgnjF32 (sign : BitVec 32 → BitVec 32 → BitVec 32) : BitVec 64 × FpEnv :=
  let ab := readF32Bits a
  let bb := readF32Bits b
  (nanboxF32 ((ab &&& 0x7fffffff) ||| (sign ab bb &&& 0x80000000)), env)

def helperFsgnjS := fsgnjF32 env a b fun _ y => y
def helperFsgnjnS := fsgnjF32 env a b fun _ y => ~~~y
def helperFsgnjxS := fsgnjF32 env a b fun x y => x ^^^ y

/-- A minimum or maximum. -/
def pickF32 (f : FpEnv → BitVec 32 → BitVec 32 → BitVec 32 × FpEnv) : BitVec 64 × FpEnv :=
  let (res, env) := f env (readF32Bits a) (readF32Bits b)
  (nanboxF32 res, env)

def helperFminS := pickF32 env a b fminF32
def helperFmaxS := pickF32 env a b fmaxF32

def helperFeqS := compareQuiet f32Kind env (readF32Bits a) (readF32Bits b)
def helperFltS := compareSignaling f32Kind f32Kind.fmt.lt env (readF32Bits a) (readF32Bits b)
def helperFleS := compareSignaling f32Kind f32Kind.fmt.le env (readF32Bits a) (readF32Bits b)

def helperFclassS : BitVec 64 × FpEnv := (fclassF32 (readF32Bits a), env)

def helperFcvtWS := fcvtI32 H env (H.widen (readF32Bits a)) rm
def helperFcvtWuS := fcvtU32 H env (H.widen (readF32Bits a)) rm
def helperFcvtLS := fcvtI64 H env (H.widen (readF32Bits a)) rm
def helperFcvtLuS := fcvtU64 H env (H.widen (readF32Bits a)) rm

def helperFcvtSW := withFenvF32 env rm fun r => H.f32.ofInt r (a.setWidth 32).toInt
def helperFcvtSWu := withFenvF32 env rm fun r => H.f32.ofInt r (a.setWidth 32).toNat
def helperFcvtSL := withFenvF32 env rm fun r => H.f32.ofInt r a.toInt
def helperFcvtSLu := withFenvF32 env rm fun r => H.f32.ofInt r a.toNat

/-! ## Double precision -/

def negF64 (x : BitVec 64) : BitVec 64 := x ^^^ 0x8000000000000000

def helperFaddD : BitVec 64 × FpEnv := withFenv env rm fun r => H.f64.add r a b
def helperFsubD : BitVec 64 × FpEnv := withFenv env rm fun r => H.f64.sub r a b
def helperFmulD : BitVec 64 × FpEnv := withFenv env rm fun r => H.f64.mul r a b
def helperFdivD : BitVec 64 × FpEnv := withFenv env rm fun r => H.f64.div r a b
def helperFsqrtD : BitVec 64 × FpEnv := withFenv env rm fun r => H.f64.sqrt r a

def helperFmaddD : BitVec 64 × FpEnv := withFenv env rm fun r => H.f64.fma r a b c
def helperFmsubD : BitVec 64 × FpEnv := withFenv env rm fun r => H.f64.fma r a b (negF64 c)
def helperFnmsubD : BitVec 64 × FpEnv := withFenv env rm fun r => H.f64.fma r (negF64 a) b c

def helperFnmaddD : BitVec 64 × FpEnv :=
  withFenv env rm fun r => H.f64.fma r (negF64 a) b (negF64 c)

def fsgnjF64 (sign : BitVec 64 → BitVec 64 → BitVec 64) : BitVec 64 × FpEnv :=
  ((a &&& 0x7fffffffffffffff) ||| (sign a b &&& 0x8000000000000000), env)

def helperFsgnjD := fsgnjF64 env a b fun _ y => y
def helperFsgnjnD := fsgnjF64 env a b fun _ y => ~~~y
def helperFsgnjxD := fsgnjF64 env a b fun x y => x ^^^ y

def helperFminD := fminF64 env a b
def helperFmaxD := fmaxF64 env a b

def helperFeqD := compareQuiet f64Kind env a b
def helperFltD := compareSignaling f64Kind f64Kind.fmt.lt env a b
def helperFleD := compareSignaling f64Kind f64Kind.fmt.le env a b

def helperFclassD : BitVec 64 × FpEnv := (fclassF64 a, env)

def helperFcvtWD := fcvtI32 H env a rm
def helperFcvtWuD := fcvtU32 H env a rm
def helperFcvtLD := fcvtI64 H env a rm
def helperFcvtLuD := fcvtU64 H env a rm

def helperFcvtDW : BitVec 64 × FpEnv :=
  withFenv env rm fun r => H.f64.ofInt r (a.setWidth 32).toInt

def helperFcvtDWu : BitVec 64 × FpEnv :=
  withFenv env rm fun r => H.f64.ofInt r (a.setWidth 32).toNat

def helperFcvtDL : BitVec 64 × FpEnv := withFenv env rm fun r => H.f64.ofInt r a.toInt
def helperFcvtDLu : BitVec 64 × FpEnv := withFenv env rm fun r => H.f64.ofInt r a.toNat

def helperFcvtSD := withFenvF32 env rm fun r => H.narrow r a

/-- The conversion is done before the exceptions are cleared. -/
def helperFcvtDS : BitVec 64 × FpEnv := withFenv env rm fun _ => (H.widen (readF32Bits a), 0)

/-! ## Calls -/

/-- The helpers. -/
inductive FpHelper where
  | faddS | fsubS | fmulS | fdivS | fsqrtS | fmaddS | fmsubS | fnmsubS | fnmaddS
  | fsgnjS | fsgnjnS | fsgnjxS | fminS | fmaxS | feqS | fltS | fleS | fclassS
  | fcvtWS | fcvtWuS | fcvtLS | fcvtLuS | fcvtSW | fcvtSWu | fcvtSL | fcvtSLu
  | faddD | fsubD | fmulD | fdivD | fsqrtD | fmaddD | fmsubD | fnmsubD | fnmaddD
  | fsgnjD | fsgnjnD | fsgnjxD | fminD | fmaxD | feqD | fltD | fleD | fclassD
  | fcvtWD | fcvtWuD | fcvtLD | fcvtLuD | fcvtDW | fcvtDWu | fcvtDL | fcvtDLu
  | fcvtSD | fcvtDS
  deriving DecidableEq, Repr

/-- A call: `x i` is the argument with the number `i` behind the env pointer. -/
def FpHelper.call (x : Nat → BitVec 64) : FpHelper → BitVec 64 × FpEnv
  | .faddS => helperFaddS H env (x 0) (x 1) (x 2)
  | .fsubS => helperFsubS H env (x 0) (x 1) (x 2)
  | .fmulS => helperFmulS H env (x 0) (x 1) (x 2)
  | .fdivS => helperFdivS H env (x 0) (x 1) (x 2)
  | .fsqrtS => helperFsqrtS H env (x 0) (x 1)
  | .fmaddS => helperFmaddS H env (x 0) (x 1) (x 2) (x 3)
  | .fmsubS => helperFmsubS H env (x 0) (x 1) (x 2) (x 3)
  | .fnmsubS => helperFnmsubS H env (x 0) (x 1) (x 2) (x 3)
  | .fnmaddS => helperFnmaddS H env (x 0) (x 1) (x 2) (x 3)
  | .fsgnjS => helperFsgnjS env (x 0) (x 1)
  | .fsgnjnS => helperFsgnjnS env (x 0) (x 1)
  | .fsgnjxS => helperFsgnjxS env (x 0) (x 1)
  | .fminS => helperFminS env (x 0) (x 1)
  | .fmaxS => helperFmaxS env (x 0) (x 1)
  | .feqS => helperFeqS env (x 0) (x 1)
  | .fltS => helperFltS env (x 0) (x 1)
  | .fleS => helperFleS env (x 0) (x 1)
  | .fclassS => helperFclassS env (x 0)
  | .fcvtWS => helperFcvtWS H env (x 0) (x 1)
  | .fcvtWuS => helperFcvtWuS H env (x 0) (x 1)
  | .fcvtLS => helperFcvtLS H env (x 0) (x 1)
  | .fcvtLuS => helperFcvtLuS H env (x 0) (x 1)
  | .fcvtSW => helperFcvtSW H env (x 0) (x 1)
  | .fcvtSWu => helperFcvtSWu H env (x 0) (x 1)
  | .fcvtSL => helperFcvtSL H env (x 0) (x 1)
  | .fcvtSLu => helperFcvtSLu H env (x 0) (x 1)
  | .faddD => helperFaddD H env (x 0) (x 1) (x 2)
  | .fsubD => helperFsubD H env (x 0) (x 1) (x 2)
  | .fmulD => helperFmulD H env (x 0) (x 1) (x 2)
  | .fdivD => helperFdivD H env (x 0) (x 1) (x 2)
  | .fsqrtD => helperFsqrtD H env (x 0) (x 1)
  | .fmaddD => helperFmaddD H env (x 0) (x 1) (x 2) (x 3)
  | .fmsubD => helperFmsubD H env (x 0) (x 1) (x 2) (x 3)
  | .fnmsubD => helperFnmsubD H env (x 0) (x 1) (x 2) (x 3)
  | .fnmaddD => helperFnmaddD H env (x 0) (x 1) (x 2) (x 3)
  | .fsgnjD => helperFsgnjD env (x 0) (x 1)
  | .fsgnjnD => helperFsgnjnD env (x 0) (x 1)
  | .fsgnjxD => helperFsgnjxD env (x 0) (x 1)
  | .fminD => helperFminD env (x 0) (x 1)
  | .fmaxD => helperFmaxD env (x 0) (x 1)
  | .feqD => helperFeqD env (x 0) (x 1)
  | .fltD => helperFltD env (x 0) (x 1)
  | .fleD => helperFleD env (x 0) (x 1)
  | .fclassD => helperFclassD env (x 0)
  | .fcvtWD => helperFcvtWD H env (x 0) (x 1)
  | .fcvtWuD => helperFcvtWuD H env (x 0) (x 1)
  | .fcvtLD => helperFcvtLD H env (x 0) (x 1)
  | .fcvtLuD => helperFcvtLuD H env (x 0) (x 1)
  | .fcvtDW => helperFcvtDW H env (x 0) (x 1)
  | .fcvtDWu => helperFcvtDWu H env (x 0) (x 1)
  | .fcvtDL => helperFcvtDL H env (x 0) (x 1)
  | .fcvtDLu => helperFcvtDLu H env (x 0) (x 1)
  | .fcvtSD => helperFcvtSD H env (x 0) (x 1)
  | .fcvtDS => helperFcvtDS H env (x 0) (x 1)

/-- The addresses of the helpers. -/
structure HelperTable where
  addr : FpHelper → BitVec 64
  find : BitVec 64 → Option FpHelper
  find_addr : ∀ helper, find (addr helper) = some helper

end TcgRs.Model.Riscv
