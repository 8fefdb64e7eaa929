import TcgRs.Model.Decode.Generate

/-!
# What emitted code computes

Types and values of the Rust that the generator writes.  A value is kept with its type, as its
extension to 64 bits; arithmetic wraps.
-/

set_option autoImplicit false

namespace TcgRs.Interface.EmittedCode

open TcgRs.Model.Decode

/-! ## Types -/

def bitsOf : IntTy → Nat
  | .u16 | .i16 => 16
  | .u32 | .i32 => 32
  | .i64 => 64

def isSigned : IntTy → Bool
  | .u16 | .u32 => false
  | .i16 | .i32 | .i64 => true

/-- A literal of a type has to be in its range. -/
def literalFits (ty : IntTy) (n : Nat) : Bool :=
  n < if isSigned ty then 2 ^ (bitsOf ty - 1) else 2 ^ bitsOf ty

/-- The type of an expression.  A shift by the width of its operand, a literal out of range, two
types in one operation and a call of a function that does not exist are errors. -/
def typeOf (word val : IntTy) (fns : List String) : Expr → Option IntTy
  | .insn => some word
  | .val => some val
  | .int c => if -2 ^ 63 ≤ c ∧ c < 2 ^ 63 then some .i64 else none
  | .cast e ty => (typeOf word val fns e).map fun _ => ty
  | .shl e n | .shr e n => (typeOf word val fns e).filter fun ty => n < bitsOf ty
  | .mask e m | .add e m => (typeOf word val fns e).filter fun ty => literalFits ty m
  | .or e₁ e₂ =>
    (typeOf word val fns e₁).filter fun ty => typeOf word val fns e₂ == some ty
  | .pick table e => if table.length = 8 then (typeOf word val fns e).map fun _ => .i64 else none
  | .call f => if f ∈ fns then some .i64 else none

/-- An extraction function returns an `i64`; a variable that is assigned to keeps its type. -/
def ExtractChecks (word : IntTy) (fns : List String) (f : ExtractFn) : Prop :=
  ∃ ty, typeOf word word fns f.first = some ty ∧
    (∀ e ∈ f.steps, typeOf word ty fns e = some ty) ∧ typeOf word ty fns f.result = some .i64

/-- Both literals of a test are words, and every argument is an `i64`. -/
def ArmChecks (word : IntTy) (fns : List String) (a : Arm) : Prop :=
  (∀ m ∈ a.mask, literalFits word m) ∧ literalFits word a.bits ∧
    ∀ e ∈ a.args, typeOf word word fns e.2 = some .i64

/-- The code compiles. -/
def Compiles (code : Code) : Prop :=
  (∀ f ∈ code.extracts, ExtractChecks code.insnTy (code.extracts.map (·.name)) f) ∧
    ∀ a ∈ code.arms, ArmChecks code.insnTy (code.extracts.map (·.name)) a

/-! ## Values -/

/-- The value of a type that has the low bits of `x`. -/
def fit (ty : IntTy) (x : BitVec 64) : BitVec 64 :=
  if isSigned ty then (x.setWidth (bitsOf ty)).signExtend 64
  else (x.setWidth (bitsOf ty)).setWidth 64

structure Value where
  ty : IntTy
  bits : BitVec 64
  deriving DecidableEq

variable (insn : Value) (fns : String → BitVec 64)

/-- The value of an expression. -/
def eval (val : Value) : Expr → Value
  | .insn => insn
  | .val => val
  | .int c => ⟨.i64, BitVec.ofInt 64 c⟩
  | .cast e ty => ⟨ty, fit ty (eval val e).bits⟩
  | .shl e n => let x := eval val e; ⟨x.ty, fit x.ty (x.bits <<< n)⟩
  | .shr e n =>
    let x := eval val e
    ⟨x.ty, if isSigned x.ty then x.bits.sshiftRight n else x.bits >>> n⟩
  | .mask e m => let x := eval val e; ⟨x.ty, x.bits &&& BitVec.ofNat 64 m⟩
  | .or e₁ e₂ => let x := eval val e₁; ⟨x.ty, x.bits ||| (eval val e₂).bits⟩
  | .add e n => let x := eval val e; ⟨x.ty, fit x.ty (x.bits + BitVec.ofNat 64 n)⟩
  | .pick table e => ⟨.i64, BitVec.ofNat 64 (table.getD ((eval val e).bits &&& 7).toNat 0)⟩
  | .call f => ⟨.i64, fns f⟩

/-- The value an extraction function returns. -/
def runExtract (f : ExtractFn) : BitVec 64 :=
  let val := f.steps.foldl (eval insn fns) (eval insn fns insn f.first)
  (eval insn fns val f.result).bits

def armTest (a : Arm) : Bool :=
  match a.mask with
  | some m => insn.bits &&& BitVec.ofNat 64 m == BitVec.ofNat 64 a.bits
  | none => insn.bits == BitVec.ofNat 64 a.bits

/-- The call of a `trans_` function: its name and its arguments. -/
abbrev Call := String × List (String × BitVec 64)

/-- The word as a value of the emitted code. -/
def wordValue {w : Nat} (code : Code) (word : BitVec w) : Value := ⟨code.insnTy, word.setWidth 64⟩

/-- The value of `extract_f(insn)`.  Extraction functions call no functions. -/
def runCall (code : Code) (f : String) : BitVec 64 :=
  match code.extracts.find? (·.name == f) with
  | some fn => runExtract insn (fun _ => 0) fn
  | none => 0

/-- The decode function: the call it makes, or none if it returns `false`. -/
def run {w : Nat} (code : Code) (word : BitVec w) : Option Call :=
  let insn := wordValue code word
  (code.arms.find? (armTest insn)).map fun a =>
    (a.trans, a.args.map fun e => (e.1, (eval insn (runCall insn code) insn e.2).bits))

end TcgRs.Interface.EmittedCode
