import TcgRs.Model.Decode.Parse

/-!
# The decoder that is generated from a decode file

The code generator of `decode/src/lib.rs`.  What it writes is Rust text; here it is the syntax tree
of that text: one extraction function for each field, and the tests and calls of the decode
function.  The argument structures and the trait are written by other functions; a call is the name
of its `trans_` function and its arguments by name.  `none` is a generator that panics.
-/

set_option autoImplicit false

namespace TcgRs.Model.Decode

/-! ## Emitted code -/

/-- The integer types of emitted code. -/
inductive IntTy where
  | u16 | u32 | i16 | i32 | i64
  deriving DecidableEq, Repr

/-- Emitted expressions. -/
inductive Expr where
  /-- The instruction word. -/
  | insn
  /-- The local variable of an extraction function. -/
  | val
  /-- A literal of type `i64`. -/
  | int (c : Int)
  | cast (e : Expr) (ty : IntTy)
  | shl (e : Expr) (n : Nat)
  | shr (e : Expr) (n : Nat)
  /-- `e & m`, for a literal `m`. -/
  | mask (e : Expr) (m : Nat)
  | or (e₁ e₂ : Expr)
  | add (e : Expr) (n : Nat)
  /-- `table[(e) as usize & 7]`. -/
  | pick (table : List Nat) (e : Expr)
  /-- `extract_f(insn)`. -/
  | call (f : String)
  deriving DecidableEq, Repr

/-- `let mut val = first; val = step; …; result`. -/
structure ExtractFn where
  name : String
  first : Expr
  steps : List Expr
  result : Expr
  deriving DecidableEq, Repr

/-- `if insn & mask == bits { return ctx.trans_name(ir, &args); }`; without a mask the test is
`insn == bits`. -/
structure Arm where
  mask : Option Nat
  bits : Nat
  trans : String
  args : List (String × Expr)
  deriving DecidableEq, Repr

structure Code where
  insnTy : IntTy
  extracts : List ExtractFn
  arms : List Arm
  deriving DecidableEq, Repr

/-! ## Extraction functions -/

def insnTyOf (width : Nat) : IntTy := if width ≤ 16 then .u16 else .u32

def signedTyOf (width : Nat) : IntTy := if width ≤ 16 then .i16 else .i32

/-- `((insn as signed_ty) << lshift) >> rshift`, without the first shift when it is by 0. -/
def emitSigned (pos len width : Nat) : Option Expr :=
  if pos + len ≤ width then
    let lshift := width - pos - len
    let rshift := width - len
    if lshift = 0 then some (.shr (.cast .insn (signedTyOf width)) rshift)
    else some (.shr (.shl (.cast .insn (signedTyOf width)) lshift) rshift)
  else none

/-- `(insn >> pos) & mask`. -/
def emitUnsigned (pos len : Nat) : Option Expr :=
  if len < 32 then some (.mask (.shr .insn pos) (2 ^ len - 1)) else none

def emitFirst (s : FieldSegment) (width : Nat) : Option Expr :=
  if s.signed then emitSigned s.pos s.len width else emitUnsigned s.pos s.len

/-- `val = (val << len) | ((insn >> pos) & mask) as i64`. -/
def emitStep (s : FieldSegment) : Option Expr := do
  let bits ← emitUnsigned s.pos s.len
  return .or (.shl .val s.len) (.cast bits .i64)

/-- Emit the transform expression for a `!function=` handler. -/
def emitFuncTransform (func : String) (cast : Expr) : Expr :=
  match func with
  | "ex_shift_1" => .shl cast 1
  | "ex_shift_2" => .shl cast 2
  | "ex_shift_3" => .shl cast 3
  | "ex_shift_4" => .shl cast 4
  | "ex_shift_12" => .shl cast 12
  | "ex_rvc_register" => .add cast 8
  | "ex_sreg_register" => .pick [8, 9, 18, 19, 20, 21, 22, 23] cast
  -- identity for RV64
  | "ex_rvc_shiftli" | "ex_rvc_shiftri" => cast
  -- unknown func
  | _ => cast

def emitResult (field : Field) (cast : Expr) : Expr :=
  match field.func with
  | some func => emitFuncTransform func cast
  | none => cast

def emitExtractField (field : Field) (width : Nat) : Option ExtractFn :=
  match field.segments with
  | [s] => do
    let first ← emitFirst s width
    return ⟨field.name, first, [], emitResult field (.cast .val .i64)⟩
  -- `segs[0]` is out of bounds
  | [] => none
  | s0 :: segs => do
    let first ← emitFirst s0 width
    let steps ← segs.mapM emitStep
    return ⟨field.name, .cast first .i64, steps, emitResult field .val⟩

/-! ## The decode function -/

def emitFieldExpr (mapping : FieldMapping) (width : Nat) : Option Expr :=
  match mapping with
  | .fieldRef r => some (.call r)
  | .inline pos len signed =>
    if signed then
      if pos + len ≤ width then
        some (.cast (.shr (.shl (.cast .insn (signedTyOf width)) (width - pos - len)) (width - len))
          .i64)
      else none
    else do
      let bits ← emitUnsigned pos len
      return .cast bits .i64
  | .const c => some (.int c)

/-- One field of the argument structure. -/
def emitArg (p : Pattern) (width : Nat) (af : String) : Option (String × Expr) :=
  match p.fieldMap.get af with
  | some mapping => do
    let e ← emitFieldExpr mapping width
    return (af, e)
  | none => some (af, .int 0)

/-- The fields of a pattern's argument structure. -/
def argFields (argsets : BTreeMap ArgSet) (p : Pattern) : List String :=
  if p.argsName = "" then []
  else match argsets.get p.argsName with
    | some a => a.fields
    | none => []

def fullMask (width : Nat) : BitVec 32 := if width ≤ 16 then 0xffff else 0xffffffff

def emitArm (argsets : BTreeMap ArgSet) (width : Nat) (p : Pattern) : Option Arm := do
  let args ← (argFields argsets p).mapM (emitArg p width)
  return ⟨if p.fixedmask = fullMask width then none else some p.fixedmask.toNat,
    p.fixedbits.toNat, p.name, args⟩

def emitDecoder (parsed : Parsed) (width : Nat) : Option Code := do
  let extracts ← parsed.fields.values.mapM fun field => emitExtractField field width
  let arms ← parsed.patterns.mapM (emitArm parsed.argsets width)
  return ⟨insnTyOf width, extracts, arms⟩

/-- Read a decode file and write its decoder. -/
def generateWithWidth (isAlphanumeric : Char → Bool) (input : Text) (width : Nat) :
    Except String (Option Code) := do
  let parsed ← parseWithWidth isAlphanumeric input width
  return emitDecoder parsed width

end TcgRs.Model.Decode
