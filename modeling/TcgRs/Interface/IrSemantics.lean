import TcgRs.Model.Ir.Context

/-!
# Meaning of the IR

An interpreter for op lists, after the op tables of `docs/ir-ops.md`.  A temp holds 64 bits.
An op of type `i32` reads the low halves of its inputs and leaves the zero extension of its
32-bit result; every other type is read at 64 bits.  Integer ops have their arithmetic meaning.
What the remaining ops do (memory, helper calls, carries, vectors) is a parameter: a function of
the op, its inputs, the globals and the rest of the machine.
-/

set_option autoImplicit false

namespace TcgRs.Interface.Ir

open Model.Ir

/-! ## Values -/

variable {w : Nat}

/-- Whether a condition holds of two words. -/
def condHolds (c : Cond) (x y : BitVec w) : Bool :=
  match c with
  | .never => false
  | .always => true
  | .eq => decide (x = y)
  | .ne => !decide (x = y)
  | .lt => x.slt y
  | .ge => !x.slt y
  | .le => x.sle y
  | .gt => !x.sle y
  | .ltu => x.ult y
  | .geu => !x.ult y
  | .leu => x.ule y
  | .gtu => !x.ule y
  | .tstEq => decide (x &&& y = 0)
  | .tstNe => !decide (x &&& y = 0)

/-- A word operation at the width of a type. -/
def atType (ty : IrType) (f : ∀ n : Nat, BitVec n → BitVec n) (x : BitVec 64) : BitVec 64 :=
  if ty = .i32 then (f 32 (x.setWidth 32)).setWidth 64 else f 64 x

/-- A binary word operation at the width of a type. -/
def atType₂ (ty : IrType) (f : ∀ n : Nat, BitVec n → BitVec n → BitVec n) (x y : BitVec 64) :
    BitVec 64 :=
  if ty = .i32 then (f 32 (x.setWidth 32) (y.setWidth 32)).setWidth 64 else f 64 x y

/-- A condition at the width of a type. -/
def condAtType (ty : IrType) (c : Cond) (x y : BitVec 64) : Bool :=
  if ty = .i32 then condHolds c (x.setWidth 32) (y.setWidth 32) else condHolds c x y

/-- The unary integer operations. -/
def unaryOp : Opcode → Option (∀ n : Nat, BitVec n → BitVec n)
  | .mov => some fun _ x => x
  | .neg => some fun _ x => -x
  | .not => some fun _ x => ~~~x
  | _ => none

/-- The binary integer operations.  Shift and rotate counts are taken modulo the width. -/
def binaryOp : Opcode → Option (∀ n : Nat, BitVec n → BitVec n → BitVec n)
  | .add => some fun _ x y => x + y
  | .sub => some fun _ x y => x - y
  | .mul => some fun _ x y => x * y
  | .and => some fun _ x y => x &&& y
  | .or => some fun _ x y => x ||| y
  | .xor => some fun _ x y => x ^^^ y
  | .andC => some fun _ x y => x &&& ~~~y
  | .orC => some fun _ x y => x ||| ~~~y
  | .eqv => some fun _ x y => ~~~(x ^^^ y)
  | .nand => some fun _ x y => ~~~(x &&& y)
  | .nor => some fun _ x y => ~~~(x ||| y)
  | .shl => some fun n x y => x <<< (y.toNat % n)
  | .shr => some fun n x y => x >>> (y.toNat % n)
  | .sar => some fun n x y => x.sshiftRight (y.toNat % n)
  | .rotL => some fun n x y => x.rotateLeft (y.toNat % n)
  | .rotR => some fun n x y => x.rotateRight (y.toNat % n)
  | _ => none

/-- The conversions between the integer types. -/
def convertOp : Opcode → Option (BitVec 64 → BitVec 64)
  | .extI32I64 => some fun x => (x.setWidth 32).signExtend 64
  | .extUI32I64 => some fun x => (x.setWidth 32).setWidth 64
  | .extrlI64I32 => some fun x => (x.setWidth 32).setWidth 64
  | .extrhI64I32 => some fun x => (x >>> 32).setWidth 64
  | _ => none

/-- The condition of a constant argument; a code that names none never holds. -/
def condOfCarg (n : Nat) : Cond := (Cond.ofCode n).getD .never

/-- The result of an integer op; `none` for the ops that are not integer arithmetic. -/
def evalOp (opc : Opcode) (ty : IrType) (cargs : List Nat) (xs : List (BitVec 64)) :
    Option (BitVec 64) :=
  match opc, cargs, xs with
  | .setCond, [c], [x, y] => some (if condAtType ty (condOfCarg c) x y then 1 else 0)
  | .negSetCond, [c], [x, y] =>
    some (atType ty (fun _ z => z) (if condAtType ty (condOfCarg c) x y then -1 else 0))
  | .movCond, [c], [x, y, u, v] =>
    some (atType ty (fun _ z => z) (if condAtType ty (condOfCarg c) x y then u else v))
  | opc, _, [x] =>
    ((unaryOp opc).map fun f => atType ty f x).or ((convertOp opc).map fun f => f x)
  | opc, _, [x, y] => (binaryOp opc).map fun f => atType₂ ty f x y
  | _, _, _ => none

/-! ## Ops and runs -/

/-- The values of the temps, and the rest of the machine. -/
structure State (σ : Type) where
  temps : Nat → BitVec 64
  world : σ

/-- The meaning of the ops that are not integer arithmetic: from the op's opcode, type, constant
arguments and inputs, the globals and the machine, the outputs and the new machine.  A helper may
read the globals, which are stored back before a call. -/
structure Effects (σ : Type) where
  run : Opcode → IrType → List Nat → List (BitVec 64) → (Nat → BitVec 64) → σ →
    (Nat → BitVec 64) × σ

variable {σ : Type}

/-- The value of a temp: a constant temp is its constant. -/
def valueOf (ctx : Context) (temps : Nat → BitVec 64) (t : Nat) : BitVec 64 :=
  if t < ctx.nbTemps ∧ (ctx.temps t).isConst = true then (ctx.temps t).val else temps t

/-- Write the outputs of an op, in order. -/
def writeOutputs (op : Op) (outs : Nat → BitVec 64) (temps : Nat → BitVec 64) :
    Nat → BitVec 64 :=
  (List.range op.opc.opDef.nbOargs).foldl
    (fun temps i => Function.update temps (op.args i) (outs i)) temps

/-- The values of the globals alone. -/
def globalsOf (ctx : Context) (temps : Nat → BitVec 64) : Nat → BitVec 64 :=
  fun t => if t < ctx.nbGlobals then valueOf ctx temps t else 0

/-- Whether an op only moves control. -/
def isControl : Opcode → Bool
  | .br | .brCond | .setLabel | .gotoTb | .exitTb | .gotoPtr | .nop | .insnStart => true
  | _ => false

/-- The state after an op. -/
def execOp (E : Effects σ) (ctx : Context) (op : Op) (s : State σ) : State σ :=
  let inputs := op.iargs.map (valueOf ctx s.temps)
  if isControl op.opc then s
  else
    match evalOp op.opc op.opType op.cargs inputs with
    | some v => { s with temps := writeOutputs op (fun _ => v) s.temps }
    | none =>
      let r := E.run op.opc op.opType op.cargs inputs (globalsOf ctx s.temps) s.world
      { temps := writeOutputs op r.1 s.temps, world := r.2 }

/-- How a translation block is left. -/
inductive Exit where
  | exitTb (val : Nat)
  | gotoPtr (target : BitVec 64)
  deriving DecidableEq, Repr

/-- The position of a label in an op list. -/
def labelPos (ops : List Op) (label : Nat) : Option Nat :=
  ops.findIdx? fun op => decide (op.opc = .setLabel ∧ op.args 0 = label)

/-- Where control goes from the op at `pc`: to a position of the list, or out of it.  `gotoTb`
falls through: what it jumps to once it is linked is another block. -/
def nextPc (ctx : Context) (ops : List Op) (pc : Nat) (op : Op) (s : State σ) :
    Option (Nat ⊕ Exit) :=
  let value := valueOf ctx s.temps
  match op.opc with
  | .br => (labelPos ops (op.args 0)).map .inl
  | .brCond =>
    if condAtType op.opType (condOfCarg (op.args 2)) (value (op.args 0)) (value (op.args 1)) then
      (labelPos ops (op.args 3)).map .inl
    else some (.inl (pc + 1))
  | .exitTb => some (.inr (.exitTb (op.args 0)))
  | .gotoPtr => some (.inr (.gotoPtr (value (op.args 0))))
  | _ => some (.inl (pc + 1))

/-- Interpret an op list from a position, for at most `fuel` ops: the exit and the state there.
`none` when the fuel is spent, or when control leaves the list otherwise. -/
def run (E : Effects σ) (ctx : Context) (ops : List Op) :
    Nat → Nat → State σ → Option (Exit × State σ)
  | 0, _, _ => none
  | fuel + 1, pc, s => do
    let op ← ops[pc]?
    let next ← nextPc ctx ops pc op s
    let s' := execOp E ctx op s
    match next with
    | .inl pc' => run E ctx ops fuel pc' s'
    | .inr exit => some (exit, s')

end TcgRs.Interface.Ir
