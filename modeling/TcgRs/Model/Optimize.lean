import TcgRs.Model.Ir.Context

/-!
# The optimizer

`backend/src/optimize.rs`: one forward pass of constant folding, copy propagation and algebraic
simplification.  The facts about temps are a function: an entry beyond the vector of the source
reads as the default there too, so the growth of the vector is not modelled.  An op is rewritten
only when the pass reaches it, so the pass maps each op to its replacement.
-/

set_option autoImplicit false

namespace TcgRs.Model.Optimize

open Ir

/-- What the pass knows of a temp. -/
structure TempInfo where
  isConst : Bool
  val : BitVec 64
  copyOf : Option Nat
  deriving DecidableEq, Repr, Inhabited

/-- Truncation mask for a given IR type. -/
def typeMask : IrType → BitVec 64
  | .i32 => 0xFFFFFFFF
  | _ => BitVec.allOnes 64

/-- Evaluate a comparison condition on two constant operands. -/
def evalCond (a b : BitVec 64) (cond : Cond) (ty : IrType) : Bool :=
  let mask := typeMask ty
  let a := a &&& mask
  let b := b &&& mask
  match cond with
  | .always => true
  | .never => false
  | .eq => decide (a = b)
  | .ne => decide (a ≠ b)
  | .lt => decide (a.toInt < b.toInt)
  | .ge => decide (a.toInt ≥ b.toInt)
  | .le => decide (a.toInt ≤ b.toInt)
  | .gt => decide (a.toInt > b.toInt)
  | .ltu => decide (a < b)
  | .geu => decide (a ≥ b)
  | .leu => decide (a ≤ b)
  | .gtu => decide (a > b)
  | .tstEq => decide (a &&& b = 0)
  | .tstNe => decide (a &&& b ≠ 0)

/-- Decode a carg-encoded condition. -/
def condFromCarg (t : Nat) : Cond := (Cond.ofCode t).getD .never

/-! ## The table of facts -/

/-- What is known of every temp. -/
abbrev Facts := Nat → TempInfo

/-- Follow copy to canonical source. -/
def resolveCopy (info : Facts) (t : Nat) : Option Nat := (info t).copyOf

/-- Reset all copy relationships. -/
def resetCopies (info : Facts) : Facts := fun i => { info i with copyOf := none }

/-- Forget a temp that is redefined, and that any temp was a copy of it. -/
def invalidateOne (info : Facts) (dst : Nat) : Facts := fun i =>
  if i = dst then { info i with isConst := false, copyOf := none }
  else if (info i).copyOf = some dst then { info i with copyOf := none }
  else info i

/-- Invalidate output temp info for ops we don't optimize; constant temps are left alone. -/
def invalidateOutputs (ctx : Context) (info : Facts) (op : Op) : Facts :=
  op.oargs.foldl (fun info t =>
    if (ctx.temp t).any (fun temp => !temp.isConst) then invalidateOne info t else info) info

/-- Record that `dst` is now a known constant. -/
def setConst (info : Facts) (dst : Nat) (val : BitVec 64) : Facts :=
  Function.update info dst ⟨true, val, none⟩

/-- Record that `dst` is a copy of `src`. -/
def setCopy (info : Facts) (dst src : Nat) : Facts :=
  if (info src).isConst then Function.update info dst ⟨true, (info src).val, none⟩
  else Function.update info dst ⟨false, (info dst).val, some src⟩

/-! ## The state of the pass -/

/-- The context with its table of constants, and the facts. -/
structure Pass where
  ctx : Context
  constTable : IrType → BitVec 64 → Option Nat
  info : Facts

namespace Pass

/-- Get or create a constant temp, deduplicated per type. -/
def newConst (p : Pass) (ty : IrType) (val : BitVec 64) : Pass × Nat :=
  match p.constTable ty val with
  | some t => (p, t)
  | none =>
    let idx := p.ctx.nbTemps
    ({ p with
        ctx := { p.ctx with
          temps := Function.update p.ctx.temps idx (Temp.newConst ty val), nbTemps := idx + 1 },
        constTable := fun ty' val' =>
          if ty' = ty ∧ val' = val then some idx else p.constTable ty' val' }, idx)

end Pass

/-- An op turned into another opcode with its first arguments replaced, which are then all it
has. -/
def rewriteOp (op : Op) (opc : Opcode) (args : List Nat) : Op :=
  { op with opc := opc, args := fun i => args.getD i (op.args i), nargs := args.length }

/-- Replace op with `mov dst, const_val`. -/
def replaceWithConst (p : Pass) (op : Op) (dst : Nat) (val : BitVec 64) (ty : IrType) :
    Pass × Op :=
  let masked := val &&& typeMask ty
  let (p, c) := p.newConst ty masked
  let info := Function.update p.info c { p.info c with isConst := true, val := masked }
  ({ p with info := setConst info dst masked }, rewriteOp op .mov [dst, c])

/-- Replace op with `mov dst, src`. -/
def replaceWithMov (p : Pass) (op : Op) (dst src : Nat) : Pass × Op :=
  ({ p with info := invalidateOne p.info dst }, rewriteOp op .mov [dst, src])

/-! ## The folds -/

/-- Mov: record copy or constant relationship. -/
def foldMov (p : Pass) (op : Op) : Pass × Op :=
  let dst := op.args 0
  let src := op.args 1
  let info := if (p.info src).isConst then setConst p.info dst ((p.info src).val &&& typeMask op.opType)
    else setCopy p.info dst src
  ({ p with info := info }, op)

/-- The value of `Neg` or `Not` on a constant. -/
def evalUnary (opc : Opcode) (a : BitVec 64) (ty : IrType) : BitVec 64 :=
  (if opc = .neg then 0 - a else ~~~a) &&& typeMask ty

/-- Unary ops. -/
def foldUnary (p : Pass) (op : Op) : Pass × Op :=
  let dst := op.args 0
  let si := p.info (op.args 1)
  if si.isConst then replaceWithConst p op dst (evalUnary op.opc si.val op.opType) op.opType
  else ({ p with info := invalidateOne p.info dst }, op)

/-- The value of a type conversion on a constant. -/
def evalExt (opc : Opcode) (a : BitVec 64) : BitVec 64 :=
  match opc with
  | .extI32I64 => (a.setWidth 32).signExtend 64
  | .extrhI64I32 => (a >>> 32) &&& 0xFFFFFFFF
  | _ => a &&& 0xFFFFFFFF

/-- Type conversion ops. -/
def foldExt (p : Pass) (op : Op) : Pass × Op :=
  let dst := op.args 0
  let si := p.info (op.args 1)
  let outTy := if op.opc = .extI32I64 ∨ op.opc = .extUI32I64 then IrType.i64 else .i32
  if si.isConst then replaceWithConst p op dst (evalExt op.opc si.val) outTy
  else ({ p with info := invalidateOne p.info dst }, op)

/-- Evaluate a binary op on two constants.  A shift by more than the width of a `u64`, which only
the vector types allow, wraps. -/
def evalBinary (opc : Opcode) (a b : BitVec 64) (ty : IrType) : Option (BitVec 64) :=
  let mask := typeMask ty
  let sh := (b.setWidth 32).toNat % ty.sizeBits
  let r : Option (BitVec 64) :=
    match opc with
    | .add => some (a + b)
    | .sub => some (a - b)
    | .mul => some (a * b)
    | .and => some (a &&& b)
    | .or => some (a ||| b)
    | .xor => some (a ^^^ b)
    | .andC => some (a &&& ~~~b)
    | .shl => some (a <<< (sh % 64))
    | .shr => some ((a &&& mask) >>> (sh % 64))
    | .sar =>
      some (if ty = .i32 then ((a.setWidth 32).sshiftRight sh).signExtend 64
        else a.sshiftRight (sh % 64))
    | .rotL =>
      some (if ty = .i32 then ((a.setWidth 32).rotateLeft sh).setWidth 64 else a.rotateLeft sh)
    | .rotR =>
      some (if ty = .i32 then ((a.setWidth 32).rotateRight sh).setWidth 64 else a.rotateRight sh)
    | _ => none
  r.map (· &&& mask)

/-- What an op with one constant operand simplifies to. -/
inductive Simplified where
  | mov (src : Nat)
  | const (val : BitVec 64)
  | neg (src : Nat)
  deriving DecidableEq, Repr

/-- The simplification when the second operand is the constant `b`; `a` is the first. -/
def simplifyRight (opc : Opcode) (a : Nat) (b mask : BitVec 64) : Option Simplified :=
  match opc with
  | .add | .sub | .xor | .shl | .shr | .sar | .rotL | .rotR =>
    if b = 0 then some (.mov a) else none
  | .or => if b = 0 then some (.mov a) else if b = mask then some (.const mask) else none
  | .mul => if b = 0 then some (.const 0) else if b = 1 then some (.mov a) else none
  | .and => if b = 0 then some (.const 0) else if b = mask then some (.mov a) else none
  | .andC => if b = mask then some (.const 0) else none
  | _ => none

/-- The simplification when the first operand is the constant `a`; `b` is the second. -/
def simplifyLeft (opc : Opcode) (a : BitVec 64) (b : Nat) (mask : BitVec 64) : Option Simplified :=
  match opc with
  | .add => if a = 0 then some (.mov b) else none
  | .sub => if a = 0 then some (.neg b) else none
  | .mul | .and => if a = 0 then some (.const 0) else none
  | .or => if a = mask then some (.const mask) else none
  | _ => none

/-- Algebraic simplification when one operand is constant: the second operand is looked at
first. -/
def simplify (opc : Opcode) (a b : Nat) (ai bi : TempInfo) (ty : IrType) : Option Simplified :=
  let mask := typeMask ty
  let right := if bi.isConst then simplifyRight opc a (bi.val &&& mask) mask else none
  let left := if ai.isConst then simplifyLeft opc (ai.val &&& mask) b mask else none
  right.or left

/-- Same-operand identities. -/
def sameOperand (opc : Opcode) (a b : Nat) : Option Simplified :=
  if a = b then
    match opc with
    | .and | .or => some (.mov a)
    | .xor | .sub => some (.const 0)
    | _ => none
  else none

/-- Rewrite an op to what it simplifies to. -/
def replaceSimplified (p : Pass) (op : Op) (dst : Nat) (ty : IrType) : Simplified → Pass × Op
  | .mov src => replaceWithMov p op dst src
  | .const val => replaceWithConst p op dst val ty
  | .neg src => ({ p with info := invalidateOne p.info dst }, rewriteOp op .neg [dst, src])

/-- What a binary op folds or simplifies to: its value on two constants, else the algebraic
simplification, else the same-operand identity. -/
def binaryResult (info : Facts) (op : Op) : Option Simplified :=
  let a := op.args 1
  let b := op.args 2
  let ty := op.opType
  let ai := info a
  let bi := info b
  let folded := if ai.isConst && bi.isConst then
      (evalBinary op.opc (ai.val &&& typeMask ty) (bi.val &&& typeMask ty) ty).map Simplified.const
    else none
  (folded.or (simplify op.opc a b ai bi ty)).or (sameOperand op.opc a b)

/-- Binary arithmetic and logic ops. -/
def foldBinary (p : Pass) (op : Op) : Pass × Op :=
  let dst := op.args 0
  match binaryResult p.info op with
  | some r => replaceSimplified p op dst op.opType r
  | none => ({ p with info := invalidateOne p.info dst }, op)

/-- Fold `BrCond` when both inputs are constant. -/
def foldBrcond (p : Pass) (op : Op) : Op :=
  let ai := p.info (op.args 0)
  let bi := p.info (op.args 1)
  if ai.isConst && bi.isConst then
    if evalCond ai.val bi.val (condFromCarg (op.args 2)) op.opType then
      rewriteOp op .br [op.args 3]
    else rewriteOp op .nop []
  else op

/-! ## The pass -/

/-- Ends of basic blocks, where all copies are forgotten. -/
def isBoundary : Opcode → Bool
  | .setLabel | .br | .exitTb | .gotoTb | .gotoPtr | .call => true
  | _ => false

/-- Ops that are left alone. -/
def isSkipped (opc : Opcode) : Bool :=
  opc.opDef.flags.contains OpFlags.sideEffects || opc.opDef.flags.contains OpFlags.vector ||
    decide (opc = .nop) || decide (opc = .insnStart) || decide (opc = .discard)

/-- Copy propagation on inputs. -/
def propagateCopies (info : Facts) (op : Op) : Op :=
  let start := op.opc.opDef.nbOargs
  let stop := start + op.opc.opDef.nbIargs
  { op with args := fun i =>
      if start ≤ i ∧ i < stop then (resolveCopy info (op.args i)).getD (op.args i) else op.args i }

/-- The fold of an op by its opcode, after copy propagation. -/
def foldOp (p : Pass) (op : Op) : Pass × Op :=
  match op.opc with
  | .mov => foldMov p op
  | .neg | .not => foldUnary p op
  | .extI32I64 | .extUI32I64 | .extrlI64I32 | .extrhI64I32 => foldExt p op
  | .add | .sub | .mul | .and | .or | .xor | .andC | .shl | .shr | .sar | .rotL | .rotR =>
    foldBinary p op
  | .brCond => (p, foldBrcond p op)
  | _ => ({ p with info := invalidateOutputs p.ctx p.info op }, op)

/-- One op of the pass. -/
def optimizeOp (p : Pass) (op : Op) : Pass × Op :=
  if isBoundary op.opc then
    ({ p with info := resetCopies (invalidateOutputs p.ctx p.info op) }, op)
  else if isSkipped op.opc then ({ p with info := invalidateOutputs p.ctx p.info op }, op)
  else foldOp p (propagateCopies p.info op)

/-- The pass over a list of ops. -/
def optimizeOps (p : Pass) : List Op → Pass × List Op
  | [] => (p, [])
  | op :: ops =>
    let (p, op) := optimizeOp p op
    let (p, ops) := optimizeOps p ops
    (p, op :: ops)

/-- What is known at the start: the constant temps. -/
def seedInfo (ctx : Context) : Facts := fun i =>
  if i < ctx.nbTemps ∧ (ctx.temps i).isConst = true then ⟨true, (ctx.temps i).val, none⟩
  else ⟨false, 0, none⟩

/-- Main optimizer entry point. -/
def optimize (ctx : Context) (constTable : IrType → BitVec 64 → Option Nat) (ops : List Op) :
    Pass × List Op :=
  optimizeOps ⟨ctx, constTable, seedInfo ctx⟩ ops

end TcgRs.Model.Optimize
