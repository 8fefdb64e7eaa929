import TcgRs.Model.X86.Branch
import TcgRs.Model.X86.Codegen

/-!
# The code of one op

`tcg_out_op` and its siblings of `backend/src/x86_64/codegen.rs`, for the ops whose bytes do not
depend on where they are placed: all but `BrCond`, `ExitTb` and `GotoTb`.  `none` is a panic of the
source.
-/

set_option autoImplicit false

namespace TcgRs.Model.X86

open Ir

/-! ## Sub-operations -/

/-- Arithmetic sub-opcodes, shifted into the opcode byte. -/
inductive ArithOp where
  | add | or | adc | sbb | and | sub | xor | cmp
  deriving DecidableEq, Repr

def ArithOp.toU32 : ArithOp → BitVec 32
  | .add => 0 | .or => 1 | .adc => 2 | .sbb => 3 | .and => 4 | .sub => 5 | .xor => 6 | .cmp => 7

/-- Shift sub-opcodes, in the reg field. -/
inductive ShiftOp where
  | rol | ror | shl | shr | sar
  deriving DecidableEq, Repr

def ShiftOp.toU8 : ShiftOp → Byte
  | .rol => 0 | .ror => 1 | .shl => 4 | .shr => 5 | .sar => 7

/-- Group 3 extension codes, in the reg field. -/
inductive Ext3Op where
  | not | neg | mul | imul | div | idiv
  deriving DecidableEq, Repr

def Ext3Op.toU8 : Ext3Op → Byte
  | .not => 2 | .neg => 3 | .mul => 4 | .imul => 5 | .div => 6 | .idiv => 7

/-- Return the inverted condition. -/
def X86Cond.invert : X86Cond → X86Cond
  | .jo => .jno | .jno => .jo | .jb => .jae | .jae => .jb
  | .je => .jne | .jne => .je | .jbe => .ja | .ja => .jbe
  | .js => .jns | .jns => .js | .jp => .jnp | .jnp => .jp
  | .jl => .jge | .jge => .jl | .jle => .jg | .jg => .jle

/-! ## Instructions -/

def opcBswap : BitVec 32 := 0xC8 ||| pExt

/-- Emit arithmetic reg, reg. -/
def emitArithRr (op : ArithOp) (rexw : Bool) (dst src : Reg) : List Byte :=
  emitModrm ((opcArithGvEv + (op.toU32 <<< 3)) ||| rexwFlag rexw) dst src

/-- Emit a group 3 instruction: NOT, NEG, and the one-operand multiplications and divisions. -/
def emitGrp3 (op : Ext3Op) (rexw : Bool) (reg : Reg) : List Byte :=
  emitModrmExt (opcGrp3Ev ||| rexwFlag rexw) op.toU8 reg

/-- Emit shift reg, imm8. -/
def emitShiftRi (op : ShiftOp) (rexw : Bool) (dst : Reg) (imm : Byte) : List Byte :=
  if imm = 1 then emitModrmExt (opcShift1 ||| rexwFlag rexw) op.toU8 dst
  else emitModrmExt (opcShiftIb ||| rexwFlag rexw) op.toU8 dst ++ [imm]

/-- Emit shift reg, CL. -/
def emitShiftCl (op : ShiftOp) (rexw : Bool) (dst : Reg) : List Byte :=
  emitModrmExt (opcShiftCl ||| rexwFlag rexw) op.toU8 dst

/-- Emit MOV reg, reg. -/
def emitMovRr (rexw : Bool) (dst src : Reg) : List Byte :=
  emitModrm (opcMovlEvGv ||| rexwFlag rexw) src dst

/-- Emit BSWAP reg, with the register in the opcode byte. -/
def emitBswap (rexw : Bool) (reg : Reg) : List Byte :=
  emitOpc ((opcBswap + reg.low3.setWidth 32) ||| rexwFlag rexw) 0 reg.toU8

/-- Emit MOV reg, [base+offset]. -/
def emitLoad (rexw : Bool) (dst base : Reg) (offset : BitVec 32) : List Byte :=
  emitModrmOffset (opcMovlGvEv ||| rexwFlag rexw) dst base offset

/-- Emit MOV [base+offset], reg. -/
def emitStore (rexw : Bool) (src base : Reg) (offset : BitVec 32) : List Byte :=
  emitModrmOffset (opcMovlEvGv ||| rexwFlag rexw) src base offset

/-- Emit LEA dst, [base+index*scale+offset]. -/
def emitLeaSib (rexw : Bool) (dst base index : Reg) (shift : Byte) (offset : BitVec 32) :
    Option (List Byte) :=
  emitModrmSib (opcLea ||| rexwFlag rexw) dst base index shift offset

/-- Emit two-operand IMUL: dst = dst * src. -/
def emitImulRr (rexw : Bool) (dst src : Reg) : List Byte :=
  emitModrm (opcImulGvEv ||| rexwFlag rexw) dst src

/-- Emit ANDN dst, src1, src2: dst = ~src1 & src2. -/
def emitAndn (rexw : Bool) (dst src1 src2 : Reg) : List Byte :=
  emitVexModrm (opcAndn ||| rexwFlag rexw) dst src1 src2

/-- Emit SETcc dst. -/
def emitSetcc (cond : X86Cond) (dst : Reg) : List Byte :=
  emitModrmExt (opcSetcc + cond.toU8.setWidth 32) 0 dst

/-- Emit CMOVcc dst, src. -/
def emitCmovcc (cond : X86Cond) (rexw : Bool) (dst src : Reg) : List Byte :=
  emitModrm ((opcCmovcc + cond.toU8.setWidth 32) ||| rexwFlag rexw) dst src

/-- Emit ROL word, 8. -/
def emitRolw8 (reg : Reg) : List Byte :=
  emitModrmExt (opcShiftIb ||| pData16) ShiftOp.rol.toU8 reg ++ [8]

/-- Emit STC. -/
def emitStc : List Byte := [0xF9]

/-- Emit MFENCE. -/
def emitMfence : List Byte := [0x0F, 0xAE, 0xF0]

/-! ## Data movement -/

/-- `tcg_out_mov`: a move of a register to itself is not emitted. -/
def tcgOutMov (ty : IrType) (dst src : Reg) : List Byte :=
  if dst = src then [] else emitMovRr (decide (ty = .i64)) dst src

def tcgOutMovi (ty : IrType) (dst : Reg) (val : BitVec 64) : List Byte :=
  emitMovRi (decide (ty = .i64)) dst val

/-- The offset is cut to an `i32`. -/
def tcgOutLd (ty : IrType) (dst base : Reg) (offset : Int) : List Byte :=
  emitLoad (decide (ty = .i64)) dst base (BitVec.ofInt 32 offset)

def tcgOutSt (ty : IrType) (src base : Reg) (offset : Int) : List Byte :=
  emitStore (decide (ty = .i64)) src base (BitVec.ofInt 32 offset)

/-! ## Ops -/

/-- `Add`: in place where the destination is an operand, else LEA. -/
def outAdd (rexw : Bool) (d a b : Reg) : Option (List Byte) :=
  if d = a then some (emitArithRr .add rexw d b)
  else if d = b then some (emitArithRr .add rexw d a)
  else emitLeaSib rexw d a b 0 0

/-- The comparison before SETcc or CMOVcc. -/
def emitCompare (cond : Cond) (rexw : Bool) (a b : Reg) : List Byte :=
  if cond.isTst then emitTestRr rexw a b else emitArithRr .cmp rexw a b

/-- `SetCond`: compare, SETcc, and widen the byte. -/
def outSetCond (cond : Cond) (rexw : Bool) (d a b : Reg) : List Byte :=
  emitCompare cond rexw a b ++ emitSetcc (.fromTcg cond) d ++
    emitModrm (opcMovzbl ||| pRexbRm) d d

/-- `Extract` of the field that starts at bit 0. -/
def outExtract (d s : Reg) (ofs len : Nat) : Option (List Byte) :=
  if ofs ≠ 0 then none
  else match len with
    | 8 => some (emitModrm opcMovzbl d s)
    | 16 => some (emitModrm opcMovzwl d s)
    | 32 => some (emitMovRr false d s)
    | _ => none

/-- `SExtract` of the field that starts at bit 0. -/
def outSExtract (rexw : Bool) (d s : Reg) (ofs len : Nat) : Option (List Byte) :=
  if ofs ≠ 0 then none
  else match len with
    | 8 => some (emitModrm (if rexw then opcMovsbl ||| pRexw else opcMovsbl) d s)
    | 16 => some (emitModrm (if rexw then opcMovswl ||| pRexw else opcMovswl) d s)
    | 32 => some (emitModrm opcMovslq d s)
    | _ => none

/-- `Deposit` into the low bits. -/
def outDeposit (d src : Reg) (ofs len : Nat) : Option (List Byte) :=
  if ofs ≠ 0 then none
  else match len with
    | 8 => some (emitModrm (opcMovbEvGv ||| pRexbR ||| pRexbRm) src d)
    | 16 => some (emitModrm (pData16 ||| opcMovlEvGv) src d)
    | _ => none

/-- `Bswap16`, by its flags: output sign-extended, output zero-extended, or neither. -/
def outBswap16 (rexw : Bool) (d : Reg) (flags : Nat) : List Byte :=
  if flags &&& 4 ≠ 0 then
    emitBswap rexw d ++ emitShiftRi .sar rexw d (if rexw then 48 else 16)
  else if flags &&& 3 = 2 then emitBswap false d ++ emitShiftRi .shr false d 16
  else emitRolw8 d

def outBswap32 (d : Reg) (flags : Nat) : List Byte :=
  emitBswap false d ++ if flags &&& 4 ≠ 0 then emitModrm opcMovslq d d else []

/-- A load from guest memory, at `R14 + addr`. -/
def outQemuLd (rexw : Bool) (d addr : Reg) (memop : Nat) : Option (List Byte) :=
  let opc := match memop &&& 3, decide (memop &&& 4 ≠ 0) with
    | 0, false => opcMovzbl
    | 0, true => if rexw then opcMovsbl ||| pRexw else opcMovsbl
    | 1, false => opcMovzwl
    | 1, true => if rexw then opcMovswl ||| pRexw else opcMovswl
    | 2, false => opcMovlGvEv
    | 2, true => opcMovslq
    | _, _ => opcMovlGvEv ||| pRexw
  emitModrmSib opc d .r14 addr 0 0

/-- A store to guest memory, at `R14 + addr`. -/
def outQemuSt (val addr : Reg) (memop : Nat) : Option (List Byte) :=
  let opc := match memop &&& 3 with
    | 0 => opcMovbEvGv ||| pRexbR
    | 1 => pData16 ||| opcMovlEvGv
    | 2 => opcMovlEvGv
    | _ => opcMovlEvGv ||| pRexw
  emitModrmSib opc val .r14 addr 0 0

/-- The code of one op.  Arithmetic in place writes over the first input, which the constraints
put in the register of the output. -/
def tcgOutOp (opc : Opcode) (ty : IrType) (oregs iregs : List Reg) (cargs : List Nat) :
    Option (List Byte) :=
  let rexw := decide (ty = .i64)
  match opc, oregs, iregs, cargs with
  | .add, d :: _, a :: b :: _, _ => outAdd rexw d a b
  | .sub, d :: _, _ :: b :: _, _ => some (emitArithRr .sub rexw d b)
  | .mul, d :: _, _ :: b :: _, _ => some (emitImulRr rexw d b)
  | .and, d :: _, _ :: b :: _, _ => some (emitArithRr .and rexw d b)
  | .or, d :: _, _ :: b :: _, _ => some (emitArithRr .or rexw d b)
  | .xor, d :: _, _ :: b :: _, _ => some (emitArithRr .xor rexw d b)
  | .neg, d :: _, _, _ => some (emitGrp3 .neg rexw d)
  | .not, d :: _, _, _ => some (emitGrp3 .not rexw d)
  | .shl, d :: _, _, _ => some (emitShiftCl .shl rexw d)
  | .shr, d :: _, _, _ => some (emitShiftCl .shr rexw d)
  | .sar, d :: _, _, _ => some (emitShiftCl .sar rexw d)
  | .rotL, d :: _, _, _ => some (emitShiftCl .rol rexw d)
  | .rotR, d :: _, _, _ => some (emitShiftCl .ror rexw d)
  | .setCond, d :: _, a :: b :: _, c :: _ =>
    (Cond.ofCode c).map fun cond => outSetCond cond rexw d a b
  | .negSetCond, d :: _, a :: b :: _, c :: _ =>
    (Cond.ofCode c).map fun cond => outSetCond cond rexw d a b ++ emitGrp3 .neg rexw d
  | .movCond, d :: _, a :: b :: _ :: v :: _, c :: _ =>
    (Cond.ofCode c).map fun cond =>
      emitCompare cond rexw a b ++ emitCmovcc (X86Cond.fromTcg cond).invert rexw d v
  | .ld, d :: _, base :: _, ofs :: _ => some (emitLoad rexw d base (.ofNat 32 ofs))
  | .ld8U, d :: _, base :: _, ofs :: _ => some (emitModrmOffset opcMovzbl d base (.ofNat 32 ofs))
  | .ld8S, d :: _, base :: _, ofs :: _ =>
    some (emitModrmOffset (if rexw then opcMovsbl ||| pRexw else opcMovsbl) d base (.ofNat 32 ofs))
  | .ld16U, d :: _, base :: _, ofs :: _ => some (emitModrmOffset opcMovzwl d base (.ofNat 32 ofs))
  | .ld16S, d :: _, base :: _, ofs :: _ =>
    some (emitModrmOffset (if rexw then opcMovswl ||| pRexw else opcMovswl) d base (.ofNat 32 ofs))
  | .ld32U, d :: _, base :: _, ofs :: _ => some (emitLoad false d base (.ofNat 32 ofs))
  | .ld32S, d :: _, base :: _, ofs :: _ => some (emitModrmOffset opcMovslq d base (.ofNat 32 ofs))
  | .st, _, src :: base :: _, ofs :: _ => some (emitStore rexw src base (.ofNat 32 ofs))
  | .st8, _, src :: base :: _, ofs :: _ =>
    some (emitModrmOffset (opcMovbEvGv ||| pRexbR) src base (.ofNat 32 ofs))
  | .st16, _, src :: base :: _, ofs :: _ =>
    some (emitModrmOffset (pData16 ||| opcMovlEvGv) src base (.ofNat 32 ofs))
  | .st32, _, src :: base :: _, ofs :: _ => some (emitStore false src base (.ofNat 32 ofs))
  | .extI32I64, d :: _, s :: _, _ => some (emitModrm opcMovslq d s)
  | .extUI32I64, d :: _, s :: _, _ => some (if d ≠ s then emitMovRr false d s else [])
  | .extrlI64I32, d :: _, s :: _, _ => some (if d ≠ s then emitMovRr false d s else [])
  | .mulS2, _, _ :: b :: _, _ => some (emitGrp3 .imul rexw b)
  | .mulU2, _, _ :: b :: _, _ => some (emitGrp3 .mul rexw b)
  | .divS2, _, _ :: _ :: b :: _, _ => some (emitGrp3 .idiv rexw b)
  | .divU2, _, _ :: _ :: b :: _, _ => some (emitGrp3 .div rexw b)
  | .addCO, d :: _, _ :: b :: _, _ => some (emitArithRr .add rexw d b)
  | .addCI, d :: _, _ :: b :: _, _ => some (emitArithRr .adc rexw d b)
  | .addCio, d :: _, _ :: b :: _, _ => some (emitArithRr .adc rexw d b)
  | .addC1O, d :: _, _ :: b :: _, _ => some (emitStc ++ emitArithRr .adc rexw d b)
  | .subBO, d :: _, _ :: b :: _, _ => some (emitArithRr .sub rexw d b)
  | .subBI, d :: _, _ :: b :: _, _ => some (emitArithRr .sbb rexw d b)
  | .subBio, d :: _, _ :: b :: _, _ => some (emitArithRr .sbb rexw d b)
  | .subB1O, d :: _, _ :: b :: _, _ => some (emitStc ++ emitArithRr .sbb rexw d b)
  | .andC, d :: _, a :: b :: _, _ => some (emitAndn rexw d b a)
  | .extract, d :: _, s :: _, ofs :: len :: _ => outExtract d s ofs len
  | .sExtract, d :: _, s :: _, ofs :: len :: _ => outSExtract rexw d s ofs len
  | .deposit, d :: _, _ :: src :: _, ofs :: len :: _ => outDeposit d src ofs len
  | .extract2, d :: _, _ :: src :: _, shift :: _ =>
    some (emitModrm (opcShrdIb ||| rexwFlag rexw) src d ++ [.ofNat 8 shift])
  | .bswap16, d :: _, _, flags :: _ => some (outBswap16 rexw d flags)
  | .bswap32, d :: _, _, flags :: _ => some (outBswap32 d flags)
  | .bswap64, d :: _, _, _ => some (emitBswap true d)
  | .clz, d :: _, a :: _, _ => some (emitModrm (opcLzcnt ||| rexwFlag rexw) d a)
  | .ctz, d :: _, a :: _, _ => some (emitModrm (opcTzcnt ||| rexwFlag rexw) d a)
  | .ctPop, d :: _, a :: _, _ => some (emitModrm (opcPopcnt ||| rexwFlag rexw) d a)
  | .extrhI64I32, d :: _, _, _ => some (emitShiftRi .shr true d 32)
  | .gotoPtr, _, reg :: _, _ => some (emitModrmExt opcGrp5 4 reg)
  | .qemuLd, d :: _, addr :: _, memop :: _ => outQemuLd rexw d addr memop
  | .qemuSt, _, val :: addr :: _, memop :: _ => outQemuSt val addr memop
  | .call, _, _, lo :: hi :: _ =>
    some (emitMovRi true .r11 (BitVec.ofNat 32 hi ++ BitVec.ofNat 32 lo) ++ emitModrmExt opcGrp5 2 .r11)
  | _, _, _, _ => none

end TcgRs.Model.X86
