import TcgRs.Model.Riscv.TransFp
import TcgRs.Model.Riscv.Translator

/-!
# Base integer instructions

The translation functions of `frontend/src/riscv/trans.rs` for RV64I, and the two of the M extension
that share their helpers.  Addresses and immediates are 64-bit words, whose sums wrap.  A function that
ends the block returns how, beside whether the instruction is known.
-/

set_option autoImplicit false
set_option linter.constructorNameAsVariable false

namespace TcgRs.Model.Riscv

open Ir

structure ArgsB where
  imm : BitVec 64
  rs2 : Fin 32
  rs1 : Fin 32

structure ArgsU where
  imm : BitVec 64
  rd : Fin 32

structure ArgsJ where
  imm : BitVec 64
  rd : Fin 32

structure ArgsShift where
  shamt : BitVec 64
  rs1 : Fin 32
  rd : Fin 32

def TB_EXIT_IDX1 : Nat := 1
def TB_EXIT_NOCHAIN : Nat := 2
def EXCP_ECALL : Nat := 3
def EXCP_EBREAK : Nat := 4

namespace RiscvDisasContext

variable (self : RiscvDisasContext)

/-! ## Guest memory -/

/-- Guest load: rd = *(addr), addr = rs1 + imm. -/
def genLoad (a : ArgsI) (memop : MemOp) : Gen Bool := do
  let addr ← self.genAddr a.rs1 a.imm
  let dst ← newTemp .i64
  let _ ← genQemuLd .i64 dst addr memop
  self.genSetGpr a.rd dst
  return true

/-- Guest store: *(addr) = rs2, addr = rs1 + imm. -/
def genStore (a : ArgsS) (memop : MemOp) : Gen Bool := do
  let addr ← self.genAddr a.rs1 a.imm
  let val ← self.gprOrZero a.rs2
  genQemuSt .i64 val addr memop
  return true

/-! ## Arithmetic -/

/-- R-type ALU: `rd = op(rs1, rs2)`. -/
def genArith (a : ArgsR) (op : BinOp) : Gen Bool := do
  let s1 ← self.gprOrZero a.rs1
  let s2 ← self.gprOrZero a.rs2
  let d ← newTemp .i64
  let _ ← op .i64 d s1 s2
  self.genSetGpr a.rd d
  return true

/-- R-type setcond: `rd = (rs1 cond rs2) ? 1 : 0`. -/
def genSetcondRr (a : ArgsR) (cond : Cond) : Gen Bool := do
  let s1 ← self.gprOrZero a.rs1
  let s2 ← self.gprOrZero a.rs2
  let d ← newTemp .i64
  let _ ← genSetCond .i64 d s1 s2 cond
  self.genSetGpr a.rd d
  return true

/-- I-type ALU: `rd = op(rs1, sext(imm))`. -/
def genArithImm (a : ArgsI) (op : BinOp) : Gen Bool := do
  let src ← self.gprOrZero a.rs1
  let imm ← newConst .i64 a.imm
  let d ← newTemp .i64
  let _ ← op .i64 d src imm
  self.genSetGpr a.rd d
  return true

/-- I-type setcond: `rd = (rs1 cond imm) ? 1 : 0`. -/
def genSetcondImm (a : ArgsI) (cond : Cond) : Gen Bool := do
  let src ← self.gprOrZero a.rs1
  let imm ← newConst .i64 a.imm
  let d ← newTemp .i64
  let _ ← genSetCond .i64 d src imm cond
  self.genSetGpr a.rd d
  return true

/-- Shift immediate: `rd = op(rs1, shamt)`. -/
def genShiftImm (a : ArgsShift) (op : BinOp) : Gen Bool := do
  let src ← self.gprOrZero a.rs1
  let sh ← newConst .i64 a.shamt
  let d ← newTemp .i64
  let _ ← op .i64 d src sh
  self.genSetGpr a.rd d
  return true

/-! ## Words -/

/-- R-type W: `rd = sext32(op(rs1, rs2))`. -/
def genArithW (a : ArgsR) (op : BinOp) : Gen Bool := do
  let s1 ← self.gprOrZero a.rs1
  let s2 ← self.gprOrZero a.rs2
  let d ← newTemp .i64
  let _ ← op .i64 d s1 s2
  self.genSetGprSx32 a.rd d
  return true

/-- I-type W: `rd = sext32(op(rs1, imm))`. -/
def genArithImmW (a : ArgsI) (op : BinOp) : Gen Bool := do
  let src ← self.gprOrZero a.rs1
  let imm ← newConst .i64 a.imm
  let d ← newTemp .i64
  let _ ← op .i64 d src imm
  self.genSetGprSx32 a.rd d
  return true

/-- R-type shift W: truncate to I32, shift, sext. -/
def genShiftw (a : ArgsR) (op : BinOp) : Gen Bool := do
  let s1 ← self.gprOrZero a.rs1
  let s2 ← self.gprOrZero a.rs2
  let a32 ← newTemp .i32
  let _ ← genExtrlI64I32 a32 s1
  let b32 ← newTemp .i32
  let _ ← genExtrlI64I32 b32 s2
  let d32 ← newTemp .i32
  let _ ← op .i32 d32 a32 b32
  self.genSetGprSx32 a.rd d32
  return true

/-- Shift immediate W: truncate to I32, shift, sext. -/
def genShiftImmW (a : ArgsShift) (op : BinOp) : Gen Bool := do
  let src ← self.gprOrZero a.rs1
  let s32 ← newTemp .i32
  let _ ← genExtrlI64I32 s32 src
  let sh ← newConst .i32 a.shamt
  let d32 ← newTemp .i32
  let _ ← op .i32 d32 s32 sh
  self.genSetGprSx32 a.rd d32
  return true

/-! ## Control -/

/-- The address of the next instruction. -/
def link : BitVec 64 := self.base.pcNext + BitVec.ofNat 64 self.curInsnLen

/-- Write the program counter and leave through a chain slot. -/
def genChainedExit (target : BitVec 64) (slot exit : Nat) : Gen Unit := do
  let c ← newConst .i64 target
  let _ ← genMov .i64 self.pc c
  genGotoTb slot
  genExitTb exit

/-- Conditional branch that terminates the TB. -/
def genBranch (a : ArgsB) (cond : Cond) : Gen (Bool × DisasJumpType) := do
  let src1 ← self.gprOrZero a.rs1
  let src2 ← self.gprOrZero a.rs2
  let taken ← newLabel
  genBrCond .i64 src1 src2 cond taken
  -- Not taken: PC = next insn, return chain slot 0.
  self.genChainedExit self.link 0 TB_EXIT_IDX0
  -- Taken: PC = branch target, return chain slot 1.
  genSetLabel taken
  self.genChainedExit (self.base.pcNext + a.imm) 1 TB_EXIT_IDX1
  return (true, .noReturn)

def transJal (a : ArgsJ) : Gen (Bool × DisasJumpType) := do
  let c ← newConst .i64 self.link
  self.genSetGpr a.rd c
  self.genChainedExit (self.base.pcNext + a.imm) 0 TB_EXIT_IDX0
  return (true, .noReturn)

def transJalr (a : ArgsI) : Gen (Bool × DisasJumpType) := do
  let src ← self.gprOrZero a.rs1
  let imm ← newConst .i64 a.imm
  let tmp ← newTemp .i64
  let _ ← genAdd .i64 tmp src imm
  -- Clear bit 0
  let mask ← newConst .i64 (~~~1)
  let _ ← genAnd .i64 tmp tmp mask
  let c ← newConst .i64 self.link
  self.genSetGpr a.rd c
  let _ ← genMov .i64 self.pc tmp
  genExitTb TB_EXIT_NOCHAIN
  return (true, .noReturn)

def transBeq (a : ArgsB) : Gen (Bool × DisasJumpType) := self.genBranch a .eq
def transBne (a : ArgsB) : Gen (Bool × DisasJumpType) := self.genBranch a .ne
def transBlt (a : ArgsB) : Gen (Bool × DisasJumpType) := self.genBranch a .lt
def transBge (a : ArgsB) : Gen (Bool × DisasJumpType) := self.genBranch a .ge
def transBltu (a : ArgsB) : Gen (Bool × DisasJumpType) := self.genBranch a .ltu
def transBgeu (a : ArgsB) : Gen (Bool × DisasJumpType) := self.genBranch a .geu

/-- Leave the block with the address of the instruction in the program counter. -/
def genTrap (exit : Nat) : Gen (Bool × DisasJumpType) := do
  let pc ← newConst .i64 self.base.pcNext
  let _ ← genMov .i64 self.pc pc
  genExitTb exit
  return (true, .noReturn)

def transEcall : Gen (Bool × DisasJumpType) := self.genTrap EXCP_ECALL
def transEbreak : Gen (Bool × DisasJumpType) := self.genTrap EXCP_EBREAK

/-! ## The other translation functions -/

def transLui (a : ArgsU) : Gen Bool := do
  let c ← newConst .i64 a.imm
  self.genSetGpr a.rd c
  return true

def transAuipc (a : ArgsU) : Gen Bool := do
  let c ← newConst .i64 (self.base.pcNext + a.imm)
  self.genSetGpr a.rd c
  return true

def transLb (a : ArgsI) : Gen Bool := self.genLoad a .sb
def transLh (a : ArgsI) : Gen Bool := self.genLoad a .sw
def transLw (a : ArgsI) : Gen Bool := self.genLoad a .sl
def transLbu (a : ArgsI) : Gen Bool := self.genLoad a .ub
def transLhu (a : ArgsI) : Gen Bool := self.genLoad a .uw
def transLwu (a : ArgsI) : Gen Bool := self.genLoad a .ul
def transLd (a : ArgsI) : Gen Bool := self.genLoad a .uq
def transSb (a : ArgsS) : Gen Bool := self.genStore a .ub
def transSh (a : ArgsS) : Gen Bool := self.genStore a .uw
def transSw (a : ArgsS) : Gen Bool := self.genStore a .ul
def transSd (a : ArgsS) : Gen Bool := self.genStore a .uq

def transAddi (a : ArgsI) : Gen Bool := self.genArithImm a genAdd
def transSlti (a : ArgsI) : Gen Bool := self.genSetcondImm a .lt
def transSltiu (a : ArgsI) : Gen Bool := self.genSetcondImm a .ltu
def transXori (a : ArgsI) : Gen Bool := self.genArithImm a genXor
def transOri (a : ArgsI) : Gen Bool := self.genArithImm a genOr
def transAndi (a : ArgsI) : Gen Bool := self.genArithImm a genAnd
def transSlli (a : ArgsShift) : Gen Bool := self.genShiftImm a genShl
def transSrli (a : ArgsShift) : Gen Bool := self.genShiftImm a genShr
def transSrai (a : ArgsShift) : Gen Bool := self.genShiftImm a genSar

def transAdd (a : ArgsR) : Gen Bool := self.genArith a genAdd
def transSub (a : ArgsR) : Gen Bool := self.genArith a genSub
def transSll (a : ArgsR) : Gen Bool := self.genArith a genShl
def transSlt (a : ArgsR) : Gen Bool := self.genSetcondRr a .lt
def transSltu (a : ArgsR) : Gen Bool := self.genSetcondRr a .ltu
def transXor (a : ArgsR) : Gen Bool := self.genArith a genXor
def transSrl (a : ArgsR) : Gen Bool := self.genArith a genShr
def transSra (a : ArgsR) : Gen Bool := self.genArith a genSar
def transOr (a : ArgsR) : Gen Bool := self.genArith a genOr
def transAnd (a : ArgsR) : Gen Bool := self.genArith a genAnd

/-- NOP for user-mode. -/
def transFence : Gen Bool := return true

def transAddiw (a : ArgsI) : Gen Bool := self.genArithImmW a genAdd
def transSlliw (a : ArgsShift) : Gen Bool := self.genShiftImmW a genShl
def transSrliw (a : ArgsShift) : Gen Bool := self.genShiftImmW a genShr
def transSraiw (a : ArgsShift) : Gen Bool := self.genShiftImmW a genSar
def transAddw (a : ArgsR) : Gen Bool := self.genArithW a genAdd
def transSubw (a : ArgsR) : Gen Bool := self.genArithW a genSub
def transSllw (a : ArgsR) : Gen Bool := self.genShiftw a genShl
def transSrlw (a : ArgsR) : Gen Bool := self.genShiftw a genShr
def transSraw (a : ArgsR) : Gen Bool := self.genShiftw a genSar

def transMul (a : ArgsR) : Gen Bool := self.requireExt .M (self.genArith a genMul)
def transMulw (a : ArgsR) : Gen Bool := self.requireExt .M (self.genArithW a genMul)

end RiscvDisasContext

end TcgRs.Model.Riscv
