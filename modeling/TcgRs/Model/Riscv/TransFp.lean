import TcgRs.Model.Riscv.Csr
import TcgRs.Model.Riscv.FpuHelpers
import TcgRs.Model.Riscv.Trans
import TcgRs.Model.Riscv.Translator

/-!
# Translation of the F and D extensions

The floating-point part of `frontend/src/riscv/trans.rs`.  All instructions check FS first; those that
write a floating-point register set it Dirty.  Most of them then call a helper.
-/

set_option autoImplicit false
set_option linter.constructorNameAsVariable false

namespace TcgRs.Model.Riscv

open Ir

structure ArgsI where
  imm : BitVec 64
  rs1 : Fin 32
  rd : Fin 32

structure ArgsS where
  imm : BitVec 64
  rs1 : Fin 32
  rs2 : Fin 32

structure ArgsR2 where
  rd : Fin 32
  rs1 : Fin 32

structure ArgsR2Rm where
  rd : Fin 32
  rs1 : Fin 32
  rm : BitVec 64

structure ArgsRRm where
  rd : Fin 32
  rs1 : Fin 32
  rs2 : Fin 32
  rm : BitVec 64

structure ArgsR4Rm where
  rd : Fin 32
  rs1 : Fin 32
  rs2 : Fin 32
  rs3 : Fin 32
  rm : BitVec 64

/-- An argument of a helper: a register of either kind or a rounding mode. -/
inductive FpOperand where
  | fpr (idx : Fin 32)
  | gpr (idx : Fin 32)
  | rm (mode : BitVec 64)

/-- The register that an instruction writes. -/
inductive FpDest where
  | fpr (idx : Fin 32)
  | gpr (idx : Fin 32)

def FpDest.isFpr : FpDest → Bool
  | .fpr _ => true
  | .gpr _ => false

namespace RiscvDisasContext

variable (self : RiscvDisasContext)

/-! ## Registers and state -/

def fprLoad (idx : Fin 32) : Gen Nat := do
  let t ← newTemp .i64
  genLd .i64 t self.env (fprOffset idx)

def fprStore (idx : Fin 32) (val : Nat) : Gen Unit := genSt .i64 val self.env (fprOffset idx)

/-- Leave the block with `EXCP_UNDEF` if FS is Off. -/
def genFpCheck : Gen Unit := do
  let status ← newTemp .i64
  let _ ← genLd .i64 status self.env USTATUS_OFFSET
  let mask ← newConst .i64 USTATUS_FS_MASK
  let fs ← newTemp .i64
  let _ ← genAnd .i64 fs status mask
  let zero ← newConst .i64 0
  let ok ← newLabel
  genBrCond .i64 fs zero .ne ok
  let pc ← newConst .i64 self.base.pcNext
  let _ ← genMov .i64 self.pc pc
  genExitTb EXCP_UNDEF
  genSetLabel ok

def genHelperCall (helper : BitVec 64) (args : List Nat) : Gen Nat := do
  let dst ← newTemp .i64
  genCall dst helper args

/-- The address of a load or store. -/
def genAddr (rs1 : Fin 32) (imm : BitVec 64) : Gen Nat := do
  let base ← self.gprOrZero rs1
  if imm ≠ 0 then
    let c ← newConst .i64 imm
    let t ← newTemp .i64
    genAdd .i64 t base c
  else
    return base

/-- What all instructions have in common. -/
def genFpInsn (ext : MisaExt) (dirty : Bool) (body : Gen Unit) : Gen Bool := self.requireExt ext do
  self.genFpCheck
  if dirty then self.genSetFsDirty
  body
  return true

/-! ## Loads and stores -/

/-- Box a single-precision value: the upper half is all ones. -/
def genBox (val : Nat) : Gen Nat := do
  let mask ← newConst .i64 0xffffffff00000000
  let boxed ← newTemp .i64
  genOr .i64 boxed val mask

def genFpLoad (ext : MisaExt) (a : ArgsI) (memop : MemOp) (isSingle : Bool) : Gen Bool :=
  self.genFpInsn ext true do
    let addr ← self.genAddr a.rs1 a.imm
    let val ← newTemp .i64
    let _ ← genQemuLd .i64 val addr memop
    if isSingle then
      let boxed ← genBox val
      self.fprStore a.rd boxed
    else
      self.fprStore a.rd val

def genFpStore (ext : MisaExt) (a : ArgsS) (memop : MemOp) (isSingle : Bool) : Gen Bool :=
  self.genFpInsn ext false do
    let addr ← self.genAddr a.rs1 a.imm
    let val ← self.fprLoad a.rs2
    if isSingle then
      let lo32 ← newTemp .i32
      let _ ← genExtrlI64I32 lo32 val
      let lo64 ← newTemp .i64
      let _ ← genExtI32I64 lo64 lo32
      genQemuSt .i64 lo64 addr memop
    else
      genQemuSt .i64 val addr memop

def transFlw (a : ArgsI) : Gen Bool := self.genFpLoad .F a .ul true
def transFsw (a : ArgsS) : Gen Bool := self.genFpStore .F a .ul true
def transFld (a : ArgsI) : Gen Bool := self.genFpLoad .D a .uq false
def transFsd (a : ArgsS) : Gen Bool := self.genFpStore .D a .uq false

/-! ## Moves -/

def transFmvXW (a : ArgsR2) : Gen Bool := self.genFpInsn .F false do
  let val ← self.fprLoad a.rs1
  let lo32 ← newTemp .i32
  let _ ← genExtrlI64I32 lo32 val
  self.genSetGprSx32 a.rd lo32

def transFmvWX (a : ArgsR2) : Gen Bool := self.genFpInsn .F true do
  let src ← self.gprOrZero a.rs1
  let lo32 ← newTemp .i32
  let _ ← genExtrlI64I32 lo32 src
  let lo64 ← newTemp .i64
  let _ ← genExtUI32I64 lo64 lo32
  let boxed ← genBox lo64
  self.fprStore a.rd boxed

def transFmvXD (a : ArgsR2) : Gen Bool := self.genFpInsn .D false do
  let val ← self.fprLoad a.rs1
  self.genSetGpr a.rd val

def transFmvDX (a : ArgsR2) : Gen Bool := self.genFpInsn .D true do
  let src ← self.gprOrZero a.rs1
  self.fprStore a.rd src

/-! ## Calls of helpers -/

def fpOperand : FpOperand → Gen Nat
  | .fpr idx => self.fprLoad idx
  | .gpr idx => self.gprOrZero idx
  | .rm mode => newConst .i64 mode

def fpOperands : List FpOperand → Gen (List Nat)
  | [] => return []
  | o :: os => do
    let t ← self.fpOperand o
    let ts ← fpOperands os
    return t :: ts

def fpDest (val : Nat) : FpDest → Gen Unit
  | .fpr idx => self.fprStore idx val
  | .gpr idx => self.genSetGpr idx val

variable (T : HelperTable)

/-- Read the operands, call the helper, write the result; only a write to a floating-point register
sets FS. -/
def genFpOp (ext : MisaExt) (helper : FpHelper) (operands : List FpOperand) (dest : FpDest) :
    Gen Bool :=
  self.genFpInsn ext dest.isFpr do
    let args ← self.fpOperands operands
    let res ← genHelperCall (T.addr helper) (self.env :: args)
    self.fpDest res dest

/-- Three operands and a rounding mode. -/
def genFma (ext : MisaExt) (helper : FpHelper) (a : ArgsR4Rm) : Gen Bool :=
  self.genFpOp T ext helper [.fpr a.rs1, .fpr a.rs2, .fpr a.rs3, .rm a.rm] (.fpr a.rd)

def transFmaddS (a : ArgsR4Rm) : Gen Bool := self.genFma T .F .fmaddS a
def transFmsubS (a : ArgsR4Rm) : Gen Bool := self.genFma T .F .fmsubS a
def transFnmsubS (a : ArgsR4Rm) : Gen Bool := self.genFma T .F .fnmsubS a
def transFnmaddS (a : ArgsR4Rm) : Gen Bool := self.genFma T .F .fnmaddS a
def transFmaddD (a : ArgsR4Rm) : Gen Bool := self.genFma T .D .fmaddD a
def transFmsubD (a : ArgsR4Rm) : Gen Bool := self.genFma T .D .fmsubD a
def transFnmsubD (a : ArgsR4Rm) : Gen Bool := self.genFma T .D .fnmsubD a
def transFnmaddD (a : ArgsR4Rm) : Gen Bool := self.genFma T .D .fnmaddD a

/-- Two operands and a rounding mode. -/
def genFpArith (ext : MisaExt) (helper : FpHelper) (a : ArgsRRm) : Gen Bool :=
  self.genFpOp T ext helper [.fpr a.rs1, .fpr a.rs2, .rm a.rm] (.fpr a.rd)

def transFaddS (a : ArgsRRm) : Gen Bool := self.genFpArith T .F .faddS a
def transFsubS (a : ArgsRRm) : Gen Bool := self.genFpArith T .F .fsubS a
def transFmulS (a : ArgsRRm) : Gen Bool := self.genFpArith T .F .fmulS a
def transFdivS (a : ArgsRRm) : Gen Bool := self.genFpArith T .F .fdivS a
def transFaddD (a : ArgsRRm) : Gen Bool := self.genFpArith T .D .faddD a
def transFsubD (a : ArgsRRm) : Gen Bool := self.genFpArith T .D .fsubD a
def transFmulD (a : ArgsRRm) : Gen Bool := self.genFpArith T .D .fmulD a
def transFdivD (a : ArgsRRm) : Gen Bool := self.genFpArith T .D .fdivD a

/-- One operand and a rounding mode. -/
def genFpUnary (ext : MisaExt) (helper : FpHelper) (a : ArgsR2Rm) : Gen Bool :=
  self.genFpOp T ext helper [.fpr a.rs1, .rm a.rm] (.fpr a.rd)

def transFsqrtS (a : ArgsR2Rm) : Gen Bool := self.genFpUnary T .F .fsqrtS a
def transFsqrtD (a : ArgsR2Rm) : Gen Bool := self.genFpUnary T .D .fsqrtD a
def transFcvtSD (a : ArgsR2Rm) : Gen Bool := self.genFpUnary T .D .fcvtSD a
def transFcvtDS (a : ArgsR2Rm) : Gen Bool := self.genFpUnary T .D .fcvtDS a

/-- Two operands. -/
def genFpBinary (ext : MisaExt) (helper : FpHelper) (a : ArgsR) : Gen Bool :=
  self.genFpOp T ext helper [.fpr a.rs1, .fpr a.rs2] (.fpr a.rd)

def transFsgnjS (a : ArgsR) : Gen Bool := self.genFpBinary T .F .fsgnjS a
def transFsgnjnS (a : ArgsR) : Gen Bool := self.genFpBinary T .F .fsgnjnS a
def transFsgnjxS (a : ArgsR) : Gen Bool := self.genFpBinary T .F .fsgnjxS a
def transFminS (a : ArgsR) : Gen Bool := self.genFpBinary T .F .fminS a
def transFmaxS (a : ArgsR) : Gen Bool := self.genFpBinary T .F .fmaxS a
def transFsgnjD (a : ArgsR) : Gen Bool := self.genFpBinary T .D .fsgnjD a
def transFsgnjnD (a : ArgsR) : Gen Bool := self.genFpBinary T .D .fsgnjnD a
def transFsgnjxD (a : ArgsR) : Gen Bool := self.genFpBinary T .D .fsgnjxD a
def transFminD (a : ArgsR) : Gen Bool := self.genFpBinary T .D .fminD a
def transFmaxD (a : ArgsR) : Gen Bool := self.genFpBinary T .D .fmaxD a

/-- A comparison, with the result in an integer register. -/
def genFpCompare (ext : MisaExt) (helper : FpHelper) (a : ArgsR) : Gen Bool :=
  self.genFpOp T ext helper [.fpr a.rs1, .fpr a.rs2] (.gpr a.rd)

def transFeqS (a : ArgsR) : Gen Bool := self.genFpCompare T .F .feqS a
def transFltS (a : ArgsR) : Gen Bool := self.genFpCompare T .F .fltS a
def transFleS (a : ArgsR) : Gen Bool := self.genFpCompare T .F .fleS a
def transFeqD (a : ArgsR) : Gen Bool := self.genFpCompare T .D .feqD a
def transFltD (a : ArgsR) : Gen Bool := self.genFpCompare T .D .fltD a
def transFleD (a : ArgsR) : Gen Bool := self.genFpCompare T .D .fleD a

def transFclassS (a : ArgsR2) : Gen Bool :=
  self.genFpOp T .F .fclassS [.fpr a.rs1] (.gpr a.rd)

def transFclassD (a : ArgsR2) : Gen Bool :=
  self.genFpOp T .D .fclassD [.fpr a.rs1] (.gpr a.rd)

/-- A conversion to an integer. -/
def genFpToInt (ext : MisaExt) (helper : FpHelper) (a : ArgsR2Rm) : Gen Bool :=
  self.genFpOp T ext helper [.fpr a.rs1, .rm a.rm] (.gpr a.rd)

def transFcvtWS (a : ArgsR2Rm) : Gen Bool := self.genFpToInt T .F .fcvtWS a
def transFcvtWuS (a : ArgsR2Rm) : Gen Bool := self.genFpToInt T .F .fcvtWuS a
def transFcvtLS (a : ArgsR2Rm) : Gen Bool := self.genFpToInt T .F .fcvtLS a
def transFcvtLuS (a : ArgsR2Rm) : Gen Bool := self.genFpToInt T .F .fcvtLuS a
def transFcvtWD (a : ArgsR2Rm) : Gen Bool := self.genFpToInt T .D .fcvtWD a
def transFcvtWuD (a : ArgsR2Rm) : Gen Bool := self.genFpToInt T .D .fcvtWuD a
def transFcvtLD (a : ArgsR2Rm) : Gen Bool := self.genFpToInt T .D .fcvtLD a
def transFcvtLuD (a : ArgsR2Rm) : Gen Bool := self.genFpToInt T .D .fcvtLuD a

/-- A conversion of an integer. -/
def genIntToFp (ext : MisaExt) (helper : FpHelper) (a : ArgsR2Rm) : Gen Bool :=
  self.genFpOp T ext helper [.gpr a.rs1, .rm a.rm] (.fpr a.rd)

def transFcvtSW (a : ArgsR2Rm) : Gen Bool := self.genIntToFp T .F .fcvtSW a
def transFcvtSWu (a : ArgsR2Rm) : Gen Bool := self.genIntToFp T .F .fcvtSWu a
def transFcvtSL (a : ArgsR2Rm) : Gen Bool := self.genIntToFp T .F .fcvtSL a
def transFcvtSLu (a : ArgsR2Rm) : Gen Bool := self.genIntToFp T .F .fcvtSLu a
def transFcvtDW (a : ArgsR2Rm) : Gen Bool := self.genIntToFp T .D .fcvtDW a
def transFcvtDWu (a : ArgsR2Rm) : Gen Bool := self.genIntToFp T .D .fcvtDWu a
def transFcvtDL (a : ArgsR2Rm) : Gen Bool := self.genIntToFp T .D .fcvtDL a
def transFcvtDLu (a : ArgsR2Rm) : Gen Bool := self.genIntToFp T .D .fcvtDLu a

end RiscvDisasContext

/-! ## Instructions -/

/-- The instructions of the F and D extensions, with their operands. -/
inductive FpInsn where
  | flw (a : ArgsI) | fld (a : ArgsI)
  | fsw (a : ArgsS) | fsd (a : ArgsS)
  | fmvXW (a : ArgsR2) | fmvWX (a : ArgsR2) | fmvXD (a : ArgsR2) | fmvDX (a : ArgsR2)
  | fclassS (a : ArgsR2) | fclassD (a : ArgsR2)
  | fmaddS (a : ArgsR4Rm) | fmsubS (a : ArgsR4Rm) | fnmsubS (a : ArgsR4Rm)
  | fnmaddS (a : ArgsR4Rm) | fmaddD (a : ArgsR4Rm) | fmsubD (a : ArgsR4Rm)
  | fnmsubD (a : ArgsR4Rm) | fnmaddD (a : ArgsR4Rm)
  | faddS (a : ArgsRRm) | fsubS (a : ArgsRRm) | fmulS (a : ArgsRRm) | fdivS (a : ArgsRRm)
  | faddD (a : ArgsRRm) | fsubD (a : ArgsRRm) | fmulD (a : ArgsRRm) | fdivD (a : ArgsRRm)
  | fsgnjS (a : ArgsR) | fsgnjnS (a : ArgsR) | fsgnjxS (a : ArgsR) | fminS (a : ArgsR)
  | fmaxS (a : ArgsR) | feqS (a : ArgsR) | fltS (a : ArgsR) | fleS (a : ArgsR)
  | fsgnjD (a : ArgsR) | fsgnjnD (a : ArgsR) | fsgnjxD (a : ArgsR) | fminD (a : ArgsR)
  | fmaxD (a : ArgsR) | feqD (a : ArgsR) | fltD (a : ArgsR) | fleD (a : ArgsR)
  | fsqrtS (a : ArgsR2Rm) | fcvtWS (a : ArgsR2Rm) | fcvtWuS (a : ArgsR2Rm) | fcvtLS (a : ArgsR2Rm)
  | fcvtLuS (a : ArgsR2Rm) | fcvtSW (a : ArgsR2Rm) | fcvtSWu (a : ArgsR2Rm)
  | fcvtSL (a : ArgsR2Rm) | fcvtSLu (a : ArgsR2Rm) | fsqrtD (a : ArgsR2Rm) | fcvtSD (a : ArgsR2Rm)
  | fcvtDS (a : ArgsR2Rm) | fcvtWD (a : ArgsR2Rm) | fcvtWuD (a : ArgsR2Rm) | fcvtLD (a : ArgsR2Rm)
  | fcvtLuD (a : ArgsR2Rm) | fcvtDW (a : ArgsR2Rm) | fcvtDWu (a : ArgsR2Rm)
  | fcvtDL (a : ArgsR2Rm) | fcvtDLu (a : ArgsR2Rm)

/-- The translation of an instruction. -/
def FpInsn.trans (self : RiscvDisasContext) (T : HelperTable) : FpInsn → Gen Bool
  | .flw a => self.transFlw a
  | .fld a => self.transFld a
  | .fsw a => self.transFsw a
  | .fsd a => self.transFsd a
  | .fmvXW a => self.transFmvXW a
  | .fmvWX a => self.transFmvWX a
  | .fmvXD a => self.transFmvXD a
  | .fmvDX a => self.transFmvDX a
  | .fclassS a => self.transFclassS T a
  | .fclassD a => self.transFclassD T a
  | .fmaddS a => self.transFmaddS T a
  | .fmsubS a => self.transFmsubS T a
  | .fnmsubS a => self.transFnmsubS T a
  | .fnmaddS a => self.transFnmaddS T a
  | .fmaddD a => self.transFmaddD T a
  | .fmsubD a => self.transFmsubD T a
  | .fnmsubD a => self.transFnmsubD T a
  | .fnmaddD a => self.transFnmaddD T a
  | .faddS a => self.transFaddS T a
  | .fsubS a => self.transFsubS T a
  | .fmulS a => self.transFmulS T a
  | .fdivS a => self.transFdivS T a
  | .faddD a => self.transFaddD T a
  | .fsubD a => self.transFsubD T a
  | .fmulD a => self.transFmulD T a
  | .fdivD a => self.transFdivD T a
  | .fsgnjS a => self.transFsgnjS T a
  | .fsgnjnS a => self.transFsgnjnS T a
  | .fsgnjxS a => self.transFsgnjxS T a
  | .fminS a => self.transFminS T a
  | .fmaxS a => self.transFmaxS T a
  | .feqS a => self.transFeqS T a
  | .fltS a => self.transFltS T a
  | .fleS a => self.transFleS T a
  | .fsgnjD a => self.transFsgnjD T a
  | .fsgnjnD a => self.transFsgnjnD T a
  | .fsgnjxD a => self.transFsgnjxD T a
  | .fminD a => self.transFminD T a
  | .fmaxD a => self.transFmaxD T a
  | .feqD a => self.transFeqD T a
  | .fltD a => self.transFltD T a
  | .fleD a => self.transFleD T a
  | .fsqrtS a => self.transFsqrtS T a
  | .fcvtWS a => self.transFcvtWS T a
  | .fcvtWuS a => self.transFcvtWuS T a
  | .fcvtLS a => self.transFcvtLS T a
  | .fcvtLuS a => self.transFcvtLuS T a
  | .fcvtSW a => self.transFcvtSW T a
  | .fcvtSWu a => self.transFcvtSWu T a
  | .fcvtSL a => self.transFcvtSL T a
  | .fcvtSLu a => self.transFcvtSLu T a
  | .fsqrtD a => self.transFsqrtD T a
  | .fcvtSD a => self.transFcvtSD T a
  | .fcvtDS a => self.transFcvtDS T a
  | .fcvtWD a => self.transFcvtWD T a
  | .fcvtWuD a => self.transFcvtWuD T a
  | .fcvtLD a => self.transFcvtLD T a
  | .fcvtLuD a => self.transFcvtLuD T a
  | .fcvtDW a => self.transFcvtDW T a
  | .fcvtDWu a => self.transFcvtDWu T a
  | .fcvtDL a => self.transFcvtDL T a
  | .fcvtDLu a => self.transFcvtDLu T a

end TcgRs.Model.Riscv
