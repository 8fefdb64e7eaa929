import TcgRs.Interface.RiscvExec
import TcgRs.Model.Riscv.Csr

/-!
# The CPU state

The fields of the CPU state that code reaches from the env pointer beside the globals, and what the
specification says an access to `fcsr` or to a part of it does.
-/

set_option autoImplicit false

namespace TcgRs.Interface.RiscvExec

open Model.Ir Model.Riscv Ir

/-! ## Fields -/

/-- The floating-point registers and the control and status registers. -/
inductive CpuField where
  | fpr (i : Fin 32)
  | fflags | frm | ustatus | uie | utvec | uscratch | uepc | ucause | utval | uip
  deriving DecidableEq, Repr

def CpuField.offset : CpuField → Int
  | .fpr i => fprOffset i
  | .fflags => FFLAGS_OFFSET
  | .frm => FRM_OFFSET
  | .ustatus => USTATUS_OFFSET
  | .uie => UIE_OFFSET
  | .utvec => UTVEC_OFFSET
  | .uscratch => USCRATCH_OFFSET
  | .uepc => UEPC_OFFSET
  | .ucause => UCAUSE_OFFSET
  | .utval => UTVAL_OFFSET
  | .uip => UIP_OFFSET

/-- The address of a field. -/
def CpuField.addr (base : BitVec 64) (field : CpuField) : BitVec 64 :=
  fieldAddr base (BitVec.ofInt 32 field.offset).toNat

/-- The state of a CPU: the hart and the fields. -/
@[ext]
structure Cpu where
  hart : Hart
  field : CpuField → BitVec 64

def Cpu.setReg (c : Cpu) (rd : Fin 32) (v : BitVec 64) : Cpu := { c with hart := c.hart.setReg rd v }

def Cpu.setField (c : Cpu) (field : CpuField) (v : BitVec 64) : Cpu :=
  { c with field := Function.update c.field field v }

/-- The CPU that the globals of the IR and the memory of the host hold. -/
def cpuOf (self : RiscvDisasContext) (C : Context) (s : State Guest) : Cpu where
  hart := hartOf self C s
  field field := s.world.host (field.addr (valueOf C s.temps self.env))

/-! ## The floating-point control and status register -/

/-- `fcsr` and its parts. -/
inductive FpCsr where
  | fflags | frm | fcsr
  deriving DecidableEq, Repr

def FpCsr.number : FpCsr → Int
  | .fflags => CSR_FFLAGS
  | .frm => CSR_FRM
  | .fcsr => CSR_FCSR

/-- What a read of a view returns. -/
def FpCsr.view (byte : BitVec 8) : FpCsr → BitVec 64
  | .fflags => (byte.extractLsb' 0 5).setWidth 64
  | .frm => (byte.extractLsb' 5 3).setWidth 64
  | .fcsr => byte.setWidth 64

/-- The byte after a write to a view. -/
def FpCsr.put (byte : BitVec 8) (v : BitVec 64) : FpCsr → BitVec 8
  | .fflags => byte.extractLsb' 5 3 ++ v.setWidth 5
  | .frm => v.setWidth 3 ++ byte.extractLsb' 0 5
  | .fcsr => v.setWidth 8

/-- What a CSR instruction does with the old value and the operand. -/
inductive CsrAccess where
  | write | set | clear
  deriving DecidableEq, Repr

def CsrAccess.value (old operand : BitVec 64) : CsrAccess → BitVec 64
  | .write => operand
  | .set => old ||| operand
  | .clear => old &&& ~~~operand

/-- A CSR instruction on a view: the operand is a register or the number of one. -/
structure FpCsrInsn where
  view : FpCsr
  access : CsrAccess
  immediate : Bool
  rs1 : Fin 32
  rd : Fin 32

namespace FpCsrInsn

variable (insn : FpCsrInsn)

def args : ArgsCsr := ⟨insn.view.number, insn.rs1, insn.rd⟩

/-- Its translation. -/
def trans (self : RiscvDisasContext) : Gen Bool :=
  match insn.access, insn.immediate with
  | .write, false => self.transCsrrw insn.args
  | .set, false => self.transCsrrs insn.args
  | .clear, false => self.transCsrrc insn.args
  | .write, true => self.transCsrrwi insn.args
  | .set, true => self.transCsrrsi insn.args
  | .clear, true => self.transCsrrci insn.args

/-- Setting or clearing with x0 or with the immediate 0 writes nothing. -/
def writes : Bool := insn.access = .write ∨ insn.rs1 ≠ 0

def operand (x : Fin 32 → BitVec 64) : BitVec 64 :=
  if insn.immediate then BitVec.ofNat 64 insn.rs1.val else x insn.rs1

/-- What the specification says the instruction does to the registers and to `fcsr`. -/
def spec (h : Hart) (byte : BitVec 8) : Hart × BitVec 8 :=
  let old := insn.view.view byte
  (h.setReg insn.rd old,
    if insn.writes then insn.view.put byte (insn.access.value old (insn.operand h.x)) else byte)

end FpCsrInsn

end TcgRs.Interface.RiscvExec
