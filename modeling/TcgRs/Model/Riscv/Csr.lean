import TcgRs.Model.Riscv.Context
import TcgRs.Model.Riscv.Fpu

/-!
# Control and status registers

The CSR helpers and the Zicsr translation functions of `frontend/src/riscv/trans.rs`.
-/

set_option autoImplicit false

namespace TcgRs.Model.Riscv

open Ir

structure ArgsCsr where
  csr : Int
  rs1 : Fin 32
  rd : Fin 32

def CSR_USTATUS : Int := 0x000
def CSR_FFLAGS : Int := 0x001
def CSR_FRM : Int := 0x002
def CSR_FCSR : Int := 0x003
def CSR_UIE : Int := 0x004
def CSR_UTVEC : Int := 0x005
def CSR_USCRATCH : Int := 0x040
def CSR_UEPC : Int := 0x041
def CSR_UCAUSE : Int := 0x042
def CSR_UTVAL : Int := 0x043
def CSR_UIP : Int := 0x044
def CSR_CYCLE : Int := 0xC00
def CSR_TIME : Int := 0xC01
def CSR_INSTRET : Int := 0xC02

/-- The field of a CSR that is a whole word of the CPU state. -/
def csrWordOffset (csr : Int) : Option Int :=
  if csr = CSR_USTATUS then some USTATUS_OFFSET
  else if csr = CSR_UIE then some UIE_OFFSET
  else if csr = CSR_UTVEC then some UTVEC_OFFSET
  else if csr = CSR_USCRATCH then some USCRATCH_OFFSET
  else if csr = CSR_UEPC then some UEPC_OFFSET
  else if csr = CSR_UCAUSE then some UCAUSE_OFFSET
  else if csr = CSR_UTVAL then some UTVAL_OFFSET
  else if csr = CSR_UIP then some UIP_OFFSET
  else none

namespace RiscvDisasContext

variable (self : RiscvDisasContext)

def genSetFsDirty : Gen Unit := do
  let status ← newTemp .i64
  let _ ← genLd .i64 status self.env USTATUS_OFFSET
  let clear ← newConst .i64 (~~~USTATUS_FS_MASK)
  let cleared ← newTemp .i64
  let _ ← genAnd .i64 cleared status clear
  let dirty ← newConst .i64 USTATUS_FS_DIRTY
  let newStatus ← newTemp .i64
  let _ ← genOr .i64 newStatus cleared dirty
  genSt .i64 newStatus self.env USTATUS_OFFSET

/-! ## Reads and writes -/

/-- Read the bits of a field that are in a mask. -/
def genReadMasked (offset : Int) (bits : BitVec 64) : Gen Nat := do
  let v ← newTemp .i64
  let _ ← genLd .i64 v self.env offset
  let mask ← newConst .i64 bits
  let out ← newTemp .i64
  let _ ← genAnd .i64 out v mask
  return out

/-- `fcsr` has the rounding mode above the flags. -/
def genReadFcsr : Gen Nat := do
  let fflags ← newTemp .i64
  let _ ← genLd .i64 fflags self.env FFLAGS_OFFSET
  let fmask ← newConst .i64 FFLAGS_MASK
  let _ ← genAnd .i64 fflags fflags fmask
  let frm ← newTemp .i64
  let _ ← genLd .i64 frm self.env FRM_OFFSET
  let rmask ← newConst .i64 FRM_MASK
  let _ ← genAnd .i64 frm frm rmask
  let shift ← newConst .i64 5
  let frmShift ← newTemp .i64
  let _ ← genShl .i64 frmShift frm shift
  let out ← newTemp .i64
  let _ ← genOr .i64 out fflags frmShift
  return out

/-- Read a CSR; the counters read as zero, and `none` is an unknown one. -/
def genCsrRead (csr : Int) : Gen (Option Nat) := do
  if csr = CSR_FFLAGS then
    return some (← self.genReadMasked FFLAGS_OFFSET FFLAGS_MASK)
  else if csr = CSR_FRM then
    return some (← self.genReadMasked FRM_OFFSET FRM_MASK)
  else if csr = CSR_FCSR then
    return some (← self.genReadFcsr)
  else
    match csrWordOffset csr with
    | some offset =>
      let v ← newTemp .i64
      let _ ← genLd .i64 v self.env offset
      return some v
    | none =>
      if csr = CSR_CYCLE ∨ csr = CSR_TIME ∨ csr = CSR_INSTRET then
        return some (← newConst .i64 0)
      else
        return none

/-- Write the bits of a value that are in a mask. -/
def genWriteMasked (offset : Int) (bits : BitVec 64) (val : Nat) : Gen Unit := do
  let mask ← newConst .i64 bits
  let v ← newTemp .i64
  let _ ← genAnd .i64 v val mask
  genSt .i64 v self.env offset
  self.genSetFsDirty

def genWriteFcsr (val : Nat) : Gen Unit := do
  let fmask ← newConst .i64 FFLAGS_MASK
  let fflags ← newTemp .i64
  let _ ← genAnd .i64 fflags val fmask
  genSt .i64 fflags self.env FFLAGS_OFFSET
  let shift ← newConst .i64 5
  let frm ← newTemp .i64
  let _ ← genShr .i64 frm val shift
  let rmask ← newConst .i64 FRM_MASK
  let _ ← genAnd .i64 frm frm rmask
  genSt .i64 frm self.env FRM_OFFSET
  self.genSetFsDirty

/-- Write a CSR; false for an unknown or read-only one. -/
def genCsrWrite (csr : Int) (val : Nat) : Gen Bool := do
  if csr = CSR_FFLAGS then
    self.genWriteMasked FFLAGS_OFFSET FFLAGS_MASK val
    return true
  else if csr = CSR_FRM then
    self.genWriteMasked FRM_OFFSET FRM_MASK val
    return true
  else if csr = CSR_FCSR then
    self.genWriteFcsr val
    return true
  else
    match csrWordOffset csr with
    | some offset =>
      genSt .i64 val self.env offset
      return true
    | none => return false

/-! ## Translation functions -/

/-- Refuse an instruction whose extension is not configured. -/
def requireCfg (field : Bool) (body : Gen Bool) : Gen Bool := if field then body else return false

/-- Read the CSR, write it if `writes`, with a value made from the old one, and leave the old value
in rd. -/
def genCsrOp (a : ArgsCsr) (writes : Bool) (value : Nat → Gen Nat) : Gen Bool :=
  requireCfg self.cfg.extZicsr do
    let old ← self.genCsrRead a.csr
    match old with
    | none => return false
    | some old =>
      if writes then
        let new ← value old
        let written ← self.genCsrWrite a.csr new
        if written then
          self.genSetGpr a.rd old
          return true
        else
          return false
      else
        self.genSetGpr a.rd old
        return true

/-- Set the bits of an operand. -/
def genCsrSet (operand : Gen Nat) (old : Nat) : Gen Nat := do
  let bits ← operand
  let new ← newTemp .i64
  genOr .i64 new old bits

/-- Clear the bits of an operand. -/
def genCsrClear (operand : Gen Nat) (old : Nat) : Gen Nat := do
  let bits ← operand
  let inv ← newTemp .i64
  let _ ← genNot .i64 inv bits
  let new ← newTemp .i64
  genAnd .i64 new old inv

/-- The field of rs1 as an immediate. -/
def csrZimm (a : ArgsCsr) : Gen Nat := newConst .i64 (BitVec.ofNat 64 a.rs1.val)

def transCsrrw (a : ArgsCsr) : Gen Bool := self.genCsrOp a true fun _ => self.gprOrZero a.rs1

def transCsrrs (a : ArgsCsr) : Gen Bool :=
  self.genCsrOp a (a.rs1 != 0) (genCsrSet (self.gprOrZero a.rs1))

def transCsrrc (a : ArgsCsr) : Gen Bool :=
  self.genCsrOp a (a.rs1 != 0) (genCsrClear (self.gprOrZero a.rs1))

def transCsrrwi (a : ArgsCsr) : Gen Bool := self.genCsrOp a true fun _ => csrZimm a

def transCsrrsi (a : ArgsCsr) : Gen Bool :=
  self.genCsrOp a (a.rs1 != 0) (genCsrSet (csrZimm a))

def transCsrrci (a : ArgsCsr) : Gen Bool :=
  self.genCsrOp a (a.rs1 != 0) (genCsrClear (csrZimm a))

end RiscvDisasContext

end TcgRs.Model.Riscv
