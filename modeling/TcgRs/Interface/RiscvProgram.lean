import TcgRs.Interface.RiscvFpExec
import TcgRs.Interface.RiscvIntExec

/-!
# Guest instructions

What the decoders of `frontend/src/riscv` hand to the translation functions: an instruction with its
operands.  A word that no pattern matches, and the patterns for illegal words, are `illegal`.
-/

set_option autoImplicit false

namespace TcgRs.Interface.RiscvExec

open Model.Ir Model.Riscv Ir RiscvIsa

inductive GuestInsn where
  /-- RV64I, `mul` and `mulw`. -/
  | int (insn : Insn) (o : Operands)
  | mulDiv (insn : Insn) (a : ArgsR)
  | atomic (insn : Insn) (a : ArgsAtomic)
  | csr (access : CsrAccess) (immediate : Bool) (a : ArgsCsr)
  | fp (insn : FpInsn)
  | fence
  | ecall
  | ebreak
  | illegal

/-! ## Atomics -/

/-- The access of an atomic, and what it stores, from the loaded value and rs2.  Words are loaded with
their sign. -/
def amoStores : Insn → Option (MemOp × (BitVec 64 → BitVec 64 → BitVec 64))
  | .amoswapw => some (.sl, fun _ y => y)
  | .amoaddw => some (.sl, fun x y => x + y)
  | .amoxorw => some (.sl, fun x y => x ^^^ y)
  | .amoandw => some (.sl, fun x y => x &&& y)
  | .amoorw => some (.sl, fun x y => x ||| y)
  | .amominw => some (.sl, fun x y => if condHolds .lt x y then x else y)
  | .amomaxw => some (.sl, fun x y => if condHolds .gt x y then x else y)
  | .amominuw => some (.sl, fun x y => if condHolds .ltu x y then x else y)
  | .amomaxuw => some (.sl, fun x y => if condHolds .gtu x y then x else y)
  | .amoswapd => some (.uq, fun _ y => y)
  | .amoaddd => some (.uq, fun x y => x + y)
  | .amoxord => some (.uq, fun x y => x ^^^ y)
  | .amoandd => some (.uq, fun x y => x &&& y)
  | .amoord => some (.uq, fun x y => x ||| y)
  | .amomind => some (.uq, fun x y => if condHolds .lt x y then x else y)
  | .amomaxd => some (.uq, fun x y => if condHolds .gt x y then x else y)
  | .amominud => some (.uq, fun x y => if condHolds .ltu x y then x else y)
  | .amomaxud => some (.uq, fun x y => if condHolds .gtu x y then x else y)
  | _ => none

/-- An atomic that loads, stores and leaves the loaded value in rd. -/
def Hart.swap (h : Hart) (memop : MemOp) (value : BitVec 64 → BitVec 64 → BitVec 64)
    (a : ArgsAtomic) : Hart :=
  let old := loadValue memop h.mem (h.x a.rs1)
  { h with mem := storeValue memop h.mem (h.x a.rs1) (value old (h.x a.rs2)) }.setReg a.rd old

/-! ## Translation -/

section
variable (self : RiscvDisasContext)

/-- The translation of an instruction of the A extension. -/
def transAtomic : Insn → Option (ArgsAtomic → Gen Bool)
  | .lrw => some self.transLrW
  | .scw => some self.transScW
  | .amoswapw => some self.transAmoswapW
  | .amoaddw => some self.transAmoaddW
  | .amoxorw => some self.transAmoxorW
  | .amoandw => some self.transAmoandW
  | .amoorw => some self.transAmoorW
  | .amominw => some self.transAmominW
  | .amomaxw => some self.transAmomaxW
  | .amominuw => some self.transAmominuW
  | .amomaxuw => some self.transAmomaxuW
  | .lrd => some self.transLrD
  | .scd => some self.transScD
  | .amoswapd => some self.transAmoswapD
  | .amoaddd => some self.transAmoaddD
  | .amoxord => some self.transAmoxorD
  | .amoandd => some self.transAmoandD
  | .amoord => some self.transAmoorD
  | .amomind => some self.transAmominD
  | .amomaxd => some self.transAmomaxD
  | .amominud => some self.transAmominuD
  | .amomaxud => some self.transAmomaxuD
  | _ => none

/-- The translation of a CSR instruction. -/
def transCsr : CsrAccess → Bool → ArgsCsr → Gen Bool
  | .write, false => self.transCsrrw
  | .set, false => self.transCsrrs
  | .clear, false => self.transCsrrc
  | .write, true => self.transCsrrwi
  | .set, true => self.transCsrrsi
  | .clear, true => self.transCsrrci

/-- The functions for words that are no instruction. -/
def transIllegal : Gen Bool := return false

/-- The translation of an instruction: whether it is known, and how the block goes on. -/
def GuestInsn.trans (T : HelperTable) : GuestInsn → Gen (Bool × DisasJumpType)
  | .int insn o => (transInt self insn o).getD (straight self transIllegal)
  | .mulDiv insn a =>
    straight self (((transMulDiv self insn).map fun trans => trans a).getD transIllegal)
  | .atomic insn a =>
    straight self (((transAtomic self insn).map fun trans => trans a).getD transIllegal)
  | .csr access immediate a => straight self (transCsr self access immediate a)
  | .fp insn => straight self (insn.trans self T)
  | .fence => straight self RiscvDisasContext.transFence
  | .ecall => self.transEcall
  | .ebreak => self.transEbreak
  | .illegal => straight self transIllegal

end

end TcgRs.Interface.RiscvExec
