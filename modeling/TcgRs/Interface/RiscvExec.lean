import TcgRs.Interface.GuestMachine
import TcgRs.Interface.RiscvIsa
import TcgRs.Model.Riscv.Trans

/-!
# Execution of RISC-V instructions

What the specification says multiplications, divisions and word atomics do to a hart, and the hart
that the globals of the IR stand for.
-/

set_option autoImplicit false

namespace TcgRs.Interface.RiscvExec

open Model.Ir Model.Riscv Ir RiscvIsa

/-! ## Harts -/

/-- The integer registers, the program counter, the reservation and the memory. -/
@[ext]
structure Hart where
  x : Fin 32 → BitVec 64
  pc : BitVec 64
  loadRes : BitVec 64
  loadVal : BitVec 64
  mem : GuestMemory

/-- Write a register; x0 stays zero. -/
def Hart.setReg (h : Hart) (rd : Fin 32) (v : BitVec 64) : Hart :=
  { h with x := if rd = 0 then h.x else Function.update h.x rd v }

/-- The hart that the globals of the IR hold; x0 is zero whatever its global holds. -/
def hartOf (self : RiscvDisasContext) (C : Context) (s : State Guest) : Hart where
  x r := if r = 0 then 0 else valueOf C s.temps (self.gpr r)
  pc := valueOf C s.temps self.pc
  loadRes := valueOf C s.temps self.loadRes
  loadVal := valueOf C s.temps self.loadVal
  mem := s.world.mem

/-! ## Multiplication and division -/

section

variable {n : Nat} (x y : BitVec n)

/-- Signed quotient: -1 for the divisor zero, the dividend on overflow. -/
def divSigned : BitVec n :=
  if y = 0 then -1
  else if x = BitVec.intMin n ∧ y = -1 then x
  else BitVec.ofInt n (x.toInt.tdiv y.toInt)

/-- Signed remainder: the dividend for the divisor zero, 0 on overflow. -/
def remSigned : BitVec n :=
  if y = 0 then x
  else if x = BitVec.intMin n ∧ y = -1 then 0
  else BitVec.ofInt n (x.toInt.tmod y.toInt)

/-- Unsigned quotient: all ones for the divisor zero. -/
def divUnsigned : BitVec n := if y = 0 then -1 else BitVec.ofNat n (x.toNat / y.toNat)

def remUnsigned : BitVec n := if y = 0 then x else BitVec.ofNat n (x.toNat % y.toNat)

end

/-- A 32-bit operation on the low words, sign-extended. -/
def onWords (f : BitVec 32 → BitVec 32 → BitVec 32) (x y : BitVec 64) : BitVec 64 :=
  (f (x.setWidth 32) (y.setWidth 32)).signExtend 64

/-- The result of a multiplication or division from rs1 and rs2. -/
def mulDivValue : Insn → Option (BitVec 64 → BitVec 64 → BitVec 64)
  | .mulh => some fun x y => BitVec.ofInt 64 (x.toInt * y.toInt / 2 ^ 64)
  | .mulhsu => some fun x y => BitVec.ofInt 64 (x.toInt * y.toNat / 2 ^ 64)
  | .mulhu => some fun x y => BitVec.ofNat 64 (x.toNat * y.toNat / 2 ^ 64)
  | .div => some divSigned
  | .divu => some divUnsigned
  | .rem => some remSigned
  | .remu => some remUnsigned
  | .divw => some (onWords divSigned)
  | .divuw => some (onWords divUnsigned)
  | .remw => some (onWords remSigned)
  | .remuw => some (onWords remUnsigned)
  | _ => none

/-- The translation of a multiplication or division. -/
def transMulDiv (self : RiscvDisasContext) : Insn → Option (ArgsR → Gen Bool)
  | .mulh => some self.transMulh
  | .mulhsu => some self.transMulhsu
  | .mulhu => some self.transMulhu
  | .div => some self.transDiv
  | .divu => some self.transDivu
  | .rem => some self.transRem
  | .remu => some self.transRemu
  | .divw => some self.transDivw
  | .divuw => some self.transDivuw
  | .remw => some self.transRemw
  | .remuw => some self.transRemuw
  | _ => none

/-! ## Word atomics -/

/-- The word that an atomic stores, from the old word and the low word of rs2. -/
def amoWord : Insn → Option (BitVec 32 → BitVec 32 → BitVec 32)
  | .amoswapw => some fun _ y => y
  | .amoaddw => some fun x y => x + y
  | .amoxorw => some fun x y => x ^^^ y
  | .amoandw => some fun x y => x &&& y
  | .amoorw => some fun x y => x ||| y
  | .amominw => some fun x y => if x.slt y then x else y
  | .amomaxw => some fun x y => if x.slt y then y else x
  | .amominuw => some fun x y => if x.ult y then x else y
  | .amomaxuw => some fun x y => if x.ult y then y else x
  | _ => none

/-- The translation of a word atomic. -/
def transAmoW (self : RiscvDisasContext) : Insn → Option (ArgsAtomic → Gen Bool)
  | .amoswapw => some self.transAmoswapW
  | .amoaddw => some self.transAmoaddW
  | .amoxorw => some self.transAmoxorW
  | .amoandw => some self.transAmoandW
  | .amoorw => some self.transAmoorW
  | .amominw => some self.transAmominW
  | .amomaxw => some self.transAmomaxW
  | .amominuw => some self.transAmominuW
  | .amomaxuw => some self.transAmomaxuW
  | _ => none

/-- The word at an address. -/
def wordAt (mem : GuestMemory) (addr : BitVec 64) : BitVec 32 :=
  mem (addr + 3) ++ mem (addr + 2) ++ mem (addr + 1) ++ mem addr

/-- Memory with a word written at an address. -/
def setWord (mem : GuestMemory) (addr : BitVec 64) (word : BitVec 32) : GuestMemory := fun a =>
  if a = addr then word.extractLsb' 0 8
  else if a = addr + 1 then word.extractLsb' 8 8
  else if a = addr + 2 then word.extractLsb' 16 8
  else if a = addr + 3 then word.extractLsb' 24 8
  else mem a

/-- A word atomic: store the new word, leave the sign-extended old one in rd. -/
def Hart.amo (h : Hart) (f : BitVec 32 → BitVec 32 → BitVec 32) (a : ArgsAtomic) : Hart :=
  let addr := h.x a.rs1
  let old := wordAt h.mem addr
  { h with mem := setWord h.mem addr (f old ((h.x a.rs2).setWidth 32)) }.setReg a.rd
    (old.signExtend 64)

end TcgRs.Interface.RiscvExec
