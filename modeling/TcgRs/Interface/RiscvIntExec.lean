import TcgRs.Interface.RiscvExec
import TcgRs.Model.Riscv.TransInt

/-!
# Execution of base integer instructions

What the specification says the instructions of RV64I do to a hart, with the two multiplications that
are translated like them.  The program counter holds the address of the instruction before it, and that
of the next one after it; an instruction takes 2 or 4 bytes.
-/

set_option autoImplicit false

namespace TcgRs.Interface.RiscvExec

open Model.Ir Model.Riscv Ir RiscvIsa

/-- The fields of an instruction; shift amounts are immediates. -/
structure Operands where
  rd : Fin 32
  rs1 : Fin 32
  rs2 : Fin 32
  imm : BitVec 64

/-! ## Values -/

/-- A truth value as a register value. -/
def flag (p : Prop) [Decidable p] : BitVec 64 := if p then 1 else 0

/-- The result from rs1 and the second operand.  A shift takes its amount from the low bits. -/
def aluValue : Insn → Option (BitVec 64 → BitVec 64 → BitVec 64)
  | .add | .addi => some fun x y => x + y
  | .sub => some fun x y => x - y
  | .sll | .slli => some fun x y => x <<< (y.toNat % 64)
  | .slt | .slti => some fun x y => flag (x.toInt < y.toInt)
  | .sltu | .sltiu => some fun x y => flag (x.toNat < y.toNat)
  | .xor | .xori => some fun x y => x ^^^ y
  | .srl | .srli => some fun x y => x >>> (y.toNat % 64)
  | .sra | .srai => some fun x y => x.sshiftRight (y.toNat % 64)
  | .or | .ori => some fun x y => x ||| y
  | .and | .andi => some fun x y => x &&& y
  | .mul => some fun x y => x * y
  | .addw | .addiw => some (onWords fun x y => x + y)
  | .subw => some (onWords fun x y => x - y)
  | .sllw | .slliw => some (onWords fun x y => x <<< (y.toNat % 32))
  | .srlw | .srliw => some (onWords fun x y => x >>> (y.toNat % 32))
  | .sraw | .sraiw => some (onWords fun x y => x.sshiftRight (y.toNat % 32))
  | .mulw => some (onWords fun x y => x * y)
  | _ => none

/-- Whether the second operand is the immediate. -/
def hasImmediate (insn : Insn) : Bool :=
  match insn.encoding with
  | .i | .shift | .shiftw => true
  | _ => false

/-- Whether a branch is taken. -/
def branchTaken : Insn → Option (BitVec 64 → BitVec 64 → Bool)
  | .beq => some fun x y => x = y
  | .bne => some fun x y => x ≠ y
  | .blt => some fun x y => x.toInt < y.toInt
  | .bge => some fun x y => y.toInt ≤ x.toInt
  | .bltu => some fun x y => x.toNat < y.toNat
  | .bgeu => some fun x y => y.toNat ≤ x.toNat
  | _ => none

/-! ## Memory -/

/-- The little-endian number in some bytes of memory. -/
def littleEndian (mem : GuestMemory) : BitVec 64 → Nat → Nat
  | _, 0 => 0
  | addr, n + 1 => (mem addr).toNat + 256 * littleEndian mem (addr + 1) n

/-- A number of `n` bytes as a register value, sign-extended or not. -/
def extended (signed : Bool) (n val : Nat) : BitVec 64 :=
  if signed ∧ 2 ^ (8 * n) ≤ 2 * val then BitVec.ofInt 64 ((val : Int) - 2 ^ (8 * n))
  else BitVec.ofNat 64 val

/-- Memory after a store of the low `n` bytes of a value. -/
def stored (mem : GuestMemory) (addr : BitVec 64) (n : Nat) (val : BitVec 64) : GuestMemory :=
  fun a =>
    let i := (a - addr).toNat
    if i < n then BitVec.ofNat 8 (val.toNat / 256 ^ i) else mem a

/-- The size of a load, and whether it is signed. -/
def loadSize : Insn → Option (Nat × Bool)
  | .lb => some (1, true)
  | .lh => some (2, true)
  | .lw => some (4, true)
  | .ld => some (8, false)
  | .lbu => some (1, false)
  | .lhu => some (2, false)
  | .lwu => some (4, false)
  | _ => none

def storeSize : Insn → Option Nat
  | .sb => some 1
  | .sh => some 2
  | .sw => some 4
  | .sd => some 8
  | _ => none

/-! ## Execution -/

/-- The hart after an instruction of `len` bytes; `none` for those of the other extensions. -/
def Hart.execute (h : Hart) (len : Nat) (insn : Insn) (o : Operands) : Option Hart :=
  let next := h.pc + BitVec.ofNat 64 len
  match insn with
  | .lui => some { h.setReg o.rd o.imm with pc := next }
  | .auipc => some { h.setReg o.rd (h.pc + o.imm) with pc := next }
  | .jal => some { h.setReg o.rd next with pc := h.pc + o.imm }
  | .jalr => some { h.setReg o.rd next with pc := (h.x o.rs1 + o.imm) &&& ~~~1 }
  | insn =>
    match aluValue insn, branchTaken insn, loadSize insn, storeSize insn with
    | some value, _, _, _ =>
      let y := if hasImmediate insn then o.imm else h.x o.rs2
      some { h.setReg o.rd (value (h.x o.rs1) y) with pc := next }
    | _, some taken, _, _ =>
      some { h with pc := if taken (h.x o.rs1) (h.x o.rs2) then h.pc + o.imm else next }
    | _, _, some (n, signed), _ =>
      let val := extended signed n (littleEndian h.mem (h.x o.rs1 + o.imm) n)
      some { h.setReg o.rd val with pc := next }
    | _, _, _, some n =>
      some { h with mem := stored h.mem (h.x o.rs1 + o.imm) n (h.x o.rs2), pc := next }
    | _, _, _, _ => none

/-! ## Translation -/

/-- A translation that does not end the block. -/
def straight (self : RiscvDisasContext) (g : Gen Bool) : Gen (Bool × DisasJumpType) := do
  let ok ← g
  return (ok, self.base.isJmp)

section
variable (self : RiscvDisasContext)

def transR : Insn → Option (ArgsR → Gen Bool)
  | .add => some self.transAdd
  | .sub => some self.transSub
  | .sll => some self.transSll
  | .slt => some self.transSlt
  | .sltu => some self.transSltu
  | .xor => some self.transXor
  | .srl => some self.transSrl
  | .sra => some self.transSra
  | .or => some self.transOr
  | .and => some self.transAnd
  | .addw => some self.transAddw
  | .subw => some self.transSubw
  | .sllw => some self.transSllw
  | .srlw => some self.transSrlw
  | .sraw => some self.transSraw
  | .mul => some self.transMul
  | .mulw => some self.transMulw
  | _ => none

def transI : Insn → Option (ArgsI → Gen Bool)
  | .addi => some self.transAddi
  | .slti => some self.transSlti
  | .sltiu => some self.transSltiu
  | .xori => some self.transXori
  | .ori => some self.transOri
  | .andi => some self.transAndi
  | .addiw => some self.transAddiw
  | .lb => some self.transLb
  | .lh => some self.transLh
  | .lw => some self.transLw
  | .ld => some self.transLd
  | .lbu => some self.transLbu
  | .lhu => some self.transLhu
  | .lwu => some self.transLwu
  | _ => none

def transShift : Insn → Option (ArgsShift → Gen Bool)
  | .slli => some self.transSlli
  | .srli => some self.transSrli
  | .srai => some self.transSrai
  | .slliw => some self.transSlliw
  | .srliw => some self.transSrliw
  | .sraiw => some self.transSraiw
  | _ => none

def transS : Insn → Option (ArgsS → Gen Bool)
  | .sb => some self.transSb
  | .sh => some self.transSh
  | .sw => some self.transSw
  | .sd => some self.transSd
  | _ => none

def transB : Insn → Option (ArgsB → Gen (Bool × DisasJumpType))
  | .beq => some self.transBeq
  | .bne => some self.transBne
  | .blt => some self.transBlt
  | .bge => some self.transBge
  | .bltu => some self.transBltu
  | .bgeu => some self.transBgeu
  | _ => none

/-- The translation of an instruction with its operands. -/
def transInt (insn : Insn) (o : Operands) : Option (Gen (Bool × DisasJumpType)) :=
  match insn with
  | .lui => some (straight self (self.transLui ⟨o.imm, o.rd⟩))
  | .auipc => some (straight self (self.transAuipc ⟨o.imm, o.rd⟩))
  | .jal => some (self.transJal ⟨o.imm, o.rd⟩)
  | .jalr => some (self.transJalr ⟨o.imm, o.rs1, o.rd⟩)
  | insn =>
    match insn.encoding with
    | .r => (transR self insn).map fun trans => straight self (trans ⟨o.rd, o.rs1, o.rs2⟩)
    | .i => (transI self insn).map fun trans => straight self (trans ⟨o.imm, o.rs1, o.rd⟩)
    | .shift | .shiftw =>
      (transShift self insn).map fun trans => straight self (trans ⟨o.imm, o.rs1, o.rd⟩)
    | .s => (transS self insn).map fun trans => straight self (trans ⟨o.imm, o.rs1, o.rs2⟩)
    | .b => (transB self insn).map fun trans => trans ⟨o.imm, o.rs2, o.rs1⟩
    | _ => none

end

end TcgRs.Interface.RiscvExec
