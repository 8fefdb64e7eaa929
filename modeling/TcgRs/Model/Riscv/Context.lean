import TcgRs.Model.Ir.Builder
import TcgRs.Model.Riscv.Registers

/-!
# RISC-V disassembly context

The disassembly context of `frontend/src/riscv/mod.rs` with the extension configuration of `ext.rs`,
the field offsets of `cpu.rs` and the register access of `trans.rs`.  Register numbers are those of
decoded instructions.
-/

set_option autoImplicit false

namespace TcgRs.Model.Riscv

open Ir

/-! ## The disassembly context -/

/-- Bitmask of single-letter RISC-V extensions. -/
structure MisaExt where
  bits : BitVec 32
  deriving DecidableEq, Repr

namespace MisaExt

def A : MisaExt := ⟨1 <<< 0⟩
def C : MisaExt := ⟨1 <<< 2⟩
def D : MisaExt := ⟨1 <<< 3⟩
def F : MisaExt := ⟨1 <<< 5⟩
def M : MisaExt := ⟨1 <<< 12⟩

def contains (self other : MisaExt) : Bool := self.bits &&& other.bits == other.bits

end MisaExt

/-- Per-CPU extension configuration. -/
structure RiscvCfg where
  misa : MisaExt
  extZicsr : Bool
  extZifencei : Bool
  extZba : Bool
  extZbb : Bool
  extZbc : Bool
  extZbs : Bool

/-- Why a block ends. -/
inductive DisasJumpType where
  | next | tooMany | noReturn
  deriving DecidableEq, Repr

/-- Base context shared by all guest architectures.  The counters never exceed a `u32`. -/
structure DisasContextBase where
  pcFirst : BitVec 64
  pcNext : BitVec 64
  isJmp : DisasJumpType
  numInsns : Nat
  maxInsns : Nat

/-- The disassembly context: the temps of the env pointer, of the registers, of the program counter
and of the reservation, and the length of the current instruction. -/
structure RiscvDisasContext where
  base : DisasContextBase
  cfg : RiscvCfg
  env : Nat
  gpr : Fin 32 → Nat
  pc : Nat
  loadRes : Nat
  loadVal : Nat
  curInsnLen : Nat

/-! ## Globals -/

/-- A global or fixed temp, for which there may be no local yet. -/
def pushGlobal (b : Builder) (temp : Temp) (htemp : temp.isConst = false) :
    Option (Nat × Builder) :=
  if h : b.ctx.nbTemps = b.ctx.nbGlobals then
    some (b.ctx.nbTemps, { b.pushTemp temp with
      ctx := { b.ctx.pushTemp temp with nbGlobals := b.ctx.nbGlobals + 1 }
      globals_le := by
        show b.ctx.nbGlobals + 1 ≤ b.ctx.nbTemps + 1
        rw [h]
      globals_var := by
        intro t ht
        rcases Nat.lt_succ_iff_lt_or_eq.mp ht with hlt | rfl
        · exact b.globals_pushTemp temp t hlt
        · show (Function.update b.ctx.temps b.ctx.nbTemps temp b.ctx.nbGlobals).isConst = false
          rw [h, Function.update_self]
          exact htemp })
  else none

def newFixed (b : Builder) (ty : IrType) (reg : X86.Reg) : Option (Nat × Builder) :=
  pushGlobal b (Temp.newFixed ty reg) rfl

def newGlobal (b : Builder) (ty : IrType) (base : Nat) (offset : Int) : Option (Nat × Builder) :=
  pushGlobal b (Temp.newGlobal ty base offset) rfl

def gprOffset (i : Nat) : Int := i * 8
def fprOffset (i : Nat) : Int := (32 + i) * 8
def PC_OFFSET : Int := (32 + 32) * 8
def GUEST_BASE_OFFSET : Int := PC_OFFSET + 8
def LOAD_RES_OFFSET : Int := GUEST_BASE_OFFSET + 8
def LOAD_VAL_OFFSET : Int := LOAD_RES_OFFSET + 8
def FFLAGS_OFFSET : Int := LOAD_VAL_OFFSET + 8
def FRM_OFFSET : Int := FFLAGS_OFFSET + 8
def USTATUS_OFFSET : Int := FRM_OFFSET + 8
def UIE_OFFSET : Int := USTATUS_OFFSET + 8
def UTVEC_OFFSET : Int := UIE_OFFSET + 8
def USCRATCH_OFFSET : Int := UTVEC_OFFSET + 8
def UEPC_OFFSET : Int := USCRATCH_OFFSET + 8
def UCAUSE_OFFSET : Int := UEPC_OFFSET + 8
def UTVAL_OFFSET : Int := UCAUSE_OFFSET + 8
def UIP_OFFSET : Int := UTVAL_OFFSET + 8

/-- The FS bits of `ustatus`, and their value Dirty. -/
def USTATUS_FS_MASK : BitVec 64 := 0x6000
def USTATUS_FS_DIRTY : BitVec 64 := 0x6000

/-- Register `x_i` as a global. -/
def initGpr (s : RiscvDisasContext × Builder) (i : Fin 32) : Option (RiscvDisasContext × Builder) := do
  let (t, b) ← newGlobal s.2 .i64 s.1.env (gprOffset i)
  return ({ s.1 with gpr := Function.update s.1.gpr i t }, b)

def initDisasContext (ctx : RiscvDisasContext) (b : Builder) :
    Option (RiscvDisasContext × Builder) := do
  let (env, b) ← newFixed b .i64 .rbp
  let (ctx, b) ← (List.finRange 32).foldlM initGpr ({ ctx with env := env }, b)
  let (pc, b) ← newGlobal b .i64 ctx.env PC_OFFSET
  let (loadRes, b) ← newGlobal b .i64 ctx.env LOAD_RES_OFFSET
  let (loadVal, b) ← newGlobal b .i64 ctx.env LOAD_VAL_OFFSET
  return ({ ctx with pc := pc, loadRes := loadRes, loadVal := loadVal }, b)

namespace RiscvDisasContext

variable (self : RiscvDisasContext)

/-! ## Register access -/

/-- Read a register; x0 yields a constant zero. -/
def gprOrZero (idx : Fin 32) : Gen Nat :=
  if idx = 0 then newConst .i64 0 else return self.gpr idx

/-- Write a register; writes to x0 are discarded. -/
def genSetGpr (rd : Fin 32) (val : Nat) : Gen Unit := do
  if rd ≠ 0 then
    let _ ← genMov .i64 (self.gpr rd) val

/-- Sign-extend the low 32 bits into a register. -/
def genSetGprSx32 (rd : Fin 32) (val : Nat) : Gen Unit := do
  if rd ≠ 0 then
    let _ ← genExtI32I64 (self.gpr rd) val

end RiscvDisasContext

end TcgRs.Model.Riscv
