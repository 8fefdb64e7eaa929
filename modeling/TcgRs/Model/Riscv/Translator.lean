import TcgRs.Model.Riscv.Context

/-!
# The translation of a block

`translator_loop` of `frontend/src/lib.rs`, the RISC-V `TranslatorOps` of `frontend/src/riscv/mod.rs`
and `gen_code` of `linux-user/src/main.rs`.  The decoders with the translation functions they call
are a parameter: they append ops, say whether they know the instruction, and may end the block.
Loops get fuel; `none` is that it was spent, or a failed assertion.
-/

set_option autoImplicit false

namespace TcgRs.Model.Riscv

open Ir

def TB_EXIT_IDX0 : Nat := 0
def EXCP_UNDEF : Nat := 5

/-- A generator of code within one instruction. -/
def StaysInInsn {α : Type} (g : Gen α) : Prop :=
  ∀ b : Builder, ∀ op ∈ (g.run b).2.ops.drop b.ops.length, op.opc ≠ .insnStart

/-- The two decoders.  Only `insn_start` emits instruction starts. -/
structure Decoder where
  decode16 : RiscvDisasContext → BitVec 16 → Gen (Bool × DisasJumpType)
  decode : RiscvDisasContext → BitVec 32 → Gen (Bool × DisasJumpType)
  stays16 : ∀ dc half, StaysInInsn (decode16 dc half)
  stays : ∀ dc insn, StaysInInsn (decode dc insn)

/-- The bytes of guest memory. -/
abbrev GuestCode := BitVec 64 → BitVec 8

/-- Fetch a 16-bit half-word at a pc. -/
def fetchInsn16 (code : GuestCode) (pc : BitVec 64) : BitVec 16 := code (pc + 1) ++ code pc

/-- Fetch a 32-bit instruction at a pc. -/
def fetchInsn32 (code : GuestCode) (pc : BitVec 64) : BitVec 32 :=
  code (pc + 3) ++ code (pc + 2) ++ code (pc + 1) ++ code pc

namespace RiscvDisasContext

/-- Create a new context for translating a block that starts at `pc`. -/
def new (pc : BitVec 64) (cfg : RiscvCfg) : RiscvDisasContext where
  base := ⟨pc, pc, .next, 0, 512⟩
  cfg := cfg
  env := 0
  gpr _ := 0
  pc := 0
  loadRes := 0
  loadVal := 0
  curInsnLen := 4

def setIsJmp (dc : RiscvDisasContext) (jmp : DisasJumpType) : RiscvDisasContext :=
  { dc with base := { dc.base with isJmp := jmp } }

def setMaxInsns (dc : RiscvDisasContext) (n : Nat) : RiscvDisasContext :=
  { dc with base := { dc.base with maxInsns := n } }

def setCurInsnLen (dc : RiscvDisasContext) (n : Nat) : RiscvDisasContext :=
  { dc with curInsnLen := n }

/-- Go on to the next instruction. -/
def advance (dc : RiscvDisasContext) : RiscvDisasContext :=
  { dc with base := { dc.base with pcNext := dc.base.pcNext + BitVec.ofNat 64 dc.curInsnLen } }

/-- The temps as the first translation has registered them. -/
def registered (dc : RiscvDisasContext) : RiscvDisasContext :=
  { dc with env := 0, gpr := fun r => 1 + r.val, pc := 1 + 32, loadRes := 1 + 32 + 1,
            loadVal := 1 + 32 + 2 }

end RiscvDisasContext

/-- Marks the start of an instruction and counts it. -/
def insnStart (dc : RiscvDisasContext) : Gen RiscvDisasContext := do
  genInsnStart dc.base.pcNext
  return { dc with base := { dc.base with numInsns := dc.base.numInsns + 1 } }

/-- Fetch and decode: the low two bits of the half-word tell the length. -/
def decodeInsn (D : Decoder) (code : GuestCode) (dc : RiscvDisasContext) :
    Gen (Bool × RiscvDisasContext) :=
  let half := fetchInsn16 code dc.base.pcNext
  if half &&& 0x3 ≠ 0x3 then
    if !dc.cfg.misa.contains .C then return (false, dc)
    else do
      let dc := dc.setCurInsnLen 2
      let (decoded, jmp) ← D.decode16 dc half
      return (decoded, dc.setIsJmp jmp)
  else do
    let dc := dc.setCurInsnLen 4
    let (decoded, jmp) ← D.decode dc (fetchInsn32 code dc.base.pcNext)
    return (decoded, dc.setIsJmp jmp)

/-- An instruction that is not known ends the block, with its own pc. -/
def undefInsn (dc : RiscvDisasContext) : Gen RiscvDisasContext := do
  let pcConst ← newConst .i64 dc.base.pcNext
  let _ ← genMov .i64 dc.pc pcConst
  genExitTb EXCP_UNDEF
  return dc.setIsJmp .noReturn

def translateInsn (D : Decoder) (code : GuestCode) (dc : RiscvDisasContext) :
    Gen RiscvDisasContext := do
  let (decoded, dc) ← decodeInsn D code dc
  let dc ← if !decoded then undefInsn dc else pure dc
  return dc.advance

/-- End of the block: the code falls through to the next instruction. -/
def tbStop (dc : RiscvDisasContext) : Gen Unit :=
  match dc.base.isJmp with
  | .noReturn => return ()
  | .next | .tooMany => do
    let pcConst ← newConst .i64 dc.base.pcNext
    let _ ← genMov .i64 dc.pc pcConst
    genGotoTb 0
    genExitTb TB_EXIT_IDX0

/-- One turn of the loop. -/
def translateOne (D : Decoder) (code : GuestCode) (dc : RiscvDisasContext) :
    Gen RiscvDisasContext := do
  let dc ← insnStart dc
  translateInsn D code dc

/-- The decode and translate cycle. -/
def translateLoop (D : Decoder) (code : GuestCode) :
    Nat → RiscvDisasContext → Builder → Option (RiscvDisasContext × Builder)
  | 0, _, _ => none
  | fuel + 1, dc, b =>
    let (dc, b) := (translateOne D code dc).run b
    if dc.base.isJmp ≠ .next then some (dc, b)
    else if dc.base.numInsns ≥ dc.base.maxInsns then some (dc.setIsJmp .tooMany, b)
    else translateLoop D code fuel dc b

/-- Generic translation loop. -/
def translatorLoop (D : Decoder) (code : GuestCode) (fuel : Nat) (dc : RiscvDisasContext)
    (b : Builder) : Option (RiscvDisasContext × Builder) := do
  let (dc, b) ← initDisasContext dc b
  let (dc, b) ← translateLoop D code fuel dc b
  return (dc, ((tbStop dc).run b).2)

/-- Translate a block: its size, with the disassembly context and the builder at the end.  The
globals are registered by the first translation, and kept after it. -/
def genCode (D : Decoder) (code : GuestCode) (cfg : RiscvCfg) (pc : BitVec 64)
    (maxInsns : BitVec 32) (fuel : Nat) (b : Builder) :
    Option (BitVec 32 × RiscvDisasContext × Builder) :=
  let d := (RiscvDisasContext.new pc cfg).setMaxInsns maxInsns.toNat
  if b.ctx.nbGlobals = 0 then do
    let (d, b) ← translatorLoop D code fuel d b
    return (BitVec.ofNat 32 d.base.numInsns * 4, d, b)
  else do
    let (d, b) ← translateLoop D code fuel d.registered b
    return (BitVec.ofNat 32 d.base.numInsns * 4, d, ((tbStop d).run b).2)

end TcgRs.Model.Riscv
