import TcgRs.Model.Exec.ExecLoop
import TcgRs.Model.Liveness
import TcgRs.Model.Optimize
import TcgRs.Model.X86.Emission

/-!
# Translating a block from its ops

`backend/src/translate.rs`, and the part of `tb_gen_code` in `exec/src/exec_loop.rs` that turns the
ops of the frontend into a block.  The list of recorded jumps is cleared before each translation.
-/

set_option autoImplicit false

namespace TcgRs.Model.Exec

open Ir X86

/-- What the frontend leaves in the context: the temps, the table of constants, the labels and the
ops. -/
structure IrContext where
  ctx : Context
  constTable : IrType → BitVec 64 → Option Nat
  labels : Nat → Option Label
  ops : List Op

/-- The context and the ops after the optimizer and liveness analysis. -/
def IrContext.prepared (ir : IrContext) : Context × List Op :=
  let (p, ops) := Optimize.optimize ir.ctx ir.constTable ir.ops
  (p.ctx, Liveness.livenessAnalysis p.ctx ops)

/-- The state of the emission before the first op. -/
def IrContext.emission (ir : IrContext) (buf : CodeBuffer) : Emission := ⟨buf, ir.labels, [], []⟩

/-- Full translation pipeline: optimize, liveness, register allocation with code generation. -/
def translate (gen : CodeGen) (tbIdx : BitVec 32) (ir : IrContext) (buf : CodeBuffer) :
    Option Emission :=
  regallocAndEmit gen tbIdx ir.prepared.1 (ir.emission buf) ir.prepared.2

/-- The block that `tb_gen_code` makes of the ops, and the emission that it comes from. -/
def tbFromOps (gen : CodeGen) (tbIdx : BitVec 32) (pc : BitVec 64) (flags guestSize : BitVec 32)
    (ir : IrContext) (buf : CodeBuffer) : Option (TranslationBlock × Emission) := do
  let tb := { TranslationBlock.new pc flags 0 with size := guestSize }
  let fin ← translate gen tbIdx ir buf
  let tb := { tb with hostOffset := buf.offset, hostSize := fin.buf.offset - buf.offset }
  return (recordJumps tb fin.gotoTbInfo, fin)

end TcgRs.Model.Exec
