import TcgRs.Model.Ir.Opcode
import TcgRs.Model.X86.Emitter

/-!
# Conditional branches

The comparison and conditional jump that `tcg_out_op` emits for `BrCond`, from
`backend/src/x86_64/codegen.rs` and `emitter.rs`, up to the displacement of the jump.
-/

set_option autoImplicit false

namespace TcgRs.Model.X86

open Ir

/-- x86 condition codes for Jcc, SETcc and CMOVcc. -/
inductive X86Cond where
  | jo | jno | jb | jae | je | jne | jbe | ja | js | jns | jp | jnp | jl | jge | jle | jg
  deriving DecidableEq, Repr

def X86Cond.toU8 : X86Cond → Byte
  | .jo => 0x0 | .jno => 0x1 | .jb => 0x2 | .jae => 0x3
  | .je => 0x4 | .jne => 0x5 | .jbe => 0x6 | .ja => 0x7
  | .js => 0x8 | .jns => 0x9 | .jp => 0xA | .jnp => 0xB
  | .jl => 0xC | .jge => 0xD | .jle => 0xE | .jg => 0xF

/-- Map a TCG condition to an x86 condition code. -/
def X86Cond.fromTcg : Cond → X86Cond
  | .eq | .tstEq => .je
  | .ne | .tstNe => .jne
  | .lt => .jl
  | .ge => .jge
  | .le => .jle
  | .gt => .jg
  | .ltu => .jb
  | .geu => .jae
  | .leu => .jbe
  | .gtu => .ja
  | .always => .je
  | .never => .jne

/-- CMP of two registers: `emit_arith_rr` with `ArithOp::Cmp`. -/
def emitCmpRr (rexw : Bool) (dst src : Reg) : List Byte :=
  emitModrm ((opcArithGvEv + (7 <<< 3)) ||| rexwFlag rexw) dst src

/-- TEST of two registers. -/
def emitTestRr (rexw : Bool) (r1 r2 : Reg) : List Byte :=
  emitModrm (opcTestl ||| rexwFlag rexw) r1 r2

def opcJccLong : BitVec 32 := 0x80 ||| pExt

/-- The code of `BrCond` before the displacement of its jump. -/
def outBrCond (ty : IrType) (a b : Reg) (cond : Cond) : List Byte :=
  let rexw := decide (ty = .i64)
  (if cond.isTst then emitTestRr rexw a b else emitCmpRr rexw a b) ++
    emitOpc (opcJccLong + (X86Cond.fromTcg cond).toU8.setWidth 32) 0 0

end TcgRs.Model.X86
