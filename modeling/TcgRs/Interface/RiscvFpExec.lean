import TcgRs.Interface.RiscvCpu
import TcgRs.Model.Riscv.TransFp

/-!
# Execution of floating-point instructions

A call of a helper reads its arguments and the flags and rounding mode of the CPU state at the env
pointer, and accrues flags there.
-/

set_option autoImplicit false

namespace TcgRs.Interface.RiscvExec

open Model.Ir Model.Riscv Ir

/-! ## Calls -/

/-- The words that the helpers use. -/
def Cpu.fpEnv (c : Cpu) : FpEnv := ⟨c.field .fflags, c.field .frm⟩

def Cpu.setFpEnv (c : Cpu) (env : FpEnv) : Cpu :=
  (c.setField .fflags env.fflags).setField .frm env.frm

/-- The address in the constant arguments of a call. -/
def helperAddr (lo hi : Nat) : BitVec 64 := BitVec.ofNat 32 hi ++ BitVec.ofNat 32 lo

/-- The effects of helper calls; `rest` has those of the other ops. -/
def fpuEffects (H : HostFloat) (T : HelperTable) (rest : Effects Guest) : Effects Guest where
  run opc ty cargs inputs globals m :=
    match opc, cargs, inputs with
    | .call, [lo, hi], base :: args =>
      match T.find (helperAddr lo hi) with
      | some helper =>
        let fflags := CpuField.fflags.addr base
        let frm := CpuField.frm.addr base
        let r := helper.call H ⟨m.host fflags, m.host frm⟩ fun i => args.getD i 0
        (fun _ => r.1,
          { m with host := Function.update (Function.update m.host fflags r.2.fflags) frm r.2.frm })
      | none => rest.run opc ty cargs inputs globals m
    | _, _, _ => rest.run opc ty cargs inputs globals m

/-! ## Runs -/

/-- The state of FS: Off is 0. -/
def fsOf (c : Cpu) : BitVec 64 := c.field .ustatus &&& USTATUS_FS_MASK

/-- The code of an instruction, in some block, takes one CPU to the other. -/
def ExecutesFp (H : HostFloat) (T : HelperTable) (dc : RiscvDisasContext) (insn : FpInsn)
    (c c' : Cpu) : Prop :=
  ∃ (self : RiscvDisasContext) (b₀ b b' : Builder) (C : Context) (rest : Effects Guest)
    (s s' : State Guest), initDisasContext dc .new = some (self, b₀) ∧ b₀.Extends b ∧
      LabelsBelow b.nbLabels b.ops ∧ (insn.trans self T).run b = (true, b') ∧ b'.ctx.Extends C ∧
      (∀ back, Reaches (guestEffects (fpuEffects H T rest)) C (b'.ops ++ back) b.ops.length s
        b'.ops.length s') ∧ cpuOf self C s = c ∧ cpuOf self C s' = c'

end TcgRs.Interface.RiscvExec
