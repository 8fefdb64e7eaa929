import TcgRs.Analysis.GuestBlocks

/-!
# Precise traps

An instruction that is not known, or that needs floating-point registers which are off, leaves the
block with its own pc and the CPU as it was.
-/

set_option autoImplicit false

namespace TcgRs.Analysis.PreciseTraps

open TcgRs.Model TcgRs.Model.Ir TcgRs.Model.Riscv TcgRs.Interface.Ir TcgRs.Interface.RiscvExec
open GeneratedCode GeneratedExits GuestCode FpCode BlockShape GuestSteps GuestBlocks

variable {I : InsnSet} {T : HelperTable} {code : GuestCode} {self dc' : RiscvDisasContext}
  {C : Context} {b₀ b b' : Builder} {s : State Guest}

/-- The instruction at the pc of the context is not decoded: no pattern matches, or its translation
gives up. -/
def Refused (D : Decoder) (code : GuestCode) (dc : RiscvDisasContext) (b : Builder) : Prop :=
  ((decodeInsn D code dc).run b).1.1 = false

/-- The instruction at the pc of the context uses floating-point registers, and they are off. -/
def FpOff (I : InsnSet) (code : GuestCode) (dc : RiscvDisasContext) (c : Cpu) : Prop :=
  (∃ insn, I.insnAt dc.cfg code dc.base.pcNext = .fp insn) ∧ fsOf c = 0

/-- The machine traps at such an instruction, with the CPU as it was. -/
theorem step_of_undef (hself : Globals self C) (hnext : self.base.isJmp = .next) {len : Nat}
    (hlabels : LabelsBelow b.nbLabels b.ops)
    (hC : (((I.insnAt self.cfg code self.base.pcNext).trans (self.setCurInsnLen len) T).run
      b).2.ctx.Extends C)
    (hundef : (((I.insnAt self.cfg code self.base.pcNext).trans (self.setCurInsnLen len) T).run
        b).1.1 = false ∨ FpOff I code self (cpuOf self C s)) (H : HostFloat) :
    GuestInsn.step H self.cfg len (Cpu.setPc (cpuOf self C s) self.base.pcNext)
        (I.insnAt self.cfg code self.base.pcNext) =
      (Cpu.setPc (cpuOf self C s) self.base.pcNext, some EXCP_UNDEF) := by
  have hsame : SameTemps self (self.setCurInsnLen len) := ⟨rfl, rfl, rfl, rfl, rfl, rfl⟩
  obtain hrefused | ⟨⟨insn, hinsn⟩, hfs⟩ := hundef
  · exact step_of_refused (hsame.globals hself) hnext hlabels hrefused hC H s
  · rw [hinsn]
    exact step_fp_off (c := Cpu.setPc (cpuOf self C s) self.base.pcNext) hfs self.cfg len insn

/-- The code of an instruction that is refused, or that is a floating-point one with FS off, leaves with
the undefined instruction exception; only the pc has changed, to that of the instruction. -/
theorem undef_traps_precisely {dc : RiscvDisasContext}
    (hinit : initDisasContext dc .new = some (self, b₀)) (hnext : self.base.isJmp = .next)
    (hb : b₀.Extends b) (hlabels : LabelsBelow b.nbLabels b.ops)
    (hrun : (translateInsn (I.decoder T) code self).run b = (dc', b')) (hC : b'.ctx.Extends C)
    (hundef : Refused (I.decoder T) code self b ∨ FpOff I code self (cpuOf self C s))
    (H : HostFloat) (rest : Effects Guest) :
    ∃ s', Exits (guestEffects (fpuEffects H T rest)) C b'.ops b.ops.length s (.exitTb EXCP_UNDEF) s' ∧
      cpuOf self C s' = Cpu.setPc (cpuOf self C s) self.base.pcNext := by
  have hself : Globals self C := globals_of_run hinit hb hrun hC
  obtain ⟨len, hinsn, hdecoded, -⟩ := translateInsn_run I T code self b
  have hsame : SameTemps self (self.setCurInsnLen len) := ⟨rfl, rfl, rfl, rfl, rfl, rfl⟩
  have hgrow : (((I.insnAt self.cfg code self.base.pcNext).trans (self.setCurInsnLen len) T).run
      b).2.Extends b' := by
    have hext : ((GuestInsn.trans (self.setCurInsnLen len) T _).run b).2.Extends _ :=
      trans_extends_insnCode (I.insnAt self.cfg code self.base.pcNext) b
    rw [hinsn.symm.trans hrun] at hext
    exact hext
  unfold Refused at hundef
  rw [hdecoded] at hundef
  have hgoes : dc' = ((self.setCurInsnLen len).setIsJmp dc'.base.isJmp).advance ∧
      Goes (guestEffects (fpuEffects H T rest)) (self.setCurInsnLen len) C b b' s dc'.base.isJmp
        (GuestInsn.step H self.cfg len (Cpu.setPc (cpuOf self C s) self.base.pcNext)
          (I.insnAt self.cfg code self.base.pcNext)) :=
    goes_insnCode (hsame.globals hself) hnext _ hlabels (hinsn.symm.trans hrun) hC s
  rw [step_of_undef hself hnext hlabels (hgrow.ctx.trans hC) hundef H] at hgoes
  obtain ⟨s', hcpu, hexits⟩ := exits_of_goes hgoes.2
  exact ⟨s', hexits, hcpu⟩

/-- `fadd.s f1, f2, f3` in a fresh block, on a machine in which nothing is set. -/
theorem undef_traps_precisely_fadd : ∃ self b₀ dc' b' s',
    initDisasContext allExtensions .new = some (self, b₀) ∧
      (translateInsn (InsnSet.decoder ⟨fun _ => .illegal, fun _ => .fp (.faddS ⟨1, 2, 3, 0⟩)⟩
        numberedHelpers) (fun _ => 3) self).run b₀ = (dc', b') ∧
      Exits (guestEffects (fpuEffects idleHost numberedHelpers GuestCode.noEffects)) b'.ctx b'.ops
        b₀.ops.length blankState (.exitTb EXCP_UNDEF) s' ∧
      cpuOf self b'.ctx s' = Cpu.setPc (cpuOf self b'.ctx blankState) 0 := by
  obtain ⟨⟨self, b₀⟩, hinit, hreg⟩ := initDisasContext_some allExtensions (b := .new) rfl
  have hbase : self.base = ⟨0, 0, .next, 0, 512⟩ := hreg.base_eq
  have hlabels : LabelsBelow b₀.nbLabels b₀.ops := by
    rw [hreg.ops_eq]
    exact fun _ hop => (by cases hop)
  let I : InsnSet := ⟨fun _ => .illegal, fun _ => .fp (.faddS ⟨1, 2, 3, 0⟩)⟩
  let after := (translateInsn (I.decoder numberedHelpers) (fun _ => 3) self).run b₀
  have hoff : FpOff I (fun _ => 3) self (cpuOf self after.2.ctx blankState) :=
    ⟨⟨.faddS ⟨1, 2, 3, 0⟩, insnAt_threes _ _ _⟩, BitVec.zero_and⟩
  obtain ⟨s', hexits, hcpu⟩ := undef_traps_precisely hinit (by rw [hbase]) (.refl b₀) hlabels
    (rfl : (translateInsn (I.decoder numberedHelpers) (fun _ => 3) self).run b₀ = after) (.refl _)
    (.inr hoff) idleHost GuestCode.noEffects
  rw [hbase] at hcpu
  exact ⟨self, b₀, after.1, after.2, s', hinit, rfl, hexits, hcpu⟩

end TcgRs.Analysis.PreciseTraps
