import TcgRs.Analysis.BlockShape
import TcgRs.Analysis.GuestSteps
import TcgRs.Library.TrappingRun

/-!
# Blocks execute guest instructions

The code of a block does to the CPU what the guest instructions from its start on do, one after the
other, and leaves the block where they go on or trap.
-/

set_option autoImplicit false

namespace TcgRs.Analysis.GuestBlocks

open TcgRs.Library
open TcgRs.Model TcgRs.Model.Ir TcgRs.Model.Riscv TcgRs.Interface.Ir TcgRs.Interface.RiscvExec
open GeneratedCode GeneratedControl GeneratedExits GuestCode FpCode CsrCode IntCode TidyCode
open TidyInsns BaseInsns BlockShape GuestSteps

variable {self : RiscvDisasContext} {C : Context} {rest : Effects Guest} {n : Nat} {s : State Guest}
  {H : HostFloat} {T : HelperTable}

/-! ## Labels and instruction marks -/

/-- A generator that stays in its instruction and sets labels below `k` and labels of its own only. -/
def Modest {α : Type} (k : Nat) (g : Gen α) : Prop := StaysInInsn g ∧ SetsBelow k g

section
variable {α β : Type} {k : Nat}

theorem modest_pure (a : α) : Modest k (pure a : Gen α) := ⟨stays_pure a, setsBelow_pure a⟩

theorem modest_bind {g : Gen β} {f : β → Gen α} (hg : Modest k g) (hf : ∀ a, Modest k (f a)) :
    Modest k (g >>= f) :=
  ⟨stays_bind hg.1 fun a => (hf a).1, setsBelow_bind hg.2 fun a => (hf a).2⟩

theorem modest_emitOp {op : Op} (hstart : op.opc ≠ .insnStart)
    (hlabel : op.opc = .setLabel → op.args 0 < k) : Modest k (emitOp op) :=
  ⟨stays_emitOp hstart, setsBelow_emitOp hlabel⟩

theorem modest_emitTo {opc : Opcode} (hstart : opc ≠ .insnStart) (hlabel : opc ≠ .setLabel)
    (ty : IrType) (dst : Nat) (args : List Nat) : Modest k (emitTo opc ty dst args) :=
  modest_bind (modest_emitOp hstart fun hset => absurd hset hlabel) fun _ => modest_pure _

theorem modest_newConst (ty : IrType) (val : BitVec 64) : Modest k (newConst ty val) :=
  ⟨stays_newConst ty val, setsBelow_newConst ty val⟩

theorem modest_newTemp (ty : IrType) : Modest k (newTemp ty) := by
  refine ⟨fun b op hop => ?_, setsBelow_newTemp ty⟩
  have hnone : ((newTemp ty).run b).2.ops.drop b.ops.length = [] := List.drop_length
  rw [hnone] at hop
  cases hop

theorem modest_newLabel {f : Nat → Gen α} (h : ∀ label, Modest (max k (label + 1)) (f label)) :
    Modest k (newLabel >>= f) := by
  have hstays : StaysInInsn newLabel := by
    intro b op hop
    have hnone : (newLabel.run b).2.ops.drop b.ops.length = [] := List.drop_length
    rw [hnone] at hop
    cases hop
  exact ⟨stays_bind hstays fun label => (h label).1, setsBelow_newLabel fun label => (h label).2⟩

theorem modest_exitTb (val : Nat) : Modest k (genExitTb val) :=
  modest_emitOp (fun h => (by cases h)) fun h => (by cases h)

theorem modest_of_tidy {g : Gen α} (h : IsTidy self g) : Modest k g := by
  refine ⟨h.stays, fun b _ hb => ?_⟩
  obtain ⟨hlabels, -⟩ := h (g.run b).2.ctx b.ctx.nbTemps [] b le_rfl (.refl _)
  exact ⟨hlabels.ge, h.labelsBelow hb (.refl _)⟩

theorem modest_straight {g : Gen Bool} (h : Modest k g) : Modest k (straight self g) :=
  modest_bind h fun _ => modest_pure _

theorem modest_illegal : Modest k transIllegal := modest_pure _

theorem modest_gprOrZero (r : Fin 32) : Modest k (self.gprOrZero r) := by
  unfold RiscvDisasContext.gprOrZero
  split
  · exact modest_newConst _ _
  · exact modest_pure _

theorem modest_genSetGpr (rd : Fin 32) (t : Nat) : Modest k (self.genSetGpr rd t) := by
  unfold RiscvDisasContext.genSetGpr
  split
  · exact modest_bind (modest_emitTo (by decide) (by decide) _ _ _) fun _ => modest_pure _
  · exact modest_pure _

theorem modest_chainedExit (target : BitVec 64) (slot exit : Nat) :
    Modest k (self.genChainedExit target slot exit) := by
  refine modest_bind (modest_newConst _ _) fun c => ?_
  refine modest_bind (modest_emitTo (by decide) (by decide) _ _ _) fun _ => ?_
  refine modest_bind (modest_emitOp (fun h => (by cases h)) fun h => (by cases h)) fun _ => ?_
  exact modest_exitTb exit

theorem modest_transJal (a : ArgsJ) : Modest k (self.transJal a) :=
  modest_bind (modest_newConst _ _) fun _ => modest_bind (modest_genSetGpr _ _) fun _ =>
    modest_bind (modest_chainedExit _ _ _) fun _ => modest_pure _

theorem modest_transJalr (a : ArgsI) : Modest k (self.transJalr a) := by
  refine modest_bind (modest_gprOrZero _) fun src => ?_
  refine modest_bind (modest_newConst _ _) fun imm => ?_
  refine modest_bind (modest_newTemp _) fun tmp => ?_
  refine modest_bind (modest_emitTo (by decide) (by decide) _ _ _) fun _ => ?_
  refine modest_bind (modest_newConst _ _) fun mask => ?_
  refine modest_bind (modest_emitTo (by decide) (by decide) _ _ _) fun _ => ?_
  refine modest_bind (modest_newConst _ _) fun c => ?_
  refine modest_bind (modest_genSetGpr _ _) fun _ => ?_
  refine modest_bind (modest_emitTo (by decide) (by decide) _ _ _) fun _ => ?_
  exact modest_bind (modest_exitTb _) fun _ => modest_pure _

theorem modest_genBranch (a : ArgsB) (cond : Cond) : Modest k (self.genBranch a cond) := by
  refine modest_bind (modest_gprOrZero _) fun src1 => ?_
  refine modest_bind (modest_gprOrZero _) fun src2 => ?_
  refine modest_newLabel fun taken => ?_
  refine modest_bind (modest_emitOp (fun h => (by cases h)) fun h => (by cases h)) fun _ => ?_
  refine modest_bind (modest_chainedExit _ _ _) fun _ => ?_
  refine modest_bind (modest_emitOp (fun h => (by cases h)) fun _ => ?_) fun _ => ?_
  · exact Nat.lt_of_lt_of_le (Nat.lt_succ_self taken) (Nat.le_max_right _ _)
  · exact modest_bind (modest_chainedExit _ _ _) fun _ => modest_pure _

theorem modest_genTrap (exit : Nat) : Modest k (self.genTrap exit) :=
  modest_bind (modest_newConst _ _) fun _ =>
    modest_bind (modest_emitTo (by decide) (by decide) _ _ _) fun _ =>
      modest_bind (modest_exitTb exit) fun _ => modest_pure _

theorem modest_undefInsn (dc : RiscvDisasContext) : Modest k (undefInsn dc) :=
  modest_bind (modest_newConst _ _) fun _ =>
    modest_bind (modest_emitTo (by decide) (by decide) _ _ _) fun _ =>
      modest_bind (modest_exitTb _) fun _ => modest_pure _

theorem modest_fpCheck : Modest k self.genFpCheck := by
  rw [genFpCheck_eq]
  have hstatus : IsTidy self (fsStatus self) :=
    fun _ _ _ => tidies_fsStatus.mono fun _ _ _ _ => trivial
  refine modest_bind (modest_of_tidy hstatus) fun p => modest_newLabel fun ok => ?_
  refine modest_bind (modest_emitOp (fun h => (by cases h)) fun h => (by cases h)) fun _ => ?_
  refine modest_bind (modest_newConst _ _) fun pc => ?_
  refine modest_bind (modest_emitTo (by decide) (by decide) _ _ _) fun _ => ?_
  refine modest_bind (modest_exitTb _) fun _ => ?_
  refine modest_emitOp (fun h => (by cases h)) fun _ => ?_
  exact Nat.lt_of_lt_of_le (Nat.lt_succ_self ok) (Nat.le_max_right _ _)

theorem modest_fp (T : HelperTable) (insn : FpInsn) : Modest k (insn.trans self T) := by
  rw [trans_eq]
  unfold RiscvDisasContext.genFpInsn RiscvDisasContext.requireExt
  split
  · exact modest_bind modest_fpCheck fun _ => modest_of_tidy (isTidy_tailCode T insn)
  · exact modest_pure _

theorem modest_int (insn : Interface.RiscvIsa.Insn) (o : Operands) :
    Modest k ((transInt self insn o).getD (straight self transIllegal)) := by
  cases htrans : transInt self insn o with
  | none => exact modest_straight modest_illegal
  | some g =>
    rw [Option.getD_some]
    cases form_of_transInt htrans with
    | upper _ v _ => exact modest_straight (modest_of_tidy (isTidy_upper o.rd v))
    | jal _ => exact modest_transJal _
    | jalr _ => exact modest_transJalr _
    | alu _ h =>
      obtain ⟨t, ht, rfl, -⟩ | ⟨t, ht, rfl, -⟩ | ⟨t, ht, rfl, -⟩ := h
      · exact modest_straight (modest_of_tidy (isTidy_transR ht _))
      · exact modest_straight (modest_of_tidy (isTidy_transI ht _))
      · exact modest_straight (modest_of_tidy (isTidy_transShift ht _))
    | load _ ht => exact modest_straight (modest_of_tidy (isTidy_transI ht _))
    | store _ ht => exact modest_straight (modest_of_tidy (isTidy_transS ht _))
    | branch _ ht =>
      cases insn <;> cases ht <;> exact modest_genBranch _ _

theorem modest_trans (T : HelperTable) (insn : GuestInsn) : Modest k (insn.trans self T) := by
  cases insn with
  | int insn o => exact modest_int insn o
  | mulDiv insn a =>
    refine modest_straight ?_
    cases htrans : transMulDiv self insn with
    | none => exact modest_illegal
    | some t => exact modest_of_tidy (isTidy_transMulDiv htrans a)
  | atomic insn a =>
    refine modest_straight ?_
    cases htrans : transAtomic self insn with
    | none => exact modest_illegal
    | some t =>
      obtain ⟨g, hg, hform⟩ := form_of_transAtomic htrans a
      rw [Option.map_some, Option.getD_some, hg]
      exact modest_of_tidy (isTidy_requireExt (isTidy_of_form hform))
  | csr access immediate a => exact modest_straight (modest_of_tidy (isTidy_transCsr access immediate a))
  | fp insn => exact modest_straight (modest_fp T insn)
  | fence => exact modest_straight (modest_pure _)
  | ecall => exact modest_genTrap _
  | ebreak => exact modest_genTrap _
  | illegal => exact modest_straight modest_illegal

end

/-! ## The machine -/

/-- What the two decoders make of the words. -/
structure InsnSet where
  of16 : BitVec 16 → GuestInsn
  of32 : BitVec 32 → GuestInsn

variable {I : InsnSet} {code : GuestCode}

/-- The decoders with the translation functions that they call. -/
def InsnSet.decoder (I : InsnSet) (T : HelperTable) : Decoder where
  decode16 dc half := (I.of16 half).trans dc T
  decode dc insn := (I.of32 insn).trans dc T
  stays16 _ half := (modest_trans (k := 0) T (I.of16 half)).1
  stays _ insn := (modest_trans (k := 0) T (I.of32 insn)).1

/-- The instruction at a pc; without the C extension a compressed one is none. -/
def InsnSet.insnAt (I : InsnSet) (cfg : RiscvCfg) (code : GuestCode) (pc : BitVec 64) : GuestInsn :=
  if fetchInsn16 code pc &&& 0x3 ≠ 0x3 then
    if !cfg.misa.contains .C then .illegal else I.of16 (fetchInsn16 code pc)
  else I.of32 (fetchInsn32 code pc)

/-- Where all bytes are three, every instruction has four of them. -/
theorem insnAt_threes (I : InsnSet) (cfg : RiscvCfg) (pc : BitVec 64) :
    I.insnAt cfg (fun _ => 3) pc = I.of32 (fetchInsn32 (fun _ => 3) pc) := by
  have hlong : ¬(fetchInsn16 (fun _ => 3) pc &&& 0x3 ≠ 0x3) := by
    show ¬((3#8 ++ 3#8 : BitVec 16) &&& 0x3 ≠ 0x3)
    decide
  exact if_neg hlong

/-- One step of the machine that runs the program in `code`. -/
def InsnSet.step (I : InsnSet) (H : HostFloat) (cfg : RiscvCfg) (code : GuestCode) (c : Cpu) :
    Cpu × Option Nat :=
  GuestInsn.step H cfg (insnLength code c.hart.pc) c (I.insnAt cfg code c.hart.pc)

/-! ## Contexts -/

section
variable {dc dc' : RiscvDisasContext}

/-- Contexts that name the same temps and the same extensions. -/
structure SameTemps (dc dc' : RiscvDisasContext) : Prop where
  cfg_eq : dc'.cfg = dc.cfg
  env_eq : dc'.env = dc.env
  gpr_eq : dc'.gpr = dc.gpr
  pc_eq : dc'.pc = dc.pc
  res_eq : dc'.loadRes = dc.loadRes
  val_eq : dc'.loadVal = dc.loadVal

theorem SameTemps.trans {dc'' : RiscvDisasContext} (h : SameTemps dc dc') (h' : SameTemps dc' dc'') :
    SameTemps dc dc'' :=
  ⟨h'.1.trans h.1, h'.2.trans h.2, h'.3.trans h.3, h'.4.trans h.4, h'.5.trans h.5, h'.6.trans h.6⟩

theorem SameTemps.cpuOf_eq (h : SameTemps dc dc') (s : State Guest) :
    cpuOf dc' C s = cpuOf dc C s := by
  unfold cpuOf hartOf
  rw [h.env_eq, h.gpr_eq, h.pc_eq, h.res_eq, h.val_eq]

theorem SameTemps.globals (h : SameTemps dc dc') (hself : Globals dc C) : Globals dc' C where
  env_lt := h.env_eq ▸ hself.env_lt
  gpr_lt := h.gpr_eq ▸ hself.gpr_lt
  pc_lt := h.pc_eq ▸ hself.pc_lt
  res_lt := h.res_eq ▸ hself.res_lt
  val_lt := h.val_eq ▸ hself.val_lt
  gpr_inj := h.gpr_eq ▸ hself.gpr_inj
  pc_ne := h.pc_eq ▸ h.gpr_eq ▸ hself.pc_ne
  res_ne := h.res_eq ▸ h.gpr_eq ▸ hself.res_ne
  val_ne := h.val_eq ▸ h.gpr_eq ▸ hself.val_ne
  env_ne := h.env_eq ▸ h.gpr_eq ▸ hself.env_ne
  special := by
    rw [h.env_eq, h.pc_eq, h.res_eq, h.val_eq]
    exact hself.special
  var := hself.var

/-! ## One instruction -/

/-- The translation of an instruction, with the trap of one that is not known. -/
def insnCode (T : HelperTable) (dc : RiscvDisasContext) (insn : GuestInsn) :
    Gen RiscvDisasContext := do
  let (decoded, jmp) ← insn.trans dc T
  let dc := dc.setIsJmp jmp
  let dc ← if !decoded then undefInsn dc else pure dc
  return dc.advance

theorem trans_extends_insnCode (insn : GuestInsn) (b : Builder) :
    ((insn.trans dc T).run b).2.Extends ((insnCode T dc insn).run b).2 := by
  unfold insnCode
  rw [Gen.run_bind]
  exact Gen.extends_run _ _

theorem quits_undefInsn (hself : Globals dc C) :
    Quits (guestEffects rest) C (undefInsn dc) (fun r e s' => r = dc.setIsJmp .noReturn ∧
      e = .exitTb EXCP_UNDEF ∧ cpuOf dc C s' = Cpu.setPc (cpuOf dc C s) dc.base.pcNext) n s := by
  refine quits_bind (setsBelow_newConst _ _) (does_newConst fun c n1 _ hc => ?_)
  refine quits_bind (setsBelow_emitTo (by decide) _ _ _) (does_mov ?_)
  refine quits_return (quits_exitTb ⟨rfl, rfl, ?_⟩)
  rw [cpuOf_setPc hself, hc.val]

theorem setsBelow_insnCode (T : HelperTable) (dc : RiscvDisasContext) (insn : GuestInsn) :
    SetsBelow 0 (insnCode T dc insn) := by
  refine setsBelow_bind (modest_trans T insn).2 fun r => ?_
  obtain ⟨decoded, jmp⟩ := r
  cases decoded with
  | false => exact setsBelow_bind (modest_undefInsn _).2 fun _ => setsBelow_pure _
  | true => exact setsBelow_pure (dc.setIsJmp jmp).advance

variable {b b' : Builder}

/-- The code of an instruction takes its step, whether it is known or not. -/
theorem goes_insnCode (hself : Globals dc C) (hnext : dc.base.isJmp = .next) (insn : GuestInsn)
    (hlabels : LabelsBelow b.nbLabels b.ops) (hrun : (insnCode T dc insn).run b = (dc', b'))
    (hC : b'.ctx.Extends C) (s : State Guest) :
    dc' = (dc.setIsJmp dc'.base.isJmp).advance ∧
      Goes (guestEffects (fpuEffects H T rest)) dc C b b' s dc'.base.isJmp
        (GuestInsn.step H dc.cfg dc.curInsnLen (Cpu.setPc (cpuOf dc C s) dc.base.pcNext) insn) := by
  have hmodest : Modest 0 (insn.trans dc T) := modest_trans T insn
  have hsets := hmodest.2 b (Nat.zero_le _) hlabels
  generalize htrans : (insn.trans dc T).run b = r at hsets
  obtain ⟨⟨decoded, jmp⟩, b₁⟩ := r
  have hcode : (insnCode T dc insn).run b = if !decoded then
      (undefInsn (dc.setIsJmp jmp) >>= fun dc => pure dc.advance).run b₁
      else ((dc.setIsJmp jmp).advance, b₁) := by
    unfold insnCode
    rw [Gen.run_bind, htrans]
    cases decoded <;> rfl
  rw [hcode] at hrun
  unfold GuestInsn.step
  cases decoded with
  | true =>
    obtain ⟨rfl, rfl⟩ := Prod.mk.inj hrun
    refine ⟨rfl, ?_⟩
    have hsettles : Settles (guestEffects (fpuEffects H T rest)) dc C b b₁ s (true, jmp)
        (GuestInsn.execute H dc.cfg dc.curInsnLen (Cpu.setPc (cpuOf dc C s) dc.base.pcNext) insn) :=
      settles_trans hself hnext insn hlabels htrans hC
    cases hexec : GuestInsn.execute H dc.cfg dc.curInsnLen
        (Cpu.setPc (cpuOf dc C s) dc.base.pcNext) insn with
    | some after =>
      rw [hexec] at hsettles
      exact hsettles.2
    | none =>
      rw [hexec] at hsettles
      cases hsettles.1
  | false =>
    have hgrow := (undefInsn (dc.setIsJmp jmp)).extends_run b₁
    have hrun' : (undefInsn (dc.setIsJmp jmp)).run b₁ =
        ((undefInsn (dc.setIsJmp jmp)).run b₁ |>.1, b') := by
      rw [← (Prod.mk.inj hrun).2]
    rw [hrun'] at hgrow
    have hsettles : Settles (guestEffects (fpuEffects H T rest)) dc C b b₁ s (false, jmp)
        (GuestInsn.execute H dc.cfg dc.curInsnLen (Cpu.setPc (cpuOf dc C s) dc.base.pcNext) insn) :=
      settles_trans hself hnext insn hlabels htrans (hgrow.ctx.trans hC)
    have hsame : SameTemps dc (dc.setIsJmp jmp) := ⟨rfl, rfl, rfl, rfl, rfl, rfl⟩
    cases hexec : GuestInsn.execute H dc.cfg dc.curInsnLen
        (Cpu.setPc (cpuOf dc C s) dc.base.pcNext) insn with
    | some after =>
      rw [hexec] at hsettles
      cases hsettles.1
    | none =>
      rw [hexec] at hsettles
      obtain ⟨-, s₁, hcpu, hreach⟩ := hsettles
      have hquits : Quits (guestEffects (fpuEffects H T rest)) C (undefInsn (dc.setIsJmp jmp)) _
          b₁.ctx.nbTemps s₁ := quits_undefInsn (hsame.globals hself)
      obtain ⟨exit, s', ⟨hr, rfl, hcpu'⟩, hexits⟩ := hquits b₁ rfl hsets.2 (by rw [hrun']; exact hC)
      rw [hrun'] at hr hexits
      have hdc' : dc' = ((dc.setIsJmp jmp).setIsJmp .noReturn).advance := by
        rw [← (Prod.mk.inj hrun).1, ← hr]
      refine ⟨by rw [hdc']; rfl, ?_⟩
      have hfinal : cpuOf dc C s' = Cpu.setPc (cpuOf dc C s) dc.base.pcNext := by
        rw [← hcpu]
        exact hcpu'
      rw [Option.getD_none, ← hfinal]
      refine .traps (by decide) fun back => exits_of_reaches ?_ (hexits back)
      exact forall_back_extend (P := fun ops => Reaches _ C ops b.ops.length s b₁.ops.length s₁)
        hgrow hreach back

/-- A translation that gives up is that of an undefined instruction. -/
theorem step_of_refused (hself : Globals dc C) (hnext : dc.base.isJmp = .next) {insn : GuestInsn}
    (hlabels : LabelsBelow b.nbLabels b.ops) (hrefused : ((insn.trans dc T).run b).1.1 = false)
    (hC : ((insn.trans dc T).run b).2.ctx.Extends C) (H : HostFloat) (s : State Guest) :
    GuestInsn.step H dc.cfg dc.curInsnLen (Cpu.setPc (cpuOf dc C s) dc.base.pcNext) insn =
      (Cpu.setPc (cpuOf dc C s) dc.base.pcNext, some EXCP_UNDEF) := by
  have hsettles : Settles (guestEffects (fpuEffects H T noEffects)) dc C b
      ((insn.trans dc T).run b).2 s ((insn.trans dc T).run b).1
      (GuestInsn.execute H dc.cfg dc.curInsnLen (Cpu.setPc (cpuOf dc C s) dc.base.pcNext) insn) :=
    settles_trans hself hnext insn hlabels rfl hC
  unfold GuestInsn.step
  cases hexec : GuestInsn.execute H dc.cfg dc.curInsnLen
      (Cpu.setPc (cpuOf dc C s) dc.base.pcNext) insn with
  | none => rfl
  | some after =>
    rw [hexec] at hsettles
    obtain ⟨hknown, -⟩ := hsettles
    rw [hrefused] at hknown
    cases hknown

/-- Without FS every instruction on floating-point registers is refused or traps. -/
theorem step_fp_off {c : Cpu} (hfs : fsOf c = 0) (cfg : RiscvCfg) (len : Nat) (insn : FpInsn) :
    GuestInsn.step H cfg len c (.fp insn) = (c, some EXCP_UNDEF) := by
  unfold GuestInsn.step GuestInsn.execute straightAfter
  dsimp only
  cases hmisa : cfg.misa.contains (FpInsn.ext insn) with
  | true =>
    rw [if_pos ⟨rfl, hfs⟩]
    rfl
  | false =>
    rw [if_neg fun h => (by cases h.1)]
    rfl

theorem exits_of_goes {E : Effects Guest} {jmp : DisasJumpType} {c : Cpu} {code : Nat}
    (h : Goes E dc C b b' s jmp (c, some code)) :
    ∃ s', cpuOf dc C s' = c ∧ Exits E C b'.ops b.ops.length s (.exitTb code) s' := by
  cases h with
  | @traps s' _ _ _ hexits =>
    have hexit := hexits []
    rw [List.append_nil] at hexit
    exact ⟨s', rfl, hexit⟩

/-! ## One turn -/

theorem translateInsn_run (I : InsnSet) (T : HelperTable) (code : GuestCode)
    (dc : RiscvDisasContext) (b : Builder) : ∃ len,
    (translateInsn (I.decoder T) code dc).run b =
      (insnCode T (dc.setCurInsnLen len) (I.insnAt dc.cfg code dc.base.pcNext)).run b ∧
    ((decodeInsn (I.decoder T) code dc).run b).1.1 =
      (((I.insnAt dc.cfg code dc.base.pcNext).trans (dc.setCurInsnLen len) T).run b).1.1 ∧
    ∀ (H : HostFloat) (c : Cpu), GuestInsn.step H dc.cfg len c (I.insnAt dc.cfg code dc.base.pcNext) =
      GuestInsn.step H dc.cfg (insnLength code dc.base.pcNext) c
        (I.insnAt dc.cfg code dc.base.pcNext) := by
  unfold translateInsn decodeInsn InsnSet.insnAt insnLength
  dsimp only
  by_cases hhalf : fetchInsn16 code dc.base.pcNext &&& 0x3 ≠ 0x3
  · rw [if_pos hhalf, if_pos hhalf, if_pos hhalf]
    cases hC : dc.cfg.misa.contains .C with
    | true => exact ⟨2, rfl, rfl, fun _ _ => rfl⟩
    | false => exact ⟨dc.curInsnLen, rfl, rfl, fun _ _ => rfl⟩
  · rw [if_neg hhalf, if_neg hhalf, if_neg hhalf]
    exact ⟨4, rfl, rfl, fun _ _ => rfl⟩

theorem goes_prefix {E : Effects Guest} {b₁ : Builder} {s₁ : State Guest} {jmp : DisasJumpType}
    {r : Cpu × Option Nat}
    (h : ∀ back, Reaches E C (b'.ops ++ back) b.ops.length s b₁.ops.length s₁)
    (hgoes : Goes E dc C b₁ b' s₁ jmp r) : Goes E dc C b b' s jmp r := by
  cases hgoes with
  | on hcpu hreach => exact .on hcpu fun back => reaches_trans (h back) (hreach back)
  | leaves hslot hexits => exact .leaves hslot fun back => exits_of_reaches (h back) (hexits back)
  | traps hcode hexits => exact .traps hcode fun back => exits_of_reaches (h back) (hexits back)

/-- What one turn of the loop leaves. -/
structure TurnDone (E : Effects Guest) (C : Context) (dc dc' : RiscvDisasContext) (b b' : Builder)
    (s : State Guest) (r : Cpu × Option Nat) : Prop where
  same : SameTemps dc dc'
  labels : LabelsBelow b'.nbLabels b'.ops
  goes : ∃ dc₂, SameTemps dc dc₂ ∧ dc₂.link = dc'.base.pcNext ∧ Goes E dc₂ C b b' s dc'.base.isJmp r

theorem translateOne_done (hself : Globals dc C) (hnext : dc.base.isJmp = .next)
    (hlabels : LabelsBelow b.nbLabels b.ops)
    (hrun : (translateOne (I.decoder T) code dc).run b = (dc', b')) (hC : b'.ctx.Extends C)
    (s : State Guest) :
    TurnDone (guestEffects (fpuEffects H T rest)) C dc dc' b b' s
      (I.step H dc.cfg code (Cpu.setPc (cpuOf dc C s) dc.base.pcNext)) := by
  -- the mark, which does nothing
  let dc₁ : RiscvDisasContext := { dc with base := { dc.base with numInsns := dc.base.numInsns + 1 } }
  let b₁ := ((genInsnStart dc.base.pcNext).run b).2
  obtain ⟨len, hinsn, -, hstep⟩ := translateInsn_run I T code dc₁ b₁
  have hrun' : (insnCode T (dc₁.setCurInsnLen len)
      (I.insnAt dc.cfg code dc.base.pcNext)).run b₁ = (dc', b') := hinsn.symm.trans hrun
  have hlabels₁ : LabelsBelow b₁.nbLabels b₁.ops :=
    (setsBelow_emitOp (k := 0) (fun h => (by cases h)) b (Nat.zero_le _) hlabels).2
  have hgrow := (insnCode T (dc₁.setCurInsnLen len)
    (I.insnAt dc.cfg code dc.base.pcNext)).extends_run b₁
  rw [hrun'] at hgrow
  have hsame : SameTemps dc (dc₁.setCurInsnLen len) := ⟨rfl, rfl, rfl, rfl, rfl, rfl⟩
  have hinsnCode : dc' = ((dc₁.setCurInsnLen len).setIsJmp dc'.base.isJmp).advance ∧
      Goes (guestEffects (fpuEffects H T rest)) (dc₁.setCurInsnLen len) C b₁ b' s dc'.base.isJmp
        (GuestInsn.step H dc.cfg len (Cpu.setPc (cpuOf dc C s) dc.base.pcNext)
          (I.insnAt dc.cfg code dc.base.pcNext)) :=
    goes_insnCode (hsame.globals hself) hnext _ hlabels₁ hrun' hC s
  obtain ⟨hdc', hgoes⟩ := hinsnCode
  have hlabels' := (setsBelow_insnCode T (dc₁.setCurInsnLen len)
    (I.insnAt dc.cfg code dc.base.pcNext) b₁ (Nat.zero_le _) hlabels₁).2
  rw [hrun'] at hlabels'
  have hmark : ∀ back, Reaches (guestEffects (fpuEffects H T rest)) C (b'.ops ++ back)
      b.ops.length s b₁.ops.length s := by
    refine forall_back_extend (P := fun ops => Reaches _ C ops b.ops.length s b₁.ops.length s) hgrow
      fun back => ?_
    have hlen : b₁.ops.length = b.ops.length + 1 := List.length_append
    rw [hlen]
    have hget : (b₁.ops ++ back)[b.ops.length + 0]? = some (Op.withArgs .insnStart .i64
        [(dc.base.pcNext.setWidth 32).toNat, ((dc.base.pcNext >>> 32).setWidth 32).toNat]) := by
      have hops : b₁.ops ++ back = b.ops ++ ([_] ++ back) := List.append_assoc _ _ _
      rw [hops]
      exact getElem?_append_add rfl
    exact reaches_step hget rfl
  refine ⟨by rw [hdc']; exact ⟨rfl, rfl, rfl, rfl, rfl, rfl⟩, hlabels',
    dc₁.setCurInsnLen len, hsame, by rw [hdc']; rfl, goes_prefix hmark ?_⟩
  have hmachine : I.step H dc.cfg code (Cpu.setPc (cpuOf dc C s) dc.base.pcNext) =
      GuestInsn.step H dc.cfg len (Cpu.setPc (cpuOf dc C s) dc.base.pcNext)
        (I.insnAt dc.cfg code dc.base.pcNext) := (hstep H _).symm
  rw [hmachine]
  exact hgoes

/-! ## The loop -/

/-- The exception of an exit; the chain slots have none. -/
def trapOf (val : Nat) : Option Nat := if val ≤ TB_EXIT_NOCHAIN then none else some val

/-- What the loop leaves after `n` instructions: the code goes on behind the last one, or has left the
block. -/
inductive LoopDone (E : Effects Guest) (C : Context) (step : Cpu → Cpu × Option Nat)
    (dc dc' : RiscvDisasContext) (b b' : Builder) (s : State Guest) (c : Cpu) (n : Nat) : Prop
  | falls {s' : State Guest} (hjmp : dc'.base.isJmp = .tooMany)
      (hrun : TrapRun step n c (Cpu.setPc (cpuOf dc C s') dc'.base.pcNext, none))
      (hreach : ∀ back, Reaches E C (b'.ops ++ back) b.ops.length s b'.ops.length s')
  | leaves {s' : State Guest} {val : Nat} (hrun : TrapRun step n c (cpuOf dc C s', trapOf val))
      (hexits : ∀ back, Exits E C (b'.ops ++ back) b.ops.length s (.exitTb val) s')

/-- One turn that has left the block, or may. -/
theorem loopDone_of_goes {E : Effects Guest} {step : Cpu → Cpu × Option Nat} {c : Cpu}
    {dc₁ dc₂ : RiscvDisasContext} (hsame : SameTemps dc dc₂) {jmp : DisasJumpType}
    (hlink : dc₂.link = dc₁.base.pcNext) (hgoes : Goes E dc₂ C b b' s jmp (step c)) :
    LoopDone E C step dc dc₁ b b' s c 1 ∨ jmp = .next ∧ ∃ s',
      step c = (Cpu.setPc (cpuOf dc C s') dc₁.base.pcNext, none) ∧
        ∀ back, Reaches E C (b'.ops ++ back) b.ops.length s b'.ops.length s' := by
  generalize hstep : step c = r at hgoes
  cases hgoes with
  | @on s' c' hcpu hreach =>
    refine .inr ⟨rfl, s', ?_, hreach⟩
    rw [← hcpu, hlink, hsame.cpuOf_eq]
  | @leaves s' slot hslot hexits =>
    refine .inl (.leaves ?_ hexits)
    rw [trapOf, if_pos hslot, ← hsame.cpuOf_eq, ← hstep]
    exact .single c
  | @traps s' val _ hval hexits =>
    refine .inl (.leaves ?_ hexits)
    rw [trapOf, if_neg (Nat.not_le_of_lt hval), ← hsame.cpuOf_eq, ← hstep]
    exact .single c

theorem LoopDone.extend {E : Effects Guest} {step : Cpu → Cpu × Option Nat} {c : Cpu}
    {dc₁ dc₂ : RiscvDisasContext} {b₁ : Builder} (hb : b₁.Extends b') (hjmp : dc₁.base.isJmp = .next)
    (h : LoopDone E C step dc dc₁ b b₁ s c n) : LoopDone E C step dc dc₂ b b' s c n := by
  cases h with
  | falls htoo _ _ =>
    rw [hjmp] at htoo
    cases htoo
  | @leaves s' val hrun hexits =>
    exact .leaves hrun (forall_back_extend (P := fun ops => Exits E C ops _ s (.exitTb val) s') hb hexits)

/-- A turn after which the loop goes on. -/
theorem LoopDone.cons {E : Effects Guest} {step : Cpu → Cpu × Option Nat} {c c₁ : Cpu}
    {dc₁ : RiscvDisasContext} {b₁ : Builder} {s₁ : State Guest} (hsame : SameTemps dc dc₁)
    (hstep : step c = (c₁, none))
    (hreach : ∀ back, Reaches E C (b'.ops ++ back) b.ops.length s b₁.ops.length s₁)
    (h : LoopDone E C step dc₁ dc' b₁ b' s₁ c₁ n) : LoopDone E C step dc dc' b b' s c (n + 1) := by
  cases h with
  | falls hjmp hrun hreach' =>
    rw [hsame.cpuOf_eq] at hrun
    exact .falls hjmp (.cons hstep hrun) fun back => reaches_trans (hreach back) (hreach' back)
  | leaves hrun hexits =>
    rw [hsame.cpuOf_eq] at hrun
    exact .leaves (.cons hstep hrun) fun back => exits_of_reaches (hreach back) (hexits back)

theorem translateLoop_extends {D : Decoder} {fuel : Nat}
    (hloop : translateLoop D code fuel dc b = some (dc', b')) : b.Extends b' := by
  induction fuel generalizing dc b with
  | zero => cases hloop
  | succ fuel ih =>
    unfold translateLoop at hloop
    have hgrow := (translateOne D code dc).extends_run b
    dsimp only at hloop
    split_ifs at hloop
    · exact (Prod.mk.inj (Option.some.inj hloop)).2 ▸ hgrow
    · exact (Prod.mk.inj (Option.some.inj hloop)).2 ▸ hgrow
    · exact hgrow.trans (ih hloop)

theorem translateLoop_done {fuel : Nat} (hself : Globals dc C) (hnext : dc.base.isJmp = .next)
    (hlabels : LabelsBelow b.nbLabels b.ops)
    (hloop : translateLoop (I.decoder T) code fuel dc b = some (dc', b')) (hC : b'.ctx.Extends C)
    (s : State Guest) : SameTemps dc dc' ∧ ∃ n, 1 ≤ n ∧
      LoopDone (guestEffects (fpuEffects H T rest)) C (I.step H dc.cfg code) dc dc' b b' s
        (Cpu.setPc (cpuOf dc C s) dc.base.pcNext) n := by
  induction fuel generalizing dc b s with
  | zero => cases hloop
  | succ fuel ih =>
    unfold translateLoop at hloop
    generalize hone : (translateOne (I.decoder T) code dc).run b = r at hloop
    obtain ⟨dc₁, b₁⟩ := r
    dsimp only at hloop
    have hturn (hC₁ : b₁.ctx.Extends C) : TurnDone (guestEffects (fpuEffects H T rest)) C dc dc₁ b b₁ s
        (I.step H dc.cfg code (Cpu.setPc (cpuOf dc C s) dc.base.pcNext)) :=
      translateOne_done hself hnext hlabels hone hC₁ s
    split_ifs at hloop with hjmp hlimit
    · -- the instruction ends the block
      obtain ⟨rfl, rfl⟩ := Prod.mk.inj (Option.some.inj hloop)
      obtain ⟨hsame, -, dc₂, hsame₂, hlink, hgoes⟩ := hturn hC
      refine ⟨hsame, 1, le_rfl, ?_⟩
      obtain hdone | ⟨hjmp', -⟩ := loopDone_of_goes hsame₂ hlink hgoes
      · exact hdone
      · exact absurd hjmp' hjmp
    · -- the limit is reached
      obtain ⟨rfl, rfl⟩ := Prod.mk.inj (Option.some.inj hloop)
      obtain ⟨hsame, -, dc₂, hsame₂, hlink, hgoes⟩ := hturn hC
      refine ⟨hsame.trans ⟨rfl, rfl, rfl, rfl, rfl, rfl⟩, 1, le_rfl, ?_⟩
      obtain hdone | ⟨-, s', hstep, hreach⟩ := loopDone_of_goes hsame₂ hlink hgoes
      · exact hdone.extend (.refl b₁) (not_not.mp hjmp)
      · refine .falls rfl ?_ hreach
        have hrun : TrapRun (I.step H dc.cfg code) 1 (Cpu.setPc (cpuOf dc C s) dc.base.pcNext)
            (I.step H dc.cfg code (Cpu.setPc (cpuOf dc C s) dc.base.pcNext)) := .single _
        rw [hstep] at hrun
        exact hrun
    · -- the loop goes on
      have hb' := translateLoop_extends hloop
      obtain ⟨hsame, hlabels₁, dc₂, hsame₂, hlink, hgoes⟩ := hturn (hb'.ctx.trans hC)
      have hnext₁ : dc₁.base.isJmp = .next := not_not.mp hjmp
      obtain hdone | ⟨-, s₁, hstep, hreach⟩ := loopDone_of_goes hsame₂ hlink hgoes
      · obtain ⟨hsame', -⟩ := ih (hsame.globals hself) hnext₁ hlabels₁ hloop s
        exact ⟨hsame.trans hsame', 1, le_rfl, hdone.extend hb' hnext₁⟩
      · obtain ⟨hsame', n, hn, hdone⟩ := ih (hsame.globals hself) hnext₁ hlabels₁ hloop s₁
        rw [hsame.cpuOf_eq, hsame.cfg_eq] at hdone
        refine ⟨hsame.trans hsame', n + 1, Nat.le_add_left 1 n, hdone.cons hsame hstep ?_⟩
        exact forall_back_extend (P := fun ops => Reaches _ C ops b.ops.length s b₁.ops.length s₁)
          hb' hreach

/-! ## Blocks -/

theorem quits_fallThrough (hself : Globals dc C) :
    Quits (guestEffects rest) C (fallThrough dc) (fun _ e s' => e = .exitTb 0 ∧
      cpuOf dc C s' = Cpu.setPc (cpuOf dc C s) dc.base.pcNext) n s := by
  refine quits_bind (setsBelow_newConst _ _) (does_newConst fun c n1 _ hc => ?_)
  refine quits_bind (setsBelow_emitTo (by decide) _ _ _) (does_mov ?_)
  refine quits_bind (setsBelow_gotoTb _) (does_gotoTb (quits_exitTb ⟨rfl, ?_⟩))
  rw [cpuOf_setPc hself, hc.val]

/-- The labels that a loop sets are its own. -/
theorem translateLoop_labels {fuel : Nat} (hlabels : LabelsBelow b.nbLabels b.ops)
    (hloop : translateLoop (I.decoder T) code fuel dc b = some (dc', b')) :
    LabelsBelow b'.nbLabels b'.ops := by
  have hone (dc : RiscvDisasContext) : SetsBelow 0 (translateOne (I.decoder T) code dc) := by
    intro b hk hb
    let dc₁ : RiscvDisasContext :=
      { dc with base := { dc.base with numInsns := dc.base.numInsns + 1 } }
    obtain ⟨len, hinsn, -, -⟩ := translateInsn_run I T code dc₁ ((genInsnStart dc.base.pcNext).run b).2
    have hmark : SetsBelow 0 (genInsnStart dc.base.pcNext) :=
      setsBelow_emitOp fun h => (by cases h)
    obtain ⟨hle, hb₁⟩ := hmark b hk hb
    have hcode := setsBelow_insnCode T (dc₁.setCurInsnLen len)
      (I.insnAt dc₁.cfg code dc₁.base.pcNext) _ (Nat.zero_le _) hb₁
    rw [← hinsn] at hcode
    exact ⟨hle.trans hcode.1, hcode.2⟩
  induction fuel generalizing dc b with
  | zero => cases hloop
  | succ fuel ih =>
    unfold translateLoop at hloop
    have hb₁ := (hone dc b (Nat.zero_le _) hlabels).2
    dsimp only at hloop
    split_ifs at hloop
    · exact (Prod.mk.inj (Option.some.inj hloop)).2 ▸ hb₁
    · exact (Prod.mk.inj (Option.some.inj hloop)).2 ▸ hb₁
    · exact ih hb₁ hloop

/-- The loop and the end of the block, in a context whose temps are registered. -/
theorem loop_executes {dc₀ dc₁ : RiscvDisasContext} {b₀ b₁ : Builder} {fuel : Nat}
    (hself : Globals dc₀ b₀.ctx) (hops : b₀.ops = []) (hnext : dc₀.base.isJmp = .next)
    (hloop : translateLoop (I.decoder T) code fuel dc₀ b₀ = some (dc₁, b₁))
    (hC : ((tbStop dc₁).run b₁).2.ctx.Extends C) (H : HostFloat) (rest : Effects Guest)
    (s : State Guest) :
    ∃ n s' val, 1 ≤ n ∧ TrapRun (I.step H dc₀.cfg code) n
        (Cpu.setPc (cpuOf dc₁ C s) dc₀.base.pcNext) (cpuOf dc₁ C s', trapOf val) ∧
      Exits (guestEffects (fpuEffects H T rest)) C ((tbStop dc₁).run b₁).2.ops 0 s
        (.exitTb val) s' := by
  have hlabels : LabelsBelow b₀.nbLabels b₀.ops := by
    rw [hops]
    exact fun _ hop => (by cases hop)
  have hgrow := translateLoop_extends hloop
  have hend := (tbStop dc₁).extends_run b₁
  have hself : Globals dc₀ C := hself.extend ((hgrow.trans hend).ctx.trans hC) b₀.globals_le
  obtain ⟨hsame, n, hn, hdone⟩ : SameTemps dc₀ dc₁ ∧ ∃ n, 1 ≤ n ∧
      LoopDone (guestEffects (fpuEffects H T rest)) C (I.step H dc₀.cfg code) dc₀ dc₁ b₀ b₁ s
        (Cpu.setPc (cpuOf dc₀ C s) dc₀.base.pcNext) n :=
    translateLoop_done hself hnext hlabels hloop (hend.ctx.trans hC) s
  simp only [hsame.cpuOf_eq]
  cases hdone with
  | @leaves s' val hrun hexits =>
    have hexit := forall_back_extend
      (P := fun ops => Exits _ C ops b₀.ops.length s (.exitTb val) s') hend hexits []
    rw [hops, List.append_nil] at hexit
    exact ⟨n, s', val, hn, hrun, hexit⟩
  | @falls s' htoo hrun hreach =>
    have hstop : tbStop dc₁ = fallThrough dc₁ := by
      rw [tbStop_eq, htoo]
      rfl
    rw [hstop] at hend hC ⊢
    have hquits : Quits (guestEffects (fpuEffects H T rest)) C (fallThrough dc₁)
        (fun _ e s'' => e = .exitTb 0 ∧
          cpuOf dc₁ C s'' = Cpu.setPc (cpuOf dc₁ C s') dc₁.base.pcNext) b₁.ctx.nbTemps s' :=
      quits_fallThrough (hsame.globals hself)
    obtain ⟨exit, s'', ⟨rfl, hcpu⟩, hexits⟩ :=
      hquits b₁ rfl (translateLoop_labels hlabels hloop) hC
    rw [hsame.cpuOf_eq, hsame.cpuOf_eq] at hcpu
    have hfirst := forall_back_extend
      (P := fun ops => Reaches _ C ops b₀.ops.length s b₁.ops.length s') hend hreach []
    have hexit := exits_of_reaches hfirst (hexits [])
    rw [hops, List.append_nil] at hexit
    exact ⟨n, s'', 0, hn, by rw [hcpu]; exact hrun, hexit⟩

/-- The temps of the first translation, in a later one. -/
theorem globals_registered (d : RiscvDisasContext) (h : b.ctx.nbGlobals = 36) :
    Globals d.registered b.ctx := by
  refine InitialTemps.globals ⟨rfl, ?_, rfl, rfl, rfl, h⟩
  intro r
  exact Nat.add_comm 1 r.val

/-- A block is the loop from some context with registered temps. -/
theorem genCode_parts {D : Decoder} {cfg : RiscvCfg} {pc : BitVec 64} {maxInsns size : BitVec 32}
    {fuel : Nat} (hb : BetweenBlocks b) (hops : b.ops = [])
    (h : genCode D code cfg pc maxInsns fuel b = some (size, dc', b')) :
    ∃ dc₀ b₀ b₁, Globals dc₀ b₀.ctx ∧ b₀.ops = [] ∧ dc₀.base = ⟨pc, pc, .next, 0, maxInsns.toNat⟩ ∧
      dc₀.cfg = cfg ∧ translateLoop D code fuel dc₀ b₀ = some (dc', b₁) ∧
      ((tbStop dc').run b₁).2 = b' := by
  let d := (RiscvDisasContext.new pc cfg).setMaxInsns maxInsns.toNat
  unfold genCode at h
  dsimp only at h
  obtain hfresh | hlater := hb
  · rw [if_pos hfresh.1] at h
    obtain ⟨⟨dc₀, b₀⟩, hinit, hreg⟩ := initDisasContext_some d (hfresh.2.trans hfresh.1.symm)
    obtain ⟨⟨dc₁, b₁⟩, hblock, hsome⟩ := Option.bind_eq_some_iff.mp h
    obtain ⟨-, hend⟩ := Prod.mk.inj (Option.some.inj hsome)
    obtain ⟨rfl, rfl⟩ := Prod.mk.inj hend
    obtain ⟨p, hp, hrest⟩ := Option.bind_eq_some_iff.mp hblock
    obtain rfl : (dc₀, b₀) = p := Option.some.inj (hinit.symm.trans hp)
    obtain ⟨⟨dc₂, b₂⟩, hloop, hstop⟩ := Option.bind_eq_some_iff.mp hrest
    obtain ⟨rfl, rfl⟩ := Prod.mk.inj (Option.some.inj hstop)
    exact ⟨dc₀, b₀, b₂, (initialTemps hfresh.1 hinit).globals, hreg.ops_eq.trans hops, hreg.base_eq,
      hreg.cfg_eq, hloop, rfl⟩
  · have hnonzero : b.ctx.nbGlobals ≠ 0 := by omega
    rw [if_neg hnonzero] at h
    obtain ⟨⟨dc₁, b₁⟩, hloop, hsome⟩ := Option.bind_eq_some_iff.mp h
    obtain ⟨-, hend⟩ := Prod.mk.inj (Option.some.inj hsome)
    obtain ⟨rfl, rfl⟩ := Prod.mk.inj hend
    exact ⟨d.registered, b, b₁, globals_registered d hlater, hops, rfl, rfl, hloop, rfl⟩

/-- A translated block, from any state: it does what some instructions of the machine do from its start
on, and is left at the exit that goes with the last one. -/
theorem block_executes {cfg : RiscvCfg} {pc : BitVec 64} {maxInsns size : BitVec 32} {fuel : Nat}
    (hb : BetweenBlocks b) (hops : b.ops = [])
    (h : genCode (I.decoder T) code cfg pc maxInsns fuel b = some (size, dc', b'))
    (hC : b'.ctx.Extends C) (H : HostFloat) (rest : Effects Guest) (s : State Guest) :
    ∃ n s' val, 1 ≤ n ∧
      TrapRun (I.step H cfg code) n (Cpu.setPc (cpuOf dc' C s) pc) (cpuOf dc' C s', trapOf val) ∧
      Exits (guestEffects (fpuEffects H T rest)) C b'.ops 0 s (.exitTb val) s' := by
  obtain ⟨dc₀, b₀, b₁, hself, hops₀, hbase, hcfg, hloop, rfl⟩ := genCode_parts hb hops h
  obtain ⟨n, s', val, hn, hrun, hexits⟩ :=
    loop_executes hself hops₀ (by rw [hbase]) hloop hC H rest s
  rw [hbase, hcfg] at hrun
  exact ⟨n, s', val, hn, hrun, hexits⟩

end

end TcgRs.Analysis.GuestBlocks
