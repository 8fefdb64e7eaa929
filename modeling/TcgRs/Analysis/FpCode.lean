import Mathlib.Data.List.GetD
import TcgRs.Analysis.CpuFields
import TcgRs.Analysis.GeneratedControl
import TcgRs.Analysis.GuestAccess
import TcgRs.Interface.RiscvFpExec

/-!
# Floating-point code

The check in front of a floating-point instruction leaves the block when FS is Off, and else goes on
to straight code, which reads the operands, calls a helper and writes the result.
-/

set_option autoImplicit false

namespace TcgRs.Analysis.FpCode

open TcgRs.Model TcgRs.Model.Ir TcgRs.Model.Riscv TcgRs.Interface.Ir TcgRs.Interface.RiscvExec
open GeneratedCode GeneratedControl GuestCode GuestAccess CpuFields

variable {self : RiscvDisasContext} {C : Context} {rest : Effects Guest} {n : Nat} {s : State Guest}

/-! ## Straight code in a block -/

/-- Straight code at the end of a block leads behind itself, whatever follows. -/
theorem reaches_of_does {σ α : Type} {E : Effects σ} {g : Gen α} {s : State σ}
    {Q : α → Nat → State σ → Prop} {b : Builder} (h : Does E C g Q b.ctx.nbTemps s)
    (hC : (g.run b).2.ctx.Extends C) :
    ∃ s', Q (g.run b).1 (g.run b).2.ctx.nbTemps s' ∧ ∀ back,
      Reaches E C ((g.run b).2.ops ++ back) b.ops.length s (g.run b).2.ops.length s' := by
  obtain ⟨s', hs', hQ⟩ := h.interprets rfl hC
  refine ⟨s', hQ, fun back => ?_⟩
  rw [ops_eq (g.extends_run b), List.length_append, List.append_assoc]
  exact reaches_of_interprets hs' b.ops back

/-- What holds in a block whatever follows holds in a longer one. -/
theorem forall_back_extend {P : List Op → Prop} {b b' : Builder} (hb : b.Extends b')
    (h : ∀ back, P (b.ops ++ back)) (back : List Op) : P (b'.ops ++ back) := by
  rw [ops_eq hb, List.append_assoc]
  exact h _

/-! ## The check -/

/-- The first part of the check: FS and a zero. -/
def fsStatus (self : RiscvDisasContext) : Gen (Nat × Nat) := do
  let status ← newTemp .i64
  let _ ← genLd .i64 status self.env USTATUS_OFFSET
  let mask ← newConst .i64 USTATUS_FS_MASK
  let fs ← newTemp .i64
  let _ ← genAnd .i64 fs status mask
  let off ← newConst .i64 0
  return (fs, off)

/-- The second part: leave the block if they are equal. -/
def trapUnless (self : RiscvDisasContext) (fs off : Nat) : Gen Unit := do
  let ok ← newLabel
  genBrCond .i64 fs off .ne ok
  let pc ← newConst .i64 self.base.pcNext
  let _ ← genMov .i64 self.pc pc
  genExitTb EXCP_UNDEF
  genSetLabel ok

theorem genFpCheck_eq (self : RiscvDisasContext) :
    self.genFpCheck = fsStatus self >>= fun p => trapUnless self p.1 p.2 := rfl

theorem does_fsStatus (hself : Globals self C) :
    Does (guestEffects rest) C (fsStatus self)
      (fun p _ s' => s'.world = s.world ∧ cpuOf self C s' = cpuOf self C s ∧
        val C s' p.1 = fsOf (cpuOf self C s) ∧ val C s' p.2 = 0) n s := by
  unfold fsStatus
  refine does_bind (does_newTemp fun hstatus => ?_)
  refine does_bind (does_ldField .ustatus ?_)
  refine does_bind (does_newConst fun mask n1 hn1 hmask => ?_)
  refine does_bind (does_newTemp fun hfs => ?_)
  refine does_bind (does_binary rfl ?_)
  refine does_bind (does_newConst fun off n2 hn2 hoff => ?_)
  refine does_pure ⟨rfl, ?_, ?_, hoff.val _⟩
  · rw [cpuOf_setTemp hself hfs, cpuOf_setTemp hself hstatus]
  · dsimp only
    rw [val_setTemp_self hfs, val_setTemp_self hstatus, hmask.val]
    rfl

theorem setsBelow_fsStatus {k : Nat} (self : RiscvDisasContext) : SetsBelow k (fsStatus self) := by
  refine setsBelow_bind (setsBelow_newTemp _) fun status => ?_
  refine setsBelow_bind (setsBelow_emitTo (by decide) _ _ _) fun _ => ?_
  refine setsBelow_bind (setsBelow_newConst _ _) fun mask => ?_
  refine setsBelow_bind (setsBelow_newTemp _) fun fs => ?_
  refine setsBelow_bind (setsBelow_emitTo (by decide) _ _ _) fun _ => ?_
  exact setsBelow_bind (setsBelow_newConst _ _) fun _ => setsBelow_pure _

/-- The ops of the second part. -/
def trapOps (self : RiscvDisasContext) (fs off ok pc : Nat) : List Op :=
  [Op.withArgs .brCond .i64 [fs, off, Cond.ne.code, ok], Op.withArgs .mov .i64 [self.pc, pc],
    Op.withArgs .exitTb .i64 [EXCP_UNDEF], Op.withArgs .setLabel .i64 [ok]]

theorem trapUnless_ops {b : Builder} {fs off : Nat}
    (hC : ((trapUnless self fs off).run b).2.ctx.Extends C) :
    ∃ pc, IsConst C pc self.base.pcNext ∧
      ((trapUnless self fs off).run b).2.ops = b.ops ++ trapOps self fs off b.nbLabels pc := by
  let b₁ := ((do let ok ← newLabel; genBrCond .i64 fs off .ne ok : Gen Unit).run b).2
  have hdoes : Does noEffects C (newConst .i64 self.base.pcNext)
      (fun c _ _ => IsConst C c self.base.pcNext) b₁.ctx.nbTemps blankState :=
    does_newConst fun _ _ _ h => h
  obtain ⟨-, hconst⟩ := hdoes b₁ rfl hC
  refine ⟨_, hconst, ?_⟩
  have hops : ((newConst .i64 self.base.pcNext).run b₁).2.ops = b₁.ops := by
    unfold newConst
    dsimp only
    split <;> rfl
  have hrun : ((trapUnless self fs off).run b).2.ops =
      ((newConst .i64 self.base.pcNext).run b₁).2.ops ++
        [Op.withArgs .mov .i64 [self.pc, ((newConst .i64 self.base.pcNext).run b₁).1]] ++
        [Op.withArgs .exitTb .i64 [EXCP_UNDEF]] ++ [Op.withArgs .setLabel .i64 [b.nbLabels]] := rfl
  have hfirst : b₁.ops =
      b.ops ++ [Op.withArgs .brCond .i64 [fs, off, Cond.ne.code, b.nbLabels]] := rfl
  rw [hrun, hops, hfirst]
  simp only [List.append_assoc]
  rfl

theorem setsBelow_trapUnless {k : Nat} (self : RiscvDisasContext) (fs off : Nat) :
    SetsBelow k (trapUnless self fs off) := by
  refine setsBelow_newLabel fun ok => ?_
  refine setsBelow_bind (setsBelow_emitOp nofun) fun _ => ?_
  refine setsBelow_bind (setsBelow_newConst _ _) fun pc => ?_
  refine setsBelow_bind (setsBelow_emitTo (by decide) _ _ _) fun _ => ?_
  refine setsBelow_bind (setsBelow_emitOp nofun) fun _ => ?_
  exact setsBelow_emitOp fun _ => Nat.lt_of_lt_of_le (Nat.lt_succ_self ok) (Nat.le_max_right _ _)

/-- The CPU with the address of the instruction in the program counter. -/
def Cpu.setPc (c : Cpu) (pc : BitVec 64) : Cpu := { c with hart := { c.hart with pc := pc } }

theorem cpuOf_setPc (hself : Globals self C) (v : BitVec 64) :
    cpuOf self C (setTemp s self.pc v) = Cpu.setPc (cpuOf self C s) v := by
  have hspecial := hself.special
  simp only [List.nodup_cons, List.mem_cons, List.not_mem_nil, or_false, not_or] at hspecial
  apply Cpu.ext
  · unfold cpuOf hartOf Cpu.setPc
    rw [Hart.mk.injEq]
    refine ⟨?_, ?_, ?_, ?_, rfl⟩
    · funext r
      exact if_congr .rfl rfl (valueOf_update_of_ne (hself.pc_ne r).symm v s.temps)
    · exact valueOf_update_self (hself.var _ hself.pc_lt) v s.temps
    · exact valueOf_update_of_ne (Ne.symm hspecial.2.1.1) v s.temps
    · exact valueOf_update_of_ne (Ne.symm hspecial.2.1.2) v s.temps
  · funext field
    exact congrArg (fun base => s.world.host (field.addr base))
      (valueOf_update_of_ne hspecial.1.1 v s.temps)

/-- The comparison of the check. -/
theorem ne_holds (x y : BitVec 64) :
    condAtType .i64 (condOfCarg Cond.ne.code) x y = !decide (x = y) := by
  rw [condOfCarg_code]
  rfl

section
variable {E : Effects Guest} {fs off ok pc : Nat} {front back : List Op}

/-- FS is not Off: the branch is taken. -/
theorem reaches_trapOps (hfront : LabelsBelow ok front) (hne : val C s fs ≠ val C s off) :
    Reaches E C (front ++ (trapOps self fs off ok pc ++ back)) front.length s
      (front.length + 4) s := by
  have hbranch : (front ++ (trapOps self fs off ok pc ++ back))[front.length + 0]? =
      some (Op.withArgs .brCond .i64 [fs, off, Cond.ne.code, ok]) := getElem?_append_add rfl
  have hlabel : (front ++ (trapOps self fs off ok pc ++ back))[front.length + 3]? =
      some (Op.withArgs .setLabel .i64 [ok]) := getElem?_append_add rfl
  have hpos : labelPos (front ++ (trapOps self fs off ok pc ++ back)) ok =
      some (front.length + 3) := by
    refine labelPos_append hfront ?_ (i := 3) rfl rfl rfl
    intro op hop hset
    simp only [trapOps, List.take, List.mem_cons, List.not_mem_nil, or_false] at hop
    rcases hop with rfl | rfl | rfl <;> cases hset
  have htaken : nextPc C (front ++ (trapOps self fs off ok pc ++ back)) (front.length + 0)
      (Op.withArgs .brCond .i64 [fs, off, Cond.ne.code, ok]) s =
        some (.inl (front.length + 3)) := by
    show (if condAtType .i64 (condOfCarg Cond.ne.code) (val C s fs) (val C s off) = true then
      (labelPos _ ok).map Sum.inl else _) = _
    rw [ne_holds, decide_eq_false hne, hpos]
    rfl
  exact reaches_trans (reaches_step hbranch htaken) (reaches_step hlabel rfl)

/-- FS is Off: the code behind the branch leaves the block. -/
theorem exits_trapOps (heq : val C s fs = val C s off) :
    Exits E C (front ++ (trapOps self fs off ok pc ++ back)) front.length s
      (.exitTb EXCP_UNDEF) (setTemp s self.pc (val C s pc)) := by
  have hbranch : (front ++ (trapOps self fs off ok pc ++ back))[front.length + 0]? =
      some (Op.withArgs .brCond .i64 [fs, off, Cond.ne.code, ok]) := getElem?_append_add rfl
  have hmov : (front ++ (trapOps self fs off ok pc ++ back))[front.length + 1]? =
      some (Op.withArgs .mov .i64 [self.pc, pc]) := getElem?_append_add rfl
  have hexit : (front ++ (trapOps self fs off ok pc ++ back))[front.length + 2]? =
      some (Op.withArgs .exitTb .i64 [EXCP_UNDEF]) := getElem?_append_add rfl
  have hnot : nextPc C (front ++ (trapOps self fs off ok pc ++ back)) (front.length + 0)
      (Op.withArgs .brCond .i64 [fs, off, Cond.ne.code, ok]) s =
        some (.inl (front.length + 1)) := by
    show (if condAtType .i64 (condOfCarg Cond.ne.code) (val C s fs) (val C s off) = true then
      _ else _) = _
    rw [ne_holds, decide_eq_true heq]
    rfl
  exact exits_of_reaches (reaches_trans (reaches_step hbranch hnot) (reaches_step hmov rfl))
    (exits_step hexit rfl)

end

/-- The check leaves the CPU as it is and goes on behind itself if FS is not Off, and leaves the block
with the address of the instruction if it is. -/
theorem genFpCheck_spec (hself : Globals self C) {b : Builder}
    (hb : LabelsBelow b.nbLabels b.ops) (hC : (self.genFpCheck.run b).2.ctx.Extends C)
    (s : State Guest) :
    ∃ s₁, s₁.world = s.world ∧ cpuOf self C s₁ = cpuOf self C s ∧
      (fsOf (cpuOf self C s) ≠ 0 → ∀ back, Reaches (guestEffects rest) C
        ((self.genFpCheck.run b).2.ops ++ back) b.ops.length s
        (self.genFpCheck.run b).2.ops.length s₁) ∧
      (fsOf (cpuOf self C s) = 0 → ∀ back, Exits (guestEffects rest) C
        ((self.genFpCheck.run b).2.ops ++ back) b.ops.length s (.exitTb EXCP_UNDEF)
        (setTemp s₁ self.pc self.base.pcNext)) := by
  rw [genFpCheck_eq, Gen.run_bind] at *
  generalize hrun₁ : (fsStatus self).run b = r₁ at *
  obtain ⟨⟨fs, off⟩, b₁⟩ := r₁
  have htail := (trapUnless self fs off).extends_run b₁
  obtain ⟨s₁, ⟨hworld, hcpu, hfs, hzero⟩, hreach⟩ :=
    reaches_of_does (does_fsStatus (n := b.ctx.nbTemps) (s := s) hself)
      (hrun₁ ▸ htail.ctx.trans hC)
  have hb₁ := (setsBelow_fsStatus (k := 0) self b (Nat.zero_le _) hb).2
  rw [hrun₁] at hfs hzero hreach hb₁
  obtain ⟨pc, hpc, hops⟩ := trapUnless_ops hC
  refine ⟨s₁, hworld, hcpu, ?_, ?_⟩
  · intro hon back
    have hne : val C s₁ fs ≠ val C s₁ off := by
      rw [hfs, hzero]
      exact hon
    have hfirst := hreach (trapOps self fs off b₁.nbLabels pc ++ back)
    rw [hops, List.length_append, List.append_assoc]
    exact reaches_trans hfirst (reaches_trapOps hb₁ hne)
  · intro hoff back
    have heq : val C s₁ fs = val C s₁ off := by
      rw [hfs, hzero]
      exact hoff
    have hfirst := hreach (trapOps self fs off b₁.nbLabels pc ++ back)
    rw [hops, List.append_assoc, ← hpc.val s₁]
    exact exits_of_reaches hfirst (exits_trapOps heq)

/-! ## Operands -/

/-- A temp whose value later code does not change: it is fixed, or older than that code. -/
def IsOld (C : Context) (n t : Nat) : Prop := IsFixed C t ∨ t < n

/-- The values of such temps are the same. -/
def KeepsOld (C : Context) (n : Nat) (s s' : State Guest) : Prop :=
  ∀ t, IsOld C n t → val C s' t = val C s t

theorem IsOld.mono {n' t : Nat} (h : IsOld C n t) (hn : n ≤ n') : IsOld C n' t :=
  h.imp_right fun ht => lt_of_lt_of_le ht hn

theorem KeepsOld.refl (n : Nat) (s : State Guest) : KeepsOld C n s s := fun _ _ => rfl

theorem KeepsOld.trans {n' : Nat} {s₁ s₂ : State Guest} (h : KeepsOld C n s s₁) (hn : n ≤ n')
    (h' : KeepsOld C n' s₁ s₂) : KeepsOld C n s s₂ :=
  fun t ht => (h' t (ht.mono hn)).trans (h t ht)

theorem KeepsOld.setTemp {s' : State Guest} (h : KeepsOld C n s s') {d : Nat} (hd : IsLocal C d)
    (hn : n ≤ d) (v : BitVec 64) : KeepsOld C n s (GeneratedCode.setTemp s' d v) := by
  intro t ht
  have hne : t ≠ d := by
    cases ht with
    | inl hfixed => exact hfixed.ne hd
    | inr hlt => exact Nat.ne_of_lt (lt_of_lt_of_le hlt hn)
  rw [val_setTemp_of_ne hne, h t ht]

/-- Code that computes a value: it makes temps, and leaves the CPU as it is. -/
def Computes (self : RiscvDisasContext) (C : Context) (n : Nat) (s : State Guest) (v : BitVec 64)
    (t n' : Nat) (s' : State Guest) : Prop :=
  n ≤ n' ∧ IsOld C n' t ∧ KeepsOld C n s s' ∧ cpuOf self C s' = cpuOf self C s ∧ val C s' t = v

theorem does_gpr (hself : Globals self C) {E : Effects Guest} (r : Fin 32) :
    Does E C (self.gprOrZero r) (Computes self C n s ((cpuOf self C s).hart.x r)) n s :=
  does_gprOrZero hself fun _ _ hn ht hval => ⟨hn, .inl ht, .refl n s, rfl, hval⟩

theorem does_const {E : Effects Guest} (v : BitVec 64) :
    Does E C (newConst .i64 v) (Computes self C n s v) n s :=
  does_newConst fun _ _ hn hc => ⟨hn, .inl hc.isFixed, .refl n s, rfl, hc.val s⟩

theorem does_fprLoad (hself : Globals self C) (idx : Fin 32) :
    Does (guestEffects rest) C (self.fprLoad idx)
      (Computes self C n s ((cpuOf self C s).field (.fpr idx))) n s := by
  unfold RiscvDisasContext.fprLoad
  refine does_bind (does_newTemp fun ht => ?_)
  refine does_ldField (.fpr idx) ⟨Nat.le_succ n, .inr (Nat.lt_succ_self n), ?_, ?_, ?_⟩
  · exact (KeepsOld.refl n s).setTemp ht le_rfl _
  · exact cpuOf_setTemp hself ht _
  · exact val_setTemp_self ht s _

theorem does_genAddr (hself : Globals self C) (rs1 : Fin 32) (imm : BitVec 64) :
    Does (guestEffects rest) C (self.genAddr rs1 imm)
      (Computes self C n s ((cpuOf self C s).hart.x rs1 + imm)) n s := by
  unfold RiscvDisasContext.genAddr
  refine does_bind ((does_gpr hself rs1).mono ?_)
  rintro base n1 s1 ⟨hn1, hbase, hkeep, hcpu, hval⟩
  split
  · refine does_bind (does_newConst fun c n2 hn2 hc => ?_)
    refine does_bind (does_newTemp fun ht => ?_)
    refine does_binary rfl ⟨by omega, .inr (Nat.lt_succ_self _), ?_, ?_, ?_⟩
    · exact hkeep.setTemp ht (by omega) _
    · rw [cpuOf_setTemp hself ht, hcpu]
    · rw [val_setTemp_self ht, hval, hc.val]
      rfl
  · rename_i hzero
    refine does_pure ⟨hn1, hbase, hkeep, hcpu, ?_⟩
    rw [hval, not_not.mp hzero]
    exact (BitVec.add_zero _).symm

/-- The value of an argument of a helper. -/
def operandValue (c : Cpu) : FpOperand → BitVec 64
  | .fpr idx => c.field (.fpr idx)
  | .gpr idx => c.hart.x idx
  | .rm mode => mode

theorem does_fpOperand (hself : Globals self C) (o : FpOperand) :
    Does (guestEffects rest) C (self.fpOperand o)
      (Computes self C n s (operandValue (cpuOf self C s) o)) n s := by
  cases o with
  | fpr idx => exact does_fprLoad hself idx
  | gpr idx => exact does_gpr hself idx
  | rm mode => exact does_const mode

theorem does_fpOperands (hself : Globals self C) (os : List FpOperand) :
    Does (guestEffects rest) C (self.fpOperands os)
      (fun ts n' s' => n ≤ n' ∧ (∀ t ∈ ts, IsOld C n' t) ∧ KeepsOld C n s s' ∧
        cpuOf self C s' = cpuOf self C s ∧
        ts.map (val C s') = os.map (operandValue (cpuOf self C s))) n s := by
  induction os generalizing n s with
  | nil => exact does_pure ⟨le_rfl, nofun, .refl n s, rfl, rfl⟩
  | cons o os ih =>
    refine does_bind ((does_fpOperand hself o).mono ?_)
    rintro t n1 s1 ⟨hn1, ht, hkeep1, hcpu1, hval⟩
    refine does_bind (ih.mono ?_)
    rintro ts n2 s2 ⟨hn2, hts, hkeep2, hcpu2, hvals⟩
    refine does_pure ⟨hn1.trans hn2, ?_, hkeep1.trans hn1 hkeep2, hcpu2.trans hcpu1, ?_⟩
    · exact List.forall_mem_cons.mpr ⟨ht.mono hn2, hts⟩
    · rw [List.map_cons, List.map_cons, hvals, hkeep2 t ht, hval, hcpu1]

/-! ## Calls -/

theorem helperAddr_split (a : BitVec 64) :
    helperAddr (a.setWidth 32).toNat ((a >>> 32).setWidth 32).toNat = a := by
  unfold helperAddr
  rw [BitVec.ofNat_toNat, BitVec.ofNat_toNat, BitVec.setWidth_eq, BitVec.setWidth_eq]
  apply BitVec.eq_of_getLsbD_eq
  intro i hi
  simp only [BitVec.getLsbD_append, BitVec.getLsbD_setWidth, BitVec.getLsbD_ushiftRight]
  grind

/-- The state after a helper has left its flags and rounding mode. -/
def setFpEnv (self : RiscvDisasContext) (C : Context) (s : State Guest) (env : FpEnv) :
    State Guest := setField self C (setField self C s .fflags env.fflags) .frm env.frm

theorem cpuOf_setFpEnv (env : FpEnv) :
    cpuOf self C (setFpEnv self C s env) = (cpuOf self C s).setFpEnv env := by
  unfold setFpEnv Cpu.setFpEnv
  rw [cpuOf_setField, cpuOf_setField]

/-- What a helper returns and leaves. -/
def callResult (H : HostFloat) (helper : FpHelper) (c : Cpu) (xs : List (BitVec 64)) :
    BitVec 64 × FpEnv := helper.call H c.fpEnv fun i => xs.getD i 0

/-- The arguments behind the env pointer; `c0` fills them up. -/
def passed (C : Context) (s : State Guest) (args : List Nat) (c0 : Nat) : List (BitVec 64) :=
  [0, 1, 2, 3, 4].map fun i => val C s (args.getD i c0)

theorem passed_getD {args : List Nat} {c0 : Nat} (hlen : args.length ≤ 5) (hc0 : val C s c0 = 0) :
    (fun i => (passed C s args c0).getD i 0) = fun i => (args.map (val C s)).getD i 0 := by
  funext i
  by_cases hi : i < 5
  · have hpassed : (passed C s args c0).getD i 0 = val C s (args.getD i c0) := by
      match i, hi with
      | 0, _ | 1, _ | 2, _ | 3, _ | 4, _ => rfl
    rw [hpassed, ← hc0, List.getD_map]
  · rw [List.getD_eq_default _ _ (by simpa [passed] using hi),
      List.getD_eq_default _ _ (by rw [List.length_map]; omega)]

/-- The state after a call that has returned. -/
def afterCall (dst : Nat) (s : State Guest) (r : (Nat → BitVec 64) × Guest) : State Guest :=
  ⟨Function.update s.temps dst (r.1 0), r.2⟩

theorem fpuEffects_call {H : HostFloat} {T : HelperTable} {lo hi : Nat} {helper : FpHelper}
    (hfind : T.find (helperAddr lo hi) = some helper) {ty : IrType} (args : List (BitVec 64))
    (globals : Nat → BitVec 64) :
    (fpuEffects H T rest).run .call ty [lo, hi] (val C s self.env :: args) globals s.world =
      (fun _ => (callResult H helper (cpuOf self C s) args).1,
        (setFpEnv self C s (callResult H helper (cpuOf self C s) args).2).world) := by
  have henv : (cpuOf self C s).fpEnv = ⟨s.world.host (CpuField.fflags.addr (val C s self.env)),
    s.world.host (CpuField.frm.addr (val C s self.env))⟩ := rfl
  unfold fpuEffects callResult
  dsimp only
  rw [hfind, henv]
  rfl

theorem does_genHelperCall {H : HostFloat} {T : HelperTable} (hself : Globals self C)
    (helper : FpHelper) {args : List Nat} (hlen : args.length ≤ 5) {xs : List (BitVec 64)}
    (hargs : args.map (val C s) = xs) :
    Does (guestEffects (fpuEffects H T rest)) C
      (RiscvDisasContext.genHelperCall (T.addr helper) (self.env :: args))
      (fun t _ s' =>
        cpuOf self C s' =
          (cpuOf self C s).setFpEnv (callResult H helper (cpuOf self C s) xs).2 ∧
        val C s' t = (callResult H helper (cpuOf self C s) xs).1) n s := by
  unfold RiscvDisasContext.genHelperCall
  refine does_bind (does_newTemp fun hdst => ?_)
  unfold genCall
  refine does_bind (does_newConst fun c0 n1 hn1 hc0 => ?_)
  refine does_bind (does_emitOp rfl (does_pure ?_))
  have hexec : execOp (guestEffects (fpuEffects H T rest)) C (Op.withArgs .call .i64
      [n, self.env, args.getD 0 c0, args.getD 1 c0, args.getD 2 c0, args.getD 3 c0,
        args.getD 4 c0, ((T.addr helper).setWidth 32).toNat,
        ((T.addr helper >>> 32).setWidth 32).toNat]) s =
      setTemp (setFpEnv self C s (callResult H helper (cpuOf self C s) xs).2) n
        (callResult H helper (cpuOf self C s) xs).1 := by
    have hxs : (fun i => (passed C s args c0).getD i 0) = fun i => xs.getD i 0 := by
      rw [← hargs]
      exact passed_getD hlen (hc0.val s)
    have hrun : execOp (guestEffects (fpuEffects H T rest)) C (Op.withArgs .call .i64
        [n, self.env, args.getD 0 c0, args.getD 1 c0, args.getD 2 c0, args.getD 3 c0,
          args.getD 4 c0, ((T.addr helper).setWidth 32).toNat,
          ((T.addr helper >>> 32).setWidth 32).toNat]) s =
        afterCall n s ((fpuEffects H T rest).run .call .i64
          [((T.addr helper).setWidth 32).toNat, ((T.addr helper >>> 32).setWidth 32).toNat]
          (val C s self.env :: passed C s args c0) (globalsOf C s.temps) s.world) := rfl
    rw [hrun, fpuEffects_call (helperAddr_split (T.addr helper) ▸ T.find_addr helper)]
    unfold callResult
    rw [← hxs]
    rfl
  exact hexec ▸ ⟨(cpuOf_setTemp hself hdst _).trans (cpuOf_setFpEnv _), val_setTemp_self hdst _ _⟩

/-! ## Instructions -/

/-- What an instruction does behind the check. -/
inductive FpBody where
  | call (helper : FpHelper) (operands : List FpOperand) (dest : FpDest)
  | load (a : ArgsI) (memop : MemOp) (isSingle : Bool)
  | store (a : ArgsS) (memop : MemOp) (isSingle : Bool)
  | toGpr (a : ArgsR2) (isSingle : Bool)
  | ofGpr (a : ArgsR2) (isSingle : Bool)

/-- Whether it writes a floating-point register. -/
def FpBody.writesFpr : FpBody → Bool
  | .call _ _ dest => dest.isFpr
  | .load _ _ _ | .ofGpr _ _ => true
  | .store _ _ _ | .toGpr _ _ => false

/-- Its code. -/
def FpBody.code (self : RiscvDisasContext) (T : HelperTable) : FpBody → Gen Unit
  | .call helper operands dest => do
    let args ← self.fpOperands operands
    let res ← RiscvDisasContext.genHelperCall (T.addr helper) (self.env :: args)
    self.fpDest res dest
  | .load a memop isSingle => do
    let addr ← self.genAddr a.rs1 a.imm
    let val ← newTemp .i64
    let _ ← genQemuLd .i64 val addr memop
    if isSingle then
      let boxed ← RiscvDisasContext.genBox val
      self.fprStore a.rd boxed
    else
      self.fprStore a.rd val
  | .store a memop isSingle => do
    let addr ← self.genAddr a.rs1 a.imm
    let val ← self.fprLoad a.rs2
    if isSingle then
      let lo32 ← newTemp .i32
      let _ ← genExtrlI64I32 lo32 val
      let lo64 ← newTemp .i64
      let _ ← genExtI32I64 lo64 lo32
      genQemuSt .i64 lo64 addr memop
    else
      genQemuSt .i64 val addr memop
  | .toGpr a isSingle => do
    let val ← self.fprLoad a.rs1
    if isSingle then
      let lo32 ← newTemp .i32
      let _ ← genExtrlI64I32 lo32 val
      self.genSetGprSx32 a.rd lo32
    else
      self.genSetGpr a.rd val
  | .ofGpr a isSingle => do
    let src ← self.gprOrZero a.rs1
    if isSingle then
      let lo32 ← newTemp .i32
      let _ ← genExtrlI64I32 lo32 src
      let lo64 ← newTemp .i64
      let _ ← genExtUI32I64 lo64 lo32
      let boxed ← RiscvDisasContext.genBox lo64
      self.fprStore a.rd boxed
    else
      self.fprStore a.rd src

def FpInsn.ext : FpInsn → MisaExt
  | .fld _ | .fsd _ | .fmvXD _ | .fmvDX _ | .fclassD _
  | .fmaddD _ | .fmsubD _ | .fnmsubD _ | .fnmaddD _ | .faddD _ | .fsubD _ | .fmulD _ | .fdivD _
  | .fsgnjD _ | .fsgnjnD _ | .fsgnjxD _ | .fminD _ | .fmaxD _ | .feqD _ | .fltD _ | .fleD _
  | .fsqrtD _ | .fcvtSD _ | .fcvtDS _ | .fcvtWD _ | .fcvtWuD _ | .fcvtLD _ | .fcvtLuD _
  | .fcvtDW _ | .fcvtDWu _ | .fcvtDL _ | .fcvtDLu _ => .D
  | _ => .F

def fma (helper : FpHelper) (a : ArgsR4Rm) : FpBody :=
  .call helper [.fpr a.rs1, .fpr a.rs2, .fpr a.rs3, .rm a.rm] (.fpr a.rd)

def arith (helper : FpHelper) (a : ArgsRRm) : FpBody :=
  .call helper [.fpr a.rs1, .fpr a.rs2, .rm a.rm] (.fpr a.rd)

def unary (helper : FpHelper) (a : ArgsR2Rm) : FpBody :=
  .call helper [.fpr a.rs1, .rm a.rm] (.fpr a.rd)

def binary (helper : FpHelper) (a : ArgsR) : FpBody :=
  .call helper [.fpr a.rs1, .fpr a.rs2] (.fpr a.rd)

def compare (helper : FpHelper) (a : ArgsR) : FpBody :=
  .call helper [.fpr a.rs1, .fpr a.rs2] (.gpr a.rd)

def classify (helper : FpHelper) (a : ArgsR2) : FpBody :=
  .call helper [.fpr a.rs1] (.gpr a.rd)

def toInt (helper : FpHelper) (a : ArgsR2Rm) : FpBody :=
  .call helper [.fpr a.rs1, .rm a.rm] (.gpr a.rd)

def ofInt (helper : FpHelper) (a : ArgsR2Rm) : FpBody :=
  .call helper [.gpr a.rs1, .rm a.rm] (.fpr a.rd)

def FpInsn.body : FpInsn → FpBody
  | .flw a => .load a .ul true
  | .fld a => .load a .uq false
  | .fsw a => .store a .ul true
  | .fsd a => .store a .uq false
  | .fmvXW a => .toGpr a true
  | .fmvXD a => .toGpr a false
  | .fmvWX a => .ofGpr a true
  | .fmvDX a => .ofGpr a false
  | .fmaddS a => fma .fmaddS a
  | .fmsubS a => fma .fmsubS a
  | .fnmsubS a => fma .fnmsubS a
  | .fnmaddS a => fma .fnmaddS a
  | .fmaddD a => fma .fmaddD a
  | .fmsubD a => fma .fmsubD a
  | .fnmsubD a => fma .fnmsubD a
  | .fnmaddD a => fma .fnmaddD a
  | .faddS a => arith .faddS a
  | .fsubS a => arith .fsubS a
  | .fmulS a => arith .fmulS a
  | .fdivS a => arith .fdivS a
  | .faddD a => arith .faddD a
  | .fsubD a => arith .fsubD a
  | .fmulD a => arith .fmulD a
  | .fdivD a => arith .fdivD a
  | .fsqrtS a => unary .fsqrtS a
  | .fsqrtD a => unary .fsqrtD a
  | .fcvtSD a => unary .fcvtSD a
  | .fcvtDS a => unary .fcvtDS a
  | .fsgnjS a => binary .fsgnjS a
  | .fsgnjnS a => binary .fsgnjnS a
  | .fsgnjxS a => binary .fsgnjxS a
  | .fminS a => binary .fminS a
  | .fmaxS a => binary .fmaxS a
  | .fsgnjD a => binary .fsgnjD a
  | .fsgnjnD a => binary .fsgnjnD a
  | .fsgnjxD a => binary .fsgnjxD a
  | .fminD a => binary .fminD a
  | .fmaxD a => binary .fmaxD a
  | .feqS a => compare .feqS a
  | .fltS a => compare .fltS a
  | .fleS a => compare .fleS a
  | .feqD a => compare .feqD a
  | .fltD a => compare .fltD a
  | .fleD a => compare .fleD a
  | .fclassS a => classify .fclassS a
  | .fclassD a => classify .fclassD a
  | .fcvtWS a => toInt .fcvtWS a
  | .fcvtWuS a => toInt .fcvtWuS a
  | .fcvtLS a => toInt .fcvtLS a
  | .fcvtLuS a => toInt .fcvtLuS a
  | .fcvtWD a => toInt .fcvtWD a
  | .fcvtWuD a => toInt .fcvtWuD a
  | .fcvtLD a => toInt .fcvtLD a
  | .fcvtLuD a => toInt .fcvtLuD a
  | .fcvtSW a => ofInt .fcvtSW a
  | .fcvtSWu a => ofInt .fcvtSWu a
  | .fcvtSL a => ofInt .fcvtSL a
  | .fcvtSLu a => ofInt .fcvtSLu a
  | .fcvtDW a => ofInt .fcvtDW a
  | .fcvtDWu a => ofInt .fcvtDWu a
  | .fcvtDL a => ofInt .fcvtDL a
  | .fcvtDLu a => ofInt .fcvtDLu a

/-- All instructions have the same form. -/
theorem trans_eq (insn : FpInsn) (self : RiscvDisasContext) (T : HelperTable) :
    insn.trans self T =
      self.genFpInsn (FpInsn.ext insn) (FpInsn.body insn).writesFpr
        ((FpInsn.body insn).code self T) := by
  cases insn <;> rfl

/-- A single-precision value with the upper half all ones. -/
def boxed (val : BitVec 64) : BitVec 64 := val ||| 0xffffffff00000000

def Cpu.setDest (c : Cpu) (v : BitVec 64) : FpDest → Cpu
  | .fpr idx => c.setField (.fpr idx) v
  | .gpr idx => c.setReg idx v

def Cpu.setMem (c : Cpu) (mem : GuestMemory) : Cpu := { c with hart := { c.hart with mem := mem } }

/-- What it leaves. -/
def FpBody.after (H : HostFloat) (c : Cpu) : FpBody → Cpu
  | .call helper operands dest =>
    let r := callResult H helper c (operands.map (operandValue c))
    Cpu.setDest (c.setFpEnv r.2) r.1 dest
  | .load a memop isSingle =>
    let val := loadValue memop c.hart.mem (c.hart.x a.rs1 + a.imm)
    c.setField (.fpr a.rd) (if isSingle then boxed val else val)
  | .store a memop isSingle =>
    let val := c.field (.fpr a.rs2)
    Cpu.setMem c (storeValue memop c.hart.mem (c.hart.x a.rs1 + a.imm)
      (if isSingle then (val.setWidth 32).signExtend 64 else val))
  | .toGpr a isSingle =>
    let val := c.field (.fpr a.rs1)
    c.setReg a.rd (if isSingle then (val.setWidth 32).signExtend 64 else val)
  | .ofGpr a isSingle =>
    let val := c.hart.x a.rs1
    c.setField (.fpr a.rd) (if isSingle then boxed ((val.setWidth 32).setWidth 64) else val)

/-- The CPU after an instruction that passes the check. -/
def FpInsn.after (H : HostFloat) (insn : FpInsn) (c : Cpu) : Cpu :=
  (FpInsn.body insn).after H (if (FpInsn.body insn).writesFpr then fsDirty c else c)

/-! ## What the code does -/

section
variable {H : HostFloat} {T : HelperTable}

theorem does_genBox {E : Effects Guest} (hself : Globals self C) (t : Nat) :
    Does E C (RiscvDisasContext.genBox t) (Computes self C n s (boxed (val C s t))) n s := by
  unfold RiscvDisasContext.genBox
  refine does_bind (does_newConst fun mask n1 hn1 hmask => ?_)
  refine does_bind (does_newTemp fun hboxed => ?_)
  refine does_binary rfl ⟨by omega, .inr (Nat.lt_succ_self _), ?_, ?_, ?_⟩
  · exact (KeepsOld.refl n s).setTemp hboxed hn1 _
  · exact cpuOf_setTemp hself hboxed _
  · rw [val_setTemp_self hboxed, hmask.val]
    rfl

theorem does_fprStore (idx : Fin 32) {t : Nat} {v : BitVec 64} (hv : val C s t = v) :
    Does (guestEffects rest) C (self.fprStore idx t)
      (fun _ _ s' => cpuOf self C s' = (cpuOf self C s).setField (.fpr idx) v) n s :=
  does_stField (.fpr idx) (by rw [cpuOf_setField, hv])

theorem does_fpDest (hself : Globals self C) (dest : FpDest) {t : Nat} {v : BitVec 64}
    (hv : val C s t = v) :
    Does (guestEffects rest) C (self.fpDest t dest)
      (fun _ _ s' => cpuOf self C s' = Cpu.setDest (cpuOf self C s) v dest) n s := by
  cases dest with
  | fpr idx => exact does_fprStore idx hv
  | gpr idx => exact does_genSetGpr (by rw [cpuOf_setGpr hself, hv]; rfl)

theorem does_low (hself : Globals self C) {E : Effects Guest} {lo32 a : Nat}
    (hlo : IsLocal C lo32) {Q : Nat → Nat → State Guest → Prop}
    (h : ∀ s', cpuOf self C s' = cpuOf self C s →
      val C s' lo32 = ((val C s a).setWidth 32).setWidth 64 → Q lo32 n s') :
    Does E C (genExtrlI64I32 lo32 a) Q n s :=
  does_extrlI64I32 (h _ (cpuOf_setTemp hself hlo _) (val_setTemp_self hlo _ _))

theorem does_call (hself : Globals self C) (helper : FpHelper) {operands : List FpOperand}
    (hlen : operands.length ≤ 5) (dest : FpDest) :
    Does (guestEffects (fpuEffects H T rest)) C ((FpBody.call helper operands dest).code self T)
      (fun _ _ s' => cpuOf self C s' =
        (FpBody.call helper operands dest).after H (cpuOf self C s)) n s := by
  unfold FpBody.code
  refine does_bind ((does_fpOperands hself operands).mono ?_)
  rintro ts n1 s1 ⟨hn1, hts, hkeep, hcpu1, hvals⟩
  have hlen' : ts.length ≤ 5 := by
    have hsame := congrArg List.length hvals
    rw [List.length_map, List.length_map] at hsame
    omega
  refine does_bind ((does_genHelperCall hself helper hlen' hvals).mono ?_)
  rintro t n2 s2 ⟨hcpu2, hval⟩
  refine (does_fpDest hself dest hval).mono ?_
  intro _ _ s3 hcpu3
  rw [hcpu3, hcpu2, hcpu1]
  rfl

theorem does_load (hself : Globals self C) (a : ArgsI) (memop : MemOp) (isSingle : Bool) :
    Does (guestEffects rest) C ((FpBody.load a memop isSingle).code self T)
      (fun _ _ s' => cpuOf self C s' =
        (FpBody.load a memop isSingle).after H (cpuOf self C s)) n s := by
  unfold FpBody.code FpBody.after
  refine does_bind ((does_genAddr hself a.rs1 a.imm).mono ?_)
  rintro addr n1 s1 ⟨hn1, haddr, hkeep, hcpu1, hval⟩
  refine does_bind (does_newTemp fun hv => ?_)
  refine does_bind (does_qemuLd ?_)
  have hmem : s1.world.mem = (cpuOf self C s).hart.mem := by rw [← hcpu1]; rfl
  rw [hval, hmem]
  generalize hs2 : setTemp s1 n1 _ = s2
  have hcpu2 : cpuOf self C s2 = cpuOf self C s := by rw [← hs2, cpuOf_setTemp hself hv, hcpu1]
  have hval2 : val C s2 n1 = loadValue memop (cpuOf self C s).hart.mem
      ((cpuOf self C s).hart.x a.rs1 + a.imm) := by rw [← hs2, val_setTemp_self hv]
  cases isSingle with
  | true =>
    refine does_bind ((does_genBox hself n1).mono ?_)
    rintro boxed n3 s3 ⟨-, -, -, hcpu3, hval3⟩
    rw [hval2] at hval3
    refine (does_fprStore a.rd hval3).mono ?_
    intro _ _ s4 hcpu4
    rw [hcpu4, hcpu3, hcpu2]
    rfl
  | false =>
    refine (does_fprStore a.rd hval2).mono ?_
    intro _ _ s3 hcpu3
    rw [hcpu3, hcpu2]
    rfl

theorem does_store (hself : Globals self C) (a : ArgsS) (memop : MemOp) (isSingle : Bool) :
    Does (guestEffects rest) C ((FpBody.store a memop isSingle).code self T)
      (fun _ _ s' => cpuOf self C s' =
        (FpBody.store a memop isSingle).after H (cpuOf self C s)) n s := by
  unfold FpBody.code FpBody.after
  refine does_bind ((does_genAddr hself a.rs1 a.imm).mono ?_)
  rintro addr n1 s1 ⟨hn1, haddr, hkeep1, hcpu1, hval1⟩
  refine does_bind ((does_fprLoad hself a.rs2).mono ?_)
  rintro v n2 s2 ⟨hn2, hv, hkeep2, hcpu2, hval2⟩
  have haddr2 : val C s2 addr = (cpuOf self C s).hart.x a.rs1 + a.imm :=
    (hkeep2 addr haddr).trans hval1
  cases isSingle with
  | true =>
    refine does_bind (does_newTemp fun hlo32 => ?_)
    refine does_bind (does_extrlI64I32 ?_)
    refine does_bind (does_newTemp fun hlo64 => ?_)
    refine does_bind (does_extI32I64 (does_qemuSt ?_))
    have hne32 : addr ≠ n2 := by
      cases haddr.mono hn2 with
      | inl h => exact h.ne hlo32
      | inr h => exact Nat.ne_of_lt h
    have hne64 : addr ≠ n2 + 1 := by
      cases haddr.mono hn2 with
      | inl h => exact h.ne hlo64
      | inr h => exact Nat.ne_of_lt (Nat.lt_succ_of_lt h)
    rw [val_setTemp_self hlo64, val_setTemp_self hlo32, val_setTemp_of_ne hne64,
      val_setTemp_of_ne hne32, haddr2, hval2, low_zext]
    show Cpu.setMem (cpuOf self C (setTemp (setTemp s2 _ _) _ _))
      (storeValue memop (cpuOf self C s2).hart.mem _ _) = _
    rw [cpuOf_setTemp hself hlo64, cpuOf_setTemp hself hlo32, hcpu2, hcpu1]
    rfl
  | false =>
    refine does_qemuSt ?_
    rw [haddr2, hval2]
    show Cpu.setMem (cpuOf self C s2) (storeValue memop (cpuOf self C s2).hart.mem _ _) = _
    rw [hcpu2, hcpu1]
    rfl

theorem does_toGpr (hself : Globals self C) (a : ArgsR2) (isSingle : Bool) :
    Does (guestEffects rest) C ((FpBody.toGpr a isSingle).code self T)
      (fun _ _ s' => cpuOf self C s' =
        (FpBody.toGpr a isSingle).after H (cpuOf self C s)) n s := by
  unfold FpBody.code FpBody.after
  refine does_bind ((does_fprLoad hself a.rs1).mono ?_)
  rintro v n1 s1 ⟨hn1, hv, hkeep, hcpu1, hval⟩
  cases isSingle with
  | true =>
    refine does_bind (does_newTemp fun hlo => ?_)
    refine does_bind (does_low hself hlo fun s2 hcpu2 hval2 => does_genSetGprSx32 ?_)
    rw [cpuOf_setGpr hself, hval2, hval, low_zext, hcpu2, hcpu1]
    rfl
  | false =>
    refine does_genSetGpr ?_
    rw [cpuOf_setGpr hself, hval, hcpu1]
    rfl

theorem does_ofGpr (hself : Globals self C) (a : ArgsR2) (isSingle : Bool) :
    Does (guestEffects rest) C ((FpBody.ofGpr a isSingle).code self T)
      (fun _ _ s' => cpuOf self C s' =
        (FpBody.ofGpr a isSingle).after H (cpuOf self C s)) n s := by
  unfold FpBody.code FpBody.after
  refine does_bind ((does_gpr hself a.rs1).mono ?_)
  rintro src n1 s1 ⟨hn1, hsrc, hkeep, hcpu1, hval⟩
  cases isSingle with
  | true =>
    refine does_bind (does_newTemp fun hlo => ?_)
    refine does_bind (does_low hself hlo fun s2 hcpu2 hval2 => ?_)
    refine does_bind (does_newTemp fun hlo64 => ?_)
    refine does_bind (does_emitTo rfl ?_)
    rw [execOp_convert (f := fun x => (x.setWidth 32).setWidth 64) rfl, hval2, hval, low_zext]
    refine does_bind ((does_genBox hself (n1 + 1)).mono ?_)
    rintro boxed n3 s3 ⟨-, -, -, hcpu3, hval3⟩
    rw [val_setTemp_self hlo64] at hval3
    refine (does_fprStore a.rd hval3).mono ?_
    intro _ _ s4 hcpu4
    rw [hcpu4, hcpu3, cpuOf_setTemp hself hlo64, hcpu2, hcpu1]
    rfl
  | false =>
    refine (does_fprStore a.rd hval).mono ?_
    intro _ _ s2 hcpu2
    rw [hcpu2, hcpu1]
    rfl

theorem operands_le {insn : FpInsn} {helper : FpHelper} {operands : List FpOperand}
    {dest : FpDest} (h : FpInsn.body insn = .call helper operands dest) :
    operands.length ≤ 5 := by
  cases insn <;> cases h <;> exact Nat.le_of_ble_eq_true rfl

theorem does_code (hself : Globals self C) (insn : FpInsn) :
    Does (guestEffects (fpuEffects H T rest)) C ((FpInsn.body insn).code self T)
      (fun _ _ s' => cpuOf self C s' = (FpInsn.body insn).after H (cpuOf self C s)) n s := by
  cases hbody : FpInsn.body insn with
  | call helper operands dest => exact does_call hself helper (operands_le hbody) dest
  | load a memop isSingle => exact does_load hself a memop isSingle
  | store a memop isSingle => exact does_store hself a memop isSingle
  | toGpr a isSingle => exact does_toGpr hself a isSingle
  | ofGpr a isSingle => exact does_ofGpr hself a isSingle

/-- The code behind the check. -/
def tailCode (self : RiscvDisasContext) (T : HelperTable) (insn : FpInsn) : Gen Bool := do
  if (FpInsn.body insn).writesFpr then self.genSetFsDirty
  (FpInsn.body insn).code self T
  return true

theorem does_tailCode (hself : Globals self C) (insn : FpInsn) :
    Does (guestEffects (fpuEffects H T rest)) C (tailCode self T insn)
      (fun ok _ s' => ok = true ∧
        cpuOf self C s' = FpInsn.after H insn (cpuOf self C s)) n s := by
  unfold tailCode FpInsn.after
  split
  · refine does_bind (does_genSetFsDirty hself fun n1 s1 _ _ hcpu1 => ?_)
    refine does_bind ((does_code hself insn).mono ?_)
    intro _ _ s2 hcpu2
    exact does_pure ⟨rfl, by rw [hcpu2, hcpu1]⟩
  · refine does_bind ((does_code hself insn).mono ?_)
    intro _ _ s2 hcpu2
    exact does_pure ⟨rfl, hcpu2⟩

variable (rest) in
/-- An instruction whose extension is there passes the check and leaves what it should, or leaves the
block with nothing changed but the program counter. -/
theorem fpInsn_spec (hself : Globals self C) (insn : FpInsn)
    (hext : self.cfg.misa.contains (FpInsn.ext insn) = true) {b : Builder}
    (hb : LabelsBelow b.nbLabels b.ops) (hC : ((insn.trans self T).run b).2.ctx.Extends C)
    (s : State Guest) :
    ((insn.trans self T).run b).1 = true ∧
    (fsOf (cpuOf self C s) ≠ 0 → ∃ s',
      cpuOf self C s' = FpInsn.after H insn (cpuOf self C s) ∧ ∀ back,
        Reaches (guestEffects (fpuEffects H T rest)) C (((insn.trans self T).run b).2.ops ++ back)
          b.ops.length s ((insn.trans self T).run b).2.ops.length s') ∧
    (fsOf (cpuOf self C s) = 0 → ∃ s', s'.world = s.world ∧
      cpuOf self C s' = Cpu.setPc (cpuOf self C s) self.base.pcNext ∧ ∀ back,
        Exits (guestEffects (fpuEffects H T rest)) C (((insn.trans self T).run b).2.ops ++ back)
          b.ops.length s (.exitTb EXCP_UNDEF) s') := by
  have htrans : insn.trans self T = self.genFpCheck >>= fun _ => tailCode self T insn := by
    rw [trans_eq, RiscvDisasContext.genFpInsn, RiscvDisasContext.requireExt, if_pos hext]
    rfl
  rw [htrans, Gen.run_bind] at hC ⊢
  have hgrow := (tailCode self T insn).extends_run (self.genFpCheck.run b).2
  obtain ⟨s₁, hworld, hcpu, hon, hoff⟩ :=
    genFpCheck_spec  hself hb (hgrow.ctx.trans hC) s
  obtain ⟨s₂, ⟨hok, hcpu₂⟩, hreach⟩ := reaches_of_does
    (does_tailCode (H := H) (s := s₁) hself insn) hC
  refine ⟨hok, fun hfs => ⟨s₂, by rw [hcpu₂, hcpu], fun back => ?_⟩, fun hfs => ?_⟩
  · refine reaches_trans ?_ (hreach back)
    exact forall_back_extend (P := fun ops => Reaches _ C ops _ s _ s₁) hgrow (hon hfs) back
  · refine ⟨setTemp s₁ self.pc self.base.pcNext, hworld, ?_, fun back => ?_⟩
    · rw [cpuOf_setPc hself, hcpu]
    · exact forall_back_extend (P := fun ops => Exits _ C ops _ s _ _) hgrow (hoff hfs) back

/-! ## Runs -/

/-- A translation that succeeds found the extension. -/
theorem ext_of_trans {insn : FpInsn} {b b' : Builder}
    (h : (insn.trans self T).run b = (true, b')) :
    self.cfg.misa.contains (FpInsn.ext insn) = true := by
  rw [trans_eq] at h
  exact ext_of_run h

/-- An instruction that runs through leaves what it should. -/
theorem executesFp_eq {dc : RiscvDisasContext} {insn : FpInsn} {c c' : Cpu}
    (h : ExecutesFp H T dc insn c c') (hfs : fsOf c ≠ 0) : c' = FpInsn.after H insn c := by
  obtain ⟨self, b₀, b, b', C, rest, s, s', hinit, hb, hlabels, hrun, hC, hreach, rfl, rfl⟩ := h
  have hself := globals_of_run hinit hb hrun hC
  have hb' : ((insn.trans self T).run b).2 = b' := by rw [hrun]
  obtain ⟨-, hon, -⟩ := fpInsn_spec (H := H) rest hself insn (ext_of_trans hrun) hlabels
    (hb' ▸ hC) s
  obtain ⟨s₁, hcpu, hreach₁⟩ := hon hfs
  rw [hb'] at hreach₁
  rw [reaches_unique hreach hreach₁, hcpu]

/-- With all extensions, an instruction runs through from every CPU in which FS is not Off. -/
theorem executesFp_all (H : HostFloat) (T : HelperTable) (insn : FpInsn) {c : Cpu}
    (hx : c.hart.x 0 = 0) (hfs : fsOf c ≠ 0) :
    ExecutesFp H T allExtensions insn c (FpInsn.after H insn c) := by
  have hinit : ((initDisasContext allExtensions .new).any fun p => p.2.ops.isEmpty &&
      (p.1.cfg.misa.contains .F && p.1.cfg.misa.contains .D)) = true := by decide
  rw [Option.any_eq_true] at hinit
  obtain ⟨⟨self, b₀⟩, hinit, hcheck⟩ := hinit
  rw [Bool.and_eq_true, Bool.and_eq_true, List.isEmpty_iff] at hcheck
  have hmisa : self.cfg.misa.contains (FpInsn.ext insn) = true := by
    cases insn <;> first | exact hcheck.2.1 | exact hcheck.2.2
  let b' := ((insn.trans self T).run b₀).2
  have hself : Globals self b'.ctx := globals_of_run hinit (.refl b₀) rfl (.refl b'.ctx)
  obtain ⟨s, hs⟩ := exists_cpuOf hself hx
  have hlabels : LabelsBelow b₀.nbLabels b₀.ops := by
    rw [hcheck.1]
    exact nofun
  obtain ⟨hok, hon, -⟩ := fpInsn_spec (H := H) (T := T) noEffects hself insn hmisa
    hlabels (.refl b'.ctx) s
  obtain ⟨s', hcpu, hreach⟩ := hon (hs ▸ hfs)
  exact ⟨self, b₀, b₀, b', b'.ctx, noEffects, s, s', hinit, .refl b₀, hlabels, Prod.ext hok rfl,
    .refl _, hreach, hs, hs ▸ hcpu⟩

end

/-! ## A host -/

/-- Helpers at the addresses 0, 1, 2 and so on. -/
def numberedHelpers : HelperTable where
  addr helper := BitVec.ofNat 64 helper.ctorIdx
  find a := some (FpHelper.ofNat a.toNat)
  find_addr helper := by cases helper <;> rfl

/-- Arithmetic that returns its first operand. -/
def idleOps (w : Nat) : HostOps w :=
  ⟨fun _ a _ => (a, 0), fun _ a _ => (a, 0), fun _ a _ => (a, 0), fun _ a _ => (a, 0),
    fun _ a => (a, 0), fun _ a _ _ => (a, 0), fun _ _ => (0, 0)⟩

/-- For code that does not get as far as arithmetic. -/
def idleHost : HostFloat :=
  ⟨idleOps 32, idleOps 64, fun _ x => (x, 0), fun _ x => (x.setWidth 32, 0), fun x => x.setWidth 64⟩

end TcgRs.Analysis.FpCode
