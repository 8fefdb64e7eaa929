import TcgRs.Analysis.GeneratedCode
import TcgRs.Interface.RiscvExec
import TcgRs.Library.Schedule

/-!
# Generated code and the guest

The registers of the guest are globals of the IR.  Writing a local temp leaves the hart as it is,
writing the global of a register sets that register.
-/

set_option autoImplicit false

namespace TcgRs.Analysis.GuestCode

open TcgRs.Model TcgRs.Model.Ir TcgRs.Model.Riscv TcgRs.Interface.Ir TcgRs.Interface.RiscvExec
open TcgRs.Library GeneratedCode

/-! ## The globals of a hart -/

/-- The temps of a disassembly context are globals, and different ones. -/
structure Globals (dc : RiscvDisasContext) (C : Context) : Prop where
  env_lt : dc.env < C.nbGlobals
  gpr_lt : ∀ r, dc.gpr r < C.nbGlobals
  pc_lt : dc.pc < C.nbGlobals
  res_lt : dc.loadRes < C.nbGlobals
  val_lt : dc.loadVal < C.nbGlobals
  gpr_inj : ∀ r r', dc.gpr r = dc.gpr r' → r = r'
  pc_ne : ∀ r, dc.pc ≠ dc.gpr r
  res_ne : ∀ r, dc.loadRes ≠ dc.gpr r
  val_ne : ∀ r, dc.loadVal ≠ dc.gpr r
  env_ne : ∀ r, dc.env ≠ dc.gpr r
  special : [dc.env, dc.pc, dc.loadRes, dc.loadVal].Nodup
  var : ∀ t < C.nbGlobals, (C.temps t).isConst = false

variable {self : RiscvDisasContext} {C C' : Context}

theorem Globals.extend (h : Globals self C) (hC : C.Extends C') (hle : C.nbGlobals ≤ C.nbTemps) :
    Globals self C' where
  env_lt := hC.globals_eq ▸ h.env_lt
  gpr_lt r := hC.globals_eq ▸ h.gpr_lt r
  pc_lt := hC.globals_eq ▸ h.pc_lt
  res_lt := hC.globals_eq ▸ h.res_lt
  val_lt := hC.globals_eq ▸ h.val_lt
  gpr_inj := h.gpr_inj
  pc_ne := h.pc_ne
  res_ne := h.res_ne
  val_ne := h.val_ne
  env_ne := h.env_ne
  special := h.special
  var t ht := by
    rw [hC.globals_eq] at ht
    rw [hC.temps_eq t (lt_of_lt_of_le ht hle)]
    exact h.var t ht

/-- A global is the next temp. -/
theorem pushGlobal_spec {b b' : Builder} {temp : Temp} {htemp : temp.isConst = false} {t : Nat}
    (h : pushGlobal b temp htemp = some (t, b')) :
    t = b.ctx.nbGlobals ∧ b'.ctx.nbGlobals = b.ctx.nbGlobals + 1 := by
  unfold pushGlobal at h
  split at h
  · rename_i heq
    injection h with h
    injection h with ht hb
    subst hb
    exact ⟨ht.symm.trans heq, rfl⟩
  · cases h

/-- A global is registered while there is no local. -/
theorem pushGlobal_some {b : Builder} {temp : Temp} {htemp : temp.isConst = false}
    (h : b.ctx.nbTemps = b.ctx.nbGlobals) : ∃ t b', pushGlobal b temp htemp = some (t, b') ∧
      b'.ctx.nbTemps = b'.ctx.nbGlobals ∧ b'.ops = b.ops := by
  unfold pushGlobal
  rw [dif_pos h]
  refine ⟨_, _, rfl, ?_, rfl⟩
  show b.ctx.nbTemps + 1 = b.ctx.nbGlobals + 1
  rw [h]

/-- The env pointer and the first `k` registers are registered. -/
def RegistersBelow (k : Nat) (s : RiscvDisasContext × Builder) : Prop :=
  s.2.ctx.nbGlobals = k + 1 ∧ s.1.env = 0 ∧ ∀ r : Fin 32, r.val < k → s.1.gpr r = r.val + 1

theorem registersBelow_initGpr {k : Nat} {r : Fin 32} (hr : r.val = k)
    {s s' : RiscvDisasContext × Builder} (h : RegistersBelow k s) (hstep : initGpr s r = some s') :
    RegistersBelow (k + 1) s' := by
  obtain ⟨⟨t, b⟩, hnew, hstep⟩ := Option.bind_eq_some_iff.mp hstep
  injection hstep with hstep
  subst hstep
  obtain ⟨ht, hb⟩ := pushGlobal_spec hnew
  refine ⟨by rw [hb, h.1], h.2.1, ?_⟩
  intro r' hr'
  by_cases heq : r' = r
  · subst heq
    dsimp only
    rw [Function.update_self, ht, h.1, hr]
  · dsimp only
    rw [Function.update_of_ne heq]
    refine h.2.2 r' ?_
    have hne : r'.val ≠ r.val := fun hval => heq (Fin.ext hval)
    omega

/-- The temps of a disassembly context once it is initialized. -/
structure InitialTemps (self : RiscvDisasContext) (b : Builder) : Prop where
  env_eq : self.env = 0
  gpr_eq : ∀ r, self.gpr r = r.val + 1
  pc_eq : self.pc = 33
  res_eq : self.loadRes = 34
  val_eq : self.loadVal = 35
  nbGlobals_eq : b.ctx.nbGlobals = 36

theorem initialTemps {dc self : RiscvDisasContext} {start b : Builder}
    (hstart : start.ctx.nbGlobals = 0) (h : initDisasContext dc start = some (self, b)) :
    InitialTemps self b := by
  unfold initDisasContext at h
  obtain ⟨⟨env, b₀⟩, henv, h⟩ := Option.bind_eq_some_iff.mp h
  obtain ⟨⟨dc₁, b₁⟩, hgpr, h⟩ := Option.bind_eq_some_iff.mp h
  obtain ⟨⟨pc, b₂⟩, hpc, h⟩ := Option.bind_eq_some_iff.mp h
  obtain ⟨⟨res, b₃⟩, hres, h⟩ := Option.bind_eq_some_iff.mp h
  obtain ⟨⟨val, b₄⟩, hval, h⟩ := Option.bind_eq_some_iff.mp h
  injection h with h
  injection h with hself hb
  subst hself hb
  obtain ⟨henv₁, henv₂⟩ := pushGlobal_spec henv
  rw [hstart] at henv₁ henv₂
  have hnone : RegistersBelow 0 ({ dc with env := env }, b₀) :=
    ⟨henv₂, henv₁, fun _ hr => absurd hr (Nat.not_lt_zero _)⟩
  have hall : RegistersBelow (List.finRange 32).length (dc₁, b₁) := by
    refine foldlM_take RegistersBelow hnone ?_ le_rfl (by rw [List.take_length]; exact hgpr)
    intro k r s s' hk hs hstep
    refine registersBelow_initGpr ?_ hs hstep
    obtain ⟨hlt, hget⟩ := List.getElem?_eq_some_iff.mp hk
    rw [← hget, List.getElem_finRange]
    rfl
  rw [List.length_finRange] at hall
  obtain ⟨hpc₁, hpc₂⟩ := pushGlobal_spec hpc
  obtain ⟨hres₁, hres₂⟩ := pushGlobal_spec hres
  obtain ⟨hval₁, hval₂⟩ := pushGlobal_spec hval
  have hcount : b₁.ctx.nbGlobals = 33 := hall.1
  refine ⟨hall.2.1, fun r => hall.2.2 r r.isLt, ?_, ?_, ?_, by omega⟩ <;> dsimp only <;> omega

theorem InitialTemps.globals {self : RiscvDisasContext} {b : Builder} (h : InitialTemps self b) :
    Globals self b.ctx := by
  obtain ⟨he, hg, hp, hr, hv, hn⟩ := h
  refine ⟨by omega, ?_, by omega, by omega, by omega, ?_, ?_, ?_, ?_, ?_, ?_, b.globals_var⟩
  · intro r
    rw [hg, hn]
    omega
  · intro r r' heq
    rw [hg, hg] at heq
    exact Fin.ext (Nat.succ_injective heq)
  case refine_7 =>
    rw [he, hp, hr, hv]
    decide
  all_goals
    intro r
    rw [hg]
    omega

theorem globals_initDisasContext {dc self : RiscvDisasContext} {b : Builder}
    (h : initDisasContext dc .new = some (self, b)) : Globals self b.ctx := (initialTemps rfl h).globals

/-- A context with all extensions, before it is initialized. -/
def allExtensions : RiscvDisasContext where
  base := ⟨0, 0, .next, 0, 512⟩
  cfg := ⟨⟨0x3FFFFFF⟩, true, true, true, true, true, true⟩
  env := 0
  gpr _ := 0
  pc := 0
  loadRes := 0
  loadVal := 0
  curInsnLen := 4

/-- A machine in which nothing is set. -/
def blankState : State Guest := ⟨fun _ => 0, ⟨fun _ => 0, fun _ => 0, false⟩⟩

/-- Effects that do nothing. -/
def noEffects : Effects Guest := ⟨fun _ _ _ _ _ m => (fun _ => 0, m)⟩

/-! ## Writes -/

theorem val_global_setTemp {t d : Nat} (ht : t < C.nbGlobals) (hd : IsLocal C d)
    (s : State Guest) (v : BitVec 64) : valueOf C (setTemp s d v).temps t = valueOf C s.temps t :=
  valueOf_update_of_ne (IsFixed.ne (.inl ht) hd) v s.temps

/-- Writing a local temp does not change the hart. -/
theorem hartOf_setTemp (hself : Globals self C) {d : Nat} (hd : IsLocal C d) (s : State Guest)
    (v : BitVec 64) : hartOf self C (setTemp s d v) = hartOf self C s := by
  unfold hartOf
  rw [Hart.mk.injEq]
  refine ⟨?_, ?_, ?_, ?_, rfl⟩
  · funext r
    rw [val_global_setTemp (hself.gpr_lt r) hd]
  · exact val_global_setTemp hself.pc_lt hd s v
  · exact val_global_setTemp hself.res_lt hd s v
  · exact val_global_setTemp hself.val_lt hd s v

theorem hartOf_setRes (hself : Globals self C) (s : State Guest) (v : BitVec 64) :
    hartOf self C (setTemp s self.loadRes v) = { hartOf self C s with loadRes := v } := by
  have hspecial := hself.special
  simp only [List.nodup_cons, List.mem_cons, List.not_mem_nil, or_false, not_or] at hspecial
  unfold hartOf
  rw [Hart.mk.injEq]
  refine ⟨?_, ?_, ?_, ?_, rfl⟩
  · funext r
    exact if_congr .rfl rfl (valueOf_update_of_ne (hself.res_ne r).symm v s.temps)
  · exact valueOf_update_of_ne hspecial.2.1.1 v s.temps
  · exact valueOf_update_self (hself.var _ hself.res_lt) v s.temps
  · exact valueOf_update_of_ne (Ne.symm hspecial.2.2.1) v s.temps

theorem hartOf_setVal (hself : Globals self C) (s : State Guest) (v : BitVec 64) :
    hartOf self C (setTemp s self.loadVal v) = { hartOf self C s with loadVal := v } := by
  have hspecial := hself.special
  simp only [List.nodup_cons, List.mem_cons, List.not_mem_nil, or_false, not_or] at hspecial
  unfold hartOf
  rw [Hart.mk.injEq]
  refine ⟨?_, ?_, ?_, ?_, rfl⟩
  · funext r
    exact if_congr .rfl rfl (valueOf_update_of_ne (hself.val_ne r).symm v s.temps)
  · exact valueOf_update_of_ne hspecial.2.1.2 v s.temps
  · exact valueOf_update_of_ne hspecial.2.2.1 v s.temps
  · exact valueOf_update_self (hself.var _ hself.val_lt) v s.temps

/-- The state in which a register has got a value; writes to x0 are discarded. -/
def setGpr (self : RiscvDisasContext) (s : State Guest) (rd : Fin 32) (v : BitVec 64) :
    State Guest := if rd = 0 then s else setTemp s (self.gpr rd) v

theorem hartOf_setGpr (hself : Globals self C) (s : State Guest) (rd : Fin 32) (v : BitVec 64) :
    hartOf self C (setGpr self s rd v) = (hartOf self C s).setReg rd v := by
  unfold setGpr Hart.setReg
  split
  · rfl
  · rename_i hrd
    unfold hartOf
    rw [Hart.mk.injEq]
    refine ⟨?_, ?_, ?_, ?_, rfl⟩
    · funext r
      dsimp only [setTemp]
      by_cases hr : r = rd
      · subst hr
        rw [if_neg hrd, Function.update_self, valueOf_update_self (hself.var _ (hself.gpr_lt r))]
      · rw [Function.update_of_ne hr, valueOf_update_of_ne (fun h => hr (hself.gpr_inj r rd h))]
    · exact valueOf_update_of_ne (hself.pc_ne rd) v s.temps
    · exact valueOf_update_of_ne (hself.res_ne rd) v s.temps
    · exact valueOf_update_of_ne (hself.val_ne rd) v s.temps

theorem setGpr_world (s : State Guest) (rd : Fin 32) (v : BitVec 64) :
    (setGpr self s rd v).world = s.world := by
  unfold setGpr
  split <;> rfl

/-! ## Rules -/

variable {E : Effects Guest} {n : Nat} {s : State Guest}

/-- A register is read from a temp that holds its value and that no local write changes. -/
theorem does_gprOrZero (hself : Globals self C) {r : Fin 32} {Q : Nat → Nat → State Guest → Prop}
    (h : ∀ t n', n ≤ n' → IsFixed C t → val C s t = (hartOf self C s).x r → Q t n' s) :
    Does E C (self.gprOrZero r) Q n s := by
  unfold RiscvDisasContext.gprOrZero
  split
  · rename_i hr
    apply does_newConst
    intro c n' hn hc
    refine h c n' hn hc.isFixed ?_
    rw [hc.val]
    unfold hartOf
    dsimp only
    rw [if_pos hr]
  · rename_i hr
    apply does_pure
    refine h _ n le_rfl (.inl (hself.gpr_lt r)) ?_
    unfold hartOf
    dsimp only
    rw [if_neg hr]
    rfl

theorem does_genSetGpr {rd : Fin 32} {t : Nat} {Q : Unit → Nat → State Guest → Prop}
    (h : Q () n (setGpr self s rd (val C s t))) : Does E C (self.genSetGpr rd t) Q n s := by
  unfold RiscvDisasContext.genSetGpr
  unfold setGpr at h
  split
  · rename_i hrd
    rw [if_neg hrd] at h
    exact does_bind (does_mov (does_pure h))
  · rename_i hrd
    rw [if_pos (not_not.mp hrd)] at h
    exact does_pure h

theorem does_genSetGprSx32 {rd : Fin 32} {t : Nat} {Q : Unit → Nat → State Guest → Prop}
    (h : Q () n (setGpr self s rd (((val C s t).setWidth 32).signExtend 64))) :
    Does E C (self.genSetGprSx32 rd t) Q n s := by
  unfold RiscvDisasContext.genSetGprSx32
  unfold setGpr at h
  split
  · rename_i hrd
    rw [if_neg hrd] at h
    exact does_bind (does_extI32I64 (does_pure h))
  · rename_i hrd
    rw [if_pos (not_not.mp hrd)] at h
    exact does_pure h

theorem does_requireExt {ext : MisaExt} {body : Gen Bool} {Q : Bool → Nat → State Guest → Prop}
    (hext : self.cfg.misa.contains ext = true) (h : Does E C body Q n s) :
    Does E C (self.requireExt ext body) Q n s := by
  unfold RiscvDisasContext.requireExt
  rw [if_pos hext]
  exact h

/-- A translation that succeeds found its extension. -/
theorem ext_of_run {ext : MisaExt} {body : Gen Bool} {b b' : Builder}
    (h : (self.requireExt ext body).run b = (true, b')) : self.cfg.misa.contains ext = true := by
  by_contra hext
  rw [RiscvDisasContext.requireExt, if_neg hext] at h
  cases h

/-- The globals are there in any context in which the code of a block is interpreted. -/
theorem globals_of_run {dc : RiscvDisasContext} {b₀ b b' : Builder} {α : Type} {g : Gen α} {r : α}
    (hinit : initDisasContext dc .new = some (self, b₀)) (hb : b₀.Extends b)
    (hrun : g.run b = (r, b')) (hC : b'.ctx.Extends C) : Globals self C := by
  have hgrow : b.Extends b' := by
    have hext := g.extends_run b
    rw [hrun] at hext
    exact hext
  exact (globals_initDisasContext hinit).extend ((hb.trans hgrow).ctx.trans hC) b₀.globals_le

theorem low_zext (x : BitVec 32) : (x.setWidth 64).setWidth 32 = x := by
  rw [BitVec.setWidth_setWidth_of_le x (by decide), BitVec.setWidth_eq]

/-- The translation ends well with `v` in `rd`, and nothing else changed. -/
def Leaves (self : RiscvDisasContext) (C : Context) (s : State Guest) (rd : Fin 32)
    (v : BitVec 64) (ok : Bool) (_ : Nat) (s' : State Guest) : Prop :=
  ok = true ∧ s'.world = s.world ∧ hartOf self C s' = (hartOf self C s).setReg rd v

/-- The last op of a translation, after ops that only wrote local temps. -/
theorem does_result (hself : Globals self C) {s' : State Guest} {rd : Fin 32} {t : Nat}
    {v : BitVec 64} (hworld : s'.world = s.world) (hhart : hartOf self C s' = hartOf self C s)
    (hv : val C s' t = v) :
    Does E C (do self.genSetGpr rd t; return true) (Leaves self C s rd v) n s' := by
  refine does_bind (does_genSetGpr (does_pure ⟨rfl, ?_, ?_⟩))
  · rw [setGpr_world, hworld]
  · rw [hartOf_setGpr hself, hhart, hv]

theorem does_resultSx32 (hself : Globals self C) {s' : State Guest} {rd : Fin 32} {t : Nat}
    {v : BitVec 32} (hworld : s'.world = s.world) (hhart : hartOf self C s' = hartOf self C s)
    (hv : val C s' t = v.setWidth 64) :
    Does E C (do self.genSetGprSx32 rd t; return true) (Leaves self C s rd (v.signExtend 64)) n
      s' := by
  refine does_bind (does_genSetGprSx32 (does_pure ⟨rfl, ?_, ?_⟩))
  · rw [setGpr_world, hworld]
  · rw [hartOf_setGpr hself, hhart, hv, low_zext]

/-! ## Selections and shifts -/

/-- A selection on equality of 64-bit values. -/
theorem select_i64 (x y u v : BitVec 64) :
    atType .i64 (fun _ z => z) (if condAtType .i64 .eq x y then u else v) =
      if x = y then u else v := by
  show (if decide (x = y) = true then u else v) = _
  simp only [decide_eq_true_eq]

/-- A selection on equality of 32-bit values. -/
theorem select_i32 (x y u v : BitVec 32) :
    atType .i32 (fun _ z => z) (if condAtType .i32 .eq (x.setWidth 64) (y.setWidth 64) then
      u.setWidth 64 else v.setWidth 64) = (if x = y then u else v).setWidth 64 := by
  show ((if decide ((x.setWidth 64).setWidth 32 = (y.setWidth 64).setWidth 32) = true then
    u.setWidth 64 else v.setWidth 64 : BitVec 64).setWidth 32).setWidth 64 = _
  rw [low_zext, low_zext]
  simp only [decide_eq_true_eq]
  split <;> rw [low_zext]

theorem sar_i64 (x y : BitVec 64) :
    atType₂ .i64 (fun n x y => x.sshiftRight (y.toNat % n)) x y = x.sshiftRight (y.toNat % 64) :=
  rfl

theorem sar_i32 (x y : BitVec 32) :
    atType₂ .i32 (fun n x y => x.sshiftRight (y.toNat % n)) (x.setWidth 64) (y.setWidth 64) =
      (x.sshiftRight (y.toNat % 32)).setWidth 64 := by
  show (((x.setWidth 64).setWidth 32).sshiftRight
    (((y.setWidth 64).setWidth 32).toNat % 32)).setWidth 64 = _
  rw [low_zext, low_zext]

theorem neg_i32 (x : BitVec 32) :
    atType .i32 (fun _ x => -x) (x.setWidth 64) = (-x).setWidth 64 := by
  show (-(x.setWidth 64).setWidth 32).setWidth 64 = _
  rw [low_zext]

end TcgRs.Analysis.GuestCode
