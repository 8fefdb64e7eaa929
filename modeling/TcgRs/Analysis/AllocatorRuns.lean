import TcgRs.Analysis.SpillSlots
import TcgRs.Analysis.TempStates

/-!
# The steps of the register allocator

Whatever the register allocator does to a context, it does by moving temps and by allocating
spill slots for locals: from the first op to the last it makes a run of the spill area.
-/

set_option autoImplicit false

namespace TcgRs.Analysis.AllocatorRuns

open TcgRs.Model TcgRs.Model.Ir TcgRs.Model.X86 TcgRs.Model.RegAlloc TcgRs.Library
open TcgRs.Analysis.SpillSlots TcgRs.Analysis.TempStates
open TcgRs.Analysis.RegBookkeeping (demoContext)

/-! ## Elementary steps -/

/-- The allocator goes from `p` to `p'` by the steps of a run. -/
def Allocates (p p' : Pass) : Prop := ∃ slots, FrameRun p.ctx slots p'.ctx

section

variable {p p' p'' : Pass}

theorem Allocates.refl (p : Pass) : Allocates p p := ⟨[], .start⟩

theorem Allocates.trans (h : Allocates p p') (h' : Allocates p' p'') : Allocates p p'' := by
  obtain ⟨slots, h⟩ := h
  obtain ⟨slots', h'⟩ := h'
  exact ⟨slots ++ slots', h.trans h'⟩

/-- Everything but the context is free. -/
theorem Allocates.of_ctx (h : p'.ctx = p.ctx) : Allocates p p' := by
  unfold Allocates
  rw [h]
  exact ⟨[], .start⟩

/-- A temp moves, and everything but the context is free. -/
theorem Allocates.of_move (t : Nat) {f : Temp → Temp} (hf : ∀ x, Moved (f x) x)
    (h : p'.ctx = p.ctx.modTemp t f) : Allocates p p' := by
  unfold Allocates
  rw [h]
  exact ⟨[], .move .start t f hf⟩

theorem allocates_foldlM {A : Type} {step : Pass → A → Option Pass} {steps : List A}
    (hstep : ∀ a q q', step q a = some q' → Allocates q q')
    (h : steps.foldlM step p = some p') : Allocates p p' :=
  foldlM_invariant (Allocates p) (.refl p) (fun a _ q q' hq hs => hq.trans (hstep a q q' hs)) h

theorem moved_self (x : Temp) : Moved x x := ⟨rfl, rfl, rfl, rfl, rfl, rfl⟩

/-- The fields of the allocator can be set in any way. -/
theorem moved_with (x : Temp) (val : TempVal) (reg : Option Reg) (coherent : Bool) :
    Moved { x with valType := val, reg := reg, memCoherent := coherent } x :=
  ⟨rfl, rfl, rfl, rfl, rfl, rfl⟩

theorem ctx_tempSync {t : Nat} (h : tempSync p t = some p') : p'.ctx = p.ctx := by
  obtain ⟨temp, -, h⟩ := Option.bind_eq_some_iff.mp h
  split at h
  · injection h with h
    exact h ▸ rfl
  · split at h
    · injection h with h
      exact h ▸ rfl
    · obtain ⟨base, -, h⟩ := Option.bind_eq_some_iff.mp h
      obtain ⟨baseReg, -, h⟩ := Option.bind_eq_some_iff.mp h
      injection h with h
      exact h ▸ rfl
    · split at h
      · obtain ⟨frameReg, -, h⟩ := Option.bind_eq_some_iff.mp h
        injection h with h
        exact h ▸ rfl
      · injection h with h
        exact h ▸ rfl

theorem allocates_sync_coherent {t : Nat} (h : tempSync p t = some p') :
    Allocates p (p'.modTemp t fun x => { x with memCoherent := true }) :=
  (Allocates.of_ctx (ctx_tempSync h)).trans
    (.of_move t (fun x => moved_with x x.valType x.reg true) rfl)

theorem allocates_syncGlobal {i : Nat} (h : syncGlobal p i = some p') : Allocates p p' := by
  obtain ⟨temp, -, h⟩ := Option.bind_eq_some_iff.mp h
  split at h
  · obtain ⟨p₁, h₁, h⟩ := Option.bind_eq_some_iff.mp h
    injection h with h
    exact h ▸ allocates_sync_coherent h₁
  · injection h with h
    exact h ▸ .refl p

theorem allocates_syncGlobals (h : syncGlobals p = some p') : Allocates p p' :=
  allocates_foldlM (fun _ _ _ hs => allocates_syncGlobal hs) h

theorem allocates_evictReg {reg : Reg} (h : evictReg p reg = some p') : Allocates p p' := by
  unfold evictReg at h
  split at h
  · injection h with h
    exact h ▸ .refl p
  · rename_i t hocc
    obtain ⟨temp, htemp, h⟩ := Option.bind_eq_some_iff.mp h
    dsimp only at h
    split at h
    · obtain ⟨p₁, hsync, h⟩ := Option.bind_eq_some_iff.mp h
      injection h with h
      have hctx := ctx_tempSync hsync
      exact h ▸ .of_move t (fun x => moved_with x .mem none true)
        (congrArg (fun c : Context => c.modTemp t Temp.toMem) hctx)
    · rename_i hkind
      obtain ⟨⟨ctx, offset⟩, halloc, h⟩ := Option.bind_eq_some_iff.mp h
      obtain ⟨frameReg, -, h⟩ := Option.bind_eq_some_iff.mp h
      injection h with h
      have hlocal : isLocal temp = true := by
        unfold isLocal
        rw [Bool.not_eq_true', ← Bool.not_eq_true]
        exact hkind
      have hrun := FrameRun.start.alloc htemp hlocal halloc
      rw [← h]
      exact ⟨_, hrun.move t Temp.toMem fun x => moved_with x .mem none true⟩

/-! ## One temp -/

theorem allocates_regAlloc {required forbidden preferred : RegSet} {reg : Reg}
    (h : regAlloc p required forbidden preferred = some (p', reg)) : Allocates p p' := by
  cases regAlloc_cases h with
  | inl h =>
    rw [h]
    exact .refl p
  | inr h => exact allocates_evictReg h

theorem ctx_loadFromMem {temp : Temp} {reg : Reg} (h : loadFromMem p temp reg = some p') :
    p'.ctx = p.ctx := by
  unfold loadFromMem at h
  split at h
  · obtain ⟨base, -, h⟩ := Option.bind_eq_some_iff.mp h
    obtain ⟨baseReg, -, h⟩ := Option.bind_eq_some_iff.mp h
    injection h with h
    exact h ▸ rfl
  · split at h
    · obtain ⟨frameReg, -, h⟩ := Option.bind_eq_some_iff.mp h
      injection h with h
      exact h ▸ rfl
    · injection h with h
      exact h ▸ rfl

theorem allocates_tempLoadTo {t : Nat} {required forbidden preferred : RegSet} {reg : Reg}
    (h : tempLoadTo p t required forbidden preferred = some (p', reg)) : Allocates p p' := by
  obtain ⟨temp, htemp, h⟩ := Option.bind_eq_some_iff.mp h
  split at h
  · obtain ⟨cur, -, h⟩ := Option.bind_eq_some_iff.mp h
    split at h
    · injection h with h
      injection h with h _
      exact h ▸ .refl p
    · obtain ⟨⟨p₁, dst⟩, halloc, h⟩ := Option.bind_eq_some_iff.mp h
      injection h with h
      injection h with h _
      exact h ▸ (allocates_regAlloc halloc).trans
        (.of_move t (fun x => moved_with x x.valType (some dst) x.memCoherent) rfl)
  · obtain ⟨⟨p₁, dst⟩, halloc, h⟩ := Option.bind_eq_some_iff.mp h
    injection h with h
    injection h with h _
    exact h ▸ (allocates_regAlloc halloc).trans
      (.of_move t (fun x => moved_with x .reg (some dst) x.memCoherent) rfl)
  · obtain ⟨⟨p₁, dst⟩, halloc, h⟩ := Option.bind_eq_some_iff.mp h
    obtain ⟨p₂, hload, h⟩ := Option.bind_eq_some_iff.mp h
    injection h with h
    injection h with h _
    have hctx := ctx_loadFromMem hload
    have hmove := congrArg (fun c : Context => c.modTemp t fun x =>
      { x with valType := .reg, reg := some dst, memCoherent := true }) hctx
    exact h ▸ (allocates_regAlloc halloc).trans
      (.of_move t (fun x => moved_with x .reg (some dst) true) hmove)
  · cases h

theorem allocates_defineTemp {t : Nat} {reg : Reg} (h : defineTemp p reg t = some p') :
    Allocates p p' := by
  obtain ⟨temp, -, h⟩ := Option.bind_eq_some_iff.mp h
  injection h with h
  exact h ▸ .of_move t (fun x => moved_with x .reg (some reg) false) rfl

theorem allocates_toDead {t : Nat} (h : p'.ctx = p.ctx.modTemp t Temp.toDead) : Allocates p p' :=
  .of_move t (fun x => moved_with x .dead none x.memCoherent) h

theorem allocates_tempDead {t : Nat} (h : tempDead p t = some p') : Allocates p p' := by
  obtain ⟨temp, -, h⟩ := Option.bind_eq_some_iff.mp h
  split at h
  · injection h with h
    exact h ▸ .refl p
  · split at h
    · injection h with h
      exact h ▸ allocates_toDead rfl
    · injection h with h
      exact h ▸ allocates_toDead rfl

theorem allocates_tempDeadIf {b : Bool} {t : Nat} (h : tempDeadIf b p t = some p') :
    Allocates p p' := by
  unfold tempDeadIf at h
  split at h
  · exact allocates_tempDead h
  · injection h with h
    exact h ▸ .refl p

theorem allocates_tempDeadInput {t : Nat} (h : tempDeadInput p t = some p') : Allocates p p' := by
  obtain ⟨temp, -, h⟩ := Option.bind_eq_some_iff.mp h
  split at h
  · injection h with h
    exact h ▸ .refl p
  · split at h
    · split at h
      · injection h with h
        exact h ▸ allocates_toDead rfl
      · injection h with h
        exact h ▸ allocates_toDead rfl
    · injection h with h
      exact h ▸ allocates_toDead rfl

/-! ## Calls -/

theorem allocates_spillLocal {reg : Reg} (h : spillLocal p reg = some p') : Allocates p p' := by
  unfold spillLocal at h
  split at h
  · injection h with h
    exact h ▸ .refl p
  · obtain ⟨temp, -, h⟩ := Option.bind_eq_some_iff.mp h
    split at h
    · injection h with h
      exact h ▸ .refl p
    · exact allocates_evictReg h

theorem ctx_loadArg {t : Nat} {target : Reg} (h : loadArg p t target = some p') :
    p'.ctx = p.ctx := by
  obtain ⟨temp, -, h⟩ := Option.bind_eq_some_iff.mp h
  split at h
  · obtain ⟨src, -, h⟩ := Option.bind_eq_some_iff.mp h
    split at h
    · injection h with h
      exact h ▸ rfl
    · injection h with h
      exact h ▸ rfl
  · injection h with h
    exact h ▸ rfl
  · exact ctx_loadFromMem h
  · injection h with h
    exact h ▸ rfl

theorem allocates_clobberReg {reg : Reg} (h : clobberReg p reg = some p') : Allocates p p' := by
  unfold clobberReg at h
  split at h
  · injection h with h
    exact h ▸ .refl p
  · rename_i t _
    obtain ⟨temp, -, h⟩ := Option.bind_eq_some_iff.mp h
    split at h
    · injection h with h
      exact h ▸ .of_move t (fun x => moved_with x .mem none true) rfl
    · injection h with h
      exact h ▸ .of_ctx rfl

variable {op : Op} {ct : OpConstraint}

theorem allocates_freeDeadArg {i : Nat} (h : freeDeadArg op p i = some p') : Allocates p p' := by
  unfold freeDeadArg at h
  dsimp only at h
  split at h
  · exact allocates_tempDeadInput h
  · injection h with h
    exact h ▸ .refl p

theorem allocates_regallocCall (h : regallocCall p op ct = some p') : Allocates p p' := by
  obtain ⟨p₁, hsync, h⟩ := Option.bind_eq_some_iff.mp h
  obtain ⟨p₂, hspill, h⟩ := Option.bind_eq_some_iff.mp h
  obtain ⟨targets, -, h⟩ := Option.bind_eq_some_iff.mp h
  obtain ⟨p₃, hload, h⟩ := Option.bind_eq_some_iff.mp h
  obtain ⟨p₄, hfree, h⟩ := Option.bind_eq_some_iff.mp h
  obtain ⟨p₅, hclobber, h⟩ := Option.bind_eq_some_iff.mp h
  obtain ⟨outReg, -, h⟩ := Option.bind_eq_some_iff.mp h
  obtain ⟨p₆, hdef, hout⟩ := Option.bind_eq_some_iff.mp h
  have h₁ := allocates_syncGlobals hsync
  have h₂ := allocates_foldlM (fun _ _ _ hs => allocates_spillLocal hs) hspill
  have h₃ := allocates_foldlM (fun _ _ _ hs => .of_ctx (ctx_loadArg hs)) hload
  have h₄ := allocates_foldlM (fun _ _ _ hs => allocates_freeDeadArg hs) hfree
  have h₅ := allocates_foldlM (fun _ _ _ hs => allocates_clobberReg hs) hclobber
  have h₆ := allocates_defineTemp hdef
  exact (h₁.trans (h₂.trans (h₃.trans (h₄.trans h₅)))).trans
    (((Allocates.of_ctx rfl).trans h₆).trans (allocates_tempDeadIf hout))

/-! ## Generic ops -/

theorem allocates_loadInputs {inputs : List Nat} {ins ins' : Inputs}
    (h : inputs.foldlM (loadInput op ct) (p, ins) = some (p', ins')) : Allocates p p' := by
  refine foldlM_invariant (fun s => Allocates p s.1) (.refl p) ?_ h
  intro i _ s s' hs hstep
  obtain ⟨temp, -, hstep⟩ := Option.bind_eq_some_iff.mp hstep
  obtain ⟨⟨q, reg⟩, hload, hstep⟩ := Option.bind_eq_some_iff.mp hstep
  obtain ⟨loaded, -, hstep⟩ := Option.bind_eq_some_iff.mp hstep
  injection hstep with hstep
  exact hstep ▸ hs.trans (allocates_tempLoadTo hload)

theorem allocates_outputReg {ins : Inputs} {outs : Outputs} {k : Nat} {reg : Reg}
    (h : outputReg op ct ins p outs k = some (p', reg)) : Allocates p p' := by
  unfold outputReg at h
  dsimp only at h
  split at h
  · split at h
    · injection h with h
      injection h with h _
      exact h ▸ .refl p
    · obtain ⟨src, -, h⟩ := Option.bind_eq_some_iff.mp h
      obtain ⟨⟨p₁, copyReg⟩, halloc, h⟩ := Option.bind_eq_some_iff.mp h
      injection h with h
      injection h with h _
      exact h ▸ (allocates_regAlloc halloc).trans
        (.of_move _ (fun x => moved_with x x.valType (some copyReg) x.memCoherent) rfl)
  · split at h
    · exact allocates_regAlloc h
    · exact allocates_regAlloc h

theorem allocates_allocOutputs {outputs : List Nat} {ins : Inputs} {outs outs' : Outputs}
    (h : outputs.foldlM (allocOutput op ct ins) (p, outs) = some (p', outs')) :
    Allocates p p' := by
  refine foldlM_invariant (fun s => Allocates p s.1) (.refl p) ?_ h
  intro k _ s s' hs hstep
  obtain ⟨⟨q, reg⟩, hreg, hstep⟩ := Option.bind_eq_some_iff.mp hstep
  obtain ⟨q', hdef, hstep⟩ := Option.bind_eq_some_iff.mp hstep
  injection hstep with hstep
  exact hstep ▸ hs.trans ((allocates_outputReg hreg).trans (allocates_defineTemp hdef))

theorem allocates_freeDeadInput {i : Nat} (h : freeDeadInput op p i = some p') :
    Allocates p p' := by
  unfold freeDeadInput at h
  dsimp only at h
  split at h
  · exact allocates_tempDeadInput h
  · injection h with h
    exact h ▸ .refl p

theorem allocates_restoreFixed {move : Nat × Reg × Reg} (h : restoreFixed p move = some p') :
    Allocates p p' := by
  obtain ⟨t, origReg, movedReg⟩ := move
  obtain ⟨temp, -, h⟩ := Option.bind_eq_some_iff.mp h
  dsimp only at h
  have hrest : ∀ q, Allocates p q →
      (if q.state.regToTemp movedReg = some t then some (q.freeReg movedReg) else some q) =
        some p' → Allocates p p' := by
    intro q hq h
    split at h
    · injection h with h
      exact h ▸ hq.trans (.of_ctx rfl)
    · injection h with h
      exact h ▸ hq
  split at h
  · exact hrest _ (.of_move t (fun x => moved_with x .reg (some origReg) x.memCoherent) rfl) h
  · exact hrest p (.refl p) h

theorem allocates_syncInput {i : Nat} (h : syncInput op p i = some p') : Allocates p p' := by
  unfold syncInput at h
  dsimp only at h
  split at h
  · obtain ⟨p₁, h₁, h⟩ := Option.bind_eq_some_iff.mp h
    injection h with h
    exact h ▸ allocates_sync_coherent h₁
  · injection h with h
    exact h ▸ .refl p

theorem allocates_regallocOp (h : regallocOp p op ct = some p') : Allocates p p' := by
  obtain ⟨⟨p₁, ins⟩, hload, h⟩ := Option.bind_eq_some_iff.mp h
  obtain ⟨ins', -, h⟩ := Option.bind_eq_some_iff.mp h
  obtain ⟨⟨p₂, outs⟩, hout, h⟩ := Option.bind_eq_some_iff.mp h
  obtain ⟨iregs, -, h⟩ := Option.bind_eq_some_iff.mp h
  obtain ⟨p₃, hdead, h⟩ := Option.bind_eq_some_iff.mp h
  obtain ⟨p₄, hfixed, h⟩ := Option.bind_eq_some_iff.mp h
  obtain ⟨p₅, hdout, hsync⟩ := Option.bind_eq_some_iff.mp h
  have h₁ := allocates_loadInputs hload
  have h₂ := allocates_allocOutputs hout
  have h₃ := allocates_foldlM (fun _ _ _ hs => allocates_freeDeadInput hs) hdead
  have h₄ := allocates_foldlM (fun _ _ _ hs => allocates_restoreFixed hs) hfixed
  have h₅ := allocates_foldlM (fun _ _ _ hs => allocates_tempDeadIf hs) hdout
  have h₆ := allocates_foldlM (fun _ _ _ hs => allocates_syncInput hs) hsync
  exact (h₁.trans h₂).trans
    ((((Allocates.of_ctx rfl).trans h₃).trans h₄).trans (h₅.trans h₆))

/-! ## All ops -/

theorem allocates_regallocMov (h : regallocMov p op = some p') : Allocates p p' := by
  obtain ⟨⟨p₁, srcReg⟩, hload, h⟩ := Option.bind_eq_some_iff.mp h
  obtain ⟨p₂, hfree, h⟩ := Option.bind_eq_some_iff.mp h
  obtain ⟨⟨p₃, dstReg⟩, halloc, h⟩ := Option.bind_eq_some_iff.mp h
  obtain ⟨p₄, hdef, hout⟩ := Option.bind_eq_some_iff.mp h
  have h₁ := (allocates_tempLoadTo hload).trans (allocates_tempDeadIf hfree)
  have h₂ := (allocates_regAlloc halloc).trans (allocates_defineTemp hdef)
  have hemit : Allocates p₄
      (if dstReg ≠ srcReg then p₄.emit (.mov op.opType dstReg srcReg) else p₄) := by
    split
    · exact .of_ctx rfl
    · exact .refl p₄
  exact (h₁.trans h₂).trans (hemit.trans (allocates_tempDeadIf hout))

theorem allocates_regallocGotoPtr (h : regallocGotoPtr p op = some p') : Allocates p p' := by
  obtain ⟨⟨p₁, reg⟩, hload, h⟩ := Option.bind_eq_some_iff.mp h
  obtain ⟨p₂, hfree, h⟩ := Option.bind_eq_some_iff.mp h
  obtain ⟨p₃, hsync, h⟩ := Option.bind_eq_some_iff.mp h
  injection h with h
  have h₁ := (allocates_tempLoadTo hload).trans (allocates_tempDeadIf hfree)
  exact h ▸ (h₁.trans (allocates_syncGlobals hsync)).trans (.of_ctx rfl)

theorem allocates_loadBranchInputs {inputs : List Nat} {s s' : Pass × List Reg × RegSet}
    (h : inputs.foldlM (loadBranchInput op) s = some s') : Allocates s.1 s'.1 := by
  refine foldlM_invariant (fun q => Allocates s.1 q.1) (.refl s.1) ?_ h
  intro i _ q q' hq hstep
  obtain ⟨⟨q₁, reg⟩, hload, hstep⟩ := Option.bind_eq_some_iff.mp hstep
  injection hstep with hstep
  exact hstep ▸ hq.trans (allocates_tempLoadTo hload)

theorem allocates_regallocBrCond (h : regallocBrCond p op = some p') : Allocates p p' := by
  obtain ⟨⟨p₁, iregs, allocated⟩, hload, h⟩ := Option.bind_eq_some_iff.mp h
  obtain ⟨p₂, hfree, h⟩ := Option.bind_eq_some_iff.mp h
  obtain ⟨p₃, hsync, h⟩ := Option.bind_eq_some_iff.mp h
  injection h with h
  have h₁ : Allocates p p₁ := allocates_loadBranchInputs hload
  have h₂ := allocates_foldlM (fun _ _ _ hs => allocates_tempDeadIf hs) hfree
  exact h ▸ (h₁.trans (h₂.trans (allocates_syncGlobals hsync))).trans (.of_ctx rfl)

/-- An op that only syncs the globals. -/
theorem allocates_sync {insn : HostInsn}
    (h : (do return (← syncGlobals p).emit insn) = some p') : Allocates p p' := by
  obtain ⟨p₁, hsync, h⟩ := Option.bind_eq_some_iff.mp h
  injection h with h
  exact h ▸ (allocates_syncGlobals hsync).trans (.of_ctx rfl)

theorem allocates_stepOp (h : stepOp p op = some p') : Allocates p p' := by
  unfold stepOp at h
  split at h
  · injection h with h
    exact h ▸ .refl p
  · injection h with h
    exact h ▸ .refl p
  · exact allocates_regallocMov h
  · exact allocates_sync h
  · exact allocates_sync h
  · exact allocates_sync h
  · exact allocates_sync h
  · exact allocates_regallocCall h
  · exact allocates_regallocGotoPtr h
  · injection h with h
    exact h ▸ .of_ctx rfl
  · exact allocates_regallocBrCond h
  · obtain ⟨p₁, h₁, h⟩ := Option.bind_eq_some_iff.mp h
    refine (allocates_regallocOp h₁).trans ?_
    split at h
    · exact allocates_syncGlobals h
    · injection h with h
      exact h ▸ .refl p₁

/-- The whole pass is a run from the context it starts with. -/
theorem frameRun_regalloc {ctx : Context} {ops : List Op}
    (h : regallocAndCodegen ctx ops = some p) : ∃ slots, FrameRun ctx slots p.ctx :=
  allocates_foldlM (fun _ _ _ hs => allocates_stepOp hs) h

end

/-! ## The slots of a compilation -/

/-- The temps in `slots` got their slots from `alloc_temp_frame`: each has one, in the area and
aligned to its size, and no two share a byte. -/
structure SlotsApart (ctx c : Context) (slots : List (Nat × Int)) : Prop where
  one : ∀ s ∈ slots, ∀ s' ∈ slots, s.1 = s'.1 → s.2 = s'.2
  placed : ∀ s ∈ slots, ∃ temp, c.temp s.1 = some temp ∧ temp.memAllocated = true ∧
    temp.memOffset = s.2 ∧ (temp.ty.sizeBytes : Int) ∣ s.2 ∧
    ctx.frameStart ≤ s.2 ∧ s.2 + temp.ty.sizeBytes ≤ ctx.frameEnd
  apart : ∀ s ∈ slots, ∀ s' ∈ slots, s.1 ≠ s'.1 → ∀ temp temp', c.temp s.1 = some temp →
    c.temp s'.1 = some temp' →
    s.2 + temp.ty.sizeBytes ≤ s'.2 ∨ s'.2 + temp'.ty.sizeBytes ≤ s.2

theorem slotsApart_of_run {ctx c : Context} {slots : List (Nat × Int)}
    (h : FrameRun ctx slots c) (he : Empty ctx) : SlotsApart ctx c slots := by
  obtain ⟨harea, hslots⟩ := h.spec he
  refine ⟨?_, ?_, ?_⟩
  · intro s hs s' hs' heq
    obtain ⟨x, hx, hoff⟩ := hslots s hs
    obtain ⟨x', hx', hoff'⟩ := hslots s' hs'
    have hsame : some x = some x' := by rw [← hx.1, heq, hx'.1]
    injection hsame with hsame
    rw [← hoff, ← hoff', hsame]
  · intro s hs
    obtain ⟨x, hx, hoff⟩ := hslots s hs
    obtain ⟨hlow, -, htop, halign⟩ := harea.inside s.1 x hx
    rw [hoff] at hlow halign
    unfold slotEnd at htop
    rw [hoff] at htop
    exact ⟨x, hx.1, hx.2.2, hoff, halign, hlow, htop⟩
  · intro s hs s' hs' hne temp temp' ht ht'
    obtain ⟨x, hx, hoff⟩ := hslots s hs
    obtain ⟨x', hx', hoff'⟩ := hslots s' hs'
    have hxt : x = temp := Option.some.inj (hx.1.symm.trans ht)
    have hxt' : x' = temp' := Option.some.inj (hx'.1.symm.trans ht')
    subst hxt hxt'
    have hapart := harea.apart s.1 s'.1 x x' hx hx' hne
    unfold slotEnd at hapart
    rw [hoff, hoff'] at hapart
    exact hapart

/-- From an empty area: slots never overlap, in any run, and so for the allocator on any ops; and
`Context::reset` empties the area again. -/
theorem spill_slots_apart (ctx : Context) (he : Empty ctx) (hfirst : GlobalsFirst ctx) :
    (∀ slots c, FrameRun ctx slots c →
      SlotsApart ctx c slots ∧ Empty c.reset ∧ c.reset.frameAllocEnd = ctx.frameStart) ∧
    ∀ ops p, regallocAndCodegen ctx ops = some p → ∃ slots, FrameRun ctx slots p.ctx := by
  refine ⟨?_, fun ops p h => frameRun_regalloc h⟩
  intro slots c h
  exact ⟨slotsApart_of_run h he, empty_reset (h.globalsFirst hfirst), (h.spec he).1.frame_start⟩

theorem empty_of_unallocated {ctx : Context} (hend : ctx.frameAllocEnd = ctx.frameStart)
    (h : ∀ t < ctx.nbTemps, isLocal (ctx.temps t) = true → (ctx.temps t).memAllocated = false) :
    Empty ctx := by
  refine ⟨hend, ?_⟩
  rintro t temp ⟨ht, hlocal, hall⟩
  unfold Context.temp at ht
  split at ht
  · rename_i hlt
    injection ht with ht
    rw [← ht] at hlocal hall
    rw [h t hlt hlocal] at hall
    cases hall
  · cases ht

/-- The area of `demoContext`, with two globals, two constants and two locals. -/
theorem spill_slots_apart_demo :
    (∀ slots c, FrameRun demoContext slots c →
      SlotsApart demoContext c slots ∧ Empty c.reset ∧ c.reset.frameAllocEnd = 128) ∧
    ∀ ops p, regallocAndCodegen demoContext ops = some p →
      ∃ slots, FrameRun demoContext slots p.ctx :=
  spill_slots_apart demoContext (empty_of_unallocated rfl (by decide)) ⟨by decide, by decide⟩

end TcgRs.Analysis.AllocatorRuns
