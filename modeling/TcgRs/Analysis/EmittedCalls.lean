import TcgRs.Analysis.TempStates

/-!
# The calls that an op emits

Around the call that an op stands for the allocator emits moves, loads, stores and loads of
constants.  Only the ops that place a label or branch to one emit a call that does so, and it is
their last.
-/

set_option autoImplicit false

namespace TcgRs.Analysis.EmittedCalls

open TcgRs.Model TcgRs.Model.Ir TcgRs.Model.X86 TcgRs.Model.RegAlloc TcgRs.Library TempStates

/-- Calls that neither place a label nor branch to one. -/
def isQuiet : HostInsn → Bool
  | .label _ | .jmp _ | .op .brCond _ _ _ _ => false
  | _ => true

/-- Transfers, and the calls that ops of one opcode stand for. -/
def isOwn (opc : Opcode) : HostInsn → Bool
  | .label _ | .jmp _ => false
  | .op opc' _ _ _ _ => decide (opc' = opc)
  | _ => true

/-- From `p` to `p'` only transfers and own calls of ops with opcode `opc` are added. -/
def Adds (opc : Opcode) (p p' : Pass) : Prop :=
  ∃ code, p'.buf = p.buf ++ code ∧ ∀ insn ∈ code, isOwn opc insn = true

variable {p p' p'' : Pass} {op : Op} {opc : Opcode} {loads dies : Nat → Prop}

theorem isQuiet_of_isOwn {insn : HostInsn} (hopc : opc ≠ .brCond) (h : isOwn opc insn = true) :
    isQuiet insn = true := by
  unfold isQuiet
  split
  · exact h
  · exact h
  · exact absurd (of_decide_eq_true h).symm hopc
  · rfl

theorem Adds.of_buf (h : p'.buf = p.buf) : Adds opc p p' :=
  ⟨[], by rw [h, List.append_nil], nofun⟩

theorem Adds.trans (h : Adds opc p p') (h' : Adds opc p' p'') : Adds opc p p'' := by
  obtain ⟨code, hbuf, hown⟩ := h
  obtain ⟨code', hbuf', hown'⟩ := h'
  refine ⟨code ++ code', by rw [hbuf', hbuf, List.append_assoc], fun insn hmem => ?_⟩
  cases List.mem_append.mp hmem with
  | inl hmem => exact hown insn hmem
  | inr hmem => exact hown' insn hmem

theorem adds_emit {insn : HostInsn} (h : isOwn opc insn = true) : Adds opc p (p.emit insn) :=
  ⟨[insn], rfl, fun _ hmem => (List.mem_singleton.mp hmem) ▸ h⟩

theorem adds_call (ty : IrType) (oregs iregs : List Reg) (cargs : List Nat) :
    Adds op.opc p (p.emit (.op op.opc ty oregs iregs cargs)) := adds_emit (decide_eq_true rfl)

theorem own_of_transfer {zero : Prop} {insn : HostInsn} (h : Transfer zero insn) :
    isOwn opc insn = true := by
  cases h <;> rfl

theorem Adds.of_moves (h : Moves loads dies p p') : Adds opc p p' := by
  obtain ⟨code, hbuf, htransfer⟩ := h.code
  exact ⟨code, hbuf, fun insn hmem => own_of_transfer (htransfer insn hmem)⟩

theorem adds_foldlM {A : Type} {step : Pass → A → Option Pass} {l : List A}
    (hstep : ∀ q a q', step q a = some q' → Adds opc q q') (h : l.foldlM step p = some p') :
    Adds opc p p' :=
  foldlM_invariant (Adds opc p) (.of_buf rfl) (fun a _ q q' hq hs => hq.trans (hstep q a q' hs)) h

/-! ## Calls to helpers -/

theorem adds_syncGlobals (h : syncGlobals p = some p') : Adds opc p p' := by
  have hmoves : Moves (fun _ => True) (fun _ => True) p p' := moves_syncGlobals h
  exact .of_moves hmoves

theorem adds_spillLocal {reg : Reg} (h : spillLocal p reg = some p') : Adds opc p p' := by
  unfold spillLocal at h
  split at h
  · injection h with h
    exact h ▸ .of_buf rfl
  · obtain ⟨temp, -, h⟩ := Option.bind_eq_some_iff.mp h
    split at h
    · injection h with h
      exact h ▸ .of_buf rfl
    · have hmoves : Moves (fun _ => True) (fun _ => True) p p' := moves_evictReg h
      exact .of_moves hmoves

theorem adds_loadArg {t : Nat} {target : Reg} (h : loadArg p t target = some p') :
    Adds opc p p' := by
  obtain ⟨temp, -, h⟩ := Option.bind_eq_some_iff.mp h
  split at h
  · obtain ⟨src, -, h⟩ := Option.bind_eq_some_iff.mp h
    split at h
    · injection h with h
      exact h ▸ adds_emit rfl
    · injection h with h
      exact h ▸ .of_buf rfl
  · injection h with h
    exact h ▸ adds_emit rfl
  · have hmoves : Moves (fun _ => True) (fun _ => True) p p' := moves_loadFromMem h
    exact .of_moves hmoves
  · injection h with h
    exact h ▸ adds_emit rfl

theorem adds_tempDeadIf {b : Bool} {t : Nat} (h : tempDeadIf b p t = some p') : Adds opc p p' := by
  have hmoves : Moves (fun _ => True) (fun _ => True) p p' := moves_tempDeadIf (fun _ => trivial) h
  exact .of_moves hmoves

theorem adds_freeDeadArg {i : Nat} (h : freeDeadArg op p i = some p') : Adds opc p p' := by
  unfold freeDeadArg at h
  dsimp only at h
  split at h
  · have hmoves : Moves (fun _ => True) (fun _ => True) p p' := moves_tempDeadInput trivial h
    exact .of_moves hmoves
  · injection h with h
    exact h ▸ .of_buf rfl

theorem adds_clobberReg {reg : Reg} (h : clobberReg p reg = some p') : Adds opc p p' := by
  unfold clobberReg at h
  split at h
  · injection h with h
    exact h ▸ .of_buf rfl
  · obtain ⟨temp, -, h⟩ := Option.bind_eq_some_iff.mp h
    split at h <;> injection h with h <;> exact h ▸ .of_buf rfl

theorem adds_regallocCall {ct : OpConstraint} (h : regallocCall p op ct = some p') :
    Adds op.opc p p' := by
  obtain ⟨p₁, hsync, h⟩ := Option.bind_eq_some_iff.mp h
  obtain ⟨p₂, hspill, h⟩ := Option.bind_eq_some_iff.mp h
  obtain ⟨targets, -, h⟩ := Option.bind_eq_some_iff.mp h
  obtain ⟨p₃, hload, h⟩ := Option.bind_eq_some_iff.mp h
  obtain ⟨p₄, hfree, h⟩ := Option.bind_eq_some_iff.mp h
  obtain ⟨p₅, hclobber, h⟩ := Option.bind_eq_some_iff.mp h
  obtain ⟨outReg, -, h⟩ := Option.bind_eq_some_iff.mp h
  obtain ⟨p₆, hdef, hout⟩ := Option.bind_eq_some_iff.mp h
  have h₃ : Adds op.opc p₂ p₃ := adds_foldlM (fun _ _ _ hs => adds_loadArg hs) hload
  have h₄ : Adds op.opc p₃ p₄ := adds_foldlM (fun _ _ _ hs => adds_freeDeadArg hs) hfree
  have h₅ : Adds op.opc p₄ p₅ := adds_foldlM (fun _ _ _ hs => adds_clobberReg hs) hclobber
  have hcall : Adds op.opc p₅ (p₅.emit (.op op.opc op.opType [outReg] targets op.cargs)) :=
    adds_call _ _ _ _
  have h₆ : Moves (fun _ => True) (fun _ => True) _ p₆ := (moves_defineTemp hdef).1
  exact (adds_syncGlobals hsync).trans ((adds_foldlM (fun _ _ _ hs => adds_spillLocal hs)
    hspill).trans (h₃.trans (h₄.trans (h₅.trans (hcall.trans ((Adds.of_moves h₆).trans
    (adds_tempDeadIf hout)))))))

/-! ## The other ops -/

theorem adds_regallocMov (h : regallocMov p op = some p') : Adds opc p p' := by
  obtain ⟨⟨p₁, srcReg⟩, hload, h⟩ := Option.bind_eq_some_iff.mp h
  obtain ⟨p₂, hdead, h⟩ := Option.bind_eq_some_iff.mp h
  obtain ⟨⟨p₃, dstReg⟩, halloc, h⟩ := Option.bind_eq_some_iff.mp h
  obtain ⟨p₄, hdef, hout⟩ := Option.bind_eq_some_iff.mp h
  have h₁ : Moves (fun _ => True) (fun _ => True) p p₁ := (moves_tempLoadTo trivial hload).1
  have h₃ : Moves (fun _ => True) (fun _ => True) p₂ p₃ := moves_regAlloc halloc
  have h₄ : Moves (fun _ => True) (fun _ => True) p₃ p₄ := (moves_defineTemp hdef).1
  have hmov : ∀ q, (if dstReg ≠ srcReg then p₄.emit (.mov op.opType dstReg srcReg) else p₄) = q →
      Adds opc p₄ q := by
    intro q hq
    split at hq
    · exact hq ▸ adds_emit rfl
    · exact hq ▸ .of_buf rfl
  exact (Adds.of_moves h₁).trans ((adds_tempDeadIf hdead).trans ((Adds.of_moves h₃).trans
    ((Adds.of_moves h₄).trans ((hmov _ rfl).trans (adds_tempDeadIf hout)))))

theorem adds_regallocGotoPtr (h : regallocGotoPtr p op = some p') : Adds op.opc p p' := by
  obtain ⟨⟨p₁, reg⟩, hload, h⟩ := Option.bind_eq_some_iff.mp h
  obtain ⟨p₂, hfree, h⟩ := Option.bind_eq_some_iff.mp h
  obtain ⟨p₃, hsync, h⟩ := Option.bind_eq_some_iff.mp h
  injection h with h
  have h₁ : Moves (fun _ => True) (fun _ => True) p p₁ := (moves_tempLoadTo trivial hload).1
  exact h ▸ (Adds.of_moves h₁).trans ((adds_tempDeadIf hfree).trans
    ((adds_syncGlobals hsync).trans (adds_call _ _ _ _)))

theorem adds_generic (h : (do
      let p ← regallocOp p op (opConstraint op.opc)
      if op.opc.opDef.flags.contains .bbEnd then syncGlobals p else return p) = some p') :
    Adds op.opc p p' := by
  obtain ⟨p₁, h₁, h⟩ := Option.bind_eq_some_iff.mp h
  obtain ⟨q₁, q₂, ins, oregs, iregs, hload, -, -, hout, -, hrest⟩ :=
    regallocOp_parts (fits_of_regallocOp h₁) h₁
  have hin : Moves (fun t => t ∈ op.iargs) (fun _ => True) p q₁ :=
    (moves_loadInputs (Nat.le_refl _) hload).1
  have hsync : Adds op.opc p₁ p' := by
    split at h
    · exact adds_syncGlobals h
    · injection h with h
      exact h ▸ .of_buf rfl
  exact (Adds.of_moves hin).trans ((Adds.of_moves hout).trans ((adds_call _ _ _ _).trans
    ((Adds.of_moves hrest).trans hsync)))

/-- The conditional branch comes last. -/
theorem emitted_regallocBrCond (h : regallocBrCond p op = some p') :
    ∃ (q : Pass) (iregs : List Reg), Adds .nop p q ∧
      p'.buf = q.buf ++ [.op op.opc op.opType [] iregs op.cargs] := by
  obtain ⟨⟨p₁, iregs, allocated⟩, hload, h⟩ := Option.bind_eq_some_iff.mp h
  obtain ⟨p₂, hfree, h⟩ := Option.bind_eq_some_iff.mp h
  obtain ⟨p₃, hsync, h⟩ := Option.bind_eq_some_iff.mp h
  injection h with h
  have h₁ : Adds .nop p p₁ := by
    refine foldlM_invariant (fun s => Adds .nop p s.1) (.of_buf rfl) ?_ hload
    rintro i - ⟨q, regs, alloc⟩ s' hq hstep
    obtain ⟨⟨q', reg⟩, hone, hstep⟩ := Option.bind_eq_some_iff.mp hstep
    injection hstep with hstep
    have hmoves : Moves (fun _ => True) (fun _ => True) q q' := (moves_tempLoadTo trivial hone).1
    rw [← hstep]
    exact hq.trans (.of_moves hmoves)
  have h₂ : Adds .nop p₁ p₂ := adds_foldlM (fun _ _ _ hs => adds_tempDeadIf hs) hfree
  exact ⟨p₃, iregs, h₁.trans (h₂.trans (adds_syncGlobals hsync)), by rw [← h]; rfl⟩

/-- What an op emits: quiet calls, and last the one that places its label or branches to it. -/
def Emitted (op : Op) (code : List HostInsn) : Prop :=
  ∃ quiet : List HostInsn, (∀ insn ∈ quiet, isQuiet insn = true) ∧
    match op.opc with
    | .setLabel => code = quiet ++ [.label (op.args 0)]
    | .br => code = quiet ++ [.jmp (op.args 0)]
    | .brCond => ∃ iregs, code = quiet ++ [.op .brCond op.opType [] iregs op.cargs]
    | _ => code = quiet

/-- Transfers, and last one call. -/
theorem adds_last {insn : HostInsn} (h : (do return (← syncGlobals p).emit insn) = some p') :
    ∃ front : List HostInsn, p'.buf = p.buf ++ (front ++ [insn]) ∧
      ∀ insn ∈ front, isOwn opc insn = true := by
  obtain ⟨p₁, hsync, h⟩ := Option.bind_eq_some_iff.mp h
  injection h with h
  obtain ⟨front, hbuf, hown⟩ := adds_syncGlobals hsync
  refine ⟨front, ?_, hown⟩
  rw [← h, ← List.append_assoc, ← hbuf]
  rfl

/-- The calls of an op: its own ones and transfers, or transfers and one that ends its code. -/
inductive Calls (op : Op) (code : List HostInsn) : Prop where
  | own (hop : op.opc ≠ .setLabel ∧ op.opc ≠ .br ∧ op.opc ≠ .brCond ∧ op.opc ≠ .gotoTb)
      (hcode : ∀ insn ∈ code, isOwn op.opc insn = true)
  | last {front : List HostInsn} {insn : HostInsn} (hcode : code = front ++ [insn])
      (hfront : ∀ insn ∈ front, isOwn .nop insn = true)
      (hlast : (op.opc = .setLabel ∧ insn = .label (op.args 0)) ∨
        (op.opc = .br ∧ insn = .jmp (op.args 0)) ∨
        (op.opc = .brCond ∧ ∃ iregs, insn = .op .brCond op.opType [] iregs op.cargs) ∨
        (op.opc = .gotoTb ∧ insn = .op .gotoTb op.opType [] [] op.cargs))

theorem calls_of_adds (h : Adds op.opc p p')
    (hop : op.opc ≠ .setLabel ∧ op.opc ≠ .br ∧ op.opc ≠ .brCond ∧ op.opc ≠ .gotoTb) :
    ∃ code, p'.buf = p.buf ++ code ∧ Calls op code := by
  obtain ⟨code, hbuf, hown⟩ := h
  exact ⟨code, hbuf, .own hop hown⟩

/-- What every op emits. -/
theorem calls_stepOp (h : stepOp p op = some p') : ∃ code, p'.buf = p.buf ++ code ∧
    Calls op code := by
  have hsome : some p = some p' → Adds op.opc p p' := by
    intro hp
    injection hp with hp
    exact hp ▸ .of_buf rfl
  unfold stepOp at h
  split at h
  · rename_i hop
    exact calls_of_adds (hsome h) (by rw [hop]; decide)
  · rename_i hop
    exact calls_of_adds (hsome h) (by rw [hop]; decide)
  · rename_i hop
    exact calls_of_adds (adds_regallocMov h) (by rw [hop]; decide)
  · rename_i hop
    obtain ⟨front, hbuf, hfront⟩ := adds_last h
    exact ⟨_, hbuf, .last rfl hfront (.inl ⟨hop, rfl⟩)⟩
  · rename_i hop
    obtain ⟨front, hbuf, hfront⟩ := adds_last h
    exact ⟨_, hbuf, .last rfl hfront (.inr (.inl ⟨hop, rfl⟩))⟩
  · rename_i hop
    obtain ⟨p₁, hsync, h⟩ := Option.bind_eq_some_iff.mp h
    injection h with h
    subst h
    exact calls_of_adds ((adds_syncGlobals hsync).trans (adds_call _ _ _ _)) (by rw [hop]; decide)
  · rename_i hop
    obtain ⟨front, hbuf, hfront⟩ := adds_last h
    exact ⟨_, hbuf, .last rfl hfront (.inr (.inr (.inr ⟨hop, by rw [hop]⟩)))⟩
  · rename_i hop
    exact calls_of_adds (adds_regallocCall h) (by rw [hop]; decide)
  · rename_i hop
    exact calls_of_adds (adds_regallocGotoPtr h) (by rw [hop]; decide)
  · rename_i hop
    injection h with h
    exact calls_of_adds (h ▸ adds_emit rfl) (by rw [hop]; decide)
  · rename_i hop
    obtain ⟨q, iregs, ⟨front, hbuf, hfront⟩, hlast⟩ := emitted_regallocBrCond h
    refine ⟨front ++ [.op op.opc op.opType [] iregs op.cargs], ?_, .last rfl hfront
      (.inr (.inr (.inl ⟨hop, iregs, by rw [hop]⟩)))⟩
    rw [hlast, hbuf, List.append_assoc]
  · rename_i hlabel hbr _ hgoto _ _ _ hcond
    exact calls_of_adds (adds_generic h) ⟨hlabel, hbr, hcond, hgoto⟩

theorem quiet_syncGlobals (h : syncGlobals p = some p') :
    ∃ code, p'.buf = p.buf ++ code ∧ ∀ insn ∈ code, isQuiet insn = true := by
  have hnop : Opcode.nop ≠ .brCond := nofun
  obtain ⟨code, hbuf, hown⟩ := adds_syncGlobals h
  exact ⟨code, hbuf, fun insn hmem => isQuiet_of_isOwn hnop (hown insn hmem)⟩

theorem emitted_of_calls {code : List HostInsn} (h : Calls op code) : Emitted op code := by
  cases h with
  | own hop hown =>
    refine ⟨code, fun insn hmem => isQuiet_of_isOwn hop.2.2.1 (hown insn hmem), ?_⟩
    split
    · exact absurd ‹_› hop.1
    · exact absurd ‹_› hop.2.1
    · exact absurd ‹_› hop.2.2.1
    · rfl
  | last hcode hfront hlast =>
    rename_i front insn
    have hnop : Opcode.nop ≠ .brCond := nofun
    have hquiet : ∀ insn ∈ front, isQuiet insn = true :=
      fun insn hmem => isQuiet_of_isOwn hnop (hfront insn hmem)
    rcases hlast with ⟨hop, rfl⟩ | ⟨hop, rfl⟩ | ⟨hop, iregs, rfl⟩ | ⟨hop, rfl⟩
    · exact ⟨front, hquiet, by rw [hop]; exact hcode⟩
    · exact ⟨front, hquiet, by rw [hop]; exact hcode⟩
    · exact ⟨front, hquiet, by rw [hop]; exact ⟨iregs, hcode⟩⟩
    · refine ⟨code, ?_, by rw [hop]⟩
      intro insn hmem
      rw [hcode] at hmem
      cases List.mem_append.mp hmem with
      | inl hmem => exact hquiet insn hmem
      | inr hmem =>
        rw [List.mem_singleton.mp hmem]
        rfl

theorem emitted_stepOp (h : stepOp p op = some p') :
    ∃ code, p'.buf = p.buf ++ code ∧ Emitted op code := by
  obtain ⟨code, hbuf, hcalls⟩ := calls_stepOp h
  exact ⟨code, hbuf, emitted_of_calls hcalls⟩

end TcgRs.Analysis.EmittedCalls
