import TcgRs.Analysis.FpCode
import TcgRs.Analysis.FpFlags

/-!
# The dirty marking of the floating-point state

An instruction that changes floating-point state has to leave FS Dirty.  Instructions that write a
floating-point register do; comparisons and conversions to integers never touch FS, also when they
raise new exceptions.
-/

set_option autoImplicit false
set_option linter.constructorNameAsVariable false

namespace TcgRs.Analysis.FsDirty

open TcgRs.Library TcgRs.Model TcgRs.Model.Riscv TcgRs.Interface.RiscvExec
open CpuFields FpCode FpFlags

variable {H : HostFloat} {T : HelperTable} {insn : FpInsn} {c c' : Cpu}

/-! ## The property -/

/-- A floating-point register has changed, or an exception flag is new. -/
def FpChanged (c c' : Cpu) : Prop :=
  (∃ i, c'.field (.fpr i) ≠ c.field (.fpr i)) ∨ c'.field .fflags &&& ~~~c.field .fflags ≠ 0

/-- FS is Dirty, and the other bits of `ustatus` are as before. -/
def MarkedDirty (c c' : Cpu) : Prop :=
  fsOf c' = USTATUS_FS_DIRTY ∧
    c'.field .ustatus &&& ~~~USTATUS_FS_MASK = c.field .ustatus &&& ~~~USTATUS_FS_MASK

/-! ## What an instruction raises -/

/-- The flags that an instruction with an integer result raises on its operands: a comparison NV for
NaNs; a conversion NV for what has no integer value in range, else what the host raises. -/
def raised (H : HostFloat) (c : Cpu) : FpInsn → BitVec 64
  | .feqS a => quietRaised f32Kind (readF32Bits (c.field (.fpr a.rs1)))
      (readF32Bits (c.field (.fpr a.rs2)))
  | .fltS a | .fleS a => signalingRaised f32Kind (readF32Bits (c.field (.fpr a.rs1)))
      (readF32Bits (c.field (.fpr a.rs2)))
  | .feqD a => quietRaised f64Kind (c.field (.fpr a.rs1)) (c.field (.fpr a.rs2))
  | .fltD a | .fleD a => signalingRaised f64Kind (c.field (.fpr a.rs1)) (c.field (.fpr a.rs2))
  | .fcvtWS a => signedRaised I32_MIN_F64 I32_MAX_PLUS1_F64 H c.fpEnv
      (H.widen (readF32Bits (c.field (.fpr a.rs1)))) a.rm
  | .fcvtWuS a => unsignedRaised U32_MAX_PLUS1_F64 H c.fpEnv
      (H.widen (readF32Bits (c.field (.fpr a.rs1)))) a.rm
  | .fcvtLS a => signedRaised I64_MIN_F64 I64_MAX_PLUS1_F64 H c.fpEnv
      (H.widen (readF32Bits (c.field (.fpr a.rs1)))) a.rm
  | .fcvtLuS a => unsignedRaised U64_MAX_PLUS1_F64 H c.fpEnv
      (H.widen (readF32Bits (c.field (.fpr a.rs1)))) a.rm
  | .fcvtWD a => signedRaised I32_MIN_F64 I32_MAX_PLUS1_F64 H c.fpEnv (c.field (.fpr a.rs1)) a.rm
  | .fcvtWuD a => unsignedRaised U32_MAX_PLUS1_F64 H c.fpEnv (c.field (.fpr a.rs1)) a.rm
  | .fcvtLD a => signedRaised I64_MIN_F64 I64_MAX_PLUS1_F64 H c.fpEnv (c.field (.fpr a.rs1)) a.rm
  | .fcvtLuD a => unsignedRaised U64_MAX_PLUS1_F64 H c.fpEnv (c.field (.fpr a.rs1)) a.rm
  | _ => 0

/-- Whether it writes a floating-point register. -/
def writesFpr (insn : FpInsn) : Bool := (FpInsn.body insn).writesFpr

/-! ## Fields after an instruction -/

theorem setDest_field (c : Cpu) (v : BitVec 64) {dest : FpDest} {field : CpuField}
    (h : dest.isFpr = true → ∀ i, field ≠ .fpr i) :
    (Cpu.setDest c v dest).field field = c.field field := by
  cases dest with
  | fpr idx => exact Function.update_of_ne (h rfl idx) _ _
  | gpr idx => rfl

theorem setField_field (c : Cpu) {dst field : CpuField} (h : field ≠ dst) (v : BitVec 64) :
    (c.setField dst v).field field = c.field field := by
  unfold Cpu.setField
  exact Function.update_of_ne h _ _

theorem setField_self (c : Cpu) (dst : CpuField) (v : BitVec 64) :
    (c.setField dst v).field dst = v := by
  unfold Cpu.setField
  dsimp only
  rw [Function.update_self]

theorem setFpEnv_field (c : Cpu) (env : FpEnv) {field : CpuField} (hfflags : field ≠ .fflags)
    (hfrm : field ≠ .frm) : (c.setFpEnv env).field field = c.field field := by
  unfold Cpu.setFpEnv
  rw [setField_field _ hfrm, setField_field _ hfflags]

theorem setFpEnv_fflags (c : Cpu) (env : FpEnv) :
    (c.setFpEnv env).field .fflags = env.fflags := by
  unfold Cpu.setFpEnv
  rw [setField_field _ (by decide), setField_self]

/-- The part behind the check leaves `ustatus` alone. -/
theorem body_ustatus (body : FpBody) (c : Cpu) :
    (body.after H c).field .ustatus = c.field .ustatus := by
  have hne : ∀ i, CpuField.ustatus ≠ .fpr i := nofun
  cases body with
  | call helper operands dest =>
    exact (setDest_field _ _ fun _ => hne).trans (setFpEnv_field c _ (by decide) (by decide))
  | load a memop isSingle => exact setField_field c (hne a.rd) _
  | store a memop isSingle => rfl
  | toGpr a isSingle => rfl
  | ofGpr a isSingle => exact setField_field c (hne a.rd) _

/-- Only an instruction with a floating-point destination changes such a register. -/
theorem body_fpr {body : FpBody} (h : body.writesFpr = false) (c : Cpu) (i : Fin 32) :
    (body.after H c).field (.fpr i) = c.field (.fpr i) := by
  cases body with
  | call helper operands dest =>
    have hdest : dest.isFpr = false := h
    exact (setDest_field _ _ fun hfpr => absurd (hdest.symm.trans hfpr) (by decide)).trans
      (setFpEnv_field c _ nofun nofun)
  | load a memop isSingle => cases h
  | store a memop isSingle => rfl
  | toGpr a isSingle => rfl
  | ofGpr a isSingle => cases h

theorem after_of_not_writes (h : writesFpr insn = false) (c : Cpu) :
    FpInsn.after H insn c = (FpInsn.body insn).after H c := by
  unfold FpInsn.after
  have hbody : (FpInsn.body insn).writesFpr = false := h
  rw [hbody]
  rfl

/-- The flags that are new after a call with an integer result. -/
theorem call_new {helper : FpHelper} {operands : List FpOperand} {rd : Fin 32}
    {flags : BitVec 64}
    (h : Accrues flags c.fpEnv (callResult H helper c (operands.map (operandValue c))).2) :
    ((FpBody.call helper operands (.gpr rd)).after H c).field .fflags &&& ~~~c.field .fflags =
      flags &&& ~~~c.field .fflags := by
  have hflags : ((FpBody.call helper operands (.gpr rd)).after H c).field .fflags =
      (callResult H helper c (operands.map (operandValue c))).2.fflags := setFpEnv_fflags c _
  rw [hflags]
  exact h.new_eq

/-- An instruction with an integer result, or none, accrues what its operands raise. -/
theorem after_new (h : writesFpr insn = false) (c : Cpu) :
    (FpInsn.after H insn c).field .fflags &&& ~~~c.field .fflags =
      raised H c insn &&& ~~~c.field .fflags := by
  have hnone : c.field .fflags &&& ~~~c.field .fflags = (0 : BitVec 64) &&& ~~~c.field .fflags := by
    simp
  rw [after_of_not_writes h]
  cases insn
  case fsw | fsd | fmvXW | fmvXD => exact hnone
  case fclassS | fclassD => exact call_new (accrues_refl c.fpEnv)
  case feqS | feqD => exact call_new (accrues_compareQuiet _ c.fpEnv _ _)
  case fltS | fltD | fleS | fleD => exact call_new (accrues_compareSignaling _ _ c.fpEnv _ _)
  case fcvtWS | fcvtWD | fcvtLS | fcvtLD => exact call_new (accrues_fcvtSigned H _ _ _ _ _ c.fpEnv)
  case fcvtWuS | fcvtWuD | fcvtLuS | fcvtLuD =>
    exact call_new (accrues_fcvtUnsigned H _ _ _ _ c.fpEnv)
  all_goals cases h

/-! ## The marking -/

theorem fsDirty_marked (c : Cpu) : MarkedDirty c (fsDirty c) := by
  unfold MarkedDirty fsOf fsDirty Cpu.setField
  dsimp only
  rw [Function.update_self]
  have hdirty : (c.field .ustatus &&& ~~~USTATUS_FS_MASK ||| USTATUS_FS_DIRTY) &&&
      USTATUS_FS_MASK = USTATUS_FS_DIRTY := by
    have hbits : USTATUS_FS_MASK = USTATUS_FS_DIRTY := rfl
    rw [hbits]
    ext i hi
    simp only [BitVec.getElem_and, BitVec.getElem_or, BitVec.getElem_not]
    grind
  have hother : (c.field .ustatus &&& ~~~USTATUS_FS_MASK ||| USTATUS_FS_DIRTY) &&&
      ~~~USTATUS_FS_MASK = c.field .ustatus &&& ~~~USTATUS_FS_MASK := by
    have hbits : USTATUS_FS_MASK = USTATUS_FS_DIRTY := rfl
    rw [hbits]
    ext i hi
    simp only [BitVec.getElem_and, BitVec.getElem_or, BitVec.getElem_not]
    grind
  exact ⟨hdirty, hother⟩

/-- The marking only reads `ustatus`. -/
theorem markedDirty_congr {c₁ c₂ : Cpu} (h : c₁.field .ustatus = c₂.field .ustatus) :
    MarkedDirty c c₁ ↔ MarkedDirty c c₂ := by
  unfold MarkedDirty fsOf
  rw [h]

theorem after_marked_of_writes (h : writesFpr insn = true) (c : Cpu) :
    MarkedDirty c (FpInsn.after H insn c) := by
  have hafter : FpInsn.after H insn c = (FpInsn.body insn).after H (fsDirty c) := by
    unfold FpInsn.after
    have hbody : (FpInsn.body insn).writesFpr = true := h
    rw [hbody]
    rfl
  rw [markedDirty_congr (hafter ▸ body_ustatus _ _)]
  exact fsDirty_marked c

theorem after_marked_iff (h : writesFpr insn = false) (c : Cpu) :
    MarkedDirty c (FpInsn.after H insn c) ↔ fsOf c = USTATUS_FS_DIRTY := by
  rw [markedDirty_congr (after_of_not_writes h c ▸ body_ustatus _ _)]
  unfold MarkedDirty
  exact and_iff_left rfl

theorem after_changed_iff (h : writesFpr insn = false) (c : Cpu) :
    FpChanged c (FpInsn.after H insn c) ↔ raised H c insn &&& ~~~c.field .fflags ≠ 0 := by
  unfold FpChanged
  rw [after_new h]
  refine or_iff_right ?_
  rintro ⟨i, hi⟩
  apply hi
  rw [after_of_not_writes h]
  exact body_fpr h c i

/-- An instruction marks its changes unless it has an integer result, FS is not yet Dirty, and its
operands raise a flag that is not set. -/
theorem executesFp_marked_iff {dc : RiscvDisasContext} (h : ExecutesFp H T dc insn c c')
    (hfs : fsOf c ≠ 0) :
    (FpChanged c c' → MarkedDirty c c') ↔
      writesFpr insn = true ∨ fsOf c = USTATUS_FS_DIRTY ∨
        raised H c insn &&& ~~~c.field .fflags = 0 := by
  rw [executesFp_eq h hfs]
  cases hwrites : writesFpr insn with
  | true =>
    constructor
    · exact fun _ => .inl rfl
    · exact fun _ _ => after_marked_of_writes hwrites c
  | false =>
    rw [after_marked_iff hwrites, after_changed_iff hwrites]
    constructor
    · intro himp
      by_cases hnew : raised H c insn &&& ~~~c.field .fflags = 0
      · exact .inr (.inr hnew)
      · exact .inr (.inl (himp hnew))
    · rintro (hfalse | hdirty | hnew) hne
      · cases hfalse
      · exact hdirty
      · exact absurd hnew hne

/-! ## A comparison that leaves no mark -/

/-- All words are zero, and FS is Initial: no register holds a boxed single-precision value. -/
def initialCpu : Cpu where
  hart := ⟨fun _ => 0, 0, 0, 0, fun _ => 0⟩
  field field := if field = .ustatus then 0x2000 else 0

theorem unmarked_compare :
    ¬ ∀ (H : HostFloat) (T : HelperTable) (dc : RiscvDisasContext) (insn : FpInsn) (c c' : Cpu),
      ExecutesFp H T dc insn c c' → fsOf c ≠ 0 → FpChanged c c' → MarkedDirty c c' := by
  intro h
  have hfs : fsOf initialCpu ≠ 0 := by decide
  have hrun := executesFp_all idleHost numberedHelpers (.fltS ⟨1, 2, 3⟩) rfl hfs
  have hmark := h idleHost numberedHelpers _ _ _ _ hrun hfs
  rw [after_marked_iff rfl, after_changed_iff rfl] at hmark
  exact absurd (hmark (by decide)) (by decide)

theorem executesFp_marked_iff_flt :
    (FpChanged initialCpu (FpInsn.after idleHost (.fltS ⟨1, 2, 3⟩) initialCpu) →
      MarkedDirty initialCpu (FpInsn.after idleHost (.fltS ⟨1, 2, 3⟩) initialCpu)) ↔
      writesFpr (.fltS ⟨1, 2, 3⟩) = true ∨ fsOf initialCpu = USTATUS_FS_DIRTY ∨
        raised idleHost initialCpu (.fltS ⟨1, 2, 3⟩) &&& ~~~initialCpu.field .fflags = 0 :=
  executesFp_marked_iff (executesFp_all idleHost numberedHelpers (.fltS ⟨1, 2, 3⟩) rfl (by decide))
    (by decide)

end TcgRs.Analysis.FsDirty
