import TcgRs.Analysis.OperandEncoding
import TcgRs.Interface.IrSemantics
import TcgRs.Interface.X86Flags
import TcgRs.Model.Optimize
import TcgRs.Model.X86.Branch

/-!
# Folded and emitted branches

The optimizer decides a conditional branch on constants with `eval_cond`; the backend emits a
comparison and a conditional jump.  Both are compared here with the meaning of the condition
itself, at the width of the op, and so with each other.
-/

set_option autoImplicit false

namespace TcgRs.Analysis.BranchFolding

open Model.Ir Model.Optimize Model.X86 Interface.Ir Interface.X86 OperandEncoding

variable {w : Nat}

/-! ## The emitted branch -/

/-- The flags of the comparison emitted for a condition. -/
def comparison (cond : Cond) (x y : BitVec w) : Flags :=
  if cond.isTst then andFlags x y else subFlags x y

attribute [local simp] comparison Cond.isTst Flags.holds X86Cond.fromTcg X86Cond.toU8 condHolds

/-- The jump emitted for a condition is taken when the condition holds.  `Always` and `Never` are
the exceptions: they are emitted as a comparison for equality. -/
theorem holds_fromTcg (cond : Cond) (x y : BitVec w) :
    (comparison cond x y).holds (X86Cond.fromTcg cond).toU8 =
      match cond with
      | .always => decide (x = y)
      | .never => !decide (x = y)
      | cond => condHolds cond x y := by
  cases cond with
  | eq | ne | always | never => simp [subFlags_zero]
  | lt | ge => simp [subFlags_signed]
  | le | gt => simp [subFlags_sle]
  | ltu | geu => simp [subFlags]
  | leu | gtu => simp [subFlags_ule]
  | tstEq | tstNe => simp [andFlags]

/-- The opcode word of the comparison. -/
def compareOpc (tst rexw : Bool) : BitVec 32 :=
  (if tst then opcTestl else opcArithGvEv + (7 <<< 3)) ||| rexwFlag rexw

theorem compareOpc_form : ∀ tst rexw : Bool, RegForm (compareOpc tst rexw) ∧
    regIsByte (opcMap (compareOpc tst rexw)) (opcByte (compareOpc tst rexw)) = false ∧
    rmIsByte (opcMap (compareOpc tst rexw)) (opcByte (compareOpc tst rexw)) = false := by
  decide

theorem emitOpc_jcc (cc : X86Cond) :
    emitOpc (opcJccLong + cc.toU8.setWidth 32) 0 0 = [0x0F, 0x80 ||| cc.toU8] := by
  cases cc <;> decide

/-- The processor reads the comparison of the two registers, then the jump. -/
theorem decode_outBrCond (ty : IrType) (a b : Reg) (cond : Cond) (disp : List Byte) :
    decode (outBrCond ty a b cond ++ disp) =
      some (givenInsn (compareOpc cond.isTst (decide (ty = .i64))) (.full a.toU8) none
        (.reg (.full b.toU8)), 0x0F :: (0x80 ||| (X86Cond.fromTcg cond).toU8) :: disp) := by
  obtain ⟨hform, hreg, hrm⟩ := compareOpc_form cond.isTst (decide (ty = .i64))
  have hcode : outBrCond ty a b cond = emitModrm (compareOpc cond.isTst (decide (ty = .i64))) a b ++
      [0x0F, 0x80 ||| (X86Cond.fromTcg cond).toU8] := by
    unfold outBrCond compareOpc emitTestRr emitCmpRr
    rw [emitOpc_jcc]
    cases cond.isTst <;> rfl
  have hdec := (decode_emitModrm_iff _ hform a b
    ([0x0F, 0x80 ||| (X86Cond.fromTcg cond).toU8] ++ disp)).mpr (fun h => by rw [MissingRex, hrm] at h; simp at h)
  rw [hcode, List.append_assoc, hdec, hreg, hrm]
  rfl

/-- The outcome of the emitted branch. -/
theorem branchTaken_outBrCond (regs : Byte → BitVec 64) (ty : IrType) (a b : Reg) (cond : Cond)
    (disp : List Byte) :
    branchTaken regs (outBrCond ty a b cond ++ disp) =
      some (if ty = .i64 then
          (comparison cond (regs a.toU8) (regs b.toU8)).holds (X86Cond.fromTcg cond).toU8
        else (comparison cond ((regs a.toU8).setWidth 32) ((regs b.toU8).setWidth 32)).holds
          (X86Cond.fromTcg cond).toU8) := by
  have hcc : ∀ cc : X86Cond,
      (0x80 ||| cc.toU8) &&& 0xF0 = 0x80 ∧ (0x80 ||| cc.toU8) &&& 0x0F = cc.toU8 := by
    intro cc
    cases cc <;> decide
  have hflags : compareFlags regs (givenInsn (compareOpc cond.isTst (decide (ty = .i64)))
      (.full a.toU8) none (.reg (.full b.toU8))) =
      some (if ty = .i64 then comparison cond (regs a.toU8) (regs b.toU8)
        else comparison cond ((regs a.toU8).setWidth 32) ((regs b.toU8).setWidth 32)) := by
    unfold comparison
    by_cases hty : ty = .i64
    · rw [if_pos hty, decide_eq_true hty]
      cases cond.isTst <;> rfl
    · rw [if_neg hty, decide_eq_false hty]
      cases cond.isTst <;> rfl
  unfold branchTaken
  rw [decode_outBrCond]
  show (if (0x80 ||| (X86Cond.fromTcg cond).toU8) &&& 0xF0 = 0x80 then
    (compareFlags regs _).map fun f => f.holds ((0x80 ||| (X86Cond.fromTcg cond).toU8) &&& 0x0F)
    else none) = _
  rw [if_pos (hcc _).1, (hcc _).2, hflags]
  split <;> rfl

/-! ## The folded branch -/

/-- At 64 bits the fold decides as the condition does. -/
theorem evalCond_i64 (a b : BitVec 64) (cond : Cond) :
    evalCond a b cond .i64 = condHolds cond a b := by
  unfold evalCond condHolds
  simp only [typeMask, BitVec.and_allOnes]
  rw [Bool.eq_iff_iff]
  cases cond with
  | eq | ne | always | never | tstEq | tstNe => simp
  | lt | ge | le | gt => simp [BitVec.slt, BitVec.sle]
  | ltu | geu | leu | gtu => simp [BitVec.ult, BitVec.ule, BitVec.lt_def, BitVec.le_def]

theorem and_typeMask_i32 (a : BitVec 64) : a &&& typeMask .i32 = (a.setWidth 32).setWidth 64 := by
  apply BitVec.eq_of_toNat_eq
  have hmask : (typeMask .i32).toNat = 2 ^ 32 - 1 := by decide
  rw [BitVec.toNat_and, hmask, Nat.and_two_pow_sub_one_eq_mod, BitVec.toNat_setWidth,
    BitVec.toNat_setWidth, Nat.mod_eq_of_lt (b := 2 ^ 64) (by omega)]

/-- A zero-extended word is never negative. -/
theorem toInt_setWidth_64 (x : BitVec 32) : (x.setWidth 64).toInt = x.toNat := by
  rw [BitVec.toInt_setWidth, Int.bmod_eq_of_le_mul_two] <;> omega

/-- At 32 bits the fold compares the zero-extended halves, so signed conditions are decided as
unsigned ones. -/
theorem evalCond_i32 (a b : BitVec 64) (cond : Cond) :
    evalCond a b cond .i32 =
      match cond with
      | .lt => (a.setWidth 32).ult (b.setWidth 32)
      | .ge => !(a.setWidth 32).ult (b.setWidth 32)
      | .le => (a.setWidth 32).ule (b.setWidth 32)
      | .gt => !(a.setWidth 32).ule (b.setWidth 32)
      | cond => condHolds cond (a.setWidth 32) (b.setWidth 32) := by
  unfold evalCond
  simp only [and_typeMask_i32]
  generalize a.setWidth 32 = x
  generalize b.setWidth 32 = y
  have heq : ∀ x y : BitVec 32, x.setWidth 64 = y.setWidth 64 ↔ x = y := by
    intro x y
    simp only [BitVec.toNat_eq, BitVec.toNat_setWidth]
    omega
  have hand : x.setWidth 64 &&& y.setWidth 64 = 0 ↔ x &&& y = 0 := by
    rw [← BitVec.setWidth_and, show (0 : BitVec 64) = (0 : BitVec 32).setWidth 64 from rfl, heq]
  have hlt : ∀ x : BitVec 32, (x.setWidth 64).toNat = x.toNat := by
    intro x
    rw [BitVec.toNat_setWidth]
    omega
  rw [Bool.eq_iff_iff]
  cases cond with
  | eq | ne | always | never => simp [heq]
  | tstEq | tstNe =>
    simp only [condHolds, Bool.not_eq_true', decide_eq_false_iff_not, decide_eq_true_eq, hand, ne_eq]
  | lt | ge | le | gt => simp [BitVec.ult, BitVec.ule, toInt_setWidth_64, -BitVec.toInt_setWidth]
  | ltu | geu | leu | gtu =>
    simp [BitVec.ult, BitVec.ule, BitVec.lt_def, BitVec.le_def, hlt, -BitVec.toNat_setWidth]

/-! ## Agreement -/

/-- When the folded and the emitted branch agree: a signed 32-bit comparison has operands of the
same sign, and `Always` and `Never` compare equal operands. -/
def Agree (a b : BitVec 64) (cond : Cond) (ty : IrType) : Prop :=
  (ty = .i32 → cond.isSigned = true → a.getLsbD 31 = b.getLsbD 31) ∧
    (cond = .always ∨ cond = .never →
      if ty = .i32 then a.setWidth 32 = b.setWidth 32 else a = b)

/-- Signed and unsigned order agree exactly on operands of the same sign. -/
theorem slt_eq_ult_iff (x y : BitVec w) : x.slt y = x.ult y ↔ x.msb = y.msb := by
  rw [BitVec.slt_eq_ult]
  cases x.msb <;> cases y.msb <;> cases x.ult y <;> decide

theorem sle_eq_ule_iff (x y : BitVec w) : x.sle y = x.ule y ↔ x.msb = y.msb := by
  rw [BitVec.sle_eq_ule]
  cases x.msb <;> cases y.msb <;> cases x.ule y <;> decide

theorem agree_i64 (a b : BitVec 64) (cond : Cond) :
    (comparison cond a b).holds (X86Cond.fromTcg cond).toU8 = evalCond a b cond .i64 ↔
      Agree a b cond .i64 := by
  rw [holds_fromTcg, evalCond_i64]
  cases cond <;> simp [Agree]

theorem agree_i32 (a b : BitVec 64) (cond : Cond) :
    (comparison cond (a.setWidth 32) (b.setWidth 32)).holds (X86Cond.fromTcg cond).toU8 =
      evalCond a b cond .i32 ↔ Agree a b cond .i32 := by
  have hmsb : ∀ z : BitVec 64, (z.setWidth 32).msb = z.getLsbD 31 := by
    intro z
    simp [BitVec.msb_eq_getLsbD_last]
  rw [holds_fromTcg, evalCond_i32]
  unfold Agree
  rw [← hmsb a, ← hmsb b]
  cases cond with
  | lt | ge => simp [slt_eq_ult_iff, Cond.isSigned]
  | le | gt => simp [sle_eq_ule_iff, Cond.isSigned]
  | _ => simp [Cond.isSigned]

/-- A branch folded on constants goes where the emitted branch goes, for all registers and
contents, exactly when the operands agree. -/
theorem folded_branch_eq_emitted_iff (regs : Byte → BitVec 64) (ty : IrType)
    (hty : ty = .i32 ∨ ty = .i64) (a b : Reg) (cond : Cond) (disp : List Byte) :
    branchTaken regs (outBrCond ty a b cond ++ disp) =
        some (evalCond (regs a.toU8) (regs b.toU8) cond ty) ↔
      Agree (regs a.toU8) (regs b.toU8) cond ty := by
  rw [branchTaken_outBrCond, Option.some_inj]
  cases hty with
  | inl h =>
    subst h
    exact agree_i32 _ _ cond
  | inr h =>
    subst h
    exact agree_i64 _ _ cond

/-- Two registers that hold the most negative 32-bit number and zero. -/
def signBitRegs : Byte → BitVec 64 := fun r => if r = 0 then 0x80000000 else 0

theorem folded_branch_eq_emitted_ltu :
    branchTaken signBitRegs (outBrCond .i32 .rax .rbx .ltu ++ [0, 0, 0, 0]) =
      some (evalCond 0x80000000 0 .ltu .i32) :=
  (folded_branch_eq_emitted_iff signBitRegs .i32 (.inl rfl) .rax .rbx .ltu [0, 0, 0, 0]).mpr
    (by simp [Agree, Cond.isSigned])

/-- The most negative number is less than zero for the processor and not for the fold; a branch
on `Always` falls through when its operands differ. -/
theorem folded_branch_ne_emitted :
    branchTaken signBitRegs (outBrCond .i32 .rax .rbx .lt ++ [0, 0, 0, 0]) = some true ∧
    evalCond (signBitRegs Reg.rax.toU8) (signBitRegs Reg.rbx.toU8) .lt .i32 = false ∧
    branchTaken signBitRegs (outBrCond .i64 .rax .rbx .always ++ [0, 0, 0, 0]) = some false ∧
    evalCond (signBitRegs Reg.rax.toU8) (signBitRegs Reg.rbx.toU8) .always .i64 = true := by
  decide

end TcgRs.Analysis.BranchFolding
