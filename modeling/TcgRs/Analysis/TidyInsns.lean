import TcgRs.Analysis.FpCode
import TcgRs.Analysis.TidyCode
import TcgRs.Interface.RiscvIntExec

/-!
# Tidy translations

The code of the translation functions of `frontend/src/riscv/trans.rs` is tidy: that of the
instructions that stay in the block, also where a function gives up halfway, and the parts of the
others between labels and exits.
-/

set_option autoImplicit false
set_option linter.constructorNameAsVariable false

namespace TcgRs.Analysis.TidyInsns

open TcgRs.Model TcgRs.Model.Ir TcgRs.Model.Riscv TcgRs.Interface.Ir TcgRs.Interface.RiscvExec
open TcgRs.Interface.RiscvIsa
open GeneratedCode GuestCode TidyCode FpCode

variable {self : RiscvDisasContext} {C : Context} {lo : Nat} {A : List Nat}

/-! ## Results -/

/-- A value that later code may read. -/
def Gives (self : RiscvDisasContext) (C : Context) (A : List Nat) (t : Nat) (A' : List Nat) : Prop :=
  A ⊆ A' ∧ Readable self C A' t

/-- The last op of a translation. -/
theorem tidies_result {rd : Fin 32} {t : Nat} (ht : Readable self C A t) :
    Tidies self C lo A (do self.genSetGpr rd t; return true) fun _ _ => True :=
  tidies_bind (tidies_genSetGpr ht fun _ _ => tidies_pure trivial)

theorem tidies_resultSx32 {rd : Fin 32} {t : Nat} (ht : Readable self C A t) :
    Tidies self C lo A (do self.genSetGprSx32 rd t; return true) fun _ _ => True :=
  tidies_bind (tidies_genSetGprSx32 ht fun _ _ => tidies_pure trivial)

theorem isTidy_requireExt {ext : MisaExt} {body : Gen Bool} (h : IsTidy self body) :
    IsTidy self (self.requireExt ext body) := by
  unfold RiscvDisasContext.requireExt
  split
  · exact h
  · exact isTidy_pure false

/-! ## Arithmetic -/

section
variable {opc : Opcode} {f : ∀ n : Nat, BitVec n → BitVec n → BitVec n}

theorem isTidy_genArith (hop : binaryOp opc = some f) (a : ArgsR) :
    IsTidy self (self.genArith a (emitBinary opc)) := by
  intro C lo A
  refine tidies_bind (tidies_gprOrZero fun s1 hs1 => ?_)
  refine tidies_bind (tidies_gprOrZero fun s2 hs2 => ?_)
  refine tidies_bind (tidies_newTemp fun d hd => ?_)
  refine tidies_bind (tidies_binary hop (.inl hd) (.inl hs1) (.inl hs2) ?_)
  exact tidies_result (.inr List.mem_cons_self)

theorem isTidy_genArithImm (hop : binaryOp opc = some f) (a : ArgsI) :
    IsTidy self (self.genArithImm a (emitBinary opc)) := by
  intro C lo A
  refine tidies_bind (tidies_gprOrZero fun s1 hs1 => ?_)
  refine tidies_bind (tidies_newConst fun imm himm _ => ?_)
  refine tidies_bind (tidies_newTemp fun d hd => ?_)
  refine tidies_bind (tidies_binary hop (.inl hd) (.inl hs1) (.inl himm) ?_)
  exact tidies_result (.inr List.mem_cons_self)

theorem isTidy_genShiftImm (hop : binaryOp opc = some f) (a : ArgsShift) :
    IsTidy self (self.genShiftImm a (emitBinary opc)) :=
  isTidy_genArithImm hop ⟨a.shamt, a.rs1, a.rd⟩

theorem isTidy_genSetcondRr (a : ArgsR) (cond : Cond) :
    IsTidy self (self.genSetcondRr a cond) := by
  intro C lo A
  refine tidies_bind (tidies_gprOrZero fun s1 hs1 => ?_)
  refine tidies_bind (tidies_gprOrZero fun s2 hs2 => ?_)
  refine tidies_bind (tidies_newTemp fun d hd => ?_)
  refine tidies_bind (tidies_setCond (.inl hd) (.inl hs1) (.inl hs2) ?_)
  exact tidies_result (.inr List.mem_cons_self)

theorem isTidy_genSetcondImm (a : ArgsI) (cond : Cond) :
    IsTidy self (self.genSetcondImm a cond) := by
  intro C lo A
  refine tidies_bind (tidies_gprOrZero fun s1 hs1 => ?_)
  refine tidies_bind (tidies_newConst fun imm himm _ => ?_)
  refine tidies_bind (tidies_newTemp fun d hd => ?_)
  refine tidies_bind (tidies_setCond (.inl hd) (.inl hs1) (.inl himm) ?_)
  exact tidies_result (.inr List.mem_cons_self)

theorem isTidy_genArithW (hop : binaryOp opc = some f) (a : ArgsR) :
    IsTidy self (self.genArithW a (emitBinary opc)) := by
  intro C lo A
  refine tidies_bind (tidies_gprOrZero fun s1 hs1 => ?_)
  refine tidies_bind (tidies_gprOrZero fun s2 hs2 => ?_)
  refine tidies_bind (tidies_newTemp fun d hd => ?_)
  refine tidies_bind (tidies_binary hop (.inl hd) (.inl hs1) (.inl hs2) ?_)
  exact tidies_resultSx32 (.inr List.mem_cons_self)

theorem isTidy_genArithImmW (hop : binaryOp opc = some f) (a : ArgsI) :
    IsTidy self (self.genArithImmW a (emitBinary opc)) := by
  intro C lo A
  refine tidies_bind (tidies_gprOrZero fun s1 hs1 => ?_)
  refine tidies_bind (tidies_newConst fun imm himm _ => ?_)
  refine tidies_bind (tidies_newTemp fun d hd => ?_)
  refine tidies_bind (tidies_binary hop (.inl hd) (.inl hs1) (.inl himm) ?_)
  exact tidies_resultSx32 (.inr List.mem_cons_self)

theorem isTidy_genShiftw (hop : binaryOp opc = some f) (a : ArgsR) :
    IsTidy self (self.genShiftw a (emitBinary opc)) := by
  intro C lo A
  refine tidies_bind (tidies_gprOrZero fun s1 hs1 => ?_)
  refine tidies_bind (tidies_gprOrZero fun s2 hs2 => ?_)
  refine tidies_bind (tidies_newTemp fun a32 ha32 => ?_)
  refine tidies_bind (tidies_convert rfl (.inl ha32) (.inl hs1) ?_)
  refine tidies_bind (tidies_newTemp fun b32 hb32 => ?_)
  refine tidies_bind (tidies_convert rfl (.inl hb32) (.inl hs2) ?_)
  refine tidies_bind (tidies_newTemp fun d32 hd32 => ?_)
  refine tidies_bind (tidies_binary hop (.inl hd32) (.inr (by simp)) (.inr (by simp)) ?_)
  exact tidies_resultSx32 (.inr List.mem_cons_self)

theorem isTidy_genShiftImmW (hop : binaryOp opc = some f) (a : ArgsShift) :
    IsTidy self (self.genShiftImmW a (emitBinary opc)) := by
  intro C lo A
  refine tidies_bind (tidies_gprOrZero fun s1 hs1 => ?_)
  refine tidies_bind (tidies_newTemp fun s32 hs32 => ?_)
  refine tidies_bind (tidies_convert rfl (.inl hs32) (.inl hs1) ?_)
  refine tidies_bind (tidies_newConst fun sh hsh _ => ?_)
  refine tidies_bind (tidies_newTemp fun d32 hd32 => ?_)
  refine tidies_bind (tidies_binary hop (.inl hd32) (.inr (by simp)) (.inl hsh) ?_)
  exact tidies_resultSx32 (.inr List.mem_cons_self)

end

/-! ## Loads and stores -/

theorem tidies_genAddr (rs1 : Fin 32) (imm : BitVec 64) :
    Tidies self C lo A (self.genAddr rs1 imm) (Gives self C A) := by
  unfold RiscvDisasContext.genAddr
  refine tidies_bind (tidies_gprOrZero fun base hbase => ?_)
  split
  · refine tidies_bind (tidies_newConst fun c hc _ => ?_)
    refine tidies_bind (tidies_newTemp fun t ht => ?_)
    refine tidies_binary rfl (.inl ht) (.inl hbase) (.inl hc) ?_
    exact ⟨List.subset_cons_self _ _, .inr List.mem_cons_self⟩
  · exact tidies_pure ⟨List.Subset.refl _, .inl hbase⟩

theorem isTidy_genLoad (a : ArgsI) (memop : MemOp) :
    IsTidy self (self.genLoad a memop) := by
  intro C lo A
  refine tidies_bind ((tidies_genAddr a.rs1 a.imm).mono fun addr A₁ _ haddr => ?_)
  refine tidies_bind (tidies_newTemp fun dst hdst => ?_)
  refine tidies_bind (tidies_qemuLd (.inl hdst) haddr.2 ?_)
  exact tidies_result (.inr List.mem_cons_self)

theorem isTidy_genStore (a : ArgsS) (memop : MemOp) :
    IsTidy self (self.genStore a memop) := by
  intro C lo A
  refine tidies_bind ((tidies_genAddr a.rs1 a.imm).mono fun addr A₁ _ haddr => ?_)
  refine tidies_bind (tidies_gprOrZero fun value hvalue => ?_)
  exact tidies_bind (tidies_qemuSt (.inl hvalue) haddr.2 (tidies_pure trivial))

/-! ## Division -/

theorem isTidy_genDivRem (a : ArgsR) (wantRem : Bool) :
    IsTidy self (self.genDivRem a wantRem) := by
  intro C lo A
  unfold RiscvDisasContext.genDivRem
  refine tidies_bind (tidies_gprOrZero fun s1 hs1 => ?_)
  refine tidies_bind (tidies_gprOrZero fun s2 hs2 => ?_)
  refine tidies_bind (tidies_newConst fun zero hzero _ => ?_)
  refine tidies_bind (tidies_newConst fun one hone _ => ?_)
  refine tidies_bind (tidies_newConst fun neg1 hneg1 _ => ?_)
  refine tidies_bind (tidies_newTemp fun safe hsafe => ?_)
  refine tidies_bind (tidies_movCond (.inl hsafe) (.inl hs2) (.inl hzero) (.inl hone) (.inl hs2) ?_)
  refine tidies_bind (tidies_movCond (.inl hsafe) (.inr (by simp)) (.inl hneg1) (.inl hone)
    (.inr (by simp)) ?_)
  refine tidies_bind (tidies_newTemp fun ah hah => ?_)
  refine tidies_bind (tidies_newConst fun c63 hc63 _ => ?_)
  refine tidies_bind (tidies_binary rfl (.inl hah) (.inl hs1) (.inl hc63) ?_)
  refine tidies_newTemp₂ fun quot rem hquot hrem hne => ?_
  refine tidies_bind (tidies_div (.inl rfl) (.inl hquot) (.inl hrem) hne (.inl hs1)
    (.inr (by simp)) (.inr (by simp)) ?_)
  cases wantRem with
  | true =>
    refine tidies_bind (tidies_newTemp fun r hr => ?_)
    refine tidies_bind (tidies_movCond (.inl hr) (.inl hs2) (.inl hzero) (.inl hs1)
      (.inr (by simp)) ?_)
    refine tidies_bind (tidies_movCond (.inl hr) (.inl hs2) (.inl hneg1) (.inl hzero)
      (.inr (by simp)) ?_)
    exact tidies_result (.inr List.mem_cons_self)
  | false =>
    refine tidies_bind (tidies_newTemp fun negS1 hnegS1 => ?_)
    refine tidies_bind (tidies_unary rfl (.inl hnegS1) (.inl hs1) ?_)
    refine tidies_bind (tidies_newTemp fun r hr => ?_)
    refine tidies_bind (tidies_movCond (.inl hr) (.inl hs2) (.inl hzero) (.inl hneg1)
      (.inr (by simp)) ?_)
    refine tidies_bind (tidies_movCond (.inl hr) (.inl hs2) (.inl hneg1) (.inr (by simp))
      (.inr (by simp)) ?_)
    exact tidies_result (.inr List.mem_cons_self)

theorem isTidy_genDivuRemu (a : ArgsR) (wantRem : Bool) :
    IsTidy self (self.genDivuRemu a wantRem) := by
  intro C lo A
  unfold RiscvDisasContext.genDivuRemu
  refine tidies_bind (tidies_gprOrZero fun s1 hs1 => ?_)
  refine tidies_bind (tidies_gprOrZero fun s2 hs2 => ?_)
  refine tidies_bind (tidies_newConst fun zero hzero _ => ?_)
  refine tidies_bind (tidies_newConst fun one hone _ => ?_)
  refine tidies_bind (tidies_newTemp fun safe hsafe => ?_)
  refine tidies_bind (tidies_movCond (.inl hsafe) (.inl hs2) (.inl hzero) (.inl hone) (.inl hs2) ?_)
  refine tidies_newTemp₂ fun quot rem hquot hrem hne => ?_
  refine tidies_bind (tidies_div (.inr rfl) (.inl hquot) (.inl hrem) hne (.inl hs1) (.inl hzero)
    (.inr (by simp)) ?_)
  cases wantRem with
  | true =>
    refine tidies_bind (tidies_newTemp fun r hr => ?_)
    refine tidies_bind (tidies_movCond (.inl hr) (.inl hs2) (.inl hzero) (.inl hs1)
      (.inr (by simp)) ?_)
    exact tidies_result (.inr List.mem_cons_self)
  | false =>
    refine tidies_bind (tidies_newConst fun neg1 hneg1 _ => ?_)
    refine tidies_bind (tidies_newTemp fun r hr => ?_)
    refine tidies_bind (tidies_movCond (.inl hr) (.inl hs2) (.inl hzero) (.inl hneg1)
      (.inr (by simp)) ?_)
    exact tidies_result (.inr List.mem_cons_self)

theorem isTidy_genDivRemW (a : ArgsR) (wantRem : Bool) :
    IsTidy self (self.genDivRemW a wantRem) := by
  intro C lo A
  unfold RiscvDisasContext.genDivRemW
  refine tidies_bind (tidies_gprOrZero fun s1 hs1 => ?_)
  refine tidies_bind (tidies_gprOrZero fun s2 hs2 => ?_)
  refine tidies_bind (tidies_newTemp fun a32 ha32 => ?_)
  refine tidies_bind (tidies_convert rfl (.inl ha32) (.inl hs1) ?_)
  refine tidies_bind (tidies_newTemp fun b32 hb32 => ?_)
  refine tidies_bind (tidies_convert rfl (.inl hb32) (.inl hs2) ?_)
  refine tidies_bind (tidies_newConst fun zero hzero _ => ?_)
  refine tidies_bind (tidies_newConst fun one hone _ => ?_)
  refine tidies_bind (tidies_newConst fun neg1 hneg1 _ => ?_)
  refine tidies_bind (tidies_newTemp fun safe hsafe => ?_)
  refine tidies_bind (tidies_movCond (.inl hsafe) (.inr (by simp)) (.inl hzero) (.inl hone)
    (.inr (by simp)) ?_)
  refine tidies_bind (tidies_movCond (.inl hsafe) (.inr (by simp)) (.inl hneg1) (.inl hone)
    (.inr (by simp)) ?_)
  refine tidies_bind (tidies_newTemp fun ah hah => ?_)
  refine tidies_bind (tidies_newConst fun c31 hc31 _ => ?_)
  refine tidies_bind (tidies_binary rfl (.inl hah) (.inr (by simp)) (.inl hc31) ?_)
  refine tidies_newTemp₂ fun quot rem hquot hrem hne => ?_
  refine tidies_bind (tidies_div (.inl rfl) (.inl hquot) (.inl hrem) hne (.inr (by simp))
    (.inr (by simp)) (.inr (by simp)) ?_)
  cases wantRem with
  | true =>
    refine tidies_bind (tidies_newTemp fun r hr => ?_)
    refine tidies_bind (tidies_movCond (.inl hr) (.inr (by simp)) (.inl hzero) (.inr (by simp))
      (.inr (by simp)) ?_)
    refine tidies_bind (tidies_movCond (.inl hr) (.inr (by simp)) (.inl hneg1) (.inl hzero)
      (.inr (by simp)) ?_)
    exact tidies_resultSx32 (.inr List.mem_cons_self)
  | false =>
    refine tidies_bind (tidies_newTemp fun negA hnegA => ?_)
    refine tidies_bind (tidies_unary rfl (.inl hnegA) (.inr (by simp)) ?_)
    refine tidies_bind (tidies_newTemp fun r hr => ?_)
    refine tidies_bind (tidies_movCond (.inl hr) (.inr (by simp)) (.inl hzero) (.inl hneg1)
      (.inr (by simp)) ?_)
    refine tidies_bind (tidies_movCond (.inl hr) (.inr (by simp)) (.inl hneg1) (.inr (by simp))
      (.inr (by simp)) ?_)
    exact tidies_resultSx32 (.inr List.mem_cons_self)

theorem isTidy_genDivuRemuW (a : ArgsR) (wantRem : Bool) :
    IsTidy self (self.genDivuRemuW a wantRem) := by
  intro C lo A
  unfold RiscvDisasContext.genDivuRemuW
  refine tidies_bind (tidies_gprOrZero fun s1 hs1 => ?_)
  refine tidies_bind (tidies_gprOrZero fun s2 hs2 => ?_)
  refine tidies_bind (tidies_newTemp fun a32 ha32 => ?_)
  refine tidies_bind (tidies_convert rfl (.inl ha32) (.inl hs1) ?_)
  refine tidies_bind (tidies_newTemp fun b32 hb32 => ?_)
  refine tidies_bind (tidies_convert rfl (.inl hb32) (.inl hs2) ?_)
  refine tidies_bind (tidies_newConst fun zero hzero _ => ?_)
  refine tidies_bind (tidies_newConst fun one hone _ => ?_)
  refine tidies_bind (tidies_newTemp fun safe hsafe => ?_)
  refine tidies_bind (tidies_movCond (.inl hsafe) (.inr (by simp)) (.inl hzero) (.inl hone)
    (.inr (by simp)) ?_)
  refine tidies_newTemp₂ fun quot rem hquot hrem hne => ?_
  refine tidies_bind (tidies_div (.inr rfl) (.inl hquot) (.inl hrem) hne (.inr (by simp))
    (.inl hzero) (.inr (by simp)) ?_)
  cases wantRem with
  | true =>
    refine tidies_bind (tidies_newTemp fun r hr => ?_)
    refine tidies_bind (tidies_movCond (.inl hr) (.inr (by simp)) (.inl hzero) (.inr (by simp))
      (.inr (by simp)) ?_)
    exact tidies_resultSx32 (.inr List.mem_cons_self)
  | false =>
    refine tidies_bind (tidies_newConst fun max hmax _ => ?_)
    refine tidies_bind (tidies_newTemp fun r hr => ?_)
    refine tidies_bind (tidies_movCond (.inl hr) (.inr (by simp)) (.inl hzero) (.inl hmax)
      (.inr (by simp)) ?_)
    exact tidies_resultSx32 (.inr List.mem_cons_self)

/-! ## Wide multiplication -/

theorem isTidy_transMulh (a : ArgsR) :
    IsTidy self (self.transMulh a) := by
  refine isTidy_requireExt fun C lo A => ?_
  refine tidies_bind (tidies_gprOrZero fun s1 hs1 => ?_)
  refine tidies_bind (tidies_gprOrZero fun s2 hs2 => ?_)
  refine tidies_newTemp₂ fun low high hlow hhigh hne => ?_
  refine tidies_bind (tidies_mul (.inl rfl) (.inl hlow) (.inl hhigh) hne (.inl hs1) (.inl hs2) ?_)
  exact tidies_result (.inr (by simp))

theorem isTidy_transMulhu (a : ArgsR) :
    IsTidy self (self.transMulhu a) := by
  refine isTidy_requireExt fun C lo A => ?_
  refine tidies_bind (tidies_gprOrZero fun s1 hs1 => ?_)
  refine tidies_bind (tidies_gprOrZero fun s2 hs2 => ?_)
  refine tidies_newTemp₂ fun low high hlow hhigh hne => ?_
  refine tidies_bind (tidies_mul (.inr rfl) (.inl hlow) (.inl hhigh) hne (.inl hs1) (.inl hs2) ?_)
  exact tidies_result (.inr (by simp))

theorem isTidy_transMulhsu (a : ArgsR) :
    IsTidy self (self.transMulhsu a) := by
  refine isTidy_requireExt fun C lo A => ?_
  refine tidies_bind (tidies_gprOrZero fun s1 hs1 => ?_)
  refine tidies_bind (tidies_gprOrZero fun s2 hs2 => ?_)
  refine tidies_newTemp₂ fun low high hlow hhigh hne => ?_
  refine tidies_bind (tidies_mul (.inr rfl) (.inl hlow) (.inl hhigh) hne (.inl hs1) (.inl hs2) ?_)
  refine tidies_bind (tidies_newConst fun c63 hc63 _ => ?_)
  refine tidies_bind (tidies_newTemp fun sign hsign => ?_)
  refine tidies_bind (tidies_binary rfl (.inl hsign) (.inl hs1) (.inl hc63) ?_)
  refine tidies_bind (tidies_newTemp fun adj hadj => ?_)
  refine tidies_bind (tidies_binary rfl (.inl hadj) (.inr (by simp)) (.inl hs2) ?_)
  refine tidies_bind (tidies_binary rfl (.inl hhigh) (.inr (by simp)) (.inr (by simp)) ?_)
  exact tidies_result (.inr List.mem_cons_self)

/-! ## Atomics -/

theorem tidies_genRelease {a : ArgsAtomic} {Q : Unit → List Nat → Prop} (h : Q () A) :
    Tidies self C lo A (RiscvDisasContext.genRelease a) Q := by
  unfold RiscvDisasContext.genRelease
  split
  · exact tidies_mb h
  · exact tidies_pure h

theorem tidies_genAcquire {a : ArgsAtomic} {Q : Unit → List Nat → Prop} (h : Q () A) :
    Tidies self C lo A (RiscvDisasContext.genAcquire a) Q := by
  unfold RiscvDisasContext.genAcquire
  split
  · exact tidies_mb h
  · exact tidies_pure h

theorem isTidy_genLr (a : ArgsAtomic) (memop : MemOp) :
    IsTidy self (self.genLr a memop) := by
  intro C lo A
  refine tidies_bind (tidies_gprOrZero fun addr haddr => ?_)
  refine tidies_bind (tidies_genRelease ?_)
  refine tidies_bind (tidies_newTemp fun val hval => ?_)
  refine tidies_bind (tidies_qemuLd (.inl hval) (.inl haddr) ?_)
  refine tidies_bind (tidies_genAcquire ?_)
  refine tidies_bind (tidies_unary rfl (.inr (.inr (.inl rfl))) (.inl haddr) ?_)
  refine tidies_bind (tidies_unary rfl (.inr (.inr (.inr rfl))) (.inr (by simp)) ?_)
  exact tidies_result (.inr (by simp))

theorem isTidy_genSc (a : ArgsAtomic) (memop : MemOp) :
    IsTidy self (self.genSc a memop) := by
  intro C lo A
  refine tidies_bind (tidies_gprOrZero fun addr haddr => ?_)
  refine tidies_bind (tidies_gprOrZero fun src2 hsrc2 => ?_)
  refine tidies_bind (tidies_qemuSt (.inl hsrc2) (.inl haddr) ?_)
  refine tidies_bind (tidies_newConst fun zero hzero _ => ?_)
  refine tidies_bind (tidies_genSetGpr (.inl hzero) fun A₁ _ => ?_)
  refine tidies_bind (tidies_newConst fun neg1 hneg1 _ => ?_)
  exact tidies_bind (tidies_unary rfl (.inr (.inr (.inl rfl))) (.inl hneg1) (tidies_pure trivial))

theorem isTidy_genAmo {opc : Opcode}
    {f : ∀ n : Nat, BitVec n → BitVec n → BitVec n} (hop : binaryOp opc = some f) (a : ArgsAtomic)
    (memop : MemOp) : IsTidy self (self.genAmo a (emitBinary opc) memop) := by
  intro C lo A
  refine tidies_bind (tidies_gprOrZero fun addr haddr => ?_)
  refine tidies_bind (tidies_genRelease ?_)
  refine tidies_bind (tidies_newTemp fun old hold => ?_)
  refine tidies_bind (tidies_qemuLd (.inl hold) (.inl haddr) ?_)
  refine tidies_bind (tidies_gprOrZero fun src2 hsrc2 => ?_)
  refine tidies_bind (tidies_newTemp fun new hnew => ?_)
  refine tidies_bind (tidies_binary hop (.inl hnew) (.inr (by simp)) (.inl hsrc2) ?_)
  refine tidies_bind (tidies_qemuSt (.inr List.mem_cons_self) (.inl haddr) ?_)
  refine tidies_bind (tidies_genAcquire ?_)
  exact tidies_result (.inr (by simp))

theorem isTidy_genAmoSwap (a : ArgsAtomic) (memop : MemOp) :
    IsTidy self (self.genAmoSwap a memop) := by
  intro C lo A
  refine tidies_bind (tidies_gprOrZero fun addr haddr => ?_)
  refine tidies_bind (tidies_genRelease ?_)
  refine tidies_bind (tidies_newTemp fun old hold => ?_)
  refine tidies_bind (tidies_qemuLd (.inl hold) (.inl haddr) ?_)
  refine tidies_bind (tidies_gprOrZero fun src2 hsrc2 => ?_)
  refine tidies_bind (tidies_qemuSt (.inl hsrc2) (.inl haddr) ?_)
  refine tidies_bind (tidies_genAcquire ?_)
  exact tidies_result (.inr List.mem_cons_self)

theorem isTidy_genAmoMinmax (a : ArgsAtomic) (cond : Cond)
    (memop : MemOp) : IsTidy self (self.genAmoMinmax a cond memop) := by
  intro C lo A
  refine tidies_bind (tidies_gprOrZero fun addr haddr => ?_)
  refine tidies_bind (tidies_genRelease ?_)
  refine tidies_bind (tidies_newTemp fun old hold => ?_)
  refine tidies_bind (tidies_qemuLd (.inl hold) (.inl haddr) ?_)
  refine tidies_bind (tidies_gprOrZero fun src2 hsrc2 => ?_)
  refine tidies_bind (tidies_newTemp fun new hnew => ?_)
  refine tidies_bind (tidies_movCond (.inl hnew) (.inr (by simp)) (.inl hsrc2) (.inr (by simp))
    (.inl hsrc2) ?_)
  refine tidies_bind (tidies_qemuSt (.inr List.mem_cons_self) (.inl haddr) ?_)
  refine tidies_bind (tidies_genAcquire ?_)
  exact tidies_result (.inr (by simp))

/-! ## Control and status registers -/

theorem tidies_genSetFsDirty {Q : Unit → List Nat → Prop}
    (h : ∀ A', A ⊆ A' → Q () A') : Tidies self C lo A self.genSetFsDirty Q := by
  unfold RiscvDisasContext.genSetFsDirty
  refine tidies_bind (tidies_newTemp fun status hstatus => ?_)
  refine tidies_bind (tidies_ldField .ustatus (.inl hstatus) ?_)
  refine tidies_bind (tidies_newConst fun clear hclear _ => ?_)
  refine tidies_bind (tidies_newTemp fun cleared hcleared => ?_)
  refine tidies_bind (tidies_binary rfl (.inl hcleared) (.inr (by simp)) (.inl hclear) ?_)
  refine tidies_bind (tidies_newConst fun dirty hdirty _ => ?_)
  refine tidies_bind (tidies_newTemp fun new hnew => ?_)
  refine tidies_bind (tidies_binary rfl (.inl hnew) (.inr (by simp)) (.inl hdirty) ?_)
  refine tidies_stField .ustatus (.inr List.mem_cons_self) (h _ ?_)
  intro t ht
  simp [ht]

/-- A CSR that is a whole word is a field. -/
theorem field_of_csrWordOffset {csr offset : Int} (h : csrWordOffset csr = some offset) :
    ∃ field : CpuField, offset = field.offset := by
  unfold csrWordOffset at h
  split_ifs at h <;> cases h
  · exact ⟨.ustatus, rfl⟩
  · exact ⟨.uie, rfl⟩
  · exact ⟨.utvec, rfl⟩
  · exact ⟨.uscratch, rfl⟩
  · exact ⟨.uepc, rfl⟩
  · exact ⟨.ucause, rfl⟩
  · exact ⟨.utval, rfl⟩
  · exact ⟨.uip, rfl⟩

theorem tidies_genReadMasked (field : CpuField) (bits : BitVec 64) :
    Tidies self C lo A (self.genReadMasked field.offset bits) (Gives self C A) := by
  unfold RiscvDisasContext.genReadMasked
  refine tidies_bind (tidies_newTemp fun v hv => ?_)
  refine tidies_bind (tidies_ldField field (.inl hv) ?_)
  refine tidies_bind (tidies_newConst fun mask hmask _ => ?_)
  refine tidies_bind (tidies_newTemp fun out hout => ?_)
  refine tidies_bind (tidies_binary rfl (.inl hout) (.inr (by simp)) (.inl hmask) ?_)
  exact tidies_pure ⟨fun t ht => by simp [ht], .inr List.mem_cons_self⟩

theorem tidies_genReadFcsr :
    Tidies self C lo A self.genReadFcsr (Gives self C A) := by
  unfold RiscvDisasContext.genReadFcsr
  refine tidies_bind (tidies_newTemp fun fflags hfflags => ?_)
  refine tidies_bind (tidies_ldField .fflags (.inl hfflags) ?_)
  refine tidies_bind (tidies_newConst fun fmask hfmask _ => ?_)
  refine tidies_bind (tidies_binary rfl (.inl hfflags) (.inr (by simp)) (.inl hfmask) ?_)
  refine tidies_bind (tidies_newTemp fun frm hfrm => ?_)
  refine tidies_bind (tidies_ldField .frm (.inl hfrm) ?_)
  refine tidies_bind (tidies_newConst fun rmask hrmask _ => ?_)
  refine tidies_bind (tidies_binary rfl (.inl hfrm) (.inr (by simp)) (.inl hrmask) ?_)
  refine tidies_bind (tidies_newConst fun shift hshift _ => ?_)
  refine tidies_bind (tidies_newTemp fun frmShift hfrmShift => ?_)
  refine tidies_bind (tidies_binary rfl (.inl hfrmShift) (.inr (by simp)) (.inl hshift) ?_)
  refine tidies_bind (tidies_newTemp fun out hout => ?_)
  refine tidies_bind (tidies_binary rfl (.inl hout) (.inr (by simp)) (.inr (by simp)) ?_)
  exact tidies_pure ⟨fun t ht => by simp [ht], .inr List.mem_cons_self⟩

/-- What a read of a CSR gives, if the CSR is known. -/
def GivesSome (self : RiscvDisasContext) (C : Context) (A : List Nat) (t : Option Nat) (A' : List Nat) : Prop :=
  A ⊆ A' ∧ ∀ old, t = some old → Readable self C A' old

theorem Gives.some {A' : List Nat} {t : Nat} (h : Gives self C A t A') : GivesSome self C A (some t) A' :=
  ⟨h.1, fun _ heq => Option.some.inj heq ▸ h.2⟩

theorem tidies_genCsrRead (csr : Int) :
    Tidies self C lo A (self.genCsrRead csr) (GivesSome self C A) := by
  unfold RiscvDisasContext.genCsrRead
  split
  · exact tidies_bind ((tidies_genReadMasked .fflags _).mono fun t A' _ ht =>
      tidies_pure (Gives.some ht))
  split
  · exact tidies_bind ((tidies_genReadMasked .frm _).mono fun t A' _ ht =>
      tidies_pure (Gives.some ht))
  split
  · exact tidies_bind ((tidies_genReadFcsr).mono fun t A' _ ht =>
      tidies_pure (Gives.some ht))
  split
  · rename_i offset hoffset
    obtain ⟨field, rfl⟩ := field_of_csrWordOffset hoffset
    refine tidies_bind (tidies_newTemp fun v hv => ?_)
    refine tidies_bind (tidies_ldField field (.inl hv) ?_)
    exact tidies_pure (Gives.some ⟨List.subset_cons_self _ _, .inr List.mem_cons_self⟩)
  · split
    · refine tidies_bind (tidies_newConst fun c hc _ => ?_)
      exact tidies_pure (Gives.some ⟨List.Subset.refl _, .inl hc⟩)
    · exact tidies_pure ⟨List.Subset.refl _, fun _ h => (by cases h)⟩

theorem tidies_genWriteMasked (field : CpuField) (bits : BitVec 64)
    {t : Nat} (ht : Readable self C A t) {Q : Unit → List Nat → Prop} (h : ∀ A', A ⊆ A' → Q () A') :
    Tidies self C lo A (self.genWriteMasked field.offset bits t) Q := by
  unfold RiscvDisasContext.genWriteMasked
  refine tidies_bind (tidies_newConst fun mask hmask _ => ?_)
  refine tidies_bind (tidies_newTemp fun v hv => ?_)
  refine tidies_bind (tidies_binary rfl (.inl hv) ht (.inl hmask) ?_)
  refine tidies_bind (tidies_stField field (.inr List.mem_cons_self) ?_)
  exact tidies_genSetFsDirty fun A' hA => h A' fun t ht => hA (List.mem_cons_of_mem _ ht)

theorem tidies_genWriteFcsr {t : Nat} (ht : Readable self C A t)
    {Q : Unit → List Nat → Prop} (h : ∀ A', A ⊆ A' → Q () A') :
    Tidies self C lo A (self.genWriteFcsr t) Q := by
  unfold RiscvDisasContext.genWriteFcsr
  refine tidies_bind (tidies_newConst fun fmask hfmask _ => ?_)
  refine tidies_bind (tidies_newTemp fun fflags hfflags => ?_)
  refine tidies_bind (tidies_binary rfl (.inl hfflags) ht (.inl hfmask) ?_)
  refine tidies_bind (tidies_stField .fflags (.inr List.mem_cons_self) ?_)
  refine tidies_bind (tidies_newConst fun shift hshift _ => ?_)
  refine tidies_bind (tidies_newTemp fun frm hfrm => ?_)
  refine tidies_bind (tidies_binary rfl (.inl hfrm) (ht.mono (List.subset_cons_self _ _))
    (.inl hshift) ?_)
  refine tidies_bind (tidies_newConst fun rmask hrmask _ => ?_)
  refine tidies_bind (tidies_binary rfl (.inl hfrm) (.inr List.mem_cons_self) (.inl hrmask) ?_)
  refine tidies_bind (tidies_stField .frm (.inr List.mem_cons_self) ?_)
  exact tidies_genSetFsDirty fun A' hA => h A' fun t ht => hA (by simp [ht])

theorem tidies_genCsrWrite (csr : Int) {t : Nat} (ht : Readable self C A t) :
    Tidies self C lo A (self.genCsrWrite csr t) fun _ A' => A ⊆ A' := by
  unfold RiscvDisasContext.genCsrWrite
  split
  · exact tidies_bind (tidies_genWriteMasked .fflags _ ht fun A' hA => tidies_pure hA)
  split
  · exact tidies_bind (tidies_genWriteMasked .frm _ ht fun A' hA => tidies_pure hA)
  split
  · exact tidies_bind (tidies_genWriteFcsr ht fun A' hA => tidies_pure hA)
  split
  · rename_i offset hoffset
    obtain ⟨field, rfl⟩ := field_of_csrWordOffset hoffset
    exact tidies_bind (tidies_stField field ht (tidies_pure (List.Subset.refl _)))
  · exact tidies_pure (List.Subset.refl _)

/-- A generator of the new value of a CSR from the old one. -/
def TidyValue (self : RiscvDisasContext) (value : Nat → Gen Nat) : Prop :=
  ∀ (C : Context) (lo : Nat) (A : List Nat) (old : Nat), Readable self C A old →
    Tidies self C lo A (value old) (Gives self C A)

theorem isTidy_genCsrOp (a : ArgsCsr) (writes : Bool)
    {value : Nat → Gen Nat} (hvalue : TidyValue self value) :
    IsTidy self (self.genCsrOp a writes value) := by
  intro C lo A
  unfold RiscvDisasContext.genCsrOp RiscvDisasContext.requireCfg
  split
  · refine tidies_bind ((tidies_genCsrRead a.csr).mono fun old A₁ _ hold => ?_)
    cases old with
    | none => exact tidies_pure trivial
    | some old =>
      have hread := hold.2 old rfl
      cases writes with
      | false => exact tidies_result hread
      | true =>
        refine tidies_bind ((hvalue C lo A₁ old hread).mono fun new A₂ _ hnew => ?_)
        refine tidies_bind ((tidies_genCsrWrite a.csr hnew.2).mono fun written A₃ _ hA => ?_)
        cases written with
        | false => exact tidies_pure trivial
        | true => exact tidies_result (hread.mono (List.Subset.trans hnew.1 hA))
  · exact tidies_pure trivial

/-- The operand of a CSR instruction. -/
def GivesSource (self : RiscvDisasContext) (operand : Gen Nat) : Prop :=
  ∀ (C : Context) (lo : Nat) (A : List Nat), Tidies self C lo A operand fun t A' => A ⊆ A' ∧ IsSource self C t

theorem givesSource_gpr (r : Fin 32) :
    GivesSource self (self.gprOrZero r) :=
  fun _ _ _ => tidies_gprOrZero fun _ ht => ⟨List.Subset.refl _, ht⟩

theorem givesSource_zimm (a : ArgsCsr) : GivesSource self (RiscvDisasContext.csrZimm a) :=
  fun _ _ _ => tidies_newConst fun _ hc _ => ⟨List.Subset.refl _, hc⟩

theorem tidyValue_operand {operand : Gen Nat} (h : GivesSource self operand) :
    TidyValue self fun _ => operand :=
  fun C lo A _ _ => (h C lo A).mono fun _ _ _ ht => ⟨ht.1, .inl ht.2⟩

theorem tidyValue_genCsrSet {operand : Gen Nat} (h : GivesSource self operand) :
    TidyValue self (RiscvDisasContext.genCsrSet operand) := by
  intro C lo A old hold
  refine tidies_bind ((h C lo A).mono fun bits A₁ _ hbits => ?_)
  refine tidies_bind (tidies_newTemp fun new hnew => ?_)
  refine tidies_binary rfl (.inl hnew) (hold.mono hbits.1) (.inl hbits.2) ?_
  exact ⟨fun t ht => List.mem_cons_of_mem _ (hbits.1 ht), .inr List.mem_cons_self⟩

theorem tidyValue_genCsrClear {operand : Gen Nat} (h : GivesSource self operand) :
    TidyValue self (RiscvDisasContext.genCsrClear operand) := by
  intro C lo A old hold
  refine tidies_bind ((h C lo A).mono fun bits A₁ _ hbits => ?_)
  refine tidies_bind (tidies_newTemp fun inv hinv => ?_)
  refine tidies_bind (tidies_unary rfl (.inl hinv) (.inl hbits.2) ?_)
  refine tidies_bind (tidies_newTemp fun new hnew => ?_)
  refine tidies_binary rfl (.inl hnew) (hold.mono fun t ht => ?_) (.inr (by simp)) ?_
  · exact List.mem_cons_of_mem _ (hbits.1 ht)
  · exact ⟨fun t ht => by simp [hbits.1 ht], .inr List.mem_cons_self⟩

theorem isTidy_transCsrrw (a : ArgsCsr) :
    IsTidy self (self.transCsrrw a) :=
  isTidy_genCsrOp a _ (tidyValue_operand (givesSource_gpr a.rs1))

theorem isTidy_transCsrrs (a : ArgsCsr) :
    IsTidy self (self.transCsrrs a) :=
  isTidy_genCsrOp a _ (tidyValue_genCsrSet (givesSource_gpr a.rs1))

theorem isTidy_transCsrrc (a : ArgsCsr) :
    IsTidy self (self.transCsrrc a) :=
  isTidy_genCsrOp a _ (tidyValue_genCsrClear (givesSource_gpr a.rs1))

theorem isTidy_transCsrrwi (a : ArgsCsr) :
    IsTidy self (self.transCsrrwi a) :=
  isTidy_genCsrOp a _ (tidyValue_operand (givesSource_zimm a))

theorem isTidy_transCsrrsi (a : ArgsCsr) :
    IsTidy self (self.transCsrrsi a) :=
  isTidy_genCsrOp a _ (tidyValue_genCsrSet (givesSource_zimm a))

theorem isTidy_transCsrrci (a : ArgsCsr) :
    IsTidy self (self.transCsrrci a) :=
  isTidy_genCsrOp a _ (tidyValue_genCsrClear (givesSource_zimm a))

/-! ## Floating point -/

theorem tidies_fsStatus :
    Tidies self C lo A (fsStatus self) fun p A' => Readable self C A' p.1 ∧ Readable self C A' p.2 := by
  unfold fsStatus
  refine tidies_bind (tidies_newTemp fun status hstatus => ?_)
  refine tidies_bind (tidies_ldField .ustatus (.inl hstatus) ?_)
  refine tidies_bind (tidies_newConst fun mask hmask _ => ?_)
  refine tidies_bind (tidies_newTemp fun fs hfs => ?_)
  refine tidies_bind (tidies_binary rfl (.inl hfs) (.inr (by simp)) (.inl hmask) ?_)
  refine tidies_bind (tidies_newConst fun off hoff _ => ?_)
  exact tidies_pure ⟨.inr List.mem_cons_self, .inl hoff⟩

theorem tidies_fprLoad (idx : Fin 32) :
    Tidies self C lo A (self.fprLoad idx) (Gives self C A) := by
  unfold RiscvDisasContext.fprLoad
  refine tidies_bind (tidies_newTemp fun t ht => ?_)
  refine tidies_ldField (.fpr idx) (.inl ht) ?_
  exact ⟨List.subset_cons_self _ _, .inr List.mem_cons_self⟩

theorem tidies_fprStore (idx : Fin 32) {t : Nat} (ht : Readable self C A t) :
    Tidies self C lo A (self.fprStore idx t) fun _ _ => True :=
  tidies_stField (.fpr idx) ht trivial

theorem tidies_genBox {t : Nat} (ht : Readable self C A t) :
    Tidies self C lo A (RiscvDisasContext.genBox t) (Gives self C A) := by
  unfold RiscvDisasContext.genBox
  refine tidies_bind (tidies_newConst fun mask hmask _ => ?_)
  refine tidies_bind (tidies_newTemp fun boxed hboxed => ?_)
  refine tidies_binary rfl (.inl hboxed) ht (.inl hmask) ?_
  exact ⟨List.subset_cons_self _ _, .inr List.mem_cons_self⟩

theorem tidies_fpOperand (o : FpOperand) :
    Tidies self C lo A (self.fpOperand o) (Gives self C A) := by
  cases o with
  | fpr idx => exact tidies_fprLoad idx
  | gpr idx => exact tidies_gprOrZero fun _ ht => ⟨List.Subset.refl _, .inl ht⟩
  | rm mode => exact tidies_newConst fun _ hc _ => ⟨List.Subset.refl _, .inl hc⟩

theorem tidies_fpOperands (os : List FpOperand) :
    Tidies self C lo A (self.fpOperands os) fun ts A' => A ⊆ A' ∧ ∀ t ∈ ts, Readable self C A' t := by
  induction os generalizing A with
  | nil => exact tidies_pure ⟨List.Subset.refl _, fun _ h => (by cases h)⟩
  | cons o os ih =>
    refine tidies_bind ((tidies_fpOperand o).mono fun t A₁ _ ht => ?_)
    refine tidies_bind (ih.mono fun ts A₂ _ hts => ?_)
    exact tidies_pure ⟨List.Subset.trans ht.1 hts.1, readable_cons (ht.2.mono hts.1) hts.2⟩

theorem readable_getD {ts : List Nat} (hts : ∀ t ∈ ts, Readable self C A t) {c : Nat}
    (hc : Readable self C A c) (i : Nat) : Readable self C A (ts.getD i c) := by
  by_cases hi : i < ts.length
  · rw [List.getD_eq_getElem _ _ hi]
    exact hts _ (List.getElem_mem hi)
  · rw [List.getD_eq_default _ _ (Nat.le_of_not_lt hi)]
    exact hc

theorem tidies_genHelperCall (helper : BitVec 64) {args : List Nat}
    (hargs : ∀ t ∈ args, Readable self C A t) :
    Tidies self C lo A (RiscvDisasContext.genHelperCall helper args) (Gives self C A) := by
  unfold RiscvDisasContext.genHelperCall genCall
  refine tidies_bind (tidies_newTemp fun dst hdst => ?_)
  refine tidies_bind (tidies_newConst fun c0 hc0 _ => ?_)
  have harg : ∀ i, Readable self C A (args.getD i c0) := readable_getD hargs (.inl hc0)
  refine tidies_bind (tidies_emitOp ⟨rfl, rfl, ?_, writable_one (.inl hdst),
    List.nodup_singleton dst, fun h => (by cases h)⟩ (tidies_pure ?_))
  · exact readable_cons (harg 0) (readable_cons (harg 1) (readable_cons (harg 2)
      (readable_cons (harg 3) (readable_cons (harg 4) (readable_cons (harg 5) readable_nil)))))
  · exact ⟨List.subset_cons_self _ _, .inr List.mem_cons_self⟩

theorem tidies_fpDest (dest : FpDest) {t : Nat} (ht : Readable self C A t) :
    Tidies self C lo A (self.fpDest t dest) fun _ _ => True := by
  cases dest with
  | fpr idx => exact tidies_fprStore idx ht
  | gpr idx => exact tidies_genSetGpr ht fun _ _ => trivial

/-- The code behind the check. -/
theorem isTidy_body (T : HelperTable) (body : FpBody) :
    IsTidy self (body.code self T) := by
  intro C lo A
  cases body with
  | call helper operands dest =>
    refine tidies_bind ((tidies_fpOperands operands).mono fun ts A₁ _ hts => ?_)
    have henv : Readable self C A₁ self.env := readable_env
    refine tidies_bind ((tidies_genHelperCall _ (readable_cons henv hts.2)).mono
      fun res A₂ _ hres => ?_)
    exact tidies_fpDest dest hres.2
  | load a memop isSingle =>
    refine tidies_bind ((tidies_genAddr a.rs1 a.imm).mono fun addr A₁ _ haddr => ?_)
    refine tidies_bind (tidies_newTemp fun val hval => ?_)
    refine tidies_bind (tidies_qemuLd (.inl hval) haddr.2 ?_)
    cases isSingle with
    | true =>
      refine tidies_bind ((tidies_genBox (.inr List.mem_cons_self)).mono fun boxed A₂ _ hboxed => ?_)
      exact tidies_fprStore a.rd hboxed.2
    | false => exact tidies_fprStore a.rd (.inr List.mem_cons_self)
  | store a memop isSingle =>
    refine tidies_bind ((tidies_genAddr a.rs1 a.imm).mono fun addr A₁ _ haddr => ?_)
    refine tidies_bind ((tidies_fprLoad a.rs2).mono fun val A₂ hA hval => ?_)
    cases isSingle with
    | true =>
      refine tidies_bind (tidies_newTemp fun lo32 hlo32 => ?_)
      refine tidies_bind (tidies_convert rfl (.inl hlo32) hval.2 ?_)
      refine tidies_bind (tidies_newTemp fun lo64 hlo64 => ?_)
      refine tidies_bind (tidies_convert rfl (.inl hlo64) (.inr (by simp)) ?_)
      refine tidies_qemuSt (.inr List.mem_cons_self) (haddr.2.mono fun t ht => ?_) trivial
      simp [hA ht]
    | false => exact tidies_qemuSt hval.2 (haddr.2.mono hA) trivial
  | toGpr a isSingle =>
    refine tidies_bind ((tidies_fprLoad a.rs1).mono fun val A₁ _ hval => ?_)
    cases isSingle with
    | true =>
      refine tidies_bind (tidies_newTemp fun lo32 hlo32 => ?_)
      refine tidies_bind (tidies_convert rfl (.inl hlo32) hval.2 ?_)
      exact tidies_genSetGprSx32 (.inr List.mem_cons_self) fun _ _ => trivial
    | false => exact tidies_genSetGpr hval.2 fun _ _ => trivial
  | ofGpr a isSingle =>
    refine tidies_bind (tidies_gprOrZero fun src hsrc => ?_)
    cases isSingle with
    | true =>
      refine tidies_bind (tidies_newTemp fun lo32 hlo32 => ?_)
      refine tidies_bind (tidies_convert rfl (.inl hlo32) (.inl hsrc) ?_)
      refine tidies_bind (tidies_newTemp fun lo64 hlo64 => ?_)
      refine tidies_bind (tidies_convert rfl (.inl hlo64) (.inr (by simp)) ?_)
      refine tidies_bind ((tidies_genBox (.inr List.mem_cons_self)).mono fun boxed A₂ _ hboxed => ?_)
      exact tidies_fprStore a.rd hboxed.2
    | false => exact tidies_fprStore a.rd (.inl hsrc)

theorem isTidy_tailCode (T : HelperTable) (insn : FpInsn) :
    IsTidy self (tailCode self T insn) := by
  intro C lo A
  unfold tailCode
  have hbody : ∀ A', Tidies self C lo A' (do (FpInsn.body insn).code self T; return true)
      fun _ _ => True :=
    fun A' => tidies_bind ((isTidy_body T _ C lo A').mono fun _ _ _ _ => tidies_pure trivial)
  split
  · exact tidies_bind (tidies_genSetFsDirty fun A' _ => hbody A')
  · exact hbody A

end TcgRs.Analysis.TidyInsns
