import TcgRs.Analysis.BaseInsns
import TcgRs.Analysis.CsrCode
import TcgRs.Analysis.MulDiv
import TcgRs.Analysis.Reservations
import TcgRs.Analysis.WordAtomics

/-!
# Steps of the guest

What each instruction does to the CPU, and that its code does so: the code goes on behind itself, or
leaves the block with the program counter of the next instruction, or traps.  A step of an atomic is
what its code does, which is not always what the specification says.
-/

set_option autoImplicit false
set_option linter.constructorNameAsVariable false

namespace TcgRs.Analysis.GuestSteps

open TcgRs.Model TcgRs.Model.Ir TcgRs.Model.Riscv TcgRs.Interface.Ir TcgRs.Interface.RiscvExec
open TcgRs.Interface.RiscvIsa
open GeneratedCode GeneratedControl GeneratedExits GuestAccess GuestCode FpCode CsrCode IntCode TidyCode
open TidyInsns BaseInsns Reservations WordAtomics

/-! ## Steps -/

/-- The hart after an instruction of the A extension. -/
def afterAtomic (insn : Insn) (a : ArgsAtomic) (h : Hart) : Option Hart :=
  match insn with
  | .lrw => some (afterLr .sl a h)
  | .lrd => some (afterLr .uq a h)
  | .scw => some (afterSc .ul a h)
  | .scd => some (afterSc .uq a h)
  | insn => (amoStores insn).map fun p => h.swap p.1 p.2 a

/-- The CPU after an instruction that goes on, up to the program counter; `none` if it is undefined. -/
def straightAfter (H : HostFloat) (cfg : RiscvCfg) (c : Cpu) : GuestInsn → Option Cpu
  | .mulDiv insn a =>
    if cfg.misa.contains .M then
      (mulDivValue insn).map fun value => c.setReg a.rd (value (c.hart.x a.rs1) (c.hart.x a.rs2))
    else none
  | .atomic insn a =>
    if cfg.misa.contains .A then (afterAtomic insn a c.hart).map fun h => { c with hart := h }
    else none
  | .csr access immediate a => if cfg.extZicsr then afterCsr access immediate a c else none
  | .fp insn => if cfg.misa.contains (FpInsn.ext insn) then some (FpInsn.after H insn c) else none
  | .fence => some c
  | _ => none

/-- An instruction of `len` bytes: the CPU after it, and the exception if it traps; `none` if it is
undefined. -/
def GuestInsn.execute (H : HostFloat) (cfg : RiscvCfg) (len : Nat) (c : Cpu) (insn : GuestInsn) :
    Option (Cpu × Option Nat) :=
  let goOn := (straightAfter H cfg c insn).map fun c' =>
    (Cpu.setPc c' (c.hart.pc + BitVec.ofNat 64 len), none)
  match insn with
  | .int insn o =>
    if (insn = .mul ∨ insn = .mulw) ∧ cfg.misa.contains .M = false then none
    else (c.hart.execute len insn o).map fun h => ({ c with hart := h }, none)
  | .fp insn =>
    if cfg.misa.contains (FpInsn.ext insn) ∧ fsOf c = 0 then some (c, some EXCP_UNDEF) else goOn
  | .ecall => some (c, some EXCP_ECALL)
  | .ebreak => some (c, some EXCP_EBREAK)
  | _ => goOn

/-- One step; an undefined instruction traps with the CPU as it was. -/
def GuestInsn.step (H : HostFloat) (cfg : RiscvCfg) (len : Nat) (c : Cpu) (insn : GuestInsn) :
    Cpu × Option Nat := (GuestInsn.execute H cfg len c insn).getD (c, some EXCP_UNDEF)

/-! ## The program counter -/

section
variable (c : Cpu) (pc : BitVec 64)

theorem setPc_setPc (pc' : BitVec 64) : Cpu.setPc (Cpu.setPc c pc) pc' = Cpu.setPc c pc' := rfl

theorem fpInsn_after_setPc (H : HostFloat) (insn : FpInsn) :
    FpInsn.after H insn (Cpu.setPc c pc) = Cpu.setPc (FpInsn.after H insn c) pc := by
  have hbody (c : Cpu) (body : FpBody) :
      body.after H (Cpu.setPc c pc) = Cpu.setPc (body.after H c) pc := by
    cases body with
    | call helper operands dest =>
      have hvalue : operandValue (Cpu.setPc c pc) = operandValue c := by
        funext o
        cases o <;> rfl
      unfold FpBody.after
      rw [hvalue]
      cases dest <;> rfl
    | load a memop isSingle => rfl
    | store a memop isSingle => rfl
    | toGpr a isSingle => rfl
    | ofGpr a isSingle => rfl
  unfold FpInsn.after
  rw [← hbody]
  split <;> rfl

theorem csrKind_access_setPc (rd : Fin 32) (writes : Bool) {f : Cpu → BitVec 64 → BitVec 64}
    (hf : ∀ old, f (Cpu.setPc c pc) old = f c old) (kind : CsrKind) :
    kind.access (Cpu.setPc c pc) rd writes f =
      (kind.access c rd writes f).map fun c' => Cpu.setPc c' pc := by
  have hread : kind.read (Cpu.setPc c pc) = kind.read c := by
    cases kind with
    | view v => cases v <;> rfl
    | word field => rfl
    | zero => rfl
  have hwrite (x : BitVec 64) :
      kind.write x (Cpu.setPc c pc) = (kind.write x c).map fun c' => Cpu.setPc c' pc := by
    cases kind with
    | view v => cases v <;> rfl
    | word field => rfl
    | zero => rfl
  unfold CsrKind.access
  dsimp only
  rw [hread, hf, hwrite]
  cases writes with
  | true =>
    rw [if_pos rfl, if_pos rfl, Option.map_map, Option.map_map]
    rfl
  | false => rfl

theorem afterCsr_setPc (access : CsrAccess) (immediate : Bool) (a : ArgsCsr) :
    afterCsr access immediate a (Cpu.setPc c pc) =
      (afterCsr access immediate a c).map fun c' => Cpu.setPc c' pc := by
  unfold afterCsr
  cases csrKind a.csr with
  | none => rfl
  | some kind =>
    exact csrKind_access_setPc (f := fun c old => access.value old (csrOperand immediate a.rs1 c))
      c pc a.rd _ (fun _ => rfl) kind

theorem afterAtomic_setPc (insn : Insn) (a : ArgsAtomic) :
    (afterAtomic insn a (Cpu.setPc c pc).hart).map (fun h => { Cpu.setPc c pc with hart := h }) =
      (afterAtomic insn a c.hart).map fun h => Cpu.setPc { c with hart := h } pc := by
  cases insn <;> rfl

/-- Instructions that go on do not look at the program counter. -/
theorem straightAfter_setPc (H : HostFloat) (cfg : RiscvCfg) (insn : GuestInsn) :
    straightAfter H cfg (Cpu.setPc c pc) insn =
      (straightAfter H cfg c insn).map fun c' => Cpu.setPc c' pc := by
  cases insn with
  | mulDiv insn a =>
    unfold straightAfter
    dsimp only
    split
    · rw [Option.map_map]
      rfl
    · rfl
  | atomic insn a =>
    unfold straightAfter
    dsimp only
    split
    · rw [Option.map_map]
      exact afterAtomic_setPc c pc insn a
    · rfl
  | csr access immediate a =>
    unfold straightAfter
    dsimp only
    split
    · exact afterCsr_setPc c pc access immediate a
    · rfl
  | fp insn =>
    unfold straightAfter
    dsimp only
    split
    · exact congrArg some (fpInsn_after_setPc c pc H insn)
    · rfl
  | int insn o => rfl
  | fence => rfl
  | ecall => rfl
  | ebreak => rfl
  | illegal => rfl

end

/-! ## Straight code -/

variable {self : RiscvDisasContext} {C : Context} {rest : Effects Guest} {n : Nat} {s : State Guest}

theorem Does.and {σ α : Type} {E : Effects σ} {g : Gen α} {s : State σ}
    {Q Q' : α → Nat → State σ → Prop} (h : Does E C g Q n s) (h' : Does E C g Q' n s) :
    Does E C g (fun a n' s' => Q a n' s' ∧ Q' a n' s') n s :=
  fun b hn hC => ⟨(h b hn hC).1, (h b hn hC).2, (h' b hn hC).2⟩

/-- The code ends well and leaves a hart; the words of the host stay as they are. -/
def LeavesHart (self : RiscvDisasContext) (C : Context) (s : State Guest) (h : Hart) (ok : Bool)
    (_ : Nat) (s' : State Guest) : Prop :=
  ok = true ∧ s'.world.host = s.world.host ∧ hartOf self C s' = h

theorem does_tries (hself : Globals self C) {g : Gen Bool} (htidy : IsTidy self g) {h : Hart}
    (hdoes : Does (guestEffects rest) C g (LeavesHart self C s h) n s) :
    Does (guestEffects rest) C g (fun ok _ s' =>
      Tries self C s (some { cpuOf self C s with hart := h }) ok s') n s := by
  refine (does_env hself htidy hdoes).mono ?_
  rintro ok n' s' ⟨⟨hok, hhost, hhart⟩, henv⟩
  exact ⟨hok, cpuOf_of_hart hhost henv hhart⟩

/-! ## Multiplication and division -/

theorem isTidy_transMulDiv {insn : Insn} {t : ArgsR → Gen Bool} (h : transMulDiv self insn = some t)
    (a : ArgsR) : IsTidy self (t a) := by
  cases insn <;> cases h
  case mulh => exact isTidy_transMulh a
  case mulhsu => exact isTidy_transMulhsu a
  case mulhu => exact isTidy_transMulhu a
  case div => exact isTidy_requireExt (isTidy_genDivRem a false)
  case divu => exact isTidy_requireExt (isTidy_genDivuRemu a false)
  case rem => exact isTidy_requireExt (isTidy_genDivRem a true)
  case remu => exact isTidy_requireExt (isTidy_genDivuRemu a true)
  case divw => exact isTidy_requireExt (isTidy_genDivRemW a false)
  case divuw => exact isTidy_requireExt (isTidy_genDivuRemuW a false)
  case remw => exact isTidy_requireExt (isTidy_genDivRemW a true)
  case remuw => exact isTidy_requireExt (isTidy_genDivuRemuW a true)

theorem transMulDiv_without {insn : Insn} {t : ArgsR → Gen Bool}
    (h : transMulDiv self insn = some t) (hext : self.cfg.misa.contains .M = false) (a : ArgsR) :
    t a = pure false := by
  have hnot : ¬self.cfg.misa.contains .M = true := by
    rw [hext]
    exact Bool.false_ne_true
  cases insn <;> cases h <;> exact if_neg hnot

/-- Exactly the instructions with a translation have a value. -/
theorem mulDivValue_isSome (self : RiscvDisasContext) (insn : Insn) :
    (mulDivValue insn).isSome = (transMulDiv self insn).isSome := by
  cases insn <;> rfl

/-! ## Atomics -/

theorem does_lr (hself : Globals self C) (a : ArgsAtomic) (memop : MemOp) :
    Does (guestEffects rest) C (self.genLr a memop)
      (LeavesHart self C s (afterLr memop a (hartOf self C s))) n s := by
  have hhost : Does (guestEffects rest) C (self.genLr a memop)
      (fun ok _ s' => ok = true ∧ s'.world.host = s.world.host) n s := by
    unfold RiscvDisasContext.genLr
    refine does_bind (does_gprOrZero hself fun addr n1 _ _ _ => ?_)
    refine does_bind (does_genRelease ?_)
    refine does_bind (does_newTemp fun _ => ?_)
    refine does_bind (does_qemuLd ?_)
    refine does_bind (does_genAcquire ?_)
    refine does_bind (does_mov ?_)
    refine does_bind (does_mov ?_)
    refine does_bind (does_genSetGpr (does_pure ⟨rfl, ?_⟩))
    rw [setGpr_world]
    rfl
  refine (Does.and hhost (does_genLr hself a memop)).mono ?_
  rintro ok n' s' ⟨⟨hok, hworld⟩, hhart⟩
  exact ⟨hok, hworld, hhart⟩

theorem does_sc (hself : Globals self C) (a : ArgsAtomic) (memop : MemOp) :
    Does (guestEffects rest) C (self.genSc a memop)
      (LeavesHart self C s (afterSc memop a (hartOf self C s))) n s := by
  have hhost : Does (guestEffects rest) C (self.genSc a memop)
      (fun ok _ s' => ok = true ∧ s'.world.host = s.world.host) n s := by
    unfold RiscvDisasContext.genSc
    refine does_bind (does_gprOrZero hself fun addr n1 _ _ _ => ?_)
    refine does_bind (does_gprOrZero hself fun src2 n2 _ _ _ => ?_)
    refine does_bind (does_qemuSt ?_)
    refine does_bind (does_newConst fun zero n3 _ _ => ?_)
    refine does_bind (does_genSetGpr ?_)
    refine does_bind (does_newConst fun neg1 n4 _ _ => ?_)
    refine does_bind (does_mov (does_pure ⟨rfl, ?_⟩))
    rw [setTemp_world, setGpr_world]
    rfl
  refine (Does.and hhost (does_genSc hself a memop)).mono ?_
  rintro ok n' s' ⟨⟨hok, hworld⟩, hhart⟩
  exact ⟨hok, hworld, hhart⟩

theorem leavesHart_of_swaps {memop : MemOp} {a : ArgsAtomic}
    {value : BitVec 64 → BitVec 64 → BitVec 64} {g : Gen Bool}
    (h : Does (guestEffects rest) C g (Swaps self C s memop a value) n s) :
    Does (guestEffects rest) C g
      (LeavesHart self C s ((hartOf self C s).swap memop value a)) n s := by
  refine h.mono ?_
  rintro ok n' s' ⟨hok, -, hhost, hhart⟩
  exact ⟨hok, hhost, hhart⟩

theorem does_amo (hself : Globals self C) (a : ArgsAtomic) (memop : MemOp) {opc : Opcode}
    {f : ∀ n : Nat, BitVec n → BitVec n → BitVec n} (hopc : binaryOp opc = some f) :
    Does (guestEffects rest) C (self.genAmo a (emitBinary opc) memop)
      (LeavesHart self C s ((hartOf self C s).swap memop (f 64) a)) n s :=
  leavesHart_of_swaps (does_genAmo hself a memop hopc)

theorem does_amoSwap (hself : Globals self C) (a : ArgsAtomic) (memop : MemOp) :
    Does (guestEffects rest) C (self.genAmoSwap a memop)
      (LeavesHart self C s ((hartOf self C s).swap memop (fun _ y => y) a)) n s :=
  leavesHart_of_swaps (does_genAmoSwap hself a memop)

theorem does_amoMinmax (hself : Globals self C) (a : ArgsAtomic) (cond : Cond) (memop : MemOp) :
    Does (guestEffects rest) C (self.genAmoMinmax a cond memop)
      (LeavesHart self C s ((hartOf self C s).swap memop
        (fun x y => if condHolds cond x y then x else y) a)) n s :=
  leavesHart_of_swaps (does_genAmoMinmax hself a cond memop)

/-- The code of an instruction of the A extension behind the check for it. -/
inductive AtomicForm (self : RiscvDisasContext) (insn : Insn) (a : ArgsAtomic) : Gen Bool → Prop
  | lr (memop : MemOp) (h : ∀ c, afterAtomic insn a c = some (afterLr memop a c)) :
      AtomicForm self insn a (self.genLr a memop)
  | sc (memop : MemOp) (h : ∀ c, afterAtomic insn a c = some (afterSc memop a c)) :
      AtomicForm self insn a (self.genSc a memop)
  | swap (memop : MemOp) (h : amoStores insn = some (memop, fun _ y => y)) :
      AtomicForm self insn a (self.genAmoSwap a memop)
  | amo (memop : MemOp) {opc : Opcode} {f : ∀ n : Nat, BitVec n → BitVec n → BitVec n}
      (hopc : binaryOp opc = some f) (h : amoStores insn = some (memop, f 64)) :
      AtomicForm self insn a (self.genAmo a (emitBinary opc) memop)
  | minmax (memop : MemOp) (cond : Cond)
      (h : amoStores insn = some (memop, fun x y => if condHolds cond x y then x else y)) :
      AtomicForm self insn a (self.genAmoMinmax a cond memop)

theorem form_of_transAtomic {insn : Insn} {t : ArgsAtomic → Gen Bool}
    (h : transAtomic self insn = some t) (a : ArgsAtomic) :
    ∃ g, t a = self.requireExt .A g ∧ AtomicForm self insn a g := by
  cases insn <;> cases h
  case lrw | lrd => exact ⟨_, rfl, .lr _ fun _ => rfl⟩
  case scw | scd => exact ⟨_, rfl, .sc _ fun _ => rfl⟩
  case amoswapw | amoswapd => exact ⟨_, rfl, .swap _ rfl⟩
  case amoaddw | amoaddd => exact ⟨_, rfl, .amo (f := fun _ x y => x + y) _ rfl rfl⟩
  case amoxorw | amoxord => exact ⟨_, rfl, .amo (f := fun _ x y => x ^^^ y) _ rfl rfl⟩
  case amoandw | amoandd => exact ⟨_, rfl, .amo (f := fun _ x y => x &&& y) _ rfl rfl⟩
  case amoorw | amoord => exact ⟨_, rfl, .amo (f := fun _ x y => x ||| y) _ rfl rfl⟩
  case amominw | amomind => exact ⟨_, rfl, .minmax _ .lt rfl⟩
  case amomaxw | amomaxd => exact ⟨_, rfl, .minmax _ .gt rfl⟩
  case amominuw | amominud => exact ⟨_, rfl, .minmax _ .ltu rfl⟩
  case amomaxuw | amomaxud => exact ⟨_, rfl, .minmax _ .gtu rfl⟩

theorem isTidy_of_form {insn : Insn} {a : ArgsAtomic} {g : Gen Bool}
    (h : AtomicForm self insn a g) : IsTidy self g := by
  cases h with
  | lr memop _ => exact isTidy_genLr a memop
  | sc memop _ => exact isTidy_genSc a memop
  | swap memop _ => exact isTidy_genAmoSwap a memop
  | amo memop hopc _ => exact isTidy_genAmo hopc a memop
  | minmax memop cond _ => exact isTidy_genAmoMinmax a cond memop

theorem afterAtomic_of_stores {insn : Insn} {p : MemOp × (BitVec 64 → BitVec 64 → BitVec 64)}
    (h : amoStores insn = some p) (a : ArgsAtomic) (c : Hart) :
    afterAtomic insn a c = some (c.swap p.1 p.2 a) := by
  cases insn <;> cases h <;> rfl

theorem does_of_form (hself : Globals self C) {insn : Insn} {a : ArgsAtomic} {g : Gen Bool}
    (hform : AtomicForm self insn a g) : ∃ h, afterAtomic insn a (hartOf self C s) = some h ∧
      Does (guestEffects rest) C g (LeavesHart self C s h) n s := by
  cases hform with
  | lr memop h => exact ⟨_, h _, does_lr hself a memop⟩
  | sc memop h => exact ⟨_, h _, does_sc hself a memop⟩
  | swap memop h => exact ⟨_, afterAtomic_of_stores h a _, does_amoSwap hself a memop⟩
  | amo memop hopc h => exact ⟨_, afterAtomic_of_stores h a _, does_amo hself a memop hopc⟩
  | minmax memop cond h =>
    exact ⟨_, afterAtomic_of_stores h a _, does_amoMinmax hself a cond memop⟩

/-- Exactly the instructions with a translation leave a hart. -/
theorem transAtomic_none {insn : Insn} (h : transAtomic self insn = none) (a : ArgsAtomic)
    (c : Hart) : afterAtomic insn a c = none := by
  cases insn <;> first | rfl | cases h

/-! ## CSRs -/

theorem isTidy_transCsr (access : CsrAccess) (immediate : Bool) (a : ArgsCsr) :
    IsTidy self (transCsr self access immediate a) := by
  cases access <;> cases immediate
  case write.false => exact isTidy_transCsrrw a
  case write.true => exact isTidy_transCsrrwi a
  case set.false => exact isTidy_transCsrrs a
  case set.true => exact isTidy_transCsrrsi a
  case clear.false => exact isTidy_transCsrrc a
  case clear.true => exact isTidy_transCsrrci a

theorem transCsr_without (hext : self.cfg.extZicsr = false) (access : CsrAccess)
    (immediate : Bool) (a : ArgsCsr) : transCsr self access immediate a = pure false := by
  have hnot : ¬self.cfg.extZicsr = true := by
    rw [hext]
    exact Bool.false_ne_true
  cases access <;> cases immediate <;> exact if_neg hnot

/-! ## Base instructions -/

/-- A translation of a base instruction ends well, unless it needs the M extension. -/
theorem ok_of_form (hself : Globals self C) {insn : Insn} {o : Operands}
    {g : Gen (Bool × DisasJumpType)} (hform : Form self insn o g)
    (hext : insn = .mul ∨ insn = .mulw → self.cfg.misa.contains .M = true) {b : Builder}
    (hlabels : LabelsBelow b.nbLabels b.ops) (hC : (g.run b).2.ctx.Extends C) :
    (g.run b).1.1 = true := by
  have hstraight {t : Gen Bool} {Q : Bool → Nat → State Guest → Prop}
      (h : Does (guestEffects noEffects) C t Q b.ctx.nbTemps blankState)
      (hQ : ∀ ok n' s', Q ok n' s' → ok = true) (hC : (t.run b).2.ctx.Extends C) :
      (t.run b).1 = true := hQ _ _ _ (h b rfl hC).2
  cases hform with
  | upper himm v hv => rfl
  | jal hinsn => rfl
  | jalr hinsn => rfl
  | @alu trans value hvalue htrans =>
    obtain ⟨t, ht, rfl, -⟩ | ⟨t, ht, rfl, -⟩ | ⟨t, ht, rfl, -⟩ := htrans
    · exact hstraight (does_transR hself ht hvalue hext _) (fun _ _ _ h => h.1) hC
    · exact hstraight (does_transI hself ht hvalue _) (fun _ _ _ h => h.1) hC
    · exact hstraight (does_transShift hself ht hvalue _) (fun _ _ _ h => h.1) hC
  | @load t size hsize htrans =>
    exact hstraight (IntCode.does_load hself htrans hsize _) (fun _ _ _ h => h.1) hC
  | @store t size hsize htrans =>
    have hdoes : Does (guestEffects noEffects) C (t ⟨o.imm, o.rs1, o.rs2⟩) (Stores self C blankState
        (stored (hartOf self C blankState).mem ((hartOf self C blankState).x o.rs1 + o.imm) size
          ((hartOf self C blankState).x o.rs2))) b.ctx.nbTemps blankState :=
      IntCode.does_store hself htrans hsize ⟨o.imm, o.rs1, o.rs2⟩
    exact hstraight hdoes (fun _ _ _ h => h.1) hC
  | @branch t taken htaken htrans =>
    have hquits : Quits (guestEffects noEffects) C (t ⟨o.imm, o.rs2, o.rs1⟩) (Jumps self C blankState
        { hartOf self C blankState with
          pc := if taken ((hartOf self C blankState).x o.rs1) ((hartOf self C blankState).x o.rs2)
            then self.base.pcNext + o.imm else self.link }) b.ctx.nbTemps blankState :=
      quits_transB hself htrans htaken ⟨o.imm, o.rs2, o.rs1⟩
    obtain ⟨exit, s', ⟨hr, -⟩, -⟩ := hquits b rfl hlabels hC
    rw [hr]

/-- Without the M extension its two instructions are refused. -/
theorem transInt_without {insn : Insn} {o : Operands} {g : Gen (Bool × DisasJumpType)}
    (h : transInt self insn o = some g) (hinsn : insn = .mul ∨ insn = .mulw)
    (hext : self.cfg.misa.contains .M = false) : g = straight self (pure false) := by
  have hnot : ¬self.cfg.misa.contains .M = true := by
    rw [hext]
    exact Bool.false_ne_true
  rcases hinsn with rfl | rfl <;> cases h <;> exact congrArg (straight self) (if_neg hnot)

theorem execute_none {insn : Insn} {o : Operands} (h : transInt self insn o = none) (c : Hart)
    (len : Nat) : c.execute len insn o = none := by
  cases insn <;> first | rfl | cases h

/-! ## Code of an instruction -/

/-- The code from `b` to `b'`, from `s`: it goes on behind itself, leaves the block, or traps. -/
inductive Goes (E : Effects Guest) (self : RiscvDisasContext) (C : Context) (b b' : Builder)
    (s : State Guest) : DisasJumpType → Cpu × Option Nat → Prop
  | on {s' : State Guest} {c : Cpu} (hcpu : Cpu.setPc (cpuOf self C s') self.link = c)
      (hreach : ∀ back, Reaches E C (b'.ops ++ back) b.ops.length s b'.ops.length s') :
      Goes E self C b b' s .next (c, none)
  | leaves {s' : State Guest} {slot : Nat} (hslot : slot ≤ TB_EXIT_NOCHAIN)
      (hexits : ∀ back, Exits E C (b'.ops ++ back) b.ops.length s (.exitTb slot) s') :
      Goes E self C b b' s .noReturn (cpuOf self C s', none)
  | traps {s' : State Guest} {code : Nat} {jmp : DisasJumpType} (hcode : TB_EXIT_NOCHAIN < code)
      (hexits : ∀ back, Exits E C (b'.ops ++ back) b.ops.length s (.exitTb code) s') :
      Goes E self C b b' s jmp (cpuOf self C s', some code)

/-- The code of an instruction that is known does what `after` says; that of another one gives up with
the CPU as it was. -/
def Settles (E : Effects Guest) (self : RiscvDisasContext) (C : Context) (b b' : Builder)
    (s : State Guest) (r : Bool × DisasJumpType) (after : Option (Cpu × Option Nat)) : Prop :=
  match after with
  | some after => r.1 = true ∧ Goes E self C b b' s r.2 after
  | none => r.1 = false ∧ ∃ s', cpuOf self C s' = cpuOf self C s ∧
      ∀ back, Reaches E C (b'.ops ++ back) b.ops.length s b'.ops.length s'

variable {H : HostFloat} {T : HelperTable} {b b' : Builder} {E : Effects Guest}

theorem settles_of_tries (hnext : self.base.isJmp = .next) {g : Gen Bool} {after : Option Cpu}
    (h : Does E C g (fun ok _ s' => Tries self C s after ok s') b.ctx.nbTemps s)
    {r : Bool × DisasJumpType} (hrun : (straight self g).run b = (r, b'))
    (hC : b'.ctx.Extends C) :
    Settles E self C b b' s r (after.map fun c => (Cpu.setPc c self.link, none)) := by
  obtain ⟨hg, hjmp⟩ := straight_run hrun
  have hb' : (g.run b).2 = b' := by rw [hg]
  have hok : (g.run b).1 = r.1 := by rw [hg]
  obtain ⟨s', htries, hreach⟩ := reaches_of_does h (hb' ▸ hC)
  rw [hok] at htries
  rw [hb'] at hreach
  cases after with
  | none => exact ⟨htries.1, s', htries.2, hreach⟩
  | some c =>
    refine ⟨htries.1, ?_⟩
    rw [hjmp, hnext]
    exact .on (congrArg (fun c => Cpu.setPc c self.link) htries.2) hreach

/-- A translation that gives up at once. -/
theorem settles_refused (hnext : self.base.isJmp = .next) {r : Bool × DisasJumpType}
    (hrun : (straight self (pure false)).run b = (r, b')) (hC : b'.ctx.Extends C) :
    Settles E self C b b' s r none := by
  have htries : Does E C (pure false : Gen Bool) (fun ok _ s' => Tries self C s none ok s')
      b.ctx.nbTemps s := does_pure ⟨rfl, rfl⟩
  exact settles_of_tries hnext htries hrun hC

/-! ## Each class -/

theorem does_mulDiv (hself : Globals self C) (insn : Insn) (a : ArgsR) :
    Does (guestEffects rest) C (((transMulDiv self insn).map fun trans => trans a).getD transIllegal)
      (fun ok _ s' => Tries self C s
        (straightAfter H self.cfg (cpuOf self C s) (.mulDiv insn a)) ok s') n s := by
  have hsome := mulDivValue_isSome self insn
  unfold straightAfter
  dsimp only
  cases htrans : transMulDiv self insn with
  | none =>
    rw [htrans, Option.isSome_none, Option.isSome_eq_false_iff, Option.isNone_iff_eq_none] at hsome
    rw [hsome, Option.map_none, Option.map_none, ite_self]
    exact does_pure ⟨rfl, rfl⟩
  | some t =>
    rw [htrans, Option.isSome_some, Option.isSome_iff_exists] at hsome
    obtain ⟨value, hvalue⟩ := hsome
    rw [hvalue, Option.map_some, Option.map_some, Option.getD_some]
    cases hext : self.cfg.misa.contains .M with
    | false =>
      rw [transMulDiv_without htrans hext, if_neg Bool.false_ne_true]
      exact does_pure ⟨rfl, rfl⟩
    | true =>
      rw [if_pos rfl]
      refine does_tries hself (isTidy_transMulDiv htrans a) ?_
      refine (MulDiv.does_transMulDiv hself htrans hvalue hext a).mono ?_
      rintro ok n' s' ⟨hok, hworld, hhart⟩
      exact ⟨hok, congrArg Guest.host hworld, hhart⟩

theorem does_atomic (hself : Globals self C) (insn : Insn) (a : ArgsAtomic) :
    Does (guestEffects rest) C (((transAtomic self insn).map fun trans => trans a).getD transIllegal)
      (fun ok _ s' => Tries self C s
        (straightAfter H self.cfg (cpuOf self C s) (.atomic insn a)) ok s') n s := by
  unfold straightAfter
  dsimp only
  cases htrans : transAtomic self insn with
  | none =>
    rw [transAtomic_none htrans, Option.map_none, Option.map_none, ite_self]
    exact does_pure ⟨rfl, rfl⟩
  | some t =>
    obtain ⟨g, hg, hform⟩ := form_of_transAtomic htrans a
    obtain ⟨h, hafter, hdoes⟩ := does_of_form hself hform
    have hcpu : afterAtomic insn a (cpuOf self C s).hart = some h := hafter
    rw [hcpu, Option.map_some, Option.map_some, Option.getD_some, hg]
    cases hext : self.cfg.misa.contains .A with
    | false =>
      have hnot : ¬self.cfg.misa.contains .A = true := by
        rw [hext]
        exact Bool.false_ne_true
      rw [RiscvDisasContext.requireExt, if_neg hnot, if_neg Bool.false_ne_true]
      exact does_pure ⟨rfl, rfl⟩
    | true =>
      rw [if_pos rfl, RiscvDisasContext.requireExt, if_pos hext]
      exact does_tries hself (isTidy_of_form hform) hdoes

theorem does_csr (hself : Globals self C) (access : CsrAccess) (immediate : Bool) (a : ArgsCsr) :
    Does (guestEffects rest) C (transCsr self access immediate a)
      (fun ok _ s' => Tries self C s
        (straightAfter H self.cfg (cpuOf self C s) (.csr access immediate a)) ok s') n s := by
  unfold straightAfter
  dsimp only
  cases hext : self.cfg.extZicsr with
  | false =>
    rw [transCsr_without hext, if_neg Bool.false_ne_true]
    exact does_pure ⟨rfl, rfl⟩
  | true =>
    rw [if_pos rfl]
    exact does_transCsr hself hext access immediate a

/-- The steps in the state in which the program counter has not been written yet. -/
theorem goOn_eq (c : Cpu) (insn : GuestInsn) :
    ((straightAfter H self.cfg (Cpu.setPc c self.base.pcNext) insn).map fun c' =>
      (Cpu.setPc c' ((Cpu.setPc c self.base.pcNext).hart.pc + BitVec.ofNat 64 self.curInsnLen),
        (none : Option Nat))) =
      (straightAfter H self.cfg c insn).map fun c' => (Cpu.setPc c' self.link, none) := by
  rw [straightAfter_setPc, Option.map_map]
  rfl

theorem settles_int (hself : Globals self C) (hnext : self.base.isJmp = .next) (insn : Insn)
    (o : Operands) (hlabels : LabelsBelow b.nbLabels b.ops) {r : Bool × DisasJumpType}
    (hrun : ((GuestInsn.int insn o).trans self T).run b = (r, b')) (hC : b'.ctx.Extends C) :
    Settles (guestEffects rest) self C b b' s r (GuestInsn.execute H self.cfg self.curInsnLen
      (Cpu.setPc (cpuOf self C s) self.base.pcNext) (.int insn o)) := by
  unfold GuestInsn.execute
  dsimp only
  have hrun' : ((transInt self insn o).getD (straight self transIllegal)).run b = (r, b') := hrun
  cases htrans : transInt self insn o with
  | none =>
    rw [htrans] at hrun'
    rw [execute_none htrans, Option.map_none, ite_self]
    exact settles_refused hnext hrun' hC
  | some g =>
    rw [htrans, Option.getD_some] at hrun'
    by_cases hmul : (insn = .mul ∨ insn = .mulw) ∧ self.cfg.misa.contains .M = false
    · rw [if_pos hmul]
      rw [transInt_without htrans hmul.1 hmul.2] at hrun'
      exact settles_refused hnext hrun' hC
    have hext : insn = .mul ∨ insn = .mulw → self.cfg.misa.contains .M = true :=
      fun hinsn => Bool.not_eq_false _ ▸ fun hfalse => hmul ⟨hinsn, hfalse⟩
    have hb' : (g.run b).2 = b' := by rw [hrun']
    have hform := form_of_transInt htrans
    have hok := ok_of_form hself hform hext hlabels (hb' ▸ hC)
    rw [hrun'] at hok
    obtain ⟨ok, jmp⟩ := r
    have htrue : ok = true := hok
    subst htrue
    obtain ⟨h, hexec, s', -, hmatch⟩ :=
      matches_of_form hself hform hlabels hrun' hC
    have hexec' : (Cpu.setPc (cpuOf self C s) self.base.pcNext).hart.execute self.curInsnLen insn o =
        some h := hexec
    rw [if_neg hmul, hexec']
    refine ⟨rfl, ?_⟩
    split at hmatch
    · obtain ⟨rfl, hcpu, slot, hslot, hexits⟩ := hmatch
      have hsame : ({ Cpu.setPc (cpuOf self C s) self.base.pcNext with hart := h } : Cpu) =
          cpuOf self C s' := hcpu.symm
      dsimp only
      rw [hsame]
      exact .leaves hslot hexits
    · obtain ⟨rfl, hpc, hcpu, hreach⟩ := hmatch
      dsimp only
      rw [hnext]
      refine .on ?_ hreach
      rw [hcpu, ← hpc]
      rfl

theorem settles_fp (hself : Globals self C) (hnext : self.base.isJmp = .next) (insn : FpInsn)
    (hlabels : LabelsBelow b.nbLabels b.ops) {r : Bool × DisasJumpType}
    (hrun : ((GuestInsn.fp insn).trans self T).run b = (r, b')) (hC : b'.ctx.Extends C) :
    Settles (guestEffects (fpuEffects H T rest)) self C b b' s r
      (GuestInsn.execute H self.cfg self.curInsnLen
        (Cpu.setPc (cpuOf self C s) self.base.pcNext) (.fp insn)) := by
  have hrun' : (straight self (insn.trans self T)).run b = (r, b') := hrun
  unfold GuestInsn.execute
  dsimp only
  rw [goOn_eq]
  by_cases hext : self.cfg.misa.contains (FpInsn.ext insn) = true
  case neg =>
    have htrans : insn.trans self T = pure false := by
      rw [trans_eq, RiscvDisasContext.genFpInsn, RiscvDisasContext.requireExt, if_neg hext]
    rw [htrans] at hrun'
    rw [if_neg fun h => hext h.1, straightAfter, if_neg hext]
    exact settles_refused hnext hrun' hC
  obtain ⟨hg, hjmp⟩ := straight_run hrun'
  have hb' : ((insn.trans self T).run b).2 = b' := by rw [hg]
  obtain ⟨hok, hon, hoff⟩ := fpInsn_spec (H := H) rest hself insn hext hlabels (hb' ▸ hC) s
  have hok' : r.1 = true := by rw [← hok, hg]
  rw [hb'] at hon hoff
  by_cases hfs : fsOf (cpuOf self C s) = 0
  · obtain ⟨s', -, hcpu, hexits⟩ := hoff hfs
    rw [if_pos ⟨hext, hfs⟩, ← hcpu]
    exact ⟨hok', .traps (by decide) hexits⟩
  · obtain ⟨s', hcpu, hreach⟩ := hon hfs
    rw [if_neg fun h => hfs h.2, straightAfter, if_pos hext, Option.map_some, ← hcpu]
    refine ⟨hok', ?_⟩
    rw [hjmp, hnext]
    exact .on rfl hreach

theorem settles_trap (hself : Globals self C) {code : Nat} (hcode : code < 2 ^ 32)
    (hslot : TB_EXIT_NOCHAIN < code) (hlabels : LabelsBelow b.nbLabels b.ops)
    {r : Bool × DisasJumpType}     (hrun : (self.genTrap code).run b = (r, b')) (hC : b'.ctx.Extends C) :
    Settles (guestEffects rest) self C b b' s r
      (some (Cpu.setPc (cpuOf self C s) self.base.pcNext, some code)) := by
  have hb' : ((self.genTrap code).run b).2 = b' := by rw [hrun]
  obtain ⟨exit, s', ⟨hr, rfl, -, hcpu⟩, hexits⟩ :=
    quits_genTrap hself hcode b rfl hlabels (hb' ▸ hC)
  rw [hrun] at hr
  rw [hb'] at hexits
  have hr' : r = (true, .noReturn) := hr
  rw [hr', ← hcpu]
  exact ⟨rfl, .traps hslot hexits⟩

/-- The code of every instruction, from any state. -/
theorem settles_trans (hself : Globals self C) (hnext : self.base.isJmp = .next) (insn : GuestInsn)
    (hlabels : LabelsBelow b.nbLabels b.ops) {r : Bool × DisasJumpType}
    (hrun : (insn.trans self T).run b = (r, b')) (hC : b'.ctx.Extends C) :
    Settles (guestEffects (fpuEffects H T rest)) self C b b' s r
      (GuestInsn.execute H self.cfg self.curInsnLen
        (Cpu.setPc (cpuOf self C s) self.base.pcNext) insn) := by
  cases insn with
  | int insn o => exact settles_int hself hnext insn o hlabels hrun hC
  | fp insn => exact settles_fp hself hnext insn hlabels hrun hC
  | ecall => exact settles_trap hself (by decide) (by decide) hlabels hrun hC
  | ebreak => exact settles_trap hself (by decide) (by decide) hlabels hrun hC
  | mulDiv insn a =>
    unfold GuestInsn.execute
    dsimp only
    rw [goOn_eq]
    exact settles_of_tries hnext (does_mulDiv hself insn a) hrun hC
  | atomic insn a =>
    unfold GuestInsn.execute
    dsimp only
    rw [goOn_eq]
    exact settles_of_tries hnext (does_atomic hself insn a) hrun hC
  | csr access immediate a =>
    unfold GuestInsn.execute
    dsimp only
    rw [goOn_eq]
    exact settles_of_tries hnext (does_csr hself access immediate a) hrun hC
  | fence =>
    unfold GuestInsn.execute
    dsimp only
    rw [goOn_eq]
    have htries : Does (guestEffects (fpuEffects H T rest)) C RiscvDisasContext.transFence
        (fun ok _ s' => Tries self C s (straightAfter H self.cfg (cpuOf self C s) .fence) ok s')
        b.ctx.nbTemps s := does_pure ⟨rfl, rfl⟩
    exact settles_of_tries hnext htries hrun hC
  | illegal => exact settles_refused hnext hrun hC

end TcgRs.Analysis.GuestSteps
