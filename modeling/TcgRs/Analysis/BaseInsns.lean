import TcgRs.Analysis.IntCode

/-!
# Base instructions match the specification

Every instruction of RV64I, with any operands, takes the hart to the state the specification gives,
with the next program counter, and nothing else changes.
-/

set_option autoImplicit false

namespace TcgRs.Analysis.BaseInsns

open TcgRs.Model TcgRs.Model.Ir TcgRs.Model.Riscv TcgRs.Interface.Ir TcgRs.Interface.RiscvExec
open TcgRs.Interface.RiscvIsa
open GeneratedCode GeneratedControl GeneratedExits GuestCode FpCode IntCode TidyCode TidyInsns

variable {self : RiscvDisasContext} {C : Context} {rest : Effects Guest} {n : Nat} {s : State Guest}

/-! ## Forms -/

section
variable {insn : Insn} {o : Operands} {h : Hart} {len : Nat}

/-- The forms of the instructions that are translated by a function of their own encoding. -/
inductive Form (self : RiscvDisasContext) (insn : Insn) (o : Operands) :
    Gen (Bool × DisasJumpType) → Prop
  | upper (himm : insn = .lui ∨ insn = .auipc) (v : BitVec 64)
      (hv : v = if insn = .lui then o.imm else self.base.pcNext + o.imm) : Form self insn o
        (straight self do
          let c ← newConst .i64 v
          self.genSetGpr o.rd c
          return true)
  | jal (hinsn : insn = .jal) : Form self insn o (self.transJal ⟨o.imm, o.rd⟩)
  | jalr (hinsn : insn = .jalr) : Form self insn o (self.transJalr ⟨o.imm, o.rs1, o.rd⟩)
  | alu {trans : Gen Bool} {value : BitVec 64 → BitVec 64 → BitVec 64}
      (hvalue : aluValue insn = some value)
      (htrans : (∃ t, transR self insn = some t ∧ trans = t ⟨o.rd, o.rs1, o.rs2⟩ ∧
          hasImmediate insn = false) ∨
        (∃ t, transI self insn = some t ∧ trans = t ⟨o.imm, o.rs1, o.rd⟩ ∧
          hasImmediate insn = true) ∨
        ∃ t, transShift self insn = some t ∧ trans = t ⟨o.imm, o.rs1, o.rd⟩ ∧
          hasImmediate insn = true) : Form self insn o (straight self trans)
  | load {t : ArgsI → Gen Bool} {size : Nat × Bool} (hsize : loadSize insn = some size)
      (htrans : transI self insn = some t) :
      Form self insn o (straight self (t ⟨o.imm, o.rs1, o.rd⟩))
  | store {t : ArgsS → Gen Bool} {size : Nat} (hsize : storeSize insn = some size)
      (htrans : transS self insn = some t) :
      Form self insn o (straight self (t ⟨o.imm, o.rs1, o.rs2⟩))
  | branch {t : ArgsB → Gen (Bool × DisasJumpType)} {taken : BitVec 64 → BitVec 64 → Bool}
      (htaken : branchTaken insn = some taken) (htrans : transB self insn = some t) :
      Form self insn o (t ⟨o.imm, o.rs2, o.rs1⟩)

theorem form_of_transInt {g : Gen (Bool × DisasJumpType)} (h : transInt self insn o = some g) :
    Form self insn o g := by
  cases insn <;> cases h
  case lui => exact .upper (.inl rfl) _ rfl
  case auipc => exact .upper (.inr rfl) _ rfl
  case jal => exact .jal rfl
  case jalr => exact .jalr rfl
  all_goals first
    | exact .alu rfl (.inl ⟨_, rfl, rfl, rfl⟩)
    | exact .alu rfl (.inr (.inl ⟨_, rfl, rfl, rfl⟩))
    | exact .alu rfl (.inr (.inr ⟨_, rfl, rfl, rfl⟩))
    | exact .load rfl rfl
    | exact .store rfl rfl
    | exact .branch rfl rfl

theorem execute_alu {value : BitVec 64 → BitVec 64 → BitVec 64} (hvalue : aluValue insn = some value) :
    h.execute len insn o = some { h.setReg o.rd (value (h.x o.rs1)
      (if hasImmediate insn then o.imm else h.x o.rs2)) with pc := h.pc + BitVec.ofNat 64 len } := by
  cases insn <;> cases hvalue <;> rfl

theorem execute_load {size : Nat × Bool} (hsize : loadSize insn = some size) :
    h.execute len insn o = some { h.setReg o.rd (extended size.2 size.1
      (littleEndian h.mem (h.x o.rs1 + o.imm) size.1)) with pc := h.pc + BitVec.ofNat 64 len } := by
  cases insn <;> cases hsize <;> rfl

theorem execute_store {size : Nat} (hsize : storeSize insn = some size) :
    h.execute len insn o = some { h with mem := stored h.mem (h.x o.rs1 + o.imm) size (h.x o.rs2),
                                         pc := h.pc + BitVec.ofNat 64 len } := by
  cases insn <;> cases hsize <;> rfl

theorem execute_branch {taken : BitVec 64 → BitVec 64 → Bool}
    (htaken : branchTaken insn = some taken) :
    h.execute len insn o = some { h with
      pc := if taken (h.x o.rs1) (h.x o.rs2) then h.pc + o.imm else h.pc + BitVec.ofNat 64 len } := by
  cases insn <;> cases htaken <;> rfl

theorem execute_jal : h.execute len .jal o =
    some { h.setReg o.rd (h.pc + BitVec.ofNat 64 len) with pc := h.pc + o.imm } := rfl

theorem execute_jalr : h.execute len .jalr o =
    some { h.setReg o.rd (h.pc + BitVec.ofNat 64 len) with
      pc := (h.x o.rs1 + o.imm) &&& ~~~1 } := rfl

end

/-! ## Straight code -/

/-- From `s` the code of `g` leads behind itself, to a hart `h` up to the program counter, with only the
memory and the registers of the CPU changed. -/
def Falls (self : RiscvDisasContext) (C : Context) (s : State Guest) (h : Hart) (s' : State Guest) :
    Prop :=
  s'.world = { s.world with mem := h.mem } ∧
    cpuOf self C s' = { cpuOf self C s with hart := { h with pc := (hartOf self C s).pc } }

theorem cpuOf_of_hart {s' : State Guest} {h : Hart} (hworld : s'.world.host = s.world.host)
    (henv : val C s' self.env = val C s self.env) (hhart : hartOf self C s' = h) :
    cpuOf self C s' = { cpuOf self C s with hart := h } := by
  unfold cpuOf
  rw [hhart, hworld]
  unfold val at henv
  rw [henv]

/-- A translation that leaves a value in rd. -/
theorem falls_of_leaves (hself : Globals self C) {g : Gen Bool} (htidy : IsTidy self g)
    {b b' : Builder} {rd : Fin 32} {v pc : BitVec 64}
    (h : Does (guestEffects rest) C g (Leaves self C s rd v) b.ctx.nbTemps s)
    (hrun : g.run b = (true, b')) (hC : b'.ctx.Extends C) :
    ∃ s', Falls self C s { (hartOf self C s).setReg rd v with pc := pc } s' ∧
      ∀ back, Reaches (guestEffects rest) C (b'.ops ++ back) b.ops.length s b'.ops.length s' := by
  obtain ⟨s', hs', ⟨-, hworld, hhart⟩, henv⟩ := (does_env hself htidy h).interprets hrun hC
  have hgrow : b.Extends b' := by
    have hext := g.extends_run b
    rw [hrun] at hext
    exact hext
  refine ⟨s', ⟨hworld, ?_⟩, fun back => ?_⟩
  · rw [cpuOf_of_hart (congrArg Guest.host hworld) henv hhart]
    rfl
  · rw [ops_eq hgrow, List.length_append, List.append_assoc]
    exact reaches_of_interprets hs' b.ops back

theorem falls_of_stores (hself : Globals self C) {g : Gen Bool} (htidy : IsTidy self g)
    {b b' : Builder} {mem : GuestMemory} {pc : BitVec 64}
    (h : Does (guestEffects rest) C g (Stores self C s mem) b.ctx.nbTemps s)
    (hrun : g.run b = (true, b')) (hC : b'.ctx.Extends C) :
    ∃ s', Falls self C s { hartOf self C s with mem := mem, pc := pc } s' ∧
      ∀ back, Reaches (guestEffects rest) C (b'.ops ++ back) b.ops.length s b'.ops.length s' := by
  obtain ⟨s', hs', ⟨-, hworld, hhart⟩, henv⟩ := (does_env hself htidy h).interprets hrun hC
  have hgrow : b.Extends b' := by
    have hext := g.extends_run b
    rw [hrun] at hext
    exact hext
  refine ⟨s', ⟨hworld, ?_⟩, fun back => ?_⟩
  · have hhost : s'.world.host = s.world.host := by rw [hworld]
    rw [cpuOf_of_hart hhost henv hhart]
  · rw [ops_eq hgrow, List.length_append, List.append_assoc]
    exact reaches_of_interprets hs' b.ops back

theorem straight_run {g : Gen Bool} {ok : Bool} {jmp : DisasJumpType} {b b' : Builder}
    (h : (straight self g).run b = ((ok, jmp), b')) :
    g.run b = (ok, b') ∧ jmp = self.base.isJmp := by
  have hrun : (straight self g).run b = (((g.run b).1, self.base.isJmp), (g.run b).2) := rfl
  rw [hrun, Prod.mk.injEq, Prod.mk.injEq] at h
  exact ⟨Prod.ext h.1.1 h.2, h.1.2.symm⟩

/-! ## Tidy code of the tables -/

section
variable {insn : Insn}

theorem isTidy_transR {t : ArgsR → Gen Bool}
    (h : transR self insn = some t) (a : ArgsR) : IsTidy self (t a) := by
  cases insn <;> cases h
  case mul => exact isTidy_requireExt (isTidy_genArith (f := fun _ x y => x * y) rfl a)
  case mulw => exact isTidy_requireExt (isTidy_genArithW (f := fun _ x y => x * y) rfl a)
  case slt | sltu => exact isTidy_genSetcondRr a _
  case addw => exact isTidy_genArithW (f := fun _ x y => x + y) rfl a
  case subw => exact isTidy_genArithW (f := fun _ x y => x - y) rfl a
  case sllw => exact isTidy_genShiftw (f := fun n x y => x <<< (y.toNat % n)) rfl a
  case srlw => exact isTidy_genShiftw (f := fun n x y => x >>> (y.toNat % n)) rfl a
  case sraw => exact isTidy_genShiftw (f := fun n x y => x.sshiftRight (y.toNat % n)) rfl a
  case add => exact isTidy_genArith (f := fun _ x y => x + y) rfl a
  case sub => exact isTidy_genArith (f := fun _ x y => x - y) rfl a
  case sll => exact isTidy_genArith (f := fun n x y => x <<< (y.toNat % n)) rfl a
  case srl => exact isTidy_genArith (f := fun n x y => x >>> (y.toNat % n)) rfl a
  case sra => exact isTidy_genArith (f := fun n x y => x.sshiftRight (y.toNat % n)) rfl a
  case xor => exact isTidy_genArith (f := fun _ x y => x ^^^ y) rfl a
  case or => exact isTidy_genArith (f := fun _ x y => x ||| y) rfl a
  case and => exact isTidy_genArith (f := fun _ x y => x &&& y) rfl a

theorem isTidy_transI {t : ArgsI → Gen Bool}
    (h : transI self insn = some t) (a : ArgsI) : IsTidy self (t a) := by
  cases insn <;> cases h
  case slti | sltiu => exact isTidy_genSetcondImm a _
  case addiw => exact isTidy_genArithImmW (f := fun _ x y => x + y) rfl a
  case addi => exact isTidy_genArithImm (f := fun _ x y => x + y) rfl a
  case xori => exact isTidy_genArithImm (f := fun _ x y => x ^^^ y) rfl a
  case ori => exact isTidy_genArithImm (f := fun _ x y => x ||| y) rfl a
  case andi => exact isTidy_genArithImm (f := fun _ x y => x &&& y) rfl a
  all_goals exact isTidy_genLoad a _

theorem isTidy_transShift {t : ArgsShift → Gen Bool}
    (h : transShift self insn = some t) (a : ArgsShift) : IsTidy self (t a) := by
  cases insn <;> cases h
  case slli => exact isTidy_genShiftImm (f := fun n x y => x <<< (y.toNat % n)) rfl a
  case srli => exact isTidy_genShiftImm (f := fun n x y => x >>> (y.toNat % n)) rfl a
  case srai => exact isTidy_genShiftImm (f := fun n x y => x.sshiftRight (y.toNat % n)) rfl a
  case slliw => exact isTidy_genShiftImmW (f := fun n x y => x <<< (y.toNat % n)) rfl a
  case srliw => exact isTidy_genShiftImmW (f := fun n x y => x >>> (y.toNat % n)) rfl a
  case sraiw => exact isTidy_genShiftImmW (f := fun n x y => x.sshiftRight (y.toNat % n)) rfl a

theorem isTidy_transS {t : ArgsS → Gen Bool}
    (h : transS self insn = some t) (a : ArgsS) : IsTidy self (t a) := by
  cases insn <;> cases h
  all_goals exact isTidy_genStore a _

theorem isTidy_upper (rd : Fin 32) (v : BitVec 64) :
    IsTidy self (do let c ← newConst .i64 v; self.genSetGpr rd c; return true) :=
  fun _ _ _ => tidies_bind (tidies_newConst fun _ hc _ => tidies_result (.inl hc))

/-- A multiplication found its extension. -/
theorem ext_of_transR {t : ArgsR → Gen Bool} (h : transR self insn = some t) {a : ArgsR}
    {b b' : Builder} (hrun : (t a).run b = (true, b')) :
    insn = .mul ∨ insn = .mulw → self.cfg.misa.contains .M = true := by
  rintro (rfl | rfl) <;> cases h <;> exact ext_of_run hrun

end

/-! ## The instructions -/

/-- The instructions that end a block. -/
def endsBlock : Insn → Bool
  | .jal | .jalr | .beq | .bne | .blt | .bge | .bltu | .bgeu => true
  | _ => false

/-- What the code of an instruction does: the hart is the one of the specification.  A jump or branch
leaves the block, with the next program counter; the other instructions go on behind their code. -/
def Matches (E : Effects Guest) (self : RiscvDisasContext) (C : Context) (insn : Insn) (h : Hart)
    (jmp : DisasJumpType) (b b' : Builder) (s : State Guest) : Prop :=
  ∃ s', s'.world = { s.world with mem := h.mem } ∧
    if endsBlock insn then
      jmp = .noReturn ∧ cpuOf self C s' = { cpuOf self C s with hart := h } ∧
        ∃ slot ≤ TB_EXIT_NOCHAIN, ∀ back,
          Exits E C (b'.ops ++ back) b.ops.length s (.exitTb slot) s'
    else
      jmp = self.base.isJmp ∧ h.pc = self.link ∧
        cpuOf self C s' = { cpuOf self C s with hart := { h with pc := (hartOf self C s).pc } } ∧
        ∀ back, Reaches E C (b'.ops ++ back) b.ops.length s b'.ops.length s'

theorem matches_of_falls {insn : Insn} {h : Hart} {jmp : DisasJumpType} {b b' : Builder}
    {E : Effects Guest} (hends : endsBlock insn = false) (hjmp : jmp = self.base.isJmp)
    (hpc : h.pc = self.link)
    (hfalls : ∃ s', Falls self C s h s' ∧
      ∀ back, Reaches E C (b'.ops ++ back) b.ops.length s b'.ops.length s') :
    Matches E self C insn h jmp b b' s := by
  obtain ⟨s', ⟨hworld, hcpu⟩, hreach⟩ := hfalls
  refine ⟨s', hworld, ?_⟩
  rw [if_neg (by rw [hends]; exact Bool.false_ne_true)]
  exact ⟨hjmp, hpc, hcpu, hreach⟩

theorem matches_of_quits {insn : Insn} {h : Hart} {jmp : DisasJumpType} {b b' : Builder}
    {E : Effects Guest} (hends : endsBlock insn = true) (hmem : h.mem = (hartOf self C s).mem)
    {g : Gen (Bool × DisasJumpType)} (hquits : Quits E C g (Jumps self C s h) b.ctx.nbTemps s)
    (hlabels : LabelsBelow b.nbLabels b.ops) (hrun : g.run b = ((true, jmp), b'))
    (hC : b'.ctx.Extends C) : Matches E self C insn h jmp b b' s := by
  have hb' : (g.run b).2 = b' := by rw [hrun]
  obtain ⟨exit, s', ⟨hr, ⟨slot, hslot, rfl⟩, hworld, hcpu⟩, hexits⟩ :=
    hquits b rfl hlabels (hb'.symm ▸ hC)
  rw [hrun] at hr
  rw [hb'] at hexits
  refine ⟨s', ?_, ?_⟩
  · rw [hworld, hmem]
    rfl
  · rw [if_pos hends]
    exact ⟨(Prod.mk.inj hr).2, hcpu, slot, hslot, hexits⟩

/-- Every translated instruction matches the specification, from any state. -/
theorem matches_of_form (hself : Globals self C) {insn : Insn} {o : Operands}
    {g : Gen (Bool × DisasJumpType)} (hform : Form self insn o g) {jmp : DisasJumpType}
    {b b' : Builder} (hlabels : LabelsBelow b.nbLabels b.ops) (hrun : g.run b = ((true, jmp), b'))
    (hC : b'.ctx.Extends C) :
    ∃ h, { hartOf self C s with pc := self.base.pcNext }.execute self.curInsnLen insn o = some h ∧
      Matches (guestEffects rest) self C insn h jmp b b' s := by
  cases hform with
  | upper himm v hv =>
    obtain ⟨hrun, hjmp⟩ := straight_run hrun
    have hends : endsBlock insn = false := by rcases himm with rfl | rfl <;> rfl
    have hexec : { hartOf self C s with pc := self.base.pcNext }.execute self.curInsnLen insn o =
        some { (hartOf self C s).setReg o.rd v with pc := self.link } := by
      rw [hv]
      rcases himm with rfl | rfl <;> rfl
    refine ⟨_, hexec, matches_of_falls hends hjmp rfl ?_⟩
    refine falls_of_leaves hself (isTidy_upper o.rd v) ?_ hrun hC
    exact does_bind (does_newConst fun c n1 _ hc => does_result hself rfl rfl (hc.val s))
  | jal hinsn =>
    subst hinsn
    exact ⟨_, execute_jal, matches_of_quits rfl rfl (quits_transJal hself ⟨o.imm, o.rd⟩) hlabels hrun hC⟩
  | jalr hinsn =>
    subst hinsn
    exact ⟨_, execute_jalr,
      matches_of_quits rfl rfl (quits_transJalr hself ⟨o.imm, o.rs1, o.rd⟩) hlabels hrun hC⟩
  | @alu trans value hvalue htrans =>
    obtain ⟨hrun, hjmp⟩ := straight_run hrun
    have hends : endsBlock insn = false := by cases insn <;> cases hvalue <;> rfl
    refine ⟨_, execute_alu hvalue, matches_of_falls hends hjmp rfl ?_⟩
    obtain ⟨t, ht, rfl, himm⟩ | ⟨t, ht, rfl, himm⟩ | ⟨t, ht, rfl, himm⟩ := htrans
    · rw [himm]
      exact falls_of_leaves hself (isTidy_transR ht _)
        (does_transR hself ht hvalue (ext_of_transR ht hrun) _) hrun hC
    · rw [himm]
      exact falls_of_leaves hself (isTidy_transI ht _) (does_transI hself ht hvalue _) hrun hC
    · rw [himm]
      exact falls_of_leaves hself (isTidy_transShift ht _) (does_transShift hself ht hvalue _)
        hrun hC
  | @load t size hsize htrans =>
    obtain ⟨hrun, hjmp⟩ := straight_run hrun
    have hends : endsBlock insn = false := by cases insn <;> cases hsize <;> rfl
    refine ⟨_, execute_load hsize, matches_of_falls hends hjmp rfl ?_⟩
    exact falls_of_leaves hself (isTidy_transI htrans _) (IntCode.does_load hself htrans hsize _)
      hrun hC
  | @store t size hsize htrans =>
    obtain ⟨hrun, hjmp⟩ := straight_run hrun
    have hends : endsBlock insn = false := by cases insn <;> cases hsize <;> rfl
    refine ⟨_, execute_store hsize, matches_of_falls hends hjmp rfl ?_⟩
    have hdoes : Does (guestEffects rest) C (t ⟨o.imm, o.rs1, o.rs2⟩) (Stores self C s
        (stored (hartOf self C s).mem ((hartOf self C s).x o.rs1 + o.imm) size
          ((hartOf self C s).x o.rs2))) b.ctx.nbTemps s :=
      IntCode.does_store hself htrans hsize ⟨o.imm, o.rs1, o.rs2⟩
    exact falls_of_stores hself (isTidy_transS htrans _) hdoes hrun hC
  | @branch t taken htaken htrans =>
    have hends : endsBlock insn = true := by cases insn <;> cases htaken <;> rfl
    exact ⟨_, execute_branch htaken,
      matches_of_quits hends rfl (quits_transB hself htrans htaken _) hlabels hrun hC⟩

/-- The code that a block has for an instruction takes its hart to the one of the specification, with
the next program counter, and changes nothing else. -/
theorem rv64i_matches {dc : RiscvDisasContext} {b₀ b b' : Builder} {insn : Insn} {o : Operands}
    {g : Gen (Bool × DisasJumpType)} {jmp : DisasJumpType}
    (hinit : initDisasContext dc .new = some (self, b₀)) (hb : b₀.Extends b)
    (hlabels : LabelsBelow b.nbLabels b.ops) (htrans : transInt self insn o = some g)
    (hrun : g.run b = ((true, jmp), b')) (hC : b'.ctx.Extends C) (rest : Effects Guest)
    (s : State Guest) :
    ∃ h, { hartOf self C s with pc := self.base.pcNext }.execute self.curInsnLen insn o = some h ∧
      Matches (guestEffects rest) self C insn h jmp b b' s :=
  matches_of_form (globals_of_run hinit hb hrun hC) (form_of_transInt htrans) hlabels hrun hC

/-- `jalr x1, 3(x1)`, in a fresh block. -/
theorem rv64i_matches_jalr : ∃ self b₀ b' h,
    initDisasContext allExtensions .new = some (self, b₀) ∧
      (self.transJalr ⟨3, 1, 1⟩).run b₀ = ((true, .noReturn), b') ∧
      { hartOf self b'.ctx blankState with pc := self.base.pcNext }.execute self.curInsnLen .jalr
        ⟨1, 1, 0, 3⟩ = some h ∧
      Matches (guestEffects noEffects) self b'.ctx .jalr h .noReturn b₀ b' blankState := by
  have h : ((initDisasContext allExtensions .new).any fun p => p.2.ops.isEmpty &&
      decide (((p.1.transJalr ⟨3, 1, 1⟩).run p.2).1 = (true, .noReturn))) = true := by decide
  rw [Option.any_eq_true] at h
  obtain ⟨⟨self, b₀⟩, hinit, hcheck⟩ := h
  rw [Bool.and_eq_true, List.isEmpty_iff, decide_eq_true_eq] at hcheck
  have hrun : (self.transJalr ⟨3, 1, 1⟩).run b₀ =
      ((true, .noReturn), ((self.transJalr ⟨3, 1, 1⟩).run b₀).2) := Prod.ext hcheck.2 rfl
  have htrans : transInt self .jalr ⟨1, 1, 0, 3⟩ = some (self.transJalr ⟨3, 1, 1⟩) := rfl
  have hlabels : LabelsBelow b₀.nbLabels b₀.ops := by
    rw [hcheck.1]
    exact fun _ hop => (by cases hop)
  obtain ⟨h, hexec, hmatches⟩ := rv64i_matches hinit (.refl b₀) hlabels htrans hrun (.refl _)
    noEffects blankState
  exact ⟨self, b₀, _, h, hinit, hrun, hexec, hmatches⟩

end TcgRs.Analysis.BaseInsns
