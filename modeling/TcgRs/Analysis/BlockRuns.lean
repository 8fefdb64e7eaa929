import TcgRs.Analysis.GuestBlocks

/-!
# Runs of blocks

Blocks that are translated where the last one has left the CPU, and run one after the other, trap
exactly where the guest program does.
-/

set_option autoImplicit false

namespace TcgRs.Analysis.BlockRuns

open TcgRs.Library
open TcgRs.Model TcgRs.Model.Ir TcgRs.Model.Riscv TcgRs.Interface.Ir TcgRs.Interface.RiscvExec
open GeneratedCode GeneratedControl GeneratedExits GuestCode CpuFields FpCode BlockShape GuestSteps GuestBlocks

/-- One block: translated for the pc of the CPU, in a context between blocks, and run to its exit. -/
inductive BlockStep (I : InsnSet) (T : HelperTable) (H : HostFloat) (cfg : RiscvCfg) (code : GuestCode)
    (rest : Effects Guest) (c : Cpu) : Cpu × Option Nat → Prop
  | run {b b' : Builder} {dc : RiscvDisasContext} {C : Context} {maxInsns size : BitVec 32}
      {fuel val : Nat} {s s' : State Guest} (hb : BetweenBlocks b) (hops : b.ops = [])
      (htrans : genCode (I.decoder T) code cfg c.hart.pc maxInsns fuel b = some (size, dc, b'))
      (hC : b'.ctx.Extends C) (hstart : cpuOf dc C s = c)
      (hexits : Exits (guestEffects (fpuEffects H T rest)) C b'.ops 0 s (.exitTb val) s') :
      BlockStep I T H cfg code rest c (cpuOf dc C s', trapOf val)

/-- Blocks one after the other; only the last one may trap. -/
inductive BlockRun (I : InsnSet) (T : HelperTable) (H : HostFloat) (cfg : RiscvCfg) (code : GuestCode)
    (rest : Effects Guest) : Nat → Cpu → Cpu × Option Nat → Prop
  | nil (c : Cpu) : BlockRun I T H cfg code rest 0 c (c, none)
  | cons {k : Nat} {c c' : Cpu} {r : Cpu × Option Nat}
      (h : BlockStep I T H cfg code rest c (c', none))
      (later : BlockRun I T H cfg code rest k c' r) : BlockRun I T H cfg code rest (k + 1) c r
  | trap {c c' : Cpu} {x : Nat} (h : BlockStep I T H cfg code rest c (c', some x)) :
      BlockRun I T H cfg code rest 1 c (c', some x)

variable {I : InsnSet} {T : HelperTable} {H : HostFloat} {cfg : RiscvCfg} {code : GuestCode}
  {rest : Effects Guest} {c : Cpu} {r : Cpu × Option Nat}

/-! ## One instruction -/

/-- The code that a block has for an instruction, wherever the instruction is in the block, does the step
of the machine: it goes on behind the instruction, or leaves the block, with the exception if the
machine traps. -/
theorem insn_takes_step {dc self dc' : RiscvDisasContext} {C : Context} {b₀ b b' : Builder}
    (hinit : initDisasContext dc .new = some (self, b₀)) (hnext : self.base.isJmp = .next)
    (hb : b₀.Extends b) (hlabels : LabelsBelow b.nbLabels b.ops)
    (hrun : (translateInsn (I.decoder T) code self).run b = (dc', b')) (hC : b'.ctx.Extends C)
    (H : HostFloat) (rest : Effects Guest) (s : State Guest) :
    (dc'.base.isJmp = .next ∧ ∃ s',
      I.step H self.cfg code (Cpu.setPc (cpuOf self C s) self.base.pcNext) =
        (Cpu.setPc (cpuOf self C s') dc'.base.pcNext, none) ∧
      Reaches (guestEffects (fpuEffects H T rest)) C b'.ops b.ops.length s b'.ops.length s') ∨
    ∃ s' val, I.step H self.cfg code (Cpu.setPc (cpuOf self C s) self.base.pcNext) =
        (cpuOf self C s', trapOf val) ∧
      Exits (guestEffects (fpuEffects H T rest)) C b'.ops b.ops.length s (.exitTb val) s' := by
  have hself : Globals self C := globals_of_run hinit hb hrun hC
  obtain ⟨len, hinsn, -, hstep⟩ := translateInsn_run I T code self b
  have hsame : SameTemps self (self.setCurInsnLen len) := ⟨rfl, rfl, rfl, rfl, rfl, rfl⟩
  have hmachine : I.step H self.cfg code (Cpu.setPc (cpuOf self C s) self.base.pcNext) =
      GuestInsn.step H self.cfg len (Cpu.setPc (cpuOf self C s) self.base.pcNext)
        (I.insnAt self.cfg code self.base.pcNext) := (hstep H _).symm
  have hcode : dc' = ((self.setCurInsnLen len).setIsJmp dc'.base.isJmp).advance ∧
      Goes (guestEffects (fpuEffects H T rest)) (self.setCurInsnLen len) C b b' s dc'.base.isJmp
        (GuestInsn.step H self.cfg len (Cpu.setPc (cpuOf self C s) self.base.pcNext)
          (I.insnAt self.cfg code self.base.pcNext)) :=
    goes_insnCode (hsame.globals hself) hnext _ hlabels (hinsn.symm.trans hrun) hC s
  obtain ⟨hdc', hgoes⟩ := hcode
  have hlink : (self.setCurInsnLen len).link = dc'.base.pcNext := by rw [hdc']; rfl
  rw [← hmachine] at hgoes
  generalize I.step H self.cfg code _ = r at hgoes
  generalize dc'.base.isJmp = jmp at hgoes
  cases hgoes with
  | @on s' c hcpu hreach =>
    refine .inl ⟨rfl, s', ?_, ?_⟩
    · rw [← hcpu, hlink]
      rfl
    · have hend := hreach []
      rw [List.append_nil] at hend
      exact hend
  | @leaves s' slot hslot hexits =>
    have hexit := hexits []
    rw [List.append_nil] at hexit
    exact .inr ⟨s', slot, by rw [trapOf, if_pos hslot]; rfl, hexit⟩
  | @traps s' val _ hval hexits =>
    have hexit := hexits []
    rw [List.append_nil] at hexit
    exact .inr ⟨s', val, by rw [trapOf, if_neg (Nat.not_le_of_lt hval)]; rfl, hexit⟩

/-- An `ecall` at the start of a block leaves it with its exception. -/
theorem insn_takes_step_ecall : ∃ self b₀ dc' b' s',
    initDisasContext allExtensions .new = some (self, b₀) ∧
      (translateInsn (InsnSet.decoder ⟨fun _ => .illegal, fun _ => .ecall⟩ numberedHelpers)
        (fun _ => 3) self).run b₀ = (dc', b') ∧
      Exits (guestEffects (fpuEffects idleHost numberedHelpers GuestCode.noEffects)) b'.ctx b'.ops
        b₀.ops.length blankState (.exitTb EXCP_ECALL) s' := by
  obtain ⟨⟨self, b₀⟩, hinit, hreg⟩ := initDisasContext_some allExtensions (b := .new) rfl
  have hbase : self.base = ⟨0, 0, .next, 0, 512⟩ := hreg.base_eq
  have hlabels : LabelsBelow b₀.nbLabels b₀.ops := by
    rw [hreg.ops_eq]
    exact fun _ hop => (by cases hop)
  let I : InsnSet := ⟨fun _ => .illegal, fun _ => .ecall⟩
  let after := (translateInsn (I.decoder numberedHelpers) (fun _ => 3) self).run b₀
  obtain ⟨-, s', hstep, -⟩ | ⟨s', val, hstep, hexits⟩ := insn_takes_step hinit (by rw [hbase])
    (.refl b₀) hlabels
    (rfl : (translateInsn (I.decoder numberedHelpers) (fun _ => 3) self).run b₀ = after) (.refl _)
    idleHost GuestCode.noEffects blankState
  all_goals
    unfold InsnSet.step at hstep
    rw [insnAt_threes] at hstep
  · cases (Prod.mk.inj hstep).2
  · have htrap : some EXCP_ECALL = trapOf val := (Prod.mk.inj hstep).2
    unfold trapOf at htrap
    split at htrap
    · cases htrap
    · obtain rfl := Option.some.inj htrap
      exact ⟨self, b₀, after.1, after.2, s', hinit, rfl, hexits⟩

/-! ## Blocks run the program -/

/-- A block does some steps of the machine. -/
theorem trapRun_of_blockStep (h : BlockStep I T H cfg code rest c r) :
    ∃ n, 1 ≤ n ∧ TrapRun (I.step H cfg code) n c r := by
  obtain ⟨hb, hops, htrans, hC, hstart, hexits⟩ := h
  rename_i dc C maxInsns size fuel val s s'
  obtain ⟨n, s₁, val₁, hn, hrun, hexits₁⟩ := block_executes hb hops htrans hC H rest s
  obtain ⟨hexit, rfl⟩ := exits_unique hexits hexits₁
  obtain rfl : val = val₁ := Exit.exitTb.inj hexit
  rw [hstart] at hrun
  exact ⟨n, hn, hrun⟩

/-- Every block of a run takes the machine at least one step further. -/
theorem trapRun_of_blockRun {k : Nat} (h : BlockRun I T H cfg code rest k c r) :
    ∃ n, k ≤ n ∧ TrapRun (I.step H cfg code) n c r := by
  induction h with
  | nil c => exact ⟨0, le_rfl, .nil c⟩
  | cons hstep _ ih =>
    obtain ⟨m, hm, hfirst⟩ := trapRun_of_blockStep hstep
    obtain ⟨n, hn, hlater⟩ := ih
    exact ⟨m + n, by omega, hfirst.append hlater⟩
  | trap hstep => exact trapRun_of_blockStep hstep

/-! ## There is always a next block -/

/-- A translation ends within as many turns as its limit. -/
theorem genCode_ends (D : Decoder) (code : GuestCode) (cfg : RiscvCfg) (pc : BitVec 64)
    {maxInsns : BitVec 32} (hmax : 1 ≤ maxInsns.toNat) {b : Builder} (hb : BetweenBlocks b) :
    ∃ size dc b', genCode D code cfg pc maxInsns maxInsns.toNat b = some (size, dc, b') := by
  let d := (RiscvDisasContext.new pc cfg).setMaxInsns maxInsns.toNat
  unfold genCode
  dsimp only
  obtain hfresh | hlater := hb
  · obtain ⟨⟨dc, b₀⟩, hinit, hreg⟩ := initDisasContext_some d (hfresh.2.trans hfresh.1.symm)
    obtain ⟨-, -, hpcTemp, -, -, hglobals⟩ := initialTemps hfresh.1 hinit
    have hpc : dc.pc < b₀.ctx.nbGlobals := by
      rw [hpcTemp, hglobals]
      decide
    obtain ⟨dc', b', hloop, -⟩ := loop_covers D code hmax
      (hreg.base_eq : dc.base = ⟨pc, pc, .next, 0, maxInsns.toNat⟩) hreg.len_eq hpc hreg.ops_eq
    have hblock : translatorLoop D code maxInsns.toNat d b = some (dc', ((tbStop dc').run b').2) :=
      Option.bind_eq_some_iff.mpr
        ⟨_, hinit, Option.bind_eq_some_iff.mpr ⟨_, hloop _ le_rfl, rfl⟩⟩
    rw [if_pos hfresh.1, hblock]
    exact ⟨_, _, _, rfl⟩
  · have hnonzero : b.ctx.nbGlobals ≠ 0 := by omega
    have hpc : d.registered.pc < b.ctx.nbGlobals := by
      rw [hlater]
      exact Nat.lt_of_sub_eq_succ rfl
    obtain ⟨dc', b', hloop, -⟩ := loop_covers D code hmax
      (rfl : d.registered.base = ⟨pc, pc, .next, 0, maxInsns.toNat⟩) rfl hpc rfl
    rw [if_neg hnonzero, hloop _ le_rfl]
    exact ⟨_, _, _, rfl⟩

/-- The temps of the context at the end of a translation are those of its start. -/
theorem globals_genCode {pc : BitVec 64} {maxInsns size : BitVec 32} {fuel : Nat} {b b' : Builder}
    {dc : RiscvDisasContext} (hb : BetweenBlocks b) (hops : b.ops = [])
    (h : genCode (I.decoder T) code cfg pc maxInsns fuel b = some (size, dc, b')) :
    Globals dc b'.ctx := by
  obtain ⟨dc₀, b₀, b₁, hself, hops₀, hbase, -, hloop, rfl⟩ := genCode_parts hb hops h
  have hlabels : LabelsBelow b₀.nbLabels b₀.ops := by
    rw [hops₀]
    exact fun _ hop => (by cases hop)
  have hgrow := (translateLoop_extends hloop).trans ((tbStop dc).extends_run b₁)
  have hself : Globals dc₀ ((tbStop dc).run b₁).2.ctx := hself.extend hgrow.ctx b₀.globals_le
  have hnext : dc₀.base.isJmp = .next := by rw [hbase]
  have hdone : SameTemps dc₀ dc ∧ ∃ n, 1 ≤ n ∧ LoopDone
      (guestEffects (fpuEffects idleHost T GuestCode.noEffects)) _ (I.step idleHost dc₀.cfg code) dc₀
      dc b₀ b₁ blankState _ n :=
    translateLoop_done hself hnext hlabels hloop ((tbStop dc).extends_run b₁).ctx blankState
  exact hdone.1.globals hself

/-- From every CPU whose x0 is zero there is a block to run, and x0 stays zero. -/
theorem exists_blockStep (I : InsnSet) (T : HelperTable) (H : HostFloat) (cfg : RiscvCfg)
    (code : GuestCode) (rest : Effects Guest) (hx : c.hart.x 0 = 0) :
    ∃ r : Cpu × Option Nat, BlockStep I T H cfg code rest c r ∧ r.1.hart.x 0 = 0 := by
  have hb : BetweenBlocks .new := .inl ⟨rfl, rfl⟩
  have hmax : 1 ≤ (512 : BitVec 32).toNat := by decide
  obtain ⟨size, dc, b', htrans⟩ := genCode_ends (I.decoder T) code cfg c.hart.pc hmax hb
  obtain ⟨s, hs⟩ := exists_cpuOf (globals_genCode hb rfl htrans) hx
  obtain ⟨-, s', val, -, -, hexits⟩ := block_executes hb rfl htrans (.refl _) H rest s
  exact ⟨_, .run hb rfl htrans (.refl _) hs hexits, rfl⟩

/-- Blocks can be run on and on, until one traps. -/
theorem exists_blockRun (I : InsnSet) (T : HelperTable) (H : HostFloat) (cfg : RiscvCfg)
    (code : GuestCode) (rest : Effects Guest) (hx : c.hart.x 0 = 0) (k : Nat) :
    (∃ c', BlockRun I T H cfg code rest k c (c', none)) ∨
      ∃ j c' x, BlockRun I T H cfg code rest j c (c', some x) := by
  induction k generalizing c with
  | zero => exact .inl ⟨c, .nil c⟩
  | succ k ih =>
    obtain ⟨⟨c₁, x⟩, hstep, hx₁⟩ := exists_blockStep I T H cfg code rest hx
    cases x with
    | some x => exact .inr ⟨1, c₁, x, .trap hstep⟩
    | none =>
      obtain ⟨c', hrun⟩ | ⟨j, c', x, hrun⟩ := ih hx₁
      · exact .inl ⟨c', .cons hstep hrun⟩
      · exact .inr ⟨j + 1, c', x, .cons hstep hrun⟩

/-- Where the machine runs into a trap, so do the blocks. -/
theorem blockRun_of_trapRun (hx : c.hart.x 0 = 0) {n x : Nat} {c' : Cpu}
    (h : TrapRun (I.step H cfg code) n c (c', some x)) :
    ∃ k, BlockRun I T H cfg code rest k c (c', some x) := by
  obtain ⟨c₁, hblocks⟩ | ⟨k, c₁, x₁, hblocks⟩ := exists_blockRun I T H cfg code rest hx n
  · -- n blocks without a trap are n steps without one
    obtain ⟨m, hm, hrun⟩ := trapRun_of_blockRun hblocks
    exact absurd (hrun.not_trap_of_le h) (Nat.not_lt_of_le hm)
  · obtain ⟨m, -, hrun⟩ := trapRun_of_blockRun hblocks
    obtain ⟨rfl, rfl⟩ := hrun.trap_unique h
    exact ⟨k, hblocks⟩

/-! ## Traps -/

/-- The blocks trap exactly where the guest program does, with the same CPU and the same exception. -/
theorem blocks_trap_iff (I : InsnSet) (T : HelperTable) (H : HostFloat) (cfg : RiscvCfg)
    (code : GuestCode) (rest : Effects Guest) (hx : c.hart.x 0 = 0) (c' : Cpu) (x : Nat) :
    (∃ k, BlockRun I T H cfg code rest k c (c', some x)) ↔
      ∃ n, TrapRun (I.step H cfg code) n c (c', some x) := by
  constructor
  · rintro ⟨k, hblocks⟩
    obtain ⟨n, -, hrun⟩ := trapRun_of_blockRun hblocks
    exact ⟨n, hrun⟩
  · rintro ⟨n, hrun⟩
    exact blockRun_of_trapRun hx hrun

/-- A program that is all `ecall`s, from a CPU in which nothing is set. -/
theorem blocks_trap_iff_ecall :
    ∃ k, BlockRun ⟨fun _ => .illegal, fun _ => .ecall⟩ numberedHelpers idleHost allExtensions.cfg
      (fun _ => 3) GuestCode.noEffects k ⟨⟨fun _ => 0, 0, 0, 0, fun _ => 0⟩, fun _ => 0⟩
      (⟨⟨fun _ => 0, 0, 0, 0, fun _ => 0⟩, fun _ => 0⟩, some EXCP_ECALL) :=
  (blocks_trap_iff ⟨fun _ => .illegal, fun _ => .ecall⟩ numberedHelpers idleHost allExtensions.cfg
    (fun _ => 3) GuestCode.noEffects rfl _ _).mpr ⟨1, .trap rfl⟩

/-- Where blocks trap does not depend on where they end, on the addresses of the helpers or on other
effects of the host. -/
theorem blocks_trap_alike {T' : HelperTable} {rest' : Effects Guest} {j k x₁ x₂ : Nat} {c₁ c₂ : Cpu}
    (h : BlockRun I T H cfg code rest j c (c₁, some x₁))
    (h' : BlockRun I T' H cfg code rest' k c (c₂, some x₂)) : c₁ = c₂ ∧ x₁ = x₂ := by
  obtain ⟨m, -, hrun⟩ := trapRun_of_blockRun h
  obtain ⟨n, -, hrun'⟩ := trapRun_of_blockRun h'
  exact hrun.trap_unique hrun'

/-- Two runs of a program that is all `ecall`s. -/
theorem blocks_trap_alike_ecall : ∃ j k c₁ c₂ x₁ x₂,
    BlockRun ⟨fun _ => .illegal, fun _ => .ecall⟩ numberedHelpers idleHost allExtensions.cfg
      (fun _ => 3) GuestCode.noEffects j ⟨⟨fun _ => 0, 0, 0, 0, fun _ => 0⟩, fun _ => 0⟩ (c₁, some x₁) ∧
    BlockRun ⟨fun _ => .illegal, fun _ => .ecall⟩ numberedHelpers idleHost allExtensions.cfg
      (fun _ => 3) GuestCode.noEffects k ⟨⟨fun _ => 0, 0, 0, 0, fun _ => 0⟩, fun _ => 0⟩ (c₂, some x₂) ∧
    c₁ = c₂ ∧ x₁ = x₂ := by
  have hrun : TrapRun (InsnSet.step ⟨fun _ => .illegal, fun _ => .ecall⟩ idleHost allExtensions.cfg
      (fun _ => 3)) 1 ⟨⟨fun _ => 0, 0, 0, 0, fun _ => 0⟩, fun _ => 0⟩
      (⟨⟨fun _ => 0, 0, 0, 0, fun _ => 0⟩, fun _ => 0⟩, some EXCP_ECALL) := .trap rfl
  obtain ⟨j, h⟩ := blockRun_of_trapRun rfl hrun
  exact ⟨j, j, _, _, _, _, h, h, blocks_trap_alike h h⟩

end TcgRs.Analysis.BlockRuns
