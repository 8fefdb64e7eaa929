import TcgRs.Analysis.GuestCode
import TcgRs.Interface.GuestMachine
import TcgRs.Model.Riscv.Translator

/-!
# The shape of a translated block

Which instructions a block covers: where they start, where the block ends, and what size is
reported.  The size counts four bytes for each instruction, so it is right for blocks without
compressed instructions.
-/

set_option autoImplicit false

namespace TcgRs.Analysis.BlockShape

open TcgRs.Model TcgRs.Model.Ir TcgRs.Model.Riscv TcgRs.Interface.Ir
open TcgRs.Library GeneratedCode GuestCode

/-! ## Instructions in memory -/

/-- The length of the instruction at a pc, which its low two bits tell. -/
def insnLength (code : GuestCode) (pc : BitVec 64) : Nat :=
  if fetchInsn16 code pc &&& 0x3 ≠ 0x3 then 2 else 4

/-- The length that the translator counts: four bytes for a compressed instruction without the C
extension, which ends the block. -/
def countedLength (code : GuestCode) (cfg : RiscvCfg) (pc : BitVec 64) : Nat :=
  if cfg.misa.contains .C then insnLength code pc else 4

/-- The pc after `k` instructions with the given lengths. -/
def pcAfter (len : BitVec 64 → Nat) (pc : BitVec 64) : Nat → BitVec 64
  | 0 => pc
  | k + 1 => pcAfter len (pc + BitVec.ofNat 64 (len pc)) k

/-- Instructions of two or four bytes fill four bytes each exactly when all have four. -/
theorem sum_lengths {lens : List Nat} (hlens : ∀ l ∈ lens, l = 2 ∨ l = 4) :
    2 * lens.length ≤ lens.sum ∧ lens.sum ≤ 4 * lens.length ∧
      (lens.sum = 4 * lens.length ↔ ∀ l ∈ lens, l = 4) := by
  induction lens with
  | nil => exact ⟨le_rfl, le_rfl, iff_of_true rfl nofun⟩
  | cons l lens ih =>
    obtain ⟨hlow, hhigh, hiff⟩ := ih fun l' hl' => hlens l' (List.mem_cons_of_mem _ hl')
    have hl := hlens l List.mem_cons_self
    rw [List.forall_mem_cons, List.sum_cons, List.length_cons, ← hiff]
    omega

/-! ## Instruction starts -/

/-- The pc of an instruction start. -/
def insnStartPc (op : Op) : Option (BitVec 64) :=
  if op.opc = .insnStart then some (BitVec.ofNat 64 (op.args 0 + op.args 1 * 2 ^ 32)) else none

/-- The pcs of the instruction starts of an op list. -/
def insnStarts (ops : List Op) : List (BitVec 64) := ops.filterMap insnStartPc

theorem insnStarts_of_stays {α : Type} {g : Gen α} (h : StaysInInsn g) (b : Builder) :
    insnStarts (newOps b (g.run b).2) = [] := by
  unfold insnStarts
  rw [List.filterMap_eq_nil_iff]
  intro op hop
  exact if_neg (h b op hop)

theorem stays_pure {α : Type} (a : α) : StaysInInsn (pure a : Gen α) := by
  intro b op hop
  rw [Gen.run_pure, List.drop_length] at hop
  cases hop

theorem stays_bind {α β : Type} {g : Gen β} {f : β → Gen α} (hg : StaysInInsn g)
    (hf : ∀ a, StaysInInsn (f a)) : StaysInInsn (g >>= f) := by
  intro b op hop
  have hsplit := newOps_trans (g.extends_run b) ((f (g.run b).1).extends_run (g.run b).2)
  have hmem : op ∈ newOps b ((f (g.run b).1).run (g.run b).2).2 := hop
  rw [hsplit] at hmem
  cases List.mem_append.mp hmem with
  | inl hmem => exact hg b op hmem
  | inr hmem => exact hf _ _ op hmem

theorem stays_emitOp {op : Op} (h : op.opc ≠ .insnStart) : StaysInInsn (emitOp op) := by
  intro b op' hop
  have hone : ((emitOp op).run b).2.ops.drop b.ops.length = [op] := List.drop_left
  rw [hone] at hop
  rw [List.mem_singleton.mp hop]
  exact h

theorem ops_newConst (ty : IrType) (val : BitVec 64) (b : Builder) :
    ((newConst ty val).run b).2.ops = b.ops := by
  unfold newConst
  dsimp only
  split <;> rfl

theorem stays_newConst (ty : IrType) (val : BitVec 64) : StaysInInsn (newConst ty val) := by
  intro b op hop
  rw [ops_newConst, List.drop_length] at hop
  cases hop

theorem stays_genMov (ty : IrType) (d s : Nat) : StaysInInsn (genMov ty d s) :=
  stays_bind (stays_emitOp nofun) stays_pure

theorem stays_undefInsn (dc : RiscvDisasContext) : StaysInInsn (undefInsn dc) :=
  stays_bind (stays_newConst _ _) fun _ => stays_bind (stays_genMov _ _ _) fun _ =>
    stays_bind (stays_emitOp nofun) fun _ => stays_pure _

/-- The code with which a block falls through to the next instruction. -/
def fallThrough (dc : RiscvDisasContext) : Gen Unit := do
  let pcConst ← newConst .i64 dc.base.pcNext
  let _ ← genMov .i64 dc.pc pcConst
  genGotoTb 0
  genExitTb TB_EXIT_IDX0

theorem tbStop_eq (dc : RiscvDisasContext) :
    tbStop dc = if dc.base.isJmp = .noReturn then pure () else fallThrough dc := by
  unfold tbStop
  split
  · rename_i hjmp
    rw [hjmp]
    rfl
  all_goals
    rename_i hjmp
    rw [hjmp]
    rfl

theorem stays_tbStop (dc : RiscvDisasContext) : StaysInInsn (tbStop dc) := by
  rw [tbStop_eq]
  split
  · exact stays_pure _
  · exact stays_bind (stays_newConst _ _) fun _ => stays_bind (stays_genMov _ _ _) fun _ =>
      stays_bind (stays_emitOp nofun) fun _ => stays_emitOp nofun

theorem insnStart_pc (pc : BitVec 64) : insnStartPc
    (Op.withArgs .insnStart .i64 [(pc.setWidth 32).toNat, ((pc >>> 32).setWidth 32).toNat]) =
      some pc := by
  have hpc : BitVec.ofNat 64 ((pc.setWidth 32).toNat + ((pc >>> 32).setWidth 32).toNat * 2 ^ 32) =
      pc := by
    apply BitVec.eq_of_toNat_eq
    have hlt := pc.isLt
    simp only [BitVec.toNat_ofNat, BitVec.toNat_setWidth, BitVec.toNat_ushiftRight,
      Nat.shiftRight_eq_div_pow]
    omega
  exact congrArg some hpc

/-! ## One instruction -/

variable {D : Decoder} {code : GuestCode} {dc dc' : RiscvDisasContext}

theorem insnLength_cases (code : GuestCode) (pc : BitVec 64) :
    insnLength code pc = 2 ∨ insnLength code pc = 4 := by
  unfold insnLength
  split
  · exact .inl rfl
  · exact .inr rfl

/-- What decoding and translating keep of a context. -/
structure SameBlock (dc dc' : RiscvDisasContext) : Prop where
  first_eq : dc'.base.pcFirst = dc.base.pcFirst
  max_eq : dc'.base.maxInsns = dc.base.maxInsns
  cfg_eq : dc'.cfg = dc.cfg
  pc_eq : dc'.pc = dc.pc

theorem SameBlock.refl (dc : RiscvDisasContext) : SameBlock dc dc := ⟨rfl, rfl, rfl, rfl⟩

theorem SameBlock.trans {dc₁ dc₂ dc₃ : RiscvDisasContext} (h : SameBlock dc₁ dc₂)
    (h' : SameBlock dc₂ dc₃) : SameBlock dc₁ dc₃ :=
  ⟨h'.first_eq.trans h.first_eq, h'.max_eq.trans h.max_eq, h'.cfg_eq.trans h.cfg_eq,
    h'.pc_eq.trans h.pc_eq⟩

/-- Without the C extension no instruction has another length than four. -/
def LengthKept (dc : RiscvDisasContext) : Prop :=
  dc.cfg.misa.contains .C = false → dc.curInsnLen = 4

/-- What the decoder leaves in the context. -/
structure Decoded (code : GuestCode) (dc : RiscvDisasContext) (r : Bool × RiscvDisasContext) :
    Prop where
  same : SameBlock dc r.2
  next_eq : r.2.base.pcNext = dc.base.pcNext
  num_eq : r.2.base.numInsns = dc.base.numInsns
  len_eq : r.2.curInsnLen = countedLength code dc.cfg dc.base.pcNext
  unknown : countedLength code dc.cfg dc.base.pcNext ≠ insnLength code dc.base.pcNext → r.1 = false

theorem stays_decodeInsn (D : Decoder) (code : GuestCode) (dc : RiscvDisasContext) :
    StaysInInsn (decodeInsn D code dc) := by
  unfold decodeInsn
  dsimp only
  split
  · split
    · exact stays_pure _
    · exact stays_bind (D.stays16 _ _) fun _ => stays_pure _
  · exact stays_bind (D.stays _ _) fun _ => stays_pure _

theorem stays_translateInsn (D : Decoder) (code : GuestCode) (dc : RiscvDisasContext) :
    StaysInInsn (translateInsn D code dc) := by
  refine stays_bind (stays_decodeInsn D code dc) fun r => ?_
  obtain ⟨decoded, dc'⟩ := r
  cases decoded with
  | false => exact stays_bind (stays_undefInsn dc') fun _ => stays_pure _
  | true => exact stays_pure dc'.advance

/-- The context after an instruction of the given length has been decoded. -/
def decodedAs (dc : RiscvDisasContext) (len : Nat) (r : Bool × DisasJumpType) :
    Bool × RiscvDisasContext := (r.1, (dc.setCurInsnLen len).setIsJmp r.2)

theorem decoded_as {r : Bool × DisasJumpType} {len : Nat}
    (hcounted : countedLength code dc.cfg dc.base.pcNext = len)
    (hlen : insnLength code dc.base.pcNext = len) : Decoded code dc (decodedAs dc len r) :=
  ⟨⟨rfl, rfl, rfl, rfl⟩, rfl, rfl, hcounted.symm,
    fun hne => absurd (hcounted.trans hlen.symm) hne⟩

theorem decodeInsn_spec (hkept : LengthKept dc) (b : Builder) :
    Decoded code dc ((decodeInsn D code dc).run b).1 := by
  by_cases hhalf : fetchInsn16 code dc.base.pcNext &&& 0x3 ≠ 0x3
  · have htwo : insnLength code dc.base.pcNext = 2 := if_pos hhalf
    cases hC : dc.cfg.misa.contains .C with
    | true =>
      have hrun : ((decodeInsn D code dc).run b).1 = decodedAs dc 2
          ((D.decode16 (dc.setCurInsnLen 2) (fetchInsn16 code dc.base.pcNext)).run b).1 := by
        unfold decodeInsn
        dsimp only
        rw [if_pos hhalf, hC, if_neg (by decide)]
        rfl
      rw [hrun]
      exact decoded_as ((if_pos hC).trans htwo) htwo
    | false =>
      have hrun : (decodeInsn D code dc).run b = ((false, dc), b) := by
        unfold decodeInsn
        dsimp only
        rw [if_pos hhalf, hC, if_pos (by decide)]
        rfl
      have hfour : countedLength code dc.cfg dc.base.pcNext = 4 := if_neg (by rw [hC]; decide)
      rw [hrun]
      exact ⟨.refl dc, rfl, rfl, (hkept hC).trans hfour.symm, fun _ => rfl⟩
  · have hfour : insnLength code dc.base.pcNext = 4 := if_neg hhalf
    have hcounted : countedLength code dc.cfg dc.base.pcNext = 4 := by
      unfold countedLength
      split
      · exact hfour
      · rfl
    have hrun : ((decodeInsn D code dc).run b).1 = decodedAs dc 4
        ((D.decode (dc.setCurInsnLen 4) (fetchInsn32 code dc.base.pcNext)).run b).1 := by
      unfold decodeInsn
      dsimp only
      rw [if_neg hhalf]
      rfl
    rw [hrun]
    exact decoded_as hcounted hfour

/-- What one turn of the loop leaves. -/
structure Turn (code : GuestCode) (dc dc' : RiscvDisasContext) (ops : List Op) : Prop where
  same : SameBlock dc dc'
  num_eq : dc'.base.numInsns = dc.base.numInsns + 1
  starts_eq : insnStarts ops = [dc.base.pcNext]
  next_eq : dc'.base.pcNext =
    dc.base.pcNext + BitVec.ofNat 64 (countedLength code dc.cfg dc.base.pcNext)
  kept : LengthKept dc'
  ended : countedLength code dc.cfg dc.base.pcNext ≠ insnLength code dc.base.pcNext →
    dc'.base.isJmp = .noReturn

theorem insnStarts_append (ops ops' : List Op) :
    insnStarts (ops ++ ops') = insnStarts ops ++ insnStarts ops' := List.filterMap_append

theorem translateOne_spec (hkept : LengthKept dc) (b : Builder) :
    Turn code dc ((translateOne D code dc).run b).1
      (newOps b ((translateOne D code dc).run b).2) := by
  -- the start of the instruction
  let dc₁ : RiscvDisasContext := { dc with base := { dc.base with numInsns := dc.base.numInsns + 1 } }
  let b₁ := ((genInsnStart dc.base.pcNext).run b).2
  have hstart : newOps b b₁ = [Op.withArgs .insnStart .i64
      [(dc.base.pcNext.setWidth 32).toNat, ((dc.base.pcNext >>> 32).setWidth 32).toNat]] :=
    List.drop_left
  -- the instruction
  have hkept₁ : LengthKept dc₁ := hkept
  have hdec : Decoded code dc₁ ((decodeInsn D code dc₁).run b₁).1 := decodeInsn_spec hkept₁ b₁
  have hrun : (translateOne D code dc).run b = (translateInsn D code dc₁).run b₁ := rfl
  rw [hrun]
  generalize hr : (decodeInsn D code dc₁).run b₁ = r at hdec
  obtain ⟨⟨decoded, dc₂⟩, b₂⟩ := r
  have hinsn : (translateInsn D code dc₁).run b₁ = (if !decoded then
      (undefInsn dc₂ >>= fun dc => pure dc.advance).run b₂ else (dc₂.advance, b₂)) := by
    unfold translateInsn
    rw [Gen.run_bind, hr]
    cases decoded <;> rfl
  have hstarts : insnStarts (newOps b ((translateInsn D code dc₁).run b₁).2) =
      [dc.base.pcNext] := by
    rw [newOps_trans ((genInsnStart dc.base.pcNext).extends_run b) (Gen.extends_run _ b₁),
      insnStarts_append, insnStarts_of_stays (stays_translateInsn D code dc₁), hstart]
    show List.filterMap insnStartPc [_] ++ [] = _
    rw [List.append_nil, List.filterMap_cons_some (insnStart_pc _)]
    rfl
  have hnum : dc₂.base.numInsns = dc.base.numInsns + 1 := hdec.num_eq
  have hnext : dc₂.base.pcNext + BitVec.ofNat 64 dc₂.curInsnLen = dc.base.pcNext +
      BitVec.ofNat 64 (countedLength code dc.cfg dc.base.pcNext) := by
    rw [hdec.next_eq, hdec.len_eq]
  have hkept' : LengthKept dc₂ := by
    intro hC
    rw [hdec.len_eq, countedLength, if_neg]
    rw [← hdec.same.cfg_eq, hC]
    exact Bool.false_ne_true
  have hsame : SameBlock dc dc₂ := ⟨hdec.1.1, hdec.1.2, hdec.1.3, hdec.1.4⟩
  rw [hinsn] at hstarts ⊢
  cases decoded with
  | false => exact ⟨⟨hsame.1, hsame.2, hsame.3, hsame.4⟩, hnum, hstarts, hnext, hkept', fun _ => rfl⟩
  | true =>
    show Turn code dc dc₂.advance _
    refine ⟨⟨hsame.1, hsame.2, hsame.3, hsame.4⟩, hnum, hstarts, hnext, hkept', fun hne => ?_⟩
    exact absurd (hdec.unknown hne) nofun

/-! ## The loop -/

/-- The lengths of the instructions that the loop goes through, with at most `m` left. -/
def lengthsMet (D : Decoder) (code : GuestCode) :
    Nat → RiscvDisasContext → Builder → List Nat
  | 0, _, _ => []
  | m + 1, dc, b =>
    let (dc', b') := (translateOne D code dc).run b
    countedLength code dc.cfg dc.base.pcNext ::
      if dc'.base.isJmp = .next then lengthsMet D code m dc' b' else []

theorem lengthsMet_cases (D : Decoder) (code : GuestCode) (m : Nat) (dc : RiscvDisasContext)
    (b : Builder) : ∀ l ∈ lengthsMet D code m dc b, l = 2 ∨ l = 4 := by
  induction m generalizing dc b with
  | zero => exact nofun
  | succ m ih =>
    intro l hl
    cases List.mem_cons.mp hl with
    | inl hfirst =>
      rw [hfirst, countedLength]
      split
      · exact insnLength_cases code _
      · exact .inr rfl
    | inr hrest =>
      split at hrest
      · exact ih _ _ l hrest
      · cases hrest

/-- What the loop leaves after `lens.length` instructions. -/
structure Turns (code : GuestCode) (dc dc' : RiscvDisasContext) (ops : List Op)
    (lens : List Nat) : Prop where
  same : SameBlock dc dc'
  num_eq : dc'.base.numInsns = dc.base.numInsns + lens.length
  starts_eq : insnStarts ops =
    (List.range lens.length).map (pcAfter (insnLength code) dc.base.pcNext)
  next_eq : dc'.base.pcNext = dc.base.pcNext + BitVec.ofNat 64 lens.sum
  whole : dc'.base.isJmp ≠ .noReturn →
    dc'.base.pcNext = pcAfter (insnLength code) dc.base.pcNext lens.length

/-- One turn that ends the loop. -/
theorem Turn.turns {ops : List Op} (h : Turn code dc dc' ops) : Turns code dc dc' ops
    [countedLength code dc.cfg dc.base.pcNext] where
  same := h.same
  num_eq := h.num_eq
  starts_eq := h.starts_eq
  next_eq := h.next_eq
  whole hjmp := by
    have hlen := not_imp_comm.mp h.ended hjmp
    rw [h.next_eq, hlen]
    rfl

/-- A turn after which the loop goes on. -/
theorem Turn.cons {dc₁ : RiscvDisasContext} {ops ops' : List Op} {lens : List Nat}
    (h : Turn code dc dc₁ ops) (hnext : dc₁.base.isJmp = .next)
    (h' : Turns code dc₁ dc' ops' lens) : Turns code dc dc' (ops ++ ops')
      (countedLength code dc.cfg dc.base.pcNext :: lens) := by
  have hlen : countedLength code dc.cfg dc.base.pcNext = insnLength code dc.base.pcNext :=
    not_imp_comm.mp h.ended (by rw [hnext]; decide)
  have hpc : dc₁.base.pcNext =
      dc.base.pcNext + BitVec.ofNat 64 (insnLength code dc.base.pcNext) := hlen ▸ h.next_eq
  refine ⟨h.same.trans h'.same, ?_, ?_, ?_, ?_⟩
  · rw [h'.num_eq, h.num_eq, List.length_cons, Nat.add_assoc, Nat.add_comm 1]
  · rw [insnStarts_append, h.starts_eq, h'.starts_eq, List.length_cons,
      List.range_succ_eq_map, List.map_cons, List.map_map, hpc]
    rfl
  · rw [h'.next_eq, h.next_eq, List.sum_cons, BitVec.ofNat_add, BitVec.add_assoc]
  · intro hjmp
    rw [h'.whole hjmp, hpc]
    rfl

theorem Turns.setIsJmp {ops : List Op} {lens : List Nat} (h : Turns code dc dc' ops lens)
    (hnext : dc'.base.isJmp = .next) (jmp : DisasJumpType) :
    Turns code dc (dc'.setIsJmp jmp) ops lens :=
  ⟨⟨h.same.1, h.same.2, h.same.3, h.same.4⟩, h.num_eq, h.starts_eq, h.next_eq,
    fun _ => h.whole (by rw [hnext]; decide)⟩

/-- What the loop leaves within `m` turns. -/
def LoopEnds (D : Decoder) (code : GuestCode) (m : Nat) (dc : RiscvDisasContext) (b : Builder) :
    Prop :=
  ∃ dc' b', (∀ fuel ≥ m, translateLoop D code fuel dc b = some (dc', b')) ∧ b.Extends b' ∧
    Turns code dc dc' (newOps b b') (lengthsMet D code m dc b) ∧
    (lengthsMet D code m dc b).length ≤ m ∧ dc'.base.isJmp ≠ .next

/-- An instruction may end the block. -/
theorem loopEnds_of_jump (hkept : LengthKept dc) (b : Builder) (m : Nat)
    (hjmp : ((translateOne D code dc).run b).1.base.isJmp ≠ .next) :
    LoopEnds D code (m + 1) dc b := by
  have hlens : lengthsMet D code (m + 1) dc b = [countedLength code dc.cfg dc.base.pcNext] := by
    unfold lengthsMet
    dsimp only
    rw [if_neg hjmp]
  refine ⟨_, _, ?_, (translateOne D code dc).extends_run b, ?_, ?_, hjmp⟩
  · intro fuel hfuel
    obtain ⟨fuel, rfl⟩ := Nat.exists_eq_succ_of_ne_zero (Nat.ne_zero_of_lt hfuel)
    exact if_pos hjmp
  · rw [hlens]
    exact (translateOne_spec hkept b).turns
  · rw [hlens]
    exact Nat.succ_le_succ (Nat.zero_le m)

/-- The loop ends within the limit. -/
theorem translateLoop_spec {m : Nat} (hleft : dc.base.numInsns + (m + 1) = dc.base.maxInsns)
    (hkept : LengthKept dc) (b : Builder) : LoopEnds D code (m + 1) dc b := by
  induction m generalizing dc b with
  | zero =>
    by_cases hjmp : ((translateOne D code dc).run b).1.base.isJmp = .next
    case neg => exact loopEnds_of_jump hkept b 0 hjmp
    have hturn : Turn code dc ((translateOne D code dc).run b).1 _ := translateOne_spec hkept b
    have hlimit : ((translateOne D code dc).run b).1.base.numInsns ≥
        ((translateOne D code dc).run b).1.base.maxInsns := by
      rw [hturn.num_eq, hturn.same.max_eq]
      omega
    have hlens : lengthsMet D code 1 dc b = [countedLength code dc.cfg dc.base.pcNext] := by
      unfold lengthsMet
      dsimp only
      rw [if_pos hjmp]
      rfl
    refine ⟨((translateOne D code dc).run b).1.setIsJmp .tooMany, _, ?_,
      (translateOne D code dc).extends_run b, ?_, ?_, nofun⟩
    · intro fuel hfuel
      obtain ⟨fuel, rfl⟩ := Nat.exists_eq_succ_of_ne_zero (Nat.ne_zero_of_lt hfuel)
      exact (if_neg (not_not.mpr hjmp)).trans (if_pos hlimit)
    · rw [hlens]
      exact hturn.turns.setIsJmp hjmp .tooMany
    · rw [hlens]
      exact le_rfl
  | succ m ih =>
    by_cases hjmp : ((translateOne D code dc).run b).1.base.isJmp = .next
    case neg => exact loopEnds_of_jump hkept b (m + 1) hjmp
    have hturn : Turn code dc ((translateOne D code dc).run b).1 _ := translateOne_spec hkept b
    have hleft' : ((translateOne D code dc).run b).1.base.numInsns + (m + 1) =
        ((translateOne D code dc).run b).1.base.maxInsns := by
      rw [hturn.num_eq, hturn.same.max_eq]
      omega
    have hlens : lengthsMet D code (m + 1 + 1) dc b = countedLength code dc.cfg dc.base.pcNext ::
        lengthsMet D code (m + 1) ((translateOne D code dc).run b).1
          ((translateOne D code dc).run b).2 := congrArg (_ :: ·) (if_pos hjmp)
    obtain ⟨dc', b', hloop, hext, hturns, hcount, hend⟩ :=
      ih hleft' hturn.kept ((translateOne D code dc).run b).2
    have hfirst := (translateOne D code dc).extends_run b
    refine ⟨dc', b', ?_, hfirst.trans hext, ?_, ?_, hend⟩
    · intro fuel hfuel
      obtain ⟨fuel, rfl⟩ := Nat.exists_eq_succ_of_ne_zero (Nat.ne_zero_of_lt hfuel)
      have hmore : ¬((translateOne D code dc).run b).1.base.numInsns ≥
          ((translateOne D code dc).run b).1.base.maxInsns := by omega
      refine ((if_neg (not_not.mpr hjmp)).trans (if_neg hmore)).trans (hloop fuel ?_)
      omega
    · rw [hlens, newOps_trans hfirst hext]
      exact hturn.cons hjmp hturns
    · rw [hlens]
      exact Nat.succ_le_succ hcount

/-! ## The context -/

/-- The temps are registered and nothing else is done to the context. -/
structure Registered (dc : RiscvDisasContext) (b : Builder) (s : RiscvDisasContext × Builder) :
    Prop where
  base_eq : s.1.base = dc.base
  cfg_eq : s.1.cfg = dc.cfg
  len_eq : s.1.curInsnLen = dc.curInsnLen
  ops_eq : s.2.ops = b.ops
  no_local : s.2.ctx.nbTemps = s.2.ctx.nbGlobals

theorem initDisasContext_some (dc : RiscvDisasContext) {b : Builder}
    (h : b.ctx.nbTemps = b.ctx.nbGlobals) :
    ∃ s, initDisasContext dc b = some s ∧ Registered dc b s := by
  have hgpr : ∀ (r : Fin 32) s, Registered dc b s →
      ∃ s', initGpr s r = some s' ∧ Registered dc b s' := by
    intro r s hs
    obtain ⟨t, b₁, hnew, hlocal, hops⟩ := pushGlobal_some hs.no_local
    refine ⟨_, Option.bind_eq_some_iff.mpr ⟨(t, b₁), hnew, rfl⟩, hs.base_eq, hs.cfg_eq, hs.len_eq,
      hops.trans hs.ops_eq, hlocal⟩
  obtain ⟨env, b₀, henv, hlocal₀, hops₀⟩ := pushGlobal_some h
  have hstart : Registered dc b ({ dc with env := env }, b₀) := ⟨rfl, rfl, rfl, hops₀, hlocal₀⟩
  obtain ⟨⟨dc₁, b₁⟩, hregs, h₁⟩ := foldlM_total _ hgpr (List.finRange 32) hstart
  obtain ⟨pc, b₂, hpc, hlocal₂, hops₂⟩ := pushGlobal_some h₁.no_local
  obtain ⟨res, b₃, hres, hlocal₃, hops₃⟩ := pushGlobal_some hlocal₂
  obtain ⟨val, b₄, hval, hlocal₄, hops₄⟩ := pushGlobal_some hlocal₃
  refine ⟨({ dc₁ with pc := pc, loadRes := res, loadVal := val }, b₄), ?_, h₁.base_eq, h₁.cfg_eq,
    h₁.len_eq, ?_, hlocal₄⟩
  · refine Option.bind_eq_some_iff.mpr ⟨_, henv, Option.bind_eq_some_iff.mpr ⟨_, hregs, ?_⟩⟩
    refine Option.bind_eq_some_iff.mpr ⟨_, hpc, Option.bind_eq_some_iff.mpr ⟨_, hres, ?_⟩⟩
    exact Option.bind_eq_some_iff.mpr ⟨_, hval, rfl⟩
  · exact hops₄.trans (hops₃.trans (hops₂.trans h₁.ops_eq))

/-! ## The end of a block -/

theorem length_tbStop (hjmp : dc.base.isJmp ≠ .noReturn) (b : Builder) :
    ((tbStop dc).run b).2.ops.length = b.ops.length + 3 := by
  rw [tbStop_eq, if_neg hjmp]
  show (((((newConst .i64 dc.base.pcNext).run b).2.ops ++ [_]) ++ [_]) ++ [_]).length = _
  rw [ops_newConst, List.length_append, List.length_append, List.length_append]
  rfl

/-- A block that does not end with an exit of its own ends with three ops: the program counter is
set, and the block is left through its first slot. -/
theorem run_tbStop (hjmp : dc.base.isJmp ≠ .noReturn) (b : Builder) {σ : Type} (E : Effects σ)
    {C : Context} (hC : ((tbStop dc).run b).2.ctx.Extends C)
    (s : State σ) : run E C ((tbStop dc).run b).2.ops 3 b.ops.length s =
      some (.exitTb 0, setTemp s dc.pc dc.base.pcNext) := by
  have hstop : tbStop dc = fallThrough dc := (tbStop_eq dc).trans (if_neg hjmp)
  rw [hstop] at hC ⊢
  let c := ((newConst .i64 dc.base.pcNext).run b).1
  let mov := Op.withArgs .mov .i64 [dc.pc, c]
  let goto := Op.withArgs .gotoTb .i64 [0]
  let exit := Op.withArgs .exitTb .i64 [0]
  have hops : ((fallThrough dc).run b).2.ops = b.ops ++ [mov, goto] ++ [exit] := by
    show ((((newConst .i64 dc.base.pcNext).run b).2.ops ++ [mov]) ++ [goto]) ++ [exit] = _
    rw [ops_newConst, List.append_assoc b.ops]
    rfl
  have hnew : Does E C (newConst .i64 dc.base.pcNext) (fun c _ _ => IsConst C c dc.base.pcNext)
      b.ctx.nbTemps s := does_newConst fun _ _ _ h => h
  have hconst : val C s c = dc.base.pcNext := (hnew b rfl hC).2.val s
  have hstraight : ∀ op ∈ [mov, goto], isStraight op.opc = true :=
    List.forall_mem_cons.mpr ⟨rfl, List.forall_mem_cons.mpr ⟨rfl, nofun⟩⟩
  have hexec : execOps E C [mov, goto] s = setTemp s dc.pc (val C s c) := rfl
  rw [hops]
  refine (run_straight hstraight 1 s).trans ?_
  rw [hexec, hconst]
  show (((b.ops ++ [mov, goto] ++ [exit])[b.ops.length + 2]?).bind _) = _
  rw [List.append_assoc, List.getElem?_append_right (Nat.le_add_right _ _), Nat.add_sub_cancel_left]
  rfl

/-! ## Blocks -/

/-- The context and the builder with which the loop starts. -/
def loopStart (cfg : RiscvCfg) (pc : BitVec 64) (maxInsns : BitVec 32) (b : Builder) :
    RiscvDisasContext × Builder :=
  let d := (RiscvDisasContext.new pc cfg).setMaxInsns maxInsns.toNat
  if b.ctx.nbGlobals = 0 then (initDisasContext d b).getD (d, b) else (d.registered, b)

/-- The lengths by which the translator goes on, instruction by instruction, from `pc` to the end of
the block. -/
def blockLengths (D : Decoder) (code : GuestCode) (cfg : RiscvCfg) (pc : BitVec 64)
    (maxInsns : BitVec 32) (b : Builder) : List Nat :=
  lengthsMet D code maxInsns.toNat (loopStart cfg pc maxInsns b).1 (loopStart cfg pc maxInsns b).2

/-- Nothing is registered yet, or the globals of the first translation are there. -/
def BetweenBlocks (b : Builder) : Prop :=
  (b.ctx.nbGlobals = 0 ∧ b.ctx.nbTemps = 0) ∨ b.ctx.nbGlobals = 36

/-- A translated block covers whole instructions from `pc` on, one after the other, and its size is
the number of their bytes. -/
structure CoversBlock (code : GuestCode) (pc : BitVec 64) (maxInsns : BitVec 32) (b : Builder)
    (size : BitVec 32) (dc : RiscvDisasContext) (b' : Builder) : Prop where
  first_eq : dc.base.pcFirst = pc
  some_insn : 1 ≤ dc.base.numInsns
  within_limit : dc.base.numInsns ≤ maxInsns.toNat
  starts_eq : insnStarts (newOps b b') =
    (List.range dc.base.numInsns).map (pcAfter (insnLength code) pc)
  exit_at_limit : dc.base.isJmp = .tooMany → ∀ {σ : Type} (E : Effects σ) (C : Context)
    (s : State σ), b'.ctx.Extends C → ∃ s', run E C b'.ops 3 (b'.ops.length - 3) s =
      some (.exitTb 0, s') ∧ val C s' dc.pc = pcAfter (insnLength code) pc dc.base.numInsns
  size_eq : size.toNat = (dc.base.pcNext - dc.base.pcFirst).toNat

/-- Four bytes for each instruction are all bytes exactly when no instruction is compressed. -/
theorem size_eq_iff {lens : List Nat} (hlens : ∀ l ∈ lens, l = 2 ∨ l = 4)
    (hcount : lens.length < 2 ^ 32) (pc : BitVec 64) :
    (BitVec.ofNat 32 lens.length * 4).toNat = (pc + BitVec.ofNat 64 lens.sum - pc).toNat ↔
      (∀ l ∈ lens, l = 4) ∧ lens.length < 2 ^ 30 := by
  obtain ⟨hlow, hhigh, hiff⟩ := sum_lengths hlens
  rw [BitVec.add_comm, BitVec.add_sub_cancel, BitVec.toNat_mul, BitVec.toNat_ofNat,
    BitVec.toNat_ofNat, ← hiff]
  show _ * 4 % _ = _ ↔ _
  omega

/-- The end of the loop and of the block. -/
theorem loop_covers (D : Decoder) (code : GuestCode) {pc : BitVec 64} {maxInsns : BitVec 32} (hmax : 1 ≤ maxInsns.toNat)
    {b b₀ : Builder} (hbase : dc.base = ⟨pc, pc, .next, 0, maxInsns.toNat⟩)
    (hlen : dc.curInsnLen = 4) (hpc : dc.pc < b₀.ctx.nbGlobals) (hops : b₀.ops = b.ops) :
    ∃ dc' b', (∀ fuel ≥ maxInsns.toNat, translateLoop D code fuel dc b₀ = some (dc', b')) ∧
      (CoversBlock code pc maxInsns b (BitVec.ofNat 32 dc'.base.numInsns * 4) dc'
          ((tbStop dc').run b').2 ↔
        (∀ l ∈ lengthsMet D code maxInsns.toNat dc b₀, l = 4) ∧
          (lengthsMet D code maxInsns.toNat dc b₀).length < 2 ^ 30) := by
  obtain ⟨m, hm⟩ := Nat.exists_eq_succ_of_ne_zero (Nat.ne_zero_of_lt hmax)
  have hpcNext : dc.base.pcNext = pc := by rw [hbase]
  have hends : LoopEnds D code (m + 1) dc b₀ := by
    refine translateLoop_spec ?_ (fun _ => hlen) b₀
    rw [hbase]
    dsimp only
    omega
  rw [← Nat.succ_eq_add_one, ← hm] at hends
  obtain ⟨dc', b', hloop, hext, hturns, hcount, hjmp⟩ := hends
  refine ⟨dc', b', hloop, ?_⟩
  generalize hlens : lengthsMet D code maxInsns.toNat dc b₀ = lens at *
  have hnum : dc'.base.numInsns = lens.length := by
    rw [hturns.num_eq, hbase, Nat.zero_add]
  have hfirst : dc'.base.pcFirst = pc := by rw [hturns.same.first_eq, hbase]
  have hcases : ∀ l ∈ lens, l = 2 ∨ l = 4 := hlens ▸ lengthsMet_cases D code _ dc b₀
  have hsize := size_eq_iff hcases (lt_of_le_of_lt hcount maxInsns.isLt) pc
  rw [← hsize]
  constructor
  · intro h
    have heq := h.size_eq
    rw [hfirst, hturns.next_eq, hpcNext, hnum] at heq
    exact heq
  · intro heq
    have hstop := (tbStop dc').extends_run b'
    refine ⟨hfirst, ?_, by rw [hnum]; exact hcount, ?_, ?_, ?_⟩
    · rw [hnum, ← hlens, hm]
      exact Nat.succ_le_succ (Nat.zero_le _)
    · have hsplit : newOps b ((tbStop dc').run b').2 =
          newOps b₀ b' ++ newOps b' ((tbStop dc').run b').2 := by
        rw [← newOps_trans hext hstop, newOps, newOps, hops]
      rw [hsplit, insnStarts_append, hturns.starts_eq, insnStarts_of_stays (stays_tbStop dc'),
        List.append_nil, hnum, hpcNext]
    · intro hlimit σ E C s hC
      have hwhole : dc'.base.isJmp ≠ .noReturn := by
        rw [hlimit]
        decide
      have hlen' : ((tbStop dc').run b').2.ops.length - 3 = b'.ops.length := by
        rw [length_tbStop hwhole, Nat.add_sub_cancel]
      refine ⟨_, hlen' ▸ run_tbStop hwhole b' E hC s, ?_⟩
      have hglobals : b'.ctx.nbGlobals = b₀.ctx.nbGlobals := hext.ctx.globals_eq
      have hpc' : dc'.pc < b'.ctx.nbGlobals := by rw [hglobals, hturns.same.pc_eq]; exact hpc
      have hvar : (C.temps dc'.pc).isConst = false := by
        rw [(hstop.ctx.trans hC).temps_eq _ (lt_of_lt_of_le hpc' b'.globals_le)]
        exact b'.globals_var _ hpc'
      rw [hnum, ← hpcNext, ← hturns.whole hwhole]
      exact valueOf_update_self hvar _ _
    · rw [hfirst, hturns.next_eq, hpcNext, hnum]
      exact heq

/-- A block is translated within as many turns as its limit.  It covers the instructions from its
start on, and its size is right exactly when none of them is compressed and the size fits. -/
theorem genCode_covers_iff (D : Decoder) (code : GuestCode) (cfg : RiscvCfg) (pc : BitVec 64)
    (maxInsns : BitVec 32) (hmax : 1 ≤ maxInsns.toNat) (b : Builder) (hb : BetweenBlocks b) :
    ∃ size dc b', (∀ fuel ≥ maxInsns.toNat,
        genCode D code cfg pc maxInsns fuel b = some (size, dc, b')) ∧
      (CoversBlock code pc maxInsns b size dc b' ↔
        (∀ l ∈ blockLengths D code cfg pc maxInsns b, l = 4) ∧
          (blockLengths D code cfg pc maxInsns b).length < 2 ^ 30) := by
  let d := (RiscvDisasContext.new pc cfg).setMaxInsns maxInsns.toNat
  cases hb with
  | inl hfresh =>
    obtain ⟨⟨dc, b₀⟩, hinit, hreg⟩ := initDisasContext_some d (hfresh.2.trans hfresh.1.symm)
    obtain ⟨-, -, hpcTemp, -, -, hglobals⟩ := initialTemps hfresh.1 hinit
    have hstart : loopStart cfg pc maxInsns b = (dc, b₀) := by
      unfold loopStart
      dsimp only
      rw [if_pos hfresh.1, hinit]
      rfl
    have hpc : dc.pc < b₀.ctx.nbGlobals := by
      rw [hpcTemp, hglobals]
      decide
    obtain ⟨dc', b', hloop, hiff⟩ := loop_covers D code hmax
      (hreg.base_eq : dc.base = ⟨pc, pc, .next, 0, maxInsns.toNat⟩) hreg.len_eq hpc hreg.ops_eq
    unfold blockLengths
    rw [hstart]
    refine ⟨_, dc', _, ?_, hiff⟩
    intro fuel hfuel
    have hblock : translatorLoop D code fuel d b = some (dc', ((tbStop dc').run b').2) :=
      Option.bind_eq_some_iff.mpr
        ⟨_, hinit, Option.bind_eq_some_iff.mpr ⟨_, hloop fuel hfuel, rfl⟩⟩
    unfold genCode
    dsimp only
    rw [if_pos hfresh.1, hblock]
    rfl
  | inr hlater =>
    have hnonzero : b.ctx.nbGlobals ≠ 0 := by omega
    have hstart : loopStart cfg pc maxInsns b = (d.registered, b) := if_neg hnonzero
    have hpc : d.registered.pc < b.ctx.nbGlobals := by
      rw [hlater]
      exact Nat.lt_of_sub_eq_succ rfl
    obtain ⟨dc', b', hloop, hiff⟩ := loop_covers D code hmax
      (rfl : d.registered.base = ⟨pc, pc, .next, 0, maxInsns.toNat⟩) rfl hpc rfl
    unfold blockLengths
    rw [hstart]
    refine ⟨_, dc', _, ?_, hiff⟩
    intro fuel hfuel
    unfold genCode
    dsimp only
    rw [if_neg hnonzero, hloop fuel hfuel]
    rfl

/-- A decoder that knows every instruction and makes none do anything. -/
def nopDecoder : Decoder where
  decode16 _ _ := pure (true, .next)
  decode _ _ := pure (true, .next)
  stays16 _ _ := stays_pure _
  stays _ _ := stays_pure _

theorem genCode_covers_iff_two : ∃ size dc b',
    genCode nopDecoder (fun _ => 3) allExtensions.cfg 0x1000 2 2 .new = some (size, dc, b') ∧
      CoversBlock (fun _ => 3) 0x1000 2 .new size dc b' := by
  obtain ⟨size, dc, b', hrun, hiff⟩ := genCode_covers_iff nopDecoder (fun _ => 3)
    allExtensions.cfg 0x1000 2 (by decide) .new (.inl ⟨rfl, rfl⟩)
  have hlens : blockLengths nopDecoder (fun _ => 3) allExtensions.cfg 0x1000 2 .new = [4, 4] := rfl
  refine ⟨size, dc, b', hrun 2 le_rfl, hiff.mpr ?_⟩
  rw [hlens]
  exact ⟨by decide, by decide⟩

/-- A block of one compressed instruction has two bytes, and its size is reported as four. -/
theorem compressed_counts_four : ∃ size dc b',
    genCode nopDecoder (fun _ => 1) allExtensions.cfg 0x1000 1 1 .new = some (size, dc, b') ∧
      ¬CoversBlock (fun _ => 1) 0x1000 1 .new size dc b' := by
  refine ⟨_, _, _, rfl, ?_⟩
  intro h
  have hsize := h.size_eq
  revert hsize
  decide

end TcgRs.Analysis.BlockShape
