import TcgRs.Analysis.TempStates
import TcgRs.Model.Liveness

/-!
# Dead temps

The liveness analysis walks the ops backwards and marks the last uses; the register allocator walks
forwards and ends the temps that are marked.  A temp that is dead is not read again before it is
written, so the allocator never loads one.
-/

set_option autoImplicit false

namespace TcgRs.Analysis.DeadTemps

open TcgRs.Model TcgRs.Model.Ir TcgRs.Model.X86 TcgRs.Model.RegAlloc TcgRs.Model.Liveness
open TcgRs.Library RegBooks RegInputs RegOperands TempStates

/-! ## Liveness bits -/

theorem natCast_shift (k : Nat) : ((1 <<< k : Nat) : BitVec 32) = BitVec.twoPow 32 k := by
  apply BitVec.eq_of_toNat_eq
  rw [BitVec.toNat_twoPow, Nat.one_shiftLeft]
  rfl

theorem isDead_eq (l : LifeData) (n : Nat) : l.isDead n = l.bits.getLsbD (n * 2) := by
  unfold LifeData.isDead
  rw [natCast_shift, BitVec.and_twoPow]
  split
  · rename_i hbit
    have hne : BitVec.twoPow 32 (n * 2) ≠ 0 := by
      intro hzero
      have hone : (BitVec.twoPow 32 (n * 2)).getLsbD (n * 2) = true := by
        simp [BitVec.lt_of_getLsbD hbit]
      rw [hzero] at hone
      simp at hone
    rw [hbit, bne_iff_ne]
    exact hne
  · rename_i hbit
    rw [Bool.not_eq_true] at hbit
    rw [hbit]
    rfl

theorem isDead_zero (n : Nat) : (⟨0⟩ : LifeData).isDead n = false := by
  rw [isDead_eq]
  exact BitVec.getLsbD_zero

theorem isDead_setDead {l : LifeData} {n m : Nat} (h : (l.setDead n).isDead m = true) :
    m = n ∨ l.isDead m = true := by
  rw [isDead_eq] at h ⊢
  unfold LifeData.setDead at h
  rw [natCast_shift, BitVec.getLsbD_or, Bool.or_eq_true, BitVec.getLsbD_twoPow, Bool.and_eq_true,
    decide_eq_true_eq, decide_eq_true_eq] at h
  cases h with
  | inl h => exact Or.inr h
  | inr h => exact Or.inl (Nat.eq_of_mul_eq_mul_right (by decide) h.2.symm)

theorem isDead_setSync {l : LifeData} {n m : Nat} (h : (l.setSync n).isDead m = true) :
    l.isDead m = true := by
  rw [isDead_eq] at h ⊢
  unfold LifeData.setSync at h
  rw [natCast_shift, BitVec.getLsbD_or, Bool.or_eq_true, BitVec.getLsbD_twoPow, Bool.and_eq_true,
    decide_eq_true_eq, decide_eq_true_eq] at h
  cases h with
  | inl h => exact h
  | inr h => omega

theorem isDead_lastUse {ctx : Context} {l : LifeData} {t n m : Nat}
    (h : (lastUse ctx l t n).isDead m = true) : m = n ∨ l.isDead m = true := by
  unfold lastUse at h
  dsimp only at h
  split at h
  · exact isDead_setDead (isDead_setSync h)
  · exact isDead_setDead h

/-! ## One op, backwards -/

variable {ctx : Context} {op : Op} {live : Nat → Bool}

theorem args_injective (hdistinct : op.oargs.Nodup) {j k : Nat} (hj : j < op.opc.opDef.nbOargs)
    (hk : k < op.opc.opDef.nbOargs) (h : op.args j = op.args k) : j = k :=
  List.inj_on_of_nodup_map hdistinct (List.mem_range.mpr hj) (List.mem_range.mpr hk) h

/-- The outputs, as the loop over the first `n` of them leaves the state. -/
structure OutputsDone (ctx : Context) (op : Op) (live : Nat → Bool) (n : Nat) (s : LiveState) :
    Prop where
  alive : ∀ t < ctx.nbTemps, (s.live t = true ↔ live t = true ∧ ∀ k < n, op.args k ≠ t)
  marked : ∀ k, s.life.isDead k = true →
    k < n ∧ op.args k < ctx.nbTemps ∧ live (op.args k) = false

theorem outputsDone_loop (hdistinct : op.oargs.Nodup) {n : Nat} (hn : n ≤ op.opc.opDef.nbOargs) :
    OutputsDone ctx op live n ((List.range n).foldl (processOutput ctx op) ⟨live, ⟨0⟩⟩) := by
  induction n with
  | zero =>
    refine ⟨fun t _ => ?_, fun k hk => ?_⟩
    · simp
    · rw [List.range_zero, List.foldl_nil, isDead_zero] at hk
      cases hk
  | succ n ih =>
    obtain ⟨halive, hmarked⟩ := ih (Nat.le_of_succ_le hn)
    rw [List.range_succ, List.foldl_append, List.foldl_cons, List.foldl_nil]
    generalize (List.range n).foldl (processOutput ctx op) ⟨live, ⟨0⟩⟩ = s at halive hmarked ⊢
    have hkeep : ∀ k, s.life.isDead k = true →
        k < n + 1 ∧ op.args k < ctx.nbTemps ∧ live (op.args k) = false := by
      intro k hk
      exact ⟨Nat.lt_succ_of_lt (hmarked k hk).1, (hmarked k hk).2⟩
    unfold processOutput
    dsimp only
    split
    · rename_i hlt
      refine ⟨fun t ht => ?_, fun k hk => ?_⟩
      · rw [Nat.forall_lt_succ_right]
        show Function.update s.live (op.args n) false t = true ↔ _
        rw [Function.update_apply]
        split
        · rename_i heq
          exact ⟨fun h => absurd h Bool.false_ne_true, fun h => absurd heq.symm h.2.2⟩
        · rename_i hne
          rw [halive t ht, and_iff_left (Ne.symm hne)]
      · dsimp only at hk
        split at hk
        · exact hkeep k hk
        · rename_i hdead
          cases isDead_setDead hk with
          | inr h => exact hkeep k h
          | inl h =>
            subst h
            refine ⟨Nat.lt_succ_self k, hlt, ?_⟩
            -- The outputs are distinct, so this one is as live as it was before the op.
            rw [halive _ hlt] at hdead
            rw [← Bool.not_eq_true]
            intro hlive
            refine hdead ⟨hlive, ?_⟩
            intro j hj heq
            exact absurd (args_injective hdistinct (Nat.lt_trans hj hn) hn heq) (Nat.ne_of_lt hj)
    · rename_i hge
      refine ⟨fun t ht => ?_, hkeep⟩
      have hne : op.args n ≠ t := fun heq => hge (heq ▸ ht)
      rw [Nat.forall_lt_succ_right, halive t ht, and_iff_left hne]

/-- The inputs, as the loop over the first `n` of them leaves the state. -/
structure InputsDone (ctx : Context) (op : Op) (s₀ : LiveState) (n : Nat) (s : LiveState) :
    Prop where
  alive : ∀ t < ctx.nbTemps, (s.live t = true ↔ s₀.live t = true ∨ ∃ i < n, inputOf op i = t)
  marked : ∀ k, s.life.isDead k = true → s₀.life.isDead k = true ∨
    ∃ i < n, k = op.opc.opDef.nbOargs + i ∧ inputOf op i < ctx.nbTemps ∧
      s₀.live (inputOf op i) = false

theorem inputsDone_loop (s₀ : LiveState) (n : Nat) :
    InputsDone ctx op s₀ n ((List.range n).foldl (processInput ctx op) s₀) := by
  induction n with
  | zero =>
    refine ⟨fun t _ => ?_, fun k hk => Or.inl hk⟩
    simp
  | succ n ih =>
    obtain ⟨halive, hmarked⟩ := ih
    rw [List.range_succ, List.foldl_append, List.foldl_cons, List.foldl_nil]
    generalize (List.range n).foldl (processInput ctx op) s₀ = s at halive hmarked ⊢
    have hkeep : ∀ k, s.life.isDead k = true → s₀.life.isDead k = true ∨
        ∃ i < n + 1, k = op.opc.opDef.nbOargs + i ∧ inputOf op i < ctx.nbTemps ∧
          s₀.live (inputOf op i) = false := by
      intro k hk
      refine (hmarked k hk).imp_right ?_
      rintro ⟨i, hi, hrest⟩
      exact ⟨i, Nat.lt_succ_of_lt hi, hrest⟩
    unfold processInput
    dsimp only
    split
    · rename_i hlt
      refine ⟨fun t ht => ?_, fun k hk => ?_⟩
      · rw [Nat.exists_lt_succ_right]
        show Function.update s.live (inputOf op n) true t = true ↔ _
        rw [Function.update_apply]
        split
        · rename_i heq
          exact ⟨fun _ => Or.inr (Or.inr heq.symm), fun _ => rfl⟩
        · rename_i hne
          rw [halive t ht, or_iff_left (Ne.symm hne)]
      · dsimp only at hk
        split at hk
        · exact hkeep k hk
        · rename_i hdead
          cases isDead_lastUse hk with
          | inr h => exact hkeep k h
          | inl h =>
            refine Or.inr ⟨n, Nat.lt_succ_self n, h, hlt, ?_⟩
            rw [← Bool.not_eq_true]
            intro hlive
            exact hdead ((halive _ hlt).mpr (Or.inl hlive))
    · rename_i hge
      refine ⟨fun t ht => ?_, hkeep⟩
      have hne : inputOf op n ≠ t := by
        intro heq
        rw [← heq] at ht
        exact hge ht
      rw [Nat.exists_lt_succ_right, halive t ht, or_iff_left hne]

/-- The live temps that the analysis starts an op with. -/
def liveAfter (ctx : Context) (op : Op) (live : Nat → Bool) : Nat → Bool :=
  if op.opc.opDef.flags.contains .bbEnd then atBlockEnd ctx live else live

theorem liveAfter_of_live {t : Nat} (h : live t = true) : liveAfter ctx op live t = true := by
  unfold liveAfter
  split
  · rw [atBlockEnd, h, Bool.or_true]
  · exact h

/-- What the analysis does to an op and to the live temps: nothing but the liveness bits changes,
and an argument is marked only if its temp is not live after the op or, for an input, is an output
too. -/
structure Analysed (ctx : Context) (live : Nat → Bool) (op : Op) (r : (Nat → Bool) × Op) :
    Prop where
  same : ∃ life, r.2 = { op with life := life }
  alive : ∀ t < ctx.nbTemps, (r.1 t = true ↔
    (liveAfter ctx op live t = true ∧ t ∉ op.oargs) ∨ t ∈ op.iargs)
  output : ∀ k < op.opc.opDef.nbOargs, r.2.life.isDead k = true →
    op.args k < ctx.nbTemps ∧ liveAfter ctx op live (op.args k) = false
  input : ∀ i < op.opc.opDef.nbIargs, r.2.life.isDead (op.opc.opDef.nbOargs + i) = true →
    inputOf op i < ctx.nbTemps ∧
      (inputOf op i ∈ op.oargs ∨ liveAfter ctx op live (inputOf op i) = false)

theorem mem_iargs {t : Nat} : t ∈ op.iargs ↔ ∃ i < op.opc.opDef.nbIargs, inputOf op i = t := by
  simp [Op.iargs, inputOf]

/-- Both loops done. -/
theorem analysed_of_done {s s' : LiveState}
    (hout : OutputsDone ctx op (liveAfter ctx op live) op.opc.opDef.nbOargs s)
    (hin : InputsDone ctx op s op.opc.opDef.nbIargs s') :
    Analysed ctx live op (s'.live, { op with life := s'.life }) := by
  obtain ⟨halive, hmarked⟩ := hin
  have hmem : ∀ t, (∀ k < op.opc.opDef.nbOargs, op.args k ≠ t) ↔ t ∉ op.oargs := by
    intro t
    rw [mem_oargs]
    push Not
    rfl
  refine ⟨⟨_, rfl⟩, ?_, ?_, ?_⟩
  · intro t ht
    rw [halive t ht, hout.alive t ht, hmem, mem_iargs]
  · intro k hk hdead
    cases hmarked k hdead with
    | inl h => exact (hout.marked k h).2
    | inr h =>
      obtain ⟨i, -, heq, -⟩ := h
      omega
  · intro i hi hdead
    cases hmarked _ hdead with
    | inl h =>
      have := (hout.marked _ h).1
      omega
    | inr h =>
      obtain ⟨j, -, heq, hlt, hlive⟩ := h
      have hij : i = j := Nat.add_left_cancel heq
      subst hij
      refine ⟨hlt, ?_⟩
      by_cases hin : inputOf op i ∈ op.oargs
      · exact Or.inl hin
      · refine Or.inr ?_
        rw [← Bool.not_eq_true]
        intro hl
        have := (hout.alive _ hlt).mpr ⟨hl, (hmem _).mpr hin⟩
        rw [hlive] at this
        cases this

theorem analysed_livenessOp (hdistinct : op.oargs.Nodup) :
    Analysed ctx live op (livenessOp ctx live op) := by
  unfold livenessOp
  dsimp only
  show Analysed ctx live op (if op.opc = .nop ∨ op.opc = .insnStart then (liveAfter ctx op live, op)
    else _)
  split
  · rename_i hskip
    have hnone : op.opc.opDef.nbOargs = 0 ∧ op.opc.opDef.nbIargs = 0 := by
      cases hskip with
      | inl h => rw [h]; exact ⟨rfl, rfl⟩
      | inr h => rw [h]; exact ⟨rfl, rfl⟩
    have hempty : op.oargs = [] ∧ op.iargs = [] := by
      constructor
      · rw [Op.oargs, hnone.1]
        rfl
      · rw [Op.iargs, hnone.2]
        rfl
    refine ⟨⟨op.life, rfl⟩, ?_, ?_, ?_⟩
    · intro t _
      simp [hempty]
    · intro k hk
      omega
    · intro i hi
      omega
  · exact analysed_of_done (outputsDone_loop hdistinct (Nat.le_refl _)) (inputsDone_loop _ _)

/-! ## Reads and writes -/

/-- Some op reads the temp, and no op before it writes it. -/
def ReadFirst : List Op → Nat → Prop
  | [], _ => False
  | op :: ops, t => t ∈ op.iargs ∨ (t ∉ op.oargs ∧ ReadFirst ops t)

/-- The op that reads it, and the ops before. -/
theorem exists_of_readFirst {ops : List Op} {t : Nat} (h : ReadFirst ops t) :
    ∃ (n : Nat) (op : Op), ops[n]? = some op ∧ t ∈ op.iargs ∧
      ∀ m < n, ∀ op' : Op, ops[m]? = some op' → t ∉ op'.oargs := by
  induction ops with
  | nil => cases h
  | cons op ops ih =>
    cases h with
    | inl h => exact ⟨0, op, rfl, h, fun m hm => absurd hm (Nat.not_lt_zero m)⟩
    | inr h =>
      obtain ⟨n, op', hop', hread, hbefore⟩ := ih h.2
      refine ⟨n + 1, op', hop', hread, ?_⟩
      intro m hm op'' hop''
      cases m with
      | zero =>
        injection hop'' with hop''
        exact hop'' ▸ h.1
      | succ m => exact hbefore m (Nat.lt_of_succ_lt_succ hm) op'' hop''

/-- What is read first is live. -/
theorem alive_of_readFirst {ops : List Op} (hdistinct : ∀ op ∈ ops, op.oargs.Nodup) {t : Nat}
    (ht : t < ctx.nbTemps) (h : ReadFirst ops t) : (livenessFrom ctx ops).1 t = true := by
  induction ops with
  | nil => cases h
  | cons op ops ih =>
    have hop : Analysed ctx (livenessFrom ctx ops).1 op
        (livenessOp ctx (livenessFrom ctx ops).1 op) :=
      analysed_livenessOp (hdistinct op List.mem_cons_self)
    show (livenessOp ctx (livenessFrom ctx ops).1 op).1 t = true
    rw [hop.alive t ht]
    cases h with
    | inl h => exact Or.inr h
    | inr h =>
      refine Or.inl ⟨liveAfter_of_live (ih ?_ h.2), h.1⟩
      intro op' hop'
      exact hdistinct op' (List.mem_cons_of_mem op hop')

/-- The analysed op at a position, by the ops after it. -/
theorem livenessAnalysis_getElem (ctx : Context) (ops : List Op) (n : Nat) :
    (livenessAnalysis ctx ops)[n]? =
      ops[n]?.map fun op => (livenessOp ctx (livenessFrom ctx (ops.drop (n + 1))).1 op).2 := by
  induction ops generalizing n with
  | nil => rfl
  | cons op ops ih =>
    cases n with
    | zero => rfl
    | succ n => exact ih n

/-- The marks on an op, by what the ops after it read. -/
structure MarkedRight (op : Op) (rest : List Op) : Prop where
  output : ∀ k < op.opc.opDef.nbOargs, op.life.isDead k = true → ¬ ReadFirst rest (op.args k)
  input : ∀ i < op.opc.opDef.nbIargs, op.life.isDead (op.opc.opDef.nbOargs + i) = true →
    inputOf op i ∈ op.oargs ∨ ¬ ReadFirst rest (inputOf op i)

/-- An argument is marked dead only if no later op reads its temp before one writes it. -/
theorem markedRight {ops : List Op} (hdistinct : ∀ op ∈ ops, op.oargs.Nodup) {n : Nat} {op : Op}
    (h : (livenessAnalysis ctx ops)[n]? = some op) :
    (∃ op₀ life, ops[n]? = some op₀ ∧ op = { op₀ with life := life }) ∧
      MarkedRight op (ops.drop (n + 1)) := by
  rw [livenessAnalysis_getElem] at h
  obtain ⟨op₀, hop₀, h⟩ := Option.map_eq_some_iff.mp h
  have hop : Analysed ctx (livenessFrom ctx (ops.drop (n + 1))).1 op₀
      (livenessOp ctx (livenessFrom ctx (ops.drop (n + 1))).1 op₀) :=
    analysed_livenessOp (hdistinct op₀ (List.mem_of_getElem? hop₀))
  obtain ⟨life, hsame⟩ := hop.same
  have houtput := hop.output
  have hinput := hop.input
  rw [h] at hsame houtput hinput
  have hrest : ∀ op' ∈ ops.drop (n + 1), op'.oargs.Nodup :=
    fun op' hmem => hdistinct op' (List.mem_of_mem_drop hmem)
  have hdead : ∀ t < ctx.nbTemps,
      liveAfter ctx op₀ (livenessFrom ctx (ops.drop (n + 1))).1 t = false →
        ¬ ReadFirst (ops.drop (n + 1)) t := by
    intro t ht hlive hread
    rw [liveAfter_of_live (alive_of_readFirst hrest ht hread)] at hlive
    cases hlive
  refine ⟨⟨op₀, life, hop₀, hsame⟩, ?_⟩
  subst hsame
  refine ⟨?_, ?_⟩
  · intro k hk hmark
    obtain ⟨hlt, hlive⟩ := houtput k hk hmark
    exact hdead _ hlt hlive
  · intro i hi hmark
    obtain ⟨hlt, hlive⟩ := hinput i hi hmark
    exact hlive.imp_right (hdead _ hlt)

/-! ## Loads -/

/-- Running an op loads a temp that is dead: `temp_load_to` finds one, or an argument of a call is
one. -/
def LoadsDead (p : Pass) (op : Op) : Prop :=
  match op.opc with
  | .nop | .insnStart | .setLabel | .br | .exitTb | .gotoTb | .mb => False
  | .mov => valOf p (op.args 1) = some .dead
  | .gotoPtr => valOf p (op.args 0) = some .dead
  | .brCond => ∃ i < op.opc.opDef.nbIargs, ∃ s,
      (List.range i).foldlM (loadBranchInput op) (p, [], .empty) = some s ∧
        valOf s.1 (inputOf op i) = some .dead
  | .call => ∃ (p₁ p₂ p₃ : Pass) (targets : List Reg),
      syncGlobals p = some p₁ ∧ callerSaved.foldlM spillLocal p₁ = some p₂ ∧
      ∃ i < op.opc.opDef.nbIargs,
        ((op.iargs.zip targets).take i).foldlM (fun p a => loadArg p a.1 a.2) p₂ = some p₃ ∧
          valOf p₃ (inputOf op i) = some .dead
  | opc => ∃ i < op.opc.opDef.nbIargs, ∃ s,
      (List.range i).foldlM (loadInput op (opConstraint opc)) (p, Inputs.new) = some s ∧
        valOf s.1 (inputOf op i) = some .dead

/-- No temp that an op reads is dead. -/
def InputsAlive (p : Pass) (op : Op) : Prop := ∀ t ∈ op.iargs, valOf p t ≠ some .dead

theorem valOf_of_ends {p p' : Pass} {t : Nat} (h : Ends (fun _ => False) p p')
    (hdead : valOf p' t = some .dead) : valOf p t = some .dead := by
  cases h.dead t hdead with
  | inl h => exact h
  | inr h => exact h.1.elim

theorem not_loadsDead {p : Pass} (h : InputsAlive p op) : ¬ LoadsDead p op := by
  have hinput : ∀ i < op.opc.opDef.nbIargs, valOf p (inputOf op i) ≠ some .dead :=
    fun i hi => h _ (mem_iargs.mpr ⟨i, hi, rfl⟩)
  unfold LoadsDead
  split
  case h_8 hop =>
    have hsource := hinput 0 (by rw [hop]; decide)
    rw [inputOf, hop] at hsource
    exact hsource
  case h_9 hop =>
    have htarget := hinput 0 (by rw [hop]; decide)
    rw [inputOf, hop] at htarget
    exact htarget
  case h_10 =>
    rintro ⟨i, hi, ⟨q, regs, allocated⟩, hload, hdead⟩
    exact hinput i hi (valOf_of_ends (ends_loadBranchInputs hload) hdead)
  case h_11 =>
    rintro ⟨p₁, p₂, p₃, targets, hsync, hspill, i, hi, hload, hdead⟩
    exact hinput i hi (valOf_of_ends (ends_callArgs hsync hspill hload) hdead)
  case h_12 =>
    rintro ⟨i, hi, ⟨q, ins⟩, hload, hdead⟩
    have hmoves : Moves (fun t => t ∈ op.iargs) (fun _ => False) p q :=
      (moves_loadInputs (Nat.le_of_lt hi) hload).1
    exact hinput i hi (valOf_of_ends hmoves.toEnds hdead)
  all_goals exact id

/-! ## The whole pass -/

/-- The temps before the pass: only locals start dead. -/
def OnlyLocalsDead (ctx : Context) : Prop :=
  ∀ t temp, ctx.temp t = some temp → temp.valType = .dead → temp.kind = .ebb ∨ temp.kind = .tb

/-- Every local that an op reads is written by an earlier op. -/
def WrittenBeforeRead (ctx : Context) (ops : List Op) : Prop :=
  ∀ (n : Nat) (op : Op), ops[n]? = some op → ∀ t ∈ op.iargs, ∀ temp, ctx.temp t = some temp →
    (temp.kind = .ebb ∨ temp.kind = .tb) → ∃ m < n, ∃ op' : Op, ops[m]? = some op' ∧ t ∈ op'.oargs

/-- A dead temp is not read before it is written. -/
def DeadUnread (p : Pass) (rest : List Op) : Prop :=
  ∀ t, valOf p t = some .dead → ¬ ReadFirst rest t

theorem deadUnread_initPass {ops : List Op} (hctx : OnlyLocalsDead ctx)
    (hwritten : WrittenBeforeRead ctx ops) : DeadUnread (initPass ctx) ops := by
  intro t hdead hread
  obtain ⟨temp, htemp, hval⟩ := Option.map_eq_some_iff.mp hdead
  obtain ⟨n, op, hop, hmem, hbefore⟩ := exists_of_readFirst hread
  obtain ⟨m, hm, op', hop', hwrite⟩ :=
    hwritten n op hop t hmem temp htemp (hctx t temp htemp hval)
  exact hbefore m hm op' hop' hwrite

/-- One op of the pass: it ends only what is not read again. -/
theorem deadUnread_stepOp {p p' : Pass} {rest : List Op} (hmarked : MarkedRight op rest)
    (hdead : DeadUnread p (op :: rest)) (h : stepOp p op = some p') : DeadUnread p' rest := by
  obtain ⟨hends, houtputs⟩ := ended_stepOp h
  intro t ht hread
  by_cases hout : t ∈ op.oargs
  · obtain ⟨k, hk, hmark, rfl⟩ := houtputs t hout ht
    exact hmarked.output k hk hmark hread
  · cases hends.dead t ht with
    | inl hp => exact hdead t hp (Or.inr ⟨hout, hread⟩)
    | inr hmark =>
      cases hmark.1 with
      | inl h =>
        obtain ⟨-, i, hi, hdeadi, rfl⟩ := h
        exact (hmarked.input i hi hdeadi).elim hout (fun hnot => hnot hread)
      | inr h =>
        obtain ⟨k, hk, -, rfl⟩ := h
        exact hout (mem_oargs.mpr ⟨k, hk, rfl⟩)

theorem drop_of_getElem {ops : List Op} {n : Nat} (h : ops[n]? = some op) :
    ops.drop n = op :: ops.drop (n + 1) := by
  obtain ⟨hn, rfl⟩ := List.getElem?_eq_some_iff.mp h
  exact List.drop_eq_getElem_cons hn

/-- **No dead temp is loaded**, and an argument is marked dead only if no later op reads its temp
before one writes it. -/
theorem dead_never_loaded (ctx : Context) (ops : List Op) (hctx : OnlyLocalsDead ctx)
    (hdistinct : ∀ op ∈ ops, op.oargs.Nodup) (hwritten : WrittenBeforeRead ctx ops) (n : Nat)
    (op : Op) (hop : (livenessAnalysis ctx ops)[n]? = some op) :
    MarkedRight op (ops.drop (n + 1)) ∧
      ∀ p, regallocAndCodegen ctx ((livenessAnalysis ctx ops).take n) = some p →
        ¬ LoadsDead p op := by
  refine ⟨(markedRight hdistinct hop).2, ?_⟩
  intro p hp
  have hlt : n < (livenessAnalysis ctx ops).length := (List.getElem?_eq_some_iff.mp hop).1
  have hinv : DeadUnread p (ops.drop n) := by
    refine foldlM_take (fun n p => DeadUnread p (ops.drop n)) ?_ ?_ (Nat.le_of_lt hlt) hp
    · exact deadUnread_initPass hctx hwritten
    · intro m op' q q' hop' hq hstep
      obtain ⟨⟨op₀, life, hop₀, rfl⟩, hmarked⟩ := markedRight hdistinct hop'
      refine deadUnread_stepOp hmarked ?_ hstep
      intro t hdead hread
      refine hq t hdead ?_
      rw [drop_of_getElem hop₀]
      exact hread
  obtain ⟨⟨op₀, life, hop₀, rfl⟩, -⟩ := markedRight hdistinct hop
  refine not_loadsDead ?_
  intro t ht hdead
  refine hinv t hdead ?_
  rw [drop_of_getElem hop₀]
  exact Or.inl ht

/-- `mov t, 5; add u, t, 6`. -/
def sumOps : List Op := [Op.withArgs .mov .i64 [4, 2], Op.withArgs .add .i64 [5, 4, 3]]

theorem written_sumOps : WrittenBeforeRead RegBookkeeping.demoContext sumOps := by
  have hconst : ∀ t temp, (t = 2 ∨ t = 3) → RegBookkeeping.demoContext.temp t = some temp →
      ¬ (temp.kind = .ebb ∨ temp.kind = .tb) := by
    rintro t temp (rfl | rfl) htemp <;> cases htemp <;> decide
  intro n op hop t ht temp htemp hkind
  match n, hop with
  | 0, hop =>
    cases hop
    have ht : t = 2 := List.mem_singleton.mp ht
    exact absurd hkind (hconst t temp (Or.inl ht) htemp)
  | 1, hop =>
    cases hop
    have ht : t ∈ [4, 3] := ht
    rcases List.mem_pair.mp ht with rfl | rfl
    · exact ⟨0, by decide, _, rfl, by decide⟩
    · exact absurd hkind (hconst 3 temp (Or.inr rfl) htemp)
  | n + 2, hop => cases hop

theorem dead_never_loaded_sum : ∃ op, (livenessAnalysis RegBookkeeping.demoContext sumOps)[1]? = some op ∧
    MarkedRight op [] ∧
      ∀ p, regallocAndCodegen RegBookkeeping.demoContext
          ((livenessAnalysis RegBookkeeping.demoContext sumOps).take 1) = some p → ¬ LoadsDead p op := by
  have hctx : OnlyLocalsDead RegBookkeeping.demoContext := by
    intro t temp htemp hdead
    have hall : ∀ t < 6, (RegBookkeeping.demoContext.temps t).valType = .dead →
        (RegBookkeeping.demoContext.temps t).kind = .ebb ∨
          (RegBookkeeping.demoContext.temps t).kind = .tb := by decide
    rw [Context.temp] at htemp
    split at htemp
    · rename_i hlt
      injection htemp with htemp
      subst htemp
      exact hall t hlt hdead
    · cases htemp
  have hdistinct : ∀ op ∈ sumOps, op.oargs.Nodup := by
    intro op hop
    rcases List.mem_pair.mp hop with rfl | rfl <;> decide
  exact ⟨_, rfl, dead_never_loaded RegBookkeeping.demoContext sumOps hctx hdistinct written_sumOps 1 _
    rfl⟩

end TcgRs.Analysis.DeadTemps
