import TcgRs.Analysis.OptimizerFacts

/-!
# The optimizer and the meaning of a block

The pass rewrites a block op by op, so the two blocks are run in lockstep: an op and its
replacement leave the same state and go to the same place, as long as the facts the pass relied
on are true there.  Facts are true wherever control comes from the op before; at a label they must
also be true for the branches that go to it.
-/

set_option autoImplicit false

namespace TcgRs.Analysis.OptimizerMeaning

open Model.Ir Model.Optimize Interface.Ir FoldValues BranchFolding OptimizerTable OptimizerFacts

variable {σ : Type} {ctx base fin : Context} {p : Pass} {op : Op} {s : State σ}

/-! ## One op -/

theorem execOp_mov {dst src : Nat} (E : Effects σ) (ctx : Context) (s : State σ) :
    execOp E ctx (rewriteOp op .mov [dst, src]) s =
      setTemp s dst (atType op.opType (fun _ x => x) (valueOf ctx s.temps src)) :=
  execOp_unary (f := fun _ x => x) rfl E ctx s

theorem execOp_neg {dst src : Nat} (E : Effects σ) (ctx : Context) (s : State σ) :
    execOp E ctx (rewriteOp op .neg [dst, src]) s =
      setTemp s dst (atType op.opType (fun _ x => -x) (valueOf ctx s.temps src)) :=
  execOp_unary (f := fun _ x => -x) rfl E ctx s

/-- The replacement by a constant moves the constant. -/
theorem execOp_replaceWithConst (hinv : PassInv base p) {dst : Nat} {val : BitVec 64} {ty : IrType}
    (he : Extends (replaceWithConst p op dst val ty).1.ctx fin) (E : Effects σ) (s : State σ) :
    execOp E fin (replaceWithConst p op dst val ty).2 s =
      setTemp s dst (atType op.opType (fun _ x => x) (val &&& typeMask ty)) := by
  obtain ⟨-, -, -, hlt, hc, hv⟩ := newConst_spec hinv ty (val &&& typeMask ty)
  have hvalue : valueOf fin s.temps (p.newConst ty (val &&& typeMask ty)).2 =
      val &&& typeMask ty := by
    rw [he.valueOf hlt]
    show valueOf (p.newConst ty (val &&& typeMask ty)).1.ctx s.temps _ = _
    unfold valueOf
    rw [if_pos ⟨hlt, hc⟩, hv]
  show execOp E fin (rewriteOp op .mov [dst, (p.newConst ty (val &&& typeMask ty)).2]) s = _
  rw [execOp_mov, hvalue]

/-- A move at the type of an op keeps the result of the op. -/
theorem atType_idem (ty : IrType) (f : ∀ n : Nat, BitVec n → BitVec n) (x : BitVec 64) :
    atType ty (fun _ x => x) (atType ty f x) = atType ty f x := by
  rw [← and_typeMask, atType_and_typeMask]

theorem atType_idem₂ (ty : IrType) (f : ∀ n : Nat, BitVec n → BitVec n → BitVec n)
    (x y : BitVec 64) : atType ty (fun _ x => x) (atType₂ ty f x y) = atType₂ ty f x y := by
  rw [← and_typeMask, atType₂_and_typeMask]

/-- But for the sign extension, a conversion folds to a 32-bit value. -/
theorem evalExt_fits {opc : Opcode} {f : BitVec 64 → BitVec 64} (hf : convertOp opc = some f)
    (hopc : opc ≠ .extI32I64) (a : BitVec 64) : (evalExt opc a).toNat < 2 ^ 32 := by
  have hmask : ∀ x : BitVec 64, (x &&& 0xFFFFFFFF).toNat < 2 ^ 32 := by
    intro x
    rw [BitVec.toNat_and]
    exact Nat.lt_of_le_of_lt Nat.and_le_right (by decide)
  cases opc <;> simp only [convertOp, reduceCtorEq] at hf
  case extI32I64 => exact absurd rfl hopc
  all_goals exact hmask _

theorem iargs_binary (hopc : evaluated op.opc = true) : op.iargs = [op.args 1, op.args 2] := by
  obtain ⟨opc, ty, life, pref, args, nargs⟩ := op
  cases opc <;> simp only [evaluated, Bool.false_eq_true] at hopc <;> rfl

theorem execOp_control (hc : isControl op.opc = true) (E : Effects σ) (ctx : Context)
    (s : State σ) : execOp E ctx op s = s := by
  unfold execOp
  rw [if_pos hc]

theorem isControl_foldBrcond (hopc : op.opc = .brCond) : isControl (foldBrcond p op).opc = true := by
  unfold foldBrcond
  dsimp only
  split_ifs
  · rfl
  · rfl
  · rw [hopc]
    rfl

section

variable (E : Effects σ) (hinv : PassInv base p) (h : FactsTrue p.ctx p.info s.temps)
  (hin : ∀ t ∈ op.iargs, t < p.ctx.nbTemps) (hglob : p.ctx.nbGlobals ≤ p.ctx.nbTemps)
include hinv h hin hglob

theorem execOp_foldUnary (hopc : op.opc = .neg ∨ op.opc = .not)
    (he : Extends (foldUnary p op).1.ctx fin) :
    execOp E fin (foldUnary p op).2 s = execOp E p.ctx op s := by
  obtain ⟨f, hf⟩ : ∃ f, unaryOp op.opc = some f := by
    cases hopc with
    | inl h => exact ⟨_, by rw [h]; rfl⟩
    | inr h => exact ⟨_, by rw [h]; rfl⟩
  unfold foldUnary at he ⊢
  dsimp only at he ⊢
  cases hconst : (p.info (op.args 1)).isConst with
  | true =>
    rw [hconst, if_pos rfl] at he
    rw [if_pos rfl, execOp_replaceWithConst hinv he, execOp_unary hf, h.constant _ hconst,
      evalUnary_eq hopc hf, atType_and_typeMask, atType_idem]
  | false =>
    rw [hconst, if_neg Bool.false_ne_true] at he
    rw [if_neg Bool.false_ne_true]
    exact execOp_extends he hin hglob E s

theorem execOp_foldExt {f : BitVec 64 → BitVec 64} (hf : convertOp op.opc = some f)
    (htyped : op.opc = .extI32I64 → op.opType ≠ .i32) (he : Extends (foldExt p op).1.ctx fin) :
    execOp E fin (foldExt p op).2 s = execOp E p.ctx op s := by
  unfold foldExt at he ⊢
  dsimp only at he ⊢
  cases hconst : (p.info (op.args 1)).isConst with
  | true =>
    rw [hconst, if_pos rfl] at he
    rw [if_pos rfl, execOp_replaceWithConst hinv he, execOp_convert hf, h.constant _ hconst]
    have hmask := evalExt_and_typeMask hf (p.info (op.args 1)).val
    unfold convertedType at hmask
    rw [hmask, atType_id, evalExt_eq hf]
    intro hty
    exact evalExt_fits hf (fun hopc => htyped hopc hty) _
  | false =>
    rw [hconst, if_neg Bool.false_ne_true] at he
    rw [if_neg Bool.false_ne_true]
    exact execOp_extends he hin hglob E s

theorem execOp_foldBinary {f : ∀ n : Nat, BitVec n → BitVec n → BitVec n}
    (hopc : evaluated op.opc = true) (hf : binaryOp op.opc = some f)
    (he : Extends (foldBinary p op).1.ctx fin) :
    execOp E fin (foldBinary p op).2 s = execOp E p.ctx op s := by
  unfold foldBinary at he ⊢
  dsimp only at he ⊢
  cases hres : binaryResult p.info op with
  | none =>
    rw [hres] at he
    exact execOp_extends he hin hglob E s
  | some r =>
    obtain ⟨hval, hsrc⟩ := binaryResult_value hopc hf h.constant hres
    have hexist : ∀ t, r = .mov t ∨ r = .neg t → t < p.ctx.nbTemps := by
      intro t ht
      apply hin
      have hiargs : op.iargs = [op.args 1, op.args 2] := iargs_binary hopc
      rw [hiargs]
      cases hsrc t ht with
      | inl h => simp [h]
      | inr h => simp [h]
    rw [hres] at he
    dsimp only at he ⊢
    rw [execOp_binary hf, ← hval]
    cases r with
    | mov src =>
      show execOp E fin (rewriteOp op .mov [op.args 0, src]) s = _
      rw [execOp_mov, he.valueOf (hexist src (.inl rfl))]
      rfl
    | neg src =>
      show execOp E fin (rewriteOp op .neg [op.args 0, src]) s = _
      rw [execOp_neg, he.valueOf (hexist src (.inr rfl))]
      rfl
    | const v =>
      have hconst := execOp_replaceWithConst hinv he E s
      show execOp E fin (replaceWithConst p op (op.args 0) v op.opType).2 s =
        setTemp s (op.args 0) (v &&& typeMask op.opType)
      rw [hconst, ← and_typeMask, BitVec.and_assoc, BitVec.and_self]

/-- The fold of an op does what the op does. -/
theorem execOp_foldOp (htyped : op.opc = .extI32I64 → op.opType ≠ .i32)
    (he : Extends (foldOp p op).1.ctx fin) :
    execOp E fin (foldOp p op).2 s = execOp E p.ctx op s := by
  rcases foldOp_cases p op with ⟨hopc, heq⟩ | ⟨hopc, heq⟩ | ⟨⟨f, hf⟩, heq⟩ | ⟨⟨hopc, f, hf⟩, heq⟩ |
    ⟨hopc, heq⟩ | heq <;> rw [heq] at he ⊢
  · exact execOp_extends he hin hglob E s
  · exact execOp_foldUnary E hinv h hin hglob hopc he
  · exact execOp_foldExt E hinv h hin hglob hf htyped he
  · exact execOp_foldBinary E hinv h hin hglob hopc hf he
  · rw [execOp_control (isControl_foldBrcond hopc), execOp_control (by rw [hopc]; rfl)]
  · exact execOp_extends he hin hglob E s

end

/-- An op and its replacement leave the same state. -/
theorem execOp_optimizeOp (E : Effects σ) (hglob : base.nbGlobals ≤ base.nbTemps)
    (hinv : PassInv base p) (h : FactsTrue p.ctx p.info s.temps) (hop : OpFormed base op)
    (htyped : op.opc = .extI32I64 → op.opType ≠ .i32) (he : Extends (optimizeOp p op).1.ctx fin) :
    execOp E fin (optimizeOp p op).2 s = execOp E base op s := by
  have hglob' : p.ctx.nbGlobals ≤ p.ctx.nbTemps := by
    rw [hinv.extend.globals]
    exact hglob.trans hinv.extend.more
  have hsame : ∀ fin, Extends p.ctx fin → execOp E fin op s = execOp E base op s :=
    fun fin he => execOp_extends (hinv.extend.trans he) hop.inputs hglob E s
  unfold optimizeOp at he ⊢
  split
  · rename_i hb
    rw [if_pos hb] at he
    exact hsame fin he
  · rename_i hb
    rw [if_neg hb] at he
    split
    · rename_i hs
      rw [if_pos hs] at he
      exact hsame fin he
    · rename_i hs
      rw [if_neg hs] at he
      rw [execOp_foldOp E hinv h (hop.propagate hinv).inputs hglob' htyped he,
        execOp_propagateCopies h, hsame p.ctx (Extends.refl _)]

/-! ## Control -/

/-- But for conditional branches, ops that move control end a basic block or are skipped. -/
theorem left_alone {opc : Opcode} (hc : isControl opc = true) (hne : opc ≠ .brCond) :
    isBoundary opc = true ∨ isSkipped opc = true := by
  cases opc <;> first | exact .inl rfl | exact .inr (by decide) | exact absurd rfl hne | cases hc

theorem optimizeOp_of_control (p : Pass) (hc : isControl op.opc = true) (hne : op.opc ≠ .brCond) :
    (optimizeOp p op).2 = op := by
  unfold optimizeOp
  split
  · rfl
  · rename_i hb
    rw [if_pos ((left_alone hc hne).resolve_left hb)]

/-- A conditional branch goes through its fold. -/
theorem optimizeOp_brCond (p : Pass) (hopc : op.opc = .brCond) :
    optimizeOp p op = (p, foldBrcond p (propagateCopies p.info op)) := by
  have hb : isBoundary op.opc ≠ true := by
    rw [hopc]
    decide
  have hs : isSkipped op.opc ≠ true := by
    rw [hopc]
    decide
  have hopc' : (propagateCopies p.info op).opc = .brCond := hopc
  unfold optimizeOp foldOp
  rw [if_neg hb, if_neg hs, hopc']

/-- An op that does not move control is not replaced by one that does. -/
theorem isControl_optimizeOp (p : Pass) (hc : isControl op.opc = false) :
    isControl (optimizeOp p op).2.opc = false := by
  have hfold : ∀ op : Op, isControl op.opc = false → isControl (foldOp p op).2.opc = false := by
    intro op hc
    rcases foldOp_cases p op with ⟨hopc, heq⟩ | ⟨hopc, heq⟩ | ⟨⟨f, hf⟩, heq⟩ |
      ⟨⟨hopc, f, hf⟩, heq⟩ | ⟨hopc, heq⟩ | heq <;> rw [heq]
    · exact hc
    · unfold foldUnary
      dsimp only
      split
      · rfl
      · exact hc
    · unfold foldExt
      dsimp only
      split
      · rfl
      · exact hc
    · unfold foldBinary
      dsimp only
      split
      · rename_i r _
        cases r <;> rfl
      · exact hc
    · rw [hopc] at hc
      cases hc
    · exact hc
  unfold optimizeOp
  split
  · exact hc
  · split
    · exact hc
    · exact hfold _ hc

/-- Whether an op sets a label is not changed by the pass. -/
theorem isLabel_optimizeOp (p : Pass) (op : Op) (label : Nat) :
    ((optimizeOp p op).2.opc = .setLabel ∧ (optimizeOp p op).2.args 0 = label) ↔
      (op.opc = .setLabel ∧ op.args 0 = label) := by
  cases hc : isControl op.opc with
  | false =>
    have hne : ∀ opc : Opcode, isControl opc = false → opc ≠ .setLabel := by
      intro opc h heq
      rw [heq] at h
      cases h
    exact iff_of_false (fun h => hne _ (isControl_optimizeOp p hc) h.1) (fun h => hne _ hc h.1)
  | true =>
    by_cases hopc : op.opc = .brCond
    · have hfold : (foldBrcond p (propagateCopies p.info op)).opc ≠ .setLabel := by
        unfold foldBrcond
        dsimp only
        split_ifs
        · exact Opcode.noConfusion
        · exact Opcode.noConfusion
        · show op.opc ≠ .setLabel
          rw [hopc]
          exact Opcode.noConfusion
      rw [optimizeOp_brCond p hopc, hopc]
      exact iff_of_false (fun h => hfold h.1) (fun h => by cases h.1)
    · rw [optimizeOp_of_control p hc hopc]

/-- A folded condition is the condition, if constants of a signed 32-bit comparison have the same
sign. -/
theorem evalCond_eq_condAtType {a b : BitVec 64} {cond : Cond} {ty : IrType}
    (hsign : ty = .i32 → cond.isSigned = true → a.getLsbD 31 = b.getLsbD 31) :
    evalCond a b cond ty = condAtType ty cond a b := by
  unfold condAtType
  by_cases hty : ty = .i32
  · have hmsb : ∀ z : BitVec 64, (z.setWidth 32).msb = z.getLsbD 31 := by
      intro z
      simp [BitVec.msb_eq_getLsbD_last]
    have hsame := hsign hty
    rw [← hmsb, ← hmsb] at hsame
    rw [if_pos hty, hty, evalCond_i32]
    cases cond with
    | lt | ge => simp [condHolds, (slt_eq_ult_iff _ _).mpr (hsame rfl)]
    | le | gt => simp [condHolds, (sle_eq_ule_iff _ _).mpr (hsame rfl)]
    | _ => rfl
  · have hmask : typeMask ty = typeMask .i64 := by
      cases ty <;> first | rfl | exact absurd rfl hty
    rw [if_neg hty, ← evalCond_i64]
    unfold evalCond
    rw [hmask]

/-- A conditional branch and its fold go to the same place. -/
theorem nextPc_foldBrcond {ops ops' : List Op} (hlabels : ∀ l, labelPos ops' l = labelPos ops l)
    (hopc : op.opc = .brCond) (hinv : PassInv base p) (h : FactsTrue p.ctx p.info s.temps)
    (hop : OpFormed base op)
    (hsign : op.opType = .i32 → (condFromCarg (op.args 2)).isSigned = true →
      (p.info ((propagateCopies p.info op).args 0)).isConst = true →
      (p.info ((propagateCopies p.info op).args 1)).isConst = true →
      (p.info ((propagateCopies p.info op).args 0)).val.getLsbD 31 =
        (p.info ((propagateCopies p.info op).args 1)).val.getLsbD 31)
    (he : Extends p.ctx fin) (pc : Nat) :
    nextPc fin ops' pc (foldBrcond p (propagateCopies p.info op)) s = nextPc base ops pc op s := by
  have hiargs : op.iargs = [op.args 0, op.args 1] := by
    rw [Op.iargs, hopc]
    rfl
  have hbase : ∀ i, op.args i ∈ op.iargs →
      valueOf p.ctx s.temps ((propagateCopies p.info op).args i) =
        valueOf base s.temps (op.args i) := by
    intro i hi
    rw [valueOf_propagateCopies h, hinv.extend.valueOf (hop.inputs _ hi)]
  have ha := hbase 0 (by simp [hiargs])
  have hb := hbase 1 (by simp [hiargs])
  have hcarg : ∀ i, 2 ≤ i → (propagateCopies p.info op).args i = op.args i := by
    intro i hi
    apply propagateCopies_args
    rw [hopc]
    show ¬(0 ≤ i ∧ i < 0 + 2)
    omega
  have hnext : nextPc base ops pc op s =
      if condAtType op.opType (condOfCarg (op.args 2)) (valueOf base s.temps (op.args 0))
        (valueOf base s.temps (op.args 1)) then (labelPos ops (op.args 3)).map .inl
      else some (.inl (pc + 1)) := by
    unfold nextPc
    rw [hopc]
  rw [hnext]
  unfold foldBrcond
  dsimp only
  split
  · -- both inputs are known: the branch becomes a jump or nothing
    rename_i hconst
    rw [Bool.and_eq_true] at hconst
    have hcond := evalCond_eq_condAtType fun hty hs => hsign hty hs hconst.1 hconst.2
    rw [← h.constant _ hconst.1, ← h.constant _ hconst.2, ha, hb] at hcond
    rw [← h.constant _ hconst.1, ← h.constant _ hconst.2, ha, hb, hcarg 2 (by omega)]
    change evalCond _ _ (condFromCarg (op.args 2)) op.opType = _ at hcond
    show nextPc fin ops' pc
      (if evalCond _ _ (condFromCarg (op.args 2)) op.opType = true then _ else _) s = _
    rw [hcond]
    show nextPc fin ops' pc
      (if condAtType op.opType (condOfCarg (op.args 2)) _ _ = true then _ else _) s = _
    split
    · show Option.map Sum.inl (labelPos ops' ((propagateCopies p.info op).args 3)) = _
      rw [hlabels, hcarg 3 (by omega)]
    · rfl
  · have hnext' : nextPc fin ops' pc (propagateCopies p.info op) s =
        if condAtType op.opType (condOfCarg ((propagateCopies p.info op).args 2))
          (valueOf fin s.temps ((propagateCopies p.info op).args 0))
          (valueOf fin s.temps ((propagateCopies p.info op).args 1))
        then (labelPos ops' ((propagateCopies p.info op).args 3)).map .inl
        else some (.inl (pc + 1)) := by
      have hopc' : (propagateCopies p.info op).opc = .brCond := hopc
      unfold nextPc
      rw [hopc']
      rfl
    have hexist : ∀ i, op.args i ∈ op.iargs →
        (propagateCopies p.info op).args i < p.ctx.nbTemps := fun i hi =>
      propagateCopies_lt hinv (Nat.lt_of_lt_of_le (hop.inputs _ hi) hinv.extend.more)
    rw [hnext', he.valueOf (hexist 0 (by simp [hiargs])), he.valueOf (hexist 1 (by simp [hiargs])),
      ha, hb, hcarg 2 (by omega), hcarg 3 (by omega), hlabels]

/-- An op and its replacement go to the same place. -/
theorem nextPc_optimizeOp {ops ops' : List Op} (hlabels : ∀ l, labelPos ops' l = labelPos ops l)
    (hinv : PassInv base p) (h : FactsTrue p.ctx p.info s.temps) (hop : OpFormed base op)
    (hsign : op.opc = .brCond → op.opType = .i32 → (condFromCarg (op.args 2)).isSigned = true →
      (p.info ((propagateCopies p.info op).args 0)).isConst = true →
      (p.info ((propagateCopies p.info op).args 1)).isConst = true →
      (p.info ((propagateCopies p.info op).args 0)).val.getLsbD 31 =
        (p.info ((propagateCopies p.info op).args 1)).val.getLsbD 31)
    (he : Extends (optimizeOp p op).1.ctx fin) (pc : Nat) :
    nextPc fin ops' pc (optimizeOp p op).2 s = nextPc base ops pc op s := by
  cases hc : isControl op.opc with
  | false =>
    have hnext : ∀ (ctx : Context) (ops : List Op) (op : Op), isControl op.opc = false →
        nextPc ctx ops pc op s = some (.inl (pc + 1)) := by
      intro ctx ops op hc
      obtain ⟨opc, ty, life, pref, args, nargs⟩ := op
      cases opc <;> first | rfl | cases hc
    rw [hnext _ _ _ hc, hnext _ _ _ (isControl_optimizeOp p hc)]
  | true =>
    have hext : Extends base fin :=
      hinv.extend.trans ((kept_optimizeOp hinv hop).extend.trans he)
    by_cases hopc : op.opc = .brCond
    · rw [optimizeOp_brCond p hopc] at he ⊢
      exact nextPc_foldBrcond hlabels hopc hinv h hop (hsign hopc) he pc
    · rw [optimizeOp_of_control p hc hopc]
      unfold nextPc
      dsimp only
      split
      · rw [hlabels]
      · rename_i hbr
        exact absurd hbr hopc
      · rfl
      · rename_i hptr
        have hexist : op.args 0 < base.nbTemps := by
          apply hop.inputs
          rw [Op.iargs, hptr]
          exact List.mem_singleton_self _
        rw [hext.valueOf hexist]
      · rfl

/-! ## The whole list -/

/-- The pass after some ops. -/
def passAfter (p : Pass) (ops : List Op) : Pass := ops.foldl (fun p op => (optimizeOp p op).1) p

theorem passAfter_take_succ (p : Pass) {ops : List Op} {k : Nat} {op : Op}
    (hop : ops[k]? = some op) :
    passAfter p (ops.take (k + 1)) = (optimizeOp (passAfter p (ops.take k)) op).1 := by
  unfold passAfter
  rw [List.take_add_one, hop, List.foldl_append]
  rfl

/-- The pass replaces each op by itself, in the state it has come to. -/
theorem optimizeOps_spec (p : Pass) (ops : List Op) :
    (optimizeOps p ops).1 = passAfter p ops ∧
      ∀ k, (optimizeOps p ops).2[k]? =
        ops[k]?.map fun op => (optimizeOp (passAfter p (ops.take k)) op).2 := by
  induction ops generalizing p with
  | nil => exact ⟨rfl, fun k => rfl⟩
  | cons op ops ih =>
    obtain ⟨hpass, hops⟩ := ih (optimizeOp p op).1
    refine ⟨hpass, fun k => ?_⟩
    cases k with
    | zero => rfl
    | succ k => exact hops k

theorem labelPos_optimizeOps (p : Pass) (ops : List Op) (label : Nat) :
    labelPos (optimizeOps p ops).2 label = labelPos ops label := by
  induction ops generalizing p with
  | nil => rfl
  | cons op ops ih =>
    show labelPos ((optimizeOp p op).2 :: (optimizeOps (optimizeOp p op).1 ops).2) label = _
    unfold labelPos at ih ⊢
    rw [List.findIdx?_cons, List.findIdx?_cons, ih, decide_eq_decide.mpr (isLabel_optimizeOp p op label)]

/-- The pass stays within its invariant, and its context only grows. -/
theorem kept_passAfter (hinv : PassInv base p) {ops : List Op} (hops : ∀ op ∈ ops, OpFormed base op) :
    Kept base p (passAfter p ops) := by
  induction ops generalizing p with
  | nil => exact ⟨hinv, Extends.refl _⟩
  | cons op ops ih =>
    have hkept := kept_optimizeOp hinv (hops op List.mem_cons_self)
    have hrest := ih hkept.inv (fun op hop => hops op (List.mem_cons_of_mem _ hop))
    exact ⟨hrest.inv, hkept.extend.trans hrest.extend⟩

/-- The label that a branch goes to. -/
def branchTarget (op : Op) : Option Nat :=
  match op.opc with
  | .br => some (op.args 0)
  | .brCond => some (op.args 3)
  | _ => none

/-- The condition on one op of a run of the block.  Beyond what keeps the facts true in straight
lines: a sign extension has its 64-bit type, a signed 32-bit branch is only folded on constants of
the same sign, and at a label that some branch goes to nothing but constant temps is known to be
constant. -/
structure MeaningStep (base : Context) (ops : List Op) (p : Pass) (op : Op) (s : State σ) :
    Prop where
  fact : FactStep base p op s
  typed : op.opc = .extI32I64 → op.opType ≠ .i32
  signs : op.opc = .brCond → op.opType = .i32 → (condFromCarg (op.args 2)).isSigned = true →
    (p.info ((propagateCopies p.info op).args 0)).isConst = true →
    (p.info ((propagateCopies p.info op).args 1)).isConst = true →
    (p.info ((propagateCopies p.info op).args 0)).val.getLsbD 31 =
      (p.info ((propagateCopies p.info op).args 1)).val.getLsbD 31
  label : op.opc = .setLabel → (∃ br ∈ ops, branchTarget br = some (op.args 0)) →
    ∀ t, (p.info t).isConst = true → t < p.ctx.nbTemps ∧ (p.ctx.temps t).isConst = true

/-- The positions and states a run of the block comes to. -/
inductive Reaches (E : Effects σ) (ctx : Context) (ops : List Op) (start : State σ) :
    Nat → State σ → Prop where
  | start : Reaches E ctx ops start 0 start
  | step {pc pc' : Nat} {op : Op} {s : State σ} (h : Reaches E ctx ops start pc s)
      (hop : ops[pc]? = some op) (hnext : nextPc ctx ops pc op s = some (.inl pc')) :
      Reaches E ctx ops start pc' (execOp E ctx op s)

/-- What is known when control comes to a position: the facts, but at a label only the constants,
for nothing else is kept there. -/
def Entry (p : Pass) (op : Op) (temps : Nat → BitVec 64) : Prop :=
  FactsTrue p.ctx (if op.opc = .setLabel then resetCopies p.info else p.info) temps

theorem entry_of_factsTrue {temps : Nat → BitVec 64} (h : FactsTrue p.ctx p.info temps) :
    Entry p op temps := by
  unfold Entry
  split
  · exact h.of_weaker (resetCopies_weaker _) (fun _ _ => rfl)
  · exact h

/-- One op of the run: its replacement does the same, and the facts after it are true. -/
theorem step_optimizeOp (E : Effects σ) (hglob : base.nbGlobals ≤ base.nbTemps)
    {ops ops' : List Op} (hlabels : ∀ l, labelPos ops' l = labelPos ops l) (hinv : PassInv base p)
    (hentry : Entry p op s.temps) (hstep : MeaningStep base ops p op s)
    (he : Extends (optimizeOp p op).1.ctx fin) (pc : Nat) :
    FactsTrue (optimizeOp p op).1.ctx (optimizeOp p op).1.info (execOp E base op s).temps ∧
      execOp E fin (optimizeOp p op).2 s = execOp E base op s ∧
      nextPc fin ops' pc (optimizeOp p op).2 s = nextPc base ops pc op s := by
  by_cases hopc : op.opc = .setLabel
  · have hexec : ∀ ctx, execOp E ctx op s = s := fun ctx => execOp_control (by rw [hopc]; rfl) E ctx s
    have hpass : optimizeOp p op = ({ p with info := resetCopies p.info }, op) := by
      have hnone : invalidateOutputs p.ctx p.info op = p.info := by
        unfold invalidateOutputs Op.oargs
        rw [hopc]
        rfl
      unfold optimizeOp
      rw [hnone, hopc]
      rfl
    unfold Entry at hentry
    rw [if_pos hopc] at hentry
    rw [hpass, hexec, hexec]
    refine ⟨hentry, rfl, ?_⟩
    unfold nextPc
    rw [hopc]
  · unfold Entry at hentry
    rw [if_neg hopc] at hentry
    exact ⟨factsTrue_optimizeOp E hglob hinv hentry hstep.fact,
      execOp_optimizeOp E hglob hinv hentry hstep.fact.formed hstep.typed he,
      nextPc_optimizeOp hlabels hinv hentry hstep.fact.formed hstep.signs he pc⟩

/-- Control goes to the next op, or to the label of a branch. -/
theorem nextPc_cases {ops : List Op} {pc pc' : Nat} (h : nextPc ctx ops pc op s = some (.inl pc')) :
    pc' = pc + 1 ∨ ∃ l, branchTarget op = some l ∧ labelPos ops l = some pc' := by
  have hmap : ∀ l, (labelPos ops l).map Sum.inl = some (Sum.inl pc' : Nat ⊕ Exit) →
      labelPos ops l = some pc' := by
    intro l hl
    obtain ⟨k, hk, heq⟩ := Option.map_eq_some_iff.mp hl
    cases heq
    exact hk
  unfold nextPc at h
  dsimp only at h
  split at h
  · rename_i hopc
    exact .inr ⟨_, by rw [branchTarget, hopc], hmap _ h⟩
  · rename_i hopc
    split at h
    · exact .inr ⟨_, by rw [branchTarget, hopc], hmap _ h⟩
    · cases h
      exact .inl rfl
  · cases h
  · cases h
  · cases h
    exact .inl rfl

theorem labelPos_eq_some {ops : List Op} {l pc : Nat} (h : labelPos ops l = some pc) :
    ∃ op, ops[pc]? = some op ∧ op.opc = .setLabel ∧ op.args 0 = l := by
  obtain ⟨hlt, hop, -⟩ := List.findIdx?_eq_some_iff_getElem.mp h
  exact ⟨ops[pc], List.getElem?_eq_getElem hlt, of_decide_eq_true hop⟩

/-- At a label only constant temps are known, so what is known is true however control got
there. -/
theorem entry_of_label {temps : Nat → BitVec 64} (hopc : op.opc = .setLabel)
    (hinv : PassInv base p)
    (hlabel : ∀ t, (p.info t).isConst = true →
      t < p.ctx.nbTemps ∧ (p.ctx.temps t).isConst = true) : Entry p op temps := by
  unfold Entry
  rw [if_pos hopc]
  constructor
  · intro t ht
    change (p.info t).isConst = true at ht
    obtain ⟨hlt, hc⟩ := hlabel t ht
    show valueOf p.ctx temps t = (p.info t).val
    unfold valueOf
    rw [if_pos ⟨hlt, hc⟩, hinv.constants t hlt hc ht]
  · intro t u hu
    cases hu

theorem run_succ (E : Effects σ) (ctx : Context) (ops : List Op) (fuel pc : Nat) (s : State σ) :
    run E ctx ops (fuel + 1) pc s = (ops[pc]?).bind fun op =>
      (nextPc ctx ops pc op s).bind fun next =>
        match next with
        | .inl pc' => run E ctx ops fuel pc' (execOp E ctx op s)
        | .inr exit => some (exit, execOp E ctx op s) := rfl

/-- The optimized block does what the block does: from every initial state, and for any number of
steps, the two interpretations give the same exit, temps and machine, as long as every op of the
run met the condition. -/
theorem optimize_preserves_run (E : Effects σ) (ctx : Context)
    (hglob : ctx.nbGlobals ≤ ctx.nbTemps) (constTable : IrType → BitVec 64 → Option Nat)
    (htable : TableSound ctx constTable) (ops : List Op) (hops : ∀ op ∈ ops, OpFormed ctx op)
    (start : State σ)
    (hsteps : ∀ pc s op, Reaches E ctx ops start pc s → ops[pc]? = some op →
      MeaningStep ctx ops (passAfter (startPass ctx constTable) (ops.take pc)) op s) :
    ∀ fuel, run E (optimize ctx constTable ops).1.ctx (optimize ctx constTable ops).2 fuel 0 start =
      run E ctx ops fuel 0 start := by
  have hstart := startPass_inv htable
  have hspec := optimizeOps_spec (startPass ctx constTable) ops
  have hinv : ∀ k, PassInv ctx (passAfter (startPass ctx constTable) (ops.take k)) :=
    fun k => (kept_passAfter hstart (fun op hop => hops op (List.mem_of_mem_take hop))).inv
  -- what the pass makes of the rest of the list only adds to the context
  have hext : ∀ k, Extends (passAfter (startPass ctx constTable) (ops.take k)).ctx
      (optimize ctx constTable ops).1.ctx := by
    intro k
    show Extends _ (optimizeOps (startPass ctx constTable) ops).1.ctx
    rw [hspec.1]
    have hsplit : passAfter (startPass ctx constTable) ops =
        passAfter (passAfter (startPass ctx constTable) (ops.take k)) (ops.drop k) := by
      unfold passAfter
      rw [← List.foldl_append, List.take_append_drop]
    rw [hsplit]
    exact (kept_passAfter (hinv k) (fun op hop => hops op (List.mem_of_mem_drop hop))).extend
  have hrun : ∀ fuel pc s, Reaches E ctx ops start pc s →
      (∀ op, ops[pc]? = some op →
        Entry (passAfter (startPass ctx constTable) (ops.take pc)) op s.temps) →
      run E (optimize ctx constTable ops).1.ctx (optimize ctx constTable ops).2 fuel pc s =
        run E ctx ops fuel pc s := by
    intro fuel
    induction fuel with
    | zero => intros; rfl
    | succ fuel ih =>
      intro pc s hreach hentry
      have hops' : (optimize ctx constTable ops).2[pc]? = _ := hspec.2 pc
      rw [run_succ, run_succ, hops']
      cases hop : ops[pc]? with
      | none => rfl
      | some op =>
        have hstep := hsteps pc s op hreach hop
        have hgrow := hext (pc + 1)
        rw [passAfter_take_succ _ hop] at hgrow
        obtain ⟨hfacts, hexec, hnext⟩ := step_optimizeOp E hglob
          (labelPos_optimizeOps (startPass ctx constTable) ops) (hinv pc) (hentry op hop) hstep
          hgrow pc
        show ((nextPc (optimize ctx constTable ops).1.ctx (optimize ctx constTable ops).2 pc
          (optimizeOp (passAfter (startPass ctx constTable) (ops.take pc)) op).2 s).bind _) = _
        rw [hexec]
        change nextPc (optimize ctx constTable ops).1.ctx (optimize ctx constTable ops).2 pc _ s = _
          at hnext
        rw [hnext]
        show (nextPc ctx ops pc op s).bind _ = (nextPc ctx ops pc op s).bind _
        cases hgo : nextPc ctx ops pc op s with
        | none => rfl
        | some next =>
          cases next with
          | inr exit => rfl
          | inl pc' =>
            have hreach' := Reaches.step hreach hop hgo
            apply ih pc' _ hreach'
            intro op' hop'
            rcases nextPc_cases hgo with rfl | ⟨l, htarget, hpos⟩
            · rw [passAfter_take_succ _ hop]
              exact entry_of_factsTrue hfacts
            · obtain ⟨lop, hlop, hset, hl⟩ := labelPos_eq_some hpos
              rw [hlop, Option.some_inj] at hop'
              rw [← hop']
              apply entry_of_label hset (hinv pc')
              apply (hsteps pc' _ lop hreach' hlop).label hset
              exact ⟨op, List.mem_of_getElem? hop, by rw [hl]; exact htarget⟩
  intro fuel
  apply hrun fuel 0 start Reaches.start
  intro op _
  exact entry_of_factsTrue (startPass_facts constTable start.temps)

/-- Three 64-bit globals and the constants zero and one. -/
def globalsAndConsts : Context :=
  { threeGlobals with
    temps := fun t =>
      if t = 4 then Temp.newConst .i64 0 else if t = 5 then Temp.newConst .i64 1
      else threeGlobals.temps t
    nbTemps := 6 }

def twoConsts : IrType → BitVec 64 → Option Nat := fun ty v =>
  if ty = .i64 ∧ v = 0 then some 4 else if ty = .i64 ∧ v = 1 then some 5 else none

theorem twoConsts_sound : TableSound globalsAndConsts twoConsts := by
  intro ty v t ht
  unfold twoConsts at ht
  split at ht
  · rename_i hkey
    cases ht
    exact ⟨by decide, by decide, hkey.2.symm⟩
  · split at ht
    · rename_i hkey
      cases ht
      exact ⟨by decide, by decide, hkey.2.symm⟩
    · cases ht

/-- A conditional addition. -/
def skipAddition : List Op :=
  [Op.withArgs .brCond .i64 [2, 4, 9, 0], Op.withArgs .add .i64 [1, 1, 3],
    Op.withArgs .setLabel .i64 [0], Op.withArgs .exitTb .i64 [0]]

/-- Only the constant temps are known before the addition, and after it. -/
theorem known_in_skipAddition {info : Facts} (hw : Weaker info (seedInfo globalsAndConsts))
    (t : Nat) (ht : (info t).isConst = true) :
    t < globalsAndConsts.nbTemps ∧ (globalsAndConsts.temps t).isConst = true := by
  have hseed := (hw.constant t ht).1
  unfold seedInfo at hseed
  split at hseed
  · assumption
  · cases hseed

theorem skipAddition_formed : ∀ op ∈ skipAddition, OpFormed globalsAndConsts op := by
  decide

theorem optimize_preserves_skipAddition :
    run noEffects (optimize globalsAndConsts twoConsts skipAddition).1.ctx
      (optimize globalsAndConsts twoConsts skipAddition).2 9 0 numbered =
        run noEffects globalsAndConsts skipAddition 9 0 numbered := by
  apply optimize_preserves_run noEffects globalsAndConsts (by decide) twoConsts twoConsts_sound
    skipAddition skipAddition_formed numbered
  intro pc s op _ hop
  have hformed := skipAddition_formed op (List.mem_of_getElem? hop)
  match pc, hop with
  | 0, hop =>
    cases hop
    exact ⟨⟨hformed, nofun, nofun⟩, nofun, nofun, nofun⟩
  | 1, hop =>
    cases hop
    exact ⟨⟨hformed, fun h => absurd h (by decide), nofun⟩, nofun, nofun, nofun⟩
  | 2, hop =>
    cases hop
    exact ⟨⟨hformed, nofun, nofun⟩, nofun, nofun,
      fun _ _ => known_in_skipAddition (invalidateOne_weaker _ 1)⟩
  | 3, hop =>
    cases hop
    exact ⟨⟨hformed, nofun, nofun⟩, nofun, nofun, nofun⟩
  | n + 4, hop => cases hop

/-- A conditional assignment of a constant, and a sum after the paths have met. -/
def skipConstant : List Op :=
  [Op.withArgs .brCond .i64 [2, 4, 9, 0], Op.withArgs .mov .i64 [1, 5],
    Op.withArgs .setLabel .i64 [0], Op.withArgs .add .i64 [3, 1, 1], Op.withArgs .exitTb .i64 [0]]

/-- When the branch is taken the sum is of temp 1 as it was; the optimized block adds the constant
of the other path. -/
theorem optimize_changes_sum_after_label :
    (run noEffects globalsAndConsts skipConstant 9 0 ⟨fun _ => 7, ()⟩).map (fun r => r.2.temps 3) =
        some 14 ∧
      (run noEffects (optimize globalsAndConsts twoConsts skipConstant).1.ctx
        (optimize globalsAndConsts twoConsts skipConstant).2 9 0 ⟨fun _ => 7, ()⟩).map
          (fun r => r.2.temps 3) = some 2 := by
  decide

end TcgRs.Analysis.OptimizerMeaning
