import TcgRs.Analysis.OptimizerTable

/-!
# Facts of the optimizer in straight-line code

The facts of the optimizer's table are followed through a run: forgetting keeps the table true,
and recording a fact about the destination does so as long as no other temp is still held to be a
copy of it.
-/

set_option autoImplicit false

namespace TcgRs.Analysis.OptimizerFacts

open Model.Ir Model.Optimize Interface.Ir FoldValues OptimizerTable

variable {σ : Type} {ctx base : Context} {info info' : Facts} {temps temps' : Nat → BitVec 64}

/-! ## Recording -/

/-- No other temp is held to be a copy of the destination. -/
def NoLinks (info : Facts) (dst : Nat) : Prop := ∀ t, (info t).copyOf = some dst → t = dst

/-- Recording a constant that was just written. -/
theorem factsTrue_setConst {dst : Nat} (h : FactsTrue ctx info temps) (hdst : IsVar ctx dst)
    (hlinks : NoLinks info dst) (v : BitVec 64) :
    FactsTrue ctx (setConst info dst v) (Function.update temps dst v) := by
  have hother : ∀ t, t ≠ dst →
      valueOf ctx (Function.update temps dst v) t = valueOf ctx temps t :=
    fun t ht => valueOf_congr (Function.update_of_ne ht _ _)
  unfold setConst
  constructor
  · intro t ht
    by_cases htd : t = dst
    · rw [htd, valueOf_isVar hdst, Function.update_self, Function.update_self]
    · rw [Function.update_of_ne htd] at ht ⊢
      rw [hother t htd, h.constant t ht]
  · intro t u hu
    by_cases htd : t = dst
    · rw [htd, Function.update_self] at hu
      cases hu
    · rw [Function.update_of_ne htd] at hu
      have hud : u ≠ dst := by
        intro heq
        rw [heq] at hu
        exact htd (hlinks t hu)
      rw [hother t htd, hother u hud, h.copy t u hu]

/-- Recording a copy that was just made. -/
theorem factsTrue_setCopy {dst src : Nat} (h : FactsTrue ctx info temps) (hdst : IsVar ctx dst)
    (hlinks : NoLinks info dst) (hsrc : (info src).isConst = false) :
    FactsTrue ctx (setCopy info dst src) (Function.update temps dst (valueOf ctx temps src)) := by
  have hother : ∀ t, t ≠ dst →
      valueOf ctx (Function.update temps dst (valueOf ctx temps src)) t = valueOf ctx temps t :=
    fun t ht => valueOf_congr (Function.update_of_ne ht _ _)
  have hnew : valueOf ctx (Function.update temps dst (valueOf ctx temps src)) dst =
      valueOf ctx temps src := by
    rw [valueOf_isVar hdst, Function.update_self]
  unfold setCopy
  rw [if_neg (by rw [hsrc]; exact Bool.false_ne_true)]
  constructor
  · intro t ht
    by_cases htd : t = dst
    · rw [htd, Function.update_self] at ht
      cases ht
    · rw [Function.update_of_ne htd] at ht ⊢
      rw [hother t htd, h.constant t ht]
  · intro t u hu
    by_cases htd : t = dst
    · rw [htd, Function.update_self] at hu
      cases hu
      rw [htd, hnew]
      by_cases hsd : src = dst
      · rw [hsd] at hnew ⊢
        exact hnew.symm
      · exact (hother src hsd).symm
    · rw [Function.update_of_ne htd] at hu
      have hud : u ≠ dst := by
        intro heq
        rw [heq] at hu
        exact htd (hlinks t hu)
      rw [hother t htd, hother u hud, h.copy t u hu]

theorem factsTrue_invalidateOne (h : FactsTrue ctx info temps) (dst : Nat) (v : BitVec 64) :
    FactsTrue ctx (invalidateOne info dst) (Function.update temps dst v) := by
  apply h.of_weaker (invalidateOne_weaker _ _)
  intro t ht
  apply Function.update_of_ne
  intro heq
  rw [heq] at ht
  exact ht (silent_invalidateOne _ _)

theorem factsTrue_noteConst (h : FactsTrue ctx info temps) {c : Nat} (hlt : c < ctx.nbTemps)
    (hc : (ctx.temps c).isConst = true) :
    FactsTrue ctx (noteConst info c (ctx.temps c).val) temps := by
  constructor
  · intro t ht
    by_cases htc : t = c
    · rw [htc]
      simp [noteConst, valueOf, hlt, hc]
    · simp only [noteConst, Function.update_of_ne htc] at ht ⊢
      exact h.constant t ht
  · intro t u hu
    rw [noteConst_copyOf] at hu
    exact h.copy t u hu

/-- Folding to a constant, for a destination that nothing is held to be a copy of. -/
theorem factsTrue_replaceWithConst {p : Pass} (hinv : PassInv base p)
    (h : FactsTrue p.ctx p.info temps) (op : Op) {dst : Nat} (hdst : IsVar p.ctx dst)
    (hlinks : NoLinks p.info dst) (val : BitVec 64) (ty : IrType) :
    FactsTrue (replaceWithConst p op dst val ty).1.ctx (replaceWithConst p op dst val ty).1.info
      (Function.update temps dst (val &&& typeMask ty)) := by
  obtain ⟨hinv', hext, hinfo, hlt, hc, hv⟩ := newConst_spec hinv ty (val &&& typeMask ty)
  unfold replaceWithConst
  dsimp only
  generalize p.newConst ty (val &&& typeMask ty) = q at *
  have hfacts := h.extend hinv hext
  rw [← hinfo] at hfacts hlinks
  have hnote := factsTrue_noteConst hfacts hlt hc
  rw [hv] at hnote
  have hlinks' : NoLinks (noteConst q.1.info q.2 (val &&& typeMask ty)) dst := by
    intro t ht
    rw [noteConst_copyOf] at ht
    exact hlinks t ht
  exact factsTrue_setConst hnote (hdst.extends hext) hlinks' _

/-! ## One op -/

/-- The state with one temp overwritten. -/
def setTemp (s : State σ) (dst : Nat) (v : BitVec 64) : State σ :=
  { s with temps := Function.update s.temps dst v }

theorem execOp_unary {op : Op} {f : ∀ n : Nat, BitVec n → BitVec n} (hf : unaryOp op.opc = some f)
    (E : Effects σ) (ctx : Context) (s : State σ) :
    execOp E ctx op s =
      setTemp s (op.args 0) (atType op.opType f (valueOf ctx s.temps (op.args 1))) := by
  obtain ⟨opc, ty, life, pref, args, nargs⟩ := op
  cases opc <;> simp only [unaryOp, Option.some_inj, reduceCtorEq] at hf <;> subst hf <;> rfl

theorem execOp_convert {op : Op} {f : BitVec 64 → BitVec 64} (hf : convertOp op.opc = some f)
    (E : Effects σ) (ctx : Context) (s : State σ) :
    execOp E ctx op s = setTemp s (op.args 0) (f (valueOf ctx s.temps (op.args 1))) := by
  obtain ⟨opc, ty, life, pref, args, nargs⟩ := op
  cases opc <;> simp only [convertOp, Option.some_inj, reduceCtorEq] at hf <;> subst hf <;> rfl

theorem execOp_binary {op : Op} {f : ∀ n : Nat, BitVec n → BitVec n → BitVec n}
    (hf : binaryOp op.opc = some f) (E : Effects σ) (ctx : Context) (s : State σ) :
    execOp E ctx op s = setTemp s (op.args 0) (atType₂ op.opType f
      (valueOf ctx s.temps (op.args 1)) (valueOf ctx s.temps (op.args 2))) := by
  obtain ⟨opc, ty, life, pref, args, nargs⟩ := op
  cases opc <;> simp only [binaryOp, Option.some_inj, reduceCtorEq] at hf <;> subst hf <;> rfl

/-- Whether the fold of an op ends in `set_const` or `set_copy`. -/
def recordsFact (info : Facts) (op : Op) : Bool :=
  match op.opc with
  | .mov => true
  | .neg | .not | .extI32I64 | .extUI32I64 | .extrlI64I32 | .extrhI64I32 =>
    (info (op.args 1)).isConst
  | .add | .sub | .mul | .and | .or | .xor | .andC | .shl | .shr | .sar | .rotL | .rotR =>
    match binaryResult info op with
    | some (.const _) => true
    | _ => false
  | _ => false

/-- A value that fits the type is unchanged by a move at that type. -/
theorem atType_id {ty : IrType} {v : BitVec 64} (h : ty = .i32 → v.toNat < 2 ^ 32) :
    atType ty (fun _ x => x) v = v := by
  unfold atType
  split
  · rename_i hty
    apply BitVec.eq_of_toNat_eq
    rw [BitVec.toNat_setWidth, BitVec.toNat_setWidth, Nat.mod_eq_of_lt (h hty)]
    exact Nat.mod_eq_of_lt v.isLt
  · rfl

section

variable {p : Pass} {op : Op} {s : State σ} (E : Effects σ) (hinv : PassInv base p)
  (h : FactsTrue p.ctx p.info s.temps) (hdst : IsVar p.ctx (op.args 0))
include h

/-- An op that forgets its outputs, whatever it writes to them. -/
theorem factsTrue_forget (hout : ∀ t ∈ op.oargs, IsVar p.ctx t)
    (hw : Weaker info' (invalidateOutputs p.ctx p.info op)) :
    FactsTrue p.ctx info' (execOp E ctx op s).temps := by
  apply h.of_weaker (hw.trans (invalidateOutputs_weaker _ _ _))
  intro t ht
  apply execOp_of_not_mem
  intro hmem
  exact ht ((silent_invalidateOutputs p.info hmem (hout t hmem)).of_weaker hw)

include hdst

theorem factsTrue_foldMov (hopc : op.opc = .mov) (hlinks : NoLinks p.info (op.args 0))
    (hfits : op.opType = .i32 → (p.info (op.args 1)).isConst = false →
      (valueOf p.ctx s.temps (op.args 1)).toNat < 2 ^ 32) :
    FactsTrue (foldMov p op).1.ctx (foldMov p op).1.info (execOp E p.ctx op s).temps := by
  rw [execOp_unary (f := fun _ x => x) (by rw [hopc]; rfl)]
  unfold foldMov setTemp
  dsimp only
  cases hconst : (p.info (op.args 1)).isConst with
  | true =>
    rw [if_pos rfl, ← and_typeMask, h.constant _ hconst]
    exact factsTrue_setConst h hdst hlinks _
  | false =>
    rw [if_neg Bool.false_ne_true, atType_id (fun hty => hfits hty hconst)]
    exact factsTrue_setCopy h hdst hlinks hconst

include hinv

theorem factsTrue_foldUnary (hopc : op.opc = .neg ∨ op.opc = .not)
    (hlinks : (p.info (op.args 1)).isConst = true → NoLinks p.info (op.args 0)) :
    FactsTrue (foldUnary p op).1.ctx (foldUnary p op).1.info (execOp E p.ctx op s).temps := by
  obtain ⟨f, hf⟩ : ∃ f, unaryOp op.opc = some f := by
    cases hopc with
    | inl h => exact ⟨_, by rw [h]; rfl⟩
    | inr h => exact ⟨_, by rw [h]; rfl⟩
  rw [execOp_unary hf]
  unfold foldUnary setTemp
  dsimp only
  cases hconst : (p.info (op.args 1)).isConst with
  | true =>
    have hrec := factsTrue_replaceWithConst hinv h op hdst (hlinks hconst)
      (evalUnary op.opc (p.info (op.args 1)).val op.opType) op.opType
    rw [evalUnary_eq hopc hf, atType_and_typeMask] at hrec
    rw [if_pos rfl, h.constant _ hconst, evalUnary_eq hopc hf]
    exact hrec
  | false =>
    rw [if_neg Bool.false_ne_true]
    exact factsTrue_invalidateOne h _ _

theorem factsTrue_foldExt {f : BitVec 64 → BitVec 64} (hf : convertOp op.opc = some f)
    (hlinks : (p.info (op.args 1)).isConst = true → NoLinks p.info (op.args 0)) :
    FactsTrue (foldExt p op).1.ctx (foldExt p op).1.info (execOp E p.ctx op s).temps := by
  rw [execOp_convert hf]
  unfold foldExt setTemp
  dsimp only
  cases hconst : (p.info (op.args 1)).isConst with
  | true =>
    have hrec := factsTrue_replaceWithConst hinv h op hdst (hlinks hconst)
      (evalExt op.opc (p.info (op.args 1)).val) (convertedType op.opc)
    rw [evalExt_and_typeMask hf] at hrec
    rw [if_pos rfl, h.constant _ hconst, ← evalExt_eq hf]
    exact hrec
  | false =>
    rw [if_neg Bool.false_ne_true]
    exact factsTrue_invalidateOne h _ _

theorem factsTrue_foldBinary {f : ∀ n : Nat, BitVec n → BitVec n → BitVec n}
    (hopc : evaluated op.opc = true) (hf : binaryOp op.opc = some f)
    (hlinks : (∃ v, binaryResult p.info op = some (.const v)) → NoLinks p.info (op.args 0)) :
    FactsTrue (foldBinary p op).1.ctx (foldBinary p op).1.info (execOp E p.ctx op s).temps := by
  rw [execOp_binary hf]
  unfold foldBinary setTemp
  dsimp only
  cases hres : binaryResult p.info op with
  | none => exact factsTrue_invalidateOne h _ _
  | some r =>
    have hval := (binaryResult_value hopc hf h.constant hres).1
    cases r with
    | mov src => exact factsTrue_invalidateOne h _ _
    | neg src => exact factsTrue_invalidateOne h _ _
    | const v =>
      rw [← hval]
      exact factsTrue_replaceWithConst hinv h op hdst (hlinks ⟨v, hres⟩) v op.opType

end

/-! ## Ops in other contexts -/

/-- Two ops that agree but for inputs of the same values do the same. -/
theorem execOp_congr {op op' : Op} {ctx ctx' : Context} {s : State σ} (hopc : op'.opc = op.opc)
    (hty : op'.opType = op.opType) (hout : op'.oargs = op.oargs) (hcargs : op'.cargs = op.cargs)
    (hin : op'.iargs.map (valueOf ctx' s.temps) = op.iargs.map (valueOf ctx s.temps))
    (hglob : globalsOf ctx' s.temps = globalsOf ctx s.temps) (E : Effects σ) :
    execOp E ctx' op' s = execOp E ctx op s := by
  have hwrite : ∀ outs, writeOutputs op' outs s.temps = writeOutputs op outs s.temps := by
    intro outs
    unfold Op.oargs at hout
    rw [hopc, List.map_inj_left] at hout
    unfold writeOutputs
    rw [hopc]
    apply List.foldl_ext
    intro temps i hi
    rw [hout i hi]
  unfold execOp
  rw [hopc, hty, hcargs, hin, hglob]
  simp only [hwrite]

/-- In a larger context an op does what it did. -/
theorem execOp_extends (he : Extends base ctx) {op : Op} (hin : ∀ t ∈ op.iargs, t < base.nbTemps)
    (hglob : base.nbGlobals ≤ base.nbTemps) (E : Effects σ) (s : State σ) :
    execOp E ctx op s = execOp E base op s := by
  refine execOp_congr rfl rfl rfl rfl ?_ ?_ E
  · apply List.map_congr_left
    intro t ht
    exact he.valueOf (hin t ht) _
  · unfold globalsOf
    funext t
    rw [he.globals]
    split
    · rename_i ht
      exact he.valueOf (Nat.lt_of_lt_of_le ht hglob) _
    · rfl

theorem execOp_propagateCopies {s : State σ} (h : FactsTrue ctx info s.temps) (op : Op)
    (E : Effects σ) : execOp E ctx (propagateCopies info op) s = execOp E ctx op s := by
  refine execOp_congr (show (propagateCopies info op).opc = op.opc from rfl) rfl
    (oargs_propagateCopies info op) (cargs_propagateCopies info op) ?_ rfl E
  unfold Op.iargs
  rw [List.map_map, List.map_map]
  apply List.map_congr_left
  intro i _
  exact valueOf_propagateCopies h op _

/-! ## The run -/

/-- The condition on one op of a run: its temps exist and no output is a constant; when its fold
records a constant or a copy, no other temp is held to be a copy of the destination; and a 32-bit
move of an unknown value copies one that fits in 32 bits. -/
structure FactStep (base : Context) (p : Pass) (op : Op) (s : State σ) : Prop where
  formed : OpFormed base op
  links : recordsFact p.info (propagateCopies p.info op) = true → NoLinks p.info (op.args 0)
  fits : op.opc = .mov → op.opType = .i32 →
    (p.info ((propagateCopies p.info op).args 1)).isConst = false →
    (valueOf base s.temps (op.args 1)).toNat < 2 ^ 32

section

variable {op : Op}

theorem recordsFact_unary (info : Facts) (hopc : op.opc = .neg ∨ op.opc = .not) :
    recordsFact info op = (info (op.args 1)).isConst := by
  cases hopc with
  | inl h => rw [recordsFact, h]
  | inr h => rw [recordsFact, h]

theorem recordsFact_convert (info : Facts) {f : BitVec 64 → BitVec 64}
    (hf : convertOp op.opc = some f) : recordsFact info op = (info (op.args 1)).isConst := by
  obtain ⟨opc, ty, life, pref, args, nargs⟩ := op
  cases opc <;> simp only [convertOp, reduceCtorEq] at hf <;> rfl

theorem recordsFact_binary {info : Facts} (hopc : evaluated op.opc = true) {v : BitVec 64}
    (hv : binaryResult info op = some (.const v)) : recordsFact info op = true := by
  obtain ⟨opc, ty, life, pref, args, nargs⟩ := op
  cases opc <;> simp only [evaluated, Bool.false_eq_true] at hopc <;> simp only [recordsFact, hv]

/-- Only ops with one output record a fact. -/
theorem nbOargs_of_recordsFact {info : Facts} (h : recordsFact info op = true) :
    op.opc.opDef.nbOargs = 1 := by
  obtain ⟨opc, ty, life, pref, args, nargs⟩ := op
  cases opc <;> first | rfl | cases h

end

theorem factsTrue_foldOp {p : Pass} {op : Op} {s : State σ} (E : Effects σ) (hinv : PassInv base p)
    (h : FactsTrue p.ctx p.info s.temps) (hout : ∀ t ∈ op.oargs, IsVar p.ctx t)
    (hlinks : recordsFact p.info op = true → NoLinks p.info (op.args 0))
    (hfits : op.opc = .mov → op.opType = .i32 → (p.info (op.args 1)).isConst = false →
      (valueOf p.ctx s.temps (op.args 1)).toNat < 2 ^ 32) :
    FactsTrue (foldOp p op).1.ctx (foldOp p op).1.info (execOp E p.ctx op s).temps := by
  rcases foldOp_cases p op with ⟨hopc, heq⟩ | ⟨hopc, heq⟩ | ⟨⟨f, hf⟩, heq⟩ | ⟨⟨hopc, f, hf⟩, heq⟩ |
    ⟨hopc, heq⟩ | heq <;> rw [heq]
  · apply factsTrue_foldMov E h (isVar_dst hout (by rw [hopc]; rfl)) hopc
    · exact hlinks (by rw [recordsFact, hopc])
    · exact hfits hopc
  · apply factsTrue_foldUnary E hinv h (isVar_dst hout (nbOargs_unary hopc)) hopc
    intro hconst
    exact hlinks ((recordsFact_unary _ hopc).trans hconst)
  · apply factsTrue_foldExt E hinv h (isVar_dst hout (nbOargs_convert hf)) hf
    intro hconst
    exact hlinks ((recordsFact_convert _ hf).trans hconst)
  · apply factsTrue_foldBinary E hinv h (isVar_dst hout (nbOargs_binary hopc)) hopc hf
    intro hconst
    obtain ⟨v, hv⟩ := hconst
    exact hlinks (recordsFact_binary hopc hv)
  · -- a conditional branch changes neither the table nor a temp
    have hexec : execOp E p.ctx op s = s := by
      unfold execOp
      rw [hopc]
      rfl
    rw [hexec]
    exact h
  · exact factsTrue_forget (p := p) E h hout (Weaker.refl _)

/-- One op of the pass keeps the truth of the facts. -/
theorem factsTrue_optimizeOp {p : Pass} {op : Op} {s : State σ} (E : Effects σ)
    (hglob : base.nbGlobals ≤ base.nbTemps) (hinv : PassInv base p)
    (h : FactsTrue p.ctx p.info s.temps) (hstep : FactStep base p op s) :
    FactsTrue (optimizeOp p op).1.ctx (optimizeOp p op).1.info (execOp E base op s).temps := by
  have hout : ∀ t ∈ op.oargs, IsVar p.ctx t :=
    fun t ht => (hstep.formed.outputs t ht).extends hinv.extend
  rw [← execOp_extends hinv.extend hstep.formed.inputs hglob E s]
  unfold optimizeOp
  split
  · exact factsTrue_forget (p := p) E h hout (resetCopies_weaker _)
  · split
    · exact factsTrue_forget (p := p) E h hout (Weaker.refl _)
    · rw [← execOp_propagateCopies h op E]
      apply factsTrue_foldOp E hinv h (hstep.formed.propagate hinv).outputs
      · intro hrec
        have hone : (propagateCopies p.info op).opc.opDef.nbOargs = 1 :=
          nbOargs_of_recordsFact hrec
        change op.opc.opDef.nbOargs = 1 at hone
        rw [propagateCopies_args p.info op 0 (by omega)]
        exact hstep.links hrec
      · intro hopc hty hconst
        rw [valueOf_propagateCopies h]
        have hsrc : op.args 1 < base.nbTemps := by
          apply hstep.formed.inputs
          have hopc' : op.opc = .mov := hopc
          rw [Op.iargs, hopc']
          exact List.mem_singleton_self _
        rw [hinv.extend.valueOf hsrc]
        exact hstep.fits hopc hty hconst

/-- The pass and the machine after some ops, taken in order. -/
def runBoth (E : Effects σ) (base : Context) (p : Pass) (s : State σ) (ops : List Op) :
    Pass × State σ :=
  ops.foldl (fun ps op => ((optimizeOp ps.1 op).1, execOp E base op ps.2)) (p, s)

theorem runBoth_append (E : Effects σ) (base : Context) (p : Pass) (s : State σ) (pre : List Op)
    (op : Op) : runBoth E base p s (pre ++ [op]) =
      ((optimizeOp (runBoth E base p s pre).1 op).1,
        execOp E base op (runBoth E base p s pre).2) := by
  unfold runBoth
  rw [List.foldl_append]
  rfl

theorem startPass_facts (constTable : IrType → BitVec 64 → Option Nat) (temps : Nat → BitVec 64) :
    FactsTrue ctx (startPass ctx constTable).info temps where
  constant t ht := by
    simp only [startPass, seedInfo] at ht ⊢
    split at ht
    · rename_i hc
      simp [valueOf, hc]
    · cases ht
  copy t u hu := by
    simp only [startPass, seedInfo] at hu
    split at hu <;> cases hu

/-- In straight-line code, after any prefix of the ops, every constant and every copy the
optimizer knows of is true of the values the ops have computed, as long as each op met the
condition when the pass came to it. -/
theorem optimizer_facts_true_along_run (E : Effects σ) (ctx : Context)
    (hglob : ctx.nbGlobals ≤ ctx.nbTemps) (constTable : IrType → BitVec 64 → Option Nat)
    (htable : TableSound ctx constTable) (ops : List Op) (s : State σ)
    (hsteps : ∀ pre op post, ops = pre ++ op :: post →
      FactStep ctx (runBoth E ctx (startPass ctx constTable) s pre).1 op
        (runBoth E ctx (startPass ctx constTable) s pre).2) :
    ∀ pre post, ops = pre ++ post →
      FactsTrue (runBoth E ctx (startPass ctx constTable) s pre).1.ctx
        (runBoth E ctx (startPass ctx constTable) s pre).1.info
        (runBoth E ctx (startPass ctx constTable) s pre).2.temps := by
  -- induction on the prefix from its end; the invariant of the pass comes along
  have hrun : ∀ pre post, ops = pre ++ post →
      PassInv ctx (runBoth E ctx (startPass ctx constTable) s pre).1 ∧
      FactsTrue (runBoth E ctx (startPass ctx constTable) s pre).1.ctx
        (runBoth E ctx (startPass ctx constTable) s pre).1.info
        (runBoth E ctx (startPass ctx constTable) s pre).2.temps := by
    intro pre
    induction pre using List.reverseRecOn with
    | nil =>
      intro post _
      exact ⟨startPass_inv htable, startPass_facts constTable s.temps⟩
    | append_singleton pre op ih =>
      intro post hops
      rw [List.append_assoc, List.singleton_append] at hops
      obtain ⟨hinv, hfacts⟩ := ih _ hops
      have hstep := hsteps pre op post hops
      rw [runBoth_append]
      exact ⟨(kept_optimizeOp hinv hstep.formed).inv,
        factsTrue_optimizeOp E hglob hinv hfacts hstep⟩
  intro pre post hops
  exact (hrun pre post hops).2

/-- Three 64-bit globals in a CPU state that the fixed temp 0 points to. -/
def threeGlobals : Context where
  temps t := if t = 0 then Temp.newFixed .i64 .rbp else Temp.newGlobal .i64 0 (8 * t)
  nbTemps := 4
  nbGlobals := 4
  frameReg := none
  frameStart := 0
  frameEnd := 0
  frameAllocEnd := 0

/-- A machine with nothing but temps, in which temp `t` holds `t`. -/
def numbered : State Unit := ⟨fun t => BitVec.ofNat 64 t, ()⟩

/-- No op has an effect beyond its outputs, which are zero. -/
def noEffects : Effects Unit := ⟨fun _ _ _ _ _ w => (fun _ => 0, w)⟩

def noConsts : IrType → BitVec 64 → Option Nat := fun _ _ => none

theorem optimizer_facts_true_copy_then_not :
    FactsTrue
      (runBoth noEffects threeGlobals (startPass threeGlobals noConsts) numbered
        [Op.withArgs .mov .i64 [2, 1], Op.withArgs .not .i64 [3, 2]]).1.ctx
      (runBoth noEffects threeGlobals (startPass threeGlobals noConsts) numbered
        [Op.withArgs .mov .i64 [2, 1], Op.withArgs .not .i64 [3, 2]]).1.info
      (runBoth noEffects threeGlobals (startPass threeGlobals noConsts) numbered
        [Op.withArgs .mov .i64 [2, 1], Op.withArgs .not .i64 [3, 2]]).2.temps := by
  refine optimizer_facts_true_along_run noEffects threeGlobals (by decide) noConsts
    (fun _ _ _ h => by cases h) _ numbered ?_ _ [] (List.append_nil _).symm
  have hvar : ∀ t, 0 < t → t < 4 → IsVar threeGlobals t := by
    intro t h0 h4
    refine ⟨h4, ?_⟩
    simp [threeGlobals, Nat.ne_of_gt h0, Temp.newGlobal, Temp.isConst]
  have hseed : ∀ t u, (seedInfo threeGlobals t).copyOf ≠ some u := by
    intro t u hu
    unfold seedInfo at hu
    split at hu <;> cases hu
  intro pre op post hops
  cases pre with
  | nil =>
    obtain ⟨rfl, -⟩ := List.cons.inj hops
    refine ⟨⟨fun t ht => ?_, fun t ht => ?_⟩, fun _ t ht => absurd ht (hseed _ _),
      fun _ hty => by cases hty⟩
    · rw [List.mem_singleton.mp ht]
      exact hvar 2 (by decide) (by decide)
    · rw [List.mem_singleton.mp ht]
      decide
  | cons a pre =>
    cases pre with
    | nil =>
      obtain ⟨rfl, htail⟩ := List.cons.inj hops
      obtain ⟨rfl, -⟩ := List.cons.inj htail
      refine ⟨⟨fun t ht => ?_, fun t ht => ?_⟩, fun hrec => ?_, fun hopc => by cases hopc⟩
      · rw [List.mem_singleton.mp ht]
        exact hvar 3 (by decide) (by decide)
      · rw [List.mem_singleton.mp ht]
        decide
      · exact absurd hrec (by decide)
    | cons b pre => simp at hops

/-- After `mov t2, t1` and `mov t1, t3` temp 2 is still held to be a copy of temp 1, which has
another value by then. -/
theorem stale_copy_after_redefinition :
    ¬FactsTrue
      (runBoth noEffects threeGlobals (startPass threeGlobals noConsts) numbered
        [Op.withArgs .mov .i64 [2, 1], Op.withArgs .mov .i64 [1, 3]]).1.ctx
      (runBoth noEffects threeGlobals (startPass threeGlobals noConsts) numbered
        [Op.withArgs .mov .i64 [2, 1], Op.withArgs .mov .i64 [1, 3]]).1.info
      (runBoth noEffects threeGlobals (startPass threeGlobals noConsts) numbered
        [Op.withArgs .mov .i64 [2, 1], Op.withArgs .mov .i64 [1, 3]]).2.temps := by
  intro h
  have hcopy := h.copy 2 1 (by decide)
  exact absurd hcopy (by decide)

end TcgRs.Analysis.OptimizerFacts
