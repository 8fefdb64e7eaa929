import TcgRs.Analysis.FoldValues

/-!
# The optimizer's table of facts

The optimizer's table says of a temp that it is a constant or a copy of another temp.  An op of
the pass either only forgets facts, or it records one about its destination; either way the
context only grows by constant temps and the table stays about temps that exist.
-/

set_option autoImplicit false

namespace TcgRs.Analysis.OptimizerTable

open Model.Ir Model.Optimize Interface.Ir FoldValues

variable {σ : Type} {ctx base : Context} {info info' : Facts} {temps temps' : Nat → BitVec 64}

/-! ## True tables -/

/-- Every fact of the table holds of the values of the temps. -/
structure FactsTrue (ctx : Context) (info : Facts) (temps : Nat → BitVec 64) : Prop where
  constant : ∀ t, (info t).isConst = true → valueOf ctx temps t = (info t).val
  copy : ∀ t u, (info t).copyOf = some u → valueOf ctx temps t = valueOf ctx temps u

/-- `info'` has no fact that `info` has not. -/
structure Weaker (info' info : Facts) : Prop where
  constant : ∀ t, (info' t).isConst = true →
    (info t).isConst = true ∧ (info' t).val = (info t).val
  copy : ∀ t u, (info' t).copyOf = some u → (info t).copyOf = some u

/-- No fact mentions the temp. -/
def Silent (info : Facts) (t : Nat) : Prop :=
  (info t).isConst = false ∧ (info t).copyOf = none ∧ ∀ u, (info u).copyOf ≠ some t

theorem Weaker.refl (info : Facts) : Weaker info info :=
  ⟨fun _ h => ⟨h, rfl⟩, fun _ _ h => h⟩

theorem Weaker.trans {info'' : Facts} (h : Weaker info'' info') (h' : Weaker info' info) :
    Weaker info'' info where
  constant t ht := by
    have h₁ := h.constant t ht
    have h₂ := h'.constant t h₁.1
    exact ⟨h₂.1, h₁.2.trans h₂.2⟩
  copy t u hu := h'.copy t u (h.copy t u hu)

theorem Silent.of_weaker {t : Nat} (h : Silent info t) (hw : Weaker info' info) :
    Silent info' t := by
  obtain ⟨hc, hn, hl⟩ := h
  refine ⟨?_, ?_, fun u hu => hl u (hw.copy u t hu)⟩
  · by_contra hc'
    rw [Bool.not_eq_false] at hc'
    rw [(hw.constant t hc').1] at hc
    cases hc
  · cases hcopy : (info' t).copyOf with
    | none => rfl
    | some u =>
      have hu := hw.copy t u hcopy
      rw [hn] at hu
      cases hu

theorem valueOf_congr {t : Nat} (h : temps' t = temps t) :
    valueOf ctx temps' t = valueOf ctx temps t := by
  unfold valueOf
  rw [h]

/-- A weaker table stays true when only temps it does not mention change. -/
theorem FactsTrue.of_weaker (h : FactsTrue ctx info temps) (hw : Weaker info' info)
    (hsame : ∀ t, ¬Silent info' t → temps' t = temps t) : FactsTrue ctx info' temps' where
  constant t ht := by
    have hloud : ¬Silent info' t := by
      intro hs
      rw [hs.1] at ht
      cases ht
    rw [valueOf_congr (hsame t hloud), h.constant t (hw.constant t ht).1]
    exact (hw.constant t ht).2.symm
  copy t u hu := by
    have hloud : ¬Silent info' t := by
      intro hs
      rw [hs.2.1] at hu
      cases hu
    have hloud' : ¬Silent info' u := fun hs => hs.2.2 t hu
    rw [valueOf_congr (hsame t hloud), valueOf_congr (hsame u hloud')]
    exact h.copy t u (hw.copy t u hu)

/-! ## Forgetting -/

theorem invalidateOne_weaker (info : Facts) (dst : Nat) : Weaker (invalidateOne info dst) info where
  constant t ht := by
    unfold invalidateOne at ht ⊢
    split_ifs at ht ⊢ <;> simp_all
  copy t u hu := by
    unfold invalidateOne at hu
    split_ifs at hu
    simp_all

theorem silent_invalidateOne (info : Facts) (dst : Nat) : Silent (invalidateOne info dst) dst := by
  refine ⟨by simp [invalidateOne], by simp [invalidateOne], fun u hu => ?_⟩
  unfold invalidateOne at hu
  split_ifs at hu
  simp_all

theorem resetCopies_weaker (info : Facts) : Weaker (resetCopies info) info where
  constant _ ht := ⟨ht, rfl⟩
  copy _ _ hu := by simp [resetCopies] at hu

/-- The temp exists and is not a constant. -/
def IsVar (ctx : Context) (t : Nat) : Prop := t < ctx.nbTemps ∧ (ctx.temps t).isConst = false

instance (ctx : Context) (t : Nat) : Decidable (IsVar ctx t) :=
  inferInstanceAs (Decidable (_ ∧ _))

theorem IsVar.any {t : Nat} (h : IsVar ctx t) :
    (ctx.temp t).any (fun temp => !temp.isConst) = true := by
  simp [Context.temp, h.1, h.2]

theorem valueOf_isVar {t : Nat} (h : IsVar ctx t) (temps : Nat → BitVec 64) :
    valueOf ctx temps t = temps t := by
  simp [valueOf, h.2]

/-- Forgetting a list of outputs, one after another. -/
def forget (ctx : Context) (info : Facts) (l : List Nat) : Facts :=
  l.foldl (fun info t =>
    if (ctx.temp t).any (fun temp => !temp.isConst) then invalidateOne info t else info) info

theorem forget_spec (ctx : Context) (l : List Nat) (info : Facts) :
    Weaker (forget ctx info l) info ∧ ∀ t ∈ l, IsVar ctx t → Silent (forget ctx info l) t := by
  induction l generalizing info with
  | nil => exact ⟨Weaker.refl _, fun t ht => by cases ht⟩
  | cons a l ih =>
    unfold forget
    rw [List.foldl_cons]
    split
    · rename_i ha
      obtain ⟨hw, hs⟩ := ih (invalidateOne info a)
      refine ⟨hw.trans (invalidateOne_weaker info a), fun t ht hvar => ?_⟩
      cases List.mem_cons.mp ht with
      | inl h =>
        rw [h]
        exact (silent_invalidateOne info a).of_weaker hw
      | inr h => exact hs t h hvar
    · rename_i ha
      obtain ⟨hw, hs⟩ := ih info
      refine ⟨hw, fun t ht hvar => ?_⟩
      cases List.mem_cons.mp ht with
      | inl h =>
        rw [h] at hvar
        exact absurd hvar.any ha
      | inr h => exact hs t h hvar

theorem invalidateOutputs_weaker (ctx : Context) (info : Facts) (op : Op) :
    Weaker (invalidateOutputs ctx info op) info := (forget_spec ctx op.oargs info).1

theorem silent_invalidateOutputs (info : Facts) {op : Op} {t : Nat} (ht : t ∈ op.oargs)
    (hvar : IsVar ctx t) : Silent (invalidateOutputs ctx info op) t :=
  (forget_spec ctx op.oargs info).2 t ht hvar

/-- An op changes nothing but its outputs. -/
theorem writeOutputs_of_not_mem {op : Op} {t : Nat} (ht : t ∉ op.oargs) (outs temps : Nat → BitVec 64) :
    writeOutputs op outs temps t = temps t := by
  have hgen : ∀ l : List Nat, (∀ i ∈ l, op.args i ≠ t) → ∀ temps : Nat → BitVec 64,
      l.foldl (fun temps i => Function.update temps (op.args i) (outs i)) temps t = temps t := by
    intro l
    induction l with
    | nil => intro _ temps; rfl
    | cons i l ih =>
      intro hne temps
      rw [List.foldl_cons, ih (fun j hj => hne j (List.mem_cons_of_mem _ hj)),
        Function.update_of_ne (hne i List.mem_cons_self).symm]
  apply hgen
  intro i hi heq
  exact ht (List.mem_map.mpr ⟨i, hi, heq⟩)

theorem execOp_of_not_mem {op : Op} {t : Nat} (ht : t ∉ op.oargs) (E : Effects σ) (ctx : Context)
    (s : State σ) : (execOp E ctx op s).temps t = s.temps t := by
  unfold execOp
  dsimp only
  split
  · rfl
  · split
    · exact writeOutputs_of_not_mem ht _ _
    · exact writeOutputs_of_not_mem ht _ _

/-! ## The context of the pass -/

/-- The temps of `ctx` are those of `base`, and perhaps more. -/
structure Extends (base ctx : Context) : Prop where
  more : base.nbTemps ≤ ctx.nbTemps
  same : ∀ t, t < base.nbTemps → ctx.temps t = base.temps t
  globals : ctx.nbGlobals = base.nbGlobals

theorem Extends.refl (ctx : Context) : Extends ctx ctx := ⟨Nat.le_refl _, fun _ _ => rfl, rfl⟩

theorem Extends.trans {mid : Context} (h : Extends base mid) (h' : Extends mid ctx) :
    Extends base ctx where
  more := h.more.trans h'.more
  same t ht := (h'.same t (Nat.lt_of_lt_of_le ht h.more)).trans (h.same t ht)
  globals := h'.globals.trans h.globals

theorem Extends.valueOf {t : Nat} (h : Extends base ctx) (ht : t < base.nbTemps)
    (temps : Nat → BitVec 64) : valueOf ctx temps t = valueOf base temps t := by
  unfold Interface.Ir.valueOf
  rw [h.same t ht]
  simp [ht, Nat.lt_of_lt_of_le ht h.more]

theorem IsVar.extends {t : Nat} (h : IsVar base t) (he : Extends base ctx) : IsVar ctx t := by
  refine ⟨Nat.lt_of_lt_of_le h.1 he.more, ?_⟩
  rw [he.same t h.1]
  exact h.2

/-- What the pass keeps about its context and its tables. -/
structure PassInv (base : Context) (p : Pass) : Prop where
  extend : Extends base p.ctx
  /-- The table of constants leads to constant temps. -/
  table : ∀ ty v t, p.constTable ty v = some t →
    t < p.ctx.nbTemps ∧ (p.ctx.temps t).isConst = true ∧ (p.ctx.temps t).val = v
  /-- Facts are about temps that exist. -/
  scope : ∀ t, p.ctx.nbTemps ≤ t → Silent p.info t
  /-- What is known of a constant temp is its constant. -/
  constants : ∀ t, t < p.ctx.nbTemps → (p.ctx.temps t).isConst = true →
    (p.info t).isConst = true → (p.info t).val = (p.ctx.temps t).val

/-- Facts stay true in a larger context. -/
theorem FactsTrue.extend {p : Pass} (hinv : PassInv base p) (h : FactsTrue p.ctx p.info temps)
    (he : Extends p.ctx ctx) : FactsTrue ctx p.info temps := by
  have hscope : ∀ t, ¬Silent p.info t → valueOf ctx temps t = valueOf p.ctx temps t := by
    intro t ht
    apply he.valueOf
    by_contra hge
    exact ht (hinv.scope t (Nat.le_of_not_lt hge))
  constructor
  · intro t ht
    rw [hscope t (fun hs => by rw [hs.1] at ht; cases ht)]
    exact h.constant t ht
  · intro t u hu
    rw [hscope t (fun hs => by rw [hs.2.1] at hu; cases hu), hscope u (fun hs => hs.2.2 t hu)]
    exact h.copy t u hu

/-- Forgetting facts keeps the invariant. -/
theorem PassInv.of_weaker {p : Pass} (h : PassInv base p) (hw : Weaker info' p.info) :
    PassInv base { p with info := info' } where
  extend := h.extend
  table := h.table
  scope t ht := (h.scope t ht).of_weaker hw
  constants t ht hc hk := by
    have hk' := hw.constant t hk
    exact hk'.2.trans (h.constants t ht hc hk'.1)

/-- Recording a fact about a variable, from temps that exist, keeps the invariant. -/
theorem PassInv.record {p : Pass} (h : PassInv base p) {dst : Nat} (hdst : IsVar p.ctx dst)
    (i : TempInfo) (hcopy : ∀ u, i.copyOf = some u → u < p.ctx.nbTemps) :
    PassInv base { p with info := Function.update p.info dst i } where
  extend := h.extend
  table := h.table
  scope t ht := by
    have hne : t ≠ dst := fun heq => absurd hdst.1 (by rw [← heq]; exact Nat.not_lt.mpr ht)
    obtain ⟨hc, hn, hl⟩ := h.scope t ht
    refine ⟨by simpa [hne] using hc, by simpa [hne] using hn, fun u hu => ?_⟩
    dsimp only at hu
    by_cases hud : u = dst
    · rw [hud, Function.update_self] at hu
      exact absurd (hcopy t hu) (Nat.not_lt.mpr ht)
    · rw [Function.update_of_ne hud] at hu
      exact hl u hu
  constants t ht hc hk := by
    have hne : t ≠ dst := by
      intro heq
      rw [heq, hdst.2] at hc
      cases hc
    simp only [Function.update_of_ne hne] at hk ⊢
    exact h.constants t ht hc hk

/-- The temp of a constant: it exists, is constant and has the value; the facts are untouched. -/
theorem newConst_spec {p : Pass} (h : PassInv base p) (ty : IrType) (v : BitVec 64) :
    PassInv base (p.newConst ty v).1 ∧ Extends p.ctx (p.newConst ty v).1.ctx ∧
      (p.newConst ty v).1.info = p.info ∧
      (p.newConst ty v).2 < (p.newConst ty v).1.ctx.nbTemps ∧
      ((p.newConst ty v).1.ctx.temps (p.newConst ty v).2).isConst = true ∧
      ((p.newConst ty v).1.ctx.temps (p.newConst ty v).2).val = v := by
  unfold Pass.newConst
  cases hfind : p.constTable ty v with
  | some t =>
    obtain ⟨hlt, hc, hv⟩ := h.table ty v t hfind
    exact ⟨h, Extends.refl _, rfl, hlt, hc, hv⟩
  | none =>
    have hext : Extends p.ctx { p.ctx with
        temps := Function.update p.ctx.temps p.ctx.nbTemps (Temp.newConst ty v),
        nbTemps := p.ctx.nbTemps + 1 } := by
      refine ⟨Nat.le_succ _, fun t ht => ?_, rfl⟩
      exact Function.update_of_ne (Nat.ne_of_lt ht) _ _
    refine ⟨⟨h.extend.trans hext, ?_, ?_, ?_⟩, hext, rfl, Nat.lt_succ_self _, ?_, ?_⟩
    · intro ty' v' t ht
      dsimp only at ht
      split at ht
      · rename_i hkey
        cases ht
        simp [Temp.newConst, Temp.isConst, hkey.2]
      · obtain ⟨hlt, hc, hv⟩ := h.table ty' v' t ht
        rw [hext.same t hlt]
        exact ⟨Nat.lt_succ_of_lt hlt, hc, hv⟩
    · intro t ht
      exact h.scope t (Nat.le_of_succ_le ht)
    · intro t ht hc hk
      have hlt : t < p.ctx.nbTemps := by
        by_contra hge
        rw [(h.scope t (Nat.le_of_not_lt hge)).1] at hk
        cases hk
      rw [hext.same t hlt] at hc ⊢
      exact h.constants t hlt hc hk
    · simp [Temp.newConst, Temp.isConst]
    · simp [Temp.newConst]

/-- The table after noting that a constant temp is known. -/
def noteConst (info : Facts) (c : Nat) (v : BitVec 64) : Facts :=
  Function.update info c { info c with isConst := true, val := v }

theorem noteConst_copyOf (info : Facts) (c : Nat) (v : BitVec 64) (t : Nat) :
    (noteConst info c v t).copyOf = (info t).copyOf := by
  unfold noteConst
  by_cases h : t = c
  · rw [h, Function.update_self]
  · rw [Function.update_of_ne h]

/-- Noting a constant temp keeps the invariant. -/
theorem PassInv.noteConst {p : Pass} (hinv : PassInv base p) {c : Nat} (hlt : c < p.ctx.nbTemps) :
    PassInv base { p with info := noteConst p.info c (p.ctx.temps c).val } := by
  refine ⟨hinv.extend, hinv.table, fun t ht => ?_, fun t ht hct hk => ?_⟩
  · have hne : t ≠ c := fun heq => absurd hlt (by rw [← heq]; exact Nat.not_lt.mpr ht)
    obtain ⟨hk, hn, hl⟩ := hinv.scope t ht
    refine ⟨?_, (noteConst_copyOf _ _ _ _).trans hn, fun u hu => ?_⟩
    · simpa [OptimizerTable.noteConst, hne] using hk
    · rw [noteConst_copyOf] at hu
      exact hl u hu
  · by_cases htc : t = c
    · rw [htc]
      simp [OptimizerTable.noteConst]
    · simp only [OptimizerTable.noteConst, Function.update_of_ne htc] at hk ⊢
      exact hinv.constants t ht hct hk

/-! ## Copy propagation -/

/-- The constant arguments and outputs are not touched by copy propagation. -/
theorem propagateCopies_args (info : Facts) (op : Op) (i : Nat)
    (hi : ¬(op.opc.opDef.nbOargs ≤ i ∧ i < op.opc.opDef.nbOargs + op.opc.opDef.nbIargs)) :
    (propagateCopies info op).args i = op.args i := by
  simp [propagateCopies, hi]

/-- Copy propagation does not change the value of an argument. -/
theorem valueOf_propagateCopies (h : FactsTrue ctx info temps) (op : Op) (i : Nat) :
    valueOf ctx temps ((propagateCopies info op).args i) = valueOf ctx temps (op.args i) := by
  simp only [propagateCopies, resolveCopy]
  split
  · cases hcopy : (info (op.args i)).copyOf with
    | none => rfl
    | some u => exact (h.copy _ u hcopy).symm
  · rfl

theorem oargs_propagateCopies (info : Facts) (op : Op) :
    (propagateCopies info op).oargs = op.oargs := by
  apply List.map_congr_left
  intro i hi
  apply propagateCopies_args
  have hlt : i < op.opc.opDef.nbOargs := List.mem_range.mp hi
  omega

theorem cargs_propagateCopies (info : Facts) (op : Op) :
    (propagateCopies info op).cargs = op.cargs := by
  apply List.map_congr_left
  intro i _
  apply propagateCopies_args
  have hdef : (propagateCopies info op).opc = op.opc := rfl
  rw [hdef]
  omega

/-- Inputs still exist after copy propagation. -/
theorem propagateCopies_lt {p : Pass} (hinv : PassInv base p) {op : Op} {i : Nat}
    (hi : op.args i < p.ctx.nbTemps) : (propagateCopies p.info op).args i < p.ctx.nbTemps := by
  simp only [propagateCopies, resolveCopy]
  split
  · cases hcopy : (p.info (op.args i)).copyOf with
    | none => exact hi
    | some u =>
      show u < p.ctx.nbTemps
      by_contra hge
      exact (hinv.scope u (Nat.le_of_not_lt hge)).2.2 _ hcopy
  · exact hi

/-! ## The pass -/

/-- Which fold an op goes through. -/
def foldedAs (p : Pass) (op : Op) : Prop :=
  (op.opc = .mov ∧ foldOp p op = foldMov p op) ∨
  ((op.opc = .neg ∨ op.opc = .not) ∧ foldOp p op = foldUnary p op) ∨
  ((∃ f, convertOp op.opc = some f) ∧ foldOp p op = foldExt p op) ∨
  ((evaluated op.opc = true ∧ ∃ f, binaryOp op.opc = some f) ∧ foldOp p op = foldBinary p op) ∨
  (op.opc = .brCond ∧ foldOp p op = (p, foldBrcond p op)) ∨
  foldOp p op = ({ p with info := invalidateOutputs p.ctx p.info op }, op)

theorem foldOp_cases (p : Pass) (op : Op) : foldedAs p op := by
  obtain ⟨opc, ty, life, pref, args, nargs⟩ := op
  cases opc with
  | mov => exact .inl ⟨rfl, rfl⟩
  | neg => exact .inr (.inl ⟨.inl rfl, rfl⟩)
  | not => exact .inr (.inl ⟨.inr rfl, rfl⟩)
  | extI32I64 | extUI32I64 | extrlI64I32 | extrhI64I32 =>
    exact .inr (.inr (.inl ⟨⟨_, rfl⟩, rfl⟩))
  | add | sub | mul | and | or | xor | andC | shl | shr | sar | rotL | rotR =>
    exact .inr (.inr (.inr (.inl ⟨⟨rfl, _, rfl⟩, rfl⟩)))
  | brCond => exact .inr (.inr (.inr (.inr (.inl ⟨rfl, rfl⟩))))
  | _ => exact .inr (.inr (.inr (.inr (.inr rfl))))

/-- What a step of the pass keeps. -/
structure Kept (base : Context) (p p' : Pass) : Prop where
  inv : PassInv base p'
  extend : Extends p.ctx p'.ctx

theorem kept_of_weaker {p : Pass} (hinv : PassInv base p) (hw : Weaker info' p.info) :
    Kept base p { p with info := info' } :=
  ⟨hinv.of_weaker hw, Extends.refl _⟩

/-- Folding to a constant: the op becomes a move from a constant temp with the value. -/
theorem kept_replaceWithConst {p : Pass} (hinv : PassInv base p) (op : Op) {dst : Nat}
    (hdst : IsVar p.ctx dst) (val : BitVec 64) (ty : IrType) :
    Kept base p (replaceWithConst p op dst val ty).1 := by
  obtain ⟨hinv', hext, -, hlt, -, hv⟩ := newConst_spec hinv ty (val &&& typeMask ty)
  have hnote := hinv'.noteConst hlt
  rw [hv] at hnote
  exact ⟨hnote.record (hdst.extends hext) _ (fun u hu => by cases hu), hext⟩

theorem kept_replaceSimplified {p : Pass} (hinv : PassInv base p) (op : Op) {dst : Nat}
    (hdst : IsVar p.ctx dst) (ty : IrType) (r : Simplified) :
    Kept base p (replaceSimplified p op dst ty r).1 := by
  cases r with
  | mov src => exact kept_of_weaker hinv (invalidateOne_weaker _ _)
  | neg src => exact kept_of_weaker hinv (invalidateOne_weaker _ _)
  | const val => exact kept_replaceWithConst hinv op hdst val ty

theorem kept_foldMov {p : Pass} (hinv : PassInv base p) {op : Op} (hdst : IsVar p.ctx (op.args 0))
    (hsrc : op.args 1 < p.ctx.nbTemps) : Kept base p (foldMov p op).1 := by
  unfold foldMov setCopy
  dsimp only
  split_ifs with hconst
  · exact ⟨hinv.record hdst _ (fun u hu => by cases hu), Extends.refl _⟩
  · refine ⟨hinv.record hdst _ (fun u hu => ?_), Extends.refl _⟩
    cases hu
    exact hsrc

/-- Every op with a fold of its own has one output. -/
theorem isVar_dst {op : Op} (hout : ∀ t ∈ op.oargs, IsVar ctx t)
    (hone : op.opc.opDef.nbOargs = 1) : IsVar ctx (op.args 0) := by
  apply hout
  rw [Op.oargs, hone]
  exact List.mem_singleton_self _

section

variable {op : Op}

theorem nbOargs_unary (hopc : op.opc = .neg ∨ op.opc = .not) : op.opc.opDef.nbOargs = 1 := by
  cases hopc with
  | inl h => rw [h]; rfl
  | inr h => rw [h]; rfl

theorem nbOargs_convert {f : BitVec 64 → BitVec 64} (hf : convertOp op.opc = some f) :
    op.opc.opDef.nbOargs = 1 := by
  obtain ⟨opc, ty, life, pref, args, nargs⟩ := op
  cases opc <;> simp only [convertOp, reduceCtorEq] at hf <;> rfl

theorem nbOargs_binary (hopc : evaluated op.opc = true) : op.opc.opDef.nbOargs = 1 := by
  obtain ⟨opc, ty, life, pref, args, nargs⟩ := op
  cases opc <;> simp only [evaluated, Bool.false_eq_true] at hopc <;> rfl

end

theorem kept_foldOp {p : Pass} (hinv : PassInv base p) {op : Op}
    (hout : ∀ t ∈ op.oargs, IsVar p.ctx t) (hin : ∀ t ∈ op.iargs, t < p.ctx.nbTemps) :
    Kept base p (foldOp p op).1 := by
  have hforget : ∀ dst, Kept base p { p with info := invalidateOne p.info dst } :=
    fun dst => kept_of_weaker hinv (invalidateOne_weaker _ dst)
  rcases foldOp_cases p op with ⟨hopc, heq⟩ | ⟨hopc, heq⟩ | ⟨⟨f, hf⟩, heq⟩ | ⟨⟨hopc, f, hf⟩, heq⟩ |
    ⟨hopc, heq⟩ | heq <;> rw [heq]
  · apply kept_foldMov hinv (isVar_dst hout (by rw [hopc]; rfl))
    apply hin
    rw [Op.iargs, hopc]
    exact List.mem_singleton_self _
  · unfold foldUnary
    dsimp only
    split
    · exact kept_replaceWithConst hinv op (isVar_dst hout (nbOargs_unary hopc)) _ _
    · exact hforget _
  · unfold foldExt
    dsimp only
    split
    · exact kept_replaceWithConst hinv op (isVar_dst hout (nbOargs_convert hf)) _ _
    · exact hforget _
  · unfold foldBinary
    dsimp only
    split
    · exact kept_replaceSimplified hinv op (isVar_dst hout (nbOargs_binary hopc)) _ _
    · exact hforget _
  · exact ⟨hinv, Extends.refl _⟩
  · exact kept_of_weaker hinv (invalidateOutputs_weaker _ _ _)

/-- The temps of an op exist, and its outputs are not constants. -/
structure OpFormed (base : Context) (op : Op) : Prop where
  outputs : ∀ t ∈ op.oargs, IsVar base t
  inputs : ∀ t ∈ op.iargs, t < base.nbTemps

instance (base : Context) (op : Op) : Decidable (OpFormed base op) :=
  decidable_of_iff ((∀ t ∈ op.oargs, IsVar base t) ∧ ∀ t ∈ op.iargs, t < base.nbTemps)
    ⟨fun h => ⟨h.1, h.2⟩, fun h => ⟨h.1, h.2⟩⟩

/-- An op is well formed for its fold, too. -/
theorem OpFormed.propagate {p : Pass} (hinv : PassInv base p) {op : Op} (h : OpFormed base op) :
    OpFormed p.ctx (propagateCopies p.info op) where
  outputs t ht := by
    rw [oargs_propagateCopies] at ht
    exact (h.outputs t ht).extends hinv.extend
  inputs t ht := by
    obtain ⟨i, hi, rfl⟩ := List.mem_map.mp ht
    apply propagateCopies_lt hinv
    exact Nat.lt_of_lt_of_le (h.inputs _ (List.mem_map.mpr ⟨i, hi, rfl⟩)) hinv.extend.more

/-- One op of the pass keeps the invariant. -/
theorem kept_optimizeOp {p : Pass} (hinv : PassInv base p) {op : Op} (h : OpFormed base op) :
    Kept base p (optimizeOp p op).1 := by
  unfold optimizeOp
  split
  · exact kept_of_weaker hinv ((resetCopies_weaker _).trans (invalidateOutputs_weaker _ _ _))
  · split
    · exact kept_of_weaker hinv (invalidateOutputs_weaker _ _ _)
    · exact kept_foldOp hinv (h.propagate hinv).outputs (h.propagate hinv).inputs

/-- The table of constants of a context leads to constant temps that hold their value. -/
def TableSound (ctx : Context) (constTable : IrType → BitVec 64 → Option Nat) : Prop :=
  ∀ ty v t, constTable ty v = some t →
    t < ctx.nbTemps ∧ (ctx.temps t).isConst = true ∧ (ctx.temps t).val = v

/-- The state of the pass before the first op. -/
def startPass (ctx : Context) (constTable : IrType → BitVec 64 → Option Nat) : Pass :=
  ⟨ctx, constTable, seedInfo ctx⟩

theorem startPass_inv {constTable : IrType → BitVec 64 → Option Nat}
    (htable : TableSound ctx constTable) : PassInv ctx (startPass ctx constTable) where
  extend := Extends.refl _
  table := htable
  scope t ht := by
    have hno : ∀ u, (seedInfo ctx u).copyOf = none := by
      intro u
      unfold seedInfo
      split <;> rfl
    refine ⟨?_, hno t, fun u hu => ?_⟩
    · show (seedInfo ctx t).isConst = false
      unfold seedInfo
      rw [if_neg (fun hc => Nat.not_lt.mpr ht hc.1)]
    · simp [startPass, hno] at hu
  constants t ht hc _ := by
    show (seedInfo ctx t).val = (ctx.temps t).val
    unfold seedInfo
    rw [if_pos ⟨ht, hc⟩]

end TcgRs.Analysis.OptimizerTable
