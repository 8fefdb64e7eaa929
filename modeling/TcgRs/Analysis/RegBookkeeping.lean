import TcgRs.Analysis.RegOperands

/-!
# Bookkeeping over a whole allocation

`regalloc_and_codegen` processes the ops one after another.  After each of them, as long as
no op gives a register to a temp that still holds another one and no Fixed temp is moved for
good, `reg_to_temp` and the temps agree, the free set is exact, the Fixed temps are at home,
and every eviction so far took a register from the temp recorded in it.
-/

set_option autoImplicit false

namespace TcgRs.Analysis.RegBookkeeping

open TcgRs.Model TcgRs.Model.Ir TcgRs.Model.X86 TcgRs.Model.RegAlloc TcgRs.Library
open RegBooks RegKept RegOutputs RegInputs RegOperands

/-- The bookkeeping invariant; `ctx` is the context before the pass. -/
structure Bookkeeping (ctx : Context) (p : Pass) : Prop where
  owner : ∀ r t, p.state.regToTemp r = some t ↔
    ∃ temp, p.ctx.temp t = some temp ∧ temp.valType = .reg ∧ temp.reg = some r
  free : ∀ r, p.state.freeRegs.contains r = true ↔
    allocatableRegs.contains r = true ∧ p.state.regToTemp r = none
  fixed : ∀ t start, ctx.temp t = some start → start.kind = .fixed →
    ∃ temp, p.ctx.temp t = some temp ∧ temp.valType = .reg ∧ temp.reg = start.reg
  evicted : ∀ e ∈ p.evictions, e.recorded = some e.reg

/-- A context as it is before the pass: the Fixed temps are globals that live in distinct
reserved registers, and no other temp lives in a register. -/
structure Starting (ctx : Context) : Prop where
  fixed_global : ∀ t temp, ctx.temp t = some temp → temp.kind = .fixed → t < ctx.nbGlobals
  fixed_home : ∀ t temp, ctx.temp t = some temp → temp.kind = .fixed →
    temp.valType = .reg ∧ ∃ r, temp.reg = some r ∧ allocatableRegs.contains r = false
  fixed_distinct : ∀ t u temp temp', ctx.temp t = some temp → temp.kind = .fixed →
    ctx.temp u = some temp' → temp'.kind = .fixed → temp.reg = temp'.reg → t = u
  others : ∀ t temp, ctx.temp t = some temp → temp.kind ≠ .fixed →
    temp.valType ≠ .reg ∧ temp.reg = none
  globals_exist : ctx.nbGlobals ≤ ctx.nbTemps

/-- The condition on an op and the state before it.  `Mov`, `Call` and the generic ops give a
register to a temp they define; it must not be in a register then, other than one that the op
itself takes away from it.  Fixed temps are not defined, and are read only where they are
brought home again. -/
def Meets (p : Pass) (op : Op) : Prop :=
  match op.opc with
  | .nop | .insnStart | .setLabel | .br | .exitTb | .gotoTb | .mb => True
  | .mov =>
    kindOf p (op.args 0) ≠ some .fixed ∧ kindOf p (op.args 1) ≠ some .fixed ∧
      ((op.args 0 ≠ op.args 1 ∧ (books p).place (op.args 0) = none) ∨
        (op.args 0 = op.args 1 ∧ op.life.isDead 1 = true ∧ ¬ Owned p (op.args 1)))
  | .call =>
    kindOf p (op.args 0) ≠ some .fixed ∧
      ((∀ r, (books p).place (op.args 0) = some r → r ∈ callerSaved) ∨
        (¬ Owned p (op.args 0) ∧
          ∃ i < op.opc.opDef.nbIargs, op.life.isDead (op.opc.opDef.nbOargs + i) = true ∧
            op.args (op.opc.opDef.nbOargs + i) = op.args 0))
  | .gotoPtr | .brCond => ∀ t ∈ op.iargs, kindOf p t ≠ some .fixed
  | _ => Releases p op (opConstraint op.opc)

/-! ## The constraint table -/

theorem fits_table (opc : Opcode) : fits (Op.withArgs opc .i64 []) (opConstraint opc) = true ∨
    opConstraint opc = .empty ∧ (0 < opc.opDef.nbIargs ∨ 0 < opc.opDef.nbOargs) := by
  cases opc <;> first
    | (left; decide)
    | (right; exact ⟨rfl, by decide⟩)

/-- Every entry of the table has the shape the allocator relies on. -/
theorem fits_or_empty (op : Op) : fits op (opConstraint op.opc) = true ∨
    opConstraint op.opc = .empty ∧ (0 < op.opc.opDef.nbIargs ∨ 0 < op.opc.opDef.nbOargs) :=
  fits_table op.opc

theorem tempLoadTo_empty (p : Pass) (t : Nat) (forbidden preferred : RegSet) :
    tempLoadTo p t .empty forbidden preferred = none := by
  have halloc : ∀ q : Pass, regAlloc q .empty forbidden preferred = none :=
    fun q => regAlloc_of_empty (fun _ => rfl)
  cases htemp : p.ctx.temp t with
  | none => simp [tempLoadTo, htemp]
  | some temp =>
    cases hval : temp.valType with
    | dead => simp [tempLoadTo, htemp, hval]
    | reg => simp [tempLoadTo, htemp, hval, halloc]
    | mem => simp [tempLoadTo, htemp, hval, halloc]
    | const => simp [tempLoadTo, htemp, hval, halloc]

theorem foldlM_range_none {S : Type} {step : S → Nat → Option S} {n : Nat} {s : S} (hn : 0 < n)
    (h : step s 0 = none) : (List.range n).foldlM step s = none := by
  obtain ⟨m, rfl⟩ := Nat.exists_eq_succ_of_ne_zero (Nat.ne_of_gt hn)
  rw [List.range_succ_eq_map, List.foldlM_cons, h]
  rfl

/-- An op with arguments and no constraint panics. -/
theorem regallocOp_empty {p : Pass} {op : Op}
    (hargs : 0 < op.opc.opDef.nbIargs ∨ 0 < op.opc.opDef.nbOargs) :
    regallocOp p op .empty = none := by
  have hregs : ∀ i, (OpConstraint.empty.args i).regs = .empty := fun _ => rfl
  by_cases hi : 0 < op.opc.opDef.nbIargs
  · have hload : loadInput op .empty (p, Inputs.new) 0 = none := by
      simp [loadInput, hregs, tempLoadTo_empty]
    rw [regallocOp, foldlM_range_none hi hload]
    rfl
  · have ho := hargs.resolve_left hi
    have hni : op.opc.opDef.nbIargs = 0 := Nat.eq_zero_of_not_pos hi
    have halloc : ∀ ins, allocOutput op .empty ins (p, Outputs.new) 0 = none := by
      intro ins
      have hreg : regAlloc p .empty Outputs.new.allocated .empty = none :=
        regAlloc_of_empty (fun _ => rfl)
      have hout : outputReg op .empty ins p Outputs.new 0 = none := hreg
      rw [allocOutput]
      simp [hout]
    have hloop : ∀ ins, (List.range op.opc.opDef.nbOargs).foldlM (allocOutput op .empty ins)
        (p, Outputs.new) = none := fun ins => foldlM_range_none ho (halloc ins)
    simp [regallocOp, hni, hloop]

/-! ## One op -/

variable {home : Nat → Option Reg} {p p' : Pass}

theorem kept_generic {op : Op} (hk : Kept home p) (hrel : Releases p op (opConstraint op.opc))
    (h : (do
      let p ← regallocOp p op (opConstraint op.opc)
      if op.opc.opDef.flags.contains .bbEnd then syncGlobals p else return p) = some p') :
    Kept home p' := by
  obtain ⟨p₁, h₁, h⟩ := Option.bind_eq_some_iff.mp h
  have hk₁ : Kept home p₁ := by
    rcases fits_or_empty op with hfits | ⟨hempty, hargs⟩
    · exact kept_regallocOp hfits hrel hk h₁
    · rw [hempty, regallocOp_empty hargs] at h₁
      cases h₁
  split at h
  · exact kept_syncGlobals hk₁ h
  · injection h with h
    exact h ▸ hk₁

theorem kept_stepOp {op : Op} (hk : Kept home p) (hm : Meets p op) (h : stepOp p op = some p') :
    Kept home p' := by
  unfold stepOp at h
  unfold Meets at hm
  split at h
  · injection h with h
    exact h ▸ hk
  · injection h with h
    exact h ▸ hk
  · rename_i hop
    simp only [hop] at hm
    exact kept_regallocMov hk (hk.home_none_of_kind hm.2.1) hm.2.2 h
  · obtain ⟨p₁, h₁, h⟩ := Option.bind_eq_some_iff.mp h
    injection h with h
    exact h ▸ (kept_syncGlobals hk h₁).emit _
  · obtain ⟨p₁, h₁, h⟩ := Option.bind_eq_some_iff.mp h
    injection h with h
    exact h ▸ (kept_syncGlobals hk h₁).emit _
  · obtain ⟨p₁, h₁, h⟩ := Option.bind_eq_some_iff.mp h
    injection h with h
    exact h ▸ (kept_syncGlobals hk h₁).emit _
  · obtain ⟨p₁, h₁, h⟩ := Option.bind_eq_some_iff.mp h
    injection h with h
    exact h ▸ (kept_syncGlobals hk h₁).emit _
  · rename_i hop
    simp only [hop] at hm
    rw [← hop] at hm
    exact kept_regallocCall hop hk hm.2 h
  · rename_i hop
    simp only [hop] at hm
    have hmem : op.args 0 ∈ op.iargs := by simp [Op.iargs, hop, Opcode.opDef]
    exact kept_regallocGotoPtr hop hk (hk.home_none_of_kind (hm (op.args 0) hmem)) h
  · injection h with h
    exact h ▸ hk.emit _
  · rename_i hop
    simp only [hop] at hm
    exact kept_regallocBrCond hop hk (fun t ht => hk.home_none_of_kind (hm t ht)) h
  · refine kept_generic hk ?_ h
    split at hm <;> first
      | exact hm
      | (exfalso; simp_all)

/-! ## The state before the first op -/

/-- The home registers of the Fixed temps. -/
def homeOf (ctx : Context) (t : Nat) : Option Reg :=
  match ctx.temp t with
  | some temp => if temp.kind = .fixed then temp.reg else none
  | none => none

theorem homeOf_eq_some {ctx : Context} {t : Nat} {r : Reg} :
    homeOf ctx t = some r ↔ ∃ temp, ctx.temp t = some temp ∧ temp.kind = .fixed ∧
      temp.reg = some r := by
  rw [homeOf]
  cases htemp : ctx.temp t with
  | none => simp
  | some temp => by_cases hk : temp.kind = .fixed <;> simp [hk]

theorem temp_of_lt {ctx : Context} {t : Nat} (h : t < ctx.nbTemps) :
    ctx.temp t = some (ctx.temps t) := by
  rw [Context.temp, if_pos h]

/-- Recording the Fixed temps one by one. -/
theorem initFixed_loop {ctx : Context} (hc : Starting ctx) (k : Nat) (hk : k ≤ ctx.nbGlobals) :
    FreeExact ((List.range k).foldl (initFixed ctx) (.new allocatableRegs)) ∧
    ∀ r t, ((List.range k).foldl (initFixed ctx) (.new allocatableRegs)).regToTemp r = some t ↔
      t < k ∧ homeOf ctx t = some r := by
  induction k with
  | zero =>
    refine ⟨⟨rfl, ?_⟩, ?_⟩
    · intro r
      simp [RegAllocState.new]
    · intro r t
      simp [RegAllocState.new]
  | succ k ih =>
    obtain ⟨hfree, hocc⟩ := ih (Nat.le_of_succ_le hk)
    rw [List.range_succ, List.foldl_append, List.foldl_cons, List.foldl_nil]
    generalize (List.range k).foldl (initFixed ctx) (.new allocatableRegs) = s at hfree hocc ⊢
    have htemp : ctx.temp k = some (ctx.temps k) :=
      temp_of_lt (Nat.lt_of_lt_of_le hk hc.globals_exist)
    rw [initFixed]
    split
    · rename_i reg hkind hreg
      have hhome : homeOf ctx k = some reg := homeOf_eq_some.mpr ⟨_, htemp, hkind, hreg⟩
      refine ⟨hfree.assign reg k, ?_⟩
      intro r t
      by_cases hr : r = reg
      · subst hr
        simp only [RegAllocState.assign, Function.update_self, Option.some.injEq]
        constructor
        · rintro rfl
          exact ⟨Nat.lt_succ_self k, hhome⟩
        · rintro ⟨-, ht⟩
          obtain ⟨temp, htemp', hkind', hreg'⟩ := homeOf_eq_some.mp ht
          exact hc.fixed_distinct k t _ temp htemp hkind htemp' hkind' (hreg.trans hreg'.symm)
      · simp only [RegAllocState.assign, Function.update_of_ne hr]
        rw [hocc]
        constructor
        · rintro ⟨hlt, ht⟩
          exact ⟨Nat.lt_succ_of_lt hlt, ht⟩
        · rintro ⟨hlt, ht⟩
          refine ⟨?_, ht⟩
          rcases Nat.lt_or_eq_of_le (Nat.le_of_lt_succ hlt) with hlt | rfl
          · exact hlt
          · rw [hhome] at ht
            injection ht with ht
            exact absurd ht.symm hr
    · rename_i hnot
      refine ⟨hfree, ?_⟩
      intro r t
      rw [hocc]
      constructor
      · rintro ⟨hlt, ht⟩
        exact ⟨Nat.lt_succ_of_lt hlt, ht⟩
      · rintro ⟨hlt, ht⟩
        refine ⟨?_, ht⟩
        rcases Nat.lt_or_eq_of_le (Nat.le_of_lt_succ hlt) with hlt | rfl
        · exact hlt
        · obtain ⟨temp, htemp', hkind', hreg'⟩ := homeOf_eq_some.mp ht
          rw [htemp] at htemp'
          injection htemp' with htemp'
          subst htemp'
          exact absurd hreg' (hnot r hkind')

theorem kept_initPass {ctx : Context} (hc : Starting ctx) : Kept (homeOf ctx) (initPass ctx) := by
  obtain ⟨hfree, hocc⟩ := initFixed_loop hc ctx.nbGlobals (Nat.le_refl _)
  have hplace : ∀ t r, (books (initPass ctx)).place t = some r ↔ homeOf ctx t = some r := by
    intro t r
    rw [homeOf_eq_some]
    simp only [books, initPass, Option.bind_eq_some_iff]
    constructor
    · rintro ⟨temp, htemp, hreg⟩
      refine ⟨temp, htemp, ?_, hreg⟩
      by_contra hkind
      rw [(hc.others t temp htemp hkind).2] at hreg
      cases hreg
    · rintro ⟨temp, htemp, -, hreg⟩
      exact ⟨temp, htemp, hreg⟩
  have hlt : ∀ t r, homeOf ctx t = some r → t < ctx.nbGlobals := by
    intro t r h
    obtain ⟨temp, htemp, hkind, -⟩ := homeOf_eq_some.mp h
    exact hc.fixed_global t temp htemp hkind
  refine ⟨⟨hfree, ?_, ?_⟩, ?_, ?_, ?_, ?_, ?_, ?_⟩
  · intro t temp htemp
    by_cases hkind : temp.kind = .fixed
    · obtain ⟨hval, r, hreg, -⟩ := hc.fixed_home t temp htemp hkind
      simp [hval, hreg]
    · obtain ⟨hval, hreg⟩ := hc.others t temp htemp hkind
      simp [hval, hreg]
  · intro e he
    cases he
  · intro r t
    rw [hplace]
    exact (hocc r t).trans ⟨fun h => h.2, fun h => ⟨hlt t r h, h⟩⟩
  · intro t
    simp only [Option.isSome_iff_exists, homeOf_eq_some, kindOf, Option.map_eq_some_iff, initPass]
    constructor
    · rintro ⟨r, temp, htemp, hkind, -⟩
      exact ⟨temp, htemp, hkind⟩
    · rintro ⟨temp, htemp, hkind⟩
      obtain ⟨-, r, hreg, -⟩ := hc.fixed_home t temp htemp hkind
      exact ⟨r, temp, htemp, hkind, hreg⟩
  · intro t r h
    obtain ⟨temp, htemp, hkind, hreg⟩ := homeOf_eq_some.mp h
    obtain ⟨-, r', hreg', hr'⟩ := hc.fixed_home t temp htemp hkind
    rw [hreg] at hreg'
    injection hreg' with hreg'
    exact hreg' ▸ hr'
  · intro t u r ht hu
    obtain ⟨temp, htemp, hkind, hreg⟩ := homeOf_eq_some.mp ht
    obtain ⟨temp', htemp', hkind', hreg'⟩ := homeOf_eq_some.mp hu
    exact hc.fixed_distinct t u temp temp' htemp hkind htemp' hkind' (hreg.trans hreg'.symm)
  · intro t r h
    exact (hplace t r).mpr h
  · intro r t h hnone
    rw [((hocc r t).mp h).2] at hnone
    cases hnone

theorem bookkeeping_of_kept {ctx : Context} (hc : Starting ctx) (hk : Kept (homeOf ctx) p) :
    Bookkeeping ctx p := by
  refine ⟨?_, hk.sound.free.free, ?_, hk.sound.evicted⟩
  · intro r t
    refine (hk.consistent r t).trans ?_
    simp only [books, Option.bind_eq_some_iff]
    constructor
    · rintro ⟨temp, htemp, hreg⟩
      exact ⟨temp, htemp, (hk.sound.located t temp htemp).mpr (by rw [hreg]; rfl), hreg⟩
    · rintro ⟨temp, htemp, -, hreg⟩
      exact ⟨temp, htemp, hreg⟩
  · intro t start hstart hkind
    obtain ⟨-, r, hreg, -⟩ := hc.fixed_home t start hstart hkind
    have hplace := hk.fixed t r (homeOf_eq_some.mpr ⟨start, hstart, hkind, hreg⟩)
    simp only [books, Option.bind_eq_some_iff] at hplace
    obtain ⟨temp, htemp, htr⟩ := hplace
    exact ⟨temp, htemp, (hk.sound.located t temp htemp).mpr (by rw [htr]; rfl), htr.trans hreg.symm⟩

/-! ## The whole pass -/

/-- **The books are right after each op** of a pass in which every op meets the condition. -/
theorem bookkeeping_after_each_op (ctx : Context) (ops : List Op) (hc : Starting ctx)
    (hm : ∀ n op p, ops[n]? = some op → regallocAndCodegen ctx (ops.take n) = some p → Meets p op)
    (n : Nat) (p : Pass) (h : regallocAndCodegen ctx (ops.take n) = some p) :
    Bookkeeping ctx p := by
  refine bookkeeping_of_kept hc ?_
  induction n generalizing p with
  | zero =>
    injection h with h
    exact h ▸ kept_initPass hc
  | succ n ih =>
    by_cases hn : n < ops.length
    · rw [regallocAndCodegen, ← List.take_append_getElem hn] at h
      obtain ⟨p₁, h₁, hlast⟩ := foldlM_prefix h
      rw [List.foldlM_cons] at hlast
      obtain ⟨p₂, h₂, heq⟩ := Option.bind_eq_some_iff.mp hlast
      injection heq with heq
      subst heq
      exact kept_stepOp (ih p₁ h₁) (hm n ops[n] p₁ (List.getElem?_eq_getElem hn) h₁) h₂
    · have htake : ops.take (n + 1) = ops.take n := by
        rw [List.take_of_length_le (by omega), List.take_of_length_le (by omega)]
      exact ih p (htake ▸ h)

/-- A context whose one Fixed temp is the first. -/
theorem Starting.of_env {ctx : Context} (hexist : ctx.nbGlobals ≤ ctx.nbTemps)
    (hpos : 0 < ctx.nbGlobals)
    (henv : (ctx.temps 0).valType = .reg ∧
      ∃ r, (ctx.temps 0).reg = some r ∧ allocatableRegs.contains r = false)
    (hkind : ∀ t < ctx.nbTemps, (ctx.temps t).kind = .fixed → t = 0)
    (hothers : ∀ t < ctx.nbTemps, (ctx.temps t).kind ≠ .fixed →
      (ctx.temps t).valType ≠ .reg ∧ (ctx.temps t).reg = none) : Starting ctx := by
  have htemps : ∀ t temp, ctx.temp t = some temp → t < ctx.nbTemps ∧ ctx.temps t = temp := by
    intro t temp h
    rw [Context.temp] at h
    split at h
    · rename_i hlt
      injection h with h
      exact ⟨hlt, h⟩
    · cases h
  have hzero : ∀ t temp, ctx.temp t = some temp → temp.kind = .fixed → t = 0 := by
    intro t temp h hk
    obtain ⟨hlt, rfl⟩ := htemps t temp h
    exact hkind t hlt hk
  refine ⟨?_, ?_, ?_, ?_, hexist⟩
  · intro t temp h hk
    rw [hzero t temp h hk]
    exact hpos
  · intro t temp h hk
    obtain ⟨-, rfl⟩ := htemps t temp h
    rw [hzero t _ h hk]
    exact henv
  · intro t u temp temp' h hk h' hk' _
    rw [hzero t temp h hk, hzero u temp' h' hk']
  · intro t temp h hk
    obtain ⟨hlt, rfl⟩ := htemps t temp h
    exact hothers t hlt hk

/-- A context with `env` in RBP, one global, two constants and two locals. -/
def demoContext : Context where
  temps t := [Temp.newFixed .i64 .rbp, Temp.newGlobal .i64 0 8, Temp.newConst .i64 5,
    Temp.newConst .i64 6, Temp.newEbb .i64, Temp.newEbb .i64].getD t (Temp.newEbb .i64)
  nbTemps := 6
  nbGlobals := 2
  frameReg := some .rsp
  frameStart := 128
  frameEnd := 1152
  frameAllocEnd := 128

theorem starting_demoContext : Starting demoContext :=
  .of_env (by decide) (by decide) ⟨rfl, .rbp, rfl, rfl⟩ (by decide) (by decide)

/-- `mov t, 5; add u, t, 6; mov g, u`. -/
def definingOps : List Op :=
  [{ Op.withArgs .mov .i64 [4, 2] with life := ⟨0b100⟩ },
   { Op.withArgs .add .i64 [5, 4, 3] with life := ⟨0b10100⟩ },
   { Op.withArgs .mov .i64 [1, 5] with life := ⟨0b100⟩ }]

theorem meets_definingOps (n : Nat) (op : Op) (p : Pass) (hop : definingOps[n]? = some op)
    (hp : regallocAndCodegen demoContext (definingOps.take n) = some p) : Meets p op := by
  match n, hop with
  | 0, hop =>
    injection hop with hop
    subst hop
    injection hp with hp
    subst hp
    exact ⟨by decide, by decide, Or.inl ⟨by decide, by decide⟩⟩
  | 1, hop =>
    have hrun : (regallocAndCodegen demoContext (definingOps.take 1)).all (fun p =>
        decide (kindOf p 5 = some .ebb ∧ (books p).place 5 = none ∧ kindOf p 4 = some .ebb ∧
          kindOf p 3 = some .const)) = true := by
      decide
    rw [hp, Option.all_some, decide_eq_true_eq] at hrun
    obtain ⟨h5, hplace, h4, h3⟩ := hrun
    injection hop with hop
    subst hop
    refine ⟨?_, ?_, ?_, ?_, ?_, ?_⟩
    · intro i hi j hj _
      exact (Nat.lt_one_iff.mp hi).trans (Nat.lt_one_iff.mp hj).symm
    · intro i hi
      obtain rfl := Nat.lt_one_iff.mp hi
      show kindOf p 5 ≠ _
      simp [h5]
    · intro i hi
      obtain rfl := Nat.lt_one_iff.mp hi
      refine Or.inr ⟨by decide, ?_⟩
      intro r hr
      rw [show (books p).place 5 = some r from hr] at hplace
      cases hplace
    · intro i hi j _ _ hfix
      match i, hi with
      | 0, _ =>
        rw [show kindOf p 4 = some .fixed from hfix] at h4
        cases h4
      | 1, _ =>
        rw [show kindOf p 3 = some .fixed from hfix] at h3
        cases h3
    · intro i hi halias
      obtain rfl := Nat.lt_one_iff.mp hi
      cases halias
    · intro i hi j hj _ _ _
      exact (Nat.lt_one_iff.mp hi).trans (Nat.lt_one_iff.mp hj).symm
  | 2, hop =>
    have hrun : (regallocAndCodegen demoContext (definingOps.take 2)).all (fun p =>
        decide (kindOf p 1 = some .global ∧ kindOf p 5 = some .ebb ∧
          (books p).place 1 = none)) = true := by
      decide
    rw [hp, Option.all_some, decide_eq_true_eq] at hrun
    obtain ⟨h1, h5, hplace⟩ := hrun
    injection hop with hop
    subst hop
    refine ⟨?_, ?_, Or.inl ⟨by decide, hplace⟩⟩
    · show kindOf p 1 ≠ _
      simp [h1]
    · show kindOf p 5 ≠ _
      simp [h5]
  | n + 3, hop => cases hop

theorem bookkeeping_after_each_op_demo : ∃ p,
    regallocAndCodegen demoContext definingOps = some p ∧ Bookkeeping demoContext p := by
  have hsome : (regallocAndCodegen demoContext definingOps).isSome = true := by decide
  obtain ⟨p, hp⟩ := Option.isSome_iff_exists.mp hsome
  exact ⟨p, hp, bookkeeping_after_each_op demoContext definingOps starting_demoContext
    meets_definingOps 3 p hp⟩

/-- `mov g, 5; mov g, 6`, with the liveness bits that the analysis gives them. -/
def redefiningOps : List Op :=
  [{ Op.withArgs .mov .i64 [1, 2] with life := ⟨0b101⟩ },
   { Op.withArgs .mov .i64 [1, 3] with life := ⟨0b100⟩ }]

/-- The second definition of the global leaves its first register recorded. -/
theorem redefined_global_owns_two_registers : Starting demoContext ∧
    ∃ p, regallocAndCodegen demoContext redefiningOps = some p ∧
      p.state.regToTemp .rax = some 1 ∧ p.state.regToTemp .rcx = some 1 ∧
      ¬ Bookkeeping demoContext p := by
  refine ⟨starting_demoContext, ?_⟩
  have hrun : ((regallocAndCodegen demoContext redefiningOps).map fun p =>
      (p.state.regToTemp .rax, p.state.regToTemp .rcx)) = some (some 1, some 1) := by
    decide
  obtain ⟨p, hp, hregs⟩ := Option.map_eq_some_iff.mp hrun
  injection hregs with hrax hrcx
  refine ⟨p, hp, hrax, hrcx, ?_⟩
  intro hbooks
  obtain ⟨temp, htemp, -, hreg⟩ := (hbooks.owner .rax 1).mp hrax
  obtain ⟨temp', htemp', -, hreg'⟩ := (hbooks.owner .rcx 1).mp hrcx
  rw [htemp] at htemp'
  injection htemp' with htemp'
  rw [← htemp', hreg] at hreg'
  cases hreg'

end TcgRs.Analysis.RegBookkeeping
