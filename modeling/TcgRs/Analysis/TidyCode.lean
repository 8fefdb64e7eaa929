import TcgRs.Analysis.CpuFields
import TcgRs.Analysis.GeneratedControl
import TcgRs.Interface.WellFormedIr

/-!
# Tidy code

Straight code that a translation appends between labels: an op reads temps that nothing writes or that
this code has written, and writes new local temps or the globals of registers other than x0.  Such code
never changes the env pointer, and the CPU state is reached from nothing else.
-/

set_option autoImplicit false
set_option linter.constructorNameAsVariable false

namespace TcgRs.Analysis.TidyCode

open TcgRs.Model TcgRs.Model.Ir TcgRs.Model.Riscv TcgRs.Interface.Ir TcgRs.Interface.RiscvExec
open GeneratedCode GeneratedControl GuestCode CpuFields

variable {self : RiscvDisasContext} {C : Context} {lo : Nat} {A A' A'' : List Nat}

/-! ## Ops -/

/-- The opcodes of code between labels. -/
def isInner (opc : Opcode) : Bool :=
  isStraight opc && !decide (opc = .setLabel ∨ opc = .gotoTb ∨ opc = .insnStart)

/-- A temp that has a value at any point of a block: a constant, the env pointer or a register. -/
def IsSource (self : RiscvDisasContext) (C : Context) (t : Nat) : Prop :=
  IsFixed C t ∨ t = self.env ∨ ∃ r, t = self.gpr r

theorem IsSource.isFixed (hself : Globals self C) {t : Nat} (h : IsSource self C t) :
    IsFixed C t := by
  rcases h with h | rfl | ⟨r, rfl⟩
  · exact h
  · exact .inl hself.env_lt
  · exact .inl (hself.gpr_lt r)

/-- A temp may be read after the temps `A` have been written. -/
def Readable (self : RiscvDisasContext) (C : Context) (A : List Nat) (t : Nat) : Prop :=
  IsSource self C t ∨ t ∈ A

theorem Readable.mono {t : Nat} (h : Readable self C A t) (hA : A ⊆ A') : Readable self C A' t :=
  h.imp_right fun ht => hA ht

/-- A local temp that is not older than `lo`. -/
structure IsNew (C : Context) (lo t : Nat) : Prop where
  isLocal : IsLocal C t
  ge : lo ≤ t
  lt : t < C.nbTemps

/-- A register that code may write: one other than x0, or a part of the reservation. -/
def IsTarget (self : RiscvDisasContext) (t : Nat) : Prop :=
  (∃ r ≠ 0, t = self.gpr r) ∨ t = self.loadRes ∨ t = self.loadVal

theorem IsTarget.spec (hself : Globals self C) {t : Nat} (h : IsTarget self t) :
    t < C.nbGlobals ∧ t ≠ self.env ∧ t ≠ self.gpr 0 := by
  have hspecial := hself.special
  simp only [List.nodup_cons, List.mem_cons, List.not_mem_nil, or_false, not_or] at hspecial
  rcases h with ⟨r, hr, rfl⟩ | rfl | rfl
  · exact ⟨hself.gpr_lt r, (hself.env_ne r).symm, fun h => hr (hself.gpr_inj r 0 h)⟩
  · exact ⟨hself.res_lt, Ne.symm hspecial.1.2.1, hself.res_ne 0⟩
  · exact ⟨hself.val_lt, Ne.symm hspecial.1.2.2, hself.val_ne 0⟩

/-- A temp may be written. -/
def Writable (self : RiscvDisasContext) (C : Context) (lo t : Nat) : Prop :=
  IsNew C lo t ∨ IsTarget self t

/-- An access to the CPU state reaches a field. -/
def ReachesField (self : RiscvDisasContext) (op : Op) : Prop :=
  op.opType = .i64 ∧ hostBase op = some self.env ∧
    ∃ field : CpuField, op.cargs.headD 0 = (BitVec.ofInt 32 field.offset).toNat

structure TidyOp (dc : RiscvDisasContext) (C : Context) (lo : Nat) (A : List Nat) (op : Op) :
    Prop where
  inner : isInner op.opc = true
  arity_eq : op.nargs = arity op.opc
  reads : ∀ t ∈ op.iargs, Readable dc C A t
  writes : ∀ t ∈ op.oargs, Writable dc C lo t
  nodup : op.oargs.Nodup
  field : (hostBytes op).isSome = true →
    (op.opc = .ld ∨ op.opc = .st) ∧ ReachesField dc op

/-- Ops that follow each other, from the temps written before to those written after. -/
inductive Stretch (self : RiscvDisasContext) (C : Context) (lo : Nat) :
    List Nat → List Op → List Nat → Prop
  | nil (A : List Nat) : Stretch self C lo A [] A
  | cons {A A' : List Nat} {op : Op} {ops : List Op} (hop : TidyOp self C lo A op)
      (h : Stretch self C lo (op.oargs ++ A) ops A') : Stretch self C lo A (op :: ops) A'

theorem Stretch.append {ops ops' : List Op} (h : Stretch self C lo A ops A')
    (h' : Stretch self C lo A' ops' A'') : Stretch self C lo A (ops ++ ops') A'' := by
  induction h with
  | nil => exact h'
  | cons hop _ ih => exact .cons hop (ih h')

theorem Stretch.subset {ops : List Op} (h : Stretch self C lo A ops A') : A ⊆ A' := by
  induction h with
  | nil => exact List.Subset.refl _
  | cons _ _ ih => exact List.Subset.trans (List.subset_append_right _ _) ih

theorem Stretch.inner {ops : List Op} (h : Stretch self C lo A ops A') :
    ∀ op ∈ ops, isInner op.opc = true := by
  induction h with
  | nil => exact fun _ hop => (by cases hop)
  | cons hop _ ih => exact List.forall_mem_cons.mpr ⟨hop.inner, ih⟩

/-! ## What it leaves alone -/

theorem writeOutputs_of_notMem {op : Op} {t : Nat} (ht : t ∉ op.oargs) (outs : Nat → BitVec 64)
    (temps : Nat → BitVec 64) : writeOutputs op outs temps t = temps t := by
  unfold writeOutputs
  unfold Op.oargs at ht
  generalize op.opc.opDef.nbOargs = count at ht ⊢
  induction count with
  | zero => rfl
  | succ k ih =>
    rw [List.range_succ, List.map_append, List.mem_append, not_or] at ht
    rw [List.range_succ, List.foldl_append]
    have hlast : t ≠ op.args k := fun h => ht.2 (h ▸ List.mem_singleton_self _)
    rw [List.foldl_cons, List.foldl_nil, Function.update_of_ne hlast]
    exact ih ht.1

variable {σ : Type} {E : Effects σ}

theorem val_execOp {op : Op} {t : Nat} (ht : t ∉ op.oargs) (s : State σ) :
    val C (execOp E C op s) t = val C s t := by
  unfold execOp
  dsimp only
  split
  · rfl
  · split <;>
    · unfold val valueOf
      dsimp only
      rw [writeOutputs_of_notMem ht]

/-- Tidy code does not change the env pointer. -/
theorem val_env_execOps (hself : Globals self C) {ops : List Op} (h : Stretch self C lo A ops A')
    (s : State σ) : val C (execOps E C ops s) self.env = val C s self.env := by
  induction h generalizing s with
  | nil => rfl
  | cons hop _ ih =>
    rw [execOps, List.foldl_cons]
    refine (ih _).trans (val_execOp ?_ s)
    intro henv
    cases hop.writes _ henv with
    | inl hnew => exact absurd hself.env_lt (Nat.not_lt_of_le hnew.isLocal.not_global)
    | inr htarget => exact (htarget.spec hself).2.1 rfl

/-! ## Generators -/

/-- The code of `g` is tidy after `A` has been written; no label is made. -/
def Tidies {α : Type} (self : RiscvDisasContext) (C : Context) (lo : Nat) (A : List Nat) (g : Gen α)
    (Q : α → List Nat → Prop) : Prop :=
  ∀ b : Builder, lo ≤ b.ctx.nbTemps → (g.run b).2.ctx.Extends C →
    (g.run b).2.nbLabels = b.nbLabels ∧
      ∃ A', Stretch self C lo A (newOps b (g.run b).2) A' ∧ Q (g.run b).1 A'

variable {α β : Type} {Q : α → List Nat → Prop}

theorem newOps_self (b : Builder) : newOps b b = [] := List.drop_length

theorem tidies_pure {a : α} (h : Q a A) : Tidies self C lo A (pure a) Q := by
  intro b _ _
  rw [Gen.run_pure, newOps_self]
  exact ⟨rfl, A, .nil A, h⟩

theorem tidies_bind {g : Gen β} {f : β → Gen α}
    (h : Tidies self C lo A g fun a A' => Tidies self C lo A' (f a) Q) :
    Tidies self C lo A (g >>= f) Q := by
  intro b hlo hC
  have hfirst := g.extends_run b
  have hrest := (f (g.run b).1).extends_run (g.run b).2
  obtain ⟨hlabels, A₁, hstretch, hcont⟩ := h b hlo (hrest.ctx.trans hC)
  obtain ⟨hlabels', A₂, hstretch', hQ⟩ := hcont _ (hlo.trans hfirst.ctx.temps_le) hC
  rw [Gen.run_bind, newOps_trans hfirst hrest]
  exact ⟨hlabels'.trans hlabels, A₂, hstretch.append hstretch', hQ⟩

theorem Tidies.mono {g : Gen α} {Q' : α → List Nat → Prop} (h : Tidies self C lo A g Q)
    (hQ : ∀ a A', A ⊆ A' → Q a A' → Q' a A') : Tidies self C lo A g Q' := by
  intro b hlo hC
  obtain ⟨hlabels, A', hstretch, hpost⟩ := h b hlo hC
  exact ⟨hlabels, A', hstretch, hQ _ _ hstretch.subset hpost⟩

theorem tidies_newTemp {ty : IrType} {Q : Nat → List Nat → Prop} (h : ∀ d, IsNew C lo d → Q d A) :
    Tidies self C lo A (newTemp ty) Q := by
  intro b hlo hC
  have hnew : C.temps b.ctx.nbTemps = Temp.newEbb ty := by
    rw [hC.temps_eq _ (Nat.lt_succ_self _)]
    exact Function.update_self _ _ _
  have hvar : (C.temps b.ctx.nbTemps).isConst = false := by
    rw [hnew]
    rfl
  have hge : C.nbGlobals ≤ b.ctx.nbTemps := by
    rw [hC.globals_eq]
    exact b.globals_le
  have hnone : newOps b ((newTemp ty).run b).2 = [] := List.drop_length
  rw [hnone]
  exact ⟨rfl, A, .nil A, h _ ⟨⟨hge, hvar⟩, hlo, hC.temps_le⟩⟩

/-- Two new temps are different. -/
theorem tidies_newTemp₂ {ty ty' : IrType} {f : Nat → Nat → Gen α}
    (h : ∀ d e, IsNew C lo d → IsNew C lo e → d ≠ e → Tidies self C lo A (f d e) Q) :
    Tidies self C lo A (do let d ← newTemp ty; let e ← newTemp ty'; f d e) Q := by
  intro b hlo hC
  have hone : Tidies self C lo A (do let d ← newTemp ty; let e ← newTemp ty'; return (d, e) :
      Gen (Nat × Nat)) (fun p _ => IsNew C lo p.1 ∧ IsNew C lo p.2) := by
    refine tidies_bind (tidies_newTemp fun d hd => ?_)
    exact tidies_bind (tidies_newTemp fun e he => tidies_pure ⟨hd, he⟩)
  have hrest := (f b.ctx.nbTemps (b.ctx.nbTemps + 1)).extends_run
    ((newTemp ty').run ((newTemp ty).run b).2).2
  obtain ⟨-, -, -, hd, he⟩ := hone b hlo (hrest.ctx.trans hC)
  exact h _ _ hd he (Nat.ne_of_lt (Nat.lt_succ_self _)) _
    (Nat.le_succ_of_le (Nat.le_succ_of_le hlo)) hC

theorem tidies_newConst {ty : IrType} {v : BitVec 64} {Q : Nat → List Nat → Prop}
    (h : ∀ c, IsSource self C c → IsConst C c v → Q c A) :
    Tidies self C lo A (newConst ty v) Q := by
  intro b _ hC
  have hdoes : Does noEffects C (newConst ty v) (fun c _ _ => IsConst C c v) b.ctx.nbTemps
      blankState := does_newConst fun _ _ _ h => h
  have hconst := (hdoes b rfl hC).2
  have hops : newOps b ((newConst ty v).run b).2 = [] ∧
      ((newConst ty v).run b).2.nbLabels = b.nbLabels := by
    unfold newConst
    dsimp only
    split <;> exact ⟨newOps_self b, rfl⟩
  rw [hops.1]
  exact ⟨hops.2, A, .nil A, h _ (.inl hconst.isFixed) hconst⟩

theorem tidies_emitOp {op : Op} {Q : Unit → List Nat → Prop} (hop : TidyOp self C lo A op)
    (h : Q () (op.oargs ++ A)) : Tidies self C lo A (emitOp op) Q := by
  intro b _ _
  have hone : newOps b ((emitOp op).run b).2 = [op] := List.drop_left
  rw [hone]
  exact ⟨rfl, _, .cons hop (.nil _), h⟩

theorem tidies_emitTo {opc : Opcode} {ty : IrType} {dst : Nat} {args : List Nat}
    {Q : Nat → List Nat → Prop} (hop : TidyOp self C lo A (Op.withArgs opc ty (dst :: args)))
    (h : Q dst ((Op.withArgs opc ty (dst :: args)).oargs ++ A)) :
    Tidies self C lo A (emitTo opc ty dst args) Q :=
  tidies_bind (tidies_emitOp hop (tidies_pure h))

/-! ## Rules for the ops -/

section
variable {ty : IrType} {d e a b x y z : Nat}

theorem readable_cons {t : Nat} {ts : List Nat} (h : Readable self C A t)
    (hs : ∀ t ∈ ts, Readable self C A t) : ∀ t' ∈ t :: ts, Readable self C A t' :=
  List.forall_mem_cons.mpr ⟨h, hs⟩

theorem readable_nil : ∀ t ∈ ([] : List Nat), Readable self C A t := fun _ h => (by cases h)

theorem writable_one {t : Nat} (h : Writable self C lo t) : ∀ t' ∈ [t], Writable self C lo t' :=
  List.forall_mem_singleton.mpr h

theorem tidies_binary {opc : Opcode} {f : ∀ n : Nat, BitVec n → BitVec n → BitVec n}
    {Q : Nat → List Nat → Prop} (hopc : binaryOp opc = some f) (hd : Writable self C lo d)
    (ha : Readable self C A a) (hb : Readable self C A b) (h : Q d (d :: A)) :
    Tidies self C lo A (emitBinary opc ty d a b) Q := by
  have hreads : ∀ t ∈ [a, b], Readable self C A t := readable_cons ha (readable_cons hb readable_nil)
  have hop : TidyOp self C lo A (Op.withArgs opc ty [d, a, b]) ∧
      (Op.withArgs opc ty [d, a, b]).oargs = [d] := by
    cases opc <;> cases hopc <;>
      exact ⟨⟨rfl, rfl, hreads, writable_one hd, List.nodup_singleton d, fun h => (by cases h)⟩, rfl⟩
  exact tidies_emitTo hop.1 (hop.2 ▸ h)

theorem tidies_unary {opc : Opcode} {f : ∀ n : Nat, BitVec n → BitVec n}
    {Q : Nat → List Nat → Prop} (hopc : unaryOp opc = some f) (hd : Writable self C lo d)
    (ha : Readable self C A a) (h : Q d (d :: A)) :
    Tidies self C lo A (emitUnary opc ty d a) Q := by
  have hreads : ∀ t ∈ [a], Readable self C A t := readable_cons ha readable_nil
  have hop : TidyOp self C lo A (Op.withArgs opc ty [d, a]) ∧
      (Op.withArgs opc ty [d, a]).oargs = [d] := by
    cases opc <;> cases hopc <;>
      exact ⟨⟨rfl, rfl, hreads, writable_one hd, List.nodup_singleton d, fun h => (by cases h)⟩, rfl⟩
  exact tidies_emitTo hop.1 (hop.2 ▸ h)

theorem tidies_convert {opc : Opcode} {f : BitVec 64 → BitVec 64}
    {Q : Nat → List Nat → Prop} (hopc : convertOp opc = some f) (hd : Writable self C lo d)
    (ha : Readable self C A a) (h : Q d (d :: A)) :
    Tidies self C lo A (emitUnary opc ty d a) Q := by
  have hreads : ∀ t ∈ [a], Readable self C A t := readable_cons ha readable_nil
  have hop : TidyOp self C lo A (Op.withArgs opc ty [d, a]) ∧
      (Op.withArgs opc ty [d, a]).oargs = [d] := by
    cases opc <;> cases hopc <;>
      exact ⟨⟨rfl, rfl, hreads, writable_one hd, List.nodup_singleton d, fun h => (by cases h)⟩, rfl⟩
  exact tidies_emitTo hop.1 (hop.2 ▸ h)

theorem tidies_setCond {cond : Cond} {Q : Nat → List Nat → Prop} (hd : Writable self C lo d)
    (ha : Readable self C A a) (hb : Readable self C A b) (h : Q d (d :: A)) :
    Tidies self C lo A (genSetCond ty d a b cond) Q := by
  refine tidies_emitTo ⟨rfl, rfl, ?_, writable_one hd, List.nodup_singleton d, fun h => (by cases h)⟩ h
  exact readable_cons ha (readable_cons hb readable_nil)

theorem tidies_movCond {cond : Cond} {Q : Nat → List Nat → Prop} (hd : Writable self C lo d)
    (ha : Readable self C A a) (hb : Readable self C A b) (hx : Readable self C A x) (hy : Readable self C A y)
    (h : Q d (d :: A)) : Tidies self C lo A (genMovCond ty d a b x y cond) Q := by
  refine tidies_emitTo ⟨rfl, rfl, ?_, writable_one hd, List.nodup_singleton d, fun h => (by cases h)⟩ h
  exact readable_cons ha (readable_cons hb (readable_cons hx (readable_cons hy readable_nil)))

/-- A double-width op writes both halves of its result. -/
theorem tidies_wide {op : Op} {Q : Unit → List Nat → Prop} (hinner : isInner op.opc = true)
    (harity : op.nargs = arity op.opc) (houts : op.oargs = [d, e]) (hhost : hostBytes op = none)
    (hd : Writable self C lo d) (he : Writable self C lo e) (hne : d ≠ e)
    (hreads : ∀ t ∈ op.iargs, Readable self C A t) (h : Q () (d :: e :: A)) :
    Tidies self C lo A (emitOp op) Q := by
  refine tidies_emitOp ⟨hinner, harity, hreads, ?_, ?_, ?_⟩ ?_
  · rw [houts]
    exact List.forall_mem_cons.mpr ⟨hd, writable_one he⟩
  · rw [houts]
    exact List.nodup_cons.mpr ⟨fun h => hne (List.mem_singleton.mp h), List.nodup_singleton e⟩
  · rw [hhost]
    exact fun h => (by cases h)
  · rw [houts]
    exact h

theorem tidies_div {opc : Opcode} {Q : Unit → List Nat → Prop} (hopc : opc = .divS2 ∨ opc = .divU2)
    (hd : Writable self C lo d) (he : Writable self C lo e) (hne : d ≠ e) (hx : Readable self C A x)
    (hy : Readable self C A y) (hz : Readable self C A z) (h : Q () (d :: e :: A)) :
    Tidies self C lo A (emitOp (Op.withArgs opc ty [d, e, x, y, z])) Q := by
  have hreads : ∀ t ∈ [x, y, z], Readable self C A t :=
    readable_cons hx (readable_cons hy (readable_cons hz readable_nil))
  rcases hopc with rfl | rfl <;> exact tidies_wide rfl rfl rfl rfl hd he hne hreads h

theorem tidies_mul {opc : Opcode} {Q : Unit → List Nat → Prop} (hopc : opc = .mulS2 ∨ opc = .mulU2)
    (hd : Writable self C lo d) (he : Writable self C lo e) (hne : d ≠ e) (hx : Readable self C A x)
    (hy : Readable self C A y) (h : Q () (d :: e :: A)) :
    Tidies self C lo A (emitOp (Op.withArgs opc ty [d, e, x, y])) Q := by
  have hreads : ∀ t ∈ [x, y], Readable self C A t := readable_cons hx (readable_cons hy readable_nil)
  rcases hopc with rfl | rfl <;> exact tidies_wide rfl rfl rfl rfl hd he hne hreads h

theorem tidies_qemuLd {memop : MemOp} {Q : Nat → List Nat → Prop} (hd : Writable self C lo d)
    (ha : Readable self C A a) (h : Q d (d :: A)) :
    Tidies self C lo A (genQemuLd ty d a memop) Q :=
  tidies_emitTo ⟨rfl, rfl, readable_cons ha readable_nil, writable_one hd, List.nodup_singleton d,
    fun h => (by cases h)⟩ h

theorem tidies_qemuSt {memop : MemOp} {Q : Unit → List Nat → Prop} (ha : Readable self C A a)
    (hb : Readable self C A b) (h : Q () A) : Tidies self C lo A (genQemuSt ty a b memop) Q :=
  tidies_emitOp ⟨rfl, rfl, readable_cons ha (readable_cons hb readable_nil), fun _ h => (by cases h),
    List.nodup_nil, fun h => (by cases h)⟩ h

theorem tidies_mb {barType : Nat} {Q : Unit → List Nat → Prop} (h : Q () A) :
    Tidies self C lo A (genMb barType) Q :=
  tidies_emitOp ⟨rfl, rfl, readable_nil, fun _ h => (by cases h), List.nodup_nil,
    fun h => (by cases h)⟩ h

end

/-! ## Rules for registers and fields -/

variable {d t : Nat}

theorem readable_env : Readable self C A self.env := .inl (.inr (.inl rfl))

theorem tidies_ldField (field : CpuField) {Q : Nat → List Nat → Prop}
    (hd : Writable self C lo d) (h : Q d (d :: A)) :
    Tidies self C lo A (genLd .i64 d self.env field.offset) Q :=
  tidies_emitTo ⟨rfl, rfl, readable_cons readable_env readable_nil, writable_one hd,
    List.nodup_singleton d, fun _ => ⟨.inl rfl, rfl, rfl, field, rfl⟩⟩ h

theorem tidies_stField (field : CpuField) {Q : Unit → List Nat → Prop}
    (ht : Readable self C A t) (h : Q () A) :
    Tidies self C lo A (genSt .i64 t self.env field.offset) Q :=
  tidies_emitOp ⟨rfl, rfl, readable_cons ht (readable_cons readable_env readable_nil),
    fun _ h => (by cases h), List.nodup_nil, fun _ => ⟨.inr rfl, rfl, rfl, field, rfl⟩⟩ h

theorem tidies_gprOrZero {r : Fin 32} {Q : Nat → List Nat → Prop}
    (h : ∀ t, IsSource self C t → Q t A) : Tidies self C lo A (self.gprOrZero r) Q := by
  unfold RiscvDisasContext.gprOrZero
  split
  · exact tidies_newConst fun c hc _ => h c hc
  · exact tidies_pure (h _ (.inr (.inr ⟨r, rfl⟩)))

theorem writable_gpr {rd : Fin 32} (hrd : rd ≠ 0) : Writable self C lo (self.gpr rd) :=
  .inr (.inl ⟨rd, hrd, rfl⟩)

theorem tidies_genSetGpr {rd : Fin 32} {Q : Unit → List Nat → Prop}
    (ht : Readable self C A t) (h : ∀ A', A ⊆ A' → Q () A') :
    Tidies self C lo A (self.genSetGpr rd t) Q := by
  unfold RiscvDisasContext.genSetGpr
  split
  · rename_i hrd
    exact tidies_bind (tidies_unary rfl (writable_gpr hrd) ht
      (tidies_pure (h _ (List.subset_cons_self _ _))))
  · exact tidies_pure (h _ (List.Subset.refl _))

theorem tidies_genSetGprSx32 {rd : Fin 32} {Q : Unit → List Nat → Prop}
    (ht : Readable self C A t) (h : ∀ A', A ⊆ A' → Q () A') :
    Tidies self C lo A (self.genSetGprSx32 rd t) Q := by
  unfold RiscvDisasContext.genSetGprSx32
  split
  · rename_i hrd
    exact tidies_bind (tidies_convert rfl (writable_gpr hrd) ht
      (tidies_pure (h _ (List.subset_cons_self _ _))))
  · exact tidies_pure (h _ (List.Subset.refl _))

/-! ## Tidy translations -/

/-- The code of a translation is tidy, whatever it returns and wherever it is appended. -/
def IsTidy (self : RiscvDisasContext) (g : Gen α) : Prop :=
  ∀ (C : Context) (lo : Nat) (A : List Nat), Tidies self C lo A g fun _ _ => True

/-- The env pointer stays as it is. -/
theorem does_env (hself : Globals self C) {g : Gen α} (htidy : IsTidy self g) {n : Nat}
    {s : State σ} {Q : α → Nat → State σ → Prop} (h : Does E C g Q n s) :
    Does E C g (fun a n' s' => Q a n' s' ∧ val C s' self.env = val C s self.env) n s := by
  intro b hn hC
  obtain ⟨hstraight, hQ⟩ := h b hn hC
  obtain ⟨-, A', hstretch, -⟩ := htidy C b.ctx.nbTemps [] b le_rfl hC
  exact ⟨hstraight, hQ, val_env_execOps hself hstretch s⟩

/-- It sets no labels. -/
theorem IsTidy.labelsBelow {g : Gen α} (htidy : IsTidy self g) {b : Builder}
    (hb : LabelsBelow b.nbLabels b.ops) (hC : (g.run b).2.ctx.Extends C) :
    LabelsBelow (g.run b).2.nbLabels (g.run b).2.ops := by
  obtain ⟨hlabels, A', hstretch, -⟩ := htidy C b.ctx.nbTemps [] b le_rfl hC
  rw [hlabels, ops_eq (g.extends_run b)]
  refine labelsBelow_append hb ?_
  intro op hop hset
  have hinner := hstretch.inner op hop
  rw [hset] at hinner
  cases hinner

theorem isTidy_pure (a : α) : IsTidy self (pure a : Gen α) :=
  fun _ _ _ => tidies_pure trivial

theorem isTidy_bind {g : Gen β} {f : β → Gen α} (hg : IsTidy self g) (hf : ∀ a, IsTidy self (f a)) :
    IsTidy self (g >>= f) :=
  fun C lo A => tidies_bind ((hg C lo A).mono fun a A' _ _ => hf a C lo A')

/-- It marks no instruction. -/
theorem IsTidy.stays {g : Gen α} (htidy : IsTidy self g) : StaysInInsn g := by
  intro b op hop hmark
  obtain ⟨-, A', hstretch, -⟩ := htidy (g.run b).2.ctx b.ctx.nbTemps [] b le_rfl (.refl _)
  have hinner := hstretch.inner op hop
  rw [hmark] at hinner
  cases hinner

end TcgRs.Analysis.TidyCode
