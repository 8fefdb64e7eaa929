import TcgRs.Interface.GuestMachine
import TcgRs.Model.Ir.Builder
import Mathlib.Data.List.Basic

/-!
# What generated code does

Rules for the code that a generator appends.  The code is interpreted in the context at the end of
the translation, which has all temps that the generators made: temps only change when an op writes
them, and a generator is known by the number of temps it finds and leaves.
-/

set_option autoImplicit false

namespace TcgRs.Analysis.GeneratedCode

open TcgRs.Model TcgRs.Model.Ir TcgRs.Interface.Ir

variable {σ : Type} {E : Effects σ} {C : Context}

/-! ## Straight code -/

/-- Ops after which control goes to the next one. -/
def isStraight : Opcode → Bool
  | .br | .brCond | .exitTb | .gotoPtr => false
  | _ => true

/-- The state after ops that follow each other. -/
def execOps (E : Effects σ) (C : Context) (code : List Op) (s : State σ) : State σ :=
  code.foldl (fun s op => execOp E C op s) s

theorem nextPc_straight {ops : List Op} {pc : Nat} {op : Op} {s : State σ}
    (h : isStraight op.opc = true) : nextPc C ops pc op s = some (.inl (pc + 1)) := by
  unfold nextPc
  cases hop : op.opc <;> first | rfl | (rw [hop] at h; cases h)

/-- The interpreter goes through straight code in as many steps as it has ops. -/
theorem run_straight {front code rest : List Op} (hcode : ∀ op ∈ code, isStraight op.opc = true)
    (fuel : Nat) (s : State σ) :
    run E C (front ++ code ++ rest) (code.length + fuel) front.length s =
      run E C (front ++ code ++ rest) fuel (front.length + code.length) (execOps E C code s) := by
  induction code generalizing front s with
  | nil => rw [List.length_nil, Nat.zero_add]; rfl
  | cons op code ih =>
    have hget : (front ++ op :: code ++ rest)[front.length]? = some op := by
      rw [List.append_assoc, List.getElem?_append_right le_rfl, Nat.sub_self]
      rfl
    have hstep : run E C (front ++ op :: code ++ rest) ((op :: code).length + fuel) front.length s =
        run E C (front ++ op :: code ++ rest) (code.length + fuel) (front.length + 1)
          (execOp E C op s) := by
      rw [List.length_cons, Nat.add_right_comm]
      show ((front ++ op :: code ++ rest)[front.length]?).bind _ = _
      rw [hget]
      show (nextPc C _ _ op s).bind _ = _
      rw [nextPc_straight (hcode op List.mem_cons_self)]
      rfl
    have hshift : front ++ op :: code ++ rest = front ++ [op] ++ code ++ rest := by
      rw [List.append_assoc front [op] code]
      rfl
    have hlen : (front ++ [op]).length = front.length + 1 := by
      rw [List.length_append, List.length_singleton]
    rw [hstep, hshift, ← hlen, ih (fun op' h => hcode op' (List.mem_cons_of_mem _ h)), hlen,
      List.length_cons, Nat.add_assoc, Nat.add_comm 1]
    rfl

/-- From `s`, interpreting `code` wherever it stands in an op list leads to `s'`. -/
def Interprets (E : Effects σ) (C : Context) (code : List Op) (s s' : State σ) : Prop :=
  ∀ (front back : List Op) (fuel : Nat),
    run E C (front ++ code ++ back) (code.length + fuel) front.length s =
      run E C (front ++ code ++ back) fuel (front.length + code.length) s'

/-- Code leads to one state: a block that is left right after it ends there. -/
theorem Interprets.unique {code : List Op} {s s₁ s₂ : State σ} (h₁ : Interprets E C code s s₁)
    (h₂ : Interprets E C code s s₂) : s₁ = s₂ := by
  have hexit : ∀ s' : State σ, run E C ([] ++ code ++ [Op.withArgs .exitTb .i64 [0]]) 1
      (0 + code.length) s' = some (.exitTb 0, s') := by
    intro s'
    have hget : ([] ++ code ++ [Op.withArgs .exitTb .i64 [0]])[0 + code.length]? =
        some (Op.withArgs .exitTb .i64 [0]) := by
      rw [List.nil_append, Nat.zero_add, List.getElem?_append_right le_rfl, Nat.sub_self]
      rfl
    show (([] ++ code ++ [Op.withArgs .exitTb .i64 [0]])[0 + code.length]?).bind _ = _
    rw [hget]
    rfl
  have hrun := (h₁ [] [Op.withArgs .exitTb .i64 [0]] 1).symm.trans (h₂ [] _ 1)
  rw [List.length_nil, hexit, hexit] at hrun
  injection hrun with hrun
  injection hrun

/-! ## Names -/

/-- A temp that is neither a global nor a constant. -/
structure IsLocal (C : Context) (t : Nat) : Prop where
  not_global : C.nbGlobals ≤ t
  not_const : (C.temps t).isConst = false

/-- A temp that no write to a local changes. -/
def IsFixed (C : Context) (t : Nat) : Prop :=
  t < C.nbGlobals ∨ (t < C.nbTemps ∧ (C.temps t).isConst = true)

/-- The constant `val`. -/
structure IsConst (C : Context) (t : Nat) (val : BitVec 64) : Prop where
  lt : t < C.nbTemps
  const : (C.temps t).isConst = true
  val_eq : (C.temps t).val = val

theorem IsConst.isFixed {t : Nat} {val : BitVec 64} (h : IsConst C t val) : IsFixed C t :=
  .inr ⟨h.lt, h.const⟩

theorem IsConst.value {t : Nat} {val : BitVec 64} (h : IsConst C t val)
    (temps : Nat → BitVec 64) : valueOf C temps t = val := by
  rw [valueOf, if_pos ⟨h.lt, h.const⟩, h.val_eq]

theorem IsFixed.ne {t d : Nat} (h : IsFixed C t) (hd : IsLocal C d) : t ≠ d := by
  rintro rfl
  cases h with
  | inl hlt => exact absurd hd.not_global (Nat.not_le_of_lt hlt)
  | inr hconst =>
    rw [hd.not_const] at hconst
    exact Bool.false_ne_true hconst.2

theorem valueOf_update_self {d : Nat} (hd : (C.temps d).isConst = false) (v : BitVec 64)
    (temps : Nat → BitVec 64) : valueOf C (Function.update temps d v) d = v := by
  rw [valueOf, hd, if_neg (fun h => Bool.false_ne_true h.2), Function.update_self]

theorem valueOf_update_of_ne {t d : Nat} (h : t ≠ d) (v : BitVec 64) (temps : Nat → BitVec 64) :
    valueOf C (Function.update temps d v) t = valueOf C temps t := by
  rw [valueOf, valueOf, Function.update_of_ne h]

/-! ## Generators -/

/-- The ops that a generator appends. -/
def newOps (b b' : Builder) : List Op := b'.ops.drop b.ops.length

theorem ops_eq {b b' : Builder} (h : b.Extends b') : b'.ops = b.ops ++ newOps b b' := by
  obtain ⟨code, hcode⟩ := h.ops
  rw [newOps, ← hcode, List.drop_left]

theorem newOps_trans {b₁ b₂ b₃ : Builder} (h : b₁.Extends b₂) (h' : b₂.Extends b₃) :
    newOps b₁ b₃ = newOps b₁ b₂ ++ newOps b₂ b₃ := by
  have hall := ops_eq (h.trans h')
  rw [ops_eq h', ops_eq h, List.append_assoc] at hall
  exact (List.append_cancel_left hall).symm

/-- The code of `g` is straight, and from `s`, with `n` temps, it ends as `Q` says. -/
def Does {α : Type} (E : Effects σ) (C : Context) (g : Gen α) (Q : α → Nat → State σ → Prop)
    (n : Nat) (s : State σ) : Prop :=
  ∀ b : Builder, b.ctx.nbTemps = n → (g.run b).2.ctx.Extends C →
    (∀ op ∈ newOps b (g.run b).2, isStraight op.opc = true) ∧
      Q (g.run b).1 (g.run b).2.ctx.nbTemps (execOps E C (newOps b (g.run b).2) s)

variable {α β : Type} {Q : α → Nat → State σ → Prop} {n : Nat} {s : State σ}

theorem does_pure {a : α} (h : Q a n s) : Does E C (pure a) Q n s := by
  rintro b rfl -
  have hnone : newOps b b = [] := List.drop_length
  rw [Gen.run_pure, hnone]
  exact ⟨nofun, h⟩

theorem does_bind {g : Gen β} {f : β → Gen α}
    (h : Does E C g (fun a => Does E C (f a) Q) n s) : Does E C (g >>= f) Q n s := by
  intro b hn hC
  have hfirst := g.extends_run b
  have hrest := (f (g.run b).1).extends_run (g.run b).2
  obtain ⟨hstraight, hcont⟩ := h b hn (hrest.ctx.trans hC)
  obtain ⟨hstraight', hQ⟩ := hcont _ rfl hC
  rw [Gen.run_bind, newOps_trans hfirst hrest, execOps, List.foldl_append]
  refine ⟨?_, hQ⟩
  intro op hop
  cases List.mem_append.mp hop with
  | inl hop => exact hstraight op hop
  | inr hop => exact hstraight' op hop

theorem Does.mono {g : Gen α} {Q' : α → Nat → State σ → Prop}
    (h : Does E C g Q n s) (hQ : ∀ a n' s', Q a n' s' → Q' a n' s') : Does E C g Q' n s := by
  intro b hn hC
  obtain ⟨hstraight, hpost⟩ := h b hn hC
  exact ⟨hstraight, hQ _ _ _ hpost⟩

/-- The code that a run of the generator appends is interpreted as it says. -/
theorem Does.interprets {g : Gen α} {a : α} {b b' : Builder}
    (h : Does E C g Q b.ctx.nbTemps s) (hrun : g.run b = (a, b')) (hC : b'.ctx.Extends C) :
    ∃ s', Interprets E C (newOps b b') s s' ∧ Q a b'.ctx.nbTemps s' := by
  have hdoes := h b rfl
  rw [hrun] at hdoes
  obtain ⟨hstraight, hpost⟩ := hdoes hC
  exact ⟨_, fun front back fuel => run_straight hstraight fuel s, hpost⟩

/-- A new temp is the next one, and local. -/
theorem does_newTemp {ty : IrType} {Q : Nat → Nat → State σ → Prop}
    (h : IsLocal C n → Q n (n + 1) s) : Does E C (newTemp ty) Q n s := by
  rintro b rfl hC
  have hnone : newOps b (b.pushTemp (Temp.newEbb ty)) = [] := List.drop_length
  have hnew : C.temps b.ctx.nbTemps = Temp.newEbb ty := by
    rw [hC.temps_eq _ (Nat.lt_succ_self _)]
    exact Function.update_self _ _ _
  have hrun : (newTemp ty).run b = (b.ctx.nbTemps, b.pushTemp (Temp.newEbb ty)) := rfl
  rw [hrun, hnone]
  refine ⟨nofun, h ⟨?_, by rw [hnew]; rfl⟩⟩
  rw [hC.globals_eq]
  exact b.globals_le

/-- A constant may be an old temp or a new one. -/
theorem does_newConst {ty : IrType} {val : BitVec 64} {Q : Nat → Nat → State σ → Prop}
    (h : ∀ c n', n ≤ n' → IsConst C c val → Q c n' s) : Does E C (newConst ty val) Q n s := by
  rintro b rfl hC
  cases htable : b.constTable ty val with
  | some existing =>
    have hrun : (newConst ty val).run b = (existing, b) := by
      unfold newConst
      dsimp only
      rw [htable]
    have hnone : newOps b b = [] := List.drop_length
    rw [hrun] at hC ⊢
    rw [hnone]
    refine ⟨fun _ hop => (by cases hop), h existing _ le_rfl ?_⟩
    obtain ⟨hlt, hconst, hval⟩ := b.table_sound ty val existing htable
    have heq := hC.temps_eq existing hlt
    exact ⟨lt_of_lt_of_le hlt hC.temps_le, heq ▸ hconst, heq ▸ hval⟩
  | none =>
    have hrun : (newConst ty val).run b = (b.ctx.nbTemps, b.pushConst ty val) := by
      unfold newConst
      dsimp only
      rw [htable]
    have hnone : newOps b (b.pushConst ty val) = [] := List.drop_length
    rw [hrun] at hC ⊢
    rw [hnone]
    refine ⟨fun _ hop => (by cases hop), h _ _ (Nat.le_succ _) ?_⟩
    have hnew : C.temps b.ctx.nbTemps = Temp.newConst ty val := by
      rw [hC.temps_eq _ (Nat.lt_succ_self _)]
      exact Function.update_self _ _ _
    exact ⟨lt_of_lt_of_le (Nat.lt_succ_self _) hC.temps_le, by rw [hnew]; rfl, by rw [hnew]; rfl⟩

theorem does_emitOp {op : Op} {Q : Unit → Nat → State σ → Prop} (hop : isStraight op.opc = true)
    (h : Q () n (execOp E C op s)) : Does E C (emitOp op) Q n s := by
  rintro b rfl -
  have hone : newOps b ((emitOp op).run b).2 = [op] := List.drop_left
  rw [hone]
  refine ⟨?_, h⟩
  intro op' hop'
  rw [List.mem_singleton.mp hop']
  exact hop

theorem does_emitTo {opc : Opcode} {ty : IrType} {dst : Nat} {args : List Nat}
    {Q : Nat → Nat → State σ → Prop} (hop : isStraight opc = true)
    (h : Q dst n (execOp E C (Op.withArgs opc ty (dst :: args)) s)) :
    Does E C (emitTo opc ty dst args) Q n s :=
  does_bind (does_emitOp hop (does_pure h))

/-! ## Ops with one result -/

/-- The state in which a temp has got a value. -/
def setTemp (s : State σ) (d : Nat) (v : BitVec 64) : State σ :=
  { s with temps := Function.update s.temps d v }

/-- The value of a temp in a state. -/
def val (C : Context) (s : State σ) (t : Nat) : BitVec 64 := valueOf C s.temps t

@[simp] theorem setTemp_world (s : State σ) (d : Nat) (v : BitVec 64) :
    (setTemp s d v).world = s.world := rfl

theorem val_setTemp_self {d : Nat} (hd : IsLocal C d) (s : State σ) (v : BitVec 64) :
    val C (setTemp s d v) d = v := valueOf_update_self hd.not_const v s.temps

theorem val_setTemp_of_ne {t d : Nat} (h : t ≠ d) (s : State σ) (v : BitVec 64) :
    val C (setTemp s d v) t = val C s t := valueOf_update_of_ne h v s.temps

theorem val_setTemp_fixed {t d : Nat} (h : IsFixed C t) (hd : IsLocal C d) (s : State σ)
    (v : BitVec 64) : val C (setTemp s d v) t = val C s t := val_setTemp_of_ne (h.ne hd) s v

theorem IsConst.val {t : Nat} {x : BitVec 64} (h : IsConst C t x) (s : State σ) :
    GeneratedCode.val C s t = x := h.value s.temps

theorem condOfCarg_code (c : Cond) : condOfCarg c.code = c := by
  rw [condOfCarg, Cond.ofCode_code, Option.getD_some]

theorem execOp_setCond (ty : IrType) (d a b : Nat) (c : Cond) (s : State σ) :
    execOp E C (Op.withArgs .setCond ty [d, a, b, c.code]) s =
      setTemp s d (if condAtType ty c (val C s a) (val C s b) then 1 else 0) := by
  have hexec : execOp E C (Op.withArgs .setCond ty [d, a, b, c.code]) s =
      setTemp s d (if condAtType ty (condOfCarg c.code) (val C s a) (val C s b) then 1 else 0) :=
    rfl
  rw [hexec, condOfCarg_code]

theorem execOp_movCond (ty : IrType) (d c1 c2 v1 v2 : Nat) (c : Cond) (s : State σ) :
    execOp E C (Op.withArgs .movCond ty [d, c1, c2, v1, v2, c.code]) s =
      setTemp s d (atType ty (fun _ z => z)
        (if condAtType ty c (val C s c1) (val C s c2) then val C s v1 else val C s v2)) := by
  have hexec : execOp E C (Op.withArgs .movCond ty [d, c1, c2, v1, v2, c.code]) s =
      setTemp s d (atType ty (fun _ z => z) (if condAtType ty (condOfCarg c.code) (val C s c1)
        (val C s c2) then val C s v1 else val C s v2)) := rfl
  rw [hexec, condOfCarg_code]

theorem execOp_binary {opc : Opcode} {f : ∀ n : Nat, BitVec n → BitVec n → BitVec n}
    (h : binaryOp opc = some f) (ty : IrType) (d a b : Nat) (s : State σ) :
    execOp E C (Op.withArgs opc ty [d, a, b]) s =
      setTemp s d (atType₂ ty f (val C s a) (val C s b)) := by
  cases opc <;> cases h <;> rfl

theorem execOp_unary {opc : Opcode} {f : ∀ n : Nat, BitVec n → BitVec n}
    (h : unaryOp opc = some f) (ty : IrType) (d a : Nat) (s : State σ) :
    execOp E C (Op.withArgs opc ty [d, a]) s = setTemp s d (atType ty f (val C s a)) := by
  cases opc <;> cases h <;> rfl

theorem execOp_convert {opc : Opcode} {f : BitVec 64 → BitVec 64} (h : convertOp opc = some f)
    (ty : IrType) (d a : Nat) (s : State σ) :
    execOp E C (Op.withArgs opc ty [d, a]) s = setTemp s d (f (val C s a)) := by
  cases opc <;> cases h <;> rfl

/-! ## Rules for the ops -/

theorem does_binary {opc : Opcode} {f : ∀ n : Nat, BitVec n → BitVec n → BitVec n}
    {ty : IrType} {d a b : Nat} {Q : Nat → Nat → State σ → Prop} (hopc : binaryOp opc = some f)
    (h : Q d n (setTemp s d (atType₂ ty f (val C s a) (val C s b)))) :
    Does E C (emitBinary opc ty d a b) Q n s := by
  have hstraight : isStraight opc = true := by cases opc <;> first | rfl | cases hopc
  exact does_emitTo hstraight ((execOp_binary hopc ty d a b s).symm ▸ h)

theorem does_neg {ty : IrType} {d a : Nat} {Q : Nat → Nat → State σ → Prop}
    (h : Q d n (setTemp s d (atType ty (fun _ x => -x) (val C s a)))) :
    Does E C (genNeg ty d a) Q n s := does_emitTo rfl h

theorem does_mov {d a : Nat} {Q : Nat → Nat → State σ → Prop}
    (h : Q d n (setTemp s d (val C s a))) : Does E C (genMov .i64 d a) Q n s := does_emitTo rfl h

theorem does_extI32I64 {d a : Nat} {Q : Nat → Nat → State σ → Prop}
    (h : Q d n (setTemp s d (((val C s a).setWidth 32).signExtend 64))) :
    Does E C (genExtI32I64 d a) Q n s := does_emitTo rfl h

theorem does_extrlI64I32 {d a : Nat} {Q : Nat → Nat → State σ → Prop}
    (h : Q d n (setTemp s d (((val C s a).setWidth 32).setWidth 64))) :
    Does E C (genExtrlI64I32 d a) Q n s := does_emitTo rfl h

theorem does_movCond {ty : IrType} {d c1 c2 v1 v2 : Nat} {c : Cond}
    {Q : Nat → Nat → State σ → Prop}
    (h : Q d n (setTemp s d (atType ty (fun _ z => z)
      (if condAtType ty c (val C s c1) (val C s c2) then val C s v1 else val C s v2)))) :
    Does E C (genMovCond ty d c1 c2 v1 v2 c) Q n s :=
  does_emitTo rfl ((execOp_movCond ty d c1 c2 v1 v2 c s).symm ▸ h)

end TcgRs.Analysis.GeneratedCode
