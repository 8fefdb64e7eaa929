import TcgRs.Analysis.FpCode

/-!
# Generated code that ends a block

Rules for code that leaves the op list, whatever follows it.
-/

set_option autoImplicit false

namespace TcgRs.Analysis.GeneratedExits

open TcgRs.Model TcgRs.Model.Ir TcgRs.Interface.Ir GeneratedCode GeneratedControl
open GuestCode (noEffects blankState)
open FpCode (reaches_of_does)

variable {σ : Type} {E : Effects σ} {C : Context}

/-! ## Generators -/

/-- From `s`, with `n` temps, the code of `g` leaves the block as `Q` says. -/
def Quits {α : Type} (E : Effects σ) (C : Context) (g : Gen α) (Q : α → Exit → State σ → Prop)
    (n : Nat) (s : State σ) : Prop :=
  ∀ b : Builder, b.ctx.nbTemps = n → LabelsBelow b.nbLabels b.ops →
    (g.run b).2.ctx.Extends C → ∃ exit s', Q (g.run b).1 exit s' ∧
      ∀ back, Exits E C ((g.run b).2.ops ++ back) b.ops.length s exit s'

variable {α β : Type} {Q : α → Exit → State σ → Prop} {n : Nat} {s : State σ}

/-- Straight code in front. -/
theorem quits_bind {g : Gen β} {f : β → Gen α} (hsets : SetsBelow 0 g)
    (h : Does E C g (fun a n' s' => Quits E C (f a) Q n' s') n s) :
    Quits E C (g >>= f) Q n s := by
  intro b hn hb hC
  have hrest := (f (g.run b).1).extends_run (g.run b).2
  obtain ⟨s₁, hquits, hreach⟩ := reaches_of_does (hn ▸ h) (hrest.ctx.trans hC)
  obtain ⟨exit, s', hQ, hexits⟩ := hquits _ rfl (hsets b (Nat.zero_le _) hb).2 hC
  refine ⟨exit, s', hQ, fun back => exits_of_reaches ?_ (hexits back)⟩
  rw [Gen.run_bind, ops_eq hrest, List.append_assoc]
  exact hreach _

/-- Nothing behind code that leaves the block matters. -/
theorem quits_return {g : Gen β} {f : β → α}
    (h : Quits E C g (fun a exit s' => Q (f a) exit s') n s) :
    Quits E C (do let a ← g; return f a) Q n s := h

theorem quits_exitTb {val : Nat} {Q : Unit → Exit → State σ → Prop}
    (h : Q () (.exitTb (val % 2 ^ 32)) s) : Quits E C (genExitTb val) Q n s := by
  intro b _ _ _
  refine ⟨_, s, h, fun back => ?_⟩
  have hops : ((genExitTb val).run b).2.ops =
      b.ops ++ [Op.withArgs .exitTb .i64 [val % 2 ^ 32]] := rfl
  have hget : (((genExitTb val).run b).2.ops ++ back)[b.ops.length]? =
      some (Op.withArgs .exitTb .i64 [val % 2 ^ 32]) := by
    rw [hops, List.append_assoc, List.getElem?_append_right le_rfl, Nat.sub_self]
    rfl
  exact exits_step hget rfl

theorem does_gotoTb {slot : Nat} {P : Unit → Nat → State σ → Prop} (h : P () n s) :
    Does E C (genGotoTb slot) P n s := does_emitOp rfl h

theorem setsBelow_gotoTb {k : Nat} (slot : Nat) : SetsBelow k (genGotoTb slot) :=
  setsBelow_emitOp fun h => (by cases h)

/-- A constant takes no op. -/
theorem newConst_ops (ty : IrType) (val : BitVec 64) (b : Builder) :
    ((newConst ty val).run b).2.ops = b.ops ∧
      ((newConst ty val).run b).2.nbLabels = b.nbLabels := by
  unfold newConst
  dsimp only
  split <;> exact ⟨rfl, rfl⟩

/-- The constant that a generator gets, in the context at the end. -/
theorem isConst_newConst {ty : IrType} {val : BitVec 64} {b : Builder}
    (hC : ((newConst ty val).run b).2.ctx.Extends C) :
    IsConst C ((newConst ty val).run b).1 val := by
  have hdoes : Does noEffects C (newConst ty val) (fun c _ _ => IsConst C c val) b.ctx.nbTemps
      blankState := does_newConst fun _ _ _ h => h
  exact (hdoes b rfl hC).2

end TcgRs.Analysis.GeneratedExits
