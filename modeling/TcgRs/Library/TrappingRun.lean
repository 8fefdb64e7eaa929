import Mathlib.Logic.Function.Defs

/-!
# Runs of a machine that traps

A step leaves a state, and an exception if it traps; a trap ends the run.
-/

set_option autoImplicit false

namespace TcgRs.Library

variable {S X : Type}

/-- `n` steps from a state; only the last one may trap. -/
inductive TrapRun (step : S → S × Option X) : Nat → S → S × Option X → Prop
  | nil (s : S) : TrapRun step 0 s (s, none)
  | cons {n : Nat} {s s' : S} {r : S × Option X} (h : step s = (s', none))
      (rest : TrapRun step n s' r) : TrapRun step (n + 1) s r
  | trap {s s' : S} {x : X} (h : step s = (s', some x)) : TrapRun step 1 s (s', some x)

variable {step : S → S × Option X}

theorem TrapRun.append {m n : Nat} {s s' : S} {r : S × Option X} (h : TrapRun step m s (s', none))
    (h' : TrapRun step n s' r) : TrapRun step (m + n) s r := by
  generalize hr : (s', (none : Option X)) = r₁ at h
  induction h with
  | nil s =>
    cases hr
    rw [Nat.zero_add]
    exact h'
  | @cons n' s s₁ r₁ hstep _ ih =>
    rw [Nat.add_right_comm]
    exact .cons hstep (ih hr)
  | trap hstep => cases hr

/-- One step, whether it traps or not. -/
theorem TrapRun.single (s : S) : TrapRun step 1 s (step s) := by
  cases h : step s with
  | mk s' x =>
    cases x with
    | none => exact .cons h (.nil s')
    | some x => exact .trap h

/-- Without a trap, a run is the start of every longer one. -/
theorem TrapRun.not_trap_of_le {m n : Nat} {s s' s'' : S} {x : X} (h : TrapRun step m s (s', none))
    (h' : TrapRun step n s (s'', some x)) : m < n := by
  generalize hr : (s', (none : Option X)) = r at h
  induction h generalizing n with
  | nil s =>
    cases h' with
    | cons _ _ => exact Nat.succ_pos _
    | trap _ => exact Nat.zero_lt_one
  | @cons m s s₁ r hstep _ ih =>
    cases h' with
    | cons hstep' rest' =>
      obtain ⟨rfl, -⟩ := Prod.mk.inj (hstep.symm.trans hstep')
      exact Nat.succ_lt_succ (ih rest' hr)
    | trap hstep' => cases hstep.symm.trans hstep'
  | trap hstep => cases hr

/-- A machine has at most one trap to run into. -/
theorem TrapRun.trap_unique {m n : Nat} {s s₁ s₂ : S} {x₁ x₂ : X}
    (h : TrapRun step m s (s₁, some x₁)) (h' : TrapRun step n s (s₂, some x₂)) :
    s₁ = s₂ ∧ x₁ = x₂ := by
  generalize hr : (s₁, some x₁) = r at h
  induction h generalizing n with
  | nil s => cases hr
  | @cons m s s' r hstep _ ih =>
    cases h' with
    | cons hstep' rest' =>
      obtain ⟨rfl, -⟩ := Prod.mk.inj (hstep.symm.trans hstep')
      exact ih rest' hr
    | trap hstep' => cases hstep.symm.trans hstep'
  | trap hstep =>
    cases hr
    cases h' with
    | cons hstep' _ => cases hstep.symm.trans hstep'
    | trap hstep' =>
      obtain ⟨hs, hx⟩ := Prod.mk.inj (hstep.symm.trans hstep')
      exact ⟨hs, Option.some.inj hx⟩

end TcgRs.Library
