import Mathlib.Logic.Function.Basic
import Mathlib.Data.List.Nodup

/-!
# Intrusive singly linked chains

Nodes of an arbitrary type `α` carry a successor `next : α → Option α`.  `Linked next h l`
says that the walk from the head `h` visits exactly the nodes of `l`, in this order, and
then ends.  A chain determines its list, so it never visits a node twice; the lemmas below
say how it changes when a node is put in front of it or taken out of it, and that a write
to a node outside the chain does not change it.
-/

set_option autoImplicit false

namespace TcgRs.Library

variable {α : Type*}

/-- The walk from `h` along `next` visits the nodes of `l` and ends. -/
def Linked (next : α → Option α) : Option α → List α → Prop
  | h, [] => h = none
  | h, a :: l => h = some a ∧ Linked next (next a) l

namespace Linked

variable {next next' : α → Option α} {h : Option α} {l l' : List α} {a : α}

@[simp] theorem nil_iff : Linked next h [] ↔ h = none := Iff.rfl

@[simp] theorem cons_iff : Linked next h (a :: l) ↔ h = some a ∧ Linked next (next a) l := Iff.rfl

/-- The walk from a head is determined by the successor function. -/
theorem unique (hl : Linked next h l) (hl' : Linked next h l') : l = l' := by
  induction l generalizing h l' with
  | nil =>
    cases l' with
    | nil => rfl
    | cons b t =>
      rw [nil_iff] at hl
      rw [cons_iff, hl] at hl'
      exact absurd hl'.1 (by simp)
  | cons a l ih =>
    cases l' with
    | nil =>
      rw [nil_iff] at hl'
      rw [cons_iff, hl'] at hl
      exact absurd hl.1 (by simp)
    | cons b t =>
      obtain ⟨ha, hl⟩ := hl
      obtain ⟨hb, hl'⟩ := hl'
      have hab : a = b := Option.some.inj (ha.symm.trans hb)
      subst hab
      rw [ih hl hl']

theorem suffix {l₁ l₂ : List α} (hl : Linked next h (l₁ ++ a :: l₂)) :
    Linked next (next a) l₂ := by
  induction l₁ generalizing h with
  | nil => exact hl.2
  | cons b l₁ ih => exact ih hl.2

/-- A chain that ends has no cycle. -/
theorem nodup (hl : Linked next h l) : l.Nodup := by
  induction l generalizing h with
  | nil => exact List.nodup_nil
  | cons a l ih =>
    refine List.nodup_cons.mpr ⟨?_, ih hl.2⟩
    intro hmem
    obtain ⟨l₁, l₂, rfl⟩ := List.append_of_mem hmem
    -- the rest of the chain after either occurrence of `a` is the same walk
    have heq := unique (suffix hl.2) hl.2
    have hlen := congrArg List.length heq
    simp at hlen
    omega

/-- Writes outside the chain do not change it. -/
theorem congr (hl : Linked next h l) (heq : ∀ b ∈ l, next' b = next b) : Linked next' h l := by
  induction l generalizing h with
  | nil => exact hl
  | cons a l ih =>
    refine ⟨hl.1, ?_⟩
    rw [heq a List.mem_cons_self]
    exact ih hl.2 (fun b hb => heq b (List.mem_cons_of_mem a hb))

variable [DecidableEq α]

/-- A fresh node put in front of the chain. -/
theorem prepend (hl : Linked next h l) (ha : a ∉ l) :
    Linked (Function.update next a h) (some a) (a :: l) := by
  refine ⟨rfl, ?_⟩
  rw [Function.update_self]
  refine hl.congr (fun b hb => ?_)
  have hba : b ≠ a := fun hba => ha (hba ▸ hb)
  exact Function.update_of_ne hba _ _

/-- The first node taken out of the chain. -/
theorem unlink_head (hl : Linked next h (a :: l)) :
    Linked (Function.update next a none) (next a) l := by
  have hnd := hl.nodup
  refine hl.2.congr (fun b hb => ?_)
  have hba : b ≠ a := fun hba => (List.nodup_cons.mp hnd).1 (hba ▸ hb)
  exact Function.update_of_ne hba _ _

/-- An inner node `a`, reached from its predecessor `p`, taken out of the chain. -/
theorem unlink_inner {p : α} {l₁ l₂ : List α} (hl : Linked next h (l₁ ++ p :: a :: l₂)) :
    Linked (Function.update (Function.update next p (next a)) a none) h (l₁ ++ p :: l₂) := by
  induction l₁ generalizing h with
  | nil =>
    have hnd := hl.nodup
    simp only [List.nil_append, List.nodup_cons, List.mem_cons, not_or] at hnd
    obtain ⟨⟨hpa, hp⟩, ha, -⟩ := hnd
    refine ⟨hl.1, ?_⟩
    rw [Function.update_of_ne hpa, Function.update_self]
    refine hl.2.2.congr (fun b hb => ?_)
    have hba : b ≠ a := fun hba => ha (hba ▸ hb)
    have hbp : b ≠ p := fun hbp => hp (hbp ▸ hb)
    rw [Function.update_of_ne hba, Function.update_of_ne hbp]
  | cons b l₁ ih =>
    have hnd := hl.nodup
    simp only [List.cons_append, List.nodup_cons, List.mem_append, List.mem_cons, not_or] at hnd
    refine ⟨hl.1, ?_⟩
    rw [Function.update_of_ne hnd.1.2.2.1, Function.update_of_ne hnd.1.2.1]
    exact ih hl.2

end Linked

end TcgRs.Library
