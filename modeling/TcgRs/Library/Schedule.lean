import Mathlib.Data.List.Basic

/-!
# Schedules of a step function

The states that a list of moves goes through, for a step function that may refuse a move.
-/

set_option autoImplicit false

namespace TcgRs.Library

variable {S A : Type}

/-- The state after the first `k` moves of a schedule. -/
def trace (step : S → A → Option S) (s₀ : S) (moves : List A) (k : Nat) : S :=
  ((moves.take k).foldlM step s₀).getD s₀

theorem trace_zero (step : S → A → Option S) (s₀ : S) (moves : List A) :
    trace step s₀ moves 0 = s₀ := rfl

theorem foldlM_prefix {step : S → A → Option S} {s₀ s : S} {l₁ l₂ : List A}
    (h : (l₁ ++ l₂).foldlM step s₀ = some s) :
    ∃ s₁, l₁.foldlM step s₀ = some s₁ ∧ l₂.foldlM step s₁ = some s := by
  rw [List.foldlM_append] at h
  exact Option.bind_eq_some_iff.mp h

/-- Every move of a schedule that runs through is a step of its trace. -/
theorem trace_step {step : S → A → Option S} {s₀ s : S} {moves : List A}
    (h : moves.foldlM step s₀ = some s) {k : Nat} (hk : k < moves.length) :
    step (trace step s₀ moves k) moves[k] = some (trace step s₀ moves (k + 1)) := by
  have hsplit : moves.take (k + 1) = moves.take k ++ [moves[k]] := by
    rw [List.take_append_getElem]
  have hall : (moves.take (k + 1) ++ moves.drop (k + 1)).foldlM step s₀ = some s := by
    rw [List.take_append_drop]
    exact h
  obtain ⟨s₂, h₂, -⟩ := foldlM_prefix hall
  obtain ⟨s₁, h₁, hlast⟩ := foldlM_prefix (hsplit ▸ h₂)
  have ht₁ : trace step s₀ moves k = s₁ := by rw [trace, h₁, Option.getD_some]
  have ht₂ : trace step s₀ moves (k + 1) = s₂ := by rw [trace, h₂, Option.getD_some]
  rw [ht₁, ht₂]
  rw [List.foldlM_cons] at hlast
  obtain ⟨s₃, h₃, heq⟩ := Option.bind_eq_some_iff.mp hlast
  injection heq with heq
  rw [← heq]
  exact h₃

/-- What every move of a list keeps, the whole list keeps. -/
theorem foldlM_invariant {step : S → A → Option S} (I : S → Prop) {moves : List A} {s₀ s : S}
    (h₀ : I s₀) (hstep : ∀ a ∈ moves, ∀ s s', I s → step s a = some s' → I s')
    (h : moves.foldlM step s₀ = some s) : I s := by
  induction moves generalizing s₀ with
  | nil =>
    injection h with h
    exact h ▸ h₀
  | cons a moves ih =>
    rw [List.foldlM_cons] at h
    obtain ⟨s₁, h₁, hrest⟩ := Option.bind_eq_some_iff.mp h
    refine ih (hstep a List.mem_cons_self s₀ s₁ h₀ h₁) ?_ hrest
    intro b hb
    exact hstep b (List.mem_cons_of_mem a hb)

/-- Moves that an invariant allows run through. -/
theorem foldlM_total {step : S → A → Option S} (I : S → Prop)
    (hstep : ∀ a s, I s → ∃ s', step s a = some s' ∧ I s') (moves : List A) {s₀ : S} (h₀ : I s₀) :
    ∃ s, moves.foldlM step s₀ = some s ∧ I s := by
  induction moves generalizing s₀ with
  | nil => exact ⟨s₀, rfl, h₀⟩
  | cons a moves ih =>
    obtain ⟨s₁, hfirst, h₁⟩ := hstep a s₀ h₀
    obtain ⟨s, hrest, hs⟩ := ih h₁
    refine ⟨s, ?_, hs⟩
    rw [List.foldlM_cons, hfirst]
    exact hrest

/-- A loop over `0, …, n - 1`, with an invariant that counts the rounds done. -/
theorem foldlM_range {step : S → Nat → Option S} (I : Nat → S → Prop) {n : Nat} {s₀ s : S}
    (h₀ : I 0 s₀) (hstep : ∀ k < n, ∀ s s', I k s → step s k = some s' → I (k + 1) s')
    (h : (List.range n).foldlM step s₀ = some s) : I n s := by
  induction n generalizing s with
  | zero =>
    injection h with h
    exact h ▸ h₀
  | succ n ih =>
    rw [List.range_succ] at h
    obtain ⟨s₁, h₁, hlast⟩ := foldlM_prefix h
    rw [List.foldlM_cons] at hlast
    obtain ⟨s₂, h₂, heq⟩ := Option.bind_eq_some_iff.mp hlast
    injection heq with heq
    rw [← heq]
    refine hstep n (Nat.lt_succ_self n) s₁ s₂ (ih ?_ h₁) h₂
    intro k hk
    exact hstep k (Nat.lt_succ_of_lt hk)

/-- An invariant that counts the moves done, along the prefixes of a list of moves. -/
theorem foldlM_take {step : S → A → Option S} (I : Nat → S → Prop) {moves : List A} {s₀ : S}
    (h₀ : I 0 s₀)
    (hstep : ∀ n a s s', moves[n]? = some a → I n s → step s a = some s' → I (n + 1) s') {n : Nat}
    (hn : n ≤ moves.length) {s : S} (h : (moves.take n).foldlM step s₀ = some s) : I n s := by
  induction n generalizing s with
  | zero =>
    injection h with h
    exact h ▸ h₀
  | succ n ih =>
    rw [← List.take_append_getElem hn] at h
    obtain ⟨s₁, h₁, hlast⟩ := foldlM_prefix h
    rw [List.foldlM_cons] at hlast
    obtain ⟨s₂, h₂, heq⟩ := Option.bind_eq_some_iff.mp hlast
    injection heq with heq
    rw [← heq]
    exact hstep n moves[n] s₁ s₂ (List.getElem?_eq_getElem hn) (ih (Nat.le_of_succ_le hn) h₁) h₂

theorem trace_length {step : S → A → Option S} {s₀ s : S} {moves : List A}
    (h : moves.foldlM step s₀ = some s) : trace step s₀ moves moves.length = s := by
  rw [trace, List.take_length, h, Option.getD_some]

end TcgRs.Library
