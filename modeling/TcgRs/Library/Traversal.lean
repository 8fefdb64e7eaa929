import Mathlib.Data.List.Forall2

/-!
# Traversals that may fail

A list mapped by a partial function, element by element; a loop over a list that stops at the first
error, and what it keeps.
-/

set_option autoImplicit false

namespace TcgRs.Library.Traversal

variable {α β γ : Type}

/-! ## Partial maps -/

theorem mapM_eq_some_iff {f : α → Option β} {xs : List α} {ys : List β} :
    xs.mapM f = some ys ↔ List.Forall₂ (fun x y => f x = some y) xs ys := by
  induction xs generalizing ys with
  | nil => cases ys <;> simp
  | cons x xs ih =>
    rw [List.mapM_cons]
    cases hx : f x with
    | none => cases ys <;> simp [hx]
    | some y =>
      cases hxs : xs.mapM f with
      | none => cases ys <;> simp [← ih, hxs, hx]
      | some rest => cases ys <;> simp [← ih, hxs, hx]

theorem exists_mapM_iff {f : α → Option β} {xs : List α} :
    (∃ ys, xs.mapM f = some ys) ↔ ∀ x ∈ xs, ∃ y, f x = some y := by
  simp only [mapM_eq_some_iff]
  constructor
  · rintro ⟨ys, h⟩ x hx
    induction h with
    | nil => cases hx
    | @cons a b as bs hab _ ih =>
      rcases List.mem_cons.mp hx with rfl | hx
      · exact ⟨b, hab⟩
      · exact ih hx
  · intro h
    induction xs with
    | nil => exact ⟨[], .nil⟩
    | cons x xs ih =>
      obtain ⟨y, hy⟩ := h x (List.mem_cons_self ..)
      obtain ⟨ys, hys⟩ := ih fun a ha => h a (List.mem_cons_of_mem _ ha)
      exact ⟨y :: ys, .cons hy hys⟩

theorem forall₂_exists_left {R : α → β → Prop} {xs : List α} {ys : List β}
    (h : List.Forall₂ R xs ys) {y : β} (hy : y ∈ ys) : ∃ x ∈ xs, R x y := by
  induction h with
  | nil => cases hy
  | @cons a b as bs hab _ ih =>
    rcases List.mem_cons.mp hy with rfl | hy
    · exact ⟨a, List.mem_cons_self .., hab⟩
    · obtain ⟨x, hx, hxy⟩ := ih hy
      exact ⟨x, List.mem_cons_of_mem _ hx, hxy⟩

theorem forall₂_exists_right {R : α → β → Prop} {xs : List α} {ys : List β}
    (h : List.Forall₂ R xs ys) {x : α} (hx : x ∈ xs) : ∃ y ∈ ys, R x y :=
  forall₂_exists_left (List.Forall₂.flip (R := flip R) h) hx

/-- Searches that agree on related elements find related elements. -/
theorem find?_map_eq {R : α → β → Prop} {p : α → Bool} {q : β → Bool} {f : α → γ} {g : β → γ}
    {xs : List α} {ys : List β} (h : List.Forall₂ R xs ys)
    (hpq : ∀ x ∈ xs, ∀ y, R x y → p x = q y) (hfg : ∀ x ∈ xs, ∀ y, R x y → f x = g y) :
    (xs.find? p).map f = (ys.find? q).map g := by
  induction h with
  | nil => rfl
  | @cons a b as bs hab _ ih =>
    rw [List.find?_cons, List.find?_cons, hpq a (List.mem_cons_self ..) b hab]
    cases q b with
    | true => exact congrArg some (hfg a (List.mem_cons_self ..) b hab)
    | false =>
      apply ih
      · intro x hx
        exact hpq x (List.mem_cons_of_mem _ hx)
      · intro x hx
        exact hfg x (List.mem_cons_of_mem _ hx)

/-- A search depends on the test of the elements only. -/
theorem find?_congr {p q : α → Bool} {xs : List α} (h : ∀ x ∈ xs, p x = q x) :
    xs.find? p = xs.find? q := by
  induction xs with
  | nil => rfl
  | cons x xs ih =>
    rw [List.find?_cons, List.find?_cons, h x (List.mem_cons_self ..),
      ih fun y hy => h y (List.mem_cons_of_mem _ hy)]

/-! ## Loops that may stop with an error -/

theorem foldlM_invariant {ε σ : Type} {f : σ → α → Except ε σ} (P : σ → Prop) {xs : List α}
    (hstep : ∀ x ∈ xs, ∀ s s', P s → f s x = .ok s' → P s') {s s' : σ} (hs : P s)
    (hrun : xs.foldlM f s = .ok s') : P s' := by
  induction xs generalizing s with
  | nil =>
    cases hrun
    exact hs
  | cons x xs ih =>
    rw [List.foldlM_cons] at hrun
    cases hx : f s x with
    | error e =>
      rw [hx] at hrun
      cases hrun
    | ok s₁ =>
      rw [hx] at hrun
      exact ih (fun a ha => hstep a (List.mem_cons_of_mem _ ha))
        (hstep x (List.mem_cons_self ..) s s₁ hs hx) hrun

end TcgRs.Library.Traversal
