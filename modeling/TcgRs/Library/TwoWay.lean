import Mathlib.Logic.Function.Basic

/-!
# Two-way tables

A table kept in both directions: each place says who occupies it, and each occupant says
where it is.  The three ways of changing it (empty a place, forget an occupant, put an
occupant in a place) are total, whether or not the two directions agree; the lemmas say when
they keep the agreement.
-/

set_option autoImplicit false

namespace TcgRs.Library

variable {α β : Type} [DecidableEq α] [DecidableEq β]

/-- Two partial maps, meant to be inverse to each other. -/
structure TwoWay (α β : Type) where
  occupant : α → Option β
  place : β → Option α

namespace TwoWay

/-- The two directions agree. -/
def Consistent (T : TwoWay α β) : Prop := ∀ a b, T.occupant a = some b ↔ T.place b = some a

/-- Empty the place `a`; its occupant is nowhere. -/
def evict (T : TwoWay α β) (a : α) : TwoWay α β where
  occupant a' := if a' = a then none else T.occupant a'
  place b := if T.occupant a = some b then none else T.place b

/-- Remove `b` wherever it is. -/
def forget (T : TwoWay α β) (b : β) : TwoWay α β where
  occupant a := if T.occupant a = some b then none else T.occupant a
  place b' := if b' = b then none else T.place b'

/-- Write `b` into the place `a`. -/
def put (T : TwoWay α β) (a : α) (b : β) : TwoWay α β where
  occupant a' := if a' = a then some b else T.occupant a'
  place b' := if b' = b then some a else T.place b'

/-- Empty the place `a` and bring `b` there. -/
def move (T : TwoWay α β) (a : α) (b : β) : TwoWay α β := ((T.evict a).forget b).put a b

@[ext]
theorem ext {T T' : TwoWay α β} (ho : ∀ a, T.occupant a = T'.occupant a)
    (hp : ∀ b, T.place b = T'.place b) : T = T' := by
  cases T
  cases T'
  simp only [mk.injEq]
  exact ⟨funext ho, funext hp⟩

theorem evict_occupant (T : TwoWay α β) (a a' : α) :
    (T.evict a).occupant a' = if a' = a then none else T.occupant a' := rfl

theorem evict_place (T : TwoWay α β) (a : α) (b : β) :
    (T.evict a).place b = if T.occupant a = some b then none else T.place b := rfl

theorem forget_occupant (T : TwoWay α β) (b : β) (a : α) :
    (T.forget b).occupant a = if T.occupant a = some b then none else T.occupant a := rfl

theorem forget_place (T : TwoWay α β) (b b' : β) :
    (T.forget b).place b' = if b' = b then none else T.place b' := rfl

theorem put_occupant (T : TwoWay α β) (a a' : α) (b : β) :
    (T.put a b).occupant a' = if a' = a then some b else T.occupant a' := rfl

theorem put_place (T : TwoWay α β) (a : α) (b b' : β) :
    (T.put a b).place b' = if b' = b then some a else T.place b' := rfl

theorem evict_of_empty {T : TwoWay α β} {a : α} (h : T.occupant a = none) : T.evict a = T := by
  ext a' <;> grind [evict]

variable {T : TwoWay α β}

/-- An occupant is in one place only. -/
theorem Consistent.place_unique (hT : T.Consistent) {a a' : α} {b : β}
    (h : T.occupant a = some b) (h' : T.occupant a' = some b) : a = a' := by
  have hp := (hT a b).mp h
  have hp' := (hT a' b).mp h'
  rw [hp] at hp'
  injection hp'

theorem Consistent.evict (hT : T.Consistent) (a : α) : (T.evict a).Consistent := by
  intro a' b
  have hiff := hT a' b
  have hiff' := hT a b
  grind [TwoWay.evict]

theorem Consistent.forget (hT : T.Consistent) (b : β) : (T.forget b).Consistent := by
  intro a b'
  have hiff := hT a b'
  have hiff' := hT a b
  grind [TwoWay.forget]

theorem Consistent.put (hT : T.Consistent) {a : α} {b : β} (ha : T.occupant a = none)
    (hb : T.place b = none) : (T.put a b).Consistent := by
  intro a' b'
  have hiff := hT a' b'
  have hiff' := hT a b'
  have hiff'' := hT a' b
  grind [TwoWay.put]

theorem Consistent.move (hT : T.Consistent) (a : α) (b : β) : (T.move a b).Consistent := by
  refine ((hT.evict a).forget b).put ?_ ?_
  · simp [TwoWay.forget_occupant, TwoWay.evict_occupant]
  · simp [TwoWay.forget_place]

theorem move_occupant (T : TwoWay α β) (a a' : α) (b : β) :
    (T.move a b).occupant a' =
      if a' = a then some b else if T.occupant a' = some b then none else T.occupant a' := by
  simp only [TwoWay.move, put_occupant, forget_occupant, evict_occupant]
  grind

theorem move_place (T : TwoWay α β) (a : α) (b b' : β) :
    (T.move a b).place b' =
      if b' = b then some a else if T.occupant a = some b' then none else T.place b' := by
  simp only [TwoWay.move, put_place, forget_place, evict_place]
  grind

/-- Bringing an occupant to where it is. -/
theorem Consistent.move_self (hT : T.Consistent) {a : α} {b : β} (h : T.place b = some a) :
    T.move a b = T := by
  have hocc := (hT a b).mpr h
  ext x
  · have hiff := hT x b
    grind [move_occupant]
  · have hiff := hT a x
    grind [move_place]

end TwoWay

end TcgRs.Library
