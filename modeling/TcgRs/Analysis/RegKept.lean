import TcgRs.Analysis.RegBooks

/-!
# What the allocator keeps from op to op

Between two ops the books agree in both directions and every Fixed temp is in its home
register, a reserved one that nothing else ever takes.  This file shows that `Mov`, `Call`,
`BrCond` and `GotoPtr` keep this, provided that the temp they define has no register when it
is given one and that no Fixed temp is moved.
-/

set_option autoImplicit false

namespace TcgRs.Analysis.RegKept

open TcgRs.Model TcgRs.Model.Ir TcgRs.Model.X86 TcgRs.Model.RegAlloc TcgRs.Library
open RegBooks

/-- The state between two ops.  `home` gives the home register of each Fixed temp. -/
structure Kept (home : Nat → Option Reg) (p : Pass) : Prop where
  sound : Sound p
  consistent : (books p).Consistent
  home_fixed : ∀ t, (home t).isSome = true ↔ kindOf p t = some .fixed
  home_reserved : ∀ t r, home t = some r → allocatableRegs.contains r = false
  home_distinct : ∀ t u r, home t = some r → home u = some r → t = u
  fixed : ∀ t r, home t = some r → (books p).place t = some r
  others : ∀ r t, (books p).occupant r = some t → home t = none → allocatableRegs.contains r = true

variable {home : Nat → Option Reg} {p p' : Pass}

theorem Kept.of_leads {T : TwoWay Reg Nat} (hk : Kept home p) (h : Leads p p' T)
    (hT : T.Consistent) (hfixed : ∀ t r, home t = some r → T.place t = some r)
    (hothers : ∀ r t, T.occupant r = some t → home t = none →
      allocatableRegs.contains r = true) : Kept home p' := by
  refine ⟨h.sound, h.table ▸ hT, ?_, hk.home_reserved, hk.home_distinct, h.table ▸ hfixed,
    h.table ▸ hothers⟩
  intro t
  rw [h.kind t]
  exact hk.home_fixed t

theorem Kept.same (hk : Kept home p) (h : Leads p p' (books p)) : Kept home p' :=
  hk.of_leads h hk.consistent hk.fixed hk.others

theorem Kept.emit (hk : Kept home p) (insn : HostInsn) : Kept home (p.emit insn) :=
  hk.same (leads_emit hk.sound insn)

/-- No Fixed temp is in an allocatable register. -/
theorem Kept.home_none (hk : Kept home p) {r : Reg} {t : Nat}
    (hr : allocatableRegs.contains r = true) (h : (books p).occupant r = some t) :
    home t = none := by
  cases hh : home t with
  | none => rfl
  | some h' =>
    have hp := hk.fixed t h' hh
    rw [(hk.consistent r t).mp h] at hp
    injection hp with hp
    rw [hp, hk.home_reserved t h' hh] at hr
    cases hr

theorem Kept.home_none_of_kind (hk : Kept home p) {t : Nat} (h : kindOf p t ≠ some .fixed) :
    home t = none := by
  cases hh : home t with
  | none => rfl
  | some r => exact absurd ((hk.home_fixed t).mp (by rw [hh]; rfl)) h

theorem Kept.home_none_of_not_owned (hk : Kept home p) {t : Nat} (h : ¬ Owned p t) :
    home t = none :=
  hk.home_none_of_kind (fun hfix => h (Or.inr hfix))

theorem Kept.evict {r : Reg} (hk : Kept home p) (hr : allocatableRegs.contains r = true)
    (h : Leads p p' ((books p).evict r)) : Kept home p' := by
  refine hk.of_leads h (hk.consistent.evict r) ?_ ?_
  · intro t a ht
    rw [TwoWay.evict_place, if_neg, hk.fixed t a ht]
    intro hocc
    rw [hk.home_none hr hocc] at ht
    cases ht
  · intro a t hocc
    rw [TwoWay.evict_occupant] at hocc
    split at hocc
    · cases hocc
    · exact hk.others a t hocc

theorem Kept.forget {t : Nat} (hk : Kept home p) (ht : home t = none)
    (h : Leads p p' ((books p).forget t)) : Kept home p' := by
  refine hk.of_leads h (hk.consistent.forget t) ?_ ?_
  · intro u a hu
    rw [TwoWay.forget_place, if_neg, hk.fixed u a hu]
    intro heq
    rw [heq, ht] at hu
    cases hu
  · intro a u hocc
    rw [TwoWay.forget_occupant] at hocc
    split at hocc
    · cases hocc
    · exact hk.others a u hocc

theorem Kept.put {r : Reg} {t : Nat} (hk : Kept home p) (hr : allocatableRegs.contains r = true)
    (hocc : (books p).occupant r = none) (hplace : (books p).place t = none)
    (h : Leads p p' ((books p).put r t)) : Kept home p' := by
  refine hk.of_leads h (hk.consistent.put hocc hplace) ?_ ?_
  · intro u a hu
    have hfix := hk.fixed u a hu
    rw [TwoWay.put_place, if_neg, hfix]
    intro heq
    rw [heq, hplace] at hfix
    cases hfix
  · intro a u hput hu
    rw [TwoWay.put_occupant] at hput
    split at hput
    · rename_i ha
      rw [ha]
      exact hr
    · exact hk.others a u hput hu

theorem Kept.move {r : Reg} {t : Nat} (hk : Kept home p) (hr : allocatableRegs.contains r = true)
    (ht : home t = none) (h : Leads p p' ((books p).move r t)) : Kept home p' := by
  refine hk.of_leads h (hk.consistent.move r t) ?_ ?_
  · intro u a hu
    rw [TwoWay.move_place, if_neg, if_neg, hk.fixed u a hu]
    · intro hocc
      rw [hk.home_none hr hocc] at hu
      cases hu
    · intro heq
      rw [heq, ht] at hu
      cases hu
  · intro a u hmove hu
    rw [TwoWay.move_occupant] at hmove
    split at hmove
    · rename_i ha
      rw [ha]
      exact hr
    · split at hmove
      · cases hmove
      · exact hk.others a u hmove hu

/-! ## Room -/

/-- The registers of a set, in order. -/
def elems (s : RegSet) : List Reg := allRegs.filter s.contains

theorem exists_not_mem_of_length_lt {s : RegSet} {l : List Reg} (h : l.length < (elems s).length) :
    ∃ r, s.contains r = true ∧ r ∉ l := by
  by_contra hno
  push Not at hno
  have hsub : elems s ⊆ l := by
    intro r hr
    exact hno r (List.mem_filter.mp hr).2
  have hnodup : (elems s).Nodup := List.Nodup.filter _ (by decide)
  have hle := (hnodup.subperm hsub).length_le
  omega

theorem room_of_length_lt {required forbidden : RegSet} {l : List Reg}
    (hsub : ∀ r, required.contains r = true → allocatableRegs.contains r = true)
    (hforb : ∀ r, forbidden.contains r = true → r ∈ l)
    (h : l.length < (elems required).length) : Room required forbidden := by
  obtain ⟨r, hr, hnot⟩ := exists_not_mem_of_length_lt h
  refine ⟨r, hr, hsub r hr, ?_⟩
  cases hf : forbidden.contains r with
  | false => rfl
  | true => exact absurd (hforb r hf) hnot

theorem room_allocatable {forbidden : RegSet} {l : List Reg}
    (hforb : ∀ r, forbidden.contains r = true → r ∈ l) (h : l.length < 13) :
    Room allocatableRegs forbidden :=
  room_of_length_lt (fun _ hr => hr) hforb h

theorem room_empty : Room allocatableRegs .empty := ⟨.rax, rfl, rfl, rfl⟩

/-! ## Moves -/

theorem kept_tempLoadTo {t : Nat} {required forbidden preferred : RegSet} {r : Reg}
    (hk : Kept home p) (ht : home t = none)
    (hsub : ∀ r, required.contains r = true → allocatableRegs.contains r = true)
    (hroom : Room required forbidden)
    (h : tempLoadTo p t required forbidden preferred = some (p', r)) :
    Kept home p' ∧ Leads p p' ((books p).move r t) ∧ required.contains r = true ∧
      forbidden.contains r = false := by
  obtain ⟨hreq, hforb, hlead⟩ := leads_tempLoadTo hk.sound hk.consistent hroom h
  exact ⟨hk.move (hsub r hreq) ht hlead, hlead, hreq, hforb⟩

theorem kept_regAlloc {required forbidden preferred : RegSet} {r : Reg}
    (hk : Kept home p)
    (h : regAlloc p required forbidden preferred = some (p', r)) :
    Kept home p' ∧ Leads p p' ((books p).evict r) ∧ allocatableRegs.contains r = true := by
  obtain ⟨-, hall, -, hlead⟩ := leads_regAlloc hk.sound (fun r t _ _ => (hk.consistent r t).mp) h
  exact ⟨hk.evict hall hlead, hlead, hall⟩

theorem kept_tempDead {t : Nat} (hk : Kept home p) (h : tempDead p t = some p') :
    Kept home p' ∧ (¬ Owned p t → (books p').place t = none) ∧
      ∀ u, (books p).place u = none → (books p').place u = none := by
  rcases leads_tempDead hk.sound hk.consistent h with ⟨hown, rfl⟩ | ⟨hown, hlead⟩
  · exact ⟨hk, fun h => absurd hown h, fun _ hu => hu⟩
  · refine ⟨hk.forget (hk.home_none_of_not_owned hown) hlead, ?_, ?_⟩
    · intro _
      rw [hlead.table, TwoWay.forget_place, if_pos rfl]
    · intro u hu
      rw [hlead.table, TwoWay.forget_place, hu, ite_self]

theorem kept_tempDeadIf {t : Nat} {b : Bool} (hk : Kept home p)
    (h : tempDeadIf b p t = some p') :
    Kept home p' ∧ (b = true → ¬ Owned p t → (books p').place t = none) ∧
      ∀ u, (books p).place u = none → (books p').place u = none := by
  rw [tempDeadIf] at h
  split at h
  · obtain ⟨hk', hdead, hnone⟩ := kept_tempDead hk h
    exact ⟨hk', fun _ => hdead, hnone⟩
  · rename_i hb
    injection h with h
    subst h
    exact ⟨hk, fun h => absurd h hb, fun _ hu => hu⟩

/-- `Mov` keeps the books when its source is not Fixed and its destination either has no
register or is the source, a local that dies here. -/
theorem kept_regallocMov {op : Op} (hk : Kept home p) (hsrc : home (op.args 1) = none)
    (hdst : (op.args 0 ≠ op.args 1 ∧ (books p).place (op.args 0) = none) ∨
      (op.args 0 = op.args 1 ∧ op.life.isDead 1 = true ∧ ¬ Owned p (op.args 1)))
    (h : regallocMov p op = some p') : Kept home p' := by
  obtain ⟨⟨p₁, srcReg⟩, h₁, h⟩ := Option.bind_eq_some_iff.mp h
  obtain ⟨p₂, h₂, h⟩ := Option.bind_eq_some_iff.mp h
  obtain ⟨⟨p₃, dstReg⟩, h₃, h⟩ := Option.bind_eq_some_iff.mp h
  obtain ⟨p₄, h₄, h⟩ := Option.bind_eq_some_iff.mp h
  obtain ⟨hk₁, hl₁, -, -⟩ := kept_tempLoadTo hk hsrc (fun _ hr => hr) room_empty h₁
  obtain ⟨hk₂, hdead, hnone⟩ := kept_tempDeadIf hk₁ h₂
  obtain ⟨hk₃, hl₃, hall⟩ := kept_regAlloc hk₂ h₃
  have hplace₂ : (books p₂).place (op.args 0) = none := by
    rcases hdst with ⟨hne, hplace⟩ | ⟨heq, hd, hlocal⟩
    · refine hnone _ ?_
      rw [hl₁.table, TwoWay.move_place, if_neg hne, hplace, ite_self]
    · rw [heq]
      refine hdead hd ?_
      rw [Owned, hl₁.kind]
      exact hlocal
  have hl₄ := leads_defineTemp hk₃.sound h₄
  have hk₄ : Kept home p₄ := by
    refine hk₃.put hall ?_ ?_ hl₄
    · rw [hl₃.table, TwoWay.evict_occupant, if_pos rfl]
    · rw [hl₃.table, TwoWay.evict_place, hplace₂, ite_self]
  split at h
  · exact (kept_tempDeadIf (hk₄.emit _) h).1
  · exact (kept_tempDeadIf hk₄ h).1

/-! ## Branches -/

theorem kept_syncGlobals (hk : Kept home p) (h : syncGlobals p = some p') : Kept home p' :=
  hk.same (leads_syncGlobals hk.sound h)

theorem kept_regallocGotoPtr {op : Op} (hop : op.opc = .gotoPtr) (hk : Kept home p)
    (hsrc : home (op.args 0) = none) (h : regallocGotoPtr p op = some p') : Kept home p' := by
  obtain ⟨⟨p₁, reg⟩, h₁, h⟩ := Option.bind_eq_some_iff.mp h
  obtain ⟨p₂, h₂, h⟩ := Option.bind_eq_some_iff.mp h
  obtain ⟨p₃, h₃, h⟩ := Option.bind_eq_some_iff.mp h
  injection h with h
  rw [hop] at h₁
  obtain ⟨hk₁, -⟩ := kept_tempLoadTo hk hsrc (fun _ hr => hr) room_empty h₁
  have hk₃ := kept_syncGlobals (kept_tempDeadIf hk₁ h₂).1 h₃
  exact h ▸ hk₃.emit _

theorem kept_loadBranchInputs {op : Op} {n : Nat} {iregs : List Reg} {allocated : RegSet}
    (hn : n < 13) (hct : ∀ i < n,
      ((opConstraint op.opc).args (op.opc.opDef.nbOargs + i)).regs = allocatableRegs)
    (hk : Kept home p) (hin : ∀ i < n, home (op.args (op.opc.opDef.nbOargs + i)) = none)
    (h : (List.range n).foldlM (loadBranchInput op) (p, [], .empty) = some (p', iregs, allocated)) :
    Kept home p' := by
  have hinv := foldlM_range
    (fun k s => Kept home s.1 ∧ ∃ l : List Reg, l.length = k ∧
      ∀ r, s.2.2.contains r = true → r ∈ l)
    (⟨hk, [], rfl, fun _ hr => by cases hr⟩ : _ ∧ _) ?_ h
  · exact hinv.1
  · rintro i hi ⟨q, ql, qa⟩ s' ⟨hq, l, hl, hmem⟩ hstep
    obtain ⟨⟨q', r⟩, hload, hstep⟩ := Option.bind_eq_some_iff.mp hstep
    injection hstep with hstep
    subst hstep
    rw [hct i hi] at hload
    obtain ⟨hq', -⟩ := kept_tempLoadTo hq (hin i hi) (fun _ hr => hr)
      (room_allocatable hmem (by omega)) hload
    refine ⟨hq', r :: l, by rw [List.length_cons, hl], ?_⟩
    intro a ha
    rw [RegSet.contains_set, Bool.or_eq_true, decide_eq_true_eq] at ha
    rcases ha with rfl | ha
    · exact List.mem_cons_self
    · exact List.mem_cons_of_mem r (hmem a ha)

theorem kept_regallocBrCond {op : Op} (hop : op.opc = .brCond) (hk : Kept home p)
    (hin : ∀ t ∈ op.iargs, home t = none) (h : regallocBrCond p op = some p') :
    Kept home p' := by
  obtain ⟨⟨p₁, iregs, allocated⟩, h₁, h⟩ := Option.bind_eq_some_iff.mp h
  obtain ⟨p₂, h₂, h⟩ := Option.bind_eq_some_iff.mp h
  obtain ⟨p₃, h₃, h⟩ := Option.bind_eq_some_iff.mp h
  injection h with h
  have hct : ∀ i < op.opc.opDef.nbIargs,
      ((opConstraint op.opc).args (op.opc.opDef.nbOargs + i)).regs = allocatableRegs := by
    rw [hop]
    intro i hi
    match i, hi with
    | 0, _ => rfl
    | 1, _ => rfl
  have hin' : ∀ i < op.opc.opDef.nbIargs, home (op.args (op.opc.opDef.nbOargs + i)) = none := by
    intro i hi
    exact hin _ (List.mem_map.mpr ⟨i, List.mem_range.mpr hi, rfl⟩)
  have hk₁ := kept_loadBranchInputs (by rw [hop]; decide) hct hk hin' h₁
  have hk₂ : Kept home p₂ := by
    refine foldlM_invariant (Kept home) hk₁ ?_ h₂
    intro i _ q q' hq hstep
    exact (kept_tempDeadIf hq hstep).1
  exact h ▸ (kept_syncGlobals hk₂ h₃).emit _

/-! ## Calls -/

/-- The books of `p'` are those of `p` with some temps taken out of their registers. -/
structure Shrinks (home : Nat → Option Reg) (p p' : Pass) : Prop where
  kept : Kept home p'
  kind : ∀ t, kindOf p' t = kindOf p t
  place : ∀ t r, (books p').place t = some r → (books p).place t = some r

theorem Shrinks.refl (hk : Kept home p) : Shrinks home p p := ⟨hk, fun _ => rfl, fun _ _ h => h⟩

theorem Shrinks.trans {p'' : Pass} (h : Shrinks home p p') (h' : Shrinks home p' p'') :
    Shrinks home p p'' :=
  ⟨h'.kept, fun t => (h'.kind t).trans (h.kind t), fun t r hr => h.place t r (h'.place t r hr)⟩

theorem Shrinks.occupant (hs : Shrinks home p p') (hk : Kept home p) {r : Reg} {t : Nat}
    (h : (books p').occupant r = some t) : (books p).occupant r = some t :=
  (hk.consistent r t).mpr (hs.place t r ((hs.kept.consistent r t).mp h))

theorem Shrinks.owned (hs : Shrinks home p p') {t : Nat} : Owned p' t ↔ Owned p t := by
  rw [Owned, Owned, hs.kind]

theorem Shrinks.of_same (hk : Kept home p) (h : Leads p p' (books p)) : Shrinks home p p' :=
  ⟨hk.same h, h.kind, fun _ _ hr => h.table ▸ hr⟩

theorem Shrinks.of_evict {r : Reg} (hk : Kept home p) (hr : allocatableRegs.contains r = true)
    (h : Leads p p' ((books p).evict r)) : Shrinks home p p' := by
  refine ⟨hk.evict hr h, h.kind, ?_⟩
  intro t a ha
  rw [h.table, TwoWay.evict_place] at ha
  split at ha
  · cases ha
  · exact ha

theorem Shrinks.of_forget {t : Nat} (hk : Kept home p) (ht : home t = none)
    (h : Leads p p' ((books p).forget t)) : Shrinks home p p' := by
  refine ⟨hk.forget ht h, h.kind, ?_⟩
  intro u a ha
  rw [h.table, TwoWay.forget_place] at ha
  split at ha
  · cases ha
  · exact ha

theorem callerSaved_allocatable {r : Reg} (h : r ∈ callerSaved) :
    allocatableRegs.contains r = true := by
  revert h
  cases r <;> decide

/-- Spilling a caller-saved register leaves no local in it. -/
theorem shrinks_spillLocal {r : Reg} (hk : Kept home p) (hr : allocatableRegs.contains r = true)
    (h : spillLocal p r = some p') :
    Shrinks home p p' ∧ ∀ t, (books p').occupant r = some t → Owned p' t := by
  rw [spillLocal] at h
  split at h
  · rename_i hnone
    injection h with h
    subst h
    refine ⟨Shrinks.refl hk, ?_⟩
    intro t ht
    rw [show (books p).occupant r = none from hnone] at ht
    cases ht
  · rename_i u hocc
    obtain ⟨temp, htemp, h⟩ := Option.bind_eq_some_iff.mp h
    split at h
    · rename_i hown
      injection h with h
      subst h
      refine ⟨Shrinks.refl hk, ?_⟩
      intro t ht
      rw [show (books p).occupant r = some u from hocc] at ht
      injection ht with ht
      exact ht ▸ (isGlobalOrFixed_iff htemp).mp hown
    · have hlead := leads_evictReg hk.sound (fun t => (hk.consistent r t).mp) h
      refine ⟨Shrinks.of_evict hk hr hlead, ?_⟩
      intro t ht
      rw [hlead.table, TwoWay.evict_occupant, if_pos rfl] at ht
      cases ht

/-- Clobbering a register that holds no local empties it. -/
theorem shrinks_clobberReg {r : Reg} (hk : Kept home p) (hr : allocatableRegs.contains r = true)
    (hlocal : ∀ t, (books p).occupant r = some t → Owned p t) (h : clobberReg p r = some p') :
    Shrinks home p p' ∧ (books p').occupant r = none := by
  rw [clobberReg] at h
  split at h
  · rename_i hnone
    injection h with h
    subst h
    exact ⟨Shrinks.refl hk, hnone⟩
  · rename_i u hocc
    obtain ⟨temp, htemp, h⟩ := Option.bind_eq_some_iff.mp h
    rw [if_pos ((isGlobalOrFixed_iff htemp).mpr (hlocal u hocc))] at h
    injection h with h
    have hlead := leads_vacate (f := Temp.toMem) hk.sound hocc (fun _ => rfl)
      (fun _ => by simp [Temp.toMem]) (fun _ => rfl)
    rw [h] at hlead
    refine ⟨Shrinks.of_evict hk hr hlead, ?_⟩
    rw [hlead.table, TwoWay.evict_occupant, if_pos rfl]

theorem shrinks_tempDeadInput {t : Nat} (hk : Kept home p) (h : tempDeadInput p t = some p') :
    Shrinks home p p' ∧ (¬ Owned p t → (books p').place t = none) := by
  rcases leads_tempDeadInput hk.sound (fun r => (hk.consistent r t).mp) h with
    ⟨hown, rfl⟩ | ⟨hown, hlead⟩
  · exact ⟨Shrinks.refl hk, fun h => absurd hown h⟩
  · refine ⟨Shrinks.of_forget hk (hk.home_none_of_not_owned hown) hlead, ?_⟩
    intro _
    rw [hlead.table, TwoWay.forget_place, if_pos rfl]

/-- A property of registers that shrinking keeps, established register by register. -/
theorem shrinks_foldlM {A : Type} {step : Pass → A → Option Pass} {moves : List A}
    (P : A → Pass → Prop) (hk : Kept home p)
    (hstep : ∀ a ∈ moves, ∀ q q', Shrinks home p q → step q a = some q' →
      Shrinks home q q' ∧ P a q')
    (hP : ∀ a q q', Kept home q → Shrinks home q q' → P a q → P a q')
    (h : moves.foldlM step p = some p') : Shrinks home p p' ∧ ∀ a ∈ moves, P a p' := by
  suffices hgen : ∀ (l : List A) q, Shrinks home p q → (∀ a ∈ l, a ∈ moves) →
      l.foldlM step q = some p' → Shrinks home q p' ∧ ∀ a ∈ l, P a p' from
    hgen moves p (Shrinks.refl hk) (fun _ ha => ha) h
  intro l
  induction l with
  | nil =>
    intro q hq _ h
    injection h with h
    exact ⟨h ▸ Shrinks.refl hq.kept, fun _ ha => by cases ha⟩
  | cons a l ih =>
    intro q hq hmem h
    rw [List.foldlM_cons] at h
    obtain ⟨q₁, h₁, h⟩ := Option.bind_eq_some_iff.mp h
    obtain ⟨hs₁, hP₁⟩ := hstep a (hmem a List.mem_cons_self) q q₁ hq h₁
    obtain ⟨hs, hl⟩ := ih q₁ (hq.trans hs₁) (fun b hb => hmem b (List.mem_cons_of_mem a hb)) h
    refine ⟨hs₁.trans hs, ?_⟩
    intro b hb
    rcases List.mem_cons.mp hb with rfl | hb
    · exact hP b q₁ p' hs₁.kept hs hP₁
    · exact hl b hb

theorem leads_loadArg {t : Nat} {target : Reg} (hs : Sound p) (h : loadArg p t target = some p') :
    Leads p p' (books p) := by
  obtain ⟨temp, -, h⟩ := Option.bind_eq_some_iff.mp h
  split at h
  · obtain ⟨src, -, h⟩ := Option.bind_eq_some_iff.mp h
    split at h
    · injection h with h
      exact h ▸ leads_emit hs _
    · injection h with h
      exact h ▸ Leads.refl hs
  · injection h with h
    exact h ▸ leads_emit hs _
  · obtain ⟨hctx, hstate, hev⟩ := loadFromMem_ctx h
    refine ⟨⟨hstate ▸ hs.free, hctx ▸ hs.located, hev ▸ hs.evicted⟩, ?_, ?_⟩
    · intro u
      rw [kindOf, hctx, kindOf]
    · rw [books, hctx, hstate, books]
  · injection h with h
    exact h ▸ leads_emit hs _

/-- `Call` keeps the books when the temp it defines is not in a register that survives the
call, or is a local argument that dies here. -/
theorem kept_regallocCall {op : Op} (hop : op.opc = .call) (hk : Kept home p)
    (hdst : (∀ r, (books p).place (op.args 0) = some r → r ∈ callerSaved) ∨
      (¬ Owned p (op.args 0) ∧
        ∃ i < op.opc.opDef.nbIargs, op.life.isDead (op.opc.opDef.nbOargs + i) = true ∧
          op.args (op.opc.opDef.nbOargs + i) = op.args 0))
    (h : regallocCall p op (opConstraint op.opc) = some p') : Kept home p' := by
  obtain ⟨p₁, h₁, h⟩ := Option.bind_eq_some_iff.mp h
  obtain ⟨p₂, h₂, h⟩ := Option.bind_eq_some_iff.mp h
  obtain ⟨targets, -, h⟩ := Option.bind_eq_some_iff.mp h
  obtain ⟨p₃, h₃, h⟩ := Option.bind_eq_some_iff.mp h
  obtain ⟨p₄, h₄, h⟩ := Option.bind_eq_some_iff.mp h
  obtain ⟨p₅, h₅, h⟩ := Option.bind_eq_some_iff.mp h
  obtain ⟨outReg, hout, h⟩ := Option.bind_eq_some_iff.mp h
  obtain ⟨p₆, h₆, h⟩ := Option.bind_eq_some_iff.mp h
  have hs₁ : Shrinks home p p₁ := Shrinks.of_same hk (leads_syncGlobals hk.sound h₁)
  -- The locals leave the caller-saved registers.
  obtain ⟨hs₂, hlocal₂⟩ := shrinks_foldlM
    (fun r q => ∀ t, (books q).occupant r = some t → Owned q t) hs₁.kept
    (fun r hr q q' hq hstep =>
      shrinks_spillLocal hq.kept (callerSaved_allocatable hr) hstep)
    (fun r q q' hq hs hP t ht => hs.owned.mpr (hP t (hs.occupant hq ht))) h₂
  have hs₃ : Shrinks home p₂ p₃ := by
    refine Shrinks.of_same hs₂.kept (leads_foldlM hs₂.kept.sound ?_ h₃)
    intro a _ q q' hq hstep
    exact leads_loadArg hq hstep
  -- The dead arguments leave their registers.
  obtain ⟨hs₄, hdead₄⟩ := shrinks_foldlM
    (fun i q => op.life.isDead (op.opc.opDef.nbOargs + i) = true →
      ¬ Owned q (op.args (op.opc.opDef.nbOargs + i)) →
        (books q).place (op.args (op.opc.opDef.nbOargs + i)) = none) hs₃.kept
    (fun i _ q q' hq hstep => by
      rw [freeDeadArg] at hstep
      split at hstep
      · obtain ⟨hs, hnone⟩ := shrinks_tempDeadInput hq.kept hstep
        exact ⟨hs, fun _ hown => hnone (fun h => hown (hs.owned.mpr h))⟩
      · rename_i hnot
        injection hstep with hstep
        exact ⟨hstep ▸ Shrinks.refl hq.kept, fun h => absurd h hnot⟩)
    (fun i q q' hq hs hP hd hown => by
      have hnone := hP hd (fun h => hown (hs.owned.mpr h))
      cases hplace : (books q').place (op.args (op.opc.opDef.nbOargs + i)) with
      | none => rfl
      | some r => rw [hs.place _ r hplace] at hnone; cases hnone) h₄
  -- The caller-saved registers are emptied.
  obtain ⟨hs₅, hempty⟩ := shrinks_foldlM
    (fun r q => (books q).occupant r = none) hs₄.kept
    (fun r hr q q' hq hstep => by
      refine shrinks_clobberReg hq.kept (callerSaved_allocatable hr) ?_ hstep
      intro t ht
      have ht₄ := hq.occupant hs₄.kept ht
      have ht₂ := (hs₃.trans hs₄).occupant hs₂.kept ht₄
      exact ((hs₃.trans hs₄).trans hq).owned.mpr (hlocal₂ r hr t ht₂))
    (fun r q q' hq hs hP => by
      cases hocc : (books q').occupant r with
      | none => rfl
      | some t => rw [hs.occupant hq hocc] at hP; cases hP) h₅
  have hs := (((hs₁.trans hs₂).trans hs₃).trans hs₄).trans hs₅
  have houtReg : outReg = .rax := by
    rw [hop] at hout
    injection hout with hout
    exact hout.symm
  have hplace : (books p₅).place (op.args 0) = none := by
    cases hp : (books p₅).place (op.args 0) with
    | none => rfl
    | some r =>
      rcases hdst with hdst | ⟨hown, i, hi, hd, heq⟩
      · have hr := hdst r (hs.place _ r hp)
        have hocc := (hs.kept.consistent r (op.args 0)).mpr hp
        rw [hempty r hr] at hocc
        cases hocc
      · have hown₄ : ¬ Owned p₄ (op.args 0) :=
          fun h => hown ((((hs₁.trans hs₂).trans hs₃).trans hs₄).owned.mp h)
        have hnone := hdead₄ i (List.mem_range.mpr hi) hd (heq ▸ hown₄)
        rw [heq, hs₅.place _ r hp] at hnone
        cases hnone
  have hemit := hs₅.kept.emit (.op op.opc op.opType [outReg] targets op.cargs)
  have hk₆ : Kept home p₆ := by
    refine hemit.put ?_ ?_ hplace (leads_defineTemp hemit.sound h₆)
    · rw [houtReg]
      rfl
    · rw [houtReg]
      exact hempty .rax (by decide)
  exact (kept_tempDeadIf hk₆ h).1

end TcgRs.Analysis.RegKept
