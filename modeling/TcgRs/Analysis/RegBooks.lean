import TcgRs.Library.Schedule
import TcgRs.Library.TwoWay
import TcgRs.Model.RegAlloc

/-!
# The books of the register allocator

The allocator keeps the place of every temp twice: `reg_to_temp` says which temp a register
holds, and the temp says which register it is in.  Read together they are a two-way table,
and this file says what each function of the allocator does to it, to the set of free
registers and to the record of evictions.
-/

set_option autoImplicit false

namespace TcgRs.Analysis.RegBooks

open TcgRs.Model TcgRs.Model.Ir TcgRs.Model.X86 TcgRs.Model.RegAlloc TcgRs.Library

/-- Registers and temps as a two-way table. -/
def books (p : Pass) : TwoWay Reg Nat := ⟨p.state.regToTemp, fun t => (p.ctx.temp t).bind Temp.reg⟩

def kindOf (p : Pass) (t : Nat) : Option TempKind := (p.ctx.temp t).map Temp.kind

/-- The free set is exactly the allocatable registers without an occupant. -/
structure FreeExact (s : RegAllocState) : Prop where
  allocatable : s.allocatable = allocatableRegs
  free : ∀ r, s.freeRegs.contains r = true ↔
    allocatableRegs.contains r = true ∧ s.regToTemp r = none

/-- What holds of the allocator at every point, also in the middle of an op: the free set is
exact, a temp names a register exactly when it lives in one, and every eviction so far took
a register from the temp that was recorded in it. -/
structure Sound (p : Pass) : Prop where
  free : FreeExact p.state
  located : ∀ t temp, p.ctx.temp t = some temp → (temp.valType = .reg ↔ temp.reg.isSome = true)
  evicted : ∀ e ∈ p.evictions, e.recorded = some e.reg

/-- Going from `p` to `p'` keeps the allocator sound and every temp's kind, and leaves the
books as `T`. -/
structure Leads (p p' : Pass) (T : TwoWay Reg Nat) : Prop where
  sound : Sound p'
  kind : ∀ t, kindOf p' t = kindOf p t
  table : books p' = T

theorem Leads.refl {p : Pass} (hs : Sound p) : Leads p p (books p) := ⟨hs, fun _ => rfl, rfl⟩

theorem Leads.trans {p p' p'' : Pass} {T T' : TwoWay Reg Nat} (h : Leads p p' T)
    (h' : Leads p' p'' T') : Leads p p'' T' := by
  refine ⟨h'.sound, ?_, h'.table⟩
  intro t
  rw [h'.kind t, h.kind t]

/-! ## Elementary updates -/

theorem temp_modTemp (ctx : Context) (t u : Nat) (f : Temp → Temp) :
    (ctx.modTemp t f).temp u = if u = t then (ctx.temp t).map f else ctx.temp u := by
  by_cases hu : u = t
  · subst hu
    by_cases hlt : u < ctx.nbTemps <;> simp [Context.modTemp, Context.temp, hlt]
  · simp [Context.modTemp, Context.temp, hu]

theorem FreeExact.freeReg {s : RegAllocState} (hs : FreeExact s) (reg : Reg) :
    FreeExact (s.freeReg reg) := by
  refine ⟨hs.allocatable, ?_⟩
  intro r
  have hfree := hs.free r
  by_cases ha : allocatableRegs.contains reg = true
  · by_cases hr : r = reg
    · subst hr
      simp [RegAllocState.freeReg, hs.allocatable, ha]
    · simpa [RegAllocState.freeReg, hs.allocatable, ha, hr] using hfree
  · by_cases hr : r = reg
    · subst hr
      simpa [RegAllocState.freeReg, hs.allocatable, ha] using hfree
    · simpa [RegAllocState.freeReg, hs.allocatable, ha, hr] using hfree

theorem FreeExact.assign {s : RegAllocState} (hs : FreeExact s) (reg : Reg) (t : Nat) :
    FreeExact (s.assign reg t) := by
  refine ⟨hs.allocatable, ?_⟩
  intro r
  have hfree := hs.free r
  by_cases hr : r = reg
  · subst hr
    simp [RegAllocState.assign]
  · simpa [RegAllocState.assign, hr] using hfree

/-- Changing a temp so that it names a register exactly when it lives in one. -/
theorem located_modTemp {p : Pass} (hs : Sound p) (t : Nat) {f : Temp → Temp}
    (hf : ∀ x, p.ctx.temp t = some x → ((f x).valType = .reg ↔ (f x).reg.isSome = true)) :
    ∀ u temp, (p.ctx.modTemp t f).temp u = some temp →
      (temp.valType = .reg ↔ temp.reg.isSome = true) := by
  intro u temp h
  rw [temp_modTemp] at h
  split at h
  · obtain ⟨x, hx, rfl⟩ := Option.map_eq_some_iff.mp h
    exact hf x hx
  · exact hs.located u temp h

theorem kindOf_modTemp (p : Pass) (t u : Nat) {f : Temp → Temp} (hf : ∀ x, (f x).kind = x.kind) :
    kindOf (p.modTemp t f) u = kindOf p u := by
  simp only [kindOf, Pass.modTemp, temp_modTemp]
  split
  · rename_i hu
    subst hu
    cases p.ctx.temp u <;> simp [hf]
  · rfl

theorem place_modTemp (p : Pass) (t u : Nat) (f : Temp → Temp) :
    (books (p.modTemp t f)).place u =
      if u = t then (p.ctx.temp t).bind fun x => (f x).reg else (books p).place u := by
  simp only [books, Pass.modTemp, temp_modTemp]
  split
  · cases p.ctx.temp t <;> rfl
  · rfl

@[simp] theorem occupant_modTemp (p : Pass) (t : Nat) (f : Temp → Temp) (r : Reg) :
    (books (p.modTemp t f)).occupant r = (books p).occupant r := rfl

theorem occupant_freeReg (p : Pass) (reg r : Reg) :
    (books (p.freeReg reg)).occupant r = if r = reg then none else (books p).occupant r := by
  simp [books, Pass.freeReg, RegAllocState.freeReg, Function.update_apply]

@[simp] theorem place_freeReg (p : Pass) (reg : Reg) (t : Nat) :
    (books (p.freeReg reg)).place t = (books p).place t := rfl

theorem occupant_assign (p : Pass) (reg r : Reg) (t : Nat) :
    (books (p.assign reg t)).occupant r = if r = reg then some t else (books p).occupant r := by
  simp [books, Pass.assign, RegAllocState.assign, Function.update_apply]

@[simp] theorem place_assign (p : Pass) (reg : Reg) (t u : Nat) :
    (books (p.assign reg t)).place u = (books p).place u := rfl

theorem Sound.emit {p : Pass} (hs : Sound p) (insn : HostInsn) : Sound (p.emit insn) :=
  ⟨hs.free, hs.located, hs.evicted⟩

theorem leads_emit {p : Pass} (hs : Sound p) (insn : HostInsn) : Leads p (p.emit insn) (books p) :=
  ⟨hs.emit insn, fun _ => rfl, rfl⟩

/-- An update that moves nothing. -/
theorem leads_modTemp {p : Pass} (hs : Sound p) (t : Nat) {f : Temp → Temp}
    (hreg : ∀ x, (f x).reg = x.reg) (hval : ∀ x, (f x).valType = x.valType)
    (hkind : ∀ x, (f x).kind = x.kind) : Leads p (p.modTemp t f) (books p) := by
  refine ⟨⟨hs.free, ?_, hs.evicted⟩, fun u => kindOf_modTemp p t u hkind, ?_⟩
  · refine located_modTemp hs t ?_
    intro x hx
    rw [hreg, hval]
    exact hs.located t x hx
  · ext u
    · rfl
    · rw [place_modTemp]
      split
      · rename_i hu
        subst hu
        simp only [hreg, books]
      · rfl

/-! ## Syncing -/

theorem tempSync_ctx {p p' : Pass} {t : Nat} (h : tempSync p t = some p') :
    p'.ctx = p.ctx ∧ p'.state = p.state ∧ p'.evictions = p.evictions := by
  obtain ⟨temp, -, h⟩ := Option.bind_eq_some_iff.mp h
  split at h
  · injection h with h
    exact h ▸ ⟨rfl, rfl, rfl⟩
  · split at h
    · injection h with h
      exact h ▸ ⟨rfl, rfl, rfl⟩
    · obtain ⟨base, -, h⟩ := Option.bind_eq_some_iff.mp h
      obtain ⟨baseReg, -, h⟩ := Option.bind_eq_some_iff.mp h
      injection h with h
      exact h ▸ ⟨rfl, rfl, rfl⟩
    · split at h
      · obtain ⟨frameReg, -, h⟩ := Option.bind_eq_some_iff.mp h
        injection h with h
        exact h ▸ ⟨rfl, rfl, rfl⟩
      · injection h with h
        exact h ▸ ⟨rfl, rfl, rfl⟩

theorem leads_tempSync {p p' : Pass} {t : Nat} (hs : Sound p) (h : tempSync p t = some p') :
    Leads p p' (books p) := by
  obtain ⟨hctx, hstate, hev⟩ := tempSync_ctx h
  refine ⟨⟨hstate ▸ hs.free, hctx ▸ hs.located, hev ▸ hs.evicted⟩, ?_, ?_⟩
  · intro u
    rw [kindOf, hctx, kindOf]
  · rw [books, hctx, hstate, books]

/-- Syncing a temp and marking its memory copy coherent. -/
theorem leads_sync_coherent {p p' : Pass} {t : Nat} (hs : Sound p) (h : tempSync p t = some p') :
    Leads p (p'.modTemp t fun t => { t with memCoherent := true }) (books p) := by
  have hsync := leads_tempSync hs h
  have hmod := leads_modTemp hsync.sound t
    (f := fun t => { t with memCoherent := true }) (fun _ => rfl) (fun _ => rfl) (fun _ => rfl)
  rw [hsync.table] at hmod
  exact hsync.trans hmod

theorem leads_syncGlobal {p p' : Pass} {i : Nat} (hs : Sound p) (h : syncGlobal p i = some p') :
    Leads p p' (books p) := by
  obtain ⟨temp, -, h⟩ := Option.bind_eq_some_iff.mp h
  split at h
  · obtain ⟨p₁, h₁, h⟩ := Option.bind_eq_some_iff.mp h
    injection h with h
    exact h ▸ leads_sync_coherent hs h₁
  · injection h with h
    exact h ▸ Leads.refl hs

/-- A loop whose rounds move nothing. -/
theorem leads_foldlM {A : Type} {step : Pass → A → Option Pass} {moves : List A} {p p' : Pass}
    (hs : Sound p)
    (hstep : ∀ a ∈ moves, ∀ q q', Sound q → step q a = some q' → Leads q q' (books q))
    (h : moves.foldlM step p = some p') : Leads p p' (books p) := by
  refine foldlM_invariant (fun q => Leads p q (books p)) (Leads.refl hs) ?_ h
  intro a ha q q' hq hqq'
  have hlast := hstep a ha q q' hq.sound hqq'
  rw [hq.table] at hlast
  exact hq.trans hlast

theorem leads_syncGlobals {p p' : Pass} (hs : Sound p) (h : syncGlobals p = some p') :
    Leads p p' (books p) :=
  leads_foldlM hs (fun _ _ _ _ hq hstep => leads_syncGlobal hq hstep) h

/-! ## Eviction and allocation -/

/-- A temp that leaves its register, which becomes free. -/
theorem leads_vacate {p : Pass} {t : Nat} {r : Reg} {f : Temp → Temp} (hs : Sound p)
    (hr : (books p).occupant r = some t) (hreg : ∀ x, (f x).reg = none)
    (hval : ∀ x, (f x).valType ≠ .reg) (hkind : ∀ x, (f x).kind = x.kind) :
    Leads p ((p.modTemp t f).freeReg r) ((books p).evict r) := by
  refine ⟨⟨hs.free.freeReg r, ?_, hs.evicted⟩, fun u => kindOf_modTemp p t u hkind, ?_⟩
  · refine located_modTemp hs t ?_
    intro x _
    simp [hreg, hval]
  · ext u
    · rw [occupant_freeReg, occupant_modTemp, TwoWay.evict_occupant]
    · rw [place_freeReg, place_modTemp, TwoWay.evict_place, hr]
      simp only [hreg, Option.bind_fun_none, Option.some.injEq, eq_comm]

theorem leads_allocTempFrame {p : Pass} {ctx : Context} {t : Nat} {offset : Int} (hs : Sound p)
    (h : p.ctx.allocTempFrame t = some (ctx, offset)) : Leads p { p with ctx := ctx } (books p) := by
  obtain ⟨temp, -, h⟩ := Option.bind_eq_some_iff.mp h
  split at h
  · injection h with h
    injection h with h _
    subst h
    exact Leads.refl hs
  · dsimp only at h
    split at h
    · injection h with h
      injection h with h hoff
      subst h
      subst hoff
      have hframe : ∀ e, Leads p { p with ctx := { p.ctx with frameAllocEnd := e } } (books p) :=
        fun _ => ⟨⟨hs.free, hs.located, hs.evicted⟩, fun _ => rfl, rfl⟩
      exact (hframe _).trans (leads_modTemp (hframe _).sound t (fun _ => rfl) (fun _ => rfl)
        (fun _ => rfl))
    · cases h

/-- Evicting a register whose occupant is recorded in it. -/
theorem leads_evictReg {p p' : Pass} {r : Reg} (hs : Sound p)
    (hexact : ∀ t, (books p).occupant r = some t → (books p).place t = some r)
    (h : evictReg p r = some p') : Leads p p' ((books p).evict r) := by
  rw [evictReg] at h
  split at h
  · rename_i hnone
    injection h with h
    rw [← h, TwoWay.evict_of_empty hnone]
    exact Leads.refl hs
  · rename_i t hocc
    obtain ⟨temp, htemp, h⟩ := Option.bind_eq_some_iff.mp h
    have hplace : temp.reg = some r := by
      have hp := hexact t hocc
      simpa [books, htemp] using hp
    let p₀ : Pass := { p with evictions := p.evictions ++ [⟨r, t, temp.reg⟩] }
    have hs₀ : Sound p₀ := by
      refine ⟨hs.free, hs.located, ?_⟩
      intro e he
      rcases List.mem_append.mp he with he | he
      · exact hs.evicted e he
      · rw [List.mem_singleton.mp he]
        exact hplace
    have h₀ : Leads p p₀ (books p) := ⟨hs₀, fun _ => rfl, rfl⟩
    split at h
    · obtain ⟨p₁, hsync, h⟩ := Option.bind_eq_some_iff.mp h
      injection h with h
      have h₁ := leads_tempSync hs₀ hsync
      have h₂ : Leads p₁ ((p₁.modTemp t Temp.toMem).freeReg r) ((books p₁).evict r) := by
        refine leads_vacate h₁.sound ?_ (fun _ => rfl) (fun _ => by simp [Temp.toMem])
          (fun _ => rfl)
        rw [h₁.table]
        exact hocc
      rw [h₁.table] at h₂
      exact h ▸ (h₀.trans h₁).trans h₂
    · obtain ⟨⟨ctx, offset⟩, hframe, h⟩ := Option.bind_eq_some_iff.mp h
      obtain ⟨frameReg, -, h⟩ := Option.bind_eq_some_iff.mp h
      injection h with h
      have h₁ := leads_allocTempFrame hs₀ hframe
      have h₂ := leads_emit h₁.sound (.st temp.ty r frameReg offset)
      rw [h₁.table] at h₂
      have h₃ := leads_vacate (t := t) (r := r) (f := Temp.toMem) h₂.sound
        (by rw [h₂.table]; exact hocc) (fun _ => rfl) (fun _ => by simp [Temp.toMem]) (fun _ => rfl)
      rw [h₂.table] at h₃
      exact h ▸ ((h₀.trans h₁).trans h₂).trans h₃

/-- Some register is required, allocatable and not forbidden. -/
def Room (required forbidden : RegSet) : Prop :=
  ∃ r, required.contains r = true ∧ allocatableRegs.contains r = true ∧
    forbidden.contains r = false

/-- The register that is allocated, and that it is emptied first.  It is a forbidden one only
where every required register is. -/
theorem regAlloc_spec {p p' : Pass} {required forbidden preferred : RegSet} {r : Reg}
    (hs : Sound p) (h : regAlloc p required forbidden preferred = some (p', r)) :
    required.contains r = true ∧ allocatableRegs.contains r = true ∧
      (Room required forbidden → forbidden.contains r = false) ∧
      (((books p).occupant r = none ∧ p' = p) ∨ evictReg p r = some p') := by
  have hcand : ∀ r, ((required.intersect p.state.allocatable).subtract forbidden).contains r = true ↔
      required.contains r = true ∧ allocatableRegs.contains r = true ∧
        forbidden.contains r = false := by
    intro r
    simp [hs.free.allocatable, and_assoc]
  simp only [regAlloc] at h
  split at h
  · rename_i r' hfirst
    injection h with h
    injection h with hp hr
    subst hp hr
    have hc := RegSet.contains_of_first hfirst
    simp only [RegSet.contains_intersect _ preferred, RegSet.contains_intersect _ p.state.freeRegs,
      Bool.and_eq_true, hcand] at hc
    obtain ⟨⟨⟨hreq, hall, hforb⟩, hfree⟩, -⟩ := hc
    exact ⟨hreq, hall, fun _ => hforb, Or.inl ⟨((hs.free.free _).mp hfree).2, rfl⟩⟩
  · split at h
    · rename_i r' hfirst
      injection h with h
      injection h with hp hr
      subst hp hr
      have hc := RegSet.contains_of_first hfirst
      simp only [RegSet.contains_intersect _ p.state.freeRegs, Bool.and_eq_true, hcand] at hc
      obtain ⟨⟨hreq, hall, hforb⟩, hfree⟩ := hc
      exact ⟨hreq, hall, fun _ => hforb, Or.inl ⟨((hs.free.free _).mp hfree).2, rfl⟩⟩
    · split at h
      · rename_i r' hfirst
        obtain ⟨p₁, hev, h⟩ := Option.bind_eq_some_iff.mp h
        injection h with h
        injection h with hp hr
        subst hp hr
        obtain ⟨hreq, hall, hforb⟩ := (hcand _).mp (RegSet.contains_of_first hfirst)
        exact ⟨hreq, hall, fun _ => hforb, Or.inr hev⟩
      · rename_i hnone
        obtain ⟨r', hfirst, h⟩ := Option.bind_eq_some_iff.mp h
        obtain ⟨p₁, hev, h⟩ := Option.bind_eq_some_iff.mp h
        injection h with h
        injection h with hp hr
        subst hp hr
        have hc := RegSet.contains_of_first hfirst
        rw [RegSet.contains_intersect, hs.free.allocatable, Bool.and_eq_true] at hc
        refine ⟨hc.1, hc.2, ?_, Or.inr hev⟩
        rintro ⟨a, ha⟩
        have hca := (hcand a).mpr ha
        rw [RegSet.first_eq_none.mp hnone a] at hca
        cases hca

/-- Allocation evicts the register's occupant, if that is recorded in it. -/
theorem leads_regAlloc {p p' : Pass} {required forbidden preferred : RegSet} {r : Reg}
    (hs : Sound p)
    (hexact : ∀ r t, allocatableRegs.contains r = true →
      (Room required forbidden → forbidden.contains r = false) →
      (books p).occupant r = some t → (books p).place t = some r)
    (h : regAlloc p required forbidden preferred = some (p', r)) :
    required.contains r = true ∧ allocatableRegs.contains r = true ∧
      (Room required forbidden → forbidden.contains r = false) ∧
      Leads p p' ((books p).evict r) := by
  obtain ⟨hreq, hall, hforb, hcase⟩ := regAlloc_spec hs h
  refine ⟨hreq, hall, hforb, ?_⟩
  rcases hcase with ⟨hnone, rfl⟩ | hev
  · rw [TwoWay.evict_of_empty hnone]
    exact Leads.refl hs
  · exact leads_evictReg hs (fun t => hexact r t hall hforb) hev

/-- Where no register is both required and allocatable, allocation panics. -/
theorem regAlloc_of_empty {p : Pass} {required forbidden preferred : RegSet}
    (hempty : ∀ r, (required.intersect p.state.allocatable).contains r = false) :
    regAlloc p required forbidden preferred = none := by
  have hfirst : (required.intersect p.state.allocatable).first = none :=
    RegSet.first_eq_none.mpr hempty
  have hcand : ∀ r, ((required.intersect p.state.allocatable).subtract forbidden).contains r =
      false := by
    intro r
    rw [RegSet.contains_subtract, hempty r, Bool.false_and]
  have h₁ : ((required.intersect p.state.allocatable).subtract forbidden).first = none :=
    RegSet.first_eq_none.mpr hcand
  have h₂ : (((required.intersect p.state.allocatable).subtract forbidden).intersect
      p.state.freeRegs).first = none := by
    refine RegSet.first_eq_none.mpr ?_
    intro r
    rw [RegSet.contains_intersect, hcand r, Bool.false_and]
  have h₃ : ((((required.intersect p.state.allocatable).subtract forbidden).intersect
      p.state.freeRegs).intersect preferred).first = none := by
    refine RegSet.first_eq_none.mpr ?_
    intro r
    rw [RegSet.contains_intersect, RegSet.contains_intersect, hcand r, Bool.false_and,
      Bool.false_and]
  simp [regAlloc, h₁, h₂, h₃, hfirst]

/-! ## Loading, defining and freeing a temp -/

theorem temp_of_kindOf {p p' : Pass} {t : Nat} {temp : Temp} (hk : kindOf p' t = kindOf p t)
    (h : p.ctx.temp t = some temp) : ∃ temp', p'.ctx.temp t = some temp' ∧ temp'.kind = temp.kind := by
  rw [kindOf, kindOf, h, Option.map_some] at hk
  exact Option.map_eq_some_iff.mp hk

theorem place_of_temp {p : Pass} {t : Nat} {temp : Temp} (h : p.ctx.temp t = some temp) :
    (books p).place t = temp.reg := by
  simp only [books, h, Option.bind_some]

/-- A temp that is written into a register. -/
theorem leads_occupy {p q : Pass} {t : Nat} {r : Reg} (f : Temp → Temp) (hs : Sound p)
    (hctx : q.ctx = p.ctx.modTemp t f) (hstate : q.state = p.state.assign r t)
    (hev : q.evictions = p.evictions) (hex : ∃ temp, p.ctx.temp t = some temp)
    (hreg : ∀ x, (f x).reg = some r) (hval : ∀ x, p.ctx.temp t = some x → (f x).valType = .reg)
    (hkind : ∀ x, (f x).kind = x.kind) : Leads p q ((books p).put r t) := by
  refine ⟨⟨hstate ▸ hs.free.assign r t, ?_, hev ▸ hs.evicted⟩, ?_, ?_⟩
  · rw [hctx]
    refine located_modTemp hs t ?_
    intro x hx
    simp [hreg, hval x hx]
  · intro u
    rw [kindOf, hctx]
    exact kindOf_modTemp p t u hkind
  · obtain ⟨temp, htemp⟩ := hex
    ext u
    · rw [TwoWay.put_occupant, ← occupant_assign]
      simp only [books, hstate, Pass.assign]
    · have hplace := place_modTemp p t u f
      rw [htemp, Option.bind_some, hreg] at hplace
      rw [TwoWay.put_place, ← hplace]
      simp only [books, hctx, Pass.modTemp]

theorem loadFromMem_ctx {p p' : Pass} {temp : Temp} {reg : Reg}
    (h : loadFromMem p temp reg = some p') :
    p'.ctx = p.ctx ∧ p'.state = p.state ∧ p'.evictions = p.evictions := by
  rw [loadFromMem] at h
  split at h
  · obtain ⟨base, -, h⟩ := Option.bind_eq_some_iff.mp h
    obtain ⟨baseReg, -, h⟩ := Option.bind_eq_some_iff.mp h
    injection h with h
    exact h ▸ ⟨rfl, rfl, rfl⟩
  · split at h
    · obtain ⟨frameReg, -, h⟩ := Option.bind_eq_some_iff.mp h
      injection h with h
      exact h ▸ ⟨rfl, rfl, rfl⟩
    · injection h with h
      exact h ▸ ⟨rfl, rfl, rfl⟩

/-- A temp that was nowhere is written into an emptied register. -/
theorem put_evict_eq_move {T : TwoWay Reg Nat} (hT : T.Consistent) {r : Reg} {t : Nat}
    (ht : T.place t = none) : (T.evict r).put r t = T.move r t := by
  ext u
  · have hiff := hT u t
    grind [TwoWay.move_occupant, TwoWay.put_occupant, TwoWay.evict_occupant]
  · grind [TwoWay.move_place, TwoWay.put_place, TwoWay.evict_place]

theorem leads_tempLoadTo {p p' : Pass} {t : Nat} {required forbidden preferred : RegSet} {r : Reg}
    (hs : Sound p) (hT : (books p).Consistent) (hroom : Room required forbidden)
    (h : tempLoadTo p t required forbidden preferred = some (p', r)) :
    required.contains r = true ∧ forbidden.contains r = false ∧
      Leads p p' ((books p).move r t) := by
  obtain ⟨temp, htemp, h⟩ := Option.bind_eq_some_iff.mp h
  have hplace := place_of_temp htemp
  have hlocated := hs.located t temp htemp
  have hexact : ∀ r t, allocatableRegs.contains r = true →
      (Room required forbidden → forbidden.contains r = false) →
      (books p).occupant r = some t → (books p).place t = some r :=
    fun r t _ _ => (hT r t).mp
  split at h
  · rename_i hval
    obtain ⟨cur, hcur, h⟩ := Option.bind_eq_some_iff.mp h
    rw [hcur] at hplace
    split at h
    · rename_i hok
      injection h with h
      injection h with hp hr
      subst hp hr
      simp only [Bool.and_eq_true, Bool.not_eq_true'] at hok
      rw [hT.move_self hplace]
      exact ⟨hok.1, hok.2, Leads.refl hs⟩
    · rename_i hbad
      obtain ⟨⟨p₁, dst⟩, halloc, h⟩ := Option.bind_eq_some_iff.mp h
      injection h with h
      injection h with hp hr
      subst hr
      obtain ⟨hreq, -, hforb, h₁⟩ := leads_regAlloc hs hexact halloc
      have hforb := hforb hroom
      have hne : dst ≠ cur := by
        intro heq
        rw [← heq, hreq, hforb] at hbad
        exact hbad rfl
      have hplace₁ : (books p₁).place t = some cur := by
        have hocc : (books p).occupant dst ≠ some t := by
          intro hocc
          rw [(hT dst t).mp hocc] at hplace
          injection hplace with hplace
          exact hne hplace
        rw [h₁.table, TwoWay.evict_place, if_neg hocc, hplace]
      obtain ⟨temp₁, htemp₁, -⟩ := temp_of_kindOf (h₁.kind t) htemp
      have hfree : Leads p₁ (p₁.freeReg cur)
          ⟨fun a => if a = cur then none else (books p₁).occupant a, (books p₁).place⟩ := by
        refine ⟨⟨h₁.sound.free.freeReg cur, h₁.sound.located, h₁.sound.evicted⟩, fun _ => rfl, ?_⟩
        exact TwoWay.ext (occupant_freeReg p₁ cur) (fun _ => rfl)
      have hocc : Leads (p₁.freeReg cur) p' ((books (p₁.freeReg cur)).put dst t) := by
        rw [← hp]
        refine leads_occupy (fun t => { t with reg := some dst }) hfree.sound rfl rfl rfl
          ⟨temp₁, htemp₁⟩ (fun _ => rfl) ?_
          (fun _ => rfl)
        intro x hx
        have hx₁ := place_of_temp (p := p₁) hx
        rw [hplace₁] at hx₁
        exact (h₁.sound.located t x hx).mpr (by rw [← hx₁]; rfl)
      refine ⟨hreq, hforb, ?_⟩
      have hall := (h₁.trans hfree).trans hocc
      have htable : (books (p₁.freeReg cur)).put dst t = (books p).move dst t := by
        rw [hfree.table, h₁.table]
        ext u
        · have hiff := hT u t
          grind [TwoWay.move_occupant, TwoWay.put_occupant, TwoWay.evict_occupant]
        · grind [TwoWay.move_place, TwoWay.put_place, TwoWay.evict_place]
      rw [htable] at hall
      exact hall
  · rename_i hval
    obtain ⟨⟨p₁, reg⟩, halloc, h⟩ := Option.bind_eq_some_iff.mp h
    injection h with h
    injection h with hp hr
    subst hr
    obtain ⟨hreq, -, hforb, h₁⟩ := leads_regAlloc hs hexact halloc
    have hforb := hforb hroom
    obtain ⟨temp₁, htemp₁, -⟩ := temp_of_kindOf (h₁.kind t) htemp
    have hocc : Leads p₁ p' ((books p₁).put reg t) := by
      rw [← hp]
      exact leads_occupy (fun t => { t with valType := .reg, reg := some reg }) h₁.sound rfl rfl rfl
        ⟨temp₁, htemp₁⟩ (fun _ => rfl) (fun _ _ => rfl) (fun _ => rfl)
    rw [h₁.table, put_evict_eq_move hT (by rw [hplace]; simpa [hval] using hlocated)] at hocc
    exact ⟨hreq, hforb, h₁.trans hocc⟩
  · rename_i hval
    obtain ⟨⟨p₁, reg⟩, halloc, h⟩ := Option.bind_eq_some_iff.mp h
    obtain ⟨p₂, hload, h⟩ := Option.bind_eq_some_iff.mp h
    injection h with h
    injection h with hp hr
    subst hr
    obtain ⟨hreq, -, hforb, h₁⟩ := leads_regAlloc hs hexact halloc
    have hforb := hforb hroom
    obtain ⟨temp₁, htemp₁, -⟩ := temp_of_kindOf (h₁.kind t) htemp
    obtain ⟨hctx, hstate, hev⟩ := loadFromMem_ctx hload
    have hocc : Leads p₁ p' ((books p₁).put reg t) := by
      rw [← hp]
      refine leads_occupy
        (fun t => { t with valType := .reg, reg := some reg, memCoherent := true }) h₁.sound
        ?_ hstate hev ⟨temp₁, htemp₁⟩ (fun _ => rfl) (fun _ _ => rfl) (fun _ => rfl)
      rw [Pass.modTemp, hctx]
      rfl
    rw [h₁.table, put_evict_eq_move hT (by rw [hplace]; simpa [hval] using hlocated)] at hocc
    exact ⟨hreq, hforb, h₁.trans hocc⟩
  · cases h

theorem leads_defineTemp {p p' : Pass} {t : Nat} {r : Reg} (hs : Sound p)
    (h : defineTemp p r t = some p') : Leads p p' ((books p).put r t) := by
  obtain ⟨temp, htemp, h⟩ := Option.bind_eq_some_iff.mp h
  injection h with h
  rw [← h]
  exact leads_occupy (fun t => { t with valType := .reg, reg := some r, memCoherent := false }) hs
    rfl rfl rfl ⟨temp, htemp⟩ (fun _ => rfl) (fun _ _ => rfl) (fun _ => rfl)

/-- The temp is a global or fixed: its register outlives the op. -/
def Owned (p : Pass) (t : Nat) : Prop := kindOf p t = some .global ∨ kindOf p t = some .fixed

theorem isGlobalOrFixed_iff {p : Pass} {t : Nat} {temp : Temp} (h : p.ctx.temp t = some temp) :
    temp.isGlobalOrFixed = true ↔ Owned p t := by
  simp [Temp.isGlobalOrFixed, Owned, kindOf, h]

/-- A temp that dies in no register. -/
theorem leads_forget_nowhere {p : Pass} {t : Nat} (hs : Sound p)
    (hocc : ∀ r, (books p).occupant r ≠ some t) :
    Leads p (p.modTemp t Temp.toDead) ((books p).forget t) := by
  refine ⟨⟨hs.free, ?_, hs.evicted⟩, fun u => kindOf_modTemp p t u (fun _ => rfl), ?_⟩
  · refine located_modTemp hs t ?_
    intro x _
    simp [Temp.toDead]
  · ext u
    · rw [TwoWay.forget_occupant, if_neg (hocc u)]
      rfl
    · rw [place_modTemp, TwoWay.forget_place]
      simp [Temp.toDead]

/-- A temp that dies in its register, which becomes free. -/
theorem leads_forget_reg {p : Pass} {t : Nat} {r : Reg} (hs : Sound p)
    (hocc : ∀ a, (books p).occupant a = some t ↔ a = r) :
    Leads p ((p.freeReg r).modTemp t Temp.toDead) ((books p).forget t) := by
  have hr : (books p).occupant r = some t := (hocc r).mpr rfl
  have h := leads_vacate (t := t) (f := Temp.toDead) hs hr (fun _ => rfl)
    (fun _ => by simp [Temp.toDead]) (fun _ => rfl)
  refine ⟨h.sound, h.kind, ?_⟩
  rw [show (p.freeReg r).modTemp t Temp.toDead = (p.modTemp t Temp.toDead).freeReg r from rfl,
    h.table]
  ext u
  · grind [TwoWay.evict_occupant, TwoWay.forget_occupant]
  · grind [TwoWay.evict_place, TwoWay.forget_place]

theorem leads_tempDead {p p' : Pass} {t : Nat} (hs : Sound p) (hT : (books p).Consistent)
    (h : tempDead p t = some p') :
    (Owned p t ∧ p' = p) ∨ (¬ Owned p t ∧ Leads p p' ((books p).forget t)) := by
  obtain ⟨temp, htemp, h⟩ := Option.bind_eq_some_iff.mp h
  have hplace := place_of_temp htemp
  rw [← isGlobalOrFixed_iff htemp]
  split at h
  · rename_i hown
    injection h with h
    exact Or.inl ⟨hown, h.symm⟩
  · rename_i hown
    refine Or.inr ⟨hown, ?_⟩
    split at h
    · rename_i r hr
      injection h with h
      rw [← h]
      refine leads_forget_reg hs ?_
      intro a
      rw [hT a t, hplace, hr, Option.some.injEq, eq_comm]
    · rename_i hr
      injection h with h
      rw [← h]
      refine leads_forget_nowhere hs ?_
      intro a hocc
      rw [(hT a t).mp hocc, hr] at hplace
      cases hplace

theorem leads_tempDeadInput {p p' : Pass} {t : Nat} (hs : Sound p)
    (hT : ∀ r, (books p).occupant r = some t → (books p).place t = some r)
    (h : tempDeadInput p t = some p') :
    (Owned p t ∧ p' = p) ∨ (¬ Owned p t ∧ Leads p p' ((books p).forget t)) := by
  obtain ⟨temp, htemp, h⟩ := Option.bind_eq_some_iff.mp h
  have hplace := place_of_temp htemp
  rw [← isGlobalOrFixed_iff htemp]
  split at h
  · rename_i hown
    injection h with h
    exact Or.inl ⟨hown, h.symm⟩
  · rename_i hown
    refine Or.inr ⟨hown, ?_⟩
    split at h
    · rename_i r hr
      rw [hr] at hplace
      have hunique : ∀ a, (books p).occupant a = some t → a = r := by
        intro a ha
        rw [hT a ha] at hplace
        injection hplace
      split at h
      · rename_i hocc
        injection h with h
        rw [← h]
        refine leads_forget_reg hs ?_
        intro a
        exact ⟨hunique a, fun ha => ha ▸ hocc⟩
      · rename_i hocc
        injection h with h
        rw [← h]
        refine leads_forget_nowhere hs ?_
        intro a ha
        exact hocc (hunique a ha ▸ ha)
    · rename_i hr
      injection h with h
      rw [← h]
      refine leads_forget_nowhere hs ?_
      intro a ha
      rw [hT a ha, hr] at hplace
      cases hplace

end TcgRs.Analysis.RegBooks
