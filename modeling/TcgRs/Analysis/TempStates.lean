import TcgRs.Analysis.RegBookkeeping

/-!
# The states of the temps

What each function of the allocator does to the state of a temp, whether a constant, in memory, in
a register or dead, and which instructions it emits on the way.
-/

set_option autoImplicit false

namespace TcgRs.Analysis.TempStates

open TcgRs.Model TcgRs.Model.Ir TcgRs.Model.X86 TcgRs.Model.RegAlloc TcgRs.Library
open RegBooks RegInputs RegOperands

/-- Where the value of a temp lives. -/
def valOf (p : Pass) (t : Nat) : Option TempVal := (p.ctx.temp t).map Temp.valType

/-- The value of a temp that is still a constant. -/
def constOf (p : Pass) (t : Nat) : Option (BitVec 64) :=
  (p.ctx.temp t).bind fun temp => if temp.valType = .const then some temp.val else none

/-- No register holds a temp that is still a constant. -/
def ConstFree (p : Pass) : Prop := ∀ r t, p.state.regToTemp r = some t → constOf p t = none

/-- Going from `p` to `p'` keeps every temp's kind, makes no temp a constant, puts none that is a
constant into a register, and ends only temps that may die. -/
structure Ends (dies : Nat → Prop) (p p' : Pass) : Prop where
  kind : ∀ t, kindOf p' t = kindOf p t
  dead : ∀ t, valOf p' t = some .dead → valOf p t = some .dead ∨ (dies t ∧ ¬ Owned p t)
  const : ∀ t z, constOf p' t = some z → constOf p t = some z
  free : ConstFree p → ConstFree p'

/-- A move between registers and memory, or the load of a constant, of zero only if `zero`. -/
inductive Transfer (zero : Prop) : HostInsn → Prop where
  | mov {ty : IrType} {dst src : Reg} : Transfer zero (.mov ty dst src)
  | movi {ty : IrType} {dst : Reg} {val : BitVec 64} (h : val = 0 → zero) :
      Transfer zero (.movi ty dst val)
  | ld {ty : IrType} {dst base : Reg} {offset : Int} : Transfer zero (.ld ty dst base offset)
  | st {ty : IrType} {src base : Reg} {offset : Int} : Transfer zero (.st ty src base offset)

/-- The code that was added consists of transfers, and loads a zero only for one of the temps
`loads` that is still the constant zero. -/
structure Moves (loads dies : Nat → Prop) (p p' : Pass) : Prop extends Ends dies p p' where
  code : ∃ code, p'.buf = p.buf ++ code ∧
    ∀ insn ∈ code, Transfer (∃ t, loads t ∧ constOf p t = some 0) insn

variable {loads dies : Nat → Prop} {p p' p'' : Pass}

theorem owned_congr (h : ∀ t, kindOf p' t = kindOf p t) (t : Nat) : Owned p' t ↔ Owned p t := by
  unfold Owned
  rw [h t]

theorem Ends.refl (p : Pass) : Ends dies p p :=
  ⟨fun _ => rfl, fun _ h => Or.inl h, fun _ _ h => h, fun h => h⟩

theorem Ends.trans (h : Ends dies p p') (h' : Ends dies p' p'') : Ends dies p p'' := by
  refine ⟨?_, ?_, fun t z hz => h.const t z (h'.const t z hz), fun hf => h'.free (h.free hf)⟩
  · intro t
    rw [h'.kind t, h.kind t]
  · intro t hdead
    cases h'.dead t hdead with
    | inl hdead => exact h.dead t hdead
    | inr hdies => exact Or.inr ⟨hdies.1, fun ho => hdies.2 ((owned_congr h.kind t).mpr ho)⟩

theorem Ends.mono {dies' : Nat → Prop} (h : Ends dies p p') (hsub : ∀ t, dies t → dies' t) :
    Ends dies' p p' :=
  ⟨h.kind, fun t ht => (h.dead t ht).imp_right fun hd => ⟨hsub t hd.1, hd.2⟩, h.const, h.free⟩

theorem Ends.const_none (h : Ends dies p p') {t : Nat} (ht : constOf p t = none) :
    constOf p' t = none := by
  cases hc : constOf p' t with
  | none => rfl
  | some z =>
    rw [h.const t z hc] at ht
    cases ht

theorem Transfer.mono {zero zero' : Prop} {insn : HostInsn} (h : Transfer zero insn)
    (hsub : zero → zero') : Transfer zero' insn := by
  cases h with
  | mov => exact .mov
  | movi h => exact .movi fun hv => hsub (h hv)
  | ld => exact .ld
  | st => exact .st

theorem Moves.of_ends (h : Ends dies p p') (hbuf : p'.buf = p.buf) : Moves loads dies p p' := by
  refine ⟨h, [], ?_, ?_⟩
  · rw [hbuf, List.append_nil]
  · intro insn hinsn
    cases hinsn

theorem Moves.refl (p : Pass) : Moves loads dies p p := .of_ends (.refl p) rfl

theorem Moves.trans (h : Moves loads dies p p') (h' : Moves loads dies p' p'') :
    Moves loads dies p p'' := by
  obtain ⟨code, hbuf, hcode⟩ := h.code
  obtain ⟨code', hbuf', hcode'⟩ := h'.code
  refine ⟨h.toEnds.trans h'.toEnds, code ++ code', ?_, ?_⟩
  · rw [hbuf', hbuf, List.append_assoc]
  · intro insn hinsn
    cases List.mem_append.mp hinsn with
    | inl hinsn => exact hcode insn hinsn
    | inr hinsn =>
      refine (hcode' insn hinsn).mono ?_
      rintro ⟨t, ht, hz⟩
      exact ⟨t, ht, h.const t 0 hz⟩

/-- Every round of a loop moves. -/
theorem moves_foldlM {A : Type} {step : Pass → A → Option Pass} {moves : List A}
    (hstep : ∀ a ∈ moves, ∀ q q', step q a = some q' → Moves loads dies q q')
    (h : moves.foldlM step p = some p') : Moves loads dies p p' :=
  foldlM_invariant (Moves loads dies p) (.refl p)
    (fun a ha q q' hq hs => hq.trans (hstep a ha q q' hs)) h

/-! ## Elementary updates -/

theorem Moves.emit (h : Moves loads dies p p') {insn : HostInsn}
    (hinsn : Transfer (∃ t, loads t ∧ constOf p t = some 0) insn) :
    Moves loads dies p (p'.emit insn) := by
  obtain ⟨code, hbuf, hcode⟩ := h.code
  refine ⟨⟨h.kind, h.dead, h.const, h.free⟩, code ++ [insn], ?_, ?_⟩
  · show p'.buf ++ [insn] = _
    rw [hbuf, List.append_assoc]
  · intro i hi
    cases List.mem_append.mp hi with
    | inl hi => exact hcode i hi
    | inr hi =>
      rw [List.mem_singleton.mp hi]
      exact hinsn

theorem moves_emit {insn : HostInsn} (h : Transfer (∃ t, loads t ∧ constOf p t = some 0) insn) :
    Moves loads dies p (p.emit insn) := (Moves.refl p).emit h

theorem ends_emit (p : Pass) (insn : HostInsn) : Ends dies p (p.emit insn) :=
  ⟨fun _ => rfl, fun _ h => Or.inl h, fun _ _ h => h, fun h => h⟩

theorem ends_freeReg (p : Pass) (reg : Reg) : Ends dies p (p.freeReg reg) := by
  refine ⟨fun _ => rfl, fun _ h => Or.inl h, fun _ _ h => h, ?_⟩
  intro hf r t hr
  have hr : Function.update p.state.regToTemp reg none r = some t := hr
  rw [Function.update_apply] at hr
  split at hr
  · cases hr
  · exact hf r t hr

theorem valOf_modTemp (p : Pass) (t u : Nat) (f : Temp → Temp) :
    valOf (p.modTemp t f) u =
      if u = t then (p.ctx.temp t).map fun x => (f x).valType else valOf p u := by
  simp only [valOf, Pass.modTemp, temp_modTemp]
  split
  · rw [Option.map_map]
    rfl
  · rfl

theorem constOf_modTemp (p : Pass) (t u : Nat) (f : Temp → Temp) :
    constOf (p.modTemp t f) u =
      if u = t then (p.ctx.temp t).bind fun x =>
        if (f x).valType = .const then some (f x).val else none
      else constOf p u := by
  simp only [constOf, Pass.modTemp, temp_modTemp]
  split
  · cases p.ctx.temp t <;> rfl
  · rfl

/-- An update that makes no temp a constant. -/
theorem ends_modTemp (t : Nat) {f : Temp → Temp} (hkind : ∀ x, (f x).kind = x.kind)
    (hval : ∀ x, (f x).valType = x.valType ∨ (f x).valType ≠ .const)
    (hsame : ∀ x, (f x).val = x.val)
    (hdead : ∀ x, p.ctx.temp t = some x → (f x).valType = .dead →
      x.valType = .dead ∨ (dies t ∧ ¬ Owned p t)) : Ends dies p (p.modTemp t f) := by
  have hconst : ∀ u z, constOf (p.modTemp t f) u = some z → constOf p u = some z := by
    intro u z h
    rw [constOf_modTemp] at h
    split at h
    · rename_i hu
      subst hu
      obtain ⟨x, hx, h⟩ := Option.bind_eq_some_iff.mp h
      cases hval x with
      | inl heq =>
        rw [heq, hsame] at h
        exact Option.bind_eq_some_iff.mpr ⟨x, hx, h⟩
      | inr hne =>
        rw [if_neg hne] at h
        cases h
    · exact h
  refine ⟨fun u => kindOf_modTemp p t u hkind, ?_, hconst, ?_⟩
  · intro u h
    rw [valOf_modTemp] at h
    split at h
    · rename_i hu
      subst hu
      obtain ⟨x, hx, h⟩ := Option.map_eq_some_iff.mp h
      refine (hdead x hx h).imp_left ?_
      intro hxd
      exact Option.map_eq_some_iff.mpr ⟨x, hx, hxd⟩
    · exact Or.inl h
  · intro hf r u hr
    cases hc : constOf (p.modTemp t f) u with
    | none => rfl
    | some z =>
      have hnone := hf r u hr
      rw [hconst u z hc] at hnone
      cases hnone

/-- An update that leaves a temp where it is. -/
theorem ends_modTemp_same (t : Nat) {f : Temp → Temp} (hkind : ∀ x, (f x).kind = x.kind)
    (hval : ∀ x, (f x).valType = x.valType) (hsame : ∀ x, (f x).val = x.val) :
    Ends dies p (p.modTemp t f) :=
  ends_modTemp t hkind (fun x => Or.inl (hval x)) hsame
    (fun x _ hd => Or.inl ((hval x).symm.trans hd))

theorem ends_toMem (p : Pass) (t : Nat) : Ends dies p (p.modTemp t Temp.toMem) := by
  refine ends_modTemp t (fun _ => rfl) (fun _ => Or.inr ?_) (fun _ => rfl) ?_
  · intro h
    cases h
  · intro x _ h
    cases h

theorem ends_toDead {t : Nat} (hdies : dies t) (howned : ¬ Owned p t) :
    Ends dies p (p.modTemp t Temp.toDead) := by
  refine ends_modTemp t (fun _ => rfl) (fun _ => Or.inr ?_) (fun _ => rfl) ?_
  · intro h
    cases h
  · intro x _ _
    exact Or.inr ⟨hdies, howned⟩

/-- A register is given to a temp that is no constant. -/
theorem ends_assign {t : Nat} {reg : Reg} (ht : constOf p t = none) :
    Ends dies p (p.assign reg t) := by
  refine ⟨fun _ => rfl, fun _ h => Or.inl h, fun _ _ h => h, ?_⟩
  intro hf r u hr
  have hr : Function.update p.state.regToTemp reg (some t) r = some u := hr
  rw [Function.update_apply] at hr
  split at hr
  · injection hr with hr
    exact hr ▸ ht
  · exact hf r u hr

/-- A temp that is no constant moves to a register. -/
theorem ends_move {t : Nat} (reg : Reg) {f : Temp → Temp} (ht : constOf p t = none)
    (hkind : ∀ x, (f x).kind = x.kind) (hval : ∀ x, (f x).valType = x.valType)
    (hsame : ∀ x, (f x).val = x.val) : Ends dies p ((p.assign reg t).modTemp t f) := by
  have hassign : Ends dies p (p.assign reg t) := ends_assign ht
  exact hassign.trans (ends_modTemp_same t hkind hval hsame)

theorem constOf_put (p : Pass) (t : Nat) {f : Temp → Temp} (hval : ∀ x, (f x).valType = .reg) :
    constOf (p.modTemp t f) t = none := by
  rw [constOf_modTemp, if_pos rfl]
  cases p.ctx.temp t with
  | none => rfl
  | some x =>
    rw [Option.bind_some, hval]
    rfl

/-- A temp is written into a register. -/
theorem ends_put (p : Pass) (reg : Reg) (t : Nat) {f : Temp → Temp}
    (hkind : ∀ x, (f x).kind = x.kind) (hval : ∀ x, (f x).valType = .reg)
    (hsame : ∀ x, (f x).val = x.val) : Ends dies p ((p.assign reg t).modTemp t f) := by
  have hput : Ends dies p (p.modTemp t f) := by
    refine ends_modTemp t hkind (fun x => Or.inr ?_) hsame ?_
    · rw [hval]
      intro h
      cases h
    · intro x _ h
      rw [hval] at h
      cases h
  exact hput.trans (ends_assign (constOf_put p t hval))

/-! ## Syncing and eviction -/

theorem moves_tempSync {t : Nat} (h : tempSync p t = some p') : Moves loads dies p p' := by
  obtain ⟨temp, -, h⟩ := Option.bind_eq_some_iff.mp h
  split at h
  · injection h with h
    exact h ▸ .refl p
  · split at h
    · injection h with h
      exact h ▸ .refl p
    · obtain ⟨base, -, h⟩ := Option.bind_eq_some_iff.mp h
      obtain ⟨baseReg, -, h⟩ := Option.bind_eq_some_iff.mp h
      injection h with h
      exact h ▸ moves_emit .st
    · split at h
      · obtain ⟨frameReg, -, h⟩ := Option.bind_eq_some_iff.mp h
        injection h with h
        exact h ▸ moves_emit .st
      · injection h with h
        exact h ▸ .refl p

/-- Syncing a temp and marking its memory copy coherent. -/
theorem moves_sync_coherent {t : Nat} (h : tempSync p t = some p') :
    Moves loads dies p (p'.modTemp t fun t => { t with memCoherent := true }) :=
  (moves_tempSync h).trans
    (.of_ends (ends_modTemp_same t (fun _ => rfl) (fun _ => rfl) (fun _ => rfl)) rfl)

theorem moves_syncGlobal {i : Nat} (h : syncGlobal p i = some p') : Moves loads dies p p' := by
  obtain ⟨temp, -, h⟩ := Option.bind_eq_some_iff.mp h
  split at h
  · obtain ⟨p₁, h₁, h⟩ := Option.bind_eq_some_iff.mp h
    injection h with h
    exact h ▸ moves_sync_coherent h₁
  · injection h with h
    exact h ▸ .refl p

theorem moves_syncGlobals (h : syncGlobals p = some p') : Moves loads dies p p' :=
  moves_foldlM (fun _ _ _ _ hs => moves_syncGlobal hs) h

theorem ends_allocTempFrame {ctx : Context} {t : Nat} {offset : Int}
    (h : p.ctx.allocTempFrame t = some (ctx, offset)) : Ends dies p { p with ctx := ctx } := by
  obtain ⟨temp, -, h⟩ := Option.bind_eq_some_iff.mp h
  split at h
  · injection h with h
    injection h with h _
    exact h ▸ Ends.refl p
  · dsimp only at h
    split at h
    · injection h with h
      injection h with h _
      rw [← h]
      -- The end of the spill area is no part of a temp.
      have hslot : ∀ offset, Ends dies p
          (p.modTemp t fun x => { x with memAllocated := true, memOffset := offset }) :=
        fun _ => ends_modTemp_same t (fun _ => rfl) (fun _ => rfl) (fun _ => rfl)
      exact ⟨(hslot _).kind, (hslot _).dead, (hslot _).const, (hslot _).free⟩
    · cases h

theorem moves_evictReg {reg : Reg} (h : evictReg p reg = some p') : Moves loads dies p p' := by
  unfold evictReg at h
  split at h
  · injection h with h
    exact h ▸ .refl p
  · rename_i t hocc
    obtain ⟨temp, htemp, h⟩ := Option.bind_eq_some_iff.mp h
    dsimp only at h
    have hlog : Moves loads dies p
        { p with evictions := p.evictions ++ [⟨reg, t, temp.reg⟩] } :=
      .of_ends ⟨fun _ => rfl, fun _ h => Or.inl h, fun _ _ h => h, fun h => h⟩ rfl
    split at h
    · obtain ⟨p₁, hsync, h⟩ := Option.bind_eq_some_iff.mp h
      injection h with h
      rw [← h]
      refine (hlog.trans (moves_tempSync hsync)).trans (.of_ends ?_ rfl)
      exact (ends_toMem p₁ t).trans (ends_freeReg _ reg)
    · obtain ⟨⟨ctx, offset⟩, halloc, h⟩ := Option.bind_eq_some_iff.mp h
      obtain ⟨frameReg, -, h⟩ := Option.bind_eq_some_iff.mp h
      injection h with h
      rw [← h]
      have hslot : Moves loads dies _ { p with
          evictions := p.evictions ++ [⟨reg, t, temp.reg⟩], ctx := ctx } :=
        hlog.trans (.of_ends (ends_allocTempFrame
          (p := { p with evictions := p.evictions ++ [⟨reg, t, temp.reg⟩] }) halloc) rfl)
      refine (hslot.trans (moves_emit .st)).trans (.of_ends ?_ rfl)
      exact (ends_freeReg _ reg).trans (ends_toMem _ t)

/-- Allocation takes a free register, or evicts its occupant. -/
theorem regAlloc_cases {required forbidden preferred : RegSet} {reg : Reg}
    (h : regAlloc p required forbidden preferred = some (p', reg)) :
    p' = p ∨ evictReg p reg = some p' := by
  unfold regAlloc at h
  dsimp only at h
  split at h
  · injection h with h
    injection h with h _
    exact Or.inl h.symm
  · split at h
    · injection h with h
      injection h with h _
      exact Or.inl h.symm
    · split at h
      · obtain ⟨p₁, hev, h⟩ := Option.bind_eq_some_iff.mp h
        injection h with h
        injection h with h hreg
        exact Or.inr (h ▸ hreg ▸ hev)
      · obtain ⟨reg', -, h⟩ := Option.bind_eq_some_iff.mp h
        obtain ⟨p₁, hev, h⟩ := Option.bind_eq_some_iff.mp h
        injection h with h
        injection h with h hreg
        exact Or.inr (h ▸ hreg ▸ hev)

theorem moves_regAlloc {required forbidden preferred : RegSet} {reg : Reg}
    (h : regAlloc p required forbidden preferred = some (p', reg)) : Moves loads dies p p' := by
  cases regAlloc_cases h with
  | inl h =>
    rw [h]
    exact .refl p
  | inr h => exact moves_evictReg h

/-! ## Loading, defining and freeing a temp -/

theorem moves_loadFromMem {temp : Temp} {reg : Reg} (h : loadFromMem p temp reg = some p') :
    Moves loads dies p p' := by
  unfold loadFromMem at h
  split at h
  · obtain ⟨base, -, h⟩ := Option.bind_eq_some_iff.mp h
    obtain ⟨baseReg, -, h⟩ := Option.bind_eq_some_iff.mp h
    injection h with h
    exact h ▸ moves_emit .ld
  · split at h
    · obtain ⟨frameReg, -, h⟩ := Option.bind_eq_some_iff.mp h
      injection h with h
      exact h ▸ moves_emit .ld
    · injection h with h
      exact h ▸ .refl p

theorem constOf_eq_some {t : Nat} {z : BitVec 64} :
    constOf p t = some z ↔ ∃ temp, p.ctx.temp t = some temp ∧ temp.valType = .const ∧ temp.val = z := by
  simp only [constOf, Option.bind_eq_some_iff]
  constructor
  · rintro ⟨temp, htemp, h⟩
    split at h
    · rename_i hval
      injection h with h
      exact ⟨temp, htemp, hval, h⟩
    · cases h
  · rintro ⟨temp, htemp, hval, h⟩
    exact ⟨temp, htemp, by rw [if_pos hval, h]⟩

theorem constOf_none_of_temp {t : Nat} {temp : Temp} (htemp : p.ctx.temp t = some temp)
    (hval : temp.valType ≠ .const) : constOf p t = none := by
  rw [constOf, htemp, Option.bind_some, if_neg hval]

/-- After a load the temp is no constant any more. -/
theorem moves_tempLoadTo {t : Nat} {required forbidden preferred : RegSet} {reg : Reg}
    (hloads : loads t) (h : tempLoadTo p t required forbidden preferred = some (p', reg)) :
    Moves loads dies p p' ∧ constOf p' t = none := by
  obtain ⟨temp, htemp, h⟩ := Option.bind_eq_some_iff.mp h
  split at h
  · rename_i hval
    have hnone : constOf p t = none := by
      apply constOf_none_of_temp htemp
      rw [hval]
      intro h
      cases h
    obtain ⟨cur, -, h⟩ := Option.bind_eq_some_iff.mp h
    split at h
    · injection h with h
      injection h with h _
      exact h ▸ ⟨.refl p, hnone⟩
    · obtain ⟨⟨p₁, dst⟩, halloc, h⟩ := Option.bind_eq_some_iff.mp h
      injection h with h
      injection h with h _
      have h₁ : Moves loads dies p p₁ := moves_regAlloc halloc
      have hmov : Moves loads dies p (p₁.emit (.mov temp.ty dst cur)) := h₁.trans (moves_emit .mov)
      have hnone₁ := hmov.const_none hnone
      have hmove : Ends dies (p₁.emit (.mov temp.ty dst cur)) p' := by
        rw [← h]
        exact (ends_freeReg _ cur).trans
          (ends_move dst hnone₁ (fun _ => rfl) (fun _ => rfl) (fun _ => rfl))
      refine ⟨hmov.trans (.of_ends hmove ?_), hmove.const_none hnone₁⟩
      rw [← h]
      rfl
  · rename_i hval
    obtain ⟨⟨p₁, dst⟩, halloc, h⟩ := Option.bind_eq_some_iff.mp h
    injection h with h
    injection h with h _
    have h₁ : Moves loads dies p p₁ := moves_regAlloc halloc
    have hmovi : Moves loads dies p (p₁.emit (.movi temp.ty dst temp.val)) := by
      refine h₁.emit (.movi ?_)
      intro hzero
      exact ⟨t, hloads, constOf_eq_some.mpr ⟨temp, htemp, hval, hzero⟩⟩
    rw [← h]
    exact ⟨hmovi.trans (.of_ends (ends_put _ dst t (fun _ => rfl) (fun _ => rfl) (fun _ => rfl)) rfl),
      constOf_put _ t (fun _ => rfl)⟩
  · rename_i hval
    obtain ⟨⟨p₁, dst⟩, halloc, h⟩ := Option.bind_eq_some_iff.mp h
    obtain ⟨p₂, hload, h⟩ := Option.bind_eq_some_iff.mp h
    injection h with h
    injection h with h _
    have hnone : constOf p t = none := by
      apply constOf_none_of_temp htemp
      rw [hval]
      intro h
      cases h
    have h₁ : Moves loads dies p p₁ := moves_regAlloc halloc
    have hassign : Moves loads dies p₁ (p₁.assign dst t) :=
      .of_ends (ends_assign (h₁.const_none hnone)) rfl
    rw [← h]
    refine ⟨((h₁.trans hassign).trans (moves_loadFromMem hload)).trans (.of_ends ?_ rfl),
      constOf_put _ t (fun _ => rfl)⟩
    refine ends_modTemp t (fun _ => rfl) (fun _ => Or.inr ?_) (fun _ => rfl) ?_
    · intro h
      cases h
    · intro x _ h
      cases h
  · cases h

theorem valOf_put (p : Pass) {t : Nat} {temp : Temp} (htemp : p.ctx.temp t = some temp)
    {f : Temp → Temp} (hval : ∀ x, (f x).valType = .reg) :
    valOf (p.modTemp t f) t = some .reg := by
  rw [valOf_modTemp, if_pos rfl, htemp, Option.map_some, hval]

/-- The temp that an op defines lives in its register. -/
theorem moves_defineTemp {t : Nat} {reg : Reg} (h : defineTemp p reg t = some p') :
    Moves loads dies p p' ∧ valOf p' t = some .reg := by
  obtain ⟨temp, htemp, h⟩ := Option.bind_eq_some_iff.mp h
  injection h with h
  rw [← h]
  exact ⟨.of_ends (ends_put p reg t (fun _ => rfl) (fun _ => rfl) (fun _ => rfl)) rfl,
    valOf_put (p.assign reg t) htemp (fun _ => rfl)⟩

theorem moves_tempDead {t : Nat} (hdies : dies t) (h : tempDead p t = some p') :
    Moves loads dies p p' := by
  obtain ⟨temp, htemp, h⟩ := Option.bind_eq_some_iff.mp h
  split at h
  · injection h with h
    exact h ▸ .refl p
  · rename_i hown
    rw [isGlobalOrFixed_iff htemp] at hown
    split at h
    · injection h with h
      rw [← h]
      exact .of_ends ((ends_freeReg p _).trans (ends_toDead hdies hown)) rfl
    · injection h with h
      exact h ▸ .of_ends (ends_toDead hdies hown) rfl

theorem moves_tempDeadIf {b : Bool} {t : Nat} (hdies : b = true → dies t)
    (h : tempDeadIf b p t = some p') : Moves loads dies p p' := by
  unfold tempDeadIf at h
  split at h
  · rename_i hb
    exact moves_tempDead (hdies hb) h
  · injection h with h
    exact h ▸ .refl p

theorem moves_tempDeadInput {t : Nat} (hdies : dies t) (h : tempDeadInput p t = some p') :
    Moves loads dies p p' := by
  obtain ⟨temp, htemp, h⟩ := Option.bind_eq_some_iff.mp h
  split at h
  · injection h with h
    exact h ▸ .refl p
  · rename_i hown
    rw [isGlobalOrFixed_iff htemp] at hown
    have hdead : Moves loads dies p (p.modTemp t Temp.toDead) := .of_ends (ends_toDead hdies hown) rfl
    split at h
    · split at h
      · injection h with h
        rw [← h]
        exact .of_ends ((ends_freeReg p _).trans (ends_toDead hdies hown)) rfl
      · injection h with h
        exact h ▸ hdead
    · injection h with h
      exact h ▸ hdead

/-! ## Generic ops -/

variable {op : Op} {ct : OpConstraint}

/-- The inputs of an op are loaded, and none of them is a constant afterwards. -/
theorem moves_loadInputs {ins : Inputs} {n : Nat} (hn : n ≤ op.opc.opDef.nbIargs)
    (h : (List.range n).foldlM (loadInput op ct) (p, Inputs.new) = some (p', ins)) :
    Moves (fun t => t ∈ op.iargs) dies p p' ∧ ∀ i < n, constOf p' (inputOf op i) = none := by
  refine foldlM_range (fun k s => Moves (fun t => t ∈ op.iargs) dies p s.1 ∧
    ∀ i < k, constOf s.1 (inputOf op i) = none) ⟨.refl p, ?_⟩ ?_ h
  · intro i hi
    cases hi
  · rintro k hk ⟨q, ins⟩ s' ⟨hmoves, hnone⟩ hstep
    obtain ⟨temp, -, hstep⟩ := Option.bind_eq_some_iff.mp hstep
    obtain ⟨⟨q', reg⟩, hload, hstep⟩ := Option.bind_eq_some_iff.mp hstep
    obtain ⟨loaded, -, hstep⟩ := Option.bind_eq_some_iff.mp hstep
    injection hstep with hstep
    have hmem : inputOf op k ∈ op.iargs :=
      List.mem_map.mpr ⟨k, List.mem_range.mpr (Nat.lt_of_lt_of_le hk hn), rfl⟩
    obtain ⟨hq, hk'⟩ : Moves (fun t => t ∈ op.iargs) dies q q' ∧ constOf q' (inputOf op k) = none :=
      moves_tempLoadTo hmem hload
    rw [← hstep]
    refine ⟨hmoves.trans hq, ?_⟩
    intro i hi
    cases Nat.lt_succ_iff_lt_or_eq.mp hi with
    | inl hi => exact hq.const_none (hnone i hi)
    | inr hi => exact hi ▸ hk'

/-- The register of an output, where the inputs are no constants. -/
theorem moves_outputReg {ins : Inputs} {outs : Outputs} {k : Nat} {reg : Reg}
    (hnone : (ct.args k).oalias = true → constOf p (inputOf op (ct.args k).aliasIndex) = none)
    (h : outputReg op ct ins p outs k = some (p', reg)) : Moves loads dies p p' := by
  unfold outputReg at h
  dsimp only at h
  split at h
  · rename_i halias
    split at h
    · injection h with h
      injection h with h _
      exact h ▸ .refl p
    · obtain ⟨src, -, h⟩ := Option.bind_eq_some_iff.mp h
      obtain ⟨⟨p₁, copyReg⟩, halloc, h⟩ := Option.bind_eq_some_iff.mp h
      injection h with h
      injection h with h _
      have h₁ : Moves loads dies p (p₁.emit (.mov src.ty copyReg (ins.regs (ct.args k).aliasIndex))) :=
        (moves_regAlloc halloc).emit .mov
      rw [← h]
      refine h₁.trans (.of_ends ?_ rfl)
      exact ends_move copyReg (h₁.const_none (hnone halias)) (fun _ => rfl) (fun _ => rfl)
        (fun _ => rfl)
  · split at h
    · exact moves_regAlloc h
    · exact moves_regAlloc h

/-- The outputs of an op get their registers, and live afterwards. -/
theorem moves_allocOutputs {ins : Inputs} {outs : Outputs} {n : Nat}
    (hn : n ≤ op.opc.opDef.nbOargs) (hfits : fits op ct = true)
    (hnone : ∀ i < op.opc.opDef.nbIargs, constOf p (inputOf op i) = none)
    (h : (List.range n).foldlM (allocOutput op ct ins) (p, Outputs.new) = some (p', outs)) :
    Moves (fun _ => False) (fun _ => False) p p' ∧
      ∀ k < n, valOf p' (op.args k) ≠ some .dead := by
  refine foldlM_range (fun k s => Moves (fun _ => False) (fun _ => False) p s.1 ∧
    ∀ j < k, valOf s.1 (op.args j) ≠ some .dead) ⟨.refl p, ?_⟩ ?_ h
  · intro j hj
    cases hj
  · rintro k hk ⟨q, outs⟩ s' ⟨hmoves, hlive⟩ hstep
    obtain ⟨⟨q₁, reg⟩, hreg, hstep⟩ := Option.bind_eq_some_iff.mp hstep
    obtain ⟨q₂, hdef, hstep⟩ := Option.bind_eq_some_iff.mp hstep
    injection hstep with hstep
    have h₁ : Moves (fun _ => False) (fun _ => False) q q₁ := by
      refine moves_outputReg (fun ha => hmoves.const_none (hnone _ ?_)) hreg
      exact fits_alias hfits (Nat.lt_of_lt_of_le hk hn) ha
    obtain ⟨h₂, hval⟩ : Moves (fun _ => False) (fun _ => False) q₁ q₂ ∧
        valOf q₂ (op.args k) = some .reg := moves_defineTemp hdef
    rw [← hstep]
    refine ⟨(hmoves.trans h₁).trans h₂, ?_⟩
    intro j hj hdead
    cases Nat.lt_succ_iff_lt_or_eq.mp hj with
    | inl hj =>
      cases (h₁.trans h₂).dead _ hdead with
      | inl hdead => exact hlive j hj hdead
      | inr hfalse => exact hfalse.1
    | inr hj =>
      rw [hj, hval] at hdead
      cases hdead

theorem moves_restoreFixed {move : Nat × Reg × Reg} (h : restoreFixed p move = some p') :
    Moves loads dies p p' := by
  obtain ⟨t, origReg, movedReg⟩ := move
  obtain ⟨temp, -, h⟩ := Option.bind_eq_some_iff.mp h
  dsimp only at h
  have hrest : ∀ q, Moves loads dies p q →
      (if q.state.regToTemp movedReg = some t then some (q.freeReg movedReg) else some q) = some p' →
      Moves loads dies p p' := by
    intro q hq h
    split at h
    · injection h with h
      exact h ▸ hq.trans (.of_ends (ends_freeReg q movedReg) rfl)
    · injection h with h
      exact h ▸ hq
  split at h
  · refine hrest ((p.modTemp t fun t =>
      { t with valType := .reg, reg := some origReg }).assign origReg t) (.of_ends ?_ rfl) h
    exact ends_put (f := fun t => { t with valType := .reg, reg := some origReg }) p origReg t
      (fun _ => rfl) (fun _ => rfl) (fun _ => rfl)
  · exact hrest p (.refl p) h

theorem moves_syncInput {i : Nat} (h : syncInput op p i = some p') : Moves loads dies p p' := by
  unfold syncInput at h
  dsimp only at h
  split at h
  · obtain ⟨p₁, h₁, h⟩ := Option.bind_eq_some_iff.mp h
    injection h with h
    exact h ▸ moves_sync_coherent h₁
  · injection h with h
    exact h ▸ .refl p

/-- Argument `n` of an op is marked dead. -/
def Marked (op : Op) (n t : Nat) : Prop := op.life.isDead n = true ∧ op.args n = t

/-- Some input of an op is `t`, and marked dead. -/
def DeadInput (op : Op) (t : Nat) : Prop :=
  ∃ i < op.opc.opDef.nbIargs, Marked op (op.opc.opDef.nbOargs + i) t

/-- The temps that end with an op: its dead inputs that it does not define again, and its dead
outputs. -/
def EndsWith (op : Op) (t : Nat) : Prop :=
  (t ∉ op.oargs ∧ DeadInput op t) ∨ ∃ k < op.opc.opDef.nbOargs, Marked op k t

theorem moves_freeDeadInput {i : Nat} (hi : i < op.opc.opDef.nbIargs)
    (h : freeDeadInput op p i = some p') : Moves loads (EndsWith op) p p' := by
  unfold freeDeadInput at h
  dsimp only at h
  split at h
  · rename_i hfree
    rw [Bool.and_eq_true, Bool.not_eq_true', List.contains_eq_mem, decide_eq_false_iff_not] at hfree
    exact moves_tempDeadInput (Or.inl ⟨hfree.2, i, hi, hfree.1, rfl⟩) h
  · injection h with h
    exact h ▸ .refl p

/-- A generic op loads its inputs, gives its outputs registers, is emitted, and frees what is
dead. -/
theorem regallocOp_parts (hfits : fits op ct = true) (h : regallocOp p op ct = some p') :
    ∃ (p₁ p₂ : Pass) (ins : Inputs) (oregs iregs : List Reg),
      (List.range op.opc.opDef.nbIargs).foldlM (loadInput op ct) (p, Inputs.new) = some (p₁, ins) ∧
      oregs.length = op.opc.opDef.nbOargs ∧ iregs.length = op.opc.opDef.nbIargs ∧
      Moves (fun _ => False) (fun _ => False) p₁ p₂ ∧
      (∀ t ∈ op.oargs, valOf p₂ t ≠ some .dead) ∧
      Moves (fun _ => False) (EndsWith op) (p₂.emit (.op op.opc op.opType oregs iregs op.cargs)) p' := by
  obtain ⟨⟨p₁, ins⟩, hload, h⟩ := Option.bind_eq_some_iff.mp h
  obtain ⟨ins', -, h⟩ := Option.bind_eq_some_iff.mp h
  obtain ⟨⟨p₂, outs⟩, hout, h⟩ := Option.bind_eq_some_iff.mp h
  obtain ⟨iregs, -, h⟩ := Option.bind_eq_some_iff.mp h
  obtain ⟨p₃, hdead, h⟩ := Option.bind_eq_some_iff.mp h
  obtain ⟨p₄, hfixed, h⟩ := Option.bind_eq_some_iff.mp h
  obtain ⟨p₅, hdout, hsync⟩ := Option.bind_eq_some_iff.mp h
  obtain ⟨-, hnone⟩ : Moves (fun t => t ∈ op.iargs) (fun _ => False) p p₁ ∧
      ∀ i < op.opc.opDef.nbIargs, constOf p₁ (inputOf op i) = none :=
    moves_loadInputs (Nat.le_refl _) hload
  obtain ⟨hmoves, hlive⟩ := moves_allocOutputs (Nat.le_refl _) hfits hnone hout
  refine ⟨p₁, p₂, ins, (List.range op.opc.opDef.nbOargs).map outs.regs,
    (List.range op.opc.opDef.nbIargs).map iregs, hload, ?_, ?_, hmoves, ?_, ?_⟩
  · simp
  · simp
  · intro t ht
    obtain ⟨k, hk, rfl⟩ := mem_oargs.mp ht
    exact hlive k hk
  · have h₄ : Moves (fun _ => False) (EndsWith op) p₃ p₄ :=
      moves_foldlM (fun _ _ _ _ hs => moves_restoreFixed hs) hfixed
    have h₅ : Moves (fun _ => False) (EndsWith op) p₄ p₅ := by
      refine moves_foldlM ?_ hdout
      intro k hk q q' hs
      exact moves_tempDeadIf (fun hb => Or.inr ⟨k, List.mem_range.mp hk, hb, rfl⟩) hs
    have h₆ : Moves (fun _ => False) (EndsWith op) p₅ p' :=
      moves_foldlM (fun _ _ _ _ hs => moves_syncInput hs) hsync
    exact Moves.trans (moves_foldlM (fun _ hi _ _ hs => moves_freeDeadInput (List.mem_range.mp hi) hs)
      hdead) (h₄.trans (h₅.trans h₆))

/-! ## Every op -/

/-- What an op does to the temps: only those end that end with it, and of its outputs only those
that are marked dead. -/
structure Ended (op : Op) (p p' : Pass) : Prop where
  ends : Ends (EndsWith op) p p'
  outputs : ∀ t ∈ op.oargs, valOf p' t = some .dead → ∃ k < op.opc.opDef.nbOargs, Marked op k t

/-- An op that has defined its outputs in between. -/
theorem Ended.of_parts {q : Pass} (h₁ : Ends dies p q)
    (hdies : ∀ t, dies t → t ∉ op.oargs → EndsWith op t)
    (hlive : ∀ t ∈ op.oargs, valOf q t ≠ some .dead) (h₂ : Ends (EndsWith op) q p') :
    Ended op p p' := by
  have hboth : Ends (fun t => dies t ∨ EndsWith op t) p p' :=
    (h₁.mono fun _ h => Or.inl h).trans (h₂.mono fun _ h => Or.inr h)
  refine ⟨⟨hboth.kind, ?_, hboth.const, hboth.free⟩, ?_⟩
  · intro t hdead
    cases h₂.dead t hdead with
    | inl hq =>
      have hout : t ∉ op.oargs := fun hmem => hlive t hmem hq
      exact (h₁.dead t hq).imp_right fun hd => ⟨hdies t hd.1 hout, hd.2⟩
    | inr hd => exact Or.inr ⟨hd.1, fun ho => hd.2 ((owned_congr h₁.kind t).mpr ho)⟩
  · intro t hmem hdead
    cases h₂.dead t hdead with
    | inl hq => exact absurd hq (hlive t hmem)
    | inr hd => exact hd.1.resolve_left fun h => h.1 hmem

/-- An op without outputs. -/
theorem Ended.of_ends (hnone : op.oargs = []) (h : Ends dies p p')
    (hdies : ∀ t, dies t → EndsWith op t) : Ended op p p' := by
  refine ⟨h.mono hdies, ?_⟩
  intro t ht
  rw [hnone] at ht
  cases ht

theorem ended_regallocMov (hop : op.opc = .mov) (h : regallocMov p op = some p') :
    Ended op p p' := by
  obtain ⟨⟨p₁, srcReg⟩, hload, h⟩ := Option.bind_eq_some_iff.mp h
  obtain ⟨p₂, hfree, h⟩ := Option.bind_eq_some_iff.mp h
  obtain ⟨⟨p₃, dstReg⟩, halloc, h⟩ := Option.bind_eq_some_iff.mp h
  obtain ⟨p₄, hdef, hout⟩ := Option.bind_eq_some_iff.mp h
  have houts : op.oargs = [op.args 0] := by simp [Op.oargs, hop, Opcode.opDef]
  have h₁ : Moves (fun _ => True) (Marked op 1) p p₁ := (moves_tempLoadTo trivial hload).1
  have h₂ : Moves (fun _ => True) (Marked op 1) p₁ p₂ := moves_tempDeadIf (fun hb => ⟨hb, rfl⟩) hfree
  have h₃ : Moves (fun _ => True) (Marked op 1) p₂ p₃ := moves_regAlloc halloc
  obtain ⟨h₄, hval⟩ : Moves (fun _ => True) (Marked op 1) p₃ p₄ ∧ valOf p₄ (op.args 0) = some .reg :=
    moves_defineTemp hdef
  have hemit : ∀ q, (if dstReg ≠ srcReg then p₄.emit (.mov op.opType dstReg srcReg) else p₄) = q →
      Ends (Marked op 1) p₄ q ∧ valOf q (op.args 0) = some .reg := by
    intro q hq
    split at hq
    · exact hq ▸ ⟨ends_emit p₄ _, hval⟩
    · exact hq ▸ ⟨.refl p₄, hval⟩
  obtain ⟨h₅, hval'⟩ := hemit _ rfl
  have h₆ : Moves (fun _ => True) (EndsWith op) _ p' :=
    moves_tempDeadIf (fun hb => Or.inr ⟨0, by simp [hop, Opcode.opDef], hb, rfl⟩) hout
  refine Ended.of_parts ((((h₁.trans h₂).trans h₃).trans h₄).toEnds.trans h₅) ?_ ?_ h₆.toEnds
  · intro t hmark hmem
    exact Or.inl ⟨hmem, 0, by simp [hop, Opcode.opDef], by simpa [hop, Opcode.opDef] using hmark⟩
  · intro t ht
    rw [houts, List.mem_singleton] at ht
    rw [ht, hval']
    intro h
    cases h

theorem ends_foldlM {A : Type} {step : Pass → A → Option Pass} {moves : List A}
    (hstep : ∀ a ∈ moves, ∀ q q', step q a = some q' → Ends dies q q')
    (h : moves.foldlM step p = some p') : Ends dies p p' :=
  foldlM_invariant (Ends dies p) (.refl p) (fun a ha q q' hq hs => hq.trans (hstep a ha q q' hs)) h

theorem ends_spillLocal {reg : Reg} (h : spillLocal p reg = some p') : Ends dies p p' := by
  have hev : ∀ {q}, evictReg p reg = some q → Ends dies p q := by
    intro q hq
    have hmoves : Moves (fun _ => True) dies p q := moves_evictReg hq
    exact hmoves.toEnds
  unfold spillLocal at h
  split at h
  · injection h with h
    exact h ▸ .refl p
  · obtain ⟨temp, -, h⟩ := Option.bind_eq_some_iff.mp h
    split at h
    · injection h with h
      exact h ▸ .refl p
    · exact hev h

theorem ends_loadArg {t : Nat} {target : Reg} (h : loadArg p t target = some p') :
    Ends dies p p' := by
  obtain ⟨temp, -, h⟩ := Option.bind_eq_some_iff.mp h
  split at h
  · obtain ⟨src, -, h⟩ := Option.bind_eq_some_iff.mp h
    split at h
    · injection h with h
      exact h ▸ ends_emit p _
    · injection h with h
      exact h ▸ .refl p
  · injection h with h
    exact h ▸ ends_emit p _
  · have hmoves : Moves (fun _ => True) dies p p' := moves_loadFromMem h
    exact hmoves.toEnds
  · injection h with h
    exact h ▸ ends_emit p _

theorem ends_clobberReg {reg : Reg} (h : clobberReg p reg = some p') : Ends dies p p' := by
  unfold clobberReg at h
  split at h
  · injection h with h
    exact h ▸ .refl p
  · rename_i t _
    obtain ⟨temp, -, h⟩ := Option.bind_eq_some_iff.mp h
    split at h
    · injection h with h
      exact h ▸ (ends_toMem p t).trans (ends_freeReg _ reg)
    · injection h with h
      exact h ▸ ends_freeReg p reg

/-- The arguments of a call are loaded; nothing ends. -/
theorem ends_callArgs {p₁ p₂ : Pass} {args : List (Nat × Reg)} (hsync : syncGlobals p = some p₁)
    (hspill : callerSaved.foldlM spillLocal p₁ = some p₂)
    (hload : args.foldlM (fun p a => loadArg p a.1 a.2) p₂ = some p') : Ends dies p p' := by
  have h₁ : Moves (fun _ => True) dies p p₁ := moves_syncGlobals hsync
  have h₂ : Ends dies p₁ p₂ := ends_foldlM (fun _ _ _ _ hs => ends_spillLocal hs) hspill
  exact (h₁.toEnds.trans h₂).trans (ends_foldlM (fun _ _ _ _ hs => ends_loadArg hs) hload)

theorem ended_regallocCall (hop : op.opc = .call) (h : regallocCall p op ct = some p') :
    Ended op p p' := by
  obtain ⟨p₁, hsync, h⟩ := Option.bind_eq_some_iff.mp h
  obtain ⟨p₂, hspill, h⟩ := Option.bind_eq_some_iff.mp h
  obtain ⟨targets, -, h⟩ := Option.bind_eq_some_iff.mp h
  obtain ⟨p₃, hload, h⟩ := Option.bind_eq_some_iff.mp h
  obtain ⟨p₄, hfree, h⟩ := Option.bind_eq_some_iff.mp h
  obtain ⟨p₅, hclobber, h⟩ := Option.bind_eq_some_iff.mp h
  obtain ⟨outReg, -, h⟩ := Option.bind_eq_some_iff.mp h
  obtain ⟨p₆, hdef, hout⟩ := Option.bind_eq_some_iff.mp h
  have houts : op.oargs = [op.args 0] := by simp [Op.oargs, hop, Opcode.opDef]
  have h₃ : Ends (DeadInput op) p p₃ := ends_callArgs hsync hspill hload
  have h₄ : Moves (fun _ => True) (DeadInput op) p₃ p₄ := by
    refine moves_foldlM ?_ hfree
    intro i hi q q' hs
    unfold freeDeadArg at hs
    dsimp only at hs
    split at hs
    · rename_i hdead
      exact moves_tempDeadInput ⟨i, List.mem_range.mp hi, hdead, rfl⟩ hs
    · injection hs with hs
      exact hs ▸ .refl q
  have h₅ : Ends (DeadInput op) p₄ p₅ := ends_foldlM (fun _ _ _ _ hs => ends_clobberReg hs) hclobber
  obtain ⟨h₆, hval⟩ : Moves (fun _ => True) (DeadInput op) _ p₆ ∧
    valOf p₆ (op.args 0) = some .reg := moves_defineTemp hdef
  have h₇ : Moves (fun _ => True) (EndsWith op) p₆ p' :=
    moves_tempDeadIf (fun hb => Or.inr ⟨0, by simp [hop, Opcode.opDef], hb, rfl⟩) hout
  refine Ended.of_parts (((h₃.trans h₄.toEnds).trans h₅).trans ((ends_emit p₅ _).trans h₆.toEnds))
    (fun t ht hmem => Or.inl ⟨hmem, ht⟩) ?_ h₇.toEnds
  intro t ht
  rw [houts, List.mem_singleton] at ht
  rw [ht, hval]
  intro h
  cases h

theorem ended_regallocGotoPtr (hop : op.opc = .gotoPtr) (h : regallocGotoPtr p op = some p') :
    Ended op p p' := by
  obtain ⟨⟨p₁, reg⟩, hload, h⟩ := Option.bind_eq_some_iff.mp h
  obtain ⟨p₂, hfree, h⟩ := Option.bind_eq_some_iff.mp h
  obtain ⟨p₃, hsync, h⟩ := Option.bind_eq_some_iff.mp h
  injection h with h
  have h₁ : Moves (fun _ => True) (Marked op 0) p p₁ := (moves_tempLoadTo trivial hload).1
  have h₂ : Moves (fun _ => True) (Marked op 0) p₁ p₂ := moves_tempDeadIf (fun hb => ⟨hb, rfl⟩) hfree
  have h₃ : Moves (fun _ => True) (Marked op 0) p₂ p₃ := moves_syncGlobals hsync
  have hnone : op.oargs = [] := by simp [Op.oargs, hop, Opcode.opDef]
  rw [← h]
  refine Ended.of_ends hnone (((h₁.trans h₂).trans h₃).toEnds.trans (ends_emit p₃ _)) ?_
  intro t hmark
  refine Or.inl ⟨?_, 0, by simp [hop, Opcode.opDef], by simpa [hop, Opcode.opDef] using hmark⟩
  rw [hnone]
  intro ht
  cases ht

/-- The inputs of a conditional branch are loaded; nothing ends. -/
theorem ends_loadBranchInputs {n : Nat} {iregs : List Reg} {allocated : RegSet}
    (h : (List.range n).foldlM (loadBranchInput op) (p, [], .empty) = some (p', iregs, allocated)) :
    Ends dies p p' := by
  refine foldlM_range (fun _ s => Ends dies p s.1) (.refl p) ?_ h
  rintro k - ⟨q, regs, alloc⟩ s' hq hstep
  obtain ⟨⟨q', reg⟩, hload, hstep⟩ := Option.bind_eq_some_iff.mp hstep
  injection hstep with hstep
  have hmoves : Moves (fun _ => True) dies q q' := (moves_tempLoadTo trivial hload).1
  rw [← hstep]
  exact hq.trans hmoves.toEnds

theorem ended_regallocBrCond (hop : op.opc = .brCond) (h : regallocBrCond p op = some p') :
    Ended op p p' := by
  obtain ⟨⟨p₁, iregs, allocated⟩, hload, h⟩ := Option.bind_eq_some_iff.mp h
  obtain ⟨p₂, hfree, h⟩ := Option.bind_eq_some_iff.mp h
  obtain ⟨p₃, hsync, h⟩ := Option.bind_eq_some_iff.mp h
  injection h with h
  have h₁ : Ends (DeadInput op) p p₁ := ends_loadBranchInputs hload
  have h₂ : Moves (fun _ => True) (DeadInput op) p₁ p₂ := by
    refine moves_foldlM ?_ hfree
    intro i hi q q' hs
    exact moves_tempDeadIf (fun hb => ⟨i, List.mem_range.mp hi, hb, rfl⟩) hs
  have h₃ : Moves (fun _ => True) (DeadInput op) p₂ p₃ := moves_syncGlobals hsync
  have hnone : op.oargs = [] := by simp [Op.oargs, hop, Opcode.opDef]
  rw [← h]
  refine Ended.of_ends hnone ((h₁.trans (h₂.trans h₃).toEnds).trans (ends_emit p₃ _)) ?_
  intro t ht
  refine Or.inl ⟨?_, ht⟩
  rw [hnone]
  intro hmem
  cases hmem

/-- An op that only syncs the globals. -/
theorem ended_sync {insn : HostInsn} (hnone : op.oargs = [])
    (h : (do return (← syncGlobals p).emit insn) = some p') : Ended op p p' := by
  obtain ⟨p₁, hsync, h⟩ := Option.bind_eq_some_iff.mp h
  injection h with h
  have h₁ : Moves (fun _ => True) (fun _ => False) p p₁ := moves_syncGlobals hsync
  rw [← h]
  exact Ended.of_ends hnone (h₁.toEnds.trans (ends_emit p₁ insn)) (fun _ hf => hf.elim)

/-- An op that is allocated has an entry in the constraint table. -/
theorem fits_of_regallocOp (h : regallocOp p op (opConstraint op.opc) = some p') :
    fits op (opConstraint op.opc) = true := by
  cases RegBookkeeping.fits_or_empty op with
  | inl hfits => exact hfits
  | inr hempty =>
    rw [hempty.1, RegBookkeeping.regallocOp_empty hempty.2] at h
    cases h

theorem ended_generic (h : (do
      let p ← regallocOp p op (opConstraint op.opc)
      if op.opc.opDef.flags.contains .bbEnd then syncGlobals p else return p) = some p') :
    Ended op p p' := by
  obtain ⟨p₁, h₁, h⟩ := Option.bind_eq_some_iff.mp h
  obtain ⟨q₁, q₂, ins, oregs, iregs, hload, -, -, hout, hlive, hrest⟩ :=
    regallocOp_parts (fits_of_regallocOp h₁) h₁
  have hin : Moves (fun t => t ∈ op.iargs) (fun _ => False) p q₁ :=
    (moves_loadInputs (Nat.le_refl _) hload).1
  have hsync : Moves (fun _ => False) (EndsWith op) p₁ p' := by
    split at h
    · exact moves_syncGlobals h
    · injection h with h
      exact h ▸ .refl p₁
  exact Ended.of_parts ((hin.toEnds.trans hout.toEnds).trans (ends_emit q₂ _))
    (fun _ hf _ => hf.elim) hlive (hrest.trans hsync).toEnds

/-- Every op ends only temps that its liveness marks. -/
theorem ended_stepOp (h : stepOp p op = some p') : Ended op p p' := by
  have hnone : op.opc.opDef.nbOargs = 0 → op.oargs = [] := by
    intro hz
    rw [Op.oargs, hz]
    rfl
  have hskip : some p = some p' → op.oargs = [] → Ended op p p' := by
    intro hp hempty
    injection hp with hp
    exact hp ▸ Ended.of_ends hempty (.refl p) (fun _ (hf : False) => hf.elim)
  unfold stepOp at h
  split at h
  · rename_i hop
    exact hskip h (hnone (by rw [hop]; rfl))
  · rename_i hop
    exact hskip h (hnone (by rw [hop]; rfl))
  · rename_i hop
    exact ended_regallocMov hop h
  · rename_i hop
    exact ended_sync (hnone (by rw [hop]; rfl)) h
  · rename_i hop
    exact ended_sync (hnone (by rw [hop]; rfl)) h
  · rename_i hop
    exact ended_sync (hnone (by rw [hop]; rfl)) h
  · rename_i hop
    exact ended_sync (hnone (by rw [hop]; rfl)) h
  · rename_i hop
    exact ended_regallocCall hop h
  · rename_i hop
    exact ended_regallocGotoPtr hop h
  · rename_i hop
    injection h with h
    exact h ▸ Ended.of_ends (hnone (by rw [hop]; rfl)) (ends_emit p _)
      (fun _ (hf : False) => hf.elim)
  · rename_i hop
    exact ended_regallocBrCond hop h
  · exact ended_generic h

/-- In a context that no register of which holds a constant, none does at any time. -/
theorem constFree_run {ctx : Context} {ops : List Op} (hc : ConstFree (initPass ctx))
    (h : regallocAndCodegen ctx ops = some p) : ConstFree p :=
  foldlM_invariant ConstFree hc (fun _ _ _ _ hf hs => (ended_stepOp hs).ends.free hf) h

/-- Before the first op the registers hold Fixed temps only. -/
theorem constFree_initPass {ctx : Context} (hc : RegBookkeeping.Starting ctx) :
    ConstFree (initPass ctx) := by
  intro r t hr
  obtain ⟨-, hhome⟩ := (RegBookkeeping.initFixed_loop hc ctx.nbGlobals (Nat.le_refl _)).2 r t |>.mp hr
  obtain ⟨temp, htemp, hkind, -⟩ := RegBookkeeping.homeOf_eq_some.mp hhome
  apply constOf_none_of_temp htemp
  rw [(hc.fixed_home t temp htemp hkind).1]
  intro h
  cases h

end TcgRs.Analysis.TempStates
