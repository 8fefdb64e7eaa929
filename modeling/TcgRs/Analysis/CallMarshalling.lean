import TcgRs.Analysis.RegBookkeeping
import TcgRs.Analysis.RegValues

/-!
# Marshalling the arguments of a call

`regalloc_call` moves the six arguments of a helper call into the argument registers one after
another, without changing where the temps are recorded.  The moves are a parallel assignment only
if no move overwrites the source of a later one.  Locals cannot be in the way, since they are
spilled first; a global can.
-/

set_option autoImplicit false

namespace TcgRs.Analysis.CallMarshalling

open TcgRs.Model TcgRs.Model.Ir TcgRs.Model.X86 TcgRs.Model.RegAlloc TcgRs.Library
open Interface.Host RegBooks RegKept RegBookkeeping RegValues

/-! ## What a call should do -/

/-- The argument registers of the System V calling convention. -/
def argRegs : List Reg := [.rdi, .rsi, .rdx, .rcx, .r8, .r9]

def argReg (i : Nat) : Reg := argRegs.getD i .rax

/-- Input `i` of a call; argument slot 0 is the output. -/
def input (op : Op) (i : Nat) : Nat := op.args (1 + i)

/-- The machine when the call instruction executes: all code emitted for the op but the last
instruction has run. -/
def atCall (p p' : Pass) (m : Machine) : Machine :=
  m.execAll (p'.buf.drop p.buf.length).dropLast

/-- A helper returns with the callee-saved registers and the homes of the temps unchanged. -/
structure Returns (v : Nat → BitVec 64) (fp : BitVec 64) (ctx : Context) (m m' : Machine) :
    Prop where
  regs : ∀ r, r ∉ callerSaved → m'.regs r = m.regs r
  homes : ∀ t temp c, ctx.temp t = some temp → cellOf v fp temp = some c →
    m'.mem c.1 c.2 = m.mem c.1 c.2

/-- The temp is readable where the allocator says, with the value `x`. -/
def Readable (v : Nat → BitVec 64) (fp : BitVec 64) (ctx : Context) (m : Machine) (t : Nat)
    (x : BitVec 64) : Prop :=
  ∃ temp, ctx.temp t = some temp ∧
    match temp.valType with
    | .dead => False
    | .const => trunc temp.ty temp.val = trunc temp.ty x
    | .reg => ∃ r, temp.reg = some r ∧ trunc temp.ty (m.regs r) = trunc temp.ty x
    | .mem => ∃ c, cellOf v fp temp = some c ∧ trunc temp.ty (m.mem c.1 c.2) = trunc temp.ty x

def Live (p : Pass) (t : Nat) : Prop := ∃ temp, p.ctx.temp t = some temp ∧ temp.valType ≠ .dead

instance (p : Pass) (t : Nat) : Decidable (Live p t) :=
  decidable_of_iff ((p.ctx.temp t).any fun temp => decide (temp.valType ≠ .dead)) (by
    rw [Option.any_eq_true]
    simp only [decide_eq_true_eq, Live])

/-- The temp is a local that the op uses for the last time. -/
def DiesHere (p : Pass) (op : Op) (t : Nat) : Prop :=
  ¬ Owned p t ∧ ∃ i < 6, input op i = t ∧ op.life.isDead (1 + i) = true

/-- The call is marshalled correctly when the temps have the values `v`. -/
structure Marshalled (v : Nat → BitVec 64) (fp : BitVec 64) (p p' : Pass) (op : Op) : Prop where
  /-- The code for the op ends in the call instruction. -/
  code : p'.buf = p.buf ++ (p'.buf.drop p.buf.length).dropLast ++
    [.op .call op.opType [.rax] argRegs op.cargs]
  /-- The argument registers have the values of the inputs. -/
  args : ∀ m, Holds v fp (fun _ => True) p.ctx m → ∀ i < 6, ∀ temp,
    p.ctx.temp (input op i) = some temp →
      trunc temp.ty ((atCall p p' m).regs (argReg i)) = trunc temp.ty (v (input op i))
  /-- Every other temp that stays live is readable afterwards. -/
  kept : ∀ m m', Holds v fp (fun _ => True) p.ctx m → Returns v fp p'.ctx (atCall p p' m) m' →
    ∀ t, Live p t → t ≠ op.args 0 → ¬ DiesHere p op t → Readable v fp p'.ctx m' t (v t)

/-- No argument is a global that sits in the register of an earlier argument, unless it is that
argument too. -/
def NoClobber (p : Pass) (op : Op) : Prop :=
  ∀ j < 6, ∀ i < j, kindOf p (input op j) = some .global →
    (books p).place (input op j) = some (argReg i) → input op i = input op j

instance (p : Pass) (op : Op) : Decidable (NoClobber p op) :=
  inferInstanceAs (Decidable (∀ j < 6, ∀ i < j, kindOf p (input op j) = some .global →
    (books p).place (input op j) = some (argReg i) → input op i = input op j))

variable {home : Nat → Option Reg} {v : Nat → BitVec 64} {fp : BitVec 64} {p p' : Pass}
  {m : Machine}

/-! ## The spills -/

theorem tracks_spillLocal {r : Reg} (ht : Tracks home v fp p m)
    (hr : allocatableRegs.contains r = true) (h : spillLocal p r = some p') :
    ∃ m', Emits p p' m m' ∧ Tracks home v fp p' m' ∧ m'.regs = m.regs := by
  have hkept := (shrinks_spillLocal ht.kept hr h).1.kept
  rw [spillLocal] at h
  split at h
  · injection h with h
    rw [← h]
    exact ⟨m, Emits.refl p m, ht, rfl⟩
  · obtain ⟨temp, htemp, h⟩ := Option.bind_eq_some_iff.mp h
    split at h
    · injection h with h
      rw [← h]
      exact ⟨m, Emits.refl p m, ht, rfl⟩
    · obtain ⟨m', hem, hp, hh, hregs⟩ := carries_evictReg ht.kept.sound ht.placed ht.holds
        (fun _ _ _ _ _ _ => trivial) trivial
        (fun t temp hocc hx => by
          constructor
          · rw [← place_of_temp hx]
            exact (ht.kept.consistent r t).mp hocc
          · intro hfix
            have hnone := ht.kept.home_none hr hocc
            have hsome := (ht.kept.home_fixed t).mpr (by rw [kindOf, hx, Option.map_some, hfix])
            rw [hnone] at hsome
            cases hsome) h
      exact ⟨m', hem, ⟨hkept, hp, hh⟩, hregs⟩

/-- A spill changes nothing, or moves one local to its slot. -/
theorem spillLocal_cases {r : Reg} (h : spillLocal p r = some p') :
    p' = p ∨ ∃ t temp ctx' offset, p.ctx.temp t = some temp ∧ ¬ Owned p t ∧
      p.ctx.allocTempFrame t = some (ctx', offset) ∧ p'.ctx = ctx'.modTemp t Temp.toMem := by
  rw [spillLocal] at h
  split at h
  · injection h with h
    exact .inl h.symm
  · rename_i t hocc
    obtain ⟨temp, htemp, h⟩ := Option.bind_eq_some_iff.mp h
    split at h
    · injection h with h
      exact .inl h.symm
    · rename_i hown
      rw [evictReg, hocc] at h
      obtain ⟨temp', htemp', h⟩ := Option.bind_eq_some_iff.mp h
      rw [htemp] at htemp'
      injection htemp' with htemp'
      rw [← htemp', if_neg hown] at h
      obtain ⟨⟨ctx', offset⟩, hframe, h⟩ := Option.bind_eq_some_iff.mp h
      obtain ⟨fr, -, h⟩ := Option.bind_eq_some_iff.mp h
      injection h with h
      refine .inr ⟨t, temp, ctx', offset, htemp, ?_, hframe, ?_⟩
      · intro howned
        exact hown ((isGlobalOrFixed_iff htemp).mpr howned)
      · rw [← h]
        rfl

theorem temp_spillLocal {r : Reg} (h : spillLocal p r = some p') {u : Nat} (hu : Owned p u) :
    p'.ctx.temp u = p.ctx.temp u := by
  rcases spillLocal_cases h with rfl | ⟨t, temp, ctx', offset, htemp, hown, hframe, hctx⟩
  · rfl
  · have hne : u ≠ t := fun heq => hown (heq ▸ hu)
    rw [hctx, temp_modTemp, if_neg hne]
    exact (allocTempFrame_spec htemp hframe).2.1 u hne

theorem live_spillLocal {r : Reg} {t : Nat} (h : spillLocal p r = some p') (ht : Live p t) :
    Live p' t := by
  rcases spillLocal_cases h with rfl | ⟨u, x, ctx', offset, hx, -, hframe, hctx⟩
  · exact ht
  · obtain ⟨-, hother, hnew⟩ := allocTempFrame_spec hx hframe
    rw [Live, hctx, temp_modTemp]
    split
    · rw [hnew]
      exact ⟨_, rfl, nofun⟩
    · rename_i hne
      rw [hother t hne]
      exact ht

/-- The type of a temp does not change. -/
def tyOf (p : Pass) (t : Nat) : Option IrType := (p.ctx.temp t).map Temp.ty

theorem tyOf_modTemp {p' : Pass} {t : Nat} {f : Temp → Temp} (hctx : p'.ctx = p.ctx.modTemp t f)
    (hf : ∀ x, (f x).ty = x.ty) (u : Nat) : tyOf p' u = tyOf p u := by
  rw [tyOf, hctx, temp_modTemp, tyOf]
  split
  · rename_i heq
    rw [heq]
    cases p.ctx.temp t <;> simp [hf]
  · rfl

theorem tyOf_spillLocal {r : Reg} (h : spillLocal p r = some p') (u : Nat) :
    tyOf p' u = tyOf p u := by
  rcases spillLocal_cases h with rfl | ⟨t, x, ctx', offset, hx, -, hframe, hctx⟩
  · rfl
  · obtain ⟨-, hother, hnew⟩ := allocTempFrame_spec hx hframe
    rw [tyOf, hctx, temp_modTemp, tyOf]
    split
    · rename_i heq
      rw [hnew, heq, hx]
      rfl
    · rename_i hne
      rw [hother u hne]

/-- What the sync and the spills leave: locals are out of the caller-saved registers, and globals
are in memory too. -/
structure Ready (home : Nat → Option Reg) (v : Nat → BitVec 64) (fp : BitVec 64) (p p' : Pass)
    (m m' : Machine) : Prop where
  shrinks : Shrinks home p p'
  tracks : Tracks home v fp p' m'
  emits : Emits p p' m m'
  coherent : ∀ t, kindOf p' t = some .global → Coherent p' t
  owned : ∀ t, Owned p t → (books p').place t = (books p).place t
  ty : ∀ t, tyOf p' t = tyOf p t
  live : ∀ t, Live p t → Live p' t

theorem syncGlobal_cases {i : Nat} (h : syncGlobal p i = some p') :
    p' = p ∨ p'.ctx = p.ctx.modTemp i fun t => { t with memCoherent := true } := by
  obtain ⟨x, -, h⟩ := Option.bind_eq_some_iff.mp h
  split at h
  · obtain ⟨p₁, hsync, h⟩ := Option.bind_eq_some_iff.mp h
    injection h with h
    right
    rw [← h, ← (tempSync_ctx hsync).1]
    rfl
  · injection h with h
    exact .inl h.symm

theorem live_syncGlobal {i t : Nat} (h : syncGlobal p i = some p') (ht : Live p t) : Live p' t := by
  rcases syncGlobal_cases h with rfl | hctx
  · exact ht
  · obtain ⟨temp, htemp, hval⟩ := ht
    rw [Live, hctx, temp_modTemp]
    split
    · rename_i heq
      rw [← heq, htemp]
      exact ⟨_, rfl, hval⟩
    · exact ⟨temp, htemp, hval⟩

theorem tyOf_syncGlobal {i : Nat} (h : syncGlobal p i = some p') (t : Nat) :
    tyOf p' t = tyOf p t := by
  rcases syncGlobal_cases h with rfl | hctx
  · rfl
  · exact tyOf_modTemp hctx (fun _ => rfl) t

theorem ready_syncGlobals (ht : Tracks home v fp p m) (h : syncGlobals p = some p') :
    ∃ m', Ready home v fp p p' m m' := by
  have hlead := leads_syncGlobals ht.kept.sound h
  obtain ⟨m', hem, ht', -, hcoh⟩ := tracks_syncGlobals ht h
  refine ⟨m', Shrinks.of_same ht.kept hlead, ht', hem, ?_, fun t _ => by rw [hlead.table], ?_, ?_⟩
  · intro t hkind
    rw [hlead.kind, kindOf] at hkind
    obtain ⟨temp, htemp, hglobal⟩ := Option.map_eq_some_iff.mp hkind
    exact hcoh t (ht.placed.front t temp htemp hglobal)
  · intro t
    exact foldlM_invariant (fun q => tyOf q t = tyOf p t) rfl
      (fun i _ q q' hq hstep => (tyOf_syncGlobal hstep t).trans hq) h
  · intro t hlive
    exact foldlM_invariant (fun q => Live q t) hlive
      (fun i _ q q' hq hstep => live_syncGlobal hstep hq) h

theorem Ready.spillLocal {p₁ : Pass} {m₁ : Machine} {r : Reg} (hr : Ready home v fp p p₁ m m₁)
    (hall : allocatableRegs.contains r = true) (h : spillLocal p₁ r = some p') :
    ∃ m', Ready home v fp p p' m m' := by
  have hs := (shrinks_spillLocal hr.tracks.kept hall h).1
  obtain ⟨m', hem, ht, -⟩ := tracks_spillLocal hr.tracks hall h
  have hsame : ∀ t, Owned p₁ t → p'.ctx.temp t = p₁.ctx.temp t :=
    fun t ht => temp_spillLocal h ht
  refine ⟨m', hr.shrinks.trans hs, ht, hr.emits.trans hem, ?_, ?_,
    fun t => (tyOf_spillLocal h t).trans (hr.ty t), ?_⟩
  · intro t hkind temp htemp
    rw [hs.kind] at hkind
    rw [hsame t (.inl hkind)] at htemp
    exact hr.coherent t hkind temp htemp
  · intro t hown
    rw [← hr.owned t hown]
    simp only [books, hsame t (hr.shrinks.owned.mpr hown)]
  · intro t hlive
    exact live_spillLocal h (hr.live t hlive)

/-- The state before the arguments are loaded. -/
theorem ready_spills {p₁ p₂ : Pass} (ht : Tracks home v fp p m) (h₁ : syncGlobals p = some p₁)
    (h₂ : callerSaved.foldlM spillLocal p₁ = some p₂) :
    (∃ m₂, Ready home v fp p p₂ m m₂) ∧
      ∀ r ∈ callerSaved, ∀ t, (books p₂).occupant r = some t → Owned p₂ t := by
  have hready := ready_syncGlobals ht h₁
  refine ⟨foldlM_invariant (fun q => ∃ m', Ready home v fp p q m m') hready ?_ h₂, ?_⟩
  · intro r hr q q' hq hstep
    obtain ⟨m', hq⟩ := hq
    exact hq.spillLocal (callerSaved_allocatable hr) hstep
  · obtain ⟨m₁, hready⟩ := hready
    exact (shrinks_foldlM (fun r q => ∀ t, (books q).occupant r = some t → Owned q t)
      hready.tracks.kept
      (fun r hr q q' hq hstep => shrinks_spillLocal hq.kept (callerSaved_allocatable hr) hstep)
      (fun r q q' hq hs hP t ht => hs.owned.mpr (hP t (hs.occupant hq ht))) h₂).2

/-! ## The argument moves -/

/-- Registers that a call keeps. -/
def Saved (r : Reg) : Prop := r ∉ callerSaved

theorem argReg_callerSaved : ∀ i < 6, argReg i ∈ callerSaved := by decide

theorem argReg_injective : ∀ i < 6, ∀ j < 6, argReg i = argReg j → i = j := by decide

theorem reserved_saved {r : Reg} (h : allocatableRegs.contains r = false) : Saved r := by
  intro hr
  rw [callerSaved_allocatable hr] at h
  cases h

theorem okFixed_saved (hk : Kept home p) : OkFixed Saved p.ctx := by
  intro t temp r htemp hkind hr
  have hsome := (hk.home_fixed t).mpr (by rw [kindOf, htemp, Option.map_some, hkind])
  obtain ⟨r', hr'⟩ := Option.isSome_iff_exists.mp hsome
  have hplace := hk.fixed t r' hr'
  rw [place_of_temp htemp, hr] at hplace
  injection hplace with hplace
  exact reserved_saved (hplace ▸ hk.home_reserved t r' hr')

/-- Writing a caller-saved register. -/
theorem Holds.clobber {ctx : Context} {r : Reg} {x : BitVec 64} (hp : Placed v fp ctx)
    (hh : Holds v fp Saved ctx m) (hr : r ∈ callerSaved) :
    Holds v fp Saved ctx (m.setReg r x) where
  reg t temp r' ht hr' hok := by
    rw [Machine.regs_setReg, if_neg]
    · exact hh.reg t temp r' ht hr' hok
    · intro heq
      exact hok (heq ▸ hr)
  cell := hh.cell
  const := hh.const
  frame r' hr' := by
    rw [Machine.regs_setReg, if_neg]
    · exact hh.frame r' hr'
    · intro heq
      exact reserved_saved (hp.frame r' hr').1 (heq ▸ hr)

/-- One argument: it is read where its temp is, and only its register changes. -/
theorem loadArg_spec {t : Nat} {temp : Temp} {target : Reg} (hp : Placed v fp p.ctx)
    (hh : Holds v fp Saved p.ctx m) (hok : OkFixed Saved p.ctx) (htarget : target ∈ callerSaved)
    (htemp : p.ctx.temp t = some temp) (hlive : temp.valType ≠ .dead)
    (h : loadArg p t target = some p') :
    p'.ctx = p.ctx ∧ ∃ m', Emits p p' m m' ∧ Holds v fp Saved p.ctx m' ∧
      (∀ r, r ≠ target → m'.regs r = m.regs r) ∧
      (∀ src, temp.reg = some src → temp.valType = .reg →
        trunc temp.ty (m'.regs target) = trunc temp.ty (m.regs src)) ∧
      (temp.valType ≠ .reg → trunc temp.ty (m'.regs target) = trunc temp.ty (v t)) := by
  -- an instruction that writes the target
  have hwrite : ∀ insn x, p' = p.emit insn → m.exec insn = m.setReg target x →
      p'.ctx = p.ctx ∧ ∃ m', Emits p p' m m' ∧ Holds v fp Saved p.ctx m' ∧
        (∀ r, r ≠ target → m'.regs r = m.regs r) ∧ m'.regs target = x := by
    intro insn x hp' hexec
    refine ⟨by rw [hp']; rfl, m.setReg target x, ?_, Holds.clobber hp hh htarget, ?_, ?_⟩
    · rw [hp', ← hexec]
      exact Emits.emit p insn m
    · intro r hr
      rw [Machine.regs_setReg, if_neg hr]
    · rw [Machine.regs_setReg, if_pos rfl]
  obtain ⟨temp', htemp', h⟩ := Option.bind_eq_some_iff.mp h
  rw [htemp] at htemp'
  cases htemp'
  split at h
  · rename_i hval
    obtain ⟨src, hsrc, h⟩ := Option.bind_eq_some_iff.mp h
    split at h
    · rename_i hne
      injection h with h
      obtain ⟨hctx, m', hem, hh', hother, hx⟩ :=
        hwrite (.mov temp.ty target src) (trunc temp.ty (m.regs src)) h.symm
          (by simp [Machine.exec, Ne.symm hne])
      refine ⟨hctx, m', hem, hh', hother, ?_, fun hnot => absurd hval hnot⟩
      intro src' hsrc' _
      rw [hsrc] at hsrc'
      cases hsrc'
      rw [hx, trunc_trunc]
    · rename_i heq
      injection h with h
      rw [← h]
      refine ⟨rfl, m, Emits.refl p m, hh, fun _ _ => rfl, ?_, fun hnot => absurd hval hnot⟩
      intro src' hsrc' _
      rw [hsrc] at hsrc'
      cases hsrc'
      rw [Decidable.not_not.mp heq]
  · rename_i hval
    injection h with h
    obtain ⟨hctx, m', hem, hh', hother, hx⟩ :=
      hwrite (.movi temp.ty target temp.val) (trunc temp.ty temp.val) h.symm rfl
    refine ⟨hctx, m', hem, hh', hother, fun _ _ hreg => ?_, fun _ => ?_⟩
    · rw [hval] at hreg
      cases hreg
    · rw [hx, trunc_trunc]
      exact hh.const t temp htemp hval
  · rename_i hval
    obtain ⟨c, hc⟩ := Option.isSome_iff_exists.mp (hp.resident t temp htemp hval)
    obtain ⟨base, hbase, hp'⟩ := loadFromMem_emit hp hh hok htemp hc h
    obtain ⟨hctx, m', hem, hh', hother, hx⟩ :=
      hwrite (.ld temp.ty target base temp.memOffset) (trunc temp.ty (m.mem c.1 c.2)) hp'
        (by rw [Machine.exec, hbase.1, hbase.2])
    refine ⟨hctx, m', hem, hh', hother, fun _ _ hreg => ?_, fun _ => ?_⟩
    · rw [hval] at hreg
      cases hreg
    · rw [hx, trunc_trunc]
      exact hh.cell t temp c htemp (.inl hval) hc
  · rename_i hval
    exact absurd hval hlive

/-- The round of the argument loop for input `i`. -/
def loadInputArg (op : Op) (q : Pass) (i : Nat) : Option Pass :=
  loadArg q (input op i) (argReg i)

/-- The inputs of a call exist and have a value. -/
def InputsLive (p : Pass) (op : Op) : Prop := ∀ i < 6, Live p (input op i)

instance (p : Pass) (op : Op) : Decidable (InputsLive p op) :=
  inferInstanceAs (Decidable (∀ i < 6, Live p (input op i)))

/-- Loading arguments keeps the context and every register but theirs. -/
theorem load_others {op : Op} {l : List Nat} (hp : Placed v fp p.ctx)
    (hh : Holds v fp Saved p.ctx m) (hok : OkFixed Saved p.ctx) (hlive : InputsLive p op)
    (hl : ∀ i ∈ l, i < 6) (h : l.foldlM (loadInputArg op) p = some p') :
    p'.ctx = p.ctx ∧ ∃ m', Emits p p' m m' ∧ Holds v fp Saved p.ctx m' ∧
      ∀ r, (∀ i ∈ l, r ≠ argReg i) → m'.regs r = m.regs r := by
  refine foldlM_invariant (fun q => q.ctx = p.ctx ∧ ∃ m', Emits p q m m' ∧
    Holds v fp Saved p.ctx m' ∧ ∀ r, (∀ i ∈ l, r ≠ argReg i) → m'.regs r = m.regs r)
    ⟨rfl, m, Emits.refl p m, hh, fun _ _ => rfl⟩ ?_ h
  intro i hi q q' ⟨hctx, m₁, hem₁, hh₁, hregs₁⟩ hstep
  obtain ⟨temp, htemp, hval⟩ := hlive i (hl i hi)
  obtain ⟨hctx', m₂, hem₂, hh₂, hother, -⟩ := loadArg_spec (hctx ▸ hp) (hctx ▸ hh₁)
    (hctx ▸ hok) (argReg_callerSaved i (hl i hi)) (hctx ▸ htemp) hval hstep
  refine ⟨hctx'.trans hctx, m₂, hem₁.trans hem₂, hctx ▸ hh₂, ?_⟩
  intro r hr
  rw [hother r (hr i hi), hregs₁ r hr]

/-- The first `k` arguments arrive, if none of them is in the register of an earlier one. -/
theorem load_prefix {op : Op} {k : Nat} (hk : k ≤ 6) (hs : Sound p) (hp : Placed v fp p.ctx)
    (hh : Holds v fp (fun _ => True) p.ctx m) (hok : OkFixed Saved p.ctx)
    (hlive : InputsLive p op)
    (hclear : ∀ j < k, ∀ i < j, (books p).place (input op j) = some (argReg i) →
      input op i = input op j)
    (h : (List.range k).foldlM (loadInputArg op) p = some p') :
    p'.ctx = p.ctx ∧ ∃ m', Emits p p' m m' ∧ Holds v fp Saved p.ctx m' ∧
      (∀ r, (∀ i < k, r ≠ argReg i) → m'.regs r = m.regs r) ∧
      ∀ j < k, ∀ temp, p.ctx.temp (input op j) = some temp →
        trunc temp.ty (m'.regs (argReg j)) = trunc temp.ty (v (input op j)) := by
  have hsaved : Holds v fp Saved p.ctx m :=
    ⟨fun t temp r ht hr _ => hh.reg t temp r ht hr trivial, hh.cell, hh.const, hh.frame⟩
  refine foldlM_range (fun n q => q.ctx = p.ctx ∧ ∃ m', Emits p q m m' ∧
      Holds v fp Saved p.ctx m' ∧ (∀ r, (∀ i < n, r ≠ argReg i) → m'.regs r = m.regs r) ∧
      ∀ j < n, ∀ temp, p.ctx.temp (input op j) = some temp →
        trunc temp.ty (m'.regs (argReg j)) = trunc temp.ty (v (input op j)))
    ⟨rfl, m, Emits.refl p m, hsaved, fun _ _ => rfl, fun j hj => absurd hj (Nat.not_lt_zero j)⟩
    ?_ h
  intro n hn q q' ⟨hctx, m₁, hem₁, hh₁, hregs₁, hargs₁⟩ hstep
  have hn6 : n < 6 := Nat.lt_of_lt_of_le hn hk
  obtain ⟨temp, htemp, hval⟩ := hlive n hn6
  obtain ⟨hctx', m₂, hem₂, hh₂, hother, hreg, hmem⟩ := loadArg_spec (hctx ▸ hp) (hctx ▸ hh₁)
    (hctx ▸ hok) (argReg_callerSaved n hn6) (hctx ▸ htemp) hval hstep
  refine ⟨hctx'.trans hctx, m₂, hem₁.trans hem₂, hctx ▸ hh₂, ?_, ?_⟩
  · intro r hr
    rw [hother r (hr n (Nat.lt_succ_self n)),
      hregs₁ r (fun i hi => hr i (Nat.lt_succ_of_lt hi))]
  · intro j hj temp' htemp'
    rcases Nat.lt_succ_iff_lt_or_eq.mp hj with hj | rfl
    · -- an earlier argument keeps its register
      rw [hother]
      · exact hargs₁ j hj temp' htemp'
      · intro heq
        have := argReg_injective j (by omega) n hn6 heq
        omega
    · rw [htemp] at htemp'
      cases htemp'
      by_cases hvreg : temp.valType = .reg
      · obtain ⟨src, hsrc⟩ := Option.isSome_iff_exists.mp ((hs.located _ temp htemp).mp hvreg)
        rw [hreg src hsrc hvreg]
        by_cases hfree : ∀ i < j, src ≠ argReg i
        · rw [hregs₁ src hfree]
          exact hh.reg _ temp src htemp hsrc trivial
        · -- the source was overwritten, by the same temp
          push Not at hfree
          obtain ⟨i, hi, hsrci⟩ := hfree
          have hsame := hclear j hn i hi (by rw [place_of_temp htemp, hsrc, hsrci])
          rw [hsrci, ← hsame]
          exact hargs₁ i hi temp (hsame ▸ htemp)
      · exact hmem hvreg

/-! ## From the last argument to the call -/

/-- The state while the dead arguments and the clobbered registers are given up: the registers
that the call keeps can be trusted, and every global is in memory. -/
structure Leaving (home : Nat → Option Reg) (v : Nat → BitVec 64) (fp : BitVec 64) (m : Machine)
    (p : Pass) : Prop where
  kept : Kept home p
  placed : Placed v fp p.ctx
  holds : Holds v fp Saved p.ctx m
  coherent : ∀ t, kindOf p t = some .global → Coherent p t

theorem tempDeadInput_cases {t : Nat} (h : tempDeadInput p t = some p') :
    p' = p ∨ (¬ Owned p t ∧ p'.ctx = p.ctx.modTemp t Temp.toDead ∧ p'.buf = p.buf) := by
  obtain ⟨temp, htemp, h⟩ := Option.bind_eq_some_iff.mp h
  have hown := isGlobalOrFixed_iff htemp
  split at h
  · injection h with h
    exact .inl h.symm
  · rename_i hnot
    right
    refine ⟨fun ho => hnot (hown.mpr ho), ?_⟩
    split at h
    · split at h
      · injection h with h
        rw [← h]
        exact ⟨rfl, rfl⟩
      · injection h with h
        rw [← h]
        exact ⟨rfl, rfl⟩
    · injection h with h
      rw [← h]
      exact ⟨rfl, rfl⟩

theorem live_modTemp {t u : Nat} {f : Temp → Temp} (hctx : p'.ctx = p.ctx.modTemp t f)
    (hf : u = t → ∀ x, (f x).valType ≠ .dead) (hu : Live p u) : Live p' u := by
  obtain ⟨temp, htemp, hval⟩ := hu
  rw [Live, hctx, temp_modTemp]
  split
  · rename_i heq
    rw [← heq, htemp]
    exact ⟨_, rfl, hf heq temp⟩
  · exact ⟨temp, htemp, hval⟩

theorem Leaving.tempDeadInput {t : Nat} (hl : Leaving home v fp m p)
    (h : tempDeadInput p t = some p') : Leaving home v fp m p' ∧ p'.buf = p.buf ∧
      ∀ u, Live p u → (u = t → Owned p t) → Live p' u := by
  have hs := (shrinks_tempDeadInput hl.kept h).1
  rcases tempDeadInput_cases h with rfl | ⟨hown, hctx, hbuf⟩
  · exact ⟨hl, rfl, fun _ hu _ => hu⟩
  · refine ⟨⟨hs.kept, ?_, ?_, ?_⟩, hbuf, ?_⟩
    · rw [hctx]
      apply hl.placed.modTemp t
      intro x hx
      refine ⟨⟨rfl, rfl, rfl, rfl, rfl⟩, .inr ⟨?_, fun _ h => (by cases h), fun h => by cases h⟩⟩
      intro hfix
      exact absurd (.inr (by rw [kindOf, hx, Option.map_some, hfix])) hown
    · rw [hctx]
      apply hl.holds.modTemp t
      intro x _
      refine ⟨fun _ h => (by cases h), ?_, fun h => by cases h⟩
      rintro (hval | ⟨hval, -⟩) <;> cases hval
    · intro u hkind temp htemp
      rw [hs.kind] at hkind
      rw [hctx] at htemp
      rcases temp_cases htemp with ⟨-, htemp⟩ | ⟨rfl, -⟩
      · exact hl.coherent u hkind temp htemp
      · exact absurd (.inl hkind) hown
    · intro u hu hut
      by_cases heq : u = t
      · exact absurd (hut heq) hown
      · exact live_modTemp hctx (fun h => absurd h heq) hu

theorem Leaving.freeDeadArgs {op : Op} (hop : op.opc = .call) (hl : Leaving home v fp m p)
    (h : (List.range 6).foldlM (freeDeadArg op) p = some p') :
    Leaving home v fp m p' ∧ Shrinks home p p' ∧ p'.buf = p.buf ∧
      ∀ u, Live p u → ¬ DiesHere p op u → Live p' u := by
  refine foldlM_invariant (fun q => Leaving home v fp m q ∧ Shrinks home p q ∧ q.buf = p.buf ∧
      ∀ u, Live p u → ¬ DiesHere p op u → Live q u)
    ⟨hl, Shrinks.refl hl.kept, rfl, fun _ hu _ => hu⟩ ?_ h
  intro i hi q q' ⟨hq, hs, hbuf, hlive⟩ hstep
  rw [freeDeadArg, hop] at hstep
  split at hstep
  · rename_i hdead
    obtain ⟨hq', hbuf', hlive'⟩ := hq.tempDeadInput hstep
    refine ⟨hq', hs.trans (shrinks_tempDeadInput hq.kept hstep).1, hbuf'.trans hbuf, ?_⟩
    intro u hu hdies
    apply hlive' u (hlive u hu hdies)
    intro heq
    by_contra hown
    refine hdies ⟨?_, i, List.mem_range.mp hi, heq.symm, hdead⟩
    rw [heq]
    exact fun ho => hown (hs.owned.mpr ho)
  · injection hstep with hstep
    rw [← hstep]
    exact ⟨hq, hs, hbuf, hlive⟩

/-- A clobbered global is still in memory. -/
theorem Leaving.clobberReg {r : Reg} (hl : Leaving home v fp m p) (hr : r ∈ callerSaved)
    (hocc : ∀ t, (books p).occupant r = some t → Owned p t) (h : clobberReg p r = some p') :
    Leaving home v fp m p' ∧ p'.buf = p.buf ∧ ∀ u, Live p u → Live p' u := by
  have hall := callerSaved_allocatable hr
  have hs := (shrinks_clobberReg hl.kept hall hocc h).1
  rw [RegAlloc.clobberReg] at h
  split at h
  · injection h with h
    rw [← h]
    exact ⟨hl, rfl, fun _ hu => hu⟩
  · rename_i t hoccr
    obtain ⟨temp, htemp, h⟩ := Option.bind_eq_some_iff.mp h
    rw [if_pos ((isGlobalOrFixed_iff htemp).mpr (hocc t hoccr))] at h
    injection h with h
    have hctx : p'.ctx = p.ctx.modTemp t Temp.toMem := by
      rw [← h]
      rfl
    -- no Fixed temp is in a caller-saved register
    have hglobal : kindOf p t = some .global := by
      rcases hocc t hoccr with hg | hfix
      · exact hg
      · have hsome := (hl.kept.home_fixed t).mpr hfix
        rw [hl.kept.home_none hall hoccr] at hsome
        cases hsome
    have hkind : ∀ x, p.ctx.temp t = some x → x.kind = .global := by
      intro x hx
      rw [kindOf, hx] at hglobal
      injection hglobal
    refine ⟨⟨hs.kept, ?_, ?_, ?_⟩, by rw [← h]; rfl, ?_⟩
    · rw [hctx]
      apply hl.placed.modTemp t
      intro x hx
      refine ⟨⟨rfl, rfl, rfl, rfl, rfl⟩, .inr ⟨?_, fun _ h => (by cases h), fun _ => ?_⟩⟩
      · intro hfix
        rw [hkind x hx] at hfix
        cases hfix
      · obtain ⟨b, hb⟩ := Option.isSome_iff_exists.mp ((hl.placed.based t x hx).mpr (hkind x hx))
        rw [cellOf, hb]
        rfl
    · rw [hctx]
      apply hl.holds.modTemp t
      intro x hx
      refine ⟨fun _ h => (by cases h), fun _ c hc => ?_, fun h => by cases h⟩
      have hplace := (hl.kept.consistent r t).mp hoccr
      rw [place_of_temp hx] at hplace
      have hval : x.valType = .reg :=
        (hl.kept.sound.located t x hx).mpr (by rw [hplace]; rfl)
      exact hl.holds.cell t x c hx (.inr ⟨hval, hl.coherent t hglobal x hx hval⟩) hc
    · intro u hku temp' htemp'
      rw [hs.kind] at hku
      rw [hctx] at htemp'
      rcases temp_cases htemp' with ⟨-, htemp'⟩ | ⟨-, x, -, rfl⟩
      · exact hl.coherent u hku temp' htemp'
      · intro hval
        cases hval
    · intro u hu
      exact live_modTemp hctx (fun _ _ h => by cases h) hu

/-- After the clobbers no temp is in a caller-saved register. -/
theorem Leaving.clobberRegs (hl : Leaving home v fp m p)
    (hlocal : ∀ r ∈ callerSaved, ∀ t, (books p).occupant r = some t → Owned p t)
    (h : callerSaved.foldlM RegAlloc.clobberReg p = some p') :
    Leaving home v fp m p' ∧ p'.buf = p.buf ∧ (∀ u, Live p u → Live p' u) ∧
      ∀ r ∈ callerSaved, (books p').occupant r = none := by
  have howned : ∀ r ∈ callerSaved, ∀ q, Shrinks home p q → ∀ t, (books q).occupant r = some t →
      Owned q t := by
    intro r hr q hs t ht
    exact hs.owned.mpr (hlocal r hr t (hs.occupant hl.kept ht))
  have hempty := (shrinks_foldlM (fun r q => (books q).occupant r = none) hl.kept
    (fun r hr q q' hq hstep =>
      shrinks_clobberReg hq.kept (callerSaved_allocatable hr) (howned r hr q hq) hstep)
    (fun r q q' hq hs hP => by
      cases hocc : (books q').occupant r with
      | none => rfl
      | some t => rw [hs.occupant hq hocc] at hP; cases hP) h).2
  have hrest : Shrinks home p p' ∧ Leaving home v fp m p' ∧ p'.buf = p.buf ∧
      ∀ u, Live p u → Live p' u := by
    refine foldlM_invariant (fun q => Shrinks home p q ∧ Leaving home v fp m q ∧ q.buf = p.buf ∧
      ∀ u, Live p u → Live q u) ⟨Shrinks.refl hl.kept, hl, rfl, fun _ hu => hu⟩ ?_ h
    intro r hr q q' ⟨hs, hq, hbuf, hlive⟩ hstep
    have hs' := (shrinks_clobberReg hq.kept (callerSaved_allocatable hr) (howned r hr q hs) hstep).1
    obtain ⟨hq', hbuf', hlive'⟩ := hq.clobberReg hr (howned r hr q hs) hstep
    exact ⟨hs.trans hs', hq', hbuf'.trans hbuf, fun u hu => hlive' u (hlive u hu)⟩
  exact ⟨hrest.2.1, hrest.2.2.1, hrest.2.2.2, hempty⟩

/-- What is readable once the helper has returned. -/
theorem Leaving.readable {m' : Machine} (hl : Leaving home v fp m p)
    (hempty : ∀ r ∈ callerSaved, (books p).occupant r = none)
    (hregs : ∀ r, r ∉ callerSaved → m'.regs r = m.regs r) {t : Nat} {temp : Temp}
    (htemp : p.ctx.temp t = some temp) (hlive : temp.valType ≠ .dead)
    (hhome : ∀ c, cellOf v fp temp = some c → m'.mem c.1 c.2 = m.mem c.1 c.2) :
    Readable v fp p.ctx m' t (v t) := by
  refine ⟨temp, htemp, ?_⟩
  cases hval : temp.valType with
  | dead => exact absurd hval hlive
  | const => exact hl.holds.const t temp htemp hval
  | reg =>
    obtain ⟨r, hr⟩ :=
      Option.isSome_iff_exists.mp ((hl.kept.sound.located t temp htemp).mp hval)
    have hsaved : Saved r := by
      intro hmem
      have hocc := (hl.kept.consistent r t).mpr (by rw [place_of_temp htemp, hr])
      rw [hempty r hmem] at hocc
      cases hocc
    refine ⟨r, hr, ?_⟩
    rw [hregs r hsaved]
    exact hl.holds.reg t temp r htemp hr hsaved
  | mem =>
    obtain ⟨c, hc⟩ := Option.isSome_iff_exists.mp (hl.placed.resident t temp htemp hval)
    refine ⟨c, hc, ?_⟩
    rw [hhome c hc]
    exact hl.holds.cell t temp c htemp (.inl hval) hc

/-! ## The whole op -/

theorem temp_tempDeadIf {d : Bool} {t u : Nat} (h : tempDeadIf d p t = some p') (hu : u ≠ t) :
    p'.ctx.temp u = p.ctx.temp u ∧ p'.buf = p.buf := by
  rw [tempDeadIf] at h
  split at h
  · obtain ⟨temp, -, h⟩ := Option.bind_eq_some_iff.mp h
    split at h
    · injection h with h
      rw [h]
      exact ⟨rfl, rfl⟩
    · split at h
      · injection h with h
        rw [← h]
        exact ⟨(temp_modTemp _ t u _).trans (if_neg hu), rfl⟩
      · injection h with h
        rw [← h]
        exact ⟨(temp_modTemp _ t u _).trans (if_neg hu), rfl⟩
  · injection h with h
    rw [h]
    exact ⟨rfl, rfl⟩

/-- The phases of a call. -/
theorem regallocCall_phases {op : Op} (hop : op.opc = .call)
    (h : regallocCall p op (opConstraint op.opc) = some p') :
    ∃ p₁ p₂ p₃ p₄ p₅, syncGlobals p = some p₁ ∧ callerSaved.foldlM spillLocal p₁ = some p₂ ∧
      (List.range 6).foldlM (loadInputArg op) p₂ = some p₃ ∧
      (List.range 6).foldlM (freeDeadArg op) p₃ = some p₄ ∧
      callerSaved.foldlM RegAlloc.clobberReg p₄ = some p₅ ∧
      p'.buf = p₅.buf ++ [.op .call op.opType [.rax] argRegs op.cargs] ∧
      ∀ t, t ≠ op.args 0 → p'.ctx.temp t = p₅.ctx.temp t := by
  obtain ⟨p₁, h₁, h⟩ := Option.bind_eq_some_iff.mp h
  obtain ⟨p₂, h₂, h⟩ := Option.bind_eq_some_iff.mp h
  obtain ⟨targets, htargets, h⟩ := Option.bind_eq_some_iff.mp h
  obtain ⟨p₃, h₃, h⟩ := Option.bind_eq_some_iff.mp h
  obtain ⟨p₄, h₄, h⟩ := Option.bind_eq_some_iff.mp h
  obtain ⟨p₅, h₅, h⟩ := Option.bind_eq_some_iff.mp h
  obtain ⟨outReg, hout, h⟩ := Option.bind_eq_some_iff.mp h
  obtain ⟨p₆, h₆, hlast⟩ := Option.bind_eq_some_iff.mp h
  rw [hop] at htargets hout h₄
  have htargets : targets = argRegs := by
    injection htargets with htargets
    exact htargets.symm
  injection hout with hout
  subst htargets hout
  have hargs : op.iargs.zip argRegs = (List.range 6).map fun i => (input op i, argReg i) := by
    rw [Op.iargs, hop]
    rfl
  rw [hargs, List.foldlM_map] at h₃
  refine ⟨p₁, p₂, p₃, p₄, p₅, h₁, h₂, h₃, h₄, h₅, ?_, ?_⟩
  all_goals
    obtain ⟨temp, -, h₆⟩ := Option.bind_eq_some_iff.mp h₆
    injection h₆ with h₆
  · obtain ⟨u, hu⟩ : ∃ u, u ≠ op.args 0 := ⟨op.args 0 + 1, Nat.succ_ne_self _⟩
    rw [(temp_tempDeadIf hlast hu).2, ← h₆, ← hop]
    rfl
  · intro t ht
    rw [(temp_tempDeadIf hlast ht).1, ← h₆]
    exact (temp_modTemp _ _ t _).trans (if_neg ht)

/-! ## Machines that fit a state -/

/-- The two assignments agree on the Fixed temps, which hold the pointers. -/
def SamePointers (p : Pass) (v w : Nat → BitVec 64) : Prop :=
  ∀ t, kindOf p t = some .fixed → w t = v t

theorem SamePointers.cellOf {w : Nat → BitVec 64} (hw : SamePointers p v w)
    (hp : Placed v fp p.ctx) {t : Nat} {temp : Temp} (ht : p.ctx.temp t = some temp) :
    RegValues.cellOf w fp temp = RegValues.cellOf v fp temp := by
  unfold RegValues.cellOf
  cases hb : temp.memBase with
  | none => rfl
  | some b =>
    obtain ⟨-, bt, r, hbt, hkind, -⟩ := hp.base t temp b ht hb
    dsimp only
    rw [hw b (by rw [kindOf, hbt, Option.map_some, hkind])]

theorem SamePointers.placed {w : Nat → BitVec 64} (hw : SamePointers p v w)
    (hp : Placed v fp p.ctx) : Placed w fp p.ctx where
  base t temp b ht hb := by
    obtain ⟨hne, bt, r, hbt, hkind, hrest⟩ := hp.base t temp b ht hb
    refine ⟨?_, bt, r, hbt, hkind, hrest⟩
    rw [hw b (by rw [kindOf, hbt, Option.map_some, hkind])]
    exact hne
  frame := hp.frame
  based := hp.based
  front := hp.front
  resident t temp ht hval := by
    rw [hw.cellOf hp ht]
    exact hp.resident t temp ht hval
  slot := hp.slot
  distinct t u temp temp' c ht hu hc hc' := by
    rw [hw.cellOf hp ht] at hc
    rw [hw.cellOf hp hu] at hc'
    exact hp.distinct t u temp temp' c ht hu hc hc'

open Classical in
/-- The machine in which every temp has its value in its register and in its home. -/
noncomputable def fit (p : Pass) (w : Nat → BitVec 64) (fp : BitVec 64) : Machine where
  regs r := if p.ctx.frameReg = some r then fp else ((books p).occupant r).elim 0 w
  mem b o := if h : ∃ t temp, p.ctx.temp t = some temp ∧ cellOf w fp temp = some (b, o) then
      w h.choose else 0

theorem holds_fit {w : Nat → BitVec 64} (hT : (books p).Consistent) (hp : Placed w fp p.ctx)
    (hconst : ∀ t temp, p.ctx.temp t = some temp → temp.valType = .const → w t = temp.val) :
    Holds w fp (fun _ => True) p.ctx (fit p w fp) where
  reg t temp r ht hr _ := by
    have hocc := (hT r t).mpr (by rw [place_of_temp ht, hr])
    have hframe : p.ctx.frameReg ≠ some r := fun hf => (hp.frame r hf).2 t temp ht hr
    simp [fit, hocc, hframe]
  cell t temp c ht _ hc := by
    have hex : ∃ t temp, p.ctx.temp t = some temp ∧ cellOf w fp temp = some (c.1, c.2) :=
      ⟨t, temp, ht, hc⟩
    obtain ⟨temp', ht', hc'⟩ := hex.choose_spec
    have heq := hp.distinct _ t temp' temp (c.1, c.2) ht' ht hc' hc
    simp only [fit, dif_pos hex, heq]
  const t temp ht hval := by rw [hconst t temp ht hval]
  frame r hr := by simp [fit, hr]

/-- Values for the temps: constants have their own, pointers those of `v`, and the others are
free. -/
def choose (p : Pass) (v x : Nat → BitVec 64) (t : Nat) : BitVec 64 :=
  match p.ctx.temp t with
  | none => 0
  | some temp => if temp.valType = .const then temp.val
                 else if temp.kind = .fixed then v t else x t

theorem samePointers_choose (hk : Kept home p) (x : Nat → BitVec 64) :
    SamePointers p v (choose p v x) := by
  intro t hkind
  obtain ⟨temp, htemp, hfix⟩ := Option.map_eq_some_iff.mp hkind
  obtain ⟨r, hr⟩ := Option.isSome_iff_exists.mp ((hk.home_fixed t).mpr hkind)
  have hplace := hk.fixed t r hr
  rw [place_of_temp htemp] at hplace
  have hval : temp.valType = .reg := (hk.sound.located t temp htemp).mpr (by rw [hplace]; rfl)
  simp [choose, htemp, hval, hfix]

theorem holds_choose (hk : Kept home p) (hp : Placed v fp p.ctx) (x : Nat → BitVec 64) :
    Holds (choose p v x) fp (fun _ => True) p.ctx (fit p (choose p v x) fp) := by
  apply holds_fit hk.consistent ((samePointers_choose hk x).placed hp)
  intro t temp ht hval
  simp [choose, ht, hval]

/-! ## When a call is marshalled correctly -/

/-- The machine at the call, from the code before the call instruction. -/
theorem atCall_eq {q : Pass} {m' : Machine} {insn : HostInsn} (h : Emits p q m m')
    (hbuf : p'.buf = q.buf ++ [insn]) :
    p'.buf = p.buf ++ (p'.buf.drop p.buf.length).dropLast ++ [insn] ∧ atCall p p' m = m' := by
  obtain ⟨code, hcode, hm'⟩ := h
  have hdrop : (p'.buf.drop p.buf.length).dropLast = code := by
    rw [hbuf, hcode, List.append_assoc, List.drop_left, List.dropLast_concat]
  rw [atCall, hdrop]
  exact ⟨by rw [hbuf, hcode], hm'.symm⟩

section

variable {op : Op} {p₁ p₂ p₃ p₄ p₅ : Pass}

/-- An argument in the register of an earlier one is a global, which was there before the op. -/
theorem Ready.clobbered {m₂ : Machine} (hr : Ready home v fp p p₂ m m₂)
    (hlocal : ∀ r ∈ callerSaved, ∀ t, (books p₂).occupant r = some t → Owned p₂ t) {i t : Nat}
    (hi : i < 6) : (books p₂).place t = some (argReg i) ↔
      kindOf p t = some .global ∧ (books p).place t = some (argReg i) := by
  have hmem := argReg_callerSaved i hi
  constructor
  · intro hplace
    have hocc := (hr.tracks.kept.consistent _ _).mpr hplace
    refine ⟨?_, hr.shrinks.place _ _ hplace⟩
    rcases hr.shrinks.owned.mp (hlocal _ hmem _ hocc) with hg | hfix
    · exact hg
    · rw [← hr.shrinks.kind] at hfix
      have hsome := (hr.tracks.kept.home_fixed _).mpr hfix
      rw [hr.tracks.kept.home_none (callerSaved_allocatable hmem) hocc] at hsome
      cases hsome
  · intro ⟨hg, hplace⟩
    rw [hr.owned t (.inl hg), hplace]

/-- The machine at the call, and the state just before it. -/
theorem leaving_call (hop : op.opc = .call) (hk : Kept home p) (hp : Placed v fp p.ctx)
    (hh : Holds v fp (fun _ => True) p.ctx m) (hlive : InputsLive p op)
    (h₁ : syncGlobals p = some p₁) (h₂ : callerSaved.foldlM spillLocal p₁ = some p₂)
    (h₃ : (List.range 6).foldlM (loadInputArg op) p₂ = some p₃)
    (h₄ : (List.range 6).foldlM (freeDeadArg op) p₃ = some p₄)
    (h₅ : callerSaved.foldlM RegAlloc.clobberReg p₄ = some p₅) :
    ∃ m₂ m₃, Ready home v fp p p₂ m m₂ ∧ Emits p₂ p₃ m₂ m₃ ∧ Emits p p₅ m m₃ ∧
      Leaving home v fp m₃ p₅ ∧ (∀ r ∈ callerSaved, (books p₅).occupant r = none) ∧
      ∀ t, Live p t → ¬ DiesHere p op t → Live p₅ t := by
  obtain ⟨⟨m₂, hr⟩, hlocal⟩ := ready_spills ⟨hk, hp, hh⟩ h₁ h₂
  have hlive₂ : InputsLive p₂ op := fun i hi => hr.live _ (hlive i hi)
  have hsaved : Holds v fp Saved p₂.ctx m₂ :=
    ⟨fun t temp r ht hreg _ => hr.tracks.holds.reg t temp r ht hreg trivial,
      hr.tracks.holds.cell, hr.tracks.holds.const, hr.tracks.holds.frame⟩
  obtain ⟨hctx₃, m₃, hem₃, hh₃, -⟩ := load_others hr.tracks.placed hsaved
    (okFixed_saved hr.tracks.kept) hlive₂ (fun i hi => List.mem_range.mp hi) h₃
  have hlead₃ : Leads p₂ p₃ (books p₂) := by
    apply leads_foldlM hr.tracks.kept.sound _ h₃
    intro i _ q q' hq hstep
    exact leads_loadArg hq hstep
  have hs₃ := Shrinks.of_same hr.tracks.kept hlead₃
  have hl₃ : Leaving home v fp m₃ p₃ := by
    refine ⟨hs₃.kept, hctx₃ ▸ hr.tracks.placed, hctx₃ ▸ hh₃, ?_⟩
    intro t hkind temp htemp
    rw [hs₃.kind] at hkind
    exact hr.coherent t hkind temp (hctx₃ ▸ htemp)
  obtain ⟨hl₄, hs₄, hbuf₄, hlive₄⟩ := hl₃.freeDeadArgs hop h₄
  obtain ⟨hl₅, hbuf₅, hlive₅, hempty⟩ := hl₄.clobberRegs
    (fun r hmem t ht => (hs₃.trans hs₄).owned.mpr
      (hlocal r hmem t ((hs₃.trans hs₄).occupant hr.tracks.kept ht))) h₅
  refine ⟨m₂, m₃, hr, hem₃, ?_, hl₅, hempty, ?_⟩
  · obtain ⟨code, hcode, hm₃⟩ := hr.emits.trans hem₃
    exact ⟨code, by rw [hbuf₅, hbuf₄, hcode], hm₃⟩
  · intro t ht hdies
    apply hlive₅ t
    apply hlive₄ t
    · obtain ⟨temp, htemp, hval⟩ := hr.live t ht
      exact ⟨temp, hctx₃ ▸ htemp, hval⟩
    · intro hd
      exact hdies ⟨fun ho => hd.1 ((hr.shrinks.trans hs₃).owned.mpr ho), hd.2⟩

/-- Without clobbered arguments the call is correct, for all values. -/
theorem marshalled_of_noClobber (hop : op.opc = .call) (hk : Kept home p)
    (hp : Placed v fp p.ctx) (hlive : InputsLive p op) (hno : NoClobber p op)
    (h : regallocCall p op (opConstraint op.opc) = some p') : Marshalled v fp p p' op := by
  obtain ⟨p₁, p₂, p₃, p₄, p₅, h₁, h₂, h₃, h₄, h₅, hbuf, htemps⟩ := regallocCall_phases hop h
  refine ⟨?_, ?_, ?_⟩
  · -- the code does not depend on the values, so any will do
    have hw := samePointers_choose (v := v) hk fun _ => 0
    obtain ⟨-, m₃, -, -, hem, -⟩ := leaving_call hop hk (hw.placed hp) (holds_choose hk hp _)
      hlive h₁ h₂ h₃ h₄ h₅
    exact (atCall_eq hem hbuf).1
  · intro m hh i hi temp htemp
    obtain ⟨m₂, m₃, hr, hem₃, hem, -⟩ := leaving_call hop hk hp hh hlive h₁ h₂ h₃ h₄ h₅
    have hlocal := (ready_spills ⟨hk, hp, hh⟩ h₁ h₂).2
    obtain ⟨-, m', hem', -, -, hargs⟩ := load_prefix (Nat.le_refl 6) hr.tracks.kept.sound
      hr.tracks.placed hr.tracks.holds (okFixed_saved hr.tracks.kept)
      (fun i hi => hr.live _ (hlive i hi))
      (fun j hj i hi hplace => by
        obtain ⟨hg, hplace⟩ := (hr.clobbered hlocal (by omega)).mp hplace
        exact hno j hj i hi hg hplace) h₃
    rw [(atCall_eq hem hbuf).2, hem₃.unique hem']
    have hty := hr.ty (input op i)
    rw [tyOf, tyOf, htemp] at hty
    obtain ⟨temp₂, htemp₂, hty⟩ := Option.map_eq_some_iff.mp hty
    rw [← hty]
    exact hargs i hi temp₂ htemp₂
  · intro m m' hh hret t ht hout hdies
    obtain ⟨-, m₃, -, -, hem, hl, hempty, hlive₅⟩ :=
      leaving_call hop hk hp hh hlive h₁ h₂ h₃ h₄ h₅
    rw [(atCall_eq hem hbuf).2] at hret
    obtain ⟨temp, htemp, hval⟩ := hlive₅ t ht hdies
    have htemp' : p'.ctx.temp t = some temp := (htemps t hout).trans htemp
    obtain ⟨temp', ht', hread⟩ := hl.readable hempty hret.regs htemp hval
      (fun c hc => hret.homes t temp c htemp' hc)
    exact ⟨temp', (htemps t hout).trans ht', hread⟩

theorem range_split : ∀ j < 6, List.range 6 = List.range j ++ j :: List.range' (j + 1) (5 - j) := by
  decide

theorem complement_low (x : BitVec 64) : x.setWidth 32 ≠ (~~~x).setWidth 32 := by
  intro h
  have hbit := congrArg (fun y => y.getLsbD 0) h
  simp at hbit

/-- An argument that is clobbered arrives wrong, for some values. -/
theorem noClobber_of_marshalled (hop : op.opc = .call) (hk : Kept home p)
    (hp : Placed v fp p.ctx) (hlive : InputsLive p op)
    (h : regallocCall p op (opConstraint op.opc) = some p')
    (hall : ∀ w, SamePointers p v w → Marshalled w fp p p' op) : NoClobber p op := by
  obtain ⟨p₁, p₂, p₃, p₄, p₅, h₁, h₂, h₃, h₄, h₅, hbuf, -⟩ := regallocCall_phases hop h
  intro j
  -- the arguments before the first clobbered one arrive
  induction j using Nat.strong_induction_on with
  | _ j ih =>
    intro hj i hi hglobal hplace
    by_contra hne
    -- the earlier argument and the clobbered one get complementary values
    let base := choose p v (fun _ => 0) (input op i)
    let x : Nat → BitVec 64 := fun t => if t = input op j then ~~~base else 0
    have hw := samePointers_choose (v := v) hk x
    have hp' := hw.placed hp
    have hh := holds_choose (v := v) hk hp x
    have hwi : choose p v x (input op i) = base := by
      simp only [base, choose, x, if_neg hne]
    have hwj : choose p v x (input op j) = ~~~base := by
      obtain ⟨temp, htemp, hkind⟩ := Option.map_eq_some_iff.mp hglobal
      have hval : temp.valType = .reg := by
        apply (hk.sound.located _ temp htemp).mpr
        rw [← place_of_temp htemp, hplace]
        rfl
      simp [choose, htemp, hval, hkind, x]
    obtain ⟨m₂, m₃, hr, hem₃, hem, -⟩ := leaving_call hop hk hp' hh hlive h₁ h₂ h₃ h₄ h₅
    have hlocal := (ready_spills ⟨hk, hp', hh⟩ h₁ h₂).2
    have hlive₂ : InputsLive p₂ op := fun i hi => hr.live _ (hlive i hi)
    rw [range_split j hj] at h₃
    obtain ⟨q, hq, h₃⟩ := foldlM_prefix h₃
    rw [List.foldlM_cons] at h₃
    obtain ⟨q', hstep, hrest⟩ := Option.bind_eq_some_iff.mp h₃
    have hok := okFixed_saved hr.tracks.kept
    obtain ⟨hctx, m₄, hem₄, hh₄, -, hargs⟩ := load_prefix (Nat.le_of_lt hj)
      hr.tracks.kept.sound hr.tracks.placed hr.tracks.holds hok hlive₂
      (fun j' hj' i' hi' hplace' => by
        obtain ⟨hg, hplace'⟩ := (hr.clobbered hlocal (by omega)).mp hplace'
        exact ih j' hj' (by omega) i' hi' hg hplace') hq
    obtain ⟨tempj, htempj, hvalj⟩ := hlive₂ j hj
    obtain ⟨hctx', m₅, hem₅, hh₅, -, hreg, -⟩ := loadArg_spec (hctx ▸ hr.tracks.placed)
      (hctx ▸ hh₄) (hctx ▸ hok) (argReg_callerSaved j hj) (hctx ▸ htempj) hvalj hstep
    have hctxq : q'.ctx = p₂.ctx := hctx'.trans hctx
    obtain ⟨-, m₆, hem₆, -, hothers⟩ := load_others (hctxq ▸ hr.tracks.placed)
      (hctx' ▸ hh₅) (hctxq ▸ hok)
      (fun i hi => by
        obtain ⟨temp, htemp, hval⟩ := hlive₂ i hi
        exact ⟨temp, hctxq ▸ htemp, hval⟩)
      (fun i hi => by
        have := List.mem_range'_1.mp hi
        omega) hrest
    have hm₃ : m₃ = m₆ := hem₃.unique ((hem₄.trans hem₅).trans hem₆)
    -- what arrives is the value of the earlier argument
    have hplace₂ := (hr.clobbered hlocal (by omega)).mpr ⟨hglobal, hplace⟩
    rw [place_of_temp htempj] at hplace₂
    have hvreg : tempj.valType = .reg :=
      (hr.tracks.kept.sound.located _ tempj htempj).mpr (by rw [hplace₂]; rfl)
    have hgot := low_of_trunc (hreg _ hplace₂ hvreg)
    obtain ⟨tempi, htempi, -⟩ := hlive₂ i (by omega)
    have hlowi := low_of_trunc (hargs i hi tempi htempi)
    rw [hwi] at hlowi
    -- and not its own
    obtain ⟨temp, htemp, -⟩ := hlive j hj
    have hright := low_of_trunc ((hall _ hw).args _ hh j hj temp htemp)
    rw [(atCall_eq hem hbuf).2, hm₃, hothers (argReg j) _, hwj] at hright
    · exact complement_low base (by rw [← hlowi, ← hgot, hright])
    · intro k hk' heq
      have hk' := List.mem_range'_1.mp hk'
      have := argReg_injective j hj k (by omega) heq
      omega

/-- A call is marshalled correctly for all values of its temps exactly when no argument is a
global in the register of an earlier argument. -/
theorem call_marshalled_iff (hop : op.opc = .call) (hk : Kept home p) (hp : Placed v fp p.ctx)
    (hlive : InputsLive p op) (h : regallocCall p op (opConstraint op.opc) = some p') :
    (∀ w, SamePointers p v w → Marshalled w fp p p' op) ↔ NoClobber p op := by
  constructor
  · exact noClobber_of_marshalled hop hk hp hlive h
  · intro hno w hw
    exact marshalled_of_noClobber hop hk (hw.placed hp) hlive hno h

end

/-! ## Two calls -/

/-- Where `env` and the frame are, and the values 5 and 6 of the constants. -/
def demoValues (t : Nat) : BitVec 64 := [0x1000, 7, 5, 6, 5, 6].getD t 0

theorem demoContext_temp {t : Nat} {temp : Temp} (h : demoContext.temp t = some temp) :
    t < 6 ∧ demoContext.temps t = temp := by
  rw [Context.temp] at h
  split at h
  · rename_i hlt
    injection h with h
    exact ⟨hlt, h⟩
  · cases h

theorem placed_demoContext : Placed demoValues 0x2000 demoContext where
  base t temp b h hb := by
    obtain ⟨hlt, rfl⟩ := demoContext_temp h
    have hb' : ∀ t < 6, ∀ b ∈ (demoContext.temps t).memBase, b = 0 := by decide
    cases hb' t hlt b hb
    exact ⟨by decide, _, .rbp, rfl, rfl, rfl, rfl, rfl⟩
  frame r hr := by
    injection hr with hr
    subst hr
    refine ⟨by decide, fun t temp h => ?_⟩
    obtain ⟨hlt, rfl⟩ := demoContext_temp h
    revert t
    decide
  based t temp h := by
    obtain ⟨hlt, rfl⟩ := demoContext_temp h
    revert t
    decide
  front t temp h := by
    obtain ⟨hlt, rfl⟩ := demoContext_temp h
    revert t
    decide
  resident t temp h := by
    obtain ⟨hlt, rfl⟩ := demoContext_temp h
    revert t
    decide
  slot t temp h := by
    obtain ⟨hlt, rfl⟩ := demoContext_temp h
    revert t
    decide
  distinct t u temp temp' c h h' hc hc' := by
    obtain ⟨hlt, rfl⟩ := demoContext_temp h
    obtain ⟨hlt', rfl⟩ := demoContext_temp h'
    -- only the global has a home
    have hone : ∀ t < 6, (cellOf demoValues 0x2000 (demoContext.temps t)).isSome = true → t = 1 := by
      decide
    rw [hone t hlt (by rw [hc]; rfl), hone u hlt' (by rw [hc']; rfl)]

/-- `call t, env, g, 5, 6, env, g`. -/
def plainCall : Op := Op.withArgs .call .i64 [4, 0, 1, 2, 3, 0, 1]

theorem call_marshalled_plain : ∃ p',
    regallocCall (initPass demoContext) plainCall (opConstraint .call) = some p' ∧
      ∀ w, SamePointers (initPass demoContext) demoValues w →
        Marshalled w 0x2000 (initPass demoContext) p' plainCall := by
  have hsome : (regallocCall (initPass demoContext) plainCall (opConstraint .call)).isSome := by
    decide
  obtain ⟨p', hp'⟩ := Option.isSome_iff_exists.mp hsome
  have hlive : InputsLive (initPass demoContext) plainCall := by decide
  have hno : NoClobber (initPass demoContext) plainCall := by decide
  exact ⟨p', hp', (call_marshalled_iff rfl (kept_initPass starting_demoContext)
    placed_demoContext hlive hp').mpr hno⟩

/-- `mov t, 5; mov u, 6; mov g, u`, after which `g` is in RDX. -/
def clobberingOps : List Op :=
  [{ Op.withArgs .mov .i64 [4, 2] with life := ⟨0b100⟩ },
   { Op.withArgs .mov .i64 [5, 3] with life := ⟨0b100⟩ },
   Op.withArgs .mov .i64 [1, 5]]

/-- `call t, env, env, env, g, env, env`. -/
def clobberingCall : Op := Op.withArgs .call .i64 [4, 0, 0, 0, 1, 0, 0]

/-- The state after `clobberingOps`. -/
def clobberingPass : Pass :=
  (regallocAndCodegen demoContext clobberingOps).getD (initPass demoContext)

/-- The machine that runs the code for `clobberingOps`. -/
def clobberingMachine : Machine :=
  let start : Machine :=
    ⟨fun r => if r = .rbp then 0x1000 else if r = .rsp then 0x2000 else 0, fun _ _ => 7⟩
  start.execAll clobberingPass.buf

/-- The argument move into RDX overwrites `g` before it is moved to RCX, which gets the pointer
to the CPU state. -/
theorem global_argument_clobbered : ∃ p',
    regallocAndCodegen demoContext clobberingOps = some clobberingPass ∧
    regallocCall clobberingPass clobberingCall (opConstraint .call) = some p' ∧
    InputsLive clobberingPass clobberingCall ∧
    Holds (fun t => if t = 1 then 6 else demoValues t) 0x2000 (fun _ => True) clobberingPass.ctx
      clobberingMachine ∧
    (atCall clobberingPass p' clobberingMachine).regs .rcx = 0x1000 ∧
    ¬ Marshalled (fun t => if t = 1 then 6 else demoValues t) 0x2000 clobberingPass p'
      clobberingCall := by
  have hsome : (regallocAndCodegen demoContext clobberingOps).isSome = true := by decide
  have hrun : regallocAndCodegen demoContext clobberingOps = some clobberingPass := by
    obtain ⟨p, hp⟩ := Option.isSome_iff_exists.mp hsome
    rw [clobberingPass, hp, Option.getD_some]
  have hlive : InputsLive clobberingPass clobberingCall := by decide
  have hholds : Holds (fun t => if t = 1 then 6 else demoValues t) 0x2000 (fun _ => True)
      clobberingPass.ctx clobberingMachine := by
    decide
  have hcall : ((regallocCall clobberingPass clobberingCall (opConstraint .call)).map fun p' =>
      (atCall clobberingPass p' clobberingMachine).regs .rcx) = some 0x1000 := by
    decide
  obtain ⟨p', hp', hrcx⟩ := Option.map_eq_some_iff.mp hcall
  refine ⟨p', hrun, hp', hlive, hholds, hrcx, ?_⟩
  intro hmarshalled
  have htemp : (clobberingPass.ctx.temp (input clobberingCall 3)).map Temp.ty = some .i64 := by
    decide
  obtain ⟨temp, htemp, hty⟩ := Option.map_eq_some_iff.mp htemp
  have harg := hmarshalled.args clobberingMachine hholds 3 (by decide) temp htemp
  rw [hty, show argReg 3 = .rcx from rfl, hrcx] at harg
  revert harg
  decide

end TcgRs.Analysis.CallMarshalling
