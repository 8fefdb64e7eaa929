import TcgRs.Analysis.RegKept
import TcgRs.Interface.HostMachine

/-!
# Values under the register allocator

The allocator says of every temp where its value is: in a register, in the temp's home in memory,
or in the temp itself when it is a constant.  Here this is made a relation between the allocator's
state and the machine that runs the emitted code, and the functions that emit code are followed
through it.
-/

set_option autoImplicit false

namespace TcgRs.Analysis.RegValues

open TcgRs.Model TcgRs.Model.Ir TcgRs.Model.X86 TcgRs.Model.RegAlloc TcgRs.Library
open Interface.Host RegBooks RegKept

/-! ## Homes -/

variable {v : Nat → BitVec 64} {fp : BitVec 64}

/-- The cell of a temp in memory: in the object its base temp points to, or in the frame. -/
def cellOf (v : Nat → BitVec 64) (fp : BitVec 64) (temp : Temp) : Option (BitVec 64 × Int) :=
  match temp.memBase with
  | some b => some (v b, temp.memOffset)
  | none => if temp.memAllocated then some (fp, temp.memOffset) else none

/-- How temps are laid out in memory.  `v` is the value of each temp in the IR, `fp` the frame
pointer. -/
structure Placed (v : Nat → BitVec 64) (fp : BitVec 64) (ctx : Context) : Prop where
  /-- Bases are 64-bit Fixed temps in registers, and none points to the frame. -/
  base : ∀ t temp b, ctx.temp t = some temp → temp.memBase = some b →
    v b ≠ fp ∧ ∃ bt r, ctx.temp b = some bt ∧ bt.kind = .fixed ∧ bt.ty = .i64 ∧
      bt.valType = .reg ∧ bt.reg = some r
  /-- The frame pointer is in a reserved register of its own. -/
  frame : ∀ r, ctx.frameReg = some r → allocatableRegs.contains r = false ∧
    ∀ t temp, ctx.temp t = some temp → temp.reg ≠ some r
  /-- Globals, and no other temps, have a home in an object from the start, and come first. -/
  based : ∀ t temp, ctx.temp t = some temp → (temp.memBase.isSome = true ↔ temp.kind = .global)
  front : ∀ t temp, ctx.temp t = some temp → temp.kind = .global → t < ctx.nbGlobals
  /-- A temp in memory has a home. -/
  resident : ∀ t temp, ctx.temp t = some temp → temp.valType = .mem →
    (cellOf v fp temp).isSome = true
  /-- Slots of the frame are below the end of the part that is in use. -/
  slot : ∀ t temp, ctx.temp t = some temp → temp.memBase = none → temp.memAllocated = true →
    temp.memOffset < ctx.frameAllocEnd
  distinct : ∀ t u temp temp' c, ctx.temp t = some temp → ctx.temp u = some temp' →
    cellOf v fp temp = some c → cellOf v fp temp' = some c → t = u

/-! ## Values -/

/-- The allocator's view of the temps is true of the machine, for the registers in `ok`. -/
structure Holds (v : Nat → BitVec 64) (fp : BitVec 64) (ok : Reg → Prop) (ctx : Context)
    (m : Machine) : Prop where
  reg : ∀ t temp r, ctx.temp t = some temp → temp.reg = some r → ok r →
    trunc temp.ty (m.regs r) = trunc temp.ty (v t)
  cell : ∀ t temp c, ctx.temp t = some temp →
    (temp.valType = .mem ∨ (temp.valType = .reg ∧ temp.memCoherent = true)) →
    cellOf v fp temp = some c → trunc temp.ty (m.mem c.1 c.2) = trunc temp.ty (v t)
  const : ∀ t temp, ctx.temp t = some temp → temp.valType = .const →
    trunc temp.ty temp.val = trunc temp.ty (v t)
  frame : ∀ r, ctx.frameReg = some r → m.regs r = fp

/-- The relation, temp by temp. -/
theorem holds_iff_each {v : Nat → BitVec 64} {fp : BitVec 64} {ctx : Context} {m : Machine} :
    ((∀ t < ctx.nbTemps,
      (∀ r ∈ (ctx.temps t).reg, trunc (ctx.temps t).ty (m.regs r) = trunc (ctx.temps t).ty (v t)) ∧
      (((ctx.temps t).valType = .mem ∨
          ((ctx.temps t).valType = .reg ∧ (ctx.temps t).memCoherent = true)) →
        ∀ c ∈ cellOf v fp (ctx.temps t),
          trunc (ctx.temps t).ty (m.mem c.1 c.2) = trunc (ctx.temps t).ty (v t)) ∧
      ((ctx.temps t).valType = .const →
        trunc (ctx.temps t).ty (ctx.temps t).val = trunc (ctx.temps t).ty (v t))) ∧
      ∀ r ∈ ctx.frameReg, m.regs r = fp) ↔ Holds v fp (fun _ => True) ctx m := by
  have hget : ∀ {t temp}, ctx.temp t = some temp → t < ctx.nbTemps ∧ ctx.temps t = temp := by
    intro t temp h
    rw [Context.temp] at h
    split at h
    · rename_i hlt
      injection h with h
      exact ⟨hlt, h⟩
    · cases h
  constructor
  · rintro ⟨heach, hframe⟩
    refine ⟨?_, ?_, ?_, hframe⟩
    · intro t temp r h hr _
      obtain ⟨hlt, rfl⟩ := hget h
      exact (heach t hlt).1 r hr
    · intro t temp c h hval hc
      obtain ⟨hlt, rfl⟩ := hget h
      exact (heach t hlt).2.1 hval c hc
    · intro t temp h hval
      obtain ⟨hlt, rfl⟩ := hget h
      exact (heach t hlt).2.2 hval
  · intro hh
    refine ⟨fun t hlt => ?_, hh.frame⟩
    have ht : ctx.temp t = some (ctx.temps t) := by rw [Context.temp, if_pos hlt]
    exact ⟨fun r hr => hh.reg t _ r ht hr trivial, fun hval c hc => hh.cell t _ c ht hval hc,
      fun hval => hh.const t _ ht hval⟩

instance (v : Nat → BitVec 64) (fp : BitVec 64) (ctx : Context) (m : Machine) :
    Decidable (Holds v fp (fun _ => True) ctx m) := decidable_of_iff _ holds_iff_each

/-- The code emitted from `p` to `p'` takes `m` to `m'`. -/
def Emits (p p' : Pass) (m m' : Machine) : Prop :=
  ∃ code, p'.buf = p.buf ++ code ∧ m' = m.execAll code

theorem Emits.refl (p : Pass) (m : Machine) : Emits p p m m :=
  ⟨[], (List.append_nil _).symm, rfl⟩

theorem Emits.of_buf {p p' : Pass} (h : p'.buf = p.buf) (m : Machine) : Emits p p' m m :=
  ⟨[], by rw [h, List.append_nil], rfl⟩

theorem Emits.emit (p : Pass) (insn : HostInsn) (m : Machine) :
    Emits p (p.emit insn) m (m.exec insn) := ⟨[insn], rfl, rfl⟩

theorem Emits.trans {p p' p'' : Pass} {m m' m'' : Machine} (h : Emits p p' m m')
    (h' : Emits p' p'' m' m'') : Emits p p'' m m'' := by
  obtain ⟨code, hbuf, hm⟩ := h
  obtain ⟨code', hbuf', hm'⟩ := h'
  refine ⟨code ++ code', ?_, ?_⟩
  · rw [hbuf', hbuf, List.append_assoc]
  · rw [hm', hm, Machine.execAll_append]

theorem Emits.unique {p p' : Pass} {m m₁ m₂ : Machine} (h₁ : Emits p p' m m₁)
    (h₂ : Emits p p' m m₂) : m₁ = m₂ := by
  obtain ⟨code, hbuf, rfl⟩ := h₁
  obtain ⟨code', hbuf', rfl⟩ := h₂
  rw [hbuf] at hbuf'
  rw [List.append_cancel_left hbuf']

variable {ok : Reg → Prop} {ctx : Context} {m : Machine}

/-- The registers of the Fixed temps are trusted. -/
def OkFixed (ok : Reg → Prop) (ctx : Context) : Prop :=
  ∀ t temp r, ctx.temp t = some temp → temp.kind = .fixed → temp.reg = some r → ok r

/-- The register of a base holds the pointer. -/
theorem base_reg (hp : Placed v fp ctx) (hh : Holds v fp ok ctx m)
    (hok : OkFixed ok ctx) {t b : Nat} {temp bt : Temp} {r : Reg}
    (ht : ctx.temp t = some temp) (hb : temp.memBase = some b) (hbt : ctx.temp b = some bt)
    (hr : bt.reg = some r) : m.regs r = v b := by
  obtain ⟨-, bt', r', hbt', hkind, hty, -, hr'⟩ := hp.base t temp b ht hb
  rw [hbt] at hbt'
  cases hbt'
  have hval := hh.reg b bt r hbt hr (hok b bt r hbt hkind hr)
  simpa [hty, trunc] using hval

/-- A store of a temp's value to its home. -/
theorem Holds.store (hp : Placed v fp ctx) (hh : Holds v fp ok ctx m) {t : Nat} {temp : Temp}
    {c : BitVec 64 × Int} {x : BitVec 64} (ht : ctx.temp t = some temp)
    (hc : cellOf v fp temp = some c) (hx : trunc temp.ty x = trunc temp.ty (v t)) :
    Holds v fp ok ctx (m.setCell c.1 c.2 x) where
  reg := hh.reg
  cell u temp' c' hu hval hc' := by
    rw [Machine.mem_setCell]
    split
    · rename_i heq
      have hcc : c' = c := Prod.ext heq.1 heq.2
      rw [hcc] at hc'
      have htu := hp.distinct t u temp temp' c ht hu hc hc'
      subst htu
      rw [ht] at hu
      cases hu
      exact hx
    · exact hh.cell u temp' c' hu hval hc'
  const := hh.const
  frame := hh.frame

/-- Loading a temp from its home. -/
theorem loadFromMem_emit {p p' : Pass} {t : Nat} {temp : Temp} {reg : Reg}
    {c : BitVec 64 × Int} (hp : Placed v fp p.ctx) (hh : Holds v fp ok p.ctx m)
    (hok : OkFixed ok p.ctx) (ht : p.ctx.temp t = some temp) (hc : cellOf v fp temp = some c)
    (h : loadFromMem p temp reg = some p') :
    ∃ base, (m.regs base = c.1 ∧ temp.memOffset = c.2) ∧
      p' = p.emit (.ld temp.ty reg base temp.memOffset) := by
  rw [loadFromMem] at h
  unfold cellOf at hc
  split at h
  · rename_i b hb
    rw [hb] at hc
    injection hc with hc
    obtain ⟨bt, hbt, h⟩ := Option.bind_eq_some_iff.mp h
    obtain ⟨base, hbase, h⟩ := Option.bind_eq_some_iff.mp h
    injection h with h
    refine ⟨base, ?_, h.symm⟩
    rw [← hc]
    exact ⟨base_reg hp hh hok ht hb hbt hbase, rfl⟩
  · rename_i hb
    simp only [hb] at hc
    split at h
    · rename_i ha
      rw [if_pos ha] at hc
      injection hc with hc
      obtain ⟨base, hbase, h⟩ := Option.bind_eq_some_iff.mp h
      injection h with h
      refine ⟨base, ?_, h.symm⟩
      rw [← hc]
      exact ⟨hh.frame base hbase, rfl⟩
    · rename_i ha
      rw [if_neg ha] at hc
      cases hc

/-- Syncing a temp: the registers stay, and the home of a temp in a register has its value. -/
theorem holds_tempSync {p p' : Pass} {t : Nat} (hp : Placed v fp p.ctx)
    (hh : Holds v fp ok p.ctx m) (hok : OkFixed ok p.ctx)
    (hreg : ∀ temp r, p.ctx.temp t = some temp → temp.reg = some r → temp.valType = .reg ∧ ok r)
    (h : tempSync p t = some p') :
    ∃ m', Emits p p' m m' ∧ Holds v fp ok p.ctx m' ∧ m'.regs = m.regs ∧
      ∀ temp c, p.ctx.temp t = some temp → temp.reg.isSome = true → cellOf v fp temp = some c →
        trunc temp.ty (m'.mem c.1 c.2) = trunc temp.ty (v t) := by
  obtain ⟨temp, htemp, h⟩ := Option.bind_eq_some_iff.mp h
  have hone : ∀ {temp' : Temp}, p.ctx.temp t = some temp' → temp' = temp := by
    intro temp' h'
    rw [htemp] at h'
    injection h' with h'
    exact h'.symm
  -- a store of the temp's register to its cell
  have hstore : ∀ (r base : Reg) (c : BitVec 64 × Int), temp.reg = some r →
      cellOf v fp temp = some c → m.regs base = c.1 → c.2 = temp.memOffset →
      p' = p.emit (.st temp.ty r base temp.memOffset) →
      ∃ m', Emits p p' m m' ∧ Holds v fp ok p.ctx m' ∧ m'.regs = m.regs ∧
        ∀ temp c, p.ctx.temp t = some temp → temp.reg.isSome = true → cellOf v fp temp = some c →
          trunc temp.ty (m'.mem c.1 c.2) = trunc temp.ty (v t) := by
    intro r base c hr hc hbase hoff hp'
    have hval := hh.reg t temp r htemp hr (hreg temp r htemp hr).2
    refine ⟨m.setCell c.1 c.2 (trunc temp.ty (m.regs r)), ?_, ?_, rfl, ?_⟩
    · rw [hp', ← hbase, hoff]
      exact Emits.emit p _ m
    · exact hh.store hp htemp hc (by rw [trunc_trunc]; exact hval)
    · intro temp' c' h' _ hc'
      rw [hone h'] at hc' ⊢
      rw [hc] at hc'
      cases hc'
      rw [Machine.mem_setCell, if_pos ⟨rfl, rfl⟩, trunc_trunc]
      exact hval
  have hsame : p' = p → (∀ temp c, p.ctx.temp t = some temp → temp.reg.isSome = true →
      cellOf v fp temp = some c → trunc temp.ty (m.mem c.1 c.2) = trunc temp.ty (v t)) →
      ∃ m', Emits p p' m m' ∧ Holds v fp ok p.ctx m' ∧ m'.regs = m.regs ∧
        ∀ temp c, p.ctx.temp t = some temp → temp.reg.isSome = true → cellOf v fp temp = some c →
          trunc temp.ty (m'.mem c.1 c.2) = trunc temp.ty (v t) := by
    intro hp' hcell
    exact ⟨m, hp' ▸ Emits.refl p m, hh, rfl, hcell⟩
  split at h
  · rename_i hcoh
    injection h with h
    apply hsame h.symm
    intro temp' c h' hsome hc
    rw [hone h'] at hsome hc ⊢
    obtain ⟨r, hr⟩ := Option.isSome_iff_exists.mp hsome
    exact hh.cell t temp c htemp (.inr ⟨(hreg temp r htemp hr).1, hcoh⟩) hc
  · split at h
    · rename_i hnone
      injection h with h
      apply hsame h.symm
      intro temp' c h' hsome _
      rw [hone h', hnone] at hsome
      cases hsome
    · rename_i r b hr hb
      obtain ⟨bt, hbt, h⟩ := Option.bind_eq_some_iff.mp h
      obtain ⟨br, hbr, h⟩ := Option.bind_eq_some_iff.mp h
      injection h with h
      exact hstore r br (v b, temp.memOffset) hr (by simp [cellOf, hb])
        (base_reg hp hh hok htemp hb hbt hbr) rfl h.symm
    · rename_i r hr hb
      split at h
      · rename_i halloc
        obtain ⟨fr, hfr, h⟩ := Option.bind_eq_some_iff.mp h
        injection h with h
        exact hstore r fr (fp, temp.memOffset) hr (by simp [cellOf, hb, halloc])
          (hh.frame fr hfr) rfl h.symm
      · rename_i halloc
        injection h with h
        apply hsame h.symm
        intro temp' c h' _ hc
        rw [hone h'] at hc
        simp [cellOf, hb, halloc] at hc

/-! ## Changing one temp -/

/-- The two temps are the same temp of the IR, with the same home. -/
structure SameHome (x y : Temp) : Prop where
  kind : x.kind = y.kind
  ty : x.ty = y.ty
  base : x.memBase = y.memBase
  allocated : x.memAllocated = y.memAllocated
  offset : x.memOffset = y.memOffset

theorem SameHome.cell {x y : Temp} (h : SameHome x y) : cellOf v fp x = cellOf v fp y := by
  unfold cellOf
  rw [h.base, h.allocated, h.offset]

/-- The temps of a context after one was changed. -/
theorem temp_cases {t u : Nat} {f : Temp → Temp} {temp : Temp}
    (h : (ctx.modTemp t f).temp u = some temp) :
    (u ≠ t ∧ ctx.temp u = some temp) ∨ (u = t ∧ ∃ x, ctx.temp t = some x ∧ temp = f x) := by
  rw [temp_modTemp] at h
  split at h
  · rename_i hu
    obtain ⟨x, hx, rfl⟩ := Option.map_eq_some_iff.mp h
    exact .inr ⟨hu, x, hx, rfl⟩
  · rename_i hu
    exact .inl ⟨hu, h⟩

/-- The layout is kept when a temp keeps its home and moves to an allocatable register, or to
memory if it is not Fixed. -/
theorem Placed.modTemp (hp : Placed v fp ctx) (t : Nat) {f : Temp → Temp}
    (hf : ∀ x, ctx.temp t = some x → SameHome (f x) x ∧
      (((f x).reg = x.reg ∧ (f x).valType = x.valType) ∨
        ((x.kind = .fixed → (f x).valType = .reg ∧ (f x).reg.isSome = true) ∧
          (∀ r, (f x).reg = some r → allocatableRegs.contains r = true) ∧
          ((f x).valType = .mem → (cellOf v fp x).isSome = true)))) :
    Placed v fp (ctx.modTemp t f) := by
  -- each temp of the new context has an old one with the same home
  have hold : ∀ u temp, (ctx.modTemp t f).temp u = some temp →
      ∃ x, ctx.temp u = some x ∧ SameHome temp x := by
    intro u temp hu
    rcases temp_cases hu with ⟨-, hu⟩ | ⟨rfl, x, hx, rfl⟩
    · exact ⟨temp, hu, rfl, rfl, rfl, rfl, rfl⟩
    · exact ⟨x, hx, (hf x hx).1⟩
  refine ⟨?_, ?_, ?_, ?_, ?_, ?_, ?_⟩
  · intro u temp b hu hb
    obtain ⟨x, hx, hsame⟩ := hold u temp hu
    obtain ⟨hne, bt, r, hbt, hkind, hty, hval, hr⟩ := hp.base u x b hx (hsame.base ▸ hb)
    refine ⟨hne, ?_⟩
    by_cases hbeq : b = t
    · subst hbeq
      obtain ⟨hsame', hcases⟩ := hf bt hbt
      have hbt' : (ctx.modTemp b f).temp b = some (f bt) := by
        rw [temp_modTemp, if_pos rfl, hbt]
        rfl
      rcases hcases with ⟨hreg, hvt⟩ | ⟨hnf, -⟩
      · exact ⟨f bt, r, hbt', hsame'.kind.trans hkind, hsame'.ty.trans hty, hvt.trans hval,
          hreg.trans hr⟩
      · obtain ⟨r', hr'⟩ := Option.isSome_iff_exists.mp (hnf hkind).2
        exact ⟨f bt, r', hbt', hsame'.kind.trans hkind, hsame'.ty.trans hty, (hnf hkind).1, hr'⟩
    · refine ⟨bt, r, ?_, hkind, hty, hval, hr⟩
      rw [temp_modTemp, if_neg hbeq, hbt]
  · intro r hr
    obtain ⟨hres, hfree⟩ := hp.frame r hr
    refine ⟨hres, fun u temp hu hreg => ?_⟩
    rcases temp_cases hu with ⟨-, hu⟩ | ⟨rfl, x, hx, rfl⟩
    · exact hfree u temp hu hreg
    · rcases (hf x hx).2 with ⟨hreg', -⟩ | ⟨-, hall, -⟩
      · exact hfree u x hx (hreg' ▸ hreg)
      · rw [hall r hreg] at hres
        cases hres
  · intro u temp hu
    obtain ⟨x, hx, hsame⟩ := hold u temp hu
    rw [hsame.base, hsame.kind]
    exact hp.based u x hx
  · intro u temp hu hkind
    obtain ⟨x, hx, hsame⟩ := hold u temp hu
    exact hp.front u x hx (hsame.kind ▸ hkind)
  · intro u temp hu hval
    rcases temp_cases hu with ⟨-, hu⟩ | ⟨rfl, x, hx, rfl⟩
    · exact hp.resident u temp hu hval
    · obtain ⟨hsame, hcases⟩ := hf x hx
      rw [hsame.cell]
      rcases hcases with ⟨-, hvt⟩ | ⟨-, -, hmem⟩
      · exact hp.resident u x hx (hvt ▸ hval)
      · exact hmem hval
  · intro u temp hu hb ha
    obtain ⟨x, hx, hsame⟩ := hold u temp hu
    rw [hsame.offset]
    exact hp.slot u x hx (hsame.base ▸ hb) (hsame.allocated ▸ ha)
  · intro u w temp temp' c hu hw hc hc'
    obtain ⟨x, hx, hsame⟩ := hold u temp hu
    obtain ⟨y, hy, hsame'⟩ := hold w temp' hw
    exact hp.distinct u w x y c hx hy (hsame.cell ▸ hc) (hsame'.cell ▸ hc')

/-- The values are kept when the changed temp is where it says. -/
theorem Holds.modTemp (hh : Holds v fp ok ctx m) (t : Nat) {f : Temp → Temp}
    (hf : ∀ x, ctx.temp t = some x →
      (∀ r, (f x).reg = some r → ok r → trunc (f x).ty (m.regs r) = trunc (f x).ty (v t)) ∧
      (((f x).valType = .mem ∨ ((f x).valType = .reg ∧ (f x).memCoherent = true)) →
        ∀ c, cellOf v fp (f x) = some c →
          trunc (f x).ty (m.mem c.1 c.2) = trunc (f x).ty (v t)) ∧
      ((f x).valType = .const → trunc (f x).ty (f x).val = trunc (f x).ty (v t))) :
    Holds v fp ok (ctx.modTemp t f) m where
  reg u temp r hu hr hokr := by
    rcases temp_cases hu with ⟨-, hu⟩ | ⟨rfl, x, hx, rfl⟩
    · exact hh.reg u temp r hu hr hokr
    · exact (hf x hx).1 r hr hokr
  cell u temp c hu hval hc := by
    rcases temp_cases hu with ⟨-, hu⟩ | ⟨rfl, x, hx, rfl⟩
    · exact hh.cell u temp c hu hval hc
    · exact (hf x hx).2.1 hval c hc
  const u temp hu hval := by
    rcases temp_cases hu with ⟨-, hu⟩ | ⟨rfl, x, hx, rfl⟩
    · exact hh.const u temp hu hval
    · exact (hf x hx).2.2 hval
  frame := hh.frame

/-! ## The allocator against the machine -/

/-- The allocator's books are kept and true of the machine. -/
structure Tracks (home : Nat → Option Reg) (v : Nat → BitVec 64) (fp : BitVec 64) (p : Pass)
    (m : Machine) : Prop where
  kept : Kept home p
  placed : Placed v fp p.ctx
  holds : Holds v fp (fun _ => True) p.ctx m

variable {home : Nat → Option Reg} {p p' : Pass}

theorem Tracks.placed_reg (ht : Tracks home v fp p m) {t : Nat} {temp : Temp} {r : Reg}
    (h : p.ctx.temp t = some temp) (hr : temp.reg = some r) : temp.valType = .reg := by
  apply (ht.kept.sound.located t temp h).mpr
  rw [hr]
  rfl

/-- Marking a temp whose home is up to date. -/
theorem Holds.coherent (hh : Holds v fp ok ctx m) {t : Nat}
    (hcell : ∀ temp c, ctx.temp t = some temp → temp.valType = .reg → cellOf v fp temp = some c →
      trunc temp.ty (m.mem c.1 c.2) = trunc temp.ty (v t)) :
    Holds v fp ok (ctx.modTemp t fun t => { t with memCoherent := true }) m := by
  apply hh.modTemp t
  intro x hx
  refine ⟨fun r hr => hh.reg t x r hx hr, ?_, fun hval => hh.const t x hx hval⟩
  intro hval c hc
  rcases hval with hval | ⟨hval, -⟩
  · exact hh.cell t x c hx (.inl hval) hc
  · exact hcell x c hx hval hc

theorem tracks_syncGlobal {i : Nat} (ht : Tracks home v fp p m) (h : syncGlobal p i = some p') :
    ∃ m', Emits p p' m m' ∧ Tracks home v fp p' m' ∧ m'.regs = m.regs := by
  have hkept := ht.kept.same (leads_syncGlobal ht.kept.sound h)
  obtain ⟨temp, htemp, h⟩ := Option.bind_eq_some_iff.mp h
  split at h
  · rename_i hval
    obtain ⟨p₁, hsync, h⟩ := Option.bind_eq_some_iff.mp h
    injection h with h
    obtain ⟨m', hem, hh, hregs, hcell⟩ := holds_tempSync ht.placed ht.holds (fun _ _ _ _ _ _ => trivial)
      (fun temp r hx hr => ⟨ht.placed_reg hx hr, trivial⟩) hsync
    have hctx : p'.ctx = p.ctx.modTemp i fun t => { t with memCoherent := true } := by
      rw [← h, ← (tempSync_ctx hsync).1]
      rfl
    refine ⟨m', ?_, ⟨hkept, ?_, ?_⟩, hregs⟩
    · rw [← h]
      exact hem.trans (Emits.of_buf rfl m')
    · rw [hctx]
      apply ht.placed.modTemp i
      intro x _
      exact ⟨⟨rfl, rfl, rfl, rfl, rfl⟩, .inl ⟨rfl, rfl⟩⟩
    · rw [hctx]
      apply hh.coherent
      intro temp' c hx hreg hc
      exact hcell temp' c hx ((ht.kept.sound.located i temp' hx).mp hreg) hc
  · injection h with h
    rw [← h]
    exact ⟨m, Emits.refl p m, ht, rfl⟩

/-- A global that is in a register has its value in memory too. -/
def Coherent (p : Pass) (t : Nat) : Prop :=
  ∀ temp, p.ctx.temp t = some temp → temp.valType = .reg → temp.memCoherent = true

theorem coherent_syncGlobal {i j : Nat} (h : syncGlobal p i = some p')
    (hj : Coherent p j ∨ j = i) : Coherent p' j := by
  obtain ⟨temp, htemp, h⟩ := Option.bind_eq_some_iff.mp h
  split at h
  · obtain ⟨p₁, hsync, h⟩ := Option.bind_eq_some_iff.mp h
    injection h with h
    intro temp' hx hval
    rw [← h, Pass.modTemp, (tempSync_ctx hsync).1] at hx
    rcases temp_cases hx with ⟨hne, hx⟩ | ⟨-, x, -, rfl⟩
    · exact hj.resolve_right hne temp' hx hval
    · rfl
  · rename_i hnot
    injection h with h
    rw [← h]
    intro temp' hx hval
    rcases hj with hj | rfl
    · exact hj temp' hx hval
    · rw [htemp] at hx
      cases hx
      by_contra hcoh
      exact hnot ⟨hval, by simpa using hcoh⟩

/-- All globals are synced, and nothing else changes. -/
theorem tracks_syncGlobals (ht : Tracks home v fp p m) (h : syncGlobals p = some p') :
    ∃ m', Emits p p' m m' ∧ Tracks home v fp p' m' ∧ m'.regs = m.regs ∧
      ∀ j < p.ctx.nbGlobals, Coherent p' j := by
  refine foldlM_range
    (fun k q => ∃ m', Emits p q m m' ∧ Tracks home v fp q m' ∧ m'.regs = m.regs ∧
      ∀ j < k, Coherent q j)
    ⟨m, Emits.refl p m, ht, rfl, fun j hj => absurd hj (Nat.not_lt_zero j)⟩ ?_ h
  intro k _ q q' ⟨m₁, hem₁, ht₁, hregs₁, hcoh⟩ hstep
  obtain ⟨m₂, hem₂, ht₂, hregs₂⟩ := tracks_syncGlobal ht₁ hstep
  refine ⟨m₂, hem₁.trans hem₂, ht₂, hregs₂.trans hregs₁, ?_⟩
  intro j hj
  apply coherent_syncGlobal hstep
  rcases Nat.lt_succ_iff_lt_or_eq.mp hj with hj | hj
  · exact .inl (hcoh j hj)
  · exact .inr hj

/-! ## Spilling -/

/-- A new slot is beyond the part of the frame that is in use. -/
theorem le_align (a : Int) {size : Int} (hsize : 0 < size) : a ≤ (a + size - 1) / size * size := by
  have hdiv := Int.mul_ediv_add_emod (a + size - 1) size
  have hmod := Int.emod_lt_of_pos (a + size - 1) hsize
  rw [Int.mul_comm] at hdiv
  omega

theorem sizeBytes_pos (ty : IrType) : 0 < (ty.sizeBytes : Int) := by
  cases ty <;> decide

/-- The cell of a temp without a base, wherever it is, is in the frame. -/
theorem cellOf_frame {temp : Temp} {c : BitVec 64 × Int} (hb : temp.memBase = none)
    (hc : cellOf v fp temp = some c) : temp.memAllocated = true ∧ c = (fp, temp.memOffset) := by
  unfold cellOf at hc
  rw [hb] at hc
  dsimp only at hc
  split at hc
  · rename_i ha
    injection hc with hc
    exact ⟨ha, hc.symm⟩
  · cases hc

/-- A cell of the frame belongs to a temp without a base. -/
theorem Placed.frame_cell (hp : Placed v fp ctx) {u : Nat} {temp : Temp} {offset : Int}
    (hu : ctx.temp u = some temp) (hc : cellOf v fp temp = some (fp, offset)) :
    temp.memBase = none ∧ temp.memAllocated = true ∧ temp.memOffset = offset := by
  cases hb : temp.memBase with
  | none =>
    obtain ⟨ha, heq⟩ := cellOf_frame hb hc
    injection heq with _ heq
    exact ⟨rfl, ha, heq.symm⟩
  | some b =>
    unfold cellOf at hc
    rw [hb] at hc
    injection hc with hc
    injection hc with hc _
    exact absurd hc (hp.base u temp b hu hb).1

/-- A temp that gets its first slot in the frame. -/
theorem Placed.newSlot (hp : Placed v fp ctx) {t : Nat} {offset e : Int}
    (hlow : ctx.frameAllocEnd ≤ offset) (hhigh : offset < e)
    (hnew : ∀ temp, ctx.temp t = some temp → temp.memBase = none) :
    Placed v fp (({ ctx with frameAllocEnd := e } : Context).modTemp t fun x =>
      { x with memAllocated := true, memOffset := offset }) := by
  have hold : ∀ u temp, (({ ctx with frameAllocEnd := e } : Context).modTemp t fun x =>
      { x with memAllocated := true, memOffset := offset }).temp u = some temp →
      (u ≠ t ∧ ctx.temp u = some temp) ∨
        (u = t ∧ ∃ x, ctx.temp t = some x ∧
          temp = { x with memAllocated := true, memOffset := offset }) :=
    fun u temp hu => temp_cases hu
  -- the new slot is nobody else's
  have hfresh : ∀ u temp, ctx.temp u = some temp → cellOf v fp temp ≠ some (fp, offset) := by
    intro u temp hu hc
    obtain ⟨hb, ha, hoff⟩ := hp.frame_cell hu hc
    have hslot := hp.slot u temp hu hb ha
    omega
  have hslot : ∀ x, ctx.temp t = some x →
      cellOf v fp { x with memAllocated := true, memOffset := offset } = some (fp, offset) := by
    intro x hx
    simp [cellOf, hnew x hx]
  refine ⟨?_, ?_, ?_, ?_, ?_, ?_, ?_⟩
  · intro u temp b hu hb
    rcases hold u temp hu with ⟨-, hu⟩ | ⟨rfl, x, hx, rfl⟩
    · obtain ⟨hne, bt, r, hbt, hrest⟩ := hp.base u temp b hu hb
      refine ⟨hne, ?_⟩
      by_cases hbeq : b = t
      · subst hbeq
        refine ⟨{ bt with memAllocated := true, memOffset := offset }, r, ?_, hrest⟩
        rw [temp_modTemp, if_pos rfl]
        exact congrArg (Option.map _) hbt
      · refine ⟨bt, r, ?_, hrest⟩
        rw [temp_modTemp, if_neg hbeq]
        exact hbt
    · rw [hnew x hx] at hb
      cases hb
  · intro r hr
    refine ⟨(hp.frame r hr).1, fun u temp hu hreg => ?_⟩
    rcases hold u temp hu with ⟨-, hu⟩ | ⟨rfl, x, hx, rfl⟩
    · exact (hp.frame r hr).2 u temp hu hreg
    · exact (hp.frame r hr).2 u x hx hreg
  · intro u temp hu
    rcases hold u temp hu with ⟨-, hu⟩ | ⟨rfl, x, hx, rfl⟩
    · exact hp.based u temp hu
    · exact hp.based u x hx
  · intro u temp hu hkind
    rcases hold u temp hu with ⟨-, hu⟩ | ⟨rfl, x, hx, rfl⟩
    · exact hp.front u temp hu hkind
    · exact hp.front u x hx hkind
  · intro u temp hu hval
    rcases hold u temp hu with ⟨-, hu⟩ | ⟨rfl, x, hx, rfl⟩
    · exact hp.resident u temp hu hval
    · rw [hslot x hx]
      rfl
  · intro u temp hu hb ha
    show temp.memOffset < e
    rcases hold u temp hu with ⟨-, hu⟩ | ⟨rfl, x, hx, rfl⟩
    · have hslot := hp.slot u temp hu hb ha
      omega
    · exact hhigh
  · intro u w temp temp' c hu hw hc hc'
    rcases hold u temp hu with ⟨-, hu'⟩ | ⟨hu', x, hx, rfl⟩ <;>
      rcases hold w temp' hw with ⟨-, hw'⟩ | ⟨hw', y, hy, rfl⟩
    · exact hp.distinct u w temp temp' c hu' hw' hc hc'
    · rw [← hc', hslot y hy] at hc
      exact absurd hc (hfresh u temp hu')
    · rw [← hc, hslot x hx] at hc'
      exact absurd hc' (hfresh w temp' hw')
    · rw [hu', hw']

/-- Allocating a slot: the temp has it, and nothing else changes but the end of the frame. -/
theorem allocTempFrame_spec {ctx' : Context} {t : Nat} {temp : Temp} {offset : Int}
    (ht : ctx.temp t = some temp) (h : ctx.allocTempFrame t = some (ctx', offset)) :
    ctx'.frameReg = ctx.frameReg ∧ (∀ u, u ≠ t → ctx'.temp u = ctx.temp u) ∧
      ctx'.temp t = some { temp with memAllocated := true, memOffset := offset } := by
  obtain ⟨x, hx, h⟩ := Option.bind_eq_some_iff.mp h
  rw [ht] at hx
  cases hx
  split at h
  · rename_i ha
    injection h with h
    injection h with h hoff
    subst h hoff
    refine ⟨rfl, fun _ _ => rfl, ?_⟩
    rw [← ha]
    exact ht
  · dsimp only at h
    split at h
    · injection h with h
      injection h with h hoff
      rw [hoff] at h
      subst h
      refine ⟨rfl, ?_, ?_⟩
      · intro u hu
        rw [temp_modTemp, if_neg hu]
        rfl
      · rw [temp_modTemp, if_pos rfl]
        exact congrArg (Option.map _) ht
    · cases h

theorem placed_allocTempFrame {ctx' : Context} {t : Nat} {temp : Temp} {offset : Int}
    (hp : Placed v fp ctx) (ht : ctx.temp t = some temp) (hb : temp.memBase = none)
    (h : ctx.allocTempFrame t = some (ctx', offset)) : Placed v fp ctx' := by
  obtain ⟨x, hx, h⟩ := Option.bind_eq_some_iff.mp h
  rw [ht] at hx
  cases hx
  split at h
  · injection h with h
    injection h with h _
    exact h ▸ hp
  · dsimp only at h
    split at h
    · injection h with h
      injection h with h hoff
      have hsize := sizeBytes_pos temp.ty
      have hlow := le_align ctx.frameAllocEnd hsize
      rw [hoff] at h hlow
      subst h
      apply hp.newSlot hlow (by omega)
      intro y hy
      rw [ht] at hy
      cases hy
      exact hb
    · cases h

/-- A temp whose value is stored to its cell, and which is in memory from then on. -/
theorem Holds.spill (hh : Holds v fp ok ctx m) {ctx' : Context} {t : Nat}
    {temp : Temp} {c : BitVec 64 × Int} {x : BitVec 64}
    (hother : ∀ u, u ≠ t → ctx'.temp u = ctx.temp u) (ht : ctx'.temp t = some temp)
    (hp' : Placed v fp ctx') (hframe : ctx'.frameReg = ctx.frameReg)
    (hval : temp.valType = .mem) (hreg : temp.reg = none) (hc : cellOf v fp temp = some c)
    (hx : trunc temp.ty x = trunc temp.ty (v t)) :
    Holds v fp ok ctx' (m.setCell c.1 c.2 x) where
  reg u temp' r hu hr hokr := by
    by_cases hut : u = t
    · rw [hut, ht] at hu
      cases hu
      rw [hreg] at hr
      cases hr
    · exact hh.reg u temp' r (hother u hut ▸ hu) hr hokr
  cell u temp' c' hu hval' hc' := by
    rw [Machine.mem_setCell]
    by_cases hut : u = t
    · rw [hut, ht] at hu
      cases hu
      rw [hc] at hc'
      cases hc'
      rw [if_pos ⟨rfl, rfl⟩, hut]
      exact hx
    · rw [if_neg]
      · exact hh.cell u temp' c' (hother u hut ▸ hu) hval' hc'
      · intro heq
        have hcc : c' = c := Prod.ext heq.1 heq.2
        rw [hcc] at hc'
        exact hut (hp'.distinct u t temp' temp c hu ht hc' hc)
  const u temp' hu hval' := by
    by_cases hut : u = t
    · rw [hut, ht] at hu
      cases hu
      rw [hval] at hval'
      cases hval'
    · exact hh.const u temp' (hother u hut ▸ hu) hval'
  frame r hr := hh.frame r (hframe ▸ hr)

/-- Going from `p` to `p'` emits code that keeps the registers, and the temps stay readable. -/
def Carries (v : Nat → BitVec 64) (fp : BitVec 64) (ok : Reg → Prop) (p p' : Pass) (m : Machine) :
    Prop :=
  ∃ m', Emits p p' m m' ∧ Placed v fp p'.ctx ∧ Holds v fp ok p'.ctx m' ∧ m'.regs = m.regs

/-- A global is synced and leaves its register. -/
theorem carries_evict_global {p₁ : Pass} {t : Nat} {temp : Temp} {r : Reg}
    (hp : Placed v fp p.ctx) (hh : Holds v fp ok p.ctx m) (hok : OkFixed ok p.ctx) (hr : ok r)
    (htemp : p.ctx.temp t = some temp) (hreg : temp.reg = some r) (hval : temp.valType = .reg)
    (hglobal : temp.kind = .global) (hsync : tempSync p t = some p₁) :
    Carries v fp ok p ((p₁.modTemp t Temp.toMem).freeReg r) m := by
  have hone : ∀ x, p.ctx.temp t = some x → x = temp := by
    intro x hx
    rw [htemp] at hx
    injection hx with hx
    exact hx.symm
  obtain ⟨m', hem, hh', hregs, hcell⟩ := holds_tempSync hp hh hok
    (fun x r' hx hr' => by
      rw [hone x hx, hreg] at hr'
      cases hr'
      rw [hone x hx]
      exact ⟨hval, hr⟩) hsync
  have hctx : ((p₁.modTemp t Temp.toMem).freeReg r).ctx = p.ctx.modTemp t Temp.toMem := by
    rw [← (tempSync_ctx hsync).1]
    rfl
  refine ⟨m', hem.trans (Emits.of_buf rfl m'), ?_, ?_, hregs⟩
  · rw [hctx]
    apply hp.modTemp t
    intro x hx
    rw [hone x hx]
    refine ⟨⟨rfl, rfl, rfl, rfl, rfl⟩, .inr ⟨?_, nofun, fun _ => ?_⟩⟩
    · intro hfix
      rw [hglobal] at hfix
      cases hfix
    · obtain ⟨b, hb⟩ := Option.isSome_iff_exists.mp ((hp.based t temp htemp).mpr hglobal)
      rw [cellOf, hb]
      rfl
  · rw [hctx]
    apply hh'.modTemp t
    intro x hx
    refine ⟨nofun, fun _ c hc => ?_, nofun⟩
    exact hcell x c hx (by rw [hone x hx, hreg]; rfl) hc

/-- A local is stored to its slot and leaves its register. -/
theorem carries_evict_local {ctx' : Context} {t : Nat} {temp : Temp} {r fr : Reg} {offset : Int}
    (hp : Placed v fp p.ctx) (hh : Holds v fp ok p.ctx m) (hr : ok r)
    (htemp : p.ctx.temp t = some temp) (hreg : temp.reg = some r)
    (hlocal : temp.isGlobalOrFixed = false) (hframe : p.ctx.allocTempFrame t = some (ctx', offset))
    (hfr : ctx'.frameReg = some fr) (hctx : p'.ctx = ctx'.modTemp t Temp.toMem)
    (hbuf : p'.buf = p.buf ++ [.st temp.ty r fr offset]) : Carries v fp ok p p' m := by
  have hkind : temp.kind ≠ .global ∧ temp.kind ≠ .fixed := by
    simpa [Temp.isGlobalOrFixed] using hlocal
  have hb : temp.memBase = none := by
    rw [← Option.not_isSome_iff_eq_none]
    exact fun hsome => hkind.1 ((hp.based t temp htemp).mp hsome)
  have hp' := placed_allocTempFrame hp htemp hb hframe
  obtain ⟨hfreg, hother, hnew⟩ := allocTempFrame_spec htemp hframe
  have hplaced : Placed v fp p'.ctx := by
    rw [hctx]
    apply hp'.modTemp t
    intro x hx
    rw [hnew] at hx
    injection hx with hx
    refine ⟨⟨rfl, rfl, rfl, rfl, rfl⟩, .inr ⟨?_, fun _ h => (by cases h), fun _ => ?_⟩⟩
    · intro hfix
      rw [← hx] at hfix
      exact absurd hfix hkind.2
    · rw [← hx, cellOf]
      simp only [hb]
      rfl
  have htemp' : p'.ctx.temp t =
      some (Temp.toMem { temp with memAllocated := true, memOffset := offset }) := by
    rw [hctx, temp_modTemp, if_pos rfl, hnew]
    rfl
  have hcell : cellOf v fp (Temp.toMem { temp with memAllocated := true, memOffset := offset }) =
      some (fp, offset) := by
    simp [cellOf, Temp.toMem, hb]
  have hvalue : trunc temp.ty (trunc temp.ty (m.regs r)) = trunc temp.ty (v t) := by
    rw [trunc_trunc]
    exact hh.reg t temp r htemp hreg hr
  have hkeep : ∀ u, u ≠ t → p'.ctx.temp u = p.ctx.temp u := by
    intro u hu
    rw [hctx, temp_modTemp, if_neg hu]
    exact hother u hu
  have hh' := hh.spill hkeep htemp' hplaced (by rw [hctx]; exact hfreg) rfl rfl hcell hvalue
  refine ⟨_, ⟨[.st temp.ty r fr offset], hbuf, ?_⟩, hplaced, hh', rfl⟩
  rw [← hh.frame fr (hfreg ▸ hfr)]
  rfl

/-- Evicting a register that holds the value of its occupant. -/
theorem carries_evictReg {r : Reg} (hs : Sound p) (hp : Placed v fp p.ctx)
    (hh : Holds v fp ok p.ctx m) (hok : OkFixed ok p.ctx) (hr : ok r)
    (hocc : ∀ t temp, (books p).occupant r = some t → p.ctx.temp t = some temp →
      temp.reg = some r ∧ temp.kind ≠ .fixed)
    (h : evictReg p r = some p') : Carries v fp ok p p' m := by
  rw [evictReg] at h
  split at h
  · injection h with h
    rw [← h]
    exact ⟨m, Emits.refl p m, hp, hh, rfl⟩
  · rename_i t hoccr
    obtain ⟨temp, htemp, h⟩ := Option.bind_eq_some_iff.mp h
    obtain ⟨hreg, hkind⟩ := hocc t temp hoccr htemp
    have hval : temp.valType = .reg := (hs.located t temp htemp).mpr (by rw [hreg]; rfl)
    split at h
    · rename_i hown
      have hglobal : temp.kind = .global := by simpa [Temp.isGlobalOrFixed, hkind] using hown
      obtain ⟨p₁, hsync, h⟩ := Option.bind_eq_some_iff.mp h
      injection h with h
      rw [← h]
      exact carries_evict_global (p := { p with evictions := p.evictions ++ [⟨r, t, temp.reg⟩] })
        hp hh hok hr htemp hreg hval hglobal hsync
    · rename_i hown
      obtain ⟨⟨ctx', offset⟩, hframe, h⟩ := Option.bind_eq_some_iff.mp h
      obtain ⟨fr, hfr, h⟩ := Option.bind_eq_some_iff.mp h
      injection h with h
      exact carries_evict_local hp hh hr htemp hreg (by simpa using hown) hframe hfr
        (by rw [← h]; rfl) (by rw [← h]; rfl)

end TcgRs.Analysis.RegValues
