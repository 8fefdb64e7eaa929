import TcgRs.Analysis.GuestAccess

/-!
# Reservations

Runs of one hart, with the reservation that the specification gives it: an LR makes one for its
address, an SC ends it, and only an SC that finds a reservation for its address may store.  The code
is simplified to one thread: an SC does not compare addresses, and succeeds with any reservation.
-/

set_option autoImplicit false
set_option linter.constructorNameAsVariable false

namespace TcgRs.Analysis.Reservations

open TcgRs.Model TcgRs.Model.Ir TcgRs.Model.Riscv TcgRs.Interface.Ir TcgRs.Interface.RiscvExec
open GeneratedCode GuestCode GuestAccess

/-! ## Runs -/

/-- The width of a load-reserved or store-conditional. -/
inductive Width where
  | word | double
  deriving DecidableEq, Repr

/-- An instruction as the reservation sees it. -/
inductive ResInsn where
  | lr (width : Width) (a : ArgsAtomic)
  | sc (width : Width) (a : ArgsAtomic)
  | other

def lrMemop : Width → MemOp
  | .word => .sl
  | .double => .uq

def scMemop : Width → MemOp
  | .word => .ul
  | .double => .uq

def transLr (self : RiscvDisasContext) : Width → ArgsAtomic → Gen Bool
  | .word => self.transLrW
  | .double => self.transLrD

def transSc (self : RiscvDisasContext) : Width → ArgsAtomic → Gen Bool
  | .word => self.transScW
  | .double => self.transScD

/-- The code of a translation, in some block, takes one hart to the other. -/
def RunsCode (dc : RiscvDisasContext) (trans : RiscvDisasContext → Gen Bool) (h h' : Hart) : Prop :=
  ∃ (self : RiscvDisasContext) (b₀ b b' : Builder) (C : Context) (rest : Effects Guest)
    (s s' : State Guest), initDisasContext dc .new = some (self, b₀) ∧ b₀.Extends b ∧
      (trans self).run b = (true, b') ∧ b'.ctx.Extends C ∧
      Interprets (guestEffects rest) C (newOps b b') s s' ∧ hartOf self C s = h ∧
      hartOf self C s' = h'

/-- One instruction.  The instructions other than LR and SC may do anything to the hart. -/
def Executes (dc : RiscvDisasContext) : ResInsn → Hart → Hart → Prop
  | .lr width a => RunsCode dc fun self => transLr self width a
  | .sc width a => RunsCode dc fun self => transSc self width a
  | .other => fun _ _ => True

/-- An instruction with the harts before and after it. -/
structure Event where
  insn : ResInsn
  before : Hart
  after : Hart

/-- A run from a hart. -/
inductive IsRun (dc : RiscvDisasContext) : Hart → List Event → Prop where
  | nil (h : Hart) : IsRun dc h []
  | cons {h h' : Hart} {insn : ResInsn} {events : List Event} (step : Executes dc insn h h')
    (rest : IsRun dc h' events) : IsRun dc h (⟨insn, h, h'⟩ :: events)

/-! ## The rule -/

/-- The value of the reservation register that means none. -/
def noReservation : BitVec 64 := -1

/-- The reservation after an instruction. -/
def heldAfter (e : Event) (held : Option (BitVec 64)) : Option (BitVec 64) :=
  match e.insn with
  | .lr _ a => some (e.before.x a.rs1)
  | .sc _ _ => none
  | .other => held

/-- An LR loads and sets the reservation. -/
def LrDone (width : Width) (a : ArgsAtomic) (h h' : Hart) : Prop :=
  let value := loadValue (lrMemop width) h.mem (h.x a.rs1)
  h' = { h with loadRes := h.x a.rs1, loadVal := value }.setReg a.rd value

/-- An SC that finds a reservation for its address stores and writes 0; any other one leaves memory
as it is and writes a value that is not 0.  No reservation is held after it. -/
def ScDone (held : Option (BitVec 64)) (width : Width) (a : ArgsAtomic) (h h' : Hart) : Prop :=
  h'.loadRes = noReservation ∧
    if held = some (h.x a.rs1) then
      h'.mem = storeValue (scMemop width) h.mem (h.x a.rs1) (h.x a.rs2) ∧ h'.x = (h.setReg a.rd 0).x
    else h'.mem = h.mem ∧ (a.rd ≠ 0 → h'.x a.rd ≠ 0)

/-- Every LR and SC of a run does what the reservation before it demands. -/
def Respects : Option (BitVec 64) → List Event → Prop
  | _, [] => True
  | held, e :: events =>
    (match e.insn with
      | .lr width a => LrDone width a e.before e.after
      | .sc width a => ScDone held width a e.before e.after
      | .other => True) ∧ Respects (heldAfter e held) events

/-- The rule without the comparison of addresses: an SC that finds a reservation stores and writes
0, and no reservation is held after it. -/
def ScSucceeds (held : Option (BitVec 64)) (width : Width) (a : ArgsAtomic) (h h' : Hart) : Prop :=
  h'.loadRes = noReservation ∧ (held ≠ none →
    h'.mem = storeValue (scMemop width) h.mem (h.x a.rs1) (h.x a.rs2) ∧ h'.x = (h.setReg a.rd 0).x)

/-- Every LR of a run makes its reservation, and every SC succeeds with any. -/
def Honours : Option (BitVec 64) → List Event → Prop
  | _, [] => True
  | held, e :: events =>
    (match e.insn with
      | .lr width a => LrDone width a e.before e.after
      | .sc width a => ScSucceeds held width a e.before e.after
      | .other => True) ∧ Honours (heldAfter e held) events

/-- An SC that has a reservation for its address, or of which nothing shows. -/
def ScReserved (held : Option (BitVec 64)) (width : Width) (a : ArgsAtomic) (h : Hart) : Prop :=
  held = some (h.x a.rs1) ∨
    a.rd = 0 ∧ storeValue (scMemop width) h.mem (h.x a.rs1) (h.x a.rs2) = h.mem

/-- Every SC of a run is such. -/
def AllReserved : Option (BitVec 64) → List Event → Prop
  | _, [] => True
  | held, e :: events =>
    (match e.insn with
      | .sc width a => ScReserved held width a e.before
      | _ => True) ∧ AllReserved (heldAfter e held) events

/-! ## Generated code -/

variable {self : RiscvDisasContext} {C : Context} {rest : Effects Guest} {n : Nat}
  {s : State Guest}

/-- The hart after the code of an LR. -/
def afterLr (memop : MemOp) (a : ArgsAtomic) (h : Hart) : Hart :=
  let value := loadValue memop h.mem (h.x a.rs1)
  { h with loadRes := h.x a.rs1, loadVal := value }.setReg a.rd value

/-- The hart after the code of an SC. -/
def afterSc (memop : MemOp) (a : ArgsAtomic) (h : Hart) : Hart :=
  { h with
    loadRes := noReservation
    mem := storeValue memop h.mem (h.x a.rs1) (h.x a.rs2) }.setReg a.rd 0

theorem does_genLr (hself : Globals self C) (a : ArgsAtomic) (memop : MemOp) :
    Does (guestEffects rest) C (self.genLr a memop)
      (fun _ _ s' => hartOf self C s' = afterLr memop a (hartOf self C s)) n s := by
  unfold RiscvDisasContext.genLr
  refine does_bind (does_gprOrZero hself fun addr n1 hn1 haddr hx => ?_)
  refine does_bind (does_genRelease ?_)
  refine does_bind (does_newTemp fun hval => ?_)
  refine does_bind (does_qemuLd ?_)
  refine does_bind (does_genAcquire ?_)
  refine does_bind (does_mov ?_)
  refine does_bind (does_mov ?_)
  refine does_bind (does_genSetGpr (does_pure ?_))
  have hne : ∀ t, t < C.nbGlobals → n1 ≠ t :=
    fun t ht heq => Nat.not_le_of_lt ht (heq ▸ hval.not_global)
  rw [hartOf_setGpr hself, hartOf_setVal hself, hartOf_setRes hself, hartOf_setTemp hself hval,
    val_setTemp_of_ne (hne _ hself.val_lt), val_setTemp_of_ne (hne _ hself.res_lt),
    val_setTemp_self hval, val_setTemp_fixed haddr hval, hx]
  rfl

theorem does_genSc (hself : Globals self C) (a : ArgsAtomic) (memop : MemOp) :
    Does (guestEffects rest) C (self.genSc a memop)
      (fun _ _ s' => hartOf self C s' = afterSc memop a (hartOf self C s)) n s := by
  unfold RiscvDisasContext.genSc
  refine does_bind (does_gprOrZero hself fun addr n1 hn1 haddr hx => ?_)
  refine does_bind (does_gprOrZero hself fun src2 n2 hn2 hsrc2 hy => ?_)
  refine does_bind (does_qemuSt ?_)
  refine does_bind (does_newConst fun zero n3 hn3 hzero => ?_)
  refine does_bind (does_genSetGpr ?_)
  refine does_bind (does_newConst fun neg1 n4 hn4 hneg1 => ?_)
  refine does_bind (does_mov (does_pure ?_))
  rw [hartOf_setRes hself, hartOf_setGpr hself, hartOf_setMem, hzero.val, hneg1.val, hx, hy]
  rfl

/-! ## Steps -/

/-- What a translation that always ends well does to the hart. -/
theorem hart_of_runsCode {dc : RiscvDisasContext} {ext : MisaExt}
    {body : RiscvDisasContext → Gen Bool} {f : Hart → Hart}
    (hbody : ∀ (self : RiscvDisasContext) (C : Context) (rest : Effects Guest) (n : Nat)
      (s : State Guest), Globals self C →
        Does (guestEffects rest) C (body self)
          (fun _ _ s' => hartOf self C s' = f (hartOf self C s)) n s)
    {h h' : Hart} (hrun : RunsCode dc (fun self => self.requireExt ext (body self)) h h') :
    h' = f h := by
  obtain ⟨self, b₀, b, b', C, rest, s, s', hinit, hb, htrans, hC, hs', rfl, rfl⟩ := hrun
  have hself := globals_of_run hinit hb htrans hC
  have hext := ext_of_run htrans
  have hdoes := does_requireExt hext (hbody self C rest b.ctx.nbTemps s hself)
  obtain ⟨s₁, hs₁, hhart⟩ := hdoes.interprets htrans hC
  rw [hs'.unique hs₁, hhart]

theorem lr_step {dc : RiscvDisasContext} {width : Width} {a : ArgsAtomic} {h h' : Hart}
    (hrun : Executes dc (.lr width a) h h') : LrDone width a h h' := by
  cases width with
  | word => exact hart_of_runsCode (f := afterLr .sl a) (fun _ _ _ _ _ h => does_genLr h a .sl) hrun
  | double =>
    exact hart_of_runsCode (f := afterLr .uq a) (fun _ _ _ _ _ h => does_genLr h a .uq) hrun

/-- The hart after an SC, whatever reservation there is. -/
theorem sc_step {dc : RiscvDisasContext} {width : Width} {a : ArgsAtomic} {h h' : Hart}
    (hrun : Executes dc (.sc width a) h h') : h' = afterSc (scMemop width) a h := by
  cases width with
  | word => exact hart_of_runsCode (f := afterSc .ul a) (fun _ _ _ _ _ h => does_genSc h a .ul) hrun
  | double =>
    exact hart_of_runsCode (f := afterSc .uq a) (fun _ _ _ _ _ h => does_genSc h a .uq) hrun

theorem setReg_x_self (h : Hart) {rd : Fin 32} (hrd : rd ≠ 0) (v : BitVec 64) :
    (h.setReg rd v).x rd = v := by
  unfold Hart.setReg
  dsimp only
  rw [if_neg hrd, Function.update_self]

/-- One SC keeps the rule exactly where it has a reservation, or nothing shows. -/
theorem scDone_iff {dc : RiscvDisasContext} {held : Option (BitVec 64)} {width : Width}
    {a : ArgsAtomic} {h h' : Hart} (hrun : Executes dc (.sc width a) h h') :
    ScDone held width a h h' ↔ ScReserved held width a h := by
  have hafter := sc_step hrun
  have hmem : h'.mem = storeValue (scMemop width) h.mem (h.x a.rs1) (h.x a.rs2) := by
    rw [hafter]
    rfl
  have hres : h'.loadRes = noReservation := by
    rw [hafter]
    rfl
  unfold ScDone ScReserved
  by_cases hheld : held = some (h.x a.rs1)
  · rw [if_pos hheld]
    refine iff_of_true ⟨hres, hmem, ?_⟩ (.inl hheld)
    rw [hafter]
    rfl
  · rw [if_neg hheld, hmem]
    constructor
    · rintro ⟨-, hsame, hnonzero⟩
      refine .inr ⟨?_, hsame⟩
      by_contra hrd
      apply hnonzero hrd
      rw [hafter]
      exact setReg_x_self _ hrd 0
    · rintro (hsome | ⟨hrd, hsame⟩)
      · exact absurd hsome hheld
      · exact ⟨hres, hsame, fun hne => absurd hrd hne⟩

/-! ## All runs -/

/-- A run keeps the rule exactly where each of its SCs has a reservation for its address, or is one
of which nothing shows. -/
theorem respects_iff {dc : RiscvDisasContext} {h : Hart} {events : List Event}
    (hrun : IsRun dc h events) (held : Option (BitVec 64)) :
    Respects held events ↔ AllReserved held events := by
  induction hrun generalizing held with
  | nil h => exact Iff.rfl
  | cons step rest ih =>
    rename_i h h' insn events
    refine and_congr ?_ (ih _)
    cases insn with
    | lr width a => exact iff_of_true (lr_step step) trivial
    | sc width a => exact scDone_iff step
    | other => exact Iff.rfl

/-- In every run, an SC that finds a reservation succeeds, and none is held after an SC. -/
theorem run_honours {dc : RiscvDisasContext} {h : Hart} {events : List Event}
    (hrun : IsRun dc h events) : Honours none events := by
  suffices hall : ∀ held, Honours held events from hall none
  induction hrun with
  | nil h => exact fun _ => trivial
  | cons step rest ih =>
    rename_i h h' insn events
    intro held
    refine ⟨?_, ih _⟩
    cases insn with
    | lr width a => exact lr_step step
    | sc width a =>
      dsimp only
      rw [sc_step step]
      exact ⟨rfl, fun _ => ⟨rfl, rfl⟩⟩
    | other => exact trivial

/-! ## Runs of one block -/

/-- The code of a translation runs. -/
theorem runsCode_of_run {dc self : RiscvDisasContext} {b₀ b b' : Builder}
    (trans : RiscvDisasContext → Gen Bool) (rest : Effects Guest) (s : State Guest) {Q : Bool → Nat → State Guest → Prop}
    (hinit : initDisasContext dc .new = some (self, b₀)) (hb : b₀.Extends b)
    (hrun : (trans self).run b = (true, b')) (hC : b'.ctx.Extends C)
    (hdoes : Does (guestEffects rest) C (trans self) Q b.ctx.nbTemps s) :
    ∃ s', RunsCode dc trans (hartOf self C s) (hartOf self C s') := by
  obtain ⟨s', hs', -⟩ := hdoes.interprets hrun hC
  exact ⟨s', self, b₀, b, b', C, rest, s, s', hinit, hb, hrun, hC, hs', rfl, rfl⟩

/-- `lr.w x1, (x2)` and `sc.w x3, x4, (rs)`, in a fresh block, from any state. -/
theorem lr_sc_run (rs : Fin 32) : ∃ (self : RiscvDisasContext) (C : Context), Globals self C ∧
    ∀ s : State Guest, ∃ h₁ h₂ : Hart,
      Executes allExtensions (.lr .word ⟨0, 0, 1, 2, 0⟩) (hartOf self C s) h₁ ∧
        Executes allExtensions (.sc .word ⟨0, 0, 3, rs, 4⟩) h₁ h₂ := by
  have h : ∀ rs : Fin 32, ((initDisasContext allExtensions .new).any fun p =>
      ((p.1.transLrW ⟨0, 0, 1, 2, 0⟩).run p.2).1 &&
        ((p.1.transScW ⟨0, 0, 3, rs, 4⟩).run ((p.1.transLrW ⟨0, 0, 1, 2, 0⟩).run p.2).2).1) =
      true := by decide
  have h := h rs
  rw [Option.any_eq_true] at h
  obtain ⟨⟨self, b₀⟩, hinit, hok⟩ := h
  rw [Bool.and_eq_true] at hok
  have hlr : (self.transLrW ⟨0, 0, 1, 2, 0⟩).run b₀ =
      (true, ((self.transLrW ⟨0, 0, 1, 2, 0⟩).run b₀).2) := Prod.ext hok.1 rfl
  generalize ((self.transLrW ⟨0, 0, 1, 2, 0⟩).run b₀).2 = b₁ at hlr hok
  have hsc : (self.transScW ⟨0, 0, 3, rs, 4⟩).run b₁ =
      (true, ((self.transScW ⟨0, 0, 3, rs, 4⟩).run b₁).2) := Prod.ext hok.2 rfl
  generalize ((self.transScW ⟨0, 0, 3, rs, 4⟩).run b₁).2 = b₂ at hsc
  have hb₁ : b₀.Extends b₁ := by
    have hext := (self.transLrW ⟨0, 0, 1, 2, 0⟩).extends_run b₀
    rw [hlr] at hext
    exact hext
  have hb₂ : b₁.Extends b₂ := by
    have hext := (self.transScW ⟨0, 0, 3, rs, 4⟩).extends_run b₁
    rw [hsc] at hext
    exact hext
  have hself := globals_of_run hinit hb₁ hsc (.refl b₂.ctx)
  refine ⟨self, b₂.ctx, hself, fun s => ?_⟩
  obtain ⟨s₁, hs₁⟩ := runsCode_of_run (fun self => transLr self .word ⟨0, 0, 1, 2, 0⟩)
    noEffects s hinit (.refl b₀) hlr hb₂.ctx
    (does_requireExt (ext_of_run hlr) (does_genLr hself _ .sl))
  obtain ⟨s₂, hs₂⟩ := runsCode_of_run (fun self => transSc self .word ⟨0, 0, 3, rs, 4⟩)
    noEffects s₁ hinit hb₁ hsc (.refl b₂.ctx)
    (does_requireExt (ext_of_run hsc) (does_genSc hself _ .ul))
  exact ⟨_, _, hs₁, hs₂⟩

/-- `lr.w x1, (x2)` and `sc.w x3, x4, (x2)` on a machine in which nothing is set. -/
theorem run_honours_lr_sc : ∃ h h₁ h₂,
    IsRun allExtensions h [⟨.lr .word ⟨0, 0, 1, 2, 0⟩, h, h₁⟩, ⟨.sc .word ⟨0, 0, 3, 2, 4⟩, h₁, h₂⟩] ∧
      Honours none [⟨.lr .word ⟨0, 0, 1, 2, 0⟩, h, h₁⟩, ⟨.sc .word ⟨0, 0, 3, 2, 4⟩, h₁, h₂⟩] := by
  obtain ⟨self, C, -, hall⟩ := lr_sc_run 2
  obtain ⟨h₁, h₂, hlr, hsc⟩ := hall blankState
  have hrun := IsRun.cons hlr (.cons hsc (.nil h₂))
  exact ⟨_, h₁, h₂, hrun, run_honours hrun⟩

/-- `lr.w x1, (x2)` and `sc.w x3, x4, (x5)` with different addresses in x2 and x5: the SC stores and
writes 0. -/
theorem sc_to_other_address : ∃ h h₁ h₂,
    IsRun allExtensions h [⟨.lr .word ⟨0, 0, 1, 2, 0⟩, h, h₁⟩, ⟨.sc .word ⟨0, 0, 3, 5, 4⟩, h₁, h₂⟩] ∧
      h.x 2 ≠ h.x 5 ∧
      ¬Respects none [⟨.lr .word ⟨0, 0, 1, 2, 0⟩, h, h₁⟩, ⟨.sc .word ⟨0, 0, 3, 5, 4⟩, h₁, h₂⟩] := by
  obtain ⟨self, C, hself, hall⟩ := lr_sc_run 5
  obtain ⟨h₁, h₂, hlr, hsc⟩ := hall (setTemp blankState (self.gpr 5) 8)
  have hx₅ : (hartOf self C (setTemp blankState (self.gpr 5) 8)).x 5 = 8 :=
    valueOf_update_self (hself.var _ (hself.gpr_lt 5)) _ _
  have hx₂ : (hartOf self C (setTemp blankState (self.gpr 5) 8)).x 2 = 0 := by
    have hne : self.gpr 2 ≠ self.gpr 5 := fun h => absurd (hself.gpr_inj _ _ h) (by decide)
    refine (valueOf_update_of_ne hne 8 blankState.temps).trans ?_
    rw [valueOf, hself.var _ (hself.gpr_lt 2), if_neg (fun h => Bool.false_ne_true h.2)]
    rfl
  have hrun := IsRun.cons hlr (.cons hsc (.nil h₂))
  refine ⟨_, h₁, h₂, hrun, ?_, ?_⟩
  · rw [hx₅, hx₂]
    decide
  · rw [respects_iff hrun none]
    rintro ⟨-, hreserved, -⟩
    have haddr : h₁.x 5 = 8 := by
      rw [lr_step hlr]
      exact hx₅
    cases hreserved with
    | inl hheld =>
      have heq : (hartOf self C (setTemp blankState (self.gpr 5) 8)).x 2 = h₁.x 5 :=
        Option.some.inj hheld
      rw [hx₂, haddr] at heq
      exact absurd heq (by decide)
    | inr hshown => exact absurd hshown.1 (by decide)

end TcgRs.Analysis.Reservations
