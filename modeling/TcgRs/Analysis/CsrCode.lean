import TcgRs.Analysis.FpCode
import TcgRs.Analysis.FpCsrViews
import TcgRs.Interface.RiscvProgram

/-!
# Code of CSR instructions

Every CSR: the views of `fcsr`, the words of the CPU state, and the counters, which read as zero and
cannot be written.  An access to an unknown or read-only one gives up with the CPU as it was.
-/

set_option autoImplicit false
set_option linter.constructorNameAsVariable false

namespace TcgRs.Analysis.CsrCode

open TcgRs.Model TcgRs.Model.Ir TcgRs.Model.Riscv TcgRs.Interface.Ir TcgRs.Interface.RiscvExec
open GeneratedCode GuestCode CpuFields FpCode FpCsrViews

/-! ## The registers -/

inductive CsrKind where
  | view (view : FpCsr)
  | word (field : CpuField)
  | zero
  deriving DecidableEq, Repr

/-- The CSR with a number. -/
def csrKind (csr : Int) : Option CsrKind :=
  if csr = CSR_FFLAGS then some (.view .fflags)
  else if csr = CSR_FRM then some (.view .frm)
  else if csr = CSR_FCSR then some (.view .fcsr)
  else if csr = CSR_USTATUS then some (.word .ustatus)
  else if csr = CSR_UIE then some (.word .uie)
  else if csr = CSR_UTVEC then some (.word .utvec)
  else if csr = CSR_USCRATCH then some (.word .uscratch)
  else if csr = CSR_UEPC then some (.word .uepc)
  else if csr = CSR_UCAUSE then some (.word .ucause)
  else if csr = CSR_UTVAL then some (.word .utval)
  else if csr = CSR_UIP then some (.word .uip)
  else if csr = CSR_CYCLE ∨ csr = CSR_TIME ∨ csr = CSR_INSTRET then some .zero
  else none

namespace CsrKind

def read (c : Cpu) : CsrKind → BitVec 64
  | .view v => readValue v c
  | .word field => c.field field
  | .zero => 0

/-- The CPU after a write; `none` if the CSR is read-only. -/
def write (x : BitVec 64) (c : Cpu) : CsrKind → Option Cpu
  | .view v => some (writeView v x c)
  | .word field => some (c.setField field x)
  | .zero => none

/-- The CPU after an access that leaves the old value in rd. -/
def access (c : Cpu) (rd : Fin 32) (writes : Bool) (f : Cpu → BitVec 64 → BitVec 64)
    (kind : CsrKind) : Option Cpu :=
  let old := kind.read c
  if writes then (kind.write (f c old) c).map fun c' => c'.setReg rd old
  else some (c.setReg rd old)

end CsrKind

/-- The word of the CPU state that a CSR is. -/
theorem csrWordOffset_eq {csr : Int} (h₁ : csr ≠ CSR_FFLAGS) (h₂ : csr ≠ CSR_FRM)
    (h₃ : csr ≠ CSR_FCSR) : (∃ field, csrKind csr = some (.word field) ∧
      csrWordOffset csr = some field.offset) ∨ csrWordOffset csr = none ∧
      csrKind csr = if csr = CSR_CYCLE ∨ csr = CSR_TIME ∨ csr = CSR_INSTRET then some .zero
        else none := by
  unfold csrKind csrWordOffset
  rw [if_neg h₁, if_neg h₂, if_neg h₃]
  by_cases h : csr = CSR_USTATUS
  · exact .inl ⟨.ustatus, by rw [if_pos h], by rw [if_pos h]; rfl⟩
  rw [if_neg h, if_neg h]
  by_cases h : csr = CSR_UIE
  · exact .inl ⟨.uie, by rw [if_pos h], by rw [if_pos h]; rfl⟩
  rw [if_neg h, if_neg h]
  by_cases h : csr = CSR_UTVEC
  · exact .inl ⟨.utvec, by rw [if_pos h], by rw [if_pos h]; rfl⟩
  rw [if_neg h, if_neg h]
  by_cases h : csr = CSR_USCRATCH
  · exact .inl ⟨.uscratch, by rw [if_pos h], by rw [if_pos h]; rfl⟩
  rw [if_neg h, if_neg h]
  by_cases h : csr = CSR_UEPC
  · exact .inl ⟨.uepc, by rw [if_pos h], by rw [if_pos h]; rfl⟩
  rw [if_neg h, if_neg h]
  by_cases h : csr = CSR_UCAUSE
  · exact .inl ⟨.ucause, by rw [if_pos h], by rw [if_pos h]; rfl⟩
  rw [if_neg h, if_neg h]
  by_cases h : csr = CSR_UTVAL
  · exact .inl ⟨.utval, by rw [if_pos h], by rw [if_pos h]; rfl⟩
  rw [if_neg h, if_neg h]
  by_cases h : csr = CSR_UIP
  · exact .inl ⟨.uip, by rw [if_pos h], by rw [if_pos h]; rfl⟩
  rw [if_neg h, if_neg h]
  exact .inr ⟨rfl, rfl⟩

variable {self : RiscvDisasContext} {C : Context} {rest : Effects Guest} {n : Nat} {s : State Guest}

/-! ## Reads and writes -/

/-- A read of a known CSR leaves its value in a temp; the CPU stays as it is. -/
def ReadsCsr (self : RiscvDisasContext) (C : Context) (n : Nat) (s : State Guest)
    (kind : Option CsrKind) (r : Option Nat) (n' : Nat) (s' : State Guest) : Prop :=
  n ≤ n' ∧ cpuOf self C s' = cpuOf self C s ∧
    match kind with
    | some kind => ∃ t, r = some t ∧ IsOld C n' t ∧ (kind ≠ .zero → t < n') ∧
        val C s' t = kind.read (cpuOf self C s)
    | none => r = none

theorem readsCsr_view (v : FpCsr) {t n' : Nat} {s' : State Guest}
    (h : Reads self C n s (readValue v (cpuOf self C s)) t n' s') :
    ReadsCsr self C n s (some (.view v)) (some t) n' s' := by
  obtain ⟨hn, ht, hval, hcpu⟩ := h
  exact ⟨hn, hcpu, t, rfl, .inr ht, fun _ => ht, hval⟩

theorem does_csrRead (hself : Globals self C) (csr : Int) :
    Does (guestEffects rest) C (self.genCsrRead csr) (ReadsCsr self C n s (csrKind csr)) n s := by
  unfold RiscvDisasContext.genCsrRead
  split
  · rename_i hcsr
    subst hcsr
    exact does_bind ((does_genReadMasked hself .fflags FFLAGS_MASK).mono
      fun t _ _ h => does_pure (readsCsr_view .fflags h))
  split
  · rename_i hcsr
    subst hcsr
    exact does_bind ((does_genReadMasked hself .frm FRM_MASK).mono
      fun t _ _ h => does_pure (readsCsr_view .frm h))
  split
  · rename_i hcsr
    subst hcsr
    exact does_bind ((does_genReadFcsr hself).mono
      fun t _ _ h => does_pure (readsCsr_view .fcsr h))
  rename_i h₁ h₂ h₃
  obtain ⟨field, hkind, hoffset⟩ | ⟨hoffset, hkind⟩ := csrWordOffset_eq h₁ h₂ h₃
  · rw [hkind, hoffset]
    refine does_bind (does_newTemp fun hv => ?_)
    refine does_bind (does_ldField field (does_pure ?_))
    exact ⟨Nat.le_succ n, cpuOf_setTemp hself hv _, n, rfl, .inr (Nat.lt_succ_self n),
      fun _ => Nat.lt_succ_self n, val_setTemp_self hv _ _⟩
  · rw [hkind, hoffset]
    dsimp only
    split
    · refine does_bind (does_newConst fun c n' hn hc => does_pure ?_)
      exact ⟨hn, rfl, c, rfl, .inl hc.isFixed, fun h => absurd rfl h, hc.val s⟩
    · exact does_pure ⟨le_rfl, rfl, rfl⟩

/-- A write of a CSR that can be written. -/
def WritesCsr (self : RiscvDisasContext) (C : Context) (n : Nat) (s : State Guest)
    (after : Option Cpu) (ok : Bool) (n' : Nat) (s' : State Guest) : Prop :=
  match after with
  | some c => ok = true ∧ Writes self C n s c n' s'
  | none => ok = false ∧ cpuOf self C s' = cpuOf self C s

theorem does_csrWrite (hself : Globals self C) {csr : Int} {kind : CsrKind}
    (hkind : csrKind csr = some kind) {t : Nat} (ht : IsOld C n t) :
    Does (guestEffects rest) C (self.genCsrWrite csr t)
      (WritesCsr self C n s (kind.write (val C s t) (cpuOf self C s))) n s := by
  by_cases h₁ : csr = CSR_FFLAGS
  · subst h₁
    cases hkind
    exact FpCsrViews.does_genCsrWrite hself .fflags ht
  by_cases h₂ : csr = CSR_FRM
  · subst h₂
    cases hkind
    exact FpCsrViews.does_genCsrWrite hself .frm ht
  by_cases h₃ : csr = CSR_FCSR
  · subst h₃
    cases hkind
    exact FpCsrViews.does_genCsrWrite hself .fcsr ht
  unfold RiscvDisasContext.genCsrWrite
  rw [if_neg h₁, if_neg h₂, if_neg h₃]
  obtain ⟨field, hword, hoffset⟩ | ⟨hoffset, hzero⟩ := csrWordOffset_eq h₁ h₂ h₃
  · rw [hword] at hkind
    cases hkind
    rw [hoffset]
    refine does_bind (does_stField field (does_pure ⟨rfl, le_rfl, ?_, cpuOf_setField field _⟩))
    exact (Keeps.refl n s).setField field _
  · rw [hzero] at hkind
    rw [hoffset]
    split at hkind
    · cases hkind
      exact does_pure ⟨rfl, rfl⟩
    · cases hkind

/-! ## Instructions -/

/-- A generator of the new value from the old one. -/
def MakesValue (self : RiscvDisasContext) (C : Context) (rest : Effects Guest) (value : Nat → Gen Nat)
    (f : Cpu → BitVec 64 → BitVec 64) : Prop :=
  ∀ (old n : Nat) (s : State Guest), IsOld C n old →
    Does (guestEffects rest) C (value old)
      (Computes self C n s (f (cpuOf self C s) (val C s old))) n s

theorem makesValue_operand {operand : Gen Nat} {f : Cpu → BitVec 64}
    (h : ∀ (n : Nat) (s : State Guest),
      Does (guestEffects rest) C operand (Computes self C n s (f (cpuOf self C s))) n s) :
    MakesValue self C rest (fun _ => operand) fun c _ => f c :=
  fun _ n s _ => h n s

theorem makesValue_set (hself : Globals self C) {operand : Gen Nat} {f : Cpu → BitVec 64}
    (h : ∀ (n : Nat) (s : State Guest),
      Does (guestEffects rest) C operand (Computes self C n s (f (cpuOf self C s))) n s) :
    MakesValue self C rest (RiscvDisasContext.genCsrSet operand) fun c old => old ||| f c := by
  intro old n s hold
  unfold RiscvDisasContext.genCsrSet
  refine does_bind ((h n s).mono ?_)
  rintro bits n1 s1 ⟨hn1, hbits, hkeep, hcpu, hval⟩
  refine does_bind (does_newTemp fun hnew => ?_)
  refine does_binary rfl ⟨by omega, .inr (Nat.lt_succ_self _), ?_, ?_, ?_⟩
  · exact hkeep.setTemp hnew hn1 _
  · rw [cpuOf_setTemp hself hnew, hcpu]
  · rw [val_setTemp_self hnew, hval, hkeep old hold]
    rfl

theorem makesValue_clear (hself : Globals self C) {operand : Gen Nat} {f : Cpu → BitVec 64}
    (h : ∀ (n : Nat) (s : State Guest),
      Does (guestEffects rest) C operand (Computes self C n s (f (cpuOf self C s))) n s) :
    MakesValue self C rest (RiscvDisasContext.genCsrClear operand)
      fun c old => old &&& ~~~f c := by
  intro old n s hold
  unfold RiscvDisasContext.genCsrClear
  refine does_bind ((h n s).mono ?_)
  rintro bits n1 s1 ⟨hn1, hbits, hkeep, hcpu, hval⟩
  refine does_bind (does_newTemp fun hinv => ?_)
  refine does_bind (does_not ?_)
  refine does_bind (does_newTemp fun hnew => ?_)
  have hkeep2 := hkeep.setTemp hinv hn1 (~~~val C s1 bits)
  refine does_binary rfl ⟨by omega, .inr (Nat.lt_succ_self _), ?_, ?_, ?_⟩
  · exact hkeep2.setTemp hnew (by omega) _
  · rw [cpuOf_setTemp hself hnew, cpuOf_setTemp hself hinv, hcpu]
  · rw [val_setTemp_self hnew, val_setTemp_self hinv, hkeep2 old hold, hval]
    rfl

/-- Code that ends well with the CPU that it should leave, or gives up with the CPU as it was. -/
def Tries (self : RiscvDisasContext) (C : Context) (s : State Guest) (after : Option Cpu)
    (ok : Bool) (s' : State Guest) : Prop :=
  match after with
  | some c => ok = true ∧ cpuOf self C s' = c
  | none => ok = false ∧ cpuOf self C s' = cpuOf self C s

theorem does_csrOp (hself : Globals self C) (hext : self.cfg.extZicsr = true) (a : ArgsCsr)
    (writes : Bool) {value : Nat → Gen Nat} {f : Cpu → BitVec 64 → BitVec 64}
    (hvalue : MakesValue self C rest value f) :
    Does (guestEffects rest) C (self.genCsrOp a writes value)
      (fun ok _ s' => Tries self C s
        ((csrKind a.csr).bind (CsrKind.access (cpuOf self C s) a.rd writes f)) ok s') n s := by
  unfold RiscvDisasContext.genCsrOp RiscvDisasContext.requireCfg
  rw [if_pos hext]
  refine does_bind ((does_csrRead hself a.csr).mono ?_)
  rintro r n1 s1 ⟨hn1, hcpu1, hr⟩
  cases hkind : csrKind a.csr with
  | none =>
    rw [hkind] at hr
    subst hr
    exact does_pure ⟨rfl, hcpu1⟩
  | some kind =>
    rw [hkind] at hr
    obtain ⟨old, rfl, hold, hlt, hval⟩ := hr
    dsimp only
    rw [Option.bind_some]
    cases writes with
    | false =>
      refine does_bind (does_genSetGpr (does_pure ⟨rfl, ?_⟩))
      rw [cpuOf_setGpr hself, hcpu1, hval]
    | true =>
      refine does_bind ((hvalue old n1 s1 hold).mono ?_)
      rintro new n2 s2 ⟨hn2, hnew, hkeep2, hcpu2, hval2⟩
      refine does_bind ((does_csrWrite hself hkind hnew).mono ?_)
      rintro ok n3 s3 hwrite
      rw [hcpu2, hcpu1, hval2, hcpu1, hval] at hwrite
      unfold CsrKind.access
      rw [if_pos rfl]
      cases hafter : kind.write (f (cpuOf self C s) (kind.read (cpuOf self C s)))
          (cpuOf self C s) with
      | none =>
        rw [hafter] at hwrite
        obtain ⟨rfl, hcpu3⟩ := hwrite
        exact does_pure ⟨rfl, hcpu3.trans (hcpu2.trans hcpu1)⟩
      | some c =>
        rw [hafter] at hwrite
        obtain ⟨rfl, hn3, hkeep3, hcpu3⟩ := hwrite
        have hzero : kind ≠ .zero := by
          rintro rfl
          cases hafter
        have hold3 : val C s3 old = val C s1 old :=
          (hkeep3 old (lt_of_lt_of_le (hlt hzero) hn2)).trans (hkeep2 old hold)
        refine does_bind (does_genSetGpr (does_pure ⟨rfl, ?_⟩))
        rw [cpuOf_setGpr hself, hcpu3, hold3, hval]

/-! ## The six instructions -/

/-- The operand: a register or its number. -/
def csrOperand (immediate : Bool) (rs1 : Fin 32) (c : Cpu) : BitVec 64 :=
  if immediate then BitVec.ofNat 64 rs1.val else c.hart.x rs1

/-- Whether the CSR is written. -/
def csrWrites (access : CsrAccess) (rs1 : Fin 32) : Bool := access = .write ∨ rs1 ≠ 0

/-- The CPU after a CSR instruction; `none` if the CSR is unknown or read-only. -/
def afterCsr (access : CsrAccess) (immediate : Bool) (a : ArgsCsr) (c : Cpu) : Option Cpu :=
  (csrKind a.csr).bind (CsrKind.access c a.rd (csrWrites access a.rs1)
    fun c old => access.value old (csrOperand immediate a.rs1 c))

/-- The code of the operand. -/
def genCsrOperand (self : RiscvDisasContext) (immediate : Bool) (a : ArgsCsr) : Gen Nat :=
  if immediate then RiscvDisasContext.csrZimm a else self.gprOrZero a.rs1

theorem does_csrOperand (hself : Globals self C) (immediate : Bool) (a : ArgsCsr) (n : Nat)
    (s : State Guest) : Does (guestEffects rest) C (genCsrOperand self immediate a)
      (Computes self C n s (csrOperand immediate a.rs1 (cpuOf self C s))) n s := by
  cases immediate with
  | true => exact does_const _
  | false => exact does_gpr hself a.rs1

theorem csrWrites_eq {access : CsrAccess} (h : access ≠ .write) (rs1 : Fin 32) :
    csrWrites access rs1 = (rs1 != 0) := by
  unfold csrWrites
  rw [Bool.eq_iff_iff, decide_eq_true_iff, bne_iff_ne]
  exact or_iff_right h

theorem does_transCsr (hself : Globals self C) (hext : self.cfg.extZicsr = true)
    (access : CsrAccess) (immediate : Bool) (a : ArgsCsr) :
    Does (guestEffects rest) C (transCsr self access immediate a)
      (fun ok _ s' => Tries self C s (afterCsr access immediate a (cpuOf self C s)) ok s')
      n s := by
  have hoperand (n : Nat) (s : State Guest) : Does (guestEffects rest) C
      (genCsrOperand self immediate a)
      (Computes self C n s (csrOperand immediate a.rs1 (cpuOf self C s))) n s :=
    does_csrOperand hself immediate a n s
  cases access with
  | write =>
    have htrans : transCsr self .write immediate a =
        self.genCsrOp a true fun _ => genCsrOperand self immediate a := by
      cases immediate <;> rfl
    rw [htrans]
    exact does_csrOp hself hext a true (makesValue_operand hoperand)
  | set =>
    have htrans : transCsr self .set immediate a =
        self.genCsrOp a (a.rs1 != 0) (RiscvDisasContext.genCsrSet (genCsrOperand self immediate a)) := by
      cases immediate <;> rfl
    unfold afterCsr
    rw [htrans, csrWrites_eq (by decide)]
    exact does_csrOp hself hext a _ (makesValue_set hself hoperand)
  | clear =>
    have htrans : transCsr self .clear immediate a = self.genCsrOp a (a.rs1 != 0)
        (RiscvDisasContext.genCsrClear (genCsrOperand self immediate a)) := by
      cases immediate <;> rfl
    unfold afterCsr
    rw [htrans, csrWrites_eq (by decide)]
    exact does_csrOp hself hext a _ (makesValue_clear hself hoperand)

end TcgRs.Analysis.CsrCode
