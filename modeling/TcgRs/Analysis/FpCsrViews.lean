import TcgRs.Analysis.CpuFields

/-!
# The views of the floating-point CSR

Two words of the CPU state stand for one byte, which instructions see through `fflags`, `frm` and
`fcsr`.  Every sequence of CSR instructions on these views does to the byte what the specification
says.
-/

set_option autoImplicit false

namespace TcgRs.Analysis.FpCsrViews

open TcgRs.Model TcgRs.Model.Ir TcgRs.Model.Riscv TcgRs.Interface.Ir TcgRs.Interface.RiscvExec
open GeneratedCode GuestCode CpuFields

/-! ## The byte -/

/-- The byte that two words stand for. -/
def byteOf (c : Cpu) : BitVec 8 := (c.field .frm).setWidth 3 ++ (c.field .fflags).setWidth 5

/-- The words have no other bits than those of the byte. -/
def Masked (c : Cpu) : Prop :=
  c.field .fflags &&& ~~~FFLAGS_MASK = 0 ∧ c.field .frm &&& ~~~FRM_MASK = 0

/-- A mask of low bits. -/
theorem and_low (x : BitVec 64) {k : Nat} (hk : k ≤ 64) :
    x &&& BitVec.ofNat 64 (2 ^ k - 1) = (x.setWidth k).setWidth 64 := by
  have hpow : 2 ^ k ≤ 2 ^ 64 := Nat.pow_le_pow_right (by decide) hk
  have hpos : 0 < 2 ^ k := Nat.two_pow_pos k
  apply BitVec.eq_of_toNat_eq
  rw [BitVec.toNat_and, BitVec.toNat_ofNat, Nat.mod_eq_of_lt (by omega),
    Nat.and_two_pow_sub_one_eq_mod, BitVec.toNat_setWidth, BitVec.toNat_setWidth,
    Nat.mod_eq_of_lt (lt_of_lt_of_le (Nat.mod_lt _ hpos) hpow)]

theorem and_fflags (x : BitVec 64) : x &&& FFLAGS_MASK = (x.setWidth 5).setWidth 64 :=
  and_low x (k := 5) (by decide)

theorem and_frm (x : BitVec 64) : x &&& FRM_MASK = (x.setWidth 3).setWidth 64 :=
  and_low x (k := 3) (by decide)

theorem low_append (a : BitVec 3) (b : BitVec 5) : (a ++ b).extractLsb' 0 5 = b := by
  apply BitVec.eq_of_getLsbD_eq
  intro i hi
  rw [BitVec.getLsbD_extractLsb', BitVec.getLsbD_append]
  simp [hi]

theorem high_append (a : BitVec 3) (b : BitVec 5) : (a ++ b).extractLsb' 5 3 = a := by
  apply BitVec.eq_of_getLsbD_eq
  intro i hi
  rw [BitVec.getLsbD_extractLsb', BitVec.getLsbD_append]
  simp [hi]

/-- Both words, shifted together. -/
theorem or_shifted (a : BitVec 3) (b : BitVec 5) :
    b.setWidth 64 ||| (a.setWidth 64 <<< 5) = (a ++ b).setWidth 64 := by
  apply BitVec.eq_of_getLsbD_eq
  intro i hi
  simp only [BitVec.getLsbD_or, BitVec.getLsbD_setWidth, BitVec.getLsbD_shiftLeft,
    BitVec.getLsbD_append]
  grind

/-- A byte, taken apart into both words. -/
theorem append_parts (v : BitVec 64) : (v >>> 5).setWidth 3 ++ v.setWidth 5 = v.setWidth 8 := by
  apply BitVec.eq_of_getLsbD_eq
  intro i hi
  simp only [BitVec.getLsbD_append, BitVec.getLsbD_setWidth, BitVec.getLsbD_ushiftRight]
  grind

theorem setWidth_low {k : Nat} (hk : k ≤ 64) (x : BitVec k) : (x.setWidth 64).setWidth k = x := by
  rw [BitVec.setWidth_setWidth_of_le x hk, BitVec.setWidth_eq]

/-! ## Reads -/

/-- What the code reads of a view. -/
def readValue (view : FpCsr) (c : Cpu) : BitVec 64 :=
  match view with
  | .fflags => c.field .fflags &&& FFLAGS_MASK
  | .frm => c.field .frm &&& FRM_MASK
  | .fcsr => (c.field .fflags &&& FFLAGS_MASK) ||| ((c.field .frm &&& FRM_MASK) <<< 5)

theorem readValue_eq (view : FpCsr) (c : Cpu) : readValue view c = view.view (byteOf c) := by
  cases view with
  | fflags =>
    show _ = ((byteOf c).extractLsb' 0 5).setWidth 64
    rw [byteOf, low_append]
    exact and_fflags _
  | frm =>
    show _ = ((byteOf c).extractLsb' 5 3).setWidth 64
    rw [byteOf, high_append]
    exact and_frm _
  | fcsr =>
    show (c.field .fflags &&& FFLAGS_MASK) ||| ((c.field .frm &&& FRM_MASK) <<< 5) = _
    rw [and_fflags, and_frm, or_shifted]
    rfl

variable {self : RiscvDisasContext} {C : Context} {rest : Effects Guest} {n : Nat} {s : State Guest}

/-- A read leaves its result in a new temp, and the CPU as it was. -/
def Reads (self : RiscvDisasContext) (C : Context) (n : Nat) (s : State Guest) (v : BitVec 64)
    (t n' : Nat) (s' : State Guest) : Prop :=
  n ≤ n' ∧ t < n' ∧ val C s' t = v ∧ cpuOf self C s' = cpuOf self C s

theorem does_genReadMasked (hself : Globals self C) (field : CpuField) (bits : BitVec 64) :
    Does (guestEffects rest) C (self.genReadMasked field.offset bits)
      (Reads self C n s ((cpuOf self C s).field field &&& bits)) n s := by
  unfold RiscvDisasContext.genReadMasked
  refine does_bind (does_newTemp fun hv => ?_)
  refine does_bind (does_ldField field ?_)
  refine does_bind (does_newConst fun mask n1 hn1 hmask => ?_)
  refine does_bind (does_newTemp fun hout => ?_)
  refine does_bind (does_binary rfl ?_)
  refine does_pure ⟨by omega, Nat.lt_succ_self _, ?_, ?_⟩
  · rw [val_setTemp_self hout, val_setTemp_self hv, hmask.val]
    rfl
  · rw [cpuOf_setTemp hself hout, cpuOf_setTemp hself hv]

theorem does_genReadFcsr (hself : Globals self C) :
    Does (guestEffects rest) C self.genReadFcsr
      (Reads self C n s (readValue .fcsr (cpuOf self C s))) n s := by
  unfold RiscvDisasContext.genReadFcsr
  refine does_bind (does_newTemp fun hfflags => ?_)
  refine does_bind (does_ldField .fflags ?_)
  refine does_bind (does_newConst fun fmask n1 hn1 hfmask => ?_)
  refine does_bind (does_binary rfl ?_)
  refine does_bind (does_newTemp fun hfrm => ?_)
  refine does_bind (does_ldField .frm ?_)
  refine does_bind (does_newConst fun rmask n2 hn2 hrmask => ?_)
  refine does_bind (does_binary rfl ?_)
  refine does_bind (does_newConst fun shift n3 hn3 hshift => ?_)
  refine does_bind (does_newTemp fun hfrmShift => ?_)
  refine does_bind (does_binary rfl ?_)
  refine does_bind (does_newTemp fun hout => ?_)
  refine does_bind (does_binary rfl ?_)
  refine does_pure ⟨by omega, Nat.lt_succ_self _, ?_, ?_⟩
  · have hfflags_frm : n ≠ n1 := by omega
    have hfflags_shift : n ≠ n3 := by omega
    have hfrm_shift : n1 ≠ n3 := by omega
    rw [val_setTemp_self hout, val_setTemp_self hfrmShift, val_setTemp_of_ne hfflags_shift,
      val_setTemp_of_ne hfflags_frm, val_setTemp_of_ne hfflags_frm, val_setTemp_self hfflags,
      val_setTemp_self hfflags, val_setTemp_self hfrm, val_setTemp_self hfrm, hshift.val,
      hrmask.val, hfmask.val, cpuOf_setTemp hself hfflags, cpuOf_setTemp hself hfflags]
    rfl
  · rw [cpuOf_setTemp hself hout, cpuOf_setTemp hself hfrmShift, cpuOf_setTemp hself hfrm,
      cpuOf_setTemp hself hfrm, cpuOf_setTemp hself hfflags, cpuOf_setTemp hself hfflags]

theorem does_genCsrRead (hself : Globals self C) (view : FpCsr) :
    Does (guestEffects rest) C (self.genCsrRead view.number)
      (fun r n' s' => ∃ t, r = some t ∧
        Reads self C n s (view.view (byteOf (cpuOf self C s))) t n' s') n s := by
  rw [← readValue_eq]
  cases view with
  | fflags =>
    exact does_bind ((does_genReadMasked hself .fflags FFLAGS_MASK).mono
      fun t _ _ h => does_pure ⟨t, rfl, h⟩)
  | frm =>
    exact does_bind ((does_genReadMasked hself .frm FRM_MASK).mono
      fun t _ _ h => does_pure ⟨t, rfl, h⟩)
  | fcsr =>
    exact does_bind ((does_genReadFcsr hself).mono fun t _ _ h => does_pure ⟨t, rfl, h⟩)

/-! ## Writes -/

/-- The CPU after the code has written a view. -/
def writeView (view : FpCsr) (v : BitVec 64) (c : Cpu) : Cpu :=
  match view with
  | .fflags => fsDirty (c.setField .fflags (v &&& FFLAGS_MASK))
  | .frm => fsDirty (c.setField .frm (v &&& FRM_MASK))
  | .fcsr =>
    fsDirty ((c.setField .fflags (v &&& FFLAGS_MASK)).setField .frm ((v >>> 5) &&& FRM_MASK))

/-- A temp that no later temp is. -/
def Stable (C : Context) (n t : Nat) : Prop := IsFixed C t ∨ t < n

theorem Stable.ne {t d : Nat} (h : Stable C n t) (hd : IsLocal C d) (hn : n ≤ d) : t ≠ d := by
  cases h with
  | inl hfixed => exact hfixed.ne hd
  | inr hlt => exact Nat.ne_of_lt (lt_of_lt_of_le hlt hn)

/-- A write leaves the older temps as they were. -/
def Writes (self : RiscvDisasContext) (C : Context) (n : Nat) (s : State Guest) (c : Cpu)
    (n' : Nat) (s' : State Guest) : Prop :=
  n ≤ n' ∧ Keeps C n s s' ∧ cpuOf self C s' = c

theorem does_genWriteMasked (hself : Globals self C) (field : CpuField) (bits : BitVec 64)
    (t : Nat) :
    Does (guestEffects rest) C (self.genWriteMasked field.offset bits t)
      (fun _ => Writes self C n s
        (fsDirty ((cpuOf self C s).setField field (val C s t &&& bits)))) n s := by
  unfold RiscvDisasContext.genWriteMasked
  refine does_bind (does_newConst fun mask n1 hn1 hmask => ?_)
  refine does_bind (does_newTemp fun hv => ?_)
  refine does_bind (does_binary rfl ?_)
  refine does_bind (does_stField field ?_)
  refine does_genSetFsDirty hself fun n2 s2 hn2 hkeep hcpu => ⟨by omega, ?_, ?_⟩
  · exact (((Keeps.refl n s).setTemp hn1 _).setField field _).trans (hkeep.mono (by omega))
  · rw [hcpu, cpuOf_setField, cpuOf_setTemp hself hv, val_setTemp_self hv, hmask.val]
    rfl

theorem does_genWriteFcsr (hself : Globals self C) {t : Nat} (ht : Stable C n t) :
    Does (guestEffects rest) C (self.genWriteFcsr t)
      (fun _ => Writes self C n s (writeView .fcsr (val C s t) (cpuOf self C s))) n s := by
  unfold RiscvDisasContext.genWriteFcsr
  refine does_bind (does_newConst fun fmask n1 hn1 hfmask => ?_)
  refine does_bind (does_newTemp fun hfflags => ?_)
  refine does_bind (does_binary rfl ?_)
  refine does_bind (does_stField .fflags ?_)
  refine does_bind (does_newConst fun shift n2 hn2 hshift => ?_)
  refine does_bind (does_newTemp fun hfrm => ?_)
  refine does_bind (does_binary rfl ?_)
  refine does_bind (does_newConst fun rmask n3 hn3 hrmask => ?_)
  refine does_bind (does_binary rfl ?_)
  refine does_bind (does_stField .frm ?_)
  refine does_genSetFsDirty hself fun n4 s4 hn4 hkeep hcpu => ⟨by omega, ?_, ?_⟩
  · refine Keeps.trans ?_ (hkeep.mono (by omega))
    refine Keeps.setField (Keeps.setTemp (Keeps.setTemp ?_ (by omega) _) (by omega) _) .frm _
    exact ((Keeps.refl n s).setTemp hn1 _).setField .fflags _
  · rw [hcpu, cpuOf_setField, cpuOf_setTemp hself hfrm, cpuOf_setTemp hself hfrm, cpuOf_setField,
      cpuOf_setTemp hself hfflags, val_setTemp_self hfrm, val_setTemp_self hfrm, hrmask.val,
      hshift.val, val_setField, val_setTemp_of_ne (ht.ne hfflags hn1), val_setTemp_self hfflags,
      hfmask.val]
    rfl

theorem does_genCsrWrite (hself : Globals self C) (view : FpCsr) {t : Nat} (ht : Stable C n t) :
    Does (guestEffects rest) C (self.genCsrWrite view.number t)
      (fun ok n' s' => ok = true ∧
        Writes self C n s (writeView view (val C s t) (cpuOf self C s)) n' s') n s := by
  cases view with
  | fflags =>
    exact does_bind ((does_genWriteMasked hself .fflags FFLAGS_MASK t).mono
      fun _ _ _ h => does_pure ⟨rfl, h⟩)
  | frm =>
    exact does_bind ((does_genWriteMasked hself .frm FRM_MASK t).mono
      fun _ _ _ h => does_pure ⟨rfl, h⟩)
  | fcsr =>
    exact does_bind ((does_genWriteFcsr hself ht).mono fun _ _ _ h => does_pure ⟨rfl, h⟩)

/-! ## Instructions -/

/-- A generator of a value that it leaves in a temp, from the old value in another one. -/
def Makes (self : RiscvDisasContext) (C : Context) (rest : Effects Guest) (value : Nat → Gen Nat)
    (f : Cpu → BitVec 64 → BitVec 64) : Prop :=
  ∀ (old n : Nat) (s : State Guest), old < n →
    Does (guestEffects rest) C (value old)
      (fun t n' s' => n ≤ n' ∧ Stable C n' t ∧ Keeps C n s s' ∧
        cpuOf self C s' = cpuOf self C s ∧ val C s' t = f (cpuOf self C s) (val C s old)) n s

/-- The CPU after the code of an instruction. -/
def afterCsr (view : FpCsr) (rd : Fin 32) (writes : Bool) (f : Cpu → BitVec 64 → BitVec 64)
    (c : Cpu) : Cpu :=
  let old := view.view (byteOf c)
  (if writes then writeView view (f c old) c else c).setReg rd old

theorem does_genCsrOp (hself : Globals self C) (hext : self.cfg.extZicsr = true) (view : FpCsr)
    (rs1 rd : Fin 32) (writes : Bool) {value : Nat → Gen Nat} {f : Cpu → BitVec 64 → BitVec 64}
    (hvalue : Makes self C rest value f) :
    Does (guestEffects rest) C (self.genCsrOp ⟨view.number, rs1, rd⟩ writes value)
      (fun ok _ s' => ok = true ∧
        cpuOf self C s' = afterCsr view rd writes f (cpuOf self C s)) n s := by
  unfold RiscvDisasContext.genCsrOp RiscvDisasContext.requireCfg
  rw [if_pos hext]
  refine does_bind ((does_genCsrRead hself view).mono ?_)
  rintro r n1 s1 ⟨old, rfl, hn1, hold, hval, hcpu⟩
  dsimp only
  cases writes with
  | false =>
    refine does_bind (does_genSetGpr (does_pure ⟨rfl, ?_⟩))
    rw [cpuOf_setGpr hself, hcpu, hval]
    rfl
  | true =>
    refine does_bind ((hvalue old n1 s1 hold).mono ?_)
    rintro new n2 s2 ⟨hn2, hnew, hkeep2, hcpu2, hval2⟩
    refine does_bind ((does_genCsrWrite hself view hnew).mono ?_)
    rintro ok n3 s3 ⟨rfl, hn3, hkeep3, hcpu3⟩
    refine does_bind (does_genSetGpr (does_pure ⟨rfl, ?_⟩))
    have hold3 : val C s3 old = val C s1 old :=
      (hkeep3 old (lt_of_lt_of_le hold hn2)).trans (hkeep2 old hold)
    rw [cpuOf_setGpr hself, hcpu3, hcpu2, hcpu, hold3, hval, hval2, hcpu, hval]
    rfl

/-- The code that gets the operand of an instruction. -/
def genOperand (self : RiscvDisasContext) (insn : FpCsrInsn) : Gen Nat :=
  if insn.immediate then RiscvDisasContext.csrZimm insn.args else self.gprOrZero insn.rs1

theorem does_operand (hself : Globals self C) (insn : FpCsrInsn) :
    Does (guestEffects rest) C (genOperand self insn)
      (fun t n' s' => n ≤ n' ∧ IsFixed C t ∧ s' = s ∧
        val C s t = insn.operand (cpuOf self C s).hart.x) n s := by
  unfold genOperand FpCsrInsn.operand
  split
  · exact does_newConst fun c n' hn hc => ⟨hn, hc.isFixed, rfl, hc.val s⟩
  · exact does_gprOrZero hself fun t n' hn ht hval => ⟨hn, ht, rfl, hval⟩

theorem makes_operand (hself : Globals self C) (insn : FpCsrInsn) :
    Makes self C rest (fun _ => genOperand self insn) fun c _ => insn.operand c.hart.x := by
  intro old n s hold
  refine (does_operand hself insn).mono ?_
  rintro t n' s' ⟨hn, ht, rfl, hval⟩
  exact ⟨hn, .inl ht, .refl n s', rfl, hval⟩

theorem makes_set (hself : Globals self C) (insn : FpCsrInsn) :
    Makes self C rest (RiscvDisasContext.genCsrSet (genOperand self insn))
      fun c old => old ||| insn.operand c.hart.x := by
  intro old n s hold
  unfold RiscvDisasContext.genCsrSet
  refine does_bind ((does_operand hself insn).mono ?_)
  rintro bits n1 s1 ⟨hn1, hbits, rfl, hval⟩
  refine does_bind (does_newTemp fun hnew => ?_)
  refine does_binary rfl ⟨by omega, .inr (Nat.lt_succ_self _), ?_, cpuOf_setTemp hself hnew _, ?_⟩
  · exact (Keeps.refl n s1).setTemp hn1 _
  · rw [val_setTemp_self hnew, hval]
    rfl

theorem makes_clear (hself : Globals self C) (insn : FpCsrInsn) :
    Makes self C rest (RiscvDisasContext.genCsrClear (genOperand self insn))
      fun c old => old &&& ~~~insn.operand c.hart.x := by
  intro old n s hold
  unfold RiscvDisasContext.genCsrClear
  refine does_bind ((does_operand hself insn).mono ?_)
  rintro bits n1 s1 ⟨hn1, hbits, rfl, hval⟩
  refine does_bind (does_newTemp fun hinv => ?_)
  refine does_bind (does_not ?_)
  refine does_bind (does_newTemp fun hnew => ?_)
  refine does_binary rfl ⟨by omega, .inr (Nat.lt_succ_self _), ?_, ?_, ?_⟩
  · exact ((Keeps.refl n s1).setTemp hn1 _).setTemp (by omega) _
  · rw [cpuOf_setTemp hself hnew, cpuOf_setTemp hself hinv]
  · rw [val_setTemp_self hnew, val_setTemp_self hinv, val_setTemp_of_ne (by omega), hval]
    rfl

/-- The CPU after an instruction, as the code leaves it. -/
def afterInsn (insn : FpCsrInsn) (c : Cpu) : Cpu :=
  afterCsr insn.view insn.rd insn.writes
    (fun c old => insn.access.value old (insn.operand c.hart.x)) c

theorem writes_eq {insn : FpCsrInsn} (h : insn.access ≠ .write) :
    insn.writes = (insn.rs1 != 0) := by
  unfold FpCsrInsn.writes
  rw [Bool.eq_iff_iff, decide_eq_true_iff, bne_iff_ne]
  exact or_iff_right h

theorem does_trans (hself : Globals self C) (hext : self.cfg.extZicsr = true)
    (insn : FpCsrInsn) :
    Does (guestEffects rest) C (insn.trans self)
      (fun ok _ s' => ok = true ∧ cpuOf self C s' = afterInsn insn (cpuOf self C s)) n s := by
  have hargs : insn.args = ⟨insn.view.number, insn.rs1, insn.rd⟩ := rfl
  cases haccess : insn.access with
  | write =>
    have htrans : insn.trans self = self.genCsrOp insn.args true fun _ => genOperand self insn := by
      unfold FpCsrInsn.trans genOperand
      rw [haccess]
      cases insn.immediate <;> rfl
    have hafter : afterInsn insn = afterCsr insn.view insn.rd true
        fun c _ => insn.operand c.hart.x := by
      unfold afterInsn FpCsrInsn.writes
      rw [haccess]
      rfl
    rw [htrans, hafter, hargs]
    exact does_genCsrOp hself hext insn.view insn.rs1 insn.rd true (makes_operand hself insn)
  | set =>
    have htrans : insn.trans self = self.genCsrOp insn.args (insn.rs1 != 0)
        (RiscvDisasContext.genCsrSet (genOperand self insn)) := by
      unfold FpCsrInsn.trans genOperand
      rw [haccess]
      cases insn.immediate <;> rfl
    have hafter : afterInsn insn = afterCsr insn.view insn.rd (insn.rs1 != 0)
        fun c old => old ||| insn.operand c.hart.x := by
      unfold afterInsn
      rw [writes_eq (by rw [haccess]; decide), haccess]
      rfl
    rw [htrans, hafter, hargs]
    exact does_genCsrOp hself hext insn.view insn.rs1 insn.rd _ (makes_set hself insn)
  | clear =>
    have htrans : insn.trans self = self.genCsrOp insn.args (insn.rs1 != 0)
        (RiscvDisasContext.genCsrClear (genOperand self insn)) := by
      unfold FpCsrInsn.trans genOperand
      rw [haccess]
      cases insn.immediate <;> rfl
    have hafter : afterInsn insn = afterCsr insn.view insn.rd (insn.rs1 != 0)
        fun c old => old &&& ~~~insn.operand c.hart.x := by
      unfold afterInsn
      rw [writes_eq (by rw [haccess]; decide), haccess]
      rfl
    rw [htrans, hafter, hargs]
    exact does_genCsrOp hself hext insn.view insn.rs1 insn.rd _ (makes_clear hself insn)

/-! ## Runs -/

/-- The code of an instruction, in some block, takes one CPU to the other. -/
def Executes (dc : RiscvDisasContext) (insn : FpCsrInsn) (c c' : Cpu) : Prop :=
  ∃ (self : RiscvDisasContext) (b₀ b b' : Builder) (C : Context) (rest : Effects Guest)
    (s s' : State Guest), initDisasContext dc .new = some (self, b₀) ∧ b₀.Extends b ∧
      (insn.trans self).run b = (true, b') ∧ b'.ctx.Extends C ∧
      Interprets (guestEffects rest) C (newOps b b') s s' ∧ cpuOf self C s = c ∧
      cpuOf self C s' = c'

/-- A sequence of instructions. -/
inductive IsRun (dc : RiscvDisasContext) : Cpu → List FpCsrInsn → Cpu → Prop where
  | nil (c : Cpu) : IsRun dc c [] c
  | cons {c c₁ c' : Cpu} {insn : FpCsrInsn} {insns : List FpCsrInsn} (step : Executes dc insn c c₁)
    (rest : IsRun dc c₁ insns c') : IsRun dc c (insn :: insns) c'

/-- What the specification says a sequence does to the hart and to `fcsr`. -/
def specRun (insns : List FpCsrInsn) (h : Hart) (byte : BitVec 8) : Hart × BitVec 8 :=
  insns.foldl (fun state insn => insn.spec state.1 state.2) (h, byte)

/-- A translation that succeeds found Zicsr. -/
theorem zicsr_of_run {insn : FpCsrInsn} {b b' : Builder}
    (h : (insn.trans self).run b = (true, b')) : self.cfg.extZicsr = true := by
  by_contra hext
  have hrefuse : insn.trans self = pure false := by
    unfold FpCsrInsn.trans
    split <;> exact if_neg hext
  rw [hrefuse] at h
  cases h

theorem executes_eq {dc : RiscvDisasContext} {insn : FpCsrInsn} {c c' : Cpu}
    (h : Executes dc insn c c') : c' = afterInsn insn c := by
  obtain ⟨self, b₀, b, b', C, rest, s, s', hinit, hb, hrun, hC, hs', rfl, rfl⟩ := h
  have hself := globals_of_run hinit hb hrun hC
  obtain ⟨s₁, hs₁, -, hcpu⟩ :=
    (does_trans hself (zicsr_of_run hrun) insn).interprets hrun hC
  rw [hs'.unique hs₁, hcpu]

/-! ## Agreement -/

theorem byteOf_writeView (view : FpCsr) (v : BitVec 64) (c : Cpu) :
    byteOf (writeView view v c) = view.put (byteOf c) v := by
  cases view with
  | fflags =>
    show (c.field .frm).setWidth 3 ++ (v &&& FFLAGS_MASK).setWidth 5 =
      (byteOf c).extractLsb' 5 3 ++ v.setWidth 5
    rw [and_fflags, setWidth_low (by decide), byteOf, high_append]
  | frm =>
    show (v &&& FRM_MASK).setWidth 3 ++ (c.field .fflags).setWidth 5 =
      v.setWidth 3 ++ (byteOf c).extractLsb' 0 5
    rw [and_frm, setWidth_low (by decide), byteOf, low_append]
  | fcsr =>
    show ((v >>> 5) &&& FRM_MASK).setWidth 3 ++ (v &&& FFLAGS_MASK).setWidth 5 = v.setWidth 8
    rw [and_frm, and_fflags, setWidth_low (by decide), setWidth_low (by decide), append_parts]

theorem and_mask_masked (x mask : BitVec 64) : x &&& mask &&& ~~~mask = 0 := by
  rw [BitVec.and_assoc, BitVec.and_not_self]
  exact BitVec.and_zero

theorem masked_writeView {view : FpCsr} {v : BitVec 64} {c : Cpu} (h : Masked c) :
    Masked (writeView view v c) := by
  cases view with
  | fflags => exact ⟨and_mask_masked v _, h.2⟩
  | frm => exact ⟨h.1, and_mask_masked v _⟩
  | fcsr => exact ⟨and_mask_masked v _, and_mask_masked (v >>> 5) _⟩

/-- The fields that no access to `fcsr` is about. -/
def IsOther : CpuField → Prop
  | .fflags | .frm | .ustatus => False
  | _ => True

theorem other_writeView {field : CpuField} (hfield : IsOther field) (view : FpCsr) (v : BitVec 64)
    (c : Cpu) : (writeView view v c).field field = c.field field := by
  have hfs : field ≠ .ustatus := by rintro rfl; exact hfield
  have hfflags : field ≠ .fflags := by rintro rfl; exact hfield
  have hfrm : field ≠ .frm := by rintro rfl; exact hfield
  cases view with
  | fflags =>
    exact (Function.update_of_ne hfs _ _).trans (Function.update_of_ne hfflags _ _)
  | frm => exact (Function.update_of_ne hfs _ _).trans (Function.update_of_ne hfrm _ _)
  | fcsr =>
    exact (Function.update_of_ne hfs _ _).trans
      ((Function.update_of_ne hfrm _ _).trans (Function.update_of_ne hfflags _ _))

/-- A write changes no other bits of `ustatus` than FS. -/
theorem status_writeView (view : FpCsr) (v : BitVec 64) (c : Cpu) :
    (writeView view v c).field .ustatus &&& ~~~USTATUS_FS_MASK =
      c.field .ustatus &&& ~~~USTATUS_FS_MASK := by
  have hdirty : (writeView view v c).field .ustatus =
      c.field .ustatus &&& ~~~USTATUS_FS_MASK ||| USTATUS_FS_DIRTY := by cases view <;> rfl
  have hnone : USTATUS_FS_DIRTY &&& ~~~USTATUS_FS_MASK = 0#64 := by decide
  rw [hdirty, BitVec.and_or_distrib_right, BitVec.and_assoc, BitVec.and_self, hnone,
    BitVec.or_zero]

/-- What a sequence of instructions leaves, by the specification. -/
structure Agrees (insns : List FpCsrInsn) (c c' : Cpu) : Prop where
  spec : (c'.hart, byteOf c') = specRun insns c.hart (byteOf c)
  masked : Masked c → Masked c'
  others : ∀ field, IsOther field → c'.field field = c.field field
  status : c'.field .ustatus &&& ~~~USTATUS_FS_MASK = c.field .ustatus &&& ~~~USTATUS_FS_MASK
  untouched : (∀ insn ∈ insns, insn.writes = false) → c'.field = c.field

theorem agrees_insn (insn : FpCsrInsn) (c : Cpu) : Agrees [insn] c (afterInsn insn c) := by
  have hspec : specRun [insn] c.hart (byteOf c) = insn.spec c.hart (byteOf c) := rfl
  unfold afterInsn afterCsr
  dsimp only
  cases hwrites : insn.writes with
  | true =>
    refine ⟨?_, masked_writeView, fun field h => other_writeView h _ _ _, status_writeView _ _ _,
      fun h => ?_⟩
    · have hbyte : ∀ v, byteOf (Cpu.setReg (writeView insn.view v c) insn.rd
          (insn.view.view (byteOf c))) = insn.view.put (byteOf c) v :=
        fun v => byteOf_writeView insn.view v c
      rw [if_pos rfl, hbyte, hspec, FpCsrInsn.spec, if_pos hwrites]
      refine Prod.ext ?_ rfl
      cases insn.view <;> rfl
    · rw [h insn List.mem_cons_self] at hwrites
      cases hwrites
  | false =>
    refine ⟨?_, id, fun _ _ => rfl, rfl, fun _ => rfl⟩
    rw [if_neg Bool.false_ne_true, hspec, FpCsrInsn.spec,
      if_neg (by rw [hwrites]; exact Bool.false_ne_true)]
    rfl

theorem Agrees.cons {insn : FpCsrInsn} {insns : List FpCsrInsn} {c c₁ c' : Cpu}
    (h : Agrees [insn] c c₁) (h' : Agrees insns c₁ c') : Agrees (insn :: insns) c c' where
  spec := by
    have hfirst : (c₁.hart, byteOf c₁) = insn.spec c.hart (byteOf c) := h.spec
    have hrun : specRun (insn :: insns) c.hart (byteOf c) =
        specRun insns (insn.spec c.hart (byteOf c)).1 (insn.spec c.hart (byteOf c)).2 := rfl
    rw [h'.spec, hrun, ← hfirst]
  masked hc := h'.masked (h.masked hc)
  others field hfield := (h'.others field hfield).trans (h.others field hfield)
  status := h'.status.trans h.status
  untouched hnone := by
    rw [List.forall_mem_cons] at hnone
    rw [h'.untouched hnone.2, h.untouched (List.forall_mem_singleton.mpr hnone.1)]

/-- Every sequence of CSR instructions on `fflags`, `frm` and `fcsr` does to the registers and to
the byte what the specification says, and nothing else. -/
theorem run_agrees {dc : RiscvDisasContext} {c c' : Cpu} {insns : List FpCsrInsn}
    (hrun : IsRun dc c insns c') : Agrees insns c c' := by
  induction hrun with
  | nil c => exact ⟨rfl, id, fun _ _ => rfl, rfl, fun _ => rfl⟩
  | cons step rest ih =>
    rw [executes_eq step] at ih
    exact (agrees_insn _ _).cons ih

/-- An instruction runs in a block, from any state. -/
theorem executes_of_run {dc : RiscvDisasContext} {b₀ b : Builder}
    (hinit : initDisasContext dc .new = some (self, b₀)) (hb : b₀.Extends b)
    (hext : self.cfg.extZicsr = true) (insn : FpCsrInsn) (s : State Guest) :
    ∃ C c', Executes dc insn (cpuOf self C s) c' := by
  let b' := ((insn.trans self).run b).2
  have hself : Globals self b'.ctx := globals_of_run hinit hb rfl (.refl b'.ctx)
  have hdoes : Does (guestEffects noEffects) b'.ctx (insn.trans self) _ b.ctx.nbTemps s :=
    does_trans hself hext insn
  have hok : ((insn.trans self).run b).1 = true := (hdoes b rfl (.refl b'.ctx)).2.1
  have hrun : (insn.trans self).run b = (true, b') := Prod.ext hok rfl
  obtain ⟨s', hs', -⟩ := hdoes.interprets hrun (.refl b'.ctx)
  exact ⟨b'.ctx, cpuOf self b'.ctx s', self, b₀, b, b', b'.ctx, noEffects, s, s', hinit, hb, hrun,
    .refl b'.ctx, hs', rfl, rfl⟩

/-- `csrrw x1, fcsr, x1` on a machine in which nothing is set. -/
theorem run_agrees_csrrw : ∃ c c', IsRun allExtensions c [⟨.fcsr, .write, false, 1, 1⟩] c' ∧
    Agrees [⟨.fcsr, .write, false, 1, 1⟩] c c' := by
  have hinit : ((initDisasContext allExtensions .new).any fun p => p.1.cfg.extZicsr) = true := by
    decide
  rw [Option.any_eq_true] at hinit
  obtain ⟨⟨self, b₀⟩, hinit, hext⟩ := hinit
  obtain ⟨C, c', hstep⟩ := executes_of_run hinit (.refl b₀) hext ⟨.fcsr, .write, false, 1, 1⟩
    blankState
  have hrun := IsRun.cons hstep (.nil c')
  exact ⟨_, c', hrun, run_agrees hrun⟩

end TcgRs.Analysis.FpCsrViews
