import TcgRs.Analysis.GuestCode
import TcgRs.Interface.RiscvCpu

/-!
# Access to the CPU state

Rules for the loads and stores that reach the fields of the CPU state from the env pointer.  The
fields have different addresses, so a store to one leaves the others as they are.
-/

set_option autoImplicit false

namespace TcgRs.Analysis.CpuFields

open TcgRs.Model TcgRs.Model.Ir TcgRs.Model.Riscv TcgRs.Interface.Ir TcgRs.Interface.RiscvExec
open GeneratedCode GuestCode

/-! ## Addresses -/

/-- The fields in the order of their addresses. -/
def index : CpuField → Nat
  | .fpr i => i.val
  | .fflags => 36
  | .frm => 37
  | .ustatus => 38
  | .uie => 39
  | .utvec => 40
  | .uscratch => 41
  | .uepc => 42
  | .ucause => 43
  | .utval => 44
  | .uip => 45

theorem offset_eq (field : CpuField) : field.offset = 256 + 8 * index field := by
  cases field with
  | fpr i =>
    show (32 + (i.val : Int)) * 8 = 256 + 8 * (i.val : Int)
    omega
  | _ => rfl

theorem index_lt (field : CpuField) : index field < 46 := by
  cases field with
  | fpr i => exact lt_of_lt_of_le i.isLt (by decide)
  | _ => decide

theorem index_inj {field field' : CpuField} (h : index field = index field') : field = field' := by
  have hne : ∀ (i : Fin 32) (k : Nat), 32 ≤ k → i.val ≠ k :=
    fun i k hk => Nat.ne_of_lt (lt_of_lt_of_le i.isLt hk)
  cases field with
  | fpr i =>
    cases field' with
    | fpr j => exact congrArg CpuField.fpr (Fin.ext h)
    | _ => exact absurd h (hne i _ (by decide))
  | _ =>
    cases field' with
    | fpr j => exact absurd h.symm (hne j _ (by decide))
    | _ => first | rfl | exact absurd h (by decide)

theorem addr_eq (base : BitVec 64) (field : CpuField) :
    field.addr base = base + BitVec.ofNat 64 (256 + 8 * index field) := by
  have hlt := index_lt field
  have hoffset : (BitVec.ofInt 32 field.offset).toNat = 256 + 8 * index field := by
    rw [offset_eq, BitVec.toNat_ofInt]
    omega
  have hsmall : (BitVec.ofNat 32 (256 + 8 * index field)).signExtend 64 =
      BitVec.ofNat 64 (256 + 8 * index field) := by
    apply BitVec.eq_of_toInt_eq
    rw [BitVec.toInt_signExtend_of_le (by decide), BitVec.toInt_ofNat', BitVec.toInt_ofNat',
      Int.bmod_eq_of_le (by omega) (by omega), Int.bmod_eq_of_le (by omega) (by omega)]
  unfold CpuField.addr fieldAddr
  rw [hoffset, hsmall]

theorem addr_inj {base : BitVec 64} {field field' : CpuField}
    (h : field.addr base = field'.addr base) : field = field' := by
  have hlt := index_lt field
  have hlt' := index_lt field'
  rw [addr_eq, addr_eq, BitVec.add_right_inj] at h
  have hnat := congrArg BitVec.toNat h
  rw [BitVec.toNat_ofNat, BitVec.toNat_ofNat] at hnat
  exact index_inj (by omega)

/-! ## Writes -/

variable {self : RiscvDisasContext} {C : Context} {s : State Guest}

/-- The state in which a field has got a value. -/
def setField (self : RiscvDisasContext) (C : Context) (s : State Guest) (field : CpuField)
    (v : BitVec 64) : State Guest :=
  { s with world := { s.world with
      host := Function.update s.world.host (field.addr (val C s self.env)) v } }

theorem val_setField (field : CpuField) (v : BitVec 64) (t : Nat) :
    val C (setField self C s field v) t = val C s t := rfl

theorem cpuOf_setField (field : CpuField) (v : BitVec 64) :
    cpuOf self C (setField self C s field v) = (cpuOf self C s).setField field v := by
  apply Cpu.ext
  · rfl
  · funext field'
    show Function.update s.world.host (field.addr (val C s self.env)) v
      (field'.addr (val C s self.env)) = Function.update (cpuOf self C s).field field v field'
    by_cases heq : field' = field
    · rw [heq, Function.update_self, Function.update_self]
    · rw [Function.update_of_ne (fun h => heq (addr_inj h)), Function.update_of_ne heq]
      rfl

theorem cpuOf_setTemp (hself : Globals self C) {d : Nat} (hd : IsLocal C d) (v : BitVec 64) :
    cpuOf self C (setTemp s d v) = cpuOf self C s := by
  apply Cpu.ext
  · exact hartOf_setTemp hself hd s v
  · funext field
    exact congrArg (fun base => s.world.host (field.addr base))
      (val_global_setTemp hself.env_lt hd s v)

theorem cpuOf_setGpr (hself : Globals self C) (rd : Fin 32) (v : BitVec 64) :
    cpuOf self C (setGpr self s rd v) = (cpuOf self C s).setReg rd v := by
  have henv : valueOf C (setGpr self s rd v).temps self.env = valueOf C s.temps self.env := by
    unfold setGpr
    split
    · rfl
    · exact valueOf_update_of_ne (hself.env_ne rd) v s.temps
  apply Cpu.ext
  · exact hartOf_setGpr hself s rd v
  · funext field
    show (setGpr self s rd v).world.host (field.addr (valueOf C (setGpr self s rd v).temps _)) = _
    rw [henv, setGpr_world]
    rfl

/-- Every CPU whose x0 is zero is that of a state. -/
theorem exists_cpuOf (hself : Globals self C) {c : Cpu} (hx : c.hart.x 0 = 0) :
    ∃ s, cpuOf self C s = c := by
  have hspecial := hself.special
  simp only [List.nodup_cons, List.mem_cons, List.not_mem_nil, or_false, not_or] at hspecial
  obtain ⟨⟨-, -, -⟩, ⟨hres, hval⟩, hresval, -⟩ := hspecial
  let special : Nat → BitVec 64 := fun t =>
    if t = self.pc then c.hart.pc
    else if t = self.loadRes then c.hart.loadRes
    else if t = self.loadVal then c.hart.loadVal
    else 0
  let temps := Function.extend self.gpr c.hart.x special
  let world : Guest := ⟨c.hart.mem,
    Function.extend (CpuField.addr (valueOf C temps self.env)) c.field 0, false⟩
  have hvalue : ∀ t, t < C.nbGlobals → valueOf C temps t = temps t := by
    intro t ht
    rw [valueOf, if_neg]
    rintro ⟨-, hconst⟩
    rw [hself.var t ht] at hconst
    cases hconst
  have hspec : ∀ t, (∀ r, t ≠ self.gpr r) → temps t = special t := by
    intro t ht
    apply Function.extend_apply'
    rintro ⟨r, hr⟩
    exact ht r hr.symm
  refine ⟨⟨temps, world⟩, ?_⟩
  apply Cpu.ext
  · apply Hart.ext
    · funext r
      show (if r = 0 then 0 else valueOf C temps (self.gpr r)) = c.hart.x r
      split
      · rename_i hr
        rw [hr, hx]
      · rw [hvalue _ (hself.gpr_lt r)]
        exact Function.Injective.extend_apply (fun r r' => hself.gpr_inj r r') _ _ r
    · show valueOf C temps self.pc = _
      rw [hvalue _ hself.pc_lt, hspec _ hself.pc_ne]
      exact if_pos rfl
    · show valueOf C temps self.loadRes = _
      rw [hvalue _ hself.res_lt, hspec _ hself.res_ne]
      exact (if_neg (Ne.symm hres)).trans (if_pos rfl)
    · show valueOf C temps self.loadVal = _
      rw [hvalue _ hself.val_lt, hspec _ hself.val_ne]
      exact (if_neg (Ne.symm hval)).trans ((if_neg (Ne.symm hresval)).trans (if_pos rfl))
    · rfl
  · funext field
    exact Function.Injective.extend_apply (fun _ _ => addr_inj) _ _ field

/-! ## Rules -/

variable {rest : Effects Guest} {n : Nat}

theorem does_ldField (field : CpuField) {d : Nat}
    {Q : Nat → Nat → State Guest → Prop}
    (h : Q d n (setTemp s d ((cpuOf self C s).field field))) :
    Does (guestEffects rest) C (genLd .i64 d self.env field.offset) Q n s :=
  does_emitTo rfl h

theorem does_stField (field : CpuField) {t : Nat} {Q : Unit → Nat → State Guest → Prop}
    (h : Q () n (setField self C s field (val C s t))) :
    Does (guestEffects rest) C (genSt .i64 t self.env field.offset) Q n s :=
  does_emitOp rfl h

theorem does_not {d a : Nat} {E : Effects Guest} {Q : Nat → Nat → State Guest → Prop}
    (h : Q d n (setTemp s d (~~~val C s a))) : Does E C (genNot .i64 d a) Q n s :=
  does_emitTo rfl h

/-! ## Older temps -/

/-- The temps below `n` have the same values. -/
def Keeps (C : Context) (n : Nat) (s s' : State Guest) : Prop := ∀ t < n, val C s' t = val C s t

theorem Keeps.refl (n : Nat) (s : State Guest) : Keeps C n s s := fun _ _ => rfl

theorem Keeps.mono {n' : Nat} {s' : State Guest} (h : Keeps C n' s s') (hn : n ≤ n') :
    Keeps C n s s' := fun t ht => h t (lt_of_lt_of_le ht hn)

theorem Keeps.trans {s₁ s₂ : State Guest} (h : Keeps C n s s₁) (h' : Keeps C n s₁ s₂) :
    Keeps C n s s₂ := fun t ht => (h' t ht).trans (h t ht)

theorem Keeps.setTemp {s' : State Guest} (h : Keeps C n s s') {d : Nat} (hd : n ≤ d)
    (v : BitVec 64) : Keeps C n s (GeneratedCode.setTemp s' d v) :=
  fun t ht => (val_setTemp_of_ne (Nat.ne_of_lt (lt_of_lt_of_le ht hd)) s' v).trans (h t ht)

theorem Keeps.setField {s' : State Guest} (h : Keeps C n s s') (field : CpuField)
    (v : BitVec 64) : Keeps C n s (CpuFields.setField self C s' field v) := h

/-! ## The FS bits -/

/-- The state with FS Dirty. -/
def fsDirty (c : Cpu) : Cpu :=
  c.setField .ustatus (c.field .ustatus &&& ~~~USTATUS_FS_MASK ||| USTATUS_FS_DIRTY)

theorem does_genSetFsDirty (hself : Globals self C) {Q : Unit → Nat → State Guest → Prop}
    (h : ∀ n' s', n ≤ n' → Keeps C n s s' → cpuOf self C s' = fsDirty (cpuOf self C s) →
      Q () n' s') :
    Does (guestEffects rest) C self.genSetFsDirty Q n s := by
  unfold RiscvDisasContext.genSetFsDirty
  refine does_bind (does_newTemp fun hstatus => ?_)
  refine does_bind (does_ldField .ustatus ?_)
  refine does_bind (does_newConst fun clear n1 hn1 hclear => ?_)
  refine does_bind (does_newTemp fun hcleared => ?_)
  refine does_bind (does_binary rfl ?_)
  refine does_bind (does_newConst fun dirty n2 hn2 hdirty => ?_)
  refine does_bind (does_newTemp fun hnew => ?_)
  refine does_bind (does_binary rfl ?_)
  refine does_stField .ustatus (h _ _ (by omega) ?_ ?_)
  · exact (((Keeps.refl n s).setTemp le_rfl _).setTemp (by omega) _).setTemp (by omega) _
  · rw [cpuOf_setField, cpuOf_setTemp hself hnew, cpuOf_setTemp hself hcleared,
      cpuOf_setTemp hself hstatus, val_setTemp_self hnew, val_setTemp_self hcleared, hdirty.val,
      val_setTemp_self hstatus, hclear.val]
    rfl

end TcgRs.Analysis.CpuFields
