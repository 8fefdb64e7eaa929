import TcgRs.Analysis.FloatMinMax
import TcgRs.Analysis.FsDirty

/-!
# NaNs in floating-point registers

Single-precision values are boxed whenever they are written, and an operand that is not boxed counts
as the canonical NaN.  Minimum and maximum return the canonical NaN; arithmetic returns the pattern
of the host as it is.
-/

set_option autoImplicit false
set_option linter.constructorNameAsVariable false

namespace TcgRs.Analysis.NanValues

open TcgRs.Library TcgRs.Model TcgRs.Model.Riscv
open TcgRs.Interface.RiscvFloat TcgRs.Interface.RiscvExec
open FloatFormat (binary32 binary64)
open GuestCode (allExtensions)
open CpuFields FpCode FpFlags FloatMinMax FsDirty

variable {H : HostFloat} {T : HelperTable} {insn : FpInsn} {c c' : Cpu} {env : FpEnv}
variable {x : Nat → BitVec 64}

/-! ## Results -/

/-- What the host computes for a helper: arithmetic and conversions between the formats. -/
def hostResult (H : HostFloat) (env : FpEnv) (x : Nat → BitVec 64) : FpHelper → Option FpValue
  | .faddS => some (.single
      (H.f32.add (roundOf env (x 2)) (readF32Bits (x 0)) (readF32Bits (x 1))).1)
  | .fsubS => some (.single
      (H.f32.sub (roundOf env (x 2)) (readF32Bits (x 0)) (readF32Bits (x 1))).1)
  | .fmulS => some (.single
      (H.f32.mul (roundOf env (x 2)) (readF32Bits (x 0)) (readF32Bits (x 1))).1)
  | .fdivS => some (.single
      (H.f32.div (roundOf env (x 2)) (readF32Bits (x 0)) (readF32Bits (x 1))).1)
  | .fsqrtS => some (.single (H.f32.sqrt (roundOf env (x 1)) (readF32Bits (x 0))).1)
  | .fmaddS => some (.single (H.f32.fma (roundOf env (x 3)) (readF32Bits (x 0))
      (readF32Bits (x 1)) (readF32Bits (x 2))).1)
  | .fmsubS => some (.single (H.f32.fma (roundOf env (x 3)) (readF32Bits (x 0))
      (readF32Bits (x 1)) (negF32 (readF32Bits (x 2)))).1)
  | .fnmsubS => some (.single (H.f32.fma (roundOf env (x 3)) (negF32 (readF32Bits (x 0)))
      (readF32Bits (x 1)) (readF32Bits (x 2))).1)
  | .fnmaddS => some (.single (H.f32.fma (roundOf env (x 3)) (negF32 (readF32Bits (x 0)))
      (readF32Bits (x 1)) (negF32 (readF32Bits (x 2)))).1)
  | .faddD => some (.double (H.f64.add (roundOf env (x 2)) (x 0) (x 1)).1)
  | .fsubD => some (.double (H.f64.sub (roundOf env (x 2)) (x 0) (x 1)).1)
  | .fmulD => some (.double (H.f64.mul (roundOf env (x 2)) (x 0) (x 1)).1)
  | .fdivD => some (.double (H.f64.div (roundOf env (x 2)) (x 0) (x 1)).1)
  | .fsqrtD => some (.double (H.f64.sqrt (roundOf env (x 1)) (x 0)).1)
  | .fmaddD => some (.double (H.f64.fma (roundOf env (x 3)) (x 0) (x 1) (x 2)).1)
  | .fmsubD => some (.double (H.f64.fma (roundOf env (x 3)) (x 0) (x 1) (negF64 (x 2))).1)
  | .fnmsubD => some (.double (H.f64.fma (roundOf env (x 3)) (negF64 (x 0)) (x 1) (x 2)).1)
  | .fnmaddD => some (.double (H.f64.fma (roundOf env (x 3)) (negF64 (x 0)) (x 1)
      (negF64 (x 2))).1)
  | .fcvtSD => some (.single (H.narrow (roundOf env (x 1)) (x 0)).1)
  | .fcvtDS => some (.double (H.widen (readF32Bits (x 0))))
  | _ => none

/-- The minimum or maximum that a helper computes. -/
def pickResult (env : FpEnv) (x : Nat → BitVec 64) : FpHelper → Option FpValue
  | .fminS => some (.single (fminF32 env (readF32Bits (x 0)) (readF32Bits (x 1))).1)
  | .fmaxS => some (.single (fmaxF32 env (readF32Bits (x 0)) (readF32Bits (x 1))).1)
  | .fminD => some (.double (fminF64 env (x 0) (x 1)).1)
  | .fmaxD => some (.double (fmaxF64 env (x 0) (x 1)).1)
  | _ => none

/-! ## Operands -/

/-- Whether an argument of a helper is a single-precision value. -/
def isSingleArg (i : Nat) : FpHelper → Bool
  | .faddS | .fsubS | .fmulS | .fdivS | .fsgnjS | .fsgnjnS | .fsgnjxS | .fminS | .fmaxS
  | .feqS | .fltS | .fleS => i < 2
  | .fmaddS | .fmsubS | .fnmsubS | .fnmaddS => i < 3
  | .fsqrtS | .fclassS | .fcvtWS | .fcvtWuS | .fcvtLS | .fcvtLuS | .fcvtDS => i = 0
  | _ => false

/-- A value that is not boxed, replaced by the canonical NaN. -/
def unboxedAsNan (v : BitVec 64) : BitVec 64 :=
  if v.extractLsb' 32 32 = BitVec.allOnes 32 then v else nanboxF32 0x7fc00000

/-- The single-precision register that an instruction writes. -/
def singleDest : FpInsn → Option (Fin 32)
  | .flw a => some a.rd
  | .fmvWX a => some a.rd
  | .faddS a | .fsubS a | .fmulS a | .fdivS a => some a.rd
  | .fmaddS a | .fmsubS a | .fnmsubS a | .fnmaddS a => some a.rd
  | .fsgnjS a | .fsgnjnS a | .fsgnjxS a | .fminS a | .fmaxS a => some a.rd
  | .fsqrtS a | .fcvtSW a | .fcvtSWu a | .fcvtSL a | .fcvtSLu a | .fcvtSD a => some a.rd
  | _ => none

/-! ## The property -/

/-- The arguments of a call behind the env pointer. -/
def argsOf (c : Cpu) (operands : List FpOperand) : Nat → BitVec 64 :=
  fun i => (operands.map (operandValue c)).getD i 0

/-- What the specification says of the registers after an instruction. -/
structure Canonical (H : HostFloat) (insn : FpInsn) (c c' : Cpu) : Prop where
  boxed : ∀ rd, singleDest insn = some rd →
    (c'.field (.fpr rd)).extractLsb' 32 32 = BitVec.allOnes 32
  unboxed : ∀ helper operands dest, FpInsn.body insn = .call helper operands dest →
    helper.call H c.fpEnv (argsOf c operands) = helper.call H c.fpEnv fun i =>
      if isSingleArg i helper then unboxedAsNan (argsOf c operands i) else argsOf c operands i
  arithmetic : ∀ helper operands rd, FpInsn.body insn = .call helper operands (.fpr rd) →
    ∀ v, hostResult H c.fpEnv (argsOf c operands) helper = some v → v.isNan = true →
      c'.field (.fpr rd) = v.canonicalNan
  pick : ∀ helper operands rd, FpInsn.body insn = .call helper operands (.fpr rd) →
    ∀ v, pickResult c.fpEnv (argsOf c operands) helper = some v → v.isNan = true →
      c'.field (.fpr rd) = v.canonicalNan

/-- A NaN that the host computes for the operands is the canonical one. -/
def HostNanCanonical (H : HostFloat) (insn : FpInsn) (c : Cpu) : Prop :=
  ∀ helper operands rd, FpInsn.body insn = .call helper operands (.fpr rd) →
    ∀ v, hostResult H c.fpEnv (argsOf c operands) helper = some v → v.isNan = true →
      v.register = v.canonicalNan

/-! ## Boxes -/

theorem upper_of_mask (v : BitVec 64) :
    (v ||| 0xffffffff00000000).extractLsb' 32 32 = BitVec.allOnes 32 := by
  have hmask : ∀ i, (hi : i < 32) → (0xffffffff00000000 : BitVec 64)[32 + i] = true := by decide
  ext i hi
  rw [BitVec.getElem_extractLsb', BitVec.getElem_allOnes, BitVec.getLsbD_eq_getElem (by omega),
    BitVec.getElem_or, hmask i hi, Bool.or_true]

theorem upper_nanbox (bits : BitVec 32) :
    (nanboxF32 bits).extractLsb' 32 32 = BitVec.allOnes 32 := by
  unfold nanboxF32
  rw [BitVec.or_comm]
  exact upper_of_mask _

/-- Reading makes no difference between an operand that is not boxed and the canonical NaN. -/
theorem readF32Bits_unboxedAsNan (v : BitVec 64) : readF32Bits (unboxedAsNan v) = readF32Bits v := by
  have hupper : v.extractLsb' 32 32 = (v >>> 32).setWidth 32 := by
    ext i hi
    simp
  unfold unboxedAsNan
  split
  · rfl
  · rename_i hbox
    rw [hupper] at hbox
    have hnan : readF32Bits (nanboxF32 0x7fc00000) = canonicalNanF32 := by decide
    rw [hnan]
    unfold readF32Bits
    exact (if_pos hbox).symm

/-- A helper reads single-precision operands in one way only. -/
theorem call_congr {helper : FpHelper} {y : Nat → BitVec 64}
    (hsingle : ∀ i, isSingleArg i helper = true → readF32Bits (x i) = readF32Bits (y i))
    (hother : ∀ i, isSingleArg i helper = false → x i = y i) :
    helper.call H env x = helper.call H env y := by
  cases helper
  case faddS | fsubS | fmulS | fdivS =>
    simp only [FpHelper.call, helperFaddS, helperFsubS, helperFmulS, helperFdivS]
    rw [hsingle 0 rfl, hsingle 1 rfl, hother 2 rfl]
  case fmaddS | fmsubS | fnmsubS | fnmaddS =>
    simp only [FpHelper.call, helperFmaddS, helperFmsubS, helperFnmsubS, helperFnmaddS]
    rw [hsingle 0 rfl, hsingle 1 rfl, hsingle 2 rfl, hother 3 rfl]
  case fsqrtS | fcvtWS | fcvtWuS | fcvtLS | fcvtLuS | fcvtDS =>
    simp only [FpHelper.call, helperFsqrtS, helperFcvtWS, helperFcvtWuS, helperFcvtLS,
      helperFcvtLuS, helperFcvtDS]
    rw [hsingle 0 rfl, hother 1 rfl]
  case fsgnjS | fsgnjnS | fsgnjxS | fminS | fmaxS =>
    simp only [FpHelper.call, helperFsgnjS, helperFsgnjnS, helperFsgnjxS, fsgnjF32, helperFminS,
      helperFmaxS, pickF32]
    rw [hsingle 0 rfl, hsingle 1 rfl]
  case feqS | fltS | fleS =>
    simp only [FpHelper.call, helperFeqS, helperFltS, helperFleS]
    rw [hsingle 0 rfl, hsingle 1 rfl]
  case fclassS =>
    simp only [FpHelper.call, helperFclassS]
    rw [hsingle 0 rfl]
  all_goals
    have hsame : x = y := funext fun i => hother i rfl
    rw [hsame]

theorem call_unboxed (helper : FpHelper) :
    helper.call H env x =
      helper.call H env fun i => if isSingleArg i helper then unboxedAsNan (x i) else x i := by
  apply call_congr
  · intro i hi
    rw [if_pos hi, readF32Bits_unboxedAsNan]
  · intro i hi
    rw [hi]
    rfl

/-! ## Results of helpers -/

/-- Arithmetic returns what the host has computed. -/
theorem call_of_hostResult {helper : FpHelper} {v : FpValue}
    (h : hostResult H env x helper = some v) : (helper.call H env x).1 = v.register := by
  cases helper <;> cases h <;> rfl

theorem call_of_pickResult {helper : FpHelper} {v : FpValue}
    (h : pickResult env x helper = some v) : (helper.call H env x).1 = v.register := by
  cases helper <;> cases h <;> rfl

/-- A minimum or maximum that is a NaN is the canonical one. -/
theorem picked_nan {w : Nat} {fmt : FloatFormat} {canonical : BitVec w}
    {below : WithBot (WithTop ℚ) ×ₗ Bool → WithBot (WithTop ℚ) ×ₗ Bool → Prop}
    {f : FpEnv → BitVec w → BitVec w → BitVec w × FpEnv} (hf : PicksLeast fmt canonical below f)
    {env : FpEnv} {a b : BitVec w} (h : fmt.isNan (f env a b).1 = true) :
    (f env a b).1 = canonical := by
  cases ha : fmt.isNan a with
  | true =>
    cases hb : fmt.isNan b with
    | true => exact hf.both_nan env a b ha hb
    | false =>
      rw [hf.left_nan env a b ha hb, hb] at h
      cases h
  | false =>
    cases hb : fmt.isNan b with
    | true =>
      rw [hf.right_nan env a b ha hb, ha] at h
      cases h
    | false =>
      cases hf.least env a b ha hb with
      | inl hpick =>
        rw [hpick.1, ha] at h
        cases h
      | inr hpick =>
        rw [hpick.1, hb] at h
        cases h

theorem pick_canonical {helper : FpHelper} {v : FpValue} (h : pickResult env x helper = some v)
    (hnan : v.isNan = true) : v.register = v.canonicalNan := by
  cases helper <;> cases h
  case fminS => exact congrArg nanboxF32 (picked_nan (fmin_picks sound_f32) hnan)
  case fmaxS => exact congrArg nanboxF32 (picked_nan (fmax_picks sound_f32) hnan)
  case fminD => exact picked_nan (fmin_picks sound_f64) hnan
  case fmaxD => exact picked_nan (fmax_picks sound_f64) hnan

/-- The result of a helper with a single-precision result is boxed. -/
theorem call_boxed {helper : FpHelper} {operands : List FpOperand} {dest : FpDest} {rd : Fin 32}
    (hbody : FpInsn.body insn = .call helper operands dest) (hrd : singleDest insn = some rd) :
    dest = .fpr rd ∧ (helper.call H env x).1.extractLsb' 32 32 = BitVec.allOnes 32 := by
  cases insn <;> cases hrd <;> cases hbody <;> exact ⟨rfl, upper_nanbox _⟩

/-! ## Instructions -/

theorem operandValue_fsDirty (o : FpOperand) : operandValue (fsDirty c) o = operandValue c o := by
  cases o with
  | fpr idx =>
    have hne : CpuField.fpr idx ≠ .ustatus := nofun
    exact setField_field c hne _
  | gpr idx => rfl
  | rm mode => rfl

theorem fpEnv_fsDirty : (fsDirty c).fpEnv = c.fpEnv := by
  have hfflags : (fsDirty c).field .fflags = c.field .fflags := setField_field c (by decide) _
  have hfrm : (fsDirty c).field .frm = c.field .frm := setField_field c (by decide) _
  unfold Cpu.fpEnv
  rw [hfflags, hfrm]

/-- A call writes the result of the helper to the register. -/
theorem after_call_fpr {helper : FpHelper} {operands : List FpOperand} {rd : Fin 32}
    (hbody : FpInsn.body insn = .call helper operands (.fpr rd)) :
    (FpInsn.after H insn c).field (.fpr rd) =
      (helper.call H c.fpEnv (argsOf c operands)).1 := by
  have hargs : operands.map (operandValue (fsDirty c)) = operands.map (operandValue c) :=
    List.map_congr_left fun o _ => operandValue_fsDirty o
  have hafter : FpInsn.after H insn c =
      (FpBody.call helper operands (.fpr rd)).after H (fsDirty c) := by
    unfold FpInsn.after
    rw [hbody]
    rfl
  rw [hafter]
  unfold FpBody.after callResult Cpu.setDest
  dsimp only
  rw [setField_self, hargs, fpEnv_fsDirty]
  rfl

theorem after_boxed {rd : Fin 32} (h : singleDest insn = some rd) :
    ((FpInsn.after H insn c).field (.fpr rd)).extractLsb' 32 32 = BitVec.allOnes 32 := by
  cases hbody : FpInsn.body insn with
  | call helper operands dest =>
    obtain ⟨rfl, hupper⟩ := call_boxed (H := H) hbody h
    rw [after_call_fpr hbody]
    exact hupper
  | load a memop isSingle =>
    cases insn <;> cases hbody <;> cases h
    exact (setField_self (fsDirty c) _ _).symm ▸ upper_of_mask _
  | ofGpr a isSingle =>
    cases insn <;> cases hbody <;> cases h
    exact (setField_self (fsDirty c) _ _).symm ▸ upper_of_mask _
  | store a memop isSingle | toGpr a isSingle => cases insn <;> cases hbody <;> cases h

/-- An instruction keeps the registers canonical unless the host computes another NaN. -/
theorem executesFp_canonical_iff {dc : RiscvDisasContext} (h : ExecutesFp H T dc insn c c')
    (hfs : fsOf c ≠ 0) : Canonical H insn c c' ↔ HostNanCanonical H insn c := by
  rw [executesFp_eq h hfs]
  constructor
  · intro hcanonical helper operands rd hbody v hv hnan
    rw [← call_of_hostResult hv, ← after_call_fpr hbody]
    exact hcanonical.arithmetic helper operands rd hbody v hv hnan
  · intro hhost
    constructor
    · exact fun rd hrd => after_boxed hrd
    · exact fun helper operands dest _ => call_unboxed helper
    · intro helper operands rd hbody v hv hnan
      rw [after_call_fpr hbody, call_of_hostResult hv]
      exact hhost helper operands rd hbody v hv hnan
    · intro helper operands rd hbody v hv hnan
      rw [after_call_fpr hbody, call_of_pickResult hv]
      exact pick_canonical hv hnan

/-! ## Zero by zero -/

/-- A host whose division only knows the invalid result: a NaN with the sign set. -/
def nanHost : HostFloat :=
  { idleHost with f32 := { idleOps 32 with div := fun _ _ _ => (0xffc00000, FE_INVALID) } }

/-- All registers hold the single-precision value 0, and FS is Dirty. -/
def zerosCpu : Cpu where
  hart := ⟨fun _ => 0, 0, 0, 0, fun _ => 0⟩
  field
    | .fpr _ => 0xffffffff00000000
    | .ustatus => USTATUS_FS_DIRTY
    | _ => 0

theorem zerosCpu_divides :
    ExecutesFp nanHost numberedHelpers allExtensions (.fdivS ⟨1, 2, 3, 7⟩) zerosCpu
      (FpInsn.after nanHost (.fdivS ⟨1, 2, 3, 7⟩) zerosCpu) :=
  executesFp_all nanHost numberedHelpers (.fdivS ⟨1, 2, 3, 7⟩) rfl (by decide)

theorem negative_nan :
    ¬ ∀ (H : HostFloat) (T : HelperTable) (dc : RiscvDisasContext) (insn : FpInsn) (c c' : Cpu),
      ExecutesFp H T dc insn c c' → fsOf c ≠ 0 → Canonical H insn c c' := by
  intro h
  have hcanonical := h _ _ _ _ _ _ zerosCpu_divides (by decide)
  have hresult := hcanonical.arithmetic .fdivS _ 1 rfl _ rfl (by decide)
  rw [after_call_fpr rfl] at hresult
  exact absurd hresult (by decide)

theorem executesFp_canonical_iff_div :
    Canonical nanHost (.fdivS ⟨1, 2, 3, 7⟩) zerosCpu
        (FpInsn.after nanHost (.fdivS ⟨1, 2, 3, 7⟩) zerosCpu) ↔
      HostNanCanonical nanHost (.fdivS ⟨1, 2, 3, 7⟩) zerosCpu :=
  executesFp_canonical_iff zerosCpu_divides (by decide)

end TcgRs.Analysis.NanValues
