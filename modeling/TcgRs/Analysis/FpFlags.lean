import TcgRs.Interface.RiscvFloat
import TcgRs.Model.Riscv.FpuHelpers

/-!
# Accrued exceptions

A helper keeps the rounding mode and accrues flags; what it raises depends on its operands and on
what the host raises.
-/

set_option autoImplicit false

namespace TcgRs.Analysis.FpFlags

open TcgRs.Library TcgRs.Model.Riscv TcgRs.Interface.RiscvFloat
open FloatFormat (binary32 binary64)

variable {env env' env'' : FpEnv} {raised more : BitVec 64}

/-! ## Accruing -/

/-- Nothing was raised, or some of the five flags were accrued. -/
def Accrues (raised : BitVec 64) (env env' : FpEnv) : Prop :=
  (env' = env ∧ raised = 0) ∨ (env' = updateFflags env raised ∧ raised &&& ~~~FFLAGS_MASK = 0)

theorem accrues_refl (env : FpEnv) : Accrues 0 env env := .inl ⟨rfl, rfl⟩

theorem accrues_update (env : FpEnv) (h : raised &&& ~~~FFLAGS_MASK = 0) :
    Accrues raised env (updateFflags env raised) := .inr ⟨rfl, h⟩

theorem accrues_setInvalid (env : FpEnv) : Accrues FFLAGS_NV env (setInvalid env) :=
  accrues_update env (by decide)

theorem updateFflags_updateFflags (env : FpEnv) (f g : BitVec 64) :
    updateFflags (updateFflags env f) g = updateFflags env (f ||| g) := by
  have h : ((env.fflags ||| f) &&& FFLAGS_MASK ||| g) &&& FFLAGS_MASK =
      (env.fflags ||| (f ||| g)) &&& FFLAGS_MASK := by
    ext i hi
    simp only [BitVec.getElem_and, BitVec.getElem_or]
    grind
  exact FpEnv.ext h rfl

theorem Accrues.trans (h : Accrues raised env env') (h' : Accrues more env' env'') :
    Accrues (raised ||| more) env env'' := by
  rcases h with ⟨rfl, rfl⟩ | ⟨rfl, hmask⟩
  · simpa using h'
  · rcases h' with ⟨rfl, rfl⟩ | ⟨rfl, hmask'⟩
    · simpa using accrues_update env hmask
    · rw [updateFflags_updateFflags]
      refine accrues_update env ?_
      have hor : (raised ||| more) &&& ~~~FFLAGS_MASK =
          raised &&& ~~~FFLAGS_MASK ||| more &&& ~~~FFLAGS_MASK := by
        ext i hi
        simp only [BitVec.getElem_and, BitVec.getElem_or]
        grind
      rw [hor, hmask, hmask']
      rfl

theorem Accrues.frm_eq (h : Accrues raised env env') : env'.frm = env.frm := by
  rcases h with ⟨rfl, -⟩ | ⟨rfl, -⟩ <;> rfl

/-- The flags that are set now and were not before. -/
theorem Accrues.new_eq (h : Accrues raised env env') :
    env'.fflags &&& ~~~env.fflags = raised &&& ~~~env.fflags := by
  rcases h with ⟨rfl, rfl⟩ | ⟨rfl, hmask⟩
  · simp
  · unfold updateFflags
    ext i hi
    have hbit := congrArg (fun x : BitVec 64 => x[i]) hmask
    simp only [BitVec.getElem_and, BitVec.getElem_or, BitVec.getElem_not] at hbit ⊢
    grind

theorem Accrues.raises (h : Accrues raised env env') : Raises raised env env' := by
  refine ⟨?_, h.frm_eq⟩
  rcases h with ⟨rfl, rfl⟩ | ⟨rfl, hmask⟩
  · simp
  · unfold updateFflags
    ext i hi
    have hbit := congrArg (fun x : BitVec 64 => x[i]) hmask
    simp only [BitVec.getElem_and, BitVec.getElem_or, BitVec.getElem_not] at hbit ⊢
    grind

/-! ## The environment of the host -/

theorem mapFenvFlags_mask (flags : BitVec 32) : mapFenvFlags flags &&& ~~~FFLAGS_MASK = 0 := by
  unfold mapFenvFlags
  split_ifs <;> decide

/-- The flags of the choice of a rounding mode: NV if there is no such mode. -/
def rmRaised (env : FpEnv) (rm : BitVec 64) : BitVec 64 :=
  if staticRm env rm < 5 then 0 else FFLAGS_NV

theorem accrues_mapRm (env : FpEnv) (rm : BitVec 64) :
    Accrues (rmRaised env rm) env (mapRm env rm).2 := by
  unfold rmRaised mapRm
  generalize staticRm env rm = mode
  dsimp only
  split_ifs with hlt h0 h1 h2 h3 h4 h0 h1 h2 h3 h4
  all_goals first
    | exact accrues_refl env
    | exact accrues_setInvalid env
    | (exfalso; bv_omega)

/-- The rounding mode of the host for a static or dynamic one. -/
def roundOf (env : FpEnv) (rm : BitVec 64) : BitVec 32 := (mapRm env rm).1

/-! ## Comparisons -/

section
variable {w : Nat} (k : FpKind w)

def quietRaised (a b : BitVec w) : BitVec 64 := if k.isSnan a || k.isSnan b then FFLAGS_NV else 0

def signalingRaised (a b : BitVec w) : BitVec 64 := if k.isNan a || k.isNan b then FFLAGS_NV else 0

theorem accrues_compareQuiet (env : FpEnv) (a b : BitVec w) :
    Accrues (quietRaised k a b) env (compareQuiet k env a b).2 := by
  unfold quietRaised compareQuiet
  cases k.isSnan a || k.isSnan b <;> cases k.isNan a || k.isNan b
  · exact accrues_refl env
  · exact accrues_refl env
  · exact accrues_setInvalid env
  · exact accrues_setInvalid env

theorem accrues_compareSignaling (less : BitVec w → BitVec w → Bool) (env : FpEnv)
    (a b : BitVec w) :
    Accrues (signalingRaised k a b) env (compareSignaling k less env a b).2 := by
  unfold signalingRaised compareSignaling
  cases k.isNan a || k.isNan b
  · exact accrues_refl env
  · exact accrues_setInvalid env

end

/-! ## Conversions to integers -/

/-- The host could not round, or the result is no integer of the target. -/
def outOfRange (lo hi : BitVec 64) (res : FpResult 64) : Prop :=
  res.2 &&& FE_ALL_EXCEPT &&& FE_INVALID ≠ 0 ∨ !isFinite res.1 ∨ !inRange lo hi res.1

instance (lo hi : BitVec 64) (res : FpResult 64) : Decidable (outOfRange lo hi res) :=
  inferInstanceAs (Decidable (_ ∨ _ ∨ _))

/-- The flags of a conversion whose operand reaches the host. -/
def rintRaised (lo hi : BitVec 64) (H : HostFloat) (env : FpEnv) (val rm : BitVec 64) : BitVec 64 :=
  let res := H.rint (roundOf env rm) val
  rmRaised env rm |||
    if outOfRange lo hi res then FFLAGS_NV else mapFenvFlags (res.2 &&& FE_ALL_EXCEPT)

def signedRaised (lo hi : BitVec 64) (H : HostFloat) (env : FpEnv) (val rm : BitVec 64) :
    BitVec 64 :=
  if binary64.isNan val ∨ binary64.isInf val then FFLAGS_NV else rintRaised lo hi H env val rm

def unsignedRaised (hi : BitVec 64) (H : HostFloat) (env : FpEnv) (val rm : BitVec 64) :
    BitVec 64 :=
  if binary64.isNan val ∨ binary64.isInf val ∨ binary64.lt val 0 then FFLAGS_NV
  else rintRaised 0 hi H env val rm

variable (H : HostFloat) (lo hi val rm : BitVec 64)

/-- The two ways on from rounding. -/
theorem fcvtSigned_finite (n : Nat) (env : FpEnv) (hnan : ¬ binary64.isNan val = true)
    (hinf : ¬ binary64.isInf val = true) :
    fcvtSigned n lo hi H env val rm =
      if outOfRange lo hi (H.rint (roundOf env rm) val) then
        ((if binary64.isNeg val then BitVec.intMin n else BitVec.intMax n).signExtend 64,
          setInvalid (mapRm env rm).2)
      else
        ((castSigned n (H.rint (roundOf env rm) val).1).signExtend 64,
          updateFflags (mapRm env rm).2
            (mapFenvFlags ((H.rint (roundOf env rm) val).2 &&& FE_ALL_EXCEPT))) := by
  unfold fcvtSigned
  rw [if_neg hnan, if_neg hinf]
  rfl

theorem fcvtUnsigned_finite (n : Nat) (env : FpEnv) (hnan : ¬ binary64.isNan val = true)
    (hinf : ¬ binary64.isInf val = true) (hlt : ¬ binary64.lt val 0 = true) :
    fcvtUnsigned n hi H env val rm =
      if outOfRange 0 hi (H.rint (roundOf env rm) val) then
        ((BitVec.allOnes n).setWidth 64, setInvalid (mapRm env rm).2)
      else
        ((castUnsigned n (H.rint (roundOf env rm) val).1).setWidth 64,
          updateFflags (mapRm env rm).2
            (mapFenvFlags ((H.rint (roundOf env rm) val).2 &&& FE_ALL_EXCEPT))) := by
  unfold fcvtUnsigned
  rw [if_neg hnan, if_neg hinf, if_neg hlt]
  rfl

theorem accrues_rint (env : FpEnv) {α : Type} (x y : α) :
    Accrues (rintRaised lo hi H env val rm) env
      (if outOfRange lo hi (H.rint (roundOf env rm) val) then (x, setInvalid (mapRm env rm).2)
        else (y, updateFflags (mapRm env rm).2
          (mapFenvFlags ((H.rint (roundOf env rm) val).2 &&& FE_ALL_EXCEPT)))).2 := by
  unfold rintRaised
  dsimp only
  split
  · exact (accrues_mapRm env rm).trans (accrues_setInvalid _)
  · exact (accrues_mapRm env rm).trans (accrues_update _ (mapFenvFlags_mask _))

theorem accrues_fcvtSigned (n : Nat) (env : FpEnv) :
    Accrues (signedRaised lo hi H env val rm) env (fcvtSigned n lo hi H env val rm).2 := by
  unfold signedRaised
  by_cases hnan : binary64.isNan val = true
  · unfold fcvtSigned
    rw [if_pos (Or.inl hnan), if_pos hnan]
    exact accrues_setInvalid env
  · by_cases hinf : binary64.isInf val = true
    · unfold fcvtSigned
      rw [if_pos (Or.inr hinf), if_neg hnan, if_pos hinf]
      exact accrues_setInvalid env
    · rw [if_neg (by tauto), fcvtSigned_finite H lo hi val rm n env hnan hinf]
      exact accrues_rint H lo hi val rm env _ _

theorem accrues_fcvtUnsigned (n : Nat) (env : FpEnv) :
    Accrues (unsignedRaised hi H env val rm) env (fcvtUnsigned n hi H env val rm).2 := by
  unfold unsignedRaised
  by_cases hnan : binary64.isNan val = true
  · unfold fcvtUnsigned
    rw [if_pos (Or.inl hnan), if_pos hnan]
    exact accrues_setInvalid env
  · by_cases hinf : binary64.isInf val = true
    · unfold fcvtUnsigned
      rw [if_pos (Or.inr (Or.inl hinf)), if_neg hnan, if_pos hinf]
      exact accrues_setInvalid env
    · by_cases hlt : binary64.lt val 0 = true
      · unfold fcvtUnsigned
        rw [if_pos (Or.inr (Or.inr hlt)), if_neg hnan, if_neg hinf, if_pos hlt]
        exact accrues_setInvalid env
      · rw [if_neg (by tauto), fcvtUnsigned_finite H hi val rm n env hnan hinf hlt]
        exact accrues_rint H 0 hi val rm env _ _

end TcgRs.Analysis.FpFlags
