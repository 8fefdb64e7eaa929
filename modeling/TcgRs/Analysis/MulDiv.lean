import TcgRs.Analysis.GuestCode
import TcgRs.Interface.RiscvExec
import TcgRs.Library.WideArith

/-!
# Multiplication and division

The code of `frontend/src/riscv/trans.rs` for the M extension.  A division replaces the divisors 0
and -1 by 1, which the host can divide by, and selects their results afterwards; the upper half of a
signed product with an unsigned factor is that of the unsigned product, corrected.
-/

set_option autoImplicit false
set_option linter.constructorNameAsVariable false

namespace TcgRs.Analysis.MulDiv

open TcgRs.Model TcgRs.Model.Ir TcgRs.Model.Riscv TcgRs.Interface.Ir TcgRs.Interface.RiscvExec
open TcgRs.Interface.RiscvIsa
open TcgRs.Library.WideArith GeneratedCode GuestCode

/-! ## Division of words -/

section

variable {w : Nat}

/-- The divisor that the generated code divides by. -/
def safeDivisor (y : BitVec w) : BitVec w :=
  if (if y = 0 then 1 else y) = -1 then 1 else if y = 0 then 1 else y

theorem toInt_one' (hw : 1 < w) : (1 : BitVec w).toInt = 1 := BitVec.toInt_one hw

theorem toInt_neg_one (hw : 1 < w) : (-1 : BitVec w).toInt = -1 := by
  have hall : (-1 : BitVec w) = BitVec.allOnes w := BitVec.neg_one_eq_allOnes
  rw [hall, BitVec.toInt_allOnes, if_pos (by omega)]

theorem toInt_eq_zero_iff (y : BitVec w) : y.toInt = 0 ↔ y = 0 := by
  constructor
  · intro h
    apply BitVec.eq_of_toInt_eq
    rw [h]
    exact BitVec.toInt_zero.symm
  · rintro rfl
    exact BitVec.toInt_zero

theorem toInt_eq_neg_one_iff (hw : 1 < w) (y : BitVec w) : y.toInt = -1 ↔ y = -1 := by
  constructor
  · intro h
    apply BitVec.eq_of_toInt_eq
    rw [h, toInt_neg_one hw]
  · rintro rfl
    exact toInt_neg_one hw

/-- The divisor is y, or 1 where y would trap or overflow. -/
theorem safeDivisor_eq (hw : 1 < w) (y : BitVec w) :
    safeDivisor y = if y = 0 ∨ y = -1 then 1 else y := by
  have hne : (1 : BitVec w) ≠ -1 := by
    intro h
    have hint := congrArg BitVec.toInt h
    rw [toInt_one' hw, toInt_neg_one hw] at hint
    omega
  unfold safeDivisor
  by_cases hzero : y = 0
  · rw [if_pos hzero, if_neg hne, if_pos (.inl hzero)]
  · rw [if_neg hzero]
    by_cases hneg : y = -1
    · rw [if_pos hneg, if_pos (.inr hneg)]
    · rw [if_neg hneg, if_neg (by tauto)]

/-- The division never traps. -/
theorem divWideS_safeDivisor (hw : 1 < w) (x y : BitVec w) :
    divWideS x (x.sshiftRight (w - 1)) (safeDivisor y) =
      some (BitVec.ofInt w (x.toInt.tdiv (safeDivisor y).toInt),
        BitVec.ofInt w (x.toInt.tmod (safeDivisor y).toInt)) := by
  have hsafe : (safeDivisor y).toInt ≠ 0 ∧ (safeDivisor y).toInt ≠ -1 := by
    rw [safeDivisor_eq hw]
    split
    · rw [toInt_one' hw]
      omega
    · rename_i hy
      exact ⟨fun h => hy (.inl ((toInt_eq_zero_iff y).mp h)),
        fun h => hy (.inr ((toInt_eq_neg_one_iff hw y).mp h))⟩
  have hrange := tdiv_range (BitVec.le_toInt x) BitVec.toInt_lt hsafe.1 hsafe.2
  have hzero : ¬safeDivisor y = 0 := fun h => hsafe.1 ((toInt_eq_zero_iff _).mpr h)
  unfold divWideS
  dsimp only
  rw [toInt_append_sign (by omega), if_neg]
  rintro (h | h)
  · exact hzero h
  · exact h hrange

/-- The quotient after both selections. -/
theorem select_quotient (hw : 1 < w) (x y : BitVec w) :
    (if y = -1 then -x else if y = 0 then -1
      else BitVec.ofInt w (x.toInt.tdiv (safeDivisor y).toInt)) = divSigned x y := by
  unfold divSigned
  by_cases hneg : y = -1
  · have hzero : ¬y = 0 := by
      intro h
      rw [← toInt_eq_zero_iff, hneg, toInt_neg_one hw] at h
      omega
    rw [if_pos hneg, if_neg hzero]
    split
    · rename_i hmin
      rw [hmin.1]
      exact BitVec.neg_intMin
    · rw [hneg, toInt_neg_one hw, Int.tdiv_neg, Int.tdiv_one, BitVec.ofInt_neg, BitVec.ofInt_toInt]
  · rw [if_neg hneg]
    by_cases hzero : y = 0
    · rw [if_pos hzero, if_pos hzero]
    · rw [if_neg hzero, if_neg hzero, if_neg (fun h => hneg h.2), safeDivisor_eq hw,
        if_neg (by tauto)]

/-- The remainder after both selections. -/
theorem select_remainder (hw : 1 < w) (x y : BitVec w) :
    (if y = -1 then 0 else if y = 0 then x
      else BitVec.ofInt w (x.toInt.tmod (safeDivisor y).toInt)) = remSigned x y := by
  unfold remSigned
  by_cases hneg : y = -1
  · have hzero : ¬y = 0 := by
      intro h
      rw [← toInt_eq_zero_iff, hneg, toInt_neg_one hw] at h
      omega
    rw [if_pos hneg, if_neg hzero]
    split
    · rfl
    · rw [hneg, toInt_neg_one hw, Int.tmod_neg, Int.tmod_one]
      rfl
  · rw [if_neg hneg]
    by_cases hzero : y = 0
    · rw [if_pos hzero, if_pos hzero]
    · rw [if_neg hzero, if_neg hzero, if_neg (fun h => hneg h.2), safeDivisor_eq hw,
        if_neg (by tauto)]

/-- The unsigned division never traps, and gives the quotient and remainder after selection. -/
theorem divWideU_safe (hw : 1 < w) (x y : BitVec w) :
    divWideU x 0 (if y = 0 then 1 else y) = some
      (BitVec.ofNat w (x.toNat / (if y = 0 then 1 else y).toNat),
        BitVec.ofNat w (x.toNat % (if y = 0 then 1 else y).toNat)) := by
  have hsafe : ¬(if y = 0 then 1 else y) = (0 : BitVec w) := by
    split
    · intro h
      rw [← toInt_eq_zero_iff, toInt_one' hw] at h
      omega
    · assumption
  have hlt : x.toNat / (if y = 0 then 1 else y).toNat < 2 ^ w :=
    lt_of_le_of_lt (Nat.div_le_self _ _) x.isLt
  unfold divWideU
  dsimp only
  have happend : ((0 : BitVec w) ++ x).toNat = x.toNat := toNat_append_zero x
  rw [happend, if_neg]
  rintro (h | h)
  · exact hsafe h
  · exact h hlt

theorem select_divUnsigned (x y : BitVec w) :
    (if y = 0 then -1 else BitVec.ofNat w (x.toNat / (if y = 0 then 1 else y).toNat)) =
      divUnsigned x y := by
  unfold divUnsigned
  split <;> rfl

theorem select_remUnsigned (x y : BitVec w) :
    (if y = 0 then x else BitVec.ofNat w (x.toNat % (if y = 0 then 1 else y).toNat)) =
      remUnsigned x y := by
  unfold remUnsigned
  split <;> rfl

end

/-! ## Ops with two results -/

variable {self : RiscvDisasContext} {C : Context} {rest : Effects Guest} {n : Nat}
  {s : State Guest}

/-- Two outputs are written, the low one first. -/
theorem does_pair {opc : Opcode} {ty : IrType} {dl dh : Nat} {args : List Nat}
    {r : BitVec 64 × BitVec 64} {Q : Unit → Nat → State Guest → Prop}
    (hopc : isStraight opc = true)
    (hexec : execOp (guestEffects rest) C (Op.withArgs opc ty (dl :: dh :: args)) s =
      setTemp (setTemp s dl r.1) dh r.2)
    (h : Q () n (setTemp (setTemp s dl r.1) dh r.2)) :
    Does (guestEffects rest) C (emitOp (Op.withArgs opc ty (dl :: dh :: args))) Q n s :=
  does_emitOp hopc (hexec.symm ▸ h)

theorem does_divS2 {dl dh al ah b : Nat} {x xh y : BitVec 64} {r : BitVec 64 × BitVec 64}
    {Q : Unit → Nat → State Guest → Prop} (hdiv : divWideS x xh y = some r)
    (hx : val C s al = x) (hxh : val C s ah = xh) (hy : val C s b = y)
    (h : Q () n (setTemp (setTemp s dl r.1) dh r.2)) :
    Does (guestEffects rest) C (genDivS2 .i64 dl dh al ah b) Q n s := by
  refine does_pair rfl ?_ h
  have hexec : execOp (guestEffects rest) C (Op.withArgs .divS2 .i64 [dl, dh, al, ah, b]) s =
      ⟨writeOutputs (Op.withArgs .divS2 .i64 [dl, dh, al, ah, b])
        (divided s.world (divWideS (val C s al) (val C s ah) (val C s b))).1 s.temps,
        (divided s.world (divWideS (val C s al) (val C s ah) (val C s b))).2⟩ := rfl
  rw [hexec, hx, hxh, hy, hdiv]
  rfl

theorem does_divU2 {dl dh al ah b : Nat} {x xh y : BitVec 64} {r : BitVec 64 × BitVec 64}
    {Q : Unit → Nat → State Guest → Prop} (hdiv : divWideU x xh y = some r)
    (hx : val C s al = x) (hxh : val C s ah = xh) (hy : val C s b = y)
    (h : Q () n (setTemp (setTemp s dl r.1) dh r.2)) :
    Does (guestEffects rest) C (genDivU2 .i64 dl dh al ah b) Q n s := by
  refine does_pair rfl ?_ h
  have hexec : execOp (guestEffects rest) C (Op.withArgs .divU2 .i64 [dl, dh, al, ah, b]) s =
      ⟨writeOutputs (Op.withArgs .divU2 .i64 [dl, dh, al, ah, b])
        (divided s.world (divWideU (val C s al) (val C s ah) (val C s b))).1 s.temps,
        (divided s.world (divWideU (val C s al) (val C s ah) (val C s b))).2⟩ := rfl
  rw [hexec, hx, hxh, hy, hdiv]
  rfl

theorem does_divS2_i32 {dl dh al ah b : Nat} {x xh y : BitVec 32} {r : BitVec 32 × BitVec 32}
    {Q : Unit → Nat → State Guest → Prop} (hdiv : divWideS x xh y = some r)
    (hx : val C s al = x.setWidth 64) (hxh : val C s ah = xh.setWidth 64)
    (hy : val C s b = y.setWidth 64)
    (h : Q () n (setTemp (setTemp s dl (r.1.setWidth 64)) dh (r.2.setWidth 64))) :
    Does (guestEffects rest) C (genDivS2 .i32 dl dh al ah b) Q n s := by
  refine does_pair (r := pairOf r) rfl ?_ h
  have hexec : execOp (guestEffects rest) C (Op.withArgs .divS2 .i32 [dl, dh, al, ah, b]) s =
      ⟨writeOutputs (Op.withArgs .divS2 .i32 [dl, dh, al, ah, b])
        (divided s.world ((divWideS ((val C s al).setWidth 32) ((val C s ah).setWidth 32)
          ((val C s b).setWidth 32)).map pairOf)).1 s.temps,
        (divided s.world ((divWideS ((val C s al).setWidth 32) ((val C s ah).setWidth 32)
          ((val C s b).setWidth 32)).map pairOf)).2⟩ := rfl
  rw [hexec, hx, hxh, hy, low_zext, low_zext, low_zext, hdiv]
  rfl

theorem does_divU2_i32 {dl dh al ah b : Nat} {x xh y : BitVec 32} {r : BitVec 32 × BitVec 32}
    {Q : Unit → Nat → State Guest → Prop} (hdiv : divWideU x xh y = some r)
    (hx : val C s al = x.setWidth 64) (hxh : val C s ah = xh.setWidth 64)
    (hy : val C s b = y.setWidth 64)
    (h : Q () n (setTemp (setTemp s dl (r.1.setWidth 64)) dh (r.2.setWidth 64))) :
    Does (guestEffects rest) C (genDivU2 .i32 dl dh al ah b) Q n s := by
  refine does_pair (r := pairOf r) rfl ?_ h
  have hexec : execOp (guestEffects rest) C (Op.withArgs .divU2 .i32 [dl, dh, al, ah, b]) s =
      ⟨writeOutputs (Op.withArgs .divU2 .i32 [dl, dh, al, ah, b])
        (divided s.world ((divWideU ((val C s al).setWidth 32) ((val C s ah).setWidth 32)
          ((val C s b).setWidth 32)).map pairOf)).1 s.temps,
        (divided s.world ((divWideU ((val C s al).setWidth 32) ((val C s ah).setWidth 32)
          ((val C s b).setWidth 32)).map pairOf)).2⟩ := rfl
  rw [hexec, hx, hxh, hy, low_zext, low_zext, low_zext, hdiv]
  rfl

theorem does_mulS2 {dl dh a b : Nat} {x y : BitVec 64} {Q : Unit → Nat → State Guest → Prop}
    (hx : val C s a = x) (hy : val C s b = y)
    (h : Q () n (setTemp (setTemp s dl (mulWideS x y).1) dh (mulWideS x y).2)) :
    Does (guestEffects rest) C (genMulS2 .i64 dl dh a b) Q n s := by
  subst hx hy
  exact does_pair rfl rfl h

theorem does_mulU2 {dl dh a b : Nat} {x y : BitVec 64} {Q : Unit → Nat → State Guest → Prop}
    (hx : val C s a = x) (hy : val C s b = y)
    (h : Q () n (setTemp (setTemp s dl (mulWideU x y).1) dh (mulWideU x y).2)) :
    Does (guestEffects rest) C (genMulU2 .i64 dl dh a b) Q n s := by
  subst hx hy
  exact does_pair rfl rfl h

/-! ## Division at 64 bits -/

theorem does_genDivRem (hself : Globals self C) (a : ArgsR) (wantRem : Bool) :
    Does (guestEffects rest) C (self.genDivRem a wantRem)
      (Leaves self C s a.rd ((if wantRem then remSigned else divSigned)
        ((hartOf self C s).x a.rs1) ((hartOf self C s).x a.rs2))) n s := by
  unfold RiscvDisasContext.genDivRem
  refine does_bind (does_gprOrZero hself fun s1 n1 hn1 hs1 hx => ?_)
  refine does_bind (does_gprOrZero hself fun s2 n2 hn2 hs2 hy => ?_)
  generalize (hartOf self C s).x a.rs1 = x at hx ⊢
  generalize (hartOf self C s).x a.rs2 = y at hy ⊢
  refine does_bind (does_newConst fun zero n3 hn3 hzero => ?_)
  refine does_bind (does_newConst fun one n4 hn4 hone => ?_)
  refine does_bind (does_newConst fun neg1 n5 hn5 hneg1 => ?_)
  refine does_bind (does_newTemp fun hsafe => ?_)
  refine does_bind (does_movCond ?_)
  refine does_bind (does_movCond ?_)
  refine does_bind (does_newTemp fun hah => ?_)
  refine does_bind (does_newConst fun c63 n6 hn6 hc63 => ?_)
  refine does_bind (does_binary rfl ?_)
  refine does_bind (does_newTemp fun hquot => ?_)
  refine does_bind (does_newTemp fun hrem => ?_)
  simp (disch := assumption) only [val_setTemp_fixed, val_setTemp_self, hzero.val, hone.val,
    hneg1.val, hc63.val, hx, hy, select_i64, sar_i64]
  refine does_bind (does_divS2 (divWideS_safeDivisor (by decide) x y) ?_ ?_ ?_ ?_)
  · simp (disch := assumption) only [val_setTemp_fixed, hx]
  · rw [val_setTemp_self hah]
    rfl
  · rw [val_setTemp_of_ne (by omega), val_setTemp_self hsafe]
    rfl
  cases wantRem with
  | true =>
    refine does_bind (does_newTemp fun hr => ?_)
    refine does_bind (does_movCond ?_)
    refine does_bind (does_movCond ?_)
    simp (disch := assumption) only [val_setTemp_fixed, val_setTemp_self, hzero.val, hneg1.val, hx,
      hy, select_i64]
    rw [select_remainder (by decide)]
    refine does_result hself rfl ?_ (val_setTemp_self hr _ _)
    simp (disch := assumption) only [hartOf_setTemp]
  | false =>
    refine does_bind (does_newTemp fun hneg => ?_)
    refine does_bind (does_neg ?_)
    refine does_bind (does_newTemp fun hr => ?_)
    refine does_bind (does_movCond ?_)
    refine does_bind (does_movCond ?_)
    simp (disch := first | assumption | omega) only [val_setTemp_fixed, val_setTemp_self,
      val_setTemp_of_ne, hzero.val, hneg1.val, hx, hy, select_i64]
    have hquotient := select_quotient (by decide) x y
    refine does_result hself rfl ?_ ((val_setTemp_self hr _ _).trans hquotient)
    simp (disch := assumption) only [hartOf_setTemp]

theorem does_genDivuRemu (hself : Globals self C) (a : ArgsR) (wantRem : Bool) :
    Does (guestEffects rest) C (self.genDivuRemu a wantRem)
      (Leaves self C s a.rd ((if wantRem then remUnsigned else divUnsigned)
        ((hartOf self C s).x a.rs1) ((hartOf self C s).x a.rs2))) n s := by
  unfold RiscvDisasContext.genDivuRemu
  refine does_bind (does_gprOrZero hself fun s1 n1 hn1 hs1 hx => ?_)
  refine does_bind (does_gprOrZero hself fun s2 n2 hn2 hs2 hy => ?_)
  generalize (hartOf self C s).x a.rs1 = x at hx ⊢
  generalize (hartOf self C s).x a.rs2 = y at hy ⊢
  refine does_bind (does_newConst fun zero n3 hn3 hzero => ?_)
  refine does_bind (does_newConst fun one n4 hn4 hone => ?_)
  refine does_bind (does_newTemp fun hsafe => ?_)
  refine does_bind (does_movCond ?_)
  refine does_bind (does_newTemp fun hquot => ?_)
  refine does_bind (does_newTemp fun hrem => ?_)
  simp only [hzero.val, hone.val, hy, select_i64]
  refine does_bind (does_divU2 (divWideU_safe (by decide) x y) ?_ (hzero.val _) ?_ ?_)
  · simp (disch := assumption) only [val_setTemp_fixed, hx]
  · rw [val_setTemp_self hsafe]
  cases wantRem with
  | true =>
    refine does_bind (does_newTemp fun hr => ?_)
    refine does_bind (does_movCond ?_)
    simp (disch := assumption) only [val_setTemp_fixed, val_setTemp_self, hzero.val, hx, hy,
      select_i64]
    rw [select_remUnsigned]
    refine does_result hself rfl ?_ (val_setTemp_self hr _ _)
    simp (disch := assumption) only [hartOf_setTemp]
  | false =>
    refine does_bind (does_newConst fun neg1 n5 hn5 hneg1 => ?_)
    refine does_bind (does_newTemp fun hr => ?_)
    refine does_bind (does_movCond ?_)
    simp (disch := first | assumption | omega) only [val_setTemp_fixed, val_setTemp_self,
      val_setTemp_of_ne, hzero.val, hneg1.val, hy, select_i64]
    have hquotient := select_divUnsigned x y
    refine does_result hself rfl ?_ ((val_setTemp_self hr _ _).trans hquotient)
    simp (disch := assumption) only [hartOf_setTemp]

/-! ## Division of words -/

theorem does_genDivRemW (hself : Globals self C) (a : ArgsR) (wantRem : Bool) :
    Does (guestEffects rest) C (self.genDivRemW a wantRem)
      (Leaves self C s a.rd (onWords (if wantRem then remSigned else divSigned)
        ((hartOf self C s).x a.rs1) ((hartOf self C s).x a.rs2))) n s := by
  unfold RiscvDisasContext.genDivRemW onWords
  refine does_bind (does_gprOrZero hself fun s1 n1 hn1 hs1 hx => ?_)
  refine does_bind (does_gprOrZero hself fun s2 n2 hn2 hs2 hy => ?_)
  refine does_bind (does_newTemp fun ha => ?_)
  refine does_bind (does_extrlI64I32 ?_)
  refine does_bind (does_newTemp fun hb => ?_)
  refine does_bind (does_extrlI64I32 ?_)
  simp (disch := assumption) only [val_setTemp_fixed, hx, hy]
  generalize ((hartOf self C s).x a.rs1).setWidth 32 = x
  generalize ((hartOf self C s).x a.rs2).setWidth 32 = y
  refine does_bind (does_newConst
    fun zero n3 hn3 (hzero : IsConst C zero ((0 : BitVec 32).setWidth 64)) => ?_)
  refine does_bind (does_newConst
    fun one n4 hn4 (hone : IsConst C one ((1 : BitVec 32).setWidth 64)) => ?_)
  refine does_bind (does_newConst
    fun neg1 n5 hn5 (hneg1 : IsConst C neg1 ((-1 : BitVec 32).setWidth 64)) => ?_)
  refine does_bind (does_newTemp fun hsafe => ?_)
  refine does_bind (does_movCond ?_)
  refine does_bind (does_movCond ?_)
  refine does_bind (does_newTemp fun hah => ?_)
  refine does_bind (does_newConst
    fun c31 n6 hn6 (hc31 : IsConst C c31 ((31 : BitVec 32).setWidth 64)) => ?_)
  refine does_bind (does_binary rfl ?_)
  refine does_bind (does_newTemp fun hquot => ?_)
  refine does_bind (does_newTemp fun hrem => ?_)
  simp (disch := first | assumption | omega) only [val_setTemp_self, val_setTemp_of_ne, hzero.val,
    hone.val, hneg1.val, hc31.val, select_i32, sar_i32]
  refine does_bind (does_divS2_i32 (divWideS_safeDivisor (by decide) x y) ?_ ?_ ?_ ?_)
  · simp (disch := first | assumption | omega) only [val_setTemp_self, val_setTemp_of_ne]
  · rw [val_setTemp_self hah]
    rfl
  · rw [val_setTemp_of_ne (by omega), val_setTemp_self hsafe]
    rfl
  cases wantRem with
  | true =>
    refine does_bind (does_newTemp fun hr => ?_)
    refine does_bind (does_movCond ?_)
    refine does_bind (does_movCond ?_)
    simp (disch := first | assumption | omega) only [val_setTemp_self, val_setTemp_of_ne,
      hzero.val, hneg1.val, select_i32]
    rw [select_remainder (by decide)]
    refine does_resultSx32 hself rfl ?_ (val_setTemp_self hr _ _)
    simp (disch := assumption) only [hartOf_setTemp]
  | false =>
    refine does_bind (does_newTemp fun hneg => ?_)
    refine does_bind (does_neg ?_)
    refine does_bind (does_newTemp fun hr => ?_)
    refine does_bind (does_movCond ?_)
    refine does_bind (does_movCond ?_)
    simp (disch := first | assumption | omega) only [val_setTemp_self, val_setTemp_of_ne,
      hzero.val, hneg1.val, select_i32, neg_i32]
    rw [select_quotient (by decide)]
    refine does_resultSx32 hself rfl ?_ (val_setTemp_self hr _ _)
    simp (disch := assumption) only [hartOf_setTemp]

theorem does_genDivuRemuW (hself : Globals self C) (a : ArgsR) (wantRem : Bool) :
    Does (guestEffects rest) C (self.genDivuRemuW a wantRem)
      (Leaves self C s a.rd (onWords (if wantRem then remUnsigned else divUnsigned)
        ((hartOf self C s).x a.rs1) ((hartOf self C s).x a.rs2))) n s := by
  unfold RiscvDisasContext.genDivuRemuW onWords
  refine does_bind (does_gprOrZero hself fun s1 n1 hn1 hs1 hx => ?_)
  refine does_bind (does_gprOrZero hself fun s2 n2 hn2 hs2 hy => ?_)
  refine does_bind (does_newTemp fun ha => ?_)
  refine does_bind (does_extrlI64I32 ?_)
  refine does_bind (does_newTemp fun hb => ?_)
  refine does_bind (does_extrlI64I32 ?_)
  simp (disch := assumption) only [val_setTemp_fixed, hx, hy]
  generalize ((hartOf self C s).x a.rs1).setWidth 32 = x
  generalize ((hartOf self C s).x a.rs2).setWidth 32 = y
  refine does_bind (does_newConst
    fun zero n3 hn3 (hzero : IsConst C zero ((0 : BitVec 32).setWidth 64)) => ?_)
  refine does_bind (does_newConst
    fun one n4 hn4 (hone : IsConst C one ((1 : BitVec 32).setWidth 64)) => ?_)
  refine does_bind (does_newTemp fun hsafe => ?_)
  refine does_bind (does_movCond ?_)
  refine does_bind (does_newTemp fun hquot => ?_)
  refine does_bind (does_newTemp fun hrem => ?_)
  simp (disch := assumption) only [val_setTemp_self, hzero.val, hone.val, select_i32]
  refine does_bind (does_divU2_i32 (divWideU_safe (by decide) x y) ?_ (hzero.val _) ?_ ?_)
  · simp (disch := first | assumption | omega) only [val_setTemp_self, val_setTemp_of_ne]
  · rw [val_setTemp_self hsafe]
  cases wantRem with
  | true =>
    refine does_bind (does_newTemp fun hr => ?_)
    refine does_bind (does_movCond ?_)
    simp (disch := first | assumption | omega) only [val_setTemp_self, val_setTemp_of_ne,
      hzero.val, select_i32]
    rw [select_remUnsigned]
    refine does_resultSx32 hself rfl ?_ (val_setTemp_self hr _ _)
    simp (disch := assumption) only [hartOf_setTemp]
  | false =>
    refine does_bind (does_newConst
      fun max n5 hn5 (hmax : IsConst C max ((-1 : BitVec 32).setWidth 64)) => ?_)
    refine does_bind (does_newTemp fun hr => ?_)
    refine does_bind (does_movCond ?_)
    simp (disch := first | assumption | omega) only [val_setTemp_self, val_setTemp_of_ne,
      hzero.val, hmax.val, select_i32]
    rw [select_divUnsigned]
    refine does_resultSx32 hself rfl ?_ (val_setTemp_self hr _ _)
    simp (disch := assumption) only [hartOf_setTemp]

/-! ## High words of products -/

theorem does_transMulh (hself : Globals self C) (hext : self.cfg.misa.contains .M = true)
    (a : ArgsR) :
    Does (guestEffects rest) C (self.transMulh a) (Leaves self C s a.rd (BitVec.ofInt 64
      (((hartOf self C s).x a.rs1).toInt * ((hartOf self C s).x a.rs2).toInt / 2 ^ 64))) n s := by
  refine does_requireExt hext ?_
  refine does_bind (does_gprOrZero hself fun s1 n1 hn1 hs1 hx => ?_)
  refine does_bind (does_gprOrZero hself fun s2 n2 hn2 hs2 hy => ?_)
  refine does_bind (does_newTemp fun hlo => ?_)
  refine does_bind (does_newTemp fun hhi => ?_)
  refine does_bind (does_mulS2 hx hy ?_)
  refine does_result hself rfl ?_ (val_setTemp_self hhi _ _)
  simp (disch := assumption) only [hartOf_setTemp]

theorem mulWideU_high (x y : BitVec 64) :
    (mulWideU x y).2 = BitVec.ofNat 64 (x.toNat * y.toNat / 2 ^ 64) := by
  unfold mulWideU splitWide
  rw [← BitVec.ofInt_natCast]
  push_cast
  rfl

theorem does_transMulhu (hself : Globals self C) (hext : self.cfg.misa.contains .M = true)
    (a : ArgsR) :
    Does (guestEffects rest) C (self.transMulhu a) (Leaves self C s a.rd (BitVec.ofNat 64
      (((hartOf self C s).x a.rs1).toNat * ((hartOf self C s).x a.rs2).toNat / 2 ^ 64))) n s := by
  refine does_requireExt hext ?_
  refine does_bind (does_gprOrZero hself fun s1 n1 hn1 hs1 hx => ?_)
  refine does_bind (does_gprOrZero hself fun s2 n2 hn2 hs2 hy => ?_)
  refine does_bind (does_newTemp fun hlo => ?_)
  refine does_bind (does_newTemp fun hhi => ?_)
  refine does_bind (does_mulU2 hx hy ?_)
  refine does_result hself rfl ?_ ((val_setTemp_self hhi _ _).trans (mulWideU_high _ _))
  simp (disch := assumption) only [hartOf_setTemp]

/-- The unsigned product is corrected by the second factor where the first is negative. -/
theorem does_transMulhsu (hself : Globals self C) (hext : self.cfg.misa.contains .M = true)
    (a : ArgsR) :
    Does (guestEffects rest) C (self.transMulhsu a) (Leaves self C s a.rd (BitVec.ofInt 64
      (((hartOf self C s).x a.rs1).toInt * ((hartOf self C s).x a.rs2).toNat / 2 ^ 64))) n s := by
  refine does_requireExt hext ?_
  refine does_bind (does_gprOrZero hself fun s1 n1 hn1 hs1 hx => ?_)
  refine does_bind (does_gprOrZero hself fun s2 n2 hn2 hs2 hy => ?_)
  refine does_bind (does_newTemp fun hlo => ?_)
  refine does_bind (does_newTemp fun hhi => ?_)
  refine does_bind (does_mulU2 hx hy ?_)
  refine does_bind (does_newConst fun c63 n3 hn3 hc63 => ?_)
  refine does_bind (does_newTemp fun hsign => ?_)
  refine does_bind (does_binary rfl ?_)
  refine does_bind (does_newTemp fun hadj => ?_)
  refine does_bind (does_binary rfl ?_)
  refine does_bind (does_binary rfl ?_)
  simp (disch := first | assumption | omega) only [val_setTemp_fixed, val_setTemp_self,
    val_setTemp_of_ne, hc63.val, hx, hy, sar_i64]
  refine does_result hself rfl ?_ ((val_setTemp_self hhi _ _).trans ?_)
  · simp (disch := assumption) only [hartOf_setTemp]
  · exact ofInt_mul_high (by decide) _ _

/-! ## All multiplications and divisions -/

/-- Each translation does what the specification says, without a trap. -/
theorem does_transMulDiv (hself : Globals self C) {insn : Insn} {trans : ArgsR → Gen Bool}
    {value : BitVec 64 → BitVec 64 → BitVec 64} (htrans : transMulDiv self insn = some trans)
    (hvalue : mulDivValue insn = some value) (hext : self.cfg.misa.contains .M = true) (a : ArgsR) :
    Does (guestEffects rest) C (trans a) (Leaves self C s a.rd
      (value ((hartOf self C s).x a.rs1) ((hartOf self C s).x a.rs2))) n s := by
  cases insn <;> cases htrans <;> cases hvalue
  case mulh => exact does_transMulh hself hext a
  case mulhsu => exact does_transMulhsu hself hext a
  case mulhu => exact does_transMulhu hself hext a
  case div => exact does_requireExt hext (does_genDivRem hself a false)
  case divu => exact does_requireExt hext (does_genDivuRemu hself a false)
  case rem => exact does_requireExt hext (does_genDivRem hself a true)
  case remu => exact does_requireExt hext (does_genDivuRemu hself a true)
  case divw => exact does_requireExt hext (does_genDivRemW hself a false)
  case divuw => exact does_requireExt hext (does_genDivuRemuW hself a false)
  case remw => exact does_requireExt hext (does_genDivRemW hself a true)
  case remuw => exact does_requireExt hext (does_genDivuRemuW hself a true)

theorem ext_of_transMulDiv {insn : Insn} {trans : ArgsR → Gen Bool} {a : ArgsR} {b b' : Builder}
    (htrans : transMulDiv self insn = some trans) (hrun : (trans a).run b = (true, b')) :
    self.cfg.misa.contains .M = true := by
  cases insn <;> cases htrans <;> exact ext_of_run hrun

/-- The code of a multiplication or division, in any block: the specified value in rd, no trap, and
no other change. -/
theorem mul_div_matches {dc self : RiscvDisasContext} {b₀ b b' : Builder} {insn : Insn}
    {trans : ArgsR → Gen Bool} {value : BitVec 64 → BitVec 64 → BitVec 64} {a : ArgsR}
    (hinit : initDisasContext dc .new = some (self, b₀)) (hb : b₀.Extends b)
    (htrans : transMulDiv self insn = some trans) (hvalue : mulDivValue insn = some value)
    (hrun : (trans a).run b = (true, b')) {C : Context} (hC : b'.ctx.Extends C)
    (rest : Effects Guest) (s : State Guest) :
    ∃ s', Interprets (guestEffects rest) C (newOps b b') s s' ∧ s'.world = s.world ∧
      hartOf self C s' = (hartOf self C s).setReg a.rd
        (value ((hartOf self C s).x a.rs1) ((hartOf self C s).x a.rs2)) := by
  have hself := globals_of_run hinit hb hrun hC
  have hext := ext_of_transMulDiv htrans hrun
  obtain ⟨s', hs', -, hworld, hhart⟩ :=
    (does_transMulDiv hself htrans hvalue hext a).interprets hrun hC
  exact ⟨s', hs', hworld, hhart⟩

/-- `div x1, x2, x3`, in a fresh block. -/
theorem mul_div_matches_div : ∃ self b₀ b' s',
    initDisasContext allExtensions .new = some (self, b₀) ∧
      (self.transDiv ⟨1, 2, 3⟩).run b₀ = (true, b') ∧
      Interprets (guestEffects noEffects) b'.ctx (newOps b₀ b') blankState s' ∧
      s'.world = blankState.world ∧
      hartOf self b'.ctx s' = (hartOf self b'.ctx blankState).setReg 1
        (divSigned ((hartOf self b'.ctx blankState).x 2) ((hartOf self b'.ctx blankState).x 3)) := by
  have h : ((initDisasContext allExtensions .new).any fun p =>
      ((p.1.transDiv ⟨1, 2, 3⟩).run p.2).1) = true := by decide
  rw [Option.any_eq_true] at h
  obtain ⟨⟨self, b₀⟩, hinit, hok⟩ := h
  have hrun : (self.transDiv ⟨1, 2, 3⟩).run b₀ =
      (true, ((self.transDiv ⟨1, 2, 3⟩).run b₀).2) := Prod.ext hok rfl
  have htrans : transMulDiv self .div = some self.transDiv := rfl
  have hvalue : mulDivValue .div = some divSigned := rfl
  obtain ⟨s', hs', hworld, hhart⟩ :=
    mul_div_matches hinit (.refl b₀) htrans hvalue hrun (.refl _) noEffects blankState
  exact ⟨self, b₀, _, s', hinit, hrun, hs', hworld, hhart⟩

end TcgRs.Analysis.MulDiv
