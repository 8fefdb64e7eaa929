import TcgRs.Interface.RiscvFloat

/-!
# Minimum and maximum on bit patterns

The helpers return the least or the greatest pattern.  Values that compare equal have the same
pattern unless they are zeros, and of zeros the or and the and of the patterns pick the right sign.
-/

set_option autoImplicit false

namespace TcgRs.Analysis.FloatMinMax

open TcgRs.Library TcgRs.Library.FloatFormat TcgRs.Model.Riscv TcgRs.Interface.RiscvFloat

variable {w : Nat}

/-! ## Fields -/

/-- A kind whose functions on patterns are those of its format. -/
structure Sound (k : FpKind w) : Prop where
  width : w = 1 + (k.fmt.expBits + k.fmt.fracBits)
  expBits_pos : 0 < k.fmt.expBits
  isNan_eq : ∀ x, k.isNan x = k.fmt.isNan x
  isSnan_eq : ∀ x, k.isSnan x = k.fmt.isSignaling x

theorem toNat_and_low (x : BitVec w) {k : Nat} (hk : k ≤ w) :
    (x &&& BitVec.ofNat w (2 ^ k - 1)).toNat = x.toNat % 2 ^ k := by
  have hpow : 2 ^ k ≤ 2 ^ w := Nat.pow_le_pow_right (by decide) hk
  have hpos : 0 < 2 ^ k := Nat.two_pow_pos k
  rw [BitVec.toNat_and, BitVec.toNat_ofNat, Nat.mod_eq_of_lt (by omega),
    Nat.and_two_pow_sub_one_eq_mod]

/-- The masks of the source are those of the fields. -/
theorem isNanBits_eq (fmt : FloatFormat) (x : BitVec w) (hexp : fmt.expBits ≤ w)
    (hfrac : fmt.fracBits ≤ w) :
    isNanBits fmt.fracBits (BitVec.ofNat w (2 ^ fmt.expBits - 1))
      (BitVec.ofNat w (2 ^ fmt.fracBits - 1)) x = fmt.isNan x := by
  have hpow : 2 ^ fmt.expBits ≤ 2 ^ w := Nat.pow_le_pow_right (by decide) hexp
  have hpos : 0 < 2 ^ fmt.expBits := Nat.two_pow_pos _
  have hmax : (BitVec.ofNat w (2 ^ fmt.expBits - 1)).toNat = 2 ^ fmt.expBits - 1 :=
    Nat.mod_eq_of_lt (by omega)
  have hzero : (0 : BitVec w).toNat = 0 := BitVec.toNat_zero
  unfold isNanBits FloatFormat.isNan FloatFormat.exp FloatFormat.frac FloatFormat.maxExp
  rw [Bool.eq_iff_iff, Bool.and_eq_true, beq_iff_eq, bne_iff_ne, decide_eq_true_iff,
    ← BitVec.toNat_inj, toNat_and_low _ hexp, BitVec.toNat_ushiftRight,
    Nat.shiftRight_eq_div_pow, hmax, ne_eq, ← BitVec.toNat_inj, toNat_and_low _ hfrac, hzero]

/-- A clear highest bit of the fraction. -/
theorem quiet_bit_clear_iff (x : BitVec w) {p : Nat} :
    x &&& BitVec.twoPow w p = 0 ↔ x.toNat % 2 ^ (p + 1) < 2 ^ p := by
  have hbit : x.getLsbD p = false ↔ x.toNat % 2 ^ (p + 1) < 2 ^ p := by
    have hdiv : x.toNat % 2 ^ (p + 1) / 2 ^ p = x.toNat / 2 ^ p % 2 := by
      rw [Nat.pow_succ, Nat.mod_mul_right_div_self]
    rw [← BitVec.testBit_toNat, Nat.testBit_eq_decide_div_mod_eq, decide_eq_false_iff_not, ← hdiv,
      ← Nat.div_eq_zero_iff_lt (Nat.two_pow_pos p)]
    omega
  rw [← hbit, BitVec.and_twoPow]
  constructor
  · intro h
    by_contra hset
    have hone := Bool.eq_true_of_not_eq_false hset
    have hp : p < w := by
      by_contra hge
      rw [BitVec.getLsbD_of_ge x p (Nat.le_of_not_lt hge)] at hone
      cases hone
    rw [if_pos hone] at h
    have hpow := congrArg BitVec.toNat h
    rw [BitVec.toNat_twoPow_of_lt hp] at hpow
    exact absurd hpow (Nat.two_pow_pos p).ne'
  · intro h
    rw [h]
    rfl

theorem isSignaling_eq (fmt : FloatFormat) (x : BitVec w) {p : Nat} (hp : fmt.fracBits = p + 1) :
    (fmt.isNan x && x &&& BitVec.twoPow w p == 0) = fmt.isSignaling x := by
  have hfrac : fmt.frac x = x.toNat % 2 ^ (p + 1) := by rw [← hp, FloatFormat.frac]
  rw [Bool.eq_iff_iff, Bool.and_eq_true, beq_iff_eq, quiet_bit_clear_iff, ← hfrac]
  unfold FloatFormat.isSignaling
  rw [decide_eq_true_iff, hp, Nat.add_sub_cancel]

theorem sound_f32 : Sound f32Kind where
  width := rfl
  expBits_pos := by decide
  isNan_eq x := isNanBits_eq binary32 x (by decide) (by decide)
  isSnan_eq x := by
    have hnan : isNanF32 x = binary32.isNan x := isNanBits_eq binary32 x (by decide) (by decide)
    show (isNanF32 x && x &&& BitVec.twoPow 32 22 == 0) = _
    rw [hnan]
    exact isSignaling_eq binary32 x rfl

theorem sound_f64 : Sound f64Kind where
  width := rfl
  expBits_pos := by decide
  isNan_eq x := isNanBits_eq binary64 x (by decide) (by decide)
  isSnan_eq x := by
    have hnan : isNanF64 x = binary64.isNan x := isNanBits_eq binary64 x (by decide) (by decide)
    show (isNanF64 x && x &&& BitVec.twoPow 64 51 == 0) = _
    rw [hnan]
    exact isSignaling_eq binary64 x rfl

/-! ## The order -/

section
variable {fmt : FloatFormat} {x y : BitVec w}

theorem eq_iff (hx : fmt.isNan x = false) (hy : fmt.isNan y = false) :
    fmt.eq x y = true ↔ fmt.value x = fmt.value y := by
  unfold FloatFormat.eq
  rw [hx, hy, Bool.not_false, Bool.true_and, Bool.true_and, decide_eq_true_iff]

theorem lt_iff (hx : fmt.isNan x = false) (hy : fmt.isNan y = false) :
    fmt.lt x y = true ↔ fmt.value x < fmt.value y := by
  unfold FloatFormat.lt
  rw [hx, hy, Bool.not_false, Bool.true_and, Bool.true_and, decide_eq_true_iff]

theorem key_le_of_lt (h : fmt.value x < fmt.value y) : orderKey fmt x ≤ orderKey fmt y :=
  Prod.Lex.toLex_le_toLex.mpr (.inl h)

theorem key_le_iff_of_eq (h : fmt.value x = fmt.value y) :
    orderKey fmt x ≤ orderKey fmt y ↔ (fmt.isNeg y = true → fmt.isNeg x = true) := by
  unfold orderKey
  rw [Prod.Lex.toLex_le_toLex, h]
  cases fmt.isNeg x <;> cases fmt.isNeg y <;> simp

/-- Patterns with the same key are the same. -/
theorem eq_of_key_eq (hw : w = 1 + (fmt.expBits + fmt.fracBits))
    (h : orderKey fmt x = orderKey fmt y) : x = y := by
  have hkey : (fmt.value x, !fmt.isNeg x) = (fmt.value y, !fmt.isNeg y) := h
  injection hkey with hvalue hneg
  by_cases hzero : fmt.magnitude x = 0
  · by_cases hzero' : fmt.magnitude y = 0
    · exact eq_of_fields hw (Bool.not_inj hneg) (hzero.trans hzero'.symm)
    · exact (eq_of_value_eq hw hvalue.symm hzero').symm
  · exact eq_of_value_eq hw hvalue hzero

/-! ## Zeros -/

theorem magnitude_zero (fmt : FloatFormat) : fmt.magnitude (0 : BitVec w) = 0 :=
  (congrArg (· % _) BitVec.toNat_zero).trans (Nat.zero_mod _)

theorem isNeg_zero (fmt : FloatFormat) : fmt.isNeg (0 : BitVec w) = false := by
  have hzero : (0 : BitVec w).toNat = 0 := BitVec.toNat_zero
  unfold FloatFormat.isNeg
  rw [hzero, Nat.zero_div]
  rfl

theorem finite_of_magnitude (hfmt : 0 < fmt.expBits) (h : fmt.magnitude x = 0) :
    fmt.isInf x = false ∧ fmt.signedUnits x = 0 := by
  have hmax : fmt.maxExp ≠ 0 := by
    have hpow : 2 ^ 1 ≤ 2 ^ fmt.expBits := Nat.pow_le_pow_right (by decide) hfmt
    unfold FloatFormat.maxExp
    omega
  have hexp : fmt.exp x = 0 := by rw [exp_eq, h, Nat.zero_div]
  have hunits : fmt.units x = 0 := (units_eq_zero_iff fmt x).mpr h
  constructor
  · unfold FloatFormat.isInf
    rw [hexp]
    exact decide_eq_false fun hinf => hmax hinf.1.symm
  · unfold FloatFormat.signedUnits
    rw [hunits]
    split <;> rfl

theorem value_zero_iff (hfmt : 0 < fmt.expBits) :
    fmt.value x = fmt.value (0 : BitVec w) ↔ fmt.magnitude x = 0 := by
  obtain ⟨hinf, hunits⟩ := finite_of_magnitude (x := (0 : BitVec w)) hfmt (magnitude_zero fmt)
  rw [value_eq_iff, hinf, hunits]
  constructor
  · rintro ⟨hfin, -, hsame⟩
    have hzero := hsame hfin
    rw [← units_eq_zero_iff]
    unfold FloatFormat.signedUnits at hzero
    split at hzero <;> omega
  · intro h
    obtain ⟨hfin, hsame⟩ := finite_of_magnitude hfmt h
    exact ⟨hfin, fun hinf' => absurd hfin (by rw [hinf']; decide), fun _ => hsame⟩

/-- The positive zero is the zero pattern. -/
theorem eq_zero_of_magnitude (hw : w = 1 + (fmt.expBits + fmt.fracBits))
    (h : fmt.magnitude x = 0) (hneg : fmt.isNeg x = false) : x = 0 :=
  eq_of_fields hw (hneg.trans (isNeg_zero fmt).symm) (h.trans (magnitude_zero fmt).symm)

/-- The or of two zeros is negative if one of them is. -/
theorem or_zeros (hw : w = 1 + (fmt.expBits + fmt.fracBits)) (hx : fmt.magnitude x = 0)
    (hy : fmt.magnitude y = 0) : x ||| y = if fmt.isNeg x then x else y := by
  cases hnx : fmt.isNeg x with
  | false =>
    rw [eq_zero_of_magnitude hw hx hnx]
    exact BitVec.zero_or
  | true =>
    cases hny : fmt.isNeg y with
    | false =>
      rw [eq_zero_of_magnitude hw hy hny]
      exact BitVec.or_zero
    | true =>
      rw [eq_of_fields hw (hny.trans hnx.symm) (hy.trans hx.symm)]
      exact BitVec.or_self

theorem and_zeros (hw : w = 1 + (fmt.expBits + fmt.fracBits)) (hx : fmt.magnitude x = 0)
    (hy : fmt.magnitude y = 0) : x &&& y = if fmt.isNeg x then y else x := by
  cases hnx : fmt.isNeg x with
  | false =>
    rw [eq_zero_of_magnitude hw hx hnx]
    exact BitVec.zero_and
  | true =>
    cases hny : fmt.isNeg y with
    | false =>
      rw [eq_zero_of_magnitude hw hy hny]
      exact BitVec.and_zero
    | true =>
      rw [eq_of_fields hw (hny.trans hnx.symm) (hy.trans hx.symm)]
      exact BitVec.and_self

end

/-! ## Results -/

section
variable {k : FpKind w} {env : FpEnv} {a b : BitVec w}

theorem raises_snan (hk : Sound k) (env : FpEnv) (a b : BitVec w) :
    Raises (if k.fmt.isSignaling a || k.fmt.isSignaling b then FFLAGS_NV else 0) env
      (if k.isSnan a || k.isSnan b then setInvalid env else env) := by
  rw [hk.isSnan_eq, hk.isSnan_eq]
  split
  · refine ⟨?_, rfl⟩
    show (env.fflags ||| FFLAGS_NV) &&& FFLAGS_MASK &&& FFLAGS_MASK = _
    rw [BitVec.and_assoc, BitVec.and_self, BitVec.and_or_distrib_right]
    rfl
  · exact ⟨BitVec.or_zero.symm, rfl⟩

/-- The zero test of numbers that compare equal. -/
theorem zeros_of_eq (hk : Sound k) (ha : k.fmt.isNan a = false)
    (hvalue : k.fmt.value a = k.fmt.value b) :
    (k.fmt.eq a 0 = true ∧ k.fmt.magnitude a = 0 ∧ k.fmt.magnitude b = 0) ∨
      (k.fmt.eq a 0 = false ∧ a = b) := by
  have hnan : k.fmt.isNan (0 : BitVec w) = false := by
    unfold FloatFormat.isNan
    rw [frac_eq, magnitude_zero, Nat.zero_mod]
    exact decide_eq_false fun h => h.2 rfl
  have hiff := (eq_iff ha hnan).trans (value_zero_iff hk.expBits_pos)
  have hiff' := value_zero_iff (x := b) hk.expBits_pos
  cases hzero : k.fmt.eq a 0 with
  | true =>
    have hmag := hiff.mp hzero
    rw [← value_zero_iff hk.expBits_pos, hvalue, hiff'] at hmag
    exact .inl ⟨rfl, hiff.mp hzero, hmag⟩
  | false =>
    have hmag : k.fmt.magnitude a ≠ 0 := by
      intro hmag
      rw [hiff.mpr hmag] at hzero
      cases hzero
    exact .inr ⟨rfl, eq_of_value_eq hk.width hvalue hmag⟩

/-- The minimum of numbers. -/
theorem fmin_least (hk : Sound k) (ha : k.fmt.isNan a = false) (hb : k.fmt.isNan b = false) :
    ((fmin k env a b).1 = a ∧ orderKey k.fmt a ≤ orderKey k.fmt b) ∨
      ((fmin k env a b).1 = b ∧ orderKey k.fmt b ≤ orderKey k.fmt a) := by
  unfold fmin
  dsimp only
  rw [hk.isNan_eq, hk.isNan_eq, ha, hb, Bool.or_false, if_neg Bool.false_ne_true]
  cases heq : k.fmt.eq a b with
  | true =>
    have hvalue := (eq_iff ha hb).mp heq
    rw [if_pos rfl]
    cases zeros_of_eq hk ha hvalue with
    | inl hzero =>
      rw [if_pos hzero.1, or_zeros hk.width hzero.2.1 hzero.2.2]
      cases hneg : k.fmt.isNeg a with
      | true => exact .inl ⟨rfl, (key_le_iff_of_eq hvalue).mpr fun _ => hneg⟩
      | false =>
        refine .inr ⟨rfl, (key_le_iff_of_eq hvalue.symm).mpr fun h => ?_⟩
        rw [hneg] at h
        cases h
    | inr hsame =>
      rw [hsame.1, if_neg Bool.false_ne_true]
      exact .inl ⟨rfl, (key_le_iff_of_eq hvalue).mpr fun h => hsame.2 ▸ h⟩
  | false =>
    have hne : k.fmt.value a ≠ k.fmt.value b := by
      intro hvalue
      rw [(eq_iff ha hb).mpr hvalue] at heq
      cases heq
    rw [if_neg Bool.false_ne_true]
    by_cases hlt : k.fmt.value a < k.fmt.value b
    · rw [(lt_iff ha hb).mpr hlt]
      exact .inl ⟨rfl, key_le_of_lt hlt⟩
    · rw [Bool.eq_false_iff.mpr fun h => hlt ((lt_iff ha hb).mp h)]
      exact .inr ⟨rfl, key_le_of_lt (lt_of_le_of_ne (not_lt.mp hlt) hne.symm)⟩

/-- The maximum of numbers. -/
theorem fmax_greatest (hk : Sound k) (ha : k.fmt.isNan a = false) (hb : k.fmt.isNan b = false) :
    ((fmax k env a b).1 = a ∧ orderKey k.fmt a ≥ orderKey k.fmt b) ∨
      ((fmax k env a b).1 = b ∧ orderKey k.fmt b ≥ orderKey k.fmt a) := by
  unfold fmax
  dsimp only
  rw [hk.isNan_eq, hk.isNan_eq, ha, hb, Bool.or_false, if_neg Bool.false_ne_true]
  cases heq : k.fmt.eq a b with
  | true =>
    have hvalue := (eq_iff ha hb).mp heq
    rw [if_pos rfl]
    cases zeros_of_eq hk ha hvalue with
    | inl hzero =>
      rw [if_pos hzero.1, and_zeros hk.width hzero.2.1 hzero.2.2]
      cases hneg : k.fmt.isNeg a with
      | true => exact .inr ⟨rfl, (key_le_iff_of_eq hvalue).mpr fun _ => hneg⟩
      | false =>
        refine .inl ⟨rfl, (key_le_iff_of_eq hvalue.symm).mpr fun h => ?_⟩
        rw [hneg] at h
        cases h
    | inr hsame =>
      rw [hsame.1, if_neg Bool.false_ne_true]
      exact .inl ⟨rfl, (key_le_iff_of_eq hvalue.symm).mpr fun h => hsame.2 ▸ h⟩
  | false =>
    have hne : k.fmt.value a ≠ k.fmt.value b := by
      intro hvalue
      rw [(eq_iff ha hb).mpr hvalue] at heq
      cases heq
    rw [if_neg Bool.false_ne_true]
    by_cases hlt : k.fmt.value b < k.fmt.value a
    · rw [(lt_iff hb ha).mpr hlt]
      exact .inl ⟨rfl, key_le_of_lt hlt⟩
    · rw [Bool.eq_false_iff.mpr fun h => hlt ((lt_iff hb ha).mp h)]
      exact .inr ⟨rfl, key_le_of_lt (lt_of_le_of_ne (not_lt.mp hlt) hne)⟩

/-- A result that the keys determine does not depend on the order of the operands. -/
theorem comm_of_picks {fmt : FloatFormat} (hw : w = 1 + (fmt.expBits + fmt.fracBits))
    {r r' : BitVec w} {below : WithBot (WithTop ℚ) ×ₗ Bool → WithBot (WithTop ℚ) ×ₗ Bool → Prop}
    (hanti : ∀ p q, below p q → below q p → p = q)
    (h : (r = a ∧ below (orderKey fmt a) (orderKey fmt b)) ∨
      (r = b ∧ below (orderKey fmt b) (orderKey fmt a)))
    (h' : (r' = b ∧ below (orderKey fmt b) (orderKey fmt a)) ∨
      (r' = a ∧ below (orderKey fmt a) (orderKey fmt b))) : r = r' := by
  rcases h with ⟨hr, hab⟩ | ⟨hr, hba⟩ <;> rcases h' with ⟨hr', hba'⟩ | ⟨hr', hab'⟩
  · rw [hr, hr']
    exact eq_of_key_eq hw (hanti _ _ hab hba')
  · rw [hr, hr']
  · rw [hr, hr']
  · rw [hr, hr']
    exact eq_of_key_eq hw (hanti _ _ hba hab')

/-- A function that picks by the keys meets the specification. -/
theorem picksLeast_of (hk : Sound k)
    {below : WithBot (WithTop ℚ) ×ₗ Bool → WithBot (WithTop ℚ) ×ₗ Bool → Prop}
    (hanti : ∀ p q, below p q → below q p → p = q)
    {f : FpEnv → BitVec w → BitVec w → BitVec w × FpEnv}
    (hnan : ∀ env a b, k.fmt.isNan a = true ∨ k.fmt.isNan b = true → (f env a b).1 =
      if k.fmt.isNan a && k.fmt.isNan b then k.canonicalNan else if k.fmt.isNan a then b else a)
    (hleast : ∀ env a b, k.fmt.isNan a = false → k.fmt.isNan b = false →
      ((f env a b).1 = a ∧ below (orderKey k.fmt a) (orderKey k.fmt b)) ∨
        ((f env a b).1 = b ∧ below (orderKey k.fmt b) (orderKey k.fmt a)))
    (henv : ∀ env a b,
      (f env a b).2 = if k.isSnan a || k.isSnan b then setInvalid env else env) :
    PicksLeast k.fmt k.canonicalNan below f where
  both_nan env a b ha hb := by
    rw [hnan env a b (.inl ha), ha, hb]
    rfl
  left_nan env a b ha hb := by
    rw [hnan env a b (.inl ha), ha, hb]
    rfl
  right_nan env a b ha hb := by
    rw [hnan env a b (.inr hb), ha, hb]
    rfl
  least := hleast
  flags env a b := by
    rw [henv]
    exact raises_snan hk env a b
  comm env a b := by
    have hflags : (f env a b).2 = (f env b a).2 := by rw [henv, henv, Bool.or_comm]
    refine Prod.ext ?_ hflags
    by_cases hsome : k.fmt.isNan a = true ∨ k.fmt.isNan b = true
    · rw [hnan env a b hsome, hnan env b a hsome.symm]
      cases ha : k.fmt.isNan a <;> cases hb : k.fmt.isNan b <;> try rfl
      rw [ha, hb] at hsome
      simp at hsome
    · rw [not_or, Bool.not_eq_true, Bool.not_eq_true] at hsome
      exact comm_of_picks hk.width hanti (hleast env a b hsome.1 hsome.2)
        (hleast env b a hsome.2 hsome.1)

theorem fmin_picks (hk : Sound k) : PicksLeast k.fmt k.canonicalNan (· ≤ ·) (fmin k) := by
  refine picksLeast_of hk (fun _ _ => le_antisymm) ?_ (fun _ _ _ => fmin_least hk) ?_
  · intro env a b h
    unfold fmin
    dsimp only
    rw [hk.isNan_eq, hk.isNan_eq, if_pos ((Bool.or_eq_true _ _).mpr h)]
    split <;> rfl
  · intro env a b
    unfold fmin
    dsimp only
    repeat' split
    all_goals rfl

theorem fmax_picks (hk : Sound k) : PicksLeast k.fmt k.canonicalNan (· ≥ ·) (fmax k) := by
  refine picksLeast_of hk (fun _ _ h h' => le_antisymm h' h) ?_ (fun _ _ _ => fmax_greatest hk) ?_
  · intro env a b h
    unfold fmax
    dsimp only
    rw [hk.isNan_eq, hk.isNan_eq, if_pos ((Bool.or_eq_true _ _).mpr h)]
    split <;> rfl
  · intro env a b
    unfold fmax
    dsimp only
    repeat' split
    all_goals rfl

end

/-- The four functions return the least or greatest operand, the other operand of one NaN and the
canonical NaN of two; they raise NV for signaling NaNs only, and do not depend on the order. -/
theorem fmin_fmax_spec :
    PicksLeast binary32 0x7fc00000 (· ≤ ·) fminF32 ∧
      PicksLeast binary32 0x7fc00000 (· ≥ ·) fmaxF32 ∧
      PicksLeast binary64 0x7ff8000000000000 (· ≤ ·) fminF64 ∧
      PicksLeast binary64 0x7ff8000000000000 (· ≥ ·) fmaxF64 :=
  ⟨fmin_picks sound_f32, fmax_picks sound_f32, fmin_picks sound_f64, fmax_picks sound_f64⟩

end TcgRs.Analysis.FloatMinMax
