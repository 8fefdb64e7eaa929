import Mathlib.Data.BitVec

/-!
# Fields of a word

Extraction of a field by shifts, extension of narrow words and concatenation of fields, for words
of every width.
-/

set_option autoImplicit false

namespace TcgRs.Library.BitFields

variable {w : Nat}

/-! ## Extraction -/

/-- A left shift to the top and an arithmetic shift back extract a field with its sign. -/
theorem shifts_eq_signExtend (x : BitVec w) (pos len : Nat) (hlen : 1 ≤ len)
    (hin : pos + len ≤ w) :
    (x <<< (w - pos - len)).sshiftRight (w - len) = (x.extractLsb' pos len).signExtend w := by
  apply BitVec.eq_of_getLsbD_eq
  intro i hi
  simp only [BitVec.getLsbD_sshiftRight, BitVec.getLsbD_signExtend, BitVec.getLsbD_shiftLeft,
    BitVec.getLsbD_extractLsb', BitVec.msb_eq_getLsbD_last, hi, decide_true, Bool.true_and]
  by_cases hil : i < len
  · grind
  · grind

theorem sshiftRight_signExtend (x : BitVec w) (v r : Nat) (h : w ≤ v) :
    (x.signExtend v).sshiftRight r = (x.sshiftRight r).signExtend v := by
  apply BitVec.eq_of_getLsbD_eq
  intro i hi
  simp only [BitVec.getLsbD_sshiftRight, BitVec.getLsbD_signExtend, BitVec.msb_sshiftRight,
    BitVec.msb_signExtend, hi, decide_true, Bool.true_and]
  grind

theorem setWidth_shiftLeft_signExtend (x : BitVec w) (v l : Nat) (h : w ≤ v) :
    (x.signExtend v <<< l).setWidth w = x <<< l := by
  apply BitVec.eq_of_getLsbD_eq
  intro i hi
  simp only [BitVec.getLsbD_setWidth, BitVec.getLsbD_shiftLeft, BitVec.getLsbD_signExtend]
  grind

/-- A right shift and a mask extract a field without sign. -/
theorem ushiftRight_and_mask (x : BitVec w) (v pos len : Nat) (hw : w ≤ v) (hlen : len < v) :
    x.setWidth v >>> pos &&& BitVec.ofNat v (2 ^ len - 1) =
      BitVec.ofNat v (x.toNat / 2 ^ pos % 2 ^ len) := by
  apply BitVec.eq_of_toNat_eq
  have hx : x.toNat < 2 ^ v := lt_of_lt_of_le x.isLt (Nat.pow_le_pow_right (by omega) hw)
  have hm : 2 ^ len < 2 ^ v := Nat.pow_lt_pow_right (by omega) hlen
  have hb : x.toNat / 2 ^ pos % 2 ^ len < 2 ^ len := Nat.mod_lt _ (Nat.two_pow_pos len)
  simp only [BitVec.toNat_and, BitVec.toNat_ushiftRight, BitVec.toNat_setWidth,
    BitVec.toNat_ofNat, Nat.shiftRight_eq_div_pow]
  rw [Nat.mod_eq_of_lt hx, Nat.mod_eq_of_lt (show 2 ^ len - 1 < 2 ^ v by omega),
    Nat.and_two_pow_sub_one_eq_mod, Nat.mod_eq_of_lt (show _ < 2 ^ v by omega)]

/-- The same shifts at a larger width, on a word that is kept as its extension. -/
theorem shifts_eq_bmod (x : BitVec w) (v pos len : Nat) (hlen : 1 ≤ len) (hin : pos + len ≤ w)
    (hv : w ≤ v) :
    (((x.signExtend v <<< (w - pos - len)).setWidth w).signExtend v).sshiftRight (w - len) =
      BitVec.ofInt v (((x.toNat / 2 ^ pos % 2 ^ len : Nat) : Int).bmod (2 ^ len)) := by
  have hsign : (x.extractLsb' pos len).toInt =
      ((x.toNat / 2 ^ pos % 2 ^ len : Nat) : Int).bmod (2 ^ len) := by
    rw [BitVec.toInt_eq_toNat_bmod, BitVec.extractLsb'_toNat, Nat.shiftRight_eq_div_pow]
  rw [setWidth_shiftLeft_signExtend x v _ hv, sshiftRight_signExtend _ v _ hv,
    shifts_eq_signExtend x pos len hlen hin, ← hsign]
  show BitVec.ofInt v ((x.extractLsb' pos len).signExtend w).toInt = _
  rw [BitVec.toInt_signExtend_of_le (by omega)]

/-! ## Concatenation -/

theorem ofInt_shiftLeft (v len : Nat) (x : Int) :
    BitVec.ofInt v x <<< len = BitVec.ofInt v (x * 2 ^ len) := by
  have hpow : BitVec.twoPow v len = BitVec.ofInt v (2 ^ len) := by
    apply BitVec.eq_of_toInt_eq
    rw [BitVec.toInt_ofInt, BitVec.toInt_eq_toNat_bmod, BitVec.toNat_twoPow]
    simpa using Int.emod_bmod (2 ^ len) (2 ^ v)
  rw [BitVec.shiftLeft_eq_mul_twoPow, hpow, BitVec.ofInt_mul]

theorem shiftLeft_or (v len b : Nat) (x : Int) (hb : b < 2 ^ len) :
    BitVec.ofInt v x <<< len ||| BitVec.ofNat v b = BitVec.ofInt v (x * 2 ^ len + b) := by
  have hdisj : BitVec.ofInt v x <<< len &&& BitVec.ofNat v b = 0 := by
    apply BitVec.eq_of_getLsbD_eq
    intro i hi
    simp only [BitVec.getLsbD_and, BitVec.getLsbD_shiftLeft, BitVec.getLsbD_ofNat]
    by_cases hil : i < len
    · simp [hil]
    · have hbit : b.testBit i = false :=
        Nat.testBit_lt_two_pow (lt_of_lt_of_le hb (Nat.pow_le_pow_right (by omega) (by omega)))
      simp [hbit]
  rw [← BitVec.add_eq_or_of_and_eq_zero _ _ hdisj, BitVec.ofInt_add, ofInt_shiftLeft]
  rfl

theorem bmod_two_pow (a m : Nat) : (a : Int).bmod (2 ^ (m + 1)) =
    if a % 2 ^ (m + 1) < 2 ^ m then ((a % 2 ^ (m + 1) : Nat) : Int)
    else ((a % 2 ^ (m + 1) : Nat) : Int) - 2 ^ (m + 1) := by
  have hhalf : (((2 ^ (m + 1) : Nat) : Int) + 1) / 2 = ((2 ^ m : Nat) : Int) := by omega
  rw [Int.bmod_def, hhalf]
  norm_cast

/-- Two's complement of a concatenation: the sign is that of the first part. -/
theorem bmod_concat (n b L len : Nat) (hL : 1 ≤ L) (hb : b < 2 ^ len) :
    ((n * 2 ^ len + b : Nat) : Int).bmod (2 ^ (L + len)) =
      (n : Int).bmod (2 ^ L) * 2 ^ len + b := by
  have hpos : 0 < 2 ^ len := Nat.two_pow_pos len
  obtain ⟨k, rfl⟩ : ∃ k, L = k + 1 := ⟨L - 1, by omega⟩
  have hmod : (n * 2 ^ len + b) % 2 ^ (k + 1 + len) = n % 2 ^ (k + 1) * 2 ^ len + b := by
    rw [Nat.pow_add, Nat.mul_comm (2 ^ (k + 1)), Nat.mod_mul, Nat.add_comm (n * 2 ^ len) b,
      Nat.add_mul_mod_self_right, Nat.mod_eq_of_lt hb, Nat.add_mul_div_right _ _ hpos,
      Nat.div_eq_of_lt hb, Nat.zero_add, Nat.mul_comm, Nat.add_comm]
  have hhalf : n % 2 ^ (k + 1) * 2 ^ len + b < 2 ^ (k + len) ↔ n % 2 ^ (k + 1) < 2 ^ k := by
    rw [Nat.pow_add 2 k len]
    constructor
    · intro h
      exact Nat.lt_of_mul_lt_mul_right (by omega : n % 2 ^ (k + 1) * 2 ^ len < 2 ^ k * 2 ^ len)
    · intro h
      have hle := Nat.mul_le_mul_right (2 ^ len) (Nat.succ_le_of_lt h)
      rw [Nat.succ_mul] at hle
      omega
  rw [show k + 1 + len = k + len + 1 by omega] at hmod ⊢
  rw [bmod_two_pow, bmod_two_pow, hmod]
  simp only [hhalf]
  split
  · push_cast
    rfl
  · have hsplit : (2 : Int) ^ (k + len + 1) = 2 ^ (k + 1) * 2 ^ len := by
      rw [← Int.pow_add]
      congr 1
      omega
    rw [hsplit, Int.sub_mul]
    push_cast
    omega

end TcgRs.Library.BitFields
