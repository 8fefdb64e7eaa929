import Mathlib.Data.BitVec
import Mathlib.Tactic.Positivity
import Mathlib.Tactic.Ring

/-!
# Double words

A word and its sign, or a word and zero, as one word of twice the width, and the quotients that fit
back into one word.
-/

set_option autoImplicit false

namespace TcgRs.Library.WideArith

variable {n : Nat}

/-- A word under its own sign is its sign extension. -/
theorem append_sign (hn : 0 < n) (x : BitVec n) :
    x.sshiftRight (n - 1) ++ x = x.signExtend (n + n) := by
  apply BitVec.eq_of_getLsbD_eq
  intro i hi
  rw [BitVec.getLsbD_append, BitVec.getLsbD_signExtend]
  simp only [hi, decide_true, Bool.true_and]
  split
  · rfl
  · rename_i hge
    rw [BitVec.getLsbD_sshiftRight]
    have hhigh : decide (n ≤ i - n) = false := decide_eq_false (by omega)
    rw [hhigh, Bool.not_false, Bool.true_and]
    split
    · have hlast : n - 1 + (i - n) = n - 1 := by omega
      rw [hlast, BitVec.msb_eq_getLsbD_last]
    · rfl

theorem toInt_append_sign (hn : 0 < n) (x : BitVec n) :
    (x.sshiftRight (n - 1) ++ x).toInt = x.toInt := by
  rw [append_sign hn, BitVec.toInt_signExtend_of_le (Nat.le_add_left n n)]

theorem toNat_append_zero (x : BitVec n) : (0#n ++ x).toNat = x.toNat := by
  rw [BitVec.toNat_append]
  simp

/-- The sign of a word, as a mask. -/
theorem sshiftRight_last (hn : 0 < n) (x : BitVec n) :
    x.sshiftRight (n - 1) = if x.msb then BitVec.allOnes n else 0#n := by
  apply BitVec.eq_of_getLsbD_eq
  intro i hi
  rw [BitVec.getLsbD_sshiftRight]
  have hhigh : decide (n ≤ i) = false := decide_eq_false (by omega)
  rw [hhigh, Bool.not_false, Bool.true_and]
  have hbit : (if n - 1 + i < n then x.getLsbD (n - 1 + i) else x.msb) = x.msb := by
    split
    · have hzero : n - 1 + i = n - 1 := by omega
      rw [hzero, BitVec.msb_eq_getLsbD_last]
    · rfl
  rw [hbit]
  cases x.msb <;> simp [hi]

/-- The high word of a signed times an unsigned word, from that of both as unsigned words. -/
theorem ofInt_mul_high (hn : 0 < n) (x y : BitVec n) :
    BitVec.ofInt n ((x.toNat * y.toNat : Nat) / 2 ^ n) - (x.sshiftRight (n - 1) &&& y) =
      BitVec.ofInt n (x.toInt * y.toNat / 2 ^ n) := by
  have hpow : ((2 : Int) ^ n) ≠ 0 := by positivity
  rw [sshiftRight_last hn, BitVec.toInt_eq_msb_cond]
  cases x.msb with
  | false =>
    rw [if_neg Bool.false_ne_true, if_neg Bool.false_ne_true, BitVec.zero_and, BitVec.sub_zero,
      Nat.cast_mul]
  | true =>
    have hshift : ((x.toNat : Int) - 2 ^ n) * y.toNat / 2 ^ n =
        (x.toNat * y.toNat : Nat) / 2 ^ n - y.toNat := by
      have hprod : ((x.toNat : Int) - 2 ^ n) * y.toNat =
          (x.toNat * y.toNat : Nat) + 2 ^ n * (-(y.toNat : Int)) := by
        push_cast
        ring
      rw [hprod, Int.add_mul_ediv_left _ _ hpow]
      rfl
    rw [if_pos rfl, if_pos rfl, BitVec.allOnes_and, Nat.cast_pow, Nat.cast_ofNat, hshift,
      Int.sub_eq_add_neg, BitVec.ofInt_add, BitVec.ofInt_neg, BitVec.ofInt_natCast _ y.toNat,
      BitVec.ofNat_toNat, BitVec.setWidth_eq, BitVec.sub_eq_add_neg]

/-- Division by anything but 0 and -1 does not leave the range. -/
theorem tdiv_range {x y bound : Int} (hx : -bound ≤ x) (hx' : x < bound) (hy : y ≠ 0)
    (hy' : y ≠ -1) : -bound ≤ x.tdiv y ∧ x.tdiv y < bound := by
  rcases eq_or_ne y 1 with rfl | hone
  · rw [Int.tdiv_one]
    exact ⟨hx, hx'⟩
  · have hdiv : (x.tdiv y).natAbs = x.natAbs / y.natAbs := Int.natAbs_tdiv x y
    have hle : x.natAbs / y.natAbs ≤ x.natAbs / 2 := Nat.div_le_div_left (by omega) (by omega)
    omega

end TcgRs.Library.WideArith
