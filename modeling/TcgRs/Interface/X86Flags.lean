import TcgRs.Interface.X86Decode

/-!
# Flags and conditional jumps

What the processor does with a comparison of two registers and the conditional jump after
it: the arithmetic flags of CMP and TEST, and the meaning of the sixteen condition codes.
As in the decoder, nothing here is taken from the source.
-/

set_option autoImplicit false

namespace TcgRs.Interface.X86

open TcgRs.Model.X86

/-- The status flags that conditional jumps read. -/
structure Flags where
  carry : Bool
  zero : Bool
  sign : Bool
  overflow : Bool
  parity : Bool
  deriving DecidableEq, Repr

variable {w : Nat}

/-- The parity flag: an even number of ones in the low byte. -/
def evenParity (x : BitVec w) : Bool :=
  decide ((List.range 8).countP (fun i => x.getLsbD i) % 2 = 0)

/-- The flags after subtracting `y` from `x`. -/
def subFlags (x y : BitVec w) : Flags where
  carry := x.ult y
  zero := decide (x - y = 0)
  sign := (x - y).msb
  overflow := BitVec.ssubOverflow x y
  parity := evenParity (x - y)

/-- The flags after the AND of `x` and `y`. -/
def andFlags (x y : BitVec w) : Flags where
  carry := false
  zero := decide (x &&& y = 0)
  sign := (x &&& y).msb
  overflow := false
  parity := evenParity (x &&& y)

/-- Whether a condition code holds: eight conditions, and their negations at the odd codes. -/
def Flags.holds (f : Flags) (cc : Byte) : Bool :=
  let base := match (cc >>> 1).toNat with
    | 0 => f.overflow
    | 1 => f.carry
    | 2 => f.zero
    | 3 => f.carry || f.zero
    | 4 => f.sign
    | 5 => f.parity
    | 6 => f.sign != f.overflow
    | _ => f.zero || (f.sign != f.overflow)
  base != cc.getLsbD 0

/-- The flags after CMP or TEST of two full registers; `regs` maps register numbers to their
contents. -/
def compareFlags (regs : Byte → BitVec 64) (i : Insn) : Option Flags :=
  match i.map, i.reg, i.rm with
  | .legacy, .full r, .reg (.full m) =>
    if i.data16 then none
    else if i.opcode = 0x3B then
      if i.width = 64 then some (subFlags (regs r) (regs m))
      else some (subFlags ((regs r).setWidth 32) ((regs m).setWidth 32))
    else if i.opcode = 0x85 then
      if i.width = 64 then some (andFlags (regs r) (regs m))
      else some (andFlags ((regs r).setWidth 32) ((regs m).setWidth 32))
    else none
  | _, _, _ => none

/-- Whether the code, a comparison followed by a near conditional jump, jumps. -/
def branchTaken (regs : Byte → BitVec 64) (bs : List Byte) : Option Bool :=
  match decode bs with
  | some (insn, 0x0F :: b :: _) =>
    if b &&& 0xF0 = 0x80 then (compareFlags regs insn).map fun f => f.holds (b &&& 0x0F) else none
  | _ => none

/-! ## The codes that compare -/

theorem subFlags_zero (x y : BitVec w) : (subFlags x y).zero = decide (x = y) := by
  simp only [subFlags]
  congr 1
  exact propext ⟨fun h => by simpa [BitVec.sub_eq_iff_eq_add] using h, fun h => by simp [h]⟩

/-- The wrapped difference is negative when the true one is and does not underflow, or when it
overflows. -/
theorem sub_toInt_neg_iff {n : Nat} (x y : BitVec (n + 1)) :
    (x - y).toInt < 0 ↔
      (x.toInt < y.toInt ∧ ¬ x.toInt - y.toInt < -2 ^ n) ∨ 2 ^ n ≤ x.toInt - y.toInt := by
  have hp : (2 : Int) ^ (n + 1) = 2 * 2 ^ n := by rw [Int.pow_succ, Int.mul_comm]
  have hpn : ((2 ^ (n + 1) : Nat) : Int) = 2 * 2 ^ n := by
    rw [Nat.pow_succ]
    push_cast
    rw [Int.mul_comm]
  have hx := BitVec.le_two_mul_toInt (x := x)
  have hx' := BitVec.two_mul_toInt_lt (x := x)
  have hy := BitVec.le_two_mul_toInt (x := y)
  have hy' := BitVec.two_mul_toInt_lt (x := y)
  rw [hp] at hx hx' hy hy'
  have hpos : (0 : Int) < 2 ^ n := Int.pow_pos (by decide)
  rw [BitVec.toInt_sub, Int.bmod_def, hpn]
  generalize (2 : Int) ^ n = P at *
  by_cases hc : 0 ≤ x.toInt - y.toInt
  · rw [Int.emod_eq_of_lt hc (by omega)]
    split <;> omega
  · have he : (x.toInt - y.toInt) % (2 * P) = x.toInt - y.toInt + 2 * P := by
      rw [← Int.add_emod_right, Int.emod_eq_of_lt (by omega) (by omega)]
    rw [he]
    split <;> omega

/-- Sign and overflow differ exactly when the first operand is less, as signed numbers. -/
theorem subFlags_signed (x y : BitVec w) :
    ((subFlags x y).sign != (subFlags x y).overflow) = x.slt y := by
  cases w with
  | zero => simp [subFlags, BitVec.of_length_zero, BitVec.ssubOverflow, BitVec.slt]
  | succ n =>
    have hx := BitVec.le_two_mul_toInt (x := x)
    have hpos : (0 : Int) < 2 ^ n := Int.pow_pos (by decide)
    rw [Bool.eq_iff_iff]
    simp only [subFlags, BitVec.slt_iff_toInt_lt, bne_iff_ne, ne_eq, BitVec.msb_eq_toInt,
      BitVec.ssubOverflow, Nat.add_sub_cancel, Bool.or_eq_decide, decide_eq_true_eq,
      decide_eq_decide, sub_toInt_neg_iff]
    generalize (2 : Int) ^ n = P at *
    omega

/-- Below or equal: carry or zero. -/
theorem subFlags_ule (x y : BitVec w) :
    ((subFlags x y).carry || (subFlags x y).zero) = x.ule y := by
  rw [subFlags_zero, Bool.eq_iff_iff]
  simp only [subFlags, Bool.or_eq_true, BitVec.ult_eq_decide, BitVec.ule_eq_decide,
    decide_eq_true_eq, BitVec.toNat_eq]
  omega

/-- Less or equal, as signed numbers: zero, or sign and overflow differ. -/
theorem subFlags_sle (x y : BitVec w) :
    ((subFlags x y).zero || ((subFlags x y).sign != (subFlags x y).overflow)) = x.sle y := by
  rw [subFlags_zero, subFlags_signed, Bool.eq_iff_iff]
  simp only [Bool.or_eq_true, decide_eq_true_eq, BitVec.slt_iff_toInt_lt, BitVec.sle_iff_toInt_le,
    ← BitVec.toInt_inj]
  omega

end TcgRs.Interface.X86
