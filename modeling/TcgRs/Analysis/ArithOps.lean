import TcgRs.Analysis.FieldOps
import TcgRs.Analysis.FoldValues

/-!
# What the code of arithmetic computes

The bytes of each arithmetic op, run to their end in registers that meet the constraint of the op,
leave the value of the IR op in its destination.  Two conversions are the exception: in place they
emit nothing.
-/

set_option autoImplicit false

namespace TcgRs.Analysis.ArithOps

open TcgRs.Model.Ir TcgRs.Model.X86 TcgRs.Interface.X86 TcgRs.Interface.Ir EmittedInsns HostOps
open FieldOps

/-- The code of an op leaves the value in its destination. -/
def Leaves (opc : Opcode) (ty : IrType) (d : Reg) (iregs : List Reg) (c : Cpu) (v : BitVec 64) :
    Prop :=
  ∃ code c', tcgOutOp opc ty [d] iregs [] = some code ∧ c.run code = some c' ∧ c'.regs d.toU8 = v

variable {ty : IrType} {d a b s : Reg} {c : Cpu} {w : Nat}

/-! ## Operand sizes -/

/-- A binary operation at the operand size is the operation at the type. -/
theorem atType₂_low (hty : ty = .i32 ∨ ty = .i64)
    (f : ∀ n : Nat, BitVec n → BitVec n → BitVec n) (x y : BitVec 64) :
    (f (opSize ty) (x.setWidth (opSize ty)) (y.setWidth (opSize ty))).setWidth 64 =
      atType₂ ty f x y := by
  rcases hty with rfl | rfl
  · rfl
  · show (f 64 (x.setWidth 64) (y.setWidth 64)).setWidth 64 = f 64 x y
    rw [BitVec.setWidth_eq, BitVec.setWidth_eq, BitVec.setWidth_eq]

theorem atType_low (hty : ty = .i32 ∨ ty = .i64) (f : ∀ n : Nat, BitVec n → BitVec n)
    (x : BitVec 64) :
    (f (opSize ty) (x.setWidth (opSize ty))).setWidth 64 = atType ty f x := by
  rcases hty with rfl | rfl
  · rfl
  · show (f 64 (x.setWidth 64)).setWidth 64 = f 64 x
    rw [BitVec.setWidth_eq, BitVec.setWidth_eq]

theorem opSize_cases (ty : IrType) : opSize ty = 32 ∨ opSize ty = 64 := rexWidth_cases _

/-- A run that ends in a result of two operands. -/
theorem leaves_binary {opc : Opcode} {iregs : List Reg} {code : List Byte} {carry : Bool}
    (hty : ty = .i32 ∨ ty = .i64) (f : ∀ n : Nat, BitVec n → BitVec n → BitVec n)
    (hcode : tcgOutOp opc ty [d] iregs [] = some code)
    (hrun : c.run code =
      some (result c d (f (opSize ty) (low c (opSize ty) a) (low c (opSize ty) b)) carry)) :
    Leaves opc ty d iregs c (atType₂ ty f (c.regs a.toU8) (c.regs b.toU8)) := by
  refine ⟨code, _, hcode, hrun, ?_⟩
  rw [regs_result, if_pos rfl]
  exact atType₂_low hty f _ _

/-! ## Single instructions -/

theorem run_arithRr (op : ArithOp) (hop : op ≠ .cmp) (rexw : Bool) :
    ∃ carry, c.run (emitArithRr op rexw d s) = some (result c d
      ((aluOf op).run (low c (rexWidth rexw) d) (low c (rexWidth rexw) s) c.carry).1 carry) := by
  obtain ⟨c', rfl, hrun⟩ := (runs_arithRr hop rexw d s).run c
  exact ⟨_, hrun⟩

theorem run_imulRr (rexw : Bool) :
    ∃ carry, c.run (emitImulRr rexw d s) = some (result c d
      (low c (rexWidth rexw) d * low c (rexWidth rexw) s) carry) := by
  refine ⟨(low c (rexWidth rexw) d).smulOverflow (low c (rexWidth rexw) s),
    Cpu.run_single (emitModrm_ne_nil _ _ _) (fetch_imulRr rexw d s) ?_⟩
  simp only [Cpu.exec, read_full, Option.bind_eq_bind, Option.bind_some]
  rw [write_full (rexWidth_cases rexw)]
  rfl

theorem run_neg (rexw : Bool) :
    ∃ carry, c.run (emitGrp3 .neg rexw d) = some (result c d (-low c (rexWidth rexw) d) carry) := by
  refine ⟨decide (low c (rexWidth rexw) d ≠ 0),
    Cpu.run_single (emitModrmExt_ne_nil _ _ _) (fetch_neg rexw d) ?_⟩
  simp only [Cpu.exec, read_full, Option.bind_eq_bind, Option.bind_some]
  rw [write_full (rexWidth_cases rexw)]
  rfl

theorem run_not (rexw : Bool) :
    c.run (emitGrp3 .not rexw d) = some (result c d (~~~low c (rexWidth rexw) d) c.carry) := by
  refine Cpu.run_single (emitModrmExt_ne_nil _ _ _) (fetch_not rexw d) ?_
  simp only [Cpu.exec, read_full, Option.bind_eq_bind, Option.bind_some]
  rw [write_full (rexWidth_cases rexw)]
  rfl

theorem run_andn (rexw : Bool) :
    c.run (emitAndn rexw d a b) = some (result c d
      (~~~low c (rexWidth rexw) a &&& low c (rexWidth rexw) b) false) := by
  refine Cpu.run_single ?_ (fetch_andn rexw d a b) ?_
  · simp [emitAndn, emitVexModrm]
  · simp only [Cpu.exec, read_full, Option.bind_eq_bind, Option.bind_some]
    rw [write_full (rexWidth_cases rexw)]
    rfl

/-- The count of a shift is that of the low byte of RCX, modulo the operand size. -/
theorem shiftCount_cl (hw : w = 32 ∨ w = 64) (x : BitVec 64) :
    shiftCount w (x.setWidth 8) = (x.setWidth w).toNat % w := by
  rcases hw with rfl | rfl
  · show x.toNat % 256 % 32 = x.toNat % 2 ^ 32 % 32
    omega
  · rw [BitVec.setWidth_eq]
    show x.toNat % 256 % 64 = x.toNat % 64
    omega

theorem run_shiftCl (op : ShiftOp) (rexw : Bool) :
    ∃ carry, c.run (emitShiftCl op rexw d) = some (result c d
      ((shiftOf op).run (low c (rexWidth rexw) d)
        ((low c (rexWidth rexw) .rcx).toNat % rexWidth rexw) c.carry).1 carry) := by
  refine ⟨((shiftOf op).run (low c (rexWidth rexw) d)
    ((low c (rexWidth rexw) .rcx).toNat % rexWidth rexw) c.carry).2,
    Cpu.run_single (emitModrmExt_ne_nil _ _ _) (fetch_shiftCl op rexw d) ?_⟩
  simp only [Cpu.exec, read_full, Option.bind_eq_bind, Option.bind_some]
  rw [write_full (rexWidth_cases rexw), shiftCount_cl (rexWidth_cases rexw)]
  rfl

theorem run_lea (rexw : Bool) (hb : b ≠ .rsp) :
    ∃ code, emitLeaSib rexw d a b 0 0 = some code ∧ c.run code = some (result c d
      (low c (rexWidth rexw) a + low c (rexWidth rexw) b) c.carry) := by
  obtain ⟨code, hcode, hne, hfetch⟩ := fetch_leaSib rexw d a b hb
  refine ⟨code, hcode, Cpu.run_single hne hfetch ?_⟩
  simp only [Cpu.exec, Cpu.address, Option.elim, Option.bind_eq_bind, Option.bind_some]
  rw [write_full (rexWidth_cases rexw)]
  have haddr : c.regs a.toU8 + c.regs b.toU8 <<< (0 : BitVec 2).toNat +
      (0 : BitVec 32).signExtend 64 = c.regs a.toU8 + c.regs b.toU8 := by simp
  have hle : rexWidth rexw ≤ 64 := by rcases rexWidth_cases rexw with h | h <;> omega
  show some (c.setReg d.toU8 (((c.regs a.toU8 + c.regs b.toU8 <<< (0 : BitVec 2).toNat +
    (0 : BitVec 32).signExtend 64).setWidth (rexWidth rexw)).setWidth 64)) = _
  rw [haddr, BitVec.setWidth_add _ _ hle]
  rfl

/-! ## Ops -/

theorem leaves_unary {opc : Opcode} (hopc : opc = .neg ∨ opc = .not)
    {f : ∀ n : Nat, BitVec n → BitVec n} (hf : unaryOp opc = some f)
    (hty : ty = .i32 ∨ ty = .i64) (hmeets : Meets (opConstraint opc) [d] [s]) :
    Leaves opc ty d [s] c (atType ty f (c.regs s.toU8)) := by
  have hd : d = s := by
    rcases hopc with rfl | rfl <;>
      exact (Option.some_inj.mp (hmeets.aliased (d, 0) List.mem_cons_self rfl)).symm
  subst hd
  rcases hopc with rfl | rfl <;> cases hf
  · obtain ⟨carry, hrun⟩ := run_neg (c := c) (d := d) (decide (ty = .i64))
    refine ⟨_, _, rfl, hrun, ?_⟩
    rw [regs_result, if_pos rfl]
    exact atType_low hty (fun _ x => -x) _
  · refine ⟨_, _, rfl, run_not (decide (ty = .i64)), ?_⟩
    rw [regs_result, if_pos rfl]
    exact atType_low hty (fun _ x => ~~~x) _

/-- The register of the first input is that of the output. -/
theorem aliased_binary {opc : Opcode} (hmeets : Meets (opConstraint opc) [d] [a, b])
    (halias : ((opConstraint opc).args 0).oalias = true)
    (hindex : ((opConstraint opc).args 0).aliasIndex = 0) : d = a := by
  have h := hmeets.aliased (d, 0) List.mem_cons_self halias
  rw [hindex] at h
  exact (Option.some_inj.mp h).symm

/-- An op that writes arithmetic over its first input. -/
theorem leaves_arith {opc : Opcode} (op : ArithOp) (hop : op ≠ .cmp)
    (f : ∀ n : Nat, BitVec n → BitVec n → BitVec n)
    (hcode : tcgOutOp opc ty [d] [a, b] [] = some (emitArithRr op (decide (ty = .i64)) d b))
    (hf : ∀ (n : Nat) (x y : BitVec n) carry, ((aluOf op).run x y carry).1 = f n x y)
    (hd : d = a) (hty : ty = .i32 ∨ ty = .i64) :
    Leaves opc ty d [a, b] c (atType₂ ty f (c.regs a.toU8) (c.regs b.toU8)) := by
  obtain ⟨carry, hrun⟩ := run_arithRr (c := c) (d := d) (s := b) op hop (decide (ty = .i64))
  rw [hf, hd] at hrun
  rw [hd] at hcode ⊢
  exact leaves_binary hty f hcode hrun

theorem leaves_add (hty : ty = .i32 ∨ ty = .i64)
    (hmeets : Meets (opConstraint .add) [d] [a, b]) :
    Leaves .add ty d [a, b] c (atType₂ ty (fun _ x y => x + y) (c.regs a.toU8) (c.regs b.toU8)) := by
  by_cases hda : d = a
  · refine leaves_arith .add nofun _ ?_ (fun _ _ _ _ => rfl) hda hty
    show outAdd _ d a b = _
    rw [outAdd, if_pos hda]
  · by_cases hdb : d = b
    · obtain ⟨carry, hrun⟩ := run_arithRr (c := c) (d := d) (s := a) .add nofun
        (decide (ty = .i64))
      have hsum : c.run (emitArithRr .add (decide (ty = .i64)) d a) =
          some (result c d (low c (opSize ty) a + low c (opSize ty) b) carry) := by
        rw [hrun, hdb, BitVec.add_comm]
        rfl
      refine leaves_binary hty (fun _ x y => x + y) ?_ hsum
      show outAdd _ d a b = _
      rw [outAdd, if_neg hda, if_pos hdb]
    · have hb : b ≠ .rsp := by
        intro h
        have hin := hmeets.input (b, 2) (by simp)
        rw [h] at hin
        cases hin
      obtain ⟨code, hcode, hrun⟩ := run_lea (c := c) (d := d) (a := a) (decide (ty = .i64)) hb
      refine leaves_binary hty (fun _ x y => x + y) ?_ hrun
      show outAdd _ d a b = _
      rw [outAdd, if_neg hda, if_neg hdb, hcode]

/-- What a shift computes. -/
def shifted (op : ShiftOp) (x : BitVec w) (n : Nat) : BitVec w :=
  match op with
  | .rol => x.rotateLeft n
  | .ror => x.rotateRight n
  | .shl => x <<< n
  | .shr => x >>> n
  | .sar => x.sshiftRight n

/-- The case of a zero count, where the processor keeps the flags, is no exception for the result. -/
theorem run_shiftOf (op : ShiftOp) (x : BitVec w) (n : Nat) (carry : Bool) :
    ((shiftOf op).run x n carry).1 = shifted op x n := by
  show (if n = 0 then (x, carry) else _ : BitVec w × Bool).1 = _
  by_cases hn : n = 0
  · rw [if_pos hn, hn]
    cases op with
    | rol => exact (FoldValues.rotateLeft_zero x).symm
    | ror => exact (FoldValues.rotateRight_zero x).symm
    | shl => exact (BitVec.shiftLeft_zero x).symm
    | shr => exact (BitVec.ushiftRight_zero x).symm
    | sar => exact BitVec.sshiftRight_zero.symm
  · rw [if_neg hn]
    cases op <;> rfl

theorem leaves_shift {opc : Opcode} (op : ShiftOp)
    (hcode : tcgOutOp opc ty [d] [a, b] [] = some (emitShiftCl op (decide (ty = .i64)) d))
    (hconstraint : opConstraint opc = o1I2AliasFixed rNoRcx rNoRcx .rcx)
    (hmeets : Meets (opConstraint opc) [d] [a, b]) (hty : ty = .i32 ∨ ty = .i64) :
    Leaves opc ty d [a, b] c (atType₂ ty (fun n x y => shifted op x (y.toNat % n)) (c.regs a.toU8)
      (c.regs b.toU8)) := by
  have hd : d = a := aliased_binary hmeets (by rw [hconstraint]; rfl) (by rw [hconstraint]; rfl)
  have hb : b = .rcx := by
    have hin := hmeets.input (b, 2) (by simp)
    rw [hconstraint] at hin
    revert hin
    cases b <;> decide
  subst hd hb
  obtain ⟨carry, hrun⟩ := run_shiftCl (c := c) (d := d) op (decide (ty = .i64))
  rw [run_shiftOf] at hrun
  exact leaves_binary hty (fun n x y => shifted op x (y.toNat % n)) hcode hrun

/-- The code of a binary op that the optimizer evaluates. -/
theorem leaves_evaluated {opc : Opcode} (hopc : FoldValues.evaluated opc = true)
    {f : ∀ n : Nat, BitVec n → BitVec n → BitVec n} (hf : binaryOp opc = some f)
    (hty : ty = .i32 ∨ ty = .i64) (hmeets : Meets (opConstraint opc) [d] [a, b]) :
    Leaves opc ty d [a, b] c (atType₂ ty f (c.regs a.toU8) (c.regs b.toU8)) := by
  cases opc <;> simp only [FoldValues.evaluated, Bool.false_eq_true] at hopc <;>
    simp only [binaryOp, Option.some_inj] at hf <;> subst hf
  case add => exact leaves_add hty hmeets
  case sub =>
    exact leaves_arith .sub (by decide) _ rfl (fun _ _ _ _ => rfl) (aliased_binary hmeets rfl rfl)
      hty
  case and =>
    exact leaves_arith .and (by decide) _ rfl (fun _ _ _ _ => rfl) (aliased_binary hmeets rfl rfl)
      hty
  case or =>
    exact leaves_arith .or (by decide) _ rfl (fun _ _ _ _ => rfl) (aliased_binary hmeets rfl rfl)
      hty
  case xor =>
    exact leaves_arith .xor (by decide) _ rfl (fun _ _ _ _ => rfl) (aliased_binary hmeets rfl rfl)
      hty
  case mul =>
    have hd := aliased_binary hmeets rfl rfl
    subst hd
    obtain ⟨carry, hrun⟩ := run_imulRr (c := c) (d := d) (s := b) (decide (ty = .i64))
    exact leaves_binary hty (fun _ x y => x * y) rfl hrun
  case andC =>
    have hrun := run_andn (c := c) (d := d) (a := b) (b := a) (decide (ty = .i64))
    rw [BitVec.and_comm] at hrun
    exact leaves_binary hty (fun _ x y => x &&& ~~~y) rfl hrun
  case shl => exact leaves_shift .shl rfl rfl hmeets hty
  case shr => exact leaves_shift .shr rfl rfl hmeets hty
  case sar => exact leaves_shift .sar rfl rfl hmeets hty
  case rotL => exact leaves_shift .rol rfl rfl hmeets hty
  case rotR => exact leaves_shift .ror rfl rfl hmeets hty

/-! ## Conversions -/

theorem run_shr_32 :
    ∃ carry, c.run (emitShiftRi .shr true d 32) = some (result c d (low c 64 d >>> 32) carry) := by
  refine ⟨((shiftOf .shr).run (low c 64 d) 32 c.carry).2,
    Cpu.run_single (List.append_ne_nil_of_right_ne_nil _ (List.cons_ne_nil _ _)) (fetch_shr_32 d) ?_⟩
  simp only [Cpu.exec, read_full, Option.bind_eq_bind, Option.bind_some]
  rw [write_full (Or.inr rfl)]
  rfl

/-- The conversions that only copy the low half. -/
def copiesLow : Opcode → Bool
  | .extUI32I64 | .extrlI64I32 => true
  | _ => false

/-- In place the copies emit nothing. -/
theorem leaves_in_place {opc : Opcode} (hopc : copiesLow opc = true) :
    Leaves opc ty s [s] c (c.regs s.toU8) := by
  refine ⟨[], c, ?_, Cpu.run_nil c, rfl⟩
  cases opc <;> simp only [copiesLow, Bool.false_eq_true] at hopc <;> simp [tcgOutOp]

theorem leaves_convert {opc : Opcode} {f : BitVec 64 → BitVec 64} (hf : convertOp opc = some f)
    (hmeets : Meets (opConstraint opc) [d] [s]) (hcopy : copiesLow opc = true → d ≠ s) :
    Leaves opc ty d [s] c (f (c.regs s.toU8)) := by
  cases opc <;> simp only [convertOp, Option.some_inj, reduceCtorEq] at hf <;> subst hf
  case extI32I64 =>
    refine ⟨_, _, rfl, run_movslq, ?_⟩
    rw [regs_result, if_pos rfl]
    exact BitVec.setWidth_eq _
  case extUI32I64 | extrlI64I32 =>
    refine ⟨emitMovRr false d s, _, by simp [tcgOutOp, hcopy rfl], run_movRr false, ?_⟩
    rw [regs_result, if_pos rfl]
    rfl
  case extrhI64I32 =>
    have hd : d = s := (Option.some_inj.mp (hmeets.aliased (d, 0) List.mem_cons_self rfl)).symm
    subst hd
    obtain ⟨carry, hrun⟩ := run_shr_32 (c := c) (d := d)
    refine ⟨_, _, rfl, hrun, ?_⟩
    rw [regs_result, if_pos rfl]
    show ((((c.regs d.toU8).setWidth 64) >>> 32).setWidth 64) = (c.regs d.toU8 >>> 32).setWidth 64
    rw [BitVec.setWidth_eq (c.regs d.toU8)]

end TcgRs.Analysis.ArithOps
