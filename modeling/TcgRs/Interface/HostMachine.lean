import TcgRs.Model.RegAlloc

/-!
# The host machine under the register allocator

What the data movement that the allocator emits does to registers and memory.  Memory is a set of
objects, one for each pointer that the code uses as a base (the CPU state and the stack frame),
and an object has a cell at each displacement: homes of different temps do not overlap.  As in the
backend, an operand of type `i64` has 64 bits and every other one 32, zero-extended in a register.
-/

set_option autoImplicit false

namespace TcgRs.Interface.Host

open Model.Ir Model.X86 Model.RegAlloc

/-- Registers and memory; a cell is named by the pointer to its object and its displacement. -/
structure Machine where
  regs : Reg → BitVec 64
  mem : BitVec 64 → Int → BitVec 64

/-- What is left of a value at a type. -/
def trunc (ty : IrType) (v : BitVec 64) : BitVec 64 :=
  if ty = .i64 then v else (v.setWidth 32).setWidth 64

namespace Machine

def setReg (m : Machine) (r : Reg) (v : BitVec 64) : Machine :=
  { m with regs := Function.update m.regs r v }

def setCell (m : Machine) (base : BitVec 64) (offset : Int) (v : BitVec 64) : Machine :=
  { m with mem := Function.update m.mem base (Function.update (m.mem base) offset v) }

/-- One instruction.  Moves of a register to itself are not emitted.  The ops and the control
transfers, which the statements treat on their own, do nothing here. -/
def exec (m : Machine) : HostInsn → Machine
  | .mov ty dst src => if dst = src then m else m.setReg dst (trunc ty (m.regs src))
  | .movi ty dst val => m.setReg dst (trunc ty val)
  | .ld ty dst base offset => m.setReg dst (trunc ty (m.mem (m.regs base) offset))
  | .st ty src base offset => m.setCell (m.regs base) offset (trunc ty (m.regs src))
  | _ => m

def execAll (m : Machine) (code : List HostInsn) : Machine := code.foldl exec m

@[simp] theorem regs_setReg (m : Machine) (r r' : Reg) (v : BitVec 64) :
    (m.setReg r v).regs r' = if r' = r then v else m.regs r' := by
  simp [setReg, Function.update_apply]

@[simp] theorem mem_setReg (m : Machine) (r : Reg) (v : BitVec 64) : (m.setReg r v).mem = m.mem :=
  rfl

@[simp] theorem regs_setCell (m : Machine) (base : BitVec 64) (offset : Int) (v : BitVec 64) :
    (m.setCell base offset v).regs = m.regs := rfl

theorem mem_setCell (m : Machine) (base base' : BitVec 64) (offset offset' : Int) (v : BitVec 64) :
    (m.setCell base offset v).mem base' offset' =
      if base' = base ∧ offset' = offset then v else m.mem base' offset' := by
  unfold setCell
  by_cases hb : base' = base
  · subst hb
    by_cases ho : offset' = offset <;> simp [ho]
  · simp [hb]

@[simp] theorem execAll_nil (m : Machine) : m.execAll [] = m := rfl

theorem execAll_append (m : Machine) (code code' : List HostInsn) :
    m.execAll (code ++ code') = (m.execAll code).execAll code' := List.foldl_append

end Machine

@[simp] theorem trunc_trunc (ty : IrType) (v : BitVec 64) : trunc ty (trunc ty v) = trunc ty v := by
  unfold trunc
  split <;> simp

/-- Values that agree at a type have the same low half. -/
theorem low_of_trunc {ty : IrType} {x y : BitVec 64} (h : trunc ty x = trunc ty y) :
    x.setWidth 32 = y.setWidth 32 := by
  unfold trunc at h
  split at h
  · rw [h]
  · have h' := congrArg (BitVec.setWidth 32) h
    simpa using h'

end TcgRs.Interface.Host
