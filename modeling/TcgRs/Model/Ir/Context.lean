import Mathlib.Logic.Function.Basic
import TcgRs.Model.Ir.Opcode
import TcgRs.Model.X86.Emitter

/-!
# Temporaries, ops and the translation context

`core/src/temp.rs`, `core/src/op.rs`, the register sets of `core/src/types.rs` and the parts
of `core/src/context.rs` that the backend passes use.  A temp is named by its index in the
context's pool; the pool is a function with the number of temps that exist, and reading an
index beyond it is `none`, the panic of the source.
-/

set_option autoImplicit false

namespace TcgRs.Model.Ir

open X86 (Reg)

/-! ## Register sets -/

/-- All host registers, in the order of their numbers. -/
def allRegs : List Reg :=
  [.rax, .rcx, .rdx, .rbx, .rsp, .rbp, .rsi, .rdi,
   .r8, .r9, .r10, .r11, .r12, .r13, .r14, .r15]

/-- A set of host registers: the bitmap of the source as its characteristic function. -/
def RegSet := Reg → Bool

namespace RegSet

def empty : RegSet := fun _ => false

def ofList (l : List Reg) : RegSet := fun r => l.contains r

def contains (s : RegSet) (r : Reg) : Bool := s r

def set (s : RegSet) (r : Reg) : RegSet := fun r' => decide (r' = r) || s r'

def clear (s : RegSet) (r : Reg) : RegSet := fun r' => !decide (r' = r) && s r'

def union (s t : RegSet) : RegSet := fun r => s r || t r

def intersect (s t : RegSet) : RegSet := fun r => s r && t r

def subtract (s t : RegSet) : RegSet := fun r => s r && !t r

/-- The lowest register of the set. -/
def first (s : RegSet) : Option Reg := allRegs.find? s.contains

@[simp] theorem contains_empty (r : Reg) : empty.contains r = false := rfl

@[simp] theorem contains_set (s : RegSet) (r r' : Reg) :
    (s.set r).contains r' = (decide (r' = r) || s.contains r') := rfl

@[simp] theorem contains_clear (s : RegSet) (r r' : Reg) :
    (s.clear r).contains r' = (!decide (r' = r) && s.contains r') := rfl

@[simp] theorem contains_union (s t : RegSet) (r : Reg) :
    (s.union t).contains r = (s.contains r || t.contains r) := rfl

@[simp] theorem contains_intersect (s t : RegSet) (r : Reg) :
    (s.intersect t).contains r = (s.contains r && t.contains r) := rfl

@[simp] theorem contains_subtract (s t : RegSet) (r : Reg) :
    (s.subtract t).contains r = (s.contains r && !t.contains r) := rfl

theorem mem_allRegs (r : Reg) : r ∈ allRegs := by cases r <;> decide

theorem contains_of_first {s : RegSet} {r : Reg} (h : s.first = some r) : s.contains r = true :=
  List.find?_some h

theorem first_eq_none {s : RegSet} : s.first = none ↔ ∀ r, s.contains r = false := by
  simp [first, List.find?_eq_none, mem_allRegs]

end RegSet

/-! ## Temporaries -/

/-- Lifetime and scope of a temp. -/
inductive TempKind where
  | ebb | tb | global | fixed | const
  deriving DecidableEq, Repr

/-- Where the value of a temp lives during register allocation. -/
inductive TempVal where
  | dead | reg | mem | const
  deriving DecidableEq, Repr

/-- A temporary: what it is in the IR, and the register allocator's view of it. -/
structure Temp where
  ty : IrType
  kind : TempKind
  valType : TempVal
  reg : Option Reg
  memCoherent : Bool
  memAllocated : Bool
  val : BitVec 64
  memBase : Option Nat
  memOffset : Int
  deriving DecidableEq, Repr

namespace Temp

def newEbb (ty : IrType) : Temp :=
  ⟨ty, .ebb, .dead, none, false, false, 0, none, 0⟩

def newTb (ty : IrType) : Temp := { newEbb ty with kind := .tb }

def newConst (ty : IrType) (val : BitVec 64) : Temp :=
  ⟨ty, .const, .const, none, false, false, val, none, 0⟩

def newGlobal (ty : IrType) (base : Nat) (offset : Int) : Temp :=
  ⟨ty, .global, .mem, none, true, true, 0, some base, offset⟩

def newFixed (ty : IrType) (reg : Reg) : Temp :=
  ⟨ty, .fixed, .reg, some reg, false, false, 0, none, 0⟩

def isConst (t : Temp) : Bool := decide (t.kind = .const)

def isFixed (t : Temp) : Bool := decide (t.kind = .fixed)

def isGlobalOrFixed (t : Temp) : Bool := decide (t.kind = .global ∨ t.kind = .fixed)

/-- The temp now lives in memory only. -/
def toMem (t : Temp) : Temp := { t with valType := .mem, reg := none, memCoherent := true }

/-- The temp is dead: it lives nowhere. -/
def toDead (t : Temp) : Temp := { t with valType := .dead, reg := none }

end Temp

/-! ## Ops -/

/-- Liveness bits of an op: two for each argument, dead and sync. -/
structure LifeData where
  bits : BitVec 32
  deriving DecidableEq, Repr

namespace LifeData

def isDead (l : LifeData) (n : Nat) : Bool := l.bits &&& (1 <<< (n * 2)) != 0

def isSync (l : LifeData) (n : Nat) : Bool := l.bits &&& (1 <<< (n * 2 + 1)) != 0

def setDead (l : LifeData) (n : Nat) : LifeData := ⟨l.bits ||| (1 <<< (n * 2))⟩

def setSync (l : LifeData) (n : Nat) : LifeData := ⟨l.bits ||| (1 <<< (n * 2 + 1))⟩

end LifeData

/-- One IR operation.  Its ten argument slots hold temp indices, label ids or encoded
immediates; unused slots hold zero. -/
structure Op where
  opc : Opcode
  opType : IrType
  life : LifeData
  outputPref : Nat → RegSet
  args : Nat → Nat
  nargs : Nat

namespace Op

def withArgs (opc : Opcode) (opType : IrType) (args : List Nat) : Op :=
  ⟨opc, opType, ⟨0⟩, fun _ => RegSet.empty, fun i => args.getD i 0, min args.length 10⟩

/-- The output temps, by the opcode's definition. -/
def oargs (op : Op) : List Nat := (List.range op.opc.opDef.nbOargs).map op.args

/-- The input temps. -/
def iargs (op : Op) : List Nat :=
  (List.range op.opc.opDef.nbIargs).map fun i => op.args (op.opc.opDef.nbOargs + i)

/-- The constant arguments. -/
def cargs (op : Op) : List Nat :=
  (List.range op.opc.opDef.nbCargs).map fun i =>
    op.args (op.opc.opDef.nbOargs + op.opc.opDef.nbIargs + i)

end Op

/-! ## The context -/

/-- The translation context: the temps, globals in front, and the spill area of the stack
frame.  The op list is passed beside it. -/
structure Context where
  temps : Nat → Temp
  nbTemps : Nat
  nbGlobals : Nat
  frameReg : Option Reg
  frameStart : Int
  frameEnd : Int
  frameAllocEnd : Int

namespace Context

def temp (ctx : Context) (t : Nat) : Option Temp :=
  if t < ctx.nbTemps then some (ctx.temps t) else none

/-- `temp_mut`: update one temp. -/
def modTemp (ctx : Context) (t : Nat) (f : Temp → Temp) : Context :=
  { ctx with temps := Function.update ctx.temps t (f (ctx.temps t)) }

/-- Allocate a stack slot for a local temp that needs spilling; the offset from the frame
register.  `none` is the assertion that the spill area does not overflow. -/
def allocTempFrame (ctx : Context) (t : Nat) : Option (Context × Int) := do
  let temp ← ctx.temp t
  if temp.memAllocated then return (ctx, temp.memOffset)
  let size : Int := temp.ty.sizeBytes
  let offset := (ctx.frameAllocEnd + size - 1) / size * size
  if offset + size ≤ ctx.frameEnd then
    let ctx := { ctx with frameAllocEnd := offset + size }
    return (ctx.modTemp t fun t => { t with memAllocated := true, memOffset := offset }, offset)
  else none

/-- Configure the stack frame for spilling. -/
def setFrame (ctx : Context) (reg : Reg) (start size : Int) : Context :=
  { ctx with
    frameReg := some reg
    frameStart := start
    frameEnd := start + size
    frameAllocEnd := start }

end Context

/-- What `Context::reset` does to a temp that survives it. -/
def Temp.reset (t : Temp) : Temp :=
  match t.kind with
  | .fixed => { t with memCoherent := false }
  | .global => { t with valType := .mem, reg := none, memCoherent := true }
  | _ => t

/-- Reset for a new block: only the globals are left, and they are in memory.  A pool of temps
holds the blank temp beyond its end, so that equal pools are equal functions. -/
def Context.reset (ctx : Context) : Context :=
  { ctx with
    temps := fun t => if t < ctx.nbGlobals then (ctx.temps t).reset else Temp.newEbb .i64
    nbTemps := min ctx.nbTemps ctx.nbGlobals
    frameAllocEnd := ctx.frameStart }

end TcgRs.Model.Ir
