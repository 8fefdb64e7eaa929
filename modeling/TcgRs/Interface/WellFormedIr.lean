import TcgRs.Interface.RiscvCpu
import TcgRs.Model.Riscv.Translator

/-!
# Well-formed op lists

What the passes behind the frontend rely on without a check: arguments, labels, the lifetimes of
local temps, the ends of a block, and the accesses to the CPU state.
-/

set_option autoImplicit false

namespace TcgRs.Interface.Ir

open Model.Ir Model.Riscv

/-! ## Arguments -/

/-- The number of arguments of an opcode. -/
def arity (opc : Opcode) : Nat := opc.opDef.nbOargs + opc.opDef.nbIargs + opc.opDef.nbCargs

/-- A temp that is neither a global nor a constant. -/
def isLocalTemp (C : Context) (t : Nat) : Bool :=
  decide (C.nbGlobals ≤ t) && !(C.temps t).isConst

/-- The label that a branch goes to. -/
def branchLabel (op : Op) : Option Nat :=
  match op.opc with
  | .br => some (op.args 0)
  | .brCond => some (op.args 3)
  | _ => none

/-- The label that an op sets. -/
def labelSet (op : Op) : Option Nat := if op.opc = .setLabel then some (op.args 0) else none

/-! ## Ends of a block -/

/-- The chain slot of a jump, and that of an exit; other exits have none. -/
def gotoSlot (op : Op) : Option Nat := if op.opc = .gotoTb then some (op.args 0) else none

def exitSlot (op : Op) : Option Nat :=
  if op.opc = .exitTb ∧ op.args 0 ≤ TB_EXIT_IDX0 + 1 then some (op.args 0) else none

/-! ## Accesses -/

/-- The number of bytes that an op reads or writes in host memory. -/
def hostBytes (op : Op) : Option Nat :=
  match op.opc with
  | .ld8U | .ld8S | .st8 => some 1
  | .ld16U | .ld16S | .st16 => some 2
  | .ld32U | .ld32S | .st32 => some 4
  | .ld | .st => some op.opType.sizeBytes
  | _ => none

/-- The base temp of such an op: the last input. -/
def hostBase (op : Op) : Option Nat := op.iargs.getLast?

/-- Its offset, a signed 32-bit number. -/
def hostOffset (op : Op) : Int := (BitVec.ofNat 32 (op.cargs.headD 0)).toInt

/-! ## Blocks -/

/-- The op list of a block whose labels are below `nbLabels`. -/
structure WellFormed (dc : RiscvDisasContext) (C : Context) (nbLabels : Nat) (ops : List Op) :
    Prop where
  arity_eq : ∀ op ∈ ops, op.nargs = arity op.opc
  temps_lt : ∀ op ∈ ops, ∀ t ∈ op.oargs ++ op.iargs, t < C.nbTemps
  label_set : ∀ label < nbLabels, ∃! i : Nat, (ops[i]?).bind labelSet = some label
  branch_set : ∀ (i label : Nat), (ops[i]?).bind branchLabel = some label →
    ∃ j, i < j ∧ (ops[j]?).bind labelSet = some label
  written : ∀ (i : Nat) (op : Op), ops[i]? = some op → ∀ t ∈ op.iargs, isLocalTemp C t = true →
    ∃ (j : Nat) (op' : Op), j < i ∧ ops[j]? = some op' ∧ t ∈ op'.oargs
  unlabelled : ∀ (i j k : Nat) (op op' op'' : Op),
    ops[i]? = some op → ops[j]? = some op' → ops[k]? = some op'' → i < j → j < k → (labelSet op').isSome = true → ∀ t ∈ op.oargs, isLocalTemp C t = true →
      t ∉ op''.iargs
  outputs : ∀ op ∈ ops, op.oargs.Nodup ∧
    ∀ t ∈ op.oargs, (C.temps t).isConst = false ∧ t ≠ dc.env ∧ t ≠ dc.gpr 0
  last : (ops.getLast?).map Op.opc = some .exitTb
  exit_after : ∀ (i slot : Nat), (ops[i]?).bind exitSlot = some slot →
    ∃ j, i = j + 1 ∧ (ops[j]?).bind gotoSlot = some slot
  slots : (ops.filterMap gotoSlot).Sublist [0, 1] ∧ (ops.filterMap exitSlot).Sublist [0, 1]
  apart : ∀ op ∈ ops, ∀ size, hostBytes op = some size → hostBase op = some dc.env →
    ∀ t < C.nbGlobals, (C.temps t).memBase = some dc.env →
      hostOffset op + size ≤ (C.temps t).memOffset ∨
        (C.temps t).memOffset + (C.temps t).ty.sizeBytes ≤ hostOffset op

end TcgRs.Interface.Ir
