import TcgRs.Model.RegAlloc
import TcgRs.Model.X86.Codegen
import TcgRs.Model.X86.OutOp

/-!
# Emission with labels

The bytes of the calls that `regalloc_and_codegen` makes, and the labels of `core/src/label.rs`: a
jump to a label that is not placed yet is recorded as a use and patched when the label is placed.
The allocator does not read the code buffer, so the calls are emitted from their list.  `none` is a
failed assertion or index of the source.
-/

set_option autoImplicit false

namespace TcgRs.Model.X86

open Ir RegAlloc CodeBuffer Exec

/-! ## Bytes -/

/-- The bytes of a call to the backend.  Labels have none, and those of a jump depend on where it
is placed. -/
def insnBytes : HostInsn → Option (List Byte)
  | .mov ty dst src => some (tcgOutMov ty dst src)
  | .movi ty dst val => some (tcgOutMovi ty dst val)
  | .ld ty dst base offset => some (tcgOutLd ty dst base offset)
  | .st ty src base offset => some (tcgOutSt ty src base offset)
  | .op opc ty oregs iregs cargs => tcgOutOp opc ty oregs iregs cargs
  | .mfence => some emitMfence
  | .label _ | .jmp _ => none

/-- The bytes of a list of calls. -/
def codeBytes : List HostInsn → Option (List Byte)
  | [] => some []
  | insn :: code => do return (← insnBytes insn) ++ (← codeBytes code)

/-! ## Labels -/

/-- A branch target.  A use is the offset of the displacement of a jump; there is one kind of
relocation, `Rel32`. -/
structure Label where
  id : Nat
  present : Bool
  hasValue : Bool
  value : Nat
  uses : List Nat
  deriving DecidableEq, Repr

namespace Label

def new (id : Nat) : Label := ⟨id, false, false, 0, []⟩

/-- Record a forward reference to this label. -/
def addUse (label : Label) (offset : Nat) : Label := { label with uses := label.uses ++ [offset] }

/-- Mark this label as placed at the given code buffer offset. -/
def setValue (label : Label) (offset : Nat) : Label :=
  { label with present := true, hasValue := true, value := offset }

/-- Whether there are unresolved forward references. -/
def hasPendingUses (label : Label) : Bool := !label.uses.isEmpty && !label.hasValue

end Label

/-! ## Emission -/

/-- The code buffer, the labels of the context, the jumps recorded by `goto_tb`, and the offsets
that were patched so far.  The last is written down for the statements about patching; the emission
does not read it. -/
structure Emission where
  buf : CodeBuffer
  labels : Nat → Option Label
  gotoTbInfo : List (Nat × Nat)
  patches : List Nat

namespace Emission

/-- `ctx.label_mut(id)` is changed. -/
def setLabel (st : Emission) (id : Nat) (label : Label) : Emission :=
  { st with labels := Function.update st.labels id (some label) }

end Emission

/-- Patch one use of a label that is placed at `offset`; the displacement is cast to `u32`. -/
def patchUse (offset : Nat) (buf : CodeBuffer) (u : Nat) : Option CodeBuffer :=
  buf.patchU32 u (BitVec.ofInt 32 ((offset : Int) - (u + 4)))

/-- `SetLabel`: place the label and patch the uses it has. -/
def emitLabel (st : Emission) (id : Nat) : Option Emission := do
  let label ← st.labels id
  let offset := st.buf.offset
  let buf ← label.uses.foldlM (patchUse offset) st.buf
  return { (st.setLabel id { label.setValue offset with uses := [] }) with
    buf := buf, patches := st.patches ++ label.uses }

/-- `Br`: a direct jump, or one that is recorded where its displacement begins. -/
def emitBr (st : Emission) (id : Nat) : Option Emission := do
  let label ← st.labels id
  if label.hasValue then
    let buf ← emitJmp st.buf label.value
    return { st with buf := buf }
  else
    let buf ← st.buf.emitBytes [0xE9]
    let patchOff := buf.offset
    let buf ← buf.emitBytes (emitU32 0)
    return { (st.setLabel id (label.addUse patchOff)) with buf := buf }

/-- The displacement of a jump after its opcode. -/
def emitDisp (buf : CodeBuffer) (target : Nat) : Option CodeBuffer :=
  let disp : Int := target - (buf.offset + 4)
  if fitsI32 disp then buf.emitBytes (emitU32 (BitVec.ofInt 32 disp)) else none

/-- `BrCond`: the comparison and a conditional jump, recorded four bytes back from its end. -/
def emitBrCond (st : Emission) (ty : IrType) (a b : Reg) (cond : Cond) (id : Nat) :
    Option Emission := do
  let label ← st.labels id
  let buf ← st.buf.emitBytes (outBrCond ty a b cond)
  if label.hasValue then
    let buf ← emitDisp buf label.value
    return { st with buf := buf }
  else
    let buf ← buf.emitBytes (emitU32 0)
    return { (st.setLabel id (label.addUse (buf.offset - 4))) with buf := buf }

/-- Emit one call. -/
def emitInsn (gen : CodeGen) (tbIdx : BitVec 32) (st : Emission) : HostInsn → Option Emission
  | .label id => emitLabel st id
  | .jmp id => emitBr st id
  | .op .brCond ty _ (a :: b :: _) (c :: id :: _) => do
    emitBrCond st ty a b (← Cond.ofCode c) id
  | .op .exitTb _ _ _ (val :: _) => do
    let buf ← emitExitTb gen st.buf (encodeTbExit tbIdx (BitVec.ofNat 64 val))
    return { st with buf := buf }
  | .op .gotoTb _ _ _ _ => do
    let (buf, jmp, reset) ← emitGotoTb st.buf
    return { st with buf := buf, gotoTbInfo := st.gotoTbInfo ++ [(jmp, reset)] }
  | insn => do
    let buf ← st.buf.emitBytes (← insnBytes insn)
    return { st with buf := buf }

/-- Emit the calls in order. -/
def emitCode (gen : CodeGen) (tbIdx : BitVec 32) (st : Emission) (code : List HostInsn) :
    Option Emission := code.foldlM (emitInsn gen tbIdx) st

/-- `regalloc_and_codegen` into a code buffer. -/
def regallocAndEmit (gen : CodeGen) (tbIdx : BitVec 32) (ctx : Context) (st : Emission)
    (ops : List Op) : Option Emission := do
  let p ← regallocAndCodegen ctx ops
  emitCode gen tbIdx st p.buf

end TcgRs.Model.X86
