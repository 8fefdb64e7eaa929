import TcgRs.Model.CodeBuffer
import TcgRs.Model.Exec.Tb

/-!
# Block exits and patchable jumps

The part of `backend/src/x86_64/codegen.rs` and `emitter.rs` that emits `goto_tb` and
`exit_tb` and re-targets a `goto_tb` jump at run time.  The host code of one block is a list
of items: the jumps and exits go through the functions below, every other op contributes
some bytes.  `none` is a failed assertion of the source.
-/

set_option autoImplicit false

namespace TcgRs.Model.X86

open CodeBuffer Exec

/-- The offsets the backend remembers from emitting the epilogue. -/
structure CodeGen where
  epilogueReturnZeroOffset : Nat
  tbRetOffset : Nat

/-- The value is in the range of an `i32`. -/
def fitsI32 (d : Int) : Bool := decide (-2147483648 ≤ d) && decide (d ≤ 2147483647)

/-- Patch the direct jump at `jumpOffset` to go to `targetOffset`. -/
def patchJump (buf : CodeBuffer) (jumpOffset targetOffset : Nat) : Option CodeBuffer :=
  let disp : Int := targetOffset - (jumpOffset + 5)
  if fitsI32 disp then buf.patchU32 (jumpOffset + 1) (BitVec.ofInt 32 disp) else none

/-- `n` bytes of NOP padding, in the recommended multi-byte forms. -/
def emitNops (n : Nat) : List Byte :=
  match n with
  | 0 => []
  | 1 => [0x90]
  | 2 => [0x66, 0x90]
  | 3 => [0x0F, 0x1F, 0x00]
  | 4 => [0x0F, 0x1F, 0x40, 0x00]
  | 5 => [0x0F, 0x1F, 0x44, 0x00, 0x00]
  | 6 => [0x66, 0x0F, 0x1F, 0x44, 0x00, 0x00]
  | 7 => [0x0F, 0x1F, 0x80, 0x00, 0x00, 0x00, 0x00]
  | n + 8 => [0x0F, 0x1F, 0x84, 0x00, 0x00, 0x00, 0x00, 0x00] ++ emitNops n

/-- The padding that puts the displacement of a jump at `offset` on a multiple of four:
`((offset + 1 + 3) & !3) - (offset + 1)`. -/
def gotoTbPad (offset : Nat) : Nat := (offset + 1 + 3) / 4 * 4 - (offset + 1)

/-- Emit `goto_tb`: a patchable direct jump with displacement zero.  Returns the offset of
the jump and the offset just after it. -/
def emitGotoTb (buf : CodeBuffer) : Option (CodeBuffer × Nat × Nat) := do
  let buf ← buf.emitBytes (emitNops (gotoTbPad buf.offset))
  let jmpOffset := buf.offset
  let buf ← buf.emitBytes ((0xE9 : Byte) :: emitU32 0)
  return (buf, jmpOffset, buf.offset)

def opcMovlIv : BitVec 32 := 0xB8

/-- Load an immediate into a register, by the shortest of four encodings. -/
def emitMovRi (rexw : Bool) (reg : Reg) (val : BitVec 64) : List Byte :=
  if val = 0 then emitModrm 0x31 reg reg
  else if !rexw || decide (val ≤ 0xFFFFFFFF) then
    emitOpc (opcMovlIv + reg.low3.setWidth 32) 0 reg.toU8 ++ emitU32 (val.setWidth 32)
  else if fitsI32 val.toInt then
    emitModrmExt (opcMovlEvIz ||| pRexw) 0 reg ++ emitU32 (val.setWidth 32)
  else
    emitOpc ((opcMovlIv + reg.low3.setWidth 32) ||| pRexw) 0 reg.toU8 ++
      (emitU32 (val.setWidth 32) ++ emitU32 ((val >>> 32).setWidth 32))

/-- Emit `jmp rel32` to an absolute offset. -/
def emitJmp (buf : CodeBuffer) (targetOffset : Nat) : Option CodeBuffer :=
  let disp : Int := targetOffset - (buf.offset + 5)
  if fitsI32 disp then buf.emitBytes ((0xE9 : Byte) :: emitU32 (BitVec.ofInt 32 disp)) else none

/-- Emit `exit_tb(val)`: load the return value into RAX and jump to the epilogue. -/
def emitExitTb (gen : CodeGen) (buf : CodeBuffer) (val : BitVec 64) : Option CodeBuffer :=
  if val = 0 then emitJmp buf gen.epilogueReturnZeroOffset
  else do
    let buf ← buf.emitBytes (emitMovRi true .rax val)
    emitJmp buf gen.tbRetOffset

/-! ## The host code of one block -/

/-- What one op of a block puts into the code buffer. -/
inductive HostItem where
  /-- Any op but the two below, by the bytes it emits. -/
  | code (bytes : List Byte)
  /-- `GotoTb` with the index its op carries, which the emission does not look at. -/
  | gotoTb (index : Nat)
  /-- `ExitTb` with the value its op carries. -/
  | exitTb (val : BitVec 32)

/-- The host code of a block: its last op is an `ExitTb`. -/
structure BlockCode where
  items : List HostItem
  lastExit : BitVec 32

/-- All items of a block in order. -/
def BlockCode.ops (code : BlockCode) : List HostItem := code.items ++ [.exitTb code.lastExit]

/-- The buffer and the `(jmp_offset, reset_offset)` pairs recorded so far. -/
structure EmitState where
  buf : CodeBuffer
  gotoTbInfo : List (Nat × Nat)

/-- `tcg_out_op` on one item. -/
def emitItem (gen : CodeGen) (tbIdx : BitVec 32) (st : EmitState) : HostItem → Option EmitState
  | .code bytes => do
    let buf ← st.buf.emitBytes bytes
    return { st with buf := buf }
  | .gotoTb _ => do
    let (buf, jmp, reset) ← emitGotoTb st.buf
    return ⟨buf, st.gotoTbInfo ++ [(jmp, reset)]⟩
  | .exitTb val => do
    let buf ← emitExitTb gen st.buf (encodeTbExit tbIdx (val.setWidth 64))
    return { st with buf := buf }

/-- The ops of a block in order, from an empty list of recorded jumps. -/
def emitBlock (gen : CodeGen) (tbIdx : BitVec 32) (code : BlockCode) (buf : CodeBuffer) :
    Option EmitState :=
  code.ops.foldlM (emitItem gen tbIdx) ⟨buf, []⟩

/-! ## Where the code of an item lies -/

/-- The size of the code of `exit_tb(val)`. -/
def exitTbSize (val : BitVec 64) : Nat :=
  if val = 0 then 5 else (emitMovRi true .rax val).length + 5

/-- The offset just after an item that is emitted at `start`. -/
def itemEnd (tbIdx : BitVec 32) (start : Nat) : HostItem → Nat
  | .code bytes => start + bytes.length
  | .gotoTb _ => start + gotoTbPad start + 5
  | .exitTb val => start + exitTbSize (encodeTbExit tbIdx (val.setWidth 64))

/-- The offset at which item `k` of a block emitted at `start` begins. -/
def itemStart (tbIdx : BitVec 32) (start : Nat) (items : List HostItem) (k : Nat) : Nat :=
  (items.take k).foldl (itemEnd tbIdx) start

/-- The offset of the jump of item `k`, a `goto_tb`: it stands after the padding. -/
def gotoTbJump (tbIdx : BitVec 32) (start : Nat) (items : List HostItem) (k : Nat) : Nat :=
  itemStart tbIdx start items k + gotoTbPad (itemStart tbIdx start items k)

/-- Where the five-byte direct jump at `pos` goes. -/
def jumpTarget (buf : CodeBuffer) (pos : Nat) : Int := pos + 5 + (buf.readU32 (pos + 1)).toInt

end TcgRs.Model.X86
