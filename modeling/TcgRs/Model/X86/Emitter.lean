import Mathlib.Data.BitVec

/-!
# The x86-64 operand encoders

The part of `backend/src/x86_64/regs.rs` and `backend/src/x86_64/emitter.rs` that turns an
opcode word and its operands into bytes.  An opcode word is the source's `u32`: the opcode
byte in its low eight bits and the `P_*` prefix flags above them.  Each `buf.emit_u8` call
of the source contributes one element of the returned list, in the order of the calls;
`emit_u32` contributes its four bytes, least significant first.
-/

set_option autoImplicit false

namespace TcgRs.Model.X86

/-- One byte of host code. -/
abbrev Byte := BitVec 8

/-- The general-purpose registers, in the order of their ModR/M numbers. -/
inductive Reg where
  | rax | rcx | rdx | rbx | rsp | rbp | rsi | rdi
  | r8 | r9 | r10 | r11 | r12 | r13 | r14 | r15
  deriving DecidableEq, Repr

/-- The register's discriminant, `self as u8`. -/
def Reg.toU8 : Reg → Byte
  | .rax => 0 | .rcx => 1 | .rdx => 2 | .rbx => 3
  | .rsp => 4 | .rbp => 5 | .rsi => 6 | .rdi => 7
  | .r8 => 8 | .r9 => 9 | .r10 => 10 | .r11 => 11
  | .r12 => 12 | .r13 => 13 | .r14 => 14 | .r15 => 15

/-- Low 3 bits of the register encoding (for ModR/M). -/
def Reg.low3 (r : Reg) : Byte := r.toU8 &&& 7

/-- Whether this register requires a REX prefix (R8-R15). -/
def Reg.needsRex (r : Reg) : Bool := decide (8 ≤ r.toU8)

/-! ## Prefix flags and opcode words -/

def pExt : BitVec 32 := 0x100
def pExt38 : BitVec 32 := 0x200
def pData16 : BitVec 32 := 0x400
def pRexw : BitVec 32 := 0x1000
def pRexbR : BitVec 32 := 0x2000
def pRexbRm : BitVec 32 := 0x4000
def pExt3a : BitVec 32 := 0x10000
def pSimdf3 : BitVec 32 := 0x20000
def pSimdf2 : BitVec 32 := 0x40000

def opcArithEvIb : BitVec 32 := 0x83
def opcArithEvIz : BitVec 32 := 0x81
def opcArithGvEv : BitVec 32 := 0x03
def opcArithEvGv : BitVec 32 := 0x01
def opcShift1 : BitVec 32 := 0xD1
def opcShiftIb : BitVec 32 := 0xC1
def opcShiftCl : BitVec 32 := 0xD3
def opcMovbEvGv : BitVec 32 := 0x88
def opcMovlEvGv : BitVec 32 := 0x89
def opcMovlGvEv : BitVec 32 := 0x8B
def opcMovlEvIz : BitVec 32 := 0xC7
def opcMovzbl : BitVec 32 := 0xB6 ||| pExt
def opcMovzwl : BitVec 32 := 0xB7 ||| pExt
def opcMovsbl : BitVec 32 := 0xBE ||| pExt
def opcMovswl : BitVec 32 := 0xBF ||| pExt
def opcMovslq : BitVec 32 := 0x63 ||| pRexw
def opcBsf : BitVec 32 := 0xBC ||| pExt
def opcBsr : BitVec 32 := 0xBD ||| pExt
def opcLzcnt : BitVec 32 := 0xBD ||| pExt ||| pSimdf3
def opcTzcnt : BitVec 32 := 0xBC ||| pExt ||| pSimdf3
def opcPopcnt : BitVec 32 := 0xB8 ||| pExt ||| pSimdf3
def opcAndn : BitVec 32 := 0xF2 ||| pExt38
def opcCmovcc : BitVec 32 := 0x40 ||| pExt
def opcSetcc : BitVec 32 := 0x90 ||| pExt ||| pRexbRm
def opcTestl : BitVec 32 := 0x85
def opcGrp3Ev : BitVec 32 := 0xF7
def opcGrp3Eb : BitVec 32 := 0xF6
def opcGrp5 : BitVec 32 := 0xFF
def opcGrpbt : BitVec 32 := 0xBA ||| pExt
def opcImulGvEv : BitVec 32 := 0xAF ||| pExt
def opcImulGvEvIb : BitVec 32 := 0x6B
def opcImulGvEvIz : BitVec 32 := 0x69
def opcLea : BitVec 32 := 0x8D
def opcXchgEvGv : BitVec 32 := 0x87
def opcShldIb : BitVec 32 := 0xA4 ||| pExt
def opcShrdIb : BitVec 32 := 0xAC ||| pExt

/-- Whether the opcode word carries one of the flags in `flag`. -/
def hasFlag (opc flag : BitVec 32) : Bool := decide (opc &&& flag ≠ 0)

/-- Helper: `P_REXW` if `rexw` is true. -/
def rexwFlag (rexw : Bool) : BitVec 32 := if rexw then pRexw else 0

/-! ## Opcode and REX bytes -/

/-- The REX bits gathered from the tests of `emit_opc_3`, before the `0x40` of the prefix
byte is added.  A bare prefix (`0x40`) is forced for a byte register numbered 4 or more when
nothing else asks for one. -/
def gatherRex (w r8 x8 b8 byteR byteRm : Bool) : Byte :=
  let rex : Byte := 0
  let rex := if w then rex ||| 0x08 else rex
  let rex := if r8 then rex ||| 0x04 else rex
  let rex := if x8 then rex ||| 0x02 else rex
  let rex := if b8 then rex ||| 0x01 else rex
  let rex := if byteR && rex == 0 then 0x40 else rex
  if byteRm && rex == 0 then 0x40 else rex

/-- The REX bits for an opcode word and its three register fields. -/
def rexBits (opc : BitVec 32) (r rm index : Byte) : Byte :=
  gatherRex (hasFlag opc pRexw) (decide (8 ≤ r)) (decide (8 ≤ index)) (decide (8 ≤ rm))
    (hasFlag opc pRexbR && decide (4 ≤ r)) (hasFlag opc pRexbRm && decide (4 ≤ rm))

/-- The `0x66` byte, if the opcode word asks for it. -/
def data16Bytes (opc : BitVec 32) : List Byte := if hasFlag opc pData16 then [0x66] else []

/-- The `0xF3` or `0xF2` byte, if the opcode word asks for one. -/
def simdBytes (opc : BitVec 32) : List Byte :=
  if hasFlag opc pSimdf3 then [0xF3] else if hasFlag opc pSimdf2 then [0xF2] else []

/-- The `0x0F` escape and its second byte, if the opcode word asks for them. -/
def escapeBytes (opc : BitVec 32) : List Byte :=
  if hasFlag opc (pExt ||| pExt38 ||| pExt3a) then
    0x0F :: (if hasFlag opc pExt38 then [0x38] else if hasFlag opc pExt3a then [0x3A] else [])
  else []

/-- Emit opcode with REX prefix, 3-register variant (r, rm, index). -/
def emitOpc3 (opc : BitVec 32) (r rm index : Byte) : List Byte :=
  data16Bytes opc ++ simdBytes opc ++
    (if rexBits opc r rm index != 0 then [0x40 ||| rexBits opc r rm index] else []) ++
    escapeBytes opc ++ [opc.setWidth 8]

/-- Emit opcode with REX prefix; `r` is the reg field, `rm` is the r/m field.  The source
repeats the body of `emit_opc_3` without the REX.X test. -/
def emitOpc (opc : BitVec 32) (r rm : Byte) : List Byte := emitOpc3 opc r rm 0

/-! ## ModR/M, SIB and displacement -/

/-- The four bytes of `emit_u32`. -/
def emitU32 (v : BitVec 32) : List Byte :=
  [v.setWidth 8, (v >>> 8).setWidth 8, (v >>> 16).setWidth 8, (v >>> 24).setWidth 8]

/-- `(-128..=127).contains(&offset)` on an `i32`. -/
def fitsI8 (offset : BitVec 32) : Bool :=
  decide (-128 ≤ offset.toInt) && decide (offset.toInt ≤ 127)

/-- Emit opcode + ModR/M for register-register operation. -/
def emitModrm (opc : BitVec 32) (r rm : Reg) : List Byte :=
  emitOpc opc r.toU8 rm.toU8 ++ [(0xC0 : Byte) ||| (r.low3 <<< 3) ||| rm.low3]

/-- Emit opcode + ModR/M with /r extension (for group opcodes). -/
def emitModrmExt (opc : BitVec 32) (ext : Byte) (rm : Reg) : List Byte :=
  emitOpc opc ext rm.toU8 ++ [(0xC0 : Byte) ||| (ext <<< 3) ||| rm.low3]

/-- ModR/M and displacement for memory `[base + offset]` with `r3` in the reg field.
RBP/R13 always need a displacement, RSP/R12 need a SIB byte. -/
def emitMemOperand (r3 b3 : Byte) (offset : BitVec 32) : List Byte :=
  if offset == 0 && b3 != 5 then
    if b3 == 4 then [(r3 <<< 3) ||| 0x04, 0x24] else [(r3 <<< 3) ||| b3]
  else if fitsI8 offset then
    (if b3 == 4 then [(0x44 : Byte) ||| (r3 <<< 3), 0x24] else [(0x40 : Byte) ||| (r3 <<< 3) ||| b3]) ++
      [offset.setWidth 8]
  else
    (if b3 == 4 then [(0x84 : Byte) ||| (r3 <<< 3), 0x24] else [(0x80 : Byte) ||| (r3 <<< 3) ||| b3]) ++
      emitU32 offset

/-- Emit opcode + ModR/M + displacement for memory `[base + offset]`. -/
def emitModrmOffset (opc : BitVec 32) (r base : Reg) (offset : BitVec 32) : List Byte :=
  emitOpc opc r.toU8 base.toU8 ++ emitMemOperand r.low3 base.low3 offset

/-- Emit opcode + ModR/M with /r extension for memory `[base + offset]`. -/
def emitModrmExtOffset (opc : BitVec 32) (ext : Byte) (base : Reg) (offset : BitVec 32) :
    List Byte :=
  emitOpc opc ext base.toU8 ++ emitMemOperand ext base.low3 offset

/-- ModR/M, SIB and displacement for memory `[base + index * 2^shift + offset]`. -/
def emitSibOperand (r3 b3 x3 shift : Byte) (offset : BitVec 32) : List Byte :=
  let sib := (shift <<< 6) ||| (x3 <<< 3) ||| b3
  if offset == 0 && b3 != 5 then [(r3 <<< 3) ||| 0x04, sib]
  else if fitsI8 offset then [(0x44 : Byte) ||| (r3 <<< 3), sib, offset.setWidth 8]
  else [(0x84 : Byte) ||| (r3 <<< 3), sib] ++ emitU32 offset

/-- Emit opcode + ModR/M + SIB; `none` is a failed assertion of the source (scale shift
above 3, or RSP as the index). -/
def emitModrmSib (opc : BitVec 32) (r base index : Reg) (shift : Byte) (offset : BitVec 32) :
    Option (List Byte) :=
  if shift ≤ 3 ∧ index ≠ .rsp then
    some (emitOpc3 opc r.toU8 base.toU8 index.toU8 ++
      emitSibOperand r.low3 base.low3 index.low3 shift offset)
  else none

/-! ## VEX encoding -/

/-- The `pp` field of a VEX prefix. -/
def vexPp (opc : BitVec 32) : Byte :=
  if hasFlag opc pData16 then 1
  else if hasFlag opc pSimdf3 then 2
  else if hasFlag opc pSimdf2 then 3
  else 0

/-- The `mmmmm` field of a VEX prefix. -/
def vexMm (opc : BitVec 32) : Byte :=
  if hasFlag opc pExt38 then 2 else if hasFlag opc pExt3a then 3 else 1

/-- Emit 2-byte or 3-byte VEX prefix + opcode + ModR/M (reg-reg).  The register bits and
`vvvv` are stored inverted. -/
def emitVexModrm (opc : BitVec 32) (r v rm : Reg) : List Byte :=
  let rBit : Byte := if r.needsRex then 0 else 0x80
  let xBit : Byte := 0x40
  let bBit : Byte := if rm.needsRex then 0 else 0x20
  let vvvv : Byte := (~~~v.toU8 &&& 0x0F) <<< 3
  let w : Byte := if hasFlag opc pRexw then 0x80 else 0
  let pp := vexPp opc
  let mm := vexMm opc
  (if mm == 1 && w == 0 && bBit != 0 && xBit != 0 then [0xC5, rBit ||| vvvv ||| pp]
    else [0xC4, rBit ||| xBit ||| bBit ||| mm, w ||| vvvv ||| pp]) ++
  [opc.setWidth 8, (0xC0 : Byte) ||| (r.low3 <<< 3) ||| rm.low3]

end TcgRs.Model.X86
