import TcgRs.Model.X86.Emitter

/-!
# Decoding x86-64 operands

What the processor reads out of the bytes the emitter writes: legacy prefixes, REX or VEX,
the opcode map, ModR/M, SIB and displacement, in 64-bit mode.  Nothing here is taken from
the source; it is the other side of the contract, and the emitter is measured against it.

The decoder covers instructions that carry a ModR/M byte.  It stops after the displacement,
so an immediate that follows is left in the remaining bytes.
-/

set_option autoImplicit false

namespace TcgRs.Interface.X86

open TcgRs.Model.X86

/-- The opcode maps selected by the escape bytes, or by `mmmmm` under VEX. -/
inductive OpMap where
  | legacy | ext0F | ext0F38 | ext0F3A
  deriving DecidableEq, Repr

/-- A register operand.  Without a REX prefix the byte registers numbered 4 to 7 are the
high bytes AH, CH, DH and BH. -/
inductive RegOperand where
  | full (n : Byte)
  | low8 (n : Byte)
  | high8 (n : Byte)
  | digit (n : Byte)
  deriving DecidableEq, Repr

/-- What the r/m field addresses. -/
inductive RmOperand where
  | reg (r : RegOperand)
  | mem (base : Option Byte) (index : Option (Byte × Byte)) (disp : BitVec 32)
  | rip (disp : BitVec 32)
  deriving DecidableEq, Repr

/-- A decoded instruction up to its immediate.  `width` is the operand-size attribute. -/
structure Insn where
  data16 : Bool
  rep : Option Byte
  map : OpMap
  opcode : Byte
  width : Nat
  reg : RegOperand
  vvvv : Option Byte
  rm : RmOperand
  deriving DecidableEq, Repr

/-! ## Opcode tables -/

/-- Whether the instruction has a ModR/M byte. -/
def hasModrm : OpMap → Byte → Bool
  | .legacy, op =>
    (decide (op < 0x40) && decide (op &&& 7 < 4)) ||
      op ∈ [0x63, 0x69, 0x6B, 0x80, 0x81, 0x83, 0x84, 0x85, 0x86, 0x87, 0x88, 0x89, 0x8A,
        0x8B, 0x8C, 0x8D, 0x8E, 0x8F, 0xC0, 0xC1, 0xC6, 0xC7, 0xD0, 0xD1, 0xD2, 0xD3, 0xF6,
        0xF7, 0xFE, 0xFF]
  | .ext0F, op =>
    !(op ∈ [0x05, 0x06, 0x07, 0x08, 0x09, 0x0B, 0x0E, 0x77, 0xA0, 0xA1, 0xA2, 0xA8, 0xA9, 0xAA] ||
      (decide (0x30 ≤ op) && decide (op < 0x38)) ||
      (decide (0x80 ≤ op) && decide (op < 0x90)) ||
      (decide (0xC8 ≤ op) && decide (op < 0xD0)))
  | _, _ => true

/-- Whether the reg field is an opcode extension and not a register. -/
def regIsDigit : OpMap → Byte → Bool
  | .legacy, op =>
    op ∈ [0x80, 0x81, 0x83, 0x8F, 0xC0, 0xC1, 0xC6, 0xC7, 0xD0, 0xD1, 0xD2, 0xD3, 0xF6, 0xF7,
      0xFE, 0xFF]
  | .ext0F, op =>
    op ∈ [0x00, 0x01, 0x18, 0x1F, 0xAE, 0xBA, 0xC7] || (decide (0x90 ≤ op) && decide (op < 0xA0))
  | _, _ => false

/-- Whether the reg field names a byte register. -/
def regIsByte : OpMap → Byte → Bool
  | .legacy, op =>
    (decide (op < 0x40) && (op &&& 7 == 0 || op &&& 7 == 2)) || op ∈ [0x84, 0x86, 0x88, 0x8A]
  | .ext0F, op => op ∈ [0xB0, 0xC0]
  | _, _ => false

/-- Whether a register in the r/m field is a byte register. -/
def rmIsByte : OpMap → Byte → Bool
  | .legacy, op =>
    (decide (op < 0x40) && (op &&& 7 == 0 || op &&& 7 == 2)) ||
      op ∈ [0x80, 0x84, 0x86, 0x88, 0x8A, 0xC0, 0xC6, 0xD0, 0xD2, 0xF6, 0xFE]
  | .ext0F, op =>
    op ∈ [0xB0, 0xB6, 0xBE, 0xC0] || (decide (0x90 ≤ op) && decide (op < 0xA0))
  | _, _ => false

/-! ## Prefixes -/

/-- Legacy prefixes read so far. -/
structure Prefixes where
  data16 : Bool := false
  rep : Option Byte := none
  deriving DecidableEq, Repr

/-- Consume the operand-size and repeat prefixes. -/
def readPrefixes (p : Prefixes) : List Byte → Prefixes × List Byte
  | [] => (p, [])
  | b :: bs =>
    if b = 0x66 then readPrefixes { p with data16 := true } bs
    else if b = 0xF3 ∨ b = 0xF2 then readPrefixes { p with rep := some b } bs
    else (p, b :: bs)

/-- Consume a REX prefix, if there is one. -/
def readRex : List Byte → Option Byte × List Byte
  | [] => (none, [])
  | b :: bs => if b &&& 0xF0 = 0x40 then (some b, bs) else (none, b :: bs)

/-- Consume the escape bytes and the opcode.  Segment, address-size and LOCK prefixes and
the VEX escapes are not opcodes. -/
def readOpcode : List Byte → Option (OpMap × Byte × List Byte)
  | [] => none
  | b :: bs =>
    if b = 0x0F then
      match bs with
      | [] => none
      | e :: bs =>
        if e = 0x38 ∨ e = 0x3A then
          match bs with
          | [] => none
          | op :: bs => some (if e = 0x38 then .ext0F38 else .ext0F3A, op, bs)
        else some (.ext0F, e, bs)
    else if b ∈ ([0x26, 0x2E, 0x36, 0x3E, 0x64, 0x65, 0x66, 0x67, 0xF0, 0xF2, 0xF3, 0xC4,
        0xC5] : List Byte) ∨ b &&& 0xF0 = 0x40 then none
    else some (.legacy, b, bs)

/-! ## ModR/M, SIB, displacement -/

/-- A register number from its extension bit and three low bits. -/
def regNum (ext : Bool) (low : Byte) : Byte := if ext then low ||| 8 else low

/-- Read a displacement: 8 bits sign-extended, 32 bits, or none, by `mod`. -/
def readDisp (mod : Byte) (bs : List Byte) : Option (BitVec 32 × List Byte) :=
  if mod = 1 then
    match bs with
    | b :: bs => some (b.signExtend 32, bs)
    | [] => none
  else if mod = 2 then
    match bs with
    | b0 :: b1 :: b2 :: b3 :: bs => some (b3 ++ b2 ++ b1 ++ b0, bs)
    | _ => none
  else some (0, bs)

/-- Read the memory operand that follows a ModR/M byte with `mod ≠ 3`. -/
def readMem (mod rm : Byte) (extX extB : Bool) (bs : List Byte) :
    Option (RmOperand × List Byte) :=
  if rm = 4 then
    match bs with
    | [] => none
    | sib :: bs =>
      let base := sib &&& 7
      let index := regNum extX (sib >>> 3 &&& 7)
      let index := if index = 4 then none else some (index, sib >>> 6)
      if base = 5 ∧ mod = 0 then
        (readDisp 2 bs).map fun d => (.mem none index d.1, d.2)
      else
        (readDisp mod bs).map fun d => (.mem (some (regNum extB base)) index d.1, d.2)
  else if rm = 5 ∧ mod = 0 then
    (readDisp 2 bs).map fun d => (.rip d.1, d.2)
  else
    (readDisp mod bs).map fun d => (.mem (some (regNum extB rm)) none d.1, d.2)

/-- A register operand from its number, given whether it is a byte operand and whether a
REX prefix is present. -/
def regOperand (isByte rex : Bool) (n : Byte) : RegOperand :=
  if isByte then
    if !rex && decide (4 ≤ n) && decide (n < 8) then .high8 (n - 4) else .low8 n
  else .full n

/-- The reg-field operand of an instruction. -/
def regField (map : OpMap) (op : Byte) (rex extR : Bool) (low : Byte) : RegOperand :=
  if regIsDigit map op then .digit low else regOperand (regIsByte map op) rex (regNum extR low)

/-- Read the operands of an instruction: the reg field and the r/m operand. -/
def readOperands (map : OpMap) (op : Byte) (rex extR extX extB : Bool) :
    List Byte → Option (RegOperand × RmOperand × List Byte)
  | [] => none
  | modrm :: bs =>
    let mod := modrm >>> 6
    let reg := regField map op rex extR (modrm >>> 3 &&& 7)
    let rm := modrm &&& 7
    if mod = 3 then
      some (reg, .reg (regOperand (rmIsByte map op) rex (regNum extB rm)), bs)
    else
      (readMem mod rm extX extB bs).map fun m => (reg, m.1, m.2)

/-- The operand-size attribute. -/
def opWidth (w data16 : Bool) : Nat := if w then 64 else if data16 then 16 else 32

/-! ## Instructions -/

/-- Decode an instruction without VEX prefix. -/
def decodeLegacy (bs : List Byte) : Option (Insn × List Byte) :=
  let (p, bs) := readPrefixes {} bs
  let (rex, bs) := readRex bs
  let bit (i : Nat) : Bool := (rex.getD 0).getLsbD i
  match readOpcode bs with
  | none => none
  | some (map, op, bs) =>
    if hasModrm map op then
      (readOperands map op rex.isSome (bit 2) (bit 1) (bit 0) bs).map fun o =>
        ({ data16 := p.data16, rep := p.rep, map := map, opcode := op,
           width := opWidth (bit 3) p.data16, reg := o.1, vvvv := none, rm := o.2.1 }, o.2.2)
    else none

/-- The opcode map of a VEX `mmmmm` field. -/
def vexMap (m : Byte) : Option OpMap :=
  if m = 1 then some .ext0F else if m = 2 then some .ext0F38
  else if m = 3 then some .ext0F3A else none

/-- Decode what follows a VEX prefix, given its fields with the inversions undone.  Only
the scalar form (`L = 0`) is accepted. -/
def decodeVexBody (extR extX extB w : Bool) (mm tail : Byte) (bs : List Byte) :
    Option (Insn × List Byte) :=
  match vexMap mm, bs with
  | some map, op :: bs =>
    if tail.getLsbD 2 then none
    else
      (readOperands map op true extR extX extB bs).map fun o =>
        ({ data16 := tail &&& 3 == 1,
           rep := if tail &&& 3 = 2 then some 0xF3 else if tail &&& 3 = 3 then some 0xF2 else none,
           map := map, opcode := op, width := opWidth w false, reg := o.1,
           vvvv := some (~~~(tail >>> 3) &&& 0x0F), rm := o.2.1 }, o.2.2)
  | _, _ => none

/-- Decode one instruction; the second component is what is left after the displacement. -/
def decode (bs : List Byte) : Option (Insn × List Byte) :=
  match bs with
  | b0 :: b1 :: b2 :: rest =>
    if b0 = 0xC5 then decodeVexBody (!b1.getLsbD 7) false false false 1 b1 (b2 :: rest)
    else if b0 = 0xC4 then
      decodeVexBody (!b1.getLsbD 7) (!b1.getLsbD 6) (!b1.getLsbD 5) (b2.getLsbD 7)
        (b1 &&& 0x1F) b2 rest
    else decodeLegacy bs
  | _ => decodeLegacy bs

/-! ## Padding and direct jumps -/

/-- Read one NOP: the multi-byte form, whose operand is not accessed, or `90` with any operand-size
prefixes.  With `F3` the latter is PAUSE. -/
def fetchNop (bs : List Byte) : Option (List Byte) :=
  match decode bs with
  | some (i, rest) =>
    if i.map = .ext0F ∧ i.opcode = 0x1F ∧ i.reg = .digit 0 ∧ i.rep = none ∧ i.vvvv = none then
      some rest
    else none
  | none =>
    match readPrefixes {} bs with
    | (p, b :: rest) => if b = 0x90 ∧ p.rep = none then some rest else none
    | (_, []) => none

/-- From `bs` the processor comes to `rest` over NOPs alone. -/
inductive NopsUpTo (rest : List Byte) : List Byte → Prop where
  | done : NopsUpTo rest rest
  | nop {bs mid : List Byte} (h : fetchNop bs = some mid) (hmid : NopsUpTo rest mid) :
      NopsUpTo rest bs

/-- The displacement of a direct `jmp rel32`, counted from the end of its five bytes. -/
def fetchJmp : List Byte → Option (BitVec 32)
  | b :: d0 :: d1 :: d2 :: d3 :: _ => if b = 0xE9 then some (d3 ++ d2 ++ d1 ++ d0) else none
  | _ => none

end TcgRs.Interface.X86
