import TcgRs.Interface.X86Decode

/-!
# Executing x86-64 instructions

What the processor does with the integer instructions that the backend emits for arithmetic, data
movement and bit fields: registers, memory and the carry flag.  As in the decoder, nothing here is
taken from the source.
-/

set_option autoImplicit false

namespace TcgRs.Interface.X86

open TcgRs.Model.X86

/-- Registers by number, memory by address, and the carry flag. -/
structure Cpu where
  regs : Byte → BitVec 64
  mem : BitVec 64 → Byte
  carry : Bool

/-! ## Operations -/

section

variable {w : Nat}

/-- The eight operations of the arithmetic rows. -/
inductive Alu where
  | add | or | adc | sbb | and | sub | xor | cmp
  deriving DecidableEq, Repr

/-- The operation of a row of the opcode table. -/
def Alu.ofRow (row : Byte) : Alu :=
  if row = 0 then .add else if row = 1 then .or else if row = 2 then .adc
  else if row = 3 then .sbb else if row = 4 then .and else if row = 5 then .sub
  else if row = 6 then .xor else .cmp

/-- Result and carry. -/
def Alu.run (op : Alu) (x y : BitVec w) (carry : Bool) : BitVec w × Bool :=
  let cin : BitVec w := if carry then 1 else 0
  match op with
  | .add => (x + y, decide (2 ^ w ≤ x.toNat + y.toNat))
  | .adc => (x + y + cin, decide (2 ^ w ≤ x.toNat + y.toNat + carry.toNat))
  | .sub | .cmp => (x - y, decide (x.toNat < y.toNat))
  | .sbb => (x - y - cin, decide (x.toNat < y.toNat + carry.toNat))
  | .and => (x &&& y, false)
  | .or => (x ||| y, false)
  | .xor => (x ^^^ y, false)

/-- Shifts and rotates. -/
inductive Shift where
  | rol | ror | shl | shr | sar
  deriving DecidableEq, Repr

/-- The operation of a digit of the shift group. -/
def Shift.ofDigit (digit : Byte) : Option Shift :=
  if digit = 0 then some .rol else if digit = 1 then some .ror else if digit = 4 then some .shl
  else if digit = 5 then some .shr else if digit = 7 then some .sar else none

/-- Only five bits of the count are used, six at 64 bits. -/
def shiftCount (w : Nat) (count : Byte) : Nat := count.toNat % if w = 64 then 64 else 32

/-- Result and carry of a shift by `n < w`; a shift by zero keeps the carry. -/
def Shift.run (op : Shift) (x : BitVec w) (n : Nat) (carry : Bool) : BitVec w × Bool :=
  let shifted := match op with
    | .rol => (x.rotateLeft n, (x.rotateLeft n).getLsbD 0)
    | .ror => (x.rotateRight n, (x.rotateRight n).msb)
    | .shl => (x <<< n, x.getLsbD (w - n))
    | .shr => (x >>> n, x.getLsbD (n - 1))
    | .sar => (x.sshiftRight n, x.getLsbD (n - 1))
  if n = 0 then (x, carry) else shifted

end

/-! ## Instructions -/

/-- The count of a shift. -/
inductive Count where
  | cl
  | imm (n : Byte)
  deriving DecidableEq, Repr

/-- An instruction with its operand size; `extend` widens a source of `n` bits. -/
inductive Instr where
  | alu (op : Alu) (w : Nat) (dst src : RmOperand)
  | mov (w : Nat) (dst src : RmOperand)
  | movImm (w : Nat) (dst : RmOperand) (val : BitVec 64)
  | extend (signed : Bool) (w n : Nat) (dst src : RmOperand)
  | lea (w : Nat) (dst src : RmOperand)
  | not (w : Nat) (dst : RmOperand)
  | neg (w : Nat) (dst : RmOperand)
  | shift (op : Shift) (w : Nat) (dst : RmOperand) (count : Count)
  | imul (w : Nat) (dst src : RmOperand)
  | lzcnt (w : Nat) (dst src : RmOperand)
  | tzcnt (w : Nat) (dst src : RmOperand)
  | andn (w : Nat) (dst : RmOperand) (inverted : RegOperand) (src : RmOperand)
  | stc
  deriving DecidableEq, Repr

/-- An instruction whose reg field holds a digit; an immediate is read from what follows. -/
def groupInstr (i : Insn) (rest : List Byte) : Option (Instr × List Byte) :=
  match i.opcode.toNat, i.reg, rest with
  | 0xF7, .digit 2, rest => some (.not i.width i.rm, rest)
  | 0xF7, .digit 3, rest => some (.neg i.width i.rm, rest)
  | 0xD1, .digit n, rest =>
    (Shift.ofDigit n).map fun op => (.shift op i.width i.rm (.imm 1), rest)
  | 0xD3, .digit n, rest => (Shift.ofDigit n).map fun op => (.shift op i.width i.rm .cl, rest)
  | 0xC1, .digit n, b :: rest =>
    (Shift.ofDigit n).map fun op => (.shift op i.width i.rm (.imm b), rest)
  | 0xC7, .digit 0, b0 :: b1 :: b2 :: b3 :: rest =>
    if i.data16 then none
    else some (.movImm i.width i.rm ((b3 ++ b2 ++ b1 ++ b0 : BitVec 32).signExtend 64), rest)
  | _, _, _ => none

/-- An instruction of the one-byte map, with what follows its operands. -/
def legacyInstr (i : Insn) (rest : List Byte) : Option (Instr × List Byte) :=
  let reg : RmOperand := .reg i.reg
  if i.opcode < 0x40 ∧ i.opcode &&& 7 = 3 then
    some (.alu (.ofRow (i.opcode >>> 3)) i.width reg i.rm, rest)
  else if i.opcode < 0x40 ∧ i.opcode &&& 7 = 1 then
    some (.alu (.ofRow (i.opcode >>> 3)) i.width i.rm reg, rest)
  else if i.opcode = 0x63 then some (.extend true i.width 32 reg i.rm, rest)
  else if i.opcode = 0x88 then some (.mov 8 i.rm reg, rest)
  else if i.opcode = 0x89 then some (.mov i.width i.rm reg, rest)
  else if i.opcode = 0x8B then some (.mov i.width reg i.rm, rest)
  else if i.opcode = 0x8D then some (.lea i.width reg i.rm, rest)
  else groupInstr i rest

/-- An instruction of the two-byte map. -/
def ext0FInstr (i : Insn) : Option Instr :=
  let reg : RmOperand := .reg i.reg
  match i.rep with
  | none =>
    if i.opcode = 0xAF then some (.imul i.width reg i.rm)
    else if i.opcode = 0xB6 then some (.extend false i.width 8 reg i.rm)
    else if i.opcode = 0xB7 then some (.extend false i.width 16 reg i.rm)
    else if i.opcode = 0xBE then some (.extend true i.width 8 reg i.rm)
    else if i.opcode = 0xBF then some (.extend true i.width 16 reg i.rm)
    else none
  | some p =>
    if p = 0xF3 ∧ i.opcode = 0xBC then some (.tzcnt i.width reg i.rm)
    else if p = 0xF3 ∧ i.opcode = 0xBD then some (.lzcnt i.width reg i.rm)
    else none

/-- The instruction that was decoded, and what follows it. -/
def instrOf (i : Insn) (rest : List Byte) : Option (Instr × List Byte) :=
  match i.map, i.vvvv with
  | .legacy, none => if i.rep = none then legacyInstr i rest else none
  | .ext0F, none => (ext0FInstr i).map fun instr => (instr, rest)
  | .ext0F38, some v =>
    if i.opcode = 0xF2 ∧ i.rep = none ∧ i.data16 = false then
      some (.andn i.width (.reg i.reg) (.full v) i.rm, rest)
    else none
  | _, _ => none

/-- MOV of an immediate of 32 bits, or of 64. -/
def movImmOf (wide : Bool) (dst : RmOperand) (bs : List Byte) : Option (Instr × List Byte) :=
  match wide, bs with
  | false, b0 :: b1 :: b2 :: b3 :: rest =>
    some (.movImm 32 dst ((b3 ++ b2 ++ b1 ++ b0 : BitVec 32).setWidth 64), rest)
  | true, b0 :: b1 :: b2 :: b3 :: b4 :: b5 :: b6 :: b7 :: rest =>
    some (.movImm 64 dst ((b7 ++ b6 ++ b5 ++ b4 : BitVec 32) ++ (b3 ++ b2 ++ b1 ++ b0 : BitVec 32)),
      rest)
  | _, _ => none

/-- The instructions without ModR/M: STC, and MOV of an immediate, whose opcode names the
register. -/
def fetchPlain (bs : List Byte) : Option (Instr × List Byte) :=
  let (rex, bs) := readRex bs
  let bit (i : Nat) : Bool := (rex.getD 0).getLsbD i
  match bs with
  | op :: rest =>
    if op = 0xF9 then some (.stc, rest)
    else if op &&& 0xF8 = 0xB8 then
      movImmOf (bit 3) (.reg (.full (regNum (bit 0) (op &&& 7)))) rest
    else none
  | [] => none

/-- Read one instruction. -/
def fetch (bs : List Byte) : Option (Instr × List Byte) :=
  match decode bs with
  | some (i, rest) => instrOf i rest
  | none => fetchPlain bs

/-! ## Operands -/

/-- Put a value into the low bits. -/
def setLow {w : Nat} (old : BitVec 64) (v : BitVec w) : BitVec 64 :=
  old >>> w <<< w ||| v.setWidth 64

/-- The number stored in `n` bytes, least significant first. -/
def loadBytes (mem : BitVec 64 → Byte) (addr : BitVec 64) : Nat → Nat
  | 0 => 0
  | n + 1 => (mem addr).toNat + 256 * loadBytes mem (addr + 1) n

def storeBytes (mem : BitVec 64 → Byte) (addr : BitVec 64) (v : Nat) : Nat → BitVec 64 → Byte
  | 0 => mem
  | n + 1 =>
    storeBytes (Function.update mem addr (BitVec.ofNat 8 v)) (addr + 1) (v / 256) n

namespace Cpu

def setReg (c : Cpu) (n : Byte) (v : BitVec 64) : Cpu :=
  { c with regs := Function.update c.regs n v }

/-- The address of a memory operand; addresses relative to the code are not described. -/
def address (c : Cpu) : RmOperand → Option (BitVec 64)
  | .mem base index disp =>
    some ((base.elim 0 c.regs) + (index.elim 0 fun i => c.regs i.1 <<< i.2.toNat) +
      disp.signExtend 64)
  | _ => none

def readReg (c : Cpu) (w : Nat) : RegOperand → BitVec w
  | .full n => (c.regs n).setWidth w
  | .low8 n => ((c.regs n).setWidth 8).setWidth w
  | .high8 n => ((c.regs n >>> 8).setWidth 8).setWidth w
  | .digit _ => 0

def read (c : Cpu) (w : Nat) : RmOperand → Option (BitVec w)
  | .reg r => some (c.readReg w r)
  | m => (c.address m).map fun a => BitVec.ofNat w (loadBytes c.mem a (w / 8))

/-- A 32-bit register write clears the upper half; narrower ones keep the other bits. -/
def writeReg {w : Nat} (c : Cpu) (r : RegOperand) (v : BitVec w) : Cpu :=
  match r with
  | .full n => c.setReg n (if w = 32 then v.setWidth 64 else setLow (c.regs n) v)
  | .low8 n => c.setReg n (setLow (c.regs n) (v.setWidth 8))
  | .high8 n =>
    c.setReg n (setLow (c.regs n) (v.setWidth 8 ++ (c.regs n).setWidth 8 : BitVec 16))
  | .digit _ => c

def write {w : Nat} (c : Cpu) (dst : RmOperand) (v : BitVec w) : Option Cpu :=
  match dst with
  | .reg r => some (c.writeReg r v)
  | m => (c.address m).map fun a => { c with mem := storeBytes c.mem a v.toNat (w / 8) }

/-! ## Execution -/

/-- What one instruction does. -/
def exec (c : Cpu) : Instr → Option Cpu
  | .alu op w dst src => do
    let x ← c.read w dst
    let y ← c.read w src
    let r := op.run x y c.carry
    let c' ← if op = .cmp then some c else c.write dst r.1
    return { c' with carry := r.2 }
  | .mov w dst src => do c.write dst (← c.read w src)
  | .movImm w dst val => c.write dst (val.setWidth w)
  | .extend signed w n dst src => do
    let x ← c.read n src
    c.write dst (if signed then x.signExtend w else x.setWidth w)
  | .lea w dst src => do c.write dst ((← c.address src).setWidth w)
  | .not w dst => do c.write dst (~~~(← c.read w dst))
  | .neg w dst => do
    let x ← c.read w dst
    let c' ← c.write dst (-x)
    return { c' with carry := decide (x ≠ 0) }
  | .shift op w dst count => do
    let x ← c.read w dst
    let n := match count with
      | .cl => shiftCount w ((c.regs 1).setWidth 8)
      | .imm n => shiftCount w n
    let r := op.run x n c.carry
    let c' ← c.write dst r.1
    return { c' with carry := r.2 }
  | .imul w dst src => do
    let x ← c.read w dst
    let y ← c.read w src
    let c' ← c.write dst (x * y)
    return { c' with carry := x.smulOverflow y }
  | .lzcnt w dst src => do
    let x ← c.read w src
    let c' ← c.write dst x.clz
    return { c' with carry := decide (x = 0) }
  | .tzcnt w dst src => do
    let x ← c.read w src
    let c' ← c.write dst x.ctz
    return { c' with carry := decide (x = 0) }
  | .andn w dst inverted src => do
    let y ← c.read w src
    let c' ← c.write dst (~~~(c.readReg w inverted) &&& y)
    return { c' with carry := false }
  | .stc => some { c with carry := true }

/-- Run code to its end, for at most `fuel` instructions. -/
def runFor : Nat → Cpu → List Byte → Option Cpu
  | _, c, [] => some c
  | 0, _, _ :: _ => none
  | fuel + 1, c, b :: bs => do
    let (i, rest) ← fetch (b :: bs)
    let c ← c.exec i
    runFor fuel c rest

/-- Run code to its end.  An instruction has at least one byte. -/
def run (c : Cpu) (bs : List Byte) : Option Cpu := runFor bs.length c bs

theorem runFor_mono {n m : Nat} {c c' : Cpu} {bs : List Byte} (h : runFor n c bs = some c')
    (hnm : n ≤ m) : runFor m c bs = some c' := by
  induction n generalizing m c bs with
  | zero =>
    cases bs with
    | nil =>
      cases m with
      | zero => exact h
      | succ m => exact h
    | cons b bs => cases h
  | succ n ih =>
    cases bs with
    | nil =>
      cases m with
      | zero => exact h
      | succ m => exact h
    | cons b bs =>
      obtain ⟨m, rfl⟩ : ∃ k, m = k + 1 := ⟨m - 1, by omega⟩
      obtain ⟨⟨i, rest⟩, hi, h⟩ := Option.bind_eq_some_iff.mp h
      obtain ⟨c₁, hc, h⟩ := Option.bind_eq_some_iff.mp h
      exact Option.bind_eq_some_iff.mpr ⟨_, hi, Option.bind_eq_some_iff.mpr
        ⟨_, hc, ih h (by omega)⟩⟩

@[simp] theorem run_nil (c : Cpu) : c.run [] = some c := rfl

/-- Run one instruction and what follows it. -/
theorem run_cons {c c₁ c₂ : Cpu} {code rest : List Byte} {i : Instr} (hne : code ≠ [])
    (hfetch : fetch (code ++ rest) = some (i, rest)) (hexec : c.exec i = some c₁)
    (hrest : c₁.run rest = some c₂) : c.run (code ++ rest) = some c₂ := by
  cases code with
  | nil => exact absurd rfl hne
  | cons b code =>
    show runFor ((code ++ rest).length + 1) c (b :: (code ++ rest)) = some c₂
    refine Option.bind_eq_some_iff.mpr ⟨_, hfetch, Option.bind_eq_some_iff.mpr ⟨_, hexec, ?_⟩⟩
    exact runFor_mono hrest (by simp)

/-- Run one instruction. -/
theorem run_single {c c₁ : Cpu} {code : List Byte} {i : Instr} (hne : code ≠ [])
    (hfetch : ∀ rest, fetch (code ++ rest) = some (i, rest)) (hexec : c.exec i = some c₁) :
    c.run code = some c₁ := by
  have h := run_cons hne (hfetch []) hexec (run_nil c₁)
  rwa [List.append_nil] at h

@[simp] theorem regs_setReg (c : Cpu) (n m : Byte) (v : BitVec 64) :
    (c.setReg n v).regs m = if m = n then v else c.regs m := by
  simp [setReg, Function.update_apply]

end Cpu

end TcgRs.Interface.X86
