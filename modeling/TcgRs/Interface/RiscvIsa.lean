import Mathlib.Data.BitVec

/-!
# RV64IMA instructions

The instruction listing of the specification: which words are instructions, and their operands.
-/

set_option autoImplicit false

namespace TcgRs.Interface.RiscvIsa

/-! ## Instructions -/

inductive Insn where
  | lui | auipc | jal | jalr
  | beq | bne | blt | bge | bltu | bgeu
  | lb | lh | lw | ld | lbu | lhu | lwu
  | sb | sh | sw | sd
  | addi | slti | sltiu | xori | ori | andi | slli | srli | srai
  | add | sub | sll | slt | sltu | xor | srl | sra | or | and
  | addiw | slliw | srliw | sraiw | addw | subw | sllw | srlw | sraw
  | mul | mulh | mulhsu | mulhu | div | divu | rem | remu
  | mulw | divw | divuw | remw | remuw
  | lrw | scw | amoswapw | amoaddw | amoxorw | amoandw | amoorw
  | amominw | amomaxw | amominuw | amomaxuw
  | lrd | scd | amoswapd | amoaddd | amoxord | amoandd | amoord
  | amomind | amomaxd | amominud | amomaxud
  deriving DecidableEq, Repr

/-- How an instruction encodes its operands. -/
inductive Encoding where
  | r | i | s | b | u | j
  /-- A shift by an immediate of six bits. -/
  | shift
  /-- A shift by an immediate of five bits. -/
  | shiftw
  | amo
  /-- An atomic load: no second source. -/
  | lr
  deriving DecidableEq, Repr

def Insn.encoding : Insn → Encoding
  | .lui | .auipc => .u
  | .jal => .j
  | .beq | .bne | .blt | .bge | .bltu | .bgeu => .b
  | .sb | .sh | .sw | .sd => .s
  | .jalr | .lb | .lh | .lw | .ld | .lbu | .lhu | .lwu | .addi | .slti | .sltiu | .xori | .ori
  | .andi | .addiw => .i
  | .slli | .srli | .srai => .shift
  | .slliw | .srliw | .sraiw => .shiftw
  | .lrw | .lrd => .lr
  | .scw | .amoswapw | .amoaddw | .amoxorw | .amoandw | .amoorw | .amominw | .amomaxw | .amominuw
  | .amomaxuw | .scd | .amoswapd | .amoaddd | .amoxord | .amoandd | .amoord | .amomind | .amomaxd
  | .amominud | .amomaxud => .amo
  | _ => .r

/-! ## Fields of a word -/

section
variable (w : BitVec 32)

def opcode : BitVec 7 := w.extractLsb' 0 7
def rd : BitVec 5 := w.extractLsb' 7 5
def funct3 : BitVec 3 := w.extractLsb' 12 3
def rs1 : BitVec 5 := w.extractLsb' 15 5
def rs2 : BitVec 5 := w.extractLsb' 20 5
def funct7 : BitVec 7 := w.extractLsb' 25 7

def immI : BitVec 64 := (w.extractLsb' 20 12).signExtend 64

def immS : BitVec 64 := (w.extractLsb' 25 7 ++ w.extractLsb' 7 5).signExtend 64

def immB : BitVec 64 :=
  (w.extractLsb' 31 1 ++ w.extractLsb' 7 1 ++ w.extractLsb' 25 6 ++ w.extractLsb' 8 4
    ++ 0#1).signExtend 64

def immU : BitVec 64 := (w.extractLsb' 12 20 ++ 0#12).signExtend 64

def immJ : BitVec 64 :=
  (w.extractLsb' 31 1 ++ w.extractLsb' 12 8 ++ w.extractLsb' 20 1 ++ w.extractLsb' 21 10
    ++ 0#1).signExtend 64

end

/-! ## The instruction listing -/

def load : Nat → Option Insn
  | 0 => some .lb
  | 1 => some .lh
  | 2 => some .lw
  | 3 => some .ld
  | 4 => some .lbu
  | 5 => some .lhu
  | 6 => some .lwu
  | _ => none

def store : Nat → Option Insn
  | 0 => some .sb
  | 1 => some .sh
  | 2 => some .sw
  | 3 => some .sd
  | _ => none

def branch : Nat → Option Insn
  | 0 => some .beq
  | 1 => some .bne
  | 4 => some .blt
  | 5 => some .bge
  | 6 => some .bltu
  | 7 => some .bgeu
  | _ => none

/-- The shift amount has six bits, so the upper six bits of the word select the shift. -/
def opImm (funct3 funct7 : Nat) : Option Insn :=
  match funct3 with
  | 0 => some .addi
  | 1 => if funct7 / 2 = 0 then some .slli else none
  | 2 => some .slti
  | 3 => some .sltiu
  | 4 => some .xori
  | 5 => if funct7 / 2 = 0 then some .srli else if funct7 / 2 = 16 then some .srai else none
  | 6 => some .ori
  | 7 => some .andi
  | _ => none

def op (funct3 funct7 : Nat) : Option Insn :=
  match funct7, funct3 with
  | 0, 0 => some .add
  | 0, 1 => some .sll
  | 0, 2 => some .slt
  | 0, 3 => some .sltu
  | 0, 4 => some .xor
  | 0, 5 => some .srl
  | 0, 6 => some .or
  | 0, 7 => some .and
  | 32, 0 => some .sub
  | 32, 5 => some .sra
  | 1, 0 => some .mul
  | 1, 1 => some .mulh
  | 1, 2 => some .mulhsu
  | 1, 3 => some .mulhu
  | 1, 4 => some .div
  | 1, 5 => some .divu
  | 1, 6 => some .rem
  | 1, 7 => some .remu
  | _, _ => none

def opImm32 (funct3 funct7 : Nat) : Option Insn :=
  match funct3 with
  | 0 => some .addiw
  | 1 => if funct7 = 0 then some .slliw else none
  | 5 => if funct7 = 0 then some .srliw else if funct7 = 32 then some .sraiw else none
  | _ => none

def op32 (funct3 funct7 : Nat) : Option Insn :=
  match funct7, funct3 with
  | 0, 0 => some .addw
  | 0, 1 => some .sllw
  | 0, 5 => some .srlw
  | 32, 0 => some .subw
  | 32, 5 => some .sraw
  | 1, 0 => some .mulw
  | 1, 4 => some .divw
  | 1, 5 => some .divuw
  | 1, 6 => some .remw
  | 1, 7 => some .remuw
  | _, _ => none

/-- The upper five bits select the operation; the next two are `aq` and `rl`.  The second source of a
load-reserved has to be zero. -/
def amo (funct3 funct7 : Nat) (noSource : Bool) : Option Insn :=
  match funct3, funct7 / 4 with
  | 2, 2 => if noSource then some .lrw else none
  | 2, 3 => some .scw
  | 2, 1 => some .amoswapw
  | 2, 0 => some .amoaddw
  | 2, 4 => some .amoxorw
  | 2, 12 => some .amoandw
  | 2, 8 => some .amoorw
  | 2, 16 => some .amominw
  | 2, 20 => some .amomaxw
  | 2, 24 => some .amominuw
  | 2, 28 => some .amomaxuw
  | 3, 2 => if noSource then some .lrd else none
  | 3, 3 => some .scd
  | 3, 1 => some .amoswapd
  | 3, 0 => some .amoaddd
  | 3, 4 => some .amoxord
  | 3, 12 => some .amoandd
  | 3, 8 => some .amoord
  | 3, 16 => some .amomind
  | 3, 20 => some .amomaxd
  | 3, 24 => some .amominud
  | 3, 28 => some .amomaxud
  | _, _ => none

/-- The instruction of the given opcode and function fields. -/
def listing (opcode funct3 funct7 : Nat) (noSource : Bool) : Option Insn :=
  match opcode with
  | 0b0110111 => some .lui
  | 0b0010111 => some .auipc
  | 0b1101111 => some .jal
  | 0b1100111 => if funct3 = 0 then some .jalr else none
  | 0b1100011 => branch funct3
  | 0b0000011 => load funct3
  | 0b0100011 => store funct3
  | 0b0010011 => opImm funct3 funct7
  | 0b0110011 => op funct3 funct7
  | 0b0011011 => opImm32 funct3 funct7
  | 0b0111011 => op32 funct3 funct7
  | 0b0101111 => amo funct3 funct7 noSource
  | _ => none

/-- LOAD, STORE, OP-IMM, OP, OP-IMM-32, OP-32, BRANCH, JALR, JAL, LUI, AUIPC and AMO. -/
def majorOpcodes : List Nat :=
  [0b0000011, 0b0100011, 0b0010011, 0b0110011, 0b0011011, 0b0111011, 0b1100011, 0b1100111,
    0b1101111, 0b0110111, 0b0010111, 0b0101111]

/-- The instruction that a word encodes, if it is a legal one. -/
def instruction (w : BitVec 32) : Option Insn :=
  listing (opcode w).toNat (funct3 w).toNat (funct7 w).toNat (rs2 w == 0)

end TcgRs.Interface.RiscvIsa
