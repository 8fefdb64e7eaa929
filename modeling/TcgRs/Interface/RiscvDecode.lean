import TcgRs.Interface.EmittedCode
import TcgRs.Interface.RiscvIsa
import TcgRs.Model.Riscv.Insn32

/-!
# Decoding of 32-bit instructions

The decoder that the build script generates from `insn32.decode`, and the call that it should make
for an RV64IMA instruction.
-/

set_option autoImplicit false

namespace TcgRs.Interface.RiscvDecode

open TcgRs.Model.Decode TcgRs.Model.Riscv TcgRs.Interface.EmittedCode TcgRs.Interface.RiscvIsa

/-- The code that the build script writes, if it succeeds. -/
def decodeCode : Option Code :=
  (generateWithWidth Char.isAlphanum insn32File 32).toOption.join

/-- The generated function `decode`: the `trans_` function that it calls, if any. -/
def decode (insn : BitVec 32) : Option Call := decodeCode.bind fun code => run code insn

/-- The name of an instruction in the decode file. -/
def transName : Insn → String
  | .lui => "lui" | .auipc => "auipc" | .jal => "jal" | .jalr => "jalr"
  | .beq => "beq" | .bne => "bne" | .blt => "blt" | .bge => "bge" | .bltu => "bltu"
  | .bgeu => "bgeu"
  | .lb => "lb" | .lh => "lh" | .lw => "lw" | .ld => "ld" | .lbu => "lbu" | .lhu => "lhu"
  | .lwu => "lwu"
  | .sb => "sb" | .sh => "sh" | .sw => "sw" | .sd => "sd"
  | .addi => "addi" | .slti => "slti" | .sltiu => "sltiu" | .xori => "xori" | .ori => "ori"
  | .andi => "andi" | .slli => "slli" | .srli => "srli" | .srai => "srai"
  | .add => "add" | .sub => "sub" | .sll => "sll" | .slt => "slt" | .sltu => "sltu"
  | .xor => "xor" | .srl => "srl" | .sra => "sra" | .or => "or" | .and => "and"
  | .addiw => "addiw" | .slliw => "slliw" | .srliw => "srliw" | .sraiw => "sraiw"
  | .addw => "addw" | .subw => "subw" | .sllw => "sllw" | .srlw => "srlw" | .sraw => "sraw"
  | .mul => "mul" | .mulh => "mulh" | .mulhsu => "mulhsu" | .mulhu => "mulhu"
  | .div => "div" | .divu => "divu" | .rem => "rem" | .remu => "remu"
  | .mulw => "mulw" | .divw => "divw" | .divuw => "divuw" | .remw => "remw" | .remuw => "remuw"
  | .lrw => "lr_w" | .scw => "sc_w" | .amoswapw => "amoswap_w" | .amoaddw => "amoadd_w"
  | .amoxorw => "amoxor_w" | .amoandw => "amoand_w" | .amoorw => "amoor_w"
  | .amominw => "amomin_w" | .amomaxw => "amomax_w" | .amominuw => "amominu_w"
  | .amomaxuw => "amomaxu_w"
  | .lrd => "lr_d" | .scd => "sc_d" | .amoswapd => "amoswap_d" | .amoaddd => "amoadd_d"
  | .amoxord => "amoxor_d" | .amoandd => "amoand_d" | .amoord => "amoor_d"
  | .amomind => "amomin_d" | .amomaxd => "amomax_d" | .amominud => "amominu_d"
  | .amomaxud => "amomaxu_d"

/-- The operands of an instruction word, in the order of its argument set. -/
def operands (w : BitVec 32) : Encoding → List (String × BitVec 64)
  | .r => [("rd", (rd w).setWidth 64), ("rs1", (rs1 w).setWidth 64), ("rs2", (rs2 w).setWidth 64)]
  | .i => [("imm", immI w), ("rs1", (rs1 w).setWidth 64), ("rd", (rd w).setWidth 64)]
  | .s => [("imm", immS w), ("rs1", (rs1 w).setWidth 64), ("rs2", (rs2 w).setWidth 64)]
  | .b => [("imm", immB w), ("rs2", (rs2 w).setWidth 64), ("rs1", (rs1 w).setWidth 64)]
  | .u => [("imm", immU w), ("rd", (rd w).setWidth 64)]
  | .j => [("imm", immJ w), ("rd", (rd w).setWidth 64)]
  | .shift =>
    [("shamt", (w.extractLsb' 20 6).setWidth 64), ("rs1", (rs1 w).setWidth 64),
      ("rd", (rd w).setWidth 64)]
  | .shiftw =>
    [("shamt", (w.extractLsb' 20 5).setWidth 64), ("rs1", (rs1 w).setWidth 64),
      ("rd", (rd w).setWidth 64)]
  | .amo =>
    [("aq", (w.extractLsb' 26 1).setWidth 64), ("rl", (w.extractLsb' 25 1).setWidth 64),
      ("rs2", (rs2 w).setWidth 64), ("rs1", (rs1 w).setWidth 64), ("rd", (rd w).setWidth 64)]
  | .lr =>
    [("aq", (w.extractLsb' 26 1).setWidth 64), ("rl", (w.extractLsb' 25 1).setWidth 64),
      ("rs2", 0), ("rs1", (rs1 w).setWidth 64), ("rd", (rd w).setWidth 64)]

/-- The call that the specification asks for on a word. -/
def specCall (w : BitVec 32) : Option Call :=
  (instruction w).map fun i => (transName i, operands w i.encoding)

/-- The word is an instruction by its major opcode. -/
def HasMajorOpcode (w : BitVec 32) : Prop := (opcode w).toNat ∈ majorOpcodes

instance (w : BitVec 32) : Decidable (HasMajorOpcode w) :=
  inferInstanceAs (Decidable (_ ∈ majorOpcodes))

/-- A 64-bit shift whose immediate is 64 or more: in the place of `slli`, `srli` or `srai`, with bit 26
set. -/
def WideShift (w : BitVec 32) : Prop :=
  opcode w = 0b0010011 ∧ w.getLsbD 26 ∧
    (funct3 w = 1 ∧ w.extractLsb' 27 5 = 0 ∨
      funct3 w = 5 ∧ (w.extractLsb' 27 5 = 0 ∨ w.extractLsb' 27 5 = 8))

end TcgRs.Interface.RiscvDecode
