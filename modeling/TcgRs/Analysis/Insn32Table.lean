import TcgRs.Analysis.DecodeSections
import TcgRs.Analysis.GeneratedDecoder
import TcgRs.Interface.RiscvDecode

/-!
# The decode file for 32-bit instructions, read

What the parser makes of each line of the file, and the decoder that is generated from it.
-/

set_option autoImplicit false

namespace TcgRs.Analysis.Insn32Table

open TcgRs.Model.Decode TcgRs.Model.Riscv TcgRs.Interface.DecodeMeaning
open TcgRs.Interface.RiscvDecode TcgRs.Analysis.DecodeSections

/-! ## Definitions -/

def fields32 : List Field := [
  ⟨"rs3", [⟨27, 5, false⟩], none⟩,
  ⟨"rs2", [⟨20, 5, false⟩], none⟩,
  ⟨"rs1", [⟨15, 5, false⟩], none⟩,
  ⟨"rd", [⟨7, 5, false⟩], none⟩,
  ⟨"sh5", [⟨20, 5, false⟩], none⟩,
  ⟨"sh7", [⟨20, 7, false⟩], none⟩,
  ⟨"csr", [⟨20, 12, false⟩], none⟩,
  ⟨"rm", [⟨12, 3, false⟩], none⟩,
  ⟨"imm_i", [⟨20, 12, true⟩], none⟩,
  ⟨"imm_s", [⟨25, 7, true⟩, ⟨7, 5, false⟩], none⟩,
  ⟨"imm_b", [⟨31, 1, true⟩, ⟨7, 1, false⟩, ⟨25, 6, false⟩, ⟨8, 4, false⟩], some "ex_shift_1"⟩,
  ⟨"imm_j", [⟨31, 1, true⟩, ⟨12, 8, false⟩, ⟨20, 1, false⟩, ⟨21, 10, false⟩], some "ex_shift_1"⟩,
  ⟨"imm_u", [⟨12, 20, true⟩], some "ex_shift_12"⟩]

def argsets32 : List ArgSet := [
  ⟨"empty", [], false⟩,
  ⟨"b", ["imm", "rs2", "rs1"], false⟩,
  ⟨"i", ["imm", "rs1", "rd"], false⟩,
  ⟨"j", ["imm", "rd"], false⟩,
  ⟨"r", ["rd", "rs1", "rs2"], false⟩,
  ⟨"r2", ["rd", "rs1"], false⟩,
  ⟨"r2_rm", ["rd", "rs1", "rm"], false⟩,
  ⟨"r_rm", ["rd", "rs1", "rs2", "rm"], false⟩,
  ⟨"r4_rm", ["rd", "rs1", "rs2", "rs3", "rm"], false⟩,
  ⟨"s", ["imm", "rs1", "rs2"], false⟩,
  ⟨"u", ["imm", "rd"], false⟩,
  ⟨"shift", ["shamt", "rs1", "rd"], false⟩,
  ⟨"atomic", ["aq", "rl", "rs2", "rs1", "rd"], false⟩,
  ⟨"csr", ["csr", "rs1", "rd"], false⟩]

def fmtR : Format :=
  ⟨"r", 0, 0, "r",
    [("rd", .fieldRef "rd"), ("rs1", .fieldRef "rs1"), ("rs2", .fieldRef "rs2")]⟩

def fmtI : Format :=
  ⟨"i", 0, 0, "i",
    [("imm", .fieldRef "imm_i"), ("rd", .fieldRef "rd"), ("rs1", .fieldRef "rs1")]⟩

def fmtB : Format :=
  ⟨"b", 0, 0, "b",
    [("imm", .fieldRef "imm_b"), ("rs1", .fieldRef "rs1"), ("rs2", .fieldRef "rs2")]⟩

def fmtS : Format :=
  ⟨"s", 0, 0, "s",
    [("imm", .fieldRef "imm_s"), ("rs1", .fieldRef "rs1"), ("rs2", .fieldRef "rs2")]⟩

def fmtU : Format :=
  ⟨"u", 0, 0, "u",
    [("imm", .fieldRef "imm_u"), ("rd", .fieldRef "rd")]⟩

def fmtJ : Format :=
  ⟨"j", 0, 0, "j",
    [("imm", .fieldRef "imm_j"), ("rd", .fieldRef "rd")]⟩

def fmtSh : Format :=
  ⟨"sh", 0, 0, "shift",
    [("rd", .fieldRef "rd"), ("rs1", .fieldRef "rs1"), ("shamt", .fieldRef "sh7")]⟩

def fmtCsr : Format :=
  ⟨"csr", 0, 0, "csr",
    [("csr", .fieldRef "csr"), ("rd", .fieldRef "rd"), ("rs1", .fieldRef "rs1")]⟩

def fmtSh5 : Format :=
  ⟨"sh5", 0, 0, "shift",
    [("rd", .fieldRef "rd"), ("rs1", .fieldRef "rs1"), ("shamt", .fieldRef "sh5")]⟩

def fmtAtomLd : Format :=
  ⟨"atom_ld", 0, 0, "atomic",
    [("aq", .inline 26 1 false), ("rd", .fieldRef "rd"), ("rl", .inline 25 1 false),
      ("rs1", .fieldRef "rs1"), ("rs2", .const 0)]⟩

def fmtAtomSt : Format :=
  ⟨"atom_st", 0, 0, "atomic",
    [("aq", .inline 26 1 false), ("rd", .fieldRef "rd"), ("rl", .inline 25 1 false),
      ("rs1", .fieldRef "rs1"), ("rs2", .fieldRef "rs2")]⟩

def fmtR4Rm : Format :=
  ⟨"r4_rm", 0, 0, "r4_rm",
    [("rd", .fieldRef "rd"), ("rm", .fieldRef "rm"), ("rs1", .fieldRef "rs1"), ("rs2",
      .fieldRef "rs2"), ("rs3", .fieldRef "rs3")]⟩

def fmtRRm : Format :=
  ⟨"r_rm", 0, 0, "r_rm",
    [("rd", .fieldRef "rd"), ("rm", .fieldRef "rm"), ("rs1", .fieldRef "rs1"), ("rs2",
      .fieldRef "rs2")]⟩

def fmtR2Rm : Format :=
  ⟨"r2_rm", 0, 0, "r2_rm",
    [("rd", .fieldRef "rd"), ("rm", .fieldRef "rm"), ("rs1", .fieldRef "rs1")]⟩

def fmtR2 : Format :=
  ⟨"r2", 0, 0, "r2",
    [("rd", .fieldRef "rd"), ("rs1", .fieldRef "rs1")]⟩

def formats32 : List Format := [
  fmtR, fmtI, fmtB, fmtS, fmtU, fmtJ, fmtSh, fmtCsr, fmtSh5, fmtAtomLd, fmtAtomSt, fmtR4Rm,
      fmtRRm, fmtR2Rm, fmtR2]

/-- The fields in the order of their names. -/
def fieldMap32 : BTreeMap Field := [
  ("csr", ⟨"csr", [⟨20, 12, false⟩], none⟩),
  ("imm_b", ⟨"imm_b", [⟨31, 1, true⟩, ⟨7, 1, false⟩, ⟨25, 6, false⟩, ⟨8, 4, false⟩],
    some "ex_shift_1"⟩),
  ("imm_i", ⟨"imm_i", [⟨20, 12, true⟩], none⟩),
  ("imm_j", ⟨"imm_j", [⟨31, 1, true⟩, ⟨12, 8, false⟩, ⟨20, 1, false⟩, ⟨21, 10, false⟩],
    some "ex_shift_1"⟩),
  ("imm_s", ⟨"imm_s", [⟨25, 7, true⟩, ⟨7, 5, false⟩], none⟩),
  ("imm_u", ⟨"imm_u", [⟨12, 20, true⟩], some "ex_shift_12"⟩),
  ("rd", ⟨"rd", [⟨7, 5, false⟩], none⟩),
  ("rm", ⟨"rm", [⟨12, 3, false⟩], none⟩),
  ("rs1", ⟨"rs1", [⟨15, 5, false⟩], none⟩),
  ("rs2", ⟨"rs2", [⟨20, 5, false⟩], none⟩),
  ("rs3", ⟨"rs3", [⟨27, 5, false⟩], none⟩),
  ("sh5", ⟨"sh5", [⟨20, 5, false⟩], none⟩),
  ("sh7", ⟨"sh7", [⟨20, 7, false⟩], none⟩)]

/-- The formats in the order of their names. -/
def formatMap32 : BTreeMap Format := [
  ("atom_ld", fmtAtomLd), ("atom_st", fmtAtomSt), ("b", fmtB), ("csr", fmtCsr), ("i", fmtI),
  ("j", fmtJ), ("r", fmtR), ("r2", fmtR2), ("r2_rm", fmtR2Rm), ("r4_rm", fmtR4Rm), ("r_rm",
  fmtRRm), ("s", fmtS), ("sh", fmtSh), ("sh5", fmtSh5), ("u", fmtU)]

/-- A pattern with a format: its arguments are those of the format. -/
def row (name : String) (bits mask : BitVec 32) (fmt : Format) : Pattern × BTreeMap ArgSet :=
  (⟨name, bits, mask, fmt.argsName, fmt.fieldMap⟩, [])

def rows32 : List (Pattern × BTreeMap ArgSet) := [
  (⟨"ecall", 0x73, 0xffffffff, "", []⟩, []), (⟨"ebreak", 0x100073, 0xffffffff, "", []⟩, []),
  row "csrrw" 0x1073 0x707f fmtCsr, row "csrrs" 0x2073 0x707f fmtCsr,
  row "csrrc" 0x3073 0x707f fmtCsr, row "csrrwi" 0x5073 0x707f fmtCsr,
  row "csrrsi" 0x6073 0x707f fmtCsr, row "csrrci" 0x7073 0x707f fmtCsr, row "lui" 0x37 0x7f fmtU,
  row "auipc" 0x17 0x7f fmtU, row "jal" 0x6f 0x7f fmtJ, row "jalr" 0x67 0x707f fmtI,
  row "beq" 0x63 0x707f fmtB, row "bne" 0x1063 0x707f fmtB, row "blt" 0x4063 0x707f fmtB,
  row "bge" 0x5063 0x707f fmtB, row "bltu" 0x6063 0x707f fmtB, row "bgeu" 0x7063 0x707f fmtB,
  row "lb" 0x3 0x707f fmtI, row "lh" 0x1003 0x707f fmtI, row "lw" 0x2003 0x707f fmtI,
  row "lbu" 0x4003 0x707f fmtI, row "lhu" 0x5003 0x707f fmtI, row "sb" 0x23 0x707f fmtS,
  row "sh" 0x1023 0x707f fmtS, row "sw" 0x2023 0x707f fmtS, row "addi" 0x13 0x707f fmtI,
  row "slti" 0x2013 0x707f fmtI, row "sltiu" 0x3013 0x707f fmtI, row "xori" 0x4013 0x707f fmtI,
  row "ori" 0x6013 0x707f fmtI, row "andi" 0x7013 0x707f fmtI, row "slli" 0x1013 0xf800707f fmtSh,
  row "srli" 0x5013 0xf800707f fmtSh, row "srai" 0x40005013 0xf800707f fmtSh,
  row "add" 0x33 0xfe00707f fmtR, row "sub" 0x40000033 0xfe00707f fmtR,
  row "sll" 0x1033 0xfe00707f fmtR, row "slt" 0x2033 0xfe00707f fmtR,
  row "sltu" 0x3033 0xfe00707f fmtR, row "xor" 0x4033 0xfe00707f fmtR,
  row "srl" 0x5033 0xfe00707f fmtR, row "sra" 0x40005033 0xfe00707f fmtR,
  row "or" 0x6033 0xfe00707f fmtR, row "and" 0x7033 0xfe00707f fmtR,
  (⟨"fence", 0xf, 0x707f, "_auto_fence",
    [("pred", .inline 24 4 false), ("succ", .inline 20 4 false)]⟩,
  [("_auto_fence", ⟨"_auto_fence", ["pred", "succ"], false⟩)]), row "lwu" 0x6003 0x707f fmtI,
  row "ld" 0x3003 0x707f fmtI, row "sd" 0x3023 0x707f fmtS, row "addiw" 0x1b 0x707f fmtI,
  row "slliw" 0x101b 0xfe00707f fmtSh5, row "srliw" 0x501b 0xfe00707f fmtSh5,
  row "sraiw" 0x4000501b 0xfe00707f fmtSh5, row "addw" 0x3b 0xfe00707f fmtR,
  row "subw" 0x4000003b 0xfe00707f fmtR, row "sllw" 0x103b 0xfe00707f fmtR,
  row "srlw" 0x503b 0xfe00707f fmtR, row "sraw" 0x4000503b 0xfe00707f fmtR,
  row "mul" 0x2000033 0xfe00707f fmtR, row "mulh" 0x2001033 0xfe00707f fmtR,
  row "mulhsu" 0x2002033 0xfe00707f fmtR, row "mulhu" 0x2003033 0xfe00707f fmtR,
  row "div" 0x2004033 0xfe00707f fmtR, row "divu" 0x2005033 0xfe00707f fmtR,
  row "rem" 0x2006033 0xfe00707f fmtR, row "remu" 0x2007033 0xfe00707f fmtR,
  row "mulw" 0x200003b 0xfe00707f fmtR, row "divw" 0x200403b 0xfe00707f fmtR,
  row "divuw" 0x200503b 0xfe00707f fmtR, row "remw" 0x200603b 0xfe00707f fmtR,
  row "remuw" 0x200703b 0xfe00707f fmtR, row "flw" 0x2007 0x707f fmtI,
  row "fsw" 0x2027 0x707f fmtS, row "fmadd_s" 0x43 0x600007f fmtR4Rm,
  row "fmsub_s" 0x47 0x600007f fmtR4Rm, row "fnmsub_s" 0x4b 0x600007f fmtR4Rm,
  row "fnmadd_s" 0x4f 0x600007f fmtR4Rm, row "fadd_s" 0x53 0xfe00007f fmtRRm,
  row "fsub_s" 0x8000053 0xfe00007f fmtRRm, row "fmul_s" 0x10000053 0xfe00007f fmtRRm,
  row "fdiv_s" 0x18000053 0xfe00007f fmtRRm, row "fsqrt_s" 0x58000053 0xfff0007f fmtR2Rm,
  row "fsgnj_s" 0x20000053 0xfe00707f fmtR, row "fsgnjn_s" 0x20001053 0xfe00707f fmtR,
  row "fsgnjx_s" 0x20002053 0xfe00707f fmtR, row "fmin_s" 0x28000053 0xfe00707f fmtR,
  row "fmax_s" 0x28001053 0xfe00707f fmtR, row "fcvt_w_s" 0xc0000053 0xfff0007f fmtR2Rm,
  row "fcvt_wu_s" 0xc0100053 0xfff0007f fmtR2Rm, row "fmv_x_w" 0xe0000053 0xfff0707f fmtR2,
  row "feq_s" 0xa0002053 0xfe00707f fmtR, row "flt_s" 0xa0001053 0xfe00707f fmtR,
  row "fle_s" 0xa0000053 0xfe00707f fmtR, row "fclass_s" 0xe0001053 0xfff0707f fmtR2,
  row "fcvt_s_w" 0xd0000053 0xfff0007f fmtR2Rm, row "fcvt_s_wu" 0xd0100053 0xfff0007f fmtR2Rm,
  row "fmv_w_x" 0xf0000053 0xfff0707f fmtR2, row "fcvt_l_s" 0xc0200053 0xfff0007f fmtR2Rm,
  row "fcvt_lu_s" 0xc0300053 0xfff0007f fmtR2Rm, row "fcvt_s_l" 0xd0200053 0xfff0007f fmtR2Rm,
  row "fcvt_s_lu" 0xd0300053 0xfff0007f fmtR2Rm, row "fld" 0x3007 0x707f fmtI,
  row "fsd" 0x3027 0x707f fmtS, row "fmadd_d" 0x2000043 0x600007f fmtR4Rm,
  row "fmsub_d" 0x2000047 0x600007f fmtR4Rm, row "fnmsub_d" 0x200004b 0x600007f fmtR4Rm,
  row "fnmadd_d" 0x200004f 0x600007f fmtR4Rm, row "fadd_d" 0x2000053 0xfe00007f fmtRRm,
  row "fsub_d" 0xa000053 0xfe00007f fmtRRm, row "fmul_d" 0x12000053 0xfe00007f fmtRRm,
  row "fdiv_d" 0x1a000053 0xfe00007f fmtRRm, row "fsqrt_d" 0x5a000053 0xfff0007f fmtR2Rm,
  row "fsgnj_d" 0x22000053 0xfe00707f fmtR, row "fsgnjn_d" 0x22001053 0xfe00707f fmtR,
  row "fsgnjx_d" 0x22002053 0xfe00707f fmtR, row "fmin_d" 0x2a000053 0xfe00707f fmtR,
  row "fmax_d" 0x2a001053 0xfe00707f fmtR, row "fcvt_s_d" 0x40100053 0xfff0007f fmtR2Rm,
  row "fcvt_d_s" 0x42000053 0xfff0007f fmtR2Rm, row "feq_d" 0xa2002053 0xfe00707f fmtR,
  row "flt_d" 0xa2001053 0xfe00707f fmtR, row "fle_d" 0xa2000053 0xfe00707f fmtR,
  row "fclass_d" 0xe2001053 0xfff0707f fmtR2, row "fcvt_w_d" 0xc2000053 0xfff0007f fmtR2Rm,
  row "fcvt_wu_d" 0xc2100053 0xfff0007f fmtR2Rm, row "fcvt_d_w" 0xd2000053 0xfff0007f fmtR2Rm,
  row "fcvt_d_wu" 0xd2100053 0xfff0007f fmtR2Rm, row "fcvt_l_d" 0xc2200053 0xfff0007f fmtR2Rm,
  row "fcvt_lu_d" 0xc2300053 0xfff0007f fmtR2Rm, row "fmv_x_d" 0xe2000053 0xfff0707f fmtR2,
  row "fcvt_d_l" 0xd2200053 0xfff0007f fmtR2Rm, row "fcvt_d_lu" 0xd2300053 0xfff0007f fmtR2Rm,
  row "fmv_d_x" 0xf2000053 0xfff0707f fmtR2, row "lr_w" 0x1000202f 0xf9f0707f fmtAtomLd,
  row "sc_w" 0x1800202f 0xf800707f fmtAtomSt, row "amoswap_w" 0x800202f 0xf800707f fmtAtomSt,
  row "amoadd_w" 0x202f 0xf800707f fmtAtomSt, row "amoxor_w" 0x2000202f 0xf800707f fmtAtomSt,
  row "amoand_w" 0x6000202f 0xf800707f fmtAtomSt, row "amoor_w" 0x4000202f 0xf800707f fmtAtomSt,
  row "amomin_w" 0x8000202f 0xf800707f fmtAtomSt, row "amomax_w" 0xa000202f 0xf800707f fmtAtomSt,
  row "amominu_w" 0xc000202f 0xf800707f fmtAtomSt,
  row "amomaxu_w" 0xe000202f 0xf800707f fmtAtomSt, row "lr_d" 0x1000302f 0xf9f0707f fmtAtomLd,
  row "sc_d" 0x1800302f 0xf800707f fmtAtomSt, row "amoswap_d" 0x800302f 0xf800707f fmtAtomSt,
  row "amoadd_d" 0x302f 0xf800707f fmtAtomSt, row "amoxor_d" 0x2000302f 0xf800707f fmtAtomSt,
  row "amoand_d" 0x6000302f 0xf800707f fmtAtomSt, row "amoor_d" 0x4000302f 0xf800707f fmtAtomSt,
  row "amomin_d" 0x8000302f 0xf800707f fmtAtomSt, row "amomax_d" 0xa000302f 0xf800707f fmtAtomSt,
  row "amominu_d" 0xc000302f 0xf800707f fmtAtomSt, row "amomaxu_d" 0xe000302f 0xf800707f fmtAtomSt]

/-! ## Lines -/

theorem fields32_lines : LinesAre DefinesField insn32Fields fields32 := by
  unfold insn32Fields fields32
  repeat' first
    | exact LinesAre.nil
    | refine LinesAre.cons _ rfl (by decide) ?_

theorem argsets32_lines : LinesAre DefinesArgset insn32Argsets argsets32 := by
  unfold insn32Argsets argsets32
  repeat' first
    | exact LinesAre.nil
    | refine LinesAre.cons _ rfl (by decide) ?_

theorem formats32_lines :
    LinesAre (DefinesFormat Char.isAlphanum 32 (fieldTable fields32)) insn32Formats formats32 := by
  unfold insn32Formats formats32
  repeat' first
    | exact LinesAre.nil
    | refine LinesAre.cons _ rfl (by decide) ?_

theorem fieldTable32 : fieldTable fields32 = fieldMap32 := by
  decide

theorem formatTable32 : formatTable formats32 = formatMap32 := by
  decide

theorem rows32_lines :
    LinesAre (DefinesPattern Char.isAlphanum 32 (formatTable formats32) (fieldTable fields32))
      insn32Patterns rows32 := by
  rw [formatTable32]
  unfold insn32Patterns rows32
  repeat' first
    | exact LinesAre.nil
    | refine LinesAre.cons _ rfl (by decide) ?_

/-! ## The decoder -/

/-- What the file defines. -/
def parsed32 : Parsed :=
  ⟨fieldMap32, (argsetTable argsets32).extend (autoTable rows32), rows32.map Prod.fst⟩

theorem insn32File_eq : insn32File = ['\n'].intercalate (insn32Fields.map String.toList ++
    insn32Argsets.map String.toList ++ insn32Formats.map String.toList ++
    insn32Patterns.map String.toList) := by
  simp only [insn32File, List.map_append]

theorem parse32 : parseWithWidth Char.isAlphanum insn32File 32 = .ok parsed32 := by
  have hsections : sectionsParsed fields32 argsets32 rows32 = parsed32 := by
    rw [sectionsParsed, fieldTable32]
    rfl
  rw [insn32File_eq, ← hsections]
  exact parseWithWidth_sections fields32_lines argsets32_lines formats32_lines rows32_lines nofun

theorem inside32 : InsideWord Char.isAlphanum insn32File parsed32 32 := by
  constructor
  · decide
  · rw [insn32File_eq]
    exact patternLines_inside fields32_lines argsets32_lines formats32_lines rows32_lines nofun

/-- Every field that a pattern of the file refers to is defined. -/
theorem references32 : ∀ p ∈ parsed32.patterns, ∀ e ∈ p.fieldMap,
    (match e.2 with
      | .fieldRef r => (parsed32.fields.get r).isSome
      | _ => true) = true := by
  decide +kernel

theorem complete32 : FieldsComplete parsed32 := by
  constructor
  · decide
  · intro p hp af _ r hget
    exact references32 p hp _ (DecodeFileFacts.mem_of_get hget)

/-- The generated decoder makes the calls of the file. -/
theorem decode_eq_meaning (insn : BitVec 32) : decode insn = meaning parsed32 insn := by
  obtain ⟨code, hcode, hrun⟩ := GeneratedDecoder.exists_generated parse32
    (GeneratedDecoder.decodesAs_of_complete (Or.inr rfl) parse32 inside32 complete32)
  have hjoin : decodeCode = some code := by
    rw [decodeCode, hcode]
    rfl
  rw [decode, hjoin]
  exact hrun insn

end TcgRs.Analysis.Insn32Table
