import TcgRs.Analysis.Insn32Table

/-!
# Which instruction a word selects

The patterns of `insn32.decode` under a major opcode look at the function fields only, and at the
second source of a load-reserved.  So their choice is a function of these fields, which is compared
with the instruction listing value by value.
-/

set_option autoImplicit false

namespace TcgRs.Analysis.Insn32Selection

open TcgRs.Model.Decode TcgRs.Interface.DecodeMeaning TcgRs.Interface.EmittedCode
open TcgRs.Interface.RiscvIsa TcgRs.Interface.RiscvDecode TcgRs.Analysis.Insn32Table
open TcgRs.Library.Traversal

/-! ## Tests by fields -/

theorem eq_iff_fields (x y : BitVec 32) :
    x = y ↔ opcode x = opcode y ∧ rd x = rd y ∧ funct3 x = funct3 y ∧ rs1 x = rs1 y ∧
      rs2 x = rs2 y ∧ funct7 x = funct7 y := by
  constructor
  · rintro rfl
    exact ⟨rfl, rfl, rfl, rfl, rfl, rfl⟩
  · intro h
    simp only [opcode, rd, funct3, rs1, rs2, funct7, ← BitVec.toNat_inj, BitVec.extractLsb'_toNat,
      Nat.shiftRight_eq_div_pow] at h ⊢
    have := x.isLt
    have := y.isLt
    omega

/-- The masks of the patterns: the opcode, no destination and no first source, and all or nothing of
the second source. -/
structure FieldMask (p : Pattern) : Prop where
  opcode : opcode p.fixedmask = BitVec.allOnes 7
  rd : rd p.fixedmask = 0 ∧ rd p.fixedbits = 0
  rs1 : rs1 p.fixedmask = 0 ∧ rs1 p.fixedbits = 0
  rs2 : (rs2 p.fixedmask = 0 ∨ rs2 p.fixedmask = BitVec.allOnes 5) ∧ rs2 p.fixedbits = 0

/-- The test of a pattern on the function fields. -/
def selects (f3 : BitVec 3) (f7 : BitVec 7) (noSource : Bool) (p : Pattern) : Bool :=
  f7 &&& funct7 p.fixedmask == funct7 p.fixedbits &&
    f3 &&& funct3 p.fixedmask == funct3 p.fixedbits && (rs2 p.fixedmask == 0 || noSource)

theorem matches_iff_selects {p : Pattern} (hp : FieldMask p) (w : BitVec 32) :
    Matches w p ↔ opcode w = opcode p.fixedbits ∧
      selects (funct3 w) (funct7 w) (rs2 w == 0) p = true := by
  have hand : ∀ n start : Nat, (w &&& p.fixedmask).extractLsb' start n =
      w.extractLsb' start n &&& p.fixedmask.extractLsb' start n := by
    intro n start
    exact BitVec.extractLsb'_and
  have hopcode : opcode (w &&& p.fixedmask) = opcode w := by
    refine (hand 7 0).trans ?_
    have hfull : p.fixedmask.extractLsb' 0 7 = BitVec.allOnes 7 := hp.opcode
    rw [hfull, BitVec.and_allOnes]
    rfl
  have hrd : rd (w &&& p.fixedmask) = 0 := by
    refine (hand 5 7).trans ?_
    have hzero : p.fixedmask.extractLsb' 7 5 = 0 := hp.rd.1
    rw [hzero]
    exact BitVec.and_zero
  have hrs1 : rs1 (w &&& p.fixedmask) = 0 := by
    refine (hand 5 15).trans ?_
    have hzero : p.fixedmask.extractLsb' 15 5 = 0 := hp.rs1.1
    rw [hzero]
    exact BitVec.and_zero
  have hrs2 : rs2 (w &&& p.fixedmask) = 0 ↔ (rs2 p.fixedmask == 0 || rs2 w == 0) = true := by
    have hfield : rs2 (w &&& p.fixedmask) = rs2 w &&& rs2 p.fixedmask := hand 5 20
    rw [hfield]
    rcases hp.rs2.1 with hmask | hmask
    · rw [hmask]
      simp
    · rw [hmask, BitVec.and_allOnes]
      simp
  have hf3 : funct3 (w &&& p.fixedmask) = funct3 w &&& funct3 p.fixedmask := hand 3 12
  have hf7 : funct7 (w &&& p.fixedmask) = funct7 w &&& funct7 p.fixedmask := hand 7 25
  unfold Matches selects
  rw [BitVec.setWidth_eq, eq_iff_fields, hopcode, hrd, hrs1, hf3, hf7, hp.rd.2, hp.rs1.2, hp.rs2.2,
    hrs2, Bool.and_eq_true, Bool.and_eq_true, beq_iff_eq, beq_iff_eq]
  constructor
  · rintro ⟨h₁, _, h₂, _, h₃, h₄⟩
    exact ⟨h₁, ⟨h₄, h₂⟩, h₃⟩
  · rintro ⟨h₁, ⟨h₄, h₂⟩, h₃⟩
    exact ⟨h₁, rfl, h₂, rfl, h₃, h₄⟩

/-! ## Patterns by opcode -/

def formatOf : Encoding → Format
  | .r => fmtR
  | .i => fmtI
  | .s => fmtS
  | .b => fmtB
  | .u => fmtU
  | .j => fmtJ
  | .shift => fmtSh
  | .shiftw => fmtSh5
  | .amo => fmtAtomSt
  | .lr => fmtAtomLd

/-- The fixed bits and the mask of each instruction, in file order. -/
def table : Nat → List (Insn × BitVec 32 × BitVec 32)
  | 0b0000011 => [
    (.lb, 0x3, 0x707f), (.lh, 0x1003, 0x707f), (.lw, 0x2003, 0x707f), (.lbu, 0x4003, 0x707f),
    (.lhu, 0x5003, 0x707f), (.lwu, 0x6003, 0x707f), (.ld, 0x3003, 0x707f)]
  | 0b0100011 => [
    (.sb, 0x23, 0x707f), (.sh, 0x1023, 0x707f), (.sw, 0x2023, 0x707f), (.sd, 0x3023, 0x707f)]
  | 0b0010011 => [
    (.addi, 0x13, 0x707f), (.slti, 0x2013, 0x707f), (.sltiu, 0x3013, 0x707f),
    (.xori, 0x4013, 0x707f), (.ori, 0x6013, 0x707f), (.andi, 0x7013, 0x707f),
    (.slli, 0x1013, 0xf800707f), (.srli, 0x5013, 0xf800707f), (.srai, 0x40005013, 0xf800707f)]
  | 0b0110011 => [
    (.add, 0x33, 0xfe00707f), (.sub, 0x40000033, 0xfe00707f), (.sll, 0x1033, 0xfe00707f),
    (.slt, 0x2033, 0xfe00707f), (.sltu, 0x3033, 0xfe00707f), (.xor, 0x4033, 0xfe00707f),
    (.srl, 0x5033, 0xfe00707f), (.sra, 0x40005033, 0xfe00707f), (.or, 0x6033, 0xfe00707f),
    (.and, 0x7033, 0xfe00707f), (.mul, 0x2000033, 0xfe00707f), (.mulh, 0x2001033, 0xfe00707f),
    (.mulhsu, 0x2002033, 0xfe00707f), (.mulhu, 0x2003033, 0xfe00707f),
    (.div, 0x2004033, 0xfe00707f), (.divu, 0x2005033, 0xfe00707f), (.rem, 0x2006033, 0xfe00707f),
    (.remu, 0x2007033, 0xfe00707f)]
  | 0b0011011 => [
    (.addiw, 0x1b, 0x707f), (.slliw, 0x101b, 0xfe00707f), (.srliw, 0x501b, 0xfe00707f),
    (.sraiw, 0x4000501b, 0xfe00707f)]
  | 0b0111011 => [
    (.addw, 0x3b, 0xfe00707f), (.subw, 0x4000003b, 0xfe00707f), (.sllw, 0x103b, 0xfe00707f),
    (.srlw, 0x503b, 0xfe00707f), (.sraw, 0x4000503b, 0xfe00707f), (.mulw, 0x200003b, 0xfe00707f),
    (.divw, 0x200403b, 0xfe00707f), (.divuw, 0x200503b, 0xfe00707f),
    (.remw, 0x200603b, 0xfe00707f), (.remuw, 0x200703b, 0xfe00707f)]
  | 0b1100011 => [
    (.beq, 0x63, 0x707f), (.bne, 0x1063, 0x707f), (.blt, 0x4063, 0x707f), (.bge, 0x5063, 0x707f),
    (.bltu, 0x6063, 0x707f), (.bgeu, 0x7063, 0x707f)]
  | 0b1100111 => [
    (.jalr, 0x67, 0x707f)]
  | 0b1101111 => [
    (.jal, 0x6f, 0x7f)]
  | 0b0110111 => [
    (.lui, 0x37, 0x7f)]
  | 0b0010111 => [
    (.auipc, 0x17, 0x7f)]
  | 0b0101111 => [
    (.lrw, 0x1000202f, 0xf9f0707f), (.scw, 0x1800202f, 0xf800707f),
    (.amoswapw, 0x800202f, 0xf800707f), (.amoaddw, 0x202f, 0xf800707f),
    (.amoxorw, 0x2000202f, 0xf800707f), (.amoandw, 0x6000202f, 0xf800707f),
    (.amoorw, 0x4000202f, 0xf800707f), (.amominw, 0x8000202f, 0xf800707f),
    (.amomaxw, 0xa000202f, 0xf800707f), (.amominuw, 0xc000202f, 0xf800707f),
    (.amomaxuw, 0xe000202f, 0xf800707f), (.lrd, 0x1000302f, 0xf9f0707f),
    (.scd, 0x1800302f, 0xf800707f), (.amoswapd, 0x800302f, 0xf800707f),
    (.amoaddd, 0x302f, 0xf800707f), (.amoxord, 0x2000302f, 0xf800707f),
    (.amoandd, 0x6000302f, 0xf800707f), (.amoord, 0x4000302f, 0xf800707f),
    (.amomind, 0x8000302f, 0xf800707f), (.amomaxd, 0xa000302f, 0xf800707f),
    (.amominud, 0xc000302f, 0xf800707f), (.amomaxud, 0xe000302f, 0xf800707f)]
  | _ => []

/-- The pattern of an instruction. -/
def entry (e : Insn × BitVec 32 × BitVec 32) : Pattern :=
  ⟨transName e.1, e.2.1, e.2.2, (formatOf e.1.encoding).argsName,
    (formatOf e.1.encoding).fieldMap⟩

theorem table_patterns : ∀ op ∈ majorOpcodes,
    (parsed32.patterns.filter fun p => (opcode p.fixedbits).toNat == op) = (table op).map entry := by
  decide

theorem opcode_fixed : ∀ p ∈ parsed32.patterns, opcode p.fixedmask = BitVec.allOnes 7 := by
  decide +kernel

theorem table_masks : ∀ op ∈ majorOpcodes, ∀ e ∈ table op,
    opcode (entry e).fixedmask = BitVec.allOnes 7 ∧
      (rd (entry e).fixedmask = 0 ∧ rd (entry e).fixedbits = 0) ∧
      (rs1 (entry e).fixedmask = 0 ∧ rs1 (entry e).fixedbits = 0) ∧
      (rs2 (entry e).fixedmask = 0 ∨ rs2 (entry e).fixedmask = BitVec.allOnes 5) ∧
      rs2 (entry e).fixedbits = 0 ∧ (opcode (entry e).fixedbits).toNat = op := by
  decide

/-! ## Selection -/

/-- What the decoder accepts: the listing, but shifts by an immediate with bit 26 set too. -/
def accepted (opcode funct3 funct7 : Nat) (noSource : Bool) : Option Insn :=
  if opcode = 0b0010011 then opImm funct3 (funct7 / 4 * 4)
  else listing opcode funct3 funct7 noSource

def chosen (op : Nat) (f3 : BitVec 3) (f7 : BitVec 7) (noSource : Bool) : Option Insn :=
  ((table op).find? fun e => selects f3 f7 noSource (entry e)).map (·.1)

/-- A field that no pattern of the opcode looks at does not matter. -/
theorem chosen_congr {op : Nat} {f3 : BitVec 3} {f7 f7' : BitVec 7} {z z' : Bool}
    (h7 : (∀ e ∈ table op, funct7 e.2.2 = 0) ∨ f7 = f7')
    (hz : (∀ e ∈ table op, rs2 e.2.2 = 0) ∨ z = z') : chosen op f3 f7 z = chosen op f3 f7' z' := by
  unfold chosen
  congr 1
  apply find?_congr
  intro e he
  have hfield7 : (f7 &&& funct7 e.2.2) = (f7' &&& funct7 e.2.2) := by
    rcases h7 with h | rfl
    · rw [h e he]
      simp
    · rfl
  have hsource : (rs2 e.2.2 == 0 || z) = (rs2 e.2.2 == 0 || z') := by
    rcases hz with h | rfl
    · rw [h e he]
      rfl
    · rfl
  simp only [selects, entry, hfield7, hsource]

/-- Opcodes under which `funct7` is part of an immediate. -/
theorem chosen_short : ∀ op ∈ [0b0000011, 0b0100011, 0b1100011, 0b1100111, 0b1101111, 0b0110111,
    0b0010111], ((∀ e ∈ table op, funct7 e.2.2 = 0) ∧ ∀ e ∈ table op, rs2 e.2.2 = 0) ∧
      ∀ f3 < 8, chosen op (BitVec.ofNat 3 f3) 0 false = listing op f3 0 false := by
  decide

theorem chosen_long : ∀ op ∈ [0b0010011, 0b0110011, 0b0011011, 0b0111011],
    (∀ e ∈ table op, rs2 e.2.2 = 0) ∧ ∀ f3 < 8, ∀ f7 < 128,
      chosen op (BitVec.ofNat 3 f3) (BitVec.ofNat 7 f7) false = accepted op f3 f7 false := by
  decide

theorem chosen_amo : ∀ f3 < 8, ∀ f7 < 128, ∀ z : Bool,
    chosen 0b0101111 (BitVec.ofNat 3 f3) (BitVec.ofNat 7 f7) z = accepted 0b0101111 f3 f7 z := by
  decide

theorem chosen_eq {op : Nat} (hop : op ∈ majorOpcodes) (f3 : BitVec 3) (f7 : BitVec 7) (z : Bool) :
    chosen op f3 f7 z = accepted op f3.toNat f7.toNat z := by
  have h3 : BitVec.ofNat 3 f3.toNat = f3 := by simp
  have h7 : BitVec.ofNat 7 f7.toNat = f7 := by simp
  have hgroup : op ∈ [0b0000011, 0b0100011, 0b1100011, 0b1100111, 0b1101111, 0b0110111, 0b0010111] ∨
      op ∈ [0b0010011, 0b0110011, 0b0011011, 0b0111011] ∨ op = 0b0101111 := by
    revert op
    decide
  rcases hgroup with h | h | rfl
  · obtain ⟨⟨hmask7, hmask2⟩, hchosen⟩ := chosen_short op h
    have hfree : listing op f3.toNat 0 false = accepted op f3.toNat f7.toNat z := by
      simp only [List.mem_cons, List.not_mem_nil, or_false] at h
      rcases h with rfl | rfl | rfl | rfl | rfl | rfl | rfl <;> rfl
    rw [chosen_congr (Or.inl hmask7) (Or.inl hmask2), ← hfree, ← hchosen f3.toNat f3.isLt, h3]
  · obtain ⟨hmask2, hchosen⟩ := chosen_long op h
    have hfree : accepted op f3.toNat f7.toNat false = accepted op f3.toNat f7.toNat z := by
      simp only [List.mem_cons, List.not_mem_nil, or_false] at h
      rcases h with rfl | rfl | rfl | rfl <;> rfl
    rw [chosen_congr (Or.inr rfl) (Or.inl hmask2), ← hfree,
      ← hchosen f3.toNat f3.isLt f7.toNat f7.isLt, h3, h7]
  · rw [← chosen_amo f3.toNat f3.isLt f7.toNat f7.isLt, h3, h7]

/-- The call of a pattern on a word. -/
def callOf (w : BitVec 32) (p : Pattern) : Call :=
  (p.name, (argFields parsed32.argsets p).map fun af =>
    (af, BitVec.ofInt 64 (argValue parsed32.fields w.toNat p af)))

/-- The arguments that the decoder passes for an encoding. -/
def decodedOperands (w : BitVec 32) (e : Encoding) : List (String × BitVec 64) :=
  (callOf w ⟨"", 0, 0, (formatOf e).argsName, (formatOf e).fieldMap⟩).2

/-- A word of a major opcode is decoded as the instruction that the patterns select. -/
theorem decode_eq_accepted {w : BitVec 32} (hw : HasMajorOpcode w) :
    decode w = (accepted (opcode w).toNat (funct3 w).toNat (funct7 w).toNat (rs2 w == 0)).map
      fun i => (transName i, decodedOperands w i.encoding) := by
  have hopcode : ∀ p ∈ parsed32.patterns, Matches w p →
      (opcode p.fixedbits).toNat = (opcode w).toNat := by
    intro p hp hmatch
    have hfield : opcode (w &&& p.fixedmask) = opcode w := by
      refine BitVec.extractLsb'_and.trans ?_
      have hfull : p.fixedmask.extractLsb' 0 7 = BitVec.allOnes 7 := opcode_fixed p hp
      rw [hfull, BitVec.and_allOnes]
      rfl
    unfold Matches at hmatch
    rw [BitVec.setWidth_eq] at hmatch
    rw [← hmatch, hfield]
  have hfind : parsed32.patterns.find? (fun p => Matches w p) =
      ((table (opcode w).toNat).map entry).find? fun p => Matches w p := by
    rw [← table_patterns _ hw, List.find?_filter]
    apply find?_congr
    intro p hp
    by_cases hmatch : Matches w p
    · simp [hmatch, hopcode p hp hmatch]
    · simp [hmatch]
  rw [decode_eq_meaning, ← chosen_eq hw]
  unfold meaning chosen
  rw [hfind, List.find?_map, Option.map_map, Option.map_map]
  refine congrArg (Option.map _) (find?_congr ?_)
  intro e he
  obtain ⟨hop, hrd, hrs1, hmask, hbits, hcode⟩ := table_masks _ hw e he
  have hselect := matches_iff_selects ⟨hop, hrd, hrs1, hmask, hbits⟩ w
  have hsame : opcode w = opcode (entry e).fixedbits := BitVec.eq_of_toNat_eq hcode.symm
  rw [Bool.eq_iff_iff, Function.comp_apply, decide_eq_true_iff, hselect]
  exact and_iff_right hsame

end TcgRs.Analysis.Insn32Selection
