import TcgRs.Interface.X86Decode

/-!
# The operand encoders against the decoder

Each encoder is followed by the decoder on its own bytes and whatever comes after them.
The argument is the same for all of them: `decodeLegacy_emitOpc3` reads back the prefixes,
the REX bits and the opcode, and one lemma per operand form reads back ModR/M, SIB and
displacement.

The opcode words range over those the emitter and the code generator pass to each encoder.
For one kind of them the round trip fails: a byte register in the r/m field that needs a
REX prefix and whose opcode word does not ask for one.
-/

set_option autoImplicit false

namespace TcgRs.Analysis.OperandEncoding

open TcgRs.Model.X86 TcgRs.Interface.X86

/-! ## What was given to an encoder -/

/-- The opcode map an opcode word selects. -/
def opcMap (opc : BitVec 32) : OpMap :=
  if hasFlag opc pExt38 then .ext0F38
  else if hasFlag opc pExt3a then .ext0F3A
  else if hasFlag opc pExt then .ext0F
  else .legacy

/-- The repeat prefix an opcode word selects. -/
def opcRep (opc : BitVec 32) : Option Byte :=
  if hasFlag opc pSimdf3 then some 0xF3 else if hasFlag opc pSimdf2 then some 0xF2 else none

/-- The opcode byte. -/
def opcByte (opc : BitVec 32) : Byte := opc.setWidth 8

/-- The instruction an opcode word and its operands stand for. -/
def givenInsn (opc : BitVec 32) (reg : RegOperand) (vvvv : Option Byte) (rm : RmOperand) : Insn where
  data16 := hasFlag opc pData16
  rep := opcRep opc
  map := opcMap opc
  opcode := opcByte opc
  width := opWidth (hasFlag opc pRexw) (hasFlag opc pData16)
  reg := reg
  vvvv := vvvv
  rm := rm

/-- Register `r` as operand: its low byte for a byte operand. -/
def givenReg (isByte : Bool) (r : Reg) : RegOperand := if isByte then .low8 r.toU8 else .full r.toU8

/-- Opcode words whose bytes cannot be mistaken for a prefix, an escape or an instruction
without ModR/M. -/
def WellFormed (opc : BitVec 32) : Prop :=
  hasModrm (opcMap opc) (opcByte opc) = true ∧
  (opcMap opc = .ext0F → opcByte opc ≠ 0x38 ∧ opcByte opc ≠ 0x3A) ∧
  (opcMap opc = .legacy →
    opcByte opc ≠ 0x0F ∧
    opcByte opc ∉ ([0x26, 0x2E, 0x36, 0x3E, 0x64, 0x65, 0x66, 0x67, 0xF0, 0xF2, 0xF3, 0xC4,
      0xC5] : List Byte) ∧ opcByte opc &&& 0xF0 ≠ 0x40)

instance (opc : BitVec 32) : Decidable (WellFormed opc) :=
  inferInstanceAs (Decidable (_ ∧ _ ∧ _))

/-! ## REX bits -/

theorem toU8_lt (r : Reg) : r.toU8 < 16 := by cases r <;> decide

/-- The REX prefix the encoder writes, if any. -/
def rexPrefix (rex : Byte) : Option Byte := if rex != 0 then some (0x40 ||| rex) else none

/-- Bit `i` of a REX prefix, zero when there is none. -/
def rexBit (rex : Option Byte) (i : Nat) : Bool := (rex.getD 0).getLsbD i

/-- The prefix is a REX prefix, and its bits are the tests it was gathered from. -/
theorem gatherRex_spec : ∀ w r8 x8 b8 byteR byteRm : Bool,
    let rex := rexPrefix (gatherRex w r8 x8 b8 byteR byteRm)
    (rex.getD 0x40) &&& 0xF0 = 0x40 ∧ rexBit rex 3 = w ∧ rexBit rex 2 = r8 ∧
      rexBit rex 1 = x8 ∧ rexBit rex 0 = b8 := by
  decide

/-- A prefix is missing exactly when no test asks for one. -/
theorem gatherRex_isSome : ∀ w r8 x8 b8 byteR byteRm : Bool,
    (rexPrefix (gatherRex w r8 x8 b8 byteR byteRm)).isSome = (w || r8 || x8 || b8 || byteR || byteRm) := by
  decide

/-! ## Prefixes and opcode -/

theorem hasFlag_or (opc f g : BitVec 32) :
    hasFlag opc (f ||| g) = (hasFlag opc f || hasFlag opc g) := by
  have hzero : opc &&& (f ||| g) = 0 ↔ opc &&& f = 0 ∧ opc &&& g = 0 := by
    rw [BitVec.and_or_distrib_left]
    exact BitVec.or_eq_zero_iff
  simp only [hasFlag, ne_eq, hzero, not_and_or, Bool.decide_or]

/-- Escape bytes and opcode are read back as map and opcode, and start neither with a
legacy prefix nor with REX. -/
theorem read_escape_opcode (opc : BitVec 32) (hwf : WellFormed opc) (tail : List Byte) :
    readOpcode (escapeBytes opc ++ opcByte opc :: tail) = some (opcMap opc, opcByte opc, tail) ∧
    readRex (escapeBytes opc ++ opcByte opc :: tail) =
      (none, escapeBytes opc ++ opcByte opc :: tail) ∧
    (∀ p, readPrefixes p (escapeBytes opc ++ opcByte opc :: tail) =
      (p, escapeBytes opc ++ opcByte opc :: tail)) := by
  obtain ⟨-, hext, hleg⟩ := hwf
  unfold escapeBytes
  rw [hasFlag_or, hasFlag_or]
  cases h38 : hasFlag opc pExt38
  · cases h3a : hasFlag opc pExt3a
    · cases h0f : hasFlag opc pExt
      · have hmap : opcMap opc = .legacy := by simp [opcMap, h38, h3a, h0f]
        obtain ⟨h0F, hmem, hrex⟩ := hleg hmap
        simp at h0F hmem hrex
        simp [hmap, readOpcode, readRex, readPrefixes, h0F, hmem, hrex]
      · have hmap : opcMap opc = .ext0F := by simp [opcMap, h38, h3a, h0f]
        obtain ⟨h1, h2⟩ := hext hmap
        simp at h1 h2
        simp [hmap, readOpcode, readRex, readPrefixes, h1, h2]
    · have hmap : opcMap opc = .ext0F3A := by simp [opcMap, h38, h3a]
      simp [hmap, readOpcode, readRex, readPrefixes]
  · have hmap : opcMap opc = .ext0F38 := by simp [opcMap, h38]
    simp [hmap, readOpcode, readRex, readPrefixes]

/-- The legacy prefixes are read back, whatever non-prefix bytes follow. -/
theorem read_legacy_prefixes (opc : BitVec 32) (rest : List Byte)
    (hrest : ∀ p, readPrefixes p rest = (p, rest)) :
    readPrefixes {} (data16Bytes opc ++ (simdBytes opc ++ rest)) =
      (⟨hasFlag opc pData16, opcRep opc⟩, rest) := by
  unfold data16Bytes simdBytes opcRep
  cases hasFlag opc pData16 <;> cases hasFlag opc pSimdf3 <;> cases hasFlag opc pSimdf2 <;>
    simp [readPrefixes, hrest]

/-- A REX prefix in front of non-prefix bytes is not a legacy prefix and is read back. -/
theorem read_rex (rex : Byte) (rest : List Byte)
    (hrex : ((rexPrefix rex).getD 0x40) &&& 0xF0 = 0x40)
    (hnone : readRex rest = (none, rest)) (hrest : ∀ p, readPrefixes p rest = (p, rest)) :
    readRex ((rexPrefix rex).toList ++ rest) = (rexPrefix rex, rest) ∧
    (∀ p, readPrefixes p ((rexPrefix rex).toList ++ rest) =
      (p, (rexPrefix rex).toList ++ rest)) := by
  cases h : rexPrefix rex with
  | none => exact ⟨by simpa using hnone, by simpa using hrest⟩
  | some b =>
    rw [h] at hrex
    have h66 : b ≠ 0x66 := by rintro rfl; revert hrex; decide
    have hF3 : b ≠ 0xF3 := by rintro rfl; revert hrex; decide
    have hF2 : b ≠ 0xF2 := by rintro rfl; revert hrex; decide
    simp at hrex h66 hF3 hF2
    simp [readRex, readPrefixes, hrex, h66, hF3, hF2]

/-- The bytes of `emitOpc3` from left to right. -/
theorem emitOpc3_append (opc : BitVec 32) (r rm index : Byte) (tail : List Byte) :
    emitOpc3 opc r rm index ++ tail =
      data16Bytes opc ++ (simdBytes opc ++ ((rexPrefix (rexBits opc r rm index)).toList ++
        (escapeBytes opc ++ opcByte opc :: tail))) := by
  unfold emitOpc3 rexPrefix opcByte
  split <;> simp

/-- Everything up to the ModR/M byte is read back: the instruction is decoded from the
operands that follow, with the REX bits of the registers that were given. -/
theorem decodeLegacy_emitOpc3 (opc : BitVec 32) (hwf : WellFormed opc) (r rm index : Byte)
    (tail : List Byte) :
    decodeLegacy (emitOpc3 opc r rm index ++ tail) =
      (readOperands (opcMap opc) (opcByte opc) (rexPrefix (rexBits opc r rm index)).isSome
        (decide (8 ≤ r)) (decide (8 ≤ index)) (decide (8 ≤ rm)) tail).map
        fun o => (givenInsn opc o.1 none o.2.1, o.2.2) := by
  obtain ⟨hop, hnorex, hnopre⟩ := read_escape_opcode opc hwf tail
  obtain ⟨hrex, hw, hr, hx, hb⟩ := gatherRex_spec (hasFlag opc pRexw) (decide (8 ≤ r))
    (decide (8 ≤ index)) (decide (8 ≤ rm)) (hasFlag opc pRexbR && decide (4 ≤ r))
    (hasFlag opc pRexbRm && decide (4 ≤ rm))
  obtain ⟨hread, hpre⟩ := read_rex (rexBits opc r rm index) _ hrex hnorex hnopre
  rw [emitOpc3_append]
  unfold decodeLegacy
  rw [read_legacy_prefixes opc _ hpre]
  simp only [hread, hop, hwf.1, if_true]
  change rexBit (rexPrefix (rexBits opc r rm index)) 3 = _ at hw
  change rexBit (rexPrefix (rexBits opc r rm index)) 2 = _ at hr
  change rexBit (rexPrefix (rexBits opc r rm index)) 1 = _ at hx
  change rexBit (rexPrefix (rexBits opc r rm index)) 0 = _ at hb
  unfold rexBit at hw hr hx hb
  rw [hw, hr, hx, hb]
  rfl

/-! ## Displacement -/

/-- An offset in the disp8 range survives truncation and sign extension. -/
theorem disp8_signExtend (offset : BitVec 32) (h : fitsI8 offset = true) :
    (offset.setWidth 8).signExtend 32 = offset := by
  simp only [fitsI8, Bool.and_eq_true, decide_eq_true_eq] at h
  apply BitVec.eq_of_toInt_eq
  rw [BitVec.toInt_signExtend_of_le (by omega), BitVec.toInt_setWidth]
  have hi := BitVec.toInt_eq_toNat_cond offset
  have hlt := offset.isLt
  rw [Int.bmod_def]
  split at hi <;> split <;> omega

/-- The four bytes of a word, put back together. -/
theorem word_of_bytes (v : BitVec 32) :
    ((v >>> 24).setWidth 8 ++ (v >>> 16).setWidth 8 ++ (v >>> 8).setWidth 8 ++ v.setWidth 8 :
      BitVec 32) = v := by
  ext i hi
  simp only [BitVec.getElem_append, BitVec.getElem_setWidth, BitVec.getLsbD_ushiftRight]
  split
  · simp [BitVec.getLsbD_eq_getElem, hi]
  · split
    · rw [show 8 + (i - 8) = i by omega]
      simp [BitVec.getLsbD_eq_getElem, hi]
    · split
      · rw [show 16 + (i - 8 - 8) = i by omega]
        simp [BitVec.getLsbD_eq_getElem, hi]
      · rw [show 24 + (i - 8 - 8 - 8) = i by omega]
        simp [BitVec.getLsbD_eq_getElem, hi]

/-- The `mod` field the encoders choose for `[base + offset]`. -/
def dispMod (b3 : Byte) (offset : BitVec 32) : Byte :=
  if offset == 0 && b3 != 5 then 0 else if fitsI8 offset then 1 else 2

/-- The displacement bytes that go with a `mod` field. -/
def dispBytes (mod : Byte) (offset : BitVec 32) : List Byte :=
  if mod = 1 then [offset.setWidth 8] else if mod = 2 then emitU32 offset else []

/-- The three ways to encode an offset, with the tests of the encoders that lead there. -/
theorem dispMod_cases (b3 : Byte) (offset : BitVec 32) :
    (dispMod b3 offset = 0 ∧ offset = 0 ∧ b3 ≠ 5 ∧ (offset == 0 && b3 != 5) = true) ∨
    (dispMod b3 offset = 1 ∧ fitsI8 offset = true ∧ (offset == 0 && b3 != 5) = false) ∨
    (dispMod b3 offset = 2 ∧ fitsI8 offset = false ∧ (offset == 0 && b3 != 5) = false) := by
  unfold dispMod
  cases h0 : (offset == 0 && b3 != 5)
  · cases h8 : fitsI8 offset <;> simp
  · simp only [Bool.and_eq_true, beq_iff_eq, bne_iff_ne] at h0
    exact Or.inl ⟨rfl, h0.1, h0.2, rfl⟩

theorem readDisp_dispBytes (b3 : Byte) (offset : BitVec 32) (rest : List Byte) :
    readDisp (dispMod b3 offset) (dispBytes (dispMod b3 offset) offset ++ rest) =
      some (offset, rest) := by
  rcases dispMod_cases b3 offset with ⟨hm, hz, -⟩ | ⟨hm, h8, -⟩ | ⟨hm, -, -⟩
  · rw [hm]
    simp [dispBytes, readDisp, hz]
  · simp [hm, dispBytes, readDisp, disp8_signExtend offset h8]
  · simp [hm, dispBytes, readDisp, emitU32, word_of_bytes]

theorem dispMod_lt (b3 : Byte) (offset : BitVec 32) : dispMod b3 offset < 4 ∧
    dispMod b3 offset ≠ 3 ∧ ¬(b3 = 5 ∧ dispMod b3 offset = 0) := by
  rcases dispMod_cases b3 offset with ⟨hm, -, h5, -⟩ | ⟨hm, -, -⟩ | ⟨hm, -, -⟩ <;> rw [hm]
  · exact ⟨by decide, by decide, fun h => h5 h.1⟩
  · exact ⟨by decide, by decide, fun h => absurd h.2 (by decide)⟩
  · exact ⟨by decide, by decide, fun h => absurd h.2 (by decide)⟩

/-! ## ModR/M and SIB -/

theorem lt8_cases : ∀ a : Byte, a < 8 →
    a = 0 ∨ a = 1 ∨ a = 2 ∨ a = 3 ∨ a = 4 ∨ a = 5 ∨ a = 6 ∨ a = 7 := by decide

theorem lt4_cases : ∀ a : Byte, a < 4 → a = 0 ∨ a = 1 ∨ a = 2 ∨ a = 3 := by decide

/-- The three fields of a ModR/M or SIB byte. -/
def packFields (hi a b : Byte) : Byte := (hi <<< 6) ||| (a <<< 3) ||| b

theorem packFields_spec (hi a b : Byte) (hh : hi < 4) (ha : a < 8) (hb : b < 8) :
    packFields hi a b >>> 6 = hi ∧ packFields hi a b >>> 3 &&& 7 = a ∧
      packFields hi a b &&& 7 = b := by
  rcases lt4_cases hi hh with rfl | rfl | rfl | rfl <;>
    rcases lt8_cases a ha with rfl | rfl | rfl | rfl | rfl | rfl | rfl | rfl <;>
    rcases lt8_cases b hb with rfl | rfl | rfl | rfl | rfl | rfl | rfl | rfl <;> decide

theorem low3_lt (r : Reg) : r.low3 < 8 := by cases r <;> decide

/-- A register number is its fourth bit and its three low bits. -/
theorem regNum_low3 (r : Reg) : regNum (decide (8 ≤ r.toU8)) r.low3 = r.toU8 := by
  cases r <;> decide

/-- A register operand is read back from `mod = 3`. -/
theorem readOperands_reg (map : OpMap) (op : Byte) (rex er ex eb : Bool) (a b : Byte)
    (ha : a < 8) (hb : b < 8) (rest : List Byte) :
    readOperands map op rex er ex eb (((0xC0 : Byte) ||| (a <<< 3) ||| b) :: rest) =
      some (regField map op rex er a,
        .reg (regOperand (rmIsByte map op) rex (regNum eb b)), rest) := by
  obtain ⟨hmod, hreg, hrm⟩ := packFields_spec 3 a b (by decide) ha hb
  change readOperands map op rex er ex eb (packFields 3 a b :: rest) = _
  simp only [readOperands, hmod, hreg, hrm, if_true]

/-- The `[base + offset]` form in one line: ModR/M, the SIB byte of RSP/R12, displacement. -/
theorem emitMemOperand_eq (r3 b3 : Byte) (hr : r3 < 8) (offset : BitVec 32) :
    emitMemOperand r3 b3 offset =
      packFields (dispMod b3 offset) r3 b3 :: ((if b3 = 4 then [0x24] else []) ++
        dispBytes (dispMod b3 offset) offset) := by
  unfold emitMemOperand
  rcases dispMod_cases b3 offset with ⟨hm, -, -, h0⟩ | ⟨hm, h8, h0⟩ | ⟨hm, h8, h0⟩
  · rw [hm, h0]
    by_cases h4 : b3 = 4#8
    · subst h4; simp [packFields, dispBytes]
    · simp [h4, packFields, dispBytes]
  · rw [hm, h0, h8]
    by_cases h4 : b3 = 4#8
    · subst h4
      rcases lt8_cases r3 hr with rfl | rfl | rfl | rfl | rfl | rfl | rfl | rfl <;>
        simp [packFields, dispBytes]
    · simp [h4, packFields, dispBytes]
  · rw [hm, h0, h8]
    by_cases h4 : b3 = 4#8
    · subst h4
      rcases lt8_cases r3 hr with rfl | rfl | rfl | rfl | rfl | rfl | rfl | rfl <;>
        simp [packFields, dispBytes]
    · simp [h4, packFields, dispBytes]

/-- A `[base + offset]` operand is read back, also for RSP/R12 and RBP/R13. -/
theorem readOperands_mem (map : OpMap) (op : Byte) (rex er eb : Bool) (r3 b3 : Byte)
    (hr : r3 < 8) (hb : b3 < 8) (offset : BitVec 32) (rest : List Byte) :
    readOperands map op rex er false eb (emitMemOperand r3 b3 offset ++ rest) =
      some (regField map op rex er r3, .mem (some (regNum eb b3)) none offset, rest) := by
  obtain ⟨hlt, h3, h5⟩ := dispMod_lt b3 offset
  obtain ⟨hmod, hreg, hrm⟩ := packFields_spec (dispMod b3 offset) r3 b3 hlt hr hb
  rw [emitMemOperand_eq r3 b3 hr]
  simp only [List.cons_append, readOperands, hmod, hreg, hrm, h3, if_false]
  unfold readMem
  by_cases h4 : b3 = 4
  · subst h4
    have hbase : ¬((0x24 : Byte) &&& 7 = 5 ∧ dispMod 4 offset = 0) := fun h => by
      exact absurd h.1 (by decide)
    simp only [if_true, List.cons_append, List.nil_append, hbase, if_false,
      readDisp_dispBytes, Option.map_some]
    rfl
  · simp only [h4, if_false, List.nil_append, h5, readDisp_dispBytes, Option.map_some]

/-- The `[base + index * 2^shift + offset]` form in one line. -/
theorem emitSibOperand_eq (r3 b3 x3 shift : Byte) (hr : r3 < 8) (offset : BitVec 32) :
    emitSibOperand r3 b3 x3 shift offset =
      packFields (dispMod b3 offset) r3 4 :: packFields shift x3 b3 ::
        dispBytes (dispMod b3 offset) offset := by
  unfold emitSibOperand
  rcases dispMod_cases b3 offset with ⟨hm, -, -, h0⟩ | ⟨hm, h8, h0⟩ | ⟨hm, h8, h0⟩
  · rw [hm, h0]
    simp [packFields, dispBytes]
  · rw [hm, h0, h8]
    rcases lt8_cases r3 hr with rfl | rfl | rfl | rfl | rfl | rfl | rfl | rfl <;>
      simp [packFields, dispBytes]
  · rw [hm, h0, h8]
    rcases lt8_cases r3 hr with rfl | rfl | rfl | rfl | rfl | rfl | rfl | rfl <;>
      simp [packFields, dispBytes]

/-- A `[base + index * 2^shift + offset]` operand is read back, unless the index number is
the one that means "no index". -/
theorem readOperands_sib (map : OpMap) (op : Byte) (rex er ex eb : Bool) (r3 b3 x3 shift : Byte)
    (hr : r3 < 8) (hb : b3 < 8) (hx : x3 < 8) (hs : shift < 4) (hidx : regNum ex x3 ≠ 4)
    (offset : BitVec 32) (rest : List Byte) :
    readOperands map op rex er ex eb (emitSibOperand r3 b3 x3 shift offset ++ rest) =
      some (regField map op rex er r3,
        .mem (some (regNum eb b3)) (some (regNum ex x3, shift)) offset, rest) := by
  obtain ⟨hlt, h3, h5⟩ := dispMod_lt b3 offset
  obtain ⟨hmod, hreg, hrm⟩ := packFields_spec (dispMod b3 offset) r3 4 hlt hr (by decide)
  obtain ⟨hscale, hindex, hbase⟩ := packFields_spec shift x3 b3 hs hx hb
  rw [emitSibOperand_eq r3 b3 x3 shift hr]
  simp only [List.cons_append, readOperands, hmod, hreg, hrm, h3, if_false]
  unfold readMem
  simp only [if_true, hscale, hindex, hbase, hidx, if_false, h5, readDisp_dispBytes,
    Option.map_some]

/-! ## The outer dispatch -/

/-- Bytes that do not start with a VEX escape go to the legacy decoder. -/
theorem decode_of_head_ne (b : Byte) (bs : List Byte) (h5 : b ≠ 0xC5) (h4 : b ≠ 0xC4) :
    decode (b :: bs) = decodeLegacy (b :: bs) := by
  unfold decode
  split
  · rename_i b0 b1 b2 rest heq
    obtain ⟨rfl, rfl⟩ := List.cons.inj heq
    rw [if_neg h5, if_neg h4]
  · rfl

/-- What `emitOpc3` writes does not start with a VEX escape. -/
theorem emitOpc3_head (opc : BitVec 32) (hwf : WellFormed opc) (r rm index : Byte)
    (tail : List Byte) :
    ∃ b bs, emitOpc3 opc r rm index ++ tail = b :: bs ∧ b ≠ 0xC5 ∧ b ≠ 0xC4 := by
  obtain ⟨hrex, -⟩ := gatherRex_spec (hasFlag opc pRexw) (decide (8 ≤ r))
    (decide (8 ≤ index)) (decide (8 ≤ rm)) (hasFlag opc pRexbR && decide (4 ≤ r))
    (hasFlag opc pRexbRm && decide (4 ≤ rm))
  have hescape : ∃ b bs, escapeBytes opc ++ opcByte opc :: tail = b :: bs ∧ b ≠ 0xC5 ∧ b ≠ 0xC4 := by
    unfold escapeBytes
    split
    · exact ⟨0x0F, _, rfl, by decide, by decide⟩
    · rename_i h
      rw [hasFlag_or, hasFlag_or] at h
      have hmap : opcMap opc = .legacy := by
        simp only [Bool.not_eq_true, Bool.or_eq_false_iff] at h
        simp [opcMap, h]
      obtain ⟨-, hmem, -⟩ := hwf.2.2 hmap
      refine ⟨opcByte opc, tail, rfl, ?_, ?_⟩ <;>
        · intro heq
          rw [heq] at hmem
          revert hmem
          decide
  obtain ⟨b, bs, hbs, hb5, hb4⟩ := hescape
  rw [emitOpc3_append, hbs]
  unfold data16Bytes simdBytes
  cases hasFlag opc pData16
  · cases hasFlag opc pSimdf3
    · cases hasFlag opc pSimdf2
      · change ((rexPrefix (rexBits opc r rm index)).getD 0x40) &&& 0xF0 = 0x40 at hrex
        cases hp : rexPrefix (rexBits opc r rm index) with
        | none => exact ⟨b, bs, rfl, hb5, hb4⟩
        | some x =>
          rw [hp, Option.getD_some] at hrex
          refine ⟨x, _, rfl, ?_, ?_⟩ <;>
            · rintro rfl
              revert hrex
              decide
      · exact ⟨0xF2, _, rfl, by decide, by decide⟩
    · exact ⟨0xF3, _, rfl, by decide, by decide⟩
  · exact ⟨0x66, _, rfl, by decide, by decide⟩

/-- `decodeLegacy_emitOpc3` for the whole decoder. -/
theorem decode_emitOpc3 (opc : BitVec 32) (hwf : WellFormed opc) (r rm index : Byte)
    (tail : List Byte) :
    decode (emitOpc3 opc r rm index ++ tail) =
      (readOperands (opcMap opc) (opcByte opc) (rexPrefix (rexBits opc r rm index)).isSome
        (decide (8 ≤ r)) (decide (8 ≤ index)) (decide (8 ≤ rm)) tail).map
        fun o => (givenInsn opc o.1 none o.2.1, o.2.2) := by
  obtain ⟨b, bs, hbs, h5, h4⟩ := emitOpc3_head opc hwf r rm index tail
  rw [← decodeLegacy_emitOpc3 opc hwf, hbs]
  exact decode_of_head_ne b bs h5 h4

/-! ## VEX -/

/-- The second byte of a three-byte VEX prefix. -/
theorem vexByte1_spec : ∀ rHigh bHigh : Bool, ∀ mm ∈ ([1, 2, 3] : List Byte),
    let b1 : Byte := (if rHigh then 0 else 0x80) ||| 0x40 ||| (if bHigh then 0 else 0x20) ||| mm
    (!b1.getLsbD 7) = rHigh ∧ (!b1.getLsbD 6) = false ∧ (!b1.getLsbD 5) = bHigh ∧
      b1 &&& 0x1F = mm := by
  decide

/-- The last byte of a VEX prefix, with `hi` its top bit (W or the inverted R). -/
theorem vexByte2_spec (hi : Bool) (v : Reg) (pp : Byte) (hpp : pp ∈ ([0, 2, 3] : List Byte)) :
    let b2 : Byte := (if hi then (0x80 : Byte) else 0) ||| ((~~~v.toU8 &&& 0x0F) <<< 3) ||| pp
    b2.getLsbD 7 = hi ∧ b2.getLsbD 2 = false ∧ b2 &&& 3 = pp ∧
      ~~~(b2 >>> 3) &&& 0x0F = v.toU8 := by
  revert pp hi
  cases v <;> decide

theorem vexMm_mem (opc : BitVec 32) : vexMm opc ∈ ([1, 2, 3] : List Byte) := by
  unfold vexMm
  split
  · decide
  · split <;> decide

theorem vexMap_vexMm (opc : BitVec 32) (hmap : opcMap opc ≠ .legacy) :
    vexMap (vexMm opc) = some (opcMap opc) := by
  unfold vexMm
  cases h38 : hasFlag opc pExt38
  · cases h3a : hasFlag opc pExt3a
    · cases h0f : hasFlag opc pExt
      · simp [opcMap, h38, h3a, h0f] at hmap
      · simp [opcMap, h38, h3a, h0f, vexMap]
    · simp [opcMap, h38, h3a, vexMap]
  · simp [opcMap, h38, vexMap]

/-- What follows the prefix of a VEX instruction is read back. -/
theorem decodeVexBody_spec (opc : BitVec 32) (hmap : opcMap opc ≠ .legacy)
    (hbyte : regIsDigit (opcMap opc) (opcByte opc) = false ∧
      regIsByte (opcMap opc) (opcByte opc) = false ∧ rmIsByte (opcMap opc) (opcByte opc) = false)
    (hd : hasFlag opc pData16 = false) (r v rm : Reg) (tail : Byte) (rest : List Byte)
    (htail : tail.getLsbD 2 = false ∧ tail &&& 3 = vexPp opc ∧ ~~~(tail >>> 3) &&& 0x0F = v.toU8) :
    decodeVexBody (decide (8 ≤ r.toU8)) false (decide (8 ≤ rm.toU8)) (hasFlag opc pRexw)
        (vexMm opc) tail ([opcByte opc, (0xC0 : Byte) ||| (r.low3 <<< 3) ||| rm.low3] ++ rest) =
      some (givenInsn opc (.full r.toU8) (some v.toU8) (.reg (.full rm.toU8)), rest) := by
  obtain ⟨hl, hpp, hv⟩ := htail
  unfold decodeVexBody
  rw [vexMap_vexMm opc hmap]
  simp only [List.cons_append, List.nil_append, hl, Bool.false_eq_true, if_false,
    readOperands_reg _ _ _ _ _ _ _ _ (low3_lt r) (low3_lt rm), Option.map_some, hpp, hv,
    regField, hbyte, regOperand, regNum_low3]
  unfold vexPp givenInsn opcRep
  cases hasFlag opc pSimdf3 <;> cases hasFlag opc pSimdf2 <;> simp [hd]

/-- A VEX instruction is read back, in the two-byte and in the three-byte form. -/
theorem decode_emitVexModrm (opc : BitVec 32) (hmap : opcMap opc ≠ .legacy)
    (hbyte : regIsDigit (opcMap opc) (opcByte opc) = false ∧
      regIsByte (opcMap opc) (opcByte opc) = false ∧ rmIsByte (opcMap opc) (opcByte opc) = false)
    (hd : hasFlag opc pData16 = false) (r v rm : Reg) (rest : List Byte) :
    decode (emitVexModrm opc r v rm ++ rest) =
      some (givenInsn opc (.full r.toU8) (some v.toU8) (.reg (.full rm.toU8)), rest) := by
  have hpp : vexPp opc ∈ ([0, 2, 3] : List Byte) := by
    unfold vexPp
    rw [hd]
    cases hasFlag opc pSimdf3 <;> cases hasFlag opc pSimdf2 <;> decide
  unfold emitVexModrm
  dsimp only
  by_cases htwo : (vexMm opc == 1 && (if hasFlag opc pRexw = true then (0x80 : Byte) else 0) == 0 &&
      (if rm.needsRex = true then (0 : Byte) else 0x20) != 0 && (0x40 : Byte) != 0) = true
  · rw [if_pos htwo]
    simp only [Bool.and_eq_true, beq_iff_eq, bne_iff_ne] at htwo
    obtain ⟨⟨⟨hmm, hw⟩, hb⟩, -⟩ := htwo
    have hw' : hasFlag opc pRexw = false := by
      cases h : hasFlag opc pRexw
      · rfl
      · simp [h] at hw
    have hb' : decide (8 ≤ rm.toU8) = false := by
      cases h : rm.needsRex
      · exact h
      · simp [h] at hb
    obtain ⟨h7, h2, h3, hv⟩ := vexByte2_spec (!r.needsRex) v (vexPp opc) hpp
    have hbit : (if r.needsRex = true then (0 : Byte) else 0x80) =
        (if (!r.needsRex) = true then 0x80 else 0) := by cases r.needsRex <;> rfl
    rw [hbit]
    have h := decodeVexBody_spec opc hmap hbyte hd r v rm _ rest ⟨h2, h3, hv⟩
    rw [hmm, hw', hb'] at h
    simp only [List.cons_append, List.nil_append] at h ⊢
    simp only [decode, if_true, h7, Bool.not_not]
    exact h
  · rw [if_neg htwo]
    obtain ⟨hr, hx, hb, hmm⟩ := vexByte1_spec r.needsRex rm.needsRex (vexMm opc) (vexMm_mem opc)
    obtain ⟨h7, h2, h3, hv⟩ := vexByte2_spec (hasFlag opc pRexw) v (vexPp opc) hpp
    have h := decodeVexBody_spec opc hmap hbyte hd r v rm _ rest ⟨h2, h3, hv⟩
    have hne : ¬(0xC4 : Byte) = 0xC5 := by decide
    simp only [List.cons_append, List.nil_append] at h ⊢
    simp only [decode, hne, if_false, if_true, hr, hx, hb, hmm, h7]
    exact h

/-! ## The encoders -/

/-- Whether the encoder writes a REX prefix. -/
theorem rexPrefix_isSome (opc : BitVec 32) (r rm index : Byte) :
    (rexPrefix (rexBits opc r rm index)).isSome =
      (hasFlag opc pRexw || decide (8 ≤ r) || decide (8 ≤ index) || decide (8 ≤ rm) ||
        (hasFlag opc pRexbR && decide (4 ≤ r)) || (hasFlag opc pRexbRm && decide (4 ≤ rm))) :=
  gatherRex_isSome _ _ _ _ _ _

/-- A register operand is the one given, unless it is a byte register 4 to 7 without REX. -/
theorem regOperand_eq_givenReg_iff (isByte rex : Bool) (r : Reg) :
    regOperand isByte rex r.toU8 = givenReg isByte r ↔
      ¬(isByte = true ∧ rex = false ∧ 4 ≤ r.toU8 ∧ r.toU8 < 8) := by
  unfold regOperand givenReg
  cases isByte <;> cases rex <;> cases r <;> decide

/-- Opcode words with a register in the reg field: a byte register is always announced by
`P_REXB_R`. -/
def RegForm (opc : BitVec 32) : Prop :=
  WellFormed opc ∧ regIsDigit (opcMap opc) (opcByte opc) = false ∧
    (regIsByte (opcMap opc) (opcByte opc) = true → hasFlag opc pRexbR = true)

instance (opc : BitVec 32) : Decidable (RegForm opc) :=
  inferInstanceAs (Decidable (_ ∧ _ ∧ _))

/-- Opcode words with an extension in the reg field: a byte register in the r/m field is
always announced by `P_REXB_RM`. -/
def DigitForm (opc : BitVec 32) : Prop :=
  WellFormed opc ∧ regIsDigit (opcMap opc) (opcByte opc) = true ∧
    (rmIsByte (opcMap opc) (opcByte opc) = true → hasFlag opc pRexbRm = true)

instance (opc : BitVec 32) : Decidable (DigitForm opc) :=
  inferInstanceAs (Decidable (_ ∧ _ ∧ _))

/-- The reg field of a register form is the register given. -/
theorem regField_of_regForm (opc : BitVec 32) (h : RegForm opc) (r : Reg) (rm index : Byte) :
    regField (opcMap opc) (opcByte opc) (rexPrefix (rexBits opc r.toU8 rm index)).isSome
      (decide (8 ≤ r.toU8)) r.low3 = givenReg (regIsByte (opcMap opc) (opcByte opc)) r := by
  obtain ⟨-, hdig, hbyte⟩ := h
  unfold regField
  rw [hdig, regNum_low3, if_neg Bool.false_ne_true, regOperand_eq_givenReg_iff]
  rintro ⟨hb, hrex, h4, -⟩
  rw [rexPrefix_isSome, hbyte hb, decide_eq_true h4] at hrex
  simp at hrex

/-- The byte register in the r/m field lacks the REX prefix it needs. -/
def MissingRex (opc : BitVec 32) (r rm : Reg) : Prop :=
  rmIsByte (opcMap opc) (opcByte opc) = true ∧ rm ∈ [Reg.rsp, .rbp, .rsi, .rdi] ∧
    hasFlag opc pRexbRm = false ∧ hasFlag opc pRexw = false ∧ r.needsRex = false ∧
    ¬(hasFlag opc pRexbR = true ∧ 4 ≤ r.toU8)

theorem mem_low_byte_regs (rm : Reg) :
    rm ∈ [Reg.rsp, .rbp, .rsi, .rdi] ↔ 4 ≤ rm.toU8 ∧ rm.toU8 < 8 := by
  cases rm <;> decide

/-- What the processor reads from the bytes of `emit_modrm`. -/
theorem decode_emitModrm (opc : BitVec 32) (h : RegForm opc) (r rm : Reg) (rest : List Byte) :
    decode (emitModrm opc r rm ++ rest) =
      some (givenInsn opc (givenReg (regIsByte (opcMap opc) (opcByte opc)) r) none
        (.reg (regOperand (rmIsByte (opcMap opc) (opcByte opc))
          (rexPrefix (rexBits opc r.toU8 rm.toU8 0)).isSome rm.toU8)), rest) := by
  unfold emitModrm emitOpc
  rw [List.append_assoc, decode_emitOpc3 opc h.1]
  rw [List.cons_append, List.nil_append,
    readOperands_reg _ _ _ _ _ _ _ _ (low3_lt r) (low3_lt rm), regField_of_regForm opc h,
    regNum_low3]
  rfl

/-- `emit_modrm` round-trips exactly when no REX prefix is missing. -/
theorem decode_emitModrm_iff (opc : BitVec 32) (h : RegForm opc) (r rm : Reg)
    (rest : List Byte) :
    decode (emitModrm opc r rm ++ rest) =
      some (givenInsn opc (givenReg (regIsByte (opcMap opc) (opcByte opc)) r) none
        (.reg (givenReg (rmIsByte (opcMap opc) (opcByte opc)) rm)), rest) ↔
      ¬MissingRex opc r rm := by
  rw [decode_emitModrm opc h]
  have hinj : ∀ a b : RegOperand, ∀ reg : RegOperand,
      (some (givenInsn opc reg none (.reg a), rest) = some (givenInsn opc reg none (.reg b), rest)) ↔
        a = b := by
    intro a b reg
    simp [givenInsn]
  rw [hinj, regOperand_eq_givenReg_iff, rexPrefix_isSome, not_iff_not]
  unfold MissingRex
  rw [mem_low_byte_regs]
  have hlow : ∀ x : Byte, (4 ≤ x ∧ x < 8) → ¬(8 ≤ x) := by decide
  constructor
  · rintro ⟨hb, hrex, hrm⟩
    rw [decide_eq_true hrm.1] at hrex
    simp only [Bool.or_eq_false_iff, Bool.and_eq_false_imp, decide_eq_false_iff_not] at hrex
    refine ⟨hb, hrm, ?_, hrex.1.1.1.1.1, ?_, ?_⟩
    · simpa using hrex.2
    · simpa [Reg.needsRex] using hrex.1.1.1.1.2
    · rintro ⟨hflag, hr4⟩
      exact hrex.1.2 hflag hr4
  · rintro ⟨hb, hrm, hbrm, hw, hr, hbr⟩
    refine ⟨hb, ?_, hrm⟩
    have hr8 : decide (8 ≤ r.toU8) = false := hr
    have hb8 : decide (8 ≤ rm.toU8) = false := decide_eq_false (hlow _ hrm)
    have hx8 : decide ((8 : Byte) ≤ 0) = false := by decide
    have hbyteR : (hasFlag opc pRexbR && decide (4 ≤ r.toU8)) = false := by
      simp only [Bool.and_eq_false_imp, decide_eq_false_iff_not]
      exact fun hflag hr4 => hbr ⟨hflag, hr4⟩
    rw [hw, hr8, hb8, hx8, hbyteR, hbrm]
    rfl

/-- `emit_modrm_ext` round-trips. -/
theorem decode_emitModrmExt (opc : BitVec 32) (h : DigitForm opc) (ext : Byte) (hext : ext < 8)
    (rm : Reg) (rest : List Byte) :
    decode (emitModrmExt opc ext rm ++ rest) =
      some (givenInsn opc (.digit ext) none
        (.reg (givenReg (rmIsByte (opcMap opc) (opcByte opc)) rm)), rest) := by
  obtain ⟨hwf, hdig, hbyte⟩ := h
  have hrm : regOperand (rmIsByte (opcMap opc) (opcByte opc))
      (rexPrefix (rexBits opc ext rm.toU8 0)).isSome rm.toU8 =
      givenReg (rmIsByte (opcMap opc) (opcByte opc)) rm := by
    rw [regOperand_eq_givenReg_iff]
    rintro ⟨hb, hrex, h4, -⟩
    rw [rexPrefix_isSome, hbyte hb, decide_eq_true h4] at hrex
    simp at hrex
  unfold emitModrmExt emitOpc
  rw [List.append_assoc, decode_emitOpc3 opc hwf, List.cons_append, List.nil_append,
    readOperands_reg _ _ _ _ _ _ _ _ hext (low3_lt rm), regNum_low3, hrm, regField, hdig]
  rfl

/-- `emit_modrm_offset` round-trips. -/
theorem decode_emitModrmOffset (opc : BitVec 32) (h : RegForm opc) (r base : Reg)
    (offset : BitVec 32) (rest : List Byte) :
    decode (emitModrmOffset opc r base offset ++ rest) =
      some (givenInsn opc (givenReg (regIsByte (opcMap opc) (opcByte opc)) r) none
        (.mem (some base.toU8) none offset), rest) := by
  unfold emitModrmOffset emitOpc
  rw [List.append_assoc, decode_emitOpc3 opc h.1]
  have hx : decide ((8 : Byte) ≤ 0) = false := by decide
  rw [hx, readOperands_mem _ _ _ _ _ _ _ (low3_lt r) (low3_lt base), regField_of_regForm opc h,
    regNum_low3]
  rfl

/-- `emit_modrm_ext_offset` round-trips. -/
theorem decode_emitModrmExtOffset (opc : BitVec 32) (h : DigitForm opc) (ext : Byte)
    (hext : ext < 8) (base : Reg) (offset : BitVec 32) (rest : List Byte) :
    decode (emitModrmExtOffset opc ext base offset ++ rest) =
      some (givenInsn opc (.digit ext) none (.mem (some base.toU8) none offset), rest) := by
  obtain ⟨hwf, hdig, -⟩ := h
  unfold emitModrmExtOffset emitOpc
  rw [List.append_assoc, decode_emitOpc3 opc hwf]
  have hx : decide ((8 : Byte) ≤ 0) = false := by decide
  rw [hx, readOperands_mem _ _ _ _ _ _ _ hext (low3_lt base), regField, hdig, regNum_low3]
  rfl

/-- `emit_modrm_sib` round-trips for every index register but RSP. -/
theorem decode_emitModrmSib (opc : BitVec 32) (h : RegForm opc) (r base index : Reg)
    (hidx : index ≠ .rsp) (shift : Byte) (hs : shift ≤ 3) (offset : BitVec 32)
    (rest : List Byte) :
    ∃ bytes, emitModrmSib opc r base index shift offset = some bytes ∧
      decode (bytes ++ rest) =
        some (givenInsn opc (givenReg (regIsByte (opcMap opc) (opcByte opc)) r) none
          (.mem (some base.toU8) (some (index.toU8, shift)) offset), rest) := by
  refine ⟨_, by rw [emitModrmSib, if_pos ⟨hs, hidx⟩], ?_⟩
  have hs' : shift < 4 := by revert hs; revert shift; decide
  have hne : regNum (decide (8 ≤ index.toU8)) index.low3 ≠ 4 := by
    rw [regNum_low3]
    revert hidx
    cases index <;> decide
  rw [List.append_assoc, decode_emitOpc3 opc h.1,
    readOperands_sib _ _ _ _ _ _ _ _ _ _ (low3_lt r) (low3_lt base) (low3_lt index) hs' hne,
    regField_of_regForm opc h, regNum_low3, regNum_low3]
  rfl

/-! ## The opcode words in use -/

/-- An opcode word with and without `P_REXW`, as `rexw_flag` makes them. -/
def withRexw (opc : BitVec 32) : List (BitVec 32) := [opc ||| rexwFlag false, opc ||| rexwFlag true]

/-- The eight arithmetic rows, `opc + (op << 3)`. -/
def arithRows (opc : BitVec 32) : List (BitVec 32) :=
  (List.range 8).map fun op => opc + (BitVec.ofNat 32 op <<< 3)

/-- The sixteen condition codes, `opc + cond`. -/
def condRows (opc : BitVec 32) : List (BitVec 32) :=
  (List.range 16).map fun cond => opc + BitVec.ofNat 32 cond

/-- The widening loads and moves as `tcg_out_op` passes them: byte and word forms without
flags, the sign-extending ones also with `P_REXW`. -/
def extendOpcodes : List (BitVec 32) :=
  [opcMovzbl, opcMovzwl, opcMovsbl, opcMovsbl ||| pRexw, opcMovswl, opcMovswl ||| pRexw, opcMovslq]

/-- The opcode words passed to `emit_modrm`. -/
def modrmOpcodes : List (BitVec 32) :=
  (arithRows opcArithGvEv ++
      [opcMovlEvGv, opcImulGvEv, opcImulGvEvIb, opcImulGvEvIz, opcBsf, opcBsr, opcLzcnt, opcTzcnt,
        opcPopcnt, opcTestl, opcXchgEvGv, opcShldIb, opcShrdIb] ++
      condRows opcCmovcc).flatMap withRexw ++
    extendOpcodes ++
    [0x31, opcMovzbl ||| pRexbRm, opcMovbEvGv ||| pRexbR ||| pRexbRm, pData16 ||| opcMovlEvGv]

/-- The opcode words passed to `emit_modrm_ext`. -/
def modrmExtOpcodes : List (BitVec 32) :=
  [opcArithEvIb, opcArithEvIz, opcGrp3Ev, opcShift1, opcShiftIb, opcShiftCl, opcGrpbt, opcGrp5,
      opcMovlEvIz].flatMap withRexw ++
    condRows opcSetcc ++ [opcGrp3Eb ||| pRexbRm, opcShiftIb ||| pData16]

/-- The opcode words passed to `emit_modrm_offset`. -/
def modrmOffsetOpcodes : List (BitVec 32) :=
  (arithRows opcArithEvGv ++ arithRows opcArithGvEv ++
      [opcMovlGvEv, opcMovlEvGv, opcLea]).flatMap withRexw ++
    extendOpcodes ++ [opcMovbEvGv ||| pRexbR, pData16 ||| opcMovlEvGv]

/-- The opcode words passed to `emit_modrm_ext_offset`. -/
def modrmExtOffsetOpcodes : List (BitVec 32) := withRexw opcMovlEvIz

/-- The opcode words passed to `emit_modrm_sib`. -/
def modrmSibOpcodes : List (BitVec 32) :=
  [opcLea, opcMovlGvEv, opcMovlEvGv].flatMap withRexw ++ extendOpcodes ++
    [opcMovbEvGv ||| pRexbR, pData16 ||| opcMovlEvGv]

/-- The opcode words passed to `emit_vex_modrm`. -/
def vexOpcodes : List (BitVec 32) := withRexw opcAndn

/-- A decidable property of every opcode word of a table, by running over the table. -/
theorem forall_mem_of_all (l : List (BitVec 32)) (p : BitVec 32 → Prop) [DecidablePred p]
    (h : l.all (fun opc => decide (p opc)) = true) : ∀ opc ∈ l, p opc := by
  simpa using h

theorem modrmOpcodes_regForm : ∀ opc ∈ modrmOpcodes, RegForm opc :=
  forall_mem_of_all _ _ (by decide)

theorem modrmOffsetOpcodes_regForm : ∀ opc ∈ modrmOffsetOpcodes, RegForm opc :=
  forall_mem_of_all _ _ (by decide)

theorem modrmSibOpcodes_regForm : ∀ opc ∈ modrmSibOpcodes, RegForm opc :=
  forall_mem_of_all _ _ (by decide)

theorem modrmExtOpcodes_digitForm : ∀ opc ∈ modrmExtOpcodes, DigitForm opc :=
  forall_mem_of_all _ _ (by decide)

theorem modrmExtOffsetOpcodes_digitForm : ∀ opc ∈ modrmExtOffsetOpcodes, DigitForm opc :=
  forall_mem_of_all _ _ (by decide)

/-- The VEX opcode words have register operands of the operand size. -/
theorem vexOpcodes_form : ∀ opc ∈ vexOpcodes, opcMap opc ≠ .legacy ∧
    (regIsDigit (opcMap opc) (opcByte opc) = false ∧
      regIsByte (opcMap opc) (opcByte opc) = false ∧
      rmIsByte (opcMap opc) (opcByte opc) = false) ∧ hasFlag opc pData16 = false :=
  forall_mem_of_all _ _ (by decide)

/-- For every opcode word in use, every register and every offset, decoding what an operand
encoder wrote gives back exactly what it was given and leaves exactly what followed, except
that `emit_modrm` loses a byte register in the r/m field precisely when its REX prefix is
missing. -/
theorem operand_encoders_round_trip (rest : List Byte) :
    (∀ opc ∈ modrmOpcodes, ∀ r rm : Reg,
      decode (emitModrm opc r rm ++ rest) =
        some (givenInsn opc (givenReg (regIsByte (opcMap opc) (opcByte opc)) r) none
          (.reg (givenReg (rmIsByte (opcMap opc) (opcByte opc)) rm)), rest) ↔
        ¬MissingRex opc r rm) ∧
    (∀ opc ∈ modrmExtOpcodes, ∀ (ext : Byte) (rm : Reg), ext < 8 →
      decode (emitModrmExt opc ext rm ++ rest) =
        some (givenInsn opc (.digit ext) none
          (.reg (givenReg (rmIsByte (opcMap opc) (opcByte opc)) rm)), rest)) ∧
    (∀ opc ∈ modrmOffsetOpcodes, ∀ (r base : Reg) (offset : BitVec 32),
      decode (emitModrmOffset opc r base offset ++ rest) =
        some (givenInsn opc (givenReg (regIsByte (opcMap opc) (opcByte opc)) r) none
          (.mem (some base.toU8) none offset), rest)) ∧
    (∀ opc ∈ modrmExtOffsetOpcodes, ∀ (ext : Byte) (base : Reg) (offset : BitVec 32),
        ext < 8 →
      decode (emitModrmExtOffset opc ext base offset ++ rest) =
        some (givenInsn opc (.digit ext) none (.mem (some base.toU8) none offset), rest)) ∧
    (∀ opc ∈ modrmSibOpcodes, ∀ (r base index : Reg) (shift : Byte) (offset : BitVec 32),
        index ≠ .rsp → shift ≤ 3 →
      ∃ bytes, emitModrmSib opc r base index shift offset = some bytes ∧
        decode (bytes ++ rest) =
          some (givenInsn opc (givenReg (regIsByte (opcMap opc) (opcByte opc)) r) none
            (.mem (some base.toU8) (some (index.toU8, shift)) offset), rest)) ∧
    (∀ opc ∈ vexOpcodes, ∀ r v rm : Reg,
      decode (emitVexModrm opc r v rm ++ rest) =
        some (givenInsn opc (.full r.toU8) (some v.toU8) (.reg (.full rm.toU8)), rest)) := by
  refine ⟨?_, ?_, ?_, ?_, ?_, ?_⟩
  · intro opc hopc r rm
    exact decode_emitModrm_iff opc (modrmOpcodes_regForm opc hopc) r rm rest
  · intro opc hopc ext rm hext
    exact decode_emitModrmExt opc (modrmExtOpcodes_digitForm opc hopc) ext hext rm rest
  · intro opc hopc r base offset
    exact decode_emitModrmOffset opc (modrmOffsetOpcodes_regForm opc hopc) r base offset rest
  · intro opc hopc ext base offset hext
    exact decode_emitModrmExtOffset opc (modrmExtOffsetOpcodes_digitForm opc hopc) ext hext base
      offset rest
  · intro opc hopc r base index shift offset hidx hs
    exact decode_emitModrmSib opc (modrmSibOpcodes_regForm opc hopc) r base index hidx shift hs
      offset rest
  · intro opc hopc r v rm
    obtain ⟨hmap, hbyte, hd⟩ := vexOpcodes_form opc hopc
    exact decode_emitVexModrm opc hmap hbyte hd r v rm rest

/-- The round trip at R13 as base and R12 as index, the two registers whose low bits collide
with the special cases of ModR/M and SIB, and at a byte extract that carries its REX prefix. -/
theorem round_trip_at_special_registers :
    (∃ bytes, emitModrmSib opcMovlGvEv .r9 .r13 .r12 3 0 = some bytes ∧
      decode (bytes ++ [0x90]) =
        some (givenInsn opcMovlGvEv (givenReg false .r9) none
          (.mem (some Reg.r13.toU8) (some (Reg.r12.toU8, 3)) 0), [0x90])) ∧
    decode (emitModrm (opcMovzbl ||| pRexbRm) .rax .rsi ++ []) =
      some (givenInsn (opcMovzbl ||| pRexbRm) (givenReg false .rax) none
        (.reg (givenReg true .rsi)), []) := by
  obtain ⟨-, -, -, -, hsib, -⟩ := operand_encoders_round_trip [0x90]
  obtain ⟨hmodrm, -⟩ := operand_encoders_round_trip []
  refine ⟨?_, ?_⟩
  · exact hsib opcMovlGvEv (by decide) .r9 .r13 .r12 3 0 (by decide) (by decide)
  · refine (hmodrm (opcMovzbl ||| pRexbRm) (by decide) .rax .rsi).mpr ?_
    rintro ⟨-, -, hflag, -⟩
    revert hflag
    decide

/-- The unsigned byte extract of `tcg_out_op` (`emit_movzx(buf, OPC_MOVZBL, d, s)`) with
source RSI: the bytes `0F B6 C6` name DH, the second byte of RDX. -/
theorem movzbl_from_rsi_reads_dh :
    opcMovzbl ∈ modrmOpcodes ∧
    decode (emitModrm opcMovzbl .rax .rsi) =
      some (givenInsn opcMovzbl (.full Reg.rax.toU8) none (.reg (.high8 Reg.rdx.toU8)), []) ∧
    ¬(∀ opc ∈ modrmOpcodes, ∀ (r rm : Reg) (rest : List Byte),
      decode (emitModrm opc r rm ++ rest) =
        some (givenInsn opc (givenReg (regIsByte (opcMap opc) (opcByte opc)) r) none
          (.reg (givenReg (rmIsByte (opcMap opc) (opcByte opc)) rm)), rest)) := by
  refine ⟨by decide, by decide, ?_⟩
  intro h
  have hrsi := h opcMovzbl (by decide) .rax .rsi []
  revert hrsi
  decide

end TcgRs.Analysis.OperandEncoding
