import TcgRs.Analysis.OperandEncoding
import TcgRs.Interface.X86Exec
import TcgRs.Model.X86.OutOp

/-!
# The instructions that the emitter writes

Each emitter writes one instruction, and the processor reads back the operation, the operand size
and the registers it was given.
-/

set_option autoImplicit false

namespace TcgRs.Analysis.EmittedInsns

open TcgRs.Model.X86 TcgRs.Interface.X86 OperandEncoding

/-- A register as an operand of the full size. -/
abbrev full (r : Reg) : RmOperand := .reg (.full r.toU8)

/-- The operand size of an instruction with or without REX.W. -/
def rexWidth (rexw : Bool) : Nat := if rexw then 64 else 32

theorem toU8_injective : Function.Injective Reg.toU8 := by
  intro r r' h
  cases r <;> cases r' <;> first | rfl | cases h

/-! ## Register forms -/

theorem emitOpc3_ne_nil (opc : BitVec 32) (r rm index : Byte) : emitOpc3 opc r rm index ≠ [] := by
  simp [emitOpc3]

theorem emitModrm_ne_nil (opc : BitVec 32) (r rm : Reg) : emitModrm opc r rm ≠ [] := by
  simp [emitModrm]

theorem emitModrmExt_ne_nil (opc : BitVec 32) (ext : Byte) (rm : Reg) :
    emitModrmExt opc ext rm ≠ [] := by
  simp [emitModrmExt]

/-- An opcode word with two registers of the operand size. -/
def FullForm (opc : BitVec 32) : Prop :=
  RegForm opc ∧ regIsByte (opcMap opc) (opcByte opc) = false ∧
    rmIsByte (opcMap opc) (opcByte opc) = false

instance (opc : BitVec 32) : Decidable (FullForm opc) := inferInstanceAs (Decidable (_ ∧ _ ∧ _))

variable {opc : BitVec 32} {i : Instr} {rest : List Byte}

theorem fetch_emitModrm (h : FullForm opc) (r rm : Reg)
    (hi : instrOf (givenInsn opc (.full r.toU8) none (full rm)) rest = some (i, rest)) :
    fetch (emitModrm opc r rm ++ rest) = some (i, rest) := by
  obtain ⟨hform, hreg, hrm⟩ := h
  unfold fetch
  rw [decode_emitModrm opc hform, hreg, hrm]
  exact hi

theorem fetch_emitModrmExt (h : DigitForm opc) (hrm : rmIsByte (opcMap opc) (opcByte opc) = false)
    {ext : Byte} (hext : ext < 8) (rm : Reg) {tail : List Byte}
    (hi : instrOf (givenInsn opc (.digit ext) none (full rm)) (tail ++ rest) = some (i, rest)) :
    fetch (emitModrmExt opc ext rm ++ tail ++ rest) = some (i, rest) := by
  unfold fetch
  rw [List.append_assoc, decode_emitModrmExt opc h ext hext, hrm]
  exact hi

theorem fetch_emitModrmOffset (h : FullForm opc) (r base : Reg) (offset : BitVec 32)
    (hi : instrOf (givenInsn opc (.full r.toU8) none (.mem (some base.toU8) none offset)) rest =
      some (i, rest)) :
    fetch (emitModrmOffset opc r base offset ++ rest) = some (i, rest) := by
  obtain ⟨hform, hreg, -⟩ := h
  unfold fetch
  rw [decode_emitModrmOffset opc hform, hreg]
  exact hi

/-! ## Arithmetic -/

/-- The operation of a sub-opcode. -/
def aluOf : ArithOp → Alu
  | .add => .add | .or => .or | .adc => .adc | .sbb => .sbb
  | .and => .and | .sub => .sub | .xor => .xor | .cmp => .cmp

def shiftOf : ShiftOp → Shift
  | .rol => .rol | .ror => .ror | .shl => .shl | .shr => .shr | .sar => .sar

theorem fetch_arithRr (op : ArithOp) (rexw : Bool) (dst src : Reg) (rest : List Byte) :
    fetch (emitArithRr op rexw dst src ++ rest) =
      some (.alu (aluOf op) (rexWidth rexw) (full dst) (full src), rest) := by
  have hform : ∀ op rexw, FullForm ((opcArithGvEv + (ArithOp.toU32 op <<< 3)) ||| rexwFlag rexw) := by
    intro op rexw
    cases op <;> cases rexw <;> decide
  have hinsn : ∀ op rexw, givenInsn ((opcArithGvEv + (ArithOp.toU32 op <<< 3)) ||| rexwFlag rexw)
      (.full dst.toU8) none (full src) =
      ⟨false, none, .legacy, (op.toU32 <<< 3 ||| 3).setWidth 8, rexWidth rexw, .full dst.toU8, none,
        full src⟩ := by
    intro op rexw
    cases op <;> cases rexw <;> rfl
  apply fetch_emitModrm (hform op rexw)
  rw [hinsn]
  cases op <;> simp [instrOf, legacyInstr, Alu.ofRow, ArithOp.toU32, aluOf]

theorem fetch_imulRr (rexw : Bool) (dst src : Reg) (rest : List Byte) :
    fetch (emitImulRr rexw dst src ++ rest) =
      some (.imul (rexWidth rexw) (full dst) (full src), rest) := by
  cases rexw <;> exact fetch_emitModrm (by decide) dst src rfl

theorem fetch_not (rexw : Bool) (dst : Reg) (rest : List Byte) :
    fetch (emitGrp3 .not rexw dst ++ rest) = some (.not (rexWidth rexw) (full dst), rest) := by
  rw [← List.append_nil (emitGrp3 .not rexw dst)]
  cases rexw <;>
    exact fetch_emitModrmExt (by decide) (by decide) (by decide) dst rfl

theorem fetch_neg (rexw : Bool) (dst : Reg) (rest : List Byte) :
    fetch (emitGrp3 .neg rexw dst ++ rest) = some (.neg (rexWidth rexw) (full dst), rest) := by
  rw [← List.append_nil (emitGrp3 .neg rexw dst)]
  cases rexw <;>
    exact fetch_emitModrmExt (by decide) (by decide) (by decide) dst rfl

theorem fetch_shiftCl (op : ShiftOp) (rexw : Bool) (dst : Reg) (rest : List Byte) :
    fetch (emitShiftCl op rexw dst ++ rest) =
      some (.shift (shiftOf op) (rexWidth rexw) (full dst) .cl, rest) := by
  rw [← List.append_nil (emitShiftCl op rexw dst)]
  cases op <;> cases rexw <;>
    exact fetch_emitModrmExt (by decide) (by decide) (by decide) dst rfl

/-- The shift of `ExtrhI64I32`. -/
theorem fetch_shr_32 (dst : Reg) (rest : List Byte) :
    fetch (emitShiftRi .shr true dst 32 ++ rest) =
      some (.shift .shr 64 (full dst) (.imm 32), rest) := by
  show fetch (emitModrmExt (opcShiftIb ||| rexwFlag true) ShiftOp.shr.toU8 dst ++ [32] ++ rest) = _
  exact fetch_emitModrmExt (by decide) (by decide) (by decide) dst rfl

theorem fetch_lzcnt (rexw : Bool) (dst src : Reg) (rest : List Byte) :
    fetch (emitModrm (opcLzcnt ||| rexwFlag rexw) dst src ++ rest) =
      some (.lzcnt (rexWidth rexw) (full dst) (full src), rest) := by
  cases rexw <;> exact fetch_emitModrm (by decide) dst src rfl

theorem fetch_tzcnt (rexw : Bool) (dst src : Reg) (rest : List Byte) :
    fetch (emitModrm (opcTzcnt ||| rexwFlag rexw) dst src ++ rest) =
      some (.tzcnt (rexWidth rexw) (full dst) (full src), rest) := by
  cases rexw <;> exact fetch_emitModrm (by decide) dst src rfl

/-- `ANDN`, the one instruction with a VEX prefix. -/
theorem fetch_andn (rexw : Bool) (dst src1 src2 : Reg) (rest : List Byte) :
    fetch (emitAndn rexw dst src1 src2 ++ rest) =
      some (.andn (rexWidth rexw) (full dst) (.full src1.toU8) (full src2), rest) := by
  have hmem : opcAndn ||| rexwFlag rexw ∈ vexOpcodes := by cases rexw <;> decide
  obtain ⟨hmap, hbyte, hd⟩ := vexOpcodes_form _ hmem
  unfold fetch emitAndn
  rw [decode_emitVexModrm _ hmap hbyte hd]
  cases rexw <;> rfl

theorem fetch_leaSib (rexw : Bool) (dst base index : Reg) (hidx : index ≠ .rsp) :
    ∃ bytes, emitLeaSib rexw dst base index 0 0 = some bytes ∧ bytes ≠ [] ∧
      ∀ rest, fetch (bytes ++ rest) =
        some (.lea (rexWidth rexw) (full dst) (.mem (some base.toU8) (some (index.toU8, 0)) 0),
          rest) := by
  have hform : FullForm (opcLea ||| rexwFlag rexw) := by cases rexw <;> decide
  refine ⟨_, by rw [emitLeaSib, emitModrmSib, if_pos ⟨by decide, hidx⟩], by simp [emitOpc3], ?_⟩
  intro rest
  obtain ⟨bytes, hbytes, hdec⟩ :=
    decode_emitModrmSib (opcLea ||| rexwFlag rexw) hform.1 dst base index hidx 0 (by decide) 0 rest
  rw [emitModrmSib, if_pos ⟨by decide, hidx⟩, Option.some_inj] at hbytes
  unfold fetch
  rw [hbytes, hdec, hform.2.1]
  cases rexw <;> rfl

/-! ## Data movement -/

theorem fetch_movRr (rexw : Bool) (dst src : Reg) (rest : List Byte) :
    fetch (emitMovRr rexw dst src ++ rest) =
      some (.mov (rexWidth rexw) (full dst) (full src), rest) := by
  cases rexw <;> exact fetch_emitModrm (by decide) src dst rfl

theorem fetch_load (rexw : Bool) (dst base : Reg) (offset : BitVec 32) (rest : List Byte) :
    fetch (emitLoad rexw dst base offset ++ rest) =
      some (.mov (rexWidth rexw) (full dst) (.mem (some base.toU8) none offset), rest) := by
  cases rexw <;> exact fetch_emitModrmOffset (by decide) dst base offset rfl

theorem fetch_store (rexw : Bool) (src base : Reg) (offset : BitVec 32) (rest : List Byte) :
    fetch (emitStore rexw src base offset ++ rest) =
      some (.mov (rexWidth rexw) (.mem (some base.toU8) none offset) (full src), rest) := by
  cases rexw <;> exact fetch_emitModrmOffset (by decide) src base offset rfl

theorem fetch_movslq (dst src : Reg) (rest : List Byte) :
    fetch (emitModrm opcMovslq dst src ++ rest) =
      some (.extend true 64 32 (full dst) (full src), rest) :=
  fetch_emitModrm (by decide) dst src rfl

/-- The XOR that loads zero. -/
theorem fetch_xorSelf (reg : Reg) (rest : List Byte) :
    fetch (emitModrm 0x31 reg reg ++ rest) = some (.alu .xor 32 (full reg) (full reg), rest) := by
  apply fetch_emitModrm (by decide)
  simp [givenInsn, instrOf, legacyInstr, Alu.ofRow, opcByte, opcMap, opcRep, hasFlag, opWidth, pExt,
    pExt38, pExt3a, pSimdf2, pSimdf3, pData16, pRexw]

/-- The bytes of a 32-bit word, put together again. -/
theorem emitU32_concat (v : BitVec 32) :
    ((v >>> 24).setWidth 8 ++ (v >>> 16).setWidth 8 ++ (v >>> 8).setWidth 8 ++ v.setWidth 8 :
      BitVec 32) = v := by
  apply BitVec.eq_of_getLsbD_eq
  intro i hi
  simp only [BitVec.getLsbD_append, BitVec.getLsbD_setWidth, BitVec.getLsbD_ushiftRight]
  split
  · simp [*]
  · split
    · simp; grind
    · grind

/-- A MOV of an immediate whose opcode names the register: no ModR/M, and no prefix but REX. -/
structure IsMovImm (op : Byte) : Prop where
  row : op &&& 0xF8 = 0xB8
  notPrefix : op ≠ 0x66 ∧ op ≠ 0xF3 ∧ op ≠ 0xF2 ∧ op &&& 0xF0 ≠ 0x40
  notEscape : op ≠ 0x0F ∧ op ≠ 0xC4 ∧ op ≠ 0xC5 ∧ op ≠ 0xF9
  notOther : op ∉ ([0x26, 0x2E, 0x36, 0x3E, 0x64, 0x65, 0x66, 0x67, 0xF0, 0xF2, 0xF3, 0xC4,
    0xC5] : List Byte)
  noModrm : hasModrm .legacy op = false

theorem isMovImm (reg : Reg) : IsMovImm (0xB8 + reg.low3) := by
  constructor <;> cases reg <;> decide

/-- A prefix of such an instruction: none, or REX. -/
def rexBytes (rex : Option Byte) : List Byte := rex.toList

theorem decode_movImm {op : Byte} (h : IsMovImm op) {rex : Option Byte}
    (hrex : ∀ b, rex = some b → b = 0x41 ∨ b = 0x48 ∨ b = 0x49) (tail : List Byte) :
    decode (rexBytes rex ++ op :: tail) = none := by
  have hop : ∀ tail, readOpcode (op :: tail) = some (.legacy, op, tail) := by
    intro tail
    unfold readOpcode
    dsimp only
    rw [if_neg h.notEscape.1, if_neg (by simp only [h.notOther, h.notPrefix.2.2.2, or_self,
      not_false_eq_true])]
  have hlegacy : decodeLegacy (rexBytes rex ++ op :: tail) = none := by
    cases rex with
    | none =>
      have hpre : readPrefixes {} (op :: tail) = ({}, op :: tail) := by
        unfold readPrefixes
        rw [if_neg h.notPrefix.1, if_neg (not_or.mpr ⟨h.notPrefix.2.1, h.notPrefix.2.2.1⟩)]
      have hr : readRex (op :: tail) = (none, op :: tail) := if_neg h.notPrefix.2.2.2
      show decodeLegacy (op :: tail) = none
      unfold decodeLegacy
      simp only [hpre, hr, hop, h.noModrm, Bool.false_eq_true, if_false]
    | some b =>
      show decodeLegacy (b :: op :: tail) = none
      have hpre : readPrefixes {} (b :: op :: tail) = ({}, b :: op :: tail) := by
        rcases hrex b rfl with rfl | rfl | rfl <;> rfl
      have hr : readRex (b :: op :: tail) = (some b, op :: tail) := by
        rcases hrex b rfl with rfl | rfl | rfl <;> rfl
      unfold decodeLegacy
      simp only [hpre, hr, hop, h.noModrm, Bool.false_eq_true, if_false]
  have hfirst : ∀ b bs, rexBytes rex ++ op :: tail = b :: bs → b ≠ 0xC5 ∧ b ≠ 0xC4 := by
    intro b bs hb
    cases rex with
    | none =>
      obtain ⟨rfl, -⟩ := List.cons_eq_cons.mp hb
      exact ⟨h.notEscape.2.2.1, h.notEscape.2.1⟩
    | some r =>
      obtain ⟨rfl, -⟩ := List.cons_eq_cons.mp hb
      rcases hrex r rfl with rfl | rfl | rfl <;> decide
  unfold decode
  split
  · rename_i b0 b1 b2 rest heq
    rw [if_neg (hfirst _ _ heq).1, if_neg (hfirst _ _ heq).2]
    exact hlegacy
  · exact hlegacy

/-- The REX prefix of the immediate forms. -/
def immRex (rexw : Bool) (reg : Reg) : Option Byte :=
  if rexw then some (if reg.needsRex then 0x49 else 0x48)
  else if reg.needsRex then some 0x41 else none

theorem emitOpc_movImm (rexw : Bool) (reg : Reg) :
    emitOpc ((opcMovlIv + reg.low3.setWidth 32) ||| rexwFlag rexw) 0 reg.toU8 =
      rexBytes (immRex rexw reg) ++ [0xB8 + reg.low3] := by
  cases rexw <;> cases reg <;> decide

/-- The register and the size are read back. -/
theorem fetch_movImm (rexw : Bool) (reg : Reg) (tail : List Byte) :
    fetch (emitOpc ((opcMovlIv + reg.low3.setWidth 32) ||| rexwFlag rexw) 0 reg.toU8 ++ tail) =
      movImmOf rexw (full reg) tail := by
  have himm := isMovImm reg
  have hrex : ∀ b, immRex rexw reg = some b → b = 0x41 ∨ b = 0x48 ∨ b = 0x49 := by
    cases rexw <;> cases reg <;> decide
  have hbits : (((immRex rexw reg).getD 0).getLsbD 3 = rexw) ∧
      regNum (((immRex rexw reg).getD 0).getLsbD 0) ((0xB8 + reg.low3) &&& 7) = reg.toU8 := by
    cases rexw <;> cases reg <;> decide
  have hread : readRex (rexBytes (immRex rexw reg) ++ (0xB8 + reg.low3) :: tail) =
      (immRex rexw reg, (0xB8 + reg.low3) :: tail) := by
    cases h : immRex rexw reg with
    | none => exact if_neg himm.notPrefix.2.2.2
    | some b =>
      rcases hrex b h with rfl | rfl | rfl <;> rfl
  rw [emitOpc_movImm, List.append_assoc, List.singleton_append]
  unfold fetch
  rw [decode_movImm himm hrex]
  show fetchPlain _ = _
  unfold fetchPlain
  rw [hread]
  dsimp only
  rw [if_neg himm.notEscape.2.2.2, if_pos himm.row, hbits.1, hbits.2]

/-- The 32-bit form, whose opcode names the register. -/
theorem fetch_movl_imm (reg : Reg) (v : BitVec 32) (rest : List Byte) :
    fetch (emitOpc (opcMovlIv + reg.low3.setWidth 32) 0 reg.toU8 ++ emitU32 v ++ rest) =
      some (.movImm 32 (full reg) (v.setWidth 64), rest) := by
  have hopc : opcMovlIv + reg.low3.setWidth 32 =
      (opcMovlIv + reg.low3.setWidth 32) ||| rexwFlag false := by simp [rexwFlag]
  rw [List.append_assoc, hopc, fetch_movImm]
  show some _ = some _
  rw [emitU32_concat]
  rfl

/-- The sign-extended form. -/
theorem fetch_movImm_sext (reg : Reg) (v : BitVec 32) (rest : List Byte) :
    fetch (emitModrmExt (opcMovlEvIz ||| pRexw) 0 reg ++ emitU32 v ++ rest) =
      some (.movImm 64 (full reg) (v.signExtend 64), rest) := by
  have h : fetch (emitModrmExt (opcMovlEvIz ||| pRexw) 0 reg ++ emitU32 v ++ rest) =
      some (.movImm 64 (full reg) (((v >>> 24).setWidth 8 ++ (v >>> 16).setWidth 8 ++
        (v >>> 8).setWidth 8 ++ v.setWidth 8 : BitVec 32).signExtend 64), rest) :=
    fetch_emitModrmExt (by decide) (by decide) (by decide) reg rfl
  rw [h, emitU32_concat]

/-- The 64-bit form. -/
theorem fetch_movabs (reg : Reg) (v : BitVec 64) (rest : List Byte) :
    fetch (emitOpc ((opcMovlIv + reg.low3.setWidth 32) ||| pRexw) 0 reg.toU8 ++
        (emitU32 (v.setWidth 32) ++ emitU32 ((v >>> 32).setWidth 32)) ++ rest) =
      some (.movImm 64 (full reg) v, rest) := by
  have hconcat : ((v >>> 32).setWidth 32 ++ v.setWidth 32 : BitVec 64) = v := by
    apply BitVec.eq_of_getLsbD_eq
    intro i hi
    simp only [BitVec.getLsbD_append, BitVec.getLsbD_setWidth, BitVec.getLsbD_ushiftRight]
    grind
  have h := fetch_movImm true reg
    (emitU32 (v.setWidth 32) ++ emitU32 ((v >>> 32).setWidth 32) ++ rest)
  rw [List.append_assoc]
  refine h.trans ?_
  show some _ = some _
  rw [emitU32_concat, emitU32_concat, hconcat]
  rfl

/-! ## Registers -/

theorem read_full (c : Cpu) (w : Nat) (r : Reg) :
    c.read w (full r) = some ((c.regs r.toU8).setWidth w) := rfl

theorem setLow_64 (old v : BitVec 64) : setLow old v = v := by
  simp [setLow, BitVec.ushiftRight_eq_zero]

/-- A write of 32 or 64 bits replaces the register. -/
theorem write_full {w : Nat} (hw : w = 32 ∨ w = 64) (c : Cpu) (r : Reg) (v : BitVec w) :
    c.write (full r) v = some (c.setReg r.toU8 (v.setWidth 64)) := by
  show some (c.setReg r.toU8 (if w = 32 then v.setWidth 64 else setLow (c.regs r.toU8) v)) = _
  cases hw with
  | inl h => rw [if_pos h]
  | inr h =>
    subst h
    rw [if_neg (by decide), setLow_64, BitVec.setWidth_eq]

/-! ## Constants -/

/-- What the load of a constant leaves: the value, or its low half zero-extended. -/
def loaded (rexw : Bool) (val : BitVec 64) : BitVec 64 :=
  if rexw then val else (val.setWidth 32).setWidth 64

theorem setWidth_low {val : BitVec 64} (h : val ≤ 0xFFFFFFFF) :
    (val.setWidth 32).setWidth 64 = val := by
  have hle : val.toNat ≤ 2 ^ 32 - 1 := h
  apply BitVec.eq_of_toNat_eq
  rw [BitVec.toNat_setWidth, BitVec.toNat_setWidth]
  omega

theorem signExtend_low {val : BitVec 64} (h : fitsI32 val.toInt = true) :
    (val.setWidth 32).signExtend 64 = val := by
  unfold fitsI32 at h
  rw [Bool.and_eq_true, decide_eq_true_iff, decide_eq_true_iff] at h
  have hdvd : (val.toNat : Int).bmod (2 ^ 32) = val.toInt.bmod (2 ^ 32) := by
    rw [BitVec.toInt_eq_toNat_bmod, Int.bmod_bmod_of_dvd (by decide)]
  apply BitVec.eq_of_toInt_eq
  rw [BitVec.toInt_signExtend_of_le (by decide), BitVec.toInt_setWidth, hdvd]
  exact Int.bmod_eq_of_le (by omega) (by omega)

/-- What an instruction leaves that only writes `v` to a register. -/
def Writes (i : Instr) (reg : Reg) (v : BitVec 64) : Prop :=
  ∀ c : Cpu, ∃ c', c.exec i = some c' ∧ c'.regs = Function.update c.regs reg.toU8 v ∧
    c'.mem = c.mem

theorem writes_movImm32 (reg : Reg) (v : BitVec 64) :
    Writes (.movImm 32 (full reg) v) reg ((v.setWidth 32).setWidth 64) := fun _ => ⟨_, rfl, rfl, rfl⟩

theorem writes_movImm64 (reg : Reg) (v : BitVec 64) : Writes (.movImm 64 (full reg) v) reg v := by
  intro c
  have hwrite := write_full (.inr rfl) c reg v
  rw [BitVec.setWidth_eq] at hwrite
  refine ⟨c.setReg reg.toU8 v, ?_, rfl, rfl⟩
  exact (congrArg (c.write (full reg)) (BitVec.setWidth_eq v)).trans hwrite

theorem writes_xorSelf (reg : Reg) : Writes (.alu .xor 32 (full reg) (full reg)) reg 0 := by
  intro c
  refine ⟨_, rfl, ?_, rfl⟩
  show Function.update c.regs reg.toU8
    (((c.regs reg.toU8).setWidth 32 ^^^ (c.regs reg.toU8).setWidth 32).setWidth 64) = _
  rw [BitVec.xor_self]
  rfl

/-- Each encoding is one instruction that leaves the constant, and changes no other register and no
memory. -/
theorem emitMovRi_loads (rexw : Bool) (reg : Reg) (val : BitVec 64) :
    ∃ i, (∀ rest, fetch (emitMovRi rexw reg val ++ rest) = some (i, rest)) ∧
      Writes i reg (loaded rexw val) := by
  unfold emitMovRi
  by_cases hzero : val = 0
  · rw [if_pos hzero]
    refine ⟨_, fetch_xorSelf reg, ?_⟩
    have hloaded : loaded rexw val = 0 := by rw [hzero]; cases rexw <;> rfl
    rw [hloaded]
    exact writes_xorSelf reg
  rw [if_neg hzero]
  by_cases hsmall : (!rexw || decide (val ≤ 0xFFFFFFFF)) = true
  · -- 32 bits, which the processor zero-extends
    rw [if_pos hsmall]
    refine ⟨_, fetch_movl_imm reg _, ?_⟩
    have hword : ((val.setWidth 32).setWidth 64).setWidth 32 = val.setWidth 32 := by
      rw [BitVec.setWidth_setWidth_of_le _ (by decide), BitVec.setWidth_eq]
    have hloaded : loaded rexw val = (((val.setWidth 32).setWidth 64).setWidth 32).setWidth 64 := by
      rw [hword]
      cases rexw with
      | false => rfl
      | true => exact (setWidth_low (of_decide_eq_true hsmall)).symm
    rw [hloaded]
    exact writes_movImm32 reg _
  rw [if_neg hsmall]
  have hwide : rexw = true := by
    cases rexw with
    | true => rfl
    | false => exact absurd rfl hsmall
  have hloaded : loaded rexw val = val := by rw [hwide]; rfl
  rw [hloaded]
  by_cases hsigned : fitsI32 val.toInt = true
  · -- 32 bits, which the processor sign-extends
    rw [if_pos hsigned]
    refine ⟨_, fetch_movImm_sext reg _, ?_⟩
    rw [signExtend_low hsigned]
    exact writes_movImm64 reg val
  · rw [if_neg hsigned]
    exact ⟨_, fetch_movabs reg val, writes_movImm64 reg val⟩

end TcgRs.Analysis.EmittedInsns
