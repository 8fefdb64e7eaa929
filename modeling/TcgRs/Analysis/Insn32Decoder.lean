import TcgRs.Analysis.Insn32Selection
import TcgRs.Library.BitFields

/-!
# The 32-bit decoder accepts RV64IMA, and some shifts that are too wide

For a word of a major opcode, the decoder calls the `trans_` function of the instruction with the
operands of the specification.  It fails for shift immediates of 64 and more only, which it accepts.
-/

set_option autoImplicit false

namespace TcgRs.Analysis.Insn32Decoder

open TcgRs.Model.Decode TcgRs.Interface.DecodeMeaning TcgRs.Interface.EmittedCode
open TcgRs.Interface.RiscvIsa TcgRs.Interface.RiscvDecode
open TcgRs.Analysis.Insn32Table TcgRs.Analysis.Insn32Selection TcgRs.Library.BitFields

/-! ## Values of fields -/

theorem bitsAt_eq (w : BitVec 32) (pos len : Nat) :
    bitsAt w.toNat pos len = (w.extractLsb' pos len).toNat := by
  rw [BitVec.extractLsb'_toNat, Nat.shiftRight_eq_div_pow]
  rfl

/-- An unsigned field of one segment. -/
theorem unsigned_field (w : BitVec 32) (pos len : Nat) :
    BitVec.ofInt 64 (bitsAt w.toNat pos len : Nat) = (w.extractLsb' pos len).setWidth 64 := by
  rw [bitsAt_eq, BitVec.ofInt_natCast, BitVec.ofNat_toNat]

theorem toNat_append_eq {m n : Nat} (x : BitVec m) (y : BitVec n) :
    (x ++ y).toNat = x.toNat * 2 ^ n + y.toNat := by
  rw [BitVec.toNat_append, ← Nat.shiftLeft_add_eq_or_of_lt y.isLt, Nat.shiftLeft_eq]

/-- A signed field is the word of its bits in two's complement. -/
theorem segmentsValue_signed {w : BitVec 32} {segs : List FieldSegment} {n : Nat} (x : BitVec n)
    (hsigned : segs.head?.any (·.signed) = true) (hlen : totalLen segs = n)
    (hbits : concatBits w.toNat segs = x.toNat) : segmentsValue w.toNat segs = x.toInt := by
  rw [segmentsValue, if_pos hsigned, hlen, hbits, BitVec.toInt_eq_toNat_bmod]

/-- A signed value shifted left. -/
theorem toInt_append_zero {n : Nat} (x : BitVec n) (k : Nat) (hn : 1 ≤ n) :
    (x ++ 0#k).toInt = x.toInt * 2 ^ k := by
  have happend : (x ++ 0#k).toNat = x.toNat * 2 ^ k + 0 := toNat_append_eq x 0#k
  have hconcat := bmod_concat x.toNat 0 n k hn (Nat.two_pow_pos k)
  rw [BitVec.toInt_eq_toNat_bmod, BitVec.toInt_eq_toNat_bmod, happend, hconcat]
  omega

section
variable (w : BitVec 32) (name : String) {n : Nat}

theorem signed_field (segs : List FieldSegment) (x : BitVec n)
    (hsigned : segs.head?.any (·.signed) = true) (hlen : totalLen segs = n)
    (hbits : concatBits w.toNat segs = x.toNat) :
    BitVec.ofInt 64 (fieldValue w.toNat ⟨name, segs, none⟩) = x.signExtend 64 := by
  simp only [fieldValue, transform, segmentsValue_signed x hsigned hlen hbits]
  rfl

theorem shifted_field (segs : List FieldSegment) (func : String) (k : Nat) (x : BitVec n)
    (hfunc : ∀ v, transform (some func) v = v * 2 ^ k) (hn : 1 ≤ n)
    (hsigned : segs.head?.any (·.signed) = true) (hlen : totalLen segs = n)
    (hbits : concatBits w.toNat segs = x.toNat) :
    BitVec.ofInt 64 (fieldValue w.toNat ⟨name, segs, some func⟩) = (x ++ 0#k).signExtend 64 := by
  simp only [fieldValue, hfunc, segmentsValue_signed x hsigned hlen hbits,
    ← toInt_append_zero x k hn]
  rfl

theorem immI_eq :
    BitVec.ofInt 64 (fieldValue w.toNat ⟨name, [⟨20, 12, true⟩], none⟩) = immI w := by
  apply signed_field w name _ (w.extractLsb' 20 12) rfl rfl
  simp only [concatBits, List.foldl_cons, List.foldl_nil, bitsAt_eq, Nat.zero_mul, Nat.zero_add]

theorem immS_eq :
    BitVec.ofInt 64 (fieldValue w.toNat ⟨name, [⟨25, 7, true⟩, ⟨7, 5, false⟩], none⟩) = immS w := by
  apply signed_field w name _ (w.extractLsb' 25 7 ++ w.extractLsb' 7 5) rfl rfl
  simp only [concatBits, List.foldl_cons, List.foldl_nil, toNat_append_eq, bitsAt_eq, Nat.zero_mul,
    Nat.zero_add]

theorem immB_eq :
    BitVec.ofInt 64 (fieldValue w.toNat
      ⟨name, [⟨31, 1, true⟩, ⟨7, 1, false⟩, ⟨25, 6, false⟩, ⟨8, 4, false⟩], some "ex_shift_1"⟩) =
        immB w := by
  apply shifted_field w name _ _ 1 (w.extractLsb' 31 1 ++ w.extractLsb' 7 1 ++
    w.extractLsb' 25 6 ++ w.extractLsb' 8 4) (fun _ => rfl) (by omega) rfl rfl
  simp only [concatBits, List.foldl_cons, List.foldl_nil, toNat_append_eq, bitsAt_eq, Nat.zero_mul,
    Nat.zero_add]

theorem immJ_eq :
    BitVec.ofInt 64 (fieldValue w.toNat
      ⟨name, [⟨31, 1, true⟩, ⟨12, 8, false⟩, ⟨20, 1, false⟩, ⟨21, 10, false⟩],
        some "ex_shift_1"⟩) = immJ w := by
  apply shifted_field w name _ _ 1 (w.extractLsb' 31 1 ++ w.extractLsb' 12 8 ++
    w.extractLsb' 20 1 ++ w.extractLsb' 21 10) (fun _ => rfl) (by omega) rfl rfl
  simp only [concatBits, List.foldl_cons, List.foldl_nil, toNat_append_eq, bitsAt_eq, Nat.zero_mul,
    Nat.zero_add]

theorem immU_eq :
    BitVec.ofInt 64 (fieldValue w.toNat ⟨name, [⟨12, 20, true⟩], some "ex_shift_12"⟩) =
      immU w := by
  apply shifted_field w name _ _ 12 (w.extractLsb' 12 20) (fun _ => rfl) (by omega) rfl rfl
  simp only [concatBits, List.foldl_cons, List.foldl_nil, bitsAt_eq, Nat.zero_mul, Nat.zero_add]

/-- A field that is neither signed nor transformed. -/
theorem plainField_eq (pos len : Nat) :
    BitVec.ofInt 64 (fieldValue w.toNat ⟨name, [⟨pos, len, false⟩], none⟩) =
      (w.extractLsb' pos len).setWidth 64 := by
  have hbits : concatBits w.toNat [⟨pos, len, false⟩] = bitsAt w.toNat pos len := by
    simp only [concatBits, List.foldl_cons, List.foldl_nil, Nat.zero_mul, Nat.zero_add]
  rw [← unsigned_field, ← hbits]
  rfl

end

/-! ## Operands -/

/-- The value of an argument that is mapped to a field. -/
theorem reference_value (w : BitVec 32) {r : String} {f : Field}
    (h : fieldMap32.get r = some f) :
    BitVec.ofInt 64 (mappingValue fieldMap32 w.toNat (.fieldRef r)) =
      BitVec.ofInt 64 (fieldValue w.toNat f) := by
  show BitVec.ofInt 64 ((fieldMap32.get r).elim 0 (fieldValue w.toNat)) = _
  rw [h]
  rfl

section
variable (w : BitVec 32)

theorem value_rd :
    BitVec.ofInt 64 (mappingValue fieldMap32 w.toNat (.fieldRef "rd")) = (rd w).setWidth 64 := by
  have hget : fieldMap32.get "rd" = some ⟨"rd", [⟨7, 5, false⟩], none⟩ := by decide
  rw [reference_value w hget, plainField_eq, rd]

theorem value_rs1 :
    BitVec.ofInt 64 (mappingValue fieldMap32 w.toNat (.fieldRef "rs1")) = (rs1 w).setWidth 64 := by
  have hget : fieldMap32.get "rs1" = some ⟨"rs1", [⟨15, 5, false⟩], none⟩ := by decide
  rw [reference_value w hget, plainField_eq, rs1]

theorem value_rs2 :
    BitVec.ofInt 64 (mappingValue fieldMap32 w.toNat (.fieldRef "rs2")) = (rs2 w).setWidth 64 := by
  have hget : fieldMap32.get "rs2" = some ⟨"rs2", [⟨20, 5, false⟩], none⟩ := by decide
  rw [reference_value w hget, plainField_eq, rs2]

theorem value_sh5 : BitVec.ofInt 64 (mappingValue fieldMap32 w.toNat (.fieldRef "sh5")) =
    (w.extractLsb' 20 5).setWidth 64 := by
  have hget : fieldMap32.get "sh5" = some ⟨"sh5", [⟨20, 5, false⟩], none⟩ := by decide
  rw [reference_value w hget, plainField_eq]

theorem value_sh7 : BitVec.ofInt 64 (mappingValue fieldMap32 w.toNat (.fieldRef "sh7")) =
    (w.extractLsb' 20 7).setWidth 64 := by
  have hget : fieldMap32.get "sh7" = some ⟨"sh7", [⟨20, 7, false⟩], none⟩ := by decide
  rw [reference_value w hget, plainField_eq]

theorem value_immI :
    BitVec.ofInt 64 (mappingValue fieldMap32 w.toNat (.fieldRef "imm_i")) = immI w := by
  have hget : fieldMap32.get "imm_i" = some ⟨"imm_i", [⟨20, 12, true⟩], none⟩ := by decide
  rw [reference_value w hget, immI_eq]

theorem value_immS :
    BitVec.ofInt 64 (mappingValue fieldMap32 w.toNat (.fieldRef "imm_s")) = immS w := by
  have hget : fieldMap32.get "imm_s" =
      some ⟨"imm_s", [⟨25, 7, true⟩, ⟨7, 5, false⟩], none⟩ := by decide
  rw [reference_value w hget, immS_eq]

theorem value_immB :
    BitVec.ofInt 64 (mappingValue fieldMap32 w.toNat (.fieldRef "imm_b")) = immB w := by
  have hget : fieldMap32.get "imm_b" = some ⟨"imm_b",
      [⟨31, 1, true⟩, ⟨7, 1, false⟩, ⟨25, 6, false⟩, ⟨8, 4, false⟩], some "ex_shift_1"⟩ := by
    decide
  rw [reference_value w hget, immB_eq]

theorem value_immJ :
    BitVec.ofInt 64 (mappingValue fieldMap32 w.toNat (.fieldRef "imm_j")) = immJ w := by
  have hget : fieldMap32.get "imm_j" = some ⟨"imm_j",
      [⟨31, 1, true⟩, ⟨12, 8, false⟩, ⟨20, 1, false⟩, ⟨21, 10, false⟩], some "ex_shift_1"⟩ := by
    decide
  rw [reference_value w hget, immJ_eq]

theorem value_immU :
    BitVec.ofInt 64 (mappingValue fieldMap32 w.toNat (.fieldRef "imm_u")) = immU w := by
  have hget : fieldMap32.get "imm_u" = some ⟨"imm_u", [⟨12, 20, true⟩], some "ex_shift_12"⟩ := by
    decide
  rw [reference_value w hget, immU_eq]

/-- The value of an argument that is mapped to an inline field. -/
theorem value_inline (pos len : Nat) :
    BitVec.ofInt 64 (mappingValue fieldMap32 w.toNat (.inline pos len false)) =
      (w.extractLsb' pos len).setWidth 64 :=
  unsigned_field w pos len

theorem value_zero : BitVec.ofInt 64 (mappingValue fieldMap32 w.toNat (.const 0)) = 0 := by
  show BitVec.ofInt 64 0 = 0
  decide

end

/-- The arguments of each encoding, with their mappings. -/
def mappings : Encoding → List (String × FieldMapping)
  | .r => [("rd", .fieldRef "rd"), ("rs1", .fieldRef "rs1"), ("rs2", .fieldRef "rs2")]
  | .i => [("imm", .fieldRef "imm_i"), ("rs1", .fieldRef "rs1"), ("rd", .fieldRef "rd")]
  | .s => [("imm", .fieldRef "imm_s"), ("rs1", .fieldRef "rs1"), ("rs2", .fieldRef "rs2")]
  | .b => [("imm", .fieldRef "imm_b"), ("rs2", .fieldRef "rs2"), ("rs1", .fieldRef "rs1")]
  | .u => [("imm", .fieldRef "imm_u"), ("rd", .fieldRef "rd")]
  | .j => [("imm", .fieldRef "imm_j"), ("rd", .fieldRef "rd")]
  | .shift => [("shamt", .fieldRef "sh7"), ("rs1", .fieldRef "rs1"), ("rd", .fieldRef "rd")]
  | .shiftw => [("shamt", .fieldRef "sh5"), ("rs1", .fieldRef "rs1"), ("rd", .fieldRef "rd")]
  | .amo => [("aq", .inline 26 1 false), ("rl", .inline 25 1 false), ("rs2", .fieldRef "rs2"),
      ("rs1", .fieldRef "rs1"), ("rd", .fieldRef "rd")]
  | .lr => [("aq", .inline 26 1 false), ("rl", .inline 25 1 false), ("rs2", .const 0),
      ("rs1", .fieldRef "rs1"), ("rd", .fieldRef "rd")]

theorem argFields_map (e : Encoding) :
    (argFields parsed32.argsets ⟨"", 0, 0, (formatOf e).argsName, (formatOf e).fieldMap⟩).map
      (fun af => (af, (formatOf e).fieldMap.get af)) =
        (mappings e).map fun m => (m.1, some m.2) := by
  cases e <;> decide

/-- The operands are decoded by their mappings. -/
theorem decodedOperands_eq (w : BitVec 32) (e : Encoding) :
    decodedOperands w e = (mappings e).map fun m =>
      (m.1, BitVec.ofInt 64 (mappingValue fieldMap32 w.toNat m.2)) := by
  have hargs := congrArg (List.map fun m : String × Option FieldMapping =>
    (m.1, BitVec.ofInt 64 (m.2.elim 0 (mappingValue fieldMap32 w.toNat)))) (argFields_map e)
  rw [List.map_map, List.map_map] at hargs
  exact hargs

/-- Every operand but a six-bit shift amount is decoded as the specification says. -/
theorem decodedOperands_spec (w : BitVec 32) (e : Encoding) (he : e ≠ .shift) :
    decodedOperands w e = operands w e := by
  rw [decodedOperands_eq]
  cases e
  case shift => exact absurd rfl he
  all_goals
    simp only [mappings, List.map_cons, List.map_nil, value_rd, value_rs1,
      value_rs2, value_sh5, value_immI, value_immS, value_immB, value_immJ, value_immU,
      value_inline, value_zero, operands]

/-- The shift amount has seven bits in the decode file. -/
theorem decodedOperands_shift {w : BitVec 32} (h : w.getLsbD 26 = false) :
    decodedOperands w .shift = operands w .shift := by
  have hamount : (w.extractLsb' 20 7).setWidth 64 = (w.extractLsb' 20 6).setWidth 64 := by
    apply BitVec.eq_of_getLsbD_eq
    intro i hi
    simp only [BitVec.getLsbD_setWidth, BitVec.getLsbD_extractLsb', hi, decide_true, Bool.true_and]
    by_cases h6 : i = 6
    · rw [h6, h]
      rfl
    · simp only [show (i < 7) = (i < 6) by simp only [eq_iff_iff]; omega]
  rw [decodedOperands_eq]
  simp only [mappings, List.map_cons, List.map_nil, value_rd, value_rs1, value_sh7,
    hamount, operands]

/-! ## The decoder -/

/-- The function fields of a shift that is too wide. -/
def wideFields (funct3 funct7 : Nat) : Prop :=
  funct7 / 2 % 2 = 1 ∧ (funct3 = 1 ∧ funct7 / 4 = 0 ∨ funct3 = 5 ∧ (funct7 / 4 = 0 ∨ funct7 / 4 = 8))

instance (funct3 funct7 : Nat) : Decidable (wideFields funct3 funct7) :=
  inferInstanceAs (Decidable (_ ∧ _))

theorem bit26_iff (w : BitVec 32) : w.getLsbD 26 = true ↔ (funct7 w).toNat / 2 % 2 = 1 := by
  rw [← BitVec.testBit_toNat, Nat.testBit_eq_decide_div_mod_eq, decide_eq_true_iff, funct7,
    BitVec.extractLsb'_toNat, Nat.shiftRight_eq_div_pow]
  omega

theorem wideShift_iff (w : BitVec 32) :
    WideShift w ↔ (opcode w).toNat = 0b0010011 ∧ wideFields (funct3 w).toNat (funct7 w).toNat := by
  have htop : (w.extractLsb' 27 5).toNat = (funct7 w).toNat / 4 := by
    simp only [funct7, BitVec.extractLsb'_toNat, Nat.shiftRight_eq_div_pow]
    omega
  unfold WideShift wideFields
  rw [bit26_iff]
  simp only [← BitVec.toNat_inj, htop]
  rfl

/-- The decoder accepts more than the listing for wide shifts only. -/
theorem opImm_accepted : ∀ f3 < 8, ∀ f7 < 128,
    (wideFields f3 f7 → opImm f3 f7 = none ∧ (opImm f3 (f7 / 4 * 4)).isSome) ∧
      (¬ wideFields f3 f7 → opImm f3 (f7 / 4 * 4) = opImm f3 f7) ∧
      ((opImm f3 f7).any (fun i => i.encoding == .shift) → f7 / 2 % 2 = 0) := by
  decide

theorem table_encoding : ∀ op ∈ majorOpcodes, ∀ e ∈ table op, e.1.encoding = .shift →
    op = 0b0010011 := by
  decide

/-- Only OP-IMM has shifts by six bits. -/
theorem accepted_shift {op : Nat} (hop : op ∈ majorOpcodes) {f3 : BitVec 3} {f7 : BitVec 7}
    {z : Bool} {i : Insn} (h : accepted op f3.toNat f7.toNat z = some i)
    (hi : i.encoding = .shift) : op = 0b0010011 := by
  rw [← chosen_eq hop] at h
  obtain ⟨e, he, rfl⟩ := Option.map_eq_some_iff.mp h
  exact table_encoding op hop e (List.mem_of_find?_eq_some he) hi

/-- The decoder does what the specification says, except for shifts that are too wide. -/
theorem decode_eq_specCall_iff (w : BitVec 32) (hw : HasMajorOpcode w) :
    decode w = specCall w ↔ ¬ WideShift w := by
  obtain ⟨hwide, hnarrow, hshift⟩ :=
    opImm_accepted (funct3 w).toNat (funct3 w).isLt (funct7 w).toNat (funct7 w).isLt
  have hlisting : (opcode w).toNat = 0b0010011 → instruction w =
      opImm (funct3 w).toNat (funct7 w).toNat := by
    intro hop
    rw [instruction, hop]
    rfl
  rw [decode_eq_accepted hw]
  constructor
  · intro heq hws
    obtain ⟨hop, hfields⟩ := (wideShift_iff w).mp hws
    obtain ⟨hnone, hsome⟩ := hwide hfields
    obtain ⟨i, hi⟩ := Option.isSome_iff_exists.mp hsome
    rw [specCall, hlisting hop, hnone, accepted, if_pos hop, hi] at heq
    cases heq
  · intro hws
    have hsame : accepted (opcode w).toNat (funct3 w).toNat (funct7 w).toNat (rs2 w == 0) =
        instruction w := by
      unfold accepted
      split
      case isTrue hop =>
        have hfields : ¬ wideFields (funct3 w).toNat (funct7 w).toNat := by
          intro h
          exact hws ((wideShift_iff w).mpr ⟨hop, h⟩)
        rw [hnarrow hfields, hlisting hop]
      case isFalse => rfl
    unfold specCall
    rw [← hsame]
    cases hi : accepted (opcode w).toNat (funct3 w).toNat (funct7 w).toNat (rs2 w == 0) with
    | none => rfl
    | some i =>
      have hoperands : decodedOperands w i.encoding = operands w i.encoding := by
        by_cases henc : i.encoding = .shift
        · have hop := accepted_shift hw hi henc
          have heven : (funct7 w).toNat / 2 % 2 = 0 := by
            apply hshift
            rw [← hlisting hop, ← hsame, hi, Option.any_some, henc]
            rfl
          have hbit : w.getLsbD 26 = false := by
            rw [Bool.eq_false_iff, Ne, bit26_iff]
            omega
          rw [henc]
          exact decodedOperands_shift hbit
        · exact decodedOperands_spec w _ henc
      rw [Option.map_some, Option.map_some, hoperands]

/-- The word of `addi x1, x0, 5`. -/
theorem decode_addi : decode 0x00500093#32 = specCall 0x00500093#32 ↔ ¬ WideShift 0x00500093#32 :=
  decode_eq_specCall_iff 0x00500093#32 (by decide)

/-- `slli x1, x1, 64` is reserved, and decoded. -/
theorem decode_slli_64 :
    ¬ ∀ w : BitVec 32, HasMajorOpcode w → decode w = specCall w := by
  intro h
  have hmajor : HasMajorOpcode 0x04009093#32 := by decide
  have hreserved : specCall 0x04009093#32 = none := by decide
  have haccepted : accepted (opcode 0x04009093#32).toNat (funct3 0x04009093#32).toNat
      (funct7 0x04009093#32).toNat (rs2 0x04009093#32 == 0) = some .slli := by decide
  have heq := h 0x04009093#32 hmajor
  rw [decode_eq_accepted hmajor, haccepted, hreserved] at heq
  cases heq

end TcgRs.Analysis.Insn32Decoder
