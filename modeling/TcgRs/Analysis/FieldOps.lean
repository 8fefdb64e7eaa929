import TcgRs.Analysis.HostOps

/-!
# Bit counts, conversions and bit fields

The code of the counting ops, the conversions and the bit-field ops, run on a processor, against
the op tables of `docs/ir-ops.md`.
-/

set_option autoImplicit false

namespace TcgRs.Analysis.FieldOps

open TcgRs.Model.Ir TcgRs.Model.X86 TcgRs.Interface.X86 EmittedInsns HostOps

/-! ## Bit counts -/

/-- The count, or the fallback when there is nothing to count. -/
def countOrFallback {w : Nat} (opc : Opcode) (a b : BitVec w) : BitVec w :=
  if a = 0 then b else if opc = .clz then a.clz else a.ctz

theorem ctz_zero (w : Nat) : (0 : BitVec w).ctz = BitVec.ofNat w w := by
  have h : (0 : BitVec w).reverse = 0 := BitVec.reverse_eq_zero_iff.mpr rfl
  rw [BitVec.ctz, h]
  exact BitVec.clz_eq_iff_eq_zero.mpr rfl

/-- LZCNT and TZCNT of zero give the width. -/
theorem run_bit_count {opc : Opcode} (hopc : opc = .clz ∨ opc = .ctz) {ty : IrType}
    (hty : ty = .i32 ∨ ty = .i64) (d a b : Reg) (c : Cpu) :
    ∃ code, tcgOutOp opc ty [d] [a, b] [] = some code ∧
      c.run code = some (result c d
        (countOrFallback opc (low c ty.sizeBits a) (BitVec.ofNat ty.sizeBits ty.sizeBits))
        (decide (low c ty.sizeBits a = 0))) := by
  have hclz : ∀ w (x : BitVec w), countOrFallback .clz x (BitVec.ofNat w w) = x.clz := by
    intro w x
    unfold countOrFallback
    split
    · rename_i h
      exact (BitVec.clz_eq_iff_eq_zero.mpr h).symm
    · rfl
  have hctz : ∀ w (x : BitVec w), countOrFallback .ctz x (BitVec.ofNat w w) = x.ctz := by
    intro w x
    unfold countOrFallback
    split
    · rename_i h
      rw [h, ctz_zero]
    · rfl
  rcases hopc with rfl | rfl
  · refine ⟨_, rfl, ?_⟩
    rw [hclz]
    rcases hty with rfl | rfl
    · exact run_lzcnt c false d a
    · exact run_lzcnt c true d a
  · refine ⟨_, rfl, ?_⟩
    rw [hctz]
    rcases hty with rfl | rfl
    · exact run_tzcnt c false d a
    · exact run_tzcnt c true d a

/-- The code of `Clz` and `Ctz` leaves the documented value exactly when there is something to
count or the fallback is the width itself. -/
theorem bit_count_iff {opc : Opcode} (hopc : opc = .clz ∨ opc = .ctz) {ty : IrType}
    (hty : ty = .i32 ∨ ty = .i64) {d a b : Reg} (_hregs : Meets (opConstraint opc) [d] [a, b])
    (c : Cpu) :
    ∃ code c', tcgOutOp opc ty [d] [a, b] [] = some code ∧ c.run code = some c' ∧
      (low c' ty.sizeBits d = countOrFallback opc (low c ty.sizeBits a) (low c ty.sizeBits b) ↔
        low c ty.sizeBits a ≠ 0 ∨ low c ty.sizeBits b = BitVec.ofNat ty.sizeBits ty.sizeBits) := by
  obtain ⟨code, hcode, hrun⟩ := run_bit_count hopc hty d a b c
  refine ⟨code, _, hcode, hrun, ?_⟩
  have hsize : ty.sizeBits = 32 ∨ ty.sizeBits = 64 := by
    rcases hty with rfl | rfl
    · exact Or.inl rfl
    · exact Or.inr rfl
  rw [low_result hsize]
  unfold countOrFallback
  by_cases ha : low c ty.sizeBits a = 0
  · rw [if_pos ha, if_pos ha]
    constructor
    · exact fun h => Or.inr h.symm
    · rintro (h | h)
      · exact absurd ha h
      · exact h.symm
  · rw [if_neg ha, if_neg ha]
    exact ⟨fun _ => Or.inl ha, fun _ => rfl⟩

/-- Every register holds its own number. -/
def numberedCpu : Cpu := ⟨fun n => n.setWidth 64, fun _ => 0, false⟩

theorem bit_count_rcx :
    ∃ code c', tcgOutOp .ctz .i32 [.rbx] [.rcx, .rdx] [] = some code ∧
      numberedCpu.run code = some c' ∧
      (low c' 32 .rbx = countOrFallback .ctz (low numberedCpu 32 .rcx) (low numberedCpu 32 .rdx) ↔
        low numberedCpu 32 .rcx ≠ 0 ∨ low numberedCpu 32 .rdx = BitVec.ofNat 32 32) := by
  exact bit_count_iff (Or.inr rfl) (Or.inl rfl) (by decide) numberedCpu

/-- `Clz` of zero with fallback 2 leaves 64. -/
theorem clz_zero_ignores_fallback :
    ¬∀ (opc : Opcode) (ty : IrType) (d a b : Reg) (c : Cpu), (opc = .clz ∨ opc = .ctz) →
      (ty = .i32 ∨ ty = .i64) → Meets (opConstraint opc) [d] [a, b] →
      ∀ code c', tcgOutOp opc ty [d] [a, b] [] = some code → c.run code = some c' →
        low c' ty.sizeBits d = countOrFallback opc (low c ty.sizeBits a) (low c ty.sizeBits b) := by
  intro h
  obtain ⟨code, hcode, hrun⟩ :=
    run_bit_count (Or.inl rfl) (Or.inr rfl) .rbx .rax .rdx numberedCpu
  have h' := h .clz .i64 .rbx .rax .rdx numberedCpu (Or.inl rfl) (Or.inr rfl) (by decide) code _
    hcode hrun
  rw [low_result (show IrType.i64.sizeBits = 32 ∨ IrType.i64.sizeBits = 64 from Or.inr rfl)] at h'
  revert h'
  decide

/-! ## Conversions and bit fields -/

/-- The bits `[ofs, ofs + len)` of a word. -/
def fieldMask (ofs len : Nat) : BitVec 64 := BitVec.ofNat 64 (2 ^ len - 1) <<< ofs

/-- The documented value of a conversion or of a bit-field op. -/
def fieldValue (opc : Opcode) (cargs : List Nat) (xs : List (BitVec 64)) : BitVec 64 :=
  match opc, cargs, xs with
  | .extI32I64, _, [x] => (x.setWidth 32).signExtend 64
  | .extUI32I64, _, [x] => (x.setWidth 32).setWidth 64
  | .extract, [ofs, len], [x] => (x.extractLsb' ofs len).setWidth 64
  | .sExtract, [ofs, len], [x] => (x.extractLsb' ofs len).signExtend 64
  | .deposit, [ofs, len], [x, y] => (x &&& ~~~fieldMask ofs len) ||| (y <<< ofs &&& fieldMask ofs len)
  | _, _, _ => 0

/-- The forms that the backend has code for: opcode, type and constant arguments. -/
inductive FieldForm : Opcode → IrType → List Nat → Prop where
  | extI32I64 : FieldForm .extI32I64 .i64 []
  | extUI32I64 : FieldForm .extUI32I64 .i64 []
  | extract {ty : IrType} {len : Nat} (hty : ty = .i32 ∨ ty = .i64)
      (hlen : len = 8 ∨ len = 16 ∨ len = 32) : FieldForm .extract ty [0, len]
  | sExtract {ty : IrType} {len : Nat} (hty : ty = .i32 ∨ ty = .i64)
      (hlen : len = 8 ∨ len = 16 ∨ len = 32) : FieldForm .sExtract ty [0, len]
  | deposit {ty : IrType} {len : Nat} (hty : ty = .i32 ∨ ty = .i64) (hlen : len = 8 ∨ len = 16) :
      FieldForm .deposit ty [0, len]

/-- The instruction that reads a byte has no REX prefix, and the byte register it names is not the
low byte of its source. -/
def lacksRex (rexw : Bool) (d s : Reg) : Bool :=
  (decide (s = .rsi) || decide (s = .rdi)) && !rexw && !d.needsRex

/-- The register whose second byte is read in place of the low byte of RSI or RDI. -/
def readInstead (s : Reg) : Reg := if s = .rsi then .rdx else .rbx

/-- The byte that the instruction reads is the low byte of its source. -/
def ReadsLowByte (rexw : Bool) (c : Cpu) (d s : Reg) : Prop :=
  lacksRex rexw d s = true →
    (c.regs (readInstead s).toU8 >>> 8).setWidth 8 = (c.regs s.toU8).setWidth 8

/-- What an op needs of its registers and their contents to leave its value: the zero extension in
place, which has no code, a clear upper half; a byte extract its byte. -/
def FieldReady (opc : Opcode) (ty : IrType) (cargs : List Nat) (c : Cpu) (d s : Reg) : Prop :=
  match opc, cargs with
  | .extUI32I64, _ => d = s → c.regs s.toU8 >>> 32 = 0
  | .extract, [_, 8] => ReadsLowByte false c d s
  | .sExtract, [_, 8] => ReadsLowByte (decide (ty = .i64)) c d s
  | _, _ => True

/-- The byte that the instruction reads. -/
def readByte (rexw : Bool) (c : Cpu) (d s : Reg) : BitVec 8 :=
  if lacksRex rexw d s then (c.regs (readInstead s).toU8 >>> 8).setWidth 8
  else (c.regs s.toU8).setWidth 8

theorem readByte_eq_iff (rexw : Bool) (c : Cpu) (d s : Reg) :
    readByte rexw c d s = (c.regs s.toU8).setWidth 8 ↔ ReadsLowByte rexw c d s := by
  unfold readByte ReadsLowByte
  split
  · rename_i h
    simp only [h, true_imp_iff]
  · rename_i h
    simp only [h, Bool.false_eq_true, false_imp_iff]

/-- The byte operand of MOVZX and MOVSX. -/
def byteOperand (rexw : Bool) (d s : Reg) : RegOperand :=
  if lacksRex rexw d s then .high8 (readInstead s).toU8 else .low8 s.toU8

theorem readReg_byteOperand (rexw : Bool) (c : Cpu) (d s : Reg) :
    c.readReg 8 (byteOperand rexw d s) = readByte rexw c d s := by
  unfold byteOperand readByte
  split
  · exact BitVec.setWidth_eq _
  · exact BitVec.setWidth_eq _

/-- An opcode word that reads a byte and carries no flag for it. -/
structure ByteSource (opc : BitVec 32) (rexw : Bool) : Prop where
  form : OperandEncoding.RegForm opc
  reg : regIsByte (OperandEncoding.opcMap opc) (OperandEncoding.opcByte opc) = false
  rm : rmIsByte (OperandEncoding.opcMap opc) (OperandEncoding.opcByte opc) = true
  noFlag : hasFlag opc pRexbR = false ∧ hasFlag opc pRexbRm = false
  wide : hasFlag opc pRexw = rexw

theorem fetch_byteSource {opc : BitVec 32} {rexw : Bool} (h : ByteSource opc rexw) {d s : Reg}
    (hs : allocatableRegs.contains s = true) {i : Instr} {rest : List Byte}
    (hi : instrOf (OperandEncoding.givenInsn opc (.full d.toU8) none
      (.reg (byteOperand rexw d s))) rest = some (i, rest)) :
    fetch (emitModrm opc d s ++ rest) = some (i, rest) := by
  have hrm : regOperand true
      (OperandEncoding.rexPrefix (rexBits opc d.toU8 s.toU8 0)).isSome s.toU8 =
      byteOperand rexw d s := by
    rw [OperandEncoding.rexPrefix_isSome, h.noFlag.1, h.noFlag.2, h.wide]
    unfold byteOperand lacksRex
    have hd : decide (8 ≤ d.toU8) = d.needsRex := rfl
    rw [hd]
    generalize d.needsRex = r8
    cases s <;> first | exact absurd hs (by decide) | (cases rexw <;> cases r8 <;> rfl)
  unfold fetch
  rw [OperandEncoding.decode_emitModrm opc h.form, h.reg, h.rm, hrm]
  exact hi

/-! ### Running the code -/

variable {c : Cpu} {d s : Reg} {w n : Nat}

theorem exec_extend (hw : w = 32 ∨ w = 64) {src : RmOperand} {x : BitVec n}
    (hx : c.read n src = some x) (signed : Bool) :
    c.exec (.extend signed w n (full d) src) =
      some (result c d (if signed then x.signExtend w else x.setWidth w) c.carry) := by
  simp only [Cpu.exec, hx, Option.bind_eq_bind, Option.bind_some]
  rw [write_full hw]
  rfl

/-- MOVZX of a byte. -/
theorem run_movzbl (hs : allocatableRegs.contains s = true) :
    c.run (emitModrm opcMovzbl d s) =
      some (result c d ((readByte false c d s).setWidth 32) c.carry) := by
  have hread : c.read 8 (.reg (byteOperand false d s)) = some (readByte false c d s) :=
    congrArg some (readReg_byteOperand false c d s)
  refine run_emitModrm (fun rest => fetch_byteSource ?_ hs rfl) (exec_extend (Or.inl rfl) hread false)
  constructor <;> decide

/-- MOVSX of a byte. -/
theorem run_movsbl (hs : allocatableRegs.contains s = true) (rexw : Bool) :
    c.run (emitModrm (if rexw then opcMovsbl ||| pRexw else opcMovsbl) d s) =
      some (result c d ((readByte rexw c d s).signExtend (rexWidth rexw)) c.carry) := by
  have hread : c.read 8 (.reg (byteOperand rexw d s)) = some (readByte rexw c d s) :=
    congrArg some (readReg_byteOperand rexw c d s)
  have hsource : ByteSource (if rexw then opcMovsbl ||| pRexw else opcMovsbl) rexw := by
    cases rexw <;> constructor <;> decide
  refine run_emitModrm (fun rest => fetch_byteSource hsource hs ?_)
    (exec_extend (rexWidth_cases rexw) hread true)
  cases rexw <;> rfl

theorem run_movzwl : c.run (emitModrm opcMovzwl d s) =
    some (result c d ((low c 16 s).setWidth 32) c.carry) :=
  run_emitModrm (fun _ => fetch_emitModrm (by decide) d s rfl)
    (exec_extend (Or.inl rfl) (read_full c 16 s) false)

theorem run_movswl (rexw : Bool) :
    c.run (emitModrm (if rexw then opcMovswl ||| pRexw else opcMovswl) d s) =
      some (result c d ((low c 16 s).signExtend (rexWidth rexw)) c.carry) := by
  refine run_emitModrm (fun rest => ?_)
    (exec_extend (rexWidth_cases rexw) (read_full c 16 s) true)
  cases rexw <;> exact fetch_emitModrm (by decide) d s rfl

theorem run_movslq : c.run (emitModrm opcMovslq d s) =
    some (result c d ((low c 32 s).signExtend 64) c.carry) :=
  run_emitModrm (fetch_movslq d s) (exec_extend (Or.inr rfl) (read_full c 32 s) true)

theorem run_movRr (rexw : Bool) :
    c.run (emitMovRr rexw d s) = some (result c d (low c (rexWidth rexw) s) c.carry) := by
  apply run_emitModrm (fetch_movRr rexw d s)
  simp only [Cpu.exec, read_full, Option.bind_eq_bind, Option.bind_some]
  rw [write_full (rexWidth_cases rexw)]
  rfl

/-! ### Values -/

theorem extractLsb'_low (x : BitVec 64) {len : Nat} (h : len ≤ 64) :
    x.extractLsb' 0 len = x.setWidth len := (BitVec.setWidth_eq_extractLsb' h).symm

/-- A zero extension in the destination, at the size of the op. -/
theorem low_zext {size : Nat} (hsize : size = 32 ∨ size = 64) (hw : w = 32 ∨ w = 64) (hn : n ≤ w)
    (x : BitVec n) (carry : Bool) :
    low (result c d (x.setWidth w) carry) size d = x.setWidth size := by
  unfold low
  rw [regs_result, if_pos rfl, BitVec.setWidth_setWidth (by rcases hw with rfl | rfl <;> omega)]
  rw [BitVec.setWidth_setWidth]
  rcases hw with rfl | rfl <;> rcases hsize with rfl | rfl <;> omega

/-- A sign extension in the destination, at the size of the op. -/
theorem low_sext {size : Nat} (hw : size ≤ w) (hw' : w ≤ 64)
    (x : BitVec n) (carry : Bool) :
    low (result c d (x.signExtend w) carry) size d = x.signExtend size := by
  unfold low
  rw [regs_result, if_pos rfl]
  apply BitVec.eq_of_getLsbD_eq
  intro i hi
  simp only [BitVec.getLsbD_setWidth, BitVec.getLsbD_signExtend]
  have h1 : i < 64 := by omega
  have h2 : i < w := by omega
  simp [hi, h1, h2]

theorem setWidth_inj {m : Nat} (h : n ≤ m) (x y : BitVec n) : x.setWidth m = y.setWidth m ↔ x = y := by
  refine ⟨fun heq => ?_, fun heq => by rw [heq]⟩
  have h' := congrArg (BitVec.setWidth n) heq
  rwa [BitVec.setWidth_setWidth_of_le _ h, BitVec.setWidth_setWidth_of_le _ h, BitVec.setWidth_eq,
    BitVec.setWidth_eq] at h'

theorem setWidth_signExtend {m k : Nat} (h : k ≤ m) (x : BitVec n) :
    (x.signExtend m).setWidth k = x.signExtend k := by
  apply BitVec.eq_of_getLsbD_eq
  intro i hi
  simp only [BitVec.getLsbD_setWidth, BitVec.getLsbD_signExtend]
  have h1 : i < m := by omega
  simp [hi, h1]

theorem signExtend_inj {m : Nat} (h : n ≤ m) (x y : BitVec n) :
    x.signExtend m = y.signExtend m ↔ x = y := by
  refine ⟨fun heq => ?_, fun heq => by rw [heq]⟩
  have h' := congrArg (BitVec.setWidth n) heq
  rwa [setWidth_signExtend h, setWidth_signExtend h, BitVec.signExtend_eq, BitVec.signExtend_eq] at h'

/-- Overwriting the low bits of a register deposits a field. -/
theorem setLow_eq_deposit (x y : BitVec 64) :
    setLow x (y.setWidth n) = (x &&& ~~~fieldMask 0 n) ||| (y <<< 0 &&& fieldMask 0 n) := by
  apply BitVec.eq_of_getLsbD_eq
  intro i hi
  simp only [setLow, fieldMask, BitVec.getLsbD_or, BitVec.getLsbD_and, BitVec.getLsbD_shiftLeft,
    BitVec.getLsbD_ushiftRight, BitVec.getLsbD_setWidth, BitVec.getLsbD_not, BitVec.getLsbD_ofNat,
    Nat.testBit_two_pow_sub_one]
  by_cases h : i < n
  · simp [h, hi]
  · simp [h, hi]
    grind

/-! ### Each kind of op -/

/-- The code of an op runs, and leaves `v` at the size of the op exactly when `ready` holds. -/
def LeavesIff (opc : Opcode) (ty : IrType) (cargs : List Nat) (d : Reg) (iregs : List Reg) (c : Cpu)
    (v : BitVec 64) (ready : Prop) : Prop :=
  ∃ code c', tcgOutOp opc ty [d] iregs cargs = some code ∧ c.run code = some c' ∧
    (low c' ty.sizeBits d = v.setWidth ty.sizeBits ↔ ready)

/-- The value an op has of its registers. -/
def fieldValueOf (opc : Opcode) (cargs : List Nat) (iregs : List Reg) (c : Cpu) : BitVec 64 :=
  fieldValue opc cargs (iregs.map fun r => c.regs r.toU8)

theorem extI32I64_leaves :
    LeavesIff .extI32I64 .i64 [] d [s] c (fieldValueOf .extI32I64 [] [s] c) True := by
  refine ⟨_, _, rfl, run_movslq, iff_of_true ?_ trivial⟩
  exact (low_sext (Nat.le_refl 64) (Nat.le_refl 64) _ _).trans (BitVec.setWidth_eq _).symm

/-- In place nothing is emitted, and the upper half stays. -/
theorem extUI32I64_leaves :
    LeavesIff .extUI32I64 .i64 [] d [s] c (fieldValueOf .extUI32I64 [] [s] c)
      (d = s → c.regs s.toU8 >>> 32 = 0) := by
  by_cases h : d = s
  · subst h
    refine ⟨[], c, by simp [tcgOutOp], Cpu.run_nil c, ?_⟩
    show (c.regs d.toU8).setWidth 64 = (((c.regs d.toU8).setWidth 32).setWidth 64).setWidth 64 ↔ _
    rw [BitVec.setWidth_eq, BitVec.setWidth_eq]
    generalize c.regs d.toU8 = x
    constructor
    · intro hx _
      rw [hx]
      apply BitVec.eq_of_getLsbD_eq
      intro i hi
      simp
    · intro hx
      have hx := hx rfl
      apply BitVec.eq_of_getLsbD_eq
      intro i hi
      simp only [BitVec.getLsbD_setWidth, hi, decide_true, Bool.true_and]
      by_cases hlow : i < 32
      · simp [hlow]
      · have hbit := congrArg (fun y => y.getLsbD (i - 32)) hx
        simp only [BitVec.getLsbD_ushiftRight] at hbit
        rw [show 32 + (i - 32) = i by omega] at hbit
        simp [hlow, hbit]
  · refine ⟨emitMovRr false d s, _, by simp [tcgOutOp, h], run_movRr false, ?_⟩
    refine iff_of_true ?_ fun h' => absurd h' h
    unfold low
    rw [regs_result, if_pos rfl]
    rfl

theorem extract_leaves {ty : IrType} (hty : ty = .i32 ∨ ty = .i64)
    (hs : allocatableRegs.contains s = true) {len : Nat} (hlen : len = 8 ∨ len = 16 ∨ len = 32) :
    LeavesIff .extract ty [0, len] d [s] c (fieldValueOf .extract [0, len] [s] c)
      (FieldReady .extract ty [0, len] c d s) := by
  have hsize : ty.sizeBits = 32 ∨ ty.sizeBits = 64 := by
    rcases hty with rfl | rfl
    · exact Or.inl rfl
    · exact Or.inr rfl
  have hvalue : ∀ len, len ≤ 32 → (fieldValueOf .extract [0, len] [s] c).setWidth ty.sizeBits =
      (low c len s).setWidth ty.sizeBits := by
    intro len hle
    show (((c.regs s.toU8).extractLsb' 0 len).setWidth 64).setWidth ty.sizeBits = _
    rw [extractLsb'_low _ (by omega), BitVec.setWidth_setWidth (by omega)]
    rfl
  rcases hlen with rfl | rfl | rfl
  · refine ⟨_, _, rfl, run_movzbl hs, ?_⟩
    rw [low_zext hsize (Or.inl rfl) (by decide), hvalue 8 (by decide),
      setWidth_inj (by omega)]
    exact readByte_eq_iff false c d s
  · refine ⟨_, _, rfl, run_movzwl, iff_of_true ?_ trivial⟩
    rw [low_zext hsize (Or.inl rfl) (by decide), hvalue 16 (by decide)]
  · refine ⟨_, _, rfl, run_movRr false, iff_of_true ?_ trivial⟩
    rw [hvalue 32 (by decide)]
    have h := low_zext hsize (Or.inl rfl) (Nat.le_refl 32) (low c 32 s) c.carry (c := c) (d := d)
    rwa [BitVec.setWidth_eq] at h

theorem sExtract_leaves {ty : IrType} (hty : ty = .i32 ∨ ty = .i64)
    (hs : allocatableRegs.contains s = true) {len : Nat} (hlen : len = 8 ∨ len = 16 ∨ len = 32) :
    LeavesIff .sExtract ty [0, len] d [s] c (fieldValueOf .sExtract [0, len] [s] c)
      (FieldReady .sExtract ty [0, len] c d s) := by
  have hsize : opSize ty = ty.sizeBits := by rcases hty with rfl | rfl <;> rfl
  have hbounds : 8 ≤ ty.sizeBits ∧ ty.sizeBits ≤ 64 := by rcases hty with rfl | rfl <;> decide
  have hvalue : ∀ len, len ≤ 32 → (fieldValueOf .sExtract [0, len] [s] c).setWidth ty.sizeBits =
      (low c len s).signExtend ty.sizeBits := by
    intro len hle
    show (((c.regs s.toU8).extractLsb' 0 len).signExtend 64).setWidth ty.sizeBits = _
    rw [extractLsb'_low _ (by omega), setWidth_signExtend hbounds.2]
    rfl
  rcases hlen with rfl | rfl | rfl
  · refine ⟨_, _, rfl, run_movsbl hs _, ?_⟩
    rw [low_sext (Nat.le_of_eq hsize.symm) (hsize ▸ hbounds.2), hvalue 8 (by decide),
      signExtend_inj hbounds.1]
    exact readByte_eq_iff _ c d s
  · refine ⟨_, _, rfl, run_movswl _, iff_of_true ?_ trivial⟩
    rw [low_sext (Nat.le_of_eq hsize.symm) (hsize ▸ hbounds.2), hvalue 16 (by decide)]
  · refine ⟨_, _, rfl, run_movslq, iff_of_true ?_ trivial⟩
    rw [low_sext hbounds.2 (Nat.le_refl 64), hvalue 32 (by decide)]

/-- MOV of a byte register, with the REX prefix it needs. -/
theorem run_movb : c.run (emitModrm (opcMovbEvGv ||| pRexbR ||| pRexbRm) s d) =
    some (c.setReg d.toU8 (setLow (c.regs d.toU8) ((c.regs s.toU8).setWidth 8))) := by
  have hfetch : ∀ rest, fetch (emitModrm (opcMovbEvGv ||| pRexbR ||| pRexbRm) s d ++ rest) =
      some (.mov 8 (.reg (.low8 d.toU8)) (.reg (.low8 s.toU8)), rest) := by
    intro rest
    have hrex : ¬OperandEncoding.MissingRex (opcMovbEvGv ||| pRexbR ||| pRexbRm) s d := by
      rintro ⟨-, -, hflag, -⟩
      revert hflag
      decide
    have hdec := (OperandEncoding.decode_emitModrm_iff (opcMovbEvGv ||| pRexbR ||| pRexbRm)
      (by decide) s d rest).mpr hrex
    unfold fetch
    rw [hdec]
    rfl
  refine run_emitModrm hfetch ?_
  show some (c.setReg d.toU8 (setLow (c.regs d.toU8) ((((c.regs s.toU8).setWidth 8).setWidth 8).setWidth 8))) = _
  rw [BitVec.setWidth_eq, BitVec.setWidth_eq]

/-- MOV of a word register. -/
theorem run_movw : c.run (emitModrm (pData16 ||| opcMovlEvGv) s d) =
    some (c.setReg d.toU8 (setLow (c.regs d.toU8) ((c.regs s.toU8).setWidth 16))) :=
  run_emitModrm (fun _ => fetch_emitModrm (by decide) s d rfl) rfl

theorem deposit_leaves (ty : IrType) {len : Nat} (hlen : len = 8 ∨ len = 16) :
    LeavesIff .deposit ty [0, len] d [d, s] c (fieldValueOf .deposit [0, len] [d, s] c) True := by
  have hvalue : ∀ len, low (c.setReg d.toU8 (setLow (c.regs d.toU8) ((c.regs s.toU8).setWidth len)))
      ty.sizeBits d = (fieldValueOf .deposit [0, len] [d, s] c).setWidth ty.sizeBits := by
    intro len
    unfold low
    rw [Cpu.regs_setReg, if_pos rfl, setLow_eq_deposit]
    rfl
  rcases hlen with rfl | rfl
  · exact ⟨_, _, rfl, run_movb, iff_of_true (hvalue 8) trivial⟩
  · exact ⟨_, _, rfl, run_movw, iff_of_true (hvalue 16) trivial⟩

/-- Whatever registers the allocator gives a conversion or a bit-field op, its code leaves the
documented value exactly when the registers and their contents are ready for it. -/
theorem field_op_iff {opc : Opcode} {ty : IrType} {cargs : List Nat}
    (hform : FieldForm opc ty cargs) {d : Reg} {iregs : List Reg}
    (hlen : iregs.length = opc.opDef.nbIargs) (hregs : Meets (opConstraint opc) [d] iregs)
    (c : Cpu) :
    ∃ code c', tcgOutOp opc ty [d] iregs cargs = some code ∧ c.run code = some c' ∧
      (low c' ty.sizeBits d =
          (fieldValue opc cargs (iregs.map fun r => c.regs r.toU8)).setWidth ty.sizeBits ↔
        FieldReady opc ty cargs c d (iregs.getLastD .rax)) := by
  have hsource : ∀ s, iregs = [s] → (((opConstraint opc).args 1).regs.contains s) = true := by
    intro s hs
    subst hs
    exact hregs.input (s, 1) (by simp)
  cases hform with
  | extI32I64 =>
    obtain ⟨s, rfl⟩ := List.length_eq_one_iff.mp hlen
    exact extI32I64_leaves
  | extUI32I64 =>
    obtain ⟨s, rfl⟩ := List.length_eq_one_iff.mp hlen
    exact extUI32I64_leaves
  | extract hty hl =>
    obtain ⟨s, rfl⟩ := List.length_eq_one_iff.mp hlen
    exact extract_leaves hty (hsource s rfl) hl
  | sExtract hty hl =>
    obtain ⟨s, rfl⟩ := List.length_eq_one_iff.mp hlen
    exact sExtract_leaves hty (hsource s rfl) hl
  | deposit hty hl =>
    obtain ⟨a, s, rfl⟩ := List.length_eq_two.mp hlen
    -- The output shares the register of the first input.
    have ha : a = d := Option.some_inj.mp (hregs.aliased (d, 0) (by simp) rfl)
    subst ha
    exact deposit_leaves _ hl

/-- A byte extract from RDI to R9: the REX prefix of R9 makes it read the low byte. -/
theorem field_op_rdi_to_r9 :
    ∃ code c', tcgOutOp .extract .i64 [.r9] [.rdi] [0, 8] = some code ∧
      numberedCpu.run code = some c' ∧
      (low c' 64 .r9 = (fieldValue .extract [0, 8] [7]).setWidth 64 ↔
        FieldReady .extract .i64 [0, 8] numberedCpu .r9 .rdi) :=
  field_op_iff (.extract (Or.inr rfl) (Or.inl rfl)) rfl (by decide) numberedCpu

/-- A byte extract from RSI to RAX reads the second byte of RDX. -/
theorem extract_from_rsi_reads_dh :
    ¬∀ (opc : Opcode) (ty : IrType) (cargs : List Nat) (d : Reg) (iregs : List Reg) (c : Cpu),
      FieldForm opc ty cargs → iregs.length = opc.opDef.nbIargs →
      Meets (opConstraint opc) [d] iregs →
      ∀ code c', tcgOutOp opc ty [d] iregs cargs = some code → c.run code = some c' →
        low c' ty.sizeBits d =
          (fieldValue opc cargs (iregs.map fun r => c.regs r.toU8)).setWidth ty.sizeBits := by
  intro h
  have h' := h .extract .i64 [0, 8] .rax [.rsi] numberedCpu (.extract (Or.inr rfl) (Or.inl rfl)) rfl
    (by decide) _ _ rfl (run_movzbl (by decide))
  revert h'
  decide

end TcgRs.Analysis.FieldOps
