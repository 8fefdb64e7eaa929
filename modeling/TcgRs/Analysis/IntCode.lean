import TcgRs.Analysis.GeneratedExits
import TcgRs.Analysis.TidyInsns

/-!
# Base integer code

The code of `frontend/src/riscv/trans.rs` for RV64I does to the hart what the specification says.
Instructions that stay in the block are straight code; a jump or branch ends the block with the
address of the next instruction in the program counter.
-/

set_option autoImplicit false
set_option linter.constructorNameAsVariable false

namespace TcgRs.Analysis.IntCode

open TcgRs.Model TcgRs.Model.Ir TcgRs.Model.Riscv TcgRs.Interface.Ir TcgRs.Interface.RiscvExec
open TcgRs.Interface.RiscvIsa
open GeneratedCode GeneratedControl GeneratedExits GuestCode GuestAccess FpCode CpuFields
open TidyCode TidyInsns

/-! ## Words in memory -/

theorem littleEndian_lt (mem : GuestMemory) (addr : BitVec 64) (n : Nat) :
    littleEndian mem addr n < 256 ^ n := by
  induction n generalizing addr with
  | zero => exact Nat.zero_lt_one
  | succ n ih =>
    have hrest := ih (addr + 1)
    have hbyte := (mem addr).isLt
    rw [littleEndian, Nat.pow_succ]
    omega

theorem readBytes_succ (mem : GuestMemory) (addr : BitVec 64) (n : Nat) :
    readBytes mem addr (n + 1) = mem addr :: readBytes mem (addr + 1) n := by
  unfold readBytes
  rw [List.range_succ_eq_map, List.map_cons, List.map_map]
  have hzero : addr + BitVec.ofNat 64 0 = addr := BitVec.add_zero addr
  rw [hzero]
  congr 1
  apply List.map_congr_left
  intro i _
  have hsucc : addr + BitVec.ofNat 64 (i + 1) = addr + 1 + BitVec.ofNat 64 i := by
    rw [Nat.add_comm, BitVec.ofNat_add, BitVec.add_assoc]
    rfl
  rw [Function.comp_apply, Nat.succ_eq_add_one, hsucc]

/-- The bytes of a load are read as a little-endian number. -/
theorem ofBytes_readBytes (mem : GuestMemory) (addr : BitVec 64) {n : Nat} (hn : n ≤ 8) :
    (ofBytes (readBytes mem addr n)).toNat = littleEndian mem addr n := by
  induction n generalizing addr with
  | zero => rfl
  | succ n ih =>
    have hrest := littleEndian_lt mem (addr + 1) n
    have hbyte := (mem addr).isLt
    have hpow : 256 ^ n ≤ 256 ^ 7 := Nat.pow_le_pow_right (by decide) (by omega)
    rw [readBytes_succ, ofBytes, BitVec.toNat_or, BitVec.toNat_shiftLeft, ih (addr + 1) (by omega),
      BitVec.toNat_setWidth, Nat.mod_eq_of_lt (by omega), Nat.shiftLeft_eq,
      Nat.mod_eq_of_lt (by omega), Nat.or_comm, ← Nat.shiftLeft_eq,
      ← Nat.shiftLeft_add_eq_or_of_lt hbyte, Nat.shiftLeft_eq, littleEndian]
    omega

theorem extendFrom_eq (signed : Bool) {n : Nat} {v : BitVec 64} (hv : v.toNat < 256 ^ n) :
    extendFrom (8 * n) signed v = extended signed n v.toNat := by
  have hpow : (256 : Nat) ^ n = 2 ^ (8 * n) := by rw [Nat.pow_mul]
  rw [hpow] at hv
  have hlow : (v.setWidth (8 * n)).toNat = v.toNat := by
    rw [BitVec.toNat_setWidth, Nat.mod_eq_of_lt hv]
  have hunsigned : (v.setWidth (8 * n)).setWidth 64 = BitVec.ofNat 64 v.toNat := by
    apply BitVec.eq_of_toNat_eq
    rw [BitVec.toNat_setWidth, hlow, BitVec.toNat_ofNat]
  unfold Interface.Ir.extendFrom extended
  cases signed with
  | false => exact hunsigned
  | true =>
    have hsign : (v.setWidth (8 * n)).signExtend 64 =
        BitVec.ofInt 64 (v.setWidth (8 * n)).toInt := rfl
    rw [if_pos rfl, hsign, BitVec.toInt_eq_toNat_cond, hlow]
    by_cases hneg : 2 * v.toNat < 2 ^ (8 * n)
    · rw [if_pos hneg, if_neg (by omega), BitVec.ofInt_natCast]
    · rw [if_neg hneg, if_pos ⟨rfl, by omega⟩]
      push_cast
      rfl

/-- What a load leaves. -/
theorem loadValue_eq {memop : MemOp} {n : Nat} {signed : Bool} (hsize : memop.sizeBytes = n)
    (hsigned : memop.isSigned = signed) (hswap : memop.isBswap = false) (hn : n ≤ 8)
    (mem : GuestMemory) (addr : BitVec 64) :
    loadValue memop mem addr = extended signed n (littleEndian mem addr n) := by
  unfold loadValue inOrder
  rw [hsize, hsigned, hswap, if_neg Bool.false_ne_true, ← ofBytes_readBytes mem addr hn]
  apply extendFrom_eq signed
  rw [ofBytes_readBytes mem addr hn]
  exact littleEndian_lt mem addr n

theorem toBytes_getD (n : Nat) (val : BitVec 64) (i : Nat) (byte : BitVec 8) :
    (toBytes n val).getD i byte =
      if i < n then BitVec.ofNat 8 (val.toNat / 256 ^ i) else byte := by
  unfold toBytes
  split
  · rename_i hi
    have hpow : (256 : Nat) ^ i = 2 ^ (8 * i) := by rw [Nat.pow_mul]
    rw [List.getD_eq_getElem _ _ (by simpa using hi), List.getElem_map, List.getElem_range, hpow,
      ← Nat.shiftRight_eq_div_pow]
    rfl
  · rename_i hi
    exact List.getD_eq_default _ _ (by simpa using hi)

/-- What a store leaves. -/
theorem storeValue_eq {memop : MemOp} {n : Nat} (hsize : memop.sizeBytes = n)
    (hswap : memop.isBswap = false) (mem : GuestMemory) (addr val : BitVec 64) :
    storeValue memop mem addr val = stored mem addr n val := by
  unfold storeValue writeBytes inOrder stored
  rw [hsize, hswap, if_neg Bool.false_ne_true]
  funext a
  exact toBytes_getD n val _ _

/-! ## Arithmetic -/

variable {self : RiscvDisasContext} {C : Context} {rest : Effects Guest} {n : Nat} {s : State Guest}

section
variable {opc : Opcode} {f : ∀ n : Nat, BitVec n → BitVec n → BitVec n} {rd : Fin 32} {s1 s2 : Nat}
  {x y : BitVec 64}

/-- An operation on two temps, into a register. -/
theorem does_alu (hself : Globals self C) (hop : binaryOp opc = some f) (hx : val C s s1 = x)
    (hy : val C s s2 = y) :
    Does (guestEffects rest) C
      (do let d ← newTemp .i64
          let _ ← emitBinary opc .i64 d s1 s2
          self.genSetGpr rd d
          return true)
      (Leaves self C s rd (f 64 x y)) n s := by
  refine does_bind (does_newTemp fun hd => ?_)
  refine does_bind (does_binary hop ?_)
  refine does_result hself rfl (hartOf_setTemp hself hd _ _) ?_
  rw [val_setTemp_self hd, hx, hy]
  rfl

/-- The low half of a result depends on the low halves of the operands. -/
def ActsOnLow (f : ∀ n : Nat, BitVec n → BitVec n → BitVec n) : Prop :=
  ∀ x y : BitVec 64, (f 64 x y).setWidth 32 = f 32 (x.setWidth 32) (y.setWidth 32)

theorem actsOnLow_add : ActsOnLow fun _ x y => x + y :=
  fun x y => BitVec.setWidth_add x y (by decide)

theorem actsOnLow_mul : ActsOnLow fun _ x y => x * y :=
  fun x y => BitVec.setWidth_mul x y (by decide)

theorem actsOnLow_sub : ActsOnLow fun _ x y => x - y := by
  intro x y
  dsimp only
  rw [BitVec.sub_eq_add_neg, BitVec.setWidth_add _ _ (by decide),
    BitVec.setWidth_neg_of_le (by decide), ← BitVec.sub_eq_add_neg]

/-- An operation on 64 bits whose low half is sign-extended. -/
theorem does_aluW (hself : Globals self C) (hop : binaryOp opc = some f) (hf : ActsOnLow f)
    (hx : val C s s1 = x) (hy : val C s s2 = y) :
    Does (guestEffects rest) C
      (do let d ← newTemp .i64
          let _ ← emitBinary opc .i64 d s1 s2
          self.genSetGprSx32 rd d
          return true)
      (Leaves self C s rd (onWords (f 32) x y)) n s := by
  refine does_bind (does_newTemp fun hd => ?_)
  refine does_bind (does_binary hop ?_)
  refine does_bind (does_genSetGprSx32 (does_pure ⟨rfl, setGpr_world _ _ _, ?_⟩))
  have hlow : (atType₂ .i64 f (val C s s1) (val C s s2)).setWidth 32 =
      f 32 (x.setWidth 32) (y.setWidth 32) := by
    rw [hx, hy]
    exact hf x y
  rw [hartOf_setGpr hself, hartOf_setTemp hself hd, val_setTemp_self hd, hlow]
  rfl

/-- A comparison of two temps, into a register. -/
theorem does_flag (hself : Globals self C) {c : Cond} {p : Prop} [Decidable p]
    (hc : condHolds c x y = decide p) (hx : val C s s1 = x) (hy : val C s s2 = y) :
    Does (guestEffects rest) C
      (do let d ← newTemp .i64
          let _ ← genSetCond .i64 d s1 s2 c
          self.genSetGpr rd d
          return true)
      (Leaves self C s rd (flag p)) n s := by
  refine does_bind (does_newTemp fun hd => ?_)
  refine does_bind (does_emitTo rfl ?_)
  rw [execOp_setCond]
  refine does_result hself rfl (hartOf_setTemp hself hd _ _) ?_
  have hcond : condAtType .i64 c (val C s s1) (val C s s2) = decide p := by
    rw [hx, hy]
    exact hc
  rw [val_setTemp_self hd, hcond]
  unfold flag
  simp only [decide_eq_true_eq]

/-- An operation on 32 bits, sign-extended into a register, after ops that only wrote local temps. -/
theorem does_word (hself : Globals self C) (hop : binaryOp opc = some f) {s' : State Guest}
    (hworld : s'.world = s.world) (hhart : hartOf self C s' = hartOf self C s)
    (hx : (val C s' s1).setWidth 32 = x.setWidth 32)
    (hy : (val C s' s2).setWidth 32 = y.setWidth 32) :
    Does (guestEffects rest) C
      (do let d32 ← newTemp .i32
          let _ ← emitBinary opc .i32 d32 s1 s2
          self.genSetGprSx32 rd d32
          return true)
      (Leaves self C s rd (onWords (f 32) x y)) n s' := by
  refine does_bind (does_newTemp fun hd => ?_)
  refine does_bind (does_binary hop ?_)
  refine does_resultSx32 hself hworld ((hartOf_setTemp hself hd _ _).trans hhart) ?_
  have hword : atType₂ .i32 f (val C s' s1) (val C s' s2) =
      (f 32 ((val C s' s1).setWidth 32) ((val C s' s2).setWidth 32)).setWidth 64 := rfl
  rw [val_setTemp_self hd, hword, hx, hy]

end

section
variable {opc : Opcode} {f : ∀ n : Nat, BitVec n → BitVec n → BitVec n}

theorem does_genArith (hself : Globals self C) (hop : binaryOp opc = some f) (a : ArgsR) :
    Does (guestEffects rest) C (self.genArith a (emitBinary opc)) (Leaves self C s a.rd
      (f 64 ((hartOf self C s).x a.rs1) ((hartOf self C s).x a.rs2))) n s := by
  refine does_bind (does_gprOrZero hself fun s1 n1 _ _ hx => ?_)
  refine does_bind (does_gprOrZero hself fun s2 n2 _ _ hy => ?_)
  exact does_alu hself hop hx hy

theorem does_genArithImm (hself : Globals self C) (hop : binaryOp opc = some f) (a : ArgsI) :
    Does (guestEffects rest) C (self.genArithImm a (emitBinary opc)) (Leaves self C s a.rd
      (f 64 ((hartOf self C s).x a.rs1) a.imm)) n s := by
  refine does_bind (does_gprOrZero hself fun s1 n1 _ _ hx => ?_)
  refine does_bind (does_newConst fun s2 n2 _ himm => ?_)
  exact does_alu hself hop hx (himm.val s)

theorem does_genShiftImm (hself : Globals self C) (hop : binaryOp opc = some f) (a : ArgsShift) :
    Does (guestEffects rest) C (self.genShiftImm a (emitBinary opc)) (Leaves self C s a.rd
      (f 64 ((hartOf self C s).x a.rs1) a.shamt)) n s := by
  refine does_bind (does_gprOrZero hself fun s1 n1 _ _ hx => ?_)
  refine does_bind (does_newConst fun s2 n2 _ hshamt => ?_)
  exact does_alu hself hop hx (hshamt.val s)

theorem does_genSetcondRr (hself : Globals self C) {c : Cond}
    {p : BitVec 64 → BitVec 64 → Prop} [∀ x y, Decidable (p x y)]
    (hc : ∀ x y : BitVec 64, condHolds c x y = decide (p x y)) (a : ArgsR) :
    Does (guestEffects rest) C (self.genSetcondRr a c) (Leaves self C s a.rd
      (flag (p ((hartOf self C s).x a.rs1) ((hartOf self C s).x a.rs2)))) n s := by
  refine does_bind (does_gprOrZero hself fun s1 n1 _ _ hx => ?_)
  refine does_bind (does_gprOrZero hself fun s2 n2 _ _ hy => ?_)
  exact does_flag hself (hc _ _) hx hy

theorem does_genSetcondImm (hself : Globals self C) {c : Cond}
    {p : BitVec 64 → BitVec 64 → Prop} [∀ x y, Decidable (p x y)]
    (hc : ∀ x y : BitVec 64, condHolds c x y = decide (p x y)) (a : ArgsI) :
    Does (guestEffects rest) C (self.genSetcondImm a c) (Leaves self C s a.rd
      (flag (p ((hartOf self C s).x a.rs1) a.imm))) n s := by
  refine does_bind (does_gprOrZero hself fun s1 n1 _ _ hx => ?_)
  refine does_bind (does_newConst fun s2 n2 _ himm => ?_)
  exact does_flag hself (hc _ _) hx (himm.val s)

theorem does_genArithW (hself : Globals self C) (hop : binaryOp opc = some f) (hf : ActsOnLow f)
    (a : ArgsR) :
    Does (guestEffects rest) C (self.genArithW a (emitBinary opc)) (Leaves self C s a.rd
      (onWords (f 32) ((hartOf self C s).x a.rs1) ((hartOf self C s).x a.rs2))) n s := by
  refine does_bind (does_gprOrZero hself fun s1 n1 _ _ hx => ?_)
  refine does_bind (does_gprOrZero hself fun s2 n2 _ _ hy => ?_)
  exact does_aluW hself hop hf hx hy

theorem does_genArithImmW (hself : Globals self C) (hop : binaryOp opc = some f) (hf : ActsOnLow f)
    (a : ArgsI) :
    Does (guestEffects rest) C (self.genArithImmW a (emitBinary opc)) (Leaves self C s a.rd
      (onWords (f 32) ((hartOf self C s).x a.rs1) a.imm)) n s := by
  refine does_bind (does_gprOrZero hself fun s1 n1 _ _ hx => ?_)
  refine does_bind (does_newConst fun s2 n2 _ himm => ?_)
  exact does_aluW hself hop hf hx (himm.val s)

theorem does_genShiftw (hself : Globals self C) (hop : binaryOp opc = some f) (a : ArgsR) :
    Does (guestEffects rest) C (self.genShiftw a (emitBinary opc)) (Leaves self C s a.rd
      (onWords (f 32) ((hartOf self C s).x a.rs1) ((hartOf self C s).x a.rs2))) n s := by
  refine does_bind (does_gprOrZero hself fun s1 n1 hn1 hs1 hx => ?_)
  refine does_bind (does_gprOrZero hself fun s2 n2 hn2 hs2 hy => ?_)
  refine does_bind (does_newTemp fun ha32 => ?_)
  refine does_bind (does_extrlI64I32 ?_)
  refine does_bind (does_newTemp fun hb32 => ?_)
  refine does_bind (does_extrlI64I32 ?_)
  refine does_word hself hop rfl ?_ ?_ ?_
  · rw [hartOf_setTemp hself hb32, hartOf_setTemp hself ha32]
  · rw [val_setTemp_of_ne (by omega), val_setTemp_self ha32, low_zext, hx]
  · rw [val_setTemp_self hb32, low_zext, val_setTemp_fixed hs2 ha32, hy]

theorem does_genShiftImmW (hself : Globals self C) (hop : binaryOp opc = some f) (a : ArgsShift) :
    Does (guestEffects rest) C (self.genShiftImmW a (emitBinary opc)) (Leaves self C s a.rd
      (onWords (f 32) ((hartOf self C s).x a.rs1) a.shamt)) n s := by
  refine does_bind (does_gprOrZero hself fun s1 n1 hn1 hs1 hx => ?_)
  refine does_bind (does_newTemp fun hs32 => ?_)
  refine does_bind (does_extrlI64I32 ?_)
  refine does_bind (does_newConst fun sh n2 hn2 hsh => ?_)
  refine does_word hself hop rfl (hartOf_setTemp hself hs32 _ _) ?_ ?_
  · rw [val_setTemp_self hs32, low_zext, hx]
  · rw [hsh.val]

end

section
variable {insn : Insn} {value : BitVec 64 → BitVec 64 → BitVec 64}

theorem does_transR (hself : Globals self C) {trans : ArgsR → Gen Bool}
    (htrans : transR self insn = some trans) (hvalue : aluValue insn = some value)
    (hext : insn = .mul ∨ insn = .mulw → self.cfg.misa.contains .M = true) (a : ArgsR) :
    Does (guestEffects rest) C (trans a) (Leaves self C s a.rd
      (value ((hartOf self C s).x a.rs1) ((hartOf self C s).x a.rs2))) n s := by
  cases insn <;> cases htrans <;> cases hvalue
  case add => exact does_genArith (f := fun _ x y => x + y) hself rfl a
  case sub => exact does_genArith (f := fun _ x y => x - y) hself rfl a
  case sll => exact does_genArith (f := fun n x y => x <<< (y.toNat % n)) hself rfl a
  case slt => exact does_genSetcondRr (p := fun x y => x.toInt < y.toInt) hself (fun _ _ => rfl) a
  case sltu => exact does_genSetcondRr (p := fun x y => x.toNat < y.toNat) hself (fun _ _ => rfl) a
  case xor => exact does_genArith (f := fun _ x y => x ^^^ y) hself rfl a
  case srl => exact does_genArith (f := fun n x y => x >>> (y.toNat % n)) hself rfl a
  case sra => exact does_genArith (f := fun n x y => x.sshiftRight (y.toNat % n)) hself rfl a
  case or => exact does_genArith (f := fun _ x y => x ||| y) hself rfl a
  case and => exact does_genArith (f := fun _ x y => x &&& y) hself rfl a
  case addw => exact does_genArithW (f := fun _ x y => x + y) hself rfl actsOnLow_add a
  case subw => exact does_genArithW (f := fun _ x y => x - y) hself rfl actsOnLow_sub a
  case sllw => exact does_genShiftw (f := fun n x y => x <<< (y.toNat % n)) hself rfl a
  case srlw => exact does_genShiftw (f := fun n x y => x >>> (y.toNat % n)) hself rfl a
  case sraw => exact does_genShiftw (f := fun n x y => x.sshiftRight (y.toNat % n)) hself rfl a
  case mul =>
    refine does_requireExt (hext (.inl rfl)) ?_
    exact does_genArith (f := fun _ x y => x * y) hself rfl a
  case mulw =>
    refine does_requireExt (hext (.inr rfl)) ?_
    exact does_genArithW (f := fun _ x y => x * y) hself rfl actsOnLow_mul a

theorem does_transI (hself : Globals self C) {trans : ArgsI → Gen Bool}
    (htrans : transI self insn = some trans) (hvalue : aluValue insn = some value) (a : ArgsI) :
    Does (guestEffects rest) C (trans a) (Leaves self C s a.rd
      (value ((hartOf self C s).x a.rs1) a.imm)) n s := by
  cases insn <;> cases htrans <;> cases hvalue
  case addi => exact does_genArithImm (f := fun _ x y => x + y) hself rfl a
  case slti => exact does_genSetcondImm (p := fun x y => x.toInt < y.toInt) hself (fun _ _ => rfl) a
  case sltiu =>
    exact does_genSetcondImm (p := fun x y => x.toNat < y.toNat) hself (fun _ _ => rfl) a
  case xori => exact does_genArithImm (f := fun _ x y => x ^^^ y) hself rfl a
  case ori => exact does_genArithImm (f := fun _ x y => x ||| y) hself rfl a
  case andi => exact does_genArithImm (f := fun _ x y => x &&& y) hself rfl a
  case addiw => exact does_genArithImmW (f := fun _ x y => x + y) hself rfl actsOnLow_add a

theorem does_transShift (hself : Globals self C) {trans : ArgsShift → Gen Bool}
    (htrans : transShift self insn = some trans) (hvalue : aluValue insn = some value)
    (a : ArgsShift) :
    Does (guestEffects rest) C (trans a) (Leaves self C s a.rd
      (value ((hartOf self C s).x a.rs1) a.shamt)) n s := by
  cases insn <;> cases htrans <;> cases hvalue
  case slli => exact does_genShiftImm (f := fun n x y => x <<< (y.toNat % n)) hself rfl a
  case srli => exact does_genShiftImm (f := fun n x y => x >>> (y.toNat % n)) hself rfl a
  case srai => exact does_genShiftImm (f := fun n x y => x.sshiftRight (y.toNat % n)) hself rfl a
  case slliw => exact does_genShiftImmW (f := fun n x y => x <<< (y.toNat % n)) hself rfl a
  case srliw => exact does_genShiftImmW (f := fun n x y => x >>> (y.toNat % n)) hself rfl a
  case sraiw => exact does_genShiftImmW (f := fun n x y => x.sshiftRight (y.toNat % n)) hself rfl a

/-! ## Loads and stores -/

/-- The address of an access, in a temp that later local writes do not change. -/
theorem does_address (hself : Globals self C) (rs1 : Fin 32) (imm : BitVec 64)
    {Q : Nat → Nat → State Guest → Prop}
    (h : ∀ t n' s', IsOld C n' t → s'.world = s.world →
      hartOf self C s' = hartOf self C s → val C s' t = (hartOf self C s).x rs1 + imm → Q t n' s') :
    Does (guestEffects rest) C (self.genAddr rs1 imm) Q n s := by
  unfold RiscvDisasContext.genAddr
  refine does_bind (does_gprOrZero hself fun base n1 hn1 hbase hx => ?_)
  split
  · refine does_bind (does_newConst fun c n2 hn2 hc => ?_)
    refine does_bind (does_newTemp fun ht => ?_)
    refine does_binary rfl (h _ _ _ (.inr (Nat.lt_succ_self _)) rfl ?_ ?_)
    · exact hartOf_setTemp hself ht _ _
    · rw [val_setTemp_self ht, hx, hc.val]
      rfl
  · rename_i hzero
    refine does_pure (h _ _ _ (.inl hbase) rfl rfl ?_)
    rw [hx, not_not.mp hzero]
    exact (BitVec.add_zero _).symm

theorem does_genLoad (hself : Globals self C) {memop : MemOp} {k : Nat} {signed : Bool}
    (hsize : memop.sizeBytes = k) (hsigned : memop.isSigned = signed)
    (hswap : memop.isBswap = false) (hk : k ≤ 8) (a : ArgsI) :
    Does (guestEffects rest) C (self.genLoad a memop) (Leaves self C s a.rd (extended signed k
      (littleEndian (hartOf self C s).mem ((hartOf self C s).x a.rs1 + a.imm) k))) n s := by
  refine does_bind (does_address hself a.rs1 a.imm fun addr n1 s1 haddr hworld hhart hval => ?_)
  refine does_bind (does_newTemp fun hdst => ?_)
  refine does_bind (does_qemuLd ?_)
  refine does_result hself hworld ((hartOf_setTemp hself hdst _ _).trans hhart) ?_
  have hmem : s1.world.mem = (hartOf self C s).mem := congrArg Guest.mem hworld
  rw [val_setTemp_self hdst, hval, hmem, loadValue_eq hsize hsigned hswap hk]

theorem does_load (hself : Globals self C) {trans : ArgsI → Gen Bool} {size : Nat × Bool}
    (htrans : transI self insn = some trans) (hsize : loadSize insn = some size) (a : ArgsI) :
    Does (guestEffects rest) C (trans a) (Leaves self C s a.rd (extended size.2 size.1
      (littleEndian (hartOf self C s).mem ((hartOf self C s).x a.rs1 + a.imm) size.1))) n s := by
  cases insn <;> cases htrans <;> cases hsize
  all_goals exact does_genLoad hself rfl rfl rfl (by decide) a

/-- The translation ends well with other contents of memory, and nothing else changed. -/
def Stores (self : RiscvDisasContext) (C : Context) (s : State Guest) (mem : GuestMemory)
    (ok : Bool) (_ : Nat) (s' : State Guest) : Prop :=
  ok = true ∧ s'.world = { s.world with mem := mem } ∧
    hartOf self C s' = { hartOf self C s with mem := mem }

theorem does_genStore (hself : Globals self C) {memop : MemOp} {k : Nat}
    (hsize : memop.sizeBytes = k) (hswap : memop.isBswap = false) (a : ArgsS) :
    Does (guestEffects rest) C (self.genStore a memop) (Stores self C s
      (stored (hartOf self C s).mem ((hartOf self C s).x a.rs1 + a.imm) k
        ((hartOf self C s).x a.rs2))) n s := by
  refine does_bind (does_address hself a.rs1 a.imm fun addr n1 s1 haddr hworld hhart hval => ?_)
  refine does_bind (does_gprOrZero hself fun value n2 _ _ hvalue => ?_)
  refine does_bind (does_qemuSt (does_pure ⟨rfl, ?_, ?_⟩))
  all_goals
    have hmem : s1.world.mem = (hartOf self C s).mem := congrArg Guest.mem hworld
    rw [hval, hvalue, hmem, hhart, storeValue_eq hsize hswap]
  · unfold setMem
    rw [hworld]
  · rw [hartOf_setMem, hhart]

theorem does_store (hself : Globals self C) {trans : ArgsS → Gen Bool} {size : Nat}
    (htrans : transS self insn = some trans) (hsize : storeSize insn = some size) (a : ArgsS) :
    Does (guestEffects rest) C (trans a) (Stores self C s (stored (hartOf self C s).mem
      ((hartOf self C s).x a.rs1 + a.imm) size ((hartOf self C s).x a.rs2))) n s := by
  cases insn <;> cases htrans <;> cases hsize
  all_goals exact does_genStore hself rfl rfl a

end

/-! ## Jumps -/

theorem setsBelow_gprOrZero {k : Nat} (r : Fin 32) : SetsBelow k (self.gprOrZero r) := by
  unfold RiscvDisasContext.gprOrZero
  split
  · exact setsBelow_newConst _ _
  · exact setsBelow_pure _

theorem setsBelow_genSetGpr {k : Nat} (rd : Fin 32) (t : Nat) :
    SetsBelow k (self.genSetGpr rd t) := by
  unfold RiscvDisasContext.genSetGpr
  split
  · exact setsBelow_bind (setsBelow_emitTo (by decide) _ _ _) fun _ => setsBelow_pure _
  · exact setsBelow_pure _

theorem val_setGpr_local (hself : Globals self C) {t : Nat} (ht : IsLocal C t) (rd : Fin 32)
    (v : BitVec 64) : val C (setGpr self s rd v) t = val C s t := by
  unfold setGpr
  split
  · rfl
  · exact val_setTemp_of_ne (IsFixed.ne (.inl (hself.gpr_lt rd)) ht).symm s v

/-- The block is left for another one, with a hart whose program counter has its address. -/
def Jumps (self : RiscvDisasContext) (C : Context) (s : State Guest) (h : Hart)
    (r : Bool × DisasJumpType) (exit : Exit) (s' : State Guest) : Prop :=
  r = (true, .noReturn) ∧ (∃ slot ≤ TB_EXIT_NOCHAIN, exit = .exitTb slot) ∧
    s'.world = s.world ∧ cpuOf self C s' = { cpuOf self C s with hart := h }

/-- The last ops of a jump, after ops that left the hart `h` up to the program counter. -/
theorem quits_chainedExit (hself : Globals self C) {s' : State Guest} {h : Hart}
    {target : BitVec 64} {slot exit : Nat} (hexit : exit ≤ TB_EXIT_NOCHAIN)
    (hworld : s'.world = s.world) (hcpu : Cpu.setPc (cpuOf self C s') target =
      { cpuOf self C s with hart := h }) :
    Quits (guestEffects rest) C
      (do self.genChainedExit target slot exit; return (true, DisasJumpType.noReturn))
      (Jumps self C s h) n s' := by
  refine quits_return ?_
  refine quits_bind (setsBelow_newConst _ _) (does_newConst fun c n1 _ hc => ?_)
  refine quits_bind (setsBelow_emitTo (by decide) _ _ _) (does_mov ?_)
  refine quits_bind (setsBelow_gotoTb slot) (does_gotoTb (quits_exitTb ?_))
  refine ⟨rfl, ⟨exit, hexit, ?_⟩, hworld, ?_⟩
  · rw [Nat.mod_eq_of_lt (lt_of_le_of_lt hexit (by decide))]
  · rw [cpuOf_setPc hself, hc.val, hcpu]

theorem quits_transJal (hself : Globals self C) (a : ArgsJ) :
    Quits (guestEffects rest) C (self.transJal a) (Jumps self C s
      { (hartOf self C s).setReg a.rd self.link with pc := self.base.pcNext + a.imm }) n s := by
  refine quits_bind (setsBelow_newConst _ _) (does_newConst fun c n1 _ hc => ?_)
  refine quits_bind (setsBelow_genSetGpr _ _) (does_genSetGpr ?_)
  refine quits_chainedExit hself (by decide) (setGpr_world _ _ _) ?_
  rw [cpuOf_setGpr hself, hc.val]
  rfl

/-- The target is computed before rd is written, so the registers may be the same. -/
theorem quits_transJalr (hself : Globals self C) (a : ArgsI) :
    Quits (guestEffects rest) C (self.transJalr a) (Jumps self C s
      { (hartOf self C s).setReg a.rd self.link with
        pc := ((hartOf self C s).x a.rs1 + a.imm) &&& ~~~1 }) n s := by
  refine quits_bind (setsBelow_gprOrZero _) (does_gprOrZero hself fun src n1 _ _ hx => ?_)
  refine quits_bind (setsBelow_newConst _ _) (does_newConst fun imm n2 _ himm => ?_)
  refine quits_bind (setsBelow_newTemp _) (does_newTemp fun htmp => ?_)
  refine quits_bind (setsBelow_emitTo (by decide) _ _ _) (does_binary rfl ?_)
  refine quits_bind (setsBelow_newConst _ _) (does_newConst fun mask n3 _ hmask => ?_)
  refine quits_bind (setsBelow_emitTo (by decide) _ _ _) (does_binary rfl ?_)
  refine quits_bind (setsBelow_newConst _ _) (does_newConst fun c n4 _ hc => ?_)
  refine quits_bind (setsBelow_genSetGpr _ _) (does_genSetGpr ?_)
  refine quits_bind (setsBelow_emitTo (by decide) _ _ _) (does_mov ?_)
  refine quits_return (quits_exitTb ?_)
  rw [val_setGpr_local hself htmp, val_setTemp_self htmp, val_setTemp_self htmp, hx, himm.val,
    hmask.val, hc.val]
  refine ⟨rfl, ⟨TB_EXIT_NOCHAIN, le_rfl, rfl⟩, ?_, ?_⟩
  · have hworld (s' : State Guest) (v : BitVec 64) : (setGpr self s' a.rd v).world = s'.world :=
      setGpr_world s' a.rd v
    exact hworld _ _
  · rw [cpuOf_setPc hself, cpuOf_setGpr hself, cpuOf_setTemp hself htmp, cpuOf_setTemp hself htmp]
    rfl

/-- A trap leaves the address of the instruction itself in the program counter. -/
theorem quits_genTrap (hself : Globals self C) {exit : Nat} (hexit : exit < 2 ^ 32) :
    Quits (guestEffects rest) C (self.genTrap exit) (fun r e s' => r = (true, .noReturn) ∧
      e = .exitTb exit ∧ s'.world = s.world ∧
      cpuOf self C s' = Cpu.setPc (cpuOf self C s) self.base.pcNext) n s := by
  refine quits_bind (setsBelow_newConst _ _) (does_newConst fun c n1 _ hc => ?_)
  refine quits_bind (setsBelow_emitTo (by decide) _ _ _) (does_mov ?_)
  refine quits_return (quits_exitTb ⟨rfl, ?_, rfl, ?_⟩)
  · rw [Nat.mod_eq_of_lt hexit]
  · rw [cpuOf_setPc hself, hc.val]

/-! ## Branches -/

/-- The part of a branch behind the reads of its operands. -/
def branchTail (self : RiscvDisasContext) (imm : BitVec 64) (c : Cond) (src1 src2 : Nat) :
    Gen (Bool × DisasJumpType) := do
  let taken ← newLabel
  genBrCond .i64 src1 src2 c taken
  self.genChainedExit self.link 0 TB_EXIT_IDX0
  genSetLabel taken
  self.genChainedExit (self.base.pcNext + imm) 1 TB_EXIT_IDX1
  return (true, .noReturn)

/-- Its ops: `next` and `target` are constants. -/
def branchOps (self : RiscvDisasContext) (c : Cond) (src1 src2 taken next target : Nat) : List Op :=
  [Op.withArgs .brCond .i64 [src1, src2, c.code, taken], Op.withArgs .mov .i64 [self.pc, next],
    Op.withArgs .gotoTb .i64 [0], Op.withArgs .exitTb .i64 [0], Op.withArgs .setLabel .i64 [taken],
    Op.withArgs .mov .i64 [self.pc, target], Op.withArgs .gotoTb .i64 [1],
    Op.withArgs .exitTb .i64 [1]]

theorem branchTail_ops {b : Builder} {imm : BitVec 64} {c : Cond} {src1 src2 : Nat}
    (hC : ((branchTail self imm c src1 src2).run b).2.ctx.Extends C) :
    ∃ next target, IsConst C next self.link ∧ IsConst C target (self.base.pcNext + imm) ∧
      ((branchTail self imm c src1 src2).run b).2.ops =
        b.ops ++ branchOps self c src1 src2 b.nbLabels next target := by
  let b₁ := ((do let taken ← newLabel; genBrCond .i64 src1 src2 c taken : Gen Unit).run b).2
  let b₂ := ((do self.genChainedExit self.link 0 TB_EXIT_IDX0
                 genSetLabel b.nbLabels : Gen Unit).run b₁).2
  have hrest : ((newConst .i64 self.link).run b₁).2.ctx.Extends
      ((newConst .i64 (self.base.pcNext + imm)).run b₂).2.ctx :=
    ((newConst .i64 (self.base.pcNext + imm)).extends_run b₂).ctx
  refine ⟨_, _, isConst_newConst (hrest.trans hC), isConst_newConst (b := b₂) hC, ?_⟩
  have hops₁ := (newConst_ops .i64 self.link b₁).1
  have hops₂ := (newConst_ops .i64 (self.base.pcNext + imm) b₂).1
  have hb₁ : b₁.ops = b.ops ++ [Op.withArgs .brCond .i64 [src1, src2, c.code, b.nbLabels]] := rfl
  have hb₂ : b₂.ops = ((newConst .i64 self.link).run b₁).2.ops ++
      [Op.withArgs .mov .i64 [self.pc, ((newConst .i64 self.link).run b₁).1]] ++
      [Op.withArgs .gotoTb .i64 [0]] ++ [Op.withArgs .exitTb .i64 [0]] ++
      [Op.withArgs .setLabel .i64 [b.nbLabels]] := rfl
  have hrun : ((branchTail self imm c src1 src2).run b).2.ops =
      ((newConst .i64 (self.base.pcNext + imm)).run b₂).2.ops ++
      [Op.withArgs .mov .i64 [self.pc, ((newConst .i64 (self.base.pcNext + imm)).run b₂).1]] ++
      [Op.withArgs .gotoTb .i64 [1]] ++ [Op.withArgs .exitTb .i64 [1]] := rfl
  rw [hrun, hops₂, hb₂, hops₁, hb₁]
  simp only [List.append_assoc]
  rfl

section
variable {E : Effects Guest} {c : Cond} {src1 src2 taken next target : Nat} {front back : List Op}

/-- Control at the first op: to the label, or to the op behind. -/
theorem nextPc_branch (hfront : LabelsBelow taken front) :
    nextPc C (front ++ (branchOps self c src1 src2 taken next target ++ back)) (front.length + 0)
      (Op.withArgs .brCond .i64 [src1, src2, c.code, taken]) s =
        some (.inl (front.length + if condHolds c (val C s src1) (val C s src2) then 4 else 1)) := by
  have hpos : labelPos (front ++ (branchOps self c src1 src2 taken next target ++ back)) taken =
      some (front.length + 4) := by
    refine labelPos_append hfront ?_ (i := 4) rfl rfl rfl
    intro op hop hset
    simp only [branchOps, List.take, List.mem_cons, List.not_mem_nil, or_false] at hop
    rcases hop with rfl | rfl | rfl | rfl <;> cases hset
  have hnext : nextPc C (front ++ (branchOps self c src1 src2 taken next target ++ back))
      (front.length + 0) (Op.withArgs .brCond .i64 [src1, src2, c.code, taken]) s =
        if condAtType .i64 (condOfCarg c.code) (val C s src1) (val C s src2) = true then
          (labelPos (front ++ (branchOps self c src1 src2 taken next target ++ back)) taken).map .inl
        else some (.inl (front.length + 0 + 1)) := rfl
  have hcond : condAtType .i64 c (val C s src1) (val C s src2) =
      condHolds c (val C s src1) (val C s src2) := rfl
  rw [hnext, hpos, condOfCarg_code, hcond]
  split <;> rfl

theorem exits_branchOps (hfront : LabelsBelow taken front) :
    Exits E C (front ++ (branchOps self c src1 src2 taken next target ++ back)) front.length s
      (.exitTb (if condHolds c (val C s src1) (val C s src2) then 1 else 0))
      (setTemp s self.pc (val C s
        (if condHolds c (val C s src1) (val C s src2) then target else next))) := by
  have hget : ∀ {i : Nat} {op : Op},
      (branchOps self c src1 src2 taken next target)[i]? = some op →
      (front ++ (branchOps self c src1 src2 taken next target ++ back))[front.length + i]? =
        some op := getElem?_append_add
  have hbranch := reaches_step (E := E) (C := C) (s := s) (hget (i := 0) rfl)
    (nextPc_branch hfront)
  split at hbranch
  · rename_i hcond
    rw [if_pos hcond, if_pos hcond]
    refine exits_of_reaches hbranch ?_
    refine exits_of_reaches (reaches_step (hget (i := 4) rfl) rfl) ?_
    refine exits_of_reaches (reaches_step (hget (i := 5) rfl) rfl) ?_
    refine exits_of_reaches (reaches_step (hget (i := 6) rfl) rfl) ?_
    exact exits_step (hget (i := 7) rfl) rfl
  · rename_i hcond
    rw [if_neg hcond, if_neg hcond]
    refine exits_of_reaches hbranch ?_
    refine exits_of_reaches (reaches_step (hget (i := 1) rfl) rfl) ?_
    refine exits_of_reaches (reaches_step (hget (i := 2) rfl) rfl) ?_
    exact exits_step (hget (i := 3) rfl) rfl

end

theorem quits_genBranch (hself : Globals self C) {c : Cond}
    {taken : BitVec 64 → BitVec 64 → Bool} (hc : ∀ x y : BitVec 64, condHolds c x y = taken x y)
    (a : ArgsB) :
    Quits (guestEffects rest) C (self.genBranch a c) (Jumps self C s { hartOf self C s with
      pc := if taken ((hartOf self C s).x a.rs1) ((hartOf self C s).x a.rs2) then
        self.base.pcNext + a.imm else self.link }) n s := by
  refine quits_bind (setsBelow_gprOrZero _) (does_gprOrZero hself fun s1 n1 _ _ hx => ?_)
  refine quits_bind (setsBelow_gprOrZero _) (does_gprOrZero hself fun s2 n2 _ _ hy => ?_)
  show Quits _ C (branchTail self a.imm c s1 s2) _ _ _
  intro b _ hb hC
  obtain ⟨next, target, hnext, htarget, hops⟩ := branchTail_ops hC
  have hexits : ∀ back, Exits (guestEffects rest) C
      (((branchTail self a.imm c s1 s2).run b).2.ops ++ back) b.ops.length s
      (.exitTb (if condHolds c (val C s s1) (val C s s2) then 1 else 0))
      (setTemp s self.pc (val C s
        (if condHolds c (val C s s1) (val C s s2) then target else next))) := by
    intro back
    rw [hops, List.append_assoc]
    exact exits_branchOps hb
  refine ⟨_, _, ?_, hexits⟩
  refine ⟨rfl, ⟨_, ?_, rfl⟩, rfl, ?_⟩
  · split <;> decide
  · rw [cpuOf_setPc hself, hx, hy, hc]
    split
    · rw [htarget.val]
      rfl
    · rw [hnext.val]
      rfl

theorem quits_transB (hself : Globals self C) {insn : Insn}
    {trans : ArgsB → Gen (Bool × DisasJumpType)} {taken : BitVec 64 → BitVec 64 → Bool}
    (htrans : transB self insn = some trans) (htaken : branchTaken insn = some taken) (a : ArgsB) :
    Quits (guestEffects rest) C (trans a) (Jumps self C s { hartOf self C s with
      pc := if taken ((hartOf self C s).x a.rs1) ((hartOf self C s).x a.rs2) then
        self.base.pcNext + a.imm else self.link }) n s := by
  cases insn <;> cases htrans <;> cases htaken
  case beq => exact quits_genBranch (c := .eq) hself (fun _ _ => rfl) a
  case bne =>
    have hc : ∀ x y : BitVec 64, condHolds .ne x y = decide (x ≠ y) :=
      fun x y => (decide_not (p := x = y)).symm
    exact quits_genBranch hself hc a
  case blt => exact quits_genBranch (c := .lt) hself (fun _ _ => rfl) a
  case bge =>
    have hc : ∀ x y : BitVec 64, condHolds .ge x y = decide (y.toInt ≤ x.toInt) := by
      intro x y
      show (!decide (x.toInt < y.toInt)) = _
      rw [← decide_not, decide_eq_decide]
      exact Int.not_lt
    exact quits_genBranch hself hc a
  case bltu => exact quits_genBranch (c := .ltu) hself (fun _ _ => rfl) a
  case bgeu =>
    have hc : ∀ x y : BitVec 64, condHolds .geu x y = decide (y.toNat ≤ x.toNat) := by
      intro x y
      show (!decide (x.toNat < y.toNat)) = _
      rw [← decide_not, decide_eq_decide]
      exact Nat.not_lt
    exact quits_genBranch hself hc a

end TcgRs.Analysis.IntCode
