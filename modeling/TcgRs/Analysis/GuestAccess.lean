import TcgRs.Analysis.GuestCode

/-!
# Access to guest memory

Words in memory, and rules for the ops that load and store them.
-/

set_option autoImplicit false

namespace TcgRs.Analysis.GuestAccess

open TcgRs.Model TcgRs.Model.Ir TcgRs.Model.Riscv TcgRs.Interface.Ir TcgRs.Interface.RiscvExec
open GeneratedCode GuestCode

/-! ## Words -/

theorem ofBytes_word (b₀ b₁ b₂ b₃ : BitVec 8) :
    (ofBytes [b₀, b₁, b₂, b₃]).setWidth 32 = b₃ ++ b₂ ++ b₁ ++ b₀ := by
  apply BitVec.eq_of_getLsbD_eq
  intro i hi
  have hzero : (0 : BitVec 64).getLsbD (i - 8 - 8 - 8 - 8) = false := BitVec.getLsbD_zero
  simp only [ofBytes, BitVec.getLsbD_setWidth, BitVec.getLsbD_or, BitVec.getLsbD_shiftLeft,
    BitVec.getLsbD_append]
  grind

theorem loadValue_sl (mem : GuestMemory) (addr : BitVec 64) :
    loadValue .sl mem addr = (wordAt mem addr).signExtend 64 := by
  have hbytes : loadValue .sl mem addr = ((ofBytes [mem (addr + 0#64), mem (addr + 1),
    mem (addr + 2), mem (addr + 3)]).setWidth 32).signExtend 64 := rfl
  rw [hbytes, ofBytes_word, BitVec.add_zero]
  rfl

/-- An address by its distance from another one. -/
theorem eq_add_iff (a addr : BitVec 64) {i : Nat} (hi : i < 2 ^ 64) :
    a = addr + BitVec.ofNat 64 i ↔ (a - addr).toNat = i := by
  constructor
  · rintro rfl
    rw [BitVec.add_comm, BitVec.add_sub_cancel, BitVec.toNat_ofNat, Nat.mod_eq_of_lt hi]
  · intro h
    have hdist : a - addr = BitVec.ofNat 64 i := by
      apply BitVec.eq_of_toNat_eq
      rw [h, BitVec.toNat_ofNat, Nat.mod_eq_of_lt hi]
    rw [← hdist, BitVec.add_comm, BitVec.sub_add_cancel]

theorem storeValue_sl (mem : GuestMemory) (addr val : BitVec 64) :
    storeValue .sl mem addr val = setWord mem addr (val.setWidth 32) := by
  have hbytes : storeValue .sl mem addr val = fun a => [val.extractLsb' 0 8, val.extractLsb' 8 8,
    val.extractLsb' 16 8, val.extractLsb' 24 8].getD (a - addr).toNat (mem a) := rfl
  have hlow : ∀ i, i + 8 ≤ 32 → (val.setWidth 32).extractLsb' i 8 = val.extractLsb' i 8 := by
    intro i hi
    apply BitVec.eq_of_getLsbD_eq
    intro j hj
    simp only [BitVec.getLsbD_extractLsb', BitVec.getLsbD_setWidth]
    grind
  rw [hbytes]
  funext a
  unfold setWord
  rw [hlow 0 (by decide), hlow 8 (by decide), hlow 16 (by decide), hlow 24 (by decide)]
  have h₀ : a = addr ↔ (a - addr).toNat = 0 := by
    rw [← eq_add_iff a addr (by decide), BitVec.add_zero]
  have h₁ : a = addr + 1 ↔ (a - addr).toNat = 1 := eq_add_iff a addr (by decide)
  have h₂ : a = addr + 2 ↔ (a - addr).toNat = 2 := eq_add_iff a addr (by decide)
  have h₃ : a = addr + 3 ↔ (a - addr).toNat = 3 := eq_add_iff a addr (by decide)
  simp only [h₀, h₁, h₂, h₃]
  match (a - addr).toNat with
  | 0 | 1 | 2 | 3 => rfl
  | k + 4 => rfl

theorem add_ne_self (addr : BitVec 64) {i : BitVec 64} (hi : i ≠ 0) : addr + i ≠ addr :=
  fun h => hi (BitVec.add_right_eq_self.mp h)

/-- Words written to the same address leave the same memory only if they are equal. -/
theorem setWord_inj {mem : GuestMemory} {addr : BitVec 64} {x y : BitVec 32}
    (h : setWord mem addr x = setWord mem addr y) : x = y := by
  have hread : ∀ word : BitVec 32, wordAt (setWord mem addr word) addr = word := by
    intro word
    unfold wordAt setWord
    have hne : ∀ i j : BitVec 64, i ≠ j → addr + i ≠ addr + j :=
      fun i j hij heq => hij ((BitVec.add_right_inj addr).mp heq)
    rw [if_pos rfl, if_neg (add_ne_self addr (by decide)), if_pos rfl,
      if_neg (add_ne_self addr (by decide)), if_neg (hne 2 1 (by decide)), if_pos rfl,
      if_neg (add_ne_self addr (by decide)), if_neg (hne 3 1 (by decide)),
      if_neg (hne 3 2 (by decide)), if_pos rfl]
    apply BitVec.eq_of_getLsbD_eq
    intro i hi
    simp only [BitVec.getLsbD_append, BitVec.getLsbD_extractLsb']
    grind
  rw [← hread x, h, hread y]

/-! ## Rules -/

variable {self : RiscvDisasContext} {C : Context} {rest : Effects Guest} {n : Nat}
  {s : State Guest}

/-- The state with another memory. -/
def setMem (s : State Guest) (mem : GuestMemory) : State Guest :=
  { s with world := { s.world with mem := mem } }

theorem val_setMem (mem : GuestMemory) (t : Nat) : val C (setMem s mem) t = val C s t := rfl

theorem hartOf_setMem (mem : GuestMemory) :
    hartOf self C (setMem s mem) = { hartOf self C s with mem := mem } := rfl

theorem memOp_ofNat (memop : MemOp) : (⟨.ofNat 16 memop.bits.toNat⟩ : MemOp) = memop :=
  congrArg MemOp.mk ((BitVec.ofNat_toNat 16 memop.bits).trans (BitVec.setWidth_eq memop.bits))

theorem does_qemuLd {d addr : Nat} {memop : MemOp} {Q : Nat → Nat → State Guest → Prop}
    (h : Q d n (setTemp s d (loadValue memop s.world.mem (val C s addr)))) :
    Does (guestEffects rest) C (genQemuLd .i64 d addr memop) Q n s := by
  refine does_emitTo rfl ?_
  have hexec : execOp (guestEffects rest) C
      (Op.withArgs .qemuLd .i64 [d, addr, memop.bits.toNat]) s = setTemp s d
        (loadValue ⟨.ofNat 16 memop.bits.toNat⟩ s.world.mem (val C s addr)) := rfl
  rw [hexec, memOp_ofNat]
  exact h

theorem does_qemuSt {value addr : Nat} {memop : MemOp} {Q : Unit → Nat → State Guest → Prop}
    (h : Q () n (setMem s (storeValue memop s.world.mem (val C s addr) (val C s value)))) :
    Does (guestEffects rest) C (genQemuSt .i64 value addr memop) Q n s := by
  refine does_emitOp rfl ?_
  have hexec : execOp (guestEffects rest) C
      (Op.withArgs .qemuSt .i64 [value, addr, memop.bits.toNat]) s = setMem s
        (storeValue ⟨.ofNat 16 memop.bits.toNat⟩ s.world.mem (val C s addr) (val C s value)) := rfl
  rw [hexec, memOp_ofNat]
  exact h

theorem does_mb {barType : Nat} {Q : Unit → Nat → State Guest → Prop} (h : Q () n s) :
    Does (guestEffects rest) C (genMb barType) Q n s := does_emitOp rfl h

theorem does_genRelease {a : ArgsAtomic} {Q : Unit → Nat → State Guest → Prop} (h : Q () n s) :
    Does (guestEffects rest) C (RiscvDisasContext.genRelease a) Q n s := by
  unfold RiscvDisasContext.genRelease
  split
  · exact does_mb h
  · exact does_pure h

theorem does_genAcquire {a : ArgsAtomic} {Q : Unit → Nat → State Guest → Prop} (h : Q () n s) :
    Does (guestEffects rest) C (RiscvDisasContext.genAcquire a) Q n s := by
  unfold RiscvDisasContext.genAcquire
  split
  · exact does_mb h
  · exact does_pure h

end TcgRs.Analysis.GuestAccess
