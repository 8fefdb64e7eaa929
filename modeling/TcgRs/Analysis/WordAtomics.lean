import TcgRs.Analysis.GuestAccess

/-!
# Word atomics

The word is loaded sign-extended and combined with all of rs2 at 64 bits.  The low word of a sum, a
bitwise operation or a swap only depends on low words; an order comparison also sees the upper half
of rs2.
-/

set_option autoImplicit false

namespace TcgRs.Analysis.WordAtomics

open TcgRs.Model TcgRs.Model.Ir TcgRs.Model.Riscv TcgRs.Interface.Ir TcgRs.Interface.RiscvExec
open TcgRs.Interface.RiscvIsa GeneratedCode GuestCode GuestAccess

/-! ## Low words -/

section

variable (x : BitVec 32) (y : BitVec 64)

theorem low_sext : (x.signExtend 64).setWidth 32 = x := by
  apply BitVec.eq_of_getLsbD_eq
  intro i hi
  rw [BitVec.getLsbD_setWidth, BitVec.getLsbD_signExtend]
  grind

theorem low_add : (x.signExtend 64 + y).setWidth 32 = x + y.setWidth 32 := by
  rw [BitVec.setWidth_add _ _ (by decide), low_sext]

theorem low_xor : (x.signExtend 64 ^^^ y).setWidth 32 = x ^^^ y.setWidth 32 := by
  rw [BitVec.setWidth_xor, low_sext]

theorem low_and : (x.signExtend 64 &&& y).setWidth 32 = x &&& y.setWidth 32 := by
  rw [BitVec.setWidth_and, low_sext]

theorem low_or : (x.signExtend 64 ||| y).setWidth 32 = x ||| y.setWidth 32 := by
  rw [BitVec.setWidth_or, low_sext]

theorem toNat_low : (y.setWidth 32).toNat = y.toNat % 2 ^ 32 := BitVec.toNat_setWidth 32 y

theorem toNat_sext : (x.signExtend 64).toNat =
    if x.toNat < 2 ^ 31 then x.toNat else x.toNat + (2 ^ 64 - 2 ^ 32) := by
  have hx := x.isLt
  rw [BitVec.toNat_signExtend, BitVec.toNat_setWidth, BitVec.msb_eq_decide]
  by_cases h : x.toNat < 2 ^ 31
  · rw [if_pos h, if_neg (by simpa using h)]
    omega
  · rw [if_neg h, if_pos (by simpa using h)]
    omega

end

/-! ## Comparisons -/

/-- The larger of two words by a strict order, or the smaller one. -/
theorem select_eq_iff {p q : Bool} {x y : BitVec 32} :
    (if p then x else y) = (if q then x else y) ↔ p = q ∨ x = y := by
  cases p <;> cases q <;> simp [eq_comm]

/-- Where the 64-bit order of the sign-extended old word and rs2 picks the same word as the order of
the words. -/
def ordersAgree (insn : Insn) (old : BitVec 32) (rs2 : BitVec 64) : Prop :=
  let word := rs2.setWidth 32
  match insn with
  | .amominw | .amomaxw =>
    (rs2.toInt < 2 ^ 31 ∨ old.toInt ≤ word.toInt) ∧ (-2 ^ 31 ≤ rs2.toInt ∨ word.toInt ≤ old.toInt)
  | .amominuw | .amomaxuw =>
    if old.toNat < 2 ^ 31 then rs2.toNat < 2 ^ 32 ∨ old.toNat ≤ word.toNat
    else 2 ^ 64 - 2 ^ 32 ≤ rs2.toNat ∨ word.toNat ≤ old.toNat
  | _ => True

/-- A doubleword and its low word differ by a multiple of 2^32. -/
theorem toInt_low (y : BitVec 64) : ∃ k : Int, y.toInt = (y.setWidth 32).toInt + k * 2 ^ 32 := by
  have hy := BitVec.toInt_eq_toNat_cond y
  have hlow := BitVec.toInt_eq_toNat_cond (y.setWidth 32)
  rw [toNat_low] at hlow
  refine ⟨(y.toInt - (y.setWidth 32).toInt) / 2 ^ 32, ?_⟩
  split at hy <;> split at hlow <;> omega

/-- Signed comparisons: rs2 is the sign extension of its low word, or beyond all words on a side
where its low word is too. -/
theorem signed_agree_iff (x : BitVec 32) (y : BitVec 64) :
    (((x.toInt < y.toInt ↔ x.toInt < (y.setWidth 32).toInt) ∨ x = y.setWidth 32) ↔
      ordersAgree .amominw x y) ∧
    (((y.toInt < x.toInt ↔ (y.setWidth 32).toInt < x.toInt) ∨ x = y.setWidth 32) ↔
      ordersAgree .amomaxw x y) := by
  obtain ⟨k, hk⟩ := toInt_low y
  have hx := BitVec.le_toInt x
  have hx' := BitVec.toInt_lt (x := x)
  have hlow := BitVec.le_toInt (y.setWidth 32)
  have hlow' := BitVec.toInt_lt (x := y.setWidth 32)
  rw [← BitVec.toInt_inj]
  dsimp only [ordersAgree]
  generalize x.toInt = X at *
  generalize (y.setWidth 32).toInt = L at *
  generalize y.toInt = Y at *
  constructor <;> omega

/-- Unsigned comparisons: the sign extension of the old word is below or above the doublewords that
its upper half does not start. -/
theorem unsigned_agree_iff (x : BitVec 32) (y : BitVec 64) :
    ((((x.signExtend 64).toNat < y.toNat ↔ x.toNat < (y.setWidth 32).toNat) ∨
      x = y.setWidth 32) ↔ ordersAgree .amominuw x y) ∧
    (((y.toNat < (x.signExtend 64).toNat ↔ (y.setWidth 32).toNat < x.toNat) ∨
      x = y.setWidth 32) ↔ ordersAgree .amomaxuw x y) := by
  have hx := x.isLt
  have hy := y.isLt
  rw [← BitVec.toNat_inj]
  dsimp only [ordersAgree]
  rw [toNat_low, toNat_sext]
  constructor <;> split <;> omega

/-! ## The stored word -/

/-- What the code stores: the operation on the sign-extended old word and all of rs2. -/
def wideValue (insn : Insn) (x y : BitVec 64) : BitVec 64 :=
  match insn with
  | .amoaddw => x + y
  | .amoxorw => x ^^^ y
  | .amoandw => x &&& y
  | .amoorw => x ||| y
  | .amominw => if condHolds .lt x y then x else y
  | .amomaxw => if condHolds .gt x y then x else y
  | .amominuw => if condHolds .ltu x y then x else y
  | .amomaxuw => if condHolds .gtu x y then x else y
  | _ => y

/-- A selection between doublewords agrees with one between words. -/
theorem low_select_iff {p : Bool} {q : Prop} [Decidable q] (x : BitVec 32) (y : BitVec 64) :
    (if p then x.signExtend 64 else y).setWidth 32 = (if q then x else y.setWidth 32) ↔
      (p = true ↔ q) ∨ x = y.setWidth 32 := by
  rw [apply_ite (BitVec.setWidth 32), low_sext]
  by_cases hp : p = true <;> by_cases hq : q <;> simp [hp, hq, eq_comm]

theorem toInt_sext (x : BitVec 32) : (x.signExtend 64).toInt = x.toInt :=
  BitVec.toInt_signExtend_of_le (by decide)

theorem lt_holds {w : Nat} (x y : BitVec w) : condHolds .lt x y = true ↔ x.toInt < y.toInt :=
  BitVec.slt_iff_toInt_lt

theorem gt_holds {w : Nat} (x y : BitVec w) : condHolds .gt x y = true ↔ y.toInt < x.toInt := by
  show (!x.sle y) = true ↔ _
  rw [Bool.not_eq_true', ← Bool.not_eq_true, BitVec.sle_iff_toInt_le, not_le]

theorem ltu_holds {w : Nat} (x y : BitVec w) : condHolds .ltu x y = true ↔ x.toNat < y.toNat :=
  BitVec.ult_iff_lt

theorem gtu_holds {w : Nat} (x y : BitVec w) : condHolds .gtu x y = true ↔ y.toNat < x.toNat := by
  show (!x.ule y) = true ↔ _
  rw [Bool.not_eq_true', ← Bool.not_eq_true, BitVec.ule_iff_le, BitVec.le_def, not_le]

/-- The larger word, with the comparison the other way round. -/
theorem max_swap {α β : Type} [LinearOrder β] {key : α → β} (hkey : ∀ x y, key x = key y → x = y)
    (x y : α) : (if key x < key y then y else x) = if key y < key x then x else y := by
  rcases lt_trichotomy (key x) (key y) with h | h | h
  · rw [if_pos h, if_neg (not_lt_of_gt h)]
  · have heq := hkey x y h
    subst heq
    rw [ite_self]
  · rw [if_neg (not_lt_of_gt h), if_pos h]

theorem stored_word_iff {insn : Insn} {f : BitVec 32 → BitVec 32 → BitVec 32}
    (h : amoWord insn = some f) (x : BitVec 32) (y : BitVec 64) :
    (wideValue insn (x.signExtend 64) y).setWidth 32 = f x (y.setWidth 32) ↔
      ordersAgree insn x y := by
  cases insn <;> cases h
  case amoswapw => exact iff_of_true rfl trivial
  case amoaddw => exact iff_of_true (low_add x y) trivial
  case amoxorw => exact iff_of_true (low_xor x y) trivial
  case amoandw => exact iff_of_true (low_and x y) trivial
  case amoorw => exact iff_of_true (low_or x y) trivial
  case amominw =>
    rw [← (signed_agree_iff x y).1]
    refine (low_select_iff x y).trans (or_congr_left (iff_congr ?_ (lt_holds _ _)))
    rw [lt_holds, toInt_sext]
  case amomaxw =>
    rw [← (signed_agree_iff x y).2]
    have hmax : (if x.slt (y.setWidth 32) then y.setWidth 32 else x) =
        if (y.setWidth 32).toInt < x.toInt then x else y.setWidth 32 := by
      rw [← max_swap (fun _ _ => BitVec.eq_of_toInt_eq)]
      exact if_congr (lt_holds _ _) rfl rfl
    refine (Eq.congr_right hmax).trans ?_
    refine (low_select_iff x y).trans (or_congr_left (iff_congr ?_ .rfl))
    rw [gt_holds, toInt_sext]
  case amominuw =>
    rw [← (unsigned_agree_iff x y).1]
    exact (low_select_iff x y).trans (or_congr_left (iff_congr (ltu_holds _ _) (ltu_holds _ _)))
  case amomaxuw =>
    rw [← (unsigned_agree_iff x y).2]
    have hmax : (if x.ult (y.setWidth 32) then y.setWidth 32 else x) =
        if (y.setWidth 32).toNat < x.toNat then x else y.setWidth 32 := by
      rw [← max_swap (fun _ _ => BitVec.eq_of_toNat_eq)]
      exact if_congr (ltu_holds _ _) rfl rfl
    refine (Eq.congr_right hmax).trans ?_
    exact (low_select_iff x y).trans (or_congr_left (iff_congr (gtu_holds _ _) .rfl))

/-! ## Generated code -/

variable {self : RiscvDisasContext} {C : Context} {rest : Effects Guest} {n : Nat}
  {s : State Guest}

/-- The translation ends well with `stored` at `addr` and the old value in `rd`. -/
def Swaps (self : RiscvDisasContext) (C : Context) (s : State Guest) (memop : MemOp)
    (a : ArgsAtomic) (value : BitVec 64 → BitVec 64 → BitVec 64) (ok : Bool) (_ : Nat)
    (s' : State Guest) : Prop :=
  let h := hartOf self C s
  let old := loadValue memop h.mem (h.x a.rs1)
  ok = true ∧ s'.world.trapped = s.world.trapped ∧ s'.world.host = s.world.host ∧
    hartOf self C s' = { h with mem := storeValue memop h.mem (h.x a.rs1) (value old (h.x a.rs2)) }.setReg a.rd old

/-- The store and the last ops of an atomic. -/
theorem does_storeResult (hself : Globals self C) {s' : State Guest} {a : ArgsAtomic}
    {memop : MemOp} {value : BitVec 64 → BitVec 64 → BitVec 64} {addr old new : Nat}
    (hworld : s'.world = s.world) (hhart : hartOf self C s' = hartOf self C s)
    (haddr : val C s' addr = (hartOf self C s).x a.rs1)
    (hold : val C s' old = loadValue memop s.world.mem ((hartOf self C s).x a.rs1))
    (hnew : val C s' new = value (loadValue memop s.world.mem ((hartOf self C s).x a.rs1))
      ((hartOf self C s).x a.rs2)) :
    Does (guestEffects rest) C
      (do genQemuSt .i64 new addr memop
          RiscvDisasContext.genAcquire a
          self.genSetGpr a.rd old
          return true)
      (Swaps self C s memop a value) n s' := by
  refine does_bind (does_qemuSt ?_)
  refine does_bind (does_genAcquire ?_)
  refine does_bind (does_genSetGpr (does_pure ⟨rfl, ?_, ?_, ?_⟩))
  · rw [setGpr_world]
    show s'.world.trapped = s.world.trapped
    rw [hworld]
  · rw [setGpr_world]
    show s'.world.host = s.world.host
    rw [hworld]
  · rw [hartOf_setGpr hself, hartOf_setMem, val_setMem, hhart, haddr, hold, hnew, hworld]
    rfl

/-- Load, one op and store. -/
theorem does_genAmo (hself : Globals self C) (a : ArgsAtomic) (memop : MemOp) {opc : Opcode}
    {f : ∀ n : Nat, BitVec n → BitVec n → BitVec n} (hopc : binaryOp opc = some f) :
    Does (guestEffects rest) C (self.genAmo a (emitBinary opc) memop)
      (Swaps self C s memop a (f 64)) n s := by
  unfold RiscvDisasContext.genAmo
  refine does_bind (does_gprOrZero hself fun addr n1 hn1 haddr hx => ?_)
  refine does_bind (does_genRelease ?_)
  refine does_bind (does_newTemp fun hold => ?_)
  refine does_bind (does_qemuLd ?_)
  refine does_bind (does_gprOrZero hself fun src2 n2 hn2 hsrc2 hy => ?_)
  rw [hartOf_setTemp hself hold] at hy
  refine does_bind (does_newTemp fun hnew => ?_)
  refine does_bind (does_binary hopc ?_)
  refine does_storeResult hself rfl ?_ ?_ ?_ ?_
  · rw [hartOf_setTemp hself hnew, hartOf_setTemp hself hold]
  · rw [val_setTemp_fixed haddr hnew, val_setTemp_fixed haddr hold, hx]
  · rw [val_setTemp_of_ne (by omega), val_setTemp_self hold, hx]
  · rw [val_setTemp_self hnew, val_setTemp_self hold, hy, hx]
    rfl

theorem does_genAmoSwap (hself : Globals self C) (a : ArgsAtomic) (memop : MemOp) :
    Does (guestEffects rest) C (self.genAmoSwap a memop)
      (Swaps self C s memop a (fun _ y => y)) n s := by
  unfold RiscvDisasContext.genAmoSwap
  refine does_bind (does_gprOrZero hself fun addr n1 hn1 haddr hx => ?_)
  refine does_bind (does_genRelease ?_)
  refine does_bind (does_newTemp fun hold => ?_)
  refine does_bind (does_qemuLd ?_)
  refine does_bind (does_gprOrZero hself fun src2 n2 hn2 hsrc2 hy => ?_)
  rw [hartOf_setTemp hself hold] at hy
  refine does_storeResult hself rfl (hartOf_setTemp hself hold _ _) ?_ ?_ hy
  · rw [val_setTemp_fixed haddr hold, hx]
  · rw [val_setTemp_self hold, hx]

/-- Load, select and store. -/
theorem does_genAmoMinmax (hself : Globals self C) (a : ArgsAtomic) (cond : Cond) (memop : MemOp) :
    Does (guestEffects rest) C (self.genAmoMinmax a cond memop)
      (Swaps self C s memop a (fun x y => if condHolds cond x y then x else y)) n s := by
  unfold RiscvDisasContext.genAmoMinmax
  refine does_bind (does_gprOrZero hself fun addr n1 hn1 haddr hx => ?_)
  refine does_bind (does_genRelease ?_)
  refine does_bind (does_newTemp fun hold => ?_)
  refine does_bind (does_qemuLd ?_)
  refine does_bind (does_gprOrZero hself fun src2 n2 hn2 hsrc2 hy => ?_)
  rw [hartOf_setTemp hself hold] at hy
  refine does_bind (does_newTemp fun hnew => ?_)
  refine does_bind (does_movCond ?_)
  refine does_storeResult hself rfl ?_ ?_ ?_ ?_
  · rw [hartOf_setTemp hself hnew, hartOf_setTemp hself hold]
  · rw [val_setTemp_fixed haddr hnew, val_setTemp_fixed haddr hold, hx]
  · rw [val_setTemp_of_ne (by omega), val_setTemp_self hold, hx]
  · rw [val_setTemp_self hnew, val_setTemp_self hold, hy, hx]
    rfl

/-- Each translation stores the wide value. -/
theorem does_transAmoW (hself : Globals self C) {insn : Insn} {trans : ArgsAtomic → Gen Bool}
    (htrans : transAmoW self insn = some trans) (hext : self.cfg.misa.contains .A = true)
    (a : ArgsAtomic) :
    Does (guestEffects rest) C (trans a) (Swaps self C s .sl a (wideValue insn)) n s := by
  cases insn <;> cases htrans
  case amoswapw => exact does_requireExt hext (does_genAmoSwap hself a .sl)
  case amoaddw =>
    refine does_requireExt hext (does_genAmo (f := fun _ x y => x + y) hself a .sl rfl)
  case amoxorw =>
    refine does_requireExt hext (does_genAmo (f := fun _ x y => x ^^^ y) hself a .sl rfl)
  case amoandw =>
    refine does_requireExt hext (does_genAmo (f := fun _ x y => x &&& y) hself a .sl rfl)
  case amoorw =>
    refine does_requireExt hext (does_genAmo (f := fun _ x y => x ||| y) hself a .sl rfl)
  case amominw => exact does_requireExt hext (does_genAmoMinmax hself a .lt .sl)
  case amomaxw => exact does_requireExt hext (does_genAmoMinmax hself a .gt .sl)
  case amominuw => exact does_requireExt hext (does_genAmoMinmax hself a .ltu .sl)
  case amomaxuw => exact does_requireExt hext (does_genAmoMinmax hself a .gtu .sl)

theorem ext_of_transAmoW {insn : Insn} {trans : ArgsAtomic → Gen Bool} {a : ArgsAtomic}
    {b b' : Builder} (htrans : transAmoW self insn = some trans)
    (hrun : (trans a).run b = (true, b')) : self.cfg.misa.contains .A = true := by
  cases insn <;> cases htrans <;> exact ext_of_run hrun

/-! ## The result -/

/-- What the code leaves: the word of the wide value in memory and the old word in rd. -/
theorem atomic_leaves {dc self : RiscvDisasContext} {b₀ b b' : Builder} {insn : Insn}
    {trans : ArgsAtomic → Gen Bool} {a : ArgsAtomic}
    (hinit : initDisasContext dc .new = some (self, b₀)) (hb : b₀.Extends b)
    (htrans : transAmoW self insn = some trans) (hrun : (trans a).run b = (true, b'))
    {C : Context} (hC : b'.ctx.Extends C) (rest : Effects Guest) (s : State Guest) :
    ∃ s', Interprets (guestEffects rest) C (newOps b b') s s' ∧
      s'.world.trapped = s.world.trapped ∧ s'.world.host = s.world.host ∧
      hartOf self C s' = (hartOf self C s).amo (fun old _ => (wideValue insn (old.signExtend 64)
        ((hartOf self C s).x a.rs2)).setWidth 32) a := by
  have hself := globals_of_run hinit hb hrun hC
  have hext := ext_of_transAmoW htrans hrun
  have hdoes : Does (guestEffects rest) C (trans a) (Swaps self C s .sl a (wideValue insn))
      b.ctx.nbTemps s := does_transAmoW hself htrans hext a
  obtain ⟨s', hs', -, htrap, hhost, hhart⟩ := hdoes.interprets hrun hC
  rw [loadValue_sl, storeValue_sl] at hhart
  exact ⟨s', hs', htrap, hhost, hhart⟩

/-- Atomics that store different words leave different harts. -/
theorem amo_eq_iff (h : Hart) (f g : BitVec 32 → BitVec 32 → BitVec 32) (a : ArgsAtomic) :
    h.amo f a = h.amo g a ↔
      f (wordAt h.mem (h.x a.rs1)) ((h.x a.rs2).setWidth 32) =
        g (wordAt h.mem (h.x a.rs1)) ((h.x a.rs2).setWidth 32) := by
  constructor
  · intro heq
    exact setWord_inj (congrArg Hart.mem heq)
  · intro hword
    exact congrArg (fun word => ({ h with mem := setWord h.mem (h.x a.rs1) word } : Hart).setReg
      a.rd ((wordAt h.mem (h.x a.rs1)).signExtend 64)) hword

/-- The code does what the specification says where the comparison of the sign-extended old word
with all of rs2 picks the right word; `amoswap`, `amoadd` and the bitwise operations always do. -/
theorem word_atomic_iff {dc self : RiscvDisasContext} {b₀ b b' : Builder} {insn : Insn}
    {trans : ArgsAtomic → Gen Bool} {f : BitVec 32 → BitVec 32 → BitVec 32} {a : ArgsAtomic}
    (hinit : initDisasContext dc .new = some (self, b₀)) (hb : b₀.Extends b)
    (htrans : transAmoW self insn = some trans) (hf : amoWord insn = some f)
    (hrun : (trans a).run b = (true, b')) {C : Context} (hC : b'.ctx.Extends C)
    (rest : Effects Guest) (s : State Guest) :
    (∃ s', Interprets (guestEffects rest) C (newOps b b') s s' ∧
      s'.world.trapped = s.world.trapped ∧ s'.world.host = s.world.host ∧
      hartOf self C s' = (hartOf self C s).amo f a) ↔
      ordersAgree insn (wordAt s.world.mem ((hartOf self C s).x a.rs1))
        ((hartOf self C s).x a.rs2) := by
  obtain ⟨s₁, hs₁, htrap, hhost, hhart⟩ := atomic_leaves hinit hb htrans hrun hC rest s
  refine Iff.trans ?_ (stored_word_iff hf _ _)
  refine Iff.trans ?_ (amo_eq_iff (hartOf self C s) (fun old _ => (wideValue insn
    (old.signExtend 64) ((hartOf self C s).x a.rs2)).setWidth 32) f a)
  constructor
  · rintro ⟨s₂, hs₂, -, -, hspec⟩
    rw [← hhart, hs₁.unique hs₂, hspec]
  · intro hword
    exact ⟨s₁, hs₁, htrap, hhost, hhart.trans hword⟩

/-- `amoadd.w x1, x3, (x2)`, in a fresh block. -/
theorem word_atomic_iff_amoadd : ∃ self b₀ b' s',
    initDisasContext allExtensions .new = some (self, b₀) ∧
      (self.transAmoaddW ⟨0, 0, 1, 2, 3⟩).run b₀ = (true, b') ∧
      Interprets (guestEffects noEffects) b'.ctx (newOps b₀ b') blankState s' ∧
      s'.world.trapped = false ∧ s'.world.host = blankState.world.host ∧
      hartOf self b'.ctx s' =
        (hartOf self b'.ctx blankState).amo (fun x y => x + y) ⟨0, 0, 1, 2, 3⟩ := by
  have h : ((initDisasContext allExtensions .new).any fun p =>
      ((p.1.transAmoaddW ⟨0, 0, 1, 2, 3⟩).run p.2).1) = true := by decide
  rw [Option.any_eq_true] at h
  obtain ⟨⟨self, b₀⟩, hinit, hok⟩ := h
  have hrun : (self.transAmoaddW ⟨0, 0, 1, 2, 3⟩).run b₀ =
      (true, ((self.transAmoaddW ⟨0, 0, 1, 2, 3⟩).run b₀).2) := Prod.ext hok rfl
  have htrans : transAmoW self .amoaddw = some self.transAmoaddW := rfl
  have hf : amoWord .amoaddw = some fun x y => x + y := rfl
  obtain ⟨s', hs', htrap, hhost, hhart⟩ :=
    (word_atomic_iff hinit (.refl b₀) htrans hf hrun (.refl _) noEffects blankState).mpr trivial
  exact ⟨self, b₀, _, s', hinit, hrun, hs', htrap, hhost, hhart⟩

/-- A machine with 2^31 in the temp of x3. -/
def largeState (self : RiscvDisasContext) : State Guest := setTemp blankState (self.gpr 3) 0x80000000

/-- `amomin.w x1, x3, (x2)` on the old word 0 and the low word -2^31, above which the upper half of
x3 is zero, does not store the smaller word. -/
theorem amomin_keeps_larger : ∃ self b₀ b',
    initDisasContext allExtensions .new = some (self, b₀) ∧
      (self.transAmominW ⟨0, 0, 1, 2, 3⟩).run b₀ = (true, b') ∧
      ¬∃ s', Interprets (guestEffects noEffects) b'.ctx (newOps b₀ b') (largeState self) s' ∧
        s'.world.trapped = false ∧ s'.world.host = (largeState self).world.host ∧
        hartOf self b'.ctx s' = (hartOf self b'.ctx (largeState self)).amo
          (fun x y => if x.slt y then x else y) ⟨0, 0, 1, 2, 3⟩ := by
  have h : ((initDisasContext allExtensions .new).any fun p =>
      ((p.1.transAmominW ⟨0, 0, 1, 2, 3⟩).run p.2).1) = true := by decide
  rw [Option.any_eq_true] at h
  obtain ⟨⟨self, b₀⟩, hinit, hok⟩ := h
  have hrun : (self.transAmominW ⟨0, 0, 1, 2, 3⟩).run b₀ =
      (true, ((self.transAmominW ⟨0, 0, 1, 2, 3⟩).run b₀).2) := Prod.ext hok rfl
  have htrans : transAmoW self .amominw = some self.transAmominW := rfl
  refine ⟨self, b₀, _, hinit, hrun, ?_⟩
  rintro ⟨s₂, hs₂, -, -, hspec⟩
  obtain ⟨s₁, hs₁, -, -, hhart⟩ :=
    atomic_leaves hinit (.refl b₀) htrans hrun (.refl _) noEffects (largeState self)
  have hself := globals_of_run hinit (.refl b₀) hrun (.refl _)
  have hx : (hartOf self ((self.transAmominW ⟨0, 0, 1, 2, 3⟩).run b₀).2.ctx (largeState self)).x 3
      = 0x80000000 := valueOf_update_self (hself.var _ (hself.gpr_lt 3)) _ _
  rw [← hs₁.unique hs₂, hhart, amo_eq_iff] at hspec
  have hold : ∀ addr, wordAt (hartOf self ((self.transAmominW ⟨0, 0, 1, 2, 3⟩).run b₀).2.ctx
      (largeState self)).mem addr = 0 := by
    intro addr
    show (0 : BitVec 8) ++ (0 : BitVec 8) ++ (0 : BitVec 8) ++ (0 : BitVec 8) = (0 : BitVec 32)
    decide
  dsimp only at hspec
  rw [hx, hold] at hspec
  revert hspec
  decide

end TcgRs.Analysis.WordAtomics
