import TcgRs.Analysis.BranchFolding

/-!
# The values the optimizer folds to

Each fold of the optimizer against the meaning of the op it replaces, on operand values: the
evaluation of unary, conversion and binary ops on constants, the algebraic simplifications and
the same-operand identities.
-/

set_option autoImplicit false

namespace TcgRs.Analysis.FoldValues

open Model.Ir Model.Optimize Interface.Ir BranchFolding

/-! ## Masks -/

/-- Masking to a type is reading at its width. -/
theorem and_typeMask (ty : IrType) (a : BitVec 64) :
    a &&& typeMask ty = atType ty (fun _ x => x) a := by
  unfold atType
  split
  · rename_i h
    rw [h, and_typeMask_i32]
  · have hmask : typeMask ty = BitVec.allOnes 64 := by
      cases ty <;> first | rfl | contradiction
    rw [hmask, BitVec.and_allOnes]

theorem setWidth_setWidth_64 (x : BitVec 32) : (x.setWidth 64).setWidth 32 = x := by
  simp

theorem setWidth_signExtend_64 (x : BitVec 32) : (x.signExtend 64).setWidth 32 = x := by
  ext i hi
  simp only [BitVec.getElem_setWidth, BitVec.getLsbD_signExtend]
  rw [if_pos hi, BitVec.getLsbD_eq_getElem hi]
  simp
  omega

/-- Masking the result of an op changes nothing. -/
theorem atType_and_typeMask (ty : IrType) (f : ∀ n : Nat, BitVec n → BitVec n) (a : BitVec 64) :
    atType ty f a &&& typeMask ty = atType ty f a := by
  rw [and_typeMask]
  unfold atType
  split <;> simp

theorem atType₂_and_typeMask (ty : IrType) (f : ∀ n : Nat, BitVec n → BitVec n → BitVec n)
    (a b : BitVec 64) : atType₂ ty f a b &&& typeMask ty = atType₂ ty f a b := by
  rw [and_typeMask]
  unfold atType atType₂
  split <;> simp

/-! ## Constants -/

theorem evalUnary_eq {opc : Opcode} (hopc : opc = .neg ∨ opc = .not)
    {f : ∀ n : Nat, BitVec n → BitVec n} (hf : unaryOp opc = some f) (a : BitVec 64)
    (ty : IrType) : evalUnary opc a ty = atType ty f a := by
  unfold evalUnary
  rw [and_typeMask]
  unfold atType
  rcases hopc with rfl | rfl <;> simp only [unaryOp, Option.some_inj] at hf <;> subst hf
  · simp [BitVec.setWidth_neg_of_le]
  · simp [BitVec.setWidth_not]

theorem evalExt_eq {opc : Opcode} {f : BitVec 64 → BitVec 64} (hf : convertOp opc = some f)
    (a : BitVec 64) : evalExt opc a = f a := by
  cases opc <;> simp only [convertOp, Option.some_inj, reduceCtorEq] at hf <;> subst hf
  · rfl
  · exact and_typeMask_i32 a
  · exact and_typeMask_i32 a
  · apply BitVec.eq_of_toNat_eq
    have hmask := and_typeMask_i32 (a >>> 32)
    simp only [typeMask] at hmask
    simp only [evalExt, hmask, BitVec.toNat_setWidth, BitVec.toNat_ushiftRight]
    omega

/-- The type of the constant that a conversion folds to. -/
def convertedType (opc : Opcode) : IrType :=
  if opc = .extI32I64 ∨ opc = .extUI32I64 then .i64 else .i32

/-- The folded value of a conversion fits its type. -/
theorem evalExt_and_typeMask {opc : Opcode} {f : BitVec 64 → BitVec 64}
    (hf : convertOp opc = some f) (a : BitVec 64) :
    evalExt opc a &&& typeMask (convertedType opc) = evalExt opc a := by
  cases opc <;> simp only [convertOp, reduceCtorEq] at hf
  case extI32I64 | extUI32I64 => exact BitVec.and_allOnes
  case extrlI64I32 | extrhI64I32 =>
    simp only [evalExt, convertedType, typeMask, reduceCtorEq, or_self, if_false]
    rw [BitVec.and_assoc, BitVec.and_self]

/-- The binary ops that are evaluated on constants. -/
def evaluated : Opcode → Bool
  | .add | .sub | .mul | .and | .or | .xor | .andC | .shl | .shr | .sar | .rotL | .rotR => true
  | _ => false

/-- The count of a shift at a type that is not 32 bits wide. -/
theorem shift_count {ty : IrType} (hty : ty ≠ .i32) (b : BitVec 64) :
    (b.setWidth 32).toNat % ty.sizeBits % 64 = b.toNat % 64 := by
  have hdvd : 64 ∣ ty.sizeBits := by
    cases ty <;> first | contradiction | decide
  rw [Nat.mod_mod_of_dvd _ hdvd, BitVec.toNat_setWidth]
  omega

theorem evalBinary_wide {opc : Opcode} (hopc : evaluated opc = true)
    {f : ∀ n : Nat, BitVec n → BitVec n → BitVec n} (hf : binaryOp opc = some f) (a b : BitVec 64)
    {ty : IrType} (hty : ty ≠ .i32) : evalBinary opc a b ty = some (f 64 a b) := by
  have hmask : ∀ x : BitVec 64, x &&& typeMask ty = x := by
    intro x
    rw [and_typeMask, atType, if_neg hty]
  cases opc <;> simp only [evaluated, Bool.false_eq_true] at hopc <;>
    simp only [binaryOp, Option.some_inj] at hf <;> subst hf <;>
    simp only [evalBinary, Option.map_some, hmask, shift_count hty, if_neg hty]
  · rw [← BitVec.rotateLeft_mod_eq_rotateLeft, shift_count hty]
  · rw [← BitVec.rotateRight_mod_eq_rotateRight, shift_count hty]

theorem evalBinary_i32 {opc : Opcode} (hopc : evaluated opc = true)
    {f : ∀ n : Nat, BitVec n → BitVec n → BitVec n} (hf : binaryOp opc = some f) (x y : BitVec 32) :
    evalBinary opc (x.setWidth 64) (y.setWidth 64) .i32 = some ((f 32 x y).setWidth 64) := by
  have hcount : y.toNat % 32 % 64 = y.toNat % 32 := by omega
  cases opc <;> simp only [evaluated, Bool.false_eq_true] at hopc <;>
    simp only [binaryOp, Option.some_inj] at hf <;> subst hf <;>
    simp only [evalBinary, Option.map_some, and_typeMask_i32, if_true, setWidth_setWidth_64,
      IrType.sizeBits, hcount, Option.some_inj]
  case add => rw [BitVec.setWidth_add _ _ (by decide), setWidth_setWidth_64, setWidth_setWidth_64]
  case sub =>
    rw [BitVec.sub_eq_add_neg, BitVec.setWidth_add _ _ (by decide),
      BitVec.setWidth_neg_of_le (by decide), setWidth_setWidth_64, setWidth_setWidth_64,
      BitVec.sub_eq_add_neg]
  case mul => rw [BitVec.setWidth_mul _ _ (by decide), setWidth_setWidth_64, setWidth_setWidth_64]
  case shr => rw [← BitVec.setWidth_ushiftRight (by decide), setWidth_setWidth_64]
  case sar => rw [setWidth_signExtend_64]
  all_goals simp

/-- Two constants fold to the value of the op. -/
theorem evalBinary_eq {opc : Opcode} (hopc : evaluated opc = true)
    {f : ∀ n : Nat, BitVec n → BitVec n → BitVec n} (hf : binaryOp opc = some f) (a b : BitVec 64)
    (ty : IrType) :
    evalBinary opc (a &&& typeMask ty) (b &&& typeMask ty) ty = some (atType₂ ty f a b) := by
  rw [and_typeMask, and_typeMask]
  unfold atType atType₂
  by_cases hty : ty = .i32
  · rw [if_pos hty, if_pos hty, if_pos hty, hty]
    exact evalBinary_i32 hopc hf _ _
  · rw [if_neg hty, if_neg hty, if_neg hty]
    exact evalBinary_wide hopc hf _ _ hty

/-! ## Simplifications -/

/-- A constant at the width of a type. -/
def constAt (ty : IrType) (c : ∀ n : Nat, BitVec n) : BitVec 64 :=
  if ty = .i32 then (c 32).setWidth 64 else c 64

theorem constAt_zero (ty : IrType) : constAt ty (fun _ => 0) = 0 := by
  unfold constAt
  split <;> rfl

theorem constAt_one (ty : IrType) : constAt ty (fun _ => 1) = 1 := by
  unfold constAt
  split <;> rfl

theorem constAt_allOnes (ty : IrType) : constAt ty BitVec.allOnes = typeMask ty := by
  cases ty <;> rfl

section

variable {ty : IrType} {c : ∀ n : Nat, BitVec n} (f : ∀ n : Nat, BitVec n → BitVec n → BitVec n)

theorem setWidth_eq_of_and_typeMask {y : BitVec 64} (h : y &&& typeMask ty = constAt ty c) :
    (ty = .i32 → y.setWidth 32 = c 32) ∧ (ty ≠ .i32 → y = c 64) := by
  rw [and_typeMask] at h
  unfold atType constAt at h
  constructor
  · intro hty
    rw [if_pos hty, if_pos hty] at h
    have h32 := congrArg (BitVec.setWidth 32) h
    simpa using h32
  · intro hty
    rw [if_neg hty, if_neg hty] at h
    exact h

/-- An op whose second operand is a constant at the op's width. -/
theorem atType₂_right {y : BitVec 64} (h : y &&& typeMask ty = constAt ty c) (x : BitVec 64) :
    atType₂ ty f x y = atType ty (fun n x => f n x (c n)) x := by
  have hy := setWidth_eq_of_and_typeMask h
  unfold atType₂ atType
  split
  · rename_i hty
    rw [hy.1 hty]
  · rename_i hty
    rw [hy.2 hty]

/-- An op whose first operand is a constant at the op's width. -/
theorem atType₂_left {x : BitVec 64} (h : x &&& typeMask ty = constAt ty c) (y : BitVec 64) :
    atType₂ ty f x y = atType ty (fun n y => f n (c n) y) y := by
  have hx := setWidth_eq_of_and_typeMask h
  unfold atType₂ atType
  split
  · rename_i hty
    rw [hx.1 hty]
  · rename_i hty
    rw [hx.2 hty]

end

theorem atType_const (ty : IrType) (c : ∀ n : Nat, BitVec n) (x : BitVec 64) :
    atType ty (fun n _ => c n) x = constAt ty c := rfl

/-- The value an op has after a simplification. -/
def simplifiedValue (ty : IrType) (value : Nat → BitVec 64) : Simplified → BitVec 64
  | .mov t => atType ty (fun _ x => x) (value t)
  | .const v => v &&& typeMask ty
  | .neg t => atType ty (fun _ x => -x) (value t)

/-- What justifies a simplification: with one operand the constant `c` the op `g` is the identity,
the negation, or the constant `d`, at every width. -/
def Justified (ty : IrType) (g : ∀ n : Nat, BitVec n → BitVec n) (t : Nat) (r : Simplified) : Prop :=
  (r = .mov t ∧ ∀ n x, g n x = x) ∨ (r = .neg t ∧ ∀ n x, g n x = -x) ∨
    ∃ d : ∀ n : Nat, BitVec n, r = .const (constAt ty d) ∧ ∀ n x, g n x = d n

theorem constAt_and_typeMask (ty : IrType) (c : ∀ n : Nat, BitVec n) :
    constAt ty c &&& typeMask ty = constAt ty c :=
  atType_and_typeMask ty (fun n _ => c n) 0

theorem simplifiedValue_of_justified {ty : IrType} {g : ∀ n : Nat, BitVec n → BitVec n} {t : Nat}
    {r : Simplified} (h : Justified ty g t r) (value : Nat → BitVec 64) :
    simplifiedValue ty value r = atType ty g (value t) := by
  have hcongr : ∀ g' : ∀ n : Nat, BitVec n → BitVec n, (∀ n x, g n x = g' n x) → g = g' := by
    intro g' hg
    funext n x
    exact hg n x
  rcases h with ⟨rfl, hg⟩ | ⟨rfl, hg⟩ | ⟨d, rfl, hg⟩
  · rw [hcongr _ hg]
    rfl
  · rw [hcongr _ hg]
    rfl
  · rw [hcongr (fun n _ => d n) hg]
    exact constAt_and_typeMask ty d

theorem rotateLeft_zero {n : Nat} (x : BitVec n) : x.rotateLeft 0 = x := by
  simp [BitVec.rotateLeft, BitVec.rotateLeftAux, BitVec.ushiftRight_eq_zero (Nat.le_refl n)]

theorem rotateRight_zero {n : Nat} (x : BitVec n) : x.rotateRight 0 = x := by
  simp [BitVec.rotateRight, BitVec.rotateRightAux]

theorem simplifyRight_justified {opc : Opcode} {f : ∀ n : Nat, BitVec n → BitVec n → BitVec n}
    (hf : binaryOp opc = some f) {ty : IrType} {a : Nat} {b : BitVec 64} {r : Simplified}
    (h : simplifyRight opc a b (typeMask ty) = some r) :
    ∃ c : ∀ n : Nat, BitVec n, b = constAt ty c ∧ Justified ty (fun n x => f n x (c n)) a r := by
  have h0 := (constAt_zero ty).symm
  have h1 := (constAt_one ty).symm
  have hones := (constAt_allOnes ty).symm
  cases opc <;> simp only [binaryOp, Option.some_inj, reduceCtorEq] at hf <;> subst hf <;>
    simp only [simplifyRight, reduceCtorEq] at h
  case add | sub | xor | shl | shr | sar | rotL | rotR =>
    split at h
    · rename_i hb
      cases h
      exact ⟨fun _ => 0, hb.trans h0, .inl ⟨rfl, by simp [rotateLeft_zero, rotateRight_zero]⟩⟩
    · cases h
  case mul =>
    split at h
    · rename_i hb
      cases h
      exact ⟨fun _ => 0, hb.trans h0, .inr (.inr ⟨fun _ => 0, by rw [constAt_zero], by simp⟩)⟩
    · split at h
      · rename_i hb
        cases h
        exact ⟨fun _ => 1, hb.trans h1, .inl ⟨rfl, by simp⟩⟩
      · cases h
  case and =>
    split at h
    · rename_i hb
      cases h
      exact ⟨fun _ => 0, hb.trans h0, .inr (.inr ⟨fun _ => 0, by rw [constAt_zero], by simp⟩)⟩
    · split at h
      · rename_i hb
        cases h
        exact ⟨BitVec.allOnes, hb.trans hones, .inl ⟨rfl, by simp⟩⟩
      · cases h
  case or =>
    split at h
    · rename_i hb
      cases h
      exact ⟨fun _ => 0, hb.trans h0, .inl ⟨rfl, by simp⟩⟩
    · split at h
      · rename_i hb
        cases h
        exact ⟨BitVec.allOnes, hb.trans hones,
          .inr (.inr ⟨BitVec.allOnes, by rw [constAt_allOnes], by simp⟩)⟩
      · cases h
  case andC =>
    split at h
    · rename_i hb
      cases h
      exact ⟨BitVec.allOnes, hb.trans hones, .inr (.inr ⟨fun _ => 0, by rw [constAt_zero], by simp⟩)⟩
    · cases h

theorem simplifyLeft_justified {opc : Opcode} {f : ∀ n : Nat, BitVec n → BitVec n → BitVec n}
    (hf : binaryOp opc = some f) {ty : IrType} {a : BitVec 64} {b : Nat} {r : Simplified}
    (h : simplifyLeft opc a b (typeMask ty) = some r) :
    ∃ c : ∀ n : Nat, BitVec n, a = constAt ty c ∧ Justified ty (fun n x => f n (c n) x) b r := by
  have h0 := (constAt_zero ty).symm
  have hones := (constAt_allOnes ty).symm
  cases opc <;> simp only [binaryOp, Option.some_inj, reduceCtorEq] at hf <;> subst hf <;>
    simp only [simplifyLeft, reduceCtorEq] at h
  case add =>
    split at h
    · rename_i ha
      cases h
      exact ⟨fun _ => 0, ha.trans h0, .inl ⟨rfl, by simp⟩⟩
    · cases h
  case sub =>
    split at h
    · rename_i ha
      cases h
      exact ⟨fun _ => 0, ha.trans h0, .inr (.inl ⟨rfl, by simp⟩)⟩
    · cases h
  case mul | and =>
    split at h
    · rename_i ha
      cases h
      exact ⟨fun _ => 0, ha.trans h0, .inr (.inr ⟨fun _ => 0, by rw [constAt_zero], by simp⟩)⟩
    · cases h
  case or =>
    split at h
    · rename_i ha
      cases h
      exact ⟨BitVec.allOnes, ha.trans hones,
        .inr (.inr ⟨BitVec.allOnes, by rw [constAt_allOnes], by simp⟩)⟩
    · cases h

theorem sameOperand_justified {opc : Opcode} {f : ∀ n : Nat, BitVec n → BitVec n → BitVec n}
    (hf : binaryOp opc = some f) (ty : IrType) {a b : Nat} {r : Simplified}
    (h : sameOperand opc a b = some r) : a = b ∧ Justified ty (fun n x => f n x x) a r := by
  unfold sameOperand at h
  split at h
  · rename_i hab
    refine ⟨hab, ?_⟩
    cases opc <;> simp only [binaryOp, Option.some_inj, reduceCtorEq] at hf <;> subst hf <;>
      simp only [Option.some_inj, reduceCtorEq] at h <;> subst h
    case and | or => exact .inl ⟨rfl, by simp⟩
    case xor | sub => exact .inr (.inr ⟨fun _ => 0, by rw [constAt_zero], by simp⟩)
  · cases h

/-- Why a binary op folds or simplifies as it does, when the facts about its operands are true:
both are constant, or a simplification of one of them is justified. -/
theorem binaryResult_cases {info : Facts} {op : Op} {value : Nat → BitVec 64}
    (hopc : evaluated op.opc = true) {f : ∀ n : Nat, BitVec n → BitVec n → BitVec n}
    (hf : binaryOp op.opc = some f)
    (hconst : ∀ t, (info t).isConst = true → value t = (info t).val) {r : Simplified}
    (h : binaryResult info op = some r) :
    r = .const (atType₂ op.opType f (value (op.args 1)) (value (op.args 2))) ∨
      ∃ t g, (t = op.args 1 ∨ t = op.args 2) ∧ Justified op.opType g t r ∧
        atType₂ op.opType f (value (op.args 1)) (value (op.args 2)) =
          atType op.opType g (value t) := by
  have hval : ∀ t, (info t).isConst = true → ∀ m, (info t).val &&& m = value t &&& m := by
    intro t ht m
    rw [hconst t ht]
  unfold binaryResult at h
  dsimp only at h
  rw [Option.or_eq_some_iff, Option.or_eq_some_iff] at h
  rcases h with (h | ⟨-, h⟩) | ⟨-, h⟩
  · split at h
    · rename_i hc
      rw [Bool.and_eq_true] at hc
      rw [hval _ hc.1, hval _ hc.2, evalBinary_eq hopc hf] at h
      cases h
      exact .inl rfl
    · cases h
  · unfold simplify at h
    dsimp only at h
    rw [Option.or_eq_some_iff] at h
    rcases h with h | ⟨-, h⟩
    · split at h
      · rename_i hc
        rw [hval _ hc] at h
        obtain ⟨c, hb, hj⟩ := simplifyRight_justified hf h
        exact .inr ⟨_, _, .inl rfl, hj, atType₂_right f hb _⟩
      · cases h
    · split at h
      · rename_i hc
        rw [hval _ hc] at h
        obtain ⟨c, ha, hj⟩ := simplifyLeft_justified hf h
        exact .inr ⟨_, _, .inr rfl, hj, atType₂_left f ha _⟩
      · cases h
  · obtain ⟨hab, hj⟩ := sameOperand_justified hf op.opType h
    refine .inr ⟨_, _, .inl rfl, hj, ?_⟩
    rw [← hab]
    rfl

/-- What a binary op folds or simplifies to has the value of the op, and reads only its
operands. -/
theorem binaryResult_value {info : Facts} {op : Op} {value : Nat → BitVec 64}
    (hopc : evaluated op.opc = true) {f : ∀ n : Nat, BitVec n → BitVec n → BitVec n}
    (hf : binaryOp op.opc = some f)
    (hconst : ∀ t, (info t).isConst = true → value t = (info t).val) {r : Simplified}
    (h : binaryResult info op = some r) :
    simplifiedValue op.opType value r =
        atType₂ op.opType f (value (op.args 1)) (value (op.args 2)) ∧
      ∀ t, r = .mov t ∨ r = .neg t → t = op.args 1 ∨ t = op.args 2 := by
  rcases binaryResult_cases hopc hf hconst h with rfl | ⟨t, g, ht, hj, hval⟩
  · refine ⟨atType₂_and_typeMask _ _ _ _, fun t ht => ?_⟩
    simp at ht
  · rw [hval]
    refine ⟨simplifiedValue_of_justified hj value, fun u hu => ?_⟩
    rcases hj with ⟨rfl, -⟩ | ⟨rfl, -⟩ | ⟨d, rfl, -⟩ <;> simp at hu <;> rw [← hu] <;> exact ht

end TcgRs.Analysis.FoldValues
