import TcgRs.Model.Ir.Context

/-!
# Building ops

The parts of `core/src/context.rs` that translation uses, and the emitters of
`core/src/ir_builder.rs`: temps, deduplicated constants, labels and the op list.  A builder carries
what every context between translations keeps: the table of constants names constants, and no
global is one.  A generator is a function on builders that only adds to them.
-/

set_option autoImplicit false

namespace TcgRs.Model.Ir

/-! ## Memory operations -/

/-- A memory operation: bits 1:0 are the logarithm of the size, bit 2 the sign, bit 3 a byte
swap. -/
structure MemOp where
  bits : BitVec 16
  deriving DecidableEq, Repr

namespace MemOp

def SIZE_8 : BitVec 16 := 0
def SIZE_16 : BitVec 16 := 1
def SIZE_32 : BitVec 16 := 2
def SIZE_64 : BitVec 16 := 3
def SIGN : BitVec 16 := 1 <<< 2
def BSWAP : BitVec 16 := 1 <<< 3

def ub : MemOp := ⟨SIZE_8⟩
def sb : MemOp := ⟨SIZE_8 ||| SIGN⟩
def uw : MemOp := ⟨SIZE_16⟩
def sw : MemOp := ⟨SIZE_16 ||| SIGN⟩
def ul : MemOp := ⟨SIZE_32⟩
def sl : MemOp := ⟨SIZE_32 ||| SIGN⟩
def uq : MemOp := ⟨SIZE_64⟩

def size (m : MemOp) : BitVec 16 := m.bits &&& 3
def isSigned (m : MemOp) : Bool := m.bits &&& SIGN != 0
def isBswap (m : MemOp) : Bool := m.bits &&& BSWAP != 0
def sizeBytes (m : MemOp) : Nat := 1 <<< m.size.toNat

end MemOp

/-! ## Builders -/

/-- The code of a condition in a constant argument. -/
def Cond.code : Cond → Nat
  | .never => 0
  | .always => 1
  | .eq => 8
  | .ne => 9
  | .lt => 10
  | .ge => 11
  | .le => 12
  | .gt => 13
  | .ltu => 14
  | .geu => 15
  | .leu => 16
  | .gtu => 17
  | .tstEq => 18
  | .tstNe => 19

@[simp] theorem Cond.ofCode_code (c : Cond) : Cond.ofCode c.code = some c := by cases c <;> rfl

/-- A context under construction: the temps, the constants by type and value, the ops and the
number of labels. -/
structure Builder where
  ctx : Context
  constTable : IrType → BitVec 64 → Option Nat
  ops : List Op
  nbLabels : Nat
  table_sound : ∀ ty val t, constTable ty val = some t →
    t < ctx.nbTemps ∧ (ctx.temps t).isConst = true ∧ (ctx.temps t).val = val
  globals_le : ctx.nbGlobals ≤ ctx.nbTemps
  globals_var : ∀ t < ctx.nbGlobals, (ctx.temps t).isConst = false

/-- `c'` has the temps of `c` and maybe more. -/
structure Context.Extends (c c' : Context) : Prop where
  globals_eq : c'.nbGlobals = c.nbGlobals
  temps_le : c.nbTemps ≤ c'.nbTemps
  temps_eq : ∀ t < c.nbTemps, c'.temps t = c.temps t

theorem Context.Extends.refl (c : Context) : c.Extends c := ⟨rfl, le_rfl, fun _ _ => rfl⟩

theorem Context.Extends.trans {c₁ c₂ c₃ : Context} (h : c₁.Extends c₂) (h' : c₂.Extends c₃) :
    c₁.Extends c₃ where
  globals_eq := h'.globals_eq.trans h.globals_eq
  temps_le := h.temps_le.trans h'.temps_le
  temps_eq t ht := (h'.temps_eq t (lt_of_lt_of_le ht h.temps_le)).trans (h.temps_eq t ht)

/-- `b'` is `b` with temps and ops appended. -/
structure Builder.Extends (b b' : Builder) : Prop where
  ctx : b.ctx.Extends b'.ctx
  ops : b.ops <+: b'.ops

theorem Builder.Extends.refl (b : Builder) : b.Extends b := ⟨.refl _, List.prefix_rfl⟩

theorem Builder.Extends.trans {b₁ b₂ b₃ : Builder} (h : b₁.Extends b₂) (h' : b₂.Extends b₃) :
    b₁.Extends b₃ := ⟨h.ctx.trans h'.ctx, h.ops.trans h'.ops⟩

/-- The context without temps. -/
def Context.new : Context where
  temps _ := Temp.newEbb .i64
  nbTemps := 0
  nbGlobals := 0
  frameReg := none
  frameStart := 0
  frameEnd := 0
  frameAllocEnd := 0

def Builder.new : Builder where
  ctx := .new
  constTable _ _ := none
  ops := []
  nbLabels := 0
  table_sound := nofun
  globals_le := Nat.le_refl 0
  globals_var := nofun

/-! ## Generators -/

/-- A function on builders that appends. -/
structure Gen (α : Type) where
  run : Builder → α × Builder
  extends_run : ∀ b : Builder, b.Extends (run b).2

instance : Monad Gen where
  pure a := ⟨fun b => (a, b), Builder.Extends.refl⟩
  bind g f := ⟨fun b => (f (g.run b).1).run (g.run b).2,
    fun b => (g.extends_run b).trans ((f (g.run b).1).extends_run _)⟩

@[simp] theorem Gen.run_pure {α : Type} (a : α) (b : Builder) :
    (pure a : Gen α).run b = (a, b) := rfl

@[simp] theorem Gen.run_bind {α β : Type} (g : Gen α) (f : α → Gen β) (b : Builder) :
    (g >>= f).run b = (f (g.run b).1).run (g.run b).2 := rfl

/-! ## Temps and labels -/

/-- The context with one more temp. -/
def Context.pushTemp (c : Context) (temp : Temp) : Context :=
  { c with temps := Function.update c.temps c.nbTemps temp, nbTemps := c.nbTemps + 1 }

theorem Context.extends_pushTemp (c : Context) (temp : Temp) : c.Extends (c.pushTemp temp) where
  globals_eq := rfl
  temps_le := Nat.le_succ _
  temps_eq _ ht := Function.update_of_ne (Nat.ne_of_lt ht) _ _

namespace Builder

theorem sound_pushTemp (b : Builder) (temp : Temp) {ty : IrType} {val : BitVec 64} {t : Nat}
    (h : b.constTable ty val = some t) : t < (b.ctx.pushTemp temp).nbTemps ∧
      ((b.ctx.pushTemp temp).temps t).isConst = true ∧
      ((b.ctx.pushTemp temp).temps t).val = val := by
  have hsound := b.table_sound ty val t h
  rw [(b.ctx.extends_pushTemp temp).temps_eq t hsound.1]
  exact ⟨Nat.lt_succ_of_lt hsound.1, hsound.2⟩

theorem globals_pushTemp (b : Builder) (temp : Temp) :
    ∀ t < (b.ctx.pushTemp temp).nbGlobals, ((b.ctx.pushTemp temp).temps t).isConst = false := by
  intro t ht
  rw [(b.ctx.extends_pushTemp temp).temps_eq t (lt_of_lt_of_le ht b.globals_le)]
  exact b.globals_var t ht

/-- A temp of any kind at the end. -/
def pushTemp (b : Builder) (temp : Temp) : Builder where
  ctx := b.ctx.pushTemp temp
  constTable := b.constTable
  ops := b.ops
  nbLabels := b.nbLabels
  table_sound _ _ _ := b.sound_pushTemp temp
  globals_le := Nat.le_succ_of_le b.globals_le
  globals_var := b.globals_pushTemp temp

/-- A new constant at the end, entered in the table. -/
def pushConst (b : Builder) (ty : IrType) (val : BitVec 64) : Builder where
  ctx := b.ctx.pushTemp (Temp.newConst ty val)
  constTable ty' val' :=
    if ty' = ty ∧ val' = val then some b.ctx.nbTemps else b.constTable ty' val'
  ops := b.ops
  nbLabels := b.nbLabels
  table_sound ty' val' t h := by
    split at h
    · rename_i heq
      injection h with h
      subst h
      have hnew : (b.ctx.pushTemp (Temp.newConst ty val)).temps b.ctx.nbTemps =
          Temp.newConst ty val := Function.update_self _ _ _
      rw [hnew, heq.2]
      exact ⟨Nat.lt_succ_self _, rfl, rfl⟩
    · exact b.sound_pushTemp _ h
  globals_le := Nat.le_succ_of_le b.globals_le
  globals_var := b.globals_pushTemp _

end Builder

/-- Allocate a new EBB-scoped temporary. -/
def newTemp (ty : IrType) : Gen Nat :=
  ⟨fun b => (b.ctx.nbTemps, b.pushTemp (Temp.newEbb ty)),
    fun b => ⟨b.ctx.extends_pushTemp _, List.prefix_rfl⟩⟩

/-- Get or create a constant temp (deduplicated per type). -/
def newConst (ty : IrType) (val : BitVec 64) : Gen Nat where
  run b :=
    match b.constTable ty val with
    | some existing => (existing, b)
    | none => (b.ctx.nbTemps, b.pushConst ty val)
  extends_run b := by
    split
    · exact .refl b
    · exact ⟨b.ctx.extends_pushTemp _, List.prefix_rfl⟩

def newLabel : Gen Nat :=
  ⟨fun b => (b.nbLabels, { b with nbLabels := b.nbLabels + 1 }),
    fun _ => ⟨.refl _, List.prefix_rfl⟩⟩

/-! ## Ops -/

def emitOp (op : Op) : Gen Unit :=
  ⟨fun b => ((), { b with ops := b.ops ++ [op] }), fun _ => ⟨.refl _, List.prefix_append _ _⟩⟩

/-- Emit an op that has a destination, and return it. -/
def emitTo (opc : Opcode) (ty : IrType) (dst : Nat) (args : List Nat) : Gen Nat := do
  emitOp (Op.withArgs opc ty (dst :: args))
  return dst

def emitBinary (opc : Opcode) (ty : IrType) (dst a b : Nat) : Gen Nat := emitTo opc ty dst [a, b]

def emitUnary (opc : Opcode) (ty : IrType) (dst src : Nat) : Gen Nat := emitTo opc ty dst [src]

/-- A binary IR operation: its type, destination and operands. -/
abbrev BinOp := IrType → Nat → Nat → Nat → Gen Nat

def genAdd : BinOp := emitBinary .add
def genSub : BinOp := emitBinary .sub
def genMul : BinOp := emitBinary .mul
def genAnd : BinOp := emitBinary .and
def genOr : BinOp := emitBinary .or
def genXor : BinOp := emitBinary .xor
def genShl : BinOp := emitBinary .shl
def genShr : BinOp := emitBinary .shr
def genSar : BinOp := emitBinary .sar

def genNeg (ty : IrType) (d s : Nat) : Gen Nat := emitUnary .neg ty d s
def genNot (ty : IrType) (d s : Nat) : Gen Nat := emitUnary .not ty d s
def genMov (ty : IrType) (d s : Nat) : Gen Nat := emitUnary .mov ty d s

/-- Sign-extend i32 to i64. -/
def genExtI32I64 (d s : Nat) : Gen Nat := emitUnary .extI32I64 .i64 d s

/-- Zero-extend i32 to i64. -/
def genExtUI32I64 (d s : Nat) : Gen Nat := emitUnary .extUI32I64 .i64 d s

/-- Truncate i64 to i32. -/
def genExtrlI64I32 (d s : Nat) : Gen Nat := emitUnary .extrlI64I32 .i32 d s

def genSetCond (ty : IrType) (d a b : Nat) (cond : Cond) : Gen Nat :=
  emitTo .setCond ty d [a, b, cond.code]

def genMovCond (ty : IrType) (d c1 c2 v1 v2 : Nat) (cond : Cond) : Gen Nat :=
  emitTo .movCond ty d [c1, c2, v1, v2, cond.code]

/-- Double-width division: quotient, remainder, low and high dividend, divisor. -/
def genDivS2 (ty : IrType) (dl dh al ah b : Nat) : Gen Unit :=
  emitOp (Op.withArgs .divS2 ty [dl, dh, al, ah, b])

def genDivU2 (ty : IrType) (dl dh al ah b : Nat) : Gen Unit :=
  emitOp (Op.withArgs .divU2 ty [dl, dh, al, ah, b])

/-- Widening multiplication: low and high product, factors. -/
def genMulS2 (ty : IrType) (dl dh a b : Nat) : Gen Unit :=
  emitOp (Op.withArgs .mulS2 ty [dl, dh, a, b])

def genMulU2 (ty : IrType) (dl dh a b : Nat) : Gen Unit :=
  emitOp (Op.withArgs .mulU2 ty [dl, dh, a, b])

/-- Memory barrier. -/
def genMb (barType : Nat) : Gen Unit := emitOp (Op.withArgs .mb .i64 [barType])

def genQemuLd (ty : IrType) (dst addr : Nat) (memop : MemOp) : Gen Nat :=
  emitTo .qemuLd ty dst [addr, memop.bits.toNat]

def genQemuSt (ty : IrType) (val addr : Nat) (memop : MemOp) : Gen Unit :=
  emitOp (Op.withArgs .qemuSt ty [val, addr, memop.bits.toNat])

/-- Load a field of a host structure: `carg(offset as u32)`. -/
def genLd (ty : IrType) (dst base : Nat) (offset : Int) : Gen Nat :=
  emitTo .ld ty dst [base, (BitVec.ofInt 32 offset).toNat]

def genSt (ty : IrType) (src base : Nat) (offset : Int) : Gen Unit :=
  emitOp (Op.withArgs .st ty [src, base, (BitVec.ofInt 32 offset).toNat])

/-- Call a helper with up to six arguments. -/
def genCall (dst : Nat) (helper : BitVec 64) (args : List Nat) : Gen Nat := do
  let c0 ← newConst .i64 0
  let arg := fun i => args.getD i c0
  emitOp (Op.withArgs .call .i64 [dst, arg 0, arg 1, arg 2, arg 3, arg 4, arg 5,
    (helper.setWidth 32).toNat, ((helper >>> 32).setWidth 32).toNat])
  return dst

/-! ## Control flow -/

def genBrCond (ty : IrType) (a b : Nat) (cond : Cond) (label : Nat) : Gen Unit :=
  emitOp (Op.withArgs .brCond ty [a, b, cond.code, label])

def genSetLabel (label : Nat) : Gen Unit := emitOp (Op.withArgs .setLabel .i64 [label])

def genGotoTb (tbIdx : Nat) : Gen Unit := emitOp (Op.withArgs .gotoTb .i64 [tbIdx])

/-- The start of a guest instruction, its pc in two arguments. -/
def genInsnStart (pc : BitVec 64) : Gen Unit :=
  emitOp (Op.withArgs .insnStart .i64 [(pc.setWidth 32).toNat, ((pc >>> 32).setWidth 32).toNat])

/-- `carg(val as u32)`. -/
def genExitTb (val : Nat) : Gen Unit := emitOp (Op.withArgs .exitTb .i64 [val % 2 ^ 32])

end TcgRs.Model.Ir
