import TcgRs.Model.Riscv.Context

/-!
# RISC-V instruction translation

The translation functions of `frontend/src/riscv/trans.rs` for the M and A extensions.
-/

set_option autoImplicit false
set_option linter.constructorNameAsVariable false

namespace TcgRs.Model.Riscv

open Ir

structure ArgsR where
  rd : Fin 32
  rs1 : Fin 32
  rs2 : Fin 32

structure ArgsAtomic where
  aq : BitVec 64
  rl : BitVec 64
  rd : Fin 32
  rs1 : Fin 32
  rs2 : Fin 32

namespace RiscvDisasContext

variable (self : RiscvDisasContext)

/-! ## Division -/

/-- Signed division.  The divisors 0 and -1 are replaced by 1, which neither traps nor overflows,
and their results are selected afterwards. -/
def genDivRem (a : ArgsR) (wantRem : Bool) : Gen Bool := do
  let s1 ← self.gprOrZero a.rs1
  let s2 ← self.gprOrZero a.rs2
  let zero ← newConst .i64 0
  let one ← newConst .i64 1
  let neg1 ← newConst .i64 (-1)
  let safe ← newTemp .i64
  let _ ← genMovCond .i64 safe s2 zero one s2 .eq
  let _ ← genMovCond .i64 safe safe neg1 one safe .eq
  let ah ← newTemp .i64
  let c63 ← newConst .i64 63
  let _ ← genSar .i64 ah s1 c63
  let quot ← newTemp .i64
  let rem ← newTemp .i64
  genDivS2 .i64 quot rem s1 ah safe
  if wantRem then
    let r ← newTemp .i64
    let _ ← genMovCond .i64 r s2 zero s1 rem .eq
    let _ ← genMovCond .i64 r s2 neg1 zero r .eq
    self.genSetGpr a.rd r
  else
    let negS1 ← newTemp .i64
    let _ ← genNeg .i64 negS1 s1
    let r ← newTemp .i64
    let _ ← genMovCond .i64 r s2 zero neg1 quot .eq
    let _ ← genMovCond .i64 r s2 neg1 negS1 r .eq
    self.genSetGpr a.rd r
  return true

/-- Unsigned division. -/
def genDivuRemu (a : ArgsR) (wantRem : Bool) : Gen Bool := do
  let s1 ← self.gprOrZero a.rs1
  let s2 ← self.gprOrZero a.rs2
  let zero ← newConst .i64 0
  let one ← newConst .i64 1
  let safe ← newTemp .i64
  let _ ← genMovCond .i64 safe s2 zero one s2 .eq
  let quot ← newTemp .i64
  let rem ← newTemp .i64
  genDivU2 .i64 quot rem s1 zero safe
  if wantRem then
    let r ← newTemp .i64
    let _ ← genMovCond .i64 r s2 zero s1 rem .eq
    self.genSetGpr a.rd r
  else
    let neg1 ← newConst .i64 (-1)
    let r ← newTemp .i64
    let _ ← genMovCond .i64 r s2 zero neg1 quot .eq
    self.genSetGpr a.rd r
  return true

/-- 32-bit signed division. -/
def genDivRemW (a : ArgsR) (wantRem : Bool) : Gen Bool := do
  let s1 ← self.gprOrZero a.rs1
  let s2 ← self.gprOrZero a.rs2
  let a32 ← newTemp .i32
  let _ ← genExtrlI64I32 a32 s1
  let b32 ← newTemp .i32
  let _ ← genExtrlI64I32 b32 s2
  let zero ← newConst .i32 0
  let one ← newConst .i32 1
  let neg1 ← newConst .i32 0xFFFFFFFF
  let safe ← newTemp .i32
  let _ ← genMovCond .i32 safe b32 zero one b32 .eq
  let _ ← genMovCond .i32 safe safe neg1 one safe .eq
  let ah ← newTemp .i32
  let c31 ← newConst .i32 31
  let _ ← genSar .i32 ah a32 c31
  let quot ← newTemp .i32
  let rem ← newTemp .i32
  genDivS2 .i32 quot rem a32 ah safe
  if wantRem then
    let r ← newTemp .i32
    let _ ← genMovCond .i32 r b32 zero a32 rem .eq
    let _ ← genMovCond .i32 r b32 neg1 zero r .eq
    self.genSetGprSx32 a.rd r
  else
    let negA ← newTemp .i32
    let _ ← genNeg .i32 negA a32
    let r ← newTemp .i32
    let _ ← genMovCond .i32 r b32 zero neg1 quot .eq
    let _ ← genMovCond .i32 r b32 neg1 negA r .eq
    self.genSetGprSx32 a.rd r
  return true

/-- 32-bit unsigned division. -/
def genDivuRemuW (a : ArgsR) (wantRem : Bool) : Gen Bool := do
  let s1 ← self.gprOrZero a.rs1
  let s2 ← self.gprOrZero a.rs2
  let a32 ← newTemp .i32
  let _ ← genExtrlI64I32 a32 s1
  let b32 ← newTemp .i32
  let _ ← genExtrlI64I32 b32 s2
  let zero ← newConst .i32 0
  let one ← newConst .i32 1
  let safe ← newTemp .i32
  let _ ← genMovCond .i32 safe b32 zero one b32 .eq
  let quot ← newTemp .i32
  let rem ← newTemp .i32
  genDivU2 .i32 quot rem a32 zero safe
  if wantRem then
    let r ← newTemp .i32
    let _ ← genMovCond .i32 r b32 zero a32 rem .eq
    self.genSetGprSx32 a.rd r
  else
    let max ← newConst .i32 0xFFFFFFFF
    let r ← newTemp .i32
    let _ ← genMovCond .i32 r b32 zero max quot .eq
    self.genSetGprSx32 a.rd r
  return true

/-! ## Atomics -/

def TCG_MO_ALL : Nat := 0x0F
def TCG_BAR_LDAQ : Nat := 0x10
def TCG_BAR_STRL : Nat := 0x20

/-- The barrier in front of a release. -/
def genRelease (a : ArgsAtomic) : Gen Unit := do
  if a.rl ≠ 0 then genMb (TCG_MO_ALL ||| TCG_BAR_STRL)

/-- The barrier after an acquire. -/
def genAcquire (a : ArgsAtomic) : Gen Unit := do
  if a.aq ≠ 0 then genMb (TCG_MO_ALL ||| TCG_BAR_LDAQ)

/-- Load-reserved. -/
def genLr (a : ArgsAtomic) (memop : MemOp) : Gen Bool := do
  let addr ← self.gprOrZero a.rs1
  genRelease a
  let val ← newTemp .i64
  let _ ← genQemuLd .i64 val addr memop
  genAcquire a
  let _ ← genMov .i64 self.loadRes addr
  let _ ← genMov .i64 self.loadVal val
  self.genSetGpr a.rd val
  return true

/-- Store-conditional: store, set rd to 0 and clear the reservation. -/
def genSc (a : ArgsAtomic) (memop : MemOp) : Gen Bool := do
  let addr ← self.gprOrZero a.rs1
  let src2 ← self.gprOrZero a.rs2
  genQemuSt .i64 src2 addr memop
  let zero ← newConst .i64 0
  self.genSetGpr a.rd zero
  let neg1 ← newConst .i64 (-1)
  let _ ← genMov .i64 self.loadRes neg1
  return true

/-- Load, operate and store. -/
def genAmo (a : ArgsAtomic) (op : BinOp) (memop : MemOp) : Gen Bool := do
  let addr ← self.gprOrZero a.rs1
  genRelease a
  let old ← newTemp .i64
  let _ ← genQemuLd .i64 old addr memop
  let src2 ← self.gprOrZero a.rs2
  let new ← newTemp .i64
  let _ ← op .i64 new old src2
  genQemuSt .i64 new addr memop
  genAcquire a
  self.genSetGpr a.rd old
  return true

/-- Store rs2, return the old value. -/
def genAmoSwap (a : ArgsAtomic) (memop : MemOp) : Gen Bool := do
  let addr ← self.gprOrZero a.rs1
  genRelease a
  let old ← newTemp .i64
  let _ ← genQemuLd .i64 old addr memop
  let src2 ← self.gprOrZero a.rs2
  genQemuSt .i64 src2 addr memop
  genAcquire a
  self.genSetGpr a.rd old
  return true

/-- Conditional select by `movcond`. -/
def genAmoMinmax (a : ArgsAtomic) (cond : Cond) (memop : MemOp) : Gen Bool := do
  let addr ← self.gprOrZero a.rs1
  genRelease a
  let old ← newTemp .i64
  let _ ← genQemuLd .i64 old addr memop
  let src2 ← self.gprOrZero a.rs2
  let new ← newTemp .i64
  let _ ← genMovCond .i64 new old src2 old src2 cond
  genQemuSt .i64 new addr memop
  genAcquire a
  self.genSetGpr a.rd old
  return true

/-! ## Translation functions -/

/-- Bail out if the MISA letter-extension is absent. -/
def requireExt (ext : MisaExt) (body : Gen Bool) : Gen Bool :=
  if self.cfg.misa.contains ext then body else return false

def transMulh (a : ArgsR) : Gen Bool := self.requireExt .M do
  let s1 ← self.gprOrZero a.rs1
  let s2 ← self.gprOrZero a.rs2
  let lo ← newTemp .i64
  let hi ← newTemp .i64
  genMulS2 .i64 lo hi s1 s2
  self.genSetGpr a.rd hi
  return true

def transMulhsu (a : ArgsR) : Gen Bool := self.requireExt .M do
  let s1 ← self.gprOrZero a.rs1
  let s2 ← self.gprOrZero a.rs2
  let lo ← newTemp .i64
  let hi ← newTemp .i64
  genMulU2 .i64 lo hi s1 s2
  let c63 ← newConst .i64 63
  let sign ← newTemp .i64
  let _ ← genSar .i64 sign s1 c63
  let adj ← newTemp .i64
  let _ ← genAnd .i64 adj sign s2
  let _ ← genSub .i64 hi hi adj
  self.genSetGpr a.rd hi
  return true

def transMulhu (a : ArgsR) : Gen Bool := self.requireExt .M do
  let s1 ← self.gprOrZero a.rs1
  let s2 ← self.gprOrZero a.rs2
  let lo ← newTemp .i64
  let hi ← newTemp .i64
  genMulU2 .i64 lo hi s1 s2
  self.genSetGpr a.rd hi
  return true

def transDiv (a : ArgsR) : Gen Bool := self.requireExt .M (self.genDivRem a false)
def transDivu (a : ArgsR) : Gen Bool := self.requireExt .M (self.genDivuRemu a false)
def transRem (a : ArgsR) : Gen Bool := self.requireExt .M (self.genDivRem a true)
def transRemu (a : ArgsR) : Gen Bool := self.requireExt .M (self.genDivuRemu a true)
def transDivw (a : ArgsR) : Gen Bool := self.requireExt .M (self.genDivRemW a false)
def transDivuw (a : ArgsR) : Gen Bool := self.requireExt .M (self.genDivuRemuW a false)
def transRemw (a : ArgsR) : Gen Bool := self.requireExt .M (self.genDivRemW a true)
def transRemuw (a : ArgsR) : Gen Bool := self.requireExt .M (self.genDivuRemuW a true)

def transLrW (a : ArgsAtomic) : Gen Bool := self.requireExt .A (self.genLr a .sl)
def transLrD (a : ArgsAtomic) : Gen Bool := self.requireExt .A (self.genLr a .uq)
def transScW (a : ArgsAtomic) : Gen Bool := self.requireExt .A (self.genSc a .ul)
def transScD (a : ArgsAtomic) : Gen Bool := self.requireExt .A (self.genSc a .uq)
def transAmoswapW (a : ArgsAtomic) : Gen Bool := self.requireExt .A (self.genAmoSwap a .sl)
def transAmoaddW (a : ArgsAtomic) : Gen Bool := self.requireExt .A (self.genAmo a genAdd .sl)
def transAmoxorW (a : ArgsAtomic) : Gen Bool := self.requireExt .A (self.genAmo a genXor .sl)
def transAmoandW (a : ArgsAtomic) : Gen Bool := self.requireExt .A (self.genAmo a genAnd .sl)
def transAmoorW (a : ArgsAtomic) : Gen Bool := self.requireExt .A (self.genAmo a genOr .sl)
def transAmominW (a : ArgsAtomic) : Gen Bool := self.requireExt .A (self.genAmoMinmax a .lt .sl)
def transAmomaxW (a : ArgsAtomic) : Gen Bool := self.requireExt .A (self.genAmoMinmax a .gt .sl)
def transAmominuW (a : ArgsAtomic) : Gen Bool := self.requireExt .A (self.genAmoMinmax a .ltu .sl)
def transAmomaxuW (a : ArgsAtomic) : Gen Bool := self.requireExt .A (self.genAmoMinmax a .gtu .sl)
def transAmoswapD (a : ArgsAtomic) : Gen Bool := self.requireExt .A (self.genAmoSwap a .uq)
def transAmoaddD (a : ArgsAtomic) : Gen Bool := self.requireExt .A (self.genAmo a genAdd .uq)
def transAmoxorD (a : ArgsAtomic) : Gen Bool := self.requireExt .A (self.genAmo a genXor .uq)
def transAmoandD (a : ArgsAtomic) : Gen Bool := self.requireExt .A (self.genAmo a genAnd .uq)
def transAmoorD (a : ArgsAtomic) : Gen Bool := self.requireExt .A (self.genAmo a genOr .uq)
def transAmominD (a : ArgsAtomic) : Gen Bool := self.requireExt .A (self.genAmoMinmax a .lt .uq)
def transAmomaxD (a : ArgsAtomic) : Gen Bool := self.requireExt .A (self.genAmoMinmax a .gt .uq)
def transAmominuD (a : ArgsAtomic) : Gen Bool := self.requireExt .A (self.genAmoMinmax a .ltu .uq)
def transAmomaxuD (a : ArgsAtomic) : Gen Bool := self.requireExt .A (self.genAmoMinmax a .gtu .uq)

end RiscvDisasContext

end TcgRs.Model.Riscv
