import Mathlib.Data.BitVec
import Mathlib.Logic.Function.Basic

/-!
# Translation blocks

`core/src/tb.rs`: the translation block with its chaining state, the hash of the block
table, the encoding of exit values and the per-CPU jump cache.  `usize` and `u64` indices
are natural numbers, guest addresses and flags are bit vectors.  A slot has already been
used as an index of a two-element array wherever it is stored, so it is an element of `Fin 2`.
The fields `cs_base`, `icount` and `phys_pc` are never read and are left out.
-/

set_option autoImplicit false

namespace TcgRs.Model.Exec

/-- A `goto_tb` exit slot. -/
abbrev Slot := Fin 2

instance Slot.neZero : NeZero 2 := ⟨by decide⟩

theorem Slot.cases : ∀ n : Slot, n = 0 ∨ n = 1
  | 0 => Or.inl rfl
  | 1 => Or.inr rfl

/-- Sentinel value for "no exit target cached", `usize::MAX`. -/
def exitTargetNone : Nat := 2 ^ 64 - 1

/-- Mutable chaining state protected by the per-TB lock. -/
structure TbJmpState where
  /-- Outgoing edge: destination block for each slot. -/
  jmpDest : Slot → Option Nat := fun _ => none
  /-- Incoming edges: source block and slot. -/
  jmpList : List (Nat × Slot) := []

/-- A cached translated code block. -/
structure TranslationBlock where
  pc : BitVec 64
  flags : BitVec 32
  cflags : BitVec 32
  size : BitVec 32 := 0
  hostOffset : Nat := 0
  hostSize : Nat := 0
  jmpInsnOffset : Slot → Option (BitVec 32) := fun _ => none
  jmpResetOffset : Slot → Option (BitVec 32) := fun _ => none
  /-- Protected by the hash lock of the store. -/
  hashNext : Option Nat := none
  jmp : TbJmpState := {}
  invalid : Bool := false
  /-- Single-entry target cache for indirect exits. -/
  exitTarget : Nat := exitTargetNone

namespace TranslationBlock

/-- `TranslationBlock::new`. -/
def new (pc : BitVec 64) (flags cflags : BitVec 32) : TranslationBlock :=
  { pc := pc, flags := flags, cflags := cflags }

/-- Number of buckets in the global hash table. -/
def tbHashSize : Nat := 2 ^ 15

theorem and_lt_tbHashSize (h : BitVec 64) : (h &&& 32767).toNat < tbHashSize := by
  rw [BitVec.toNat_and]
  exact Nat.lt_of_le_of_lt Nat.and_le_right (by decide)

/-- Hash bucket index for the lookup: the multiplication wraps. -/
def hash (pc : BitVec 64) (flags : BitVec 32) : Fin tbHashSize :=
  let h := pc * 0x9e3779b97f4a7c15 ^^^ flags.setWidth 64
  ⟨(h &&& 32767).toNat, and_lt_tbHashSize h⟩

/-- Record the offset of a `goto_tb` jump instruction for exit slot `n`. -/
def setJmpInsnOffset (tb : TranslationBlock) (n : Slot) (offset : BitVec 32) : TranslationBlock :=
  { tb with jmpInsnOffset := Function.update tb.jmpInsnOffset n (some offset) }

/-- Record the reset offset for exit slot `n`. -/
def setJmpResetOffset (tb : TranslationBlock) (n : Slot) (offset : BitVec 32) :
    TranslationBlock :=
  { tb with jmpResetOffset := Function.update tb.jmpResetOffset n (some offset) }

/-- The block is not invalidated and was translated for this guest pc and these flags: the
test that every cache of the execution loop makes before it hands a block over. -/
def isFor (tb : TranslationBlock) (pc : BitVec 64) (flags : BitVec 32) : Bool :=
  !tb.invalid && tb.pc == pc && tb.flags == flags

theorem isFor_iff {tb : TranslationBlock} {pc : BitVec 64} {flags : BitVec 32} :
    tb.isFor pc flags = true ↔ tb.invalid = false ∧ tb.pc = pc ∧ tb.flags = flags := by
  simp [isFor, and_assoc]

end TranslationBlock

/-! ## Exit values -/

def tbExitIdx0 : BitVec 64 := 0
def tbExitIdx1 : BitVec 64 := 1
def tbExitNochain : BitVec 64 := 2
def tbExitMax : BitVec 64 := 3

/-- Encode an `exit_tb` return value with the source block's index: chainable exits carry
`tb_idx + 1` in the upper half, real exits are returned unchanged. -/
def encodeTbExit (tbIdx : BitVec 32) (val : BitVec 64) : BitVec 64 :=
  if val < tbExitMax then ((tbIdx.setWidth 64 + 1) <<< 32) ||| val else val

/-- Decode an `exit_tb` return value to the source block and the exit code. -/
def decodeTbExit (raw : BitVec 64) : Option Nat × Nat :=
  let marker := raw >>> 32
  if marker ≠ 0 then (some (marker.toNat - 1), (raw &&& 3).toNat) else (none, raw.toNat)

/-! ## The per-CPU jump cache -/

/-- Number of entries in the per-CPU jump cache. -/
def tbJmpCacheSize : Nat := 2 ^ 12

/-- Per-CPU direct-mapped cache from guest pcs to blocks. -/
structure JumpCache where
  entries : Fin tbJmpCacheSize → Option Nat := fun _ => none

namespace JumpCache

/-- `(pc >> 2) & (TB_JMP_CACHE_SIZE - 1)`. -/
def index (pc : BitVec 64) : Fin tbJmpCacheSize :=
  ⟨((pc >>> 2) &&& 4095).toNat, by
    rw [BitVec.toNat_and]
    exact Nat.lt_of_le_of_lt Nat.and_le_right (by decide)⟩

def lookup (c : JumpCache) (pc : BitVec 64) : Option Nat := c.entries (index pc)

def insert (c : JumpCache) (pc : BitVec 64) (i : Nat) : JumpCache :=
  ⟨Function.update c.entries (index pc) (some i)⟩

/-- Every block an insertion can make the cache answer with was in it or is the new one. -/
theorem lookup_insert {c : JumpCache} {pc pc' : BitVec 64} {i j : Nat}
    (h : (c.insert pc i).lookup pc' = some j) : j = i ∨ c.lookup pc' = some j := by
  simp only [lookup, insert] at h ⊢
  by_cases hi : index pc' = index pc
  · rw [hi, Function.update_self] at h
    exact Or.inl (Option.some.inj h).symm
  · rw [Function.update_of_ne hi] at h
    exact Or.inr h

end JumpCache

end TcgRs.Model.Exec
