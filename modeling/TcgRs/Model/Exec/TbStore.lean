import TcgRs.Model.X86.Codegen

/-!
# The block store

`exec/src/tb_store.rs`.  The operations are written as compositions of the sections that the
source runs under one lock or as one atomic access, so that the same sections are the steps
of the concurrent model.  A failed assertion is `none`, and so is a walk along a hash chain
that does not end: a chain of more nodes than there are blocks has visited a node twice.
-/

set_option autoImplicit false

namespace TcgRs.Model.Exec

open X86 (patchJump)

/-- Storage and hash table of the translated blocks. -/
structure TbStore where
  tbs : List TranslationBlock := []
  hash : Fin TranslationBlock.tbHashSize → Option Nat := fun _ => none

namespace TbStore

def maxTbs : Nat := 65536

/-- `get`: the assertion "TB index out of bounds" is `none`. -/
def get (s : TbStore) (i : Nat) : Option TranslationBlock := s.tbs[i]?

/-- A write to a block through its lock, an atomic or `get_mut`. -/
def modify (s : TbStore) (i : Nat) (f : TranslationBlock → TranslationBlock) : TbStore :=
  { s with tbs := s.tbs.modify i f }

/-- Allocate a new block; `none` is the assertion "TB store full". -/
def alloc (s : TbStore) (pc : BitVec 64) (flags cflags : BitVec 32) : Option (TbStore × Nat) :=
  if s.tbs.length < maxTbs then
    some ({ s with tbs := s.tbs ++ [TranslationBlock.new pc flags cflags] }, s.tbs.length)
  else none

/-! ## The hash table -/

/-- The `while let` loop of `lookup`, from the node `cur` on. -/
def lookupFrom (s : TbStore) (pc : BitVec 64) (flags : BitVec 32) :
    Nat → Option Nat → Option (Option Nat)
  | _, none => some none
  | 0, some _ => none
  | fuel + 1, some i => do
    let tb ← s.get i
    if tb.isFor pc flags then return some i
    else lookupFrom s pc flags fuel tb.hashNext

/-- Lookup a valid block by `(pc, flags)`. -/
def lookup (s : TbStore) (pc : BitVec 64) (flags : BitVec 32) : Option (Option Nat) :=
  s.lookupFrom pc flags s.tbs.length (s.hash (TranslationBlock.hash pc flags))

/-- Insert a block into the hash table (prepend to bucket). -/
def insert (s : TbStore) (i : Nat) : Option TbStore := do
  let tb ← s.get i
  let bucket := TranslationBlock.hash tb.pc tb.flags
  let s' := s.modify i (fun tb => { tb with hashNext := s.hash bucket })
  return { s' with hash := Function.update s'.hash bucket (some i) }

/-- Take the block `i` out of its chain, where `prev` is the node before it. -/
def unlinkNode (s : TbStore) (bucket : Fin TranslationBlock.tbHashSize) (prev : Option Nat)
    (i : Nat) (next : Option Nat) : TbStore :=
  let s' := match prev with
    | some p => s.modify p (fun tb => { tb with hashNext := next })
    | none => { s with hash := Function.update s.hash bucket next }
  s'.modify i (fun tb => { tb with hashNext := none })

/-- The `while let` loop of step 3 of `invalidate`. -/
def hashRemoveFrom (s : TbStore) (i : Nat) (bucket : Fin TranslationBlock.tbHashSize) :
    Nat → Option Nat → Option Nat → Option TbStore
  | _, _, none => some s
  | 0, _, some _ => none
  | fuel + 1, prev, some idx => do
    let tb ← s.get idx
    if idx = i then return s.unlinkNode bucket prev idx tb.hashNext
    else hashRemoveFrom s i bucket fuel (some idx) tb.hashNext

/-- Step 3 of `invalidate`: remove from the hash chain. -/
def hashRemove (s : TbStore) (i : Nat) : Option TbStore := do
  let tb ← s.get i
  let bucket := TranslationBlock.hash tb.pc tb.flags
  s.hashRemoveFrom i bucket s.tbs.length none (s.hash bucket)

/-! ## Sections on the chaining state -/

/-- `tb.invalid.store(true)`. -/
def markInvalid (s : TbStore) (i : Nat) : TbStore :=
  s.modify i (fun tb => { tb with invalid := true })

/-- `std::mem::take(&mut jmp.jmp_list)`, the store half. -/
def clearJmpList (s : TbStore) (i : Nat) : TbStore :=
  s.modify i (fun tb => { tb with jmp := { tb.jmp with jmpList := [] } })

/-- `jmp_dest[slot] = dst`. -/
def setJmpDest (s : TbStore) (i : Nat) (slot : Slot) (dst : Option Nat) : TbStore :=
  s.modify i (fun tb =>
    { tb with jmp := { tb.jmp with jmpDest := Function.update tb.jmp.jmpDest slot dst } })

/-- The outgoing edges of a block, in slot order. -/
def outgoing (tb : TranslationBlock) : List (Slot × Nat) :=
  [0, 1].filterMap (fun slot => (tb.jmp.jmpDest slot).map (fun dst => (slot, dst)))

/-- `jmp_dest[slot].take()` for both slots, the store half. -/
def clearJmpDests (s : TbStore) (i : Nat) : TbStore :=
  s.modify i (fun tb => { tb with jmp := { tb.jmp with jmpDest := fun _ => none } })

/-- Remove the incoming edge of slot `slot` of block `i` from the list of `dst`. -/
def retainIncoming (s : TbStore) (i : Nat) (slot : Slot) (dst : Nat) : TbStore :=
  s.modify dst (fun tb => { tb with jmp :=
    { tb.jmp with jmpList := tb.jmp.jmpList.filter (fun e => !(e.1 == i && e.2 == slot)) } })

/-- `jmp_list.push((src, slot))`. -/
def pushIncoming (s : TbStore) (dst src : Nat) (slot : Slot) : TbStore :=
  s.modify dst (fun tb => { tb with jmp :=
    { tb.jmp with jmpList := tb.jmp.jmpList ++ [(src, slot)] } })

end TbStore

/-- The state shared by the vCPU threads: the block store and the code buffer. -/
structure Shared where
  store : TbStore
  buf : CodeBuffer

namespace Shared

/-- Reset a `goto_tb` jump back to its original target. -/
def resetJump (tb : TranslationBlock) (buf : CodeBuffer) (slot : Slot) : Option CodeBuffer :=
  match tb.jmpInsnOffset slot, tb.jmpResetOffset slot with
  | some jmpOff, some resetOff => patchJump buf jmpOff.toNat resetOff.toNat
  | _, _ => some buf

/-- One turn of the loop over the incoming edges: reset the jump, then clear `jmp_dest`. -/
def unlinkIncoming (sh : Shared) (edge : Nat × Slot) : Option Shared := do
  let src ← sh.store.get edge.1
  let buf ← resetJump src sh.buf edge.2
  return ⟨sh.store.setJmpDest edge.1 edge.2 none, buf⟩

/-- One turn of the loop over the outgoing edges of block `i`. -/
def unlinkOutgoing (i : Nat) (store : TbStore) (edge : Slot × Nat) : Option TbStore := do
  let _ ← store.get edge.2
  return store.retainIncoming i edge.1 edge.2

/-- Mark a block as invalid, unlink all chained jumps, and remove it from the hash chain. -/
def invalidate (sh : Shared) (i : Nat) : Option Shared := do
  let _ ← sh.store.get i
  let store := sh.store.markInvalid i
  let tb ← store.get i
  let sh ← tb.jmp.jmpList.foldlM unlinkIncoming { sh with store := store.clearJmpList i }
  let tb ← sh.store.get i
  let store ← (TbStore.outgoing tb).foldlM (unlinkOutgoing i) (sh.store.clearJmpDests i)
  let store ← store.hashRemove i
  return { sh with store := store }

end Shared

end TcgRs.Model.Exec
