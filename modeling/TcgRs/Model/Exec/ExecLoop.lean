import TcgRs.Model.Exec.TbStore

/-!
# Finding, translating and chaining blocks

`exec/src/exec_loop.rs` without the statistics counters: `tb_find` with its jump cache and
hash table, `tb_gen_code` and `tb_add_jump`, each as the composition of the sections between
its lock operations.  What the frontend and the backend make of the guest code at a pc is an
argument of `tb_gen_code`: the host code of the block and its guest size.  `none` is a failed
assertion.
-/

set_option autoImplicit false

namespace TcgRs.Model.Exec

open X86 (CodeGen BlockCode emitBlock patchJump)

/-- Minimum remaining bytes in the code buffer before refusing to translate a new block. -/
def minCodeBufRemaining : Nat := 4096

/-- The size of the code buffer that `ExecEnv::new` allocates, 16 MiB. -/
def codeBufSize : Nat := 16 * 1024 * 1024

/-- What translating the guest code at a pc gives. -/
structure Translation where
  code : BlockCode
  guestSize : BitVec 32

/-- The loop that copies the first two recorded jumps into the block. -/
def recordJumps (tb : TranslationBlock) : List (Nat × Nat) → TranslationBlock
  | [] => tb
  | [p] => (tb.setJmpInsnOffset 0 (BitVec.ofNat 32 p.1)).setJmpResetOffset 0 (BitVec.ofNat 32 p.2)
  | p :: q :: _ =>
    (((tb.setJmpInsnOffset 0 (BitVec.ofNat 32 p.1)).setJmpResetOffset 0
      (BitVec.ofNat 32 p.2)).setJmpInsnOffset 1 (BitVec.ofNat 32 q.1)).setJmpResetOffset 1
      (BitVec.ofNat 32 q.2)

namespace Shared

/-- Emit the code of the allocated block `i` and fill in its fields. -/
def emitTb (sh : Shared) (gen : CodeGen) (i : Nat) (tr : Translation) : Option Shared := do
  let st ← emitBlock gen (BitVec.ofNat 32 i) tr.code sh.buf
  let fill (tb : TranslationBlock) : TranslationBlock :=
    recordJumps { tb with
      size := tr.guestSize
      hostOffset := sh.buf.offset
      hostSize := st.buf.offset - sh.buf.offset } st.gotoTbInfo
  return ⟨sh.store.modify i fill, st.buf⟩

/-- The rest of `tb_gen_code` after the double check: allocate, translate, insert. -/
def translateTb (sh : Shared) (gen : CodeGen) (tr : Translation) (pc : BitVec 64)
    (flags : BitVec 32) : Option (Shared × Nat) := do
  let (store, i) ← sh.store.alloc pc flags 0
  let sh ← ({ sh with store := store } : Shared).emitTb gen i tr
  let store ← sh.store.insert i
  return ({ sh with store := store }, i)

/-- The section of `tb_add_jump` under the source's lock: patch the jump and set `jmp_dest`,
unless it names `dst` already.  The flag says whether the incoming edge is still to be added. -/
def linkSource (sh : Shared) (src : Nat) (slot : Slot) (dst jmpOff : Nat) :
    Option (Shared × Bool) := do
  let srcTb ← sh.store.get src
  if srcTb.jmp.jmpDest slot = some dst then return (sh, false)
  else
    let dstTb ← sh.store.get dst
    let buf ← patchJump sh.buf jmpOff dstTb.hostOffset
    return (⟨sh.store.setJmpDest src slot (some dst), buf⟩, true)

/-- Patch a `goto_tb` jump to directly chain `src` to `dst`.  A slot that is not an index of
the two-element arrays is a panic. -/
def tbAddJump (sh : Shared) (src slot dst : Nat) : Option Shared := do
  let srcTb ← sh.store.get src
  if h : slot < 2 then
    match srcTb.jmpInsnOffset ⟨slot, h⟩ with
    | none => return sh
    | some jmpOff =>
      let dstTb ← sh.store.get dst
      if dstTb.invalid then return sh
      else
        let (sh, linked) ← sh.linkSource src ⟨slot, h⟩ dst jmpOff.toNat
        if linked then return { sh with store := sh.store.pushIncoming dst src ⟨slot, h⟩ }
        else return sh
  else none

end Shared

/-- Translate guest code at `pc` into a new block, unless another thread has done it. -/
def tbGenCode (sh : Shared) (cache : JumpCache) (gen : CodeGen) (tr : Translation)
    (pc : BitVec 64) (flags : BitVec 32) : Option (Shared × JumpCache × Option Nat) :=
  if sh.buf.remaining < minCodeBufRemaining then some (sh, cache, none)
  else do
    match ← sh.store.lookup pc flags with
    | some i => return (sh, cache.insert pc i, some i)
    | none =>
      let (sh, i) ← sh.translateTb gen tr pc flags
      return (sh, cache.insert pc i, some i)

/-- The jump cache's answer, if it is a valid block for this pc and these flags. -/
def cacheHit (sh : Shared) (cache : JumpCache) (pc : BitVec 64) (flags : BitVec 32) :
    Option (Option Nat) :=
  match cache.lookup pc with
  | none => some none
  | some i => do
    let tb ← sh.store.get i
    if tb.isFor pc flags then return some i else return none

/-- Find a block for the given `(pc, flags)`, translating if needed. -/
def tbFind (sh : Shared) (cache : JumpCache) (gen : CodeGen) (tr : Translation)
    (pc : BitVec 64) (flags : BitVec 32) : Option (Shared × JumpCache × Option Nat) := do
  match ← cacheHit sh cache pc flags with
  | some i => return (sh, cache, some i)
  | none =>
    match ← sh.store.lookup pc flags with
    | some i => return (sh, cache.insert pc i, some i)
    | none => tbGenCode sh cache gen tr pc flags

end TcgRs.Model.Exec
