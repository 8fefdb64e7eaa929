import TcgRs.Model.Exec.ExecLoop

/-!
# The execution loop of one vCPU

`cpu_exec_loop` over the store, the code buffer, the jump cache, `next_tb_hint` and the
`exit_target` of each block.  The guest code itself is open: a block that is entered runs to
one of its own `goto_tb` or `exit_tb` instructions and leaves the CPU with some pc and flags
there.  Where a `goto_tb` jump goes is read from the bytes of the code buffer.  Between two
calls of the loop the caller may change the CPU and invalidate blocks.
-/

set_option autoImplicit false

namespace TcgRs.Model.Exec

open X86 (Byte CodeGen HostItem BlockCode gotoTbJump jumpTarget)

/-- What the loop reads of the guest CPU: `get_pc` and `get_flags`. -/
structure Cpu where
  pc : BitVec 64
  flags : BitVec 32
  deriving DecidableEq

/-- Reason the execution loop exited. -/
inductive ExitReason where
  /-- A block returned a real exit value. -/
  | exit (code : Nat)
  /-- Code buffer is full. -/
  | bufferFull
  deriving DecidableEq

/-- Where the vCPU is. -/
inductive Control where
  /-- Not in the loop; the last call returned this. -/
  | outside (reason : Option ExitReason)
  /-- At the top of the loop with this `next_tb_hint`. -/
  | top (hint : Option Nat)
  /-- At the first instruction of block `i`; the loop has entered `entered`. -/
  | atBlock (entered i : Nat)
  /-- `cpu_tb_exec` has returned `raw`; block `last` was left through `item`, which the loop
  cannot see. -/
  | returned (entered last : Nat) (item : HostItem) (raw : BitVec 64)

/-- The state of the loop.  `code i` is what the code of block `i` was emitted from. -/
structure LoopState where
  shared : Shared
  cache : JumpCache
  code : Nat → BlockCode
  cpu : Cpu
  control : Control

/-- What decides a step beside the state. -/
inductive LoopChoice where
  /-- The caller enters the loop with the CPU in this state. -/
  | call (cpu : Cpu)
  /-- The caller invalidates a block. -/
  | invalidate (i : Nat)
  /-- What the frontend and backend make of the guest code, should the step translate. -/
  | translation (tr : Translation)
  /-- The block runs to its item `k` and leaves the CPU in this state. -/
  | leave (k : Nat) (cpu : Cpu)

/-- The block whose code starts at an offset of the code buffer. -/
def TbStore.blockAt (s : TbStore) (x : Int) : Option Nat :=
  s.tbs.findIdx? (fun tb => decide (0 < tb.hostSize) && decide ((tb.hostOffset : Int) = x))

/-- Cache the target of an indirect exit. -/
def TbStore.setExitTarget (s : TbStore) (i dst : Nat) : TbStore :=
  s.modify i (fun tb => { tb with exitTarget := dst })

/-- The target cached by the source of an indirect exit, if it is a valid block for this pc
and these flags. -/
def exitTargetHit (sh : Shared) (src : Nat) (cpu : Cpu) : Option (Option Nat) := do
  let stb ← sh.store.get src
  if stb.exitTarget ≠ exitTargetNone then
    let tb ← sh.store.get stb.exitTarget
    if tb.isFor cpu.pc cpu.flags then return some stb.exitTarget else return none
  else return none

namespace LoopState

/-- `tb_find` for the CPU's pc and flags. -/
def find (st : LoopState) (gen : CodeGen) (tr : Translation) : Option (LoopState × Option Nat) := do
  let (sh, cache, r) ← tbFind st.shared st.cache gen tr st.cpu.pc st.cpu.flags
  let n := st.shared.store.tbs.length
  let code := if sh.store.tbs.length = n then st.code else Function.update st.code n tr.code
  return ({ st with shared := sh, cache := cache, code := code }, r)

/-- The loop returns. -/
def stop (st : LoopState) (reason : ExitReason) : LoopState :=
  { st with control := .outside (some reason) }

/-- Control reaches the code of a block, at this offset of the code buffer. -/
def enter (st : LoopState) (entered : Nat) (x : Int) : Option LoopState :=
  (st.shared.store.blockAt x).map (fun i => { st with control := .atBlock entered i })

/-- `cpu_tb_exec`: jump to the code of the block. -/
def cpuTbExec (st : LoopState) (i : Nat) : Option LoopState := do
  let tb ← st.shared.store.get i
  st.enter i tb.hostOffset

/-- The host code returns to the loop from `exit_tb(val)` of block `i`. -/
def exitTb (st : LoopState) (entered i : Nat) (item : HostItem) (val : BitVec 32) : LoopState :=
  { st with
    control := .returned entered i item (encodeTbExit (BitVec.ofNat 32 i) (val.setWidth 64)) }

/-- Block `i` has run to its item `k`: an exit, or a jump that goes where it is patched to. -/
def leaveBlock (st : LoopState) (entered i k : Nat) : Option LoopState := do
  let tb ← st.shared.store.get i
  let ops := (st.code i).ops
  match ops[k]? with
  | some (.exitTb val) => return st.exitTb entered i (.exitTb val) val
  | some (.gotoTb g) =>
    let jmp := gotoTbJump (BitVec.ofNat 32 i) tb.hostOffset ops k
    let target := jumpTarget st.shared.buf jmp
    if target = (jmp + 5 : Nat) then
      match ops[k + 1]? with
      | some (.exitTb val) => return st.exitTb entered i (.gotoTb g) val
      | _ => none
    else st.enter entered target
  | _ => none

/-- The rest of an iteration, after `cpu_tb_exec` has returned. -/
def afterExec (st : LoopState) (gen : CodeGen) (tr : Translation) (entered : Nat)
    (raw : BitVec 64) : Option LoopState :=
  let (lastTb, exitCode) := decodeTbExit raw
  let srcTb := lastTb.getD entered
  if exitCode ≤ 1 then do
    match ← st.find gen tr with
    | (st, none) => return st.stop .bufferFull
    | (st, some dst) =>
      let sh ← st.shared.tbAddJump srcTb exitCode dst
      return { st with shared := sh, control := .top (some dst) }
  else if exitCode = tbExitNochain.toNat then do
    match ← exitTargetHit st.shared srcTb st.cpu with
    | some cached => return { st with control := .top (some cached) }
    | none =>
      match ← st.find gen tr with
      | (st, none) => return st.stop .bufferFull
      | (st, some dst) =>
        let _ ← st.shared.store.get srcTb
        let sh := { st.shared with store := st.shared.store.setExitTarget srcTb dst }
        return { st with shared := sh, control := .top (some dst) }
  else some (st.stop (.exit exitCode))

end LoopState

/-- One step of the vCPU; `none` is a failed assertion or a choice that does not fit. -/
def stepLoop (gen : CodeGen) (st : LoopState) (c : LoopChoice) : Option LoopState :=
  match st.control, c with
  | .outside _, .call cpu => some { st with cpu := cpu, control := .top none }
  | .outside _, .invalidate i => do
    let sh ← st.shared.invalidate i
    return { st with shared := sh }
  | .top (some i), .translation _ => st.cpuTbExec i
  | .top none, .translation tr => do
    match ← st.find gen tr with
    | (st, some i) => st.cpuTbExec i
    | (st, none) => return st.stop .bufferFull
  | .atBlock entered i, .leave k cpu => { st with cpu := cpu }.leaveBlock entered i k
  | .returned entered _ _ raw, .translation tr => st.afterExec gen tr entered raw
  | _, _ => none

/-- The vCPU before its first call of the loop. -/
def LoopState.initial (sh : Shared) : LoopState :=
  ⟨sh, {}, fun _ => ⟨[], 0⟩, ⟨0, 0⟩, .outside none⟩

/-! ## What the frontend emits -/

/-- How the RISC-V translator ends a block, with the code that sets the guest pc. -/
inductive BlockEnd where
  /-- `gen_branch`: slot 0 when the branch is not taken, slot 1 when it is. -/
  | branch (notTaken taken : List Byte)
  /-- `trans_jal`, and the fall-through of `tb_stop`. -/
  | direct
  /-- `trans_jalr`. -/
  | indirect
  /-- `ecall`, `ebreak`, and an instruction that does not decode. -/
  | exception (excp : BitVec 32)

/-- The code of a block with this end. -/
def BlockEnd.code (body : List HostItem) : BlockEnd → BlockCode
  | .branch notTaken taken =>
    ⟨body ++ [.code notTaken, .gotoTb 0, .exitTb 0, .code taken, .gotoTb 1], 1⟩
  | .direct => ⟨body ++ [.gotoTb 0], 0⟩
  | .indirect => ⟨body, 2⟩
  | .exception excp => ⟨body, excp⟩

end TcgRs.Model.Exec
