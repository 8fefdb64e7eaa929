import TcgRs.Model.Exec.ExecLoop

/-!
# vCPU threads over one shared state

Any number of threads run `tb_find`, `tb_add_jump` and `invalidate` calls over one
`SharedState`.  A step is one section under a lock, one atomic access or one patch of the
code; between two steps any other thread may run.  `Phase` says which step of which call a
thread makes next.  A thread whose next access fails an assertion has no step, and a lock it
holds then stays taken, as a poisoned lock does.
-/

set_option autoImplicit false

namespace TcgRs.Model.Exec

open X86 (CodeGen)

/-- The step a thread makes next. -/
inductive Phase where
  | idle
  -- `tb_find(pc, flags)`
  | findCache (pc : BitVec 64) (flags : BitVec 32)
  | findLookup (pc : BitVec 64) (flags : BitVec 32)
  | genCheck (pc : BitVec 64) (flags : BitVec 32)
  | genLock (pc : BitVec 64) (flags : BitVec 32)
  -- the phases from here to `genUnlock` hold `translate_lock`
  | genLookup (pc : BitVec 64) (flags : BitVec 32)
  | genAlloc (pc : BitVec 64) (flags : BitVec 32)
  | genEmit (pc : BitVec 64) (flags : BitVec 32) (i : Nat)
  | genInsert (pc : BitVec 64) (flags : BitVec 32) (i : Nat)
  | genUnlock (pc : BitVec 64) (flags : BitVec 32) (i : Nat)
  -- `tb_find` returns
  | found (pc : BitVec 64) (flags : BitVec 32) (result : Option Nat)
  -- `tb_add_jump(src, slot, dst)`
  | addTest (src : Nat) (slot : Slot) (dst : Nat)
  | addLink (src : Nat) (slot : Slot) (dst jmpOff : Nat)
  | addPush (src : Nat) (slot : Slot) (dst : Nat)
  -- `invalidate(i)`
  | invMark (i : Nat)
  | invTake (i : Nat)
  | invReset (i : Nat) (edges : List (Nat × Slot))
  | invClear (i : Nat) (edge : Nat × Slot) (edges : List (Nat × Slot))
  | invRetain (i : Nat) (out : List (Slot × Nat))
  deriving DecidableEq

/-- What one thread sees: the shared state, the owner of `translate_lock`, its own jump
cache and its own phase. -/
structure View (ι : Type) where
  shared : Shared
  lock : Option ι
  cache : JumpCache
  phase : Phase

/-- What decides a step beside the state: the call an idle thread makes, and what the
frontend and backend make of the guest code. -/
inductive Choice where
  | find (pc : BitVec 64) (flags : BitVec 32)
  | addJump (src : Nat) (slot : Slot) (dst : Nat)
  | invalidate (i : Nat)
  | translation (tr : Translation)
  | proceed

variable {ι : Type}

/-- The thread's view after its next step with the store replaced. -/
def View.withStore (v : View ι) (store : TbStore) (phase : Phase) : View ι :=
  { v with shared := { v.shared with store := store }, phase := phase }

/-- One step of `tb_find` and `tb_gen_code`. -/
def stepFind [DecidableEq ι] (gen : CodeGen) (t : ι) (c : Choice) (v : View ι) :
    Option (View ι) :=
  match v.phase, c with
  | .findCache pc flags, .proceed => do
    match ← cacheHit v.shared v.cache pc flags with
    | some i => return { v with phase := .found pc flags (some i) }
    | none => return { v with phase := .findLookup pc flags }
  | .findLookup pc flags, .proceed => do
    match ← v.shared.store.lookup pc flags with
    | some i => return { v with cache := v.cache.insert pc i, phase := .found pc flags (some i) }
    | none => return { v with phase := .genCheck pc flags }
  | .genCheck pc flags, .proceed =>
    if v.shared.buf.remaining < minCodeBufRemaining then
      some { v with phase := .found pc flags none }
    else some { v with phase := .genLock pc flags }
  | .genLock pc flags, .proceed =>
    if v.lock = none then some { v with lock := some t, phase := .genLookup pc flags } else none
  | .genLookup pc flags, .proceed => do
    match ← v.shared.store.lookup pc flags with
    | some i =>
      return { v with lock := none, cache := v.cache.insert pc i, phase := .found pc flags (some i) }
    | none => return { v with phase := .genAlloc pc flags }
  | .genAlloc pc flags, .proceed => do
    let (store, i) ← v.shared.store.alloc pc flags 0
    return v.withStore store (.genEmit pc flags i)
  | .genEmit pc flags i, .translation tr => do
    let shared ← v.shared.emitTb gen i tr
    return { v with shared := shared, phase := .genInsert pc flags i }
  | .genInsert pc flags i, .proceed => do
    let store ← v.shared.store.insert i
    return v.withStore store (.genUnlock pc flags i)
  | .genUnlock pc flags i, .proceed =>
    some { v with lock := none, cache := v.cache.insert pc i, phase := .found pc flags (some i) }
  | .found _ _ _, .proceed => some { v with phase := .idle }
  | _, _ => none

/-- One step of `tb_add_jump`. -/
def stepAdd (v : View ι) : Option (View ι) :=
  match v.phase with
  | .addTest src slot dst => do
    let srcTb ← v.shared.store.get src
    match srcTb.jmpInsnOffset slot with
    | none => return { v with phase := .idle }
    | some jmpOff =>
      let dstTb ← v.shared.store.get dst
      if dstTb.invalid then return { v with phase := .idle }
      else return { v with phase := .addLink src slot dst jmpOff.toNat }
  | .addLink src slot dst jmpOff => do
    let (shared, linked) ← v.shared.linkSource src slot dst jmpOff
    return { v with shared := shared, phase := if linked then .addPush src slot dst else .idle }
  | .addPush src slot dst => do
    let _ ← v.shared.store.get dst
    return v.withStore (v.shared.store.pushIncoming dst src slot) .idle
  | _ => none

/-- One step of `invalidate`. -/
def stepInvalidate (v : View ι) : Option (View ι) :=
  match v.phase with
  | .invMark i => do
    let _ ← v.shared.store.get i
    return v.withStore (v.shared.store.markInvalid i) (.invTake i)
  | .invTake i => do
    let tb ← v.shared.store.get i
    return v.withStore (v.shared.store.clearJmpList i) (.invReset i tb.jmp.jmpList)
  | .invReset i (edge :: edges) => do
    let src ← v.shared.store.get edge.1
    let buf ← Shared.resetJump src v.shared.buf edge.2
    return { v with shared := { v.shared with buf := buf }, phase := .invClear i edge edges }
  | .invClear i edge edges => do
    let _ ← v.shared.store.get edge.1
    return v.withStore (v.shared.store.setJmpDest edge.1 edge.2 none) (.invReset i edges)
  | .invReset i [] => do
    let tb ← v.shared.store.get i
    return v.withStore (v.shared.store.clearJmpDests i) (.invRetain i (TbStore.outgoing tb))
  | .invRetain i (p :: out) => do
    let _ ← v.shared.store.get p.2
    return v.withStore (v.shared.store.retainIncoming i p.1 p.2) (.invRetain i out)
  | .invRetain i [] => do
    let store ← v.shared.store.hashRemove i
    return v.withStore store .idle
  | _ => none

/-- One step of a thread. -/
def stepThread [DecidableEq ι] (gen : CodeGen) (t : ι) (c : Choice) (v : View ι) :
    Option (View ι) :=
  match v.phase, c with
  | .idle, .find pc flags => some { v with phase := .findCache pc flags }
  | .idle, .addJump src slot dst => some { v with phase := .addTest src slot dst }
  | .idle, .invalidate i => some { v with phase := .invMark i }
  | .idle, _ => none
  | _, _ => (stepFind gen t c v).or ((stepAdd v).or (stepInvalidate v))

/-! ## The machine -/

/-- The shared state, the owner of `translate_lock`, and every thread's cache and phase. -/
structure Machine (ι : Type) where
  shared : Shared
  lock : Option ι
  cache : ι → JumpCache
  phase : ι → Phase

/-- What thread `t` sees. -/
def Machine.view (m : Machine ι) (t : ι) : View ι := ⟨m.shared, m.lock, m.cache t, m.phase t⟩

/-- The machine after thread `t` has made its step. -/
def Machine.update [DecidableEq ι] (m : Machine ι) (t : ι) (v : View ι) : Machine ι :=
  ⟨v.shared, v.lock, Function.update m.cache t v.cache, Function.update m.phase t v.phase⟩

/-- One step of the machine: thread `t` moves. -/
def stepMachine [DecidableEq ι] (gen : CodeGen) (m : Machine ι) (move : ι × Choice) :
    Option (Machine ι) :=
  (stepThread gen move.1 move.2 (m.view move.1)).map (m.update move.1)

/-- The moves of a schedule one after another. -/
def runMoves [DecidableEq ι] (gen : CodeGen) (m : Machine ι) (moves : List (ι × Choice)) :
    Option (Machine ι) :=
  moves.foldlM (stepMachine gen) m

/-- No thread is in a call and nobody holds the lock. -/
def Machine.initial (sh : Shared) : Machine ι := ⟨sh, none, fun _ => {}, fun _ => .idle⟩

end TcgRs.Model.Exec
