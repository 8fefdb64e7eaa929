import TcgRs.Model.X86.Constraints

/-!
# The register allocator

`backend/src/regalloc.rs`: one forward pass that gives every operand a host register and
emits host code as it goes.  The calls to the `HostCodeGen` backend are recorded in order;
jumps name their label, and the back-patching of displacements is not part of this model.
`none` is a panic of the source: a failed `unwrap`, `expect` or index.
-/

set_option autoImplicit false

namespace TcgRs.Model.RegAlloc

open Ir X86

/-! ## State -/

/-- A call to the backend, or an instruction emitted directly. -/
inductive HostInsn where
  | mov (ty : IrType) (dst src : Reg)
  | movi (ty : IrType) (dst : Reg) (val : BitVec 64)
  | ld (ty : IrType) (dst base : Reg) (offset : Int)
  | st (ty : IrType) (src base : Reg) (offset : Int)
  | op (opc : Opcode) (ty : IrType) (oregs iregs : List Reg) (cargs : List Nat)
  | label (id : Nat)
  | jmp (id : Nat)
  | mfence
  deriving DecidableEq, Repr

/-- Register allocator state. -/
structure RegAllocState where
  regToTemp : Reg → Option Nat
  freeRegs : RegSet
  allocatable : RegSet

namespace RegAllocState

def new (allocatable : RegSet) : RegAllocState := ⟨fun _ => none, allocatable, allocatable⟩

def freeReg (s : RegAllocState) (reg : Reg) : RegAllocState :=
  { s with
    regToTemp := Function.update s.regToTemp reg none
    freeRegs := if s.allocatable.contains reg then s.freeRegs.set reg else s.freeRegs }

def assign (s : RegAllocState) (reg : Reg) (t : Nat) : RegAllocState :=
  { s with
    regToTemp := Function.update s.regToTemp reg (some t)
    freeRegs := s.freeRegs.clear reg }

end RegAllocState

/-- One eviction as it was made: the register, the temp found in it, and the register that
temp was recorded in at that moment.  It is written down for the statements about
`evictReg`; the allocator does not read it. -/
structure Eviction where
  reg : Reg
  temp : Nat
  recorded : Option Reg
  deriving DecidableEq, Repr

/-- Everything the pass threads through: the context, the allocator state, the code so far
and the evictions so far. -/
structure Pass where
  ctx : Context
  state : RegAllocState
  buf : List HostInsn
  evictions : List Eviction

namespace Pass

def emit (p : Pass) (insn : HostInsn) : Pass := { p with buf := p.buf ++ [insn] }

def modTemp (p : Pass) (t : Nat) (f : Temp → Temp) : Pass := { p with ctx := p.ctx.modTemp t f }

def freeReg (p : Pass) (reg : Reg) : Pass := { p with state := p.state.freeReg reg }

def assign (p : Pass) (reg : Reg) (t : Nat) : Pass := { p with state := p.state.assign reg t }

end Pass

/-! ## Helper functions -/

/-- Sync a temp back to memory (globals and spilled locals). -/
def tempSync (p : Pass) (t : Nat) : Option Pass := do
  let temp ← p.ctx.temp t
  if temp.memCoherent then return p
  match temp.reg, temp.memBase with
  | none, _ => return p
  | some reg, some baseIdx =>
    let base ← p.ctx.temp baseIdx
    let baseReg ← base.reg
    return p.emit (.st temp.ty reg baseReg temp.memOffset)
  | some reg, none =>
    if temp.memAllocated then
      let frameReg ← p.ctx.frameReg
      return p.emit (.st temp.ty reg frameReg temp.memOffset)
    else return p

/-- Evict the current occupant of `reg`.  Globals are synced to memory; locals are spilled to
the stack frame. -/
def evictReg (p : Pass) (reg : Reg) : Option Pass :=
  match p.state.regToTemp reg with
  | none => some p
  | some t => do
    let temp ← p.ctx.temp t
    let p := { p with evictions := p.evictions ++ [⟨reg, t, temp.reg⟩] }
    if temp.isGlobalOrFixed then
      let p ← tempSync p t
      return (p.modTemp t Temp.toMem).freeReg reg
    else
      let (ctx, offset) ← p.ctx.allocTempFrame t
      let frameReg ← ctx.frameReg
      let p := { p with ctx := ctx }.emit (.st temp.ty reg frameReg offset)
      return (p.freeReg reg).modTemp t Temp.toMem

/-- Allocate a register from `required & ~forbidden`, preferring `preferred`.  Evicts an
occupant if necessary; if all required registers are forbidden, a forbidden one. -/
def regAlloc (p : Pass) (required forbidden preferred : RegSet) : Option (Pass × Reg) :=
  let candidates := (required.intersect p.state.allocatable).subtract forbidden
  match ((candidates.intersect p.state.freeRegs).intersect preferred).first with
  | some reg => some (p, reg)
  | none =>
    match (candidates.intersect p.state.freeRegs).first with
    | some reg => some (p, reg)
    | none =>
      match candidates.first with
      | some reg => do return (← evictReg p reg, reg)
      | none => do
        let reg ← (required.intersect p.state.allocatable).first
        return (← evictReg p reg, reg)

/-- Load a temp that lives in memory: a global from `[env + offset]`, a local from its spill
slot. -/
def loadFromMem (p : Pass) (temp : Temp) (reg : Reg) : Option Pass :=
  match temp.memBase with
  | some baseIdx => do
    let base ← p.ctx.temp baseIdx
    let baseReg ← base.reg
    return p.emit (.ld temp.ty reg baseReg temp.memOffset)
  | none =>
    if temp.memAllocated then do
      let frameReg ← p.ctx.frameReg
      return p.emit (.ld temp.ty reg frameReg temp.memOffset)
    else some p

/-- Load a temp into a register satisfying the constraint. -/
def tempLoadTo (p : Pass) (t : Nat) (required forbidden preferred : RegSet) :
    Option (Pass × Reg) := do
  let temp ← p.ctx.temp t
  match temp.valType with
  | .reg =>
    let cur ← temp.reg
    if required.contains cur && !forbidden.contains cur then return (p, cur)
    let (p, dst) ← regAlloc p required forbidden preferred
    let p := ((p.emit (.mov temp.ty dst cur)).freeReg cur).assign dst t
    return (p.modTemp t fun t => { t with reg := some dst }, dst)
  | .const =>
    let (p, reg) ← regAlloc p required forbidden preferred
    let p := (p.assign reg t).emit (.movi temp.ty reg temp.val)
    return (p.modTemp t fun t => { t with valType := .reg, reg := some reg }, reg)
  | .mem =>
    let (p, reg) ← regAlloc p required forbidden preferred
    let p := p.assign reg t
    let p ← loadFromMem p temp reg
    return (p.modTemp t fun t => { t with valType := .reg, reg := some reg, memCoherent := true },
      reg)
  | .dead => none

/-- Sync one global if it is in a register and its memory copy is stale. -/
def syncGlobal (p : Pass) (i : Nat) : Option Pass := do
  let temp ← p.ctx.temp i
  if temp.valType = .reg ∧ temp.memCoherent = false then
    let p ← tempSync p i
    return p.modTemp i fun t => { t with memCoherent := true }
  else return p

/-- Sync all live globals back to memory. -/
def syncGlobals (p : Pass) : Option Pass := (List.range p.ctx.nbGlobals).foldlM syncGlobal p

/-- Free a temp's register if it's dead after this op. -/
def tempDead (p : Pass) (t : Nat) : Option Pass := do
  let temp ← p.ctx.temp t
  if temp.isGlobalOrFixed then return p
  match temp.reg with
  | some reg => return (p.freeReg reg).modTemp t Temp.toDead
  | none => return p.modTemp t Temp.toDead

/-- `if life.is_dead(n) { temp_dead(..) }`. -/
def tempDeadIf (dead : Bool) (p : Pass) (t : Nat) : Option Pass :=
  if dead then tempDead p t else some p

/-- As `tempDead`, but the register is freed only if it still belongs to the temp. -/
def tempDeadInput (p : Pass) (t : Nat) : Option Pass := do
  let temp ← p.ctx.temp t
  if temp.isGlobalOrFixed then return p
  match temp.reg with
  | some reg =>
    if p.state.regToTemp reg = some t then return (p.freeReg reg).modTemp t Temp.toDead
    else return p.modTemp t Temp.toDead
  | none => return p.modTemp t Temp.toDead

/-- Give the temp an op defines its register.  `Mov`, `Call` and the output loop of
`regallocOp` share these lines. -/
def defineTemp (p : Pass) (reg : Reg) (t : Nat) : Option Pass := do
  let _ ← p.ctx.temp t
  return (p.assign reg t).modTemp t fun t =>
    { t with valType := .reg, reg := some reg, memCoherent := false }

/-! ## Calls -/

/-- The x86-64 System V caller-saved registers. -/
def callerSaved : List Reg := [.rax, .rcx, .rdx, .rsi, .rdi, .r8, .r9, .r10, .r11]

/-- Spill the local temp in a caller-saved register. -/
def spillLocal (p : Pass) (reg : Reg) : Option Pass :=
  match p.state.regToTemp reg with
  | none => some p
  | some t => do
    let temp ← p.ctx.temp t
    if temp.isGlobalOrFixed then return p else evictReg p reg

/-- Emit the load of one call argument into its fixed register, without changing the state of
the temp. -/
def loadArg (p : Pass) (t : Nat) (target : Reg) : Option Pass := do
  let temp ← p.ctx.temp t
  match temp.valType with
  | .reg =>
    let src ← temp.reg
    if src ≠ target then return p.emit (.mov temp.ty target src) else return p
  | .const => return p.emit (.movi temp.ty target temp.val)
  | .mem => loadFromMem p temp target
  | .dead => return p.emit (.movi temp.ty target 0)

/-- Free input `i` of an op if it is dead. -/
def freeDeadArg (op : Op) (p : Pass) (i : Nat) : Option Pass :=
  let pos := op.opc.opDef.nbOargs + i
  if op.life.isDead pos then tempDeadInput p (op.args pos) else some p

/-- Clobber one caller-saved register. -/
def clobberReg (p : Pass) (reg : Reg) : Option Pass :=
  match p.state.regToTemp reg with
  | none => some p
  | some t => do
    let temp ← p.ctx.temp t
    if temp.isGlobalOrFixed then return (p.modTemp t Temp.toMem).freeReg reg
    else return p.freeReg reg

/-- Dedicated register allocation for Call ops: sync globals, spill locals, load the
arguments, clobber the caller-saved registers, and take the result from its register. -/
def regallocCall (p : Pass) (op : Op) (ct : OpConstraint) : Option Pass := do
  let nbOargs := op.opc.opDef.nbOargs
  let inputs := List.range op.opc.opDef.nbIargs
  let p ← syncGlobals p
  let p ← callerSaved.foldlM spillLocal p
  let targets ← inputs.mapM fun i => (ct.args (nbOargs + i)).regs.first
  let p ← (op.iargs.zip targets).foldlM (fun p a => loadArg p a.1 a.2) p
  let p ← inputs.foldlM (freeDeadArg op) p
  let p ← callerSaved.foldlM clobberReg p
  let outReg ← (ct.args 0).regs.first
  let p := p.emit (.op op.opc op.opType [outReg] targets op.cargs)
  let p ← defineTemp p outReg (op.args 0)
  tempDeadIf (op.life.isDead 0) p (op.args 0)

/-! ## Generic ops -/

/-- What the input loop of `regallocOp` builds up: the register of each input, the registers
in use, the inputs whose register an output may take, and the Fixed temps that were moved
(temp, home register, register moved to). -/
structure Inputs where
  regs : Nat → Reg
  allocated : RegSet
  reusable : Nat → Bool
  fixedMoves : List (Nat × Reg × Reg)

def Inputs.new : Inputs := ⟨fun _ => .rax, .empty, fun _ => false, []⟩

/-- Whether the register of input `i` may be handed to the aliased output. -/
def reuses (op : Op) (ct : OpConstraint) (temp : Temp) (i : Nat) : Bool :=
  (ct.args (op.opc.opDef.nbOargs + i)).ialias && op.life.isDead (op.opc.opDef.nbOargs + i) &&
    !(temp.isGlobalOrFixed || temp.isConst)

/-- Process input `i`. -/
def loadInput (op : Op) (ct : OpConstraint) (s : Pass × Inputs) (i : Nat) :
    Option (Pass × Inputs) := do
  let (p, ins) := s
  let argCt := ct.args (op.opc.opDef.nbOargs + i)
  let t := op.args (op.opc.opDef.nbOargs + i)
  let temp ← p.ctx.temp t
  let origFixed := if temp.isFixed then temp.reg else none
  let preferred := if reuses op ct temp i then op.outputPref argCt.aliasIndex else .empty
  let (p, reg) ← tempLoadTo p t argCt.regs ins.allocated preferred
  let loaded ← p.ctx.temp t
  let fixedMoves := match origFixed, loaded.reg with
    | some orig, some cur => if cur ≠ orig then ins.fixedMoves ++ [(t, orig, cur)]
                             else ins.fixedMoves
    | _, _ => ins.fixedMoves
  return (p,
    { regs := Function.update ins.regs i reg
      allocated := ins.allocated.set reg
      reusable := if reuses op ct temp i then Function.update ins.reusable i true
                  else ins.reusable
      fixedMoves := fixedMoves })

/-- Re-read the register of input `i` after all inputs are processed: a later input's
allocation may have moved or evicted an earlier one. -/
def rereadInput (op : Op) (p : Pass) (ins : Inputs) (i : Nat) : Option Inputs := do
  let temp ← p.ctx.temp (op.args (op.opc.opDef.nbOargs + i))
  if temp.valType = .reg then
    let reg ← temp.reg
    return { ins with regs := Function.update ins.regs i reg, allocated := ins.allocated.set reg }
  else return ins

/-- The registers of the outputs processed so far. -/
structure Outputs where
  regs : Nat → Reg
  allocated : RegSet

def Outputs.new : Outputs := ⟨fun _ => .rax, .empty⟩

/-- Choose the register of output `k`. -/
def outputReg (op : Op) (ct : OpConstraint) (ins : Inputs) (p : Pass) (outs : Outputs) (k : Nat) :
    Option (Pass × Reg) :=
  let argCt := ct.args k
  if argCt.oalias then
    let ai := argCt.aliasIndex
    if ins.reusable ai then some (p, ins.regs ai)
    else do
      -- The input is still live: copy it away and take its register for the output.
      let oldReg := ins.regs ai
      let srcIdx := op.args (op.opc.opDef.nbOargs + ai)
      let src ← p.ctx.temp srcIdx
      let (p, copyReg) ←
        regAlloc p p.state.allocatable (ins.allocated.union outs.allocated) .empty
      let p := (p.emit (.mov src.ty copyReg oldReg)).assign copyReg srcIdx
      return (p.modTemp srcIdx fun t => { t with reg := some copyReg }, oldReg)
  else if argCt.newreg then
    regAlloc p argCt.regs (ins.allocated.union outs.allocated) .empty
  else
    regAlloc p argCt.regs outs.allocated .empty

/-- Process output `k`. -/
def allocOutput (op : Op) (ct : OpConstraint) (ins : Inputs) (s : Pass × Outputs) (k : Nat) :
    Option (Pass × Outputs) := do
  let (p, outs) := s
  let (p, reg) ← outputReg op ct ins p outs k
  let p ← defineTemp p reg (op.args k)
  return (p, { regs := Function.update outs.regs k reg, allocated := outs.allocated.set reg })

/-- Re-read the register of input `i` after the outputs. -/
def rereadOperand (op : Op) (p : Pass) (regs : Nat → Reg) (i : Nat) : Option (Nat → Reg) := do
  let temp ← p.ctx.temp (op.args (op.opc.opDef.nbOargs + i))
  match temp.valType, temp.reg with
  | .reg, some reg => return Function.update regs i reg
  | _, _ => return regs

/-- Free input `i` if it is dead and not an output too. -/
def freeDeadInput (op : Op) (p : Pass) (i : Nat) : Option Pass :=
  let pos := op.opc.opDef.nbOargs + i
  if op.life.isDead pos && !op.oargs.contains (op.args pos) then tempDeadInput p (op.args pos)
  else some p

/-- Restore a moved Fixed temp to its home register. -/
def restoreFixed (p : Pass) (move : Nat × Reg × Reg) : Option Pass := do
  let (t, origReg, movedReg) := move
  let temp ← p.ctx.temp t
  let p := if temp.isFixed then
      (p.modTemp t fun t => { t with valType := .reg, reg := some origReg }).assign origReg t
    else p
  if p.state.regToTemp movedReg = some t then return p.freeReg movedReg else return p

/-- Free output `k` if it is dead. -/
def freeDeadOutput (op : Op) (p : Pass) (k : Nat) : Option Pass :=
  tempDeadIf (op.life.isDead k) p (op.args k)

/-- Sync input `i` if its liveness asks for it. -/
def syncInput (op : Op) (p : Pass) (i : Nat) : Option Pass :=
  let pos := op.opc.opDef.nbOargs + i
  if op.life.isSync pos then do
    let p ← tempSync p (op.args pos)
    return p.modTemp (op.args pos) fun t => { t with memCoherent := true }
  else some p

/-- Generic constraint-driven register allocation for one op. -/
def regallocOp (p : Pass) (op : Op) (ct : OpConstraint) : Option Pass := do
  let inputs := List.range op.opc.opDef.nbIargs
  let outputs := List.range op.opc.opDef.nbOargs
  let (p, ins) ← inputs.foldlM (loadInput op ct) (p, Inputs.new)
  let ins ← inputs.foldlM (rereadInput op p) { ins with allocated := .empty }
  let (p, outs) ← outputs.foldlM (allocOutput op ct ins) (p, Outputs.new)
  let iregs ← inputs.foldlM (rereadOperand op p) ins.regs
  let p := p.emit (.op op.opc op.opType (outputs.map outs.regs) (inputs.map iregs) op.cargs)
  let p ← inputs.foldlM (freeDeadInput op) p
  let p ← ins.fixedMoves.foldlM restoreFixed p
  let p ← outputs.foldlM (freeDeadOutput op) p
  inputs.foldlM (syncInput op) p

/-! ## The main pass -/

/-- `Mov`: load the source, free it if dead, and give the destination a fresh register. -/
def regallocMov (p : Pass) (op : Op) : Option Pass := do
  let (p, srcReg) ← tempLoadTo p (op.args 1) allocatableRegs .empty .empty
  let p ← tempDeadIf (op.life.isDead 1) p (op.args 1)
  let (p, dstReg) ← regAlloc p allocatableRegs .empty .empty
  let p ← defineTemp p dstReg (op.args 0)
  let p := if dstReg ≠ srcReg then p.emit (.mov op.opType dstReg srcReg) else p
  tempDeadIf (op.life.isDead 0) p (op.args 0)

/-- `GotoPtr`: load the target, sync globals, jump. -/
def regallocGotoPtr (p : Pass) (op : Op) : Option Pass := do
  let (p, reg) ←
    tempLoadTo p (op.args 0) ((opConstraint op.opc).args 0).regs .empty .empty
  let p ← tempDeadIf (op.life.isDead 0) p (op.args 0)
  let p ← syncGlobals p
  return p.emit (.op op.opc op.opType [] [reg] [])

/-- Load input `i` of a conditional branch. -/
def loadBranchInput (op : Op) (s : Pass × List Reg × RegSet) (i : Nat) :
    Option (Pass × List Reg × RegSet) := do
  let (p, iregs, allocated) := s
  let pos := op.opc.opDef.nbOargs + i
  let (p, reg) ← tempLoadTo p (op.args pos) ((opConstraint op.opc).args pos).regs allocated .empty
  return (p, iregs ++ [reg], allocated.set reg)

/-- Free input `i` of a conditional branch if it is dead. -/
def freeBranchInput (op : Op) (p : Pass) (i : Nat) : Option Pass :=
  let pos := op.opc.opDef.nbOargs + i
  tempDeadIf (op.life.isDead pos) p (op.args pos)

/-- `BrCond`: load both inputs, free the dead ones, sync globals, branch. -/
def regallocBrCond (p : Pass) (op : Op) : Option Pass := do
  let inputs := List.range op.opc.opDef.nbIargs
  let (p, iregs, _) ← inputs.foldlM (loadBranchInput op) (p, [], .empty)
  let p ← inputs.foldlM (freeBranchInput op) p
  let p ← syncGlobals p
  return p.emit (.op op.opc op.opType [] iregs op.cargs)

/-- One iteration of the loop over the ops. -/
def stepOp (p : Pass) (op : Op) : Option Pass :=
  match op.opc with
  | .nop | .insnStart => some p
  | .mov => regallocMov p op
  | .setLabel => do return (← syncGlobals p).emit (.label (op.args 0))
  | .br => do return (← syncGlobals p).emit (.jmp (op.args 0))
  | .exitTb | .gotoTb => do return (← syncGlobals p).emit (.op op.opc op.opType [] [] op.cargs)
  | .call => regallocCall p op (opConstraint op.opc)
  | .gotoPtr => regallocGotoPtr p op
  | .mb => some (p.emit .mfence)
  | .brCond => regallocBrCond p op
  | opc => do
    let p ← regallocOp p op (opConstraint opc)
    if opc.opDef.flags.contains .bbEnd then syncGlobals p else return p

/-- Record the Fixed temp `i` in its register. -/
def initFixed (ctx : Context) (s : RegAllocState) (i : Nat) : RegAllocState :=
  match (ctx.temps i).kind, (ctx.temps i).reg with
  | .fixed, some reg => s.assign reg i
  | _, _ => s

/-- The state before the first op. -/
def initPass (ctx : Context) : Pass :=
  ⟨ctx, (List.range ctx.nbGlobals).foldl (initFixed ctx) (.new allocatableRegs), [], []⟩

/-- Main register allocation and code generation pass. -/
def regallocAndCodegen (ctx : Context) (ops : List Op) : Option Pass :=
  ops.foldlM stepOp (initPass ctx)

end TcgRs.Model.RegAlloc
