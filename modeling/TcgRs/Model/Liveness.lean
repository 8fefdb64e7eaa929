import TcgRs.Model.Ir.Context

/-!
# Liveness analysis

`backend/src/liveness.rs`: one backward pass over the ops that marks which arguments are dead after
an op and which have to be synced.  Ops are numbered by their positions.
-/

set_option autoImplicit false

namespace TcgRs.Model.Liveness

open Ir

/-- The live temps, and the liveness bits of the op. -/
structure LiveState where
  live : Nat → Bool
  life : LifeData

/-- Process output `i`. -/
def processOutput (ctx : Context) (op : Op) (s : LiveState) (i : Nat) : LiveState :=
  let t := op.args i
  if t < ctx.nbTemps then
    ⟨Function.update s.live t false, if s.live t then s.life else s.life.setDead i⟩
  else s

/-- Mark argument `pos`, the last use of its temp.  A global is synced before it dies. -/
def lastUse (ctx : Context) (life : LifeData) (t pos : Nat) : LifeData :=
  let life := life.setDead pos
  if (ctx.temps t).kind = .global then life.setSync pos else life

/-- Process input `i`. -/
def processInput (ctx : Context) (op : Op) (s : LiveState) (i : Nat) : LiveState :=
  let pos := op.opc.opDef.nbOargs + i
  let t := op.args pos
  if t < ctx.nbTemps then
    ⟨Function.update s.live t true, if s.live t then s.life else lastUse ctx s.life t pos⟩
  else s

/-- The live temps at the end of a basic block: all globals are. -/
def atBlockEnd (ctx : Context) (live : Nat → Bool) : Nat → Bool :=
  fun t => decide (t < ctx.nbGlobals) || live t

/-- One op, backwards: the live temps before it, and the op with its liveness bits.  `Nop` and
`InsnStart` are skipped. -/
def livenessOp (ctx : Context) (live : Nat → Bool) (op : Op) : (Nat → Bool) × Op :=
  let live := if op.opc.opDef.flags.contains .bbEnd then atBlockEnd ctx live else live
  if op.opc = .nop ∨ op.opc = .insnStart then (live, op)
  else
    let s := (List.range op.opc.opDef.nbOargs).foldl (processOutput ctx op) ⟨live, ⟨0⟩⟩
    let s := (List.range op.opc.opDef.nbIargs).foldl (processInput ctx op) s
    (s.live, { op with life := s.life })

/-- The live temps before a list of ops, and the ops with their liveness bits. -/
def livenessFrom (ctx : Context) : List Op → (Nat → Bool) × List Op
  | [] => (atBlockEnd ctx fun _ => false, [])
  | op :: ops =>
    let (live, ops) := livenessFrom ctx ops
    let (live, op) := livenessOp ctx live op
    (live, op :: ops)

/-- Perform backward liveness analysis over the ops. -/
def livenessAnalysis (ctx : Context) (ops : List Op) : List Op := (livenessFrom ctx ops).2

end TcgRs.Model.Liveness
