import TcgRs.Interface.IrSemantics
import TcgRs.Model.Ir.Builder

/-!
# The guest machine

The ops that access guest memory or work on double words, after the op tables of `docs/ir-ops.md`:
guest memory is a byte for each address, words are little-endian, and addresses wrap.  A division
by zero and a quotient that does not fit trap, as on the host.  The other effects stay a parameter.
-/

set_option autoImplicit false

namespace TcgRs.Interface.Ir

open Model.Ir

/-! ## Memory -/

/-- A byte for each guest address. -/
abbrev GuestMemory := BitVec 64 → BitVec 8

/-- The word with the given bytes, least significant first. -/
def ofBytes : List (BitVec 8) → BitVec 64
  | [] => 0
  | byte :: bytes => byte.setWidth 64 ||| (ofBytes bytes <<< 8)

/-- The low bytes of a word, least significant first. -/
def toBytes (n : Nat) (val : BitVec 64) : List (BitVec 8) :=
  (List.range n).map fun i => val.extractLsb' (8 * i) 8

def readBytes (mem : GuestMemory) (addr : BitVec 64) (n : Nat) : List (BitVec 8) :=
  (List.range n).map fun i => mem (addr + BitVec.ofNat 64 i)

def writeBytes (mem : GuestMemory) (addr : BitVec 64) (bytes : List (BitVec 8)) : GuestMemory :=
  fun a => bytes.getD (a - addr).toNat (mem a)

/-- The bytes of an access in the order of their weight. -/
def inOrder (memop : MemOp) (bytes : List (BitVec 8)) : List (BitVec 8) :=
  if memop.isBswap then bytes.reverse else bytes

/-- The low `n` bits, extended to 64 bits. -/
def extendFrom (n : Nat) (signed : Bool) (val : BitVec 64) : BitVec 64 :=
  if signed then (val.setWidth n).signExtend 64 else (val.setWidth n).setWidth 64

def loadValue (memop : MemOp) (mem : GuestMemory) (addr : BitVec 64) : BitVec 64 :=
  extendFrom (8 * memop.sizeBytes) memop.isSigned
    (ofBytes (inOrder memop (readBytes mem addr memop.sizeBytes)))

def storeValue (memop : MemOp) (mem : GuestMemory) (addr val : BitVec 64) : GuestMemory :=
  writeBytes mem addr (inOrder memop (toBytes memop.sizeBytes val))

/-! ## Double words -/

variable {n : Nat}

/-- The low and the high word of an integer. -/
def splitWide (n : Nat) (product : Int) : BitVec n × BitVec n :=
  (BitVec.ofInt n product, BitVec.ofInt n (product / 2 ^ n))

def mulWideS (x y : BitVec n) : BitVec n × BitVec n := splitWide n (x.toInt * y.toInt)

def mulWideU (x y : BitVec n) : BitVec n × BitVec n := splitWide n (x.toNat * y.toNat : Nat)

/-- Quotient and remainder, rounding to zero; `none` is the trap. -/
def divWideS (lo hi divisor : BitVec n) : Option (BitVec n × BitVec n) :=
  let quotient := (hi ++ lo).toInt.tdiv divisor.toInt
  if divisor = 0 ∨ ¬(-2 ^ (n - 1) ≤ quotient ∧ quotient < 2 ^ (n - 1)) then none
  else some (BitVec.ofInt n quotient, BitVec.ofInt n ((hi ++ lo).toInt.tmod divisor.toInt))

def divWideU (lo hi divisor : BitVec n) : Option (BitVec n × BitVec n) :=
  let quotient := (hi ++ lo).toNat / divisor.toNat
  if divisor = 0 ∨ ¬quotient < 2 ^ n then none
  else some (BitVec.ofNat n quotient, BitVec.ofNat n ((hi ++ lo).toNat % divisor.toNat))

/-- A pair of results as 64-bit values. -/
def pairOf (r : BitVec n × BitVec n) : BitVec 64 × BitVec 64 := (r.1.setWidth 64, r.2.setWidth 64)

/-- A multiplication at the width of a type. -/
def mulAtType (ty : IrType) (f : ∀ n : Nat, BitVec n → BitVec n → BitVec n × BitVec n)
    (x y : BitVec 64) : BitVec 64 × BitVec 64 :=
  if ty = .i32 then pairOf (f 32 (x.setWidth 32) (y.setWidth 32)) else f 64 x y

/-- A division at the width of a type. -/
def divAtType (ty : IrType)
    (f : ∀ n : Nat, BitVec n → BitVec n → BitVec n → Option (BitVec n × BitVec n))
    (lo hi divisor : BitVec 64) : Option (BitVec 64 × BitVec 64) :=
  if ty = .i32 then (f 32 (lo.setWidth 32) (hi.setWidth 32) (divisor.setWidth 32)).map pairOf
  else f 64 lo hi divisor

/-! ## Effects -/

/-- Guest memory, the words of host memory by address, and whether a division has trapped.  The code
reaches the fields of the CPU state, all of them 64-bit words, from the env pointer. -/
structure Guest where
  mem : GuestMemory
  host : BitVec 64 → BitVec 64
  trapped : Bool

/-- The address of a field: the offset of an op is a signed 32-bit number. -/
def fieldAddr (base : BitVec 64) (offset : Nat) : BitVec 64 :=
  base + (BitVec.ofNat 32 offset).signExtend 64

/-- Two outputs. -/
def outputs (r : BitVec 64 × BitVec 64) : Nat → BitVec 64 := fun i => if i = 0 then r.1 else r.2

/-- The outputs of a division and the machine after it. -/
def divided (m : Guest) : Option (BitVec 64 × BitVec 64) → (Nat → BitVec 64) × Guest
  | some r => (outputs r, m)
  | none => (fun _ => 0, { m with trapped := true })

/-- The effects of the guest machine; `rest` has those of the other ops. -/
def guestEffects (rest : Effects Guest) : Effects Guest where
  run opc ty cargs inputs globals m :=
    match opc, cargs, inputs with
    | .mulS2, _, [x, y] => (outputs (mulAtType ty (fun _ => mulWideS) x y), m)
    | .mulU2, _, [x, y] => (outputs (mulAtType ty (fun _ => mulWideU) x y), m)
    | .divS2, _, [lo, hi, y] => divided m (divAtType ty (fun _ => divWideS) lo hi y)
    | .divU2, _, [lo, hi, y] => divided m (divAtType ty (fun _ => divWideU) lo hi y)
    | .qemuLd, [bits], [addr] =>
      (fun _ => atType ty (fun _ x => x) (loadValue ⟨.ofNat 16 bits⟩ m.mem addr), m)
    | .qemuSt, [bits], [val, addr] =>
      (fun _ => 0, { m with mem := storeValue ⟨.ofNat 16 bits⟩ m.mem addr val })
    | .ld, [offset], [base] =>
      (fun _ => atType ty (fun _ x => x) (m.host (fieldAddr base offset)), m)
    | .st, [offset], [val, base] =>
      if ty = .i64 then
        (fun _ => 0, { m with host := Function.update m.host (fieldAddr base offset) val })
      else rest.run opc ty cargs inputs globals m
    | .mb, _, _ => (fun _ => 0, m)
    | _, _, _ => rest.run opc ty cargs inputs globals m

/-! ## Control -/

section
variable {σ : Type} (E : Effects σ) (C : Context) (ops : List Op)

/-- The interpreter gets from one position and state to another. -/
def Reaches (pc : Nat) (s : State σ) (pc' : Nat) (s' : State σ) : Prop :=
  ∃ steps, ∀ fuel, run E C ops (steps + fuel) pc s = run E C ops fuel pc' s'

/-- The interpreter leaves the list from a position and state. -/
def Exits (pc : Nat) (s : State σ) (exit : Exit) (s' : State σ) : Prop :=
  ∃ steps, ∀ fuel, run E C ops (steps + fuel) pc s = some (exit, s')

/-- The labels that the ops set are below `n`. -/
def LabelsBelow (n : Nat) (ops : List Op) : Prop := ∀ op ∈ ops, op.opc = .setLabel → op.args 0 < n

end

end TcgRs.Interface.Ir
