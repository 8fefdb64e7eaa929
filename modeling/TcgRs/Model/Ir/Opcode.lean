import Mathlib.Data.BitVec

/-!
# Opcodes and their definitions

The IR value types of `core/src/types.rs` and the opcode table of `core/src/opcode.rs`: for
each opcode how many outputs, inputs and constant arguments it takes, and its flags.  The
printed names of the table are left out.
-/

set_option autoImplicit false

namespace TcgRs.Model.Ir

/-- Width of an IR operand. -/
inductive IrType where
  | i32 | i64 | i128 | v64 | v128 | v256
  deriving DecidableEq, Repr

def IrType.sizeBits : IrType → Nat
  | .i32 => 32
  | .i64 => 64
  | .i128 => 128
  | .v64 => 64
  | .v128 => 128
  | .v256 => 256

def IrType.sizeBytes (ty : IrType) : Nat := ty.sizeBits / 8

/-- Comparison conditions of branches and `setcond`. -/
inductive Cond where
  | never | always | eq | ne | lt | ge | le | gt | ltu | geu | leu | gtu | tstEq | tstNe
  deriving DecidableEq, Repr

def Cond.isSigned : Cond → Bool
  | .lt | .ge | .le | .gt => true
  | _ => false

/-- Whether the condition tests the AND of its operands. -/
def Cond.isTst : Cond → Bool
  | .tstEq | .tstNe => true
  | _ => false

/-- The condition encoded in a constant argument. -/
def Cond.ofCode : Nat → Option Cond
  | 0 => some .never
  | 1 => some .always
  | 8 => some .eq
  | 9 => some .ne
  | 10 => some .lt
  | 11 => some .ge
  | 12 => some .le
  | 13 => some .gt
  | 14 => some .ltu
  | 15 => some .geu
  | 16 => some .leu
  | 17 => some .gtu
  | 18 => some .tstEq
  | 19 => some .tstNe
  | _ => none

/-- The IR opcodes, in the order of the source. -/
inductive Opcode where
  | mov | setCond | negSetCond | movCond
  | add | sub | mul | neg | divS | divU | remS | remU | divS2 | divU2
  | mulSH | mulUH | mulS2 | mulU2
  | addCO | addCI | addCio | addC1O | subBO | subBI | subBio | subB1O
  | and | or | xor | not | andC | orC | eqv | nand | nor
  | shl | shr | sar | rotL | rotR
  | extract | sExtract | deposit | extract2
  | bswap16 | bswap32 | bswap64
  | clz | ctz | ctPop
  | brCond2I32 | setCond2I32
  | extI32I64 | extUI32I64 | extrlI64I32 | extrhI64I32
  | ld8U | ld8S | ld16U | ld16S | ld32U | ld32S | ld | st8 | st16 | st32 | st
  | qemuLd | qemuSt | qemuLd2 | qemuSt2
  | br | brCond | setLabel | gotoTb | exitTb | gotoPtr | mb
  | call
  | pluginCb | pluginMemCb
  | nop | discard | insnStart
  | movVec | dupVec | dup2Vec | ldVec | stVec | dupmVec
  | addVec | subVec | mulVec | negVec | absVec
  | ssaddVec | usaddVec | sssubVec | ussubVec | sminVec | uminVec | smaxVec | umaxVec
  | andVec | orVec | xorVec | andcVec | orcVec | nandVec | norVec | eqvVec | notVec
  | shliVec | shriVec | sariVec | rotliVec
  | shlsVec | shrsVec | sarsVec | rotlsVec
  | shlvVec | shrvVec | sarvVec | rotlvVec | rotrvVec
  | cmpVec | bitselVec | cmpselVec
  deriving DecidableEq, Repr

/-- Property flags of an opcode. -/
structure OpFlags where
  bits : BitVec 16
  deriving DecidableEq, Repr

namespace OpFlags

def none : OpFlags := ⟨0⟩
def bbExit : OpFlags := ⟨0x01⟩
def bbEnd : OpFlags := ⟨0x02⟩
def callClobber : OpFlags := ⟨0x04⟩
def sideEffects : OpFlags := ⟨0x08⟩
def int : OpFlags := ⟨0x10⟩
def notPresent : OpFlags := ⟨0x20⟩
def vector : OpFlags := ⟨0x40⟩
def condBranch : OpFlags := ⟨0x80⟩
def carryOut : OpFlags := ⟨0x100⟩
def carryIn : OpFlags := ⟨0x200⟩

def contains (f other : OpFlags) : Bool := f.bits &&& other.bits == other.bits

def union (f other : OpFlags) : OpFlags := ⟨f.bits ||| other.bits⟩

end OpFlags

/-- Argument counts and flags of an opcode. -/
structure OpDef where
  nbOargs : Nat
  nbIargs : Nat
  nbCargs : Nat
  flags : OpFlags
  deriving DecidableEq, Repr

open OpFlags in
/-- The opcode table `OPCODE_DEFS`. -/
def Opcode.opDef : Opcode → OpDef
  | .mov => ⟨1, 1, 0, int.union notPresent⟩
  | .setCond | .negSetCond => ⟨1, 2, 1, int⟩
  | .movCond => ⟨1, 4, 1, int⟩
  | .add | .sub | .mul => ⟨1, 2, 0, int⟩
  | .neg => ⟨1, 1, 0, int⟩
  | .divS | .divU | .remS | .remU => ⟨1, 2, 0, int⟩
  | .divS2 | .divU2 => ⟨2, 3, 0, int⟩
  | .mulSH | .mulUH => ⟨1, 2, 0, int⟩
  | .mulS2 | .mulU2 => ⟨2, 2, 0, int⟩
  | .addCO | .addC1O | .subBO | .subB1O => ⟨1, 2, 0, int.union carryOut⟩
  | .addCI | .subBI => ⟨1, 2, 0, int.union carryIn⟩
  | .addCio | .subBio => ⟨1, 2, 0, (int.union carryIn).union carryOut⟩
  | .and | .or | .xor => ⟨1, 2, 0, int⟩
  | .not => ⟨1, 1, 0, int⟩
  | .andC | .orC | .eqv | .nand | .nor => ⟨1, 2, 0, int⟩
  | .shl | .shr | .sar | .rotL | .rotR => ⟨1, 2, 0, int⟩
  | .extract | .sExtract => ⟨1, 1, 2, int⟩
  | .deposit => ⟨1, 2, 2, int⟩
  | .extract2 => ⟨1, 2, 1, int⟩
  | .bswap16 | .bswap32 | .bswap64 => ⟨1, 1, 1, int⟩
  | .clz | .ctz => ⟨1, 2, 0, int⟩
  | .ctPop => ⟨1, 1, 0, int⟩
  | .brCond2I32 => ⟨0, 4, 2, bbEnd.union condBranch⟩
  | .setCond2I32 => ⟨1, 4, 1, none⟩
  | .extI32I64 | .extUI32I64 | .extrlI64I32 | .extrhI64I32 => ⟨1, 1, 0, none⟩
  | .ld8U | .ld8S | .ld16U | .ld16S | .ld32U | .ld32S | .ld => ⟨1, 1, 1, int⟩
  | .st8 | .st16 | .st32 | .st => ⟨0, 2, 1, int⟩
  | .qemuLd => ⟨1, 1, 1, (callClobber.union sideEffects).union int⟩
  | .qemuSt => ⟨0, 2, 1, (callClobber.union sideEffects).union int⟩
  | .qemuLd2 => ⟨2, 1, 1, (callClobber.union sideEffects).union int⟩
  | .qemuSt2 => ⟨0, 3, 1, (callClobber.union sideEffects).union int⟩
  | .br => ⟨0, 0, 1, bbEnd.union notPresent⟩
  | .brCond => ⟨0, 2, 2, (bbEnd.union condBranch).union int⟩
  | .setLabel => ⟨0, 0, 1, bbEnd.union notPresent⟩
  | .gotoTb | .exitTb => ⟨0, 0, 1, (bbExit.union bbEnd).union notPresent⟩
  | .gotoPtr => ⟨0, 1, 0, bbExit.union bbEnd⟩
  | .mb => ⟨0, 0, 1, notPresent⟩
  | .call => ⟨1, 6, 2, callClobber.union notPresent⟩
  | .pluginCb => ⟨0, 0, 1, notPresent⟩
  | .pluginMemCb => ⟨0, 1, 1, notPresent⟩
  | .nop => ⟨0, 0, 0, notPresent⟩
  | .discard => ⟨1, 0, 0, notPresent⟩
  | .insnStart => ⟨0, 0, 2, notPresent⟩
  | .movVec => ⟨1, 1, 0, vector.union notPresent⟩
  | .dupVec => ⟨1, 1, 0, vector⟩
  | .dup2Vec => ⟨1, 2, 0, vector⟩
  | .ldVec | .dupmVec => ⟨1, 1, 1, vector⟩
  | .stVec => ⟨0, 2, 1, vector⟩
  | .addVec | .subVec | .mulVec => ⟨1, 2, 0, vector⟩
  | .negVec | .absVec | .notVec => ⟨1, 1, 0, vector⟩
  | .ssaddVec | .usaddVec | .sssubVec | .ussubVec => ⟨1, 2, 0, vector⟩
  | .sminVec | .uminVec | .smaxVec | .umaxVec => ⟨1, 2, 0, vector⟩
  | .andVec | .orVec | .xorVec | .andcVec | .orcVec | .nandVec | .norVec | .eqvVec =>
      ⟨1, 2, 0, vector⟩
  | .shliVec | .shriVec | .sariVec | .rotliVec => ⟨1, 1, 1, vector⟩
  | .shlsVec | .shrsVec | .sarsVec | .rotlsVec => ⟨1, 2, 0, vector⟩
  | .shlvVec | .shrvVec | .sarvVec | .rotlvVec | .rotrvVec => ⟨1, 2, 0, vector⟩
  | .cmpVec => ⟨1, 2, 1, vector⟩
  | .bitselVec => ⟨1, 3, 0, vector⟩
  | .cmpselVec => ⟨1, 4, 1, vector⟩

end TcgRs.Model.Ir
