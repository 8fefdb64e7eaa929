import TcgRs.Model.Ir.Context

/-!
# Register constraints of the opcodes

`backend/src/constraint.rs`, the allocatable registers of `backend/src/x86_64/regs.rs` and
the constraint table of `backend/src/x86_64/constraints.rs`: for each argument of an opcode
the registers it may use, and which output shares the register of which input.
-/

set_option autoImplicit false

namespace TcgRs.Model.X86

open Ir

/-- All general-purpose registers but RSP, RBP and R14, which the backend reserves. -/
def allocatableRegs : RegSet :=
  .ofList [.rax, .rcx, .rdx, .rbx, .rsi, .rdi, .r8, .r9, .r10, .r11, .r12, .r13, .r15]

/-- Constraint on one argument of an op.  `aliasIndex` is the input that an `oalias` output
shares its register with, and the output that an `ialias` input gives its register to. -/
structure ArgConstraint where
  regs : RegSet
  oalias : Bool
  ialias : Bool
  aliasIndex : Nat
  newreg : Bool

/-- The constraint of an argument that is not used. -/
def ArgConstraint.unused : ArgConstraint := ⟨.empty, false, false, 0, false⟩

/-- Constraints of an opcode's arguments, outputs first. -/
structure OpConstraint where
  args : Nat → ArgConstraint

def OpConstraint.ofList (l : List ArgConstraint) : OpConstraint :=
  ⟨fun i => l.getD i .unused⟩

def OpConstraint.empty : OpConstraint := .ofList []

/-! ## Builders -/

def r (regs : RegSet) : ArgConstraint := ⟨regs, false, false, 0, false⟩

def fixed (reg : Reg) : ArgConstraint := ⟨.ofList [reg], false, false, 0, false⟩

def newreg (regs : RegSet) : ArgConstraint := ⟨regs, false, false, 0, true⟩

/-- An output that takes the register of input `i`. -/
def oalias (regs : RegSet) (i : Nat) : ArgConstraint := ⟨regs, true, false, i, false⟩

/-- An input whose register output `o` takes. -/
def ialias (regs : RegSet) (o : Nat) : ArgConstraint := ⟨regs, false, true, o, false⟩

def o1I1Alias (o0 _i0 : RegSet) : OpConstraint := .ofList [oalias o0 0, ialias o0 0]

def o1I1 (o0 i0 : RegSet) : OpConstraint := .ofList [r o0, r i0]

def o1I2 (o0 i0 i1 : RegSet) : OpConstraint := .ofList [r o0, r i0, r i1]

def o1I2Alias (o0 _i0 i1 : RegSet) : OpConstraint := .ofList [oalias o0 0, ialias o0 0, r i1]

def o1I2AliasFixed (o0 _i0 : RegSet) (i1Reg : Reg) : OpConstraint :=
  .ofList [oalias o0 0, ialias o0 0, fixed i1Reg]

def o0I2 (i0 i1 : RegSet) : OpConstraint := .ofList [r i0, r i1]

def n1I2 (o0 i0 i1 : RegSet) : OpConstraint := .ofList [newreg o0, r i0, r i1]

def o0I1 (i0 : RegSet) : OpConstraint := .ofList [r i0]

def o2I2Fixed (o0Reg o1Reg : Reg) (i1 : RegSet) : OpConstraint :=
  .ofList [oalias (.ofList [o0Reg]) 0, fixed o1Reg, ialias (.ofList [o0Reg]) 0, r i1]

def o2I3Fixed (o0Reg o1Reg : Reg) (i2 : RegSet) : OpConstraint :=
  .ofList [oalias (.ofList [o0Reg]) 0, oalias (.ofList [o1Reg]) 1,
    ialias (.ofList [o0Reg]) 0, ialias (.ofList [o1Reg]) 1, r i2]

def o1I4Alias2 (o0 i0 i1 _i2 i3 : RegSet) : OpConstraint :=
  .ofList [oalias o0 2, r i0, r i1, ialias o0 0, r i3]

/-! ## The x86-64 table -/

def rNoRcx : RegSet := allocatableRegs.clear .rcx

def rNoRaxRdx : RegSet := (allocatableRegs.clear .rax).clear .rdx

/-- The register constraint of an opcode on x86-64. -/
def opConstraint : Opcode → OpConstraint
  | .add => o1I2 allocatableRegs allocatableRegs allocatableRegs
  | .sub | .mul | .and | .or | .xor => o1I2Alias allocatableRegs allocatableRegs allocatableRegs
  | .neg | .not => o1I1Alias allocatableRegs allocatableRegs
  | .shl | .shr | .sar | .rotL | .rotR => o1I2AliasFixed rNoRcx rNoRcx .rcx
  | .setCond | .negSetCond => n1I2 allocatableRegs allocatableRegs allocatableRegs
  | .movCond =>
      o1I4Alias2 allocatableRegs allocatableRegs allocatableRegs allocatableRegs allocatableRegs
  | .brCond => o0I2 allocatableRegs allocatableRegs
  | .mulS2 | .mulU2 => o2I2Fixed .rax .rdx rNoRaxRdx
  | .divS2 | .divU2 => o2I3Fixed .rax .rdx rNoRaxRdx
  | .addCO | .addCI | .addCio | .addC1O | .subBO | .subBI | .subBio | .subB1O =>
      o1I2Alias allocatableRegs allocatableRegs allocatableRegs
  | .andC => o1I2 allocatableRegs allocatableRegs allocatableRegs
  | .extract | .sExtract => o1I1 allocatableRegs allocatableRegs
  | .deposit | .extract2 => o1I2Alias allocatableRegs allocatableRegs allocatableRegs
  | .bswap16 | .bswap32 | .bswap64 => o1I1Alias allocatableRegs allocatableRegs
  | .clz | .ctz => n1I2 allocatableRegs allocatableRegs allocatableRegs
  | .ctPop => o1I1 allocatableRegs allocatableRegs
  | .extrhI64I32 => o1I1Alias allocatableRegs allocatableRegs
  | .gotoPtr => o0I1 allocatableRegs
  | .ld | .ld8U | .ld8S | .ld16U | .ld16S | .ld32U | .ld32S =>
      o1I1 allocatableRegs allocatableRegs
  | .st | .st8 | .st16 | .st32 => o0I2 allocatableRegs allocatableRegs
  | .extI32I64 | .extUI32I64 | .extrlI64I32 => o1I1 allocatableRegs allocatableRegs
  | .qemuLd => o1I1 allocatableRegs allocatableRegs
  | .qemuSt => o0I2 allocatableRegs allocatableRegs
  | .call =>
      .ofList [fixed .rax, fixed .rdi, fixed .rsi, fixed .rdx, fixed .rcx, fixed .r8, fixed .r9]
  | _ => .empty

end TcgRs.Model.X86
