import TcgRs.Library.ByteReader

/-!
# ELF headers

`linux-user/src/elf.rs`: the ELF header and the program headers, read out of the bytes of the file
in place.  A header is the bytes from its offset on, so the fields that nothing reads are left out.
-/

set_option autoImplicit false

namespace TcgRs.Model.Linux

open Library

/-! ## Constants -/

def ELF_MAGIC : List UInt8 := [0x7f, 0x45, 0x4c, 0x46]
def ELFCLASS64 : Nat := 2
def ELFDATA2LSB : Nat := 1
def EV_CURRENT : Nat := 1
def ET_EXEC : Nat := 2
def EM_RISCV : Nat := 243

def PT_LOAD : Nat := 1
def PT_PHDR : Nat := 6

def PF_X : BitVec 32 := 1
def PF_W : BitVec 32 := 2
def PF_R : BitVec 32 := 4

def AT_NULL : BitVec 64 := 0
def AT_PHDR : BitVec 64 := 3
def AT_PHENT : BitVec 64 := 4
def AT_PHNUM : BitVec 64 := 5
def AT_PAGESZ : BitVec 64 := 6
def AT_ENTRY : BitVec 64 := 9
def AT_RANDOM : BitVec 64 := 25
def AT_EXECFN : BitVec 64 := 31

inductive ElfError where
  | tooSmall | invalidMagic | unsupportedClass | unsupportedEndian | unsupportedMachine
  | unsupportedType | invalidPhdr
  deriving DecidableEq, Repr

/-! ## Headers -/

/-- The little-endian field of `n` bytes at an offset. -/
def field (data : List UInt8) (offset n : Nat) : Nat :=
  fromLeBytes ((data.drop offset).take n)

structure Elf64Ehdr where
  eIdent : List UInt8
  eType : Nat
  eMachine : Nat
  eEntry : BitVec 64
  ePhoff : BitVec 64
  ePhentsize : Nat
  ePhnum : Nat
  deriving DecidableEq, Repr

structure Elf64Phdr where
  pType : Nat
  pFlags : BitVec 32
  pOffset : BitVec 64
  pVaddr : BitVec 64
  pFilesz : BitVec 64
  pMemsz : BitVec 64
  deriving DecidableEq, Repr

/-- `size_of::<Elf64Ehdr>()` and `size_of::<Elf64Phdr>()`. -/
def EHDR_SIZE : Nat := 64
def PHDR_SIZE : Nat := 56

/-- The program header that lies at an offset of the file. -/
def Elf64Phdr.at (data : List UInt8) (offset : Nat) : Elf64Phdr where
  pType := field data offset 4
  pFlags := BitVec.ofNat 32 (field data (offset + 4) 4)
  pOffset := BitVec.ofNat 64 (field data (offset + 8) 8)
  pVaddr := BitVec.ofNat 64 (field data (offset + 16) 8)
  pFilesz := BitVec.ofNat 64 (field data (offset + 32) 8)
  pMemsz := BitVec.ofNat 64 (field data (offset + 40) 8)

namespace Elf64Ehdr

def fromBytes (data : List UInt8) : Except ElfError Elf64Ehdr :=
  if data.length < EHDR_SIZE then .error .tooSmall
  else .ok {
    eIdent := data.take 16
    eType := field data 16 2
    eMachine := field data 18 2
    eEntry := BitVec.ofNat 64 (field data 24 8)
    ePhoff := BitVec.ofNat 64 (field data 32 8)
    ePhentsize := field data 54 2
    ePhnum := field data 56 2 }

def validateRiscv64 (self : Elf64Ehdr) : Except ElfError Unit :=
  if self.eIdent.take 4 ≠ ELF_MAGIC then .error .invalidMagic
  else if field self.eIdent 4 1 ≠ ELFCLASS64 then .error .unsupportedClass
  else if field self.eIdent 5 1 ≠ ELFDATA2LSB then .error .unsupportedEndian
  else if field self.eIdent 6 1 ≠ EV_CURRENT then .error .invalidMagic
  else if self.eMachine ≠ EM_RISCV then .error .unsupportedMachine
  else if self.eType ≠ ET_EXEC then .error .unsupportedType
  else .ok ()

/-- The program headers: `num` structures one after another from `off` on.  The checks are on the
stride of the file; `checked_mul` never fails, both factors having 16 bits. -/
def programHeaders (self : Elf64Ehdr) (data : List UInt8) : Except ElfError (List Elf64Phdr) :=
  let off := self.ePhoff.toNat
  let num := self.ePhnum
  let ent := self.ePhentsize
  if ent < PHDR_SIZE then .error .invalidPhdr
  else if 2 ^ 64 ≤ off + num * ent then .error .invalidPhdr
  else if data.length < off + num * ent then .error .invalidPhdr
  else .ok ((List.range num).map fun i => Elf64Phdr.at data (off + PHDR_SIZE * i))

end Elf64Ehdr

end TcgRs.Model.Linux
