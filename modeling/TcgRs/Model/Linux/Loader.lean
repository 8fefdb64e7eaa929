import TcgRs.Model.Linux.Elf
import TcgRs.Model.Linux.GuestSpace

/-!
# Loading an ELF executable

`linux-user/src/loader.rs`: the segments of the file are mapped and copied in file order, and the
initial stack is built.  The addresses on the stack depend on nothing in memory, so they are
computed first, as a list of writes in the order of the source, and the writes are then made.
-/

set_option autoImplicit false

namespace TcgRs.Model.Linux

open Library

inductive LoadError where
  | io
  | elf (e : ElfError)
  | noLoadSegment
  | segmentOutOfRange
  deriving DecidableEq, Repr

/-- The host's answers to the calls for each program header, by its index, and for the stack. -/
structure HostAnswers where
  mmap : Nat → Bool
  mprotect : Nat → Bool
  stack : Bool

/-- Result of loading an ELF binary. -/
structure ElfInfo where
  entry : Word
  phdrAddr : Word
  phnum : Nat
  sp : Word
  brk : Word
  deriving DecidableEq, Repr

/-- Convert ELF p_flags to mmap prot flags. -/
def elfToProt (flags : BitVec 32) : BitVec 32 :=
  (if flags &&& PF_R ≠ 0 then PROT_READ else 0) |||
    (if flags &&& PF_W ≠ 0 then PROT_WRITE else 0) |||
    (if flags &&& PF_X ≠ 0 then PROT_EXEC else 0)

/-! ## Segments -/

section

variable (answers : HostAnswers) (data : List UInt8)

/-- Map the pages of a segment, writable for the copy. -/
def mapSegment (i : Nat) (alignedStart alignedSize : Word) : Guest LoadError Unit := do
  if ← Guest.mmapFixed (answers.mmap i) alignedStart alignedSize (PROT_READ ||| PROT_WRITE) then
    return ()
  else Guest.fail .io

/-- Copy file data. -/
def copyFileData (ph : Elf64Phdr) : Guest LoadError Unit :=
  if ph.pFilesz = 0 then return ()
  else do
    let srcOff := ph.pOffset
    let srcEnd ← Guest.add srcOff ph.pFilesz
    if data.length < srcEnd.toNat then Guest.fail (.elf .invalidPhdr)
    else if srcEnd.toNat < srcOff.toNat then Guest.panic .slice
    else Guest.writeBytes ph.pVaddr ((data.drop srcOff.toNat).take (srcEnd.toNat - srcOff.toNat))

/-- Set final permissions. -/
def protectSegment (i : Nat) (alignedStart alignedSize : Word) (prot : BitVec 32) :
    Guest LoadError Unit :=
  if prot = PROT_READ ||| PROT_WRITE then return ()
  else do
    if ← Guest.mprotect (answers.mprotect i) alignedStart alignedSize prot then return ()
    else Guest.fail .io

/-- The page-aligned end of a segment. -/
def segmentEnd (ph : Elf64Phdr) : Guest LoadError Word := do
  let vend ← Guest.add ph.pVaddr ph.pMemsz
  pageAlignUp vend

/-- Load one PT_LOAD segment; the break so far goes in, the new one comes out. -/
def loadSegment (i : Nat) (ph : Elf64Phdr) (brk : Word) : Guest LoadError Word := do
  let alignedStart := pageAlignDown ph.pVaddr
  let alignedEnd ← segmentEnd ph
  let alignedSize ← Guest.sub alignedEnd alignedStart
  if GUEST_STACK_TOP < alignedEnd then Guest.fail .segmentOutOfRange
  else do
    mapSegment answers i alignedStart alignedSize
    copyFileData data ph
    protectSegment answers i alignedStart alignedSize (elfToProt ph.pFlags)
    let segEnd ← segmentEnd ph
    return if brk < segEnd then segEnd else brk

/-- The loop over the program headers from index `i` on. -/
def loadSegments : Nat → List Elf64Phdr → Word → Guest LoadError Word
  | _, [], brk => return brk
  | i, ph :: phs, brk =>
    if ph.pType = PT_LOAD then do
      let brk ← loadSegment answers data i ph brk
      loadSegments (i + 1) phs brk
    else loadSegments (i + 1) phs brk

/-- Find phdr_addr from PT_PHDR or first PT_LOAD. -/
def findPhdrAddr (ehdr : Elf64Ehdr) (phdrs : List Elf64Phdr) : Guest LoadError Word :=
  let phdrAddr := phdrs.foldl (fun a ph => if ph.pType = PT_PHDR then ph.pVaddr else a) 0
  if phdrAddr = 0 then
    match phdrs.find? fun ph => decide (ph.pType = PT_LOAD) with
    | some ph => Guest.add ph.pVaddr ehdr.ePhoff
    | none => return phdrAddr
  else return phdrAddr

/-- The headers of a file that passes the checks. -/
def parseElf : Except ElfError (Elf64Ehdr × List Elf64Phdr) := do
  let ehdr ← Elf64Ehdr.fromBytes data
  ehdr.validateRiscv64
  let phdrs ← ehdr.programHeaders data
  return (ehdr, phdrs)

/-- `load_elf` up to the initial stack: the header, the address of the program headers and the
break. -/
def loadImage : Guest LoadError (Elf64Ehdr × Word × Word) :=
  match parseElf data with
  | .error e => Guest.fail (.elf e)
  | .ok (ehdr, phdrs) => do
    let phdrAddr ← findPhdrAddr ehdr phdrs
    let brk ← loadSegments answers data 0 phdrs 0
    if phdrs.any fun ph => decide (ph.pType = PT_LOAD) then
      Guest.modify (·.setBrk brk)
      return (ehdr, phdrAddr, brk)
    else Guest.fail .noLoadSegment

end

/-! ## The initial stack -/

/-- Place strings below `pos`, the last one first: their addresses in order, and the lowest. -/
def pushStrings (pos : Word) (strs : List (List UInt8)) : List Word × Word :=
  strs.foldr (fun s acc =>
    let pos := acc.2 - BitVec.ofNat 64 (s.length + 1)
    (pos :: acc.1, pos)) ([], pos)

/-- The deterministic seed for AT_RANDOM. -/
def randomData : List UInt8 :=
  [0xde, 0xad, 0xbe, 0xef, 0xca, 0xfe, 0xba, 0xbe, 0x01, 0x23, 0x45, 0x67, 0x89, 0xab, 0xcd, 0xef]

def stackBase : Word := GUEST_STACK_TOP - BitVec.ofNat 64 GUEST_STACK_SIZE

/-- Where everything on the stack goes. -/
structure StackLayout where
  randomAddr : Word
  execfnAddr : Word
  envpAddrs : List Word
  argvAddrs : List Word
  /-- The words of the frame, from `sp` upwards. -/
  frame : List Word
  sp : Word
  deriving Repr

def stackLayout (entry phdrAddr : Word) (phnum : Nat) (argv envp : List (List UInt8))
    (execfn : List UInt8) : StackLayout :=
  let randomAddr := GUEST_STACK_TOP - 16
  let execfnAddr := randomAddr - BitVec.ofNat 64 (execfn.length + 1)
  let (envpAddrs, pos) := pushStrings execfnAddr envp
  let (argvAddrs, pos) := pushStrings pos argv
  let pos := pos &&& ~~~15
  let auxv : List Word :=
    [AT_PHDR, phdrAddr, AT_PHENT, 56, AT_PHNUM, BitVec.ofNat 64 phnum,
     AT_PAGESZ, BitVec.ofNat 64 PAGE_SIZE, AT_ENTRY, entry, AT_RANDOM, randomAddr,
     AT_EXECFN, execfnAddr, AT_NULL, 0]
  let frameU64s := 1 + argv.length + 1 + envp.length + 1 + auxv.length
  let pos := pos - BitVec.ofNat 64 (frameU64s * 8)
  let sp := pos &&& ~~~15
  { randomAddr, execfnAddr, envpAddrs, argvAddrs, sp
    frame := BitVec.ofNat 64 argv.length :: argvAddrs ++ [0] ++ envpAddrs ++ [0] ++ auxv }

/-- `write_u64` of each word, one after another. -/
def frameWrites (addr : Word) : List Word → List (Word × List UInt8)
  | [] => []
  | w :: ws => (addr, toLeBytes 8 w.toNat) :: frameWrites (addr + 8) ws

/-- The writes of `setup_stack`, in its order. -/
def StackLayout.writes (l : StackLayout) (argv envp : List (List UInt8)) (execfn : List UInt8) :
    List (Word × List UInt8) :=
  [(l.randomAddr, randomData), (l.execfnAddr, execfn)] ++ (l.envpAddrs.zip envp).reverse ++
    (l.argvAddrs.zip argv).reverse ++ frameWrites l.sp l.frame

/-- Make the writes in order. -/
def writeEach {ε : Type} : List (Word × List UInt8) → Guest ε Unit
  | [] => return ()
  | w :: ws => do
    Guest.writeBytes w.1 w.2
    writeEach ws

/-- Build initial stack per Linux ABI. -/
def setupStack (answer : Bool) (entry phdrAddr : Word) (phnum : Nat)
    (argv envp : List (List UInt8)) (execfn : List UInt8) : Guest LoadError Word := do
  if ← Guest.mmapFixed answer stackBase (BitVec.ofNat 64 GUEST_STACK_SIZE)
      (PROT_READ ||| PROT_WRITE) then do
    let layout := stackLayout entry phdrAddr phnum argv envp execfn
    writeEach (layout.writes argv envp execfn)
    return layout.sp
  else Guest.fail .io

/-- Load a static RISC-V 64-bit ELF executable, whose file holds `data`. -/
def loadElf (answers : HostAnswers) (data : List UInt8) (path : List UInt8)
    (argv envp : List (List UInt8)) : Guest LoadError ElfInfo := do
  let (ehdr, phdrAddr, brk) ← loadImage answers data
  let sp ← setupStack answers.stack ehdr.eEntry phdrAddr ehdr.ePhnum argv envp path
  return ⟨ehdr.eEntry, phdrAddr, ehdr.ePhnum, sp, brk⟩

end TcgRs.Model.Linux
