import TcgRs.Library.ByteReader
import TcgRs.Model.Linux.GuestSpace
import TcgRs.Model.Riscv.Registers

/-!
# System calls

`linux-user/src/syscall.rs`: the dispatch on the number in `a7` and the handlers.  What the host
answers during a call is an argument.  A handler cannot return an error, it can only panic; the
result is the value for `a0`, or the exit of the program.  What goes to the standard error is left
out.
-/

set_option autoImplicit false

namespace TcgRs.Model.Linux

open Library

/-! ## Constants -/

def SYS_IOCTL : Nat := 29
def SYS_CLOSE : Nat := 57
def SYS_WRITE : Nat := 64
def SYS_WRITEV : Nat := 66
def SYS_READLINKAT : Nat := 78
def SYS_FSTAT : Nat := 80
def SYS_EXIT : Nat := 93
def SYS_EXIT_GROUP : Nat := 94
def SYS_SET_TID_ADDRESS : Nat := 96
def SYS_FUTEX : Nat := 98
def SYS_SET_ROBUST_LIST : Nat := 99
def SYS_CLOCK_GETTIME : Nat := 113
def SYS_TGKILL : Nat := 131
def SYS_RT_SIGACTION : Nat := 134
def SYS_RT_SIGPROCMASK : Nat := 135
def SYS_UNAME : Nat := 160
def SYS_GETPID : Nat := 172
def SYS_GETTID : Nat := 178
def SYS_BRK : Nat := 214
def SYS_MUNMAP : Nat := 215
def SYS_MMAP : Nat := 222
def SYS_MPROTECT : Nat := 226
def SYS_MADVISE : Nat := 233
def SYS_RISCV_HWPROBE : Nat := 258
def SYS_PRLIMIT64 : Nat := 261
def SYS_GETRANDOM : Nat := 278
def SYS_RSEQ : Nat := 293

def ENOSYS : Word := -38
def ENOTTY : Word := -25
def ENOENT : Word := -2
def ENOMEM : Word := -12
def EINVAL : Word := -22
def EAGAIN : Word := -11

/-! ## The host -/

/-- An error number. -/
structure Errno where
  val : Nat
  pos : 0 < val
  small : val < 4096

/-- `errno_ret`. -/
def Errno.ret (e : Errno) : Word := -BitVec.ofNat 64 e.val

/-- The fields of `libc::stat` that are passed on. -/
structure Stat where
  stDev : Word
  stIno : Word
  stMode : BitVec 32
  stNlink : Word
  stUid : BitVec 32
  stGid : BitVec 32
  stRdev : Word
  stSize : Word
  stBlksize : Word
  stBlocks : Word
  stAtime : Word
  stAtimeNsec : Word
  stMtime : Word
  stMtimeNsec : Word
  stCtime : Word
  stCtimeNsec : Word

/-- Linux transfers at most this many bytes at once. -/
def MAX_RW_COUNT : Nat := 0x7ffff000

/-- What the host answers during one call. -/
structure Host where
  /-- The write for the `k`th buffer, of so many bytes: the number of bytes that were taken. -/
  write : Nat → BitVec 32 → Nat → Except Errno Nat
  write_le : ∀ k fd len n, write k fd len = .ok n → n ≤ len ∧ n ≤ MAX_RW_COUNT
  mmap : Bool
  mprotect : Bool
  fstat : BitVec 32 → Except Errno Stat
  getrlimit : BitVec 32 → Except Errno (Word × Word)
  clockGettime : BitVec 32 → Except Errno (Word × Word)

/-- Syscall dispatch result. -/
inductive SyscallResult where
  /-- Continue execution (return value in a0). -/
  | continue (ret : Word)
  /-- Program exited with given code. -/
  | exit (code : BitVec 32)
  deriving DecidableEq, Repr

abbrev Sys := Guest Empty

/-! ## Handlers -/

section

variable (host : Host)

/-- `libc::write` of guest memory that starts at a host pointer. -/
def hostWrite (k : Nat) (fd : BitVec 32) (ptr len : Nat) : Sys (Except Errno Nat) :=
  match host.write k fd len with
  | .error e => return .error e
  | .ok n => do
    Guest.modify (·.log (.sent ptr n))
    return .ok n

def doWrite (fd buf len : Word) : Sys SyscallResult := do
  let fd := fd.setWidth 32
  let hostBuf ← Guest.g2h buf
  match ← hostWrite host 0 fd hostBuf len.toNat with
  | .error e => return .continue e.ret
  | .ok n => return .continue (BitVec.ofNat 64 n)

/-- A new break; what the host says to the mapping is ignored. -/
def doBrk (a0 : Word) : Sys SyscallResult := do
  let s ← Guest.get
  if a0 = 0 then return .continue s.brk
  else if s.brk ≤ a0 then do
    let old := s.brk
    let newBrk ← pageAlignUp a0
    let oldAligned ← pageAlignUp old
    if oldAligned < newBrk then do
      let sz ← Guest.sub newBrk oldAligned
      let _ ← Guest.mmapFixed host.mmap oldAligned sz (PROT_READ ||| PROT_WRITE)
      Guest.modify (·.setBrk a0)
      return .continue a0
    else do
      Guest.modify (·.setBrk a0)
      return .continue a0
  else return .continue s.brk

/-- A mapping, at the next free address when none is given: that one moves on in any case. -/
def doMmap (addr len : Word) (prot : BitVec 32) (mmapNext : Word) : Sys (SyscallResult × Word) := do
  let alignedLen ← pageAlignUp len
  let (guestAddr, mmapNext) ←
    if addr ≠ 0 then pure (addr, mmapNext)
    else do
      let next ← Guest.add mmapNext alignedLen
      pure (mmapNext, next)
  if ← Guest.mmapFixed host.mmap guestAddr alignedLen prot then
    return (.continue guestAddr, mmapNext)
  else return (.continue ENOMEM, mmapNext)

def doMprotect (addr len : Word) (prot : BitVec 32) : Sys SyscallResult := do
  if ← Guest.mprotect host.mprotect addr len prot then return .continue 0
  else return .continue EINVAL

/-- Fill the buffer with zeros. -/
def doGetrandom (buf len : Word) : Sys SyscallResult := do
  let dst ← Guest.g2h buf
  Guest.writeHost dst (List.replicate len.toNat 0)
  return .continue len

/-- A word of the guest. -/
def readU64 (guestAddr : Word) : Sys Word := do
  let src ← Guest.g2h guestAddr
  let bytes ← Guest.readHost src 8
  return BitVec.ofNat 64 (fromLeBytes bytes)

/-- The loop of `do_writev` from entry `i` on, with `left` entries to go. -/
def writevLoop (fd : BitVec 32) (iovAddr : Word) : Nat → Nat → Word → Sys SyscallResult
  | 0, _, total => return .continue total
  | left + 1, i, total => do
    let offset ← Guest.mul (BitVec.ofNat 64 i) 16
    let entry ← Guest.add iovAddr offset
    let base ← readU64 entry
    let entryLen ← Guest.add entry 8
    let len ← readU64 entryLen
    if len = 0 then writevLoop fd iovAddr left (i + 1) total
    else do
      let ptr ← Guest.g2h base
      match ← hostWrite host i fd ptr len.toNat with
      | .error e => return .continue e.ret
      | .ok n => do
        let total ← Guest.add total (BitVec.ofNat 64 n)
        writevLoop fd iovAddr left (i + 1) total

def doWritev (fd iovAddr iovcnt : Word) : Sys SyscallResult :=
  writevLoop host (fd.setWidth 32) iovAddr iovcnt.toNat 0 0

/-- Writes at offsets from a host pointer, in order. -/
def writeFields (ptr : Nat) : List (Nat × List UInt8) → Sys Unit
  | [] => return ()
  | f :: fs => do
    Guest.writeHost (ptr + f.1) f.2
    writeFields ptr fs

/-- S_IFCHR | rw-rw-rw-. -/
def stdioMode : Nat := 0o020666

/-- RISC-V stat layout (LP64). -/
def statFields (st : Stat) : List (Nat × List UInt8) :=
  [(0, toLeBytes 8 st.stDev.toNat), (8, toLeBytes 8 st.stIno.toNat),
   (16, toLeBytes 4 st.stMode.toNat), (20, toLeBytes 4 (st.stNlink.setWidth 32).toNat),
   (24, toLeBytes 4 st.stUid.toNat), (28, toLeBytes 4 st.stGid.toNat),
   (32, toLeBytes 8 st.stRdev.toNat), (48, toLeBytes 8 st.stSize.toNat),
   (56, toLeBytes 4 (st.stBlksize.setWidth 32).toNat), (64, toLeBytes 8 st.stBlocks.toNat),
   (72, toLeBytes 8 st.stAtime.toNat), (80, toLeBytes 8 st.stAtimeNsec.toNat),
   (88, toLeBytes 8 st.stMtime.toNat), (96, toLeBytes 8 st.stMtimeNsec.toNat),
   (104, toLeBytes 8 st.stCtime.toNat), (112, toLeBytes 8 st.stCtimeNsec.toNat)]

def doFstat (fd bufAddr : Word) : Sys SyscallResult := do
  let fd := fd.setWidth 32
  let hostBuf ← Guest.g2h bufAddr
  Guest.writeHost hostBuf (List.replicate 128 0)
  if fd ≤ 2 then do
    writeFields hostBuf [(16, toLeBytes 4 stdioMode)]
    return .continue 0
  else
    match host.fstat fd with
    | .error e => return .continue e.ret
    | .ok st => do
      writeFields hostBuf (statFields st)
      return .continue 0

def RLIMIT_STACK : Word := 3
def RLIM_INFINITY : Word := -1

/-- The two words of a limit or of a time. -/
def pairFields (p : Word × Word) : List (Nat × List UInt8) :=
  [(0, toLeBytes 8 p.1.toNat), (8, toLeBytes 8 p.2.toNat)]

def doPrlimit64 (resource oldRlim : Word) : Sys SyscallResult :=
  if oldRlim ≠ 0 then do
    let p ← Guest.g2h oldRlim
    if resource = RLIMIT_STACK then do
      writeFields p (pairFields (BitVec.ofNat 64 (8 * 1024 * 1024), RLIM_INFINITY))
      return .continue 0
    else
      match host.getrlimit (resource.setWidth 32) with
      | .error e => return .continue e.ret
      | .ok rl => do
        writeFields p (pairFields rl)
        return .continue 0
  else return .continue 0

def ascii (s : String) : List UInt8 := s.toList.map fun c => UInt8.ofNat c.toNat

/-- new_utsname: 6 fields × 65 bytes = 390 bytes. -/
def unameFields : List (Nat × List UInt8) :=
  [(0, ascii "Linux"), (65, ascii "tcg-rs"), (130, ascii "6.1.0"), (195, ascii "#1 SMP"),
   (260, ascii "riscv64"), (325, ascii "(none)")]

def doUname (bufAddr : Word) : Sys SyscallResult := do
  let p ← Guest.g2h bufAddr
  Guest.writeHost p (List.replicate 390 0)
  writeFields p unameFields
  return .continue 0

/-- The length of the string at an address, if a NUL comes before memory that cannot be read. -/
def strlen (s : GuestSpace) : Nat → Nat → Option Nat
  | 0, _ => none
  | fuel + 1, ptr =>
    if s.prot ptr &&& PROT_READ = 0 then none
    else if s.mem ptr = 0 then some 0
    else (strlen s fuel (ptr + 1)).map (· + 1)

/-- `CStr::from_ptr` of a host pointer.  No string is longer than an address space. -/
def readCStr (ptr : Nat) : Sys (List UInt8) := do
  let s ← Guest.get
  match strlen s MAX_MAPPING ptr with
  | none => Guest.panic .segv
  | some n => do
    let bytes ← Guest.readHost ptr (n + 1)
    return bytes.take n

def doReadlinkat (pathAddr bufAddr bufsiz : Word) (elfPath : List UInt8) : Sys SyscallResult := do
  let hostPath ← Guest.g2h pathAddr
  let path ← readCStr hostPath
  if path = ascii "/proc/self/exe" then do
    let len := min elfPath.length bufsiz.toNat
    let dst ← Guest.g2h bufAddr
    Guest.writeHost dst (elfPath.take len)
    return .continue (BitVec.ofNat 64 len)
  else return .continue ENOENT

def doClockGettime (clkId tpAddr : Word) : Sys SyscallResult :=
  match host.clockGettime (clkId.setWidth 32) with
  | .error e => return .continue e.ret
  | .ok ts => do
    let p ← Guest.g2h tpAddr
    writeFields p (pairFields ts)
    return .continue 0

def FUTEX_CMD_MASK : Word := 0x7f
def FUTEX_WAIT : Word := 0
def FUTEX_WAKE : Word := 1

/-- The single-threaded stub. -/
def doFutex (uaddr op : Word) : Sys SyscallResult := do
  let _ ← Guest.g2h uaddr
  if op &&& FUTEX_CMD_MASK = FUTEX_WAIT then return .continue EAGAIN
  else if op &&& FUTEX_CMD_MASK = FUTEX_WAKE then return .continue 0
  else return .continue ENOSYS

/-! ## Dispatch -/

/-- The handlers that do not move the next address of a mapping. -/
def dispatch (elfPath : List UInt8) (nr : Nat) (a0 a1 a2 a3 : Word) : Sys SyscallResult :=
  if nr = SYS_WRITE then doWrite host a0 a1 a2
  else if nr = SYS_EXIT ∨ nr = SYS_EXIT_GROUP then return .exit (a0.setWidth 32)
  else if nr = SYS_BRK then doBrk host a0
  else if nr = SYS_MPROTECT then doMprotect host a0 a1 (a2.setWidth 32)
  else if nr = SYS_MUNMAP ∨ nr = SYS_SET_ROBUST_LIST ∨ nr = SYS_RT_SIGACTION ∨
      nr = SYS_RT_SIGPROCMASK ∨ nr = SYS_MADVISE ∨ nr = SYS_CLOSE then return .continue 0
  else if nr = SYS_SET_TID_ADDRESS then return .continue 1
  else if nr = SYS_GETPID ∨ nr = SYS_GETTID then return .continue 1
  else if nr = SYS_GETRANDOM then doGetrandom a0 a1
  else if nr = SYS_RSEQ ∨ nr = SYS_RISCV_HWPROBE then return .continue ENOSYS
  else if nr = SYS_FUTEX then doFutex a0 a1
  else if nr = SYS_TGKILL then return if a2 = 6 then .exit (128 + 6) else .continue 0
  else if nr = SYS_WRITEV then doWritev host a0 a1 a2
  else if nr = SYS_IOCTL then return .continue ENOTTY
  else if nr = SYS_FSTAT then doFstat host a0 a1
  else if nr = SYS_PRLIMIT64 then doPrlimit64 host a1 a3
  else if nr = SYS_UNAME then doUname a0
  else if nr = SYS_READLINKAT then doReadlinkat a1 a2 a3 elfPath
  else if nr = SYS_CLOCK_GETTIME then doClockGettime host a0 a1
  else return .continue ENOSYS

/-- Handle a RISC-V Linux syscall: number in a7 (x17), args in a0-a3 (x10-x13).  The next address
of a mapping goes in and comes out. -/
def handleSyscall (regs : Fin 32 → Word) (mmapNext : Word) (elfPath : List UInt8) :
    Sys (SyscallResult × Word) :=
  if (regs 17).toNat = SYS_MMAP then
    doMmap host (regs 10) (regs 11) ((regs 12).setWidth 32) mmapNext
  else do
    let result ← dispatch host elfPath (regs 17).toNat (regs 10) (regs 11) (regs 12) (regs 13)
    return (result, mmapNext)

end

end TcgRs.Model.Linux
