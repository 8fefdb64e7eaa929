import TcgRs.Model.Linux.Syscall

/-!
# System calls as the program sees them

The vectored write: its buffers one after another, and what it means to write a prefix of them.
Every call: the ranges of guest memory that it names, and what it means to keep to the guest space.
-/

set_option autoImplicit false

namespace TcgRs.Interface.Linux

open TcgRs.Model.Linux TcgRs.Library TcgRs.Library.ByteMemory

/-! ## Buffers -/

/-- The word at an address of the guest, which can be read. -/
def ReadsWord (s : GuestSpace) (addr : Nat) (w : Word) : Prop :=
  s.readable addr 8 = true ∧ fromLeBytes (load s.mem addr 8) = w.toNat

/-- The buffers, with start and length, are described from an address on. -/
def IovecsAt (s : GuestSpace) : Nat → List (Word × Word) → Prop
  | addr, [] => addr ≤ GUEST_SPACE_SIZE
  | addr, v :: vs => ReadsWord s addr v.1 ∧ ReadsWord s (addr + 8) v.2 ∧ IovecsAt s (addr + 16) vs

/-- The buffers that are not empty. -/
def buffers (iovs : List (Word × Word)) : List (Word × Word) := iovs.filter fun v => v.2 ≠ 0

/-- The bytes of chunks one after another, each by the number of its chunk and its index there. -/
def positions : Nat → List Nat → List (Nat × Nat)
  | _, [] => []
  | k, n :: ns => (List.range n).map (fun j => (k, j)) ++ positions (k + 1) ns

/-! ## Results -/

/-- The ranges whose bytes the host took for a file, in order. -/
def sentRanges (events : List Event) : List (Nat × Nat) :=
  events.filterMap fun
    | .sent start size => some (start, size)
    | _ => none

def sentLength (sent : List (Nat × Nat)) : Nat := (sent.map Prod.snd).sum

/-- The bytes taken are a prefix of the buffers; their number is the result when there are any, and
an error is returned only when there are none. -/
structure WritesPrefix (iovs : List (Word × Word)) (sent : List (Nat × Nat))
    (result : SyscallResult) : Prop where
  starts : sent.map Prod.fst <+: (buffers iovs).map fun v => v.1.toNat
  prefix_ : positions 0 (sent.map Prod.snd) <+: positions 0 ((buffers iovs).map fun v => v.2.toNat)
  length : sentLength sent ≠ 0 → result = .continue (BitVec.ofNat 64 (sentLength sent))
  errno : ∀ e : Errno, result = .continue e.ret → sentLength sent = 0

/-! ## The ranges of a call -/

/-- The word in memory at an address. -/
def memWord (s : GuestSpace) (addr : Nat) : Word := BitVec.ofNat 64 (fromLeBytes (load s.mem addr 8))

/-- Up to the next page. -/
def pageUp (n : Nat) : Nat := (n + 4095) / 4096 * 4096

/-- The ranges, as start and length, that a call names in its arguments and in what these point
to. -/
def requested (s : GuestSpace) (elfPath : List UInt8) (nr : Nat) (a0 a1 a2 a3 : Word)
    (r : Nat × Nat) : Prop :=
  if nr = SYS_WRITE then r = (a1.toNat, a2.toNat)
  else if nr = SYS_BRK then
    s.brk ≤ a0 ∧ r = (pageUp s.brk.toNat, pageUp a0.toNat - pageUp s.brk.toNat)
  else if nr = SYS_MPROTECT then r = (a0.toNat, pageUp a1.toNat)
  else if nr = SYS_GETRANDOM then r = (a0.toNat, a1.toNat)
  else if nr = SYS_WRITEV then
    r = (a1.toNat, 16 * a2.toNat) ∨
      ∃ i < a2.toNat, r = ((memWord s (a1.toNat + 16 * i)).toNat,
        (memWord s (a1.toNat + 16 * i + 8)).toNat)
  else if nr = SYS_FSTAT then r = (a1.toNat, 128)
  else if nr = SYS_PRLIMIT64 then a3 ≠ 0 ∧ r = (a3.toNat, 16)
  else if nr = SYS_UNAME then r = (a0.toNat, 390)
  else if nr = SYS_READLINKAT then
    ∃ n, strlen s MAX_MAPPING a1.toNat = some n ∧
      (r = (a1.toNat, n + 1) ∨ load s.mem a1.toNat n = ascii "/proc/self/exe" ∧
        r = (a2.toNat, min elfPath.length a3.toNat))
  else if nr = SYS_CLOCK_GETTIME then r = (a1.toNat, 16)
  else False

/-- The range of a new mapping. -/
def requestedMap (mmapNext a0 a1 : Word) (r : Nat × Nat) : Prop :=
  r = ((if a0 ≠ 0 then a0 else mmapNext).toNat, pageUp a1.toNat)

/-- A range that is not empty and does not lie in the guest space. -/
def Leaves (r : Nat × Nat) : Prop := 0 < r.2 ∧ GUEST_SPACE_SIZE < r.1 + r.2

/-- The range that was touched lies in the guest space; nothing wrapped. -/
def InSpace : Event → Prop
  | .mapped start size => start + size ≤ GUEST_SPACE_SIZE
  | .protect start size => start + size ≤ GUEST_SPACE_SIZE
  | .read start size => start + size ≤ GUEST_SPACE_SIZE
  | .written start size => start + size ≤ GUEST_SPACE_SIZE
  | .sent start size => start + size ≤ GUEST_SPACE_SIZE
  | .wrapped => False

/-- Memory, protection and break are as before. -/
def Unchanged (s s' : GuestSpace) : Prop := s'.mem = s.mem ∧ s'.prot = s.prot ∧ s'.brk = s.brk

def IsErrno (result : SyscallResult) : Prop := ∃ e : Errno, result = .continue e.ret

/-- A call that returns without an overflow, touches only the guest space, and if it names a range
that leaves it, returns an error and changes nothing. -/
def Contained (host : Host) (regs : Fin 32 → Word) (mmapNext : Word) (elfPath : List UInt8)
    (s : GuestSpace) : Prop :=
  ∃ result next s', (handleSyscall host regs mmapNext elfPath).run s = (.ok (result, next), s') ∧
    (∀ e ∈ s'.events, InSpace e) ∧
    ((∃ r, (if (regs 17).toNat = SYS_MMAP then requestedMap mmapNext (regs 10) (regs 11) r
        else requested s elfPath (regs 17).toNat (regs 10) (regs 11) (regs 12) (regs 13) r) ∧
        Leaves r) →
      IsErrno result ∧ Unchanged s s' ∧ next = mmapNext)

end TcgRs.Interface.Linux
