import TcgRs.Library.ByteMemory

/-!
# The guest address space

`linux-user/src/guest_space.rs`: one reserved region of host memory, a guest address being an
offset into it.  Memory is a byte for each offset; offsets from `GUEST_SPACE_SIZE` on are the host
memory behind the region, which a long access can reach.  The host's answer to a call is an
argument.  A computation on the space panics, fails, or returns, and always leaves a space.

Builds with overflow checks panic where an integer operation wraps, others go on; here the
operation goes on and the wrap is written down, with the ranges that were touched, for the
statements about them.
-/

set_option autoImplicit false

namespace TcgRs.Model.Linux

open Library.ByteMemory

abbrev Word := BitVec 64

/-! ## Constants -/

/-- Guest address space size: 1 GiB. -/
def GUEST_SPACE_SIZE : Nat := 2 ^ 30

/-- Default guest stack top address. -/
def GUEST_STACK_TOP : Word := 0x3FFF0000

/-- Default guest stack size: 8 MiB. -/
def GUEST_STACK_SIZE : Nat := 8 * 1024 * 1024

/-- `page_size()`: what `sysconf(_SC_PAGESIZE)` gives on x86-64 Linux. -/
def PAGE_SIZE : Nat := 4096

def PROT_READ : BitVec 32 := 1
def PROT_WRITE : BitVec 32 := 2
def PROT_EXEC : BitVec 32 := 4

/-- No mapping is longer than the address space of a process. -/
def MAX_MAPPING : Nat := 2 ^ 47

/-! ## State -/

/-- Why the emulator dies. -/
inductive Fault where
  /-- The assertion of `g2h`. -/
  | guestAddr
  /-- A slice that starts after its end. -/
  | slice
  /-- An access to memory whose protection forbids it. -/
  | segv
  deriving DecidableEq, Repr

/-- What a computation did, for the statements about it. -/
inductive Event where
  | mapped (start size : Nat)
  | protect (start size : Nat)
  | read (start size : Nat)
  | written (start size : Nat)
  /-- Bytes that the host took for a file. -/
  | sent (start size : Nat)
  | wrapped
  deriving DecidableEq, Repr

structure GuestSpace where
  mem : Nat → UInt8
  prot : Nat → BitVec 32
  brk : Word
  events : List Event

namespace GuestSpace

/-- The reserved space before anything is mapped. -/
def new : GuestSpace := ⟨fun _ => 0, fun _ => 0, 0, []⟩

def log (s : GuestSpace) (e : Event) : GuestSpace := { s with events := s.events ++ [e] }

def setBrk (s : GuestSpace) (brk : Word) : GuestSpace := { s with brk := brk }

/-- All bytes of the range can be read. -/
def readable (s : GuestSpace) (start size : Nat) : Bool :=
  decide (∀ k < size, s.prot (start + k) &&& PROT_READ ≠ 0)

/-- All bytes of the range can be written. -/
def writable (s : GuestSpace) (start size : Nat) : Bool :=
  decide (∀ k < size, s.prot (start + k) &&& PROT_WRITE ≠ 0)

/-- The pages of `[start, start + size)` are zero and have the given protection. -/
def map (s : GuestSpace) (start size : Nat) (prot : BitVec 32) : GuestSpace :=
  { s with
    mem := fill s.mem start size 0
    prot := fill s.prot start size prot
    events := s.events ++ [.mapped start size] }

def protect (s : GuestSpace) (start size : Nat) (prot : BitVec 32) : GuestSpace :=
  { s with
    prot := fill s.prot start size prot
    events := s.events ++ [.protect start size] }

def write (s : GuestSpace) (start : Nat) (data : List UInt8) : GuestSpace :=
  { s with
    mem := store s.mem start data
    events := s.events ++ [.written start data.length] }

end GuestSpace

/-! ## Computations -/

/-- How a computation ends early: with an error value, or by a panic. -/
inductive Stop (ε : Type) where
  | error (e : ε)
  | panic (f : Fault)
  deriving DecidableEq, Repr

/-- A computation on the guest space. -/
structure Guest (ε α : Type) where
  run : GuestSpace → Except (Stop ε) α × GuestSpace

variable {ε α β : Type}

instance : Monad (Guest ε) where
  pure a := ⟨fun s => (.ok a, s)⟩
  bind x f := ⟨fun s =>
    match x.run s with
    | (.ok a, s) => (f a).run s
    | (.error e, s) => (.error e, s)⟩

namespace Guest

def get : Guest ε GuestSpace := ⟨fun s => (.ok s, s)⟩

def modify (f : GuestSpace → GuestSpace) : Guest ε Unit := ⟨fun s => (.ok (), f s)⟩

def stop (e : Stop ε) : Guest ε α := ⟨fun s => (.error e, s)⟩

def panic (f : Fault) : Guest ε α := stop (.panic f)

def fail (e : ε) : Guest ε α := stop (.error e)

@[simp] theorem run_pure (a : α) (s : GuestSpace) :
    (pure a : Guest ε α).run s = (.ok a, s) := rfl

@[simp] theorem run_get (s : GuestSpace) : (get : Guest ε GuestSpace).run s = (.ok s, s) := rfl

@[simp] theorem run_modify (f : GuestSpace → GuestSpace) (s : GuestSpace) :
    (modify f : Guest ε Unit).run s = (.ok (), f s) := rfl

@[simp] theorem run_stop (e : Stop ε) (s : GuestSpace) :
    (stop e : Guest ε α).run s = (.error e, s) := rfl

@[simp] theorem run_panic (f : Fault) (s : GuestSpace) :
    (panic f : Guest ε α).run s = (.error (.panic f), s) := rfl

@[simp] theorem run_fail (e : ε) (s : GuestSpace) :
    (fail e : Guest ε α).run s = (.error (.error e), s) := rfl

theorem run_bind (x : Guest ε α) (f : α → Guest ε β) (s : GuestSpace) :
    (x >>= f).run s = match x.run s with
      | (.ok a, s) => (f a).run s
      | (.error e, s) => (.error e, s) := rfl

theorem run_bind_ok {x : Guest ε α} {f : α → Guest ε β} {s s' : GuestSpace} {a : α}
    (h : x.run s = (.ok a, s')) : (x >>= f).run s = (f a).run s' := by
  rw [run_bind, h]

theorem run_bind_error {x : Guest ε α} {f : α → Guest ε β} {s s' : GuestSpace} {e : Stop ε}
    (h : x.run s = (.error e, s')) : (x >>= f).run s = (.error e, s') := by
  rw [run_bind, h]

theorem bind_assoc {γ : Type} (x : Guest ε α) (f : α → Guest ε β) (g : β → Guest ε γ) :
    x >>= f >>= g = x >>= fun a => f a >>= g := by
  show (⟨_⟩ : Guest ε γ) = ⟨_⟩
  congr 1
  funext s
  rw [run_bind]
  cases x.run s with
  | mk r s' =>
    cases r with
    | ok a => rfl
    | error e => rfl

/-- A sequence that returns: both parts did. -/
theorem run_bind_eq_ok {x : Guest ε α} {f : α → Guest ε β} {s s'' : GuestSpace} {b : β}
    (h : (x >>= f).run s = (.ok b, s'')) :
    ∃ a s', x.run s = (.ok a, s') ∧ (f a).run s' = (.ok b, s'') := by
  rw [run_bind] at h
  cases hx : x.run s with
  | mk r s' =>
    rw [hx] at h
    cases r with
    | ok a => exact ⟨a, s', rfl, h⟩
    | error e => cases h

/-! ## Integer operations -/

/-- Write down an overflow. -/
def wrapIf (b : Bool) : Guest ε Unit := modify fun s => if b then s.log .wrapped else s

def add (a b : Word) : Guest ε Word := do
  wrapIf (decide (2 ^ 64 ≤ a.toNat + b.toNat))
  return a + b

def sub (a b : Word) : Guest ε Word := do
  wrapIf (decide (a.toNat < b.toNat))
  return a - b

def mul (a b : Word) : Guest ε Word := do
  wrapIf (decide (2 ^ 64 ≤ a.toNat * b.toNat))
  return a * b

/-! ## The space -/

/-- Translate guest address to host pointer, given as an offset into the region. -/
def g2h (guestAddr : Word) : Guest ε Nat :=
  if guestAddr.toNat < GUEST_SPACE_SIZE then return guestAddr.toNat else panic .guestAddr

/-- Map a fixed region within the guest space.  `answer` says whether the host has the memory; it
refuses an empty region, one that is not aligned and one that is too long.  The result says
whether the call succeeded. -/
def mmapFixed (answer : Bool) (guestAddr size : Word) (prot : BitVec 32) : Guest ε Bool := do
  let host ← g2h guestAddr
  if answer && decide (size ≠ 0) && decide (host % PAGE_SIZE = 0) &&
      decide (size.toNat ≤ MAX_MAPPING) then
    modify (·.map host ((size.toNat + PAGE_SIZE - 1) / PAGE_SIZE * PAGE_SIZE) prot)
    return true
  else return false

/-- Change protection on a guest region. -/
def mprotect (answer : Bool) (guestAddr size : Word) (prot : BitVec 32) : Guest ε Bool := do
  let host ← g2h guestAddr
  if answer && decide (host % PAGE_SIZE = 0) && decide (size.toNat ≤ MAX_MAPPING) then
    modify (·.protect host ((size.toNat + PAGE_SIZE - 1) / PAGE_SIZE * PAGE_SIZE) prot)
    return true
  else return false

/-- Write through a host pointer. -/
def writeHost (host : Nat) (data : List UInt8) : Guest ε Unit := do
  let s ← get
  if s.writable host data.length then modify (·.write host data) else panic .segv

/-- Read through a host pointer. -/
def readHost (host size : Nat) : Guest ε (List UInt8) := do
  let s ← get
  if s.readable host size then
    modify (·.log (.read host size))
    return load s.mem host size
  else panic .segv

/-- Write bytes at a guest address. -/
def writeBytes (guestAddr : Word) (data : List UInt8) : Guest ε Unit := do
  let dst ← g2h guestAddr
  writeHost dst data

end Guest

/-! ## Pages -/

def pageAlignDown (addr : Word) : Word := addr &&& ~~~(BitVec.ofNat 64 (PAGE_SIZE - 1))

/-- `(addr + ps - 1) & !(ps - 1)`. -/
def pageAlignUp (addr : Word) : Guest ε Word := do
  let a ← Guest.add addr (BitVec.ofNat 64 PAGE_SIZE)
  let a ← Guest.sub a 1
  return pageAlignDown a

end TcgRs.Model.Linux
