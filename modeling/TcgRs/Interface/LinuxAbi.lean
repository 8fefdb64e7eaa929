import TcgRs.Library.ByteMemory
import TcgRs.Library.ByteReader

/-!
# The stack of a new process

What the Linux ABI says a program finds on its stack: argument count, argument and environment
pointers, the auxiliary vector, and the strings and random bytes that these point to.  Nothing here
is taken from the loader.
-/

set_option autoImplicit false

namespace TcgRs.Interface.Linux

open Library Library.ByteMemory

/-- The little-endian word at an address. -/
def wordAt (mem : Nat → UInt8) (addr : Nat) : Nat := fromLeBytes (load mem addr 8)

/-- The words from an address upwards. -/
def WordsAt (mem : Nat → UInt8) : Nat → List Nat → Prop
  | _, [] => True
  | addr, w :: ws => wordAt mem addr = w ∧ WordsAt mem (addr + 8) ws

/-- The NUL-terminated string at an address is `str`. -/
structure CStringAt (mem : Nat → UInt8) (addr : Nat) (str : List UInt8) : Prop where
  bytes : load mem addr str.length = str
  inner : 0 ∉ str
  terminator : mem (addr + str.length) = 0

/-- What a program is started with. -/
structure Startup where
  argv : List (List UInt8)
  envp : List (List UInt8)
  execfn : List UInt8
  random : List UInt8
  phdr : Nat
  phnum : Nat
  pageSize : Nat
  entry : Nat

/-- Where the strings and the random bytes are. -/
structure StackPointers where
  argv : List Nat
  envp : List Nat
  execfn : Nat
  random : Nat

variable (st : Startup) (p : StackPointers)

/-- The auxiliary vector: AT_PHDR, AT_PHENT, AT_PHNUM, AT_PAGESZ, AT_ENTRY, AT_RANDOM, AT_EXECFN,
and AT_NULL at the end. -/
def auxv : List (Nat × Nat) :=
  [(3, st.phdr), (4, 56), (5, st.phnum), (6, st.pageSize), (9, st.entry), (25, p.random),
   (31, p.execfn), (0, 0)]

/-- The words at the stack pointer. -/
def frameWords : List Nat :=
  st.argv.length :: p.argv ++ [0] ++ p.envp ++ [0] ++ (auxv st p).flatMap fun a => [a.1, a.2]

/-- A string with its terminator, as an address and a size. -/
def stringObject (addr : Nat) (str : List UInt8) : Nat × Nat := (addr, str.length + 1)

/-- The objects on the stack, each as an address and a size. -/
def stackObjects (sp : Nat) : List (Nat × Nat) :=
  (sp, 8 * (frameWords st p).length) :: List.zipWith stringObject p.argv st.argv ++
    List.zipWith stringObject p.envp st.envp ++
    [stringObject p.execfn st.execfn, (p.random, st.random.length)]

/-- The stack `[lo, hi)` is set up for the program, with the stack pointer at `sp`. -/
structure InitialStack (lo hi : Nat) (mem : Nat → UInt8) (sp : Nat) : Prop where
  aligned : sp % 16 = 0
  words : WordsAt mem sp (frameWords st p)
  argv : List.Forall₂ (CStringAt mem) p.argv st.argv
  envp : List.Forall₂ (CStringAt mem) p.envp st.envp
  execfn : CStringAt mem p.execfn st.execfn
  random : load mem p.random st.random.length = st.random
  inside : ∀ o ∈ stackObjects st p sp, lo ≤ o.1 ∧ o.1 + o.2 ≤ hi
  apart : (stackObjects st p sp).Pairwise fun o o' => o.1 + o.2 ≤ o'.1 ∨ o'.1 + o'.2 ≤ o.1

end TcgRs.Interface.Linux
