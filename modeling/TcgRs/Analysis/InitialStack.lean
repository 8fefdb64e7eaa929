import TcgRs.Analysis.GuestRuns
import TcgRs.Interface.LinuxAbi
import TcgRs.Model.Linux.Loader

/-!
# The initial stack

`setup_stack` lets a cursor grow down from the top of the stack for the random bytes and the
strings, and writes the frame upwards below them.  In ascending order these are blocks one behind
another, the terminators being gaps that stay zero; so whatever the strings are, everything is
where the pointers say.
-/

set_option autoImplicit false

namespace TcgRs.Analysis.InitialStack

open TcgRs.Model.Linux TcgRs.Interface.Linux TcgRs.Library TcgRs.Library.ByteMemory
open TcgRs.Analysis.GuestRuns

/-! ## Writes in order -/

/-- The space after the writes. -/
def writeAll (s : GuestSpace) (ws : List (Word × List UInt8)) : GuestSpace :=
  ws.foldl (fun s w => s.write w.1.toNat w.2) s

/-- The stores that the writes make. -/
def storesOf (ws : List (Word × List UInt8)) : List (Nat × List UInt8) :=
  ws.map fun w => (w.1.toNat, w.2)

theorem writeAll_mem (s : GuestSpace) (ws : List (Word × List UInt8)) :
    (writeAll s ws).mem = storeAll s.mem (storesOf ws) := by
  induction ws generalizing s with
  | nil => rfl
  | cons w ws ih => exact ih (s.write w.1.toNat w.2)

theorem writeAll_kept (s : GuestSpace) (ws : List (Word × List UInt8)) :
    (writeAll s ws).prot = s.prot ∧ (writeAll s ws).brk = s.brk := by
  induction ws generalizing s with
  | nil => exact ⟨rfl, rfl⟩
  | cons w ws ih => exact ih (s.write w.1.toNat w.2)

theorem run_writeEach_ok {ε : Type} {ws : List (Word × List UInt8)} {s : GuestSpace}
    (h : ∀ w ∈ ws, w.1.toNat < GUEST_SPACE_SIZE ∧ s.writable w.1.toNat w.2.length = true) :
    (writeEach ws : Guest ε Unit).run s = (.ok (), writeAll s ws) := by
  induction ws generalizing s with
  | nil => rfl
  | cons w ws ih =>
    obtain ⟨hin, hwrite⟩ := h w List.mem_cons_self
    have hfirst : (Guest.writeBytes w.1 w.2 : Guest ε Unit).run s =
        (.ok (), s.write w.1.toNat w.2) := by
      rw [run_writeBytes w.2 s hin, if_pos hwrite]
    unfold writeEach
    rw [Guest.run_bind_ok hfirst]
    exact ih fun w' hw' => h w' (List.mem_cons_of_mem _ hw')

/-! ## Alignment -/

theorem toNat_align16 (x : Word) : (x &&& ~~~15).toNat = x.toNat / 16 * 16 :=
  toNat_and_not_mask x 4

/-! ## Strings -/

/-- The bytes that strings take with their terminators. -/
def sizes (strs : List (List UInt8)) : Nat := (strs.map fun s => s.length + 1).sum

/-- A string on the stack; its terminator is the gap. -/
def stringBlock (addr : Word) (str : List UInt8) : Block UInt8 := ⟨addr.toNat, str, 1⟩

theorem pushStrings_cons (pos : Word) (str : List UInt8) (strs : List (List UInt8)) :
    pushStrings pos (str :: strs) =
      (((pushStrings pos strs).2 - BitVec.ofNat 64 (str.length + 1)) :: (pushStrings pos strs).1,
        (pushStrings pos strs).2 - BitVec.ofNat 64 (str.length + 1)) := rfl

/-- A cursor that has room moves down by the size. -/
theorem toNat_sub_ofNat {pos : Word} {n : Nat} (h : n ≤ pos.toNat) :
    (pos - BitVec.ofNat 64 n).toNat = pos.toNat - n := by
  have hlt := pos.isLt
  rw [BitVec.toNat_sub_of_le]
  · rw [BitVec.toNat_ofNat, Nat.mod_eq_of_lt (by omega)]
  · rw [BitVec.le_def, BitVec.toNat_ofNat, Nat.mod_eq_of_lt (by omega)]
    exact h

/-- The strings are pushed below one another, in their order from the lowest address upwards. -/
theorem pushStrings_spec (pos : Word) (strs : List (List UInt8)) (h : sizes strs ≤ pos.toNat) :
    (pushStrings pos strs).2.toNat = pos.toNat - sizes strs ∧
      (pushStrings pos strs).1.length = strs.length ∧
      Ascending (pushStrings pos strs).2.toNat pos.toNat
        (List.zipWith stringBlock (pushStrings pos strs).1 strs) := by
  induction strs with
  | nil => exact ⟨rfl, rfl, Nat.le_refl _⟩
  | cons str strs ih =>
    have hsizes : sizes (str :: strs) = str.length + 1 + sizes strs := by
      simp [sizes]
    rw [hsizes] at h
    obtain ⟨hlow, hlen, hasc⟩ := ih (by omega)
    have hpos : ((pushStrings pos strs).2 - BitVec.ofNat 64 (str.length + 1)).toNat =
        (pushStrings pos strs).2.toNat - (str.length + 1) := toNat_sub_ofNat (by omega)
    rw [pushStrings_cons]
    refine ⟨?_, ?_, Nat.le_refl _, ?_⟩
    · show ((pushStrings pos strs).2 - _).toNat = _
      rw [hpos, hsizes, hlow]
      omega
    · rw [List.length_cons, List.length_cons, hlen]
    · have hstop : (stringBlock ((pushStrings pos strs).2 - BitVec.ofNat 64 (str.length + 1))
          str).stop = (pushStrings pos strs).2.toNat := by
        unfold Block.stop stringBlock
        dsimp only
        rw [hpos]
        omega
      rw [hstop]
      exact hasc

/-! ## The frame -/

/-- The words of the frame. -/
def frameBlocks (addr : Word) (ws : List Word) : List (Block UInt8) :=
  (frameWrites addr ws).map fun w => ⟨w.1.toNat, w.2, 0⟩

theorem toNat_add_eight (addr : Word) (h : addr.toNat + 8 < 2 ^ 64) :
    (addr + 8).toNat = addr.toNat + 8 := by
  rw [BitVec.toNat_add]
  exact Nat.mod_eq_of_lt h

theorem frameBlocks_ascending (addr : Word) (ws : List Word)
    (h : addr.toNat + 8 * ws.length < 2 ^ 64) :
    Ascending addr.toNat (addr.toNat + 8 * ws.length) (frameBlocks addr ws) := by
  induction ws generalizing addr with
  | nil => exact Nat.le_refl _
  | cons w ws ih =>
    rw [List.length_cons] at h ⊢
    have hnext := toNat_add_eight addr (by omega)
    refine ⟨Nat.le_refl _, ?_⟩
    have hstop : (⟨addr.toNat, toLeBytes 8 w.toNat, 0⟩ : Block UInt8).stop = (addr + 8).toNat := by
      show addr.toNat + (toLeBytes 8 w.toNat).length + 0 = _
      rw [length_toLeBytes, hnext]
    have hend : addr.toNat + 8 * (ws.length + 1) = (addr + 8).toNat + 8 * ws.length := by omega
    rw [hend]
    show Ascending (⟨addr.toNat, toLeBytes 8 w.toNat, 0⟩ : Block UInt8).stop _ _
    rw [hstop]
    exact ih (addr + 8) (by omega)

/-- When the words of the frame are in memory, they can be read there. -/
theorem wordsAt_frame {mem : Nat → UInt8} (addr : Word) (ws : List Word)
    (h : addr.toNat + 8 * ws.length < 2 ^ 64)
    (hmem : ∀ b ∈ frameBlocks addr ws, load mem b.addr b.bytes.length = b.bytes) :
    WordsAt mem addr.toNat (ws.map BitVec.toNat) := by
  induction ws generalizing addr with
  | nil => trivial
  | cons w ws ih =>
    rw [List.length_cons] at h
    constructor
    · have hload := hmem ⟨addr.toNat, toLeBytes 8 w.toNat, 0⟩ List.mem_cons_self
      dsimp only at hload
      rw [length_toLeBytes] at hload
      unfold wordAt
      rw [hload, fromLeBytes_toLeBytes]
      exact Nat.mod_eq_of_lt w.isLt
    · have hnext := toNat_add_eight addr (by omega)
      rw [← hnext]
      exact ih (addr + 8) (by omega) fun b hb => hmem b (List.mem_cons_of_mem _ hb)

/-! ## The layout -/

def up16 (n : Nat) : Nat := (n + 15) / 16 * 16

/-- The bytes of the random data and of all strings. -/
def stringsSize (argv envp : List (List UInt8)) (execfn : List UInt8) : Nat :=
  16 + (execfn.length + 1) + sizes envp + sizes argv

/-- The bytes of the frame: argument count, pointers, two zeros and sixteen auxiliary words. -/
def frameSize (argv envp : List (List UInt8)) : Nat := 8 * (argv.length + envp.length + 19)

/-- What the strings and the frame take together, each of them aligned. -/
def stackSize (argv envp : List (List UInt8)) (execfn : List UInt8) : Nat :=
  up16 (up16 (stringsSize argv envp execfn) + frameSize argv envp)

/-- The blocks above the frame. -/
def stringBlocks (l : StackLayout) (argv envp : List (List UInt8)) (execfn : List UInt8) :
    List (Block UInt8) :=
  List.zipWith stringBlock l.argvAddrs argv ++ (List.zipWith stringBlock l.envpAddrs envp ++
    [stringBlock l.execfnAddr execfn, ⟨l.randomAddr.toNat, randomData, 0⟩])

/-- The parts of a layout lie one behind another, from the stack pointer to the top. -/
structure LayoutFits (l : StackLayout) (argv envp : List (List UInt8)) (execfn : List UInt8) :
    Prop where
  argvLength : l.argvAddrs.length = argv.length
  envpLength : l.envpAddrs.length = envp.length
  frameLength : 8 * l.frame.length = frameSize argv envp
  spAt : l.sp.toNat = GUEST_STACK_TOP.toNat - stackSize argv envp execfn
  blocks : Ascending (l.sp.toNat + frameSize argv envp) GUEST_STACK_TOP.toNat
    (stringBlocks l argv envp execfn)

theorem toNat_stackTop : GUEST_STACK_TOP.toNat = 1073676288 := rfl

theorem toNat_stackBase : stackBase.toNat = 1065287680 := rfl

theorem le_up16 (n : Nat) : n ≤ up16 n := by
  unfold up16
  omega

section

variable (entry phdrAddr : Word) (phnum : Nat) (argv envp : List (List UInt8))
  (execfn : List UInt8)

/-- The cursor after the file name, after the environment, and after the arguments. -/
def execfnLow : Word := GUEST_STACK_TOP - 16 - BitVec.ofNat 64 (execfn.length + 1)

def envpLow : Word := (pushStrings (execfnLow execfn) envp).2

def argvLow : Word := (pushStrings (envpLow envp execfn) argv).2

/-- The layout by its cursors. -/
theorem stackLayout_eq :
    stackLayout entry phdrAddr phnum argv envp execfn =
      { randomAddr := GUEST_STACK_TOP - 16
        execfnAddr := execfnLow execfn
        envpAddrs := (pushStrings (execfnLow execfn) envp).1
        argvAddrs := (pushStrings (envpLow envp execfn) argv).1
        sp := ((argvLow argv envp execfn &&& ~~~15) -
          BitVec.ofNat 64 (frameSize argv envp)) &&& ~~~15
        frame := BitVec.ofNat 64 argv.length :: (pushStrings (envpLow envp execfn) argv).1 ++ [0] ++
          (pushStrings (execfnLow execfn) envp).1 ++ [0] ++
          [AT_PHDR, phdrAddr, AT_PHENT, 56, AT_PHNUM, BitVec.ofNat 64 phnum,
           AT_PAGESZ, BitVec.ofNat 64 PAGE_SIZE, AT_ENTRY, entry, AT_RANDOM, GUEST_STACK_TOP - 16,
           AT_EXECFN, execfnLow execfn, AT_NULL, 0] } := by
  have hcount : (1 + argv.length + 1 + envp.length + 1 + 16) * 8 = frameSize argv envp := by
    unfold frameSize
    omega
  rw [← hcount]
  rfl

theorem layout_fits (hfits : stackSize argv envp execfn ≤ GUEST_STACK_SIZE) :
    LayoutFits (stackLayout entry phdrAddr phnum argv envp execfn) argv envp execfn := by
  have htop := toNat_stackTop
  have hstrings : stringsSize argv envp execfn + frameSize argv envp ≤ 8388608 := by
    have h1 := le_up16 (stringsSize argv envp execfn)
    have h2 := le_up16 (up16 (stringsSize argv envp execfn) + frameSize argv envp)
    have h3 : stackSize argv envp execfn ≤ 8388608 := hfits
    unfold stackSize at h3
    omega
  have hsize : stringsSize argv envp execfn =
      16 + (execfn.length + 1) + sizes envp + sizes argv := rfl
  -- the cursor, step by step
  have hrandom : (GUEST_STACK_TOP - 16).toNat = 1073676272 := rfl
  have hexecfn : (execfnLow execfn).toNat = 1073676272 - (execfn.length + 1) := by
    unfold execfnLow
    rw [toNat_sub_ofNat (by omega), hrandom]
  obtain ⟨henv, henvLength, henvBlocks⟩ := pushStrings_spec (execfnLow execfn) envp (by omega)
  have henv' : (envpLow envp execfn).toNat = (execfnLow execfn).toNat - sizes envp := henv
  obtain ⟨harg, hargLength, hargBlocks⟩ := pushStrings_spec (envpLow envp execfn) argv (by omega)
  have hlow : (argvLow argv envp execfn).toNat = 1073676288 - stringsSize argv envp execfn := by
    have harg' : (argvLow argv envp execfn).toNat = (envpLow envp execfn).toNat - sizes argv := harg
    omega
  have hsp : (((argvLow argv envp execfn &&& ~~~15) - BitVec.ofNat 64 (frameSize argv envp)) &&&
      ~~~15).toNat = 1073676288 - stackSize argv envp execfn := by
    have hpos := toNat_align16 (argvLow argv envp execfn)
    rw [toNat_align16, toNat_sub_ofNat (by rw [hpos]; omega), hpos, hlow]
    unfold stackSize up16
    omega
  rw [stackLayout_eq]
  refine ⟨hargLength, henvLength, ?_, hsp, ?_⟩
  · simp only [List.length_append, List.length_cons, List.length_nil, hargLength, henvLength]
    unfold frameSize
    omega
  · have hbelow : (((argvLow argv envp execfn &&& ~~~15) - BitVec.ofNat 64 (frameSize argv envp)) &&&
        ~~~15).toNat + frameSize argv envp ≤ (argvLow argv envp execfn).toNat := by
      rw [hsp, hlow]
      unfold stackSize up16 at *
      omega
    refine (hargBlocks.mono hbelow (Nat.le_refl _)).append (henvBlocks.append ?_)
    refine ⟨Nat.le_refl _, ?_, ?_⟩
    · show (execfnLow execfn).toNat + execfn.length + 1 ≤ (GUEST_STACK_TOP - 16).toNat
      rw [hrandom, hexecfn]
      omega
    · have hend : (GUEST_STACK_TOP - 16).toNat + 16 = GUEST_STACK_TOP.toNat := by
        rw [hrandom, htop]
      exact Nat.le_of_eq hend

end

/-! ## The stack that is built -/

section

variable {entry phdrAddr : Word} {phnum : Nat} {argv envp : List (List UInt8)}
  {execfn : List UInt8} {l : StackLayout}

/-- All blocks, the words of the frame first. -/
def allBlocks (l : StackLayout) (argv envp : List (List UInt8)) (execfn : List UInt8) :
    List (Block UInt8) :=
  frameBlocks l.sp l.frame ++ stringBlocks l argv envp execfn

theorem sp_bounds (h : LayoutFits l argv envp execfn)
    (hfits : stackSize argv envp execfn ≤ GUEST_STACK_SIZE) :
    stackBase.toNat ≤ l.sp.toNat ∧ l.sp.toNat + 8 * l.frame.length ≤ GUEST_STACK_TOP.toNat := by
  have htop := toNat_stackTop
  have hbase := toNat_stackBase
  have hsp := h.spAt
  have hle := h.blocks.le
  have hframe := h.frameLength
  have hsize : stackSize argv envp execfn ≤ 8388608 := hfits
  omega

theorem allBlocks_ascending (h : LayoutFits l argv envp execfn)
    (hfits : stackSize argv envp execfn ≤ GUEST_STACK_SIZE) :
    Ascending stackBase.toNat GUEST_STACK_TOP.toNat (allBlocks l argv envp execfn) := by
  obtain ⟨hlow, hhigh⟩ := sp_bounds h hfits
  have htop := toNat_stackTop
  have hframe := frameBlocks_ascending l.sp l.frame (by omega)
  rw [h.frameLength] at hframe
  exact (hframe.mono hlow (Nat.le_refl _)).append h.blocks

/-- The stores of zipped strings. -/
theorem storesOf_zip (addrs : List Word) (strs : List (List UInt8)) :
    storesOf (addrs.zip strs) = (List.zipWith stringBlock addrs strs).map Block.toStore := by
  unfold storesOf
  rw [List.zip_eq_zipWith, List.map_zipWith, List.map_zipWith]
  rfl

theorem storesOf_frame (addr : Word) (ws : List Word) :
    storesOf (frameWrites addr ws) = (frameBlocks addr ws).map Block.toStore := by
  unfold storesOf frameBlocks
  rw [List.map_map]
  rfl

/-- The writes of the source are the stores of the blocks, in another order. -/
theorem writes_perm : (storesOf (l.writes argv envp execfn)).Perm
    ((allBlocks l argv envp execfn).map Block.toStore) := by
  have hwrites : storesOf (l.writes argv envp execfn) =
      [(l.randomAddr.toNat, randomData), (l.execfnAddr.toNat, execfn)] ++
        (storesOf (l.envpAddrs.zip envp)).reverse ++ (storesOf (l.argvAddrs.zip argv)).reverse ++
        storesOf (frameWrites l.sp l.frame) := by
    unfold storesOf StackLayout.writes
    simp only [List.map_append, List.map_reverse, List.map_cons, List.map_nil]
  have hblocks : (allBlocks l argv envp execfn).map Block.toStore =
      storesOf (frameWrites l.sp l.frame) ++ (storesOf (l.argvAddrs.zip argv) ++
        (storesOf (l.envpAddrs.zip envp) ++
          [(l.execfnAddr.toNat, execfn), (l.randomAddr.toNat, randomData)])) := by
    unfold allBlocks stringBlocks
    rw [List.map_append, List.map_append, List.map_append, storesOf_zip, storesOf_zip,
      storesOf_frame]
    rfl
  -- the writes are the blocks from above downwards, but for the frame
  have hreverse : storesOf (l.writes argv envp execfn) =
      (storesOf (l.argvAddrs.zip argv) ++ (storesOf (l.envpAddrs.zip envp) ++
        [(l.execfnAddr.toNat, execfn), (l.randomAddr.toNat, randomData)])).reverse ++
        storesOf (frameWrites l.sp l.frame) := by
    rw [hwrites]
    simp only [List.reverse_append, List.reverse_cons, List.reverse_nil, List.nil_append,
      List.append_assoc, List.cons_append]
  rw [hreverse, hblocks]
  exact ((List.reverse_perm _).append_right _).trans List.perm_append_comm

theorem run_setupStack (h : LayoutFits (stackLayout entry phdrAddr phnum argv envp execfn) argv
      envp execfn) (hfits : stackSize argv envp execfn ≤ GUEST_STACK_SIZE) (s : GuestSpace) :
    (setupStack true entry phdrAddr phnum argv envp execfn).run s =
      (.ok (stackLayout entry phdrAddr phnum argv envp execfn).sp,
        writeAll (s.map stackBase.toNat GUEST_STACK_SIZE (PROT_READ ||| PROT_WRITE))
          ((stackLayout entry phdrAddr phnum argv envp execfn).writes argv envp execfn)) := by
  have hmap : (Guest.mmapFixed true stackBase (BitVec.ofNat 64 GUEST_STACK_SIZE)
      (PROT_READ ||| PROT_WRITE) : Guest LoadError Bool).run s =
        (.ok true, s.map stackBase.toNat GUEST_STACK_SIZE (PROT_READ ||| PROT_WRITE)) := by
    unfold Guest.mmapFixed
    rw [Guest.run_bind_ok (run_g2h_ok s (by decide))]
    rfl
  have hwrites : ∀ w ∈ (stackLayout entry phdrAddr phnum argv envp execfn).writes argv envp execfn,
      w.1.toNat < GUEST_SPACE_SIZE ∧ (s.map stackBase.toNat GUEST_STACK_SIZE
        (PROT_READ ||| PROT_WRITE)).writable w.1.toNat w.2.length = true := by
    intro w hw
    have hstore : (w.1.toNat, w.2) ∈ (allBlocks (stackLayout entry phdrAddr phnum argv envp execfn)
        argv envp execfn).map Block.toStore :=
      writes_perm.mem_iff.mp (List.mem_map_of_mem hw)
    obtain ⟨b, hb, heq⟩ := List.mem_map.mp hstore
    obtain ⟨hlow, hhigh⟩ := (allBlocks_ascending h hfits).inside hb
    injection heq with haddr hbytes
    have htop := toNat_stackTop
    have hbase := toNat_stackBase
    unfold Block.stop at hhigh
    rw [haddr, hbytes] at hhigh
    rw [haddr] at hlow
    refine ⟨?_, ?_⟩
    · show _ < 1073741824
      omega
    · unfold GuestSpace.writable
      rw [decide_eq_true_eq]
      intro k hk
      have hprot : (s.map stackBase.toNat GUEST_STACK_SIZE (PROT_READ ||| PROT_WRITE)).prot
          (w.1.toNat + k) = PROT_READ ||| PROT_WRITE := by
        apply fill_inside
        · omega
        · show _ < stackBase.toNat + 8388608
          omega
      rw [hprot]
      decide
  unfold setupStack
  rw [Guest.run_bind_ok hmap, if_pos rfl, Guest.run_bind_ok (run_writeEach_ok hwrites)]
  rfl

/-- What the program is started with. -/
def startupOf (entry phdrAddr : Word) (phnum : Nat) (argv envp : List (List UInt8))
    (execfn : List UInt8) : Startup where
  argv := argv
  envp := envp
  execfn := execfn
  random := randomData
  phdr := phdrAddr.toNat
  phnum := phnum
  pageSize := PAGE_SIZE
  entry := entry.toNat

def pointersOf (l : StackLayout) : StackPointers where
  argv := l.argvAddrs.map BitVec.toNat
  envp := l.envpAddrs.map BitVec.toNat
  execfn := l.execfnAddr.toNat
  random := l.randomAddr.toNat

/-- The words of the frame are those of the ABI. -/
theorem frame_words (hargc : argv.length < 2 ^ 64) (hphnum : phnum < 2 ^ 64) :
    (stackLayout entry phdrAddr phnum argv envp execfn).frame.map BitVec.toNat =
      frameWords (startupOf entry phdrAddr phnum argv envp execfn)
        (pointersOf (stackLayout entry phdrAddr phnum argv envp execfn)) := by
  have hlen : (BitVec.ofNat 64 argv.length).toNat = argv.length := by
    rw [BitVec.toNat_ofNat, Nat.mod_eq_of_lt hargc]
  have hnum : (BitVec.ofNat 64 phnum).toNat = phnum := by
    rw [BitVec.toNat_ofNat, Nat.mod_eq_of_lt hphnum]
  rw [stackLayout_eq]
  unfold frameWords auxv startupOf pointersOf
  simp only [List.map_append, List.map_cons, List.map_nil, List.flatMap_cons, List.flatMap_nil,
    List.cons_append, List.nil_append, List.append_nil, hlen, hnum]
  rfl

/-- The object of a block: its bytes and its gap. -/
def objectOf (b : Block UInt8) : Nat × Nat := (b.addr, b.bytes.length + b.gap)

theorem objects_zip (addrs : List Word) (strs : List (List UInt8)) :
    List.zipWith stringObject (addrs.map BitVec.toNat) strs =
      (List.zipWith stringBlock addrs strs).map objectOf := by
  rw [List.map_zipWith, List.zipWith_map_left]
  rfl

theorem stackObjects_eq (hwords : (frameWords (startupOf entry phdrAddr phnum argv envp execfn)
      (pointersOf l)).length = l.frame.length) :
    stackObjects (startupOf entry phdrAddr phnum argv envp execfn) (pointersOf l) l.sp.toNat =
      ((⟨l.sp.toNat, [], 8 * l.frame.length⟩ : Block UInt8) ::
        stringBlocks l argv envp execfn).map objectOf := by
  unfold stackObjects stringBlocks
  rw [hwords, List.map_cons, List.map_append, List.map_append, ← objects_zip, ← objects_zip,
    List.cons_append, List.cons_append, List.append_assoc]
  simp only [objectOf, List.length_nil, Nat.zero_add]
  rfl

/-- The strings at zipped addresses. -/
theorem cstrings_of_blocks {mem : Nat → UInt8} {addrs : List Word} {strs : List (List UInt8)}
    (hlen : addrs.length = strs.length)
    (h : ∀ b ∈ List.zipWith stringBlock addrs strs, CStringAt mem b.addr b.bytes) :
    List.Forall₂ (CStringAt mem) (addrs.map BitVec.toNat) strs := by
  induction addrs generalizing strs with
  | nil =>
    cases strs with
    | nil => exact .nil
    | cons s ss => cases hlen
  | cons a as ih =>
    cases strs with
    | nil => cases hlen
    | cons s ss =>
      exact .cons (h (stringBlock a s) List.mem_cons_self)
        (ih (Nat.succ.inj hlen) fun b hb => h b (List.mem_cons_of_mem _ hb))

/-- A string block whose gap is zero holds the string. -/
theorem cstringAt_of_block {mem : Nat → UInt8} {b : Block UInt8} (hgap : b.gap = 1)
    (hinner : 0 ∉ b.bytes)
    (hbytes : ∀ (k : Nat) (hk : k < b.bytes.length), mem (b.addr + k) = b.bytes[k])
    (hzero : ∀ x, b.addr + b.bytes.length ≤ x → x < b.stop → mem x = 0) :
    CStringAt mem b.addr b.bytes := by
  refine ⟨load_eq hbytes, hinner, hzero _ (Nat.le_refl _) ?_⟩
  unfold Block.stop
  omega

theorem mem_stringBlocks {addrs : List Word} {strs : List (List UInt8)} {b : Block UInt8}
    (hb : b ∈ List.zipWith stringBlock addrs strs) : b.gap = 1 ∧ b.bytes ∈ strs := by
  rw [← List.map_uncurry_zip_eq_zipWith] at hb
  obtain ⟨⟨addr, str⟩, hpair, rfl⟩ := List.mem_map.mp hb
  exact ⟨rfl, (List.of_mem_zip hpair).2⟩

/-- The frame as one object, with the blocks above it. -/
theorem objects_ascending (h : LayoutFits l argv envp execfn)
    (hfits : stackSize argv envp execfn ≤ GUEST_STACK_SIZE) :
    Ascending stackBase.toNat GUEST_STACK_TOP.toNat
      ((⟨l.sp.toNat, [], 8 * l.frame.length⟩ : Block UInt8) ::
        stringBlocks l argv envp execfn) := by
  refine ⟨(sp_bounds h hfits).1, ?_⟩
  have hstop : (⟨l.sp.toNat, [], 8 * l.frame.length⟩ : Block UInt8).stop =
      l.sp.toNat + frameSize argv envp := by
    rw [← h.frameLength]
    rfl
  rw [hstop]
  exact h.blocks

/-- Whatever fits is laid out as the ABI says, for any strings without NUL. -/
theorem setupStack_initialStack (entry phdrAddr : Word) (phnum : Nat)
    (argv envp : List (List UInt8)) (execfn : List UInt8) (hphnum : phnum < 2 ^ 16)
    (hnul : ∀ str ∈ execfn :: argv ++ envp, 0 ∉ str)
    (hfits : stackSize argv envp execfn ≤ GUEST_STACK_SIZE) (s : GuestSpace) :
    ∃ sp s' p, (setupStack true entry phdrAddr phnum argv envp execfn).run s = (.ok sp, s') ∧
      InitialStack (startupOf entry phdrAddr phnum argv envp execfn) p stackBase.toNat
        GUEST_STACK_TOP.toNat s'.mem sp.toNat := by
  have hlayout := layout_fits entry phdrAddr phnum argv envp execfn hfits
  refine ⟨_, _, pointersOf (stackLayout entry phdrAddr phnum argv envp execfn),
    run_setupStack hlayout hfits s, ?_⟩
  generalize hl : stackLayout entry phdrAddr phnum argv envp execfn = l at hlayout ⊢
  generalize hm : (writeAll _ _).mem = mem
  -- every block can be read back, and the gaps are zero
  have hblocks : ∀ b ∈ allBlocks l argv envp execfn,
      (∀ (k : Nat) (hk : k < b.bytes.length), mem (b.addr + k) = b.bytes[k]) ∧
        ∀ x, b.addr + b.bytes.length ≤ x → x < b.stop → mem x = 0 := by
    intro b hb
    have hasc := allBlocks_ascending hlayout hfits
    obtain ⟨hlow, hhigh⟩ := hasc.inside hb
    rw [← hm, writeAll_mem]
    obtain ⟨hbytes, hgap⟩ := storeAll_blocks hasc writes_perm hb
    refine ⟨hbytes, ?_⟩
    intro x hle hlt
    rw [hgap x hle hlt]
    have htop := toNat_stackTop
    have hbase := toNat_stackBase
    apply fill_inside
    · omega
    · show x < stackBase.toNat + 8388608
      omega
  have hstring : ∀ b ∈ stringBlocks l argv envp execfn, b.gap = 1 → 0 ∉ b.bytes →
      CStringAt mem b.addr b.bytes := by
    intro b hb hgap hinner
    obtain ⟨hbytes, hzero⟩ := hblocks b (List.mem_append_right _ hb)
    exact cstringAt_of_block hgap hinner hbytes hzero
  have hwords : l.frame.map BitVec.toNat =
      frameWords (startupOf entry phdrAddr phnum argv envp execfn) (pointersOf l) := by
    have hsize : frameSize argv envp ≤ 8388608 := by
      have h1 := le_up16 (up16 (stringsSize argv envp execfn) + frameSize argv envp)
      have h2 : stackSize argv envp execfn ≤ 8388608 := hfits
      unfold stackSize at h2
      omega
    unfold frameSize at hsize
    rw [← hl]
    exact frame_words (by omega) (by omega)
  have hlength : (frameWords (startupOf entry phdrAddr phnum argv envp execfn)
      (pointersOf l)).length = l.frame.length := by
    rw [← hwords, List.length_map]
  have hbounds := sp_bounds hlayout hfits
  have hobjects := objects_ascending hlayout hfits
  refine ⟨?_, ?_, ?_, ?_, ?_, ?_, ?_, ?_⟩
  · have hsp := hlayout.spAt
    have htop := toNat_stackTop
    unfold stackSize up16 at hsp
    omega
  · rw [← hwords]
    have htop := toNat_stackTop
    apply wordsAt_frame
    · omega
    · intro b hb
      exact load_eq (hblocks b (List.mem_append_left _ hb)).1
  · apply cstrings_of_blocks hlayout.argvLength
    intro b hb
    obtain ⟨hgap, hmem⟩ := mem_stringBlocks hb
    exact hstring b (List.mem_append_left _ hb) hgap
      (hnul _ (List.mem_append_left _ (List.mem_cons_of_mem _ hmem)))
  · apply cstrings_of_blocks hlayout.envpLength
    intro b hb
    obtain ⟨hgap, hmem⟩ := mem_stringBlocks hb
    exact hstring b (List.mem_append_right _ (List.mem_append_left _ hb)) hgap
      (hnul _ (List.mem_append_right _ hmem))
  · have hb : stringBlock l.execfnAddr execfn ∈ stringBlocks l argv envp execfn :=
      List.mem_append_right _ (List.mem_append_right _ List.mem_cons_self)
    exact hstring _ hb rfl (hnul _ List.mem_cons_self)
  · have hb : (⟨l.randomAddr.toNat, randomData, 0⟩ : Block UInt8) ∈ allBlocks l argv envp execfn :=
      List.mem_append_right _ (List.mem_append_right _ (List.mem_append_right _
        (List.mem_cons_of_mem _ List.mem_cons_self)))
    exact load_eq (hblocks _ hb).1
  · rw [stackObjects_eq hlength]
    intro o ho
    obtain ⟨b, hb, rfl⟩ := List.mem_map.mp ho
    obtain ⟨hlow, hhigh⟩ := hobjects.inside hb
    refine ⟨hlow, ?_⟩
    show b.addr + (b.bytes.length + b.gap) ≤ _
    rw [← Nat.add_assoc]
    exact hhigh
  · rw [stackObjects_eq hlength]
    apply List.pairwise_map.mpr
    refine hobjects.pairwise.imp ?_
    intro b b' hle
    refine .inl ?_
    show b.addr + (b.bytes.length + b.gap) ≤ _
    rw [← Nat.add_assoc]
    exact hle

/-- `./prog arg1` with `K=V` in the environment, loaded from `/p`. -/
theorem setupStack_initialStack_prog :
    ∃ sp s' p, (setupStack true 0x10000 0x10040 1
        [[0x2e, 0x2f, 0x70, 0x72, 0x6f, 0x67], [0x61, 0x72, 0x67, 0x31]] [[0x4b, 0x3d, 0x56]]
        [0x2f, 0x70]).run GuestSpace.new = (.ok sp, s') ∧
      InitialStack (startupOf 0x10000 0x10040 1
        [[0x2e, 0x2f, 0x70, 0x72, 0x6f, 0x67], [0x61, 0x72, 0x67, 0x31]] [[0x4b, 0x3d, 0x56]]
        [0x2f, 0x70]) p stackBase.toNat GUEST_STACK_TOP.toNat s'.mem sp.toNat :=
  setupStack_initialStack 0x10000 0x10040 1
    [[0x2e, 0x2f, 0x70, 0x72, 0x6f, 0x67], [0x61, 0x72, 0x67, 0x31]] [[0x4b, 0x3d, 0x56]]
    [0x2f, 0x70] (by decide) (by decide) (by decide) GuestSpace.new

end

end TcgRs.Analysis.InitialStack
