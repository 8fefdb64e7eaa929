import Mathlib.Data.List.GetD
import Mathlib.Data.List.MinMax
import TcgRs.Analysis.InitialStack

/-!
# The loaded image

Every segment zeroes its pages before its bytes are copied, the segments come in file order and
the initial stack comes last.  So what is in memory at the end is decided by the last one that
touches a byte: a segment is intact when no later page and no part of the stack puts something
else where its bytes are.
-/

set_option autoImplicit false

namespace TcgRs.Analysis.ImageLoading

open TcgRs.Model.Linux TcgRs.Library TcgRs.Library.ByteMemory
open TcgRs.Analysis.GuestRuns TcgRs.Analysis.InitialStack

/-! ## What a segment asks for -/

/-- The addresses of a segment. -/
def Holds (ph : Elf64Phdr) (x : Nat) : Prop :=
  ph.pVaddr.toNat ≤ x ∧ x < ph.pVaddr.toNat + ph.pMemsz.toNat

/-- The end of a segment. -/
def segEnd (ph : Elf64Phdr) : Nat := ph.pVaddr.toNat + ph.pMemsz.toNat

/-- The addresses of the pages of a segment. -/
def Covers (ph : Elf64Phdr) (x : Nat) : Prop := down ph.pVaddr.toNat ≤ x ∧ x < up (segEnd ph)

/-- The byte a segment has at index `i`: from the file, and zero behind it. -/
def segByte (data : List UInt8) (ph : Elf64Phdr) (i : Nat) : UInt8 :=
  if i < ph.pFilesz.toNat then data.getD (ph.pOffset.toNat + i) 0 else 0

/-- The bytes of the file for a segment. -/
def fileBytes (data : List UInt8) (ph : Elf64Phdr) : List UInt8 :=
  (data.drop ph.pOffset.toNat).take ph.pFilesz.toNat

/-- The memory after a segment was loaded. -/
def applySegment (data : List UInt8) (mem : Nat → UInt8) (ph : Elf64Phdr) : Nat → UInt8 :=
  store (fill mem (down ph.pVaddr.toNat) (up (segEnd ph) - down ph.pVaddr.toNat) 0)
    ph.pVaddr.toNat (fileBytes data ph)

theorem down_le (n : Nat) : down n ≤ n := by
  unfold down
  omega

theorem le_up (n : Nat) : n ≤ up n := by
  unfold up
  omega

section

variable {data : List UInt8} {mem : Nat → UInt8} {ph : Elf64Phdr} {x i : Nat}

theorem Holds.covers (h : Holds ph x) : Covers ph x :=
  ⟨Nat.le_trans (down_le _) h.1, Nat.lt_of_lt_of_le h.2 (le_up _)⟩

theorem fileBytes_misses (hsize : ph.pFilesz.toNat ≤ ph.pMemsz.toNat) (h : ¬ Holds ph x) :
    Misses (ph.pVaddr.toNat, fileBytes data ph) x := by
  have hlen : (fileBytes data ph).length ≤ ph.pFilesz.toNat := List.length_take_le _ _
  unfold Holds at h
  unfold Misses
  dsimp only
  omega

/-- Outside its pages a segment changes nothing. -/
theorem applySegment_outside (hsize : ph.pFilesz.toNat ≤ ph.pMemsz.toNat) (h : ¬ Covers ph x) :
    applySegment data mem ph x = mem x := by
  unfold applySegment
  rw [store_of_misses (fileBytes_misses hsize fun hin => h hin.covers)]
  apply fill_outside
  unfold Covers at h
  omega

/-- In its pages, outside its bytes, a segment leaves zero. -/
theorem applySegment_page (hsize : ph.pFilesz.toNat ≤ ph.pMemsz.toNat) (hnot : ¬ Holds ph x)
    (h : Covers ph x) : applySegment data mem ph x = 0 := by
  unfold applySegment
  rw [store_of_misses (fileBytes_misses hsize hnot)]
  unfold Covers at h
  exact fill_inside h.1 (by omega)

/-- A segment puts its bytes where they belong. -/
theorem applySegment_at (hfits : ph.pFilesz.toNat ≠ 0 →
    ph.pOffset.toNat + ph.pFilesz.toNat ≤ data.length) (hi : i < ph.pMemsz.toNat) :
    applySegment data mem ph (ph.pVaddr.toNat + i) = segByte data ph i := by
  have hlen : (fileBytes data ph).length = ph.pFilesz.toNat := by
    unfold fileBytes
    rw [List.length_take, List.length_drop]
    omega
  unfold segByte applySegment
  split
  · rename_i hfile
    rw [store_add (by omega)]
    unfold fileBytes
    rw [List.getElem_take, List.getElem_drop, List.getD_eq_getElem]
  · rename_i hfile
    rw [store_of_misses (.inr (by dsimp only; omega))]
    have hcov : Covers ph (ph.pVaddr.toNat + i) :=
      Holds.covers ⟨Nat.le_add_right _ _, Nat.add_lt_add_left hi _⟩
    unfold Covers at hcov
    exact fill_inside hcov.1 (by omega)

end

/-! ## All segments -/

section

variable (data : List UInt8) (mem : Nat → UInt8) {x : Nat}

/-- Where no segment has a byte, the pages that come along leave zero. -/
theorem foldl_applySegment {phs : List Elf64Phdr}
    (hsize : ∀ ph ∈ phs, ph.pFilesz.toNat ≤ ph.pMemsz.toNat) (hnot : ∀ ph ∈ phs, ¬ Holds ph x) :
    ((∃ ph ∈ phs, Covers ph x) → phs.foldl (applySegment data) mem x = 0) ∧
      ((∀ ph ∈ phs, ¬ Covers ph x) → phs.foldl (applySegment data) mem x = mem x) := by
  induction phs generalizing mem with
  | nil => exact ⟨fun h => by simp at h, fun _ => rfl⟩
  | cons ph phs ih =>
    have hsizeHead := hsize ph List.mem_cons_self
    have hnotHead := hnot ph List.mem_cons_self
    obtain ⟨hzero, hkeep⟩ := ih (applySegment data mem ph)
      (fun ph' h => hsize ph' (List.mem_cons_of_mem _ h))
      (fun ph' h => hnot ph' (List.mem_cons_of_mem _ h))
    rw [List.foldl_cons]
    by_cases hlater : ∃ ph' ∈ phs, Covers ph' x
    · refine ⟨fun _ => hzero hlater, fun hnone => ?_⟩
      obtain ⟨ph', hmem, hcov⟩ := hlater
      exact absurd hcov (hnone ph' (List.mem_cons_of_mem _ hmem))
    · have hkept := hkeep fun ph' hmem hcov => hlater ⟨ph', hmem, hcov⟩
      rw [hkept]
      constructor
      · intro hsome
        obtain ⟨ph', hmem, hcov⟩ := hsome
        cases List.mem_cons.mp hmem with
        | inl heq =>
          subst heq
          exact applySegment_page hsizeHead hnotHead hcov
        | inr htail => exact absurd ⟨ph', htail, hcov⟩ hlater
      · intro hnone
        exact applySegment_outside hsizeHead (hnone ph List.mem_cons_self)

/-- A segment before another: its bytes that matter are zero where the pages of the other are. -/
def Spared (data : List UInt8) (matter : Nat → Prop) (ph ph' : Elf64Phdr) : Prop :=
  ∀ i < ph.pMemsz.toNat, matter (ph.pVaddr.toNat + i) → Covers ph' (ph.pVaddr.toNat + i) →
    segByte data ph i = 0

/-- Segments with disjoint bytes are all there at the end exactly if each spares those before. -/
theorem image_iff {phs : List Elf64Phdr} (matter : Nat → Prop)
    (hsize : ∀ ph ∈ phs, ph.pFilesz.toNat ≤ ph.pMemsz.toNat)
    (hfits : ∀ ph ∈ phs, ph.pFilesz.toNat ≠ 0 →
      ph.pOffset.toNat + ph.pFilesz.toNat ≤ data.length)
    (hdisj : phs.Pairwise fun ph ph' => ∀ x, ¬ (Holds ph x ∧ Holds ph' x)) :
    (∀ ph ∈ phs, ∀ i < ph.pMemsz.toNat, matter (ph.pVaddr.toNat + i) →
      phs.foldl (applySegment data) mem (ph.pVaddr.toNat + i) = segByte data ph i) ↔
      phs.Pairwise (Spared data matter) := by
  induction phs generalizing mem with
  | nil => exact ⟨fun _ => .nil, fun _ ph h => by cases h⟩
  | cons ph phs ih =>
    obtain ⟨hdisjHead, hdisjTail⟩ := List.pairwise_cons.mp hdisj
    have hrest := ih (applySegment data mem ph)
      (fun ph' h => hsize ph' (List.mem_cons_of_mem _ h))
      (fun ph' h => hfits ph' (List.mem_cons_of_mem _ h)) hdisjTail
    -- The bytes of the first segment meet only pages of the others, not their bytes.
    have hfirst : ∀ i < ph.pMemsz.toNat,
        ((∃ ph' ∈ phs, Covers ph' (ph.pVaddr.toNat + i)) →
          (ph :: phs).foldl (applySegment data) mem (ph.pVaddr.toNat + i) = 0) ∧
        ((∀ ph' ∈ phs, ¬ Covers ph' (ph.pVaddr.toNat + i)) →
          (ph :: phs).foldl (applySegment data) mem (ph.pVaddr.toNat + i) =
            segByte data ph i) := by
      intro i hi
      have hin : Holds ph (ph.pVaddr.toNat + i) :=
        ⟨Nat.le_add_right _ _, Nat.add_lt_add_left hi _⟩
      have hboth := foldl_applySegment data (applySegment data mem ph)
        (fun ph' h => hsize ph' (List.mem_cons_of_mem _ h))
        (fun ph' h hin' => hdisjHead ph' h _ ⟨hin, hin'⟩)
      rw [List.foldl_cons]
      refine ⟨hboth.1, fun hnone => ?_⟩
      rw [hboth.2 hnone]
      exact applySegment_at (hfits ph List.mem_cons_self) hi
    rw [List.pairwise_cons, ← hrest]
    constructor
    · intro hall
      refine ⟨fun ph' hmem i hi hm hcov => ?_, fun ph' hmem => ?_⟩
      · rw [← hall ph List.mem_cons_self i hi hm]
        exact (hfirst i hi).1 ⟨ph', hmem, hcov⟩
      · exact hall ph' (List.mem_cons_of_mem _ hmem)
    · rintro ⟨hspared, htail⟩ ph' hmem i hi hm
      cases List.mem_cons.mp hmem with
      | inr hmem => exact htail ph' hmem i hi hm
      | inl heq =>
        subst heq
        by_cases hlater : ∃ ph'' ∈ phs, Covers ph'' (ph'.pVaddr.toNat + i)
        · obtain ⟨ph'', hmem', hcov⟩ := hlater
          rw [(hfirst i hi).1 ⟨ph'', hmem', hcov⟩, hspared ph'' hmem' i hi hm hcov]
        · exact (hfirst i hi).2 fun ph'' hmem' hcov => hlater ⟨ph'', hmem', hcov⟩

end

/-! ## A segment that is loaded -/

section

variable {answers : HostAnswers} {data : List UInt8} {ph : Elf64Phdr} {s s' : GuestSpace}

/-- What loading a segment without an error means. -/
structure Loaded (data : List UInt8) (ph : Elf64Phdr) (brk : Word) (s : GuestSpace) (brk' : Word)
    (s' : GuestSpace) : Prop where
  below : up (segEnd ph) ≤ GUEST_STACK_TOP.toNat
  fits : ph.pFilesz.toNat ≠ 0 → ph.pOffset.toNat + ph.pFilesz.toNat ≤ data.length
  mem : s'.mem = applySegment data s.mem ph
  break_ : brk'.toNat = max brk.toNat (up (segEnd ph))

theorem run_segmentEnd (ph : Elf64Phdr) (s : GuestSpace) :
    ∃ s', (segmentEnd ph).run s = (.ok (alignedUp (ph.pVaddr + ph.pMemsz)), s') ∧
      s'.mem = s.mem := by
  obtain ⟨b, hadd⟩ : ∃ b, (Guest.add ph.pVaddr ph.pMemsz : Guest LoadError Word).run s =
      (.ok (ph.pVaddr + ph.pMemsz), noteIf b s) := ⟨_, run_add _ _ _⟩
  obtain ⟨b', b'', hup⟩ := run_pageAlignUp (ε := LoadError) (ph.pVaddr + ph.pMemsz) (noteIf b s)
  refine ⟨noteIf b' (noteIf b'' (noteIf b s)), ?_, by simp⟩
  unfold segmentEnd
  rw [Guest.run_bind_ok hadd, hup]

theorem mapSegment_eq_ok {i : Nat} {start size : Word}
    (h : (mapSegment answers i start size).run s = (.ok (), s')) :
    start.toNat < GUEST_SPACE_SIZE ∧ mapAccepted (answers.mmap i) start size = true ∧
      s' = s.map start.toNat (up size.toNat) (PROT_READ ||| PROT_WRITE) := by
  unfold mapSegment at h
  by_cases hin : start.toNat < GUEST_SPACE_SIZE
  · rw [Guest.run_bind, run_mmapFixed s hin] at h
    by_cases hacc : mapAccepted (answers.mmap i) start size = true
    · rw [if_pos hacc] at h
      cases h
      exact ⟨hin, hacc, rfl⟩
    · rw [if_neg hacc] at h
      cases h
  · rw [Guest.run_bind_error (run_mmapFixed_panic s hin)] at h
    cases h

theorem copyFileData_eq_ok (h : (copyFileData data ph).run s = (.ok (), s')) :
    (ph.pFilesz.toNat ≠ 0 → ph.pOffset.toNat + ph.pFilesz.toNat ≤ data.length) ∧
      s'.mem = store s.mem ph.pVaddr.toNat (fileBytes data ph) := by
  unfold copyFileData at h
  split at h
  · rename_i hzero
    cases h
    have hnil : fileBytes data ph = [] := by
      unfold fileBytes
      rw [hzero]
      rfl
    refine ⟨fun hne => absurd (congrArg BitVec.toNat hzero) hne, ?_⟩
    rw [hnil, store_nil]
  · rename_i hzero
    rw [Guest.run_bind_ok (run_add _ _ _)] at h
    split at h
    · cases h
    · rename_i hlen
      split at h
      · cases h
      · rename_i horder
        -- A sum that wraps lies before the offset.
        have hsum : (ph.pOffset + ph.pFilesz).toNat = ph.pOffset.toNat + ph.pFilesz.toNat := by
          have hoff := ph.pOffset.isLt
          have hsize := ph.pFilesz.isLt
          rw [BitVec.toNat_add] at horder ⊢
          omega
        rw [hsum] at hlen h
        refine ⟨fun _ => Nat.not_lt.mp hlen, ?_⟩
        have hbytes : (data.drop ph.pOffset.toNat).take
            (ph.pOffset.toNat + ph.pFilesz.toNat - ph.pOffset.toNat) = fileBytes data ph := by
          rw [Nat.add_sub_cancel_left]
          rfl
        rw [hbytes] at h
        by_cases hin : ph.pVaddr.toNat < GUEST_SPACE_SIZE
        · rw [run_writeBytes _ _ hin] at h
          split at h
          · cases h
            simp [GuestSpace.write]
          · cases h
        · rw [run_writeBytes_panic _ _ hin] at h
          cases h

theorem protectSegment_eq_ok {i : Nat} {start size : Word} {prot : BitVec 32}
    (h : (protectSegment answers i start size prot).run s = (.ok (), s')) :
    s'.mem = s.mem := by
  unfold protectSegment at h
  split at h
  · cases h
    rfl
  · by_cases hin : start.toNat < GUEST_SPACE_SIZE
    · rw [Guest.run_bind, run_mprotect s hin] at h
      by_cases hacc : protectAccepted (answers.mprotect i) start size = true
      · rw [if_pos hacc] at h
        cases h
        rfl
      · rw [if_neg hacc] at h
        cases h
    · rw [Guest.run_bind_error (run_mprotect_panic s hin)] at h
      cases h

/-- The host maps the pages: they are the ones of the segment, below the top of the stack. -/
theorem pages_of_accepted {answer : Bool} (hend : segEnd ph < 2 ^ 64)
    (hstart : (pageAlignDown ph.pVaddr).toNat < GUEST_SPACE_SIZE)
    (htop : ¬ GUEST_STACK_TOP < alignedUp (ph.pVaddr + ph.pMemsz))
    (hacc : mapAccepted answer (pageAlignDown ph.pVaddr)
      (alignedUp (ph.pVaddr + ph.pMemsz) - pageAlignDown ph.pVaddr) = true) :
    (alignedUp (ph.pVaddr + ph.pMemsz)).toNat = up (segEnd ph) ∧
      up (segEnd ph) ≤ GUEST_STACK_TOP.toNat ∧
      up (alignedUp (ph.pVaddr + ph.pMemsz) - pageAlignDown ph.pVaddr).toNat =
        up (segEnd ph) - down ph.pVaddr.toNat := by
  have hsum : (ph.pVaddr + ph.pMemsz).toNat = segEnd ph := by
    rw [BitVec.toNat_add]
    exact Nat.mod_eq_of_lt hend
  have hup := toNat_alignedUp (ph.pVaddr + ph.pMemsz)
  rw [hsum] at hup
  have hdown := toNat_pageAlignDown ph.pVaddr
  have hle : (alignedUp (ph.pVaddr + ph.pMemsz)).toNat ≤ GUEST_STACK_TOP.toNat :=
    BitVec.not_lt.mp htop
  unfold mapAccepted at hacc
  simp only [Bool.and_eq_true, decide_eq_true_eq] at hacc
  have hmax := hacc.2
  have hne := BitVec.toNat_ne.mp hacc.1.1.2
  have htopVal : GUEST_STACK_TOP.toNat = 0x3FFF0000 := rfl
  have hsub := BitVec.toNat_sub (alignedUp (ph.pVaddr + ph.pMemsz)) (pageAlignDown ph.pVaddr)
  have hge : ph.pVaddr.toNat ≤ segEnd ph := Nat.le_add_right _ _
  unfold MAX_MAPPING at hmax
  unfold GUEST_SPACE_SIZE at hstart
  have hzero : (0 : Word).toNat = 0 := rfl
  rw [hzero] at hne
  unfold up down at *
  rw [htopVal] at hle ⊢
  omega

/-- Loading one segment whose end is an address. -/
theorem loadSegment_eq_ok {i : Nat} {brk brk' : Word} (hend : segEnd ph < 2 ^ 64)
    (h : (loadSegment answers data i ph brk).run s = (.ok brk', s')) :
    Loaded data ph brk s brk' s' := by
  unfold loadSegment at h
  obtain ⟨s₁, hrun₁, hmem₁⟩ := run_segmentEnd ph s
  rw [Guest.run_bind_ok hrun₁, Guest.run_bind_ok (run_sub _ _ _)] at h
  split at h
  · cases h
  · rename_i htop
    obtain ⟨_, s₂, hrun₂, h⟩ := Guest.run_bind_eq_ok h
    obtain ⟨_, s₃, hrun₃, h⟩ := Guest.run_bind_eq_ok h
    obtain ⟨_, s₄, hrun₄, h⟩ := Guest.run_bind_eq_ok h
    obtain ⟨s₅, hrun₅, hmem₅⟩ := run_segmentEnd ph s₄
    rw [Guest.run_bind_ok hrun₅] at h
    cases h
    obtain ⟨hstart, hacc, hmap⟩ := mapSegment_eq_ok hrun₂
    obtain ⟨hfits, hmem₃⟩ := copyFileData_eq_ok hrun₃
    have hmem₄ := protectSegment_eq_ok hrun₄
    obtain ⟨hup, hbelow, hsize⟩ := pages_of_accepted hend hstart htop hacc
    have hpages : s₂.mem =
        fill s.mem (down ph.pVaddr.toNat) (up (segEnd ph) - down ph.pVaddr.toNat) 0 := by
      rw [hmap, ← hsize, ← toNat_pageAlignDown, ← hmem₁, ← noteIf_mem _ s₁]
      rfl
    refine ⟨hbelow, hfits, ?_, ?_⟩
    · rw [hmem₅, hmem₄, hmem₃, hpages]
      rfl
    · rw [← hup]
      split
      · rename_i hlt
        exact (Nat.max_eq_right (Nat.le_of_lt hlt)).symm
      · rename_i hge
        exact (Nat.max_eq_left (Nat.not_lt.mp hge)).symm

/-- The segments of a file. -/
def loads (phs : List Elf64Phdr) : List Elf64Phdr := phs.filter fun ph => decide (ph.pType = PT_LOAD)

theorem loadSegments_eq_ok {i : Nat} {phs : List Elf64Phdr} {brk brk' : Word}
    (hend : ∀ ph ∈ loads phs, segEnd ph < 2 ^ 64)
    (h : (loadSegments answers data i phs brk).run s = (.ok brk', s')) :
    (∀ ph ∈ loads phs, up (segEnd ph) ≤ GUEST_STACK_TOP.toNat) ∧
      (∀ ph ∈ loads phs, ph.pFilesz.toNat ≠ 0 →
        ph.pOffset.toNat + ph.pFilesz.toNat ≤ data.length) ∧
      s'.mem = (loads phs).foldl (applySegment data) s.mem ∧
      brk'.toNat = (loads phs).foldl (fun b ph => max b (up (segEnd ph))) brk.toNat := by
  induction phs generalizing i brk s with
  | nil =>
    cases h
    exact ⟨by simp [loads], by simp [loads], rfl, rfl⟩
  | cons ph phs ih =>
    unfold loadSegments at h
    by_cases htype : ph.pType = PT_LOAD
    · have hloads : loads (ph :: phs) = ph :: loads phs :=
        List.filter_cons_of_pos (decide_eq_true htype)
      rw [hloads] at hend ⊢
      rw [if_pos htype] at h
      obtain ⟨brk₁, s₁, hfirst, hrest⟩ := Guest.run_bind_eq_ok h
      have hseg := loadSegment_eq_ok (hend ph List.mem_cons_self) hfirst
      obtain ⟨hbelow, hfits, hmem, hbrk⟩ :=
        ih (fun ph' hph' => hend ph' (List.mem_cons_of_mem _ hph')) hrest
      refine ⟨List.forall_mem_cons.mpr ⟨hseg.below, hbelow⟩,
        List.forall_mem_cons.mpr ⟨hseg.fits, hfits⟩, ?_, ?_⟩
      · rw [hmem, hseg.mem, List.foldl_cons]
      · rw [hbrk, hseg.break_, List.foldl_cons]
    · have hloads : loads (ph :: phs) = loads phs :=
        List.filter_cons_of_neg (by simpa using htype)
      rw [hloads] at hend ⊢
      rw [if_neg htype] at h
      exact ih hend h

end

/-! ## The initial stack -/

/-- The address of the program headers that the program is told. -/
def phdrAddrOf (ehdr : Elf64Ehdr) (phs : List Elf64Phdr) : Word :=
  let phdrAddr := phs.foldl (fun a ph => if ph.pType = PT_PHDR then ph.pVaddr else a) 0
  if phdrAddr = 0 then
    match phs.find? fun ph => decide (ph.pType = PT_LOAD) with
    | some ph => ph.pVaddr + ehdr.ePhoff
    | none => phdrAddr
  else phdrAddr

theorem run_findPhdrAddr (ehdr : Elf64Ehdr) (phs : List Elf64Phdr) (s : GuestSpace) :
    ∃ b, (findPhdrAddr ehdr phs).run s = (.ok (phdrAddrOf ehdr phs), noteIf b s) := by
  unfold findPhdrAddr phdrAddrOf
  dsimp only
  split
  · cases phs.find? fun ph => decide (ph.pType = PT_LOAD) with
    | some ph => exact ⟨_, run_add _ _ _⟩
    | none => exact ⟨false, rfl⟩
  · exact ⟨false, rfl⟩

/-- The stores that build the initial stack. -/
def stackStores (ehdr : Elf64Ehdr) (phs : List Elf64Phdr) (path : List UInt8)
    (argv envp : List (List UInt8)) : List (Nat × List UInt8) :=
  storesOf ((stackLayout ehdr.eEntry (phdrAddrOf ehdr phs) ehdr.ePhnum argv envp path).writes
    argv envp path)

/-- The address belongs to the stack, or something of the initial stack goes there. -/
def InStack (stores : List (Nat × List UInt8)) (x : Nat) : Prop :=
  stackBase.toNat ≤ x ∧ x < GUEST_STACK_TOP.toNat ∨ ∃ st ∈ stores, ¬ Misses st x

/-- What the initial stack has at an address. -/
def stackByte (stores : List (Nat × List UInt8)) : Nat → UInt8 := storeAll (fun _ => 0) stores

theorem writeEach_eq_ok {ε : Type} {ws : List (Word × List UInt8)} {s s' : GuestSpace}
    (h : (writeEach ws : Guest ε Unit).run s = (.ok (), s')) : s' = writeAll s ws := by
  induction ws generalizing s with
  | nil =>
    cases h
    rfl
  | cons w ws ih =>
    unfold writeEach at h
    obtain ⟨_, s₁, hfirst, hrest⟩ := Guest.run_bind_eq_ok h
    by_cases hin : w.1.toNat < GUEST_SPACE_SIZE
    · rw [run_writeBytes _ _ hin] at hfirst
      split at hfirst
      · cases hfirst
        exact ih hrest
      · cases hfirst
    · rw [run_writeBytes_panic _ _ hin] at hfirst
      cases hfirst

theorem up_mul (k : Nat) : up (k * 4096) = k * 4096 := by
  unfold up
  omega

theorem stackSize_eq : GUEST_STACK_SIZE = 2048 * 4096 := by decide

theorem toNat_stackSize : (BitVec.ofNat 64 GUEST_STACK_SIZE : Word).toNat = 2048 * 4096 := by
  decide

theorem up_stackSize : up (BitVec.ofNat 64 GUEST_STACK_SIZE : Word).toNat = GUEST_STACK_SIZE := by
  rw [toNat_stackSize, up_mul, stackSize_eq]

theorem stackBase_lt : stackBase.toNat < GUEST_SPACE_SIZE := by decide

theorem run_mapStack (answer : Bool) (s : GuestSpace) :
    (Guest.mmapFixed answer stackBase (BitVec.ofNat 64 GUEST_STACK_SIZE)
      (PROT_READ ||| PROT_WRITE) : Guest LoadError Bool).run s =
      if mapAccepted answer stackBase (BitVec.ofNat 64 GUEST_STACK_SIZE) then
        (.ok true, s.map stackBase.toNat GUEST_STACK_SIZE (PROT_READ ||| PROT_WRITE))
      else (.ok false, s) := by
  rw [run_mmapFixed s stackBase_lt, up_stackSize]

theorem setupStack_eq_ok {answer : Bool} {entry phdrAddr sp : Word} {phnum : Nat}
    {argv envp : List (List UInt8)} {execfn : List UInt8} {s s' : GuestSpace}
    (h : (setupStack answer entry phdrAddr phnum argv envp execfn).run s = (.ok sp, s')) :
    s'.mem = storeAll (fill s.mem stackBase.toNat GUEST_STACK_SIZE 0)
        (storesOf ((stackLayout entry phdrAddr phnum argv envp execfn).writes argv envp execfn)) ∧
      s'.brk = s.brk := by
  unfold setupStack at h
  obtain ⟨mapped, s₁, hmap, h⟩ := Guest.run_bind_eq_ok h
  rw [run_mapStack] at hmap
  split at h
  · rename_i htrue
    obtain ⟨_, s₂, hwrites, hrest⟩ := Guest.run_bind_eq_ok h
    have heq : s' = s₂ := (congrArg Prod.snd hrest).symm
    split at hmap
    · have hmapped : s₁ = s.map stackBase.toNat GUEST_STACK_SIZE (PROT_READ ||| PROT_WRITE) :=
        (congrArg Prod.snd hmap).symm
      rw [heq, writeEach_eq_ok hwrites, writeAll_mem, (writeAll_kept _ _).2, hmapped]
      exact ⟨rfl, rfl⟩
    · cases hmap
      cases htrue
  · cases h

/-- Where the stack is, the memory is its; elsewhere it is as before. -/
theorem stack_mem (stores : List (Nat × List UInt8)) (mem : Nat → UInt8) (x : Nat) :
    (InStack stores x →
        storeAll (fill mem stackBase.toNat GUEST_STACK_SIZE 0) stores x = stackByte stores x) ∧
      (¬ InStack stores x →
        storeAll (fill mem stackBase.toNat GUEST_STACK_SIZE 0) stores x = mem x) := by
  have htop : stackBase.toNat + GUEST_STACK_SIZE = GUEST_STACK_TOP.toNat := by decide
  constructor
  · intro hin
    apply storeAll_of_reached
    cases hin with
    | inl h => exact .inl (fill_inside h.1 (htop ▸ h.2))
    | inr h => exact .inr h
  · intro hout
    rw [storeAll_of_misses]
    · apply fill_outside
      unfold InStack at hout
      rw [htop]
      omega
    · intro st hst
      by_contra hnot
      exact hout (.inr ⟨st, hst, hnot⟩)

/-! ## The file in memory -/

/-- The segments of the file are in the memory, and the break is behind the highest one. -/
structure Faithful (data : List UInt8) (phs : List Elf64Phdr) (info : ElfInfo) (s : GuestSpace) :
    Prop where
  inside : ∀ ph ∈ loads phs, ∀ i < ph.pMemsz.toNat, ph.pVaddr.toNat + i < GUEST_SPACE_SIZE
  file : ∀ ph ∈ loads phs, ∀ i < ph.pMemsz.toNat, i < ph.pFilesz.toNat →
    data[ph.pOffset.toNat + i]? = some (s.mem (ph.pVaddr.toNat + i))
  zero : ∀ ph ∈ loads phs, ∀ i < ph.pMemsz.toNat, ph.pFilesz.toNat ≤ i →
    s.mem (ph.pVaddr.toNat + i) = 0
  highest : ∃ ph ∈ loads phs, info.brk.toNat = up (segEnd ph) ∧
    ∀ ph' ∈ loads phs, segEnd ph' ≤ segEnd ph
  break_ : s.brk = info.brk

/-- No segment ends beyond the last address; where the pages of a later segment meet the bytes of
an earlier one, these are zero; and where the initial stack meets them, it has the same bytes. -/
structure Intact (data : List UInt8) (phs : List Elf64Phdr) (stores : List (Nat × List UInt8)) :
    Prop where
  ends : ∀ ph ∈ loads phs, segEnd ph < 2 ^ 64
  spared : (loads phs).Pairwise (Spared data fun x => ¬ InStack stores x)
  stack : ∀ ph ∈ loads phs, ∀ i < ph.pMemsz.toNat, InStack stores (ph.pVaddr.toNat + i) →
    segByte data ph i = stackByte stores (ph.pVaddr.toNat + i)

section

variable {answers : HostAnswers} {data path : List UInt8} {argv envp : List (List UInt8)}
  {ehdr : Elf64Ehdr} {phs : List Elf64Phdr} {info : ElfInfo} {s s' : GuestSpace}

theorem loads_ne_nil (h : phs.any (fun ph => decide (ph.pType = PT_LOAD)) = true) :
    loads phs ≠ [] := by
  obtain ⟨ph, hmem, htype⟩ := List.any_eq_true.mp h
  exact List.ne_nil_of_mem (List.mem_filter.mpr ⟨hmem, htype⟩)

/-- What a load without an error leaves. -/
structure LoadedImage (data : List UInt8) (phs : List Elf64Phdr)
    (stores : List (Nat × List UInt8)) (info : ElfInfo) (s s' : GuestSpace) : Prop where
  some : loads phs ≠ []
  below : ∀ ph ∈ loads phs, up (segEnd ph) ≤ GUEST_STACK_TOP.toNat
  fits : ∀ ph ∈ loads phs, ph.pFilesz.toNat ≠ 0 →
    ph.pOffset.toNat + ph.pFilesz.toNat ≤ data.length
  mem : s'.mem = storeAll (fill ((loads phs).foldl (applySegment data) s.mem) stackBase.toNat
    GUEST_STACK_SIZE 0) stores
  infoBrk : info.brk.toNat = (loads phs).foldl (fun b ph => max b (up (segEnd ph))) 0
  brk : s'.brk = info.brk

theorem loadElf_eq_ok (hparse : parseElf data = .ok (ehdr, phs))
    (hend : ∀ ph ∈ loads phs, segEnd ph < 2 ^ 64)
    (h : (loadElf answers data path argv envp).run s = (.ok info, s')) :
    LoadedImage data phs (stackStores ehdr phs path argv envp) info s s' := by
  unfold loadElf at h
  obtain ⟨⟨ehdr', phdrAddr, brk⟩, s₁, himage, h⟩ := Guest.run_bind_eq_ok h
  obtain ⟨sp, s₂, hstack, h⟩ := Guest.run_bind_eq_ok h
  cases h
  unfold loadImage at himage
  rw [hparse] at himage
  obtain ⟨b, hphdr⟩ := run_findPhdrAddr ehdr phs s
  dsimp only at himage
  rw [Guest.run_bind_ok hphdr] at himage
  obtain ⟨brk', s₃, hsegs, himage⟩ := Guest.run_bind_eq_ok himage
  split at himage
  · rename_i hany
    cases himage
    obtain ⟨hbelow, hfits, hmem, hbrk⟩ := loadSegments_eq_ok hend hsegs
    obtain ⟨hstackMem, hstackBrk⟩ := setupStack_eq_ok hstack
    rw [noteIf_mem] at hmem
    refine ⟨loads_ne_nil hany, hbelow, hfits, ?_, hbrk, hstackBrk⟩
    rw [hstackMem, ← hmem]
    rfl
  · cases himage

theorem le_up_of_le {a b : Nat} (h : a ≤ b) : up a ≤ up b := by
  unfold up
  omega

/-- The running maximum is attained, and nothing is above it. -/
theorem foldl_max_spec {α : Type} (f : α → Nat) (xs : List α) (b : Nat) :
    b ≤ xs.foldl (fun b x => max b (f x)) b ∧
      (∀ x ∈ xs, f x ≤ xs.foldl (fun b x => max b (f x)) b) ∧
      (xs.foldl (fun b x => max b (f x)) b = b ∨
        ∃ x ∈ xs, xs.foldl (fun b x => max b (f x)) b = f x) := by
  induction xs generalizing b with
  | nil => exact ⟨Nat.le_refl _, by simp, .inl rfl⟩
  | cons x xs ih =>
    obtain ⟨hinit, hall, hatt⟩ := ih (max b (f x))
    rw [List.foldl_cons]
    refine ⟨Nat.le_trans (Nat.le_max_left _ _) hinit, ?_, ?_⟩
    · intro y hy
      cases List.mem_cons.mp hy with
      | inl heq =>
        rw [heq]
        exact Nat.le_trans (Nat.le_max_right _ _) hinit
      | inr htail => exact hall y htail
    · cases hatt with
      | inl heq =>
        cases Nat.le_total b (f x) with
        | inl hle => exact .inr ⟨x, List.mem_cons_self, heq.trans (Nat.max_eq_right hle)⟩
        | inr hle => exact .inl (heq.trans (Nat.max_eq_left hle))
      | inr hsome =>
        obtain ⟨y, hy, heq⟩ := hsome
        exact .inr ⟨y, List.mem_cons_of_mem _ hy, heq⟩

/-- The break that is left is behind the highest segment. -/
theorem LoadedImage.highest {stores : List (Nat × List UInt8)}
    (h : LoadedImage data phs stores info s s') : ∃ ph ∈ loads phs, info.brk.toNat = up (segEnd ph) ∧
      ∀ ph' ∈ loads phs, segEnd ph' ≤ segEnd ph := by
  obtain ⟨-, hall, hatt⟩ := foldl_max_spec (fun ph => up (segEnd ph)) (loads phs) 0
  rw [← h.infoBrk] at hall hatt
  cases hmax : (loads phs).argmax segEnd with
  | none => exact absurd (List.argmax_eq_none.mp hmax) h.some
  | some ph =>
    have hmem := List.argmax_mem hmax
    have hle : ∀ ph' ∈ loads phs, segEnd ph' ≤ segEnd ph := fun ph' hmem' =>
      List.le_of_mem_argmax hmem' hmax
    refine ⟨ph, hmem, Nat.le_antisymm ?_ (hall ph hmem), hle⟩
    cases hatt with
    | inl hzero =>
      rw [hzero]
      exact Nat.zero_le _
    | inr hsome =>
      obtain ⟨ph', hmem', heq⟩ := hsome
      rw [heq]
      exact le_up_of_le (hle ph' hmem')

/-- The bytes of a segment are what the claim of faithfulness asks for. -/
theorem segByte_iff {ph : Elf64Phdr} {i : Nat} {byte : UInt8} (hi : i < ph.pMemsz.toNat)
    (hfits : ph.pFilesz.toNat ≠ 0 → ph.pOffset.toNat + ph.pFilesz.toNat ≤ data.length) :
    byte = segByte data ph i ↔
      (i < ph.pFilesz.toNat → data[ph.pOffset.toNat + i]? = some byte) ∧
        (ph.pFilesz.toNat ≤ i → byte = 0) := by
  unfold segByte
  split
  · rename_i hfile
    have hlen : ph.pOffset.toNat + i < data.length := by omega
    rw [List.getElem?_eq_getElem hlen, List.getD_eq_getElem _ _ hlen, Option.some.injEq]
    constructor
    · intro heq
      exact ⟨fun _ => heq.symm, fun hle => absurd hfile (Nat.not_lt.mpr hle)⟩
    · intro hboth
      exact (hboth.1 hfile).symm
  · rename_i hfile
    constructor
    · intro heq
      exact ⟨fun hlt => absurd hlt hfile, fun _ => heq⟩
    · intro hboth
      exact hboth.2 (Nat.not_lt.mp hfile)

/-- The memory has every byte of the segments exactly if they were left alone. -/
theorem LoadedImage.bytes_iff {stores : List (Nat × List UInt8)}
    (h : LoadedImage data phs stores info s s')
    (hsize : ∀ ph ∈ loads phs, ph.pFilesz.toNat ≤ ph.pMemsz.toNat)
    (hdisj : (loads phs).Pairwise fun ph ph' => ∀ x, ¬ (Holds ph x ∧ Holds ph' x)) :
    (∀ ph ∈ loads phs, ∀ i < ph.pMemsz.toNat,
      s'.mem (ph.pVaddr.toNat + i) = segByte data ph i) ↔
      (loads phs).Pairwise (Spared data fun x => ¬ InStack stores x) ∧
        ∀ ph ∈ loads phs, ∀ i < ph.pMemsz.toNat, InStack stores (ph.pVaddr.toNat + i) →
          segByte data ph i = stackByte stores (ph.pVaddr.toNat + i) := by
  rw [← image_iff data s.mem (fun x => ¬ InStack stores x) hsize h.fits hdisj, h.mem]
  have hmem := stack_mem stores ((loads phs).foldl (applySegment data) s.mem)
  constructor
  · intro hall
    refine ⟨fun ph hph i hi hout => ?_, fun ph hph i hi hin => ?_⟩
    · rw [← hall ph hph i hi, (hmem _).2 hout]
    · rw [← hall ph hph i hi, (hmem _).1 hin]
  · rintro ⟨hfree, hstack⟩ ph hph i hi
    by_cases hin : InStack stores (ph.pVaddr.toNat + i)
    · rw [(hmem _).1 hin, hstack ph hph i hi hin]
    · rw [(hmem _).2 hin, hfree ph hph i hi hin]

/-- A faithful image ends below the last address. -/
theorem Faithful.ends (h : Faithful data phs info s) : ∀ ph ∈ loads phs, segEnd ph < 2 ^ 64 := by
  intro ph hph
  have hlast := h.inside ph hph (ph.pMemsz.toNat - 1)
  have hvaddr := ph.pVaddr.isLt
  unfold GUEST_SPACE_SIZE at hlast
  unfold segEnd
  omega

theorem faithful_iff_intact (hparse : parseElf data = .ok (ehdr, phs))
    (h : (loadElf answers data path argv envp).run s = (.ok info, s'))
    (hsize : ∀ ph ∈ loads phs, ph.pFilesz.toNat ≤ ph.pMemsz.toNat)
    (hdisj : (loads phs).Pairwise fun ph ph' => ∀ x, ¬ (Holds ph x ∧ Holds ph' x)) :
    Faithful data phs info s' ↔ Intact data phs (stackStores ehdr phs path argv envp) := by
  constructor
  · intro hfaith
    have hloaded := loadElf_eq_ok hparse hfaith.ends h
    have hbytes := (hloaded.bytes_iff hsize hdisj).mp fun ph hph i hi =>
      (segByte_iff hi (hloaded.fits ph hph)).mpr ⟨hfaith.file ph hph i hi, hfaith.zero ph hph i hi⟩
    exact ⟨hfaith.ends, hbytes.1, hbytes.2⟩
  · intro hintact
    have hloaded := loadElf_eq_ok hparse hintact.ends h
    have hbytes := (hloaded.bytes_iff hsize hdisj).mpr ⟨hintact.spared, hintact.stack⟩
    have hboth := fun ph hph i hi =>
      (segByte_iff hi (hloaded.fits ph hph)).mp (hbytes ph hph i hi)
    refine ⟨?_, fun ph hph i hi => (hboth ph hph i hi).1, fun ph hph i hi => (hboth ph hph i hi).2,
      hloaded.highest, hloaded.brk⟩
    intro ph hph i hi
    have hbelow := hloaded.below ph hph
    have hend := le_up (segEnd ph)
    have htop : GUEST_STACK_TOP.toNat = 0x3FFF0000 := rfl
    unfold segEnd at hend
    unfold segEnd at hbelow
    unfold GUEST_SPACE_SIZE
    omega

end

/-! ## Two segments -/

/-- A program header for the first bytes of the file. -/
def samplePhdr (vaddr filesz memsz : Nat) : List UInt8 :=
  toLeBytes 4 1 ++ toLeBytes 4 6 ++ toLeBytes 8 0 ++ toLeBytes 8 vaddr ++ toLeBytes 8 vaddr ++
    toLeBytes 8 filesz ++ toLeBytes 8 memsz ++ toLeBytes 8 4096

/-- An executable of two segments at the given addresses. -/
def sampleFile (vaddr vaddr' : Nat) : List UInt8 :=
  ELF_MAGIC ++ [2, 1, 1, 0, 0, 0, 0, 0, 0, 0, 0, 0] ++ toLeBytes 2 2 ++ toLeBytes 2 243 ++
    toLeBytes 4 1 ++ toLeBytes 8 vaddr ++ toLeBytes 8 64 ++ toLeBytes 8 0 ++ toLeBytes 4 0 ++
    toLeBytes 2 64 ++ toLeBytes 2 56 ++ toLeBytes 2 2 ++ toLeBytes 6 0 ++
    samplePhdr vaddr 4 8 ++ samplePhdr vaddr' 4 8

def sampleEhdr : Elf64Ehdr :=
  ⟨ELF_MAGIC ++ [2, 1, 1, 0, 0, 0, 0, 0, 0, 0, 0, 0], 2, 243, 0x10000, 64, 56, 2⟩

def samplePhdrs (vaddr vaddr' : Word) : List Elf64Phdr :=
  [⟨1, 6, 0, vaddr, 4, 8⟩, ⟨1, 6, 0, vaddr', 4, 8⟩]

/-- A host that grants everything. -/
def grantAll : HostAnswers := ⟨fun _ => true, fun _ => true, true⟩

theorem exists_of_isSome {α : Type} {x : Guest LoadError α} {s : GuestSpace}
    (h : (x.run s).1.toOption.isSome = true) : ∃ a s', x.run s = (.ok a, s') := by
  cases hrun : x.run s with
  | mk r s' =>
    rw [hrun] at h
    cases r with
    | ok a => exact ⟨a, s', rfl⟩
    | error e => cases h

theorem sample_disjoint {vaddr vaddr' : Word} (h : vaddr.toNat + 8 ≤ vaddr'.toNat) :
    (loads (samplePhdrs vaddr vaddr')).Pairwise fun ph ph' => ∀ x, ¬ (Holds ph x ∧ Holds ph' x) := by
  show List.Pairwise _ [_, _]
  rw [List.pairwise_pair]
  rintro x ⟨hfirst, hsecond⟩
  have hhigh : x < vaddr.toNat + 8 := hfirst.2
  have hlow : vaddr'.toNat ≤ x := hsecond.1
  omega

theorem sample_sizes {vaddr vaddr' : Word} :
    ∀ ph ∈ loads (samplePhdrs vaddr vaddr'), ph.pFilesz.toNat ≤ ph.pMemsz.toNat := by
  show ∀ ph ∈ [_, _], _
  have hsize : (4 : Word).toNat ≤ (8 : Word).toNat := by decide
  rw [List.forall_mem_cons, List.forall_mem_singleton]
  exact ⟨hsize, hsize⟩

/-- The second of two segments on one page wipes out the first. -/
theorem shared_page_wiped : ¬ ∀ (answers : HostAnswers) (data path : List UInt8)
    (argv envp : List (List UInt8)) (ehdr : Elf64Ehdr) (phs : List Elf64Phdr) (info : ElfInfo)
    (s s' : GuestSpace), parseElf data = .ok (ehdr, phs) →
      (loadElf answers data path argv envp).run s = (.ok info, s') →
      (∀ ph ∈ loads phs, ph.pFilesz.toNat ≤ ph.pMemsz.toNat) →
      ((loads phs).Pairwise fun ph ph' => ∀ x, ¬ (Holds ph x ∧ Holds ph' x)) →
      Faithful data phs info s' := by
  intro hall
  obtain ⟨info, s', hrun⟩ : ∃ info s',
      (loadElf grantAll (sampleFile 0x10000 0x10800) [] [] []).run .new = (.ok info, s') :=
    exists_of_isSome (by decide +kernel)
  have hzero : ((loadElf grantAll (sampleFile 0x10000 0x10800) [] [] []).run .new).2.mem 0x10000 =
      0 := by decide +kernel
  have hfaith := hall grantAll (sampleFile 0x10000 0x10800) [] [] [] sampleEhdr
    (samplePhdrs 0x10000 0x10800) info .new s' (by decide +kernel) hrun sample_sizes
    (sample_disjoint (by decide))
  have hbyte := hfaith.file _ List.mem_cons_self 0 (by decide) (by decide)
  rw [hrun] at hzero
  have hfirst : some (s'.mem 0x10000) = (sampleFile 0x10000 0x10800)[0]? := hbyte.symm
  rw [hzero] at hfirst
  exact absurd hfirst (by decide)

/-- On pages of their own both segments are there. -/
theorem faithful_iff_intact_pages : ∃ info s',
    (loadElf grantAll (sampleFile 0x10000 0x11000) [] [] []).run .new = (.ok info, s') ∧
      Faithful (sampleFile 0x10000 0x11000) (samplePhdrs 0x10000 0x11000) info s' := by
  obtain ⟨info, s', hrun⟩ : ∃ info s',
      (loadElf grantAll (sampleFile 0x10000 0x11000) [] [] []).run .new = (.ok info, s') :=
    exists_of_isSome (by decide +kernel)
  have hmiss : ∀ st ∈ stackStores sampleEhdr (samplePhdrs 0x10000 0x11000) [] [] [],
      0x20000 ≤ st.1 := by decide
  have hout : ∀ x < 0x20000,
      ¬ InStack (stackStores sampleEhdr (samplePhdrs 0x10000 0x11000) [] [] []) x := by
    intro x hx hin
    cases hin with
    | inl h => exact absurd (Nat.lt_of_le_of_lt h.1 hx) (by decide)
    | inr h =>
      obtain ⟨st, hst, hnot⟩ := h
      exact hnot (.inl (Nat.lt_of_lt_of_le hx (hmiss st hst)))
  have hparse : parseElf (sampleFile 0x10000 0x11000) =
      .ok (sampleEhdr, samplePhdrs 0x10000 0x11000) := by decide +kernel
  refine ⟨info, s', hrun, (faithful_iff_intact hparse hrun sample_sizes
    (sample_disjoint (by decide))).mpr ⟨?_, ?_, ?_⟩⟩
  · show ∀ ph ∈ [_, _], _
    rw [List.forall_mem_cons, List.forall_mem_singleton]
    exact ⟨by decide, by decide⟩
  · show List.Pairwise _ [_, _]
    rw [List.pairwise_pair]
    intro i hi _ hcov
    have hlow : 0x11000 ≤ 0x10000 + i := hcov.1
    have hsmall : i < 8 := hi
    omega
  · show ∀ ph ∈ [_, _], _
    rw [List.forall_mem_cons, List.forall_mem_singleton]
    constructor
    · intro i hi hin
      have hsmall : i < 8 := hi
      exact absurd hin (hout _ (by show 0x10000 + i < _; omega))
    · intro i hi hin
      have hsmall : i < 8 := hi
      exact absurd hin (hout _ (by show 0x11000 + i < _; omega))

end TcgRs.Analysis.ImageLoading
