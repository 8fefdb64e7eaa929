import TcgRs.Analysis.ImageLoading

/-!
# The ranges of an untrusted file

When the loader goes through any file without a panic and without a wrap, and stays below the
stack.  Every header is a round of the loop: what can go wrong in it depends on its fields and on
the protection of the pages, and it goes wrong only if no header before it ended the loop.
-/

set_option autoImplicit false

namespace TcgRs.Analysis.ImageRanges

open TcgRs.Model.Linux TcgRs.Library.ByteMemory
open TcgRs.Analysis.GuestRuns TcgRs.Analysis.ImageLoading

/-! ## What may happen -/

/-- Ranges below the stack; no overflow. -/
def Permitted : Event → Prop
  | .mapped start size => start + size ≤ stackBase.toNat
  | .protect start size => start + size ≤ stackBase.toNat
  | .read start size => start + size ≤ stackBase.toNat
  | .written start size => start + size ≤ stackBase.toNat
  | .sent start size => start + size ≤ stackBase.toNat
  | .wrapped => False

theorem not_permitted_wrapped : ¬ Permitted .wrapped := id

/-- The program headers where the file header says they are. -/
def exactPhdrs (data : List UInt8) (ehdr : Elf64Ehdr) : List Elf64Phdr :=
  (List.range ehdr.ePhnum).map fun i =>
    Elf64Phdr.at data (ehdr.ePhoff.toNat + i * ehdr.ePhentsize)

/-- Loading the image ends without a panic, touches only what is permitted, and, unless it returns
an error, works on the program headers of the file. -/
structure Exact (answers : HostAnswers) (data : List UInt8) (s : GuestSpace) : Prop where
  clean : Clean Permitted ((loadImage answers data).run s)
  headers : ∀ ehdr phs r s', parseElf data = .ok (ehdr, phs) →
    (loadImage answers data).run s = (.ok r, s') → phs = exactPhdrs data ehdr

/-! ## The conditions -/

section

variable (answers : HostAnswers) (data : List UInt8)

/-- The host maps the pages of a segment, which are at least one. -/
def Mapped (i : Nat) (ph : Elf64Phdr) : Prop :=
  answers.mmap i = true ∧ down ph.pVaddr.toNat < up (segEnd ph)

/-- The bytes of the file can be copied: no sum wraps, and when the file has them, they lie below
the stack, and those behind the segment's own pages can be written. -/
def CopySafe (ph : Elf64Phdr) (prot : Nat → BitVec 32) : Prop :=
  ph.pFilesz.toNat ≠ 0 →
    ph.pOffset.toNat + ph.pFilesz.toNat < 2 ^ 64 ∧
      (ph.pOffset.toNat + ph.pFilesz.toNat ≤ data.length →
        ph.pVaddr.toNat + ph.pFilesz.toNat ≤ stackBase.toNat ∧
          ∀ k < ph.pFilesz.toNat, up (segEnd ph) ≤ ph.pVaddr.toNat + k →
            prot (ph.pVaddr.toNat + k) &&& PROT_WRITE ≠ 0)

/-- One round goes well: the end, rounded up, is an address, and a segment that passes the check
and is mapped lies below the stack. -/
def SegmentSafe (i : Nat) (ph : Elf64Phdr) (prot : Nat → BitVec 32) : Prop :=
  segEnd ph + 4096 < 2 ^ 64 ∧
    (up (segEnd ph) ≤ GUEST_STACK_TOP.toNat → Mapped answers i ph →
      up (segEnd ph) ≤ stackBase.toNat ∧ CopySafe data ph prot)

/-- One round ends without an error. -/
def SegmentDone (i : Nat) (ph : Elf64Phdr) : Prop :=
  up (segEnd ph) ≤ GUEST_STACK_TOP.toNat ∧ Mapped answers i ph ∧
    (ph.pFilesz.toNat ≠ 0 → ph.pOffset.toNat + ph.pFilesz.toNat ≤ data.length) ∧
    (elfToProt ph.pFlags = PROT_READ ||| PROT_WRITE ∨ answers.mprotect i = true)

/-- The protection of the pages after a round. -/
def protAfter (ph : Elf64Phdr) (prot : Nat → BitVec 32) : Nat → BitVec 32 :=
  fill prot (down ph.pVaddr.toNat) (up (segEnd ph) - down ph.pVaddr.toNat) (elfToProt ph.pFlags)

/-- Every round that is reached goes well. -/
def SafeFrom : Nat → List Elf64Phdr → (Nat → BitVec 32) → Prop
  | _, [], _ => True
  | i, ph :: phs, prot =>
    if ph.pType = PT_LOAD then
      SegmentSafe answers data i ph prot ∧
        (SegmentDone answers data i ph → SafeFrom (i + 1) phs (protAfter ph prot))
    else SafeFrom (i + 1) phs prot

/-- All rounds end without an error. -/
def DoneFrom : Nat → List Elf64Phdr → Prop
  | _, [] => True
  | i, ph :: phs => (ph.pType = PT_LOAD → SegmentDone answers data i ph) ∧ DoneFrom (i + 1) phs

/-- The address of the program headers is computed without an overflow. -/
def PhdrSumSafe (ehdr : Elf64Ehdr) (phs : List Elf64Phdr) : Prop :=
  phs.foldl (fun a ph => if ph.pType = PT_PHDR then ph.pVaddr else a) 0 = 0 →
    ∀ ph, phs.find? (fun ph => decide (ph.pType = PT_LOAD)) = some ph →
      ph.pVaddr.toNat + ehdr.ePhoff.toNat < 2 ^ 64

/-- The file is refused by the header checks, or all rounds that are reached go well, and when
none of them ends with an error the stride of the headers makes no difference. -/
def WellBehaved (s : GuestSpace) : Prop :=
  ∀ ehdr phs, parseElf data = .ok (ehdr, phs) →
    PhdrSumSafe ehdr phs ∧ SafeFrom answers data 0 phs s.prot ∧
      (DoneFrom answers data 0 phs → loads phs ≠ [] → phs = exactPhdrs data ehdr)

end

/-! ## One round -/

section

variable {answers : HostAnswers} {data : List UInt8} {ph : Elf64Phdr} {s : GuestSpace}

theorem clean_segmentEnd_iff : Clean Permitted ((segmentEnd ph).run s) ↔
    AllGood Permitted s ∧ segEnd ph + 4096 < 2 ^ 64 := by
  unfold segmentEnd
  rw [clean_bind_iff fun _ => .pageAlignUp _, clean_add_iff not_permitted_wrapped]
  constructor
  · intro h
    have hsum : (ph.pVaddr + ph.pMemsz).toNat = segEnd ph := by
      rw [BitVec.toNat_add]
      exact Nat.mod_eq_of_lt h.1.2
    have hup := h.2 _ _ (run_add_ok s h.1.2)
    rw [clean_pageAlignUp_iff not_permitted_wrapped, hsum] at hup
    exact hup
  · intro h
    have hlt : ph.pVaddr.toNat + ph.pMemsz.toNat < 2 ^ 64 := Nat.lt_of_add_right_lt h.2
    refine ⟨⟨h.1, hlt⟩, ?_⟩
    intro vend s' hrun
    rw [run_add_ok s hlt] at hrun
    cases hrun
    rw [clean_pageAlignUp_iff not_permitted_wrapped, BitVec.toNat_add, Nat.mod_eq_of_lt hlt]
    exact h

theorem toNat_alignedEnd (h : segEnd ph + 4096 < 2 ^ 64) :
    (alignedUp (ph.pVaddr + ph.pMemsz)).toNat = up (segEnd ph) := by
  have hsum : (ph.pVaddr + ph.pMemsz).toNat = segEnd ph := by
    rw [BitVec.toNat_add]
    exact Nat.mod_eq_of_lt (Nat.lt_of_add_right_lt h)
  rw [toNat_alignedUp_of_lt (by omega), hsum]

theorem run_segmentEnd_ok (h : segEnd ph + 4096 < 2 ^ 64) :
    (segmentEnd ph).run s = (.ok (alignedUp (ph.pVaddr + ph.pMemsz)), s) := by
  have hlt : ph.pVaddr.toNat + ph.pMemsz.toNat < 2 ^ 64 := Nat.lt_of_add_right_lt h
  unfold segmentEnd
  rw [Guest.run_bind_ok (run_add_ok s hlt)]
  apply run_pageAlignUp_ok
  rw [BitVec.toNat_add, Nat.mod_eq_of_lt hlt]
  exact h

theorem pages_le (ph : Elf64Phdr) : down ph.pVaddr.toNat ≤ up (segEnd ph) :=
  Nat.le_trans (down_le _) (Nat.le_trans (Nat.le_add_right _ _) (le_up _))

/-- The pages of a segment as the loader computes them. -/
theorem toNat_pages (h : segEnd ph + 4096 < 2 ^ 64) :
    (alignedUp (ph.pVaddr + ph.pMemsz) - pageAlignDown ph.pVaddr).toNat =
      up (segEnd ph) - down ph.pVaddr.toNat := by
  rw [BitVec.toNat_sub_of_le]
  · rw [toNat_alignedEnd h, toNat_pageAlignDown]
  · rw [BitVec.le_def, toNat_alignedEnd h, toNat_pageAlignDown]
    exact pages_le ph

theorem run_sub_pages (h : segEnd ph + 4096 < 2 ^ 64) :
    (Guest.sub (alignedUp (ph.pVaddr + ph.pMemsz)) (pageAlignDown ph.pVaddr) :
      Guest LoadError Word).run s =
        (.ok (alignedUp (ph.pVaddr + ph.pMemsz) - pageAlignDown ph.pVaddr), s) := by
  apply run_sub_ok
  rw [toNat_alignedEnd h, toNat_pageAlignDown]
  exact pages_le ph

theorem up_pages (ph : Elf64Phdr) :
    up (up (segEnd ph) - down ph.pVaddr.toNat) = up (segEnd ph) - down ph.pVaddr.toNat := by
  unfold up down
  omega

/-- The space with the pages of a segment mapped for the copy. -/
def mappedFor (ph : Elf64Phdr) (s : GuestSpace) : GuestSpace :=
  s.map (down ph.pVaddr.toNat) (up (segEnd ph) - down ph.pVaddr.toNat) (PROT_READ ||| PROT_WRITE)

theorem allGood_mappedFor : AllGood Permitted (mappedFor ph s) ↔
    AllGood Permitted s ∧ up (segEnd ph) ≤ stackBase.toNat := by
  rw [allGood_append rfl]
  apply and_congr_right
  intro _
  show _ + (_ - _) ≤ _ ↔ _
  rw [Nat.add_sub_cancel' (pages_le ph)]

theorem down_lt_space (htop : up (segEnd ph) ≤ GUEST_STACK_TOP.toNat) :
    (pageAlignDown ph.pVaddr).toNat < GUEST_SPACE_SIZE := by
  have hle := pages_le ph
  have hval : GUEST_STACK_TOP.toNat = 0x3FFF0000 := rfl
  rw [toNat_pageAlignDown]
  unfold GUEST_SPACE_SIZE
  omega

theorem mapAccepted_iff {i : Nat} (h : segEnd ph + 4096 < 2 ^ 64)
    (htop : up (segEnd ph) ≤ GUEST_STACK_TOP.toNat) :
    mapAccepted (answers.mmap i) (pageAlignDown ph.pVaddr)
      (alignedUp (ph.pVaddr + ph.pMemsz) - pageAlignDown ph.pVaddr) = true ↔
      Mapped answers i ph := by
  have hsize := toNat_pages h
  have hval : GUEST_STACK_TOP.toNat = 0x3FFF0000 := rfl
  have halign : (pageAlignDown ph.pVaddr).toNat % PAGE_SIZE = 0 := by
    rw [toNat_pageAlignDown]
    exact Nat.mul_mod_left _ _
  have hmax : up (segEnd ph) - down ph.pVaddr.toNat ≤ MAX_MAPPING := by
    unfold MAX_MAPPING
    omega
  unfold mapAccepted Mapped
  simp only [Bool.and_eq_true, decide_eq_true_eq, ne_eq, BitVec.toNat_eq, hsize, halign, hmax,
    and_true]
  apply and_congr_right
  intro _
  show ¬ (_ - _ = 0) ↔ _
  omega

theorem run_mapSegment_iff {i : Nat} (h : segEnd ph + 4096 < 2 ^ 64)
    (htop : up (segEnd ph) ≤ GUEST_STACK_TOP.toNat) :
    (Mapped answers i ph → (mapSegment answers i (pageAlignDown ph.pVaddr)
        (alignedUp (ph.pVaddr + ph.pMemsz) - pageAlignDown ph.pVaddr)).run s =
          (.ok (), mappedFor ph s)) ∧
      (¬ Mapped answers i ph → (mapSegment answers i (pageAlignDown ph.pVaddr)
        (alignedUp (ph.pVaddr + ph.pMemsz) - pageAlignDown ph.pVaddr)).run s =
          (.error (.error .io), s)) := by
  have hmap : (Guest.mmapFixed (answers.mmap i) (pageAlignDown ph.pVaddr)
      (alignedUp (ph.pVaddr + ph.pMemsz) - pageAlignDown ph.pVaddr) (PROT_READ ||| PROT_WRITE) :
        Guest LoadError Bool).run s = _ := run_mmapFixed s (down_lt_space htop)
  rw [toNat_pages h, up_pages, toNat_pageAlignDown] at hmap
  unfold mapSegment
  constructor
  · intro hmapped
    rw [if_pos ((mapAccepted_iff h htop).mpr hmapped)] at hmap
    rw [Guest.run_bind_ok hmap]
    rfl
  · intro hnot
    rw [if_neg fun hacc => hnot ((mapAccepted_iff h htop).mp hacc)] at hmap
    rw [Guest.run_bind_ok hmap]
    rfl

theorem fileBytes_length (h : ph.pOffset.toNat + ph.pFilesz.toNat ≤ data.length) :
    (fileBytes data ph).length = ph.pFilesz.toNat := by
  unfold fileBytes
  rw [List.length_take, List.length_drop]
  omega

theorem toNat_filesz_ne (h : ph.pFilesz ≠ 0) : ph.pFilesz.toNat ≠ 0 := BitVec.toNat_ne.mp h

/-- The copy of a segment into its pages. -/
theorem run_copyFileData (hwrap : ph.pOffset.toNat + ph.pFilesz.toNat < 2 ^ 64)
    (hne : ph.pFilesz ≠ 0) (hin : ph.pVaddr.toNat < GUEST_SPACE_SIZE) :
    (copyFileData data ph).run s =
      if data.length < ph.pOffset.toNat + ph.pFilesz.toNat then
        (.error (.error (.elf .invalidPhdr)), s)
      else if s.writable ph.pVaddr.toNat ph.pFilesz.toNat then
        (.ok (), s.write ph.pVaddr.toNat (fileBytes data ph))
      else (.error (.panic .segv), s) := by
  have hsum : (ph.pOffset + ph.pFilesz).toNat = ph.pOffset.toNat + ph.pFilesz.toNat := by
    rw [BitVec.toNat_add]
    exact Nat.mod_eq_of_lt hwrap
  unfold copyFileData
  rw [if_neg hne, Guest.run_bind_ok (run_add_ok s hwrap), hsum]
  by_cases hlen : data.length < ph.pOffset.toNat + ph.pFilesz.toNat
  · rw [if_pos hlen, if_pos hlen]
    rfl
  · have hbytes : (data.drop ph.pOffset.toNat).take
        (ph.pOffset.toNat + ph.pFilesz.toNat - ph.pOffset.toNat) = fileBytes data ph := by
      rw [Nat.add_sub_cancel_left]
      rfl
    have horder : ¬ ph.pOffset.toNat + ph.pFilesz.toNat < ph.pOffset.toNat :=
      Nat.not_lt.mpr (Nat.le_add_right _ _)
    rw [if_neg hlen, if_neg hlen, if_neg horder, hbytes, run_writeBytes _ _ hin,
      fileBytes_length (Nat.not_lt.mp hlen)]

theorem appends_copyFileData (data : List UInt8) (ph : Elf64Phdr) :
    Appends (copyFileData data ph) :=
  .ite (.pure _) ((Appends.add _ _).bind fun _ => .ite (.stop _) (.ite (.stop _) (.writeBytes _ _)))

/-- In the pages of the segment, which are mapped, everything can be written. -/
theorem writable_mappedFor :
    (mappedFor ph s).writable ph.pVaddr.toNat ph.pFilesz.toNat = true ↔
      ∀ k < ph.pFilesz.toNat, up (segEnd ph) ≤ ph.pVaddr.toNat + k →
        s.prot (ph.pVaddr.toNat + k) &&& PROT_WRITE ≠ 0 := by
  unfold GuestSpace.writable
  rw [decide_eq_true_eq]
  have hpages := pages_le ph
  have hstart := down_le ph.pVaddr.toNat
  apply forall₂_congr
  intro k hk
  by_cases hbehind : up (segEnd ph) ≤ ph.pVaddr.toNat + k
  · have hprot : (mappedFor ph s).prot (ph.pVaddr.toNat + k) = s.prot (ph.pVaddr.toNat + k) :=
      fill_outside (.inr (by omega))
    rw [hprot]
    exact ⟨fun h _ => h, fun h => h hbehind⟩
  · have hprot : (mappedFor ph s).prot (ph.pVaddr.toNat + k) = PROT_READ ||| PROT_WRITE :=
      fill_inside (by omega) (by omega)
    rw [hprot]
    exact ⟨fun _ h => absurd h hbehind, fun _ => by decide⟩

theorem clean_copyFileData_iff (hgood : AllGood Permitted (mappedFor ph s))
    (hend : up (segEnd ph) ≤ stackBase.toNat) :
    Clean Permitted ((copyFileData data ph).run (mappedFor ph s)) ↔ CopySafe data ph s.prot := by
  have hval : stackBase.toNat = 0x3F7F0000 := rfl
  have hvaddr : ph.pVaddr.toNat ≤ up (segEnd ph) :=
    Nat.le_trans (Nat.le_add_right _ _) (le_up _)
  have hin : ph.pVaddr.toNat < GUEST_SPACE_SIZE := by
    unfold GUEST_SPACE_SIZE
    omega
  by_cases hzero : ph.pFilesz = 0
  · have hrun : (copyFileData data ph).run (mappedFor ph s) = (.ok (), mappedFor ph s) := by
      unfold copyFileData
      rw [if_pos hzero]
      rfl
    rw [hrun]
    constructor
    · intro _ hne
      exact absurd (congrArg BitVec.toNat hzero) hne
    · intro _
      exact .of_ok hgood
  · have hne := toNat_filesz_ne hzero
    by_cases hwrap : ph.pOffset.toNat + ph.pFilesz.toNat < 2 ^ 64
    · rw [run_copyFileData hwrap hzero hin]
      by_cases hlen : data.length < ph.pOffset.toNat + ph.pFilesz.toNat
      · rw [if_pos hlen]
        constructor
        · intro _ _
          exact ⟨hwrap, fun hle => absurd hlen (Nat.not_lt.mpr hle)⟩
        · intro _
          exact .of_error hgood
      · rw [if_neg hlen]
        have hsize := fileBytes_length (Nat.not_lt.mp hlen)
        by_cases hwrite : (mappedFor ph s).writable ph.pVaddr.toNat ph.pFilesz.toNat = true
        · rw [if_pos hwrite]
          have hevent : AllGood Permitted ((mappedFor ph s).write ph.pVaddr.toNat
              (fileBytes data ph)) ↔ ph.pVaddr.toNat + ph.pFilesz.toNat ≤ stackBase.toNat := by
            rw [allGood_append rfl]
            show _ ∧ _ + (fileBytes data ph).length ≤ _ ↔ _
            rw [hsize]
            exact and_iff_right hgood
          constructor
          · intro h _
            exact ⟨hwrap, fun _ => ⟨hevent.mp h.2, writable_mappedFor.mp hwrite⟩⟩
          · intro h
            exact .of_ok (hevent.mpr ((h hne).2 (Nat.not_lt.mp hlen)).1)
        · rw [if_neg hwrite]
          constructor
          · intro h
            exact absurd h not_clean_panic
          · intro h
            exact absurd (writable_mappedFor.mpr ((h hne).2 (Nat.not_lt.mp hlen)).2) hwrite
    · constructor
      · intro h
        unfold copyFileData at h
        rw [if_neg hzero] at h
        have hadd := ((clean_bind_iff ?_).mp h).1
        · exact absurd ((clean_add_iff not_permitted_wrapped).mp hadd).2 hwrap
        · intro srcEnd
          exact .ite (.stop _) (.ite (.stop _) (.writeBytes _ _))
      · intro h
        exact absurd (h hne).1 hwrap

/-- A safe copy ends with an error exactly if the file does not have the bytes. -/
theorem run_copyFileData_ok (hend : up (segEnd ph) ≤ stackBase.toNat)
    (hsafe : CopySafe data ph s.prot) :
    ((ph.pFilesz.toNat ≠ 0 → ph.pOffset.toNat + ph.pFilesz.toNat ≤ data.length) →
        ∃ s', (copyFileData data ph).run (mappedFor ph s) = (.ok (), s') ∧
          s'.prot = (mappedFor ph s).prot) ∧
      (¬ (ph.pFilesz.toNat ≠ 0 → ph.pOffset.toNat + ph.pFilesz.toNat ≤ data.length) →
        ∃ e, (copyFileData data ph).run (mappedFor ph s) = (.error (.error e), mappedFor ph s)) := by
  have hval : stackBase.toNat = 0x3F7F0000 := rfl
  have hvaddr : ph.pVaddr.toNat ≤ up (segEnd ph) :=
    Nat.le_trans (Nat.le_add_right _ _) (le_up _)
  have hin : ph.pVaddr.toNat < GUEST_SPACE_SIZE := by
    unfold GUEST_SPACE_SIZE
    omega
  by_cases hzero : ph.pFilesz = 0
  · refine ⟨fun _ => ⟨mappedFor ph s, ?_, rfl⟩, fun h => ?_⟩
    · unfold copyFileData
      rw [if_pos hzero]
      rfl
    · exact absurd (fun hne => absurd (congrArg BitVec.toNat hzero) hne) h
  · have hne := toNat_filesz_ne hzero
    rw [run_copyFileData (hsafe hne).1 hzero hin]
    constructor
    · intro hfits
      have hlen := hfits hne
      rw [if_neg (Nat.not_lt.mpr hlen),
        if_pos (writable_mappedFor.mpr ((hsafe hne).2 hlen).2)]
      exact ⟨_, rfl, rfl⟩
    · intro hnot
      rw [if_pos (Nat.not_le.mp fun hle => hnot fun _ => hle)]
      exact ⟨_, rfl⟩

theorem appends_mapSegment (answers : HostAnswers) (i : Nat) (start size : Word) :
    Appends (mapSegment answers i start size) :=
  (Appends.mmapFixed _ _ _ _).bind fun _ => .ite (.pure _) (.stop _)

theorem appends_protectSegment (answers : HostAnswers) (i : Nat) (start size : Word)
    (prot : BitVec 32) : Appends (protectSegment answers i start size prot) :=
  .ite (.pure _) ((Appends.mprotect _ _ _ _).bind fun _ => .ite (.pure _) (.stop _))

theorem appends_segmentEnd (ph : Elf64Phdr) : Appends (segmentEnd ph) :=
  (Appends.add _ _).bind fun _ => .pageAlignUp _

variable (answers) in
/-- The change of the protection, after the copy. -/
theorem run_protectSegment_ok (i : Nat) {s' : GuestSpace} (h : segEnd ph + 4096 < 2 ^ 64)
    (hend : up (segEnd ph) ≤ stackBase.toNat) (hgood : AllGood Permitted s')
    (hprot : s'.prot = (mappedFor ph s).prot) :
    (elfToProt ph.pFlags = PROT_READ ||| PROT_WRITE ∨ answers.mprotect i = true →
      ∃ s'', (protectSegment answers i (pageAlignDown ph.pVaddr)
        (alignedUp (ph.pVaddr + ph.pMemsz) - pageAlignDown ph.pVaddr)
        (elfToProt ph.pFlags)).run s' = (.ok (), s'') ∧ s''.prot = protAfter ph s.prot ∧
          AllGood Permitted s'') ∧
      (¬ (elfToProt ph.pFlags = PROT_READ ||| PROT_WRITE ∨ answers.mprotect i = true) →
        ∃ e, (protectSegment answers i (pageAlignDown ph.pVaddr)
          (alignedUp (ph.pVaddr + ph.pMemsz) - pageAlignDown ph.pVaddr)
          (elfToProt ph.pFlags)).run s' = (.error (.error e), s')) := by
  have htop : up (segEnd ph) ≤ GUEST_STACK_TOP.toNat := Nat.le_trans hend (by decide)
  have hpages := pages_le ph
  by_cases hrw : elfToProt ph.pFlags = PROT_READ ||| PROT_WRITE
  · unfold protectSegment
    rw [if_pos hrw]
    refine ⟨fun _ => ⟨s', rfl, ?_, hgood⟩, fun hnot => absurd (.inl hrw) hnot⟩
    rw [hprot]
    unfold protAfter
    rw [hrw]
    rfl
  · have hchange : (Guest.mprotect (answers.mprotect i) (pageAlignDown ph.pVaddr)
        (alignedUp (ph.pVaddr + ph.pMemsz) - pageAlignDown ph.pVaddr) (elfToProt ph.pFlags) :
          Guest LoadError Bool).run s' = _ := run_mprotect s' (down_lt_space htop)
    have hval : GUEST_STACK_TOP.toNat = 0x3FFF0000 := rfl
    have hacc : protectAccepted (answers.mprotect i) (pageAlignDown ph.pVaddr)
        (alignedUp (ph.pVaddr + ph.pMemsz) - pageAlignDown ph.pVaddr) = answers.mprotect i := by
      have halign : (pageAlignDown ph.pVaddr).toNat % PAGE_SIZE = 0 := by
        rw [toNat_pageAlignDown]
        exact Nat.mul_mod_left _ _
      have hmax : up (segEnd ph) - down ph.pVaddr.toNat ≤ MAX_MAPPING := by
        unfold MAX_MAPPING
        omega
      unfold protectAccepted
      rw [toNat_pages h, decide_eq_true halign, decide_eq_true hmax, Bool.and_true, Bool.and_true]
    rw [hacc, toNat_pages h, up_pages, toNat_pageAlignDown] at hchange
    unfold protectSegment
    rw [if_neg hrw]
    constructor
    · intro hdone
      have hanswer : answers.mprotect i = true := hdone.resolve_left hrw
      rw [if_pos hanswer] at hchange
      rw [Guest.run_bind_ok hchange]
      refine ⟨_, rfl, ?_, ?_⟩
      · show fill s'.prot _ _ _ = _
        rw [hprot]
        unfold protAfter
        exact fill_fill _ _ _ _ _
      · refine (allGood_append rfl).mpr ⟨hgood, ?_⟩
        show _ + (_ - _) ≤ _
        omega
    · intro hnot
      rw [if_neg fun hanswer => hnot (.inr hanswer)] at hchange
      rw [Guest.run_bind_ok hchange]
      exact ⟨_, rfl⟩

/-- A round that goes well is clean, and it returns exactly if it ends without an error. -/
theorem loadSegment_of_safe {i : Nat} (brk : Word) (hgood : AllGood Permitted s)
    (hsafe : SegmentSafe answers data i ph s.prot) :
    Clean Permitted ((loadSegment answers data i ph brk).run s) ∧
      (SegmentDone answers data i ph → ∃ brk' s',
        (loadSegment answers data i ph brk).run s = (.ok brk', s') ∧
          s'.prot = protAfter ph s.prot) ∧
      (¬ SegmentDone answers data i ph → ∃ e s',
        (loadSegment answers data i ph brk).run s = (.error (.error e), s')) := by
  obtain ⟨hlt, hrest⟩ := hsafe
  have htopIff : GUEST_STACK_TOP < alignedUp (ph.pVaddr + ph.pMemsz) ↔
      ¬ up (segEnd ph) ≤ GUEST_STACK_TOP.toNat := by
    rw [BitVec.lt_def, toNat_alignedEnd hlt, Nat.not_le]
  unfold loadSegment
  dsimp only
  rw [Guest.run_bind_ok (run_segmentEnd_ok hlt), Guest.run_bind_ok (run_sub_pages hlt)]
  by_cases htop : up (segEnd ph) ≤ GUEST_STACK_TOP.toNat
  · rw [if_neg fun hgt => htopIff.mp hgt htop]
    by_cases hmapped : Mapped answers i ph
    · obtain ⟨hend, hcopy⟩ := hrest htop hmapped
      have hgood₁ := allGood_mappedFor.mpr ⟨hgood, hend⟩
      have hclean := (clean_copyFileData_iff hgood₁ hend).mpr hcopy
      rw [Guest.run_bind_ok ((run_mapSegment_iff hlt htop).1 hmapped)]
      by_cases hfits : ph.pFilesz.toNat ≠ 0 → ph.pOffset.toNat + ph.pFilesz.toNat ≤ data.length
      · obtain ⟨s₂, hrun₂, hprot₂⟩ := (run_copyFileData_ok hend hcopy).1 hfits
        rw [hrun₂] at hclean
        obtain ⟨hgrant, hrefuse⟩ := run_protectSegment_ok answers i hlt hend hclean.2 hprot₂
        rw [Guest.run_bind_ok hrun₂]
        by_cases hdone : elfToProt ph.pFlags = PROT_READ ||| PROT_WRITE ∨
            answers.mprotect i = true
        · obtain ⟨s₃, hrun₃, hprot₃, hgood₃⟩ := hgrant hdone
          rw [Guest.run_bind_ok hrun₃, Guest.run_bind_ok (run_segmentEnd_ok hlt)]
          exact ⟨.of_ok hgood₃, fun _ => ⟨_, s₃, rfl, hprot₃⟩,
            fun hnot => absurd ⟨htop, hmapped, hfits, hdone⟩ hnot⟩
        · obtain ⟨e, hrun₃⟩ := hrefuse hdone
          rw [Guest.run_bind_error hrun₃]
          exact ⟨.of_error hclean.2, fun h => absurd h.2.2.2 hdone, fun _ => ⟨e, _, rfl⟩⟩
      · obtain ⟨e, hrun₂⟩ := (run_copyFileData_ok hend hcopy).2 hfits
        rw [Guest.run_bind_error hrun₂]
        exact ⟨.of_error hgood₁, fun h => absurd h.2.2.1 hfits, fun _ => ⟨e, _, rfl⟩⟩
    · rw [Guest.run_bind_error ((run_mapSegment_iff hlt htop).2 hmapped)]
      exact ⟨.of_error hgood, fun h => absurd h.2.1 hmapped, fun _ => ⟨_, _, rfl⟩⟩
  · rw [if_pos (htopIff.mpr htop)]
    exact ⟨.of_error hgood, fun h => absurd h.1 htop, fun _ => ⟨_, _, rfl⟩⟩

/-- A clean round went well. -/
theorem safe_of_clean {i : Nat} {brk : Word}
    (h : Clean Permitted ((loadSegment answers data i ph brk).run s)) :
    SegmentSafe answers data i ph s.prot := by
  unfold loadSegment at h
  have hends := ((clean_bind_iff ?_).mp h).1
  · obtain ⟨hgood, hlt⟩ := clean_segmentEnd_iff.mp hends
    refine ⟨hlt, fun htop hmapped => ?_⟩
    have hbelow : ¬ GUEST_STACK_TOP < alignedUp (ph.pVaddr + ph.pMemsz) := by
      rw [BitVec.lt_def, toNat_alignedEnd hlt]
      exact Nat.not_lt.mpr htop
    dsimp only at h
    rw [Guest.run_bind_ok (run_segmentEnd_ok hlt), Guest.run_bind_ok (run_sub_pages hlt), if_neg hbelow,
      Guest.run_bind_ok ((run_mapSegment_iff hlt htop).1 hmapped)] at h
    have hcopy := ((clean_bind_iff ?_).mp h).1
    · obtain ⟨-, hend⟩ := allGood_mappedFor.mp (AllGood.of_clean (appends_copyFileData _ _) hcopy)
      exact ⟨hend, (clean_copyFileData_iff (allGood_mappedFor.mpr ⟨hgood, hend⟩) hend).mp hcopy⟩
    · intro _
      exact (appends_protectSegment _ _ _ _ _).bind fun _ =>
        (appends_segmentEnd _).bind fun _ => .pure _
  · intro _
    exact (Appends.sub _ _).bind fun _ => .ite (.stop _) ((appends_mapSegment _ _ _ _).bind fun _ =>
      (appends_copyFileData _ _).bind fun _ => (appends_protectSegment _ _ _ _ _).bind fun _ =>
        (appends_segmentEnd _).bind fun _ => .pure _)

theorem appends_loadSegment (answers : HostAnswers) (data : List UInt8) (i : Nat)
    (ph : Elf64Phdr) (brk : Word) : Appends (loadSegment answers data i ph brk) :=
  (appends_segmentEnd _).bind fun _ => (Appends.sub _ _).bind fun _ =>
    .ite (.stop _) ((appends_mapSegment _ _ _ _).bind fun _ =>
      (appends_copyFileData _ _).bind fun _ => (appends_protectSegment _ _ _ _ _).bind fun _ =>
        (appends_segmentEnd _).bind fun _ => .pure _)

end

/-! ## All rounds -/

section

variable {answers : HostAnswers} {data : List UInt8}

theorem appends_loadSegments (i : Nat) (phs : List Elf64Phdr) (brk : Word) :
    Appends (loadSegments answers data i phs brk) := by
  induction phs generalizing i brk with
  | nil => exact .pure _
  | cons ph phs ih =>
    unfold loadSegments
    apply Appends.ite
    · exact (appends_loadSegment _ _ _ _ _).bind fun brk' => ih (i + 1) brk'
    · exact ih (i + 1) brk

/-- The loop is clean exactly if every round that is reached goes well. -/
theorem clean_loadSegments_iff {i : Nat} {phs : List Elf64Phdr} (brk : Word) {s : GuestSpace}
    (hgood : AllGood Permitted s) :
    Clean Permitted ((loadSegments answers data i phs brk).run s) ↔
      SafeFrom answers data i phs s.prot := by
  induction phs generalizing i brk s with
  | nil => exact ⟨fun _ => trivial, fun _ => .of_ok hgood⟩
  | cons ph phs ih =>
    unfold loadSegments SafeFrom
    by_cases htype : ph.pType = PT_LOAD
    · rw [if_pos htype, if_pos htype, clean_bind_iff fun brk' => appends_loadSegments _ _ _]
      constructor
      · rintro ⟨hclean, hrest⟩
        have hsafe := safe_of_clean hclean
        refine ⟨hsafe, fun hdone => ?_⟩
        obtain ⟨brk', s', hrun, hprot⟩ := (loadSegment_of_safe brk hgood hsafe).2.1 hdone
        rw [hrun] at hclean
        rw [← hprot]
        exact (ih brk' hclean.2).mp (hrest brk' s' hrun)
      · rintro ⟨hsafe, hrest⟩
        obtain ⟨hclean, hok, herror⟩ := loadSegment_of_safe brk hgood hsafe
        refine ⟨hclean, fun brk' s' hrun => ?_⟩
        by_cases hdone : SegmentDone answers data i ph
        · obtain ⟨brk'', s'', hrun', hprot⟩ := hok hdone
          rw [hrun] at hrun'
          cases hrun'
          rw [hrun] at hclean
          apply (ih brk' hclean.2).mpr
          rw [hprot]
          exact hrest hdone
        · obtain ⟨e, s'', hrun'⟩ := herror hdone
          rw [hrun] at hrun'
          cases hrun'
    · rw [if_neg htype, if_neg htype]
      exact ih brk hgood

/-- When every round that is reached goes well, the loop returns exactly if all rounds end without
an error. -/
theorem run_loadSegments_iff {i : Nat} {phs : List Elf64Phdr} (brk : Word) {s : GuestSpace}
    (hgood : AllGood Permitted s) (hsafe : SafeFrom answers data i phs s.prot) :
    (∃ brk' s', (loadSegments answers data i phs brk).run s = (.ok brk', s')) ↔
      DoneFrom answers data i phs := by
  induction phs generalizing i brk s with
  | nil => exact ⟨fun _ => trivial, fun _ => ⟨brk, s, rfl⟩⟩
  | cons ph phs ih =>
    unfold SafeFrom at hsafe
    unfold loadSegments DoneFrom
    by_cases htype : ph.pType = PT_LOAD
    · rw [if_pos htype] at hsafe ⊢
      obtain ⟨hclean, hok, herror⟩ := loadSegment_of_safe brk hgood hsafe.1
      by_cases hdone : SegmentDone answers data i ph
      · obtain ⟨brk', s', hrun, hprot⟩ := hok hdone
        rw [hrun] at hclean
        have hrest := hsafe.2 hdone
        rw [← hprot] at hrest
        rw [Guest.run_bind_ok hrun, ih brk' hclean.2 hrest]
        exact ⟨fun h => ⟨fun _ => hdone, h⟩, fun h => h.2⟩
      · obtain ⟨e, s', hrun⟩ := herror hdone
        rw [Guest.run_bind_error hrun]
        constructor
        · rintro ⟨_, _, h⟩
          cases h
        · intro h
          exact absurd (h.1 htype) hdone
    · rw [if_neg htype] at hsafe ⊢
      rw [ih brk hgood hsafe]
      exact ⟨fun h => ⟨fun hload => absurd hload htype, h⟩, fun h => h.2⟩

/-! ## The image -/

theorem run_findPhdrAddr_ok {ehdr : Elf64Ehdr} {phs : List Elf64Phdr} (h : PhdrSumSafe ehdr phs)
    (s : GuestSpace) : (findPhdrAddr ehdr phs).run s = (.ok (phdrAddrOf ehdr phs), s) := by
  unfold findPhdrAddr phdrAddrOf
  unfold PhdrSumSafe at h
  dsimp only
  split
  · rename_i hzero
    cases hfind : phs.find? fun ph => decide (ph.pType = PT_LOAD) with
    | some ph => exact run_add_ok s (h hzero ph hfind)
    | none => rfl
  · rfl

theorem clean_findPhdrAddr_iff {ehdr : Elf64Ehdr} {phs : List Elf64Phdr} {s : GuestSpace}
    (hgood : AllGood Permitted s) :
    Clean Permitted ((findPhdrAddr ehdr phs).run s) ↔ PhdrSumSafe ehdr phs := by
  constructor
  · intro h hzero ph hfind
    unfold findPhdrAddr at h
    dsimp only at h
    rw [if_pos hzero, hfind] at h
    exact ((clean_add_iff not_permitted_wrapped).mp h).2
  · intro h
    rw [run_findPhdrAddr_ok h]
    exact .of_ok hgood

theorem any_iff_loads {phs : List Elf64Phdr} :
    (phs.any fun ph => decide (ph.pType = PT_LOAD)) = true ↔ loads phs ≠ [] := by
  constructor
  · exact loads_ne_nil
  · intro h
    obtain ⟨ph, hmem⟩ := List.exists_mem_of_ne_nil _ h
    obtain ⟨hin, htype⟩ := List.mem_filter.mp hmem
    exact List.any_eq_true.mpr ⟨ph, hin, htype⟩

/-- The end of the loader: the break is recorded when there was a segment. -/
def finish (ehdr : Elf64Ehdr) (phs : List Elf64Phdr) (phdrAddr brk : Word) :
    Guest LoadError (Elf64Ehdr × Word × Word) :=
  if phs.any fun ph => decide (ph.pType = PT_LOAD) then do
    Guest.modify (·.setBrk brk)
    return (ehdr, phdrAddr, brk)
  else Guest.fail .noLoadSegment

theorem loadImage_eq {ehdr : Elf64Ehdr} {phs : List Elf64Phdr}
    (h : parseElf data = .ok (ehdr, phs)) : loadImage answers data = (do
      let phdrAddr ← findPhdrAddr ehdr phs
      let brk ← loadSegments answers data 0 phs 0
      finish ehdr phs phdrAddr brk) := by
  unfold loadImage
  rw [h]
  rfl

theorem run_finish (ehdr : Elf64Ehdr) (phs : List Elf64Phdr) (phdrAddr brk : Word)
    (s : GuestSpace) : (finish ehdr phs phdrAddr brk).run s =
      if loads phs ≠ [] then (.ok (ehdr, phdrAddr, brk), s.setBrk brk)
      else (.error (.error .noLoadSegment), s) := by
  unfold finish
  by_cases h : loads phs ≠ []
  · rw [if_pos h, if_pos (any_iff_loads.mpr h)]
    rfl
  · rw [if_neg h, if_neg fun hany => h (any_iff_loads.mp hany)]
    rfl

theorem appends_finish (ehdr : Elf64Ehdr) (phs : List Elf64Phdr) (phdrAddr brk : Word) :
    Appends (finish ehdr phs phdrAddr brk) := by
  intro s
  rw [run_finish]
  split
  · exact List.prefix_rfl
  · exact List.prefix_rfl

theorem clean_finish {ehdr : Elf64Ehdr} {phs : List Elf64Phdr} {phdrAddr brk : Word}
    {s : GuestSpace} (h : AllGood Permitted s) :
    Clean Permitted ((finish ehdr phs phdrAddr brk).run s) := by
  rw [run_finish]
  split
  · exact .of_ok h
  · exact .of_error h

/-- Loading a file that passes the header checks is clean exactly if all its parts are. -/
theorem clean_loadImage_iff {ehdr : Elf64Ehdr} {phs : List Elf64Phdr} {s : GuestSpace}
    (hparse : parseElf data = .ok (ehdr, phs)) (hgood : AllGood Permitted s) :
    Clean Permitted ((loadImage answers data).run s) ↔
      PhdrSumSafe ehdr phs ∧ SafeFrom answers data 0 phs s.prot := by
  rw [loadImage_eq hparse, clean_bind_iff fun _ => (appends_loadSegments _ _ _).bind fun _ =>
    appends_finish _ _ _ _, clean_findPhdrAddr_iff hgood]
  apply and_congr_right
  intro hsum
  constructor
  · intro h
    have hrest := h _ _ (run_findPhdrAddr_ok hsum s)
    rw [clean_bind_iff fun _ => appends_finish _ _ _ _, clean_loadSegments_iff _ hgood] at hrest
    exact hrest.1
  · intro hsafe phdrAddr s' hrun
    rw [run_findPhdrAddr_ok hsum] at hrun
    cases hrun
    rw [clean_bind_iff fun _ => appends_finish _ _ _ _, clean_loadSegments_iff _ hgood]
    refine ⟨hsafe, fun brk s' hrun => ?_⟩
    have hloop := (clean_loadSegments_iff 0 hgood).mpr hsafe
    rw [hrun] at hloop
    exact clean_finish hloop.2

/-- It returns exactly if there is a segment and no round ends with an error. -/
theorem run_loadImage_iff {ehdr : Elf64Ehdr} {phs : List Elf64Phdr} {s : GuestSpace}
    (hparse : parseElf data = .ok (ehdr, phs)) (hgood : AllGood Permitted s)
    (hsum : PhdrSumSafe ehdr phs) (hsafe : SafeFrom answers data 0 phs s.prot) :
    (∃ r s', (loadImage answers data).run s = (.ok r, s')) ↔
      DoneFrom answers data 0 phs ∧ loads phs ≠ [] := by
  rw [loadImage_eq hparse, Guest.run_bind_ok (run_findPhdrAddr_ok hsum s),
    ← run_loadSegments_iff 0 hgood hsafe]
  constructor
  · rintro ⟨r, s', hrun⟩
    obtain ⟨brk, s₁, hloop, hrest⟩ := Guest.run_bind_eq_ok hrun
    refine ⟨⟨brk, s₁, hloop⟩, ?_⟩
    rw [run_finish] at hrest
    split at hrest
    · assumption
    · cases hrest
  · rintro ⟨⟨brk, s₁, hloop⟩, hload⟩
    rw [Guest.run_bind_ok hloop, run_finish, if_pos hload]
    exact ⟨_, _, rfl⟩

/-- Loading is exact on a file exactly if the file is well behaved, whatever the host answers. -/
theorem exact_iff_wellBehaved (answers : HostAnswers) (data : List UInt8) (s : GuestSpace)
    (hnew : s.events = []) : Exact answers data s ↔ WellBehaved answers data s := by
  have hgood : AllGood Permitted s := by
    intro e he
    rw [hnew] at he
    cases he
  cases hparse : parseElf data with
  | error e =>
    have hrun : (loadImage answers data).run s = (.error (.error (.elf e)), s) := by
      unfold loadImage
      rw [hparse]
      rfl
    constructor
    · intro _ ehdr phs heq
      rw [hparse] at heq
      cases heq
    · intro _
      refine ⟨?_, fun ehdr phs r s' heq => ?_⟩
      · rw [hrun]
        exact .of_error hgood
      · rw [hparse] at heq
        cases heq
  | ok parsed =>
    obtain ⟨ehdr, phs⟩ := parsed
    constructor
    · intro h ehdr' phs' heq
      rw [hparse] at heq
      cases heq
      obtain ⟨hsum, hsafe⟩ := (clean_loadImage_iff hparse hgood).mp h.clean
      refine ⟨hsum, hsafe, fun hdone hload => ?_⟩
      obtain ⟨r, s', hrun⟩ := (run_loadImage_iff hparse hgood hsum hsafe).mpr ⟨hdone, hload⟩
      exact h.headers ehdr phs r s' hparse hrun
    · intro h
      obtain ⟨hsum, hsafe, hheaders⟩ := h ehdr phs hparse
      refine ⟨(clean_loadImage_iff hparse hgood).mpr ⟨hsum, hsafe⟩, fun ehdr' phs' r s' heq hrun => ?_⟩
      rw [hparse] at heq
      cases heq
      obtain ⟨hdone, hload⟩ := (run_loadImage_iff hparse hgood hsum hsafe).mp ⟨r, s', hrun⟩
      exact hheaders hdone hload

/-- An ordinary segment goes well: it is not shorter than its part of the file, and it ends below
the stack. -/
theorem segmentSafe_of_ordinary {i : Nat} {ph : Elf64Phdr} {prot : Nat → BitVec 32}
    (hsize : ph.pFilesz.toNat ≤ ph.pMemsz.toNat) (hend : segEnd ph ≤ stackBase.toNat)
    (hoffset : ph.pOffset.toNat + ph.pFilesz.toNat < 2 ^ 64) :
    SegmentSafe answers data i ph prot := by
  have hval : stackBase.toNat = 0x3F7F0000 := rfl
  have hpage : up (segEnd ph) ≤ stackBase.toNat := by
    unfold up
    omega
  refine ⟨by omega, fun _ _ => ⟨hpage, fun _ => ⟨hoffset, fun _ => ?_⟩⟩⟩
  have hup := le_up (segEnd ph)
  have hsum : segEnd ph = ph.pVaddr.toNat + ph.pMemsz.toNat := rfl
  refine ⟨by omega, fun k hk hbehind => ?_⟩
  omega

/-- A segment on the last page of the address space passes the check and fails the assertion. -/
theorem last_page_panics : ¬ ∀ (answers : HostAnswers) (data : List UInt8) (s : GuestSpace),
    s.events = [] → Exact answers data s := by
  intro hall
  have hexact := hall grantAll (sampleFile 0x10000 0xFFFFFFFFFFFFF000) .new rfl
  have hpanic : ((loadImage grantAll (sampleFile 0x10000 0xFFFFFFFFFFFFF000)).run .new).1 =
      .error (.panic .guestAddr) := by decide +kernel
  exact hexact.clean.1 .guestAddr hpanic

theorem exact_iff_wellBehaved_pages : Exact grantAll (sampleFile 0x10000 0x11000) .new := by
  have hparse : parseElf (sampleFile 0x10000 0x11000) =
      .ok (sampleEhdr, samplePhdrs 0x10000 0x11000) := by decide +kernel
  apply (exact_iff_wellBehaved grantAll (sampleFile 0x10000 0x11000) .new rfl).mpr
  intro ehdr phs heq
  rw [hparse] at heq
  cases heq
  refine ⟨?_, ⟨?_, fun _ => ⟨?_, fun _ => trivial⟩⟩, fun _ _ => by decide⟩
  · intro _ ph hfind
    cases hfind
    decide
  · exact segmentSafe_of_ordinary (by decide) (by decide) (by decide)
  · exact segmentSafe_of_ordinary (by decide) (by decide) (by decide)

end

end TcgRs.Analysis.ImageRanges
