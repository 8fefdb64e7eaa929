import TcgRs.Analysis.VectoredWrites

/-!
# System calls and the guest space

Which calls keep to the guest space.  A handler checks only the start of a range, so what it does
is decided by where the range ends, by the protection of the pages and by what the host answers;
each handler has one lemma that says when it is harmless.
-/

set_option autoImplicit false

namespace TcgRs.Analysis.SyscallSafety

open TcgRs.Model.Linux TcgRs.Interface.Linux TcgRs.Library TcgRs.Library.ByteMemory
open TcgRs.Analysis.GuestRuns TcgRs.Analysis.VectoredWrites

/-! ## Harmless runs -/

variable {α : Type} {s s' : GuestSpace} {x : Sys α}

/-- The run returns and touches only the guest space; and when the call asks for what leaves it,
the outcome is a refusal. -/
def Harmless (asks : Prop) (refuses : α → GuestSpace → Prop) (x : Sys α) (s : GuestSpace) : Prop :=
  ∃ a s', x.run s = (.ok a, s') ∧ AllGood InSpace s' ∧ (asks → refuses a s')

theorem not_inSpace_wrapped : ¬ InSpace .wrapped := id

variable {asks : Prop} {refuses : α → GuestSpace → Prop}

theorem harmless_of_ok {a : α} (h : x.run s = (.ok a, s')) :
    Harmless asks refuses x s ↔ AllGood InSpace s' ∧ (asks → refuses a s') := by
  constructor
  · rintro ⟨a', s'', hrun, hrest⟩
    rw [h] at hrun
    cases hrun
    exact hrest
  · intro hrest
    exact ⟨a, s', h, hrest⟩

theorem not_harmless_of_error {e : Stop Empty} (h : x.run s = (.error e, s')) :
    ¬ Harmless asks refuses x s := by
  rintro ⟨a, s'', hrun, -⟩
  rw [h] at hrun
  cases hrun

theorem Harmless.clean (h : Harmless asks refuses x s) : Clean InSpace (x.run s) := by
  obtain ⟨a, s', hrun, hgood, -⟩ := h
  rw [hrun]
  exact .of_ok hgood

/-- A handler cannot return an error. -/
theorem exists_ok_of_clean (h : Clean InSpace (x.run s)) : ∃ a s', x.run s = (.ok a, s') := by
  cases hrun : x.run s with
  | mk r s' =>
    cases r with
    | ok a => exact ⟨a, s', rfl⟩
    | error e =>
      rw [hrun] at h
      cases e with
      | error e => cases e
      | panic f => exact absurd h not_clean_panic

/-- The refusal of a call: an error, and nothing changed. -/
def Refused (s : GuestSpace) (result : SyscallResult) (s' : GuestSpace) : Prop :=
  IsErrno result ∧ Unchanged s s'

theorem unchanged_refl (s : GuestSpace) : Unchanged s s := ⟨rfl, rfl, rfl⟩

theorem refused_errno (e : Errno) (s : GuestSpace) : Refused s (.continue e.ret) s :=
  ⟨⟨e, rfl⟩, unchanged_refl s⟩

/-- What is not among the last page of numbers is no error. -/
theorem not_isErrno {w : Word} (h : w.toNat + 4096 ≤ 2 ^ 64) : ¬ IsErrno (.continue w) := by
  rintro ⟨e, heq⟩
  injection heq with heq
  have hval := congrArg BitVec.toNat heq
  have hsmall := e.small
  rw [toNat_ret] at hval
  omega

/-- When a clean run means that the call asks for nothing that leaves the guest space. -/
theorem harmless_iff_clean (h : Clean InSpace (x.run s) → ¬ asks) :
    Harmless asks refuses x s ↔ Clean InSpace (x.run s) := by
  constructor
  · exact Harmless.clean
  · intro hclean
    obtain ⟨a, s', hrun⟩ := exists_ok_of_clean hclean
    rw [harmless_of_ok hrun]
    have hgood := hclean.2
    rw [hrun] at hgood
    exact ⟨hgood, fun hasks => absurd hasks (h hclean)⟩

/-! ## Ranges -/

/-- A range that starts in the guest space and does not leave it. -/
theorem le_of_not_leaves {a n : Nat} (hin : a < GUEST_SPACE_SIZE) (h : ¬ Leaves (a, n)) :
    a + n ≤ GUEST_SPACE_SIZE := by
  unfold Leaves at h
  dsimp only at h
  omega

theorem not_leaves {a n : Nat} (h : a + n ≤ GUEST_SPACE_SIZE) : ¬ Leaves (a, n) := by
  intro hleaves
  exact absurd hleaves.2 (Nat.not_lt.mpr h)

/-- What a call names is one range. -/
theorem exists_eq_leaves {r₀ : Nat × Nat} : (∃ r, r = r₀ ∧ Leaves r) ↔ Leaves r₀ := by
  constructor
  · rintro ⟨r, rfl, h⟩
    exact h
  · intro h
    exact ⟨r₀, rfl, h⟩

/-! ## Handlers -/

section

variable (host : Host)

/-- The buffer starts in the guest space, and lies in it unless the host refuses it. -/
def WriteSafe (fd buf len : Word) : Prop :=
  buf.toNat < GUEST_SPACE_SIZE ∧ ∀ n, host.write 0 (fd.setWidth 32) len.toNat = .ok n →
    buf.toNat + len.toNat ≤ GUEST_SPACE_SIZE

theorem doWrite_harmless_iff (hgood : AllGood InSpace s) (fd buf len : Word) :
    Harmless (Leaves (buf.toNat, len.toNat)) (Refused s) (doWrite host fd buf len) s ↔
      WriteSafe host fd buf len := by
  by_cases hin : buf.toNat < GUEST_SPACE_SIZE
  · have hwrite := run_hostWrite host (fd.setWidth 32) 0 buf.toNat len.toNat s
    cases hanswer : host.write 0 (fd.setWidth 32) len.toNat with
    | error e =>
      rw [hanswer] at hwrite
      have hrun : (doWrite host fd buf len).run s = (.ok (.continue e.ret), s) := by
        unfold doWrite
        rw [Guest.run_bind_ok (run_g2h_ok s hin), Guest.run_bind_ok hwrite]
        rfl
      rw [harmless_of_ok hrun]
      constructor
      · intro _
        refine ⟨hin, fun n hok => ?_⟩
        rw [hanswer] at hok
        cases hok
      · intro _
        exact ⟨hgood, fun _ => refused_errno e s⟩
    | ok n =>
      rw [hanswer] at hwrite
      have hrun : (doWrite host fd buf len).run s =
          (.ok (.continue (BitVec.ofNat 64 n)), s.log (.sent buf.toNat n)) := by
        unfold doWrite
        rw [Guest.run_bind_ok (run_g2h_ok s hin), Guest.run_bind_ok hwrite]
        rfl
      obtain ⟨hle, hmax⟩ := host.write_le 0 (fd.setWidth 32) len.toNat n hanswer
      have hno : ¬ IsErrno (.continue (BitVec.ofNat 64 n)) := by
        apply not_isErrno
        rw [BitVec.toNat_ofNat]
        unfold MAX_RW_COUNT at hmax
        omega
      rw [harmless_of_ok hrun, allGood_append rfl]
      constructor
      · intro h
        refine ⟨hin, fun _ _ => le_of_not_leaves hin fun hleaves => hno (h.2 hleaves).1⟩
      · intro h
        have hend := h.2 n hanswer
        refine ⟨⟨hgood, Nat.le_trans (Nat.add_le_add_left hle _) hend⟩, fun hleaves => ?_⟩
        exact absurd hleaves (not_leaves hend)
  · have hrun : (doWrite host fd buf len).run s = (.error (.panic .guestAddr), s) := by
      unfold doWrite
      rw [Guest.run_bind_error (run_g2h_panic s hin)]
    exact ⟨fun h => absurd h (not_harmless_of_error hrun), fun h => absurd h.1 hin⟩

/-- A break that grows: no sum wraps, and the new pages lie in the guest space. -/
def BrkSafe (s : GuestSpace) (a0 : Word) : Prop :=
  a0 ≠ 0 → s.brk ≤ a0 → a0.toNat + 4096 < 2 ^ 64 ∧
    (up s.brk.toNat < up a0.toNat → up a0.toNat ≤ GUEST_SPACE_SIZE)

theorem up_sub_up (a b : Nat) : up (up a - up b) = up a - up b := by
  unfold up
  omega

/-- The pages between the old and the new break. -/
theorem run_growth {a0 : Word} (hlt : a0.toNat + 4096 < 2 ^ 64) (hle : s.brk.toNat ≤ a0.toNat) :
    (alignedUp s.brk).toNat = up s.brk.toNat ∧ (alignedUp a0).toNat = up a0.toNat ∧
      (alignedUp a0 - alignedUp s.brk).toNat = up a0.toNat - up s.brk.toNat := by
  have hold : (alignedUp s.brk).toNat = up s.brk.toNat := toNat_alignedUp_of_lt (by omega)
  have hnew : (alignedUp a0).toNat = up a0.toNat := toNat_alignedUp_of_lt (by omega)
  have hmono : up s.brk.toNat ≤ up a0.toNat := by
    unfold up
    omega
  refine ⟨hold, hnew, ?_⟩
  rw [BitVec.toNat_sub_of_le, hnew, hold]
  rw [BitVec.le_def, hnew, hold]
  exact hmono

/-- What follows the rounding of the new break only adds events. -/
theorem appends_growBrk (s : GuestSpace) (a0 newBrk : Word) : Appends (do
    let oldAligned ← pageAlignUp s.brk
    if oldAligned < newBrk then do
      let sz ← Guest.sub newBrk oldAligned
      let _ ← Guest.mmapFixed host.mmap oldAligned sz (PROT_READ ||| PROT_WRITE)
      Guest.modify (·.setBrk a0)
      return .continue a0
    else do
      Guest.modify (·.setBrk a0)
      return .continue a0 : Sys SyscallResult) := by
  have hset : Appends (do
      Guest.modify (·.setBrk a0)
      return .continue a0 : Sys SyscallResult) := by
    refine Appends.bind (.modify fun _ => ?_) fun _ => .pure _
    exact List.prefix_rfl
  exact (Appends.pageAlignUp _).bind fun _ =>
    .ite ((Appends.sub _ _).bind fun _ => (Appends.mmapFixed _ _ _ _).bind fun _ => hset) hset

theorem doBrk_harmless_iff (hgood : AllGood InSpace s) (a0 : Word) :
    Harmless (s.brk ≤ a0 ∧ Leaves (up s.brk.toNat, up a0.toNat - up s.brk.toNat)) (Refused s)
      (doBrk host a0) s ↔ BrkSafe s a0 := by
  by_cases hzero : a0 = 0
  · have hrun : (doBrk host a0).run s = (.ok (.continue s.brk), s) := by
      unfold doBrk
      rw [Guest.run_bind_ok (Guest.run_get s), if_pos hzero]
      rfl
    rw [harmless_of_ok hrun]
    refine ⟨fun _ hne => absurd hzero hne, fun _ => ⟨hgood, fun hasks => ?_⟩⟩
    have hsize := hasks.2.1
    rw [hzero] at hsize
    dsimp only at hsize
    have hup : up (0 : Word).toNat = 0 := by decide
    rw [hup] at hsize
    omega
  · by_cases hle : s.brk ≤ a0
    · have hleNat : s.brk.toNat ≤ a0.toNat := hle
      by_cases hlt : a0.toNat + 4096 < 2 ^ 64
      · obtain ⟨hold, hnew, hsize⟩ := run_growth hlt hleNat
        have hno : ¬ IsErrno (.continue a0) := not_isErrno (by omega)
        have hstart : (doBrk host a0).run s = ((if alignedUp s.brk < alignedUp a0 then do
            let sz ← Guest.sub (alignedUp a0) (alignedUp s.brk)
            let _ ← Guest.mmapFixed host.mmap (alignedUp s.brk) sz (PROT_READ ||| PROT_WRITE)
            Guest.modify (·.setBrk a0)
            return .continue a0
          else do
            Guest.modify (·.setBrk a0)
            return .continue a0 : Sys SyscallResult)).run s := by
          unfold doBrk
          rw [Guest.run_bind_ok (Guest.run_get s), if_neg hzero, if_pos hle,
            Guest.run_bind_ok (run_pageAlignUp_ok s hlt),
            Guest.run_bind_ok (run_pageAlignUp_ok s (by omega))]
        by_cases hgrow : up s.brk.toNat < up a0.toNat
        · have hgrowWord : alignedUp s.brk < alignedUp a0 := by
            rw [BitVec.lt_def, hold, hnew]
            exact hgrow
          rw [if_pos hgrowWord, Guest.run_bind_ok (run_sub_ok s (Nat.le_of_lt hgrowWord))] at hstart
          by_cases hin : (alignedUp s.brk).toNat < GUEST_SPACE_SIZE
          · have hmap : (Guest.mmapFixed host.mmap (alignedUp s.brk)
                (alignedUp a0 - alignedUp s.brk) (PROT_READ ||| PROT_WRITE) : Sys Bool).run s = _ :=
              run_mmapFixed s hin
            rw [hold] at hin
            have hleaves : Leaves (up s.brk.toNat, up a0.toNat - up s.brk.toNat) ↔
                ¬ up a0.toNat ≤ GUEST_SPACE_SIZE := by
              unfold Leaves
              dsimp only
              omega
            have hmono : up s.brk.toNat + (up a0.toNat - up s.brk.toNat) = up a0.toNat := by omega
            by_cases hacc : mapAccepted host.mmap (alignedUp s.brk)
                (alignedUp a0 - alignedUp s.brk) = true
            · rw [if_pos hacc, hold, hsize, up_sub_up] at hmap
              have hrun := hstart.trans (Guest.run_bind_ok hmap)
              rw [harmless_of_ok (hrun.trans rfl), allGood_append rfl]
              show (AllGood InSpace s ∧ _ + (_ - _) ≤ _) ∧ _ ↔ _
              rw [hmono]
              constructor
              · intro h _ _
                exact ⟨hlt, fun _ => h.1.2⟩
              · intro h
                have hend := (h hzero hle).2 hgrow
                exact ⟨⟨hgood, hend⟩, fun hasks => absurd hend (hleaves.mp hasks.2)⟩
            · rw [if_neg hacc] at hmap
              have hrun := hstart.trans (Guest.run_bind_ok hmap)
              rw [harmless_of_ok (hrun.trans rfl)]
              constructor
              · intro h _ _
                refine ⟨hlt, fun _ => ?_⟩
                by_contra hend
                exact hno (h.2 ⟨hle, hleaves.mpr hend⟩).1
              · intro h
                have hend := (h hzero hle).2 hgrow
                exact ⟨hgood, fun hasks => absurd hend (hleaves.mp hasks.2)⟩
          · have hrun := hstart.trans (Guest.run_bind_error (run_mmapFixed_panic s hin))
            rw [hold] at hin
            constructor
            · intro h
              exact absurd h (not_harmless_of_error hrun)
            · intro h
              have hend := (h hzero hle).2 hgrow
              exact absurd (Nat.lt_of_lt_of_le hgrow hend) hin
        · have hkeep : ¬ alignedUp s.brk < alignedUp a0 := by
            rw [BitVec.lt_def, hold, hnew]
            exact hgrow
          rw [if_neg hkeep] at hstart
          rw [harmless_of_ok (hstart.trans rfl)]
          constructor
          · intro _ _ _
            exact ⟨hlt, fun h => absurd h hgrow⟩
          · intro _
            refine ⟨hgood, fun hasks => ?_⟩
            have hsome := hasks.2.1
            dsimp only at hsome
            omega
      · constructor
        · intro h
          have hclean := h.clean
          unfold doBrk at hclean
          rw [Guest.run_bind_ok (Guest.run_get s), if_neg hzero, if_pos hle] at hclean
          have hfirst := (clean_pageAlignUp_iff not_inSpace_wrapped).mp
            ((clean_bind_iff (appends_growBrk host s a0)).mp hclean).1
          exact absurd hfirst.2 hlt
        · intro h
          exact absurd (h hzero hle).1 hlt
    · have hrun : (doBrk host a0).run s = (.ok (.continue s.brk), s) := by
        unfold doBrk
        rw [Guest.run_bind_ok (Guest.run_get s), if_neg hzero, if_neg hle]
        rfl
      rw [harmless_of_ok hrun]
      exact ⟨fun _ _ h => absurd h hle, fun _ => ⟨hgood, fun hasks => absurd hasks.1 hle⟩⟩

theorem refused_constant {w : Word} (n : Nat) (hpos : 0 < n) (hsmall : n < 4096)
    (h : w = -BitVec.ofNat 64 n) (s : GuestSpace) : Refused s (.continue w) s := by
  rw [h]
  exact refused_errno ⟨n, hpos, hsmall⟩ s

/-- A mapping at an address: it starts in the guest space, and if the host accepts it, it ends
there; and one at the next free address lies in the guest space. -/
def MmapSafe (mmapNext a0 a1 : Word) : Prop :=
  a1.toNat + 4096 < 2 ^ 64 ∧
    (a0 ≠ 0 → a0.toNat < GUEST_SPACE_SIZE ∧ (mapAccepted host.mmap a0 (alignedUp a1) = true →
      a0.toNat + up a1.toNat ≤ GUEST_SPACE_SIZE)) ∧
    (a0 = 0 → mmapNext.toNat < GUEST_SPACE_SIZE ∧
      mmapNext.toNat + up a1.toNat ≤ GUEST_SPACE_SIZE)

/-- The refusal of a mapping: the next free address is as before, too. -/
def MapRefused (s : GuestSpace) (mmapNext : Word) (p : SyscallResult × Word) (s' : GuestSpace) :
    Prop := IsErrno p.1 ∧ Unchanged s s' ∧ p.2 = mmapNext

/-- The end of `doMmap`. -/
def mapAt (guestAddr alignedLen : Word) (prot : BitVec 32) (mmapNext : Word) :
    Sys (SyscallResult × Word) := do
  if ← Guest.mmapFixed host.mmap guestAddr alignedLen prot then
    return (.continue guestAddr, mmapNext)
  else return (.continue ENOMEM, mmapNext)

theorem appends_mapAt (guestAddr alignedLen : Word) (prot : BitVec 32) (mmapNext : Word) :
    Appends (mapAt host guestAddr alignedLen prot mmapNext) :=
  (Appends.mmapFixed _ _ _ _).bind fun _ => .ite (.pure _) (.pure _)

theorem doMmap_at {addr : Word} (len : Word) (prot : BitVec 32) (mmapNext : Word) (h : addr ≠ 0) :
    doMmap host addr len prot mmapNext = (do
      let alignedLen ← pageAlignUp len
      mapAt host addr alignedLen prot mmapNext) := by
  unfold doMmap
  simp only [if_pos h]
  rfl

theorem doMmap_next {addr : Word} (len : Word) (prot : BitVec 32) (mmapNext : Word)
    (h : addr = 0) : doMmap host addr len prot mmapNext = (do
      let alignedLen ← pageAlignUp len
      let next ← Guest.add mmapNext alignedLen
      mapAt host mmapNext alignedLen prot next) := by
  have hne : ¬ addr ≠ 0 := fun hne => hne h
  unfold doMmap
  simp only [if_neg hne]
  rfl

/-- A mapping at an address, with the next free address that is left. -/
theorem run_mapAt {guestAddr alignedLen : Word} (prot : BitVec 32) (next : Word) :
    (guestAddr.toNat < GUEST_SPACE_SIZE → (mapAt host guestAddr alignedLen prot next).run s =
      if mapAccepted host.mmap guestAddr alignedLen then
        (.ok (.continue guestAddr, next), s.map guestAddr.toNat (up alignedLen.toNat) prot)
      else (.ok (.continue ENOMEM, next), s)) ∧
      (¬ guestAddr.toNat < GUEST_SPACE_SIZE → (mapAt host guestAddr alignedLen prot next).run s =
        (.error (.panic .guestAddr), s)) := by
  unfold mapAt
  constructor
  · intro hin
    rw [Guest.run_bind, run_mmapFixed s hin]
    split
    · rename_i hmap
      split at hmap
      · cases hmap
        rename_i hacc
        rw [if_pos hacc]
        rfl
      · cases hmap
        rename_i hacc
        rw [if_neg hacc]
        rfl
    · rename_i hmap
      split at hmap
      · cases hmap
      · cases hmap
  · intro hin
    rw [Guest.run_bind_error (run_mmapFixed_panic s hin)]

theorem up_up (n : Nat) : up (up n) = up n := by
  unfold up
  omega

theorem doMmap_harmless_iff (hgood : AllGood InSpace s) (a0 a1 : Word) (prot : BitVec 32)
    (mmapNext : Word) :
    Harmless (Leaves ((if a0 ≠ 0 then a0 else mmapNext).toNat, up a1.toNat))
      (MapRefused s mmapNext) (doMmap host a0 a1 prot mmapNext) s ↔
      MmapSafe host mmapNext a0 a1 := by
  by_cases hzero : a0 = 0
  · have hne : ¬ a0 ≠ 0 := fun h => h hzero
    have happends : ∀ alignedLen, Appends (do
        let next ← Guest.add mmapNext alignedLen
        mapAt host mmapNext alignedLen prot next) := fun _ =>
      (Appends.add _ _).bind fun _ => appends_mapAt _ _ _ _ _
    rw [doMmap_next host a1 prot mmapNext hzero, if_neg hne]
    constructor
    · intro h
      have hclean := h.clean
      rw [clean_bind_iff happends, clean_pageAlignUp_iff not_inSpace_wrapped] at hclean
      obtain ⟨⟨-, hlt⟩, hrest⟩ := hclean
      have hlen : (alignedUp a1).toNat = up a1.toNat := toNat_alignedUp_of_lt (by omega)
      have hadd := hrest _ _ (run_pageAlignUp_ok s hlt)
      rw [clean_bind_iff fun _ => appends_mapAt _ _ _ _ _, clean_add_iff not_inSpace_wrapped] at hadd
      have hsum := hadd.1.2
      refine ⟨hlt, fun h' => absurd h' hne, fun _ => ?_⟩
      obtain ⟨p, s', hrun, hgood', hrefused⟩ := h
      rw [Guest.run_bind_ok (run_pageAlignUp_ok s hlt),
        Guest.run_bind_ok (run_add_ok s hsum)] at hrun
      rw [hlen] at hsum
      by_cases hin : mmapNext.toNat < GUEST_SPACE_SIZE
      · refine ⟨hin, ?_⟩
        rw [(run_mapAt host prot _).1 hin, hlen, up_up] at hrun
        by_contra hend
        have hleaves : Leaves (mmapNext.toNat, up a1.toNat) := by
          unfold Leaves
          dsimp only
          omega
        split at hrun
        · cases hrun
          have hevent : InSpace (.mapped mmapNext.toNat (up a1.toNat)) :=
            ((allGood_append rfl).mp hgood').2
          exact hend hevent
        · -- A refused request has moved the next free address.
          cases hrun
          have hmoved := congrArg BitVec.toNat (hrefused hleaves).2.2
          dsimp only at hmoved
          rw [BitVec.toNat_add, hlen, Nat.mod_eq_of_lt hsum] at hmoved
          have hpos := hleaves.1
          dsimp only at hpos
          omega
      · rw [(run_mapAt host prot _).2 hin] at hrun
        cases hrun
    · intro h
      have hlt := h.1
      obtain ⟨hin, hend⟩ := h.2.2 hzero
      have hlen : (alignedUp a1).toNat = up a1.toNat := toNat_alignedUp_of_lt (by omega)
      have hsum : mmapNext.toNat + (alignedUp a1).toNat < 2 ^ 64 := by
        unfold GUEST_SPACE_SIZE at hend
        omega
      have hstay : ¬ Leaves (mmapNext.toNat, up a1.toNat) := not_leaves hend
      have hrun : (do
          let alignedLen ← pageAlignUp a1
          let next ← Guest.add mmapNext alignedLen
          mapAt host mmapNext alignedLen prot next).run s = _ :=
        (Guest.run_bind_ok (run_pageAlignUp_ok s hlt)).trans
          (Guest.run_bind_ok (run_add_ok s hsum))
      rw [(run_mapAt host prot _).1 hin, hlen, up_up] at hrun
      split at hrun
      · have hevent : InSpace (.mapped mmapNext.toNat (up a1.toNat)) := hend
        rw [harmless_of_ok hrun]
        exact ⟨(allGood_append rfl).mpr ⟨hgood, hevent⟩, fun h => absurd h hstay⟩
      · rw [harmless_of_ok hrun]
        exact ⟨hgood, fun h => absurd h hstay⟩
  · rw [doMmap_at host a1 prot mmapNext hzero, if_pos hzero]
    by_cases hlt : a1.toNat + 4096 < 2 ^ 64
    · have hlen : (alignedUp a1).toNat = up a1.toNat := toNat_alignedUp_of_lt (by omega)
      have hiff : MmapSafe host mmapNext a0 a1 ↔ a0.toNat < GUEST_SPACE_SIZE ∧
          (mapAccepted host.mmap a0 (alignedUp a1) = true →
            a0.toNat + up a1.toNat ≤ GUEST_SPACE_SIZE) :=
        ⟨fun h => h.2.1 hzero, fun h => ⟨hlt, fun _ => h, fun h' => absurd h' hzero⟩⟩
      have hstart := Guest.run_bind_ok (f := fun alignedLen =>
        mapAt host a0 alignedLen prot mmapNext) (run_pageAlignUp_ok s hlt)
      rw [hiff]
      by_cases hin : a0.toNat < GUEST_SPACE_SIZE
      · rw [(run_mapAt host prot _).1 hin, hlen, up_up] at hstart
        by_cases hacc : mapAccepted host.mmap a0 (alignedUp a1) = true
        · rw [if_pos hacc] at hstart
          rw [harmless_of_ok hstart, allGood_append rfl]
          constructor
          · intro h
            exact ⟨hin, fun _ => h.1.2⟩
          · intro h
            exact ⟨⟨hgood, h.2 hacc⟩, fun hleaves => absurd hleaves (not_leaves (h.2 hacc))⟩
        · rw [if_neg hacc] at hstart
          rw [harmless_of_ok hstart]
          constructor
          · intro _
            exact ⟨hin, fun h => absurd h hacc⟩
          · intro _
            have hrefused := refused_constant (w := ENOMEM) 12 (by decide) (by decide) rfl s
            exact ⟨hgood, fun _ => ⟨hrefused.1, hrefused.2, rfl⟩⟩
      · rw [(run_mapAt host prot _).2 hin] at hstart
        exact ⟨fun h => absurd h (not_harmless_of_error hstart), fun h => absurd h.1 hin⟩
    · constructor
      · intro h
        have hclean := h.clean
        rw [clean_bind_iff fun _ => appends_mapAt _ _ _ _ _,
          clean_pageAlignUp_iff not_inSpace_wrapped] at hclean
        exact absurd hclean.1.2 hlt
      · intro h
        exact absurd h.1 hlt

/-- The range starts in the guest space, and ends there if the host accepts it. -/
def MprotectSafe (a0 a1 : Word) : Prop :=
  a0.toNat < GUEST_SPACE_SIZE ∧ (protectAccepted host.mprotect a0 a1 = true →
    a0.toNat + up a1.toNat ≤ GUEST_SPACE_SIZE)

theorem doMprotect_harmless_iff (hgood : AllGood InSpace s) (a0 a1 : Word) (prot : BitVec 32) :
    Harmless (Leaves (a0.toNat, up a1.toNat)) (Refused s) (doMprotect host a0 a1 prot) s ↔
      MprotectSafe host a0 a1 := by
  by_cases hin : a0.toNat < GUEST_SPACE_SIZE
  · have hchange : (Guest.mprotect host.mprotect a0 a1 prot : Sys Bool).run s = _ :=
      run_mprotect s hin
    by_cases hacc : protectAccepted host.mprotect a0 a1 = true
    · rw [if_pos hacc] at hchange
      have hrun : (doMprotect host a0 a1 prot).run s =
          (.ok (.continue 0), s.protect a0.toNat (up a1.toNat) prot) := by
        unfold doMprotect
        rw [Guest.run_bind_ok hchange]
        rfl
      rw [harmless_of_ok hrun, allGood_append rfl]
      constructor
      · intro h
        exact ⟨hin, fun _ => h.1.2⟩
      · intro h
        exact ⟨⟨hgood, h.2 hacc⟩, fun hleaves => absurd hleaves (not_leaves (h.2 hacc))⟩
    · rw [if_neg hacc] at hchange
      have hrun : (doMprotect host a0 a1 prot).run s = (.ok (.continue EINVAL), s) := by
        unfold doMprotect
        rw [Guest.run_bind_ok hchange]
        rfl
      rw [harmless_of_ok hrun]
      constructor
      · intro _
        exact ⟨hin, fun h => absurd h hacc⟩
      · intro _
        exact ⟨hgood, fun _ => refused_constant 22 (by decide) (by decide) rfl s⟩
  · have hrun : (doMprotect host a0 a1 prot).run s = (.error (.panic .guestAddr), s) := by
      unfold doMprotect
      rw [Guest.run_bind_error (run_mprotect_panic s hin)]
    exact ⟨fun h => absurd h (not_harmless_of_error hrun), fun h => absurd h.1 hin⟩

/-! ## Handlers that fill a structure -/

/-- The whole range lies in the guest space and can be written. -/
def Fills (s : GuestSpace) (a n : Nat) : Prop :=
  a + n ≤ GUEST_SPACE_SIZE ∧ s.writable a n = true

theorem writable_part {a n b m : Nat} (h : s.writable a n = true) (hlow : a ≤ b)
    (hhigh : b + m ≤ a + n) : s.writable b m = true := by
  unfold GuestSpace.writable at h ⊢
  rw [decide_eq_true_eq] at h ⊢
  intro k hk
  have hbyte := h (b - a + k) (by omega)
  have heq : a + (b - a + k) = b + k := by omega
  rw [heq] at hbyte
  exact hbyte

theorem appends_writeFields (ptr : Nat) (fields : List (Nat × List UInt8)) :
    Appends (writeFields ptr fields) := by
  induction fields with
  | nil => exact .pure _
  | cons f fs ih => exact (Appends.writeHost _ _).bind fun _ => ih

/-- Fields are written cleanly exactly if each of them is in the guest space and can be written. -/
theorem clean_writeFields_iff {ptr : Nat} {fields : List (Nat × List UInt8)} :
    Clean InSpace ((writeFields ptr fields).run s) ↔
      AllGood InSpace s ∧ ∀ f ∈ fields, Fills s (ptr + f.1) f.2.length := by
  induction fields generalizing s with
  | nil => exact ⟨fun h => ⟨h.2, fun _ hf => by cases hf⟩, fun h => .of_ok h.1⟩
  | cons f fs ih =>
    unfold writeFields
    rw [clean_bind_iff fun _ => appends_writeFields _ _, clean_writeHost_iff, List.forall_mem_cons]
    constructor
    · rintro ⟨⟨hgood, hwrite, hin⟩, hrest⟩
      have hrun : (Guest.writeHost (ptr + f.1) f.2 : Sys Unit).run s = _ := run_writeHost _ _ s
      rw [if_pos hwrite] at hrun
      exact ⟨hgood, ⟨hin, hwrite⟩, (ih.mp (hrest _ _ hrun)).2⟩
    · rintro ⟨hgood, ⟨hin, hwrite⟩, hfs⟩
      refine ⟨⟨hgood, hwrite, hin⟩, fun _ s' hrun => ih.mpr ?_⟩
      rw [run_writeHost, if_pos hwrite] at hrun
      cases hrun
      have hevent : InSpace (.written (ptr + f.1) f.2.length) := hin
      exact ⟨(allGood_append rfl).mpr ⟨hgood, hevent⟩, hfs⟩

/-- A structure of `n` bytes is zeroed, and then some of its fields are written. -/
theorem clean_fill_iff {buf : Word} {n : Nat} {rest : Nat → Sys α}
    (hrest : ∀ ptr, Appends (rest ptr))
    (hfields : ∀ s', s'.prot = s.prot → AllGood InSpace s' → Fills s buf.toNat n →
      Clean InSpace ((rest buf.toNat).run s')) (hgood : AllGood InSpace s) :
    Clean InSpace ((do
      let ptr ← Guest.g2h buf
      Guest.writeHost ptr (List.replicate n 0)
      rest ptr : Sys α).run s) ↔ buf.toNat < GUEST_SPACE_SIZE ∧ Fills s buf.toNat n := by
  rw [clean_bind_iff fun _ => (Appends.writeHost _ _).bind fun _ => hrest _, clean_g2h_iff]
  constructor
  · rintro ⟨⟨-, hin⟩, htail⟩
    have hwrite := htail _ _ (run_g2h_ok s hin)
    rw [clean_bind_iff fun _ => hrest _, clean_writeHost_iff, List.length_replicate] at hwrite
    exact ⟨hin, hwrite.1.2.2, hwrite.1.2.1⟩
  · rintro ⟨hin, hend, hwrite⟩
    refine ⟨⟨hgood, hin⟩, fun dst s' hrun => ?_⟩
    rw [run_g2h_ok s hin] at hrun
    cases hrun
    rw [clean_bind_iff fun _ => hrest _, clean_writeHost_iff, List.length_replicate]
    refine ⟨⟨hgood, hwrite, hend⟩, fun _ s' hrun => hfields s' ?_ ?_ ⟨hend, hwrite⟩⟩
    · rw [run_writeHost, List.length_replicate, if_pos hwrite] at hrun
      cases hrun
      rfl
    · rw [run_writeHost, List.length_replicate, if_pos hwrite] at hrun
      cases hrun
      have hevent : InSpace (.written buf.toNat (List.replicate n (0 : UInt8)).length) := by
        rw [List.length_replicate]
        exact hend
      exact (allGood_append rfl).mpr ⟨hgood, hevent⟩

theorem doGetrandom_harmless_iff (hgood : AllGood InSpace s) (buf len : Word) :
    Harmless (Leaves (buf.toNat, len.toNat)) (Refused s) (doGetrandom buf len) s ↔
      buf.toNat < GUEST_SPACE_SIZE ∧ Fills s buf.toNat len.toNat := by
  have hclean : Clean InSpace ((doGetrandom buf len).run s) ↔
      buf.toNat < GUEST_SPACE_SIZE ∧ Fills s buf.toNat len.toNat :=
    clean_fill_iff (fun _ => .pure _) (fun _ _ hgood' _ => .of_ok hgood') hgood
  rw [harmless_iff_clean fun h => not_leaves (hclean.mp h).2.1, hclean]

theorem lt_of_fills {a n : Nat} (hn : 0 < n) (h : Fills s a n) : a < GUEST_SPACE_SIZE := by
  have hend := h.1
  omega

/-- Fields inside a structure that can be written. -/
theorem clean_writeFields_of_fills {ptr n : Nat} {fields : List (Nat × List UInt8)}
    (hin : ∀ f ∈ fields, f.1 + f.2.length ≤ n) (hprot : s'.prot = s.prot)
    (hgood : AllGood InSpace s') (h : Fills s ptr n) :
    Clean InSpace ((do
      writeFields ptr fields
      return .continue 0 : Sys SyscallResult).run s') := by
  have hfields : Clean InSpace ((writeFields ptr fields).run s') := by
    refine clean_writeFields_iff.mpr ⟨hgood, fun f hf => ?_⟩
    have hle := hin f hf
    have hend := h.1
    refine ⟨by omega, ?_⟩
    have hpart := writable_part h.2 (Nat.le_add_right ptr f.1)
      (show ptr + f.1 + f.2.length ≤ ptr + n by omega)
    unfold GuestSpace.writable at hpart ⊢
    rw [hprot]
    exact hpart
  rw [clean_bind_iff fun _ => .pure _]
  refine ⟨hfields, fun _ s'' hrun => .of_ok ?_⟩
  have hkept := hfields.2
  rw [hrun] at hkept
  exact hkept

theorem statFields_inside (st : Stat) : ∀ f ∈ statFields st, f.1 + f.2.length ≤ 128 := by
  unfold statFields
  simp only [List.forall_mem_cons, length_toLeBytes]
  simp

theorem unameFields_inside : ∀ f ∈ unameFields, f.1 + f.2.length ≤ 390 := by decide

theorem doFstat_harmless_iff (hgood : AllGood InSpace s) (fd buf : Word) :
    Harmless (Leaves (buf.toNat, 128)) (Refused s) (doFstat host fd buf) s ↔
      Fills s buf.toNat 128 := by
  have hclean : Clean InSpace ((doFstat host fd buf).run s) ↔
      buf.toNat < GUEST_SPACE_SIZE ∧ Fills s buf.toNat 128 := by
    apply clean_fill_iff _ _ hgood
    · intro ptr
      apply Appends.ite
      · exact (appends_writeFields _ _).bind fun _ => .pure _
      · cases host.fstat (fd.setWidth 32) with
        | error e => exact .pure _
        | ok st => exact (appends_writeFields _ _).bind fun _ => .pure _
    · intro s' hprot hgood' hfills
      split
      · refine clean_writeFields_of_fills (fun f hf => ?_) hprot hgood' hfills
        cases List.mem_singleton.mp hf
        decide
      · cases host.fstat (fd.setWidth 32) with
        | error e => exact .of_ok hgood'
        | ok st => exact clean_writeFields_of_fills (statFields_inside st) hprot hgood' hfills
  rw [harmless_iff_clean fun h => not_leaves (hclean.mp h).2.1, hclean]
  exact ⟨fun h => h.2, fun h => ⟨lt_of_fills (by decide) h, h⟩⟩

theorem doUname_harmless_iff (hgood : AllGood InSpace s) (buf : Word) :
    Harmless (Leaves (buf.toNat, 390)) (Refused s) (doUname buf) s ↔ Fills s buf.toNat 390 := by
  have hclean : Clean InSpace ((doUname buf).run s) ↔
      buf.toNat < GUEST_SPACE_SIZE ∧ Fills s buf.toNat 390 := by
    apply clean_fill_iff _ _ hgood
    · intro ptr
      exact (appends_writeFields _ _).bind fun _ => .pure _
    · intro s' hprot hgood' hfills
      exact clean_writeFields_of_fills unameFields_inside hprot hgood' hfills
  rw [harmless_iff_clean fun h => not_leaves (hclean.mp h).2.1, hclean]
  exact ⟨fun h => h.2, fun h => ⟨lt_of_fills (by decide) h, h⟩⟩

theorem pairFields_inside (p : Word × Word) : ∀ f ∈ pairFields p, f.1 + f.2.length ≤ 16 := by
  unfold pairFields
  simp only [List.forall_mem_cons, length_toLeBytes]
  simp

/-- Two words one behind another. -/
theorem fills_pair {ptr : Nat} (p : Word × Word) :
    (∀ f ∈ pairFields p, Fills s (ptr + f.1) f.2.length) ↔ Fills s ptr 16 := by
  unfold pairFields
  rw [List.forall_mem_cons, List.forall_mem_singleton, length_toLeBytes, length_toLeBytes]
  constructor
  · rintro ⟨hlow, hhigh⟩
    refine ⟨hhigh.1, ?_⟩
    have hlowW := hlow.2
    have hhighW := hhigh.2
    unfold GuestSpace.writable at hlowW hhighW ⊢
    rw [decide_eq_true_eq] at hlowW hhighW ⊢
    intro k hk
    by_cases hfirst : k < 8
    · exact hlowW k hfirst
    · have hbyte := hhighW (k - 8) (by omega)
      have heq : ptr + 8 + (k - 8) = ptr + k := by omega
      rw [heq] at hbyte
      exact hbyte
  · intro h
    have hend := h.1
    exact ⟨⟨by omega, writable_part h.2 (Nat.le_refl _) (by omega)⟩,
      ⟨by omega, writable_part h.2 (Nat.le_add_right _ _) (by omega)⟩⟩

/-- The handlers that return two words. -/
theorem pair_harmless_iff (hgood : AllGood InSpace s) (buf : Word) (p : Word × Word) :
    Harmless (Leaves (buf.toNat, 16)) (Refused s) (do
      let ptr ← Guest.g2h buf
      writeFields ptr (pairFields p)
      return .continue 0) s ↔ Fills s buf.toNat 16 := by
  have hclean : Clean InSpace ((do
      let ptr ← Guest.g2h buf
      writeFields ptr (pairFields p)
      return .continue 0 : Sys SyscallResult).run s) ↔ Fills s buf.toNat 16 := by
    rw [clean_bind_iff fun _ => (appends_writeFields _ _).bind fun _ => .pure _, clean_g2h_iff]
    constructor
    · rintro ⟨⟨-, hin⟩, hrest⟩
      have hfields := hrest _ _ (run_g2h_ok s hin)
      rw [clean_bind_iff fun _ => .pure _, clean_writeFields_iff, fills_pair] at hfields
      exact hfields.1.2
    · intro h
      have hin := lt_of_fills (by decide) h
      refine ⟨⟨hgood, hin⟩, fun ptr s' hrun => ?_⟩
      rw [run_g2h_ok s hin] at hrun
      cases hrun
      exact clean_writeFields_of_fills (pairFields_inside p) rfl hgood h
  rw [harmless_iff_clean fun h => not_leaves (hclean.mp h).1, hclean]

/-- The limit is wanted: the structure starts in the guest space, and can be filled unless the host
has no such limit. -/
def PrlimitSafe (s : GuestSpace) (resource oldRlim : Word) : Prop :=
  oldRlim ≠ 0 → oldRlim.toNat < GUEST_SPACE_SIZE ∧
    ((resource = RLIMIT_STACK ∨ ∃ p, host.getrlimit (resource.setWidth 32) = .ok p) →
      Fills s oldRlim.toNat 16)

theorem doPrlimit64_harmless_iff (hgood : AllGood InSpace s) (resource oldRlim : Word) :
    Harmless (oldRlim ≠ 0 ∧ Leaves (oldRlim.toNat, 16)) (Refused s)
      (doPrlimit64 host resource oldRlim) s ↔ PrlimitSafe host s resource oldRlim := by
  unfold doPrlimit64 PrlimitSafe
  by_cases hne : oldRlim ≠ 0
  · rw [if_pos hne]
    have hasks : (oldRlim ≠ 0 ∧ Leaves (oldRlim.toNat, 16)) = Leaves (oldRlim.toNat, 16) :=
      propext (and_iff_right hne)
    rw [hasks]
    by_cases hstack : resource = RLIMIT_STACK
    · simp only [if_pos hstack]
      rw [pair_harmless_iff hgood]
      exact ⟨fun h _ => ⟨lt_of_fills (by decide) h, fun _ => h⟩, fun h => (h hne).2 (.inl hstack)⟩
    · simp only [if_neg hstack]
      cases hlimit : host.getrlimit (resource.setWidth 32) with
      | ok p =>
        rw [pair_harmless_iff hgood]
        exact ⟨fun h _ => ⟨lt_of_fills (by decide) h, fun _ => h⟩,
          fun h => (h hne).2 (.inr ⟨p, rfl⟩)⟩
      | error e =>
        by_cases hin : oldRlim.toNat < GUEST_SPACE_SIZE
        · have hrun : (do
              let _ ← Guest.g2h oldRlim
              return .continue e.ret : Sys SyscallResult).run s = (.ok (.continue e.ret), s) := by
            rw [Guest.run_bind_ok (run_g2h_ok s hin)]
            rfl
          rw [harmless_of_ok hrun]
          constructor
          · intro _ _
            refine ⟨hin, fun hor => ?_⟩
            cases hor with
            | inl h => exact absurd h hstack
            | inr h =>
              obtain ⟨p, hp⟩ := h
              cases hp
          · intro _
            exact ⟨hgood, fun _ => refused_errno e s⟩
        · have hrun : (do
              let _ ← Guest.g2h oldRlim
              return .continue e.ret : Sys SyscallResult).run s = (.error (.panic .guestAddr), s) := by
            rw [Guest.run_bind_error (run_g2h_panic s hin)]
          exact ⟨fun h => absurd h (not_harmless_of_error hrun), fun h => absurd (h hne).1 hin⟩
  · rw [if_neg hne, harmless_of_ok (Guest.run_pure _ _)]
    exact ⟨fun _ h => absurd h hne, fun _ => ⟨hgood, fun h => absurd h.1 hne⟩⟩

/-- The structure can be filled, unless the host has no such clock. -/
def ClockSafe (s : GuestSpace) (clkId tp : Word) : Prop :=
  ∀ p, host.clockGettime (clkId.setWidth 32) = .ok p → Fills s tp.toNat 16

theorem doClockGettime_harmless_iff (hgood : AllGood InSpace s) (clkId tp : Word) :
    Harmless (Leaves (tp.toNat, 16)) (Refused s) (doClockGettime host clkId tp) s ↔
      ClockSafe host s clkId tp := by
  unfold doClockGettime ClockSafe
  cases host.clockGettime (clkId.setWidth 32) with
  | error e =>
    rw [harmless_of_ok (Guest.run_pure _ _)]
    constructor
    · intro _ p hp
      cases hp
    · intro _
      exact ⟨hgood, fun _ => refused_errno e s⟩
  | ok p =>
    dsimp only
    rw [pair_harmless_iff hgood]
    exact ⟨fun h _ _ => h, fun h => h p rfl⟩

theorem doFutex_harmless_iff (hgood : AllGood InSpace s) (uaddr op : Word) :
    Harmless False (Refused s) (doFutex uaddr op) s ↔ uaddr.toNat < GUEST_SPACE_SIZE := by
  rw [harmless_iff_clean fun _ => not_false]
  unfold doFutex
  rw [clean_bind_iff, clean_g2h_iff]
  · constructor
    · intro h
      exact h.1.2
    · intro hin
      refine ⟨⟨hgood, hin⟩, fun _ s' hrun => ?_⟩
      rw [run_g2h_ok s hin] at hrun
      cases hrun
      split
      · exact .of_ok hgood
      · split
        · exact .of_ok hgood
        · exact .of_ok hgood
  · intro _
    exact .ite (.pure _) (.ite (.pure _) (.pure _))

/-! ## The link of the executable -/

/-- The string up to its NUL can be read in the guest space, and if it names the executable, the
answer has room there. -/
def ReadlinkSafe (s : GuestSpace) (elfPath : List UInt8) (path buf size : Word) : Prop :=
  path.toNat < GUEST_SPACE_SIZE ∧ ∃ n, strlen s MAX_MAPPING path.toNat = some n ∧
    path.toNat + (n + 1) ≤ GUEST_SPACE_SIZE ∧
      (load s.mem path.toNat n = ascii "/proc/self/exe" → buf.toNat < GUEST_SPACE_SIZE ∧
        Fills s buf.toNat (min elfPath.length size.toNat))

/-- A string that is found can be read with its NUL. -/
theorem readable_of_strlen {fuel ptr n : Nat} (h : strlen s fuel ptr = some n) :
    s.readable ptr (n + 1) = true := by
  induction fuel generalizing ptr n with
  | zero => cases h
  | succ fuel ih =>
    unfold strlen at h
    split at h
    · cases h
    · rename_i hread
      unfold GuestSpace.readable
      rw [decide_eq_true_eq]
      split at h
      · cases h
        intro k hk
        cases Nat.lt_one_iff.mp hk
        exact hread
      · obtain ⟨m, hrest, rfl⟩ := Option.map_eq_some_iff.mp h
        have htail := ih hrest
        unfold GuestSpace.readable at htail
        rw [decide_eq_true_eq] at htail
        intro k hk
        cases k with
        | zero => exact hread
        | succ k =>
          have hbyte := htail k (by omega)
          rw [Nat.add_assoc, Nat.add_comm 1] at hbyte
          exact hbyte

theorem take_load (mem : Nat → UInt8) (ptr n : Nat) :
    (load mem ptr (n + 1)).take n = load mem ptr n := by
  unfold load
  rw [← List.map_take, List.take_range, Nat.min_eq_left (Nat.le_succ n)]

theorem clean_readCStr_iff {ptr : Nat} : Clean InSpace ((readCStr ptr).run s) ↔
    AllGood InSpace s ∧ ∃ n, strlen s MAX_MAPPING ptr = some n ∧ ptr + (n + 1) ≤ GUEST_SPACE_SIZE := by
  unfold readCStr
  rw [Guest.run_bind_ok (Guest.run_get s)]
  cases hlen : strlen s MAX_MAPPING ptr with
  | none =>
    constructor
    · intro h
      exact absurd h not_clean_panic
    · rintro ⟨-, n, hn, -⟩
      cases hn
  | some n =>
    dsimp only
    rw [clean_bind_iff fun _ => .pure _, clean_readHost_iff]
    constructor
    · rintro ⟨⟨hgood, -, hin⟩, -⟩
      exact ⟨hgood, n, rfl, hin⟩
    · rintro ⟨hgood, n', hn, hin⟩
      cases hn
      have hread := readable_of_strlen hlen
      refine ⟨⟨hgood, hread, hin⟩, fun bytes s' hrun => .of_ok ?_⟩
      rw [run_readHost, if_pos hread] at hrun
      cases hrun
      have hevent : InSpace (.read ptr (n + 1)) := hin
      exact (allGood_append rfl).mpr ⟨hgood, hevent⟩

theorem run_readCStr {ptr n : Nat} (h : strlen s MAX_MAPPING ptr = some n) :
    (readCStr ptr).run s = (.ok (load s.mem ptr n), s.log (.read ptr (n + 1))) := by
  have hread : (Guest.readHost ptr (n + 1) : Sys (List UInt8)).run s = _ := run_readHost _ _ s
  rw [if_pos (readable_of_strlen h)] at hread
  unfold readCStr
  rw [Guest.run_bind_ok (Guest.run_get s), h]
  dsimp only
  rw [Guest.run_bind_ok hread, take_load]
  rfl

theorem appends_readCStr (ptr : Nat) : Appends (readCStr ptr) := by
  refine Appends.get.bind fun s => ?_
  cases strlen s MAX_MAPPING ptr with
  | none => exact .stop _
  | some n => exact (Appends.readHost _ _).bind fun _ => .pure _

/-- What `doReadlinkat` does with the path. -/
def answerLink (elfPath : List UInt8) (bufAddr bufsiz : Word) (path : List UInt8) :
    Sys SyscallResult :=
  if path = ascii "/proc/self/exe" then do
    let len := min elfPath.length bufsiz.toNat
    let dst ← Guest.g2h bufAddr
    Guest.writeHost dst (elfPath.take len)
    return .continue (BitVec.ofNat 64 len)
  else return .continue ENOENT

theorem appends_answerLink (elfPath : List UInt8) (bufAddr bufsiz : Word) (path : List UInt8) :
    Appends (answerLink elfPath bufAddr bufsiz path) :=
  .ite ((Appends.g2h _).bind fun _ => (Appends.writeHost _ _).bind fun _ => .pure _) (.pure _)

theorem clean_answerLink_iff {elfPath : List UInt8} {bufAddr bufsiz : Word} {path : List UInt8} :
    Clean InSpace ((answerLink elfPath bufAddr bufsiz path).run s) ↔
      AllGood InSpace s ∧ (path = ascii "/proc/self/exe" → bufAddr.toNat < GUEST_SPACE_SIZE ∧
        Fills s bufAddr.toNat (min elfPath.length bufsiz.toNat)) := by
  unfold answerLink
  by_cases hexe : path = ascii "/proc/self/exe"
  · have hlen : (elfPath.take (min elfPath.length bufsiz.toNat)).length =
        min elfPath.length bufsiz.toNat := by
      rw [List.length_take]
      omega
    rw [if_pos hexe]
    dsimp only
    rw [clean_bind_iff fun _ => (Appends.writeHost _ _).bind fun _ => .pure _, clean_g2h_iff]
    constructor
    · rintro ⟨⟨hgood, hin⟩, hrest⟩
      have hwrite := hrest _ _ (run_g2h_ok s hin)
      rw [clean_bind_iff fun _ => .pure _, clean_writeHost_iff, hlen] at hwrite
      exact ⟨hgood, fun _ => ⟨hin, hwrite.1.2.2, hwrite.1.2.1⟩⟩
    · rintro ⟨hgood, hfills⟩
      obtain ⟨hin, hend, hwrite⟩ := hfills hexe
      refine ⟨⟨hgood, hin⟩, fun dst s' hrun => ?_⟩
      rw [run_g2h_ok s hin] at hrun
      cases hrun
      rw [clean_bind_iff fun _ => .pure _, clean_writeHost_iff, hlen]
      refine ⟨⟨hgood, hwrite, hend⟩, fun _ s' hrun => .of_ok ?_⟩
      rw [run_writeHost, hlen, if_pos hwrite] at hrun
      cases hrun
      refine (allGood_append (s := s) (e := .written bufAddr.toNat
        (elfPath.take (min elfPath.length bufsiz.toNat)).length) rfl).mpr ⟨hgood, ?_⟩
      rw [hlen]
      exact hend
  · rw [if_neg hexe]
    exact ⟨fun h => ⟨h.2, fun h' => absurd h' hexe⟩, fun h => .of_ok h.1⟩

theorem doReadlinkat_harmless_iff (hgood : AllGood InSpace s) (path buf size : Word)
    (elfPath : List UInt8) :
    Harmless (∃ r, (∃ n, strlen s MAX_MAPPING path.toNat = some n ∧
        (r = (path.toNat, n + 1) ∨ load s.mem path.toNat n = ascii "/proc/self/exe" ∧
          r = (buf.toNat, min elfPath.length size.toNat))) ∧ Leaves r) (Refused s)
      (doReadlinkat path buf size elfPath) s ↔ ReadlinkSafe s elfPath path buf size := by
  have hclean : Clean InSpace ((doReadlinkat path buf size elfPath).run s) ↔
      ReadlinkSafe s elfPath path buf size := by
    have heq : doReadlinkat path buf size elfPath = (do
        let hostPath ← Guest.g2h path
        let bytes ← readCStr hostPath
        answerLink elfPath buf size bytes) := rfl
    rw [heq, clean_bind_iff fun _ => (appends_readCStr _).bind fun _ => appends_answerLink _ _ _ _,
      clean_g2h_iff]
    constructor
    · rintro ⟨⟨-, hin⟩, hrest⟩
      have hread := hrest _ _ (run_g2h_ok s hin)
      rw [clean_bind_iff fun _ => appends_answerLink _ _ _ _, clean_readCStr_iff] at hread
      obtain ⟨⟨-, n, hlen, hend⟩, hanswer⟩ := hread
      exact ⟨hin, n, hlen, hend, (clean_answerLink_iff.mp (hanswer _ _ (run_readCStr hlen))).2⟩
    · rintro ⟨hin, n, hlen, hend, hfills⟩
      refine ⟨⟨hgood, hin⟩, fun hostPath s' hrun => ?_⟩
      rw [run_g2h_ok s hin] at hrun
      cases hrun
      have hread := clean_readCStr_iff.mpr ⟨hgood, n, hlen, hend⟩
      rw [clean_bind_iff fun _ => appends_answerLink _ _ _ _]
      refine ⟨hread, fun bytes s' hrun => ?_⟩
      rw [hrun] at hread
      rw [run_readCStr hlen] at hrun
      cases hrun
      exact clean_answerLink_iff.mpr ⟨hread.2, hfills⟩
  rw [harmless_iff_clean ?_, hclean]
  intro h
  obtain ⟨-, n, hlen, hend, hfills⟩ := hclean.mp h
  rintro ⟨r, ⟨n', hlen', hor⟩, hleaves⟩
  rw [hlen] at hlen'
  cases hlen'
  cases hor with
  | inl heq =>
    rw [heq] at hleaves
    exact not_leaves hend hleaves
  | inr hexe =>
    rw [hexe.2] at hleaves
    exact not_leaves (hfills hexe.1).2.1 hleaves

/-! ## Vectored writes -/

/-- An entry of the array can be read in the guest space. -/
def EntrySafe (s : GuestSpace) (addr : Nat) : Prop :=
  addr + 16 ≤ GUEST_SPACE_SIZE ∧ s.readable addr 8 = true ∧ s.readable (addr + 8) 8 = true

/-- A buffer is empty, or starts in the guest space and what the host takes of it lies there; and
the rest holds unless the host refuses the buffer. -/
def BufferSafe (fd : BitVec 32) (i : Nat) (base len : Word) (rest : Prop) : Prop :=
  if len = 0 then rest
  else base.toNat < GUEST_SPACE_SIZE ∧
    match host.write i fd len.toNat with
    | .error _ => True
    | .ok n => base.toNat + n ≤ GUEST_SPACE_SIZE ∧ rest

/-- From entry `i` on, every entry that is reached can be read, and its buffer is safe. -/
def EntriesSafe (fd : BitVec 32) (s : GuestSpace) (iovAddr : Nat) : Nat → Nat → Prop
  | 0, _ => True
  | left + 1, i =>
    EntrySafe s (iovAddr + 16 * i) ∧
      BufferSafe host fd i (memWord s (iovAddr + 16 * i)) (memWord s (iovAddr + 16 * i + 8))
        (EntriesSafe fd s iovAddr left (i + 1))

/-- The first error that the host gives. -/
def entryError (fd : BitVec 32) (s : GuestSpace) (iovAddr : Nat) : Nat → Nat → Option Errno
  | 0, _ => none
  | left + 1, i =>
    if memWord s (iovAddr + 16 * i + 8) = 0 then entryError fd s iovAddr left (i + 1)
    else
      match host.write i fd (memWord s (iovAddr + 16 * i + 8)).toNat with
      | .error e => some e
      | .ok _ => entryError fd s iovAddr left (i + 1)

/-- All entries that are reached are safe; and when the host accepts all buffers, they lie in the
guest space. -/
def WritevSafe (s : GuestSpace) (fd iovAddr iovcnt : Word) : Prop :=
  EntriesSafe host (fd.setWidth 32) s iovAddr.toNat iovcnt.toNat 0 ∧
    (entryError host (fd.setWidth 32) s iovAddr.toNat iovcnt.toNat 0 = none →
      ∀ i < iovcnt.toNat, ¬ Leaves ((memWord s (iovAddr.toNat + 16 * i)).toNat,
        (memWord s (iovAddr.toNat + 16 * i + 8)).toNat))

/-- Entry `i` of the array. -/
def readEntry (iovAddr : Word) (i : Nat) : Sys (Word × Word) := do
  let offset ← Guest.mul (BitVec.ofNat 64 i) 16
  let entry ← Guest.add iovAddr offset
  let base ← readU64 entry
  let entryLen ← Guest.add entry 8
  let len ← readU64 entryLen
  return (base, len)

/-- What the loop does with an entry. -/
def writeEntry (fd : BitVec 32) (iovAddr : Word) (left i : Nat) (total : Word)
    (entry : Word × Word) : Sys SyscallResult :=
  if entry.2 = 0 then writevLoop host fd iovAddr left (i + 1) total
  else do
    let ptr ← Guest.g2h entry.1
    match ← hostWrite host i fd ptr entry.2.toNat with
    | .error e => return .continue e.ret
    | .ok n => do
      let total ← Guest.add total (BitVec.ofNat 64 n)
      writevLoop host fd iovAddr left (i + 1) total

theorem writevLoop_succ (fd : BitVec 32) (iovAddr : Word) (left i : Nat) (total : Word) :
    writevLoop host fd iovAddr (left + 1) i total =
      readEntry iovAddr i >>= writeEntry host fd iovAddr left i total := by
  unfold readEntry
  simp only [Guest.bind_assoc]
  rfl

theorem clean_readU64_iff {a : Word} : Clean InSpace ((readU64 a).run s) ↔
    AllGood InSpace s ∧ a.toNat < GUEST_SPACE_SIZE ∧ s.readable a.toNat 8 = true ∧
      a.toNat + 8 ≤ GUEST_SPACE_SIZE := by
  unfold readU64
  rw [clean_bind_iff fun _ => (Appends.readHost _ _).bind fun _ => .pure _, clean_g2h_iff]
  constructor
  · rintro ⟨⟨hgood, hin⟩, hrest⟩
    have hread := hrest _ _ (run_g2h_ok s hin)
    rw [clean_bind_iff fun _ => .pure _, clean_readHost_iff] at hread
    exact ⟨hgood, hin, hread.1.2.1, hread.1.2.2⟩
  · rintro ⟨hgood, hin, hread, hend⟩
    refine ⟨⟨hgood, hin⟩, fun src s' hrun => ?_⟩
    rw [run_g2h_ok s hin] at hrun
    cases hrun
    rw [clean_bind_iff fun _ => .pure _, clean_readHost_iff]
    refine ⟨⟨hgood, hread, hend⟩, fun _ s' hrun => .of_ok ?_⟩
    rw [run_readHost, if_pos hread] at hrun
    cases hrun
    have hevent : InSpace (.read a.toNat 8) := hend
    exact (allGood_append rfl).mpr ⟨hgood, hevent⟩

theorem run_readU64_ok {a : Word} (hin : a.toNat < GUEST_SPACE_SIZE)
    (hread : s.readable a.toNat 8 = true) :
    (readU64 a).run s = (.ok (memWord s a.toNat), s.log (.read a.toNat 8)) := by
  have hbytes : (Guest.readHost a.toNat 8 : Sys (List UInt8)).run s = _ := run_readHost _ _ s
  rw [if_pos hread] at hbytes
  unfold readU64
  rw [Guest.run_bind_ok (run_g2h_ok s hin), Guest.run_bind_ok hbytes]
  rfl

theorem appends_readU64 (a : Word) : Appends (readU64 a) :=
  (Appends.g2h _).bind fun _ => (Appends.readHost _ _).bind fun _ => .pure _

/-- The address of an entry in the guest space. -/
theorem toNat_entry {iovAddr : Word} {i : Nat} (hi : iovAddr.toNat + 16 * i < 2 ^ 64) :
    (BitVec.ofNat 64 i : Word).toNat = i ∧ (BitVec.ofNat 64 i * 16 : Word).toNat = 16 * i ∧
      (iovAddr + BitVec.ofNat 64 i * 16).toNat = iovAddr.toNat + 16 * i := by
  have hindex : (BitVec.ofNat 64 i : Word).toNat = i := by
    rw [BitVec.toNat_ofNat]
    exact Nat.mod_eq_of_lt (by omega)
  have hoffset : (BitVec.ofNat 64 i * 16 : Word).toNat = 16 * i := by
    rw [BitVec.toNat_mul, hindex]
    show i * 16 % 2 ^ 64 = _
    omega
  refine ⟨hindex, hoffset, ?_⟩
  rw [BitVec.toNat_add, hoffset]
  exact Nat.mod_eq_of_lt hi

/-- An entry that is safe is read, and nothing but the events changes. -/
theorem run_readEntry {iovAddr : Word} {i : Nat} (h : EntrySafe s (iovAddr.toNat + 16 * i)) :
    ∃ s', (readEntry iovAddr i).run s = (.ok (memWord s (iovAddr.toNat + 16 * i),
        memWord s (iovAddr.toNat + 16 * i + 8)), s') ∧ Unchanged s s' ∧
      (AllGood InSpace s → AllGood InSpace s') := by
  obtain ⟨hend, hlow, hhigh⟩ := h
  unfold GUEST_SPACE_SIZE at hend
  have hlt : iovAddr.toNat + 16 * i < 2 ^ 64 := by omega
  obtain ⟨hindex, hoffset, hentry⟩ := toNat_entry hlt
  have hsecond : (iovAddr + BitVec.ofNat 64 i * 16 + 8).toNat = iovAddr.toNat + 16 * i + 8 := by
    rw [BitVec.toNat_add, hentry]
    exact Nat.mod_eq_of_lt (by show _ + 8 < _; omega)
  have hfirstRun := run_readU64_ok (s := s) (a := iovAddr + BitVec.ofNat 64 i * 16)
    (by rw [hentry]; unfold GUEST_SPACE_SIZE; omega) (by rw [hentry]; exact hlow)
  have hnextRun := run_readU64_ok (s := s.log (.read (iovAddr.toNat + 16 * i) 8))
    (a := iovAddr + BitVec.ofNat 64 i * 16 + 8)
    (by rw [hsecond]; unfold GUEST_SPACE_SIZE; omega) (by rw [hsecond]; exact hhigh)
  rw [hentry] at hfirstRun
  rw [hsecond] at hnextRun
  refine ⟨(s.log (.read (iovAddr.toNat + 16 * i) 8)).log (.read (iovAddr.toNat + 16 * i + 8) 8),
    ?_, ⟨rfl, rfl, rfl⟩, fun hgood => ?_⟩
  · unfold readEntry
    rw [Guest.run_bind_ok (run_mul_ok s (by rw [hindex]; show i * 16 < _; omega)),
      Guest.run_bind_ok (run_add_ok s (by rw [hoffset]; omega)), Guest.run_bind_ok hfirstRun,
      Guest.run_bind_ok (run_add_ok _ (by rw [hentry]; show _ + 8 < _; omega)),
      Guest.run_bind_ok hnextRun]
    rfl
  · have hlowEvent : InSpace (.read (iovAddr.toNat + 16 * i) 8) := by
      show _ + 8 ≤ _
      unfold GUEST_SPACE_SIZE
      omega
    have hhighEvent : InSpace (.read (iovAddr.toNat + 16 * i + 8) 8) := by
      show _ + 8 ≤ _
      unfold GUEST_SPACE_SIZE
      omega
    exact (allGood_append rfl).mpr ⟨(allGood_append rfl).mpr ⟨hgood, hlowEvent⟩, hhighEvent⟩

/-- An entry that is read cleanly is safe. -/
theorem entrySafe_of_clean {iovAddr : Word} {i : Nat} (hi : i < 2 ^ 64)
    (h : Clean InSpace ((readEntry iovAddr i).run s)) :
    EntrySafe s (iovAddr.toNat + 16 * i) := by
  unfold readEntry at h
  have hindex : (BitVec.ofNat 64 i : Word).toNat = i := by
    rw [BitVec.toNat_ofNat]
    exact Nat.mod_eq_of_lt hi
  have hafter : ∀ base entry, Appends (do
      let entryLen ← Guest.add entry 8
      let len ← readU64 entryLen
      return (base, len) : Sys (Word × Word)) := fun _ _ =>
    (Appends.add _ _).bind fun _ => (appends_readU64 _).bind fun _ => .pure _
  rw [clean_bind_iff fun _ => (Appends.add _ _).bind fun _ => (appends_readU64 _).bind fun _ =>
    hafter _ _, clean_mul_iff not_inSpace_wrapped] at h
  obtain ⟨⟨-, hmul⟩, h⟩ := h
  have h := h _ _ (run_mul_ok s hmul)
  rw [clean_bind_iff fun _ => (appends_readU64 _).bind fun _ => hafter _ _,
    clean_add_iff not_inSpace_wrapped] at h
  obtain ⟨⟨-, hadd⟩, h⟩ := h
  have h := h _ _ (run_add_ok s hadd)
  have hoffset : (BitVec.ofNat 64 i * 16 : Word).toNat = 16 * i := by
    rw [BitVec.toNat_mul, Nat.mod_eq_of_lt hmul, hindex]
    exact Nat.mul_comm _ _
  rw [hoffset] at hadd
  obtain ⟨-, -, hentry⟩ := toNat_entry hadd
  rw [clean_bind_iff fun _ => hafter _ _, clean_readU64_iff, hentry] at h
  obtain ⟨⟨-, hin, hread, -⟩, h⟩ := h
  have h := h _ _ (run_readU64_ok (by rw [hentry]; exact hin) (by rw [hentry]; exact hread))
  rw [clean_bind_iff fun _ => (appends_readU64 _).bind fun _ => .pure _,
    clean_add_iff not_inSpace_wrapped] at h
  obtain ⟨⟨-, hlen⟩, h⟩ := h
  have h := h _ _ (run_add_ok _ hlen)
  have hsecond : (iovAddr + BitVec.ofNat 64 i * 16 + 8).toNat = iovAddr.toNat + 16 * i + 8 := by
    rw [BitVec.toNat_add, Nat.mod_eq_of_lt hlen, hentry]
    rfl
  rw [clean_bind_iff fun _ => .pure _, clean_readU64_iff, hsecond] at h
  exact ⟨h.1.2.2.2, hread, h.1.2.2.1⟩

theorem appends_hostWrite (k : Nat) (fd : BitVec 32) (ptr len : Nat) :
    Appends (hostWrite host k fd ptr len) := by
  intro s
  rw [run_hostWrite]
  cases host.write k fd len with
  | error e => exact List.prefix_rfl
  | ok n => exact List.prefix_append _ _

theorem appends_writeEntry {fd : BitVec 32} {iovAddr : Word} {left i : Nat}
    (hloop : ∀ total, Appends (writevLoop host fd iovAddr left (i + 1) total)) (total : Word)
    (entry : Word × Word) : Appends (writeEntry host fd iovAddr left i total entry) := by
  apply Appends.ite
  · exact hloop total
  · refine (Appends.g2h _).bind fun _ => (appends_hostWrite host _ _ _ _).bind fun answer => ?_
    cases answer with
    | error e => exact .pure _
    | ok n => exact (Appends.add _ _).bind fun _ => hloop _

theorem appends_writevLoop (fd : BitVec 32) (iovAddr : Word) (left i : Nat) (total : Word) :
    Appends (writevLoop host fd iovAddr left i total) := by
  induction left generalizing i total with
  | zero => exact .pure _
  | succ left ih =>
    rw [writevLoop_succ]
    refine Appends.bind ?_ fun entry => appends_writeEntry host (fun total => ih (i + 1) total) _ _
    exact (Appends.mul _ _).bind fun _ => (Appends.add _ _).bind fun _ =>
      (appends_readU64 _).bind fun _ => (Appends.add _ _).bind fun _ =>
        (appends_readU64 _).bind fun _ => .pure _

theorem unchanged_trans {s₁ s₂ s₃ : GuestSpace} (h : Unchanged s₁ s₂) (h' : Unchanged s₂ s₃) :
    Unchanged s₁ s₃ := ⟨h'.1.trans h.1, h'.2.1.trans h.2.1, h'.2.2.trans h.2.2⟩

theorem memWord_of_unchanged {s₀ : GuestSpace} (h : Unchanged s₀ s) (addr : Nat) :
    memWord s addr = memWord s₀ addr := by
  unfold memWord
  rw [h.1]

theorem entrySafe_of_unchanged {s₀ : GuestSpace} (h : Unchanged s₀ s) (addr : Nat) :
    EntrySafe s addr ↔ EntrySafe s₀ addr := by
  unfold EntrySafe GuestSpace.readable
  rw [h.2.1]

/-- The total of the entries so far does not wrap, since all of them lie in the guest space. -/
theorem run_addTotal {total : Word} {i n : Nat} (htotal : total.toNat ≤ i * MAX_RW_COUNT)
    (hi : i < 2 ^ 26) (hn : n ≤ MAX_RW_COUNT) (s : GuestSpace) :
    (Guest.add total (BitVec.ofNat 64 n) : Sys Word).run s = (.ok (total + BitVec.ofNat 64 n), s) ∧
      (total + BitVec.ofNat 64 n).toNat ≤ (i + 1) * MAX_RW_COUNT := by
  have hbound : (i + 1) * MAX_RW_COUNT ≤ 2 ^ 26 * MAX_RW_COUNT :=
    Nat.mul_le_mul_right _ hi
  rw [Nat.succ_mul] at hbound ⊢
  unfold MAX_RW_COUNT at *
  have hword : (BitVec.ofNat 64 n : Word).toNat = n := by
    rw [BitVec.toNat_ofNat]
    exact Nat.mod_eq_of_lt (by omega)
  constructor
  · exact run_add_ok s (by rw [hword]; omega)
  · rw [BitVec.toNat_add, hword, Nat.mod_eq_of_lt (by omega)]
    omega

/-- One entry is written cleanly exactly if its buffer and the rest of the loop allow it. -/
theorem clean_writeEntry_iff {fd : BitVec 32} {iovAddr total : Word} {left i : Nat}
    {s₀ : GuestSpace} {rest : Prop} {base len : Word}
    (hrest : ∀ total' s', AllGood InSpace s' → Unchanged s₀ s' →
      total'.toNat ≤ (i + 1) * MAX_RW_COUNT →
        (Clean InSpace ((writevLoop host fd iovAddr left (i + 1) total').run s') ↔ rest))
    (hgood : AllGood InSpace s) (hsame : Unchanged s₀ s) (htotal : total.toNat ≤ i * MAX_RW_COUNT)
    (hi : i < 2 ^ 26) :
    Clean InSpace ((writeEntry host fd iovAddr left i total (base, len)).run s) ↔
      BufferSafe host fd i base len rest := by
  have hloop := appends_writevLoop host fd iovAddr left (i + 1)
  unfold writeEntry BufferSafe
  dsimp only
  by_cases hempty : len = 0
  · rw [if_pos hempty, if_pos hempty]
    refine hrest total s hgood hsame ?_
    rw [Nat.succ_mul]
    exact Nat.le_add_right_of_le htotal
  · rw [if_neg hempty, if_neg hempty]
    have htail : ∀ answer : Except Errno Nat, Appends (match answer with
        | .error e => return .continue e.ret
        | .ok n => do
          let total ← Guest.add total (BitVec.ofNat 64 n)
          writevLoop host fd iovAddr left (i + 1) total : Sys SyscallResult) := by
      intro answer
      cases answer with
      | error e => exact .pure _
      | ok n => exact (Appends.add _ _).bind fun _ => hloop _
    rw [clean_bind_iff fun _ => (appends_hostWrite host _ _ _ _).bind htail, clean_g2h_iff]
    have hwrite := run_hostWrite host fd i base.toNat len.toNat s
    have hbound := host.write_le i fd len.toNat
    cases hanswer : host.write i fd len.toNat with
    | error e =>
      rw [hanswer] at hwrite
      constructor
      · intro h
        exact ⟨h.1.2, trivial⟩
      · intro h
        refine ⟨⟨hgood, h.1⟩, fun ptr s' hrun => ?_⟩
        rw [run_g2h_ok s h.1] at hrun
        cases hrun
        rw [Guest.run_bind_ok hwrite]
        exact .of_ok hgood
    | ok n =>
      rw [hanswer] at hwrite
      obtain ⟨hadd, hsum⟩ := run_addTotal htotal hi (hbound n hanswer).2
        (s.log (.sent base.toNat n))
      have hnext := hrest (total + BitVec.ofNat 64 n) (s.log (.sent base.toNat n))
      constructor
      · rintro ⟨⟨-, hin⟩, h⟩
        have hrun := h _ _ (run_g2h_ok s hin)
        rw [Guest.run_bind_ok hwrite, Guest.run_bind_ok hadd] at hrun
        have hgood' := AllGood.of_clean (hloop _) hrun
        have hevent : InSpace (.sent base.toNat n) := ((allGood_append rfl).mp hgood').2
        exact ⟨hin, hevent, (hnext hgood' hsame hsum).mp hrun⟩
      · rintro ⟨hin, hend, h⟩
        refine ⟨⟨hgood, hin⟩, fun ptr s' hrun => ?_⟩
        rw [run_g2h_ok s hin] at hrun
        cases hrun
        rw [Guest.run_bind_ok hwrite, Guest.run_bind_ok hadd]
        have hevent : InSpace (.sent base.toNat n) := hend
        exact (hnext ((allGood_append rfl).mpr ⟨hgood, hevent⟩) hsame hsum).mpr h

theorem lt_of_entrySafe {iovAddr i : Nat} (h : EntrySafe s (iovAddr + 16 * i)) : i < 2 ^ 26 := by
  have hend := h.1
  unfold GUEST_SPACE_SIZE at hend
  omega

/-- The loop is clean exactly if every entry that is reached is safe. -/
theorem clean_writevLoop_iff {fd : BitVec 32} {iovAddr total : Word} {left i : Nat}
    {s₀ : GuestSpace} (hgood : AllGood InSpace s) (hsame : Unchanged s₀ s)
    (htotal : total.toNat ≤ i * MAX_RW_COUNT) (hleft : i + left < 2 ^ 64) :
    Clean InSpace ((writevLoop host fd iovAddr left i total).run s) ↔
      EntriesSafe host fd s₀ iovAddr.toNat left i := by
  induction left generalizing i total s with
  | zero => exact ⟨fun _ => trivial, fun _ => .of_ok hgood⟩
  | succ left ih =>
    have hrest : ∀ total' s', AllGood InSpace s' → Unchanged s₀ s' →
        total'.toNat ≤ (i + 1) * MAX_RW_COUNT →
          (Clean InSpace ((writevLoop host fd iovAddr left (i + 1) total').run s') ↔
            EntriesSafe host fd s₀ iovAddr.toNat left (i + 1)) :=
      fun total' s' hgood' hsame' htotal' => ih hgood' hsame' htotal' (by omega)
    have hbase := memWord_of_unchanged hsame (iovAddr.toNat + 16 * i)
    have hlen := memWord_of_unchanged hsame (iovAddr.toNat + 16 * i + 8)
    have hentry := entrySafe_of_unchanged hsame (iovAddr.toNat + 16 * i)
    unfold EntriesSafe
    rw [writevLoop_succ, clean_bind_iff fun entry =>
      appends_writeEntry host (appends_writevLoop host fd iovAddr left (i + 1)) total entry]
    constructor
    · rintro ⟨hread, h⟩
      have hsafe := entrySafe_of_clean (by omega) hread
      obtain ⟨s₁, hrun, hsame₁, hgood₁⟩ := run_readEntry hsafe
      have hwrite := h _ _ hrun
      rw [clean_writeEntry_iff host hrest (hgood₁ hgood) (unchanged_trans hsame hsame₁) htotal
        (lt_of_entrySafe hsafe), hbase, hlen] at hwrite
      refine ⟨hentry.mp hsafe, ?_⟩
      with_reducible exact hwrite
    · rintro ⟨hsafe, h⟩
      have hsafe' := hentry.mpr hsafe
      obtain ⟨s₁, hrun, hsame₁, hgood₁⟩ := run_readEntry hsafe'
      refine ⟨?_, fun entry s' hrun' => ?_⟩
      · rw [hrun]
        exact .of_ok (hgood₁ hgood)
      · rw [hrun] at hrun'
        simp only [Prod.mk.injEq, Except.ok.injEq] at hrun'
        obtain ⟨rfl, rfl⟩ := hrun'
        rw [clean_writeEntry_iff host hrest (hgood₁ hgood) (unchanged_trans hsame hsame₁) htotal
          (lt_of_entrySafe hsafe'), hbase, hlen]
        with_reducible exact h

/-- What the loop returns when it is clean: the error of the host, or a number of bytes, and then
the array lies in the guest space. -/
theorem run_writevLoop_clean {fd : BitVec 32} {iovAddr total : Word} {left i : Nat}
    {s₀ : GuestSpace} {result : SyscallResult} (hgood : AllGood InSpace s)
    (hsame : Unchanged s₀ s) (htotal : total.toNat ≤ i * MAX_RW_COUNT)
    (hleft : i + left < 2 ^ 64) (hin : i = 0 ∨ iovAddr.toNat + 16 * i ≤ GUEST_SPACE_SIZE)
    (hsafe : EntriesSafe host fd s₀ iovAddr.toNat left i)
    (hrun : (writevLoop host fd iovAddr left i total).run s = (.ok result, s')) :
    Unchanged s₀ s' ∧
      match entryError host fd s₀ iovAddr.toNat left i with
      | some e => result = .continue e.ret
      | none => ¬ IsErrno result ∧
        (i + left = 0 ∨ iovAddr.toNat + 16 * (i + left) ≤ GUEST_SPACE_SIZE) := by
  induction left generalizing i total s with
  | zero =>
    cases hrun
    refine ⟨hsame, not_isErrno ?_, hin⟩
    cases hin with
    | inl hzero =>
      rw [hzero, Nat.zero_mul] at htotal
      omega
    | inr hend =>
      have hi : i ≤ 2 ^ 26 := by
        unfold GUEST_SPACE_SIZE at hend
        omega
      have hbound := Nat.mul_le_mul_right MAX_RW_COUNT hi
      unfold MAX_RW_COUNT at htotal hbound
      omega
  | succ left ih =>
    obtain ⟨hentry, hbuffer⟩ := hsafe
    have hi := lt_of_entrySafe hentry
    have hin' : i + 1 = 0 ∨ iovAddr.toNat + 16 * (i + 1) ≤ GUEST_SPACE_SIZE := by
      have hend := hentry.1
      exact .inr (by omega)
    obtain ⟨s₁, hread, hsame₁, hgood₁⟩ :=
      run_readEntry ((entrySafe_of_unchanged hsame (iovAddr.toNat + 16 * i)).mpr hentry)
    rw [memWord_of_unchanged hsame, memWord_of_unchanged hsame] at hread
    rw [writevLoop_succ, Guest.run_bind_ok hread] at hrun
    have hsame' := unchanged_trans hsame hsame₁
    have hcount : i + (left + 1) = i + 1 + left := by omega
    unfold entryError
    rw [hcount] at hleft ⊢
    generalize memWord s₀ (iovAddr.toNat + 16 * i) = base at *
    generalize memWord s₀ (iovAddr.toNat + 16 * i + 8) = len at *
    unfold writeEntry at hrun
    unfold BufferSafe at hbuffer
    dsimp only at hrun
    by_cases hempty : len = 0
    · rw [if_pos hempty] at hrun hbuffer ⊢
      refine ih (hgood₁ hgood) hsame' ?_ hleft hin' hbuffer hrun
      rw [Nat.succ_mul]
      exact Nat.le_add_right_of_le htotal
    · rw [if_neg hempty] at hrun hbuffer ⊢
      have hwrite := run_hostWrite host fd i base.toNat len.toNat s₁
      have hbound := host.write_le i fd len.toNat
      rw [Guest.run_bind_ok (run_g2h_ok s₁ hbuffer.1)] at hrun
      cases hanswer : host.write i fd len.toNat with
      | error e =>
        rw [hanswer] at hwrite
        rw [Guest.run_bind_ok hwrite] at hrun
        cases hrun
        exact ⟨hsame', rfl⟩
      | ok n =>
        rw [hanswer] at hwrite hbuffer
        obtain ⟨hadd, hsum⟩ := run_addTotal htotal hi (hbound n hanswer).2
          (s₁.log (.sent base.toNat n))
        rw [Guest.run_bind_ok hwrite, Guest.run_bind_ok hadd] at hrun
        have hevent : InSpace (.sent base.toNat n) := hbuffer.2.1
        have hgood₂ : AllGood InSpace (s₁.log (.sent base.toNat n)) :=
          (allGood_append rfl).mpr ⟨hgood₁ hgood, hevent⟩
        exact ih hgood₂ hsame' hsum hleft hin' hbuffer.2.2 hrun

theorem doWritev_harmless_iff (hgood : AllGood InSpace s) (fd iovAddr iovcnt : Word) :
    Harmless (∃ r, (r = (iovAddr.toNat, 16 * iovcnt.toNat) ∨
        ∃ i < iovcnt.toNat, r = ((memWord s (iovAddr.toNat + 16 * i)).toNat,
          (memWord s (iovAddr.toNat + 16 * i + 8)).toNat)) ∧ Leaves r) (Refused s)
      (doWritev host fd iovAddr iovcnt) s ↔ WritevSafe host s fd iovAddr iovcnt := by
  have hleft : 0 + iovcnt.toNat < 2 ^ 64 := by
    rw [Nat.zero_add]
    exact iovcnt.isLt
  have hclean : Clean InSpace ((doWritev host fd iovAddr iovcnt).run s) ↔ _ :=
    clean_writevLoop_iff host hgood (unchanged_refl s) (Nat.zero_le _) hleft
  constructor
  · intro h
    have hsafe := hclean.mp h.clean
    refine ⟨hsafe, fun hnone i hi hleaves => ?_⟩
    obtain ⟨result, s', hrun, -, hrefused⟩ := h
    have hresult := (run_writevLoop_clean host hgood (unchanged_refl s) (Nat.zero_le _) hleft
      (.inl rfl) hsafe hrun).2
    rw [hnone] at hresult
    exact hresult.1 (hrefused ⟨_, .inr ⟨i, hi, rfl⟩, hleaves⟩).1
  · rintro ⟨hsafe, hbuffers⟩
    have hrunClean := hclean.mpr hsafe
    obtain ⟨result, s', hrun⟩ := exists_ok_of_clean hrunClean
    obtain ⟨hsame, hresult⟩ := run_writevLoop_clean host hgood (unchanged_refl s) (Nat.zero_le _)
      hleft (.inl rfl) hsafe hrun
    have hgood' := hrunClean.2
    rw [hrun] at hgood'
    refine ⟨result, s', hrun, hgood', fun hasks => ?_⟩
    cases herror : entryError host (fd.setWidth 32) s iovAddr.toNat iovcnt.toNat 0 with
    | some e =>
      rw [herror] at hresult
      exact ⟨⟨e, hresult⟩, hsame⟩
    | none =>
      rw [herror, Nat.zero_add] at hresult
      obtain ⟨r, hor, hleaves⟩ := hasks
      cases hor with
      | inl heq =>
        -- The whole array was read.
        rw [heq] at hleaves
        cases hresult.2 with
        | inl hzero =>
          have hpos := hleaves.1
          dsimp only at hpos
          omega
        | inr hend => exact absurd hleaves (not_leaves hend)
      | inr hsome =>
        obtain ⟨i, hi, heq⟩ := hsome
        rw [heq] at hleaves
        exact absurd hleaves (hbuffers herror i hi)

/-! ## All calls -/

theorem harmless_constant (hgood : AllGood InSpace s) (hasks : ¬ asks) (result : SyscallResult) :
    Harmless asks (Refused s) (pure result : Sys SyscallResult) s :=
  ⟨result, s, rfl, hgood, fun h => absurd h hasks⟩

/-- When a call keeps to the guest space, by its number; the other calls always do. -/
def CallSafe (s : GuestSpace) (elfPath : List UInt8) (nr : Nat) (a0 a1 a2 a3 : Word) : Prop :=
  if nr = SYS_WRITE then WriteSafe host a0 a1 a2
  else if nr = SYS_BRK then BrkSafe s a0
  else if nr = SYS_MPROTECT then MprotectSafe host a0 a1
  else if nr = SYS_GETRANDOM then a0.toNat < GUEST_SPACE_SIZE ∧ Fills s a0.toNat a1.toNat
  else if nr = SYS_FUTEX then a0.toNat < GUEST_SPACE_SIZE
  else if nr = SYS_WRITEV then WritevSafe host s a0 a1 a2
  else if nr = SYS_FSTAT then Fills s a1.toNat 128
  else if nr = SYS_PRLIMIT64 then PrlimitSafe host s a1 a3
  else if nr = SYS_UNAME then Fills s a0.toNat 390
  else if nr = SYS_READLINKAT then ReadlinkSafe s elfPath a1 a2 a3
  else if nr = SYS_CLOCK_GETTIME then ClockSafe host s a0 a1
  else True

/-- The calls of one number, whose ranges and condition are given. -/
theorem dispatch_of_eq {elfPath : List UInt8} {nr n : Nat} {a0 a1 a2 a3 : Word} (h : nr = n)
    {asks' safe' : Prop} {handler : Sys SyscallResult}
    (hasks : (∃ r, requested s elfPath n a0 a1 a2 a3 r ∧ Leaves r) ↔ asks')
    (hsafe : CallSafe host s elfPath n a0 a1 a2 a3 ↔ safe')
    (hrun : dispatch host elfPath n a0 a1 a2 a3 = handler)
    (hiff : Harmless asks' (Refused s) handler s ↔ safe') :
    Harmless (∃ r, requested s elfPath nr a0 a1 a2 a3 r ∧ Leaves r) (Refused s)
      (dispatch host elfPath nr a0 a1 a2 a3) s ↔ CallSafe host s elfPath nr a0 a1 a2 a3 := by
  subst h
  rw [propext hasks, hrun, hsafe]
  exact hiff

/-- The other calls touch nothing. -/
theorem dispatch_other (elfPath : List UInt8) {nr : Nat} (a0 a1 a2 a3 : Word)
    (hwrite : nr ≠ SYS_WRITE) (hbrk : nr ≠ SYS_BRK) (hmprotect : nr ≠ SYS_MPROTECT)
    (hrandom : nr ≠ SYS_GETRANDOM) (hfutex : nr ≠ SYS_FUTEX) (hwritev : nr ≠ SYS_WRITEV)
    (hfstat : nr ≠ SYS_FSTAT) (hprlimit : nr ≠ SYS_PRLIMIT64) (huname : nr ≠ SYS_UNAME)
    (hreadlink : nr ≠ SYS_READLINKAT) (hclock : nr ≠ SYS_CLOCK_GETTIME) :
    (∃ result, dispatch host elfPath nr a0 a1 a2 a3 = pure result) ∧
      (¬ ∃ r, requested s elfPath nr a0 a1 a2 a3 r ∧ Leaves r) ∧
      CallSafe host s elfPath nr a0 a1 a2 a3 := by
  refine ⟨?_, ?_, ?_⟩
  · unfold dispatch
    rw [if_neg hwrite, if_neg hbrk, if_neg hmprotect, if_neg hrandom, if_neg hfutex,
      if_neg hwritev, if_neg hfstat, if_neg hprlimit, if_neg huname, if_neg hreadlink,
      if_neg hclock]
    split_ifs
    all_goals exact ⟨_, rfl⟩
  · rintro ⟨r, h, -⟩
    unfold requested at h
    rw [if_neg hwrite, if_neg hbrk, if_neg hmprotect, if_neg hrandom, if_neg hwritev,
      if_neg hfstat, if_neg hprlimit, if_neg huname, if_neg hreadlink, if_neg hclock] at h
    exact h
  · unfold CallSafe
    rw [if_neg hwrite, if_neg hbrk, if_neg hmprotect, if_neg hrandom, if_neg hfutex,
      if_neg hwritev, if_neg hfstat, if_neg hprlimit, if_neg huname, if_neg hreadlink,
      if_neg hclock]
    trivial

theorem exists_and_eq_leaves {p : Prop} {r₀ : Nat × Nat} :
    (∃ r, (p ∧ r = r₀) ∧ Leaves r) ↔ p ∧ Leaves r₀ := by
  constructor
  · rintro ⟨r, ⟨hp, rfl⟩, h⟩
    exact ⟨hp, h⟩
  · rintro ⟨hp, h⟩
    exact ⟨r₀, ⟨hp, rfl⟩, h⟩

theorem exists_false_leaves : (∃ r : Nat × Nat, False ∧ Leaves r) ↔ False := by
  simp only [false_and, exists_false]

theorem dispatch_harmless_iff (hgood : AllGood InSpace s) (elfPath : List UInt8) (nr : Nat)
    (a0 a1 a2 a3 : Word) :
    Harmless (∃ r, requested s elfPath nr a0 a1 a2 a3 r ∧ Leaves r) (Refused s)
      (dispatch host elfPath nr a0 a1 a2 a3) s ↔ CallSafe host s elfPath nr a0 a1 a2 a3 := by
  by_cases hwrite : nr = SYS_WRITE
  · exact dispatch_of_eq host hwrite exists_eq_leaves Iff.rfl rfl
      (doWrite_harmless_iff host hgood a0 a1 a2)
  by_cases hbrk : nr = SYS_BRK
  · exact dispatch_of_eq host hbrk exists_and_eq_leaves Iff.rfl rfl
      (doBrk_harmless_iff host hgood a0)
  by_cases hmprotect : nr = SYS_MPROTECT
  · exact dispatch_of_eq host hmprotect exists_eq_leaves Iff.rfl rfl
      (doMprotect_harmless_iff host hgood a0 a1 (a2.setWidth 32))
  by_cases hrandom : nr = SYS_GETRANDOM
  · exact dispatch_of_eq host hrandom exists_eq_leaves Iff.rfl rfl
      (doGetrandom_harmless_iff hgood a0 a1)
  by_cases hfutex : nr = SYS_FUTEX
  · exact dispatch_of_eq host hfutex exists_false_leaves Iff.rfl rfl
      (doFutex_harmless_iff hgood a0 a1)
  by_cases hwritev : nr = SYS_WRITEV
  · exact dispatch_of_eq host hwritev Iff.rfl Iff.rfl rfl
      (doWritev_harmless_iff host hgood a0 a1 a2)
  by_cases hfstat : nr = SYS_FSTAT
  · exact dispatch_of_eq host hfstat exists_eq_leaves Iff.rfl rfl
      (doFstat_harmless_iff host hgood a0 a1)
  by_cases hprlimit : nr = SYS_PRLIMIT64
  · exact dispatch_of_eq host hprlimit exists_and_eq_leaves Iff.rfl rfl
      (doPrlimit64_harmless_iff host hgood a1 a3)
  by_cases huname : nr = SYS_UNAME
  · exact dispatch_of_eq host huname exists_eq_leaves Iff.rfl rfl (doUname_harmless_iff hgood a0)
  by_cases hreadlink : nr = SYS_READLINKAT
  · exact dispatch_of_eq host hreadlink Iff.rfl Iff.rfl rfl
      (doReadlinkat_harmless_iff hgood a1 a2 a3 elfPath)
  by_cases hclock : nr = SYS_CLOCK_GETTIME
  · exact dispatch_of_eq host hclock exists_eq_leaves Iff.rfl rfl
      (doClockGettime_harmless_iff host hgood a0 a1)
  · obtain ⟨⟨result, hrun⟩, hasks, hsafe⟩ := dispatch_other (s := s) host elfPath a0 a1 a2 a3
      hwrite hbrk hmprotect hrandom hfutex hwritev hfstat hprlimit huname hreadlink hclock
    rw [hrun]
    exact ⟨fun _ => hsafe, fun _ => harmless_constant hgood hasks result⟩

/-- When a call keeps to the guest space, by the registers. -/
def RegsSafe (s : GuestSpace) (regs : Fin 32 → Word) (mmapNext : Word) (elfPath : List UInt8) :
    Prop :=
  if (regs 17).toNat = SYS_MMAP then MmapSafe host mmapNext (regs 10) (regs 11)
  else CallSafe host s elfPath (regs 17).toNat (regs 10) (regs 11) (regs 12) (regs 13)

/-- A call is contained exactly when the range it asks for is one the handler can be trusted
with. -/
theorem handleSyscall_contained_iff (regs : Fin 32 → Word) (mmapNext : Word)
    (elfPath : List UInt8) (s : GuestSpace) (hnew : s.events = []) :
    Contained host regs mmapNext elfPath s ↔ RegsSafe host s regs mmapNext elfPath := by
  have hgood : AllGood InSpace s := by
    intro e he
    rw [hnew] at he
    exact absurd he List.not_mem_nil
  unfold Contained RegsSafe handleSyscall
  by_cases hmmap : (regs 17).toNat = SYS_MMAP
  · simp only [if_pos hmmap]
    rw [← doMmap_harmless_iff host hgood (regs 10) (regs 11) ((regs 12).setWidth 32) mmapNext]
    have hasks : (∃ r, requestedMap mmapNext (regs 10) (regs 11) r ∧ Leaves r) ↔ _ :=
      exists_eq_leaves
    rw [propext hasks]
    constructor
    · rintro ⟨result, next, s', hrun, hevents, hrefused⟩
      exact ⟨(result, next), s', hrun, hevents, hrefused⟩
    · rintro ⟨⟨result, next⟩, s', hrun, hevents, hrefused⟩
      exact ⟨result, next, s', hrun, hevents, hrefused⟩
  · simp only [if_neg hmmap]
    rw [← dispatch_harmless_iff host hgood elfPath (regs 17).toNat (regs 10) (regs 11) (regs 12)
      (regs 13)]
    constructor
    · rintro ⟨result, next, s', hrun, hevents, hrefused⟩
      obtain ⟨result', s'', hdispatch, hreturn⟩ := Guest.run_bind_eq_ok hrun
      cases hreturn
      exact ⟨result, s', hdispatch, hevents, fun hasks => (hrefused hasks).imp_right And.left⟩
    · rintro ⟨result, s', hrun, hevents, hrefused⟩
      refine ⟨result, mmapNext, s', ?_, hevents, fun hasks => ?_⟩
      · rw [Guest.run_bind_ok hrun]
        rfl
      · exact ⟨(hrefused hasks).1, (hrefused hasks).2, rfl⟩

/-- The registers of a call with three arguments. -/
def callRegs (nr a0 a1 a2 : Word) (r : Fin 32) : Word :=
  if r = 17 then nr else if r = 10 then a0 else if r = 11 then a1 else if r = 12 then a2 else 0

/-- A buffer at the end of the guest space is not refused. -/
theorem outside_write_panics : ¬ ∀ (host : Host) (regs : Fin 32 → Word) (mmapNext : Word)
    (elfPath : List UInt8) (s : GuestSpace), s.events = [] →
      Contained host regs mmapNext elfPath s := by
  intro hall
  obtain ⟨result, next, s', hrun, -⟩ := hall (takingHost 1) (callRegs 64 1 0x40000000 1) 0 []
    sampleSpace rfl
  have hpanic : (handleSyscall (takingHost 1) (callRegs 64 1 0x40000000 1) 0 []).run sampleSpace =
      (.error (.panic .guestAddr), sampleSpace) := by
    have hnr : (callRegs 64 1 0x40000000 1 17).toNat = SYS_WRITE := by decide
    have hmmap : ¬ SYS_WRITE = SYS_MMAP := by decide
    have hout : ¬ (callRegs 64 1 0x40000000 1 11).toNat < GUEST_SPACE_SIZE := by decide
    unfold handleSyscall
    rw [hnr, if_neg hmmap]
    apply Guest.run_bind_error
    show (doWrite _ _ _ _).run _ = _
    unfold doWrite
    rw [Guest.run_bind_error (run_g2h_panic _ hout)]
  rw [hpanic] at hrun
  cases hrun

/-- Two bytes from inside. -/
theorem handleSyscall_contained_iff_inside :
    Contained (takingHost 2) (callRegs 64 1 0x200 2) 0 [] sampleSpace := by
  apply (handleSyscall_contained_iff (takingHost 2) (callRegs 64 1 0x200 2) 0 [] sampleSpace
    rfl).mpr
  have hnr : (callRegs 64 1 0x200 2 17).toNat = SYS_WRITE := by decide
  have hmmap : ¬ SYS_WRITE = SYS_MMAP := by decide
  unfold RegsSafe CallSafe
  rw [hnr, if_neg hmmap, if_pos rfl]
  refine ⟨by decide, fun _ _ => ?_⟩
  decide

end

end TcgRs.Analysis.SyscallSafety
