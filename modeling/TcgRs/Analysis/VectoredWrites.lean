import TcgRs.Analysis.GuestRuns
import TcgRs.Interface.LinuxCalls

/-!
# Vectored writes

`do_writev` passes the buffers to the host one after another.  It goes on after a short write and
it reports an error after progress, so the bytes that were taken form a prefix, and the result
tells their number, under a condition on the answers of the host.
-/

set_option autoImplicit false

namespace TcgRs.Analysis.VectoredWrites

open TcgRs.Model.Linux TcgRs.Interface.Linux TcgRs.Library TcgRs.Library.ByteMemory
open TcgRs.Analysis.GuestRuns

/-! ## Chunks and prefixes -/

theorem positions_eq_nil (k : Nat) (ns : List Nat) :
    positions k ns = [] ↔ ∀ n ∈ ns, n = 0 := by
  induction ns generalizing k with
  | nil => simp [positions]
  | cons n ns ih => simp [positions, ih]

theorem le_of_mem_positions {k : Nat} {ns : List Nat} {p : Nat × Nat}
    (h : p ∈ positions k ns) : k ≤ p.1 := by
  induction ns generalizing k with
  | nil => cases h
  | cons n ns ih =>
    cases List.mem_append.mp h with
    | inl h =>
      obtain ⟨j, -, rfl⟩ := List.mem_map.mp h
      exact Nat.le_refl k
    | inr h => exact Nat.le_of_succ_le (ih h)

/-- Parts of chunks are a prefix exactly if every chunk before a part that is not empty is
complete. -/
theorem positions_prefix_iff {parts : List (Nat × Nat)} (hle : ∀ p ∈ parts, p.2 ≤ p.1) (k : Nat)
    (rest : List Nat) :
    positions k (parts.map Prod.snd) <+: positions k (parts.map Prod.fst ++ rest) ↔
      parts.Pairwise fun p p' => 0 < p'.2 → p.2 = p.1 := by
  induction parts generalizing k with
  | nil => exact ⟨fun _ => .nil, fun _ => List.nil_prefix⟩
  | cons p parts ih =>
    obtain ⟨len, n⟩ := p
    have hn : n ≤ len := hle (len, n) List.mem_cons_self
    have htail := ih (fun p hp => hle p (List.mem_cons_of_mem _ hp)) (k + 1)
    rw [List.pairwise_cons]
    show (List.range n).map (fun j => (k, j)) ++ positions (k + 1) (parts.map Prod.snd) <+:
      (List.range len).map (fun j => (k, j)) ++ positions (k + 1) (parts.map Prod.fst ++ rest) ↔ _
    cases Nat.eq_or_lt_of_le hn with
    | inl heq =>
      subst heq
      rw [List.prefix_append_right_inj, htail]
      exact ⟨fun h => ⟨fun _ _ _ => rfl, h⟩, fun h => h.2⟩
    | inr hlt =>
      -- The next position of this chunk is not taken, so nothing after it may be.
      obtain ⟨m, rfl⟩ := Nat.exists_eq_add_of_lt hlt
      have hchunk : (List.range (n + m + 1)).map (fun j => (k, j)) =
          (List.range n).map (fun j => (k, j)) ++
            (k, n) :: (List.range m).map (fun j => (k, n + (j + 1))) := by
        rw [Nat.add_assoc, List.range_add, List.map_append, List.range_succ_eq_map]
        simp only [List.map_cons, List.map_map, Nat.add_zero]
        rfl
      rw [hchunk, List.append_assoc, List.cons_append, List.prefix_append_right_inj]
      have hempty : positions (k + 1) (parts.map Prod.snd) <+:
          (k, n) :: ((List.range m).map (fun j => (k, n + (j + 1))) ++
            positions (k + 1) (parts.map Prod.fst ++ rest)) ↔
          positions (k + 1) (parts.map Prod.snd) = [] := by
        constructor
        · intro hpre
          cases hpos : positions (k + 1) (parts.map Prod.snd) with
          | nil => rfl
          | cons q qs =>
            rw [hpos, List.cons_prefix_cons] at hpre
            have hmem : q ∈ positions (k + 1) (parts.map Prod.snd) := by
              rw [hpos]
              exact List.mem_cons_self
            have hge := le_of_mem_positions hmem
            rw [hpre.1] at hge
            exact absurd hge (Nat.not_succ_le_self k)
        · intro hnil
          rw [hnil]
          exact List.nil_prefix
      rw [hempty, positions_eq_nil]
      constructor
      · intro hzero
        have hnone : ∀ p ∈ parts, p.2 = 0 := fun p hp => hzero p.2 (List.mem_map_of_mem hp)
        refine ⟨fun p hp hpos => absurd (hnone p hp) (Nat.ne_of_gt hpos), ?_⟩
        apply List.pairwise_of_forall_mem_list
        intro p _ p' hp' hpos
        exact absurd (hnone p' hp') (Nat.ne_of_gt hpos)
      · intro h x hx
        obtain ⟨p, hp, rfl⟩ := List.mem_map.mp hx
        by_contra hne
        have hfull := h.1 p hp (Nat.pos_of_ne_zero hne)
        dsimp only at hfull
        omega

/-! ## Answers of the host -/

/-- The length of each buffer that is not empty, with the answer to its write. -/
def answers (host : Host) (fd : BitVec 32) : Nat → List (Word × Word) →
    List (Nat × Except Errno Nat)
  | _, [] => []
  | i, v :: vs =>
    if v.2 = 0 then answers host fd (i + 1) vs
    else (v.2.toNat, host.write i fd v.2.toNat) :: answers host fd (i + 1) vs

/-- Length and bytes taken of the buffers before the first error. -/
def taken : List (Nat × Except Errno Nat) → List (Nat × Nat)
  | (len, .ok n) :: rs => (len, n) :: taken rs
  | _ => []

def firstError : List (Nat × Except Errno Nat) → Option Errno
  | [] => none
  | (_, .error e) :: _ => some e
  | (_, .ok _) :: rs => firstError rs

/-- Before the first error, every buffer before one of which a byte is taken is taken completely;
and when there is an error, nothing is taken before it. -/
def PrefixAnswers (rs : List (Nat × Except Errno Nat)) : Prop :=
  ((taken rs).Pairwise fun p p' => 0 < p'.2 → p.2 = p.1) ∧
    ∀ e, firstError rs = some e → ∀ p ∈ taken rs, p.2 = 0

/-- The ranges that are taken. -/
def sentOf (host : Host) (fd : BitVec 32) : Nat → List (Word × Word) → List (Nat × Nat)
  | _, [] => []
  | i, v :: vs =>
    if v.2 = 0 then sentOf host fd (i + 1) vs
    else
      match host.write i fd v.2.toNat with
      | .error _ => []
      | .ok n => (v.1.toNat, n) :: sentOf host fd (i + 1) vs

/-- The result of the loop. -/
def resultOf (total : Word) (rs : List (Nat × Except Errno Nat)) : SyscallResult :=
  match firstError rs with
  | some e => .continue e.ret
  | none => .continue (total + BitVec.ofNat 64 ((taken rs).map Prod.snd).sum)

section

variable {host : Host} {fd : BitVec 32} {i : Nat}

theorem buffers_cons_empty {v : Word × Word} {vs : List (Word × Word)} (h : v.2 = 0) :
    buffers (v :: vs) = buffers vs := List.filter_cons_of_neg (by simpa using h)

theorem buffers_cons {v : Word × Word} {vs : List (Word × Word)} (h : v.2 ≠ 0) :
    buffers (v :: vs) = v :: buffers vs := List.filter_cons_of_pos (by simpa using h)

variable (host fd) in
/-- The ranges taken start at the first buffers, whose lengths stand beside what is taken. -/
theorem sentOf_spec (iovs : List (Word × Word)) :
    (sentOf host fd i iovs).map Prod.snd = (taken (answers host fd i iovs)).map Prod.snd ∧
      ((sentOf host fd i iovs).map Prod.fst <+: (buffers iovs).map fun v => v.1.toNat) ∧
      ∃ rest, (buffers iovs).map (fun v => v.2.toNat) =
        (taken (answers host fd i iovs)).map Prod.fst ++ rest := by
  induction iovs generalizing i with
  | nil => exact ⟨rfl, List.nil_prefix, [], rfl⟩
  | cons v vs ih =>
    obtain ⟨hsizes, hstarts, rest, hlens⟩ := ih (i := i + 1)
    unfold sentOf answers
    by_cases hempty : v.2 = 0
    · rw [if_pos hempty, if_pos hempty, buffers_cons_empty hempty]
      exact ⟨hsizes, hstarts, rest, hlens⟩
    · rw [if_neg hempty, if_neg hempty, buffers_cons hempty]
      cases host.write i fd v.2.toNat with
      | error e => exact ⟨rfl, List.nil_prefix, _, rfl⟩
      | ok n =>
        refine ⟨?_, ?_, rest, ?_⟩
        · show n :: _ = n :: _
          rw [hsizes]
        · exact List.cons_prefix_cons.mpr ⟨rfl, hstarts⟩
        · exact congrArg (v.2.toNat :: ·) hlens

variable (host fd) in
theorem taken_le (iovs : List (Word × Word)) :
    ∀ p ∈ taken (answers host fd i iovs), p.2 ≤ p.1 ∧ p.2 ≤ MAX_RW_COUNT := by
  induction iovs generalizing i with
  | nil =>
    intro p hp
    cases hp
  | cons v vs ih =>
    unfold answers
    by_cases hempty : v.2 = 0
    · rw [if_pos hempty]
      exact ih
    · rw [if_neg hempty]
      intro p hp
      cases hwrite : host.write i fd v.2.toNat with
      | error e =>
        rw [hwrite] at hp
        cases hp
      | ok n =>
        rw [hwrite] at hp
        cases List.mem_cons.mp hp with
        | inl heq =>
          subst heq
          exact host.write_le i fd v.2.toNat n hwrite
        | inr htail => exact ih p htail

variable (host fd) in
theorem taken_length (iovs : List (Word × Word)) :
    (taken (answers host fd i iovs)).length ≤ iovs.length := by
  induction iovs generalizing i with
  | nil => exact Nat.le_refl _
  | cons v vs ih =>
    unfold answers
    by_cases hempty : v.2 = 0
    · rw [if_pos hempty]
      exact Nat.le_succ_of_le ih
    · rw [if_neg hempty]
      cases host.write i fd v.2.toNat with
      | error e => exact Nat.zero_le _
      | ok n => exact Nat.succ_le_succ ih

/-! ## The run -/

theorem iovecsAt_congr {s s' : GuestSpace} (hmem : s'.mem = s.mem) (hprot : s'.prot = s.prot)
    {addr : Nat} {iovs : List (Word × Word)} (h : IovecsAt s addr iovs) :
    IovecsAt s' addr iovs := by
  induction iovs generalizing addr with
  | nil => exact h
  | cons v vs ih =>
    obtain ⟨hbase, hlen, hrest⟩ := h
    refine ⟨?_, ?_, ih hrest⟩
    · unfold ReadsWord GuestSpace.readable at hbase ⊢
      rw [hmem, hprot]
      exact hbase
    · unfold ReadsWord GuestSpace.readable at hlen ⊢
      rw [hmem, hprot]
      exact hlen

theorem iovecsAt_le {s : GuestSpace} {addr : Nat} {iovs : List (Word × Word)}
    (h : IovecsAt s addr iovs) : addr + 16 * iovs.length ≤ GUEST_SPACE_SIZE := by
  induction iovs generalizing addr with
  | nil => exact h
  | cons v vs ih =>
    have hrest := ih h.2.2
    rw [List.length_cons]
    omega

theorem run_readU64 {s : GuestSpace} {addr w : Word} (hin : addr.toNat < GUEST_SPACE_SIZE)
    (h : ReadsWord s addr.toNat w) :
    (readU64 addr).run s = (.ok w, s.log (.read addr.toNat 8)) := by
  have hread : (Guest.readHost addr.toNat 8 : Sys (List UInt8)).run s = _ :=
    run_readHost addr.toNat 8 s
  rw [if_pos h.1] at hread
  unfold readU64
  rw [Guest.run_bind_ok (run_g2h_ok s hin), Guest.run_bind_ok hread, h.2, BitVec.ofNat_toNat]
  simp

theorem sentRanges_append (events events' : List Event) :
    sentRanges (events ++ events') = sentRanges events ++ sentRanges events' :=
  List.filterMap_append

theorem sentRanges_noteIf (b : Bool) (s : GuestSpace) :
    sentRanges (noteIf b s).events = sentRanges s.events := by
  cases b with
  | false => rfl
  | true =>
    show sentRanges (s.events ++ [.wrapped]) = _
    rw [sentRanges_append]
    exact List.append_nil _

/-- The total so far goes in front of what is still taken. -/
theorem resultOf_cons (total : Word) (len n : Nat) (rs : List (Nat × Except Errno Nat)) :
    resultOf total ((len, .ok n) :: rs) = resultOf (total + BitVec.ofNat 64 n) rs := by
  unfold resultOf
  show (match firstError rs with | some e => _ | none => _) = _
  cases firstError rs with
  | some e => rfl
  | none =>
    show SyscallResult.continue (total + BitVec.ofNat 64 (n :: (taken rs).map Prod.snd).sum) = _
    rw [List.sum_cons, BitVec.ofNat_add, BitVec.add_assoc]

theorem resultOf_of_none {rs : List (Nat × Except Errno Nat)} (h : firstError rs = none) :
    resultOf 0 rs = .continue (BitVec.ofNat 64 ((taken rs).map Prod.snd).sum) := by
  unfold resultOf
  rw [h]
  simp

variable (host fd) in
theorem run_hostWrite (k ptr len : Nat) (s : GuestSpace) :
    (hostWrite host k fd ptr len).run s =
      (.ok (host.write k fd len), match host.write k fd len with
        | .error _ => s
        | .ok n => s.log (.sent ptr n)) := by
  unfold hostWrite
  cases host.write k fd len with
  | error e => rfl
  | ok n => rfl

variable (host fd) in
/-- The loop on an array of buffers that can be read. -/
theorem run_writevLoop (iovAddr total : Word) {iovs : List (Word × Word)} {s : GuestSpace}
    (hat : IovecsAt s (iovAddr.toNat + 16 * i) iovs)
    (hstart : ∀ v ∈ iovs, v.2 ≠ 0 → v.1.toNat < GUEST_SPACE_SIZE) :
    ∃ s', (writevLoop host fd iovAddr iovs.length i total).run s =
        (.ok (resultOf total (answers host fd i iovs)), s') ∧
      sentRanges s'.events = sentRanges s.events ++ sentOf host fd i iovs := by
  induction iovs generalizing i total s with
  | nil =>
    refine ⟨s, ?_, (List.append_nil _).symm⟩
    show (_, s) = _
    simp [resultOf, answers, firstError, taken]
  | cons v vs ih =>
    have hle := iovecsAt_le hat
    obtain ⟨hbase, hlen, hrest⟩ := hat
    rw [List.length_cons] at hle
    unfold GUEST_SPACE_SIZE at hle
    have hindex : (BitVec.ofNat 64 i : Word).toNat = i := by
      rw [BitVec.toNat_ofNat]
      exact Nat.mod_eq_of_lt (by omega)
    have hoffset : (BitVec.ofNat 64 i * 16 : Word).toNat = 16 * i := by
      rw [BitVec.toNat_mul, hindex]
      show i * 16 % 2 ^ 64 = _
      omega
    have hentry : (iovAddr + BitVec.ofNat 64 i * 16).toNat = iovAddr.toNat + 16 * i := by
      rw [BitVec.toNat_add, hoffset]
      exact Nat.mod_eq_of_lt (by omega)
    have hsecond : (iovAddr + BitVec.ofNat 64 i * 16 + 8).toNat = iovAddr.toNat + 16 * i + 8 := by
      rw [BitVec.toNat_add, hentry]
      exact Nat.mod_eq_of_lt (by show iovAddr.toNat + 16 * i + 8 < _; omega)
    -- Both words of the entry are read; nothing but the events changes.
    have hfirst := run_readU64 (by rw [hentry]; unfold GUEST_SPACE_SIZE; omega)
      (by rw [hentry]; exact hbase)
    have hnext := run_readU64 (s := s.log (.read (iovAddr + BitVec.ofNat 64 i * 16).toNat 8))
      (by rw [hsecond]; unfold GUEST_SPACE_SIZE; omega) (by rw [hsecond]; exact hlen)
    generalize hs₁ : s.log (.read (iovAddr + BitVec.ofNat 64 i * 16).toNat 8) = s₁ at hfirst hnext
    generalize hs₂ : s₁.log (.read (iovAddr + BitVec.ofNat 64 i * 16 + 8).toNat 8) = s₂ at hnext
    have hmem : s₂.mem = s.mem := by
      rw [← hs₂, ← hs₁]
      rfl
    have hprot : s₂.prot = s.prot := by
      rw [← hs₂, ← hs₁]
      rfl
    have hsent : sentRanges s₂.events = sentRanges s.events := by
      rw [← hs₂, ← hs₁]
      show sentRanges ((s.events ++ _) ++ _) = _
      rw [sentRanges_append, sentRanges_append]
      simp [sentRanges]
    have hrest₂ : IovecsAt s₂ (iovAddr.toNat + 16 * (i + 1)) vs := iovecsAt_congr hmem hprot hrest
    have hstart₂ : ∀ v ∈ vs, v.2 ≠ 0 → v.1.toNat < GUEST_SPACE_SIZE := fun v' hv' =>
      hstart v' (List.mem_cons_of_mem _ hv')
    show ∃ s', (writevLoop host fd iovAddr (vs.length + 1) i total).run s = _ ∧ _
    unfold writevLoop answers sentOf
    rw [Guest.run_bind_ok (run_mul_ok s (by rw [hindex]; show i * 16 < _; omega)),
      Guest.run_bind_ok (run_add_ok s (by rw [hoffset]; omega)), Guest.run_bind_ok hfirst,
      Guest.run_bind_ok (run_add_ok s₁ (by rw [hentry]; show _ + 8 < _; omega)),
      Guest.run_bind_ok hnext]
    by_cases hempty : v.2 = 0
    · rw [if_pos hempty, if_pos hempty, if_pos hempty, ← hsent]
      exact ih total hrest₂ hstart₂
    · rw [if_neg hempty, if_neg hempty, if_neg hempty,
        Guest.run_bind_ok (run_g2h_ok s₂ (hstart v List.mem_cons_self hempty)),
        Guest.run_bind_ok (run_hostWrite host fd i v.1.toNat v.2.toNat s₂)]
      cases host.write i fd v.2.toNat with
      | error e => exact ⟨s₂, rfl, hsent.trans (List.append_nil _).symm⟩
      | ok n =>
        dsimp only
        obtain ⟨b, hadd⟩ : ∃ b, (Guest.add total (BitVec.ofNat 64 n) : Sys Word).run
            (s₂.log (.sent v.1.toNat n)) = (.ok (total + BitVec.ofNat 64 n),
              noteIf b (s₂.log (.sent v.1.toNat n))) := ⟨_, run_add _ _ _⟩
        rw [Guest.run_bind_ok hadd]
        have hlog : IovecsAt (s₂.log (.sent v.1.toNat n)) (iovAddr.toNat + 16 * (i + 1)) vs :=
          by refine iovecsAt_congr ?_ ?_ hrest₂ <;> rfl
        obtain ⟨s', hrun, hevents⟩ := ih (total + BitVec.ofNat 64 n)
          (iovecsAt_congr (noteIf_mem b _) (noteIf_prot b _) hlog) hstart₂
        refine ⟨s', ?_, ?_⟩
        · rw [hrun, resultOf_cons]
        · rw [hevents, sentRanges_noteIf]
          show sentRanges (s₂.events ++ [.sent v.1.toNat n]) ++ _ = _
          rw [sentRanges_append, hsent, List.append_assoc]
          rfl

/-! ## Prefixes -/

theorem sum_le_of_taken {rs : List (Nat × Nat)} {m : Nat} (h : ∀ p ∈ rs, p.2 ≤ m) :
    (rs.map Prod.snd).sum ≤ rs.length * m := by
  induction rs with
  | nil => exact Nat.zero_le _
  | cons p rs ih =>
    have hhead := h p List.mem_cons_self
    have htail := ih fun p' hp' => h p' (List.mem_cons_of_mem _ hp')
    rw [List.map_cons, List.sum_cons, List.length_cons, Nat.succ_mul]
    omega

theorem sum_eq_zero {rs : List (Nat × Nat)} :
    (rs.map Prod.snd).sum = 0 ↔ ∀ p ∈ rs, p.2 = 0 := by
  induction rs with
  | nil => simp
  | cons p rs ih => rw [List.map_cons, List.sum_cons, Nat.add_eq_zero_iff, ih, List.forall_mem_cons]

theorem toNat_ret (e : Errno) : e.ret.toNat = 2 ^ 64 - e.val := by
  have hpos := e.pos
  have hsmall := e.small
  unfold Errno.ret
  rw [BitVec.toNat_neg, BitVec.toNat_ofNat]
  omega

/-- A vectored write of readable buffers returns, and what it takes is a prefix that it reports
exactly if the host answers accordingly. -/
theorem doWritev_prefix_iff (host : Host) (fd iovAddr iovcnt : Word) (iovs : List (Word × Word))
    (s : GuestSpace) (hcnt : iovcnt.toNat = iovs.length) (hat : IovecsAt s iovAddr.toNat iovs)
    (hstart : ∀ v ∈ iovs, v.2 ≠ 0 → v.1.toNat < GUEST_SPACE_SIZE) (hnew : s.events = []) :
    ∃ result s', (doWritev host fd iovAddr iovcnt).run s = (.ok result, s') ∧
      (WritesPrefix iovs (sentRanges s'.events) result ↔
        PrefixAnswers (answers host (fd.setWidth 32) 0 iovs)) := by
  obtain ⟨s', hrun, hevents⟩ := run_writevLoop host (fd.setWidth 32) (i := 0) iovAddr 0 hat hstart
  refine ⟨_, s', by unfold doWritev; rw [hcnt]; exact hrun, ?_⟩
  have hsent : sentRanges s'.events = sentOf host (fd.setWidth 32) 0 iovs := by
    rw [hevents, hnew]
    rfl
  obtain ⟨hsizes, hstarts, rest, hlens⟩ := sentOf_spec host (fd.setWidth 32) (i := 0) iovs
  have hle := taken_le host (fd.setWidth 32) (i := 0) iovs
  have hcount := taken_length host (fd.setWidth 32) (i := 0) iovs
  rw [← hsent] at hsizes hstarts
  generalize answers host (fd.setWidth 32) 0 iovs = rs at *
  have hprefix := positions_prefix_iff (fun p hp => (hle p hp).1) 0 rest
  rw [← hlens, ← hsizes] at hprefix
  have hlength : sentLength (sentRanges s'.events) = ((taken rs).map Prod.snd).sum := by
    unfold sentLength
    rw [hsizes]
  have hsmall : ((taken rs).map Prod.snd).sum < 2 ^ 63 := by
    have hsum := sum_le_of_taken fun p hp => (hle p hp).2
    have hspace := iovecsAt_le hat
    have hmul := Nat.mul_le_mul_right MAX_RW_COUNT hcount
    unfold MAX_RW_COUNT at hsum hmul
    unfold GUEST_SPACE_SIZE at hspace
    omega
  unfold PrefixAnswers
  rw [← hprefix]
  constructor
  · intro h
    refine ⟨h.prefix_, fun e herror => sum_eq_zero.mp ?_⟩
    rw [← hlength]
    apply h.errno e
    unfold resultOf
    rw [herror]
  · rintro ⟨hpre, hnone⟩
    refine ⟨hstarts, hpre, ?_, ?_⟩
    · intro hne
      rw [hlength] at hne ⊢
      cases herror : firstError rs with
      | some e => exact absurd (sum_eq_zero.mpr (hnone e herror)) hne
      | none => exact resultOf_of_none herror
    · intro e hresult
      rw [hlength]
      cases herror : firstError rs with
      | some e' => exact sum_eq_zero.mpr (hnone e' herror)
      | none =>
        -- A number of bytes is too small to be an error.
        rw [resultOf_of_none herror] at hresult
        injection hresult with hret
        have hval := congrArg BitVec.toNat hret
        rw [toNat_ret, BitVec.toNat_ofNat, Nat.mod_eq_of_lt (by omega)] at hval
        have herrno := e.small
        omega

/-! ## Two buffers of two bytes -/

def sampleIovs : List (Word × Word) := [(0x200, 2), (0x300, 2)]

/-- All memory can be read; the buffers are described at 0x100. -/
def sampleSpace : GuestSpace where
  mem := store (fun _ => 0) 0x100
    (toLeBytes 8 0x200 ++ toLeBytes 8 2 ++ toLeBytes 8 0x300 ++ toLeBytes 8 2)
  prot := fun _ => PROT_READ
  brk := 0
  events := []

/-- A host that takes as many bytes as it is given, and of the first buffer at most `first`. -/
def takingHost (first : Nat) : Host where
  write k _ len := .ok (min (if k = 0 then min first len else len) MAX_RW_COUNT)
  write_le k _ len n h := by
    cases h
    split
    · exact ⟨by omega, by omega⟩
    · exact ⟨by omega, by omega⟩
  mmap := true
  mprotect := true
  fstat _ := .error ⟨9, by decide, by decide⟩
  getrlimit _ := .error ⟨22, by decide, by decide⟩
  clockGettime _ := .error ⟨22, by decide, by decide⟩

theorem sample_readable (addr size : Nat) : sampleSpace.readable addr size = true := by
  unfold GuestSpace.readable
  rw [decide_eq_true_eq]
  intro _ _
  show PROT_READ &&& PROT_READ ≠ 0
  decide

theorem sample_iovecsAt : IovecsAt sampleSpace (0x100 : Word).toNat sampleIovs :=
  ⟨⟨sample_readable _ _, by decide⟩, ⟨sample_readable _ _, by decide⟩,
    ⟨sample_readable _ _, by decide⟩, ⟨sample_readable _ _, by decide⟩,
    show 0x120 ≤ GUEST_SPACE_SIZE by decide⟩

theorem sample_starts : ∀ v ∈ sampleIovs, v.2 ≠ 0 → v.1.toNat < GUEST_SPACE_SIZE := by
  intro v hv _
  have hlow : (sampleIovs.all fun v => v.1.toNat ≤ 0x300) = true := by decide
  have hle := of_decide_eq_true (List.all_eq_true.mp hlow v hv)
  unfold GUEST_SPACE_SIZE
  omega

/-- One byte of the first buffer is taken, and then the second buffer. -/
theorem short_write_goes_on : ¬ ∀ (host : Host) (fd iovAddr iovcnt : Word)
    (iovs : List (Word × Word)) (s : GuestSpace), iovcnt.toNat = iovs.length →
      IovecsAt s iovAddr.toNat iovs →
      (∀ v ∈ iovs, v.2 ≠ 0 → v.1.toNat < GUEST_SPACE_SIZE) → s.events = [] →
      ∀ result s', (doWritev host fd iovAddr iovcnt).run s = (.ok result, s') →
        WritesPrefix iovs (sentRanges s'.events) result := by
  intro hall
  obtain ⟨s', hrun, hevents⟩ := run_writevLoop (takingHost 1) ((1 : Word).setWidth 32) (i := 0)
    0x100 0 sample_iovecsAt sample_starts
  have hprefix := (hall (takingHost 1) 1 0x100 2 sampleIovs sampleSpace rfl sample_iovecsAt
    sample_starts rfl _ s' hrun).prefix_
  rw [hevents] at hprefix
  exact absurd hprefix (by decide)

/-- A host that takes everything. -/
theorem doWritev_prefix_iff_full : ∃ result s',
    (doWritev (takingHost 2) 1 0x100 2).run sampleSpace = (.ok result, s') ∧
      WritesPrefix sampleIovs (sentRanges s'.events) result := by
  obtain ⟨result, s', hrun, hiff⟩ := doWritev_prefix_iff (takingHost 2) 1 0x100 2 sampleIovs
    sampleSpace rfl sample_iovecsAt sample_starts rfl
  refine ⟨result, s', hrun, hiff.mpr ⟨?_, ?_⟩⟩
  · show List.Pairwise _ [(2, 2), (2, 2)]
    rw [List.pairwise_pair]
    intro _
    rfl
  · intro e herror
    cases herror

end

end TcgRs.Analysis.VectoredWrites
