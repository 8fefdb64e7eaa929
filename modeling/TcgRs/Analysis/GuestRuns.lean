import TcgRs.Model.Linux.GuestSpace

/-!
# Runs on the guest space

What each primitive does, and what holds of every computation made of them: events are only
added, so an event that must not happen cannot be taken back later.
-/

set_option autoImplicit false

namespace TcgRs.Analysis.GuestRuns

open TcgRs.Model.Linux TcgRs.Library.ByteMemory

variable {ε α β : Type}

/-! ## Rounding to pages -/

/-- Clearing the low bits rounds down. -/
theorem toNat_and_not_mask (x : Word) (k : Nat) :
    (x &&& ~~~(BitVec.ofNat 64 (2 ^ k - 1))).toNat = x.toNat / 2 ^ k * 2 ^ k := by
  have hshift : x &&& ~~~(BitVec.ofNat 64 (2 ^ k - 1)) = x >>> k <<< k := by
    apply BitVec.eq_of_getLsbD_eq
    intro i hi
    have hmask : (BitVec.ofNat 64 (2 ^ k - 1)).getLsbD i = decide (i < k) := by
      rw [BitVec.getLsbD_ofNat, Nat.testBit_two_pow_sub_one]
      simp [hi]
    rw [BitVec.getLsbD_and, BitVec.getLsbD_not, hmask, BitVec.getLsbD_shiftLeft,
      BitVec.getLsbD_ushiftRight]
    by_cases hlt : i < k
    · simp [hlt]
    · have hback : k + (i - k) = i := by omega
      simp [hlt, hi, hback]
  rw [hshift, BitVec.toNat_shiftLeft, BitVec.toNat_ushiftRight, Nat.shiftRight_eq_div_pow,
    Nat.shiftLeft_eq]
  apply Nat.mod_eq_of_lt
  exact Nat.lt_of_le_of_lt (Nat.div_mul_le_self _ _) x.isLt

/-- Rounding down and up to a page. -/
def down (n : Nat) : Nat := n / 4096 * 4096

def up (n : Nat) : Nat := (n + 4095) / 4096 * 4096

theorem toNat_pageAlignDown (x : Word) : (pageAlignDown x).toNat = down x.toNat :=
  toNat_and_not_mask x 12

/-- The result of `page_align_up`. -/
def alignedUp (x : Word) : Word := pageAlignDown (x + BitVec.ofNat 64 PAGE_SIZE - 1)

theorem toNat_alignedUp (x : Word) : (alignedUp x).toNat = down ((x.toNat + 4095) % 2 ^ 64) := by
  unfold alignedUp
  have hsum : x + BitVec.ofNat 64 PAGE_SIZE - 1 = x + 4095#64 := by
    unfold PAGE_SIZE
    bv_omega
  rw [toNat_pageAlignDown, hsum, BitVec.toNat_add, BitVec.toNat_ofNat]

theorem toNat_alignedUp_of_lt {x : Word} (h : x.toNat + 4095 < 2 ^ 64) :
    (alignedUp x).toNat = up x.toNat := by
  have hdown : down (x.toNat + 4095) = up x.toNat := by
    unfold down up
    rfl
  rw [toNat_alignedUp, Nat.mod_eq_of_lt h, hdown]

/-- The rounding of a length by the host. -/
theorem round_eq_up (n : Nat) : (n + PAGE_SIZE - 1) / PAGE_SIZE * PAGE_SIZE = up n := by
  unfold up PAGE_SIZE
  rw [Nat.add_sub_assoc (by decide)]

/-! ## Primitives -/

/-- The space with an overflow written down, if there was one. -/
def noteIf (b : Bool) (s : GuestSpace) : GuestSpace := if b then s.log .wrapped else s

@[simp] theorem noteIf_mem (b : Bool) (s : GuestSpace) : (noteIf b s).mem = s.mem := by
  cases b <;> rfl

@[simp] theorem noteIf_prot (b : Bool) (s : GuestSpace) : (noteIf b s).prot = s.prot := by
  cases b <;> rfl

@[simp] theorem noteIf_brk (b : Bool) (s : GuestSpace) : (noteIf b s).brk = s.brk := by
  cases b <;> rfl

theorem run_add (a b : Word) (s : GuestSpace) : (Guest.add a b : Guest ε Word).run s =
    (.ok (a + b), noteIf (decide (2 ^ 64 ≤ a.toNat + b.toNat)) s) := rfl

theorem run_sub (a b : Word) (s : GuestSpace) : (Guest.sub a b : Guest ε Word).run s =
    (.ok (a - b), noteIf (decide (a.toNat < b.toNat)) s) := rfl

theorem run_mul (a b : Word) (s : GuestSpace) : (Guest.mul a b : Guest ε Word).run s =
    (.ok (a * b), noteIf (decide (2 ^ 64 ≤ a.toNat * b.toNat)) s) := rfl

/-- An addition that does not overflow leaves no trace. -/
theorem run_add_ok {a b : Word} (s : GuestSpace) (h : a.toNat + b.toNat < 2 ^ 64) :
    (Guest.add a b : Guest ε Word).run s = (.ok (a + b), s) := by
  rw [run_add, decide_eq_false (Nat.not_le.mpr h)]
  rfl

theorem run_mul_ok {a b : Word} (s : GuestSpace) (h : a.toNat * b.toNat < 2 ^ 64) :
    (Guest.mul a b : Guest ε Word).run s = (.ok (a * b), s) := by
  rw [run_mul, decide_eq_false (Nat.not_le.mpr h)]
  rfl

theorem run_sub_ok {a b : Word} (s : GuestSpace) (h : b.toNat ≤ a.toNat) :
    (Guest.sub a b : Guest ε Word).run s = (.ok (a - b), s) := by
  rw [run_sub, decide_eq_false (Nat.not_lt.mpr h)]
  rfl

theorem run_pageAlignUp_ok {x : Word} (s : GuestSpace) (h : x.toNat + 4096 < 2 ^ 64) :
    (pageAlignUp x : Guest ε Word).run s = (.ok (alignedUp x), s) := by
  have hsum : (x + BitVec.ofNat 64 PAGE_SIZE).toNat = x.toNat + 4096 := by
    rw [BitVec.toNat_add]
    exact Nat.mod_eq_of_lt h
  unfold pageAlignUp
  rw [Guest.run_bind_ok (run_add_ok s h), Guest.run_bind_ok (run_sub_ok s ?_)]
  · rfl
  · rw [hsum]
    show 1 ≤ _
    omega

/-- In any case the result is the rounded word, and nothing but the events changes. -/
theorem run_pageAlignUp (x : Word) (s : GuestSpace) :
    ∃ b b', (pageAlignUp x : Guest ε Word).run s = (.ok (alignedUp x), noteIf b (noteIf b' s)) :=
  ⟨_, _, rfl⟩

theorem run_g2h_ok {a : Word} (s : GuestSpace) (h : a.toNat < GUEST_SPACE_SIZE) :
    (Guest.g2h a : Guest ε Nat).run s = (.ok a.toNat, s) := by
  unfold Guest.g2h
  rw [if_pos h]
  rfl

theorem run_g2h_panic {a : Word} (s : GuestSpace) (h : ¬ a.toNat < GUEST_SPACE_SIZE) :
    (Guest.g2h a : Guest ε Nat).run s = (.error (.panic .guestAddr), s) := by
  unfold Guest.g2h
  rw [if_neg h]
  rfl

/-- The host maps the region. -/
def mapAccepted (answer : Bool) (guestAddr size : Word) : Bool :=
  answer && decide (size ≠ 0) && decide (guestAddr.toNat % PAGE_SIZE = 0) &&
    decide (size.toNat ≤ MAX_MAPPING)

/-- The host changes the protection. -/
def protectAccepted (answer : Bool) (guestAddr size : Word) : Bool :=
  answer && decide (guestAddr.toNat % PAGE_SIZE = 0) && decide (size.toNat ≤ MAX_MAPPING)

theorem run_mmapFixed {answer : Bool} {a size : Word} {prot : BitVec 32} (s : GuestSpace)
    (h : a.toNat < GUEST_SPACE_SIZE) :
    (Guest.mmapFixed answer a size prot : Guest ε Bool).run s =
      if mapAccepted answer a size then (.ok true, s.map a.toNat (up size.toNat) prot)
      else (.ok false, s) := by
  unfold Guest.mmapFixed
  rw [Guest.run_bind_ok (run_g2h_ok s h)]
  show (if mapAccepted answer a size then _ else _ : Guest ε Bool).run s = _
  split
  · rfl
  · rfl

theorem run_mmapFixed_panic {answer : Bool} {a size : Word} {prot : BitVec 32} (s : GuestSpace)
    (h : ¬ a.toNat < GUEST_SPACE_SIZE) :
    (Guest.mmapFixed answer a size prot : Guest ε Bool).run s =
      (.error (.panic .guestAddr), s) := by
  unfold Guest.mmapFixed
  rw [Guest.run_bind_error (run_g2h_panic s h)]

theorem run_mprotect {answer : Bool} {a size : Word} {prot : BitVec 32} (s : GuestSpace)
    (h : a.toNat < GUEST_SPACE_SIZE) :
    (Guest.mprotect answer a size prot : Guest ε Bool).run s =
      if protectAccepted answer a size then (.ok true, s.protect a.toNat (up size.toNat) prot)
      else (.ok false, s) := by
  unfold Guest.mprotect
  rw [Guest.run_bind_ok (run_g2h_ok s h)]
  show (if protectAccepted answer a size then _ else _ : Guest ε Bool).run s = _
  split
  · rfl
  · rfl

theorem run_mprotect_panic {answer : Bool} {a size : Word} {prot : BitVec 32} (s : GuestSpace)
    (h : ¬ a.toNat < GUEST_SPACE_SIZE) :
    (Guest.mprotect answer a size prot : Guest ε Bool).run s =
      (.error (.panic .guestAddr), s) := by
  unfold Guest.mprotect
  rw [Guest.run_bind_error (run_g2h_panic s h)]

theorem run_writeHost (host : Nat) (data : List UInt8) (s : GuestSpace) :
    (Guest.writeHost host data : Guest ε Unit).run s =
      if s.writable host data.length then (.ok (), s.write host data)
      else (.error (.panic .segv), s) := by
  unfold Guest.writeHost
  rw [Guest.run_bind_ok (Guest.run_get s)]
  split
  · rfl
  · rfl

theorem run_readHost (host size : Nat) (s : GuestSpace) :
    (Guest.readHost host size : Guest ε (List UInt8)).run s =
      if s.readable host size then (.ok (load s.mem host size), s.log (.read host size))
      else (.error (.panic .segv), s) := by
  unfold Guest.readHost
  rw [Guest.run_bind_ok (Guest.run_get s)]
  split
  · rfl
  · rfl

theorem run_writeBytes {a : Word} (data : List UInt8) (s : GuestSpace)
    (h : a.toNat < GUEST_SPACE_SIZE) : (Guest.writeBytes a data : Guest ε Unit).run s =
      if s.writable a.toNat data.length then (.ok (), s.write a.toNat data)
      else (.error (.panic .segv), s) := by
  unfold Guest.writeBytes
  rw [Guest.run_bind_ok (run_g2h_ok s h), run_writeHost]

theorem run_writeBytes_panic {a : Word} (data : List UInt8) (s : GuestSpace)
    (h : ¬ a.toNat < GUEST_SPACE_SIZE) : (Guest.writeBytes a data : Guest ε Unit).run s =
      (.error (.panic .guestAddr), s) := by
  unfold Guest.writeBytes
  rw [Guest.run_bind_error (run_g2h_panic s h)]

/-! ## Events are only added -/

/-- The computation only adds events. -/
def Appends (x : Guest ε α) : Prop := ∀ s, s.events <+: (x.run s).2.events

theorem Appends.pure (a : α) : Appends (pure a : Guest ε α) := fun _ => List.prefix_rfl

theorem Appends.stop (e : Stop ε) : Appends (Guest.stop e : Guest ε α) := fun _ => List.prefix_rfl

theorem Appends.get : Appends (Guest.get : Guest ε GuestSpace) := fun _ => List.prefix_rfl

theorem Appends.modify {f : GuestSpace → GuestSpace} (h : ∀ s, s.events <+: (f s).events) :
    Appends (Guest.modify f : Guest ε Unit) := h

theorem Appends.bind {x : Guest ε α} {f : α → Guest ε β} (hx : Appends x)
    (hf : ∀ a, Appends (f a)) : Appends (x >>= f) := by
  intro s
  rw [Guest.run_bind]
  have hpre := hx s
  cases hrun : x.run s with
  | mk r s' =>
    rw [hrun] at hpre
    cases r with
    | ok a => exact hpre.trans (hf a s')
    | error e => exact hpre

theorem Appends.ite {c : Prop} [Decidable c] {x y : Guest ε α} (hx : Appends x)
    (hy : Appends y) : Appends (if c then x else y) := by
  split
  · exact hx
  · exact hy

theorem Appends.wrapIf (b : Bool) : Appends (Guest.wrapIf b : Guest ε Unit) := by
  intro s
  cases b with
  | false => exact List.prefix_rfl
  | true => exact List.prefix_append _ _

theorem Appends.add (a b : Word) : Appends (Guest.add a b : Guest ε Word) :=
  (Appends.wrapIf _).bind fun _ => .pure _

theorem Appends.sub (a b : Word) : Appends (Guest.sub a b : Guest ε Word) :=
  (Appends.wrapIf _).bind fun _ => .pure _

theorem Appends.mul (a b : Word) : Appends (Guest.mul a b : Guest ε Word) :=
  (Appends.wrapIf _).bind fun _ => .pure _

theorem Appends.pageAlignUp (x : Word) : Appends (pageAlignUp x : Guest ε Word) :=
  (Appends.add _ _).bind fun _ => (Appends.sub _ _).bind fun _ => .pure _

theorem Appends.g2h (a : Word) : Appends (Guest.g2h a : Guest ε Nat) :=
  .ite (.pure _) (.stop _)

theorem Appends.mmapFixed (answer : Bool) (a size : Word) (prot : BitVec 32) :
    Appends (Guest.mmapFixed answer a size prot : Guest ε Bool) :=
  (Appends.g2h a).bind fun _ => .ite
    ((Appends.modify fun _ => List.prefix_append _ _).bind fun _ => .pure _) (.pure _)

theorem Appends.mprotect (answer : Bool) (a size : Word) (prot : BitVec 32) :
    Appends (Guest.mprotect answer a size prot : Guest ε Bool) :=
  (Appends.g2h a).bind fun _ => .ite
    ((Appends.modify fun _ => List.prefix_append _ _).bind fun _ => .pure _) (.pure _)

theorem Appends.writeHost (host : Nat) (data : List UInt8) :
    Appends (Guest.writeHost host data : Guest ε Unit) :=
  Appends.get.bind fun _ => .ite (.modify fun _ => List.prefix_append _ _) (.stop _)

theorem Appends.readHost (host size : Nat) :
    Appends (Guest.readHost host size : Guest ε (List UInt8)) :=
  Appends.get.bind fun _ => .ite
    ((Appends.modify fun _ => List.prefix_append _ _).bind fun _ => .pure _) (.stop _)

theorem Appends.writeBytes (a : Word) (data : List UInt8) :
    Appends (Guest.writeBytes a data : Guest ε Unit) :=
  (Appends.g2h a).bind fun dst => .writeHost dst data

/-! ## Clean runs -/

section

variable (G : Event → Prop)

/-- All events are of the permitted kind. -/
def AllGood (s : GuestSpace) : Prop := ∀ e ∈ s.events, G e

/-- The run does not panic, and all its events are of the permitted kind. -/
def Clean (r : Except (Stop ε) α × GuestSpace) : Prop :=
  (∀ f, r.1 ≠ .error (.panic f)) ∧ AllGood G r.2

variable {G}

theorem Clean.of_ok {a : α} {s : GuestSpace} (h : AllGood G s) :
    Clean G ((.ok a, s) : Except (Stop ε) α × GuestSpace) := ⟨fun _ => nofun, h⟩

theorem Clean.of_error {e : ε} {s : GuestSpace} (h : AllGood G s) :
    Clean G ((.error (.error e), s) : Except (Stop ε) α × GuestSpace) := ⟨fun _ => nofun, h⟩

theorem not_clean_panic {f : Fault} {s : GuestSpace} :
    ¬ Clean G ((.error (.panic f), s) : Except (Stop ε) α × GuestSpace) := fun h => h.1 f rfl

/-- One more event. -/
theorem allGood_append {s s' : GuestSpace} {e : Event} (h : s'.events = s.events ++ [e]) :
    AllGood G s' ↔ AllGood G s ∧ G e := by
  unfold AllGood
  simp only [h, List.mem_append, List.mem_singleton]
  constructor
  · intro h
    exact ⟨fun x hx => h x (.inl hx), h e (.inr rfl)⟩
  · intro h x hx
    cases hx with
    | inl hx => exact h.1 x hx
    | inr hx => exact hx ▸ h.2

/-- A sequence is clean exactly if its first part is, and what follows is when it is reached. -/
theorem clean_bind_iff {x : Guest ε α} {f : α → Guest ε β} (hf : ∀ a, Appends (f a))
    {s : GuestSpace} : Clean G ((x >>= f).run s) ↔
      Clean G (x.run s) ∧ ∀ a s', x.run s = (.ok a, s') → Clean G ((f a).run s') := by
  rw [Guest.run_bind]
  cases hrun : x.run s with
  | mk r s' =>
    cases r with
    | ok a =>
      dsimp only
      constructor
      · intro h
        refine ⟨.of_ok fun e he => h.2 e ((hf a s').subset he), ?_⟩
        intro a' s'' heq
        cases heq
        exact h
      · intro h
        exact h.2 a s' rfl
    | error e =>
      dsimp only
      constructor
      · intro h
        refine ⟨⟨?_, h.2⟩, ?_⟩
        · intro fault heq
          cases heq
          exact h.1 fault rfl
        · intro a s'' heq
          cases heq
      · intro h
        refine ⟨?_, h.1.2⟩
        intro fault heq
        cases heq
        exact h.1.1 fault rfl

theorem allGood_noteIf (hG : ¬ G .wrapped) {b : Bool} {s : GuestSpace} :
    AllGood G (noteIf b s) ↔ AllGood G s ∧ b = false := by
  cases b with
  | false => exact ⟨fun h => ⟨h, rfl⟩, fun h => h.1⟩
  | true =>
    constructor
    · intro h
      exact absurd ((allGood_append rfl).mp h).2 hG
    · intro h
      cases h.2

theorem clean_add_iff (hG : ¬ G .wrapped) {a b : Word} {s : GuestSpace} :
    Clean G ((Guest.add a b : Guest ε Word).run s) ↔
      AllGood G s ∧ a.toNat + b.toNat < 2 ^ 64 := by
  rw [run_add]
  have hiff : Clean G ((.ok (a + b), noteIf (decide (2 ^ 64 ≤ a.toNat + b.toNat)) s) :
      Except (Stop ε) Word × GuestSpace) ↔
        AllGood G (noteIf (decide (2 ^ 64 ≤ a.toNat + b.toNat)) s) :=
    ⟨fun h => h.2, fun h => .of_ok h⟩
  rw [hiff, allGood_noteIf hG, decide_eq_false_iff_not, Nat.not_le]

theorem clean_mul_iff (hG : ¬ G .wrapped) {a b : Word} {s : GuestSpace} :
    Clean G ((Guest.mul a b : Guest ε Word).run s) ↔
      AllGood G s ∧ a.toNat * b.toNat < 2 ^ 64 := by
  rw [run_mul]
  have hiff : Clean G ((.ok (a * b), noteIf (decide (2 ^ 64 ≤ a.toNat * b.toNat)) s) :
      Except (Stop ε) Word × GuestSpace) ↔
        AllGood G (noteIf (decide (2 ^ 64 ≤ a.toNat * b.toNat)) s) :=
    ⟨fun h => h.2, fun h => .of_ok h⟩
  rw [hiff, allGood_noteIf hG, decide_eq_false_iff_not, Nat.not_le]

theorem clean_pageAlignUp_iff (hG : ¬ G .wrapped) {x : Word} {s : GuestSpace} :
    Clean G ((pageAlignUp x : Guest ε Word).run s) ↔ AllGood G s ∧ x.toNat + 4096 < 2 ^ 64 := by
  constructor
  · intro h
    unfold pageAlignUp at h
    rw [clean_bind_iff fun _ => (Appends.sub _ _).bind fun _ => .pure _] at h
    exact (clean_add_iff hG).mp h.1
  · intro h
    rw [run_pageAlignUp_ok s h.2]
    exact .of_ok h.1

theorem clean_g2h_iff {a : Word} {s : GuestSpace} : Clean G ((Guest.g2h a : Guest ε Nat).run s) ↔
    AllGood G s ∧ a.toNat < GUEST_SPACE_SIZE := by
  by_cases hin : a.toNat < GUEST_SPACE_SIZE
  · rw [run_g2h_ok s hin]
    exact ⟨fun h => ⟨h.2, hin⟩, fun h => .of_ok h.1⟩
  · rw [run_g2h_panic s hin]
    exact ⟨fun h => absurd h not_clean_panic, fun h => absurd h.2 hin⟩

theorem clean_writeHost_iff {host : Nat} {data : List UInt8} {s : GuestSpace} :
    Clean G ((Guest.writeHost host data : Guest ε Unit).run s) ↔
      AllGood G s ∧ s.writable host data.length = true ∧ G (.written host data.length) := by
  rw [run_writeHost]
  by_cases hwrite : s.writable host data.length = true
  · rw [if_pos hwrite]
    constructor
    · intro h
      have hgood := (allGood_append rfl).mp h.2
      exact ⟨hgood.1, hwrite, hgood.2⟩
    · intro h
      exact .of_ok ((allGood_append rfl).mpr ⟨h.1, h.2.2⟩)
  · rw [if_neg hwrite]
    exact ⟨fun h => absurd h not_clean_panic, fun h => absurd h.2.1 hwrite⟩

theorem clean_readHost_iff {host size : Nat} {s : GuestSpace} :
    Clean G ((Guest.readHost host size : Guest ε (List UInt8)).run s) ↔
      AllGood G s ∧ s.readable host size = true ∧ G (.read host size) := by
  rw [run_readHost]
  by_cases hread : s.readable host size = true
  · rw [if_pos hread]
    constructor
    · intro h
      have hgood := (allGood_append rfl).mp h.2
      exact ⟨hgood.1, hread, hgood.2⟩
    · intro h
      exact .of_ok ((allGood_append rfl).mpr ⟨h.1, h.2.2⟩)
  · rw [if_neg hread]
    exact ⟨fun h => absurd h not_clean_panic, fun h => absurd h.2.1 hread⟩

/-- What was not permitted before stays. -/
theorem AllGood.of_clean {x : Guest ε α} (hx : Appends x) {s : GuestSpace}
    (h : Clean G (x.run s)) : AllGood G s :=
  fun e he => h.2 e ((hx s).subset he)

end

end TcgRs.Analysis.GuestRuns
