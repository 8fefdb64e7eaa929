import TcgRs.Analysis.RegKept

/-!
# The output loop of the allocator

While the outputs of an op are given their registers one by one, the books disagree: an
output may have taken the register of a dead input that still names it, and an output that is
such an input itself may still be the recorded occupant of the register it left.  The
invariant of the loop says exactly which entries may disagree, so that after the last output
only the dead inputs do.
-/

set_option autoImplicit false

namespace TcgRs.Analysis.RegOutputs

open TcgRs.Model TcgRs.Model.Ir TcgRs.Model.X86 TcgRs.Model.RegAlloc TcgRs.Library
open RegBooks RegKept

/-- How the outputs of one op get their registers.  Output `k` is the temp `out k`.  It takes
the register `reg k` of the input `src k` (`takes`), or takes it after copying the input away
(`copies`), or is given a fresh register, which for some outputs can only be one register
(`pinned`). -/
structure Plan where
  n : Nat
  out : Nat → Nat
  src : Nat → Nat
  reg : Nat → Reg
  takes : Nat → Prop
  copies : Nat → Prop
  pinned : Nat → Reg → Prop

structure Plan.Valid (pl : Plan) : Prop where
  out_inj : ∀ i < pl.n, ∀ j < pl.n, pl.out i = pl.out j → i = j
  src_inj : ∀ i < pl.n, ∀ j < pl.n, pl.takes i ∨ pl.copies i → pl.takes j ∨ pl.copies j →
    pl.src i = pl.src j → i = j
  exclusive : ∀ i, pl.takes i → ¬ pl.copies i
  copies_not_out : ∀ j < pl.n, pl.copies j → ∀ i < pl.n, pl.out i ≠ pl.src j
  fresh_last : ∀ i < pl.n, ∀ j < pl.n, ¬ pl.takes i → ¬ pl.copies i →
    pl.takes j ∨ pl.copies j → j < i

/-- The register of a dead input that an output from `k` on will take. -/
def Plan.Pending (pl : Plan) (k : Nat) (r : Reg) : Prop :=
  ∃ j, k ≤ j ∧ j < pl.n ∧ pl.takes j ∧ pl.reg j = r

/-- The temp is a dead input whose register an output takes. -/
def Plan.Taken (pl : Plan) (t : Nat) : Prop := ∃ j < pl.n, pl.takes j ∧ pl.src j = t

/-- The books after the first `k` outputs. -/
structure OutputTable (pl : Plan) (k : Nat) (T : TwoWay Reg Nat) : Prop where
  place : ∀ t r, T.place t = some r → T.occupant r = some t ∨ pl.Taken t
  occupant : ∀ r t, T.occupant r = some t →
    T.place t = some r ∨ ((∃ j < k, pl.out j = t) ∧ pl.Pending k r)
  waiting : ∀ j, k ≤ j → j < pl.n → ∀ r, T.occupant r = some (pl.out j) →
    T.place (pl.out j) = some r ∧
      (pl.Pending k r ∨ (¬ pl.takes j ∧ ¬ pl.copies j ∧ pl.pinned j r))
  taken : ∀ j, k ≤ j → j < pl.n → pl.takes j → T.occupant (pl.reg j) = some (pl.src j)
  copied : ∀ j, k ≤ j → j < pl.n → pl.copies j →
    T.place (pl.src j) = some (pl.reg j) ∧ T.occupant (pl.reg j) = some (pl.src j)
  done : ∀ j < k, ∀ r, T.place (pl.out j) = some r →
    T.occupant r = some (pl.out j) ∧ ¬ pl.Pending k r

variable {pl : Plan} {k : Nat} {T : TwoWay Reg Nat}

theorem Plan.Pending.succ {r : Reg} (h : pl.Pending k r) (hne : pl.takes k → pl.reg k ≠ r) :
    pl.Pending (k + 1) r := by
  obtain ⟨j, hkj, hj, htakes, hreg⟩ := h
  refine ⟨j, ?_, hj, htakes, hreg⟩
  rcases Nat.lt_or_eq_of_le hkj with hlt | heq
  · exact hlt
  · subst heq
    exact absurd hreg (hne htakes)

theorem Plan.Pending.pred {r : Reg} (h : pl.Pending (k + 1) r) : pl.Pending k r := by
  obtain ⟨j, hkj, hj, hrest⟩ := h
  exact ⟨j, Nat.le_of_succ_le hkj, hj, hrest⟩

/-- Two outputs do not wait for one register. -/
theorem OutputTable.reg_inj (hv : pl.Valid) (hT : OutputTable pl k T) {i j : Nat}
    (hi : k ≤ i) (hin : i < pl.n) (hj : k ≤ j) (hjn : j < pl.n)
    (hti : pl.takes i ∨ pl.copies i) (htj : pl.takes j ∨ pl.copies j)
    (heq : pl.reg i = pl.reg j) : i = j := by
  have hocc : ∀ l, k ≤ l → l < pl.n → pl.takes l ∨ pl.copies l →
      T.occupant (pl.reg l) = some (pl.src l) := by
    intro l hl hln htl
    rcases htl with htl | htl
    · exact hT.taken l hl hln htl
    · exact (hT.copied l hl hln htl).2
  have hoi := hocc i hi hin hti
  rw [heq, hocc j hj hjn htj] at hoi
  injection hoi with hoi
  exact hv.src_inj i hin j hjn hti htj hoi.symm

/-- Output `k` takes the register of a dead input. -/
theorem OutputTable.take (hv : pl.Valid) (hT : OutputTable pl k T) (hk : k < pl.n)
    (htakes : pl.takes k) : OutputTable pl (k + 1) (T.put (pl.reg k) (pl.out k)) := by
  have hreg := hT.taken k (Nat.le_refl k) hk htakes
  -- What is pending after `k` is not the register `k` takes.
  have hpend : ∀ r, pl.Pending (k + 1) r → r ≠ pl.reg k := by
    rintro r ⟨j, hkj, hj, htj, rfl⟩ heq
    have := hT.reg_inj hv (Nat.le_of_succ_le hkj) hj (Nat.le_refl k) hk (Or.inl htj)
      (Or.inl htakes) heq
    omega
  have hsucc : ∀ r, pl.Pending k r → r ≠ pl.reg k → pl.Pending (k + 1) r :=
    fun r hr hne => hr.succ (fun _ heq => hne heq.symm)
  have hlater : ∀ j, k + 1 ≤ j → j < pl.n → pl.out j ≠ pl.out k := by
    intro j hkj hj heq
    have := hv.out_inj j hj k hk heq
    omega
  constructor
  · intro t r hplace
    rw [TwoWay.put_place] at hplace
    split at hplace
    · injection hplace with hplace
      left
      rw [TwoWay.put_occupant, if_pos hplace.symm]
      simp_all
    · rcases hT.place t r hplace with hocc | htaken
      · by_cases hr : r = pl.reg k
        · rw [hr, hreg] at hocc
          injection hocc with hocc
          exact Or.inr ⟨k, hk, htakes, hocc⟩
        · left
          rw [TwoWay.put_occupant, if_neg hr, hocc]
      · exact Or.inr htaken
  · intro r t hocc
    rw [TwoWay.put_occupant] at hocc
    split at hocc
    · rename_i hr
      injection hocc with hocc
      left
      rw [TwoWay.put_place, if_pos hocc.symm, hr]
    · rename_i hr
      by_cases ht : t = pl.out k
      · subst ht
        obtain ⟨-, hpinned⟩ := hT.waiting k (Nat.le_refl k) hk r hocc
        rcases hpinned with hp | hp
        · exact Or.inr ⟨⟨k, Nat.lt_succ_self k, rfl⟩, hsucc r hp hr⟩
        · exact absurd htakes hp.1
      · rcases hT.occupant r t hocc with hplace | ⟨⟨j, hj, hout⟩, hp⟩
        · left
          rw [TwoWay.put_place, if_neg ht, hplace]
        · exact Or.inr ⟨⟨j, Nat.lt_succ_of_lt hj, hout⟩, hsucc r hp hr⟩
  · intro j hkj hj r hocc
    rw [TwoWay.put_occupant] at hocc
    split at hocc
    · injection hocc with hocc
      exact absurd hocc.symm (hlater j hkj hj)
    · rename_i hr
      obtain ⟨hplace, hp⟩ := hT.waiting j (Nat.le_of_succ_le hkj) hj r hocc
      refine ⟨?_, hp.imp_left (fun hp => hsucc r hp hr)⟩
      rw [TwoWay.put_place, if_neg (hlater j hkj hj), hplace]
  · intro j hkj hj htj
    rw [TwoWay.put_occupant, if_neg (hpend _ ⟨j, hkj, hj, htj, rfl⟩)]
    exact hT.taken j (Nat.le_of_succ_le hkj) hj htj
  · intro j hkj hj hcj
    obtain ⟨hplace, hocc⟩ := hT.copied j (Nat.le_of_succ_le hkj) hj hcj
    have hne : pl.reg j ≠ pl.reg k := by
      intro heq
      have := hT.reg_inj hv (Nat.le_of_succ_le hkj) hj (Nat.le_refl k) hk (Or.inr hcj)
        (Or.inl htakes) heq
      omega
    rw [TwoWay.put_place, if_neg (hv.copies_not_out j hj hcj k hk).symm, TwoWay.put_occupant,
      if_neg hne]
    exact ⟨hplace, hocc⟩
  · intro j hj r hplace
    rw [TwoWay.put_place] at hplace
    split at hplace
    · rename_i hout
      injection hplace with hplace
      subst hplace
      refine ⟨?_, fun hp => hpend _ hp rfl⟩
      rw [TwoWay.put_occupant, if_pos rfl, hout]
    · rename_i hout
      have hjk : j < k := by
        rcases Nat.lt_or_eq_of_le (Nat.le_of_lt_succ hj) with hlt | heq
        · exact hlt
        · exact absurd (congrArg pl.out heq) hout
      obtain ⟨hocc, hnp⟩ := hT.done j hjk r hplace
      have hr : r ≠ pl.reg k := by
        intro hr
        exact hnp ⟨k, Nat.le_refl k, hk, htakes, hr.symm⟩
      refine ⟨?_, fun hp => hnp hp.pred⟩
      rw [TwoWay.put_occupant, if_neg hr, hocc]

/-- Evicting a register that no output waits for. -/
theorem OutputTable.evict {c : Reg} (hT : OutputTable pl k T)
    (hexact : ∀ t, T.occupant c = some t → T.place t = some c)
    (hfree : ∀ j, k ≤ j → j < pl.n → pl.takes j ∨ pl.copies j → pl.reg j ≠ c) :
    OutputTable pl k (T.evict c) := by
  have hocc' : ∀ {r t}, (T.evict c).occupant r = some t → r ≠ c ∧ T.occupant r = some t := by
    intro r t h
    rw [TwoWay.evict_occupant] at h
    split at h
    · cases h
    · rename_i hr
      exact ⟨hr, h⟩
  have hplace' : ∀ {t r}, (T.evict c).place t = some r → T.occupant c ≠ some t ∧ T.place t = some r := by
    intro t r h
    rw [TwoWay.evict_place] at h
    split at h
    · cases h
    · rename_i ht
      exact ⟨ht, h⟩
  -- A temp that is in another register stays there.
  have hstay : ∀ {t r}, r ≠ c → T.place t = some r → (T.evict c).place t = some r := by
    intro t r hr h
    rw [TwoWay.evict_place, if_neg, h]
    intro hc
    rw [hexact t hc] at h
    injection h with h
    exact hr h.symm
  constructor
  · intro t r h
    obtain ⟨hne, hplace⟩ := hplace' h
    refine (hT.place t r hplace).imp_left ?_
    intro hocc
    rw [TwoWay.evict_occupant, if_neg, hocc]
    intro hr
    exact hne (hr ▸ hocc)
  · intro r t h
    obtain ⟨hr, hocc⟩ := hocc' h
    exact (hT.occupant r t hocc).imp_left (hstay hr)
  · intro j hkj hj r h
    obtain ⟨hr, hocc⟩ := hocc' h
    obtain ⟨hplace, hp⟩ := hT.waiting j hkj hj r hocc
    exact ⟨hstay hr hplace, hp⟩
  · intro j hkj hj htj
    rw [TwoWay.evict_occupant, if_neg (hfree j hkj hj (Or.inl htj))]
    exact hT.taken j hkj hj htj
  · intro j hkj hj hcj
    obtain ⟨hplace, hocc⟩ := hT.copied j hkj hj hcj
    have hne := hfree j hkj hj (Or.inr hcj)
    rw [TwoWay.evict_occupant, if_neg hne]
    exact ⟨hstay hne hplace, hocc⟩
  · intro j hj r h
    obtain ⟨hne, hplace⟩ := hplace' h
    obtain ⟨hocc, hnp⟩ := hT.done j hj r hplace
    refine ⟨?_, hnp⟩
    rw [TwoWay.evict_occupant, if_neg, hocc]
    intro hr
    exact hne (hr ▸ hocc)

/-- Output `k` takes the register of an input that was copied to `c`. -/
theorem OutputTable.copy {c : Reg} (hv : pl.Valid) (hT : OutputTable pl k T) (hk : k < pl.n)
    (hcopies : pl.copies k) (hc : T.occupant c = none) :
    OutputTable pl (k + 1) ((T.put c (pl.src k)).put (pl.reg k) (pl.out k)) := by
  obtain ⟨hsrc, hreg⟩ := hT.copied k (Nat.le_refl k) hk hcopies
  have hcr : c ≠ pl.reg k := by
    intro heq
    rw [heq, hreg] at hc
    cases hc
  have hnout : ∀ i < pl.n, pl.out i ≠ pl.src k := hv.copies_not_out k hk hcopies
  have hpend : ∀ r, pl.Pending k r → pl.Pending (k + 1) r :=
    fun r hr => hr.succ (fun htakes => absurd hcopies (hv.exclusive k htakes))
  have hpne : ∀ r, pl.Pending k r → r ≠ pl.reg k ∧ r ≠ c := by
    rintro r ⟨j, hkj, hj, htj, rfl⟩
    refine ⟨?_, ?_⟩
    · intro heq
      have hjk := hT.reg_inj hv hkj hj (Nat.le_refl k) hk (Or.inl htj) (Or.inr hcopies) heq
      subst hjk
      exact hv.exclusive j htj hcopies
    · intro heq
      rw [← heq, hT.taken j hkj hj htj] at hc
      cases hc
  have hlater : ∀ j, k + 1 ≤ j → j < pl.n → pl.out j ≠ pl.out k := by
    intro j hkj hj heq
    have := hv.out_inj j hj k hk heq
    omega
  have hoccupant : ∀ r, ((T.put c (pl.src k)).put (pl.reg k) (pl.out k)).occupant r =
      if r = pl.reg k then some (pl.out k) else if r = c then some (pl.src k) else T.occupant r :=
    fun _ => rfl
  have hplaces : ∀ t, ((T.put c (pl.src k)).put (pl.reg k) (pl.out k)).place t =
      if t = pl.out k then some (pl.reg k) else if t = pl.src k then some c else T.place t :=
    fun _ => rfl
  -- The input is recorded in the one register it leaves.
  have honly : ∀ r, T.occupant r = some (pl.src k) → r = pl.reg k := by
    intro r hocc
    rcases hT.occupant r _ hocc with hplace | ⟨⟨j, hj, hout⟩, -⟩
    · rw [hsrc] at hplace
      injection hplace with hplace
      exact hplace.symm
    · exact absurd hout (hnout j (Nat.lt_trans hj hk))
  constructor
  · intro t r hplace
    rw [hplaces] at hplace
    split at hplace
    · rename_i ht
      injection hplace with hplace
      left
      rw [hoccupant, if_pos hplace.symm, ht]
    · split at hplace
      · rename_i ht
        injection hplace with hplace
        left
        rw [hoccupant, if_neg (hplace ▸ hcr), if_pos hplace.symm, ht]
      · rename_i ht
        refine (hT.place t r hplace).imp_left ?_
        intro hocc
        have hr : r ≠ pl.reg k := by
          intro hr
          rw [hr, hreg] at hocc
          injection hocc with hocc
          exact ht hocc.symm
        have hr' : r ≠ c := by
          intro hr'
          rw [hr', hc] at hocc
          cases hocc
        rw [hoccupant, if_neg hr, if_neg hr', hocc]
  · intro r t hocc
    rw [hoccupant] at hocc
    split at hocc
    · rename_i hr
      injection hocc with hocc
      left
      rw [hplaces, if_pos hocc.symm, hr]
    · rename_i hr
      split at hocc
      · rename_i hr'
        injection hocc with hocc
        left
        rw [hplaces, if_neg, if_pos hocc.symm, hr']
        intro ht
        exact hnout k hk (ht.symm.trans hocc.symm)
      · by_cases ht : t = pl.out k
        · subst ht
          obtain ⟨-, hpinned⟩ := hT.waiting k (Nat.le_refl k) hk r hocc
          rcases hpinned with hp | hp
          · exact Or.inr ⟨⟨k, Nat.lt_succ_self k, rfl⟩, hpend r hp⟩
          · exact absurd hcopies hp.2.1
        · rcases hT.occupant r t hocc with hplace | ⟨⟨j, hj, hout⟩, hp⟩
          · left
            rw [hplaces, if_neg ht, if_neg, hplace]
            intro hts
            exact hr (honly r (hts ▸ hocc))
          · exact Or.inr ⟨⟨j, Nat.lt_succ_of_lt hj, hout⟩, hpend r hp⟩
  · intro j hkj hj r hocc
    rw [hoccupant] at hocc
    split at hocc
    · injection hocc with hocc
      exact absurd hocc.symm (hlater j hkj hj)
    · split at hocc
      · injection hocc with hocc
        exact absurd hocc.symm (hnout j hj)
      · obtain ⟨hplace, hp⟩ := hT.waiting j (Nat.le_of_succ_le hkj) hj r hocc
        refine ⟨?_, hp.imp_left (hpend r)⟩
        rw [hplaces, if_neg (hlater j hkj hj), if_neg (hnout j hj), hplace]
  · intro j hkj hj htj
    obtain ⟨hr, hr'⟩ := hpne (pl.reg j) ⟨j, Nat.le_of_succ_le hkj, hj, htj, rfl⟩
    rw [hoccupant, if_neg hr, if_neg hr']
    exact hT.taken j (Nat.le_of_succ_le hkj) hj htj
  · intro j hkj hj hcj
    obtain ⟨hplace, hocc⟩ := hT.copied j (Nat.le_of_succ_le hkj) hj hcj
    have hne : pl.reg j ≠ pl.reg k := by
      intro heq
      have := hT.reg_inj hv (Nat.le_of_succ_le hkj) hj (Nat.le_refl k) hk (Or.inr hcj)
        (Or.inr hcopies) heq
      omega
    have hne' : pl.reg j ≠ c := by
      intro heq
      rw [heq, hc] at hocc
      cases hocc
    have hsne : pl.src j ≠ pl.src k := by
      intro heq
      have := hv.src_inj j hj k hk (Or.inr hcj) (Or.inr hcopies) heq
      omega
    rw [hplaces, if_neg (hv.copies_not_out j hj hcj k hk).symm, if_neg hsne, hoccupant,
      if_neg hne, if_neg hne']
    exact ⟨hplace, hocc⟩
  · intro j hj r hplace
    rw [hplaces] at hplace
    split at hplace
    · rename_i hout
      injection hplace with hplace
      subst hplace
      refine ⟨?_, fun hp => (hpne _ hp.pred).1 rfl⟩
      rw [hoccupant, if_pos rfl, hout]
    · rename_i hout
      have hjk : j < k := by
        rcases Nat.lt_or_eq_of_le (Nat.le_of_lt_succ hj) with hlt | heq
        · exact hlt
        · exact absurd (congrArg pl.out heq) hout
      rw [if_neg (hnout j (Nat.lt_trans hjk hk))] at hplace
      obtain ⟨hocc, hnp⟩ := hT.done j hjk r hplace
      refine ⟨?_, fun hp => hnp hp.pred⟩
      have hr : r ≠ pl.reg k := by
        intro hr
        rw [hr, hreg] at hocc
        injection hocc with hocc
        exact hnout j (Nat.lt_trans hjk hk) hocc.symm
      have hr' : r ≠ c := by
        intro hr'
        rw [hr', hc] at hocc
        cases hocc
      rw [hoccupant, if_neg hr, if_neg hr', hocc]

/-- Output `k` gets a fresh register. -/
theorem OutputTable.fresh {r : Reg} (hv : pl.Valid) (hT : OutputTable pl k T) (hk : k < pl.n)
    (htakes : ¬ pl.takes k) (hcopies : ¬ pl.copies k) (hr : T.occupant r = none)
    (hpinned : ∀ r', pl.pinned k r' → r' = r) : OutputTable pl (k + 1) (T.put r (pl.out k)) := by
  have hnone : ∀ a, ¬ pl.Pending k a := by
    rintro a ⟨j, hkj, hj, htj, -⟩
    have := hv.fresh_last k hk j hj htakes hcopies (Or.inl htj)
    omega
  have hunused : ∀ a, T.occupant a ≠ some (pl.out k) := by
    intro a ha
    rcases (hT.waiting k (Nat.le_refl k) hk a ha).2 with hp | ⟨-, -, hp⟩
    · exact hnone a hp
    · rw [hpinned a hp, hr] at ha
      cases ha
  have hlater : ∀ j, k + 1 ≤ j → j < pl.n → pl.out j ≠ pl.out k := by
    intro j hkj hj heq
    have := hv.out_inj j hj k hk heq
    omega
  have hbefore : ∀ j, k + 1 ≤ j → j < pl.n → ¬ (pl.takes j ∨ pl.copies j) := by
    intro j hkj hj htj
    have := hv.fresh_last k hk j hj htakes hcopies htj
    omega
  constructor
  · intro t a hplace
    rw [TwoWay.put_place] at hplace
    split at hplace
    · rename_i ht
      injection hplace with hplace
      left
      rw [TwoWay.put_occupant, if_pos hplace.symm, ht]
    · refine (hT.place t a hplace).imp_left ?_
      intro hocc
      rw [TwoWay.put_occupant, if_neg, hocc]
      intro ha
      rw [ha, hr] at hocc
      cases hocc
  · intro a t hocc
    left
    rw [TwoWay.put_occupant] at hocc
    split at hocc
    · rename_i ha
      injection hocc with hocc
      rw [TwoWay.put_place, if_pos hocc.symm, ha]
    · rcases hT.occupant a t hocc with hplace | ⟨-, hp⟩
      · rw [TwoWay.put_place, if_neg, hplace]
        intro ht
        exact hunused a (ht ▸ hocc)
      · exact absurd hp (hnone a)
  · intro j hkj hj a hocc
    rw [TwoWay.put_occupant] at hocc
    split at hocc
    · injection hocc with hocc
      exact absurd hocc.symm (hlater j hkj hj)
    · obtain ⟨hplace, hp⟩ := hT.waiting j (Nat.le_of_succ_le hkj) hj a hocc
      refine ⟨?_, hp.imp_left (fun hp => absurd hp (hnone a))⟩
      rw [TwoWay.put_place, if_neg (hlater j hkj hj), hplace]
  · intro j hkj hj htj
    exact absurd (Or.inl htj) (hbefore j hkj hj)
  · intro j hkj hj hcj
    exact absurd (Or.inr hcj) (hbefore j hkj hj)
  · intro j hj a hplace
    refine ⟨?_, fun hp => hnone a hp.pred⟩
    rw [TwoWay.put_place] at hplace
    split at hplace
    · rename_i hout
      injection hplace with hplace
      rw [TwoWay.put_occupant, if_pos hplace.symm, hout]
    · rename_i hout
      have hjk : j < k := by
        rcases Nat.lt_or_eq_of_le (Nat.le_of_lt_succ hj) with hlt | heq
        · exact hlt
        · exact absurd (congrArg pl.out heq) hout
      obtain ⟨hocc, -⟩ := hT.done j hjk a hplace
      rw [TwoWay.put_occupant, if_neg, hocc]
      intro ha
      rw [ha, hr] at hocc
      cases hocc

end TcgRs.Analysis.RegOutputs
