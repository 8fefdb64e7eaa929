import TcgRs.Analysis.RegOutputs

/-!
# The input loop of the allocator

The inputs of an op are loaded one by one, each into a register that no earlier input got.
The books agree all through the loop; what is tracked is that every loaded input stays in
one of the registers handed out, that a temp which is not an input can only lose its
register, and which Fixed temps have left their home.
-/

set_option autoImplicit false

namespace TcgRs.Analysis.RegInputs

open TcgRs.Model TcgRs.Model.Ir TcgRs.Model.X86 TcgRs.Model.RegAlloc TcgRs.Library
open RegBooks RegKept RegOutputs

/-- The temp at input `i`. -/
def inputOf (op : Op) (i : Nat) : Nat := op.args (op.opc.opDef.nbOargs + i)

/-- The registers that input `i` may use. -/
def inputRegs (op : Op) (ct : OpConstraint) (i : Nat) : RegSet :=
  (ct.args (op.opc.opDef.nbOargs + i)).regs

/-! ## The constraint table -/

/-- Input `i` can be loaded whatever registers the inputs before it got. -/
def fitsInput (op : Op) (ct : OpConstraint) (i : Nat) : Bool :=
  (elems (inputRegs op ct i)).all allocatableRegs.contains &&
    (decide (i < (elems (inputRegs op ct i)).length) ||
      (!(elems (inputRegs op ct i)).isEmpty &&
        (List.range i).all fun j =>
          (elems (inputRegs op ct i)).all fun r => !(inputRegs op ct j).contains r))

/-- The shape that every entry of the constraint table has: all inputs can be loaded, aliased
outputs name an input and come before the others, and there are fewer arguments than
registers. -/
def fits (op : Op) (ct : OpConstraint) : Bool :=
  (List.range op.opc.opDef.nbIargs).all (fitsInput op ct) &&
    (List.range op.opc.opDef.nbOargs).all (fun k =>
      !(ct.args k).oalias || decide ((ct.args k).aliasIndex < op.opc.opDef.nbIargs)) &&
    (List.range op.opc.opDef.nbOargs).all (fun i =>
      (List.range op.opc.opDef.nbOargs).all fun j =>
        (ct.args i).oalias || !(ct.args j).oalias || decide (j < i)) &&
    decide (op.opc.opDef.nbOargs + op.opc.opDef.nbIargs < 13)

theorem mem_elems {s : RegSet} {r : Reg} : r ∈ elems s ↔ s.contains r = true := by
  rw [elems, List.mem_filter]
  exact and_iff_right (RegSet.mem_allRegs r)

variable {op : Op} {ct : OpConstraint}

theorem fits_input {i : Nat} (h : fits op ct = true) (hi : i < op.opc.opDef.nbIargs) :
    fitsInput op ct i = true := by
  simp only [fits, Bool.and_eq_true, List.all_eq_true, List.mem_range] at h
  exact h.1.1.1 i hi

theorem fits_alias {k : Nat} (h : fits op ct = true) (hk : k < op.opc.opDef.nbOargs)
    (ha : (ct.args k).oalias = true) : (ct.args k).aliasIndex < op.opc.opDef.nbIargs := by
  simp only [fits, Bool.and_eq_true, List.all_eq_true, List.mem_range] at h
  simpa [ha] using h.1.1.2 k hk

theorem fits_alias_first {i j : Nat} (h : fits op ct = true) (hi : i < op.opc.opDef.nbOargs)
    (hj : j < op.opc.opDef.nbOargs) (hai : (ct.args i).oalias = false)
    (haj : (ct.args j).oalias = true) : j < i := by
  simp only [fits, Bool.and_eq_true, List.all_eq_true, List.mem_range] at h
  simpa [hai, haj] using h.1.2 i hi j hj

theorem fits_small (h : fits op ct = true) :
    op.opc.opDef.nbOargs + op.opc.opDef.nbIargs < 13 := by
  simp only [fits, Bool.and_eq_true, decide_eq_true_eq] at h
  exact h.2

theorem fitsInput_sub {i : Nat} (h : fitsInput op ct i = true) {r : Reg}
    (hr : (inputRegs op ct i).contains r = true) : allocatableRegs.contains r = true := by
  simp only [fitsInput, Bool.and_eq_true, List.all_eq_true] at h
  exact h.1 r (mem_elems.mpr hr)

/-- There is room for input `i` beside `i` registers that earlier inputs may use. -/
theorem fitsInput_room {i : Nat} {forbidden : RegSet} {l : List Reg}
    (h : fitsInput op ct i = true) (hl : l.length = i)
    (hmem : ∀ r, forbidden.contains r = true → r ∈ l)
    (hfrom : ∀ r, forbidden.contains r = true → ∃ j < i, (inputRegs op ct j).contains r = true) :
    Room (inputRegs op ct i) forbidden := by
  have hsub : ∀ r, (inputRegs op ct i).contains r = true → allocatableRegs.contains r = true :=
    fun r => fitsInput_sub h
  simp only [fitsInput, Bool.and_eq_true, Bool.or_eq_true, decide_eq_true_eq] at h
  rcases h.2 with hlt | ⟨hne, hdisj⟩
  · exact room_of_length_lt hsub hmem (hl.symm ▸ hlt)
  · obtain ⟨r, hr⟩ := List.exists_mem_of_ne_nil (elems (inputRegs op ct i)) (by
      intro hnil
      rw [hnil] at hne
      cases hne)
    refine ⟨r, mem_elems.mp hr, hsub r (mem_elems.mp hr), ?_⟩
    cases hf : forbidden.contains r with
    | false => rfl
    | true =>
      obtain ⟨j, hj, hjr⟩ := hfrom r hf
      simp only [List.all_eq_true, List.mem_range] at hdisj
      have := hdisj j hj r hr
      rw [hjr] at this
      cases this

/-! ## Fixed temps away from home -/

/-- Where the Fixed temps are during an op: at home, or moved away as the list says, and
perhaps evicted since. -/
structure FixedAway (home : Nat → Option Reg) (moves : List (Nat × Reg × Reg))
    (T : TwoWay Reg Nat) : Prop where
  others : ∀ r t, T.occupant r = some t → allocatableRegs.contains r = true ∨ home t = some r
  fixed : ∀ t h, home t = some h → T.place t = some h ∨ ∃ m, (t, h, m) ∈ moves
  moved : ∀ t h m, (t, h, m) ∈ moves →
    home t = some h ∧ allocatableRegs.contains m = true ∧ (T.place t = some m ∨ T.place t = none)

variable {home : Nat → Option Reg} {moves : List (Nat × Reg × Reg)} {T : TwoWay Reg Nat}

theorem FixedAway.evict {c : Reg} (hF : FixedAway home moves T)
    (hreserved : ∀ t r, home t = some r → allocatableRegs.contains r = false)
    (hc : allocatableRegs.contains c = true)
    (hexact : ∀ t, T.occupant c = some t → T.place t = some c) :
    FixedAway home moves (T.evict c) := by
  constructor
  · intro r t h
    rw [TwoWay.evict_occupant] at h
    split at h
    · cases h
    · exact hF.others r t h
  · intro t h ht
    refine (hF.fixed t h ht).imp_left ?_
    intro hplace
    rw [TwoWay.evict_place, if_neg, hplace]
    intro hocc
    rw [hexact t hocc] at hplace
    injection hplace with hplace
    rw [hplace, hreserved t h ht] at hc
    cases hc
  · intro t h m hm
    obtain ⟨hh, ha, hplace⟩ := hF.moved t h m hm
    refine ⟨hh, ha, ?_⟩
    rw [TwoWay.evict_place]
    split
    · exact Or.inr rfl
    · exact hplace

theorem FixedAway.put {r : Reg} {t : Nat} (hF : FixedAway home moves T)
    (hr : allocatableRegs.contains r = true) (ht : home t = none) :
    FixedAway home moves (T.put r t) := by
  constructor
  · intro a u h
    rw [TwoWay.put_occupant] at h
    split at h
    · rename_i ha
      exact Or.inl (ha ▸ hr)
    · exact hF.others a u h
  · intro u h hu
    refine (hF.fixed u h hu).imp_left ?_
    intro hplace
    rw [TwoWay.put_place, if_neg, hplace]
    intro heq
    rw [heq, ht] at hu
    cases hu
  · intro u h m hm
    obtain ⟨hh, ha, hplace⟩ := hF.moved u h m hm
    refine ⟨hh, ha, ?_⟩
    rw [TwoWay.put_place, if_neg]
    · exact hplace
    · intro heq
      rw [heq, ht] at hh
      cases hh

theorem FixedAway.forget {t : Nat} (hF : FixedAway home moves T) (ht : home t = none) :
    FixedAway home moves (T.forget t) := by
  constructor
  · intro a u h
    rw [TwoWay.forget_occupant] at h
    split at h
    · cases h
    · exact hF.others a u h
  · intro u h hu
    refine (hF.fixed u h hu).imp_left ?_
    intro hplace
    rw [TwoWay.forget_place, if_neg, hplace]
    intro heq
    rw [heq, ht] at hu
    cases hu
  · intro u h m hm
    obtain ⟨hh, ha, hplace⟩ := hF.moved u h m hm
    refine ⟨hh, ha, ?_⟩
    rw [TwoWay.forget_place, if_neg]
    · exact hplace
    · intro heq
      rw [heq, ht] at hh
      cases hh

/-- A Fixed temp that leaves its home. -/
theorem FixedAway.leave {t : Nat} {h r : Reg} (hF : FixedAway home moves T)
    (hreserved : ∀ t r, home t = some r → allocatableRegs.contains r = false)
    (hT : T.Consistent) (hr : allocatableRegs.contains r = true) (ht : home t = some h)
    (hnew : ∀ h' m, (t, h', m) ∉ moves) :
    FixedAway home (moves ++ [(t, h, r)]) (T.move r t) := by
  constructor
  · intro a u hocc
    rw [TwoWay.move_occupant] at hocc
    split at hocc
    · rename_i ha
      exact Or.inl (ha ▸ hr)
    · split at hocc
      · cases hocc
      · exact hF.others a u hocc
  · intro u h' hu
    by_cases heq : u = t
    · subst heq
      rw [ht] at hu
      injection hu with hu
      subst hu
      exact Or.inr ⟨r, List.mem_append_right _ (List.mem_singleton.mpr rfl)⟩
    · rcases hF.fixed u h' hu with hplace | ⟨m, hm⟩
      · left
        rw [TwoWay.move_place, if_neg heq, if_neg, hplace]
        intro hocc
        rw [(hT r u).mp hocc] at hplace
        injection hplace with hplace
        rw [hplace, hreserved u h' hu] at hr
        cases hr
      · exact Or.inr ⟨m, List.mem_append_left _ hm⟩
  · intro u h' m hm
    rcases List.mem_append.mp hm with hold | hm
    · obtain ⟨hh, ha, hplace⟩ := hF.moved u h' m hold
      refine ⟨hh, ha, ?_⟩
      have heq : u ≠ t := by
        rintro rfl
        exact hnew h' m hold
      rw [TwoWay.move_place, if_neg heq]
      split
      · exact Or.inr rfl
      · exact hplace
    · injection List.mem_singleton.mp hm with h₁ h₂
      injection h₂ with h₂ h₃
      subst h₁ h₂ h₃
      refine ⟨ht, hr, Or.inl ?_⟩
      rw [TwoWay.move_place, if_pos rfl]

/-! ## The loop -/

/-- The register of input `i` may be handed to an output. -/
def CanReuse (p : Pass) (op : Op) (ct : OpConstraint) (i : Nat) : Prop :=
  ∃ temp, p.ctx.temp (inputOf op i) = some temp ∧ reuses op ct temp i = true

theorem reuses_congr {temp temp' : Temp} (h : temp.kind = temp'.kind) (i : Nat) :
    reuses op ct temp i = reuses op ct temp' i := by
  simp only [reuses, Temp.isGlobalOrFixed, Temp.isConst, h]

theorem canReuse_iff (ct : OpConstraint) {p p' : Pass} {i : Nat} {temp : Temp}
    (hk : ∀ t, kindOf p' t = kindOf p t) (h : p'.ctx.temp (inputOf op i) = some temp) :
    CanReuse p op ct i ↔ reuses op ct temp i = true := by
  obtain ⟨temp₀, htemp₀, hkind⟩ := temp_of_kindOf (hk (inputOf op i)).symm h
  rw [← reuses_congr hkind i]
  constructor
  · rintro ⟨temp₁, htemp₁, hr⟩
    rw [htemp₀] at htemp₁
    injection htemp₁ with htemp₁
    exact htemp₁ ▸ hr
  · intro hr
    exact ⟨temp₀, htemp₀, hr⟩

/-- A register set with one register only. -/
def Pinned (s : RegSet) (r : Reg) : Prop := ∀ r', s.contains r' = true → r' = r

/-- The state of the loop after the first `k` inputs; `p₀` is the state before the op. -/
structure InputInv (home : Nat → Option Reg) (op : Op) (ct : OpConstraint) (p₀ : Pass) (k : Nat)
    (s : Pass × Inputs) : Prop where
  sound : Sound s.1
  kind : ∀ t, kindOf s.1 t = kindOf p₀ t
  consistent : (books s.1).Consistent
  away : FixedAway home s.2.fixedMoves (books s.1)
  moved_input : ∀ m ∈ s.2.fixedMoves, ∃ i < k, inputOf op i = m.1
  moves_nodup : (s.2.fixedMoves.map Prod.fst).Nodup
  loaded : ∀ i < k, ∃ r, (books s.1).place (inputOf op i) = some r ∧
    s.2.allocated.contains r = true
  count : ∃ l : List Reg, l.length = k ∧ ∀ r, s.2.allocated.contains r = true → r ∈ l
  source : ∀ r, s.2.allocated.contains r = true → ∃ j < k, (inputRegs op ct j).contains r = true
  unloaded : ∀ u, (∀ i < k, inputOf op i ≠ u) → ∀ r, (books s.1).place u = some r →
    (books p₀).place u = some r ∧ s.2.allocated.contains r = false
  reusable : ∀ i, s.2.reusable i = true ↔ i < k ∧ CanReuse p₀ op ct i
  pinned : ∀ i < k, ∀ r, Pinned (inputRegs op ct i) r → s.2.allocated.contains r = true

theorem inputInv_zero {p : Pass} (hk : Kept home p) : InputInv home op ct p 0 (p, Inputs.new) := by
  refine ⟨hk.sound, fun _ => rfl, hk.consistent, ⟨?_, ?_, ?_⟩, ?_, List.nodup_nil, ?_, ⟨[], rfl, ?_⟩,
    ?_, ?_, ?_, ?_⟩
  · intro r t hocc
    cases hh : home t with
    | none => exact Or.inl (hk.others r t hocc hh)
    | some h =>
      have hplace := hk.fixed t h hh
      rw [(hk.consistent r t).mp hocc] at hplace
      exact Or.inr hplace.symm
  · intro t h ht
    exact Or.inl (hk.fixed t h ht)
  · intro t h m hm
    cases hm
  · intro m hm
    cases hm
  · intro i hi
    omega
  · intro r hr
    cases hr
  · intro r hr
    cases hr
  · intro u _ r hr
    exact ⟨hr, rfl⟩
  · intro i
    constructor
    · intro h
      cases h
    · rintro ⟨hi, -⟩
      omega
  · intro i hi
    omega

/-- What loading input `k` does to the Fixed temps. -/
theorem fixedAway_load {p₀ p : Pass} {ins : Inputs} {k : Nat} {r : Reg}
    (hreserved : ∀ t r, home t = some r → allocatableRegs.contains r = false)
    (hinv : InputInv home op ct p₀ k (p, ins)) (hr : allocatableRegs.contains r = true)
    (honce : ∀ i < k, inputOf op i = inputOf op k → home (inputOf op k) = none) :
    (home (inputOf op k) = none ∧
      FixedAway home ins.fixedMoves ((books p).move r (inputOf op k))) ∨
    ∃ h, home (inputOf op k) = some h ∧ (books p).place (inputOf op k) = some h ∧ r ≠ h ∧
      (inputOf op k) ∉ ins.fixedMoves.map Prod.fst ∧
      FixedAway home (ins.fixedMoves ++ [(inputOf op k, h, r)])
        ((books p).move r (inputOf op k)) := by
  cases hh : home (inputOf op k) with
  | none =>
    left
    refine ⟨rfl, ?_⟩
    have hexact : ∀ t, (books p).occupant r = some t → (books p).place t = some r :=
      fun t => (hinv.consistent r t).mp
    exact ((hinv.away.evict hreserved hr hexact).forget hh).put hr hh
  | some h =>
    right
    have hnew : ∀ h' m, (inputOf op k, h', m) ∉ ins.fixedMoves := by
      intro h' m hm
      obtain ⟨i, hi, heq⟩ := hinv.moved_input _ hm
      rw [honce i hi heq] at hh
      cases hh
    refine ⟨h, rfl, ?_, ?_, ?_, ?_⟩
    · rcases hinv.away.fixed _ h hh with hplace | ⟨m, hm⟩
      · exact hplace
      · exact absurd hm (hnew h m)
    · rintro rfl
      rw [hreserved _ _ hh] at hr
      cases hr
    · intro hm
      obtain ⟨⟨t, h', m⟩, hmem, rfl⟩ := List.mem_map.mp hm
      exact hnew h' m hmem
    · exact hinv.away.leave hreserved hinv.consistent hr hh hnew

theorem inputInv_step {p₀ : Pass} {k : Nat} {s s' : Pass × Inputs}
    (hreserved : ∀ t r, home t = some r → allocatableRegs.contains r = false)
    (hfixed : ∀ t, (home t).isSome = true ↔ kindOf p₀ t = some .fixed)
    (hfits : fitsInput op ct k = true)
    (honce : ∀ i < k, inputOf op i = inputOf op k → home (inputOf op k) = none)
    (hinv : InputInv home op ct p₀ k s) (h : loadInput op ct s k = some s') :
    InputInv home op ct p₀ (k + 1) s' := by
  obtain ⟨p, ins⟩ := s
  obtain ⟨temp, htemp, h⟩ := Option.bind_eq_some_iff.mp h
  obtain ⟨⟨p', r⟩, hload, h⟩ := Option.bind_eq_some_iff.mp h
  obtain ⟨temp', htemp', h⟩ := Option.bind_eq_some_iff.mp h
  obtain ⟨l, hl, hmem⟩ := hinv.count
  obtain ⟨hreq, hforb, hlead⟩ := leads_tempLoadTo hinv.sound hinv.consistent
    (fitsInput_room hfits hl hmem hinv.source) hload
  replace hlead : Leads p p' ((books p).move r (inputOf op k)) := hlead
  have hr : allocatableRegs.contains r = true := fitsInput_sub hfits hreq
  have hplace' : temp'.reg = some r := by
    have hp := place_of_temp htemp'
    rw [hlead.table] at hp
    rw [← hp]
    exact (TwoWay.move_place _ _ _ _).trans (if_pos rfl)
  have hisFixed : temp.isFixed = true ↔ (home (inputOf op k)).isSome = true := by
    have hkind := hinv.kind (inputOf op k)
    rw [hfixed, ← hkind, kindOf, show p.ctx.temp (inputOf op k) = some temp from htemp]
    simp [Temp.isFixed]
  injection h with h
  subst h
  have hplaceIn : ∀ i < k, ∀ r', (books p).place (inputOf op i) = some r' →
      ins.allocated.contains r' = true → (books p).occupant r ≠ some (inputOf op i) := by
    intro i _ r' hp ha hocc
    rw [(hinv.consistent r _).mp hocc] at hp
    injection hp with hp
    rw [← hp, hforb] at ha
    cases ha
  have hother : ∀ i < k, inputOf op i ≠ inputOf op k → ∃ r',
      (books p').place (inputOf op i) = some r' ∧ ins.allocated.contains r' = true := by
    intro i hi hne
    obtain ⟨r', hp, ha⟩ := hinv.loaded i hi
    refine ⟨r', ?_, ha⟩
    rw [hlead.table, TwoWay.move_place, if_neg hne, if_neg (hplaceIn i hi r' hp ha), hp]
  have hself : (books p').place (inputOf op k) = some r := by
    rw [hlead.table, TwoWay.move_place, if_pos rfl]
  have hmoves := fixedAway_load hreserved hinv hr honce
  refine ⟨hlead.sound, fun t => (hlead.kind t).trans (hinv.kind t),
    hlead.table ▸ hinv.consistent.move r _, ?_, ?_, ?_, ?_, ?_, ?_, ?_, ?_, ?_⟩
  · rcases hmoves with ⟨hnone, haway⟩ | ⟨h, hh, hp, hne, -, haway⟩
    · have hnf : temp.isFixed = false := by simpa [hnone] using hisFixed
      simpa [hnf, hlead.table, inputOf] using haway
    · have hf : temp.isFixed = true := by simpa [hh] using hisFixed
      have hreg : temp.reg = some h := (place_of_temp htemp).symm.trans hp
      simpa [hf, hreg, hplace', hne, hlead.table, inputOf] using haway
  · intro m hm
    rcases hmoves with ⟨hnone, -⟩ | ⟨h, hh, hp, hne, -, -⟩
    · have hnf : temp.isFixed = false := by simpa [hnone] using hisFixed
      simp only [hnf, Bool.false_eq_true, if_false] at hm
      obtain ⟨i, hi, heq⟩ := hinv.moved_input m hm
      exact ⟨i, Nat.lt_succ_of_lt hi, heq⟩
    · have hf : temp.isFixed = true := by simpa [hh] using hisFixed
      have hreg : temp.reg = some h := (place_of_temp htemp).symm.trans hp
      simp only [hf, if_true, hreg, hplace', ne_eq, hne, not_false_eq_true] at hm
      rcases List.mem_append.mp hm with hm | hm
      · obtain ⟨i, hi, heq⟩ := hinv.moved_input m hm
        exact ⟨i, Nat.lt_succ_of_lt hi, heq⟩
      · rw [List.mem_singleton.mp hm]
        exact ⟨k, Nat.lt_succ_self k, rfl⟩
  · rcases hmoves with ⟨hnone, -⟩ | ⟨h, hh, hp, hne, hnew, -⟩
    · have hnf : temp.isFixed = false := by simpa [hnone] using hisFixed
      simpa [hnf] using hinv.moves_nodup
    · have hf : temp.isFixed = true := by simpa [hh] using hisFixed
      have hreg : temp.reg = some h := (place_of_temp htemp).symm.trans hp
      simp only [hf, if_true, hreg, hplace', ne_eq, hne, not_false_eq_true, List.map_append,
        List.map_cons, List.map_nil]
      exact hinv.moves_nodup.append (List.nodup_singleton _)
        (List.disjoint_singleton.mpr hnew)
  · intro i hi
    by_cases heq : inputOf op i = inputOf op k
    · exact ⟨r, heq ▸ hself, by simp⟩
    · have hik : i < k := by
        rcases Nat.lt_or_eq_of_le (Nat.le_of_lt_succ hi) with hlt | hik
        · exact hlt
        · exact absurd (congrArg (inputOf op) hik) heq
      obtain ⟨r', hp, ha⟩ := hother i hik heq
      exact ⟨r', hp, by simp [ha]⟩
  · refine ⟨r :: l, by rw [List.length_cons, hl], ?_⟩
    intro a ha
    rw [RegSet.contains_set, Bool.or_eq_true, decide_eq_true_eq] at ha
    rcases ha with rfl | ha
    · exact List.mem_cons_self
    · exact List.mem_cons_of_mem r (hmem a ha)
  · intro a ha
    rw [RegSet.contains_set, Bool.or_eq_true, decide_eq_true_eq] at ha
    rcases ha with rfl | ha
    · exact ⟨k, Nat.lt_succ_self k, hreq⟩
    · obtain ⟨j, hj, hjr⟩ := hinv.source a ha
      exact ⟨j, Nat.lt_succ_of_lt hj, hjr⟩
  · intro u hu a ha
    rw [hlead.table, TwoWay.move_place, if_neg (hu k (Nat.lt_succ_self k)).symm] at ha
    split at ha
    · cases ha
    · rename_i hocc
      obtain ⟨hp₀, hna⟩ := hinv.unloaded u (fun i hi => hu i (Nat.lt_succ_of_lt hi)) a ha
      refine ⟨hp₀, ?_⟩
      rw [RegSet.contains_set, hna, Bool.or_false, decide_eq_false_iff_not]
      rintro rfl
      exact hocc ((hinv.consistent _ u).mpr ha)
  · intro i
    have hreuse := canReuse_iff ct hinv.kind
      (show p.ctx.temp (inputOf op k) = some temp from htemp)
    by_cases hik : i = k
    · subst hik
      have hnot : ins.reusable i = false := by
        rw [← Bool.not_eq_true]
        intro hi
        exact absurd ((hinv.reusable i).mp hi).1 (Nat.lt_irrefl i)
      by_cases hru : reuses op ct temp i = true
      · simp [hru, hreuse]
      · simp [hru, hreuse, hnot]
    · have hlt : i < k + 1 ↔ i < k := by omega
      rw [hlt, ← hinv.reusable i]
      by_cases hru : reuses op ct temp k = true
      · simp [hru, hik]
      · simp [hru]
  · intro i hi a hpin
    rw [RegSet.contains_set, Bool.or_eq_true, decide_eq_true_eq]
    rcases Nat.lt_or_eq_of_le (Nat.le_of_lt_succ hi) with hlt | hik
    · exact Or.inr (hinv.pinned i hlt a hpin)
    · subst hik
      exact Or.inl (hpin r hreq).symm

end TcgRs.Analysis.RegInputs
