import TcgRs.Analysis.RegInputs

/-!
# Register allocation of a generic op

The whole of `regallocOp`: inputs, outputs, freeing the dead inputs, bringing the Fixed temps
home, freeing the dead outputs.  Under a condition on the op and the state before it, the
books agree again afterwards.
-/

set_option autoImplicit false

namespace TcgRs.Analysis.RegOperands

open TcgRs.Model TcgRs.Model.Ir TcgRs.Model.X86 TcgRs.Model.RegAlloc TcgRs.Library
open RegBooks RegKept RegOutputs RegInputs

/-- The condition on a generic op.  Its outputs are distinct and not Fixed.  An output is a
dead input whose register an output takes; or it is no input, and if it is in a register then
in one that an input or, for an output without alias, the output itself must be given.  A
Fixed temp is an input once at most, and never the input that an output aliases; and no two
outputs alias the same temp. -/
structure Releases (p : Pass) (op : Op) (ct : OpConstraint) : Prop where
  outputs_distinct : ∀ i < op.opc.opDef.nbOargs, ∀ j < op.opc.opDef.nbOargs,
    op.args i = op.args j → i = j
  outputs_not_fixed : ∀ k < op.opc.opDef.nbOargs, kindOf p (op.args k) ≠ some .fixed
  outputs_released : ∀ k < op.opc.opDef.nbOargs,
    (∃ j < op.opc.opDef.nbOargs, (ct.args j).oalias = true ∧
      CanReuse p op ct (ct.args j).aliasIndex ∧
        inputOf op (ct.args j).aliasIndex = op.args k) ∨
    ((∀ i < op.opc.opDef.nbIargs, inputOf op i ≠ op.args k) ∧
      ∀ r, (books p).place (op.args k) = some r →
        (∃ i < op.opc.opDef.nbIargs, Pinned (inputRegs op ct i) r) ∨
          ((ct.args k).oalias = false ∧ Pinned (ct.args k).regs r))
  fixed_once : ∀ i < op.opc.opDef.nbIargs, ∀ j < op.opc.opDef.nbIargs,
    inputOf op i = inputOf op j → kindOf p (inputOf op i) = some .fixed → i = j
  fixed_not_aliased : ∀ k < op.opc.opDef.nbOargs, (ct.args k).oalias = true →
    kindOf p (inputOf op (ct.args k).aliasIndex) ≠ some .fixed
  aliased_distinct : ∀ i < op.opc.opDef.nbOargs, ∀ j < op.opc.opDef.nbOargs,
    (ct.args i).oalias = true → (ct.args j).oalias = true →
      inputOf op (ct.args i).aliasIndex = inputOf op (ct.args j).aliasIndex → i = j

variable {home : Nat → Option Reg} {op : Op} {ct : OpConstraint}

/-! ## Inputs -/

theorem inputInv_loop {p : Pass} {s : Pass × Inputs} (hfits : fits op ct = true)
    (hrel : Releases p op ct) (hk : Kept home p)
    (h : (List.range op.opc.opDef.nbIargs).foldlM (loadInput op ct) (p, Inputs.new) = some s) :
    InputInv home op ct p op.opc.opDef.nbIargs s := by
  refine foldlM_range (InputInv home op ct p) (inputInv_zero hk) ?_ h
  intro k hkn s s' hinv hstep
  refine inputInv_step hk.home_reserved hk.home_fixed (fits_input hfits hkn) ?_ hinv hstep
  intro i hi heq
  cases hh : home (inputOf op k) with
  | none => rfl
  | some r =>
    have hfix : kindOf p (inputOf op i) = some .fixed := by
      rw [heq]
      exact (hk.home_fixed _).mp (by rw [hh]; rfl)
    have := hrel.fixed_once i (Nat.lt_trans hi hkn) k hkn heq hfix
    omega

/-- The inputs as they are re-read before the outputs. -/
structure Reread (op : Op) (p : Pass) (k : Nat) (ins ins' : Inputs) : Prop where
  regs : ∀ i < k, (books p).place (inputOf op i) = some (ins'.regs i)
  allocated : ∀ i < k, ins'.allocated.contains (ins'.regs i) = true
  count : ∃ l : List Reg, l.length = k ∧ ∀ r, ins'.allocated.contains r = true → r ∈ l
  reusable : ins'.reusable = ins.reusable
  fixedMoves : ins'.fixedMoves = ins.fixedMoves

theorem reread_loop {p : Pass} {ins ins' : Inputs} {n : Nat} (hs : Sound p)
    (hin : ∀ i < n, ∃ r, (books p).place (inputOf op i) = some r)
    (h : (List.range n).foldlM (rereadInput op p) { ins with allocated := .empty } = some ins') :
    Reread op p n ins ins' := by
  refine foldlM_range (fun k ins' => Reread op p k ins ins') ?_ ?_ h
  · refine ⟨?_, ?_, ⟨[], rfl, ?_⟩, rfl, rfl⟩
    · intro i hi
      omega
    · intro i hi
      omega
    · intro r hr
      cases hr
  · intro k hk s s' hinv hstep
    obtain ⟨temp, htemp, hstep⟩ := Option.bind_eq_some_iff.mp hstep
    obtain ⟨r, hr⟩ := hin k hk
    have hreg : temp.reg = some r := (place_of_temp htemp).symm.trans hr
    have hval : temp.valType = .reg := (hs.located _ temp htemp).mpr (by rw [hreg]; rfl)
    rw [if_pos hval, hreg] at hstep
    injection hstep with hstep
    subst hstep
    obtain ⟨l, hl, hmem⟩ := hinv.count
    refine ⟨?_, ?_, ⟨r :: l, by rw [List.length_cons, hl], ?_⟩, hinv.reusable, hinv.fixedMoves⟩
    · intro i hi
      by_cases hik : i = k
      · subst hik
        simpa using hr
      · simpa [hik] using hinv.regs i (by omega)
    · intro i hi
      by_cases hik : i = k
      · subst hik
        simp
      · simp [hik, hinv.allocated i (by omega)]
    · intro a ha
      rw [RegSet.contains_set, Bool.or_eq_true, decide_eq_true_eq] at ha
      rcases ha with rfl | ha
      · exact List.mem_cons_self
      · exact List.mem_cons_of_mem r (hmem a ha)

/-! ## Outputs -/

/-- How the outputs of the op get their registers. -/
def planOf (op : Op) (ct : OpConstraint) (ins : Inputs) : Plan where
  n := op.opc.opDef.nbOargs
  out := op.args
  src k := inputOf op (ct.args k).aliasIndex
  reg k := ins.regs (ct.args k).aliasIndex
  takes k := (ct.args k).oalias = true ∧ ins.reusable (ct.args k).aliasIndex = true
  copies k := (ct.args k).oalias = true ∧ ins.reusable (ct.args k).aliasIndex = false
  pinned k r := Pinned (ct.args k).regs r

theorem oalias_of_takes_or_copies {ins : Inputs} {k : Nat}
    (h : (planOf op ct ins).takes k ∨ (planOf op ct ins).copies k) : (ct.args k).oalias = true := by
  rcases h with h | h
  · exact h.1
  · exact h.1

theorem oalias_of_fresh {ins : Inputs} {k : Nat} (ht : ¬ (planOf op ct ins).takes k)
    (hc : ¬ (planOf op ct ins).copies k) : (ct.args k).oalias = false := by
  cases ha : (ct.args k).oalias with
  | false => rfl
  | true =>
    cases hr : ins.reusable (ct.args k).aliasIndex with
    | false => exact absurd ⟨ha, hr⟩ hc
    | true => exact absurd ⟨ha, hr⟩ ht

theorem plan_valid {p : Pass} {ins : Inputs} (hfits : fits op ct = true) (hrel : Releases p op ct)
    (hreuse : ∀ i < op.opc.opDef.nbIargs, ins.reusable i = true ↔ CanReuse p op ct i) :
    (planOf op ct ins).Valid := by
  constructor
  · exact hrel.outputs_distinct
  · intro i hi j hj hai haj
    exact hrel.aliased_distinct i hi j hj (oalias_of_takes_or_copies hai)
      (oalias_of_takes_or_copies haj)
  · rintro i ⟨-, ht⟩ ⟨-, hc⟩
    rw [ht] at hc
    cases hc
  · rintro j hj ⟨haj, hcj⟩ i hi hout
    rcases hrel.outputs_released i hi with ⟨j', hj', haj', hcan, hsrc⟩ | ⟨hnot, -⟩
    · have heq := hrel.aliased_distinct j' hj' j hj haj' haj (hsrc.trans hout)
      subst heq
      rw [(hreuse _ (fits_alias hfits hj' haj')).mpr hcan] at hcj
      cases hcj
    · exact hnot _ (fits_alias hfits hj haj) hout.symm
  · intro i hi j hj hti hci htj
    exact fits_alias_first hfits hi hj (oalias_of_fresh hti hci) (oalias_of_takes_or_copies htj)

/-- The books agree before the first output. -/
theorem outputTable_zero {p₀ p : Pass} {ins ins' : Inputs} (hfits : fits op ct = true)
    (hrel : Releases p₀ op ct)
    (hinv : InputInv home op ct p₀ op.opc.opDef.nbIargs (p, ins))
    (hre : Reread op p op.opc.opDef.nbIargs ins ins') :
    OutputTable (planOf op ct ins') 0 (books p) := by
  have hT : (books p).Consistent := hinv.consistent
  have hocc : ∀ j, j < op.opc.opDef.nbOargs → (ct.args j).oalias = true →
      (books p).place ((planOf op ct ins').src j) = some ((planOf op ct ins').reg j) :=
    fun j hj ha => hre.regs _ (fits_alias hfits hj ha)
  constructor
  · intro t r h
    exact Or.inl ((hT r t).mpr h)
  · intro r t h
    exact Or.inl ((hT r t).mp h)
  · intro j _ hj r h
    have hplace := (hT r _).mp h
    refine ⟨hplace, ?_⟩
    rcases hrel.outputs_released j hj with ⟨j', hj', ha, hcan, hsrc⟩ | ⟨hnot, hreg⟩
    · left
      have hidx := fits_alias hfits hj' ha
      refine ⟨j', Nat.zero_le j', hj', ⟨ha, ?_⟩, ?_⟩
      · rw [hre.reusable]
        exact (hinv.reusable _).mpr ⟨hidx, hcan⟩
      · have hr := hocc j' hj' ha
        have hsrc' : (planOf op ct ins').src j' = (planOf op ct ins').out j := hsrc
        rw [hsrc', hplace] at hr
        injection hr with hr
        exact hr.symm
    · right
      obtain ⟨hp₀, hna⟩ := hinv.unloaded _ hnot r hplace
      rcases hreg r hp₀ with ⟨i, hi, hpin⟩ | ⟨ha, hpin⟩
      · rw [hinv.pinned i hi r hpin] at hna
        cases hna
      · exact ⟨fun h => by simp [planOf, ha] at h, fun h => by simp [planOf, ha] at h, hpin⟩
  · intro j _ hj ht
    exact (hT _ _).mpr (hocc j hj ht.1)
  · intro j _ hj hc
    exact ⟨hocc j hj hc.1, (hT _ _).mpr (hocc j hj hc.1)⟩
  · intro j hj
    omega

/-- The state of the output loop after the first `k` outputs. -/
structure OutputInv (home : Nat → Option Reg) (op : Op) (ct : OpConstraint) (p₀ : Pass)
    (ins : Inputs) (k : Nat) (s : Pass × Outputs) : Prop where
  sound : Sound s.1
  kind : ∀ t, kindOf s.1 t = kindOf p₀ t
  table : OutputTable (planOf op ct ins) k (books s.1)
  away : FixedAway home ins.fixedMoves (books s.1)
  count : ∃ l : List Reg, l.length = k ∧ ∀ r, s.2.allocated.contains r = true → r ∈ l

/-- The outputs that are still to come wait for no register outside the inputs'. -/
theorem not_pending_of_not_allocated {p : Pass} {ins ins' : Inputs} {k : Nat} {r : Reg}
    (hfits : fits op ct = true) (hre : Reread op p op.opc.opDef.nbIargs ins ins')
    (hr : ins'.allocated.contains r = false) :
    ∀ j, k ≤ j → j < op.opc.opDef.nbOargs → (ct.args j).oalias = true →
      (planOf op ct ins').reg j ≠ r := by
  intro j _ hj ha heq
  have := hre.allocated _ (fits_alias hfits hj ha)
  rw [show ins'.regs (ct.args j).aliasIndex = r from heq, hr] at this
  cases this

theorem outputReg_spec {p₀ p p' : Pass} {ins ins' : Inputs} {outs : Outputs} {k : Nat} {r : Reg}
    {q : Pass} (hfits : fits op ct = true) (hrel : Releases p₀ op ct) (hk : Kept home p₀)
    (hv : (planOf op ct ins').Valid) (hsub : ∀ i < op.opc.opDef.nbIargs,
      allocatableRegs.contains (ins'.regs i) = true)
    (hre : Reread op q op.opc.opDef.nbIargs ins ins')
    (hinv : OutputInv home op ct p₀ ins' k (p, outs)) (hkn : k < op.opc.opDef.nbOargs)
    (h : outputReg op ct ins' p outs k = some (p', r)) :
    Sound p' ∧ (∀ t, kindOf p' t = kindOf p₀ t) ∧
      OutputTable (planOf op ct ins') (k + 1) ((books p').put r (op.args k)) ∧
      FixedAway home ins'.fixedMoves ((books p').put r (op.args k)) := by
  have hout : home (op.args k) = none := hk.home_none_of_kind (hrel.outputs_not_fixed k hkn)
  simp only [outputReg] at h
  split at h
  · rename_i ha
    have hidx := fits_alias hfits hkn ha
    split at h
    · -- The register of a dead input.
      rename_i hreuse
      injection h with h
      injection h with hp hr
      subst hp hr
      exact ⟨hinv.sound, hinv.kind, hinv.table.take hv hkn ⟨ha, hreuse⟩,
        hinv.away.put (hsub _ hidx) hout⟩
    · -- The register of an input that is copied away.
      rename_i hreuse
      have hcopies : (planOf op ct ins').copies k := ⟨ha, by simpa using hreuse⟩
      obtain ⟨src, hsrc, h⟩ := Option.bind_eq_some_iff.mp h
      obtain ⟨⟨p₁, c⟩, halloc, h⟩ := Option.bind_eq_some_iff.mp h
      injection h with h
      injection h with hp hr
      rw [hinv.sound.free.allocatable] at halloc
      obtain ⟨li, hli, hmi⟩ := hre.count
      obtain ⟨lo, hlo, hmo⟩ := hinv.count
      have hroom : Room allocatableRegs (ins'.allocated.union outs.allocated) := by
        refine room_allocatable (l := li ++ lo) ?_ ?_
        · intro a hau
          rw [RegSet.contains_union, Bool.or_eq_true] at hau
          exact List.mem_append.mpr (hau.imp (hmi a) (hmo a))
        · have := fits_small hfits
          rw [List.length_append, hli, hlo]
          omega
      have hexact : ∀ a t, ins'.allocated.contains a = false → (books p).occupant a = some t →
          (books p).place t = some a := by
        intro a t hna hocc
        rcases hinv.table.occupant a t hocc with hplace | ⟨-, j, hkj, hj, ht, hreg⟩
        · exact hplace
        · exact absurd hreg (not_pending_of_not_allocated hfits hre hna j hkj hj ht.1)
      obtain ⟨-, hall, hforb, hlead⟩ := leads_regAlloc hinv.sound (by
        intro a t _ hna hocc
        have hna := hna hroom
        rw [RegSet.contains_union, Bool.or_eq_false_iff] at hna
        exact hexact a t hna.1 hocc) halloc
      have hforb := hforb hroom
      rw [RegSet.contains_union, Bool.or_eq_false_iff] at hforb
      have htable : OutputTable (planOf op ct ins') k (books p₁) := by
        rw [hlead.table]
        refine hinv.table.evict (fun t => hexact c t hforb.1) ?_
        intro j hkj hj htj
        exact not_pending_of_not_allocated hfits hre hforb.1 j hkj hj
          (oalias_of_takes_or_copies htj)
      have hsrcPlace := (htable.copied k (Nat.le_refl k) hkn hcopies).1
      obtain ⟨src₁, hsrc₁, -⟩ := temp_of_kindOf (hlead.kind _) hsrc
      have hocc : Leads p₁ p' ((books p₁).put c (inputOf op (ct.args k).aliasIndex)) := by
        rw [← hp]
        refine leads_occupy (fun t => { t with reg := some c }) hlead.sound rfl rfl rfl
          ⟨src₁, hsrc₁⟩ (fun _ => rfl) ?_ (fun _ => rfl)
        intro x hx
        refine (hlead.sound.located _ x hx).mpr ?_
        have hx₁ := place_of_temp hx
        rw [← hx₁]
        exact Option.isSome_iff_exists.mpr ⟨_, hsrcPlace⟩
      have hempty : (books p₁).occupant c = none := by
        rw [hlead.table, TwoWay.evict_occupant, if_pos rfl]
      have hsrcHome : home (inputOf op (ct.args k).aliasIndex) = none :=
        hk.home_none_of_kind (hrel.fixed_not_aliased k hkn ha)
      have haway : FixedAway home ins'.fixedMoves (books p₁) := by
        rw [hlead.table]
        exact hinv.away.evict hk.home_reserved hall (fun t => hexact c t hforb.1)
      refine ⟨hocc.sound, ?_, ?_, ?_⟩
      · intro t
        rw [hocc.kind, hlead.kind, hinv.kind]
      · rw [hocc.table, ← hr]
        exact htable.copy hv hkn hcopies hempty
      · rw [hocc.table, ← hr]
        exact (haway.put hall hsrcHome).put (hsub _ hidx) hout
  · -- A fresh register.
    rename_i ha
    have htakes : ¬ (planOf op ct ins').takes k := fun h => ha h.1
    have hcopies : ¬ (planOf op ct ins').copies k := fun h => ha h.1
    have hexact : ∀ a t, (books p).occupant a = some t → (books p).place t = some a := by
      intro a t hocc
      rcases hinv.table.occupant a t hocc with hplace | ⟨-, j, hkj, hj, ht, -⟩
      · exact hplace
      · have := hv.fresh_last k hkn j hj htakes hcopies (Or.inl ht)
        omega
    have hfresh : ∀ {forbidden : RegSet},
        regAlloc p (ct.args k).regs forbidden .empty = some (p', r) →
        Sound p' ∧ (∀ t, kindOf p' t = kindOf p₀ t) ∧
          OutputTable (planOf op ct ins') (k + 1) ((books p').put r (op.args k)) ∧
          FixedAway home ins'.fixedMoves ((books p').put r (op.args k)) := by
      intro forbidden halloc
      obtain ⟨hreq, hall, -, hlead⟩ := leads_regAlloc hinv.sound (fun a t _ _ => hexact a t) halloc
      refine ⟨hlead.sound, fun t => (hlead.kind t).trans (hinv.kind t), ?_, ?_⟩
      · rw [hlead.table]
        refine (hinv.table.evict (hexact r) ?_).fresh hv hkn htakes hcopies ?_ ?_
        · intro j hkj hj htj
          have := hv.fresh_last k hkn j hj htakes hcopies htj
          omega
        · rw [TwoWay.evict_occupant, if_pos rfl]
        · intro a hpin
          exact (hpin r hreq).symm
      · rw [hlead.table]
        exact (hinv.away.evict hk.home_reserved hall (hexact r)).put hall hout
    split at h
    · exact hfresh h
    · exact hfresh h

theorem outputInv_loop {p₀ p : Pass} {ins ins' : Inputs} {s : Pass × Outputs}
    (hfits : fits op ct = true) (hrel : Releases p₀ op ct) (hk : Kept home p₀)
    (hinv : InputInv home op ct p₀ op.opc.opDef.nbIargs (p, ins))
    (hre : Reread op p op.opc.opDef.nbIargs ins ins')
    (h : (List.range op.opc.opDef.nbOargs).foldlM (allocOutput op ct ins') (p, Outputs.new) =
      some s) :
    OutputInv home op ct p₀ ins' op.opc.opDef.nbOargs s := by
  have hv : (planOf op ct ins').Valid := by
    refine plan_valid hfits hrel ?_
    intro i hi
    rw [hre.reusable]
    exact (hinv.reusable i).trans (and_iff_right hi)
  have hsub : ∀ i < op.opc.opDef.nbIargs, allocatableRegs.contains (ins'.regs i) = true := by
    intro i hi
    obtain ⟨r, hp, ha⟩ := hinv.loaded i hi
    have hr := hre.regs i hi
    rw [show (books p).place (inputOf op i) = some r from hp] at hr
    injection hr with hr
    obtain ⟨j, hj, hjr⟩ := hinv.source r ha
    exact hr ▸ fitsInput_sub (fits_input hfits hj) hjr
  refine foldlM_range (OutputInv home op ct p₀ ins') ?_ ?_ h
  · refine ⟨hinv.sound, hinv.kind, outputTable_zero hfits hrel hinv hre, ?_, [], rfl, ?_⟩
    · rw [hre.fixedMoves]
      exact hinv.away
    · intro r hr
      cases hr
  · rintro k hkn ⟨q, outs⟩ s' hq hstep
    obtain ⟨⟨q₁, r⟩, hreg, hstep⟩ := Option.bind_eq_some_iff.mp hstep
    obtain ⟨q₂, hdef, hstep⟩ := Option.bind_eq_some_iff.mp hstep
    injection hstep with hstep
    subst hstep
    obtain ⟨hs₁, hkind₁, htable, haway⟩ := outputReg_spec hfits hrel hk hv hsub hre hq hkn hreg
    have hlead := leads_defineTemp hs₁ hdef
    obtain ⟨l, hl, hmem⟩ := hq.count
    refine ⟨hlead.sound, fun t => (hlead.kind t).trans (hkind₁ t), hlead.table ▸ htable,
      hlead.table ▸ haway, r :: l, by rw [List.length_cons, hl], ?_⟩
    intro a ha
    rw [RegSet.contains_set, Bool.or_eq_true, decide_eq_true_eq] at ha
    rcases ha with rfl | ha
    · exact List.mem_cons_self
    · exact List.mem_cons_of_mem r (hmem a ha)

/-! ## Freeing the dead inputs -/

/-- After the outputs and the first `k` inputs: only dead inputs whose register was taken may
still name a register that is not theirs. -/
structure DeadInv (home : Nat → Option Reg) (op : Op) (ct : OpConstraint) (p₀ : Pass)
    (moves : List (Nat × Reg × Reg)) (k : Nat) (p : Pass) : Prop where
  sound : Sound p
  kind : ∀ t, kindOf p t = kindOf p₀ t
  occupant : ∀ r t, (books p).occupant r = some t → (books p).place t = some r
  place : ∀ t r, (books p).place t = some r → (books p).occupant r = some t ∨
    ((∃ i, k ≤ i ∧ i < op.opc.opDef.nbIargs ∧ inputOf op i = t ∧ CanReuse p₀ op ct i) ∧
      t ∉ op.oargs)
  away : FixedAway home moves (books p)

theorem mem_oargs {t : Nat} : t ∈ op.oargs ↔ ∃ k < op.opc.opDef.nbOargs, op.args k = t := by
  simp [Op.oargs]

/-- An input that may be reused is dead and neither global nor fixed. -/
theorem canReuse_dead {p : Pass} {i : Nat} (h : CanReuse p op ct i) :
    op.life.isDead (op.opc.opDef.nbOargs + i) = true ∧ ¬ Owned p (inputOf op i) := by
  obtain ⟨temp, htemp, hr⟩ := h
  simp only [reuses, Bool.and_eq_true, Bool.not_eq_true', Bool.or_eq_false_iff] at hr
  refine ⟨hr.1.2, ?_⟩
  rw [← isGlobalOrFixed_iff htemp, hr.2.1]
  simp

theorem deadInv_zero {p₀ : Pass} {ins : Inputs} {s : Pass × Outputs} (hfits : fits op ct = true)
    (hreuse : ∀ i < op.opc.opDef.nbIargs, ins.reusable i = true ↔ CanReuse p₀ op ct i)
    (hinv : OutputInv home op ct p₀ ins op.opc.opDef.nbOargs s) :
    DeadInv home op ct p₀ ins.fixedMoves 0 s.1 := by
  refine ⟨hinv.sound, hinv.kind, ?_, ?_, hinv.away⟩
  · intro r t hocc
    rcases hinv.table.occupant r t hocc with hplace | ⟨-, j, hkj, hj, -⟩
    · exact hplace
    · exact absurd hj (Nat.not_lt.mpr hkj)
  · intro t r hplace
    by_cases hout : t ∈ op.oargs
    · obtain ⟨k, hk, rfl⟩ := mem_oargs.mp hout
      exact Or.inl (hinv.table.done k hk r hplace).1
    · rcases hinv.table.place t r hplace with hocc | ⟨j, hj, ⟨ha, htakes⟩, hsrc⟩
      · exact Or.inl hocc
      · have hidx := fits_alias hfits hj ha
        exact Or.inr ⟨⟨_, Nat.zero_le _, hidx, hsrc, (hreuse _ hidx).mp htakes⟩, hout⟩

theorem deadInv_step {p₀ p p' : Pass} {moves : List (Nat × Reg × Reg)} {k : Nat}
    (hfixed : ∀ t, (home t).isSome = true ↔ kindOf p₀ t = some .fixed)
    (hinv : DeadInv home op ct p₀ moves k p) (h : freeDeadInput op p k = some p') :
    DeadInv home op ct p₀ moves (k + 1) p' := by
  have howned : ∀ t, Owned p t ↔ Owned p₀ t := by
    intro t
    rw [Owned, Owned, hinv.kind]
  -- Unless input `k` is freed, it is not one of the exceptions.
  have hskip : (CanReuse p₀ op ct k → inputOf op k ∈ op.oargs) →
      DeadInv home op ct p₀ moves (k + 1) p := by
    intro hnot
    refine ⟨hinv.sound, hinv.kind, hinv.occupant, ?_, hinv.away⟩
    intro t r hplace
    refine (hinv.place t r hplace).imp_right ?_
    rintro ⟨⟨i, hki, hi, heq, hcan⟩, hout⟩
    refine ⟨⟨i, ?_, hi, heq, hcan⟩, hout⟩
    rcases Nat.lt_or_eq_of_le hki with hlt | hik
    · exact hlt
    · subst hik
      exact absurd (heq ▸ hnot hcan) hout
  rw [freeDeadInput] at h
  split at h
  · rename_i hdead
    rcases leads_tempDeadInput hinv.sound (fun r => hinv.occupant r _) h with
      ⟨hown, rfl⟩ | ⟨hown, hlead⟩
    · exact hskip (fun hcan => absurd ((howned _).mp hown) (canReuse_dead hcan).2)
    · have hhome : home (inputOf op k) = none := by
        cases hh : home (inputOf op k) with
        | none => rfl
        | some a =>
          refine absurd (Or.inr ?_) hown
          rw [hinv.kind]
          exact (hfixed _).mp (by rw [show home (op.args _) = some a from hh]; rfl)
      refine ⟨hlead.sound, fun t => (hlead.kind t).trans (hinv.kind t), ?_, ?_,
        hlead.table ▸ hinv.away.forget hhome⟩
      · intro r t hocc
        rw [hlead.table, TwoWay.forget_occupant] at hocc
        rw [hlead.table, TwoWay.forget_place]
        split at hocc
        · cases hocc
        · rename_i hne
          rw [if_neg, hinv.occupant r t hocc]
          intro heq
          exact hne (heq ▸ hocc)
      · intro t r hplace
        rw [hlead.table, TwoWay.forget_place] at hplace
        rw [hlead.table, TwoWay.forget_occupant]
        split at hplace
        · cases hplace
        · rename_i hne
          rcases hinv.place t r hplace with hocc | ⟨⟨i, hki, hi, heq, hcan⟩, hout⟩
          · left
            rw [if_neg, hocc]
            rw [hocc]
            intro h
            injection h with h
            exact hne h
          · refine Or.inr ⟨⟨i, ?_, hi, heq, hcan⟩, hout⟩
            rcases Nat.lt_or_eq_of_le hki with hlt | hik
            · exact hlt
            · subst hik
              exact absurd heq.symm hne
  · rename_i hdead
    injection h with h
    subst h
    refine hskip ?_
    intro hcan
    simpa [(canReuse_dead hcan).1, inputOf] using hdead

theorem deadInv_consistent {p₀ p : Pass} {moves : List (Nat × Reg × Reg)}
    (hinv : DeadInv home op ct p₀ moves op.opc.opDef.nbIargs p) : (books p).Consistent := by
  intro r t
  refine ⟨hinv.occupant r t, ?_⟩
  intro hplace
  rcases hinv.place t r hplace with hocc | ⟨⟨i, hki, hi, -⟩, -⟩
  · exact hocc
  · omega

/-! ## Bringing the Fixed temps home -/

theorem leads_restoreFixed {p p' : Pass} {t : Nat} {orig moved : Reg} (hs : Sound p)
    (hT : (books p).Consistent) (hfixed : kindOf p t = some .fixed) (hne : orig ≠ moved)
    (hplace : (books p).place t = some moved ∨ (books p).place t = none)
    (h : restoreFixed p (t, orig, moved) = some p') :
    Leads p p' (((books p).forget t).put orig t) := by
  obtain ⟨temp, htemp, h⟩ := Option.bind_eq_some_iff.mp h
  have hisFixed : temp.isFixed = true := by
    rw [kindOf, htemp, Option.map_some, Option.some.injEq] at hfixed
    simp [Temp.isFixed, hfixed]
  rw [if_pos hisFixed] at h
  have hput : Leads p ((p.modTemp t fun t => { t with valType := .reg, reg := some orig }).assign
      orig t) ((books p).put orig t) :=
    leads_occupy (fun t => { t with valType := .reg, reg := some orig }) hs rfl rfl rfl
      ⟨temp, htemp⟩ (fun _ => rfl) (fun _ _ => rfl) (fun _ => rfl)
  dsimp only at h
  split at h
  · rename_i hocc
    injection h with h
    subst h
    have hmoved : (books p).occupant moved = some t := by
      have hm : ((books p).put orig t).occupant moved = some t := hput.table ▸ hocc
      rwa [TwoWay.put_occupant, if_neg hne.symm] at hm
    refine ⟨⟨hput.sound.free.freeReg moved, hput.sound.located, hput.sound.evicted⟩, hput.kind, ?_⟩
    ext u
    · rw [occupant_freeReg, hput.table]
      have hiff := hT u t
      have hiff' := hT moved t
      grind [TwoWay.put_occupant, TwoWay.forget_occupant]
    · rw [place_freeReg, hput.table]
      grind [TwoWay.put_place, TwoWay.forget_place]
  · rename_i hocc
    injection h with h
    subst h
    have hnowhere : ∀ a, (books p).occupant a ≠ some t := by
      intro a ha
      have hpa := (hT a t).mp ha
      rcases hplace with hp | hp
      · rw [hpa] at hp
        injection hp with hp
        refine hocc ?_
        have hm : ((books p).put orig t).occupant moved = some t := by
          rw [TwoWay.put_occupant, if_neg hne.symm, ← hp, ha]
        rw [← hput.table] at hm
        exact hm
      · rw [hpa] at hp
        cases hp
    refine ⟨hput.sound, hput.kind, ?_⟩
    rw [hput.table]
    ext u
    · have := hnowhere u
      grind [TwoWay.put_occupant, TwoWay.forget_occupant]
    · grind [TwoWay.put_place, TwoWay.forget_place]

/-- After every move of the list is undone, all Fixed temps are at home. -/
theorem kept_restoreFixed {p₀ p p' : Pass} (hk : Kept home p₀) (moves : List (Nat × Reg × Reg))
    (hs : Sound p) (hkind : ∀ t, kindOf p t = kindOf p₀ t) (hT : (books p).Consistent)
    (haway : FixedAway home moves (books p)) (hnodup : (moves.map Prod.fst).Nodup)
    (h : moves.foldlM restoreFixed p = some p') : Kept home p' := by
  induction moves generalizing p with
  | nil =>
    injection h with h
    subst h
    refine ⟨hs, hT, ?_, hk.home_reserved, hk.home_distinct, ?_, ?_⟩
    · intro t
      rw [hkind]
      exact hk.home_fixed t
    · intro t r ht
      rcases haway.fixed t r ht with hplace | ⟨m, hm⟩
      · exact hplace
      · cases hm
    · intro r t hocc ht
      rcases haway.others r t hocc with hr | hr
      · exact hr
      · rw [ht] at hr
        cases hr
  | cons move moves ih =>
    obtain ⟨t, orig, moved⟩ := move
    rw [List.foldlM_cons] at h
    obtain ⟨p₁, h₁, h⟩ := Option.bind_eq_some_iff.mp h
    obtain ⟨hhome, hmoved, hplace⟩ := haway.moved t orig moved List.mem_cons_self
    have hreserved := hk.home_reserved t orig hhome
    have hne : orig ≠ moved := by
      rintro rfl
      rw [hreserved] at hmoved
      cases hmoved
    have hfix : kindOf p t = some .fixed := by
      rw [hkind]
      exact (hk.home_fixed t).mp (by rw [hhome]; rfl)
    have hlead := leads_restoreFixed hs hT hfix hne hplace h₁
    rw [List.map_cons, List.nodup_cons] at hnodup
    have hrest : ∀ u h' m, (u, h', m) ∈ moves → u ≠ t := by
      rintro u h' m hm rfl
      exact hnodup.1 (List.mem_map.mpr ⟨_, hm, rfl⟩)
    -- The home register is free, or holds the temp itself.
    have hempty : ((books p).forget t).occupant orig = none := by
      rw [TwoWay.forget_occupant]
      split
      · rfl
      · rename_i hocc
        cases ho : (books p).occupant orig with
        | none => rfl
        | some u =>
          rcases haway.others orig u ho with hr | hr
          · rw [hreserved] at hr
            cases hr
          · rw [hk.home_distinct u t orig hr hhome] at ho
            exact absurd ho hocc
    refine ih hlead.sound (fun u => (hlead.kind u).trans (hkind u)) ?_ ?_ hnodup.2 h
    · rw [hlead.table]
      refine (hT.forget t).put hempty ?_
      rw [TwoWay.forget_place, if_pos rfl]
    · rw [hlead.table]
      constructor
      · intro r u hocc
        rw [TwoWay.put_occupant] at hocc
        split at hocc
        · rename_i hr
          injection hocc with hocc
          exact Or.inr (by rw [← hocc, hr, hhome])
        · rw [TwoWay.forget_occupant] at hocc
          split at hocc
          · cases hocc
          · exact haway.others r u hocc
      · intro u h' hu
        by_cases hut : u = t
        · subst hut
          rw [hhome] at hu
          left
          rw [TwoWay.put_place, if_pos rfl, hu]
        · rw [TwoWay.put_place, if_neg hut, TwoWay.forget_place, if_neg hut]
          refine (haway.fixed u h' hu).imp_right ?_
          rintro ⟨m, hm⟩
          refine ⟨m, (List.mem_cons.mp hm).resolve_left ?_⟩
          intro heq
          injection heq with heq
          exact hut heq
      · intro u h' m hm
        have hut := hrest u h' m hm
        rw [TwoWay.put_place, if_neg hut, TwoWay.forget_place, if_neg hut]
        exact haway.moved u h' m (List.mem_cons_of_mem _ hm)

/-! ## The whole op -/

theorem kept_syncInput {p p' : Pass} {i : Nat} (hk : Kept home p)
    (h : syncInput op p i = some p') : Kept home p' := by
  rw [syncInput] at h
  split at h
  · obtain ⟨p₁, h₁, h⟩ := Option.bind_eq_some_iff.mp h
    injection h with h
    exact hk.same (h ▸ leads_sync_coherent hk.sound h₁)
  · injection h with h
    exact h ▸ hk

theorem kept_regallocOp {p p' : Pass} (hfits : fits op ct = true) (hrel : Releases p op ct)
    (hk : Kept home p) (h : regallocOp p op ct = some p') : Kept home p' := by
  obtain ⟨⟨p₁, ins⟩, h₁, h⟩ := Option.bind_eq_some_iff.mp h
  obtain ⟨ins', h₂, h⟩ := Option.bind_eq_some_iff.mp h
  obtain ⟨⟨p₃, outs⟩, h₃, h⟩ := Option.bind_eq_some_iff.mp h
  obtain ⟨iregs, -, h⟩ := Option.bind_eq_some_iff.mp h
  obtain ⟨p₄, h₄, h⟩ := Option.bind_eq_some_iff.mp h
  obtain ⟨p₅, h₅, h⟩ := Option.bind_eq_some_iff.mp h
  obtain ⟨p₆, h₆, h⟩ := Option.bind_eq_some_iff.mp h
  have hin := inputInv_loop hfits hrel hk h₁
  have hre := reread_loop hin.sound (fun i hi => (hin.loaded i hi).imp (fun _ hr => hr.1)) h₂
  have hout := outputInv_loop hfits hrel hk hin hre h₃
  have hreuse : ∀ i < op.opc.opDef.nbIargs, ins'.reusable i = true ↔ CanReuse p op ct i := by
    intro i hi
    rw [hre.reusable]
    exact (hin.reusable i).trans (and_iff_right hi)
  have hdead := deadInv_zero hfits hreuse hout
  have hemit : ∀ insn, DeadInv home op ct p ins'.fixedMoves 0 (p₃.emit insn) := fun insn =>
    ⟨hdead.sound.emit insn, hdead.kind, hdead.occupant, hdead.place, hdead.away⟩
  have hfree : DeadInv home op ct p ins'.fixedMoves op.opc.opDef.nbIargs p₄ :=
    foldlM_range (DeadInv home op ct p ins'.fixedMoves) (hemit _)
      (fun k _ q q' hq hstep => deadInv_step hk.home_fixed hq hstep) h₄
  have hk₅ : Kept home p₅ := by
    refine kept_restoreFixed hk ins'.fixedMoves hfree.sound hfree.kind (deadInv_consistent hfree)
      hfree.away ?_ h₅
    rw [hre.fixedMoves]
    exact hin.moves_nodup
  have hk₆ : Kept home p₆ :=
    foldlM_invariant (Kept home) hk₅ (fun k _ q q' hq hstep => (kept_tempDeadIf hq hstep).1) h₆
  exact foldlM_invariant (Kept home) hk₆ (fun k _ q q' hq hstep => kept_syncInput hq hstep) h

end TcgRs.Analysis.RegOperands
