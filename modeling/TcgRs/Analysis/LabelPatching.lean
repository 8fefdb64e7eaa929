import TcgRs.Analysis.EmissionSteps

/-!
# Jumps and their labels

Where the jumps of an op list go once its code is emitted.  A jump to a label that is placed before
it checks that its displacement fits 32 bits.  The patches of a label's uses do not, so a jump lands
on a label placed after it exactly when the label is at most `2 ^ 31 - 1` bytes away.
-/

set_option autoImplicit false

namespace TcgRs.Analysis.LabelPatching

open TcgRs.Model TcgRs.Model.Ir TcgRs.Model.X86 TcgRs.Model.CodeBuffer TcgRs.Model.RegAlloc
open TcgRs.Library EmittedCalls JumpPatching EmissionSteps

/-! ## The states between the ops -/

def roleAt (ops : List Op) (k : Nat) : Role := (ops[k]?.map role).getD .other

/-- Each label is set once. -/
def SetOnce (ops : List Op) : Prop :=
  ∀ i j id, roleAt ops i = .place id → roleAt ops j = .place id → i = j

/-- No label is placed or used yet, and nothing is patched. -/
def Fresh (st : Emission) : Prop :=
  st.patches = [] ∧ ∀ id label, st.labels id = some label →
    label.hasValue = false ∧ label.uses = []

/-- `T k` is the state after the first `k` ops. -/
structure Run (ops : List Op) (T : Nat → Emission) : Prop where
  fresh : Fresh (T 0)
  once : SetOnce ops
  step : ∀ k < ops.length, OpStep (roleAt ops k) (T k) (T (k + 1))

/-- The fields of the jumps to a label among the first `k` ops. -/
def fieldsTo (ops : List Op) (T : Nat → Emission) (id k : Nat) : List Nat :=
  (List.range k).filterMap fun i =>
    if roleAt ops i = .branch id then some ((T (i + 1)).buf.offset - 4) else none

theorem lt_length_of_role {ops : List Op} {k : Nat} (h : roleAt ops k ≠ .other) :
    k < ops.length := by
  by_contra hk
  apply h
  rw [roleAt, List.getElem?_eq_none (Nat.le_of_not_lt hk)]
  rfl

section Run

variable {ops : List Op} {T : Nat → Emission} (hrun : Run ops T)

include hrun

theorem offset_mono {i k : Nat} (hik : i ≤ k) (hk : k ≤ ops.length) :
    (T i).buf.offset ≤ (T k).buf.offset := by
  induction k, hik using Nat.le_induction with
  | base => exact le_rfl
  | succ k _ ih => exact (ih (by omega)).trans (hrun.step k (by omega)).offset_le

/-- A jump ends at or after the fourth byte of its code. -/
theorem branch_len {i id : Nat} (hi : roleAt ops i = .branch id) :
    (T i).buf.offset + 4 ≤ (T (i + 1)).buf.offset := by
  have hlt : i < ops.length := lt_length_of_role (by rw [hi]; exact nofun)
  have hstep := hrun.step i hlt
  rw [hi] at hstep
  exact hstep.branch_len

/-- The fields of two jumps lie apart, in the order of the jumps. -/
theorem field_apart {i j id id' : Nat} (hij : i < j) (hi : roleAt ops i = .branch id)
    (hj : roleAt ops j = .branch id') :
    (T (i + 1)).buf.offset - 4 + 4 ≤ (T (j + 1)).buf.offset - 4 := by
  have hlt : j < ops.length := lt_length_of_role (by rw [hj]; exact nofun)
  have hmono : (T (i + 1)).buf.offset ≤ (T j).buf.offset := offset_mono hrun hij hlt.le
  have hfirst := branch_len hrun hi
  have hsecond := branch_len hrun hj
  omega

theorem field_injective {i j id id' : Nat} (hi : roleAt ops i = .branch id)
    (hj : roleAt ops j = .branch id')
    (h : (T (i + 1)).buf.offset - 4 = (T (j + 1)).buf.offset - 4) : i = j := by
  by_contra hne
  rcases Nat.lt_or_gt_of_ne hne with hlt | hlt
  · have hapart := field_apart hrun hlt hi hj
    omega
  · have hapart := field_apart hrun hlt hj hi
    omega

omit hrun in
theorem mem_fieldsTo {id k u : Nat} : u ∈ fieldsTo ops T id k ↔
    ∃ i < k, roleAt ops i = .branch id ∧ u = (T (i + 1)).buf.offset - 4 := by
  unfold fieldsTo
  rw [List.mem_filterMap]
  constructor
  · rintro ⟨i, hi, hu⟩
    split at hu
    · injection hu with hu
      exact ⟨i, List.mem_range.mp hi, ‹_›, hu.symm⟩
    · cases hu
  · rintro ⟨i, hi, hbranch, rfl⟩
    exact ⟨i, List.mem_range.mpr hi, if_pos hbranch⟩

theorem pairwise_fieldsTo (id k : Nat) :
    (fieldsTo ops T id k).Pairwise (fun u v => u + 4 ≤ v) := by
  unfold fieldsTo
  rw [List.pairwise_filterMap]
  refine List.pairwise_lt_range.imp ?_
  intro i j hij u hu v hv
  split at hu
  · split at hv
    · injection hu with hu
      injection hv with hv
      subst hu hv
      exact field_apart hrun hij ‹_› ‹_›
    · cases hv
  · cases hu

omit hrun in
theorem fieldsTo_succ (id k : Nat) : fieldsTo ops T id (k + 1) = fieldsTo ops T id k ++
    if roleAt ops k = .branch id then [(T (k + 1)).buf.offset - 4] else [] := by
  unfold fieldsTo
  rw [List.range_succ, List.filterMap_append]
  congr 1
  split <;> simp [*]

/-! ## The labels -/

/-- A label that is not placed yet holds the fields of the jumps to it. -/
theorem label_before {id k : Nat} (hk : k ≤ ops.length)
    (hnot : ∀ j < k, roleAt ops j ≠ .place id) {label : Label}
    (h : (T k).labels id = some label) :
    label.hasValue = false ∧ label.uses = fieldsTo ops T id k := by
  induction k generalizing label with
  | zero => exact hrun.fresh.2 id label h
  | succ k ih =>
    have hstep := hrun.step k hk
    have hbefore := fun {label} => @ih (by omega) (fun j hj => hnot j (by omega)) label
    have hplace := hnot k (Nat.lt_succ_self k)
    rw [fieldsTo_succ]
    generalize hrole : roleAt ops k = r at hstep hplace
    cases hstep with
    | other _ hlabels _ =>
      rw [if_neg nofun, List.append_nil]
      exact hbefore (hlabels ▸ h)
    | @place _ _ id' label' buf _ _ _ hlabels _ =>
      have hne : id ≠ id' := fun heq => hplace (heq ▸ rfl)
      rw [hlabels, Function.update_of_ne hne] at h
      rw [if_neg nofun, List.append_nil]
      exact hbefore h
    | @direct _ _ id' label' _ _ hlabel hvalue hlabels _ _ _ =>
      rw [hlabels] at h
      have hne : id' ≠ id := by
        rintro rfl
        have hfalse := (hbefore hlabel).1
        rw [hvalue] at hfalse
        cases hfalse
      rw [if_neg (fun heq => hne (Role.branch.inj heq)), List.append_nil]
      exact hbefore h
    | @forward _ _ id' label' _ _ hlabel hvalue hlabels _ =>
      rw [hlabels] at h
      by_cases heq : id = id'
      · subst heq
        rw [Function.update_self] at h
        injection h with h
        subst h
        rw [if_pos rfl, ← (hbefore hlabel).2]
        exact ⟨hvalue, rfl⟩
      · rw [Function.update_of_ne heq] at h
        rw [if_neg (fun hbranch => heq (Role.branch.inj hbranch).symm), List.append_nil]
        exact hbefore h

/-- A placed label keeps the offset where it was placed, and no use. -/
theorem label_after {id j k : Nat} (hplace : roleAt ops j = .place id) (hjk : j < k)
    (hk : k ≤ ops.length) {label : Label} (h : (T k).labels id = some label) :
    label.hasValue = true ∧ label.value = (T (j + 1)).buf.offset ∧ label.uses = [] := by
  induction k, hjk using Nat.le_induction generalizing label with
  | base =>
    have hstep := hrun.step j hk
    rw [hplace] at hstep
    cases hstep with
    | place hext hlabel hpatch hlabels hpatches =>
      rw [hlabels, Function.update_self] at h
      injection h with h
      subst h
      exact ⟨rfl, (patchUses_offset hpatch).symm, rfl⟩
  | succ k hjk ih =>
    have hstep := hrun.step k hk
    have hbefore := fun {label} => @ih (by omega) label
    generalize hrole : roleAt ops k = r at hstep
    cases hstep with
    | other _ hlabels _ => exact hbefore (hlabels ▸ h)
    | @place _ _ id' label' buf _ _ _ hlabels _ =>
      have hne : id ≠ id' := by
        rintro rfl
        have hsame := hrun.once j k id hplace hrole
        omega
      rw [hlabels, Function.update_of_ne hne] at h
      exact hbefore h
    | direct _ _ _ _ hlabels _ _ _ => exact hbefore (hlabels ▸ h)
    | @forward _ _ id' label' _ _ hlabel hvalue hlabels _ =>
      have hne : id ≠ id' := by
        rintro rfl
        have htrue := (hbefore hlabel).1
        rw [hvalue] at htrue
        cases htrue
      rw [hlabels, Function.update_of_ne hne] at h
      exact hbefore h

/-- What a label is placed with. -/
theorem place_step {id k : Nat} (hplace : roleAt ops k = .place id) :
    ∃ buf : CodeBuffer, Extends (T k).buf buf ∧ buf.offset = (T (k + 1)).buf.offset ∧
      (fieldsTo ops T id k).foldlM (patchUse buf.offset) buf = some (T (k + 1)).buf ∧
      (T (k + 1)).patches = (T k).patches ++ fieldsTo ops T id k := by
  have hk : k < ops.length := lt_length_of_role (by rw [hplace]; intro h; cases h)
  have hstep := hrun.step k hk
  rw [hplace] at hstep
  cases hstep with
  | @place _ _ _ label buf hext hlabel hpatch hlabels hpatches =>
    have hnot : ∀ j < k, roleAt ops j ≠ .place id := by
      intro j hj hrole
      have hsame := hrun.once j k id hrole hplace
      omega
    have huses := (label_before hrun hk.le hnot hlabel).2
    rw [huses] at hpatch hpatches
    exact ⟨buf, hext, (patchUses_offset hpatch).symm, hpatch, hpatches⟩

/-- Only placing a label patches anything. -/
theorem step_extends {k : Nat} (hk : k < ops.length) (hplace : ∀ id, roleAt ops k ≠ .place id) :
    Extends (T k).buf (T (k + 1)).buf ∧ (T (k + 1)).patches = (T k).patches := by
  have hstep := hrun.step k hk
  generalize hrole : roleAt ops k = r at hstep
  cases hstep with
  | other hext _ hpatches => exact ⟨hext, hpatches⟩
  | place _ _ _ _ _ => exact absurd hrole (hplace _)
  | direct hext _ _ _ _ hpatches _ _ => exact ⟨hext, hpatches⟩
  | forward hext _ _ _ _ hpatches => exact ⟨hext, hpatches⟩

omit hrun in
theorem role_cases (k : Nat) : (∃ id, roleAt ops k = .place id) ∨ ∀ id, roleAt ops k ≠ .place id := by
  by_cases h : ∃ id, roleAt ops k = .place id
  · exact .inl h
  · exact .inr fun id hid => h ⟨id, hid⟩

/-! ## The patches -/

/-- The fields patched so far: those of the jumps whose label was placed after them. -/
theorem mem_patches {k u : Nat} (hk : k ≤ ops.length) : u ∈ (T k).patches ↔
    ∃ i j id, i < j ∧ j < k ∧ roleAt ops i = .branch id ∧ roleAt ops j = .place id ∧
      u = (T (i + 1)).buf.offset - 4 := by
  induction k with
  | zero =>
    rw [hrun.fresh.1]
    constructor
    · exact nofun
    · rintro ⟨i, j, id, -, hj, -⟩
      omega
  | succ k ih =>
    have hpatches : u ∈ (T (k + 1)).patches ↔ u ∈ (T k).patches ∨
        ∃ id, roleAt ops k = .place id ∧ u ∈ fieldsTo ops T id k := by
      rcases role_cases k with ⟨id, hplace⟩ | hplace
      · obtain ⟨buf, -, -, -, hpatches⟩ := place_step hrun hplace
        rw [hpatches, List.mem_append]
        constructor
        · rintro (h | h)
          · exact .inl h
          · exact .inr ⟨id, hplace, h⟩
        · rintro (h | ⟨id', hplace', h⟩)
          · exact .inl h
          · rw [hplace] at hplace'
            injection hplace' with heq
            exact .inr (heq ▸ h)
      · rw [(step_extends hrun hk hplace).2]
        exact ⟨.inl, fun h => h.elim id fun ⟨id, hid, _⟩ => absurd hid (hplace id)⟩
    rw [hpatches, ih (by omega)]
    constructor
    · rintro (⟨i, j, id, hij, hj, h⟩ | ⟨id, hplace, h⟩)
      · exact ⟨i, j, id, hij, by omega, h⟩
      · obtain ⟨i, hi, hbranch, hu⟩ := mem_fieldsTo.mp h
        exact ⟨i, k, id, hi, by omega, hbranch, hplace, hu⟩
    · rintro ⟨i, j, id, hij, hj, hbranch, hplace, hu⟩
      rcases Nat.lt_succ_iff_lt_or_eq.mp hj with hj | rfl
      · exact .inl ⟨i, j, id, hij, hj, hbranch, hplace, hu⟩
      · exact .inr ⟨id, hplace, mem_fieldsTo.mpr ⟨i, hij, hbranch, hu⟩⟩

/-- No field is patched twice. -/
theorem patches_nodup {k : Nat} (hk : k ≤ ops.length) : (T k).patches.Nodup := by
  induction k with
  | zero =>
    rw [hrun.fresh.1]
    exact List.nodup_nil
  | succ k ih =>
    rcases role_cases k with ⟨id, hplace⟩ | hplace
    · obtain ⟨buf, -, -, -, hpatches⟩ := place_step hrun hplace
      rw [hpatches, List.nodup_append]
      refine ⟨ih (by omega), (pairwise_fieldsTo hrun id k).imp (fun h => by omega), ?_⟩
      rintro u hu v hv rfl
      obtain ⟨i, j, id', hij, hj, hbranch, hplace', hfield⟩ := (mem_patches hrun (by omega)).mp hu
      obtain ⟨i', -, hbranch', hfield'⟩ := mem_fieldsTo.mp hv
      have hsame : i = i' := field_injective hrun hbranch hbranch' (hfield ▸ hfield')
      have hid : id' = id := by
        rw [hsame, hbranch'] at hbranch
        exact (Role.branch.inj hbranch).symm
      have hlate := hrun.once j k id (hid ▸ hplace') hplace
      omega
    · rw [(step_extends hrun hk hplace).2]
      exact ih (by omega)

/-- Emitted bytes outside the patched fields stay as they are. -/
theorem mem_kept {i k a : Nat} (hik : i ≤ k) (hk : k ≤ ops.length) (ha : a < (T i).buf.offset)
    (hout : ∀ u ∈ (T k).patches, ¬ InField u a) : (T k).buf.mem a = (T i).buf.mem a := by
  induction k, hik using Nat.le_induction with
  | base => rfl
  | succ k hik ih =>
    have hmono := offset_mono hrun hik (by omega)
    rcases role_cases k with ⟨id, hplace⟩ | hplace
    · obtain ⟨buf, hext, -, hpatch, hpatches⟩ := place_step hrun hplace
      rw [hpatches] at hout
      have hfields := (patchUses_spec (pairwise_fieldsTo hrun id k) hpatch).2.1 a
        (fun u hu => hout u (List.mem_append_right _ hu))
      rw [hfields, hext.mem_eq a (by omega)]
      exact ih (by omega) (fun u hu => hout u (List.mem_append_left _ hu))
    · obtain ⟨hext, hpatches⟩ := step_extends hrun hk hplace
      rw [hext.mem_eq a (by omega)]
      exact ih (by omega) (hpatches ▸ hout)

/-! ## The displacements -/

/-- The distance from the end of jump `i` to the label that op `j` places. -/
def distance (T : Nat → Emission) (i j : Nat) : Int :=
  ((T (j + 1)).buf.offset : Int) - (T (i + 1)).buf.offset

/-- A jump back carries the distance to its label, which was checked to fit. -/
theorem disp_back {i j id : Nat} (hbranch : roleAt ops i = .branch id)
    (hplace : roleAt ops j = .place id) (hji : j < i) :
    fitsI32 (distance T i j) = true ∧
      (T (i + 1)).buf.readU32 ((T (i + 1)).buf.offset - 4) = BitVec.ofInt 32 (distance T i j) := by
  have hi : i < ops.length := lt_length_of_role (by rw [hbranch]; exact nofun)
  have hstep := hrun.step i hi
  rw [hbranch] at hstep
  cases hstep with
  | direct _ _ hlabel _ _ _ hfits hdisp =>
    have hvalue := (label_after hrun hplace hji hi.le hlabel).2.1
    rw [hvalue] at hfits hdisp
    exact ⟨hfits, hdisp⟩
  | forward _ _ hlabel hvalue _ _ =>
    have htrue := (label_after hrun hplace hji hi.le hlabel).1
    rw [hvalue] at htrue
    cases htrue

/-- Placing a label writes the distance into the field of each jump to it. -/
theorem disp_forward {i j id : Nat} (hbranch : roleAt ops i = .branch id)
    (hplace : roleAt ops j = .place id) (hij : i < j) :
    (T (j + 1)).buf.readU32 ((T (i + 1)).buf.offset - 4) = BitVec.ofInt 32 (distance T i j) := by
  obtain ⟨buf, hext, hoff, hpatch, -⟩ := place_step hrun hplace
  have hread := (patchUses_spec (pairwise_fieldsTo hrun id j) hpatch).2.2 _
    (mem_fieldsTo.mpr ⟨i, hij, hbranch, rfl⟩)
  have hlen := branch_len hrun hbranch
  have hend : (((T (i + 1)).buf.offset - 4 : Nat) : Int) + 4 = (T (i + 1)).buf.offset := by omega
  rw [hread, hoff, hend]
  rfl

/-- A jump keeps its displacement while other labels are placed. -/
theorem disp_kept {i j k id : Nat} (hbranch : roleAt ops i = .branch id)
    (hplace : roleAt ops j = .place id) (hik : i < k) (hjk : j < k) (hk : k < ops.length) :
    (T (k + 1)).buf.readU32 ((T (i + 1)).buf.offset - 4) =
      (T k).buf.readU32 ((T (i + 1)).buf.offset - 4) := by
  have hmono : (T (i + 1)).buf.offset ≤ (T k).buf.offset := offset_mono hrun hik hk.le
  have hlen := branch_len hrun hbranch
  apply readU32_congr
  intro a hle hlt
  rcases role_cases k with ⟨id', hplace'⟩ | hplace'
  · obtain ⟨buf, hext, -, hpatch, -⟩ := place_step hrun hplace'
    have hother : ∀ u ∈ fieldsTo ops T id' k, ¬ InField u a := by
      rintro u hu ⟨hua, hau⟩
      obtain ⟨i', hi', hbranch', rfl⟩ := mem_fieldsTo.mp hu
      have hne : i ≠ i' := by
        rintro rfl
        rw [hbranch] at hbranch'
        have hid := Role.branch.inj hbranch'
        have hsame := hrun.once j k id hplace (hid ▸ hplace')
        omega
      have hlen' := branch_len hrun hbranch'
      rcases Nat.lt_or_gt_of_ne hne with h | h
      · have hapart := field_apart hrun h hbranch hbranch'
        omega
      · have hapart := field_apart hrun h hbranch' hbranch
        omega
    rw [(patchUses_spec (pairwise_fieldsTo hrun id' k) hpatch).2.1 a hother,
      hext.mem_eq a (by omega)]
  · exact (step_extends hrun hk hplace').1.mem_eq a (by omega)

/-- Once its label is placed, a jump carries the distance to it. -/
theorem disp_run {i j k id : Nat} (hbranch : roleAt ops i = .branch id)
    (hplace : roleAt ops j = .place id) (hik : i < k) (hjk : j < k) (hk : k ≤ ops.length) :
    (T k).buf.readU32 ((T (i + 1)).buf.offset - 4) = BitVec.ofInt 32 (distance T i j) := by
  induction k with
  | zero => omega
  | succ k ih =>
    rcases Nat.lt_succ_iff_lt_or_eq.mp hik with hi | rfl
    · rcases Nat.lt_succ_iff_lt_or_eq.mp hjk with hj | rfl
      · rw [disp_kept hrun hbranch hplace hi hj hk]
        exact ih hi hj (by omega)
      · exact disp_forward hrun hbranch hplace hi
    · rcases Nat.lt_succ_iff_lt_or_eq.mp hjk with hj | rfl
      · exact (disp_back hrun hbranch hplace hj).2
      · rw [hbranch] at hplace
        cases hplace

end Run

/-! ## The runs of the emission -/

variable {gen : CodeGen} {tbIdx : BitVec 32} {ctx : Context} {st fin : Emission} {ops : List Op}

/-- The code of the first ops is emitted first. -/
theorem emit_take {k : Nat} (hk : k ≤ ops.length)
    (h : regallocAndEmit gen tbIdx ctx st ops = some fin) :
    ∃ p s, regallocAndCodegen ctx (ops.take k) = some p ∧
      emitCode gen tbIdx st p.buf = some s ∧
      (∀ op, ops[k]? = some op → ∃ p' s' code, stepOp p op = some p' ∧
        p'.buf = p.buf ++ code ∧ Emitted op code ∧ emitCode gen tbIdx s code = some s' ∧
        regallocAndEmit gen tbIdx ctx st (ops.take (k + 1)) = some s') := by
  obtain ⟨q, hq, hemit⟩ := Option.bind_eq_some_iff.mp h
  have hrest : ∀ {l : List Op} {p₁ p₂ : Pass}, l.foldlM stepOp p₁ = some p₂ →
      ∃ code, p₂.buf = p₁.buf ++ code := by
    intro l p₁ p₂ hl
    refine foldlM_invariant (fun p => ∃ code, p.buf = p₁.buf ++ code) ⟨[], by simp⟩ ?_ hl
    rintro op - p p' ⟨code, hcode⟩ hstep
    obtain ⟨code', hcode', -⟩ := emitted_stepOp hstep
    exact ⟨code ++ code', by rw [hcode', hcode, List.append_assoc]⟩
  have hprefix : ∀ n, n ≤ ops.length → ∃ p s, regallocAndCodegen ctx (ops.take n) = some p ∧
      emitCode gen tbIdx st p.buf = some s := by
    intro n _
    have hsplit : (ops.take n ++ ops.drop n).foldlM stepOp (initPass ctx) = some q := by
      rw [List.take_append_drop]
      exact hq
    obtain ⟨p, hp, hlater⟩ := foldlM_prefix hsplit
    obtain ⟨code, hcode⟩ := hrest hlater
    rw [hcode] at hemit
    obtain ⟨s, hs, -⟩ := foldlM_prefix hemit
    exact ⟨p, s, hp, hs⟩
  obtain ⟨p, s, hp, hs⟩ := hprefix k hk
  refine ⟨p, s, hp, hs, ?_⟩
  intro op hop
  obtain ⟨hlt, hget⟩ := List.getElem?_eq_some_iff.mp hop
  obtain ⟨p', s', hp', hs'⟩ := hprefix (k + 1) hlt
  have hemitted : regallocAndEmit gen tbIdx ctx st (ops.take (k + 1)) = some s' :=
    Option.bind_eq_some_iff.mpr ⟨p', hp', hs'⟩
  rw [← List.take_append_getElem hlt, hget] at hp'
  obtain ⟨p₁, hp₁, hlast⟩ := foldlM_prefix hp'
  have heq : p₁ = p := Option.some.inj (hp₁.symm.trans hp)
  rw [List.foldlM_cons, heq] at hlast
  obtain ⟨p₂, hstep, hsame⟩ := Option.bind_eq_some_iff.mp hlast
  injection hsame with hsame
  rw [hsame] at hstep
  obtain ⟨code, hcode, hop⟩ := emitted_stepOp hstep
  rw [hcode] at hs'
  obtain ⟨s₁, hs₁, hlast⟩ := foldlM_prefix hs'
  have heq : s₁ = s := Option.some.inj (hs₁.symm.trans hs)
  exact ⟨p', s', code, hstep, hcode, hop, heq ▸ hlast, hemitted⟩

/-- The state after the first `k` ops. -/
def after (gen : CodeGen) (tbIdx : BitVec 32) (ctx : Context) (st : Emission) (ops : List Op)
    (k : Nat) : Emission :=
  (regallocAndEmit gen tbIdx ctx st (ops.take k)).getD st

theorem after_eq {k : Nat} (hk : k ≤ ops.length)
    (h : regallocAndEmit gen tbIdx ctx st ops = some fin) :
    regallocAndEmit gen tbIdx ctx st (ops.take k) = some (after gen tbIdx ctx st ops k) := by
  obtain ⟨p, s, hp, hs, -⟩ := emit_take hk h
  have hemit : regallocAndEmit gen tbIdx ctx st (ops.take k) = some s :=
    Option.bind_eq_some_iff.mpr ⟨p, hp, hs⟩
  rw [after, hemit, Option.getD_some]

theorem after_length (h : regallocAndEmit gen tbIdx ctx st ops = some fin) :
    after gen tbIdx ctx st ops ops.length = fin := by
  rw [after, List.take_length, h, Option.getD_some]

theorem after_of_eq {k : Nat} {s : Emission}
    (h : regallocAndEmit gen tbIdx ctx st (ops.take k) = some s) :
    after gen tbIdx ctx st ops k = s := by
  rw [after, h, Option.getD_some]

theorem run_after (hfresh : Fresh st) (honce : SetOnce ops)
    (h : regallocAndEmit gen tbIdx ctx st ops = some fin) :
    Run ops (after gen tbIdx ctx st ops) where
  fresh := by
    rw [after_of_eq (k := 0) rfl]
    exact hfresh
  once := honce
  step k hk := by
    obtain ⟨p, s, hp, hs, hstep⟩ := emit_take hk.le h
    obtain ⟨p', s', code, -, -, hcode, hemit, hnext⟩ := hstep _ (List.getElem?_eq_getElem hk)
    have hrole : roleAt ops k = role ops[k] := by
      rw [roleAt, List.getElem?_eq_getElem hk]
      rfl
    rw [after_of_eq (Option.bind_eq_some_iff.mpr ⟨p, hp, hs⟩), after_of_eq hnext, hrole]
    exact opStep_of_emitted hcode hemit

/-- In the arm of an op that places a label: the state after its globals are synced, in which the
label is placed. -/
theorem place_state {j id : Nat} (hplace : roleAt ops j = .place id)
    (h : regallocAndEmit gen tbIdx ctx st ops = some fin) :
    ∃ op p q e, ops[j]? = some op ∧ op.opc = .setLabel ∧ op.args 0 = id ∧
      regallocAndCodegen ctx (ops.take j) = some p ∧ syncGlobals p = some q ∧
      emitCode gen tbIdx st q.buf = some e ∧
      e.labels = (after gen tbIdx ctx st ops j).labels ∧
      e.buf.offset = (after gen tbIdx ctx st ops (j + 1)).buf.offset := by
  have hj : j < ops.length := lt_length_of_role (by rw [hplace]; intro h; cases h)
  obtain ⟨p, s, hp, hs, hstep⟩ := emit_take hj.le h
  obtain ⟨p', s', code, hone, hcode, -, hemit, hnext⟩ := hstep _ (List.getElem?_eq_getElem hj)
  have hrole : role ops[j] = .place id := by
    rw [roleAt, List.getElem?_eq_getElem hj] at hplace
    exact hplace
  have hop : ops[j].opc = .setLabel ∧ ops[j].args 0 = id := by
    unfold role at hrole
    split at hrole
    · exact ⟨‹_›, Role.place.inj hrole⟩
    · cases hrole
    · cases hrole
    · cases hrole
  unfold stepOp at hone
  rw [hop.1] at hone
  obtain ⟨q, hq, hone⟩ := Option.bind_eq_some_iff.mp hone
  injection hone with hone
  obtain ⟨quiet, hquiet, hall⟩ := quiet_syncGlobals hq
  have hlast : code = quiet ++ [.label (ops[j].args 0)] := by
    have hboth : p.buf ++ code = p.buf ++ (quiet ++ [.label (ops[j].args 0)]) := by
      rw [← hcode, ← hone, ← List.append_assoc, ← hquiet]
      rfl
    exact List.append_cancel_left hboth
  rw [hlast] at hemit
  obtain ⟨e, he, hemit⟩ := foldlM_prefix hemit
  rw [List.foldlM_cons] at hemit
  obtain ⟨e', hlabel, hsame⟩ := Option.bind_eq_some_iff.mp hemit
  injection hsame with hsame
  obtain ⟨label, -, hlabel⟩ := Option.bind_eq_some_iff.mp hlabel
  obtain ⟨buf, hbuf, hlabel⟩ := Option.bind_eq_some_iff.mp hlabel
  injection hlabel with hlabel
  have hall' : emitCode gen tbIdx st q.buf = some e := by
    rw [hquiet]
    exact (List.foldlM_append).trans (Option.bind_eq_some_iff.mpr ⟨s, hs, he⟩)
  refine ⟨ops[j], p, q, e, List.getElem?_eq_getElem hj, hop.1, hop.2, hp, hq, hall', ?_, ?_⟩
  · rw [after_of_eq (Option.bind_eq_some_iff.mpr ⟨p, hp, hs⟩)]
    cases emitCode_quiet hall he with
    | other _ hlabels _ => exact hlabels
  · rw [after_of_eq hnext, ← hsame, ← hlabel]
    exact (patchUses_offset hbuf).symm

/-! ## Every branch lands on its label -/

/-- Each jump ends with the distance to its label, each recorded use of a label that is set is
patched once, nothing else is changed, and no use is left if all labels jumped to are set.  A state
after the first ops tells by its offset where the code of the last of them ends. -/
structure BranchesLand (gen : CodeGen) (tbIdx : BitVec 32) (ctx : Context) (st : Emission)
    (ops : List Op) (fin : Emission) : Prop where
  lands : ∀ i j id s t, roleAt ops i = .branch id → roleAt ops j = .place id →
    regallocAndEmit gen tbIdx ctx st (ops.take (i + 1)) = some s →
    regallocAndEmit gen tbIdx ctx st (ops.take (j + 1)) = some t →
    (fin.buf.readU32 (s.buf.offset - 4)).toInt = (t.buf.offset : Int) - s.buf.offset
  usesPatched : ∀ k s id label, regallocAndEmit gen tbIdx ctx st (ops.take k) = some s →
    s.labels id = some label → (∃ j, roleAt ops j = .place id) →
    ∀ u ∈ label.uses, fin.patches.count u = 1
  patched : ∀ u ∈ fin.patches, fin.patches.count u = 1 ∧
    ∃ i j id s, i < j ∧ roleAt ops i = .branch id ∧ roleAt ops j = .place id ∧
      regallocAndEmit gen tbIdx ctx st (ops.take (i + 1)) = some s ∧ u = s.buf.offset - 4
  unchanged : ∀ k s a, regallocAndEmit gen tbIdx ctx st (ops.take k) = some s →
    a < s.buf.offset → (∀ u ∈ fin.patches, ¬ InField u a) → fin.buf.mem a = s.buf.mem a
  noneLeft : (∀ i id, roleAt ops i = .branch id → ∃ j, roleAt ops j = .place id) →
    ∀ id label, fin.labels id = some label → label.uses = []

/-- Whenever a label is placed, each jump that waits for it ends at most `2 ^ 31 - 1` bytes before
it. -/
def WithinReach (gen : CodeGen) (tbIdx : BitVec 32) (ctx : Context) (st : Emission)
    (ops : List Op) : Prop :=
  ∀ j op p q e label, ops[j]? = some op → op.opc = .setLabel →
    regallocAndCodegen ctx (ops.take j) = some p → syncGlobals p = some q →
    emitCode gen tbIdx st q.buf = some e → e.labels (op.args 0) = some label →
    ∀ u ∈ label.uses, e.buf.offset ≤ u + 4 + (2 ^ 31 - 1)

theorem take_min (k : Nat) : ops.take k = ops.take (min k ops.length) := by
  rcases Nat.le_total k ops.length with hle | hle
  · rw [Nat.min_eq_left hle]
  · rw [Nat.min_eq_right hle, List.take_of_length_le hle, List.take_length]

theorem toInt_distance_iff (d : Int) : (BitVec.ofInt 32 d).toInt = d ↔ fitsI32 d = true := by
  constructor
  · intro h
    have hlt := BitVec.toInt_lt (x := BitVec.ofInt 32 d)
    have hle := BitVec.le_toInt (x := BitVec.ofInt 32 d)
    rw [h] at hlt hle
    simp only [fitsI32, Bool.and_eq_true, decide_eq_true_eq]
    omega
  · exact toInt_ofInt_of_fitsI32

section Landing

variable (hfresh : Fresh st) (honce : SetOnce ops)
  (h : regallocAndEmit gen tbIdx ctx st ops = some fin)

include hfresh honce h

/-- What a jump reads once all is emitted. -/
theorem final_disp {i j id : Nat} {s t : Emission} (hbranch : roleAt ops i = .branch id)
    (hplace : roleAt ops j = .place id)
    (hs : regallocAndEmit gen tbIdx ctx st (ops.take (i + 1)) = some s)
    (ht : regallocAndEmit gen tbIdx ctx st (ops.take (j + 1)) = some t) :
    fin.buf.readU32 (s.buf.offset - 4) = BitVec.ofInt 32 ((t.buf.offset : Int) - s.buf.offset) := by
  have hi : i < ops.length := lt_length_of_role (by rw [hbranch]; exact nofun)
  have hj : j < ops.length := lt_length_of_role (by rw [hplace]; intro h; cases h)
  have hdisp := disp_run (run_after hfresh honce h) hbranch hplace hi hj le_rfl
  rw [after_length h, distance, after_of_eq hs, after_of_eq ht] at hdisp
  exact hdisp

/-- The uses of a label in the state in which it is placed are the fields of the jumps before. -/
theorem reach_iff : WithinReach gen tbIdx ctx st ops ↔ ∀ i j id s t, i < j →
    roleAt ops i = .branch id → roleAt ops j = .place id →
    regallocAndEmit gen tbIdx ctx st (ops.take (i + 1)) = some s →
    regallocAndEmit gen tbIdx ctx st (ops.take (j + 1)) = some t →
    fitsI32 ((t.buf.offset : Int) - s.buf.offset) = true := by
  have hrun := run_after hfresh honce h
  have hnot : ∀ {j id}, roleAt ops j = .place id → ∀ k < j, roleAt ops k ≠ .place id := by
    intro j id hplace k hk hplace'
    have hsame := honce k j id hplace' hplace
    omega
  constructor
  · intro hreach i j id s t hij hbranch hplace hs ht
    obtain ⟨op, p, q, e, hop, hset, hid, hp, hq, he, hlabels, hoff⟩ := place_state hplace h
    have hj : j < ops.length := lt_length_of_role (by rw [hplace]; intro h; cases h)
    have hstep := hrun.step j hj
    rw [hplace] at hstep
    cases hstep with
    | @place _ _ _ label buf _ hlabel _ _ _ =>
      have huses := (label_before hrun hj.le (hnot hplace) hlabel).2
      have hle := hreach j op p q e label hop hset hp hq he (by rw [hlabels, hid, hlabel])
        ((after gen tbIdx ctx st ops (i + 1)).buf.offset - 4)
        (by rw [huses]; exact mem_fieldsTo.mpr ⟨i, hij, hbranch, rfl⟩)
      have hlen := branch_len hrun hbranch
      have hmono : (after gen tbIdx ctx st ops (i + 1)).buf.offset ≤
          (after gen tbIdx ctx st ops (j + 1)).buf.offset := offset_mono hrun (by omega) hj
      rw [after_of_eq hs] at hle hlen hmono
      rw [hoff, after_of_eq ht] at hle
      rw [after_of_eq ht] at hmono
      simp only [fitsI32, Bool.and_eq_true, decide_eq_true_eq]
      omega
  · intro hfits j op p q e label hop hset hp hq he hlabel u hu
    have hplace : roleAt ops j = .place (op.args 0) := by
      rw [roleAt, hop]
      show role op = _
      unfold role
      rw [hset]
    obtain ⟨op', p', q', e', hop', -, -, hp', hq', he', hlabels, hoff⟩ := place_state hplace h
    obtain rfl : p' = p := Option.some.inj (hp'.symm.trans hp)
    obtain rfl : q' = q := Option.some.inj (hq'.symm.trans hq)
    obtain rfl : e' = e := Option.some.inj (he'.symm.trans he)
    have hj : j < ops.length := lt_length_of_role (by rw [hplace]; intro h; cases h)
    rw [hlabels] at hlabel
    rw [(label_before hrun hj.le (hnot hplace) hlabel).2] at hu
    obtain ⟨i, hij, hbranch, rfl⟩ := mem_fieldsTo.mp hu
    have hfit := hfits i j _ _ _ hij hbranch hplace (after_eq (by omega) h) (after_eq hj h)
    have hlen := branch_len hrun hbranch
    rw [hoff]
    simp only [fitsI32, Bool.and_eq_true, decide_eq_true_eq] at hfit
    omega

/-- What the patches of a run are, whatever the distances. -/
theorem patched_of_run : ∀ u ∈ fin.patches, fin.patches.count u = 1 ∧
    ∃ i j id s, i < j ∧ roleAt ops i = .branch id ∧ roleAt ops j = .place id ∧
      regallocAndEmit gen tbIdx ctx st (ops.take (i + 1)) = some s ∧ u = s.buf.offset - 4 := by
  have hrun := run_after hfresh honce h
  have hnodup := patches_nodup hrun le_rfl
  have hmem := fun u => @mem_patches _ _ hrun ops.length u le_rfl
  rw [after_length h] at hnodup
  simp only [after_length h] at hmem
  intro u hu
  refine ⟨List.count_eq_one_of_mem hnodup hu, ?_⟩
  obtain ⟨i, j, id, hij, hj, hbranch, hplace, hfield⟩ := (hmem u).mp hu
  exact ⟨i, j, id, _, hij, hbranch, hplace, after_eq (by omega) h, hfield⟩

theorem usesPatched_of_run {k id : Nat} {s : Emission} {label : Label}
    (hs : regallocAndEmit gen tbIdx ctx st (ops.take k) = some s)
    (hlabel : s.labels id = some label) (hset : ∃ j, roleAt ops j = .place id) :
    ∀ u ∈ label.uses, fin.patches.count u = 1 := by
  have hrun := run_after hfresh honce h
  have hmem := fun u => @mem_patches _ _ hrun ops.length u le_rfl
  simp only [after_length h] at hmem
  rw [take_min] at hs
  have hk : min k ops.length ≤ ops.length := Nat.min_le_right _ _
  generalize min k ops.length = k at hs hk
  rw [← after_of_eq hs] at hlabel
  intro u hu
  obtain ⟨j, hplace⟩ := hset
  rcases Nat.lt_or_ge j k with hjk | hkj
  · rw [(label_after hrun hplace hjk hk hlabel).2.2] at hu
    cases hu
  · have hnot : ∀ i < k, roleAt ops i ≠ .place id := by
      intro i hi hplace'
      have hsame := honce i j id hplace' hplace
      omega
    rw [(label_before hrun hk hnot hlabel).2] at hu
    obtain ⟨i, hi, hbranch, hfield⟩ := mem_fieldsTo.mp hu
    have hj : j < ops.length := lt_length_of_role (by rw [hplace]; intro h; cases h)
    have hpatched : u ∈ fin.patches :=
      (hmem u).mpr ⟨i, j, id, by omega, hj, hbranch, hplace, hfield⟩
    exact (patched_of_run hfresh honce h u hpatched).1

theorem unchanged_of_run {k a : Nat} {s : Emission}
    (hs : regallocAndEmit gen tbIdx ctx st (ops.take k) = some s) (ha : a < s.buf.offset)
    (hout : ∀ u ∈ fin.patches, ¬ InField u a) : fin.buf.mem a = s.buf.mem a := by
  have hrun := run_after hfresh honce h
  rw [take_min] at hs
  have hkept := @mem_kept _ _ hrun (min k ops.length) ops.length a (Nat.min_le_right _ _) le_rfl
  rw [after_of_eq hs, after_length h] at hkept
  exact hkept ha hout

theorem noneLeft_of_run (hset : ∀ i id, roleAt ops i = .branch id → ∃ j, roleAt ops j = .place id)
    {id : Nat} {label : Label} (hlabel : fin.labels id = some label) : label.uses = [] := by
  have hrun := run_after hfresh honce h
  rw [← after_length h] at hlabel
  by_cases hplaced : ∃ j, roleAt ops j = .place id
  · obtain ⟨j, hplace⟩ := hplaced
    have hj : j < ops.length := lt_length_of_role (by rw [hplace]; intro h; cases h)
    exact (label_after hrun hplace hj le_rfl hlabel).2.2
  · have hnot : ∀ j < ops.length, roleAt ops j ≠ .place id := fun j _ hplace => hplaced ⟨j, hplace⟩
    rw [(label_before hrun le_rfl hnot hlabel).2]
    apply List.eq_nil_iff_forall_not_mem.mpr
    intro u hu
    obtain ⟨i, -, hbranch, -⟩ := mem_fieldsTo.mp hu
    exact hplaced (hset i id hbranch)

/-- A jump lands on a label that is placed before it. -/
theorem lands_back {i j id : Nat} {s t : Emission} (hji : j < i)
    (hbranch : roleAt ops i = .branch id) (hplace : roleAt ops j = .place id)
    (hs : regallocAndEmit gen tbIdx ctx st (ops.take (i + 1)) = some s)
    (ht : regallocAndEmit gen tbIdx ctx st (ops.take (j + 1)) = some t) :
    fitsI32 ((t.buf.offset : Int) - s.buf.offset) = true := by
  have hfits := (disp_back (run_after hfresh honce h) hbranch hplace hji).1
  rw [distance, after_of_eq hs, after_of_eq ht] at hfits
  exact hfits

theorem reach_of_lands (hland : BranchesLand gen tbIdx ctx st ops fin) :
    WithinReach gen tbIdx ctx st ops := by
  rw [reach_iff hfresh honce h]
  intro i j id s t hij hbranch hplace hs ht
  have hread := hland.lands i j id s t hbranch hplace hs ht
  rw [final_disp hfresh honce h hbranch hplace hs ht] at hread
  exact (toInt_distance_iff _).mp hread

/-- All branches land on their labels exactly when the labels that are jumped forward to are within
reach. -/
theorem branches_land_iff :
    BranchesLand gen tbIdx ctx st ops fin ↔ WithinReach gen tbIdx ctx st ops := by
  constructor
  · exact reach_of_lands hfresh honce h
  · intro hreach
    refine ⟨?_, ?_, patched_of_run hfresh honce h, ?_, ?_⟩
    · intro i j id s t hbranch hplace hs ht
      rw [final_disp hfresh honce h hbranch hplace hs ht]
      apply (toInt_distance_iff _).mpr
      rcases Nat.lt_trichotomy i j with hij | rfl | hji
      · exact (reach_iff hfresh honce h).mp hreach i j id s t hij hbranch hplace hs ht
      · rw [hbranch] at hplace
        cases hplace
      · exact lands_back hfresh honce h hji hbranch hplace hs ht
    · intro k s id label hs hlabel hset
      exact usesPatched_of_run hfresh honce h hs hlabel hset
    · intro k s a hs ha hout
      exact unchanged_of_run hfresh honce h hs ha hout
    · intro hset id label hlabel
      exact noneLeft_of_run hfresh honce h hset hlabel

end Landing

/-! ## Runs -/

/-- A context without temps. -/
def bareContext : Context where
  temps _ := Temp.newEbb .i64
  nbTemps := 0
  nbGlobals := 0
  frameReg := none
  frameStart := 0
  frameEnd := 0
  frameAllocEnd := 0

/-- An empty buffer and labels that are not placed. -/
def bareEmission (size : Nat) : Emission :=
  ⟨⟨size, 0, fun _ => 0⟩, fun id => some (Label.new id), [], []⟩

def bareGen : CodeGen := ⟨0, 0⟩

theorem fresh_bareEmission (size : Nat) : Fresh (bareEmission size) := by
  refine ⟨rfl, ?_⟩
  intro id label h
  injection h with h
  subst h
  exact ⟨rfl, rfl⟩

def setLabelOp (id : Nat) : Op := Op.withArgs .setLabel .i64 [id]

def brOp (id : Nat) : Op := Op.withArgs .br .i64 [id]

def mbOp : Op := Op.withArgs .mb .i64 []

/-- A jump over the other and back to the first label. -/
def crossingOps : List Op := [setLabelOp 1, brOp 0, brOp 1, setLabelOp 0]

theorem setOnce_crossingOps : SetOnce crossingOps := by
  intro i j id hi hj
  have hlt : ∀ {k}, roleAt crossingOps k = .place id → k < 4 := by
    intro k hk
    have hlen : k < crossingOps.length := lt_length_of_role (by rw [hk]; exact nofun)
    exact hlen
  have hone : ∀ k < 4, roleAt crossingOps k = .place id → id = 1 ∧ k = 0 ∨ id = 0 ∧ k = 3 := by
    intro k hk
    match k, hk with
    | 0, _ => exact fun h => .inl ⟨(Role.place.inj h).symm, rfl⟩
    | 1, _ => exact nofun
    | 2, _ => exact nofun
    | 3, _ => exact fun h => .inr ⟨(Role.place.inj h).symm, rfl⟩
  have hfirst := hone i (hlt hi) hi
  have hsecond := hone j (hlt hj) hj
  omega

theorem crossing_branches_land_iff : ∃ fin,
    regallocAndEmit bareGen 0 bareContext (bareEmission 64) crossingOps = some fin ∧
      (BranchesLand bareGen 0 bareContext (bareEmission 64) crossingOps fin ↔
        WithinReach bareGen 0 bareContext (bareEmission 64) crossingOps) := by
  have h : (regallocAndEmit bareGen 0 bareContext (bareEmission 64) crossingOps).isSome = true := by
    decide
  obtain ⟨fin, h⟩ := Option.isSome_iff_exists.mp h
  exact ⟨fin, h, branches_land_iff (fresh_bareEmission 64) setOnce_crossingOps h⟩

/-! ## A jump over 2 GiB -/

/-- A jump over `n` memory barriers. -/
def farOps (n : Nat) : List Op := brOp 0 :: (List.replicate n mbOp ++ [setLabelOp 0])

theorem roleAt_farOps (n k : Nat) : roleAt (farOps n) k =
    if k = 0 then .branch 0 else if k = n + 1 then .place 0 else .other := by
  cases k with
  | zero => rfl
  | succ k =>
    unfold roleAt farOps
    rw [List.getElem?_cons_succ, List.getElem?_append, List.length_replicate]
    rcases Nat.lt_trichotomy k n with hlt | rfl | hgt
    · rw [if_pos hlt, List.getElem?_replicate, if_pos hlt, if_neg (by omega), if_neg (by omega)]
      rfl
    · rw [if_neg (by omega), Nat.sub_self, if_neg (by omega), if_pos rfl]
      rfl
    · rw [if_neg (by omega), if_neg (by omega), if_neg (by omega), List.getElem?_eq_none]
      · rfl
      · rw [List.length_singleton]
        omega

theorem setOnce_farOps (n : Nat) : SetOnce (farOps n) := by
  intro i j id hi hj
  rw [roleAt_farOps] at hi hj
  split at hi
  · cases hi
  · split at hi
    · split at hj
      · cases hj
      · split at hj
        · omega
        · cases hj
    · cases hi

theorem codegen_barriers (n : Nat) (p : Pass) : (List.replicate n mbOp).foldlM stepOp p =
    some { p with buf := p.buf ++ List.replicate n .mfence } := by
  induction n generalizing p with
  | zero =>
    rw [List.replicate_zero, List.replicate_zero, List.append_nil]
    rfl
  | succ n ih =>
    rw [List.replicate_succ, List.foldlM_cons]
    show (List.replicate n mbOp).foldlM stepOp (p.emit .mfence) = _
    rw [ih, List.replicate_succ]
    unfold Pass.emit
    rw [List.append_assoc]
    rfl

theorem emit_barriers (n : Nat) {s : Emission} (hfits : s.buf.offset + 3 * n ≤ s.buf.size) :
    ∃ buf : CodeBuffer, buf.offset = s.buf.offset + 3 * n ∧ buf.size = s.buf.size ∧
      emitCode bareGen 0 s (List.replicate n .mfence) = some { s with buf := buf } := by
  induction n generalizing s with
  | zero => exact ⟨s.buf, rfl, rfl, rfl⟩
  | succ n ih =>
    obtain ⟨buf₁, hbuf₁⟩ : ∃ buf, s.buf.emitBytes emitMfence = some buf :=
      ⟨_, if_pos (show s.buf.offset + 3 ≤ s.buf.size by omega)⟩
    obtain ⟨-, hsize, hoff, -⟩ := emitBytes_eq_some hbuf₁
    have hoff : buf₁.offset = s.buf.offset + 3 := hoff
    obtain ⟨buf, hend, hsize', hcode⟩ := @ih { s with buf := buf₁ } (by dsimp only; omega)
    have hend : buf.offset = buf₁.offset + 3 * n := hend
    refine ⟨buf, by omega, hsize'.trans hsize, ?_⟩
    unfold emitCode at hcode ⊢
    rw [List.replicate_succ, List.foldlM_cons]
    refine Option.bind_eq_some_iff.mpr ⟨{ s with buf := buf₁ }, ?_, hcode⟩
    exact Option.bind_eq_some_iff.mpr ⟨buf₁, hbuf₁, rfl⟩

theorem emit_farJump : ∃ s, emitBr (bareEmission 4294967296) 0 = some s ∧ s.buf.offset = 5 ∧
    s.buf.size = 4294967296 ∧ s.labels 0 = some ⟨0, false, false, 0, [1]⟩ := by
  have h : ((emitBr (bareEmission 4294967296) 0).any fun s => s.buf.offset == 5 &&
      s.buf.size == 4294967296 && s.labels 0 == some ⟨0, false, false, 0, [1]⟩) = true := by
    decide
  rw [Option.any_eq_true] at h
  obtain ⟨s, hs, h⟩ := h
  simp only [Bool.and_eq_true, beq_iff_eq] at h
  exact ⟨s, hs, h.1.1, h.1.2, h.2⟩

theorem codegen_farOps (n : Nat) : regallocAndCodegen bareContext (farOps n) =
    some ⟨bareContext, .new allocatableRegs,
      [.jmp 0] ++ List.replicate n .mfence ++ [.label 0], []⟩ := by
  unfold regallocAndCodegen farOps
  rw [List.foldlM_cons]
  show (List.replicate n mbOp ++ [setLabelOp 0]).foldlM stepOp
    ⟨bareContext, .new allocatableRegs, [.jmp 0], []⟩ = _
  rw [List.foldlM_append, codegen_barriers]
  rfl

theorem emitLabel_isSome {s : Emission} {label : Label} {id u : Nat}
    (hlabel : s.labels id = some label) (huses : label.uses = [u]) (hu : u + 4 ≤ s.buf.size) :
    ∃ s', emitLabel s id = some s' ∧ s'.buf.offset = s.buf.offset := by
  obtain ⟨buf, hpatch⟩ : ∃ buf, patchUse s.buf.offset s.buf u = some buf := patchU32_isSome hu
  have huses' : label.uses.foldlM (patchUse s.buf.offset) s.buf = some buf := by
    rw [huses]
    exact Option.bind_eq_some_iff.mpr ⟨buf, hpatch, rfl⟩
  refine ⟨_, Option.bind_eq_some_iff.mpr ⟨label, hlabel,
    Option.bind_eq_some_iff.mpr ⟨buf, huses', rfl⟩⟩, ?_⟩
  exact (patchUse_spec hpatch).1

/-- The code of the jump is five bytes long, that of each barrier three. -/
theorem emit_farOps {n : Nat} (hn : 5 + 3 * n ≤ 4294967296) :
    ∃ s fin, regallocAndEmit bareGen 0 bareContext (bareEmission 4294967296)
        ((farOps n).take 1) = some s ∧ s.buf.offset = 5 ∧
      regallocAndEmit bareGen 0 bareContext (bareEmission 4294967296) (farOps n) = some fin ∧
        fin.buf.offset = 5 + 3 * n := by
  obtain ⟨s, hs, hoff, hsize, hlabel⟩ := emit_farJump
  have hjump : emitCode bareGen 0 (bareEmission 4294967296) [.jmp 0] = some s :=
    Option.bind_eq_some_iff.mpr ⟨s, hs, rfl⟩
  have hfits : s.buf.offset + 3 * n ≤ s.buf.size := by omega
  obtain ⟨buf, hend, hbuf, hcode⟩ := emit_barriers n hfits
  obtain ⟨fin, hplaced, hfin⟩ : ∃ fin, emitLabel { s with buf := buf } 0 = some fin ∧
      fin.buf.offset = buf.offset :=
    emitLabel_isSome hlabel rfl (show 1 + 4 ≤ buf.size by omega)
  have hall : emitCode bareGen 0 (bareEmission 4294967296)
      ([.jmp 0] ++ List.replicate n .mfence ++ [.label 0]) = some fin := by
    unfold emitCode
    rw [List.foldlM_append, List.foldlM_append]
    refine Option.bind_eq_some_iff.mpr ⟨{ s with buf := buf }, ?_, ?_⟩
    · exact Option.bind_eq_some_iff.mpr ⟨s, hjump, hcode⟩
    · exact Option.bind_eq_some_iff.mpr ⟨fin, hplaced, rfl⟩
  refine ⟨s, fin, Option.bind_eq_some_iff.mpr ⟨_, rfl, hjump⟩, hoff, ?_, by omega⟩
  exact Option.bind_eq_some_iff.mpr ⟨_, codegen_farOps n, hall⟩

/-- A jump over enough barriers does not land on its label. -/
theorem far_jump_misses {n : Nat} (hn : 5 + 3 * n ≤ 4294967296) (hfar : 2147483647 < 3 * n) :
    ∃ fin, regallocAndEmit bareGen 0 bareContext (bareEmission 4294967296) (farOps n) = some fin ∧
      ¬ BranchesLand bareGen 0 bareContext (bareEmission 4294967296) (farOps n) fin := by
  obtain ⟨s, fin, hs, hsoff, hfin, hoff⟩ := emit_farOps hn
  refine ⟨fin, hfin, ?_⟩
  intro hland
  have hreach := reach_of_lands (fresh_bareEmission _) (setOnce_farOps n) hfin hland
  have hlen : (farOps n).length = n + 1 + 1 := by
    unfold farOps
    rw [List.length_cons, List.length_append, List.length_replicate, List.length_singleton]
  have hall : (farOps n).take (n + 1 + 1) = farOps n := List.take_of_length_le hlen.le
  have hbranch : roleAt (farOps n) 0 = .branch 0 := rfl
  have hplace : roleAt (farOps n) (n + 1) = .place 0 := by
    rw [roleAt_farOps, if_neg (by omega), if_pos rfl]
  have hfits := (reach_iff (fresh_bareEmission _) (setOnce_farOps n) hfin).mp hreach 0 (n + 1) 0 s
    fin (by omega) hbranch hplace hs (by rw [hall]; exact hfin)
  rw [hoff, hsoff] at hfits
  simp only [fitsI32, Bool.and_eq_true, decide_eq_true_eq] at hfits
  omega

/-- The patch of a use casts its displacement to 32 bits without a check. -/
theorem forward_jump_wraps :
    ¬∀ (gen : CodeGen) (tbIdx : BitVec 32) (ctx : Context) (st : Emission) (ops : List Op)
      (fin : Emission), Fresh st → SetOnce ops →
      regallocAndEmit gen tbIdx ctx st ops = some fin →
      BranchesLand gen tbIdx ctx st ops fin := by
  intro hall
  obtain ⟨fin, hfin, hmiss⟩ := @far_jump_misses 715827883 (by norm_num) (by norm_num)
  exact hmiss (hall _ _ _ _ _ _ (fresh_bareEmission _) (setOnce_farOps _) hfin)

end TcgRs.Analysis.LabelPatching
