import TcgRs.Analysis.EmittedCalls
import TcgRs.Analysis.JumpPatching
import TcgRs.Model.X86.Emission
import Mathlib.Data.List.GetD

/-!
# Emission, op by op

What the code of one op does to the code buffer and to the labels.  A jump to a label that is placed
gets its displacement at once; one to a label that is not placed yet leaves a use, and placing the
label patches its uses.
-/

set_option autoImplicit false

namespace TcgRs.Analysis.EmissionSteps

open TcgRs.Model TcgRs.Model.Ir TcgRs.Model.X86 TcgRs.Model.CodeBuffer TcgRs.Model.RegAlloc
open TcgRs.Library EmittedCalls JumpPatching

/-! ## The displacement field -/

/-- Address `a` lies in the field at `u`. -/
def InField (u a : Nat) : Prop := u ≤ a ∧ a < u + 4

theorem readU32_emitBytes {buf buf' : CodeBuffer} (front : List Byte) {val : BitVec 32}
    (h : buf.emitBytes (front ++ emitU32 val) = some buf') :
    buf'.readU32 (buf'.offset - 4) = val := by
  obtain ⟨-, -, hoff, hmem⟩ := emitBytes_eq_some h
  have hlen : (front ++ emitU32 val).length = front.length + 4 := by
    rw [List.length_append]
    rfl
  have hpos : buf'.offset - 4 = buf.offset + front.length := by omega
  have hbyte : ∀ k, k < 4 →
      buf'.mem (buf.offset + front.length + k) = (emitU32 val).getD k 0 := by
    intro k hk
    rw [hmem, Nat.add_assoc, writeAt_add (by omega), List.getD_append_right _ _ _ _ (by omega),
      Nat.add_sub_cancel_left]
  rw [hpos]
  exact readU32_write (hbyte 0 (by omega)) (hbyte 1 (by omega)) (hbyte 2 (by omega))
    (hbyte 3 (by omega))

theorem emitBytes_offset {buf buf' : CodeBuffer} {bs : List Byte}
    (h : buf.emitBytes bs = some buf') : buf'.offset = buf.offset + bs.length :=
  (emitBytes_eq_some h).2.2.1

/-- A patch writes the displacement to its field and nothing else. -/
theorem patchUse_spec {offset u : Nat} {buf buf' : CodeBuffer}
    (h : patchUse offset buf u = some buf') :
    buf'.offset = buf.offset ∧ (∀ a, ¬ InField u a → buf'.mem a = buf.mem a) ∧
      buf'.readU32 u = BitVec.ofInt 32 ((offset : Int) - (u + 4)) := by
  refine ⟨(patchU32_size_offset h).2, ?_, readU32_patchU32 h⟩
  intro a ha
  unfold patchUse patchU32 at h
  split at h
  · injection h with h
    subst h
    exact if_neg ha
  · cases h

/-- The patches of a label's uses, for uses that lie apart. -/
theorem patchUses_spec {offset : Nat} {uses : List Nat} {buf buf' : CodeBuffer}
    (hapart : uses.Pairwise (fun u v => u + 4 ≤ v))
    (h : uses.foldlM (patchUse offset) buf = some buf') :
    buf'.offset = buf.offset ∧ (∀ a, (∀ u ∈ uses, ¬ InField u a) → buf'.mem a = buf.mem a) ∧
      ∀ u ∈ uses, buf'.readU32 u = BitVec.ofInt 32 ((offset : Int) - (u + 4)) := by
  induction uses generalizing buf with
  | nil =>
    injection h with h
    subst h
    exact ⟨rfl, fun _ _ => rfl, nofun⟩
  | cons u uses ih =>
    obtain ⟨hfirst, hrest⟩ := List.pairwise_cons.mp hapart
    rw [List.foldlM_cons] at h
    obtain ⟨buf₁, hone, h⟩ := Option.bind_eq_some_iff.mp h
    obtain ⟨hoff₁, hmem₁, hread₁⟩ := patchUse_spec hone
    obtain ⟨hoff, hmem, hread⟩ := ih hrest h
    refine ⟨hoff.trans hoff₁, ?_, ?_⟩
    · intro a ha
      rw [hmem a (fun v hv => ha v (List.mem_cons_of_mem _ hv)), hmem₁ a (ha u List.mem_cons_self)]
    · intro v hv
      cases List.mem_cons.mp hv with
      | inr hv => exact hread v hv
      | inl hv =>
        subst hv
        rw [← hread₁]
        apply readU32_congr
        intro a hle hlt
        apply hmem
        rintro w hw ⟨hwa, -⟩
        have hapart := hfirst w hw
        omega

/-! ## The calls of the backend -/

/-- What an op does to the labels. -/
inductive Role where
  | place (id : Nat)
  | branch (id : Nat)
  | other
  deriving DecidableEq

def role (op : Op) : Role :=
  match op.opc with
  | .setLabel => .place (op.args 0)
  | .br => .branch (op.args 0)
  | .brCond => .branch (op.args 3)
  | _ => .other

/-- What the code of an op does to the buffer, the labels and the patches. -/
inductive OpStep : Role → Emission → Emission → Prop where
  | other {s s' : Emission} (hext : Extends s.buf s'.buf) (hlabels : s'.labels = s.labels)
      (hpatches : s'.patches = s.patches) : OpStep .other s s'
  | place {s s' : Emission} {id : Nat} {label : Label} {buf : CodeBuffer}
      (hext : Extends s.buf buf) (hlabel : s.labels id = some label)
      (hpatch : label.uses.foldlM (patchUse buf.offset) buf = some s'.buf)
      (hlabels : s'.labels =
        Function.update s.labels id (some { label.setValue buf.offset with uses := [] }))
      (hpatches : s'.patches = s.patches ++ label.uses) : OpStep (.place id) s s'
  | direct {s s' : Emission} {id : Nat} {label : Label} (hext : Extends s.buf s'.buf)
      (hlen : s.buf.offset + 4 ≤ s'.buf.offset) (hlabel : s.labels id = some label)
      (hvalue : label.hasValue = true) (hlabels : s'.labels = s.labels)
      (hpatches : s'.patches = s.patches)
      (hfits : fitsI32 ((label.value : Int) - s'.buf.offset) = true)
      (hdisp : s'.buf.readU32 (s'.buf.offset - 4) =
        BitVec.ofInt 32 ((label.value : Int) - s'.buf.offset)) : OpStep (.branch id) s s'
  | forward {s s' : Emission} {id : Nat} {label : Label} (hext : Extends s.buf s'.buf)
      (hlen : s.buf.offset + 4 ≤ s'.buf.offset) (hlabel : s.labels id = some label)
      (hvalue : label.hasValue = false)
      (hlabels : s'.labels =
        Function.update s.labels id (some (label.addUse (s'.buf.offset - 4))))
      (hpatches : s'.patches = s.patches) : OpStep (.branch id) s s'

variable {gen : CodeGen} {tbIdx : BitVec 32} {s s' : Emission}

theorem emitInsn_quiet {insn : HostInsn} (hquiet : isQuiet insn = true)
    (h : emitInsn gen tbIdx s insn = some s') : OpStep .other s s' := by
  unfold emitInsn at h
  split at h
  · cases hquiet
  · cases hquiet
  · cases hquiet
  · obtain ⟨buf, hbuf, h⟩ := Option.bind_eq_some_iff.mp h
    injection h with h
    subst h
    exact .other (emitExitTb_extends hbuf).1 rfl rfl
  · obtain ⟨⟨buf, jmp, reset⟩, hbuf, h⟩ := Option.bind_eq_some_iff.mp h
    injection h with h
    subst h
    exact .other (emitGotoTb_spec hbuf).1 rfl rfl
  · obtain ⟨bytes, -, h⟩ := Option.bind_eq_some_iff.mp h
    obtain ⟨buf, hbuf, h⟩ := Option.bind_eq_some_iff.mp h
    injection h with h
    subst h
    exact .other (emitBytes_extends hbuf) rfl rfl

theorem emitCode_quiet {code : List HostInsn} (hquiet : ∀ insn ∈ code, isQuiet insn = true)
    (h : emitCode gen tbIdx s code = some s') : OpStep .other s s' := by
  refine foldlM_invariant (OpStep .other s) (.other (.refl _) rfl rfl) ?_ h
  intro insn hinsn t t' ht hstep
  cases ht with
  | other hext hlabels hpatches =>
    cases emitInsn_quiet (hquiet insn hinsn) hstep with
    | other hext' hlabels' hpatches' =>
      exact .other (hext.trans hext') (hlabels'.trans hlabels) (hpatches'.trans hpatches)

/-- Quiet calls may come first. -/
theorem OpStep.after_quiet {r : Role} {m : Emission} (hquiet : OpStep .other s m)
    (h : OpStep r m s') : OpStep r s s' := by
  cases hquiet with
  | other hext hlabels hpatches =>
    cases h with
    | other hext' hlabels' hpatches' =>
      exact .other (hext.trans hext') (hlabels'.trans hlabels) (hpatches'.trans hpatches)
    | place hext' hlabel hpatch hlabels' hpatches' =>
      exact .place (hext.trans hext') (hlabels ▸ hlabel) hpatch (hlabels ▸ hlabels')
        (hpatches ▸ hpatches')
    | direct hext' hlen hlabel hvalue hlabels' hpatches' hfits hdisp =>
      exact .direct (hext.trans hext') (le_trans (Nat.add_le_add_right hext.offset_le 4) hlen)
        (hlabels ▸ hlabel) hvalue (hlabels'.trans hlabels) (hpatches'.trans hpatches) hfits hdisp
    | forward hext' hlen hlabel hvalue hlabels' hpatches' =>
      exact .forward (hext.trans hext') (le_trans (Nat.add_le_add_right hext.offset_le 4) hlen)
        (hlabels ▸ hlabel) hvalue (hlabels ▸ hlabels') (hpatches'.trans hpatches)

theorem emitLabel_step {id : Nat} (h : emitLabel s id = some s') : OpStep (.place id) s s' := by
  obtain ⟨label, hlabel, h⟩ := Option.bind_eq_some_iff.mp h
  obtain ⟨buf, hbuf, h⟩ := Option.bind_eq_some_iff.mp h
  injection h with h
  subst h
  exact .place (.refl _) hlabel hbuf rfl rfl

theorem emitBr_step {id : Nat} (h : emitBr s id = some s') : OpStep (.branch id) s s' := by
  obtain ⟨label, hlabel, h⟩ := Option.bind_eq_some_iff.mp h
  split at h
  · rename_i hvalue
    obtain ⟨buf, hbuf, h⟩ := Option.bind_eq_some_iff.mp h
    injection h with h
    subst h
    obtain ⟨hext, hoff⟩ := emitJmp_extends hbuf
    have hend : (buf.offset : Int) = s.buf.offset + 5 := by omega
    unfold emitJmp at hbuf
    dsimp only at hbuf
    split at hbuf
    · rename_i hfits
      refine .direct hext (by dsimp only; omega) hlabel hvalue rfl rfl ?_ ?_
      · dsimp only
        rw [hend]
        exact hfits
      · dsimp only
        rw [readU32_emitBytes [0xE9] hbuf, hend]
    · cases hbuf
  · rename_i hvalue
    obtain ⟨buf₁, hbuf₁, h⟩ := Option.bind_eq_some_iff.mp h
    obtain ⟨buf₂, hbuf₂, h⟩ := Option.bind_eq_some_iff.mp h
    injection h with h
    subst h
    have hoff : buf₂.offset = buf₁.offset + 4 := emitBytes_offset hbuf₂
    have hle := (emitBytes_extends hbuf₁).offset_le
    refine .forward ((emitBytes_extends hbuf₁).trans (emitBytes_extends hbuf₂))
      (by dsimp only; omega) hlabel (Bool.not_eq_true _ ▸ hvalue) ?_ rfl
    dsimp only [Emission.setLabel]
    rw [hoff, Nat.add_sub_cancel]

theorem emitBrCond_step {ty : IrType} {a b : Reg} {cond : Cond} {id : Nat}
    (h : emitBrCond s ty a b cond id = some s') : OpStep (.branch id) s s' := by
  obtain ⟨label, hlabel, h⟩ := Option.bind_eq_some_iff.mp h
  obtain ⟨buf₁, hbuf₁, h⟩ := Option.bind_eq_some_iff.mp h
  have hle := (emitBytes_extends hbuf₁).offset_le
  split at h
  · rename_i hvalue
    obtain ⟨buf₂, hbuf₂, h⟩ := Option.bind_eq_some_iff.mp h
    injection h with h
    subst h
    unfold emitDisp at hbuf₂
    dsimp only at hbuf₂
    split at hbuf₂
    · rename_i hfits
      have hoff : buf₂.offset = buf₁.offset + 4 := emitBytes_offset hbuf₂
      have hend : (buf₂.offset : Int) = buf₁.offset + 4 := by omega
      refine .direct ((emitBytes_extends hbuf₁).trans (emitBytes_extends hbuf₂))
        (by dsimp only; omega) hlabel hvalue rfl rfl ?_ ?_
      · dsimp only
        rw [hend]
        exact hfits
      · dsimp only
        rw [readU32_emitBytes [] hbuf₂, hend]
    · cases hbuf₂
  · rename_i hvalue
    obtain ⟨buf₂, hbuf₂, h⟩ := Option.bind_eq_some_iff.mp h
    injection h with h
    subst h
    have hoff : buf₂.offset = buf₁.offset + 4 := emitBytes_offset hbuf₂
    exact .forward ((emitBytes_extends hbuf₁).trans (emitBytes_extends hbuf₂))
      (by dsimp only; omega) hlabel (Bool.not_eq_true _ ▸ hvalue) rfl rfl

/-- A conditional branch that emits anything has both its inputs. -/
theorem emitInsn_brCond_step {ty : IrType} {iregs : List Reg} {c id : Nat}
    (h : emitInsn gen tbIdx s (.op .brCond ty [] iregs [c, id]) = some s') :
    OpStep (.branch id) s s' := by
  match iregs, h with
  | a :: b :: _, h =>
    obtain ⟨cond, -, h⟩ := Option.bind_eq_some_iff.mp h
    exact emitBrCond_step h
  | [_], h => cases h
  | [], h => cases h

/-- The code of an op. -/
theorem opStep_of_emitted {op : Op} {code : List HostInsn} (hcode : Emitted op code)
    (h : emitCode gen tbIdx s code = some s') : OpStep (role op) s s' := by
  obtain ⟨quiet, hquiet, hcode⟩ := hcode
  have hlast : ∀ insn, code = quiet ++ [insn] → ∃ m, OpStep .other s m ∧
      emitInsn gen tbIdx m insn = some s' := by
    intro insn hcode
    rw [hcode] at h
    obtain ⟨m, hm, h⟩ := foldlM_prefix h
    rw [List.foldlM_cons] at h
    obtain ⟨s₂, h₂, heq⟩ := Option.bind_eq_some_iff.mp h
    injection heq with heq
    exact ⟨m, emitCode_quiet hquiet hm, heq ▸ h₂⟩
  split at hcode
  · rename_i hop
    obtain ⟨m, hm, h⟩ := hlast _ hcode
    have hrole : role op = .place (op.args 0) := by
      unfold role
      rw [hop]
    rw [hrole]
    exact hm.after_quiet (emitLabel_step h)
  · rename_i hop
    obtain ⟨m, hm, h⟩ := hlast _ hcode
    have hrole : role op = .branch (op.args 0) := by
      unfold role
      rw [hop]
    rw [hrole]
    exact hm.after_quiet (emitBr_step h)
  · rename_i hop
    obtain ⟨iregs, hcode⟩ := hcode
    obtain ⟨m, hm, h⟩ := hlast _ hcode
    have hcargs : op.cargs = [op.args 2, op.args 3] := by
      unfold Op.cargs
      rw [hop]
      rfl
    have hrole : role op = .branch (op.args 3) := by
      unfold role
      rw [hop]
    rw [hcargs] at h
    rw [hrole]
    exact hm.after_quiet (emitInsn_brCond_step h)
  · rename_i hlabel hbr hcond
    rw [hcode] at h
    unfold role
    split
    · exact absurd ‹_› hlabel
    · exact absurd ‹_› hbr
    · exact absurd ‹_› hcond
    · exact emitCode_quiet hquiet h

/-! ## Lengths -/

theorem patchUses_offset {offset : Nat} {uses : List Nat} {buf buf' : CodeBuffer}
    (h : uses.foldlM (patchUse offset) buf = some buf') : buf'.offset = buf.offset :=
  foldlM_invariant (fun b => b.offset = buf.offset) rfl
    (fun _ _ _ _ hb hs => (patchUse_spec hs).1.trans hb) h

theorem OpStep.offset_le {r : Role} (h : OpStep r s s') : s.buf.offset ≤ s'.buf.offset := by
  cases h with
  | other hext _ _ => exact hext.offset_le
  | place hext _ hpatch _ _ => exact (patchUses_offset hpatch).symm ▸ hext.offset_le
  | direct hext _ _ _ _ _ _ _ => exact hext.offset_le
  | forward hext _ _ _ _ _ => exact hext.offset_le

theorem OpStep.branch_len {id : Nat} (h : OpStep (.branch id) s s') :
    s.buf.offset + 4 ≤ s'.buf.offset := by
  cases h with
  | direct _ hlen _ _ _ _ _ _ => exact hlen
  | forward _ hlen _ _ _ _ => exact hlen

end TcgRs.Analysis.EmissionSteps
