import TcgRs.Analysis.LabelPatching
import TcgRs.Analysis.OptimizerMeaning
import TcgRs.Model.Exec.Translate

/-!
# Jump slots

The emission of `goto_tb` records a jump without the index that the op carries, and `tb_gen_code`
takes the place in the list of recorded jumps for the slot.  The slots are those of the ops exactly
when the indices come in the order of the places.
-/

set_option autoImplicit false

namespace TcgRs.Analysis.JumpSlots

open TcgRs.Model TcgRs.Model.Ir TcgRs.Model.X86 TcgRs.Model.Exec TcgRs.Model.RegAlloc
open TcgRs.Model.Optimize TcgRs.Model.Liveness TcgRs.Library TcgRs.Interface.Ir
open EmittedCalls EmissionSteps JumpPatching LabelPatching OptimizerMeaning

/-! ## Indices -/

/-- The index of a `goto_tb`. -/
def gotoIndex (op : Op) : Option Nat := if op.opc = .gotoTb then some (op.args 0) else none

/-- The indices of an op list in the order of its ops. -/
def gotoIndices (ops : List Op) : List Nat := ops.filterMap gotoIndex

theorem gotoIndex_of_ne {op : Op} (h : op.opc ≠ .gotoTb) : gotoIndex op = none := if_neg h

theorem opc_of_gotoIndex {op : Op} {n : Nat} (h : gotoIndex op = some n) : op.opc = .gotoTb := by
  by_contra hne
  rw [gotoIndex_of_ne hne] at h
  cases h

theorem gotoIndex_optimizeOp (p : Optimize.Pass) (op : Op) :
    gotoIndex (optimizeOp p op).2 = gotoIndex op := by
  cases hc : isControl op.opc with
  | false =>
    have hne : ∀ opc : Opcode, isControl opc = false → opc ≠ .gotoTb := by
      rintro opc h rfl
      cases h
    rw [gotoIndex_of_ne (hne _ hc), gotoIndex_of_ne (hne _ (isControl_optimizeOp p hc))]
  | true =>
    by_cases hopc : op.opc = .brCond
    · have hfold : (foldBrcond p (propagateCopies p.info op)).opc ≠ .gotoTb := by
        unfold foldBrcond
        dsimp only
        split_ifs
        · exact Opcode.noConfusion
        · exact Opcode.noConfusion
        · show op.opc ≠ .gotoTb
          rw [hopc]
          exact Opcode.noConfusion
      have hne : op.opc ≠ .gotoTb := by
        rw [hopc]
        exact Opcode.noConfusion
      rw [optimizeOp_brCond p hopc, gotoIndex_of_ne hfold, gotoIndex_of_ne hne]
    · rw [optimizeOp_of_control p hc hopc]

theorem gotoIndices_optimizeOps (p : Optimize.Pass) (ops : List Op) :
    gotoIndices (optimizeOps p ops).2 = gotoIndices ops := by
  induction ops generalizing p with
  | nil => rfl
  | cons op ops ih =>
    show gotoIndices ((optimizeOp p op).2 :: (optimizeOps (optimizeOp p op).1 ops).2) = _
    unfold gotoIndices at ih ⊢
    rw [List.filterMap_cons, List.filterMap_cons, ih, gotoIndex_optimizeOp]

theorem gotoIndex_livenessOp (ctx : Context) (live : Nat → Bool) (op : Op) :
    gotoIndex (livenessOp ctx live op).2 = gotoIndex op := by
  unfold livenessOp
  dsimp only
  split <;> rfl

theorem gotoIndices_livenessAnalysis (ctx : Context) (ops : List Op) :
    gotoIndices (livenessAnalysis ctx ops) = gotoIndices ops := by
  unfold livenessAnalysis
  induction ops with
  | nil => rfl
  | cons op ops ih =>
    show gotoIndices ((livenessOp ctx (livenessFrom ctx ops).1 op).2 :: (livenessFrom ctx ops).2) =
      _
    unfold gotoIndices at ih ⊢
    rw [List.filterMap_cons, List.filterMap_cons, ih, gotoIndex_livenessOp]

/-- The passes keep the indices. -/
theorem gotoIndices_prepared (ir : IrContext) :
    gotoIndices ir.prepared.2 = gotoIndices ir.ops :=
  (gotoIndices_livenessAnalysis _ _).trans (gotoIndices_optimizeOps _ _)

/-! ## Recorded jumps -/

variable {gen : CodeGen} {tbIdx : BitVec 32} {ctx : Context} {st fin s s' : Emission}
  {ops : List Op}

def isGoto : HostInsn → Bool
  | .op .gotoTb _ _ _ _ => true
  | _ => false

theorem not_goto_of_own {opc : Opcode} {insn : HostInsn} (hopc : opc ≠ .gotoTb)
    (h : isOwn opc insn = true) : isGoto insn = false := by
  unfold isGoto
  split
  · exact absurd (of_decide_eq_true h).symm hopc
  · rfl

/-- The jump at the end of the code of a `goto_tb`, and the offset after it. -/
def jumpAt (s : Emission) : Nat × Nat := (s.buf.offset - 5, s.buf.offset)

theorem emitInsn_other {insn : HostInsn} (hinsn : isGoto insn = false)
    (h : emitInsn gen tbIdx s insn = some s') : s'.gotoTbInfo = s.gotoTbInfo := by
  unfold emitInsn at h
  split at h
  · obtain ⟨label, -, h⟩ := Option.bind_eq_some_iff.mp h
    obtain ⟨buf, -, h⟩ := Option.bind_eq_some_iff.mp h
    injection h with h
    exact h ▸ rfl
  · obtain ⟨label, -, h⟩ := Option.bind_eq_some_iff.mp h
    split at h
    · obtain ⟨buf, -, h⟩ := Option.bind_eq_some_iff.mp h
      injection h with h
      exact h ▸ rfl
    · obtain ⟨buf, -, h⟩ := Option.bind_eq_some_iff.mp h
      obtain ⟨buf', -, h⟩ := Option.bind_eq_some_iff.mp h
      injection h with h
      exact h ▸ rfl
  · obtain ⟨cond, -, h⟩ := Option.bind_eq_some_iff.mp h
    obtain ⟨label, -, h⟩ := Option.bind_eq_some_iff.mp h
    obtain ⟨buf, -, h⟩ := Option.bind_eq_some_iff.mp h
    split at h
    · obtain ⟨buf, -, h⟩ := Option.bind_eq_some_iff.mp h
      injection h with h
      exact h ▸ rfl
    · obtain ⟨buf, -, h⟩ := Option.bind_eq_some_iff.mp h
      injection h with h
      exact h ▸ rfl
  · obtain ⟨buf, -, h⟩ := Option.bind_eq_some_iff.mp h
    injection h with h
    exact h ▸ rfl
  · cases hinsn
  · obtain ⟨bytes, -, h⟩ := Option.bind_eq_some_iff.mp h
    obtain ⟨buf, -, h⟩ := Option.bind_eq_some_iff.mp h
    injection h with h
    exact h ▸ rfl

theorem emitCode_other {code : List HostInsn} (hcode : ∀ insn ∈ code, isGoto insn = false)
    (h : emitCode gen tbIdx s code = some s') : s'.gotoTbInfo = s.gotoTbInfo :=
  foldlM_invariant (fun t => t.gotoTbInfo = s.gotoTbInfo) rfl
    (fun insn hmem _ _ ht hstep => (emitInsn_other (hcode insn hmem) hstep).trans ht) h

theorem emitInsn_goto {ty : IrType} {cargs : List Nat}
    (h : emitInsn gen tbIdx s (.op .gotoTb ty [] [] cargs) = some s') :
    s'.gotoTbInfo = s.gotoTbInfo ++ [jumpAt s'] ∧ s.buf.offset + 5 ≤ s'.buf.offset := by
  obtain ⟨⟨buf, jmp, reset⟩, hgoto, h⟩ := Option.bind_eq_some_iff.mp h
  injection h with h
  obtain ⟨-, hle, hreset, hoff, -⟩ := emitGotoTb_spec hgoto
  have hjmp : buf.offset - 5 = jmp := by omega
  rw [← h]
  refine ⟨?_, ?_⟩
  · unfold jumpAt
    dsimp only
    rw [hjmp, hoff, hreset]
  · dsimp only
    omega

/-- The code of an op records one jump if it is a `goto_tb`, and else none. -/
theorem emitCode_calls {op : Op} {code : List HostInsn} (hcode : Calls op code)
    (h : emitCode gen tbIdx s code = some s') :
    s'.gotoTbInfo = s.gotoTbInfo ++ ((gotoIndex op).map fun _ => jumpAt s').toList ∧
      (op.opc = .gotoTb → s.buf.offset + 5 ≤ s'.buf.offset) := by
  have hnone : op.opc ≠ .gotoTb → s'.gotoTbInfo = s.gotoTbInfo →
      s'.gotoTbInfo = s.gotoTbInfo ++ ((gotoIndex op).map fun _ => jumpAt s').toList ∧
        (op.opc = .gotoTb → s.buf.offset + 5 ≤ s'.buf.offset) := by
    intro hne hsame
    refine ⟨?_, fun hop => absurd hop hne⟩
    rw [gotoIndex_of_ne hne, hsame, Option.map_none, Option.toList_none, List.append_nil]
  cases hcode with
  | own hop hown =>
    exact hnone hop.2.2.2
      (emitCode_other (fun insn hmem => not_goto_of_own hop.2.2.2 (hown insn hmem)) h)
  | last hcode hfront hlast =>
    rename_i front insn
    rw [hcode] at h
    obtain ⟨m, hm, h⟩ := foldlM_prefix h
    rw [List.foldlM_cons] at h
    obtain ⟨s₂, hinsn, heq⟩ := Option.bind_eq_some_iff.mp h
    injection heq with heq
    rw [heq] at hinsn
    have hnop : Opcode.nop ≠ .gotoTb := nofun
    have hfirst := emitCode_other (fun insn hmem => not_goto_of_own hnop (hfront insn hmem)) hm
    rcases hlast with ⟨hop, rfl⟩ | ⟨hop, rfl⟩ | ⟨hop, iregs, rfl⟩ | ⟨hop, rfl⟩
    · exact hnone (by rw [hop]; nofun) ((emitInsn_other rfl hinsn).trans hfirst)
    · exact hnone (by rw [hop]; nofun) ((emitInsn_other rfl hinsn).trans hfirst)
    · exact hnone (by rw [hop]; nofun) ((emitInsn_other rfl hinsn).trans hfirst)
    · obtain ⟨hinfo, hle⟩ := emitInsn_goto hinsn
      have hbr : Opcode.nop ≠ .brCond := nofun
      have hquiet := emitCode_quiet (fun insn hmem => isQuiet_of_isOwn hbr (hfront insn hmem)) hm
      refine ⟨?_, fun _ => le_trans (Nat.add_le_add_right hquiet.offset_le 5) hle⟩
      rw [hinfo, hfirst, gotoIndex, if_pos hop]
      rfl

theorem patchUses_size {offset : Nat} {uses : List Nat} {buf buf' : CodeBuffer}
    (h : uses.foldlM (patchUse offset) buf = some buf') : buf'.size = buf.size :=
  foldlM_invariant (fun b => b.size = buf.size) rfl
    (fun _ _ _ _ hb hs => (CodeBuffer.patchU32_size_offset hs).1.trans hb) h

theorem size_kept {r : Role} (h : OpStep r s s') : s'.buf.size = s.buf.size ∧
    (s.buf.offset ≤ s.buf.size → s'.buf.offset ≤ s.buf.size) := by
  cases h with
  | other hext _ _ => exact ⟨hext.size_eq, hext.offset_le_size⟩
  | place hext _ hpatch _ _ =>
    rw [patchUses_offset hpatch, patchUses_size hpatch]
    exact ⟨hext.size_eq, hext.offset_le_size⟩
  | direct hext _ _ _ _ _ _ _ => exact ⟨hext.size_eq, hext.offset_le_size⟩
  | forward hext _ _ _ _ _ => exact ⟨hext.size_eq, hext.offset_le_size⟩

/-- One op of the run. -/
theorem after_step {k : Nat} {op : Op} (hop : ops[k]? = some op)
    (h : regallocAndEmit gen tbIdx ctx st ops = some fin) :
    (after gen tbIdx ctx st ops (k + 1)).gotoTbInfo = (after gen tbIdx ctx st ops k).gotoTbInfo ++
        ((gotoIndex op).map fun _ => jumpAt (after gen tbIdx ctx st ops (k + 1))).toList ∧
      (op.opc = .gotoTb → (after gen tbIdx ctx st ops k).buf.offset + 5 ≤
        (after gen tbIdx ctx st ops (k + 1)).buf.offset) ∧
      OpStep (role op) (after gen tbIdx ctx st ops k) (after gen tbIdx ctx st ops (k + 1)) := by
  obtain ⟨hk, -⟩ := List.getElem?_eq_some_iff.mp hop
  obtain ⟨p, s, hp, hs, hstep⟩ := emit_take hk.le h
  obtain ⟨p', s', code, hone, hcode, hemitted, hemit, hnext⟩ := hstep op hop
  obtain ⟨code', hcode', hcalls⟩ := calls_stepOp hone
  rw [hcode] at hcode'
  rw [after_of_eq (Option.bind_eq_some_iff.mpr ⟨p, hp, hs⟩), after_of_eq hnext]
  obtain ⟨hinfo, hle⟩ := emitCode_calls (List.append_cancel_left hcode' ▸ hcalls) hemit
  exact ⟨hinfo, hle, opStep_of_emitted hemitted hemit⟩

theorem after_mono (h : regallocAndEmit gen tbIdx ctx st ops = some fin) {i k : Nat} (hik : i ≤ k)
    (hk : k ≤ ops.length) : (after gen tbIdx ctx st ops i).buf.offset ≤
      (after gen tbIdx ctx st ops k).buf.offset := by
  induction k, hik using Nat.le_induction with
  | base => exact le_rfl
  | succ k _ ih =>
    have hstep := (after_step (List.getElem?_eq_getElem hk) h).2.2
    exact (ih (Nat.le_of_lt hk)).trans hstep.offset_le

/-- The jump of op `k` with its index, if it is a `goto_tb`: the last instruction of its code. -/
def jumpEntry (gen : CodeGen) (tbIdx : BitVec 32) (ctx : Context) (st : Emission) (ops : List Op)
    (k : Nat) : Option (Nat × Nat × Nat) :=
  (ops[k]?.bind gotoIndex).map fun n => (n, jumpAt (after gen tbIdx ctx st ops (k + 1)))

/-- The jumps emitted for the `goto_tb`s of an op list, with their indices. -/
def emittedJumps (gen : CodeGen) (tbIdx : BitVec 32) (ctx : Context) (st : Emission)
    (ops : List Op) : List (Nat × Nat × Nat) :=
  (List.range ops.length).filterMap (jumpEntry gen tbIdx ctx st ops)

/-- The recorded jumps are those of the op list, without their indices. -/
theorem recorded_jumps (hstart : st.gotoTbInfo = [])
    (h : regallocAndEmit gen tbIdx ctx st ops = some fin) :
    fin.gotoTbInfo = (emittedJumps gen tbIdx ctx st ops).map Prod.snd := by
  suffices hall : ∀ k, k ≤ ops.length → (after gen tbIdx ctx st ops k).gotoTbInfo =
      ((List.range k).filterMap (jumpEntry gen tbIdx ctx st ops)).map Prod.snd by
    rw [← after_length h]
    exact hall _ le_rfl
  intro k hk
  induction k with
  | zero =>
    rw [after_of_eq (k := 0) rfl]
    exact hstart
  | succ k ih =>
    have hget : ops[k]? = some ops[k] := List.getElem?_eq_getElem hk
    have hentry : ((gotoIndex ops[k]).map fun _ =>
        jumpAt (after gen tbIdx ctx st ops (k + 1))).toList =
          ([k].filterMap (jumpEntry gen tbIdx ctx st ops)).map Prod.snd := by
      rw [List.filterMap_cons, jumpEntry, hget, Option.bind_some]
      cases gotoIndex ops[k] <;> rfl
    rw [(after_step hget h).1, ih (Nat.le_of_lt hk), hentry, ← List.map_append,
      ← List.filterMap_append, ← List.range_succ]

theorem filterMap_range {α β : Type} (l : List α) (g : α → Option β) :
    (List.range l.length).filterMap (fun k => l[k]?.bind g) = l.filterMap g := by
  induction l with
  | nil => rfl
  | cons a l ih =>
    rw [List.length_cons, List.range_succ_eq_map, List.filterMap_cons, List.filterMap_cons,
      List.filterMap_map]
    have htail : ((fun k => (a :: l)[k]?.bind g) ∘ Nat.succ) = fun k => l[k]?.bind g := rfl
    rw [htail, ih]
    rfl

theorem map_fst_emittedJumps :
    (emittedJumps gen tbIdx ctx st ops).map Prod.fst = gotoIndices ops := by
  rw [emittedJumps, List.map_filterMap, gotoIndices, ← filterMap_range ops]
  refine List.filterMap_congr ?_
  intro k _
  rw [jumpEntry, Option.map_map]
  exact Option.map_id'

/-- The jumps lie one after the other in the buffer. -/
theorem pairwise_emittedJumps (h : regallocAndEmit gen tbIdx ctx st ops = some fin) :
    (emittedJumps gen tbIdx ctx st ops).Pairwise fun i j => i.2.2 + 5 ≤ j.2.2 := by
  unfold emittedJumps
  rw [List.pairwise_filterMap]
  refine List.pairwise_lt_range.imp ?_
  intro i j hij u hu v hv
  obtain ⟨m, -, rfl⟩ := Option.map_eq_some_iff.mp hu
  obtain ⟨n, hn, rfl⟩ := Option.map_eq_some_iff.mp hv
  obtain ⟨op, hop, hindex⟩ := Option.bind_eq_some_iff.mp hn
  obtain ⟨hj, -⟩ := List.getElem?_eq_some_iff.mp hop
  exact le_trans (Nat.add_le_add_right (after_mono h hij hj.le) 5)
    ((after_step hop h).2.1 (opc_of_gotoIndex hindex))

theorem mem_emittedJumps {n : Nat} {j : Nat × Nat}
    (h : regallocAndEmit gen tbIdx ctx st ops = some fin)
    (hj : (n, j) ∈ emittedJumps gen tbIdx ctx st ops) :
    5 ≤ j.2 ∧ j.1 = j.2 - 5 ∧ j.2 ≤ fin.buf.offset := by
  obtain ⟨k, -, hentry⟩ := List.mem_filterMap.mp hj
  obtain ⟨m, hm, heq⟩ := Option.map_eq_some_iff.mp hentry
  obtain ⟨op, hop, hindex⟩ := Option.bind_eq_some_iff.mp hm
  obtain ⟨hk, -⟩ := List.getElem?_eq_some_iff.mp hop
  injection heq with _ heq
  have hlast := after_mono h (show k + 1 ≤ ops.length from hk) le_rfl
  have hlen := (after_step hop h).2.1 (opc_of_gotoIndex hindex)
  rw [after_length h] at hlast
  subst heq
  unfold jumpAt
  dsimp only
  omega

/-- The code stays within the buffer. -/
theorem offset_le_size (hfits : st.buf.offset ≤ st.buf.size)
    (h : regallocAndEmit gen tbIdx ctx st ops = some fin) : fin.buf.offset ≤ st.buf.size := by
  suffices hall : ∀ k, k ≤ ops.length →
      (after gen tbIdx ctx st ops k).buf.size = st.buf.size ∧
        (after gen tbIdx ctx st ops k).buf.offset ≤ st.buf.size by
    rw [← after_length h]
    exact (hall _ le_rfl).2
  intro k hk
  induction k with
  | zero =>
    rw [after_of_eq (k := 0) rfl]
    exact ⟨rfl, hfits⟩
  | succ k ih =>
    obtain ⟨hsize, hoff⟩ := ih (Nat.le_of_lt hk)
    have hstep := size_kept (after_step (List.getElem?_eq_getElem hk) h).2.2
    rw [hsize] at hstep
    exact ⟨hstep.1, hstep.2 hoff⟩

/-! ## The slots of a block -/

/-- Each slot has the jump emitted for the `goto_tb` with its index, and none if there is no such
`goto_tb`. -/
def SlotsMatch (tb : TranslationBlock) (jumps : List (Nat × Nat × Nat)) : Prop :=
  ∀ n : Slot, tb.jmpInsnOffset n = (jumps.lookup n.val).map (fun j => BitVec.ofNat 32 j.1) ∧
    tb.jmpResetOffset n = (jumps.lookup n.val).map (fun j => BitVec.ofNat 32 j.2)

instance (tb : TranslationBlock) (jumps : List (Nat × Nat × Nat)) :
    Decidable (SlotsMatch tb jumps) :=
  inferInstanceAs (Decidable (∀ n : Slot,
    tb.jmpInsnOffset n = (jumps.lookup n.val).map (fun j => BitVec.ofNat 32 j.1) ∧
      tb.jmpResetOffset n = (jumps.lookup n.val).map (fun j => BitVec.ofNat 32 j.2)))

/-- The jumps of the ops that the backend gets. -/
def jumpsOf (gen : CodeGen) (tbIdx : BitVec 32) (ir : IrContext) (buf : CodeBuffer) :
    List (Nat × Nat × Nat) :=
  emittedJumps gen tbIdx ir.prepared.1 (ir.emission buf) ir.prepared.2

/-- The indices are those of the slots in the order in which the slots are filled. -/
def InSlotOrder (indices : List Nat) : Prop := indices = [] ∨ indices = [0] ∨ indices = [0, 1]

/-- At most two different slots, in any order. -/
theorem slot_lists {indices : List Nat} (hnodup : indices.Nodup) (hslots : ∀ n ∈ indices, n < 2) :
    InSlotOrder indices ∨ indices = [1] ∨ indices = [1, 0] := by
  have hlen : indices.length ≤ 2 := by
    have hsub : indices ⊆ List.range 2 := fun n hn => List.mem_range.mpr (hslots n hn)
    exact (hnodup.subperm hsub).length_le
  unfold InSlotOrder
  match indices, hlen with
  | [], _ => exact .inl (.inl rfl)
  | [a], _ =>
    have ha := hslots a List.mem_cons_self
    rcases (show a = 0 ∨ a = 1 by omega) with rfl | rfl
    · exact .inl (.inr (.inl rfl))
    · exact .inr (.inl rfl)
  | [a, b], _ =>
    have ha := hslots a List.mem_cons_self
    have hb := hslots b (List.mem_cons_of_mem _ List.mem_cons_self)
    have hne : a ≠ b := fun h => (List.nodup_cons.mp hnodup).1 (h ▸ List.mem_cons_self)
    rcases (show a = 0 ∧ b = 1 ∨ a = 1 ∧ b = 0 by omega) with ⟨rfl, rfl⟩ | ⟨rfl, rfl⟩
    · exact .inl (.inr (.inr rfl))
    · exact .inr (.inr rfl)

/-- The slots of a new block with the jumps recorded by their places. -/
theorem slotsMatch_recordJumps_iff {tb : TranslationBlock} {jumps : List (Nat × Nat × Nat)}
    (hinsn : tb.jmpInsnOffset = fun _ => none) (hreset : tb.jmpResetOffset = fun _ => none)
    (hnodup : (jumps.map Prod.fst).Nodup) (hslots : ∀ n ∈ jumps.map Prod.fst, n < 2)
    (happart : jumps.Pairwise fun i j => BitVec.ofNat 32 i.2.2 ≠ BitVec.ofNat 32 j.2.2) :
    SlotsMatch (recordJumps tb (jumps.map Prod.snd)) jumps ↔ InSlotOrder (jumps.map Prod.fst) := by
  rcases slot_lists hnodup hslots with hin | hone | hswapped
  · refine iff_of_true ?_ hin
    intro n
    match jumps, hin with
    | [], _ => exact ⟨congrFun hinsn n, congrFun hreset n⟩
    | [(a, j)], hin =>
      obtain rfl : a = 0 := by simpa [InSlotOrder] using hin
      rcases Slot.cases n with rfl | rfl
      · exact ⟨rfl, rfl⟩
      · exact ⟨congrFun hinsn 1, congrFun hreset 1⟩
    | [(a, j), (b, j')], hin =>
      obtain ⟨rfl, rfl⟩ : a = 0 ∧ b = 1 := by simpa [InSlotOrder] using hin
      rcases Slot.cases n with rfl | rfl <;> exact ⟨rfl, rfl⟩
    | _ :: _ :: _ :: _, hin => simp [InSlotOrder] at hin
  · match jumps, hone with
    | [(a, j)], hone =>
      injection hone with ha
      dsimp only at ha
      subst ha
      refine iff_of_false ?_ (by simp [InSlotOrder])
      intro hmatch
      cases (hmatch 0).1
  · match jumps, hswapped with
    | [(a, j), (b, j')], hswapped =>
      injection hswapped with ha hb
      injection hb with hb
      dsimp only at ha hb
      subst ha hb
      refine iff_of_false ?_ (by simp [InSlotOrder])
      intro hmatch
      have hreset₀ : some (BitVec.ofNat 32 j.2) = some (BitVec.ofNat 32 j'.2) := (hmatch 0).2
      exact (List.pairwise_cons.mp happart).1 _ List.mem_cons_self (Option.some.inj hreset₀)

theorem slots_match_iff {pc : BitVec 64} {flags guestSize : BitVec 32} {ir : IrContext}
    {buf : CodeBuffer} {tb : TranslationBlock} (hnodup : (gotoIndices ir.ops).Nodup)
    (hslots : ∀ n ∈ gotoIndices ir.ops, n < 2) (hsize : buf.size = codeBufSize)
    (hfits : buf.offset ≤ buf.size)
    (h : tbFromOps gen tbIdx pc flags guestSize ir buf = some (tb, fin)) :
    SlotsMatch tb (jumpsOf gen tbIdx ir buf) ↔ InSlotOrder (gotoIndices ir.ops) := by
  obtain ⟨fin', htranslate, h⟩ := Option.bind_eq_some_iff.mp h
  injection h with h
  injection h with htb hfin
  subst hfin
  have hindices : (jumpsOf gen tbIdx ir buf).map Prod.fst = gotoIndices ir.ops :=
    map_fst_emittedJumps.trans (gotoIndices_prepared ir)
  have hinfo : fin'.gotoTbInfo = (jumpsOf gen tbIdx ir buf).map Prod.snd :=
    recorded_jumps rfl htranslate
  rw [← hindices] at hnodup hslots ⊢
  rw [← htb, hinfo]
  refine slotsMatch_recordJumps_iff rfl rfl hnodup hslots ?_
  have hend : fin'.buf.offset ≤ buf.size := offset_le_size hfits htranslate
  rw [hsize, codeBufSize] at hend
  refine (pairwise_emittedJumps htranslate).imp_of_mem ?_
  intro i j hi hj happart heq
  have hi' := (mem_emittedJumps htranslate hi).2.2
  have hj' := (mem_emittedJumps htranslate hj).2.2
  have hnat := congrArg BitVec.toNat heq
  rw [BitVec.toNat_ofNat, BitVec.toNat_ofNat, Nat.mod_eq_of_lt (by omega),
    Nat.mod_eq_of_lt (by omega)] at hnat
  omega

/-! ## Blocks without temps -/

/-- The ops of a block without temps. -/
def bareIr (ops : List Op) : IrContext := ⟨bareContext, fun _ _ => none, fun _ => none, ops⟩

def emptyBuffer : CodeBuffer := ⟨codeBufSize, 0, fun _ => 0⟩

/-- `GotoTb 0; ExitTb 0; GotoTb 1; ExitTb 1`. -/
theorem slots_match_iff_both : ∃ tb fin,
    tbFromOps bareGen 0 0 0 8 (bareIr [Op.withArgs .gotoTb .i64 [0], Op.withArgs .exitTb .i64 [0],
      Op.withArgs .gotoTb .i64 [1], Op.withArgs .exitTb .i64 [1]]) emptyBuffer = some (tb, fin) ∧
      SlotsMatch tb (jumpsOf bareGen 0 (bareIr [Op.withArgs .gotoTb .i64 [0],
        Op.withArgs .exitTb .i64 [0], Op.withArgs .gotoTb .i64 [1], Op.withArgs .exitTb .i64 [1]])
        emptyBuffer) := by
  have h : (tbFromOps bareGen 0 0 0 8 (bareIr [Op.withArgs .gotoTb .i64 [0],
      Op.withArgs .exitTb .i64 [0], Op.withArgs .gotoTb .i64 [1], Op.withArgs .exitTb .i64 [1]])
      emptyBuffer).isSome = true := by decide
  obtain ⟨⟨tb, fin⟩, h⟩ := Option.isSome_iff_exists.mp h
  exact ⟨tb, fin, h, (slots_match_iff (by decide) (by decide) rfl (Nat.zero_le _) h).mpr
    (.inr (.inr rfl))⟩

/-- `GotoTb 1; ExitTb 1`: the jump lands in slot 0. -/
theorem lone_second_slot : ∃ tb fin,
    tbFromOps bareGen 0 0 0 4 (bareIr [Op.withArgs .gotoTb .i64 [1], Op.withArgs .exitTb .i64 [1]])
      emptyBuffer = some (tb, fin) ∧
      ¬SlotsMatch tb (jumpsOf bareGen 0 (bareIr [Op.withArgs .gotoTb .i64 [1],
        Op.withArgs .exitTb .i64 [1]]) emptyBuffer) := by
  have h : ((tbFromOps bareGen 0 0 0 4 (bareIr [Op.withArgs .gotoTb .i64 [1],
      Op.withArgs .exitTb .i64 [1]]) emptyBuffer).any fun p =>
        !decide (SlotsMatch p.1 (jumpsOf bareGen 0 (bareIr [Op.withArgs .gotoTb .i64 [1],
          Op.withArgs .exitTb .i64 [1]]) emptyBuffer))) = true := by decide
  rw [Option.any_eq_true] at h
  obtain ⟨⟨tb, fin⟩, h, hnot⟩ := h
  rw [Bool.not_eq_true', decide_eq_false_iff_not] at hnot
  exact ⟨tb, fin, h, hnot⟩

end TcgRs.Analysis.JumpSlots
