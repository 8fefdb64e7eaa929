import TcgRs.Model.X86.Codegen
import Mathlib.Tactic.Linarith

/-!
# Patchable jumps in the code buffer

What `patch_jump` does to the jump it patches and to every other jump, and how the jumps of
one freshly emitted block lie in the buffer: inside the block's bytes, apart from each other,
each going to the offset just after it.
-/

set_option autoImplicit false

namespace TcgRs.Analysis.JumpPatching

open TcgRs.Model TcgRs.Model.X86 TcgRs.Model.CodeBuffer

/-! ## One patch -/

theorem toInt_ofInt_of_fitsI32 {d : Int} (h : fitsI32 d = true) : (BitVec.ofInt 32 d).toInt = d := by
  simp only [fitsI32, Bool.and_eq_true, decide_eq_true_eq] at h
  rw [BitVec.toInt_ofInt]
  exact Int.bmod_eq_of_le (by norm_num; omega) (by norm_num; omega)

theorem patchJump_eq_some {buf buf' : CodeBuffer} {pos tgt : Nat}
    (h : patchJump buf pos tgt = some buf') :
    fitsI32 ((tgt : Int) - (pos + 5)) = true ∧
      buf.patchU32 (pos + 1) (BitVec.ofInt 32 ((tgt : Int) - (pos + 5))) = some buf' := by
  simp only [patchJump] at h
  split at h
  · next hf => exact ⟨hf, h⟩
  · cases h

/-- After the patch the jump goes to its new target. -/
theorem jumpTarget_patchJump {buf buf' : CodeBuffer} {pos tgt : Nat}
    (h : patchJump buf pos tgt = some buf') : jumpTarget buf' pos = tgt := by
  obtain ⟨hf, hp⟩ := patchJump_eq_some h
  unfold jumpTarget
  rw [readU32_patchU32 hp, toInt_ofInt_of_fitsI32 hf]
  omega

/-- A jump that shares no byte with the patched one goes where it went. -/
theorem jumpTarget_patchJump_of_disjoint {buf buf' : CodeBuffer} {pos pos' tgt : Nat}
    (h : patchJump buf pos tgt = some buf') (hd : pos' + 5 ≤ pos ∨ pos + 5 ≤ pos') :
    jumpTarget buf' pos' = jumpTarget buf pos' := by
  obtain ⟨-, hp⟩ := patchJump_eq_some h
  unfold jumpTarget
  rw [readU32_patchU32_of_disjoint hp (by omega)]

theorem patchJump_size_offset {buf buf' : CodeBuffer} {pos tgt : Nat}
    (h : patchJump buf pos tgt = some buf') : buf'.size = buf.size ∧ buf'.offset = buf.offset :=
  patchU32_size_offset (patchJump_eq_some h).2

/-- Patching never fails inside a buffer of at most 2 GiB. -/
theorem patchJump_isSome {buf : CodeBuffer} {pos tgt : Nat} (hpos : pos + 5 ≤ buf.size)
    (htgt : tgt ≤ buf.size) (hsize : buf.size ≤ 2 ^ 31 - 1) :
    ∃ buf', patchJump buf pos tgt = some buf' := by
  have hf : fitsI32 ((tgt : Int) - (pos + 5)) = true := by
    simp only [fitsI32, Bool.and_eq_true, decide_eq_true_eq]
    omega
  unfold patchJump
  simp only [hf, if_true]
  exact patchU32_isSome (by omega)

/-! ## Emission only appends -/

/-- `buf'` is `buf` with bytes appended. -/
structure Extends (buf buf' : CodeBuffer) : Prop where
  size_eq : buf'.size = buf.size
  offset_le : buf.offset ≤ buf'.offset
  mem_eq : ∀ a, a < buf.offset → buf'.mem a = buf.mem a
  offset_le_size : buf.offset ≤ buf.size → buf'.offset ≤ buf.size

theorem Extends.refl (buf : CodeBuffer) : Extends buf buf := ⟨rfl, le_rfl, fun _ _ => rfl, id⟩

theorem Extends.trans {b₁ b₂ b₃ : CodeBuffer} (h : Extends b₁ b₂) (h' : Extends b₂ b₃) :
    Extends b₁ b₃ where
  size_eq := h'.size_eq.trans h.size_eq
  offset_le := h.offset_le.trans h'.offset_le
  mem_eq a ha := (h'.mem_eq a (lt_of_lt_of_le ha h.offset_le)).trans (h.mem_eq a ha)
  offset_le_size hle := by
    have h1 := h.offset_le_size hle
    have h2 := h'.offset_le_size (by rw [h.size_eq]; exact h1)
    rwa [h.size_eq] at h2

theorem Extends.jumpTarget_eq {buf buf' : CodeBuffer} (h : Extends buf buf') {pos : Nat}
    (hpos : pos + 5 ≤ buf.offset) : jumpTarget buf' pos = jumpTarget buf pos := by
  unfold jumpTarget
  rw [readU32_congr (fun a _ ha => h.mem_eq a (by omega))]

theorem emitBytes_extends {buf buf' : CodeBuffer} {bs : List Byte}
    (h : buf.emitBytes bs = some buf') : Extends buf buf' := by
  obtain ⟨hle, hsize, hoff, hmem⟩ := emitBytes_eq_some h
  refine ⟨hsize, by omega, fun a ha => ?_, fun _ => by omega⟩
  rw [hmem]
  exact writeAt_of_lt ha

theorem emitJmp_extends {buf buf' : CodeBuffer} {tgt : Nat} (h : emitJmp buf tgt = some buf') :
    Extends buf buf' ∧ buf'.offset = buf.offset + 5 := by
  simp only [emitJmp] at h
  split at h
  · obtain ⟨-, -, hoff, -⟩ := emitBytes_eq_some h
    exact ⟨emitBytes_extends h, hoff⟩
  · cases h

/-- An exit takes at least the five bytes of its jump to the epilogue. -/
theorem emitExitTb_extends {gen : CodeGen} {buf buf' : CodeBuffer} {val : BitVec 64}
    (h : emitExitTb gen buf val = some buf') : Extends buf buf' ∧ buf.offset + 5 ≤ buf'.offset := by
  unfold emitExitTb at h
  split at h
  · obtain ⟨hext, hoff⟩ := emitJmp_extends h
    exact ⟨hext, by omega⟩
  · obtain ⟨buf₁, h₁, h₂⟩ := Option.bind_eq_some_iff.mp h
    obtain ⟨hext, hoff⟩ := emitJmp_extends h₂
    have hext₁ := emitBytes_extends h₁
    exact ⟨hext₁.trans hext, by have := hext₁.offset_le; omega⟩

/-- The jump emitted for `goto_tb` goes to the offset just after it. -/
theorem emitGotoTb_spec {buf buf' : CodeBuffer} {jmp reset : Nat}
    (h : emitGotoTb buf = some (buf', jmp, reset)) :
    Extends buf buf' ∧ buf.offset ≤ jmp ∧ reset = jmp + 5 ∧ buf'.offset = jmp + 5 ∧
      jumpTarget buf' jmp = reset := by
  unfold emitGotoTb at h
  obtain ⟨buf₁, h₁, h⟩ := Option.bind_eq_some_iff.mp h
  obtain ⟨buf₂, h₂, h⟩ := Option.bind_eq_some_iff.mp h
  simp only [Option.pure_def, Option.some.injEq, Prod.mk.injEq] at h
  obtain ⟨rfl, rfl, rfl⟩ := h
  have hext₁ := emitBytes_extends h₁
  obtain ⟨-, -, hoff, hmem⟩ := emitBytes_eq_some h₂
  have hoff' : buf₂.offset = buf₁.offset + 5 := hoff
  have hread : buf₂.readU32 (buf₁.offset + 1) = 0 := by
    have hlen : ((0xE9 : Byte) :: emitU32 0).length = 5 := rfl
    refine readU32_write ?_ ?_ ?_ ?_
    · rw [hmem]; exact writeAt_add (k := 1) (by omega)
    · rw [hmem]; exact writeAt_add (k := 2) (by omega)
    · rw [hmem]; exact writeAt_add (k := 3) (by omega)
    · rw [hmem]; exact writeAt_add (k := 4) (by omega)
  refine ⟨hext₁.trans (emitBytes_extends h₂), hext₁.offset_le, hoff', hoff', ?_⟩
  unfold jumpTarget
  rw [hread, hoff']
  simp

/-! ## The jumps of one block -/

/-- The recorded jumps lie between `start` and the cursor, in order and apart from each
other, and each goes to its recorded reset offset. -/
structure JumpLayout (start : Nat) (st : EmitState) : Prop where
  start_le : start ≤ st.buf.offset
  inside : ∀ p ∈ st.gotoTbInfo, start ≤ p.1 ∧ p.1 + 5 ≤ st.buf.offset ∧ p.2 = p.1 + 5 ∧
    jumpTarget st.buf p.1 = p.2
  ordered : st.gotoTbInfo.Pairwise (fun p q => p.1 + 5 ≤ q.1)

theorem JumpLayout.extend {start : Nat} {st : EmitState} (h : JumpLayout start st)
    {buf' : CodeBuffer} (hext : Extends st.buf buf') :
    JumpLayout start { st with buf := buf' } where
  start_le := h.start_le.trans hext.offset_le
  inside p hp := by
    obtain ⟨h1, h2, h3, h4⟩ := h.inside p hp
    refine ⟨h1, h2.trans hext.offset_le, h3, ?_⟩
    exact (hext.jumpTarget_eq h2).trans h4
  ordered := h.ordered

/-- One item keeps the layout and only appends. -/
theorem emitItem_layout {gen : CodeGen} {tbIdx : BitVec 32} {start : Nat} {st st' : EmitState}
    {item : HostItem} (h : emitItem gen tbIdx st item = some st') (hl : JumpLayout start st) :
    Extends st.buf st'.buf ∧ JumpLayout start st' := by
  cases item with
  | code bytes =>
    obtain ⟨buf, hb, h⟩ := Option.bind_eq_some_iff.mp h
    simp only [Option.pure_def, Option.some.injEq] at h
    subst h
    exact ⟨emitBytes_extends hb, hl.extend (emitBytes_extends hb)⟩
  | exitTb val =>
    obtain ⟨buf, hb, h⟩ := Option.bind_eq_some_iff.mp h
    simp only [Option.pure_def, Option.some.injEq] at h
    subst h
    exact ⟨(emitExitTb_extends hb).1, hl.extend (emitExitTb_extends hb).1⟩
  | gotoTb index =>
    obtain ⟨⟨buf, jmp, reset⟩, hb, h⟩ := Option.bind_eq_some_iff.mp h
    simp only [Option.pure_def, Option.some.injEq] at h
    subst h
    obtain ⟨hext, hjmp, hreset, hoff, htgt⟩ := emitGotoTb_spec hb
    have hl' := hl.extend hext
    refine ⟨hext, hl'.start_le, ?_, ?_⟩
    · intro p hp
      rcases List.mem_append.mp hp with hp | hp
      · exact hl'.inside p hp
      · rw [List.mem_singleton] at hp
        subst hp
        exact ⟨hl.start_le.trans hjmp, hoff.ge, hreset, htgt⟩
    · refine List.pairwise_append.mpr ⟨hl'.ordered, List.pairwise_singleton _ _, ?_⟩
      intro p hp q hq
      rw [List.mem_singleton] at hq
      subst hq
      exact (hl.inside p hp).2.1.trans hjmp

theorem emitItems_layout {gen : CodeGen} {tbIdx : BitVec 32} {start : Nat} {items : List HostItem}
    {st st' : EmitState} (h : items.foldlM (emitItem gen tbIdx) st = some st')
    (hl : JumpLayout start st) : Extends st.buf st'.buf ∧ JumpLayout start st' := by
  induction items generalizing st with
  | nil =>
    rw [List.foldlM_nil] at h
    injection h with h
    subst h
    exact ⟨Extends.refl _, hl⟩
  | cons item items ih =>
    rw [List.foldlM_cons] at h
    obtain ⟨st₁, h₁, h⟩ := Option.bind_eq_some_iff.mp h
    obtain ⟨hext₁, hl₁⟩ := emitItem_layout h₁ hl
    obtain ⟨hext, hl'⟩ := ih h hl₁
    exact ⟨hext₁.trans hext, hl'⟩

/-- The jumps of a block lie strictly inside its bytes, because its last op is an exit. -/
theorem emitBlock_layout {gen : CodeGen} {tbIdx : BitVec 32} {code : BlockCode}
    {buf : CodeBuffer} {st : EmitState} (h : emitBlock gen tbIdx code buf = some st) :
    Extends buf st.buf ∧ JumpLayout buf.offset st ∧ buf.offset + 5 ≤ st.buf.offset ∧
      ∀ p ∈ st.gotoTbInfo, p.2 + 5 ≤ st.buf.offset := by
  unfold emitBlock BlockCode.ops at h
  rw [List.foldlM_append] at h
  obtain ⟨st₁, h₁, h₂⟩ := Option.bind_eq_some_iff.mp h
  have hl : JumpLayout buf.offset ⟨buf, []⟩ := ⟨le_rfl, by simp, List.Pairwise.nil⟩
  obtain ⟨hext₁, hl₁⟩ := emitItems_layout h₁ hl
  obtain ⟨hext₂, hl₂⟩ := emitItems_layout h₂ hl₁
  have hlast : st₁.buf.offset + 5 ≤ st.buf.offset ∧ st.gotoTbInfo = st₁.gotoTbInfo := by
    simp only [List.foldlM_cons, List.foldlM_nil, emitItem, Option.pure_def] at h₂
    obtain ⟨st₂, h₂, hst⟩ := Option.bind_eq_some_iff.mp h₂
    obtain ⟨buf₂, hb, h₂⟩ := Option.bind_eq_some_iff.mp h₂
    simp only [Option.some.injEq] at h₂ hst
    subst h₂ hst
    exact ⟨(emitExitTb_extends hb).2, rfl⟩
  refine ⟨hext₁.trans hext₂, hl₂, ?_, ?_⟩
  · have := hext₁.offset_le
    have := hl₁.start_le
    omega
  · intro p hp
    rw [hlast.2] at hp
    obtain ⟨-, h2, h3, -⟩ := hl₁.inside p hp
    omega

end TcgRs.Analysis.JumpPatching
