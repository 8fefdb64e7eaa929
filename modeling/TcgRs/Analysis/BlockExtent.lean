import TcgRs.Analysis.JumpPatching

/-!
# The extent of a block's code

The emission of a block puts every item where `itemStart` says and records the jump of every
`goto_tb` where `gotoTbJump` says, in the order of the items.  It fails exactly when the last
item ends beyond the buffer.
-/

set_option autoImplicit false

namespace TcgRs.Analysis.BlockExtent

open TcgRs.Model TcgRs.Model.X86 TcgRs.Model.Exec CodeBuffer JumpPatching

theorem length_emitNops (n : Nat) : (emitNops n).length = n := by
  fun_induction emitNops n with
  | case9 n ih => simp [ih]
  | _ => rfl

@[simp] theorem length_emitU32 (v : BitVec 32) : (emitU32 v).length = 4 := rfl

/-! ## Where items end -/

/-- The jump an item records, as offset and reset offset. -/
def itemJumps (start : Nat) : HostItem → List (Nat × Nat)
  | .gotoTb _ => [(start + gotoTbPad start, start + gotoTbPad start + 5)]
  | _ => []

/-- The jumps the items record, from an offset on. -/
def jumpsFrom (tbIdx : BitVec 32) (start : Nat) : List HostItem → List (Nat × Nat)
  | [] => []
  | item :: items => itemJumps start item ++ jumpsFrom tbIdx (itemEnd tbIdx start item) items

theorem emitJmp_offset {buf buf' : CodeBuffer} {tgt : Nat} (h : emitJmp buf tgt = some buf') :
    buf'.offset = buf.offset + 5 :=
  (emitJmp_extends h).2

theorem emitExitTb_offset {gen : CodeGen} {buf buf' : CodeBuffer} {val : BitVec 64}
    (h : emitExitTb gen buf val = some buf') : buf'.offset = buf.offset + exitTbSize val := by
  unfold emitExitTb at h
  unfold exitTbSize
  split at h
  · next hv => rw [if_pos hv, emitJmp_offset h]
  · next hv =>
    obtain ⟨buf₁, h₁, h₂⟩ := Option.bind_eq_some_iff.mp h
    obtain ⟨-, -, hoff, -⟩ := emitBytes_eq_some h₁
    rw [if_neg hv, emitJmp_offset h₂, hoff]
    omega

theorem emitItem_end {gen : CodeGen} {tbIdx : BitVec 32} {st st' : EmitState} {item : HostItem}
    (h : emitItem gen tbIdx st item = some st') :
    st'.buf.offset = itemEnd tbIdx st.buf.offset item ∧
      st'.gotoTbInfo = st.gotoTbInfo ++ itemJumps st.buf.offset item := by
  cases item with
  | code bytes =>
    obtain ⟨buf, hb, h⟩ := Option.bind_eq_some_iff.mp h
    obtain ⟨-, -, hoff, -⟩ := emitBytes_eq_some hb
    simp only [Option.pure_def, Option.some.injEq] at h
    subst h
    exact ⟨hoff, (List.append_nil _).symm⟩
  | exitTb val =>
    obtain ⟨buf, hb, h⟩ := Option.bind_eq_some_iff.mp h
    simp only [Option.pure_def, Option.some.injEq] at h
    subst h
    exact ⟨emitExitTb_offset hb, (List.append_nil _).symm⟩
  | gotoTb index =>
    obtain ⟨⟨buf, jmp, reset⟩, hb, h⟩ := Option.bind_eq_some_iff.mp h
    simp only [Option.pure_def, Option.some.injEq] at h
    subst h
    unfold emitGotoTb at hb
    obtain ⟨buf₁, h₁, hb⟩ := Option.bind_eq_some_iff.mp hb
    obtain ⟨buf₂, h₂, hb⟩ := Option.bind_eq_some_iff.mp hb
    simp only [Option.pure_def, Option.some.injEq, Prod.mk.injEq] at hb
    obtain ⟨rfl, rfl, rfl⟩ := hb
    obtain ⟨-, -, hoff₁, -⟩ := emitBytes_eq_some h₁
    obtain ⟨-, -, hoff₂, -⟩ := emitBytes_eq_some h₂
    rw [length_emitNops] at hoff₁
    have hoff : buf₂.offset = st.buf.offset + gotoTbPad st.buf.offset + 5 := by
      rw [hoff₂, hoff₁]
      rfl
    refine ⟨hoff, ?_⟩
    simp only [itemJumps]
    rw [hoff, hoff₁]

theorem emitItems_end {gen : CodeGen} {tbIdx : BitVec 32} {items : List HostItem}
    {st st' : EmitState} (h : items.foldlM (emitItem gen tbIdx) st = some st') :
    st'.buf.offset = items.foldl (itemEnd tbIdx) st.buf.offset ∧
      st'.gotoTbInfo = st.gotoTbInfo ++ jumpsFrom tbIdx st.buf.offset items := by
  induction items generalizing st with
  | nil =>
    rw [List.foldlM_nil] at h
    injection h with h
    subst h
    exact ⟨rfl, (List.append_nil _).symm⟩
  | cons item items ih =>
    rw [List.foldlM_cons] at h
    obtain ⟨st₁, h₁, h⟩ := Option.bind_eq_some_iff.mp h
    obtain ⟨hoff₁, hjmp₁⟩ := emitItem_end h₁
    obtain ⟨hoff, hjmp⟩ := ih h
    refine ⟨?_, ?_⟩
    · rw [hoff, hoff₁, List.foldl_cons]
    · rw [hjmp, hjmp₁, hoff₁, jumpsFrom, List.append_assoc]

/-- The item is a `goto_tb`. -/
def isGotoTb : HostItem → Bool
  | .gotoTb _ => true
  | _ => false

/-- The jump of the `n`th `goto_tb` is the `n`th recorded one. -/
theorem jumpsFrom_getElem? (tbIdx : BitVec 32) (start : Nat) {items : List HostItem} {k g : Nat}
    (h : items[k]? = some (.gotoTb g)) :
    (jumpsFrom tbIdx start items)[(items.take k).countP isGotoTb]? =
      some (gotoTbJump tbIdx start items k, gotoTbJump tbIdx start items k + 5) := by
  induction items generalizing start k with
  | nil => simp at h
  | cons item items ih =>
    cases k with
    | zero =>
      simp only [List.getElem?_cons_zero, Option.some.injEq] at h
      subst h
      simp [jumpsFrom, itemJumps, gotoTbJump, itemStart]
    | succ k =>
      rw [List.getElem?_cons_succ] at h
      have hrest := ih (itemEnd tbIdx start item) h
      have hjump : gotoTbJump tbIdx start (item :: items) (k + 1) =
          gotoTbJump tbIdx (itemEnd tbIdx start item) items k := rfl
      rw [hjump, ← hrest, List.take_succ_cons, jumpsFrom]
      cases item with
      | gotoTb g' => rw [List.countP_cons_of_pos rfl, itemJumps, List.singleton_append,
          List.getElem?_cons_succ]
      | code bytes => rw [List.countP_cons_of_neg (by simp [isGotoTb])]; rfl
      | exitTb val => rw [List.countP_cons_of_neg (by simp [isGotoTb])]; rfl

/-! ## When the emission fails -/

/-- The epilogue lies in a buffer whose offsets all fit a displacement. -/
structure Reachable (gen : CodeGen) (size : Nat) : Prop where
  zero_le : gen.epilogueReturnZeroOffset ≤ size
  ret_le : gen.tbRetOffset ≤ size
  size_le : size ≤ 2 ^ 31 - 1

theorem emitBytes_isSome_iff (buf : CodeBuffer) (bs : List Byte) :
    (buf.emitBytes bs).isSome ↔ buf.offset + bs.length ≤ buf.size := by
  unfold emitBytes
  split
  · next h => simp [h]
  · next h => simp [h]

theorem emitJmp_isSome_iff {buf : CodeBuffer} {tgt : Nat} (htgt : tgt ≤ buf.size)
    (hsize : buf.size ≤ 2 ^ 31 - 1) :
    (emitJmp buf tgt).isSome ↔ buf.offset + 5 ≤ buf.size := by
  simp only [emitJmp]
  split
  · exact emitBytes_isSome_iff _ _
  · next hfit =>
    simp only [fitsI32, Bool.and_eq_true, decide_eq_true_eq] at hfit
    simp only [Option.isSome_none, Bool.false_eq_true, false_iff]
    omega

theorem emitExitTb_isSome_iff {gen : CodeGen} {buf : CodeBuffer} (hgen : Reachable gen buf.size)
    (val : BitVec 64) :
    (emitExitTb gen buf val).isSome ↔ buf.offset + exitTbSize val ≤ buf.size := by
  unfold emitExitTb exitTbSize
  split
  · exact emitJmp_isSome_iff hgen.zero_le hgen.size_le
  · cases hb : buf.emitBytes (emitMovRi true .rax val) with
    | none =>
      have hnot := (emitBytes_isSome_iff buf (emitMovRi true .rax val)).not
      rw [hb] at hnot
      simp only [Option.isSome_none, Bool.false_eq_true, not_false_eq_true, true_iff] at hnot
      simp only [Option.bind_eq_bind, Option.bind_none, Option.isSome_none, Bool.false_eq_true,
        false_iff]
      omega
    | some buf₁ =>
      obtain ⟨-, hsize, hoff, -⟩ := emitBytes_eq_some hb
      have hjmp := @emitJmp_isSome_iff buf₁ gen.tbRetOffset (by rw [hsize]; exact hgen.ret_le)
        (by rw [hsize]; exact hgen.size_le)
      rw [hsize, hoff] at hjmp
      simp only [Option.bind_eq_bind, Option.bind_some]
      rw [hjmp, Nat.add_assoc]

theorem emitGotoTb_isSome_iff (buf : CodeBuffer) :
    (emitGotoTb buf).isSome ↔ buf.offset + gotoTbPad buf.offset + 5 ≤ buf.size := by
  unfold emitGotoTb
  cases hb : buf.emitBytes (emitNops (gotoTbPad buf.offset)) with
  | none =>
    have hnot := (emitBytes_isSome_iff buf (emitNops (gotoTbPad buf.offset))).not
    rw [hb, length_emitNops] at hnot
    simp only [Option.isSome_none, Bool.false_eq_true, not_false_eq_true, true_iff] at hnot
    simp only [Option.bind_eq_bind, Option.bind_none, Option.isSome_none, Bool.false_eq_true,
      false_iff]
    omega
  | some buf₁ =>
    obtain ⟨-, hsize, hoff, -⟩ := emitBytes_eq_some hb
    rw [length_emitNops] at hoff
    have hjmp := emitBytes_isSome_iff buf₁ ((0xE9 : Byte) :: emitU32 0)
    rw [hsize, hoff] at hjmp
    simp only [Option.bind_eq_bind, Option.bind_some, Option.pure_def, Option.isSome_bind]
    simpa using hjmp

theorem emitItem_isSome_iff {gen : CodeGen} {tbIdx : BitVec 32} {st : EmitState}
    (hgen : Reachable gen st.buf.size) (item : HostItem) :
    (emitItem gen tbIdx st item).isSome ↔ itemEnd tbIdx st.buf.offset item ≤ st.buf.size := by
  cases item with
  | code bytes =>
    simp only [emitItem, itemEnd, ← emitBytes_isSome_iff]
    cases st.buf.emitBytes bytes <;> simp
  | exitTb val =>
    simp only [emitItem, itemEnd, ← emitExitTb_isSome_iff hgen]
    cases emitExitTb gen st.buf (encodeTbExit tbIdx (val.setWidth 64)) <;> simp
  | gotoTb g =>
    simp only [emitItem, itemEnd, ← emitGotoTb_isSome_iff]
    cases emitGotoTb st.buf <;> simp

theorem le_itemEnd (tbIdx : BitVec 32) (start : Nat) (item : HostItem) :
    start ≤ itemEnd tbIdx start item := by
  cases item with
  | code bytes => exact Nat.le_add_right _ _
  | exitTb val => exact Nat.le_add_right _ _
  | gotoTb g =>
    simp only [itemEnd]
    omega

theorem le_foldl_itemEnd (tbIdx : BitVec 32) (start : Nat) (items : List HostItem) :
    start ≤ items.foldl (itemEnd tbIdx) start := by
  induction items generalizing start with
  | nil => exact le_rfl
  | cons item items ih => exact (le_itemEnd tbIdx start item).trans (ih _)

theorem emitItem_size {gen : CodeGen} {tbIdx : BitVec 32} {st st' : EmitState} {item : HostItem}
    (h : emitItem gen tbIdx st item = some st') : st'.buf.size = st.buf.size := by
  cases item with
  | code bytes =>
    obtain ⟨buf, hb, h⟩ := Option.bind_eq_some_iff.mp h
    simp only [Option.pure_def, Option.some.injEq] at h
    rw [← h]
    exact (emitBytes_extends hb).size_eq
  | exitTb val =>
    obtain ⟨buf, hb, h⟩ := Option.bind_eq_some_iff.mp h
    simp only [Option.pure_def, Option.some.injEq] at h
    rw [← h]
    exact (emitExitTb_extends hb).1.size_eq
  | gotoTb g =>
    obtain ⟨⟨buf, jmp, reset⟩, hb, h⟩ := Option.bind_eq_some_iff.mp h
    simp only [Option.pure_def, Option.some.injEq] at h
    rw [← h]
    exact (emitGotoTb_spec hb).1.size_eq

/-- The offset just after the code of a block emitted at `start`. -/
def blockEnd (tbIdx : BitVec 32) (start : Nat) (code : BlockCode) : Nat :=
  code.ops.foldl (itemEnd tbIdx) start

theorem emitItems_isSome_iff {gen : CodeGen} {tbIdx : BitVec 32} {st : EmitState}
    {items : List HostItem} (hgen : Reachable gen st.buf.size)
    (hle : st.buf.offset ≤ st.buf.size) :
    (items.foldlM (emitItem gen tbIdx) st).isSome ↔
      items.foldl (itemEnd tbIdx) st.buf.offset ≤ st.buf.size := by
  induction items generalizing st with
  | nil => simpa using hle
  | cons item items ih =>
    rw [List.foldlM_cons, List.foldl_cons]
    have hiff := @emitItem_isSome_iff gen tbIdx st hgen item
    cases hst : emitItem gen tbIdx st item with
    | none =>
      rw [hst] at hiff
      have hmono := le_foldl_itemEnd tbIdx (itemEnd tbIdx st.buf.offset item) items
      simp only [Option.isSome_none, Bool.false_eq_true, false_iff] at hiff
      simp only [Option.bind_eq_bind, Option.bind_none, Option.isSome_none, Bool.false_eq_true,
        false_iff]
      omega
    | some st₁ =>
      rw [hst] at hiff
      have hsize := emitItem_size hst
      obtain ⟨hoff, -⟩ := emitItem_end hst
      have hfit := hiff.mp rfl
      have hrest := @ih st₁ (by rw [hsize]; exact hgen) (by rw [hsize, hoff]; exact hfit)
      rw [hsize, hoff] at hrest
      exact hrest

theorem emitBlock_isSome_iff {gen : CodeGen} {tbIdx : BitVec 32} {code : BlockCode}
    {buf : CodeBuffer} (hgen : Reachable gen buf.size) (hle : buf.offset ≤ buf.size) :
    (emitBlock gen tbIdx code buf).isSome ↔ blockEnd tbIdx buf.offset code ≤ buf.size :=
  @emitItems_isSome_iff gen tbIdx ⟨buf, []⟩ code.ops hgen hle

end TcgRs.Analysis.BlockExtent
