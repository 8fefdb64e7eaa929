import TcgRs.Analysis.BlockExtent
import TcgRs.Analysis.OperandEncoding
import Mathlib.Data.List.GetD

/-!
# The life of a patchable jump

From the NOPs in front of it over its emission to any number of patches: where the jump lies,
what the processor reads there, where it goes, and that a patch back to the reset offset leaves
nothing of the patches before it.
-/

set_option autoImplicit false

namespace TcgRs.Analysis.PatchableJumps

open TcgRs.Model TcgRs.Model.X86 TcgRs.Model.CodeBuffer TcgRs.Interface.X86
open TcgRs.Analysis.BlockExtent TcgRs.Analysis.JumpPatching TcgRs.Analysis.OperandEncoding

/-! ## The padding -/

/-- The processor reads one multi-byte NOP: its operand is not accessed. -/
theorem fetchNop_multibyte (data16 : Bool) {operand rest : List Byte} {rm : RmOperand}
    (h : readOperands .ext0F 0x1F#8 false false false false operand = some (.digit 0#8, rm, rest))
    (hne : operand ≠ []) :
    fetchNop ((if data16 then [0x66] else []) ++ 0x0F :: 0x1F :: operand) = some rest := by
  obtain ⟨modrm, operand, rfl⟩ := List.exists_cons_of_ne_nil hne
  cases data16 with
  | false =>
    simp only [Bool.false_eq_true, if_false, List.nil_append]
    simp [fetchNop, decode, decodeLegacy, readPrefixes, readRex, readOpcode, hasModrm, h]
  | true =>
    simp only [if_true, List.cons_append, List.nil_append]
    simp [fetchNop, decode, decodeLegacy, readPrefixes, readRex, readOpcode, hasModrm, h]

/-- The padding starts with a NOP, and what follows it is shorter padding. -/
theorem fetchNop_emitNops (n : Nat) (hn : n ≠ 0) (rest : List Byte) :
    fetchNop (emitNops n ++ rest) = some (emitNops (n - 8) ++ rest) := by
  match n, hn with
  | 1, _ =>
    have hdec : decode (0x90 :: rest) = none :=
      (decode_of_head_ne 0x90 rest (by decide) (by decide)).trans rfl
    show fetchNop (0x90 :: rest) = some rest
    unfold fetchNop
    rw [hdec]
    rfl
  | 2, _ =>
    have hdec : decode (0x66 :: 0x90 :: rest) = none :=
      (decode_of_head_ne 0x66 _ (by decide) (by decide)).trans rfl
    show fetchNop (0x66 :: 0x90 :: rest) = some rest
    unfold fetchNop
    rw [hdec]
    rfl
  | 3, _ => exact fetchNop_multibyte false rfl (List.cons_ne_nil _ _)
  | 4, _ => exact fetchNop_multibyte false rfl (List.cons_ne_nil _ _)
  | 5, _ => exact fetchNop_multibyte false rfl (List.cons_ne_nil _ _)
  | 6, _ => exact fetchNop_multibyte true rfl (List.cons_ne_nil _ _)
  | 7, _ => exact fetchNop_multibyte false rfl (List.cons_ne_nil _ _)
  | n + 8, _ => exact fetchNop_multibyte false rfl (List.cons_ne_nil _ _)

/-- However long the padding, the processor runs over it. -/
theorem emitNops_nops (n : Nat) (rest : List Byte) : NopsUpTo rest (emitNops n ++ rest) := by
  induction n using Nat.strong_induction_on with
  | _ n ih =>
    by_cases hn : n = 0
    · subst hn
      exact .done
    · exact .nop (fetchNop_emitNops n hn rest) (ih (n - 8) (by omega))

/-! ## The emitted bytes -/

/-- The `n` bytes of the buffer from `pos` on. -/
def bytesAt (buf : CodeBuffer) (pos n : Nat) : List Byte :=
  (List.range n).map fun k => buf.mem (pos + k)

theorem bytesAt_add (buf : CodeBuffer) (pos m n : Nat) :
    bytesAt buf pos (m + n) = bytesAt buf pos m ++ bytesAt buf (pos + m) n := by
  unfold bytesAt
  rw [List.range_add, List.map_append, List.map_map]
  congr 1
  apply List.map_congr_left
  intro k _
  show buf.mem (pos + (m + k)) = buf.mem (pos + m + k)
  rw [Nat.add_assoc]

theorem bytesAt_congr {buf buf' : CodeBuffer} {pos n : Nat}
    (h : ∀ a, pos ≤ a → a < pos + n → buf'.mem a = buf.mem a) :
    bytesAt buf' pos n = bytesAt buf pos n := by
  apply List.map_congr_left
  intro k hk
  exact h _ (Nat.le_add_right _ _) (by have := List.mem_range.mp hk; omega)

theorem bytesAt_writeAt {buf : CodeBuffer} {mem : Nat → Byte} {pos : Nat} {bs : List Byte}
    (h : buf.mem = writeAt mem pos bs) : bytesAt buf pos bs.length = bs := by
  apply List.ext_getElem
  · simp [bytesAt]
  · intro k hk hk'
    simp only [bytesAt, List.getElem_map, List.getElem_range, h]
    rw [writeAt_add hk', List.getD_eq_getElem _ _ hk']

/-- Where the processor goes from the jump at `pos`. -/
def jumpsTo (buf : CodeBuffer) (pos : Nat) : Option Int :=
  (fetchJmp (bytesAt buf pos 5)).map fun disp => pos + 5 + disp.toInt

theorem jumpsTo_eq {buf : CodeBuffer} {pos : Nat} (h : buf.mem pos = 0xE9) :
    jumpsTo buf pos = some (jumpTarget buf pos) := by
  have hbytes : bytesAt buf pos 5 = [0xE9, buf.mem (pos + 1), buf.mem (pos + 2),
      buf.mem (pos + 3), buf.mem (pos + 4)] := by
    rw [← h]
    rfl
  unfold jumpsTo
  rw [hbytes]
  rfl

/-- What is in the buffer after the emission: the padding, then the jump with displacement zero. -/
theorem emitGotoTb_bytes {buf buf' : CodeBuffer} {jmp reset : Nat}
    (h : emitGotoTb buf = some (buf', jmp, reset)) :
    jmp = buf.offset + gotoTbPad buf.offset ∧
      bytesAt buf' buf.offset (gotoTbPad buf.offset) = emitNops (gotoTbPad buf.offset) ∧
      bytesAt buf' jmp 5 = [0xE9, 0, 0, 0, 0] ∧ jmp + 5 ≤ buf'.size := by
  unfold emitGotoTb at h
  obtain ⟨buf₁, h₁, h⟩ := Option.bind_eq_some_iff.mp h
  obtain ⟨buf₂, h₂, h⟩ := Option.bind_eq_some_iff.mp h
  simp only [Option.pure_def, Option.some.injEq, Prod.mk.injEq] at h
  obtain ⟨rfl, rfl, rfl⟩ := h
  obtain ⟨-, hsize₁, hoff₁, hmem₁⟩ := emitBytes_eq_some h₁
  obtain ⟨hle, hsize₂, hoff₂, hmem₂⟩ := emitBytes_eq_some h₂
  rw [length_emitNops] at hoff₁
  have hpad := bytesAt_writeAt hmem₁
  rw [length_emitNops] at hpad
  refine ⟨hoff₁, ?_, bytesAt_writeAt hmem₂, ?_⟩
  · rw [← hpad]
    apply bytesAt_congr
    intro a _ ha
    rw [hmem₂]
    exact writeAt_of_lt (by omega)
  · rw [hsize₂]
    exact hle

/-! ## Later patches -/

/-- The buffer at any time after a jump was emitted at `jmp`: the jump is patched, and the rest of
the buffer is written in any way, but not the five bytes of the jump. -/
inductive Later (jmp : Nat) (buf : CodeBuffer) : CodeBuffer → Prop where
  | now : Later jmp buf buf
  | patch {b b' : CodeBuffer} {tgt : Nat} (hb : Later jmp buf b)
      (h : patchJump b jmp tgt = some b') : Later jmp buf b'
  | other {b b' : CodeBuffer} (hb : Later jmp buf b) (hsize : b'.size = b.size)
      (hoff : b.offset ≤ b'.offset) (h : ∀ a, jmp ≤ a → a < jmp + 5 → b'.mem a = b.mem a) :
      Later jmp buf b'

/-- A patch writes its four bytes and nothing else. -/
theorem patchJump_mem {buf buf' : CodeBuffer} {pos tgt : Nat}
    (h : patchJump buf pos tgt = some buf') :
    buf'.mem = writeAt buf.mem (pos + 1) (emitU32 (BitVec.ofInt 32 ((tgt : Int) - (pos + 5)))) := by
  obtain ⟨-, hp⟩ := patchJump_eq_some h
  unfold patchU32 at hp
  split at hp
  · injection hp with hp
    subst hp
    rfl
  · cases hp

theorem patchJump_frame {buf buf' : CodeBuffer} {pos tgt a : Nat}
    (h : patchJump buf pos tgt = some buf') (ha : a ≤ pos ∨ pos + 5 ≤ a) :
    buf'.mem a = buf.mem a := by
  have hlen (v : BitVec 32) : (emitU32 v).length = 4 := rfl
  rw [patchJump_mem h]
  cases ha with
  | inl ha => exact writeAt_of_lt (by omega)
  | inr ha => exact writeAt_of_le (by rw [hlen]; omega)

/-- The opcode of the jump stays. -/
theorem Later.kept {jmp : Nat} {buf b : CodeBuffer} (h : Later jmp buf b) :
    b.size = buf.size ∧ buf.offset ≤ b.offset ∧ b.mem jmp = buf.mem jmp := by
  induction h with
  | now => exact ⟨rfl, le_rfl, rfl⟩
  | patch hb h ih =>
    obtain ⟨hsize, hle, hmem⟩ := ih
    have hkept := patchJump_size_offset h
    exact ⟨hkept.1.trans hsize, hkept.2 ▸ hle, (patchJump_frame h (.inl le_rfl)).trans hmem⟩
  | other hb hsize' hoff h ih =>
    obtain ⟨hsize, hle, hmem⟩ := ih
    exact ⟨hsize'.trans hsize, hle.trans hoff, (h jmp le_rfl (by omega)).trans hmem⟩

/-- Emission behind the jump leaves it alone. -/
theorem Later.emit {jmp : Nat} {buf b b' : CodeBuffer} (hb : Later jmp buf b)
    (hoff : jmp + 5 ≤ buf.offset) (h : Extends b b') : Later jmp buf b' := by
  have hle := hb.kept.2.1
  exact hb.other h.size_eq h.offset_le fun a _ ha => h.mem_eq a (by omega)

/-- So does the patch of a jump that shares no byte with it. -/
theorem Later.patchOther {jmp : Nat} {buf b b' : CodeBuffer} {pos tgt : Nat}
    (hb : Later jmp buf b) (hpos : pos + 5 ≤ jmp ∨ jmp + 5 ≤ pos)
    (h : patchJump b pos tgt = some b') : Later jmp buf b' := by
  have hkept := patchJump_size_offset h
  exact hb.other hkept.1 hkept.2.ge fun a _ _ => patchJump_frame h (by omega)

/-- Any number of patches of the jump. -/
theorem Later.patches {jmp : Nat} {buf b later : CodeBuffer} {tgts : List Nat}
    (hb : Later jmp buf b)
    (h : tgts.foldlM (fun b tgt => patchJump b jmp tgt) b = some later) :
    Later jmp buf later ∧ ∀ a, a < jmp + 1 ∨ jmp + 5 ≤ a → later.mem a = b.mem a := by
  induction tgts generalizing b with
  | nil =>
    injection h with h
    subst h
    exact ⟨hb, fun _ _ => rfl⟩
  | cons tgt tgts ih =>
    rw [List.foldlM_cons] at h
    obtain ⟨b₁, h₁, h⟩ := Option.bind_eq_some_iff.mp h
    obtain ⟨hlater, hmem⟩ := ih (hb.patch h₁) h
    exact ⟨hlater, fun a ha => (hmem a ha).trans (patchJump_frame h₁ (by omega))⟩

/-- A patch fails only when the displacement is out of range. -/
theorem patchJump_of_fits {buf : CodeBuffer} {pos tgt : Nat} (hsize : pos + 5 ≤ buf.size)
    (hfits : fitsI32 ((tgt : Int) - (pos + 5)) = true) :
    ∃ buf', patchJump buf pos tgt = some buf' := by
  unfold patchJump
  simp only [hfits, if_true]
  exact patchU32_isSome (by omega)

/-- After the jump, at `jmp`, was emitted: wherever it was sent since, a patch sends it exactly to
its target, and the patch to the reset offset writes the bytes of the emission again. -/
structure Patchable (jmp reset : Nat) (buf : CodeBuffer) : Prop where
  jumps : jumpsTo buf jmp = some (reset : Int)
  patches : ∀ later, Later jmp buf later → ∀ tgt : Nat,
    -2 ^ 31 ≤ (tgt : Int) - reset → (tgt : Int) - reset < 2 ^ 31 →
      ∃ buf', patchJump later jmp tgt = some buf' ∧ jumpsTo buf' jmp = some (tgt : Int) ∧
        ∀ a, a < jmp + 1 ∨ jmp + 5 ≤ a → buf'.mem a = later.mem a
  resets : ∀ later, Later jmp buf later → ∃ buf', patchJump later jmp reset = some buf' ∧
    bytesAt buf' jmp 5 = bytesAt buf jmp 5
  restores : ∀ (tgts : List Nat) (later : CodeBuffer),
    tgts.foldlM (fun b tgt => patchJump b jmp tgt) buf = some later →
      ∃ buf', patchJump later jmp reset = some buf' ∧ buf'.mem = buf.mem

/-- Two buffers that agree off the displacement agree after the same patch. -/
theorem patchJump_agree {b b' buf buf' : CodeBuffer} {pos tgt : Nat} {S : Nat → Prop}
    (hb : patchJump b pos tgt = some b') (hbuf : patchJump buf pos tgt = some buf')
    (h : ∀ a, S a → (a < pos + 1 ∨ pos + 5 ≤ a) → b.mem a = buf.mem a) :
    ∀ a, S a → b'.mem a = buf'.mem a := by
  intro a hS
  rw [patchJump_mem hb, patchJump_mem hbuf]
  by_cases ha : a < pos + 1 ∨ pos + 5 ≤ a
  · have hlen (v : BitVec 32) : (emitU32 v).length = 4 := rfl
    cases ha with
    | inl ha' => rw [writeAt_of_lt ha', writeAt_of_lt ha', h a hS (.inl ha')]
    | inr ha' =>
      rw [writeAt_of_le (by rw [hlen]; omega), writeAt_of_le (by rw [hlen]; omega),
        h a hS (.inr ha')]
  · obtain ⟨k, rfl⟩ : ∃ k, a = pos + 1 + k := ⟨a - (pos + 1), by omega⟩
    have hk (v : BitVec 32) : k < (emitU32 v).length := by
      show k < 4
      omega
    rw [writeAt_add (hk _), writeAt_add (hk _)]

/-- Patching a fresh jump to its reset offset changes nothing: the displacement is zero already. -/
theorem patchJump_fresh {buf : CodeBuffer} {jmp : Nat} (hsize : jmp + 5 ≤ buf.size)
    (hbytes : bytesAt buf jmp 5 = [0xE9, 0, 0, 0, 0]) :
    ∃ buf', patchJump buf jmp (jmp + 5) = some buf' ∧ buf'.mem = buf.mem := by
  have hdisp : ((jmp + 5 : Nat) : Int) - (jmp + 5) = 0 := by omega
  obtain ⟨buf', h⟩ := @patchJump_of_fits buf jmp (jmp + 5) hsize (by rw [hdisp]; rfl)
  refine ⟨buf', h, ?_⟩
  have hzero : ∀ k, k < 4 → buf.mem (jmp + 1 + k) = 0 := by
    have h1 : [buf.mem (jmp + 0), buf.mem (jmp + 1), buf.mem (jmp + 2), buf.mem (jmp + 3),
        buf.mem (jmp + 4)] = [0xE9, 0, 0, 0, 0] := hbytes
    injection h1 with _ h1
    injection h1 with h1 h2
    injection h2 with h2 h3
    injection h3 with h3 h4
    injection h4 with h4 _
    intro k hk
    match k, hk with
    | 0, _ => exact h1
    | 1, _ => exact h2
    | 2, _ => exact h3
    | 3, _ => exact h4
  funext a
  by_cases ha : a ≤ jmp ∨ jmp + 5 ≤ a
  · exact patchJump_frame h ha
  · obtain ⟨k, rfl⟩ : ∃ k, a = jmp + 1 + k := ⟨a - (jmp + 1), by omega⟩
    rw [patchJump_mem h, hdisp, writeAt_add (show k < 4 by omega), hzero k (by omega)]
    match k, (show k < 4 by omega) with
    | 0, _ => rfl
    | 1, _ => rfl
    | 2, _ => rfl
    | 3, _ => rfl

theorem patchable_of_bytes {buf : CodeBuffer} {jmp : Nat} (hsize : jmp + 5 ≤ buf.size)
    (hbytes : bytesAt buf jmp 5 = [0xE9, 0, 0, 0, 0])
    (hjumps : jumpTarget buf jmp = (jmp + 5 : Nat)) : Patchable jmp (jmp + 5) buf := by
  have hop : buf.mem jmp = 0xE9 := (List.cons.inj hbytes).1
  obtain ⟨fresh, hfresh, hmem⟩ := patchJump_fresh hsize hbytes
  have hlater {later : CodeBuffer} (h : Later jmp buf later) (tgt : Nat)
      (hlo : -2 ^ 31 ≤ (tgt : Int) - (jmp + 5)) (hhi : (tgt : Int) - (jmp + 5) < 2 ^ 31) :
      ∃ buf', patchJump later jmp tgt = some buf' := by
    apply patchJump_of_fits (h.kept.1 ▸ hsize)
    simp only [fitsI32, Bool.and_eq_true, decide_eq_true_eq]
    omega
  refine ⟨by rw [jumpsTo_eq hop, hjumps], ?_, ?_, ?_⟩
  · intro later h tgt hlo hhi
    obtain ⟨buf', hp⟩ := hlater h tgt (by push_cast at hlo; exact hlo)
      (by push_cast at hhi; exact hhi)
    refine ⟨buf', hp, ?_, ?_⟩
    · have hop' : buf'.mem jmp = 0xE9 :=
        ((patchJump_frame hp (.inl le_rfl)).trans h.kept.2.2).trans hop
      rw [jumpsTo_eq hop', jumpTarget_patchJump hp]
    · intro a ha
      exact patchJump_frame hp (by omega)
  · intro later h
    obtain ⟨buf', hp⟩ := hlater h (jmp + 5) (by push_cast; omega) (by push_cast; omega)
    refine ⟨buf', hp, ?_⟩
    have hagree := patchJump_agree (S := fun a => jmp ≤ a ∧ a < jmp + 5) hp hfresh
      (fun a hS ha => by
        obtain rfl : a = jmp := by omega
        exact h.kept.2.2)
    apply bytesAt_congr
    intro a hle hlt
    rw [hagree a ⟨hle, hlt⟩, hmem]
  · intro tgts later h
    have hrun := Later.now.patches h
    obtain ⟨buf', hp⟩ := hlater hrun.1 (jmp + 5) (by push_cast; omega) (by push_cast; omega)
    refine ⟨buf', hp, ?_⟩
    have hagree := patchJump_agree (S := fun _ => True) hp hfresh (fun a _ ha => hrun.2 a ha)
    funext a
    rw [hagree a trivial, hmem]

/-- Where the displacement of an emitted jump lies, in a buffer at a page-aligned address. -/
theorem displacement_aligned {base offset : Nat} (hbase : 4096 ∣ base) :
    4 ∣ base + (offset + gotoTbPad offset + 1) := by
  obtain ⟨page, rfl⟩ := hbase
  unfold gotoTbPad
  omega

/-- What `goto_tb` emits, and what any later patches make of it. -/
theorem emitGotoTb_patchable (base : Nat) (hbase : 4096 ∣ base) (buf : CodeBuffer)
    (hroom : buf.offset + gotoTbPad buf.offset + 5 ≤ buf.size) :
    ∃ buf' jmp reset, emitGotoTb buf = some (buf', jmp, reset) ∧ reset = buf'.offset ∧
      4 ∣ base + (jmp + 1) ∧
      NopsUpTo (bytesAt buf' jmp 5) (bytesAt buf' buf.offset (reset - buf.offset)) ∧
      Patchable jmp reset buf' := by
  obtain ⟨⟨buf', jmp, reset⟩, h⟩ :=
    Option.isSome_iff_exists.mp ((emitGotoTb_isSome_iff buf).mpr hroom)
  obtain ⟨-, -, hreset, hoff, hjumps⟩ := emitGotoTb_spec h
  obtain ⟨hjmp, hpad, hbytes, hsize⟩ := emitGotoTb_bytes h
  refine ⟨buf', jmp, reset, h, by omega, ?_, ?_, ?_⟩
  · rw [hjmp]
    exact displacement_aligned hbase
  · have hlen : reset - buf.offset = gotoTbPad buf.offset + 5 := by omega
    rw [hlen, bytesAt_add, ← hjmp, hpad]
    exact emitNops_nops _ _
  · rw [hreset]
    exact patchable_of_bytes hsize hbytes (by rw [hjumps, hreset])

/-- At offset 5 two NOP bytes are needed. -/
theorem emitGotoTb_patchable_five :
    ∃ buf' jmp reset, emitGotoTb ⟨64, 5, fun _ => 0⟩ = some (buf', jmp, reset) ∧
      reset = buf'.offset ∧ 4 ∣ 8192 + (jmp + 1) ∧
      NopsUpTo (bytesAt buf' jmp 5) (bytesAt buf' 5 (reset - 5)) ∧ Patchable jmp reset buf' :=
  emitGotoTb_patchable 8192 (by decide) ⟨64, 5, fun _ => 0⟩ (by decide)

end TcgRs.Analysis.PatchableJumps
