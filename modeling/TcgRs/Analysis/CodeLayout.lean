import TcgRs.Analysis.JumpPatching
import TcgRs.Analysis.HashTable
import TcgRs.Model.Exec.ExecLoop

/-!
# Where the code of the blocks lies

The blocks of the store occupy disjoint parts of the code buffer, and the `goto_tb` jumps of
a block lie inside its part, apart from each other.  So a patch of one jump changes no other
jump, and an offset belongs to the code of at most one block.  A block that is allocated and
not yet translated has no code and no jumps.
-/

set_option autoImplicit false

namespace TcgRs.Analysis.CodeLayout

open TcgRs.Model TcgRs.Model.X86 TcgRs.Model.Exec HashTable JumpPatching

/-- The code of one block lies below `limit`, with its jumps inside. -/
structure BlockLayout (limit : Nat) (tb : TranslationBlock) : Prop where
  below : tb.hostOffset + tb.hostSize ≤ limit
  pos : (tb.hostSize = 0 ∧ tb.hostOffset = 0) ∨ (0 < tb.hostSize ∧ 0 < tb.hostOffset)
  jump : ∀ n off, tb.jmpInsnOffset n = some off → tb.hostOffset ≤ off.toNat ∧
    off.toNat + 5 < tb.hostOffset + tb.hostSize ∧
    tb.jmpResetOffset n = some (BitVec.ofNat 32 (off.toNat + 5))
  ordered : ∀ off off', tb.jmpInsnOffset 0 = some off → tb.jmpInsnOffset 1 = some off' →
    off.toNat + 5 ≤ off'.toNat

/-- The code of the two blocks does not overlap. -/
def Apart (tb tb' : TranslationBlock) : Prop :=
  tb.hostSize = 0 ∨ tb'.hostSize = 0 ∨ tb.hostOffset + tb.hostSize ≤ tb'.hostOffset ∨
    tb'.hostOffset + tb'.hostSize ≤ tb.hostOffset

/-- The code buffer of `ExecEnv::new` with the code of all blocks in it. -/
structure Layout (sh : Shared) : Prop where
  size_eq : sh.buf.size = codeBufSize
  offset_le : sh.buf.offset ≤ sh.buf.size
  offset_pos : 0 < sh.buf.offset
  block : ∀ i tb, sh.store.get i = some tb → BlockLayout sh.buf.offset tb
  apart : ∀ i j tb tb', i ≠ j → sh.store.get i = some tb → sh.store.get j = some tb' → Apart tb tb'

/-- The state that `ExecEnv::new` leaves: no blocks, prologue and epilogue in the buffer. -/
structure Fresh (sh : Shared) : Prop where
  store_eq : sh.store = {}
  size_eq : sh.buf.size = codeBufSize
  offset_le : sh.buf.offset ≤ sh.buf.size
  offset_pos : 0 < sh.buf.offset

/-- The state of `ExecEnv::new` with 64 bytes of prologue and epilogue. -/
def newEnv : Shared := ⟨{}, ⟨codeBufSize, 64, fun _ => 0⟩⟩

theorem newEnv_fresh : Fresh newEnv := ⟨rfl, rfl, by decide, by decide⟩

theorem Fresh.get_eq_none {sh : Shared} (h : Fresh sh) (i : Nat) : sh.store.get i = none := by
  rw [h.store_eq]
  rfl

theorem Fresh.layout {sh : Shared} (h : Fresh sh) : Layout sh where
  size_eq := h.size_eq
  offset_le := h.offset_le
  offset_pos := h.offset_pos
  block i tb htb := by rw [h.get_eq_none] at htb; cases htb
  apart i j tb tb' _ htb _ := by rw [h.get_eq_none] at htb; cases htb

/-! ## Sections that move no code -/

/-- The fields that say where a block's code and jumps are. -/
def placement (tb : TranslationBlock) :
    Nat × Nat × (Slot → Option (BitVec 32)) × (Slot → Option (BitVec 32)) :=
  (tb.hostOffset, tb.hostSize, tb.jmpInsnOffset, tb.jmpResetOffset)

/-- The two stores place every block alike. -/
def SamePlacement (s s' : TbStore) : Prop :=
  ∀ i, (s'.get i).map placement = (s.get i).map placement

theorem SamePlacement.refl (s : TbStore) : SamePlacement s s := fun _ => rfl

theorem SamePlacement.trans {s₁ s₂ s₃ : TbStore} (h : SamePlacement s₁ s₂)
    (h' : SamePlacement s₂ s₃) : SamePlacement s₁ s₃ := fun i => (h' i).trans (h i)

theorem SamePlacement.symm {s s' : TbStore} (h : SamePlacement s s') : SamePlacement s' s :=
  fun i => (h i).symm

theorem SamePlacement.get {s s' : TbStore} (h : SamePlacement s s') {i : Nat}
    {tb' : TranslationBlock} (htb' : s'.get i = some tb') :
    ∃ tb, s.get i = some tb ∧ placement tb' = placement tb := by
  have hp := h i
  rw [htb', Option.map_some] at hp
  obtain ⟨tb, htb, heq⟩ := Option.map_eq_some_iff.mp hp.symm
  exact ⟨tb, htb, heq.symm⟩

theorem samePlacement_modify (s : TbStore) (i : Nat) (f : TranslationBlock → TranslationBlock)
    (hf : ∀ tb, placement (f tb) = placement tb) : SamePlacement s (s.modify i f) :=
  fun j => map_get_modify placement s i j hf

theorem samePlacement_of_sameCore {s s' : TbStore} (h : SameCore s s') : SamePlacement s s' := by
  intro i
  exact h.map_get placement (fun _ => rfl) i

theorem BlockLayout.of_placement {limit : Nat} {tb tb' : TranslationBlock}
    (h : BlockLayout limit tb) (hp : placement tb' = placement tb) : BlockLayout limit tb' := by
  simp only [placement, Prod.mk.injEq] at hp
  obtain ⟨h1, h2, h3, h4⟩ := hp
  refine ⟨?_, ?_, ?_, ?_⟩
  · rw [h1, h2]; exact h.below
  · rw [h1, h2]; exact h.pos
  · rw [h1, h2, h3, h4]; exact h.jump
  · rw [h3]; exact h.ordered

theorem Layout.of_same {sh sh' : Shared} (hl : Layout sh)
    (hp : SamePlacement sh.store sh'.store) (hsize : sh'.buf.size = sh.buf.size)
    (hoff : sh'.buf.offset = sh.buf.offset) : Layout sh' where
  size_eq := hsize.trans hl.size_eq
  offset_le := by rw [hsize, hoff]; exact hl.offset_le
  offset_pos := by rw [hoff]; exact hl.offset_pos
  block i tb' htb' := by
    obtain ⟨tb, htb, heq⟩ := hp.get htb'
    rw [hoff]
    exact (hl.block i tb htb).of_placement heq
  apart i j tb₁' tb₂' hne h₁' h₂' := by
    obtain ⟨tb₁, h₁, heq₁⟩ := hp.get h₁'
    obtain ⟨tb₂, h₂, heq₂⟩ := hp.get h₂'
    have h := hl.apart i j tb₁ tb₂ hne h₁ h₂
    simp only [placement, Prod.mk.injEq] at heq₁ heq₂
    unfold Apart at h ⊢
    rw [heq₁.1, heq₁.2.1, heq₂.1, heq₂.2.1]
    exact h

/-! ## Jump sites -/

/-- The offset of the `goto_tb` jump of a slot. -/
def jumpSite (s : TbStore) (i : Nat) (n : Slot) : Option Nat :=
  (s.get i).bind (fun tb => (tb.jmpInsnOffset n).map BitVec.toNat)

theorem jumpSite_eq_some {s : TbStore} {i : Nat} {n : Slot} {off : Nat} :
    jumpSite s i n = some off ↔
      ∃ tb o, s.get i = some tb ∧ tb.jmpInsnOffset n = some o ∧ o.toNat = off := by
  simp [jumpSite, Option.bind_eq_some_iff]

theorem SamePlacement.jumpSite_eq {s s' : TbStore} (h : SamePlacement s s') :
    jumpSite s' = jumpSite s := by
  funext i n
  have hp := congrArg (fun o => o.bind (fun p => (p.2.2.1 n).map BitVec.toNat)) (h i)
  simpa [jumpSite, Option.bind_map, Function.comp_def, placement] using hp

/-- Two different jumps share no byte. -/
theorem Layout.sites_apart {sh : Shared} (hl : Layout sh) {i j : Nat} {n m : Slot} {off off' : Nat}
    (h : jumpSite sh.store i n = some off) (h' : jumpSite sh.store j m = some off')
    (hne : (i, n) ≠ (j, m)) : off' + 5 ≤ off ∨ off + 5 ≤ off' := by
  obtain ⟨tb, o, htb, ho, rfl⟩ := jumpSite_eq_some.mp h
  obtain ⟨tb', o', htb', ho', rfl⟩ := jumpSite_eq_some.mp h'
  have hb := hl.block i tb htb
  have hb' := hl.block j tb' htb'
  obtain ⟨h1, h2, -⟩ := hb.jump n o ho
  obtain ⟨h1', h2', -⟩ := hb'.jump m o' ho'
  by_cases hij : i = j
  · subst hij
    rw [htb] at htb'
    injection htb' with htb'
    subst htb'
    have hnm : n ≠ m := fun hnm => hne (by rw [hnm])
    rcases Slot.cases n with rfl | rfl
    · rcases Slot.cases m with rfl | rfl
      · exact absurd rfl hnm
      · exact Or.inr (hb.ordered o o' ho ho')
    · rcases Slot.cases m with rfl | rfl
      · exact Or.inl (hb.ordered o' o ho' ho)
      · exact absurd rfl hnm
  · have hapart := hl.apart i j tb tb' hij htb htb'
    unfold Apart at hapart
    omega

theorem Layout.site_lt {sh : Shared} (hl : Layout sh) {i : Nat} {n : Slot} {off : Nat}
    (h : jumpSite sh.store i n = some off) : off + 5 < sh.buf.offset := by
  obtain ⟨tb, o, htb, ho, rfl⟩ := jumpSite_eq_some.mp h
  have hb := hl.block i tb htb
  have := hb.below
  have := (hb.jump n o ho).2.1
  omega

/-- Jumps can always be patched to an offset inside the emitted code. -/
theorem Layout.patchJump_isSome {sh : Shared} (hl : Layout sh) {i : Nat} {n : Slot} {off tgt : Nat}
    (h : jumpSite sh.store i n = some off) (htgt : tgt ≤ sh.buf.offset) :
    ∃ buf', patchJump sh.buf off tgt = some buf' := by
  have hlt := hl.site_lt h
  have hle := hl.offset_le
  have hsize : sh.buf.size = 16777216 := hl.size_eq
  exact JumpPatching.patchJump_isSome (by omega) (by omega) (by omega)

/-- The recorded reset offset of a jump is the offset just after it. -/
theorem Layout.reset_eq {sh : Shared} (hl : Layout sh) {i : Nat} {n : Slot}
    {tb : TranslationBlock} {o : BitVec 32} (htb : sh.store.get i = some tb)
    (ho : tb.jmpInsnOffset n = some o) :
    ∃ r, tb.jmpResetOffset n = some r ∧ r.toNat = o.toNat + 5 := by
  have hlt := hl.site_lt (jumpSite_eq_some.mpr ⟨tb, o, htb, ho, rfl⟩)
  have hle := hl.offset_le
  have hsize : sh.buf.size = 16777216 := hl.size_eq
  refine ⟨_, ((hl.block i tb htb).jump n o ho).2.2, ?_⟩
  rw [BitVec.toNat_ofNat]
  exact Nat.mod_eq_of_lt (by omega)

/-! ## Translation of a block -/

theorem Layout.alloc {sh : Shared} (hl : Layout sh) {pc : BitVec 64} {flags cflags : BitVec 32}
    {s' : TbStore} {i : Nat} (h : sh.store.alloc pc flags cflags = some (s', i)) :
    Layout { sh with store := s' } where
  size_eq := hl.size_eq
  offset_le := hl.offset_le
  offset_pos := hl.offset_pos
  block j tb htb := by
    rw [get_alloc h] at htb
    split at htb
    · injection htb with htb
      subst htb
      refine ⟨by simp [TranslationBlock.new], Or.inl ⟨rfl, rfl⟩, ?_, ?_⟩
      · intro n off ho
        cases ho
      · intro off off' ho
        cases ho
    · exact hl.block j tb htb
  apart j k tb tb' hne htb htb' := by
    rw [get_alloc h] at htb htb'
    split at htb
    · injection htb with htb
      exact Or.inl (by rw [← htb]; rfl)
    · split at htb'
      · injection htb' with htb'
        exact Or.inr (Or.inl (by rw [← htb']; rfl))
      · exact hl.apart j k tb tb' hne htb htb'

/-- The jumps recorded for a block, by slot. -/
theorem recordJumps_spec {tb : TranslationBlock} (info : List (Nat × Nat))
    (hnone : ∀ n, tb.jmpInsnOffset n = none) :
    (∀ n off, (recordJumps tb info).jmpInsnOffset n = some off →
      ∃ p, info[n.val]? = some p ∧ off = BitVec.ofNat 32 p.1 ∧
        (recordJumps tb info).jmpResetOffset n = some (BitVec.ofNat 32 p.2)) ∧
    (recordJumps tb info).hostOffset = tb.hostOffset ∧
    (recordJumps tb info).hostSize = tb.hostSize := by
  match info with
  | [] =>
    refine ⟨fun n off h => ?_, rfl, rfl⟩
    rw [recordJumps, hnone] at h
    cases h
  | [p] =>
    refine ⟨fun n off h => ?_, rfl, rfl⟩
    rcases Slot.cases n with rfl | rfl
    · refine ⟨p, rfl, ?_, rfl⟩
      exact (Option.some.inj h).symm
    · have hnone' : (none : Option (BitVec 32)) = some off := (hnone 1).symm.trans h
      cases hnone'
  | p :: q :: l =>
    refine ⟨fun n off h => ?_, rfl, rfl⟩
    rcases Slot.cases n with rfl | rfl
    · exact ⟨p, rfl, (Option.some.inj h).symm, rfl⟩
    · exact ⟨q, rfl, (Option.some.inj h).symm, rfl⟩

/-- Recording the jumps touches nothing but the two offset arrays. -/
theorem recordJumps_eq (tb : TranslationBlock) (info : List (Nat × Nat)) :
    ∃ a b, recordJumps tb info = { tb with jmpInsnOffset := a, jmpResetOffset := b } := by
  match info with
  | [] => exact ⟨tb.jmpInsnOffset, tb.jmpResetOffset, rfl⟩
  | [p] => exact ⟨_, _, rfl⟩
  | p :: q :: l => exact ⟨_, _, rfl⟩

/-- What `emitTb` does to the block, to the other blocks and to the jumps in the buffer. -/
structure Emitted (sh sh' : Shared) (i : Nat) : Prop where
  layout : Layout sh'
  length_eq : sh'.store.tbs.length = sh.store.tbs.length
  hash_eq : sh'.store.hash = sh.store.hash
  others : ∀ j, j ≠ i → sh'.store.get j = sh.store.get j
  filled : ∀ tb, sh.store.get i = some tb → ∃ size a b, sh'.store.get i = some
    { tb with
      size := size
      hostOffset := sh.buf.offset
      hostSize := sh'.buf.offset - sh.buf.offset
      jmpInsnOffset := a
      jmpResetOffset := b }
  grows : sh.buf.offset < sh'.buf.offset
  old_jumps : ∀ pos, pos + 5 ≤ sh.buf.offset → jumpTarget sh'.buf pos = jumpTarget sh.buf pos
  new_jumps : ∀ n off, jumpSite sh'.store i n = some off →
    sh.buf.offset ≤ off ∧ jumpTarget sh'.buf off = (off + 5 : Nat)

/-- What `g` reads of a block is not changed when its code is filled in. -/
theorem Emitted.map_get {β : Type*} {sh sh' : Shared} {i : Nat} (h : Emitted sh sh' i)
    (g : TranslationBlock → β)
    (hg : ∀ (tb : TranslationBlock) size off len a b, g { tb with
      size := size, hostOffset := off, hostSize := len, jmpInsnOffset := a,
      jmpResetOffset := b } = g tb) (j : Nat) :
    (sh'.store.get j).map g = (sh.store.get j).map g := by
  by_cases hj : j = i
  · subst hj
    cases htb : sh.store.get j with
    | none =>
      have hge : sh.store.tbs.length ≤ j := by
        unfold TbStore.get at htb
        exact List.getElem?_eq_none_iff.mp htb
      have hnone : sh'.store.get j = none := by
        unfold TbStore.get
        rw [List.getElem?_eq_none_iff, h.length_eq]
        exact hge
      rw [hnone]
    | some tb =>
      obtain ⟨size, a, b, hfill⟩ := h.filled tb htb
      rw [hfill, Option.map_some, Option.map_some, hg]
  · rw [h.others j hj]

theorem Emitted.sameTable {sh sh' : Shared} {i : Nat} (h : Emitted sh sh' i) :
    SameTable sh.store sh'.store :=
  ⟨h.length_eq, h.hash_eq, h.map_get _ (fun _ _ _ _ _ _ => rfl)⟩

theorem emitTb_spec {sh sh' : Shared} {gen : CodeGen} {i : Nat} {tr : Translation}
    {tb : TranslationBlock} (hl : Layout sh) (htb : sh.store.get i = some tb)
    (hnone : ∀ n, tb.jmpInsnOffset n = none) (h : sh.emitTb gen i tr = some sh') :
    Emitted sh sh' i := by
  unfold Shared.emitTb at h
  obtain ⟨st, hst, h⟩ := Option.bind_eq_some_iff.mp h
  simp only [Option.pure_def, Option.some.injEq] at h
  obtain ⟨hext, hjl, hgrow, hreset⟩ := emitBlock_layout hst
  have hsize : st.buf.size = 16777216 := hext.size_eq.trans hl.size_eq
  have hoff' : st.buf.offset ≤ st.buf.size := by
    rw [hext.size_eq]
    exact hext.offset_le_size hl.offset_le
  obtain ⟨tb₀, htb₀⟩ : ∃ tb₀ : TranslationBlock, tb₀ = { tb with
      size := tr.guestSize
      hostOffset := sh.buf.offset
      hostSize := st.buf.offset - sh.buf.offset } := ⟨_, rfl⟩
  have hnone₀ : ∀ n, tb₀.jmpInsnOffset n = none := by rw [htb₀]; exact hnone
  obtain ⟨hrec, hho, hhs⟩ := recordJumps_spec st.gotoTbInfo hnone₀
  have hget : ∀ j, sh'.store.get j = if j = i then some (recordJumps tb₀ st.gotoTbInfo)
      else sh.store.get j := by
    intro j
    rw [← h]
    by_cases hji : j = i
    · subst hji
      simp [htb, htb₀]
    · have hij : ¬ i = j := fun h => hji h.symm
      simp [hji, hij]
  have hbuf : sh'.buf = st.buf := by rw [← h]
  have hhost : (recordJumps tb₀ st.gotoTbInfo).hostOffset = sh.buf.offset := by rw [hho, htb₀]
  have hhsize : (recordJumps tb₀ st.gotoTbInfo).hostSize = st.buf.offset - sh.buf.offset := by
    rw [hhs, htb₀]
  -- the recorded jump of a slot, as an entry of the emitter's list
  have hslot : ∀ n off, (recordJumps tb₀ st.gotoTbInfo).jmpInsnOffset n = some off →
      ∃ p, st.gotoTbInfo[n.val]? = some p ∧ off.toNat = p.1 ∧ sh.buf.offset ≤ p.1 ∧
        p.1 + 10 ≤ st.buf.offset ∧ jumpTarget st.buf p.1 = (p.1 + 5 : Nat) ∧
        (recordJumps tb₀ st.gotoTbInfo).jmpResetOffset n =
          some (BitVec.ofNat 32 (off.toNat + 5)) := by
    intro n off hoff
    obtain ⟨p, hp, rfl, hr⟩ := hrec n off hoff
    have hmem := List.mem_of_getElem? hp
    obtain ⟨h1, h2, h3, h4⟩ := hjl.inside p hmem
    have h5 := hreset p hmem
    have hnat : (BitVec.ofNat 32 p.1).toNat = p.1 := by
      rw [BitVec.toNat_ofNat]
      exact Nat.mod_eq_of_lt (by omega)
    refine ⟨p, hp, hnat, h1, by omega, ?_, ?_⟩
    · rw [h4, h3]
    · rw [hr, hnat, h3]
  refine ⟨?_, ?_, ?_, ?_, ?_, ?_, ?_, ?_⟩
  · -- the new code lies behind all other code
    refine ⟨by rw [hbuf]; exact hsize, by rw [hbuf]; exact hoff', ?_, ?_, ?_⟩
    · have := hl.offset_pos
      rw [hbuf]
      omega
    · intro j t ht
      rw [hget] at ht
      rw [hbuf]
      split at ht
      · injection ht with ht
        subst ht
        have := hl.offset_pos
        refine ⟨by omega, Or.inr (by omega), ?_, ?_⟩
        · intro n off hoff
          obtain ⟨p, -, hnat, h1, h2, -, hr⟩ := hslot n off hoff
          exact ⟨by omega, by omega, hr⟩
        · intro off off' hoff hoff'
          obtain ⟨p, hp, hnat, -⟩ := hslot 0 off hoff
          obtain ⟨q, hq, hnat', -⟩ := hslot 1 off' hoff'
          rw [hnat, hnat']
          obtain ⟨h0, hp⟩ := List.getElem?_eq_some_iff.mp hp
          obtain ⟨h1, hq⟩ := List.getElem?_eq_some_iff.mp hq
          have hord := List.pairwise_iff_getElem.mp hjl.ordered 0 1 h0 h1 (by omega)
          have hp' : st.gotoTbInfo[0] = p := hp
          have hq' : st.gotoTbInfo[1] = q := hq
          rwa [hp', hq'] at hord
      · have hb := hl.block j t ht
        exact ⟨by have := hb.below; omega, hb.pos, hb.jump, hb.ordered⟩
    · intro j k t t' hne ht ht'
      rw [hget] at ht ht'
      split at ht
      · injection ht with ht
        split at ht'
        · omega
        · have := (hl.block k t' ht').below
          exact Or.inr (Or.inr (Or.inr (by rw [← ht, hhost]; exact this)))
      · split at ht'
        · injection ht' with ht'
          have := (hl.block j t ht).below
          exact Or.inr (Or.inr (Or.inl (by rw [← ht', hhost]; exact this)))
        · exact hl.apart j k t t' hne ht ht'
  · rw [← h]
    exact length_modify _ _ _
  · rw [← h]
    rfl
  · intro j hj
    rw [hget, if_neg hj]
  · intro t ht
    rw [htb] at ht
    injection ht with ht
    subst ht
    obtain ⟨a, b, hab⟩ := recordJumps_eq tb₀ st.gotoTbInfo
    refine ⟨tr.guestSize, a, b, ?_⟩
    rw [hget, if_pos rfl, hab, htb₀, hbuf]
  · rw [hbuf]
    omega
  · intro pos hpos
    rw [hbuf]
    exact hext.jumpTarget_eq hpos
  · intro n off hoff
    obtain ⟨t, o, ht, ho, rfl⟩ := jumpSite_eq_some.mp hoff
    rw [hget, if_pos rfl] at ht
    injection ht with ht
    subst ht
    obtain ⟨p, -, hnat, h1, -, h2, -⟩ := hslot n o ho
    rw [hbuf, hnat]
    exact ⟨h1, h2⟩

/-- The three sections of a translation. -/
theorem translateTb_eq_some {sh sh' : Shared} {gen : CodeGen} {tr : Translation}
    {pc : BitVec 64} {flags : BitVec 32} {i : Nat}
    (h : sh.translateTb gen tr pc flags = some (sh', i)) :
    ∃ s₁ sh₂ s₃, sh.store.alloc pc flags 0 = some (s₁, i) ∧
      ({ sh with store := s₁ } : Shared).emitTb gen i tr = some sh₂ ∧
      sh₂.store.insert i = some s₃ ∧ sh' = { sh₂ with store := s₃ } := by
  unfold Shared.translateTb at h
  obtain ⟨⟨s₁, j⟩, h₁, h⟩ := Option.bind_eq_some_iff.mp h
  obtain ⟨sh₂, h₂, h⟩ := Option.bind_eq_some_iff.mp h
  obtain ⟨s₃, h₃, h⟩ := Option.bind_eq_some_iff.mp h
  simp only [Option.pure_def, Option.some.injEq, Prod.mk.injEq] at h
  obtain ⟨rfl, rfl⟩ := h
  exact ⟨s₁, sh₂, s₃, h₁, h₂, h₃, rfl⟩

/-- The emission step of a translation, on the block just allocated. -/
theorem emitTb_of_alloc {sh sh₂ : Shared} {gen : CodeGen} {tr : Translation} {pc : BitVec 64}
    {flags : BitVec 32} {s₁ : TbStore} {i : Nat} (hl : Layout sh)
    (h₁ : sh.store.alloc pc flags 0 = some (s₁, i))
    (h₂ : ({ sh with store := s₁ } : Shared).emitTb gen i tr = some sh₂) :
    Emitted { sh with store := s₁ } sh₂ i := by
  obtain ⟨hi, -, -⟩ := alloc_eq_some h₁
  have hget : s₁.get i = some (TranslationBlock.new pc flags 0) := by
    rw [get_alloc h₁, if_pos hi]
  exact emitTb_spec (hl.alloc h₁) hget (fun _ => rfl) h₂

end TcgRs.Analysis.CodeLayout
