import TcgRs.Library.Schedule
import TcgRs.Analysis.JumpEdges
import TcgRs.Analysis.BlockExtent
import TcgRs.Model.Exec.CpuLoop

/-!
# The loop with its caches runs the right blocks

A block is handed over by the jump cache, the hash table, a fresh translation, the hint, the
exit target or a patched jump.  All but the last two of these ways test the block's pc, flags
and validity; the hint carries a block that was tested in the iteration before, and a patched
jump leads to a block that was found for the pc and flags with which its slot always exits.
-/

set_option autoImplicit false

namespace TcgRs.Analysis.CachedLoop

open TcgRs.Model TcgRs.Model.X86 TcgRs.Model.Exec
open HashTable JumpPatching CodeLayout ChainSections JumpEdges BlockExtent

/-! ## Exit values -/

/-- The upper half of a chainable exit value is the block's index plus one. -/
theorem decodeTbExit_encodeTbExit {i : Nat} (hi : i < 2 ^ 32 - 1) {val : BitVec 32}
    (hval : val.toNat < 3) :
    decodeTbExit (encodeTbExit (BitVec.ofNat 32 i) (val.setWidth 64)) = (some i, val.toNat) := by
  have hlt : val.setWidth 64 < tbExitMax := by
    rw [BitVec.lt_def, BitVec.toNat_setWidth, Nat.mod_eq_of_lt (by omega)]
    exact hval
  have hidx : (BitVec.setWidth 64 (BitVec.ofNat 32 i) + 1).toNat = i + 1 := by
    rw [BitVec.toNat_add, BitVec.toNat_setWidth, BitVec.toNat_ofNat]
    change (i % 2 ^ 32 % 2 ^ 64 + 1) % 2 ^ 64 = i + 1
    omega
  have hraw : (((BitVec.ofNat 32 i).setWidth 64 + 1) <<< 32 ||| val.setWidth 64).toNat =
      (i + 1) * 2 ^ 32 + val.toNat := by
    rw [BitVec.toNat_or, BitVec.toNat_shiftLeft, hidx, BitVec.toNat_setWidth,
      Nat.mod_eq_of_lt (by omega : val.toNat < 2 ^ 64), Nat.shiftLeft_eq,
      Nat.mod_eq_of_lt (by omega), ← Nat.shiftLeft_eq,
      ← Nat.shiftLeft_add_eq_or_of_lt (by omega), Nat.shiftLeft_eq]
  have hmarker : ((((BitVec.ofNat 32 i).setWidth 64 + 1) <<< 32 ||| val.setWidth 64) >>> 32).toNat =
      i + 1 := by
    rw [BitVec.toNat_ushiftRight, hraw, Nat.shiftRight_eq_div_pow]
    omega
  have hne : (((BitVec.ofNat 32 i).setWidth 64 + 1) <<< 32 ||| val.setWidth 64) >>> 32 ≠ 0 := by
    intro h
    rw [h] at hmarker
    simp at hmarker
  have hcode : ((((BitVec.ofNat 32 i).setWidth 64 + 1) <<< 32 ||| val.setWidth 64) &&& 3).toNat =
      val.toNat := by
    have h3 : (3 : BitVec 64).toNat = 2 ^ 2 - 1 := rfl
    rw [BitVec.toNat_and, hraw, h3, Nat.and_two_pow_sub_one_eq_mod]
    omega
  unfold encodeTbExit decodeTbExit
  rw [if_pos hlt]
  simp only
  rw [if_pos hne, hmarker, hcode]
  rfl

/-- A real exit value is not taken for a chainable one. -/
theorem decodeTbExit_of_real {i : Nat} {val : BitVec 32} (hval : 3 ≤ val.toNat) :
    decodeTbExit (encodeTbExit (BitVec.ofNat 32 i) (val.setWidth 64)) = (none, val.toNat) := by
  have hnat : (val.setWidth 64).toNat = val.toNat := by
    rw [BitVec.toNat_setWidth]
    exact Nat.mod_eq_of_lt (by omega)
  have hge : ¬ val.setWidth 64 < tbExitMax := by
    rw [BitVec.lt_def, hnat]
    exact Nat.not_lt.mpr hval
  have hmarker : val.setWidth 64 >>> 32 = 0 := by
    apply BitVec.eq_of_toNat_eq
    rw [BitVec.toNat_ushiftRight, hnat, Nat.shiftRight_eq_div_pow, Nat.div_eq_of_lt val.isLt]
    rfl
  unfold encodeTbExit decodeTbExit
  rw [if_neg hge]
  simp only
  rw [if_neg (by simp [hmarker]), hnat]

/-! ## The jumps of a block -/

/-- The `goto_tb`s of a block come in slot order, each followed by the exit of its slot. -/
def Chained (code : BlockCode) : Prop :=
  ∀ k g, code.ops[k]? = some (.gotoTb g) → g < 2 ∧ (code.ops.take k).countP isGotoTb = g ∧
    code.ops[k + 1]? = some (.exitTb (BitVec.ofNat 32 g))

theorem recordJumps_of_getElem? {tb : TranslationBlock} {info : List (Nat × Nat)} {n : Slot}
    {p : Nat × Nat} (h : info[n.val]? = some p) :
    (recordJumps tb info).jmpInsnOffset n = some (BitVec.ofNat 32 p.1) := by
  match info with
  | [] => simp at h
  | [q] =>
    rcases Slot.cases n with rfl | rfl
    · simp only [Fin.val_zero, List.getElem?_cons_zero, Option.some.injEq] at h
      rw [h]
      rfl
    · simp at h
  | q :: r :: l =>
    rcases Slot.cases n with rfl | rfl
    · simp only [Fin.val_zero, List.getElem?_cons_zero, Option.some.injEq] at h
      rw [h]
      rfl
    · simp only [Fin.val_one, List.getElem?_cons_succ, List.getElem?_cons_zero,
        Option.some.injEq] at h
      rw [h]
      rfl

/-- The jump of slot `g` is the one of the block's `goto_tb` with that index. -/
theorem emitTb_site {sh sh' : Shared} {gen : CodeGen} {i : Nat} {tr : Translation}
    {tb : TranslationBlock} (hl : Layout sh) (htb : sh.store.get i = some tb)
    (h : sh.emitTb gen i tr = some sh') {k : Nat} {g : Slot}
    (hk : tr.code.ops[k]? = some (.gotoTb g.val))
    (hcount : (tr.code.ops.take k).countP isGotoTb = g.val) :
    jumpSite sh'.store i g =
      some (gotoTbJump (BitVec.ofNat 32 i) sh.buf.offset tr.code.ops k) := by
  unfold Shared.emitTb at h
  obtain ⟨st, hst, h⟩ := Option.bind_eq_some_iff.mp h
  simp only [Option.pure_def, Option.some.injEq] at h
  obtain ⟨hext, hjl, -, -⟩ := emitBlock_layout hst
  have hsize : sh.buf.size = 16777216 := hl.size_eq
  have hoff := hext.offset_le_size hl.offset_le
  have hinfo := (emitItems_end hst).2
  rw [List.nil_append] at hinfo
  have hget := jumpsFrom_getElem? (BitVec.ofNat 32 i) sh.buf.offset hk
  rw [hcount, ← hinfo] at hget
  obtain ⟨-, h2, h3, -⟩ := hjl.inside _ (List.mem_of_getElem? hget)
  have hfill : sh'.store.get i = some (recordJumps { tb with
      size := tr.guestSize
      hostOffset := sh.buf.offset
      hostSize := st.buf.offset - sh.buf.offset } st.gotoTbInfo) := by
    rw [← h, get_modify, htb, Option.map_some, if_pos rfl]
  refine jumpSite_eq_some.mpr ⟨_, _, hfill, recordJumps_of_getElem? hget, ?_⟩
  · rw [BitVec.toNat_ofNat]
    exact Nat.mod_eq_of_lt (by omega)

/-! ## The data of the loop -/

/-- What holds of the store, the code buffer and the emitted code whenever the loop is between
two of its steps.  `exitsTo s n` is the state in which slot `n` of block `s` leaves the CPU. -/
structure DataInv (exitsTo : Nat → Slot → Cpu) (sh : Shared) (code : Nat → BlockCode) : Prop where
  chain : ChainInv sh
  small : sh.store.tbs.length ≤ TbStore.maxTbs
  listed : ∃ live, TableInv sh.store live ∧ ∀ i, flagOf sh.store i = some false → i ∈ live
  unique : ∀ pc flags i j, answers sh.store pc flags i = true →
    answers sh.store pc flags j = true → i = j
  hosted : ∀ i tb, sh.store.get i = some tb → 0 < tb.hostSize
  sites : ∀ i tb k g, sh.store.get i = some tb → (code i).ops[k]? = some (.gotoTb g) →
    ∃ h : g < 2, jumpSite sh.store i ⟨g, h⟩ =
        some (gotoTbJump (BitVec.ofNat 32 i) tb.hostOffset (code i).ops k) ∧
      (code i).ops[k + 1]? = some (.exitTb (BitVec.ofNat 32 g))
  slots : ∀ s n d, flagOf sh.store s = some false → destOf sh.store s n = some d →
    answers sh.store (exitsTo s n).pc (exitsTo s n).flags d = true

theorem flagOf_eq_keyOf (s : TbStore) (i : Nat) :
    flagOf s i = (keyOf s i).map (fun p => p.2.2) := by
  rw [flagOf, keyOf, Option.map_map]
  rfl

theorem answers_congr {s s' : TbStore} (h : ∀ i, keyOf s' i = keyOf s i) (pc : BitVec 64)
    (flags : BitVec 32) (i : Nat) : answers s' pc flags i = answers s pc flags i := by
  rw [Bool.eq_iff_iff, answers_iff, answers_iff, h]

theorem flagOf_of_answers {s : TbStore} {pc : BitVec 64} {flags : BitVec 32} {i : Nat}
    (h : answers s pc flags i = true) : flagOf s i = some false := by
  rw [flagOf_eq_keyOf, answers_iff.mp h]
  rfl

theorem Fresh.dataInv {sh : Shared} (h : Fresh sh) (exitsTo : Nat → Slot → Cpu)
    (code : Nat → BlockCode) : DataInv exitsTo sh code where
  chain := Fresh.chainInv h
  small := by
    rw [h.store_eq]
    exact Nat.zero_le _
  listed := by
    obtain ⟨live, hlive⟩ := (Fresh.chainInv h).table
    refine ⟨live, hlive, fun i hi => ?_⟩
    simp [flagOf, h.get_eq_none] at hi
  unique pc flags i j hi := by simp [answers, h.get_eq_none] at hi
  hosted i tb htb := by
    rw [h.get_eq_none] at htb
    cases htb
  sites i tb k g htb := by
    rw [h.get_eq_none] at htb
    cases htb
  slots s n d hs := by simp [flagOf, h.get_eq_none] at hs

theorem DataInv.hosted_of_placement {exitsTo : Nat → Slot → Cpu} {sh : Shared}
    {code : Nat → BlockCode} (h : DataInv exitsTo sh code) {s' : TbStore}
    (hp : SamePlacement sh.store s') (i : Nat) (tb' : TranslationBlock)
    (htb' : s'.get i = some tb') : 0 < tb'.hostSize := by
  obtain ⟨tb, htb, hpl⟩ := hp.get htb'
  simp only [placement, Prod.mk.injEq] at hpl
  rw [hpl.2.1]
  exact h.hosted i tb htb

theorem DataInv.sites_of_placement {exitsTo : Nat → Slot → Cpu} {sh : Shared}
    {code : Nat → BlockCode} (h : DataInv exitsTo sh code) {s' : TbStore}
    (hp : SamePlacement sh.store s') (i : Nat) (tb' : TranslationBlock) (k g : Nat)
    (htb' : s'.get i = some tb') (hk : (code i).ops[k]? = some (.gotoTb g)) :
    ∃ h : g < 2, jumpSite s' i ⟨g, h⟩ =
        some (gotoTbJump (BitVec.ofNat 32 i) tb'.hostOffset (code i).ops k) ∧
      (code i).ops[k + 1]? = some (.exitTb (BitVec.ofNat 32 g)) := by
  obtain ⟨tb, htb, hpl⟩ := hp.get htb'
  obtain ⟨hg, hsite, hexit⟩ := h.sites i tb k g htb hk
  simp only [placement, Prod.mk.injEq] at hpl
  refine ⟨hg, ?_, hexit⟩
  rw [hp.jumpSite_eq, hpl.1]
  exact hsite

/-- A step that keeps the table, the keys and the placement, and links slots only to blocks
for the state in which they leave the CPU. -/
theorem DataInv.of_frame {exitsTo : Nat → Slot → Cpu} {sh sh' : Shared} {code : Nat → BlockCode}
    (h : DataInv exitsTo sh code) (hchain : ChainInv sh') (htab : SameTable sh.store sh'.store)
    (hkey : ∀ i, keyOf sh'.store i = keyOf sh.store i)
    (hp : SamePlacement sh.store sh'.store)
    (hdest : ∀ s n d, destOf sh'.store s n = some d → destOf sh.store s n = some d ∨
      answers sh.store (exitsTo s n).pc (exitsTo s n).flags d = true) :
    DataInv exitsTo sh' code where
  chain := hchain
  small := by
    rw [htab.length_eq]
    exact h.small
  listed := by
    obtain ⟨live, hlive, hall⟩ := h.listed
    refine ⟨live, hlive.of_same htab, fun i hi => hall i ?_⟩
    rw [flagOf_eq_keyOf, hkey] at hi
    rw [flagOf_eq_keyOf]
    exact hi
  unique pc flags i j hi hj := by
    rw [answers_congr hkey] at hi hj
    exact h.unique pc flags i j hi hj
  hosted := h.hosted_of_placement hp
  sites := h.sites_of_placement hp
  slots s n d hs hd := by
    rw [flagOf_eq_keyOf, hkey, ← flagOf_eq_keyOf] at hs
    rw [answers_congr hkey]
    rcases hdest s n d hd with hd | ha
    · exact h.slots s n d hs hd
    · exact ha

/-- What chaining leaves alone. -/
theorem tbAddJump_frame {sh sh' : Shared} {src slot dst : Nat}
    (h : sh.tbAddJump src slot dst = some sh') :
    SameTable sh.store sh'.store ∧ (∀ i, keyOf sh'.store i = keyOf sh.store i) ∧
      SamePlacement sh.store sh'.store ∧ ∀ s (n : Slot) d, destOf sh'.store s n = some d →
        destOf sh.store s n = some d ∨ (s = src ∧ n.val = slot ∧ d = dst) := by
  have hrefl : SameTable sh.store sh.store ∧ (∀ i, keyOf sh.store i = keyOf sh.store i) ∧
      SamePlacement sh.store sh.store ∧ ∀ s (n : Slot) d, destOf sh.store s n = some d →
        destOf sh.store s n = some d ∨ (s = src ∧ n.val = slot ∧ d = dst) :=
    ⟨SameTable.refl _, fun _ => rfl, SamePlacement.refl _, fun _ _ _ h => Or.inl h⟩
  unfold Shared.tbAddJump at h
  obtain ⟨srcTb, -, h⟩ := Option.bind_eq_some_iff.mp h
  split at h
  · next hslot =>
    split at h
    · injection h with h
      exact h ▸ hrefl
    · obtain ⟨dstTb, -, h⟩ := Option.bind_eq_some_iff.mp h
      split at h
      · injection h with h
        exact h ▸ hrefl
      · obtain ⟨⟨sh₁, linked⟩, hlink, h⟩ := Option.bind_eq_some_iff.mp h
        unfold Shared.linkSource at hlink
        obtain ⟨tb, -, hlink⟩ := Option.bind_eq_some_iff.mp hlink
        split at hlink
        · simp only [Option.pure_def, Option.some.injEq, Prod.mk.injEq] at hlink
          obtain ⟨rfl, rfl⟩ := hlink
          simp only [Bool.false_eq_true, if_false, Option.pure_def, Option.some.injEq] at h
          exact h ▸ hrefl
        · obtain ⟨tbd, -, hlink⟩ := Option.bind_eq_some_iff.mp hlink
          obtain ⟨buf, -, hlink⟩ := Option.bind_eq_some_iff.mp hlink
          simp only [Option.pure_def, Option.some.injEq, Prod.mk.injEq] at hlink
          obtain ⟨rfl, rfl⟩ := hlink
          simp only [if_true, Option.pure_def, Option.some.injEq] at h
          subst h
          refine ⟨?_, ?_, ?_, ?_⟩
          · exact (setJmpDest_sameTable _ _ _ _).trans (pushIncoming_sameTable _ _ _ _)
          · intro i
            rw [keyOf_pushIncoming, keyOf_setJmpDest]
          · exact (setJmpDest_placement _ _ _ _).trans (pushIncoming_placement _ _ _ _)
          · intro s n d hd
            rw [destOf_pushIncoming, destOf_setJmpDest] at hd
            split at hd
            · next heq =>
              obtain ⟨-, -, hd⟩ := Option.bind_eq_some_iff.mp hd
              injection hd with hd
              exact Or.inr ⟨heq.1.symm, by rw [heq.2], hd.symm⟩
            · exact Or.inl hd
  · cases h

/-- Chaining a slot to the block found for the state in which the slot leaves the CPU. -/
theorem DataInv.tbAddJump {exitsTo : Nat → Slot → Cpu} {sh sh' : Shared}
    {code : Nat → BlockCode} (h : DataInv exitsTo sh code) {src dst : Nat} {n : Slot}
    (hsrc : flagOf sh.store src = some false)
    (hdst : answers sh.store (exitsTo src n).pc (exitsTo src n).flags dst = true)
    (hadd : sh.tbAddJump src n.val dst = some sh') :
    DataInv exitsTo sh' code ∧ ∀ i, keyOf sh'.store i = keyOf sh.store i := by
  obtain ⟨htab, hkey, hp, hdest⟩ := tbAddJump_frame hadd
  have hlt : ∀ i, flagOf sh.store i = some false → i < sh.store.tbs.length := by
    intro i hi
    obtain ⟨tb, htb, -⟩ := Option.map_eq_some_iff.mp hi
    exact get_eq_some_lt htb
  -- the slot is free or linked to this block already, since blocks are unique
  have hrep : ¬ Repoints sh src n.val dst := by
    rintro ⟨tb, tbd, hn, htb, -, htbd, hvalid, d, hd, hne⟩
    refine hne (h.unique _ _ d dst (h.slots src n d hsrc ?_) hdst)
    rw [destOf_of_get htb]
    exact hd
  obtain ⟨sh₁, hsh₁, hchain⟩ :=
    h.chain.tbAddJump (hlt src hsrc) n.isLt (hlt dst (flagOf_of_answers hdst)) hrep
  rw [hadd] at hsh₁
  injection hsh₁ with hsh₁
  refine ⟨h.of_frame (hsh₁ ▸ hchain) htab hkey hp ?_, hkey⟩
  intro s m d hd
  rcases hdest s m d hd with hd | ⟨rfl, hm, rfl⟩
  · exact Or.inl hd
  · rw [Fin.ext hm]
    exact Or.inr hdst

theorem DataInv.setExitTarget {exitsTo : Nat → Slot → Cpu} {sh : Shared}
    {code : Nat → BlockCode} (h : DataInv exitsTo sh code) (src dst : Nat) :
    DataInv exitsTo { sh with store := sh.store.setExitTarget src dst } code ∧
      ∀ i, keyOf (sh.store.setExitTarget src dst) i = keyOf sh.store i := by
  have hp : SamePlacement sh.store (sh.store.setExitTarget src dst) :=
    samePlacement_modify _ _ _ (fun _ => rfl)
  have htab : SameTable sh.store (sh.store.setExitTarget src dst) :=
    sameTable_modify _ _ _ (fun _ => rfl)
  have hkey : ∀ i, keyOf (sh.store.setExitTarget src dst) i = keyOf sh.store i :=
    fun i => map_get_modify _ _ _ _ (fun _ => rfl)
  have hdest : ∀ i n, destOf (sh.store.setExitTarget src dst) i n = destOf sh.store i n := by
    intro i n
    refine destOf_modify sh.store src ?_ i n
    intro tb
    rfl
  have hinc : ∀ d, incoming (sh.store.setExitTarget src dst) d = incoming sh.store d := by
    intro d
    refine incoming_modify sh.store src ?_ d
    intro tb
    rfl
  have hE := h.chain.edges
  have hchain : ChainInv { sh with store := sh.store.setExitTarget src dst } := by
    obtain ⟨live, hlive⟩ := h.chain.table
    refine ⟨h.chain.layout.of_same hp rfl rfl, ⟨live, hlive.of_same htab⟩, ?_, ?_, ?_, ?_⟩
    · intro i n d
      rw [hdest, hinc]
      exact hE.dest_iff i n d
    · intro d
      rw [hinc]
      exact hE.nodup d
    · intro i n d hd
      rw [hdest] at hd
      obtain ⟨off, tbd, hsite, htbd, htgt⟩ := hE.linked i n d hd
      obtain ⟨tbd', htbd', hpl⟩ := hp.symm.get htbd
      refine ⟨off, tbd', by rw [hp.jumpSite_eq]; exact hsite, htbd', ?_⟩
      rw [htgt]
      exact congrArg (fun p => ((p.1 : Nat) : Int)) hpl
    · intro i n off hflag hnone hsite
      rw [flagOf_eq_keyOf, hkey, ← flagOf_eq_keyOf] at hflag
      rw [hdest] at hnone
      rw [hp.jumpSite_eq] at hsite
      exact hE.unlinked i n off hflag hnone hsite
  refine ⟨h.of_frame hchain htab hkey hp ?_, hkey⟩
  intro s n d hd
  rw [hdest] at hd
  exact Or.inl hd

/-- Invalidation resets every jump that leads to the block. -/
theorem DataInv.invalidate {exitsTo : Nat → Slot → Cpu} {sh sh' : Shared} {code : Nat → BlockCode}
    (h : DataInv exitsTo sh code) {i : Nat} (hs : sh.invalidate i = some sh') :
    DataInv exitsTo sh' code := by
  have hi : i < sh.store.tbs.length := by
    by_contra hi
    have hnone : sh.store.get i = none := get_none_of_le (by omega)
    simp [Shared.invalidate, hnone] at hs
  obtain ⟨sh₁, hsh₁, hinv, hchain⟩ := h.chain.invalidate hi
  rw [hs] at hsh₁
  injection hsh₁ with hsh₁
  subst hsh₁
  -- a block that is valid now was valid before, and is another block
  have hflag : ∀ j, flagOf sh'.store j = some false → flagOf sh.store j = some false ∧ j ≠ i := by
    intro j hj
    rw [hinv.flag, Option.map_eq_some_iff] at hj
    obtain ⟨b, hb, hor⟩ := hj
    rw [Bool.or_eq_false_iff, decide_eq_false_iff_not] at hor
    exact ⟨by rw [hb, hor.1], hor.2⟩
  have hans : ∀ pc flags j, answers sh'.store pc flags j = true →
      answers sh.store pc flags j = true := by
    intro pc flags j hj
    rw [answers_iff, hinv.key, Option.map_eq_some_iff] at hj
    obtain ⟨⟨p, f, b⟩, hp, heq⟩ := hj
    simp only [Prod.mk.injEq, Bool.or_eq_false_iff] at heq
    rw [answers_iff, hp, heq.1, heq.2.1, heq.2.2.1]
  refine ⟨hchain, ?_, ?_, ?_, h.hosted_of_placement hinv.placement,
    h.sites_of_placement hinv.placement, ?_⟩
  · by_contra hlarge
    have hsmall := h.small
    obtain ⟨tb', htb'⟩ := get_of_lt (s := sh'.store) (i := sh.store.tbs.length) (by omega)
    obtain ⟨tb, htb, -⟩ := hinv.placement.get htb'
    exact absurd (get_eq_some_lt htb) (lt_irrefl _)
  · obtain ⟨live, hlive, hall⟩ := h.listed
    refine ⟨live.erase i, hinv.table live hlive, fun j hj => ?_⟩
    obtain ⟨hj, hne⟩ := hflag j hj
    exact (List.mem_erase_of_ne hne).mpr (hall j hj)
  · intro pc flags j k hj hk
    exact h.unique pc flags j k (hans pc flags j hj) (hans pc flags k hk)
  · intro s n d hsv hd
    obtain ⟨hsv, -⟩ := hflag s hsv
    rw [hinv.dest] at hd
    split at hd
    · cases hd
    · next hnot =>
      rw [not_or] at hnot
      have hdi : d ≠ i := by
        rintro rfl
        exact hnot.2 ((h.chain.edges.dest_iff s n d).mp hd)
      have ha := h.slots s n d hsv hd
      rw [answers_iff] at ha ⊢
      rw [hinv.key, ha]
      simp [hdi]

/-- A translation for a pc and flags that no valid block is for. -/
theorem DataInv.translateTb {exitsTo : Nat → Slot → Cpu} {sh sh' : Shared}
    {code : Nat → BlockCode} (h : DataInv exitsTo sh code) {gen : CodeGen} {tr : Translation}
    (htr : Chained tr.code) {pc : BitVec 64} {flags : BitVec 32} {k : Nat}
    (hmiss : ∀ i, answers sh.store pc flags i = false)
    (hs : sh.translateTb gen tr pc flags = some (sh', k)) :
    DataInv exitsTo sh' (Function.update code k tr.code) ∧ k = sh.store.tbs.length ∧
      sh'.store.tbs.length = k + 1 ∧
      ∀ i, keyOf sh'.store i = if i = k then some (pc, flags, false) else keyOf sh.store i := by
  have hchain := h.chain.translateTb hs
  obtain ⟨s₁, sh₂, s₃, h₁, h₂, h₃, rfl⟩ := translateTb_eq_some hs
  have hem := emitTb_of_alloc h.chain.layout h₁ h₂
  have hcore := insert_sameCore h₃
  have hp₃ : SamePlacement sh₂.store s₃ := samePlacement_of_sameCore hcore
  obtain ⟨hk, hlt, hs₁⟩ := alloc_eq_some h₁
  have hnew₁ : s₁.get k = some (TranslationBlock.new pc flags 0) := by
    rw [get_alloc h₁, if_pos hk]
  have hkey : ∀ i, keyOf s₃ i = if i = k then some (pc, flags, false) else keyOf sh.store i := by
    intro i
    have hk₂ : keyOf sh₂.store i = keyOf s₁ i := hem.map_get _ (fun _ _ _ _ _ _ => rfl) i
    rw [keyOf_of_sameCore hcore, hk₂, keyOf_alloc h₁]
  have hold : ∀ i, i ≠ k → sh₂.store.get i = sh.store.get i := by
    intro i hi
    rw [hem.others i hi]
    simp only [get_alloc h₁]
    rw [if_neg (by omega)]
  have hlen : s₃.tbs.length = k + 1 := by
    rw [hcore.length_eq, hem.length_eq, hs₁]
    simp [hk]
  obtain ⟨size, a, b, hfill⟩ := hem.filled _ hnew₁
  refine ⟨⟨hchain, ?_, ?_, ?_, ?_, ?_, ?_⟩, hk, hlen, hkey⟩
  · rw [hlen]
    omega
  · obtain ⟨live, hlive, hall⟩ := h.listed
    have hlive₂ : TableInv sh₂.store live := (hlive.alloc h₁).of_same hem.sameTable
    have hnot : k ∉ live := by
      intro hmem
      have := hlive.exist k hmem
      omega
    refine ⟨k :: live, hlive₂.insert hnot h₃, fun i hi => ?_⟩
    rw [flagOf_eq_keyOf, hkey] at hi
    by_cases hik : i = k
    · rw [hik]
      exact List.mem_cons_self
    · rw [if_neg hik, ← flagOf_eq_keyOf] at hi
      exact List.mem_cons_of_mem _ (hall i hi)
  · intro pc' flags' i j hi hj
    -- a second block for the same pc and flags would have been found
    have hother : ∀ i j, i = k → j ≠ k → answers s₃ pc' flags' i = true →
        answers s₃ pc' flags' j = true → False := by
      intro i j hik hjk hi hj
      rw [answers_iff, hkey, if_pos hik] at hi
      rw [answers_iff, hkey, if_neg hjk, ← answers_iff] at hj
      simp only [Option.some.injEq, Prod.mk.injEq] at hi
      obtain ⟨rfl, rfl, -⟩ := hi
      rw [hmiss j] at hj
      cases hj
    by_cases hik : i = k
    · by_cases hjk : j = k
      · rw [hik, hjk]
      · exact (hother i j hik hjk hi hj).elim
    · by_cases hjk : j = k
      · exact (hother j i hjk hik hj hi).elim
      · rw [answers_iff, hkey, if_neg hik, ← answers_iff] at hi
        rw [answers_iff, hkey, if_neg hjk, ← answers_iff] at hj
        exact h.unique pc' flags' i j hi hj
  · intro i tb' htb'
    obtain ⟨tb, htb, hpl⟩ := hp₃.get htb'
    simp only [placement, Prod.mk.injEq] at hpl
    rw [hpl.2.1]
    by_cases hik : i = k
    · subst hik
      rw [hfill] at htb
      injection htb with htb
      rw [← htb]
      exact Nat.sub_pos_of_lt hem.grows
    · rw [hold i hik] at htb
      exact h.hosted i tb htb
  · intro i tb' m g htb' hm
    obtain ⟨tb, htb, hpl⟩ := hp₃.get htb'
    simp only [placement, Prod.mk.injEq] at hpl
    rw [hp₃.jumpSite_eq, hpl.1]
    by_cases hik : i = k
    · subst hik
      rw [Function.update_self] at hm ⊢
      obtain ⟨hg, hcount, hexit⟩ := htr m g hm
      rw [hfill] at htb
      injection htb with htb
      rw [← htb]
      exact ⟨hg, emitTb_site (h.chain.layout.alloc h₁) hnew₁ h₂ (g := ⟨g, hg⟩) hm hcount, hexit⟩
    · rw [Function.update_of_ne hik] at hm ⊢
      rw [hold i hik] at htb
      obtain ⟨hg, hsite, hexit⟩ := h.sites i tb m g htb hm
      refine ⟨hg, ?_, hexit⟩
      rw [jumpSite, hold i hik]
      exact hsite
  · intro s n d hsv hd
    rw [destOf_translate h₁ hem hcore] at hd
    have hsk : s ≠ k := by
      rintro rfl
      obtain ⟨tb, htb, -⟩ := exists_of_destOf hd
      rw [get_none_of_le hk.ge] at htb
      cases htb
    rw [flagOf_eq_keyOf, hkey, if_neg hsk, ← flagOf_eq_keyOf] at hsv
    have ha := h.slots s n d hsv hd
    rw [answers_iff] at ha ⊢
    have hdk : d ≠ k := by
      rintro rfl
      rw [keyOf, get_none_of_le hk.ge] at ha
      cases ha
    rw [hkey, if_neg hdk]
    exact ha

/-! ## Finding a block -/

/-- What `tb_find` leaves behind: the invariant, the old blocks, and a valid block for the pc
and flags it was called with. -/
structure Found (exitsTo : Nat → Slot → Cpu) (st st' : LoopState) (r : Option Nat) : Prop where
  data : DataInv exitsTo st'.shared st'.code
  cpu_eq : st'.cpu = st.cpu
  key : ∀ i p, keyOf st.shared.store i = some p → keyOf st'.shared.store i = some p
  block : ∀ i, r = some i → answers st'.shared.store st.cpu.pc st.cpu.flags i = true

theorem DataInv.lookup_miss {exitsTo : Nat → Slot → Cpu} {sh : Shared} {code : Nat → BlockCode}
    (h : DataInv exitsTo sh code) {pc : BitVec 64} {flags : BitVec 32}
    (hl : sh.store.lookup pc flags = some none) (i : Nat) :
    answers sh.store pc flags i = false := by
  obtain ⟨live, hlive, hall⟩ := h.listed
  by_contra ha
  rw [Bool.not_eq_false] at ha
  have hmiss := lookup_none hlive hl i (hall i (flagOf_of_answers ha))
  rw [ha] at hmiss
  cases hmiss

theorem find_spec {exitsTo : Nat → Slot → Cpu} {st st' : LoopState} {gen : CodeGen}
    {tr : Translation} {r : Option Nat} (h : DataInv exitsTo st.shared st.code)
    (htr : Chained tr.code) (hf : st.find gen tr = some (st', r)) : Found exitsTo st st' r := by
  unfold LoopState.find at hf
  obtain ⟨⟨sh, cache, r'⟩, hfind, hf⟩ := Option.bind_eq_some_iff.mp hf
  simp only [Option.pure_def, Option.some.injEq, Prod.mk.injEq] at hf
  obtain ⟨rfl, rfl⟩ := hf
  -- without a translation the store and the code stay as they are
  have hsame : sh = st.shared → (∀ i, r' = some i →
        answers st.shared.store st.cpu.pc st.cpu.flags i = true) →
      Found exitsTo st { st with
        shared := sh
        cache := cache
        code := if sh.store.tbs.length = st.shared.store.tbs.length then st.code
          else Function.update st.code st.shared.store.tbs.length tr.code } r' := by
    rintro rfl hr
    refine ⟨?_, rfl, fun _ _ hk => hk, hr⟩
    simp only [if_true]
    exact h
  obtain ⟨live, hlive, -⟩ := h.listed
  unfold tbFind at hfind
  obtain ⟨hit, hhit, hfind⟩ := Option.bind_eq_some_iff.mp hfind
  cases hit with
  | some i =>
    simp only [Option.pure_def, Option.some.injEq, Prod.mk.injEq] at hfind
    obtain ⟨rfl, -, rfl⟩ := hfind
    refine hsame rfl ?_
    rintro _ ⟨⟩
    exact cacheHit_answers hhit
  | none =>
    obtain ⟨found, hfound, hfind⟩ := Option.bind_eq_some_iff.mp hfind
    cases found with
    | some i =>
      simp only [Option.pure_def, Option.some.injEq, Prod.mk.injEq] at hfind
      obtain ⟨rfl, -, rfl⟩ := hfind
      refine hsame rfl ?_
      rintro _ ⟨⟩
      exact lookup_some hlive hfound
    | none =>
      simp only [tbGenCode] at hfind
      split at hfind
      · simp only [Option.some.injEq, Prod.mk.injEq] at hfind
        obtain ⟨rfl, -, rfl⟩ := hfind
        exact hsame rfl (fun i hi => by cases hi)
      · rw [hfound] at hfind
        simp only [Option.bind_eq_bind, Option.bind_some] at hfind
        obtain ⟨⟨sh₁, k⟩, hgen, hfind⟩ := Option.bind_eq_some_iff.mp hfind
        simp only [Option.pure_def, Option.some.injEq, Prod.mk.injEq] at hfind
        obtain ⟨rfl, -, rfl⟩ := hfind
        obtain ⟨hdata, hk, hlen, hkey⟩ := h.translateTb htr (h.lookup_miss hfound) hgen
        refine ⟨?_, rfl, ?_, ?_⟩
        · simp only [hlen, ← hk]
          rw [if_neg (by omega)]
          exact hdata
        · intro i p hp
          have hik : i ≠ k := by
            rintro rfl
            rw [keyOf, get_none_of_le hk.ge] at hp
            cases hp
          rw [hkey, if_neg hik]
          exact hp
        · rintro _ ⟨⟩
          rw [answers_iff, hkey, if_pos rfl]

/-! ## Entering and leaving blocks -/

theorem blockAt_eq_some {s : TbStore} {x : Int} {i : Nat} (h : s.blockAt x = some i) :
    ∃ tb, s.get i = some tb ∧ 0 < tb.hostSize ∧ (tb.hostOffset : Int) = x := by
  unfold TbStore.blockAt at h
  obtain ⟨hlt, hp, -⟩ := List.findIdx?_eq_some_iff_getElem.mp h
  rw [Bool.and_eq_true, decide_eq_true_eq, decide_eq_true_eq] at hp
  exact ⟨_, List.getElem?_eq_getElem hlt, hp⟩

/-- Two blocks with code do not start at the same offset. -/
theorem Layout.start_unique {sh : Shared} (hl : Layout sh) {i j : Nat} {tb tb' : TranslationBlock}
    (htb : sh.store.get i = some tb) (htb' : sh.store.get j = some tb') (hpos : 0 < tb.hostSize)
    (hpos' : 0 < tb'.hostSize) (heq : tb.hostOffset = tb'.hostOffset) : i = j := by
  by_contra hne
  have hapart := hl.apart i j tb tb' hne htb htb'
  unfold Apart at hapart
  omega

/-- The code that starts where a block's code starts is that block's. -/
theorem DataInv.blockAt_iff {exitsTo : Nat → Slot → Cpu} {sh : Shared} {code : Nat → BlockCode}
    (h : DataInv exitsTo sh code) {i : Nat} {tb : TranslationBlock}
    (htb : sh.store.get i = some tb) : sh.store.blockAt tb.hostOffset = some i := by
  have hlt := get_eq_some_lt htb
  have hpos := h.hosted i tb htb
  cases hb : sh.store.blockAt tb.hostOffset with
  | none =>
    unfold TbStore.blockAt at hb
    rw [List.findIdx?_eq_none_iff] at hb
    have hno := hb tb (List.mem_of_getElem? htb)
    simp [hpos] at hno
  | some j =>
    obtain ⟨tb', htb', hpos', heq⟩ := blockAt_eq_some hb
    rw [Layout.start_unique h.chain.layout htb htb' hpos hpos' (by omega)]

/-- The value of the `exit_tb` a block is left by. -/
def exitVal : HostItem → Option (BitVec 32)
  | .code _ => none
  | .gotoTb g => some (BitVec.ofNat 32 g)
  | .exitTb val => some val

/-- The `goto_tb` slot an item belongs to. -/
def slotOf (item : HostItem) : Option Slot :=
  (exitVal item).bind (fun val => if h : val.toNat < 2 then some ⟨val.toNat, h⟩ else none)

theorem slotOf_of_lt {item : HostItem} {val : BitVec 32} (h : exitVal item = some val)
    (hlt : val.toNat < 2) : slotOf item = some ⟨val.toNat, hlt⟩ := by
  unfold slotOf
  rw [h]
  exact dif_pos hlt

/-- The assumptions on the guest: translated blocks have the frontend's form, and each slot of
a block always leaves the CPU in the same state. -/
def Obeys (exitsTo : Nat → Slot → Cpu) (st : LoopState) : LoopChoice → Prop
  | .translation tr => Chained tr.code
  | .leave k cpu => ∀ entered i item n, st.control = .atBlock entered i →
      (st.code i).ops[k]? = some item → slotOf item = some n → cpu = exitsTo i n
  | _ => True

/-- What holds at the points of the loop. -/
def ControlInv (exitsTo : Nat → Slot → Cpu) (st : LoopState) : Prop :=
  match st.control with
  | .outside _ => True
  | .top none => True
  | .top (some i) => answers st.shared.store st.cpu.pc st.cpu.flags i = true
  | .atBlock _ i => answers st.shared.store st.cpu.pc st.cpu.flags i = true
  | .returned _ last item raw => flagOf st.shared.store last = some false ∧
      (∀ n, slotOf item = some n → st.cpu = exitsTo last n) ∧
      ∃ val, exitVal item = some val ∧ raw = encodeTbExit (BitVec.ofNat 32 last) (val.setWidth 64)

/-- The invariant of the loop. -/
structure LoopInv (exitsTo : Nat → Slot → Cpu) (st : LoopState) : Prop where
  data : DataInv exitsTo st.shared st.code
  control : ControlInv exitsTo st

theorem cpuTbExec_inv {exitsTo : Nat → Slot → Cpu} {st st' : LoopState} {i : Nat}
    (h : DataInv exitsTo st.shared st.code)
    (hi : answers st.shared.store st.cpu.pc st.cpu.flags i = true)
    (hs : st.cpuTbExec i = some st') : LoopInv exitsTo st' := by
  unfold LoopState.cpuTbExec LoopState.enter at hs
  obtain ⟨tb, htb, hs⟩ := Option.bind_eq_some_iff.mp hs
  rw [h.blockAt_iff htb, Option.map_some, Option.some.injEq] at hs
  subst hs
  exact ⟨h, hi⟩

/-- Where the jump of a `goto_tb` of a valid block goes: to the exit after it, or to a valid
block for the state in which the slot leaves the CPU. -/
theorem DataInv.jump_cases {exitsTo : Nat → Slot → Cpu} {sh : Shared} {code : Nat → BlockCode}
    (h : DataInv exitsTo sh code) {i : Nat} {tb : TranslationBlock}
    (htb : sh.store.get i = some tb) (hvalid : flagOf sh.store i = some false) {k g : Nat}
    (hk : (code i).ops[k]? = some (.gotoTb g)) :
    ∃ hg : g < 2, (code i).ops[k + 1]? = some (.exitTb (BitVec.ofNat 32 g)) ∧
      (jumpTarget sh.buf (gotoTbJump (BitVec.ofNat 32 i) tb.hostOffset (code i).ops k) =
          (gotoTbJump (BitVec.ofNat 32 i) tb.hostOffset (code i).ops k + 5 : Nat) ∨
        ∃ d, sh.store.blockAt (jumpTarget sh.buf
            (gotoTbJump (BitVec.ofNat 32 i) tb.hostOffset (code i).ops k)) = some d ∧
          answers sh.store (exitsTo i ⟨g, hg⟩).pc (exitsTo i ⟨g, hg⟩).flags d = true) := by
  obtain ⟨hg, hsite, hexit⟩ := h.sites i tb k g htb hk
  refine ⟨hg, hexit, ?_⟩
  cases hdest : destOf sh.store i ⟨g, hg⟩ with
  | none => exact Or.inl (h.chain.edges.unlinked i ⟨g, hg⟩ _ hvalid hdest hsite)
  | some d =>
    obtain ⟨off, tbd, hsite', htbd, htgt⟩ := h.chain.edges.linked i ⟨g, hg⟩ d hdest
    rw [hsite] at hsite'
    injection hsite' with hsite'
    subst hsite'
    refine Or.inr ⟨d, ?_, h.slots i ⟨g, hg⟩ d hvalid hdest⟩
    rw [htgt]
    exact h.blockAt_iff htbd

theorem toNat_ofNat_slot {g : Nat} (hg : g < 2) : (BitVec.ofNat 32 g).toNat = g := by
  rw [BitVec.toNat_ofNat]
  exact Nat.mod_eq_of_lt (by omega)

theorem slotOf_gotoTb {g : Nat} (hg : g < 2) : slotOf (.gotoTb g) = some ⟨g, hg⟩ := by
  have hnat := toNat_ofNat_slot hg
  rw [slotOf_of_lt rfl (by rw [hnat]; exact hg)]
  simp only [hnat]

theorem leaveBlock_inv {exitsTo : Nat → Slot → Cpu} {st st' : LoopState} {entered i k : Nat}
    {cpu : Cpu} (h : DataInv exitsTo st.shared st.code)
    (hvalid : flagOf st.shared.store i = some false)
    (hobey : ∀ item n, (st.code i).ops[k]? = some item → slotOf item = some n → cpu = exitsTo i n)
    (hs : { st with cpu := cpu }.leaveBlock entered i k = some st') : LoopInv exitsTo st' := by
  unfold LoopState.leaveBlock at hs
  obtain ⟨tb, htb, hs⟩ := Option.bind_eq_some_iff.mp hs
  simp only at hs htb
  split at hs
  · next val hk =>
    simp only [Option.pure_def, Option.some.injEq] at hs
    subst hs
    exact ⟨h, hvalid, fun n => hobey _ n hk, val, rfl, rfl⟩
  · next g hk =>
    obtain ⟨hg, hexit, hjump⟩ := h.jump_cases htb hvalid hk
    split at hs
    · rw [hexit] at hs
      simp only [Option.pure_def, Option.some.injEq] at hs
      subst hs
      exact ⟨h, hvalid, fun n => hobey _ n hk, _, rfl, rfl⟩
    · next hne =>
      obtain hself | ⟨d, hd, hans⟩ := hjump
      · exact absurd hself hne
      · have hcpu : cpu = exitsTo i ⟨g, hg⟩ := hobey _ _ hk (slotOf_gotoTb hg)
        unfold LoopState.enter at hs
        simp only at hs
        rw [hd, Option.map_some, Option.some.injEq] at hs
        subst hs
        refine ⟨h, ?_⟩
        simp only [ControlInv]
        rw [hcpu]
        exact hans
  · cases hs

/-! ## The rest of an iteration -/

theorem exitTargetHit_answers {sh : Shared} {src i : Nat} {cpu : Cpu}
    (h : exitTargetHit sh src cpu = some (some i)) :
    answers sh.store cpu.pc cpu.flags i = true := by
  unfold exitTargetHit at h
  obtain ⟨stb, -, h⟩ := Option.bind_eq_some_iff.mp h
  split at h
  · obtain ⟨tb, htb, h⟩ := Option.bind_eq_some_iff.mp h
    split at h
    · next hfor =>
      simp only [Option.pure_def, Option.some.injEq] at h
      subst h
      simp [answers, htb, hfor]
    · cases h
  · cases h

theorem afterExec_inv {exitsTo : Nat → Slot → Cpu} {st st' : LoopState} {gen : CodeGen}
    {tr : Translation} {entered last : Nat} {item : HostItem} {val : BitVec 32}
    (h : DataInv exitsTo st.shared st.code) (htr : Chained tr.code)
    (hlast : flagOf st.shared.store last = some false)
    (hcpu : ∀ n, slotOf item = some n → st.cpu = exitsTo last n) (hval : exitVal item = some val)
    (hs : st.afterExec gen tr entered (encodeTbExit (BitVec.ofNat 32 last) (val.setWidth 64)) =
      some st') : LoopInv exitsTo st' := by
  have hlt : last < 2 ^ 32 - 1 := by
    obtain ⟨tb, htb, -⟩ := Option.map_eq_some_iff.mp hlast
    have hget := get_eq_some_lt htb
    have hmax : TbStore.maxTbs = 65536 := rfl
    have hsmall := h.small
    omega
  have hnochain : tbExitNochain.toNat = 2 := rfl
  unfold LoopState.afterExec at hs
  by_cases hreal : 3 ≤ val.toNat
  · rw [decodeTbExit_of_real hreal] at hs
    simp only [hnochain] at hs
    rw [if_neg (by omega), if_neg (by omega)] at hs
    injection hs with hs
    subst hs
    exact ⟨h, trivial⟩
  · rw [decodeTbExit_encodeTbExit hlt (by omega)] at hs
    simp only [hnochain, Option.getD_some] at hs
    split at hs
    · -- a chainable exit: find the next block and chain the slot to it
      next hchain =>
      obtain ⟨⟨st₁, r⟩, hfind, hs⟩ := Option.bind_eq_some_iff.mp hs
      have hf := find_spec h htr hfind
      cases r with
      | none =>
        simp only [Option.pure_def, Option.some.injEq] at hs
        subst hs
        exact ⟨hf.data, trivial⟩
      | some dst =>
        obtain ⟨sh, hadd, hs⟩ := Option.bind_eq_some_iff.mp hs
        simp only [Option.pure_def, Option.some.injEq] at hs
        subst hs
        have hslot := hcpu ⟨val.toNat, by omega⟩ (slotOf_of_lt hval (by omega))
        have hdst := hf.block dst rfl
        have hlast₁ : flagOf st₁.shared.store last = some false := by
          rw [flagOf_eq_keyOf, Option.map_eq_some_iff] at hlast
          obtain ⟨p, hp, hv⟩ := hlast
          rw [flagOf_eq_keyOf, hf.key last p hp, Option.map_some, hv]
        rw [hslot] at hdst
        obtain ⟨hdata, hkey⟩ := hf.data.tbAddJump hlast₁ hdst hadd
        refine ⟨hdata, ?_⟩
        simp only [ControlInv]
        rw [answers_congr hkey, hf.cpu_eq, hslot]
        exact hdst
    · split at hs
      · -- an indirect exit: the cached target, or the next block found
        obtain ⟨hit, hhit, hs⟩ := Option.bind_eq_some_iff.mp hs
        cases hit with
        | some cached =>
          simp only [Option.pure_def, Option.some.injEq] at hs
          subst hs
          exact ⟨h, exitTargetHit_answers hhit⟩
        | none =>
          obtain ⟨⟨st₁, r⟩, hfind, hs⟩ := Option.bind_eq_some_iff.mp hs
          have hf := find_spec h htr hfind
          cases r with
          | none =>
            simp only [Option.pure_def, Option.some.injEq] at hs
            subst hs
            exact ⟨hf.data, trivial⟩
          | some dst =>
            obtain ⟨-, -, hs⟩ := Option.bind_eq_some_iff.mp hs
            simp only [Option.pure_def, Option.some.injEq] at hs
            subst hs
            obtain ⟨hdata, hkey⟩ := hf.data.setExitTarget last dst
            refine ⟨hdata, ?_⟩
            simp only [ControlInv]
            rw [answers_congr hkey, hf.cpu_eq]
            exact hf.block dst rfl
      · injection hs with hs
        subst hs
        exact ⟨h, trivial⟩

/-! ## Runs -/

theorem LoopInv.step {exitsTo : Nat → Slot → Cpu} {gen : CodeGen} {st st' : LoopState}
    {c : LoopChoice} (h : LoopInv exitsTo st) (hobey : Obeys exitsTo st c)
    (hs : stepLoop gen st c = some st') : LoopInv exitsTo st' := by
  obtain ⟨hdata, hcontrol⟩ := h
  unfold ControlInv at hcontrol
  unfold stepLoop at hs
  split at hs
  · injection hs with hs
    subst hs
    exact ⟨hdata, trivial⟩
  · next hctl =>
    obtain ⟨sh, hsh, hs⟩ := Option.bind_eq_some_iff.mp hs
    simp only [Option.pure_def, Option.some.injEq] at hs
    subst hs
    refine ⟨hdata.invalidate hsh, ?_⟩
    simp only [ControlInv, hctl]
  · next i tr hctl =>
    rw [hctl] at hcontrol
    exact cpuTbExec_inv hdata hcontrol hs
  · next tr hctl =>
    obtain ⟨⟨st₁, r⟩, hfind, hs⟩ := Option.bind_eq_some_iff.mp hs
    have hf := find_spec hdata hobey hfind
    cases r with
    | none =>
      simp only [Option.pure_def, Option.some.injEq] at hs
      subst hs
      exact ⟨hf.data, trivial⟩
    | some i =>
      have hans := hf.block i rfl
      rw [← hf.cpu_eq] at hans
      exact cpuTbExec_inv hf.data hans hs
  · next entered i k cpu hctl =>
    rw [hctl] at hcontrol
    exact leaveBlock_inv hdata (flagOf_of_answers hcontrol)
      (fun item n => hobey entered i item n hctl) hs
  · next entered last item raw tr hctl =>
    rw [hctl] at hcontrol
    obtain ⟨hlast, hcpu, val, hval, rfl⟩ := hcontrol
    exact afterExec_inv hdata hobey hlast hcpu hval hs
  · cases hs

/-- The first `N` steps of `σ` are steps of the vCPU, for a guest that obeys the assumptions. -/
structure GuestRun (gen : CodeGen) (exitsTo : Nat → Slot → Cpu) (st₀ : LoopState)
    (σ : Nat → LoopState) (N : Nat) : Prop where
  start : σ 0 = st₀
  step : ∀ k, k < N → ∃ c, Obeys exitsTo (σ k) c ∧ stepLoop gen (σ k) c = some (σ (k + 1))

theorem GuestRun.loopInv {gen : CodeGen} {exitsTo : Nat → Slot → Cpu} {sh₀ : Shared}
    {σ : Nat → LoopState} {N : Nat} (hrun : GuestRun gen exitsTo (LoopState.initial sh₀) σ N)
    (h₀ : Fresh sh₀) {k : Nat} (hk : k ≤ N) : LoopInv exitsTo (σ k) := by
  induction k with
  | zero =>
    rw [hrun.start]
    exact ⟨Fresh.dataInv h₀ exitsTo _, trivial⟩
  | succ k ih =>
    obtain ⟨c, hobey, hs⟩ := hrun.step k (by omega)
    exact (ih (by omega)).step hobey hs

/-- Every block whose code is entered is valid and was translated for the CPU's pc and flags;
every chainable exit value names the block and the slot that really exited; and a block that
is entered can be left through each of its exits. -/
theorem cached_loop_enters_right_blocks (gen : CodeGen) (sh₀ : Shared) (h₀ : Fresh sh₀)
    (exitsTo : Nat → Slot → Cpu) (σ : Nat → LoopState) (N : Nat)
    (hrun : GuestRun gen exitsTo (LoopState.initial sh₀) σ N) (k : Nat) (hk : k ≤ N) :
    (∀ entered i, (σ k).control = .atBlock entered i →
      ∃ tb, (σ k).shared.store.get i = some tb ∧ tb.pc = (σ k).cpu.pc ∧
        tb.flags = (σ k).cpu.flags ∧ tb.invalid = false) ∧
    (∀ entered last item raw, (σ k).control = .returned entered last item raw →
      ∃ val, exitVal item = some val ∧
        (val.toNat < 3 → decodeTbExit raw = (some last, val.toNat))) ∧
    (∀ entered i m item cpu, (σ k).control = .atBlock entered i →
      ((σ k).code i).ops[m]? = some item → (exitVal item).isSome →
      Obeys exitsTo (σ k) (.leave m cpu) → (stepLoop gen (σ k) (.leave m cpu)).isSome) := by
  obtain ⟨hdata, hcontrol⟩ := hrun.loopInv h₀ hk
  unfold ControlInv at hcontrol
  refine ⟨?_, ?_, ?_⟩
  · intro entered i hctl
    rw [hctl] at hcontrol
    obtain ⟨tb, htb, hkey⟩ := Option.map_eq_some_iff.mp (answers_iff.mp hcontrol)
    simp only [Prod.mk.injEq] at hkey
    exact ⟨tb, htb, hkey⟩
  · intro entered last item raw hctl
    rw [hctl] at hcontrol
    obtain ⟨hlast, -, val, hval, rfl⟩ := hcontrol
    refine ⟨val, hval, fun hlt => decodeTbExit_encodeTbExit ?_ hlt⟩
    obtain ⟨tb, htb, -⟩ := Option.map_eq_some_iff.mp hlast
    have hget := get_eq_some_lt htb
    have hmax : TbStore.maxTbs = 65536 := rfl
    have hsmall := hdata.small
    omega
  · intro entered i m item cpu hctl hm hexit hobey
    rw [hctl] at hcontrol
    have hvalid := flagOf_of_answers hcontrol
    obtain ⟨tb, htb, -⟩ := Option.map_eq_some_iff.mp hvalid
    simp only [stepLoop, hctl, LoopState.leaveBlock, htb, Option.bind_eq_bind, Option.bind_some, hm]
    cases item with
    | code bytes => cases hexit
    | exitTb val => rfl
    | gotoTb g =>
      obtain ⟨hg, hnext, hjump⟩ := hdata.jump_cases htb hvalid hm
      simp only [hnext]
      split
      · rfl
      · next hne =>
        obtain hself | ⟨d, hd, -⟩ := hjump
        · exact absurd hself hne
        · simp [LoopState.enter, hd]

/-! ## The blocks of the RISC-V frontend -/

/-- The blocks that `gen_branch`, `trans_jal`, `trans_jalr` and `tb_stop` end have the form. -/
theorem blockEnd_chained {body : List HostItem} (hbody : ∀ item ∈ body, isGotoTb item = false)
    (e : BlockEnd) : Chained (e.code body) := by
  have hcount : ∀ l : List HostItem, (body ++ l).countP isGotoTb = l.countP isGotoTb := by
    intro l
    rw [List.countP_append, List.countP_eq_zero.mpr (fun item hi => by simp [hbody item hi]),
      Nat.zero_add]
  -- a `goto_tb` stands behind the body
  have hafter : ∀ (l : List HostItem) k g, (body ++ l)[k]? = some (.gotoTb g) →
      ∃ j, k = body.length + j ∧ l[j]? = some (.gotoTb g) := by
    intro l k g hk
    rcases Nat.lt_or_ge k body.length with hlt | hge
    · rw [List.getElem?_append_left hlt] at hk
      have := hbody _ (List.mem_of_getElem? hk)
      cases this
    · rw [List.getElem?_append_right hge] at hk
      exact ⟨k - body.length, by omega, hk⟩
  -- so only the items behind the body are to be looked at
  have hend : ∀ l : List HostItem, (∀ j g, l[j]? = some (.gotoTb g) → g < 2 ∧
        (l.take j).countP isGotoTb = g ∧ l[j + 1]? = some (.exitTb (BitVec.ofNat 32 g))) →
      ∀ k g, (body ++ l)[k]? = some (.gotoTb g) → g < 2 ∧
        ((body ++ l).take k).countP isGotoTb = g ∧
        (body ++ l)[k + 1]? = some (.exitTb (BitVec.ofNat 32 g)) := by
    intro l hl k g hk
    obtain ⟨j, rfl, hj⟩ := hafter l k g hk
    obtain ⟨hg, hc, hx⟩ := hl j g hj
    refine ⟨hg, ?_, ?_⟩
    · rw [List.take_length_add_append, hcount]
      exact hc
    · rw [Nat.add_assoc, List.getElem?_append_right (by omega), Nat.add_sub_cancel_left]
      exact hx
  cases e with
  | branch notTaken taken =>
    have hops : (BlockEnd.code body (.branch notTaken taken)).ops = body ++
        [.code notTaken, .gotoTb 0, .exitTb 0, .code taken, .gotoTb 1, .exitTb 1] := by
      simp [BlockEnd.code, BlockCode.ops]
    unfold Chained
    rw [hops]
    refine hend _ ?_
    intro j g hj
    match j with
    | 0 | 2 | 3 | 5 => simp at hj
    | 1 =>
      simp only [List.getElem?_cons_succ, List.getElem?_cons_zero, Option.some.injEq,
        HostItem.gotoTb.injEq] at hj
      subst hj
      exact ⟨by omega, rfl, rfl⟩
    | 4 =>
      simp only [List.getElem?_cons_succ, List.getElem?_cons_zero, Option.some.injEq,
        HostItem.gotoTb.injEq] at hj
      subst hj
      exact ⟨by omega, rfl, rfl⟩
    | j + 6 => simp at hj
  | direct =>
    have hops : (BlockEnd.code body .direct).ops = body ++ [.gotoTb 0, .exitTb 0] := by
      simp [BlockEnd.code, BlockCode.ops]
    unfold Chained
    rw [hops]
    refine hend _ ?_
    intro j g hj
    match j with
    | 0 =>
      simp only [List.getElem?_cons_zero, Option.some.injEq, HostItem.gotoTb.injEq] at hj
      subst hj
      exact ⟨by omega, rfl, rfl⟩
    | 1 => simp at hj
    | j + 2 => simp at hj
  | indirect =>
    intro k g hk
    obtain ⟨j, -, hj⟩ := hafter [.exitTb 2] k g hk
    match j with
    | 0 => simp at hj
    | j + 1 => simp at hj
  | exception excp =>
    intro k g hk
    obtain ⟨j, -, hj⟩ := hafter [.exitTb excp] k g hk
    match j with
    | 0 => simp at hj
    | j + 1 => simp at hj

/-! ## A run -/

/-- `Obeys` for the steps of a block, as a test. -/
def obeysExits (exitsTo : Nat → Slot → Cpu) (st : LoopState) : LoopChoice → Bool
  | .leave k cpu =>
    match st.control with
    | .atBlock _ i =>
      match ((st.code i).ops[k]?).bind slotOf with
      | some n => cpu == exitsTo i n
      | none => true
    | _ => true
  | _ => true

theorem obeys_leave {exitsTo : Nat → Slot → Cpu} {st : LoopState} {k : Nat} {cpu : Cpu}
    (h : obeysExits exitsTo st (.leave k cpu) = true) : Obeys exitsTo st (.leave k cpu) := by
  intro entered i item n hctl hitem hn
  simpa [obeysExits, hctl, hitem, hn] using h

/-- Block 0 goes to pc 4; block 1, translated there, goes to pc 0 or to pc 8. -/
def pingPong (i : Nat) (n : Slot) : Cpu :=
  if i = 0 then ⟨4, 0⟩ else if n = 0 then ⟨0, 0⟩ else ⟨8, 0⟩

/-- The two blocks are translated and chained to each other.  Then the loop enters block 0,
whose jump leads to block 1, and block 1 exits through its slot 1. -/
def pingPongMoves : List LoopChoice :=
  let direct : Translation := ⟨BlockEnd.direct.code [], 4⟩
  let branch : Translation := ⟨(BlockEnd.branch [] []).code [], 4⟩
  [.call ⟨0, 0⟩, .translation direct, .leave 0 ⟨4, 0⟩, .translation branch, .translation branch,
    .leave 1 ⟨0, 0⟩, .translation direct, .translation direct, .leave 0 ⟨4, 0⟩, .leave 4 ⟨8, 0⟩]

/-- What the loop sees and which block and slot really exited. -/
def exitView (st : LoopState) : Option (Nat × Nat × Nat × BitVec 64) :=
  match st.control with
  | .returned entered last (.gotoTb g) raw => some (entered, last, g, raw)
  | _ => none

theorem cached_loop_enters_right_blocks_pingPong :
    ∃ st raw, pingPongMoves.foldlM (stepLoop ⟨0, 5⟩) (LoopState.initial newEnv) = some st ∧
      st.control = .returned 0 1 (.gotoTb 1) raw ∧ decodeTbExit raw = (some 1, 1) := by
  have hview : (pingPongMoves.foldlM (stepLoop ⟨0, 5⟩) (LoopState.initial newEnv)).bind exitView =
      some (0, 1, 1, 0x200000001) := by
    decide
  have hexits : ∀ k, k < pingPongMoves.length → (pingPongMoves[k]?).map (obeysExits pingPong
      (Library.trace (stepLoop ⟨0, 5⟩) (LoopState.initial newEnv) pingPongMoves k)) =
      some true := by
    decide
  obtain ⟨st, hst, hv⟩ := Option.bind_eq_some_iff.mp hview
  obtain ⟨raw, hctl⟩ : ∃ raw, st.control = .returned 0 1 (.gotoTb 1) raw := by
    unfold exitView at hv
    split at hv
    · next hctl =>
      simp only [Option.some.injEq, Prod.mk.injEq] at hv
      obtain ⟨rfl, rfl, rfl, -⟩ := hv
      exact ⟨_, hctl⟩
    · cases hv
  have htr : ∀ tr, LoopChoice.translation tr ∈ pingPongMoves → Chained tr.code := by
    intro tr hmem
    simp only [pingPongMoves, List.mem_cons, LoopChoice.translation.injEq, reduceCtorEq,
      List.not_mem_nil, false_or, or_false] at hmem
    rcases hmem with rfl | rfl | rfl | rfl | rfl
    all_goals exact blockEnd_chained (fun _ h => by cases h) _
  have hrun : GuestRun ⟨0, 5⟩ pingPong (LoopState.initial newEnv)
      (Library.trace (stepLoop ⟨0, 5⟩) (LoopState.initial newEnv) pingPongMoves)
      pingPongMoves.length := by
    refine ⟨Library.trace_zero _ _ _, fun k hk => ⟨pingPongMoves[k], ?_, Library.trace_step hst hk⟩⟩
    have htest := hexits k hk
    rw [List.getElem?_eq_getElem hk, Option.map_some, Option.some.injEq] at htest
    have hmem : pingPongMoves[k] ∈ pingPongMoves := List.getElem_mem hk
    generalize pingPongMoves[k] = c at htest hmem
    cases c with
    | call cpu => trivial
    | invalidate i => trivial
    | translation tr => exact htr tr hmem
    | leave m cpu => exact obeys_leave htest
  have h := (cached_loop_enters_right_blocks ⟨0, 5⟩ newEnv newEnv_fresh pingPong _ _ hrun _
    le_rfl).2.1
  rw [Library.trace_length hst] at h
  obtain ⟨val, hval, hdec⟩ := h 0 1 _ raw hctl
  injection hval with hval
  subst hval
  exact ⟨st, raw, hst, hctl, hdec (by decide)⟩

end TcgRs.Analysis.CachedLoop
