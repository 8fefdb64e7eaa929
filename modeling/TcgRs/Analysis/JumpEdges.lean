import TcgRs.Analysis.ChainSections
import Mathlib.Data.List.Count

/-!
# Symmetry of the chaining edges in sequential runs

An edge from a slot to a block is recorded three times: in the slot's `jmp_dest`, in the
block's `jmp_list`, and in the displacement of the slot's jump.  In every sequence of
translations, `tb_add_jump` and `invalidate` calls in which no call re-points a linked slot,
the three agree.  Re-pointing a slot leaves the old edge in the old destination's list.
-/

set_option autoImplicit false

namespace TcgRs.Analysis.JumpEdges

open TcgRs.Model TcgRs.Model.X86 TcgRs.Model.Exec
open HashTable JumpPatching CodeLayout ChainSections

/-! ## The loops of `invalidate` -/

/-- A block with `jmp_dest` cleared in the slots listed in `edges`. -/
def clearDests (edges : List (Nat × Slot)) (j : Nat) (tb : TranslationBlock) : TranslationBlock :=
  { tb with jmp := { tb.jmp with
    jmpDest := fun n => if (j, n) ∈ edges then none else tb.jmp.jmpDest n } }

theorem get_setJmpDest_none (s : TbStore) (src : Nat) (slot : Slot) (j : Nat) :
    (s.setJmpDest src slot none).get j = (s.get j).map (clearDests [(src, slot)] j) := by
  simp only [TbStore.setJmpDest, get_modify]
  congr 1
  funext tb
  by_cases hj : src = j
  · subst hj
    simp only [if_pos, clearDests]
    congr 2
    funext n
    by_cases hn : n = slot
    · simp [hn]
    · simp [hn]
  · have hj' : ¬ j = src := fun h => hj h.symm
    simp [hj, hj', clearDests]

theorem clearDests_clearDests (e : Nat × Slot) (l : List (Nat × Slot)) (j : Nat)
    (tb : TranslationBlock) : clearDests l j (clearDests [e] j tb) = clearDests (e :: l) j tb := by
  simp only [clearDests]
  congr 2
  funext n
  by_cases h₁ : (j, n) ∈ l
  · simp [h₁]
  · by_cases h₂ : (j, n) = e
    · simp [h₂]
    · simp [h₁, h₂]

/-- What the loop over the incoming edges does. -/
structure IncomingUnlinked (edges : List (Nat × Slot)) (sh sh' : Shared) : Prop where
  blocks : ∀ j, sh'.store.get j = (sh.store.get j).map (clearDests edges j)
  length_eq : sh'.store.tbs.length = sh.store.tbs.length
  hash_eq : sh'.store.hash = sh.store.hash
  size_eq : sh'.buf.size = sh.buf.size
  offset_eq : sh'.buf.offset = sh.buf.offset
  target : ∀ i n off, jumpSite sh.store i n = some off → jumpTarget sh'.buf off =
    if (i, n) ∈ edges then ((off + 5 : Nat) : Int) else jumpTarget sh.buf off

theorem IncomingUnlinked.placement {edges : List (Nat × Slot)} {sh sh' : Shared}
    (h : IncomingUnlinked edges sh sh') : SamePlacement sh.store sh'.store := by
  intro j
  rw [h.blocks, Option.map_map]
  rfl

theorem unlinkIncoming_spec {sh : Shared} (hl : Layout sh) {e : Nat × Slot}
    (he : e.1 < sh.store.tbs.length) :
    ∃ sh', sh.unlinkIncoming e = some sh' ∧ IncomingUnlinked [e] sh sh' := by
  obtain ⟨src, slot⟩ := e
  obtain ⟨tb, htb⟩ := get_of_lt he
  obtain ⟨buf', hbuf', hreset⟩ := resetJump_spec hl slot htb
  refine ⟨⟨sh.store.setJmpDest src slot none, buf'⟩, ?_, ?_, ?_, rfl, hreset.size_eq,
    hreset.offset_eq, ?_⟩
  · simp [Shared.unlinkIncoming, htb, hbuf']
  · exact get_setJmpDest_none sh.store src slot
  · exact length_modify _ _ _
  · intro i n off hsite
    rw [hreset.target i n off hsite]
    simp only [List.mem_singleton]

theorem unlinkIncoming_loop {sh : Shared} (hl : Layout sh) (edges : List (Nat × Slot))
    (he : ∀ e ∈ edges, e.1 < sh.store.tbs.length) :
    ∃ sh', edges.foldlM Shared.unlinkIncoming sh = some sh' ∧ IncomingUnlinked edges sh sh' := by
  induction edges generalizing sh with
  | nil =>
    refine ⟨sh, rfl, fun j => ?_, rfl, rfl, rfl, rfl, ?_⟩
    · have hid : clearDests [] j = id := by funext tb; simp [clearDests]
      rw [hid, Option.map_id]
      rfl
    · intro i n off _
      simp
  | cons e edges ih =>
    obtain ⟨sh₁, hsh₁, h₁⟩ := unlinkIncoming_spec hl (he e List.mem_cons_self)
    have hl₁ : Layout sh₁ := hl.of_same h₁.placement h₁.size_eq h₁.offset_eq
    obtain ⟨sh', hsh', h'⟩ := ih hl₁ (fun e' he' => by
      rw [h₁.length_eq]
      exact he e' (List.mem_cons_of_mem e he'))
    refine ⟨sh', ?_, fun j => ?_, h'.length_eq.trans h₁.length_eq, h'.hash_eq.trans h₁.hash_eq,
      h'.size_eq.trans h₁.size_eq, h'.offset_eq.trans h₁.offset_eq, ?_⟩
    · rw [List.foldlM_cons, hsh₁]
      exact hsh'
    · rw [h'.blocks, h₁.blocks, Option.map_map]
      congr 1
      funext tb
      exact clearDests_clearDests e edges j tb
    · intro i n off hsite
      have hsite₁ : jumpSite sh₁.store i n = some off := by
        rw [h₁.placement.jumpSite_eq]
        exact hsite
      rw [h'.target i n off hsite₁, h₁.target i n off hsite]
      by_cases hmem : (i, n) ∈ edges
      · simp [hmem]
      · simp [hmem]

/-- A block with the edges of block `i` removed that lead to it according to `out`. -/
def dropIncoming (i : Nat) (out : List (Slot × Nat)) (j : Nat) (tb : TranslationBlock) :
    TranslationBlock :=
  { tb with jmp := { tb.jmp with
    jmpList := tb.jmp.jmpList.filter (fun e => !(e.1 == i && decide ((e.2, j) ∈ out))) } }

theorem get_retainIncoming (s : TbStore) (i : Nat) (slot : Slot) (dst j : Nat) :
    (s.retainIncoming i slot dst).get j = (s.get j).map (dropIncoming i [(slot, dst)] j) := by
  simp only [TbStore.retainIncoming, get_modify]
  congr 1
  funext tb
  by_cases hj : dst = j
  · subst hj
    simp only [if_pos, dropIncoming]
    congr 2
    refine List.filter_congr (fun e _ => ?_)
    by_cases hn : e.2 = slot
    · simp [hn]
    · simp [hn]
  · have hj' : ¬ j = dst := fun h => hj h.symm
    simp [hj, hj', dropIncoming]

theorem dropIncoming_dropIncoming (i : Nat) (p : Slot × Nat) (out : List (Slot × Nat)) (j : Nat)
    (tb : TranslationBlock) :
    dropIncoming i out j (dropIncoming i [p] j tb) = dropIncoming i (p :: out) j tb := by
  simp only [dropIncoming, List.filter_filter]
  congr 2
  refine List.filter_congr (fun e _ => ?_)
  by_cases he : e.1 = i
  · by_cases h₁ : (e.2, j) ∈ out
    · simp [he, h₁]
    · simp [he, h₁]
  · have he' : (e.1 == i) = false := by simp [he]
    simp [he']

/-- What the loop over the outgoing edges of block `i` does. -/
theorem unlinkOutgoing_loop (i : Nat) {s : TbStore} (out : List (Slot × Nat))
    (hout : ∀ p ∈ out, p.2 < s.tbs.length) :
    ∃ s', out.foldlM (Shared.unlinkOutgoing i) s = some s' ∧
      s'.tbs.length = s.tbs.length ∧ s'.hash = s.hash ∧
      ∀ j, s'.get j = (s.get j).map (dropIncoming i out j) := by
  induction out generalizing s with
  | nil =>
    refine ⟨s, rfl, rfl, rfl, fun j => ?_⟩
    have hid : dropIncoming i [] j = id := by funext tb; simp [dropIncoming]
    rw [hid, Option.map_id]
    rfl
  | cons p out ih =>
    obtain ⟨tb, htb⟩ := get_of_lt (hout p List.mem_cons_self)
    have hlen : (s.retainIncoming i p.1 p.2).tbs.length = s.tbs.length := length_modify _ _ _
    obtain ⟨s', hs', hlen', hhash, hblocks⟩ := ih (s := s.retainIncoming i p.1 p.2)
      (fun q hq => by rw [hlen]; exact hout q (List.mem_cons_of_mem p hq))
    refine ⟨s', ?_, hlen'.trans hlen, hhash, fun j => ?_⟩
    · rw [List.foldlM_cons]
      simpa [Shared.unlinkOutgoing, htb] using hs'
    · rw [hblocks, get_retainIncoming, Option.map_map]
      congr 1
      funext tb
      exact dropIncoming_dropIncoming i p out j tb

theorem mem_outgoing {tb : TranslationBlock} {n : Slot} {d : Nat} :
    (n, d) ∈ TbStore.outgoing tb ↔ tb.jmp.jmpDest n = some d := by
  simp only [TbStore.outgoing, List.mem_filterMap, Option.map_eq_some_iff, Prod.mk.injEq]
  constructor
  · rintro ⟨m, -, d', hd', rfl, rfl⟩
    exact hd'
  · intro h
    refine ⟨n, ?_, d, h, rfl, rfl⟩
    rcases Slot.cases n with rfl | rfl
    · simp
    · simp

/-! ## `invalidate` as a whole -/

/-- What `invalidate i` does to the blocks, the edges and the jumps. -/
structure Invalidated (sh sh' : Shared) (i : Nat) : Prop where
  layout : Layout sh'
  table : ∀ live, TableInv sh.store live → TableInv sh'.store (live.erase i)
  placement : SamePlacement sh.store sh'.store
  key : ∀ j, keyOf sh'.store j =
    (keyOf sh.store j).map (fun p => (p.1, p.2.1, p.2.2 || decide (j = i)))
  flag : ∀ j, flagOf sh'.store j = (flagOf sh.store j).map (fun b => b || decide (j = i))
  dest : ∀ j n, destOf sh'.store j n =
    if j = i ∨ (j, n) ∈ incoming sh.store i then none else destOf sh.store j n
  incoming_eq : ∀ d, incoming sh'.store d = if d = i then [] else
    (incoming sh.store d).filter (fun e => !(e.1 == i &&
      decide (destOf sh.store i e.2 = some d ∧ (i, e.2) ∉ incoming sh.store i)))
  target : ∀ j n off, jumpSite sh.store j n = some off → jumpTarget sh'.buf off =
    if (j, n) ∈ incoming sh.store i then ((off + 5 : Nat) : Int) else jumpTarget sh.buf off

/-- One block before step 3 of `invalidate i`, by its form before the call. -/
def unlinkedBlock (i : Nat) (edges : List (Nat × Slot)) (out : List (Slot × Nat)) (j : Nat)
    (tb : TranslationBlock) : TranslationBlock :=
  { tb with
    invalid := tb.invalid || decide (j = i)
    jmp := {
      jmpDest := fun n => if j = i ∨ (j, n) ∈ edges then none else tb.jmp.jmpDest n
      jmpList := if j = i then [] else
        tb.jmp.jmpList.filter (fun e => !(e.1 == i && decide ((e.2, j) ∈ out))) } }

theorem unlinkedBlock_eq (i : Nat) (edges : List (Nat × Slot)) (out : List (Slot × Nat)) (j : Nat)
    (tb : TranslationBlock) :
    dropIncoming i out j ((fun tb => if i = j then
        { tb with jmp := { tb.jmp with jmpDest := fun _ => none } } else tb) (clearDests edges j
      ((fun tb => if i = j then { tb with jmp := { tb.jmp with jmpList := [] } } else tb)
        ((fun tb => if i = j then { tb with invalid := true } else tb) tb)))) =
      unlinkedBlock i edges out j tb := by
  by_cases hij : i = j
  · subst hij
    simp [dropIncoming, clearDests, unlinkedBlock]
  · have hji : ¬ j = i := fun h => hij h.symm
    simp [dropIncoming, clearDests, unlinkedBlock, hij, hji]

theorem invalidate_spec {sh : Shared} (hl : Layout sh) (htab : ∃ live, TableInv sh.store live)
    (hsrc : ∀ d, ∀ e ∈ incoming sh.store d, e.1 < sh.store.tbs.length)
    (hdst : ∀ i n d, destOf sh.store i n = some d → d < sh.store.tbs.length) {i : Nat}
    (hi : i < sh.store.tbs.length) :
    ∃ sh', sh.invalidate i = some sh' ∧ Invalidated sh sh' i := by
  obtain ⟨live, htab⟩ := htab
  obtain ⟨tb, htb⟩ := get_of_lt hi
  have hinc : incoming sh.store i = tb.jmp.jmpList := incoming_of_get htb
  -- mark the block and take its list
  obtain ⟨s₁, hs₁⟩ : ∃ s₁, s₁ = (sh.store.markInvalid i).clearJmpList i := ⟨_, rfl⟩
  have hp₁ : SamePlacement sh.store s₁ := by
    rw [hs₁]
    exact (markInvalid_placement _ _).trans (clearJmpList_placement _ _)
  have hlen₁ : s₁.tbs.length = sh.store.tbs.length := by
    rw [hs₁]
    exact (length_modify _ _ _).trans (length_modify _ _ _)
  have hl₁ : Layout { sh with store := s₁ } := hl.of_same hp₁ rfl rfl
  -- the loop over the incoming edges
  obtain ⟨sh₂, hsh₂, h₂⟩ := unlinkIncoming_loop hl₁ tb.jmp.jmpList (by
    intro e he
    rw [hlen₁]
    exact hsrc i e (hinc ▸ he))
  have hl₂ : Layout sh₂ := hl₁.of_same h₂.placement h₂.size_eq h₂.offset_eq
  have hget₂ : ∀ j, sh₂.store.get j = (sh.store.get j).map (fun tb' => clearDests tb.jmp.jmpList j
      ((fun tb => if i = j then { tb with jmp := { tb.jmp with jmpList := [] } } else tb)
        ((fun tb => if i = j then { tb with invalid := true } else tb) tb'))) := by
    intro j
    rw [h₂.blocks, hs₁]
    simp only [TbStore.clearJmpList, TbStore.markInvalid, get_modify, Option.map_map]
    rfl
  obtain ⟨tb₂, htb₂, hdest₂⟩ : ∃ tb₂, sh₂.store.get i = some tb₂ ∧ ∀ n, tb₂.jmp.jmpDest n =
      if (i, n) ∈ tb.jmp.jmpList then none else tb.jmp.jmpDest n := by
    rw [hget₂, htb]
    exact ⟨_, rfl, fun n => by simp [clearDests]⟩
  have hout : ∀ n d, (n, d) ∈ TbStore.outgoing tb₂ ↔
      destOf sh.store i n = some d ∧ (i, n) ∉ incoming sh.store i := by
    intro n d
    rw [mem_outgoing, hdest₂, hinc, destOf_of_get htb]
    by_cases hmem : (i, n) ∈ tb.jmp.jmpList
    · simp [hmem]
    · simp [hmem]
  -- the loop over the outgoing edges
  have hlen₂ : (sh₂.store.clearJmpDests i).tbs.length = sh.store.tbs.length :=
    (length_modify _ _ _).trans (h₂.length_eq.trans hlen₁)
  obtain ⟨s₄, hs₄, hlen₄, hhash₄, hget₄⟩ := unlinkOutgoing_loop i (TbStore.outgoing tb₂)
    (s := sh₂.store.clearJmpDests i) (by
      rintro ⟨n, d⟩ hp
      rw [hlen₂]
      exact hdst i n d ((hout n d).mp hp).1)
  have hblocks : ∀ j, s₄.get j = (sh.store.get j).map
      (unlinkedBlock i tb.jmp.jmpList (TbStore.outgoing tb₂) j) := by
    intro j
    rw [hget₄, TbStore.clearJmpDests, get_modify, hget₂, Option.map_map, Option.map_map]
    congr 1
    funext t
    exact unlinkedBlock_eq i tb.jmp.jmpList (TbStore.outgoing tb₂) j t
  -- removal from the hash chain
  have hsame : SameTable sh.store s₄ := by
    refine ⟨hlen₄.trans hlen₂, ?_, fun j => ?_⟩
    · rw [hhash₄]
      exact h₂.hash_eq.trans (by rw [hs₁]; rfl)
    · rw [hblocks, Option.map_map]
      rfl
  have hi₄ : i < s₄.tbs.length := by
    rw [hsame.length_eq]
    exact hi
  obtain ⟨s₅, hs₅, -⟩ := (htab.of_same hsame).hashRemove hi₄
  have hcore := hashRemove_sameCore hs₅
  have hp₄ : SamePlacement sh.store s₄ := by
    intro j
    rw [hblocks, Option.map_map]
    rfl
  have hp₅ : SamePlacement sh.store s₅ := hp₄.trans (samePlacement_of_sameCore hcore)
  have hinv : sh.invalidate i = some ⟨s₅, sh₂.buf⟩ := by
    have hmark : (sh.store.markInvalid i).get i = some { tb with invalid := true } := by
      simp [TbStore.markInvalid, htb]
    simp only [Shared.invalidate, htb, hmark, Option.bind_eq_bind, Option.bind_some, ← hs₁, hsh₂,
      htb₂, hs₄, hs₅, Option.pure_def]
  refine ⟨⟨s₅, sh₂.buf⟩, hinv, ?_⟩
  have hview : ∀ j, (s₅.get j).map (fun t => (t.invalid, t.jmp)) = (sh.store.get j).map
      (fun t => ((unlinkedBlock i tb.jmp.jmpList (TbStore.outgoing tb₂) j t).invalid,
        (unlinkedBlock i tb.jmp.jmpList (TbStore.outgoing tb₂) j t).jmp)) := by
    intro j
    have hc := congrArg (fun o => o.map (fun t => (t.invalid, t.jmp))) (hcore.core_eq j)
    rw [Option.map_map, Option.map_map, hblocks, Option.map_map] at hc
    exact hc
  refine ⟨?_, ?_, hp₅, ?_, ?_, ?_, ?_, ?_⟩
  · exact hl.of_same hp₅ h₂.size_eq h₂.offset_eq
  · intro live' hlive'
    obtain ⟨s', hs', htab'⟩ := (hlive'.of_same hsame).hashRemove hi₄
    rw [hs₅] at hs'
    injection hs' with hs'
    exact hs' ▸ htab'
  · intro j
    have hv := hcore.map_get (fun t => (t.pc, t.flags, t.invalid)) (fun _ => rfl) j
    rw [hblocks, Option.map_map] at hv
    rw [keyOf, hv, keyOf, Option.map_map]
    rfl
  · intro j
    have hv := congrArg (fun o => o.map Prod.fst) (hview j)
    rw [Option.map_map, Option.map_map] at hv
    rw [flagOf, flagOf, Option.map_map]
    exact hv
  · intro j n
    have hv := congrArg (fun o => o.bind (fun p => p.2.jmpDest n)) (hview j)
    simp only [Option.bind_map, Function.comp_def] at hv
    rw [destOf, hv, hinc]
    cases ht : sh.store.get j with
    | none => simp [destOf, ht]
    | some t => simp [destOf, ht, unlinkedBlock]
  · intro d
    have hv := congrArg (fun o => (o.map (fun p => p.2.jmpList)).getD []) (hview d)
    simp only [Option.map_map, Function.comp_def] at hv
    rw [incoming, hv]
    cases ht : sh.store.get d with
    | none => simp [incoming, ht]
    | some t =>
      by_cases hd : d = i
      · simp [unlinkedBlock, hd]
      · simp only [Option.map_some, Option.getD_some, unlinkedBlock, if_neg hd, incoming, ht]
        refine List.filter_congr (fun e _ => ?_)
        have hiff : decide ((e.2, d) ∈ TbStore.outgoing tb₂) =
            decide (destOf sh.store i e.2 = some d ∧ (i, e.2) ∉ incoming sh.store i) :=
          decide_eq_decide.mpr (hout e.2 d)
        rw [hiff]
        rfl
  · intro j n off hsite
    have hsite₁ : jumpSite s₁ j n = some off := by
      rw [hp₁.jumpSite_eq]
      exact hsite
    rw [hinc]
    exact h₂.target j n off hsite₁

/-! ## The edge invariant -/

/-- The three records of every edge agree. -/
structure EdgeInv (sh : Shared) : Prop where
  dest_iff : ∀ i n d, destOf sh.store i n = some d ↔ (i, n) ∈ incoming sh.store d
  nodup : ∀ d, (incoming sh.store d).Nodup
  linked : ∀ i n d, destOf sh.store i n = some d → ∃ off tbd, jumpSite sh.store i n = some off ∧
    sh.store.get d = some tbd ∧ jumpTarget sh.buf off = tbd.hostOffset
  unlinked : ∀ i n off, flagOf sh.store i = some false → destOf sh.store i n = none →
    jumpSite sh.store i n = some off → jumpTarget sh.buf off = (off + 5 : Nat)

/-- The invariant of sequential runs. -/
structure ChainInv (sh : Shared) : Prop where
  layout : Layout sh
  table : ∃ live, TableInv sh.store live
  edges : EdgeInv sh

theorem EdgeInv.source_lt {sh : Shared} (h : EdgeInv sh) (d : Nat) (e : Nat × Slot)
    (he : e ∈ incoming sh.store d) : e.1 < sh.store.tbs.length := by
  obtain ⟨tb, htb, -⟩ := exists_of_destOf ((h.dest_iff e.1 e.2 d).mpr he)
  exact get_eq_some_lt htb

theorem EdgeInv.dest_lt {sh : Shared} (h : EdgeInv sh) (i : Nat) (n : Slot) (d : Nat)
    (hd : destOf sh.store i n = some d) : d < sh.store.tbs.length := by
  obtain ⟨-, tbd, -, htbd, -⟩ := h.linked i n d hd
  exact get_eq_some_lt htbd

theorem Fresh.chainInv {sh : Shared} (h : Fresh sh) : ChainInv sh where
  layout := h.layout
  table := ⟨[], List.nodup_nil, by simp, fun b => by rw [h.store_eq]; simp [chainOf]⟩
  edges := by
    have hd : ∀ i n, destOf sh.store i n = none := fun i n => by simp [destOf, h.get_eq_none]
    have hi : ∀ d, incoming sh.store d = [] := fun d => by simp [incoming, h.get_eq_none]
    refine ⟨fun i n d => by simp [hd, hi], fun d => by simp [hi], ?_, ?_⟩
    · intro i n d hdest
      rw [hd] at hdest
      cases hdest
    · intro i n off hflag
      simp [flagOf, h.get_eq_none] at hflag

/-! ### Invalidation -/

theorem ChainInv.invalidate {sh : Shared} (h : ChainInv sh) {i : Nat}
    (hi : i < sh.store.tbs.length) :
    ∃ sh', sh.invalidate i = some sh' ∧ Invalidated sh sh' i ∧ ChainInv sh' := by
  obtain ⟨sh', hsh', hinv⟩ :=
    invalidate_spec h.layout h.table h.edges.source_lt h.edges.dest_lt hi
  have hE := h.edges
  obtain ⟨live, hlive⟩ := h.table
  refine ⟨sh', hsh', hinv, hinv.layout, ⟨_, hinv.table live hlive⟩, ?_, ?_, ?_, ?_⟩
  · intro j n d
    rw [hinv.dest, hinv.incoming_eq]
    by_cases hd : d = i
    · -- every slot that led to `i` was cleared
      subst hd
      by_cases hmem : (j, n) ∈ incoming sh.store d
      · simp [hmem]
      · have hnot := fun hdest => hmem ((hE.dest_iff j n d).mp hdest)
        simp only [hmem, or_false, if_true, List.not_mem_nil, iff_false]
        split
        · simp
        · exact hnot
    · rw [if_neg hd, List.mem_filter, ← hE.dest_iff j n d]
      by_cases hj : j = i
      · subst hj
        -- the outgoing edges of `i` are gone on both sides
        simp only [true_or, if_true, beq_self_eq_true, Bool.true_and]
        constructor
        · intro hcontra
          cases hcontra
        · rintro ⟨hdest, hkeep⟩
          have hself : (j, n) ∉ incoming sh.store j := by
            intro hmem
            rw [← hE.dest_iff, hdest] at hmem
            exact hd (Option.some.inj hmem)
          simp [hdest, hself] at hkeep
      · have hne : (j == i) = false := by simp [hj]
        simp only [hj, false_or, hne, Bool.false_and, Bool.not_false, and_true]
        by_cases hmem : (j, n) ∈ incoming sh.store i
        · rw [if_pos hmem]
          rw [← hE.dest_iff] at hmem
          constructor
          · intro hcontra
            cases hcontra
          · intro hdest
            rw [hdest] at hmem
            exact absurd (Option.some.inj hmem) hd
        · rw [if_neg hmem]
  · intro d
    rw [hinv.incoming_eq]
    split
    · exact List.nodup_nil
    · exact (hE.nodup d).filter _
  · intro j n d hdest
    rw [hinv.dest] at hdest
    split at hdest
    · cases hdest
    · next hnot =>
      rw [not_or] at hnot
      obtain ⟨off, tbd, hsite, htbd, htgt⟩ := hE.linked j n d hdest
      obtain ⟨tbd', htbd', hpl⟩ := hinv.placement.symm.get htbd
      refine ⟨off, tbd', by rw [hinv.placement.jumpSite_eq]; exact hsite, htbd', ?_⟩
      rw [hinv.target j n off hsite, if_neg hnot.2, htgt]
      exact congrArg (fun p => ((p.1 : Nat) : Int)) hpl
  · intro j n off hvalid hnone hsite
    rw [hinv.placement.jumpSite_eq] at hsite
    rw [hinv.flag, Option.map_eq_some_iff] at hvalid
    obtain ⟨b, hb, hor⟩ := hvalid
    rw [Bool.or_eq_false_iff, decide_eq_false_iff_not] at hor
    obtain ⟨rfl, hji⟩ := hor
    rw [hinv.target j n off hsite]
    by_cases hmem : (j, n) ∈ incoming sh.store i
    · rw [if_pos hmem]
    · rw [if_neg hmem]
      rw [hinv.dest, if_neg (by simp [hji, hmem])] at hnone
      exact hE.unlinked j n off hb hnone hsite

/-! ### Chaining -/

/-- The call would move a slot that is linked to another block. -/
def Repoints (sh : Shared) (src slot dst : Nat) : Prop :=
  ∃ tb tbd, ∃ h : slot < 2, sh.store.get src = some tb ∧ (tb.jmpInsnOffset ⟨slot, h⟩).isSome ∧
    sh.store.get dst = some tbd ∧ tbd.invalid = false ∧
    ∃ d, tb.jmp.jmpDest ⟨slot, h⟩ = some d ∧ d ≠ dst

theorem ChainInv.tbAddJump {sh : Shared} (h : ChainInv sh) {src slot dst : Nat}
    (hsrc : src < sh.store.tbs.length) (hslot : slot < 2) (hdst : dst < sh.store.tbs.length)
    (hrep : ¬ Repoints sh src slot dst) :
    ∃ sh', sh.tbAddJump src slot dst = some sh' ∧ ChainInv sh' := by
  obtain ⟨tb, htb⟩ := get_of_lt hsrc
  obtain ⟨tbd, htbd⟩ := get_of_lt hdst
  have hE := h.edges
  simp only [Shared.tbAddJump, htb, Option.bind_eq_bind, Option.bind_some, dif_pos hslot]
  cases ho : tb.jmpInsnOffset ⟨slot, hslot⟩ with
  | none => exact ⟨sh, rfl, h⟩
  | some o =>
    simp only [htbd, Option.bind_some]
    cases hv : tbd.invalid with
    | true => exact ⟨sh, rfl, h⟩
    | false =>
      by_cases hlinked : tb.jmp.jmpDest ⟨slot, hslot⟩ = some dst
      · refine ⟨sh, ?_, h⟩
        simp [Shared.linkSource, htb, hlinked]
      · -- the slot is free, since re-pointing is excluded
        have hfree : destOf sh.store src ⟨slot, hslot⟩ = none := by
          rw [destOf_of_get htb]
          cases hd : tb.jmp.jmpDest ⟨slot, hslot⟩ with
          | none => rfl
          | some d =>
            refine absurd ⟨tb, tbd, hslot, htb, by simp [ho], htbd, hv, d, hd, ?_⟩ hrep
            intro heq
            exact hlinked (by rw [hd, heq])
        obtain ⟨buf', hlink, hsize, hoff, htgt⟩ := linkSource_spec h.layout htb ho htbd hlinked
        have hp₁ := setJmpDest_placement sh.store src ⟨slot, hslot⟩ (some dst)
        have hp₂ := pushIncoming_placement
          (sh.store.setJmpDest src ⟨slot, hslot⟩ (some dst)) dst src ⟨slot, hslot⟩
        have hp := hp₁.trans hp₂
        have hlen : dst < (sh.store.setJmpDest src ⟨slot, hslot⟩ (some dst)).tbs.length := by
          rw [TbStore.setJmpDest, length_modify]
          exact hdst
        have hdest : ∀ i n, destOf ((sh.store.setJmpDest src ⟨slot, hslot⟩ (some dst)).pushIncoming
            dst src ⟨slot, hslot⟩) i n = if (i, n) = (src, ⟨slot, hslot⟩) then some dst
              else destOf sh.store i n := by
          intro i n
          rw [destOf_pushIncoming, destOf_setJmpDest]
          by_cases heq : src = i ∧ n = ⟨slot, hslot⟩
          · obtain ⟨rfl, rfl⟩ := heq
            simp [htb]
          · rw [if_neg heq, if_neg]
            intro heq'
            obtain ⟨h1, h2⟩ := Prod.mk.inj heq'
            exact heq ⟨h1.symm, h2⟩
        have hinc : ∀ d, incoming ((sh.store.setJmpDest src ⟨slot, hslot⟩ (some dst)).pushIncoming
            dst src ⟨slot, hslot⟩) d = if d = dst then incoming sh.store d ++ [(src, ⟨slot, hslot⟩)]
              else incoming sh.store d := by
          intro d
          rw [incoming_pushIncoming hlen, incoming_setJmpDest]
        have hnew : ∀ d, (src, ⟨slot, hslot⟩) ∉ incoming sh.store d := by
          intro d hmem
          rw [← hE.dest_iff, hfree] at hmem
          cases hmem
        refine ⟨⟨(sh.store.setJmpDest src ⟨slot, hslot⟩ (some dst)).pushIncoming dst src
          ⟨slot, hslot⟩, buf'⟩, by simp [hlink], h.layout.of_same hp hsize hoff, ?_, ?_, ?_, ?_, ?_⟩
        · obtain ⟨live, hlive⟩ := h.table
          exact ⟨live, hlive.of_same ((setJmpDest_sameTable _ _ _ _).trans
            (pushIncoming_sameTable _ _ _ _))⟩
        · intro i n d
          rw [hdest, hinc]
          by_cases heq : (i, n) = (src, ⟨slot, hslot⟩)
          · rw [if_pos heq, heq]
            by_cases hd : d = dst
            · simp [hd]
            · have hd' : ¬ dst = d := fun h => hd h.symm
              simp [hd, hd', hnew d]
          · rw [if_neg heq, hE.dest_iff]
            by_cases hd : d = dst
            · simp [hd, heq]
            · simp [hd]
        · intro d
          rw [hinc]
          by_cases hd : d = dst
          · rw [if_pos hd]
            refine (hE.nodup d).append (List.nodup_singleton _) ?_
            intro e he he'
            rw [List.mem_singleton] at he'
            exact hnew d (he' ▸ he)
          · rw [if_neg hd]
            exact hE.nodup d
        · intro i n d hd
          rw [hdest] at hd
          by_cases heq : (i, n) = (src, ⟨slot, hslot⟩)
          · rw [if_pos heq] at hd
            injection hd with hd
            subst hd
            obtain ⟨rfl, rfl⟩ := Prod.mk.inj heq
            have hsite : jumpSite sh.store i ⟨slot, hslot⟩ = some o.toNat :=
              jumpSite_eq_some.mpr ⟨tb, o, htb, ho, rfl⟩
            obtain ⟨tbd', htbd', hpl⟩ := hp.symm.get htbd
            refine ⟨o.toNat, tbd', by rw [hp.jumpSite_eq]; exact hsite, htbd', ?_⟩
            rw [htgt i ⟨slot, hslot⟩ _ hsite, if_pos rfl]
            exact congrArg (fun p => ((p.1 : Nat) : Int)) hpl
          · rw [if_neg heq] at hd
            obtain ⟨off, t, hsite, ht, htgt'⟩ := hE.linked i n d hd
            obtain ⟨t', ht', hpl⟩ := hp.symm.get ht
            refine ⟨off, t', by rw [hp.jumpSite_eq]; exact hsite, ht', ?_⟩
            rw [htgt i n off hsite, if_neg heq, htgt']
            exact congrArg (fun p => ((p.1 : Nat) : Int)) hpl
        · intro i n off hvalid hnone hsite
          rw [flagOf_pushIncoming, flagOf_setJmpDest] at hvalid
          rw [hdest] at hnone
          by_cases heq : (i, n) = (src, ⟨slot, hslot⟩)
          · rw [if_pos heq] at hnone
            cases hnone
          · rw [if_neg heq] at hnone
            rw [hp.jumpSite_eq] at hsite
            rw [htgt i n off hsite, if_neg heq]
            exact hE.unlinked i n off hvalid hnone hsite

/-! ### Translation -/

theorem get_none_of_le {s : TbStore} {i : Nat} (h : s.tbs.length ≤ i) : s.get i = none := by
  unfold TbStore.get
  exact List.getElem?_eq_none h

/-- A translation links nothing. -/
theorem destOf_translate {sh sh₂ : Shared} {pc : BitVec 64} {flags : BitVec 32} {s₁ s₃ : TbStore}
    {k : Nat} (h₁ : sh.store.alloc pc flags 0 = some (s₁, k))
    (hem : Emitted { sh with store := s₁ } sh₂ k) (hcore : SameCore sh₂.store s₃) (i : Nat)
    (n : Slot) : destOf s₃ i n = destOf sh.store i n := by
  obtain ⟨hk, -, -⟩ := alloc_eq_some h₁
  have hold : sh.store.get k = none := get_none_of_le hk.ge
  have hjmp : (s₃.get i).map (fun tb => tb.jmp) = (s₁.get i).map (fun tb => tb.jmp) :=
    (hcore.map_get _ (fun _ => rfl) i).trans (hem.map_get _ (fun _ _ _ _ _ _ => rfl) i)
  have hb := congrArg (fun o => o.bind (fun j => j.jmpDest n)) hjmp
  simp only [Option.bind_map, Function.comp_def] at hb
  rw [destOf, hb, get_alloc h₁]
  split
  · next hi =>
    rw [destOf, hi, ← hk, hold]
    rfl
  · rfl

theorem ChainInv.translateTb {sh sh' : Shared} {gen : CodeGen} {tr : Translation}
    {pc : BitVec 64} {flags : BitVec 32} {k : Nat} (h : ChainInv sh)
    (hsh' : sh.translateTb gen tr pc flags = some (sh', k)) : ChainInv sh' := by
  obtain ⟨s₁, sh₂, s₃, h₁, h₂, h₃, rfl⟩ := translateTb_eq_some hsh'
  have hem := emitTb_of_alloc h.layout h₁ h₂
  have hcore := insert_sameCore h₃
  have hp₃ : SamePlacement sh₂.store s₃ := samePlacement_of_sameCore hcore
  obtain ⟨hk, -, hs₁⟩ := alloc_eq_some h₁
  have hE := h.edges
  have hold : sh.store.get k = none := get_none_of_le hk.ge
  -- the new block has no edges, and the old ones keep theirs
  have hdest := destOf_translate h₁ hem hcore
  have hinc : ∀ d, incoming s₃ d = incoming sh.store d := by
    intro d
    have hjl : (s₃.get d).map (fun tb => tb.jmp.jmpList) = (s₁.get d).map (fun tb => tb.jmp.jmpList) :=
      (hcore.map_get _ (fun _ => rfl) d).trans (hem.map_get _ (fun _ _ _ _ _ _ => rfl) d)
    rw [incoming, hjl, get_alloc h₁]
    split
    · next hi =>
      rw [incoming, hi, ← hk, hold]
      rfl
    · rfl
  have hsite : ∀ i, i ≠ k → jumpSite s₃ i = jumpSite sh.store i := by
    intro i hi
    funext n
    rw [hp₃.jumpSite_eq, jumpSite, hem.others i hi]
    simp only [get_alloc h₁]
    rw [if_neg (by omega)]
    rfl
  refine ⟨hem.layout.of_same hp₃ rfl rfl, ?_, ?_, ?_, ?_, ?_⟩
  · obtain ⟨live, hlive⟩ := h.table
    have hlive₂ : TableInv sh₂.store live := (hlive.alloc h₁).of_same hem.sameTable
    refine ⟨k :: live, hlive₂.insert ?_ h₃⟩
    intro hmem
    have := hlive.exist k hmem
    omega
  · intro i n d
    rw [hdest, hinc]
    exact hE.dest_iff i n d
  · intro d
    rw [hinc]
    exact hE.nodup d
  · intro i n d hd
    rw [hdest] at hd
    obtain ⟨off, tbd, hs, htbd, htgt⟩ := hE.linked i n d hd
    have hik : i ≠ k := by
      intro hik
      obtain ⟨tb, htb, -⟩ := exists_of_destOf hd
      rw [hik, hold] at htb
      cases htb
    have hdk : d ≠ k := by
      intro hdk
      rw [hdk, hold] at htbd
      cases htbd
    have hlt := h.layout.site_lt hs
    have hget₂ : sh₂.store.get d = some tbd := by
      rw [hem.others d hdk]
      simp only [get_alloc h₁]
      rw [if_neg (by omega)]
      exact htbd
    obtain ⟨tbd', htbd', hpl⟩ := hp₃.symm.get hget₂
    refine ⟨off, tbd', by rw [hsite i hik]; exact hs, htbd', ?_⟩
    rw [hem.old_jumps off hlt.le, htgt]
    exact congrArg (fun p => ((p.1 : Nat) : Int)) hpl
  · intro i n off hflag hnone hs
    by_cases hik : i = k
    · subst hik
      rw [hp₃.jumpSite_eq] at hs
      exact (hem.new_jumps n off hs).2
    · rw [hsite i hik] at hs
      have hlt := h.layout.site_lt hs
      have hfl : flagOf s₃ i = flagOf sh.store i := by
        have hf : (s₃.get i).map (fun tb => tb.invalid) = (s₁.get i).map (fun tb => tb.invalid) :=
          (hcore.map_get _ (fun _ => rfl) i).trans (hem.map_get _ (fun _ _ _ _ _ _ => rfl) i)
        rw [flagOf, hf, get_alloc h₁, if_neg (by omega)]
        rfl
      rw [hem.old_jumps off hlt.le]
      rw [hfl] at hflag
      rw [hdest] at hnone
      exact hE.unlinked i n off hflag hnone hs

/-! ## Sequential runs -/

/-- One call on the store and the code buffer. -/
inductive ChainOp where
  | translate (gen : CodeGen) (tr : Translation) (pc : BitVec 64) (flags : BitVec 32)
  | addJump (src slot dst : Nat)
  | invalidate (i : Nat)

/-- Run one call; `none` is a panic. -/
def stepChain (sh : Shared) : ChainOp → Option Shared
  | .translate gen tr pc flags => (sh.translateTb gen tr pc flags).map Prod.fst
  | .addJump src slot dst => sh.tbAddJump src slot dst
  | .invalidate i => sh.invalidate i

/-- The call does not re-point a slot that is linked to another block. -/
def KeepsLinks (sh : Shared) : ChainOp → Prop
  | .addJump src slot dst => ¬ Repoints sh src slot dst
  | _ => True

/-- The states reached from `sh₀` by calls that re-point no linked slot. -/
inductive Reached (sh₀ : Shared) : Shared → Prop where
  | start : Reached sh₀ sh₀
  | step {sh sh' : Shared} {op : ChainOp} (h : Reached sh₀ sh) (hk : KeepsLinks sh op)
      (hs : stepChain sh op = some sh') : Reached sh₀ sh'

theorem ChainInv.step {sh sh' : Shared} {op : ChainOp} (h : ChainInv sh) (hk : KeepsLinks sh op)
    (hs : stepChain sh op = some sh') : ChainInv sh' := by
  cases op with
  | translate gen tr pc flags =>
    obtain ⟨⟨sh₁, i⟩, h₁, rfl⟩ := Option.map_eq_some_iff.mp hs
    exact h.translateTb h₁
  | addJump src slot dst =>
    simp only [stepChain] at hs
    by_cases hsrc : src < sh.store.tbs.length
    · by_cases hslot : slot < 2
      · by_cases hdst : dst < sh.store.tbs.length
        · obtain ⟨sh₁, h₁, hinv⟩ := h.tbAddJump hsrc hslot hdst hk
          rw [h₁] at hs
          injection hs with hs
          exact hs ▸ hinv
        · -- the destination is only looked at when the slot has a jump
          obtain ⟨tb, htb⟩ := get_of_lt hsrc
          have hnone := get_none_of_le (s := sh.store) (by omega : sh.store.tbs.length ≤ dst)
          simp only [Shared.tbAddJump, htb, Option.bind_eq_bind, Option.bind_some,
            dif_pos hslot] at hs
          split at hs
          · injection hs with hs
            exact hs ▸ h
          · rw [hnone] at hs
            cases hs
      · obtain ⟨tb, htb⟩ := get_of_lt hsrc
        simp [Shared.tbAddJump, htb, hslot] at hs
    · have hnone := get_none_of_le (s := sh.store) (by omega : sh.store.tbs.length ≤ src)
      simp [Shared.tbAddJump, hnone] at hs
  | invalidate i =>
    simp only [stepChain] at hs
    by_cases hi : i < sh.store.tbs.length
    · obtain ⟨sh₁, h₁, -, hinv⟩ := h.invalidate hi
      rw [h₁] at hs
      injection hs with hs
      exact hs ▸ hinv
    · have hnone := get_none_of_le (s := sh.store) (by omega : sh.store.tbs.length ≤ i)
      simp [Shared.invalidate, hnone] at hs

theorem Reached.chainInv {sh₀ sh : Shared} (h : Reached sh₀ sh) (h₀ : Fresh sh₀) :
    ChainInv sh := by
  induction h with
  | start => exact Fresh.chainInv h₀
  | step _ hk hs ih => exact ih.step hk hs

/-- The edges of every slot of every valid block, as its three records show them. -/
def EdgesAgree (sh : Shared) : Prop :=
  ∀ s tb (n : Slot), sh.store.get s = some tb → tb.invalid = false →
    (∀ d tbd, sh.store.get d = some tbd →
      (tb.jmp.jmpDest n = some d ↔ (s, n) ∈ tbd.jmp.jmpList)) ∧
    (∀ d, tb.jmp.jmpDest n = some d → ∃ tbd off, sh.store.get d = some tbd ∧
      tbd.jmp.jmpList.count (s, n) = 1 ∧ tb.jmpInsnOffset n = some off ∧
      jumpTarget sh.buf off.toNat = tbd.hostOffset) ∧
    (tb.jmp.jmpDest n = none → ∀ off, tb.jmpInsnOffset n = some off →
      ∃ reset, tb.jmpResetOffset n = some reset ∧ jumpTarget sh.buf off.toNat = reset.toNat)

/-- The jumps of valid blocks that lead to other blocks than `i` lead there still. -/
def KeepsOtherJumps (sh sh' : Shared) (i : Nat) : Prop :=
  ∀ s tb n d tbd off, sh.store.get s = some tb → tb.invalid = false →
    sh.store.get d = some tbd → tbd.invalid = false → d ≠ i → tb.jmpInsnOffset n = some off →
    tb.jmp.jmpDest n = some d → jumpTarget sh.buf off.toNat = tbd.hostOffset →
    jumpTarget sh'.buf off.toNat = tbd.hostOffset

theorem ChainInv.edgesAgree {sh : Shared} (h : ChainInv sh) : EdgesAgree sh := by
  intro s tb n htb hvalid
  have hE := h.edges
  have hdest := destOf_of_get htb n
  refine ⟨?_, ?_, ?_⟩
  · intro d tbd htbd
    rw [← hdest, hE.dest_iff, incoming_of_get htbd]
  · intro d hd
    rw [← hdest] at hd
    obtain ⟨off, tbd, hsite, htbd, htgt⟩ := hE.linked s n d hd
    obtain ⟨tb', o, htb', ho, rfl⟩ := jumpSite_eq_some.mp hsite
    rw [htb] at htb'
    injection htb' with htb'
    subst htb'
    refine ⟨tbd, o, htbd, ?_, ho, htgt⟩
    have hmem := (hE.dest_iff s n d).mp hd
    have hnd := hE.nodup d
    rw [incoming_of_get htbd] at hmem hnd
    exact List.count_eq_one_of_mem hnd hmem
  · intro hnone off ho
    obtain ⟨r, hr, hrnat⟩ := h.layout.reset_eq htb ho
    refine ⟨r, hr, ?_⟩
    rw [hrnat]
    refine hE.unlinked s n off.toNat ?_ (by rw [hdest]; exact hnone) ?_
    · rw [flagOf_of_get htb, hvalid]
    · exact jumpSite_eq_some.mpr ⟨tb, off, htb, ho, rfl⟩

theorem ChainInv.keepsOtherJumps {sh sh' : Shared} {i : Nat} (h : ChainInv sh)
    (hs : sh.invalidate i = some sh') : KeepsOtherJumps sh sh' i := by
  intro s tb n d tbd off htb _ _ _ hdi ho hd htgt
  have hi : i < sh.store.tbs.length := by
    by_contra hi
    have hnone := get_none_of_le (s := sh.store) (by omega : sh.store.tbs.length ≤ i)
    simp [Shared.invalidate, hnone] at hs
  obtain ⟨sh₁, h₁, hinv, -⟩ := h.invalidate hi
  rw [h₁] at hs
  injection hs with hs
  subst hs
  have hsite : jumpSite sh.store s n = some off.toNat :=
    jumpSite_eq_some.mpr ⟨tb, off, htb, ho, rfl⟩
  rw [hinv.target s n _ hsite, if_neg, htgt]
  intro hmem
  rw [← h.edges.dest_iff, destOf_of_get htb, hd] at hmem
  exact hdi (Option.some.inj hmem)

/-- In every run that re-points no linked slot, the records of every edge agree, and
invalidating a block resets no jump to another block. -/
theorem edges_agree_unless_repointed (sh₀ sh : Shared) (h₀ : Fresh sh₀) (h : Reached sh₀ sh) :
    EdgesAgree sh ∧ ∀ i sh', sh.invalidate i = some sh' → KeepsOtherJumps sh sh' i := by
  have hinv := h.chainInv h₀
  exact ⟨hinv.edgesAgree, fun i sh' hs => hinv.keepsOtherJumps hs⟩

/-! ### A run with and a run without re-pointing -/

/-- Translate a block at `pc` that ends in `goto_tb 0; exit_tb 0`. -/
def translateGoto (pc : BitVec 64) : ChainOp :=
  .translate ⟨0, 5⟩ ⟨⟨[.gotoTb 0], 0⟩, 4⟩ pc 0

/-- The calls one after another. -/
def runChain (sh : Shared) (ops : List ChainOp) : Option Shared := ops.foldlM stepChain sh

/-- Block 0 chained to block 1. -/
theorem edges_agree_after_link : ∃ sh, Reached newEnv sh ∧ EdgesAgree sh ∧
    ∀ i sh', sh.invalidate i = some sh' → KeepsOtherJumps sh sh' i := by
  have hsome : (runChain newEnv [translateGoto 0, translateGoto 4]).isSome = true := by
    decide
  obtain ⟨sh, hsh⟩ := Option.isSome_iff_exists.mp hsome
  have hfree : ((runChain newEnv [translateGoto 0, translateGoto 4]).bind
      (fun sh => sh.store.get 0)).map (fun tb => tb.jmp.jmpDest 0) = some none := by
    decide
  have hlink : ((runChain newEnv [translateGoto 0, translateGoto 4]).bind
      (fun sh => sh.tbAddJump 0 0 1)).isSome = true := by
    decide
  rw [hsh] at hfree hlink
  obtain ⟨sh', hsh'⟩ := Option.isSome_iff_exists.mp hlink
  have hreach : Reached newEnv sh := by
    obtain ⟨sh₁, h₁, h₂⟩ := Option.bind_eq_some_iff.mp
      (show (stepChain newEnv (translateGoto 0)).bind
        (fun s => runChain s [translateGoto 4]) = some sh from hsh)
    obtain ⟨sh₂, h₃, h₄⟩ := Option.bind_eq_some_iff.mp
      (show (stepChain sh₁ (translateGoto 4)).bind (fun s => some s) = some sh from h₂)
    injection h₄ with h₄
    have hk₁ : KeepsLinks newEnv (translateGoto 0) := trivial
    have hk₂ : KeepsLinks sh₁ (translateGoto 4) := trivial
    exact h₄ ▸ (Reached.start.step hk₁ h₁).step hk₂ h₃
  have hkeep : KeepsLinks sh (.addJump 0 0 1) := by
    rintro ⟨tb, tbd, hslot, htb, -, -, -, d, hd, -⟩
    simp only [Option.bind_some, htb, Option.map_some, Option.some.injEq] at hfree
    have hcontra : (none : Option Nat) = some d := hfree.symm.trans hd
    cases hcontra
  have hreach' := hreach.step hkeep hsh'
  exact ⟨sh', hreach', edges_agree_unless_repointed newEnv sh' newEnv_fresh hreach'⟩

/-- Slot 0 of block 0 is linked to block 1 and then to block 2: block 1 still lists it. -/
theorem repointed_slot_stays_listed :
    ¬ ∀ ops sh, runChain newEnv ops = some sh → EdgesAgree sh := by
  intro h
  have hdata : (runChain newEnv [translateGoto 0, translateGoto 4, translateGoto 8,
      .addJump 0 0 1, .addJump 0 0 2]).map (fun sh =>
        ((sh.store.get 0).map (fun tb => (tb.invalid, tb.jmp.jmpDest 0)),
          (sh.store.get 1).map (fun tb => tb.jmp.jmpList))) =
      some (some (false, some 2), some [(0, 0)]) := by
    decide
  obtain ⟨sh, hsh, hview⟩ := Option.map_eq_some_iff.mp hdata
  obtain ⟨h₀, h₁⟩ := Prod.mk.inj hview
  obtain ⟨tb, htb, hflag⟩ := Option.map_eq_some_iff.mp h₀
  obtain ⟨tb₁, htb₁, hlist⟩ := Option.map_eq_some_iff.mp h₁
  obtain ⟨hvalid, hdest⟩ := Prod.mk.inj hflag
  have hiff := (h _ sh hsh 0 tb 0 htb hvalid).1 1 tb₁ htb₁
  rw [hdest, hlist] at hiff
  exact absurd (hiff.mpr (by decide)) (by decide)

end TcgRs.Analysis.JumpEdges
