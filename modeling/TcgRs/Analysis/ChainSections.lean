import TcgRs.Analysis.CodeLayout

/-!
# What each section of the chaining protocol does

The sections of `tb_add_jump` and `invalidate` as equations on the blocks and on the jumps
in the code buffer.  Every run result about chained jumps is proved from these and does not
look into the operations again.
-/

set_option autoImplicit false

namespace TcgRs.Analysis.ChainSections

open TcgRs.Model TcgRs.Model.X86 TcgRs.Model.Exec HashTable JumpPatching CodeLayout

/-- The destination a slot is linked to. -/
def destOf (s : TbStore) (i : Nat) (n : Slot) : Option Nat :=
  (s.get i).bind (fun tb => tb.jmp.jmpDest n)

/-- The incoming edges a block knows of. -/
def incoming (s : TbStore) (d : Nat) : List (Nat × Slot) :=
  ((s.get d).map (fun tb => tb.jmp.jmpList)).getD []

theorem destOf_of_get {s : TbStore} {i : Nat} {tb : TranslationBlock} (h : s.get i = some tb)
    (n : Slot) : destOf s i n = tb.jmp.jmpDest n := by
  simp [destOf, h]

theorem incoming_of_get {s : TbStore} {d : Nat} {tb : TranslationBlock} (h : s.get d = some tb) :
    incoming s d = tb.jmp.jmpList := by
  simp [incoming, h]

theorem exists_of_destOf {s : TbStore} {i d : Nat} {n : Slot} (h : destOf s i n = some d) :
    ∃ tb, s.get i = some tb ∧ tb.jmp.jmpDest n = some d := by
  unfold destOf at h
  exact Option.bind_eq_some_iff.mp h

theorem exists_of_mem_incoming {s : TbStore} {d : Nat} {e : Nat × Slot} (h : e ∈ incoming s d) :
    ∃ tb, s.get d = some tb ∧ e ∈ tb.jmp.jmpList := by
  cases htb : s.get d with
  | none => simp [incoming, htb] at h
  | some tb =>
    rw [incoming_of_get htb] at h
    exact ⟨tb, rfl, h⟩

/-! ## Placement is never changed -/

theorem markInvalid_placement (s : TbStore) (i : Nat) : SamePlacement s (s.markInvalid i) :=
  samePlacement_modify s i _ (fun _ => rfl)

theorem clearJmpList_placement (s : TbStore) (i : Nat) : SamePlacement s (s.clearJmpList i) :=
  samePlacement_modify s i _ (fun _ => rfl)

theorem setJmpDest_placement (s : TbStore) (i : Nat) (n : Slot) (d : Option Nat) :
    SamePlacement s (s.setJmpDest i n d) :=
  samePlacement_modify s i _ (fun _ => rfl)

theorem clearJmpDests_placement (s : TbStore) (i : Nat) : SamePlacement s (s.clearJmpDests i) :=
  samePlacement_modify s i _ (fun _ => rfl)

theorem retainIncoming_placement (s : TbStore) (i : Nat) (n : Slot) (d : Nat) :
    SamePlacement s (s.retainIncoming i n d) :=
  samePlacement_modify s d _ (fun _ => rfl)

theorem pushIncoming_placement (s : TbStore) (d i : Nat) (n : Slot) :
    SamePlacement s (s.pushIncoming d i n) :=
  samePlacement_modify s d _ (fun _ => rfl)

/-! ## The sections on one block -/

/-- The flag of a block. -/
def flagOf (s : TbStore) (i : Nat) : Option Bool := (s.get i).map (fun tb => tb.invalid)

theorem flagOf_of_get {s : TbStore} {i : Nat} {tb : TranslationBlock} (h : s.get i = some tb) :
    flagOf s i = some tb.invalid := by
  simp [flagOf, h]

theorem destOf_modify (s : TbStore) (k : Nat) {f : TranslationBlock → TranslationBlock}
    (hf : ∀ tb, (f tb).jmp.jmpDest = tb.jmp.jmpDest) (i : Nat) (n : Slot) :
    destOf (s.modify k f) i n = destOf s i n := by
  have h := congrArg (fun o => o.bind (fun g => g n))
    (map_get_modify (fun tb => tb.jmp.jmpDest) s k i hf)
  simpa [destOf, Option.bind_map, Function.comp_def] using h

theorem incoming_modify (s : TbStore) (k : Nat) {f : TranslationBlock → TranslationBlock}
    (hf : ∀ tb, (f tb).jmp.jmpList = tb.jmp.jmpList) (d : Nat) :
    incoming (s.modify k f) d = incoming s d := by
  rw [incoming, map_get_modify _ s k d hf, incoming]

theorem destOf_setJmpDest (s : TbStore) (src : Nat) (slot : Slot) (v : Option Nat) (i : Nat)
    (n : Slot) : destOf (s.setJmpDest src slot v) i n =
      if src = i ∧ n = slot then (s.get i).bind (fun _ => v) else destOf s i n := by
  cases htb : s.get i with
  | none => simp [destOf, TbStore.setJmpDest, htb]
  | some tb =>
    by_cases hsi : src = i
    · by_cases hn : n = slot
      · simp [destOf, TbStore.setJmpDest, htb, hsi, hn]
      · simp [destOf, TbStore.setJmpDest, htb, hsi, hn]
    · simp [destOf, TbStore.setJmpDest, htb, hsi]

theorem incoming_setJmpDest (s : TbStore) (src : Nat) (slot : Slot) (v : Option Nat) (d : Nat) :
    incoming (s.setJmpDest src slot v) d = incoming s d := by
  refine incoming_modify s src ?_ d
  intro tb
  rfl

theorem flagOf_setJmpDest (s : TbStore) (src : Nat) (slot : Slot) (v : Option Nat) (i : Nat) :
    flagOf (s.setJmpDest src slot v) i = flagOf s i :=
  map_get_modify _ s src i (fun _ => rfl)

theorem setJmpDest_sameTable (s : TbStore) (src : Nat) (slot : Slot) (v : Option Nat) :
    SameTable s (s.setJmpDest src slot v) :=
  sameTable_modify s src _ (fun _ => rfl)

theorem pushIncoming_sameTable (s : TbStore) (dst src : Nat) (slot : Slot) :
    SameTable s (s.pushIncoming dst src slot) :=
  sameTable_modify s dst _ (fun _ => rfl)

theorem keyOf_setJmpDest (s : TbStore) (src : Nat) (slot : Slot) (v : Option Nat) (i : Nat) :
    keyOf (s.setJmpDest src slot v) i = keyOf s i :=
  map_get_modify _ s src i (fun _ => rfl)

theorem keyOf_pushIncoming (s : TbStore) (dst src : Nat) (slot : Slot) (i : Nat) :
    keyOf (s.pushIncoming dst src slot) i = keyOf s i :=
  map_get_modify _ s dst i (fun _ => rfl)

theorem destOf_pushIncoming (s : TbStore) (dst src : Nat) (slot : Slot) (i : Nat) (n : Slot) :
    destOf (s.pushIncoming dst src slot) i n = destOf s i n := by
  refine destOf_modify s dst ?_ i n
  intro tb
  rfl

theorem incoming_pushIncoming {s : TbStore} {dst : Nat} (hdst : dst < s.tbs.length) (src : Nat)
    (slot : Slot) (d : Nat) : incoming (s.pushIncoming dst src slot) d =
      if d = dst then incoming s d ++ [(src, slot)] else incoming s d := by
  by_cases hd : d = dst
  · subst hd
    obtain ⟨tb, htb⟩ := get_of_lt hdst
    simp [incoming, TbStore.pushIncoming, htb]
  · have hd' : ¬ dst = d := fun h => hd h.symm
    simp [incoming, TbStore.pushIncoming, hd, hd']

theorem flagOf_pushIncoming (s : TbStore) (dst src : Nat) (slot : Slot) (i : Nat) :
    flagOf (s.pushIncoming dst src slot) i = flagOf s i :=
  map_get_modify _ s dst i (fun _ => rfl)

theorem flagOf_clearJmpList (s : TbStore) (k i : Nat) :
    flagOf (s.clearJmpList k) i = flagOf s i :=
  map_get_modify _ s k i (fun _ => rfl)

theorem flagOf_clearJmpDests (s : TbStore) (k i : Nat) :
    flagOf (s.clearJmpDests k) i = flagOf s i :=
  map_get_modify _ s k i (fun _ => rfl)

theorem flagOf_retainIncoming (s : TbStore) (k : Nat) (slot : Slot) (dst i : Nat) :
    flagOf (s.retainIncoming k slot dst) i = flagOf s i :=
  map_get_modify _ s dst i (fun _ => rfl)

theorem flagOf_markInvalid (s : TbStore) (k i : Nat) :
    flagOf (s.markInvalid k) i = (flagOf s i).map (fun b => b || decide (i = k)) := by
  rw [flagOf, flagOf, TbStore.markInvalid, get_modify, Option.map_map, Option.map_map]
  congr 1
  funext tb
  by_cases hik : i = k
  · simp [hik]
  · have hki : ¬ k = i := fun h => hik h.symm
    simp [hik, hki]

theorem incoming_clearJmpList (s : TbStore) (i d : Nat) :
    incoming (s.clearJmpList i) d = if d = i then [] else incoming s d := by
  by_cases hd : d = i
  · subst hd
    cases htb : s.get d with
    | none => simp [incoming, TbStore.clearJmpList, htb]
    | some tb => simp [incoming, TbStore.clearJmpList, htb]
  · have hd' : ¬ i = d := fun h => hd h.symm
    simp [incoming, TbStore.clearJmpList, hd, hd']

theorem destOf_clearJmpDests (s : TbStore) (i j : Nat) (n : Slot) :
    destOf (s.clearJmpDests i) j n = if j = i then none else destOf s j n := by
  by_cases hj : j = i
  · subst hj
    cases htb : s.get j with
    | none => simp [destOf, TbStore.clearJmpDests, htb]
    | some tb => simp [destOf, TbStore.clearJmpDests, htb]
  · have hj' : ¬ i = j := fun h => hj h.symm
    simp [destOf, TbStore.clearJmpDests, hj, hj']

theorem incoming_retainIncoming (s : TbStore) (i : Nat) (slot : Slot) (dst d : Nat) :
    incoming (s.retainIncoming i slot dst) d =
      if d = dst then (incoming s d).filter (fun e => !(e.1 == i && e.2 == slot))
      else incoming s d := by
  by_cases hd : d = dst
  · subst hd
    cases htb : s.get d with
    | none => simp [incoming, TbStore.retainIncoming, htb]
    | some tb => simp [incoming, TbStore.retainIncoming, htb]
  · have hd' : ¬ dst = d := fun h => hd h.symm
    simp [incoming, TbStore.retainIncoming, hd, hd']

/-! ## Resetting a jump -/

/-- A reset sends the jump to the offset just after it and changes no other jump. -/
structure Reset (s : TbStore) (buf buf' : CodeBuffer) (src : Nat) (slot : Slot) : Prop where
  size_eq : buf'.size = buf.size
  offset_eq : buf'.offset = buf.offset
  target : ∀ i n off, jumpSite s i n = some off → jumpTarget buf' off =
    if (i, n) = (src, slot) then ((off + 5 : Nat) : Int) else jumpTarget buf off

theorem resetJump_spec {sh : Shared} (hl : Layout sh) {src : Nat} (slot : Slot)
    {tb : TranslationBlock} (htb : sh.store.get src = some tb) :
    ∃ buf', Shared.resetJump tb sh.buf slot = some buf' ∧
      Reset sh.store sh.buf buf' src slot := by
  cases ho : tb.jmpInsnOffset slot with
  | none =>
    refine ⟨sh.buf, by simp [Shared.resetJump, ho], rfl, rfl, ?_⟩
    intro i n off hsite
    rw [if_neg]
    intro heq
    obtain ⟨rfl, rfl⟩ := Prod.mk.inj heq
    obtain ⟨tb', o, htb', ho', -⟩ := jumpSite_eq_some.mp hsite
    rw [htb] at htb'
    injection htb' with htb'
    rw [← htb', ho] at ho'
    cases ho'
  | some o =>
    obtain ⟨r, hr, hrnat⟩ := hl.reset_eq htb ho
    have hsite : jumpSite sh.store src slot = some o.toNat :=
      jumpSite_eq_some.mpr ⟨tb, o, htb, ho, rfl⟩
    have hlt := hl.site_lt hsite
    obtain ⟨buf', hbuf'⟩ := hl.patchJump_isSome hsite (by omega : r.toNat ≤ sh.buf.offset)
    obtain ⟨hsize, hoff⟩ := patchJump_size_offset hbuf'
    refine ⟨buf', by simp only [Shared.resetJump, ho, hr]; exact hbuf', hsize, hoff, ?_⟩
    intro i n off hsite'
    by_cases heq : (i, n) = (src, slot)
    · obtain ⟨rfl, rfl⟩ := Prod.mk.inj heq
      rw [hsite] at hsite'
      injection hsite' with hsite'
      rw [if_pos rfl, ← hsite', jumpTarget_patchJump hbuf', hrnat]
    · rw [if_neg heq]
      exact jumpTarget_patchJump_of_disjoint hbuf' (hl.sites_apart hsite hsite' (Ne.symm heq))

/-! ## Linking a source -/

/-- `linkSource` on an unlinked slot: the jump goes to `dst`, all others stay. -/
theorem linkSource_spec {sh : Shared} (hl : Layout sh) {src dst : Nat} {slot : Slot}
    {tb tbd : TranslationBlock} {o : BitVec 32} (htb : sh.store.get src = some tb)
    (ho : tb.jmpInsnOffset slot = some o) (htbd : sh.store.get dst = some tbd)
    (hne : tb.jmp.jmpDest slot ≠ some dst) :
    ∃ buf', sh.linkSource src slot dst o.toNat =
        some (⟨sh.store.setJmpDest src slot (some dst), buf'⟩, true) ∧
      buf'.size = sh.buf.size ∧ buf'.offset = sh.buf.offset ∧
      ∀ i n off, jumpSite sh.store i n = some off → jumpTarget buf' off =
        if (i, n) = (src, slot) then (tbd.hostOffset : Int) else jumpTarget sh.buf off := by
  have hsite : jumpSite sh.store src slot = some o.toNat :=
    jumpSite_eq_some.mpr ⟨tb, o, htb, ho, rfl⟩
  have hb := (hl.block dst tbd htbd).below
  obtain ⟨buf', hbuf'⟩ := hl.patchJump_isSome hsite (by omega : tbd.hostOffset ≤ sh.buf.offset)
  obtain ⟨hsize, hoff⟩ := patchJump_size_offset hbuf'
  refine ⟨buf', ?_, hsize, hoff, ?_⟩
  · simp [Shared.linkSource, htb, hne, htbd, hbuf']
  · intro i n off hsite'
    by_cases heq : (i, n) = (src, slot)
    · obtain ⟨rfl, rfl⟩ := Prod.mk.inj heq
      rw [hsite] at hsite'
      injection hsite' with hsite'
      rw [if_pos rfl, ← hsite', jumpTarget_patchJump hbuf']
    · rw [if_neg heq]
      exact jumpTarget_patchJump_of_disjoint hbuf' (hl.sites_apart hsite hsite' (Ne.symm heq))

/-! ## Finding a block -/

theorem cacheHit_answers {sh : Shared} {cache : JumpCache} {pc : BitVec 64} {flags : BitVec 32}
    {i : Nat} (h : cacheHit sh cache pc flags = some (some i)) :
    answers sh.store pc flags i = true := by
  unfold cacheHit at h
  split at h
  · cases h
  · obtain ⟨tb, htb, h⟩ := Option.bind_eq_some_iff.mp h
    split at h
    · next hfor =>
      simp only [Option.pure_def, Option.some.injEq] at h
      subst h
      simp [answers, htb, hfor]
    · cases h

end TcgRs.Analysis.ChainSections
