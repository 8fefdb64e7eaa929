import TcgRs.Analysis.MachineInvariant

/-!
# Chained jumps to invalidated blocks

`tb_add_jump` tests the destination's flag before it takes any lock, and records the incoming
edge after the jump is patched; `invalidate` sets the flag first and takes the list of
incoming edges next.  Every jump and every `jmp_dest` that leads to a block is tracked: by the
block's list, by a thread that is about to add it to the list, or by a thread that is still
working through the list it has taken.  So after `invalidate` nothing leads to the block,
unless the list was taken while an edge to it was on its way.
-/

set_option autoImplicit false

namespace TcgRs.Analysis.ChainRace

open TcgRs.Model TcgRs.Model.X86 TcgRs.Model.Exec
open HashTable JumpPatching CodeLayout ChainSections ThreadSteps MachineInvariant

variable {ι : Type}

/-! ## Tracking -/

/-- The offset lies in the code of the block. -/
def InCode (tb : TranslationBlock) (x : Int) : Prop :=
  (tb.hostOffset : Int) ≤ x ∧ x < tb.hostOffset + tb.hostSize

/-- The edges to `d` whose jumps a thread has still to reset. -/
def toReset (d : Nat) : Phase → List (Nat × Slot)
  | .invReset i edges => if i = d then edges else []
  | .invClear i _ edges => if i = d then edges else []
  | _ => []

/-- The edges to `d` whose `jmp_dest` a thread has still to clear. -/
def toClear (d : Nat) : Phase → List (Nat × Slot)
  | .invReset i edges => if i = d then edges else []
  | .invClear i edge edges => if i = d then edge :: edges else []
  | _ => []

/-- The jump of slot `n` of block `s` is tracked as leading to `d`. -/
def JumpTracked (store : TbStore) (p : Phase) (s : Nat) (n : Slot) (d : Nat) : Prop :=
  (s, n) ∈ incoming store d ∨ p = .addPush s n d ∨ (s, n) ∈ toReset d p

/-- The `jmp_dest` of slot `n` of block `s` is tracked as naming `d`. -/
def DestTracked (store : TbStore) (p : Phase) (s : Nat) (n : Slot) (d : Nat) : Prop :=
  (s, n) ∈ incoming store d ∨ p = .addPush s n d ∨ (s, n) ∈ toClear d p

/-- Everything that leads from a valid block to another block is tracked by some thread. -/
structure TrackInv (m : Machine ι) : Prop where
  dest : ∀ s n d, flagOf m.shared.store s = some false → destOf m.shared.store s n = some d →
    ∃ t, DestTracked m.shared.store (m.phase t) s n d
  jump : ∀ s n d off tbd, flagOf m.shared.store s = some false → s ≠ d →
    jumpSite m.shared.store s n = some off → m.shared.store.get d = some tbd →
    InCode tbd (jumpTarget m.shared.buf off) →
    ∃ t, JumpTracked m.shared.store (m.phase t) s n d
  below : ∀ s n off, jumpSite m.shared.store s n = some off →
    jumpTarget m.shared.buf off < m.shared.buf.offset

/-- What a step of thread `t` owes to the tracking: whatever leads somewhere after it is
tracked by the thread, or led there before and the thread keeps track of it if it did. -/
structure EdgeStep (m : Machine ι) (t : ι) (v : View ι) : Prop where
  flag : ∀ s n, flagOf v.shared.store s = some false →
    (destOf v.shared.store s n).isSome ∨ (jumpSite v.shared.store s n).isSome →
    flagOf m.shared.store s = some false
  dest : ∀ s n d, flagOf v.shared.store s = some false → destOf v.shared.store s n = some d →
    DestTracked v.shared.store v.phase s n d ∨
      destOf m.shared.store s n = some d ∧
      (DestTracked m.shared.store (m.phase t) s n d → DestTracked v.shared.store v.phase s n d)
  jump : ∀ s n d off tbd, flagOf v.shared.store s = some false → s ≠ d →
    jumpSite v.shared.store s n = some off → v.shared.store.get d = some tbd →
    InCode tbd (jumpTarget v.shared.buf off) →
    JumpTracked v.shared.store v.phase s n d ∨
      jumpSite m.shared.store s n = some off ∧
      (∃ tbd₀, m.shared.store.get d = some tbd₀ ∧ InCode tbd₀ (jumpTarget m.shared.buf off)) ∧
      (JumpTracked m.shared.store (m.phase t) s n d → JumpTracked v.shared.store v.phase s n d)
  below : ∀ s n off, jumpSite v.shared.store s n = some off →
    jumpTarget v.shared.buf off < v.shared.buf.offset

theorem TrackInv.of_edgeStep [DecidableEq ι] {m : Machine ι} {t : ι} {v : View ι}
    (hi : TrackInv m) (he : EdgeStep m t v) : TrackInv (m.update t v) := by
  refine ⟨?_, ?_, he.below⟩
  · intro s n d hflag hdest
    rcases he.dest s n d hflag hdest with htr | ⟨hdest', hkeep⟩
    · exact ⟨t, by rw [update_phase_self]; exact htr⟩
    · have hdest'' : (destOf v.shared.store s n).isSome := by
        rw [show destOf v.shared.store s n = some d from hdest]
        rfl
      obtain ⟨u, hu⟩ := hi.dest s n d (he.flag s n hflag (Or.inl hdest'')) hdest'
      rcases hu with hu | hu
      · exact ⟨t, by rw [update_phase_self]; exact hkeep (Or.inl hu)⟩
      · by_cases hut : u = t
        · subst hut
          exact ⟨u, by rw [update_phase_self]; exact hkeep (Or.inr hu)⟩
        · exact ⟨u, by rw [update_phase_of_ne m v hut]; exact Or.inr hu⟩
  · intro s n d off tbd hflag hne hsite htbd hin
    rcases he.jump s n d off tbd hflag hne hsite htbd hin with htr | ⟨hsite', ⟨tbd₀, hd₀, hin₀⟩, hkeep⟩
    · exact ⟨t, by rw [update_phase_self]; exact htr⟩
    · have hsite'' : (jumpSite v.shared.store s n).isSome := by
        rw [show jumpSite v.shared.store s n = some off from hsite]
        rfl
      obtain ⟨u, hu⟩ :=
        hi.jump s n d off tbd₀ (he.flag s n hflag (Or.inr hsite'')) hne hsite' hd₀ hin₀
      rcases hu with hu | hu
      · exact ⟨t, by rw [update_phase_self]; exact hkeep (Or.inl hu)⟩
      · by_cases hut : u = t
        · subst hut
          exact ⟨u, by rw [update_phase_self]; exact hkeep (Or.inr hu)⟩
        · exact ⟨u, by rw [update_phase_of_ne m v hut]; exact Or.inr hu⟩

/-! ## Steps that move no edge -/

/-- A phase in which a thread tracks nothing. -/
def tracksNothing : Phase → Bool
  | .addPush _ _ _ => false
  | .invReset _ (_ :: _) => false
  | .invClear _ _ _ => false
  | _ => true

theorem incoming_of_jumpTracked {store : TbStore} {p : Phase} (hp : tracksNothing p = true)
    {s : Nat} {n : Slot} {d : Nat} (h : JumpTracked store p s n d) : (s, n) ∈ incoming store d := by
  rcases h with h | rfl | h
  · exact h
  · cases hp
  · cases p with
    | invReset i edges =>
      cases edges with
      | nil => simp [toReset] at h
      | cons e l => cases hp
    | invClear i e l => cases hp
    | _ => cases h

theorem incoming_of_destTracked {store : TbStore} {p : Phase} (hp : tracksNothing p = true)
    {s : Nat} {n : Slot} {d : Nat} (h : DestTracked store p s n d) : (s, n) ∈ incoming store d := by
  rcases h with h | rfl | h
  · exact h
  · cases hp
  · cases p with
    | invReset i edges =>
      cases edges with
      | nil => simp [toClear] at h
      | cons e l => cases hp
    | invClear i e l => cases hp
    | _ => cases h

theorem inCode_of_placement {s s' : TbStore} (hp : SamePlacement s s') {d : Nat}
    {tbd : TranslationBlock} {x : Int} (h : s'.get d = some tbd) (hin : InCode tbd x) :
    ∃ tbd₀, s.get d = some tbd₀ ∧ InCode tbd₀ x := by
  obtain ⟨tbd₀, hget, hpl⟩ := hp.get h
  simp only [placement, Prod.mk.injEq] at hpl
  refine ⟨tbd₀, hget, ?_⟩
  unfold InCode at hin ⊢
  rw [← hpl.1, ← hpl.2.1]
  exact hin

/-- A step that writes no edge, moves no code and starts in a phase that tracks nothing. -/
theorem edgeStep_frame {m : Machine ι} {t : ι} {v : View ι} (hi : TrackInv m)
    (hp : SamePlacement m.shared.store v.shared.store) (hbuf : v.shared.buf = m.shared.buf)
    (hflag : ∀ s, flagOf v.shared.store s = some false → flagOf m.shared.store s = some false)
    (hdest : ∀ s n d, destOf v.shared.store s n = some d → destOf m.shared.store s n = some d)
    (hinc : ∀ d, incoming v.shared.store d = incoming m.shared.store d)
    (hphase : tracksNothing (m.phase t) = true) : EdgeStep m t v := by
  refine ⟨fun s n hf _ => hflag s hf, ?_, ?_, ?_⟩
  · intro s n d _ hd
    refine Or.inr ⟨hdest s n d hd, fun htr => Or.inl ?_⟩
    rw [hinc]
    exact incoming_of_destTracked hphase htr
  · intro s n d off tbd _ _ hsite htbd hin
    rw [hbuf] at hin
    refine Or.inr ⟨by rw [← hp.jumpSite_eq]; exact hsite, inCode_of_placement hp htbd hin, fun htr => Or.inl ?_⟩
    rw [hinc]
    exact incoming_of_jumpTracked hphase htr
  · intro s n off hsite
    rw [hbuf]
    exact hi.below s n off (by rw [← hp.jumpSite_eq]; exact hsite)

theorem edgeStep_quiet {m : Machine ι} {t : ι} {v : View ι} (hi : TrackInv m)
    (hsh : v.shared = m.shared) (hphase : tracksNothing (m.phase t) = true) : EdgeStep m t v := by
  refine edgeStep_frame hi ?_ (by rw [hsh]) ?_ ?_ ?_ hphase
  · rw [hsh]
    exact SamePlacement.refl _
  · rw [hsh]
    exact fun _ h => h
  · rw [hsh]
    exact fun _ _ _ h => h
  · rw [hsh]
    exact fun _ => rfl

/-- Views of the edges that the hash table operations leave alone. -/
theorem edgeStep_core {m : Machine ι} {t : ι} {v : View ι} (hi : TrackInv m)
    (hcore : SameCore m.shared.store v.shared.store) (hbuf : v.shared.buf = m.shared.buf)
    (hphase : tracksNothing (m.phase t) = true) : EdgeStep m t v := by
  have hjmp := hcore.map_get (fun tb => tb.jmp) (fun _ => rfl)
  refine edgeStep_frame hi (samePlacement_of_sameCore hcore) hbuf ?_ ?_ ?_ hphase
  · intro s hf
    rw [flagOf, hcore.map_get _ (fun _ => rfl)] at hf
    exact hf
  · intro s n d hd
    have hb := congrArg (fun o => o.bind (fun j => j.jmpDest n)) (hjmp s)
    simp only [Option.bind_map, Function.comp_def] at hb
    exact hb.symm.trans hd
  · intro d
    rw [incoming, incoming, hcore.map_get (fun tb => tb.jmp.jmpList) (fun _ => rfl)]

theorem edgeStep_mark {m : Machine ι} {t : ι} {v : View ι} (hi : TrackInv m) {i : Nat}
    (hv : v.shared = { m.shared with store := m.shared.store.markInvalid i })
    (hphase : tracksNothing (m.phase t) = true) : EdgeStep m t v := by
  have hstore : v.shared.store = m.shared.store.markInvalid i := by rw [hv]
  refine edgeStep_frame hi ?_ (by rw [hv]) ?_ ?_ ?_ hphase
  · rw [hstore]
    exact markInvalid_placement _ _
  · intro s hf
    rw [hstore, flagOf_markInvalid, Option.map_eq_some_iff] at hf
    obtain ⟨b, hb, hor⟩ := hf
    rw [Bool.or_eq_false_iff] at hor
    rw [hb, hor.1]
  · intro s n d hd
    rw [hstore] at hd
    refine (destOf_modify m.shared.store i ?_ s n).symm.trans hd
    intro tb
    rfl
  · intro d
    rw [hstore]
    refine incoming_modify m.shared.store i ?_ d
    intro tb
    rfl

/-- A new block leads nowhere and nothing leads to it. -/
theorem edgeStep_alloc {m : Machine ι} {t : ι} {v : View ι} (hi : TrackInv m) {pc : BitVec 64}
    {flags : BitVec 32} {store : TbStore} {k : Nat}
    (h : m.shared.store.alloc pc flags 0 = some (store, k))
    (hv : v.shared = { m.shared with store := store })
    (hphase : tracksNothing (m.phase t) = true) : EdgeStep m t v := by
  obtain ⟨hk, -, -⟩ := alloc_eq_some h
  have hstore : v.shared.store = store := by rw [hv]
  have hbuf : v.shared.buf = m.shared.buf := by rw [hv]
  have hnew : store.get k = some (TranslationBlock.new pc flags 0) := by
    rw [get_alloc h, if_pos hk]
  have hold : ∀ j, j ≠ k → store.get j = m.shared.store.get j := by
    intro j hj
    rw [get_alloc h, if_neg (by omega)]
  have hnone : m.shared.store.get k = none := List.getElem?_eq_none hk.ge
  have hdest : ∀ s n, destOf store s n = destOf m.shared.store s n := by
    intro s n
    by_cases hs : s = k
    · rw [hs, destOf, hnew, destOf, hnone]
      rfl
    · rw [destOf, hold s hs, destOf]
  have hinc : ∀ d, incoming store d = incoming m.shared.store d := by
    intro d
    by_cases hd : d = k
    · rw [hd, incoming, hnew, incoming, hnone]
      rfl
    · rw [incoming, hold d hd, incoming]
  have hsite : ∀ s n, jumpSite store s n = jumpSite m.shared.store s n := by
    intro s n
    by_cases hs : s = k
    · rw [hs, jumpSite, hnew, jumpSite, hnone]
      rfl
    · rw [jumpSite, hold s hs, jumpSite]
  refine ⟨?_, ?_, ?_, ?_⟩
  · intro s n hf hsome
    rw [hstore] at hf hsome
    by_cases hs : s = k
    · rw [hdest, hsite, hs, destOf, jumpSite, hnone] at hsome
      simp at hsome
    · rw [flagOf, hold s hs] at hf
      exact hf
  · intro s n d _ hd
    rw [hstore] at hd ⊢
    refine Or.inr ⟨by rw [← hdest]; exact hd, fun htr => Or.inl ?_⟩
    rw [hinc]
    exact incoming_of_destTracked hphase htr
  · intro s n d off tbd _ _ hs htbd hin
    rw [hstore] at hs htbd ⊢
    rw [hbuf] at hin
    have hdk : d ≠ k := by
      rintro rfl
      rw [hnew] at htbd
      injection htbd with htbd
      rw [← htbd] at hin
      unfold InCode at hin
      simp only [TranslationBlock.new] at hin
      omega
    rw [hold d hdk] at htbd
    refine Or.inr ⟨by rw [← hsite]; exact hs, ⟨tbd, htbd, hin⟩, fun htr => Or.inl ?_⟩
    rw [hinc]
    exact incoming_of_jumpTracked hphase htr
  · intro s n off hs
    rw [hstore, hsite] at hs
    rw [hbuf]
    exact hi.below s n off hs

/-- The new code is beyond every jump, and its own jumps stay inside it. -/
theorem edgeStep_emit {m : Machine ι} {t : ι} {v : View ι} (hi : TrackInv m) (hc : CodeInv m)
    {k : Nat} {tb : TranslationBlock} (htb : m.shared.store.get k = some tb) (hem : Emitted m.shared v.shared k)
    (hphase : tracksNothing (m.phase t) = true) : EdgeStep m t v := by
  have hjmp := hem.map_get (fun tb => tb.jmp) (fun _ _ _ _ _ _ => rfl)
  have hflag : ∀ s, flagOf v.shared.store s = flagOf m.shared.store s :=
    hem.map_get _ (fun _ _ _ _ _ _ => rfl)
  have hdest : ∀ s n, destOf v.shared.store s n = destOf m.shared.store s n := by
    intro s n
    have hb := congrArg (fun o => o.bind (fun j => j.jmpDest n)) (hjmp s)
    simpa [destOf, Option.bind_map, Function.comp_def] using hb
  have hinc : ∀ d, incoming v.shared.store d = incoming m.shared.store d := by
    intro d
    rw [incoming, incoming, hem.map_get (fun tb => tb.jmp.jmpList) (fun _ _ _ _ _ _ => rfl)]
  have hold : ∀ s n off, s ≠ k → jumpSite v.shared.store s n = some off →
      jumpSite m.shared.store s n = some off ∧
        jumpTarget v.shared.buf off = jumpTarget m.shared.buf off := by
    intro s n off hs hsite
    rw [jumpSite, hem.others s hs] at hsite
    exact ⟨hsite, hem.old_jumps off (hc.layout.site_lt hsite).le⟩
  have hgrow := hem.grows
  refine ⟨fun s n hf _ => by rw [← hflag]; exact hf, ?_, ?_, ?_⟩
  · intro s n d _ hd
    refine Or.inr ⟨by rw [← hdest]; exact hd, fun htr => Or.inl ?_⟩
    rw [hinc]
    exact incoming_of_destTracked hphase htr
  · intro s n d off tbd _ hne hsite htbd hin
    by_cases hs : s = k
    · -- a jump of the new code goes to the offset after it, inside the new code
      subst hs
      obtain ⟨hge, htgt⟩ := hem.new_jumps n off hsite
      obtain ⟨tbs, o, htbs, ho, hoff⟩ := jumpSite_eq_some.mp hsite
      have hb := (hem.layout.block s tbs htbs).jump n o ho
      have hapart := hem.layout.apart s d tbs tbd hne htbs htbd
      rw [htgt] at hin
      unfold InCode at hin
      unfold Apart at hapart
      omega
    · obtain ⟨hsite₀, htgt⟩ := hold s n off hs hsite
      have hbelow := hi.below s n off hsite₀
      have hdk : d ≠ k := by
        rintro rfl
        obtain ⟨size, a, b, hfill⟩ := hem.filled tb htb
        rw [hfill] at htbd
        injection htbd with htbd
        rw [← htbd, htgt] at hin
        unfold InCode at hin
        simp only at hin
        omega
      rw [hem.others d hdk] at htbd
      rw [htgt] at hin
      refine Or.inr ⟨hsite₀, ⟨tbd, htbd, hin⟩, fun htr => Or.inl ?_⟩
      rw [hinc]
      exact incoming_of_jumpTracked hphase htr
  · intro s n off hsite
    by_cases hs : s = k
    · subst hs
      have hlt := hem.layout.site_lt hsite
      rw [(hem.new_jumps n off hsite).2]
      omega
    · obtain ⟨hsite₀, htgt⟩ := hold s n off hs hsite
      have := hi.below s n off hsite₀
      rw [htgt]
      omega

/-! ## Steps that move an edge -/

/-- The jump now leads to `dst`, and the thread is about to record it there. -/
theorem edgeStep_linkNew {m : Machine ι} {t : ι} {v : View ι} (hi : TrackInv m) (hc : CodeInv m)
    {src dst off : Nat} {slot : Slot} {dstTb : TranslationBlock} {buf : CodeBuffer}
    (hphase : m.phase t = .addLink src slot dst off)
    (hdst : m.shared.store.get dst = some dstTb)
    (hpatch : patchJump m.shared.buf off dstTb.hostOffset = some buf)
    (hv : v.shared = ⟨m.shared.store.setJmpDest src slot (some dst), buf⟩)
    (hvp : v.phase = .addPush src slot dst) : EdgeStep m t v := by
  have hsite := hc.site t src slot dst off hphase
  have hp := setJmpDest_placement m.shared.store src slot (some dst)
  have hnothing : tracksNothing (m.phase t) = true := by rw [hphase]; rfl
  obtain ⟨-, hoff⟩ := patchJump_size_offset hpatch
  have htgt : ∀ s n o, jumpSite m.shared.store s n = some o → (s, n) ≠ (src, slot) →
      jumpTarget buf o = jumpTarget m.shared.buf o := by
    intro s n o ho hne
    exact jumpTarget_patchJump_of_disjoint hpatch (hc.layout.sites_apart hsite ho (Ne.symm hne))
  obtain ⟨shared, lock, cache, phase⟩ := v
  simp only at hv hvp
  subst hv hvp
  refine ⟨?_, ?_, ?_, ?_⟩
  · intro s n hf _
    rw [flagOf_setJmpDest] at hf
    exact hf
  · intro s n d _ hd
    rw [destOf_setJmpDest] at hd
    split at hd
    · next heq =>
      obtain ⟨rfl, rfl⟩ := heq
      obtain ⟨-, -, hd⟩ := Option.bind_eq_some_iff.mp hd
      injection hd with hd
      exact Or.inl (Or.inr (Or.inl (by rw [hd])))
    · refine Or.inr ⟨hd, fun htr => Or.inl ?_⟩
      rw [incoming_setJmpDest]
      exact incoming_of_destTracked hnothing htr
  · intro s n d o tbd _ hne hs htbd hin
    rw [hp.jumpSite_eq] at hs
    obtain ⟨tbd₀, htbd₀, hin₀⟩ := inCode_of_placement hp htbd hin
    by_cases heq : (s, n) = (src, slot)
    · obtain ⟨rfl, rfl⟩ := Prod.mk.inj heq
      rw [hsite] at hs
      injection hs with hs
      subst hs
      rw [jumpTarget_patchJump hpatch] at hin₀
      -- the start of the destination's code belongs to no other block
      have hd : d = dst := by
        by_contra hd
        have hapart := hc.layout.apart d dst tbd₀ dstTb hd htbd₀ hdst
        have hpos := (hc.layout.block dst dstTb hdst).pos
        have hpos₀ := (hc.layout.block d tbd₀ htbd₀).pos
        unfold InCode at hin₀
        unfold Apart at hapart
        omega
      exact Or.inl (Or.inr (Or.inl (by rw [hd])))
    · rw [htgt s n o hs heq] at hin₀
      refine Or.inr ⟨hs, ⟨tbd₀, htbd₀, hin₀⟩, fun htr => Or.inl ?_⟩
      rw [incoming_setJmpDest]
      exact incoming_of_jumpTracked hnothing htr
  · intro s n o hs
    rw [hp.jumpSite_eq] at hs
    by_cases heq : (s, n) = (src, slot)
    · obtain ⟨rfl, rfl⟩ := Prod.mk.inj heq
      rw [hsite] at hs
      injection hs with hs
      subst hs
      have hb := hc.layout.block dst dstTb hdst
      have hbelow := hb.below
      have hpos := hb.pos
      have hoffpos := hc.layout.offset_pos
      rw [jumpTarget_patchJump hpatch, hoff]
      omega
    · rw [htgt s n o hs heq, hoff]
      exact hi.below s n o hs

/-- The edge the thread was about to record is in the list. -/
theorem edgeStep_push {m : Machine ι} {t : ι} {v : View ι} (hi : TrackInv m) {src dst : Nat}
    {slot : Slot} (hphase : m.phase t = .addPush src slot dst)
    (hdst : dst < m.shared.store.tbs.length)
    (hv : v.shared = { m.shared with store := m.shared.store.pushIncoming dst src slot }) :
    EdgeStep m t v := by
  have hp := pushIncoming_placement m.shared.store dst src slot
  obtain ⟨shared, lock, cache, phase⟩ := v
  simp only at hv
  subst hv
  have hmem : ∀ s n d, (s, n) ∈ incoming m.shared.store d ∨ m.phase t = .addPush s n d →
      (s, n) ∈ incoming (m.shared.store.pushIncoming dst src slot) d := by
    intro s n d h
    rw [incoming_pushIncoming hdst]
    rcases h with h | h
    · split
      · exact List.mem_append_left _ h
      · exact h
    · rw [hphase] at h
      injection h with h1 h2 h3
      subst h1 h2 h3
      rw [if_pos rfl]
      exact List.mem_append_right _ List.mem_cons_self
  refine ⟨?_, ?_, ?_, ?_⟩
  · intro s n hf _
    rw [flagOf_pushIncoming] at hf
    exact hf
  · intro s n d _ hd
    rw [destOf_pushIncoming] at hd
    refine Or.inr ⟨hd, fun htr => Or.inl (hmem s n d ?_)⟩
    rcases htr with h | h | h
    · exact Or.inl h
    · exact Or.inr h
    · rw [hphase] at h
      cases h
  · intro s n d off tbd _ _ hs htbd hin
    rw [hp.jumpSite_eq] at hs
    refine Or.inr ⟨hs, inCode_of_placement hp htbd hin, fun htr => Or.inl (hmem s n d ?_)⟩
    rcases htr with h | h | h
    · exact Or.inl h
    · exact Or.inr h
    · rw [hphase] at h
      cases h
  · intro s n off hs
    rw [hp.jumpSite_eq] at hs
    exact hi.below s n off hs

/-- The thread takes over the tracking of every edge in the list. -/
theorem edgeStep_take {m : Machine ι} {t : ι} {v : View ι} (hi : TrackInv m) {i : Nat}
    {tb : TranslationBlock} (hphase : m.phase t = .invTake i)
    (htb : m.shared.store.get i = some tb)
    (hv : v.shared = { m.shared with store := m.shared.store.clearJmpList i })
    (hvp : v.phase = .invReset i tb.jmp.jmpList) : EdgeStep m t v := by
  have hp := clearJmpList_placement m.shared.store i
  have hnothing : tracksNothing (m.phase t) = true := by rw [hphase]; rfl
  obtain ⟨shared, lock, cache, phase⟩ := v
  simp only at hv hvp
  subst hv hvp
  have hmem : ∀ s n d, (s, n) ∈ incoming m.shared.store d →
      (s, n) ∈ incoming (m.shared.store.clearJmpList i) d ∨
        (i = d ∧ (s, n) ∈ tb.jmp.jmpList) := by
    intro s n d h
    rw [incoming_clearJmpList]
    by_cases hd : d = i
    · subst hd
      rw [incoming_of_get htb] at h
      exact Or.inr ⟨rfl, h⟩
    · rw [if_neg hd]
      exact Or.inl h
  refine ⟨?_, ?_, ?_, ?_⟩
  · intro s n hf _
    rw [flagOf_clearJmpList] at hf
    exact hf
  · intro s n d _ hd
    have hdest : destOf (m.shared.store.clearJmpList i) s n = destOf m.shared.store s n := by
      refine destOf_modify m.shared.store i ?_ s n
      intro tb
      rfl
    rw [hdest] at hd
    refine Or.inr ⟨hd, fun htr => ?_⟩
    rcases hmem s n d (incoming_of_destTracked hnothing htr) with h | ⟨rfl, h⟩
    · exact Or.inl h
    · exact Or.inr (Or.inr (by simpa [toClear] using h))
  · intro s n d off tbd _ _ hs htbd hin
    rw [hp.jumpSite_eq] at hs
    refine Or.inr ⟨hs, inCode_of_placement hp htbd hin, fun htr => ?_⟩
    rcases hmem s n d (incoming_of_jumpTracked hnothing htr) with h | ⟨rfl, h⟩
    · exact Or.inl h
    · exact Or.inr (Or.inr (by simpa [toReset] using h))
  · intro s n off hs
    rw [hp.jumpSite_eq] at hs
    exact hi.below s n off hs

/-- The jump no longer leads to the block; its `jmp_dest` still may. -/
theorem edgeStep_reset {m : Machine ι} {t : ι} {v : View ι} (hi : TrackInv m) (hc : CodeInv m)
    {i : Nat} {edge : Nat × Slot} {edges : List (Nat × Slot)} {src : TranslationBlock}
    {buf : CodeBuffer} (hphase : m.phase t = .invReset i (edge :: edges))
    (hsrc : m.shared.store.get edge.1 = some src)
    (hbuf : Shared.resetJump src m.shared.buf edge.2 = some buf)
    (hv : v.shared = { m.shared with buf := buf }) (hvp : v.phase = .invClear i edge edges) :
    EdgeStep m t v := by
  obtain ⟨buf', hbuf', hreset⟩ := resetJump_spec hc.layout edge.2 hsrc
  rw [hbuf] at hbuf'
  injection hbuf' with hbuf'
  subst hbuf'
  obtain ⟨shared, lock, cache, phase⟩ := v
  simp only at hv hvp
  subst hv hvp
  refine ⟨fun s n hf _ => hf, ?_, ?_, ?_⟩
  · intro s n d _ hd
    refine Or.inr ⟨hd, fun htr => ?_⟩
    rcases htr with h | h | h
    · exact Or.inl h
    · rw [hphase] at h
      cases h
    · rw [hphase] at h
      exact Or.inr (Or.inr h)
  · intro s n d off tbd _ hne hs htbd hin
    have htgt := hreset.target s n off hs
    by_cases heq : (s, n) = (edge.1, edge.2)
    · -- the offset after the jump lies in the source's own code
      rw [if_pos heq] at htgt
      obtain ⟨tbs, o, htbs, ho, hoff⟩ := jumpSite_eq_some.mp hs
      have hb := (hc.layout.block s tbs htbs).jump n o ho
      have hapart := hc.layout.apart s d tbs tbd hne htbs htbd
      rw [htgt] at hin
      unfold InCode at hin
      unfold Apart at hapart
      omega
    · rw [if_neg heq] at htgt
      rw [htgt] at hin
      refine Or.inr ⟨hs, ⟨tbd, htbd, hin⟩, fun htr => ?_⟩
      rcases htr with h | h | h
      · exact Or.inl h
      · rw [hphase] at h
        cases h
      · rw [hphase] at h
        refine Or.inr (Or.inr ?_)
        simp only [toReset] at h ⊢
        split at h
        · next hid =>
          rw [if_pos hid]
          rcases List.mem_cons.mp h with h | h
          · exact absurd h heq
          · exact h
        · cases h
  · intro s n off hs
    have hlt := hc.layout.site_lt hs
    rw [hreset.target s n off hs, hreset.offset_eq]
    split
    · omega
    · exact hi.below s n off hs

/-- The slot names nothing any more. -/
theorem edgeStep_clear {m : Machine ι} {t : ι} {v : View ι} (hi : TrackInv m) {i : Nat}
    {edge : Nat × Slot} {edges : List (Nat × Slot)}
    (hphase : m.phase t = .invClear i edge edges)
    (hv : v.shared = { m.shared with store := m.shared.store.setJmpDest edge.1 edge.2 none })
    (hvp : v.phase = .invReset i edges) : EdgeStep m t v := by
  have hp := setJmpDest_placement m.shared.store edge.1 edge.2 none
  obtain ⟨shared, lock, cache, phase⟩ := v
  simp only at hv hvp
  subst hv hvp
  refine ⟨?_, ?_, ?_, ?_⟩
  · intro s n hf _
    rw [flagOf_setJmpDest] at hf
    exact hf
  · intro s n d _ hd
    rw [destOf_setJmpDest] at hd
    split at hd
    · obtain ⟨-, -, hd⟩ := Option.bind_eq_some_iff.mp hd
      cases hd
    · next hne =>
      refine Or.inr ⟨hd, fun htr => ?_⟩
      rcases htr with h | h | h
      · exact Or.inl (by rw [incoming_setJmpDest]; exact h)
      · rw [hphase] at h
        cases h
      · rw [hphase] at h
        refine Or.inr (Or.inr ?_)
        simp only [toClear] at h ⊢
        split at h
        · next hid =>
          rw [if_pos hid]
          rcases List.mem_cons.mp h with h | h
          · exact absurd ⟨(congrArg Prod.fst h).symm, congrArg Prod.snd h⟩ hne
          · exact h
        · cases h
  · intro s n d off tbd _ _ hs htbd hin
    rw [hp.jumpSite_eq] at hs
    refine Or.inr ⟨hs, inCode_of_placement hp htbd hin, fun htr => ?_⟩
    rcases htr with h | h | h
    · exact Or.inl (by rw [incoming_setJmpDest]; exact h)
    · rw [hphase] at h
      cases h
    · rw [hphase] at h
      exact Or.inr (Or.inr h)
  · intro s n off hs
    rw [hp.jumpSite_eq] at hs
    exact hi.below s n off hs

theorem edgeStep_takeOut {m : Machine ι} {t : ι} {v : View ι} (hi : TrackInv m) {i : Nat}
    (hphase : m.phase t = .invReset i [])
    (hv : v.shared = { m.shared with store := m.shared.store.clearJmpDests i }) :
    EdgeStep m t v := by
  have hstore : v.shared.store = m.shared.store.clearJmpDests i := by rw [hv]
  refine edgeStep_frame hi ?_ (by rw [hv]) ?_ ?_ ?_ (by rw [hphase]; rfl)
  · rw [hstore]
    exact clearJmpDests_placement _ _
  · intro s hf
    rw [hstore, flagOf_clearJmpDests] at hf
    exact hf
  · intro s n d hd
    rw [hstore, destOf_clearJmpDests] at hd
    split at hd
    · cases hd
    · exact hd
  · intro d
    rw [hstore]
    refine incoming_modify m.shared.store i ?_ d
    intro tb
    rfl

/-- The removed edges start in a block that is not valid. -/
theorem edgeStep_retain {m : Machine ι} {t : ι} {v : View ι} (hi : TrackInv m) {i : Nat}
    {p : Slot × Nat} {out : List (Slot × Nat)} (hphase : m.phase t = .invRetain i (p :: out))
    (hflag : flagOf m.shared.store i = some true)
    (hv : v.shared = { m.shared with store := m.shared.store.retainIncoming i p.1 p.2 }) :
    EdgeStep m t v := by
  have hp := retainIncoming_placement m.shared.store i p.1 p.2
  have hnothing : tracksNothing (m.phase t) = true := by rw [hphase]; rfl
  obtain ⟨shared, lock, cache, phase⟩ := v
  simp only at hv
  subst hv
  have hmem : ∀ s n d, flagOf (m.shared.store.retainIncoming i p.1 p.2) s = some false →
      (s, n) ∈ incoming m.shared.store d →
      (s, n) ∈ incoming (m.shared.store.retainIncoming i p.1 p.2) d := by
    intro s n d hf h
    have hsi : s ≠ i := by
      rintro rfl
      rw [flagOf_retainIncoming, hflag] at hf
      cases hf
    rw [incoming_retainIncoming]
    split
    · exact List.mem_filter.mpr ⟨h, by simp [hsi]⟩
    · exact h
  refine ⟨?_, ?_, ?_, ?_⟩
  · intro s n hf _
    rw [flagOf_retainIncoming] at hf
    exact hf
  · intro s n d hf hd
    have hdest : destOf (m.shared.store.retainIncoming i p.1 p.2) s n =
        destOf m.shared.store s n := by
      refine destOf_modify m.shared.store p.2 ?_ s n
      intro tb
      rfl
    rw [hdest] at hd
    refine Or.inr ⟨hd, fun htr => Or.inl (hmem s n d hf ?_)⟩
    exact incoming_of_destTracked hnothing htr
  · intro s n d off tbd hf _ hs htbd hin
    rw [hp.jumpSite_eq] at hs
    refine Or.inr ⟨hs, inCode_of_placement hp htbd hin, fun htr => Or.inl (hmem s n d hf ?_)⟩
    exact incoming_of_jumpTracked hnothing htr
  · intro s n off hs
    rw [hp.jumpSite_eq] at hs
    exact hi.below s n off hs

/-! ## The invariants over a run -/

theorem flagOf_of_sameCore {s s' : TbStore} (h : SameCore s s') (i : Nat) :
    flagOf s' i = flagOf s i :=
  h.map_get _ (fun _ => rfl) i

/-- A step keeps the flag of a block, or is the step that sets it, or makes the block. -/
theorem flag_step {gen : CodeGen} {m : Machine ι} {t : ι} {v : View ι} (hc : CodeInv m)
    (h : ThreadStep gen t (m.view t) v) (i : Nat) :
    flagOf v.shared.store i = flagOf m.shared.store i ∨
      (v.phase = .invTake i ∧ flagOf v.shared.store i = some true) ∨
      (flagOf m.shared.store i = none ∧ flagOf v.shared.store i = some false) := by
  generalize hw : m.view t = w at h
  have hsh : m.shared = w.shared := congrArg View.shared hw
  have hphase : m.phase t = w.phase := congrArg View.phase hw
  cases h with
  | @alloc sh lock cache pc flags store k h =>
    obtain ⟨hk, -, -⟩ := alloc_eq_some h
    have hget := get_alloc h i
    simp only [flagOf, hsh]
    rw [hget]
    split
    · next hik =>
      have hnone : sh.store.get i = none := List.getElem?_eq_none (by omega)
      exact Or.inr (Or.inr ⟨by rw [hnone]; rfl, rfl⟩)
    · exact Or.inl rfl
  | @emit sh sh' lock cache pc flags k tr h =>
    have hem := hc.emitted hphase hsh h
    exact Or.inl (hem.map_get _ (fun _ _ _ _ _ _ => rfl) i)
  | @mark sh lock cache k tb htb =>
    simp only [hsh]
    by_cases hik : i = k
    · subst hik
      rw [flagOf_markInvalid, flagOf_of_get htb]
      simp
    · rw [flagOf_markInvalid]
      simp [hik]
  | insert h => exact Or.inl (by rw [hsh, flagOf_of_sameCore (insert_sameCore h)])
  | remove h => exact Or.inl (by rw [hsh, flagOf_of_sameCore (hashRemove_sameCore h)])
  | linkNew hsrc hdst hpatch => exact Or.inl (by rw [hsh, flagOf_setJmpDest])
  | push hdst => exact Or.inl (by rw [hsh, flagOf_pushIncoming])
  | clear => exact Or.inl (by rw [hsh, flagOf_setJmpDest])
  | take htb => exact Or.inl (by rw [hsh, flagOf_clearJmpList])
  | takeOut htb => exact Or.inl (by rw [hsh, flagOf_clearJmpDests])
  | retain => exact Or.inl (by rw [hsh, flagOf_retainIncoming])
  | _ => exact Or.inl (by rw [hsh])

theorem flag_kept {gen : CodeGen} {m : Machine ι} {t : ι} {v : View ι} (hc : CodeInv m)
    (h : ThreadStep gen t (m.view t) v) {i : Nat} (hf : flagOf m.shared.store i = some true) :
    flagOf v.shared.store i = some true := by
  rcases flag_step hc h i with heq | ⟨-, hset⟩ | ⟨hnone, -⟩
  · exact heq.trans hf
  · exact hset
  · rw [hnone] at hf
    cases hf

/-- The block whose flag the thread's `invalidate` call has set. -/
def marks : Phase → Option Nat
  | .invTake i | .invReset i _ | .invClear i _ _ | .invRetain i _ => some i
  | _ => none

/-- Every block that a call has marked has its flag set. -/
def MarkInv (m : Machine ι) : Prop :=
  ∀ t i, marks (m.phase t) = some i → flagOf m.shared.store i = some true

theorem marks_step {gen : CodeGen} {t : ι} {v v' : View ι} (h : ThreadStep gen t v v') {i : Nat}
    (hm : marks v'.phase = some i) :
    marks v.phase = some i ∨ flagOf v'.shared.store i = some true := by
  cases h with
  | mark htb =>
    injection hm with hm
    subst hm
    refine Or.inr ?_
    simp only
    rw [flagOf_markInvalid, flagOf_of_get htb]
    simp
  | take htb => exact Or.inl hm
  | reset hsrc hbuf => exact Or.inl hm
  | clear => exact Or.inl hm
  | takeOut htb => exact Or.inl hm
  | retain => exact Or.inl hm
  | _ => cases hm

theorem MarkInv.step [DecidableEq ι] {gen : CodeGen} {m : Machine ι} {t : ι} {v : View ι} (hi : MarkInv m)
    (hc : CodeInv m) (h : ThreadStep gen t (m.view t) v) : MarkInv (m.update t v) := by
  intro u i hu
  by_cases hut : u = t
  · subst hut
    rw [update_phase_self] at hu
    rcases marks_step h hu with hold | hnow
    · exact flag_kept hc h (hi u i hold)
    · exact hnow
  · rw [update_phase_of_ne m v hut] at hu
    exact flag_kept hc h (hi u i hu)

theorem edgeStep_of_step {gen : CodeGen} {m : Machine ι} {t : ι} {v : View ι} (hi : TrackInv m)
    (hc : CodeInv m) (hm : MarkInv m) (h : ThreadStep gen t (m.view t) v) : EdgeStep m t v := by
  generalize hw : m.view t = w at h
  have hsh : m.shared = w.shared := congrArg View.shared hw
  have hphase : m.phase t = w.phase := congrArg View.phase hw
  cases h with
  | alloc h => exact edgeStep_alloc hi (by rw [hsh]; exact h) (by rw [hsh]) (by rw [hphase]; rfl)
  | emit h =>
    obtain ⟨tb, htb, -⟩ := hc.emitting t _ _ _ hphase
    exact edgeStep_emit hi hc htb (hc.emitted hphase hsh h) (by rw [hphase]; rfl)
  | insert h =>
    refine edgeStep_core hi ?_ (by rw [hsh]) (by rw [hphase]; rfl)
    rw [hsh]
    exact insert_sameCore h
  | remove h =>
    refine edgeStep_core hi ?_ (by rw [hsh]) (by rw [hphase]; rfl)
    rw [hsh]
    exact hashRemove_sameCore h
  | linkNew hsrc hdst hpatch =>
    exact edgeStep_linkNew hi hc hphase (by rw [hsh]; exact hdst) (by rw [hsh]; exact hpatch)
      (by rw [hsh]) rfl
  | push hdst =>
    refine edgeStep_push hi hphase ?_ (by rw [hsh])
    rw [hsh]
    exact get_eq_some_lt hdst
  | mark htb => exact edgeStep_mark hi (by rw [hsh]) (by rw [hphase]; rfl)
  | take htb => exact edgeStep_take hi hphase (by rw [hsh]; exact htb) (by rw [hsh]) rfl
  | reset hsrc hbuf =>
    exact edgeStep_reset hi hc hphase (by rw [hsh]; exact hsrc) (by rw [hsh]; exact hbuf)
      (by rw [hsh]) rfl
  | clear => exact edgeStep_clear hi hphase (by rw [hsh]) rfl
  | takeOut htb => exact edgeStep_takeOut hi hphase (by rw [hsh])
  | retain =>
    have hflag := hm t _ (by rw [hphase]; rfl)
    exact edgeStep_retain hi hphase hflag (by rw [hsh])
  | _ => exact edgeStep_quiet hi hsh.symm (by rw [hphase]; rfl)

/-! ## Late records -/

/-- A record of an edge to a block comes in time: the block is still valid, or some call that
invalidates it has still to take its list, or the edge starts in a block that is not valid. -/
def RecordInTime (m : Machine ι) (t : ι) : Prop :=
  ∀ src slot dst, m.phase t = .addPush src slot dst →
    flagOf m.shared.store dst = some false ∨ (∃ u, m.phase u = .invTake dst) ∨
      flagOf m.shared.store src = some true

/-- `RecordInTime` as a test on the phase of the thread. -/
def inTime [Fintype ι] (m : Machine ι) : Phase → Bool
  | .addPush src _ dst => flagOf m.shared.store dst == some false ||
      decide (∃ u, m.phase u = .invTake dst) || flagOf m.shared.store src == some true
  | _ => true

theorem recordInTime_iff [Fintype ι] (m : Machine ι) (t : ι) :
    RecordInTime m t ↔ inTime m (m.phase t) = true := by
  unfold RecordInTime
  generalize m.phase t = p
  cases p with
  | addPush src slot dst =>
    simp only [inTime, Phase.addPush.injEq, Bool.or_eq_true, beq_iff_eq, decide_eq_true_eq, or_assoc]
    refine ⟨fun h => h src slot dst ⟨rfl, rfl, rfl⟩, ?_⟩
    rintro h src' slot' dst' ⟨rfl, rfl, rfl⟩
    exact h
  | _ => simp [inTime]

instance [Fintype ι] (m : Machine ι) (t : ι) : Decidable (RecordInTime m t) :=
  decidable_of_iff _ (recordInTime_iff m t).symm

/-- The list of a block that is not valid holds no edge from a valid block, unless a call has
still to take it. -/
def TakenInv (m : Machine ι) : Prop :=
  ∀ d s n, flagOf m.shared.store d = some true → (s, n) ∈ incoming m.shared.store d →
    (∃ u, m.phase u = .invTake d) ∨ flagOf m.shared.store s = some true

/-- A block becomes invalid only by the step that sends its thread to take the list. -/
theorem flag_new {gen : CodeGen} {m : Machine ι} {t : ι} {v : View ι} (hc : CodeInv m)
    (h : ThreadStep gen t (m.view t) v) {d : Nat} (hf : flagOf v.shared.store d = some true) :
    flagOf m.shared.store d = some true ∨ v.phase = .invTake d := by
  rcases flag_step hc h d with heq | ⟨hphase, -⟩ | ⟨-, hset⟩
  · exact Or.inl (heq.symm.trans hf)
  · exact Or.inr hphase
  · rw [hset] at hf
    cases hf

/-- An edge in a list after a step was there before, or the step recorded it. -/
theorem incoming_step {gen : CodeGen} {m : Machine ι} {t : ι} {v : View ι} (hc : CodeInv m)
    (h : ThreadStep gen t (m.view t) v) {s : Nat} {n : Slot} {d : Nat}
    (hmem : (s, n) ∈ incoming v.shared.store d) :
    ((s, n) ∈ incoming m.shared.store d ∧ m.phase t ≠ .invTake d) ∨ m.phase t = .addPush s n d := by
  generalize hw : m.view t = w at h
  have hsh : m.shared = w.shared := congrArg View.shared hw
  have hphase : m.phase t = w.phase := congrArg View.phase hw
  -- all steps but three leave the lists alone
  have hsame : incoming v.shared.store d = incoming m.shared.store d → w.phase ≠ .invTake d →
      ((s, n) ∈ incoming m.shared.store d ∧ m.phase t ≠ .invTake d) ∨
        m.phase t = .addPush s n d := by
    intro heq hne
    exact Or.inl ⟨heq ▸ hmem, hphase ▸ hne⟩
  cases h with
  | @alloc sh lock cache pc flags store k h =>
    obtain ⟨hk, -, -⟩ := alloc_eq_some h
    refine hsame ?_ (by simp)
    have hget := get_alloc h d
    simp only [incoming, hsh]
    rw [hget]
    split
    · next hdk =>
      have hnone : sh.store.get d = none := List.getElem?_eq_none (by omega)
      rw [hnone]
      rfl
    · rfl
  | emit h =>
    have hem := hc.emitted hphase hsh h
    refine hsame ?_ (by simp)
    rw [incoming, incoming, hem.map_get (fun tb => tb.jmp.jmpList) (fun _ _ _ _ _ _ => rfl)]
  | insert h =>
    refine hsame ?_ (by simp)
    rw [hsh, incoming, incoming,
      (insert_sameCore h).map_get (fun tb => tb.jmp.jmpList) (fun _ => rfl)]
  | remove h =>
    refine hsame ?_ (by simp)
    rw [hsh, incoming, incoming,
      (hashRemove_sameCore h).map_get (fun tb => tb.jmp.jmpList) (fun _ => rfl)]
  | linkNew hsrc hdst hpatch => exact hsame (by rw [hsh, incoming_setJmpDest]) (by simp)
  | clear => exact hsame (by rw [hsh, incoming_setJmpDest]) (by simp)
  | mark htb =>
    refine hsame ?_ (by simp)
    rw [hsh]
    refine incoming_modify _ _ ?_ d
    intro tb
    rfl
  | takeOut htb =>
    refine hsame ?_ (by simp)
    rw [hsh]
    refine incoming_modify _ _ ?_ d
    intro tb
    rfl
  | @push sh lock cache src slot dst dstTb hdst =>
    rw [incoming_pushIncoming (get_eq_some_lt hdst)] at hmem
    rw [hsh, hphase]
    split at hmem
    · next hd =>
      rcases List.mem_append.mp hmem with hmem | hmem
      · exact Or.inl ⟨hmem, by simp⟩
      · obtain ⟨rfl, rfl⟩ := Prod.mk.inj (List.mem_singleton.mp hmem)
        exact Or.inr (by rw [hd])
    · exact Or.inl ⟨hmem, by simp⟩
  | @take sh lock cache i tb htb =>
    rw [incoming_clearJmpList] at hmem
    rw [hsh, hphase]
    split at hmem
    · cases hmem
    · next hd => exact Or.inl ⟨hmem, by simpa using fun h => hd h.symm⟩
  | @retain sh lock cache i p out =>
    rw [incoming_retainIncoming] at hmem
    rw [hsh, hphase]
    split at hmem
    · exact Or.inl ⟨(List.mem_filter.mp hmem).1, by simp⟩
    · exact Or.inl ⟨hmem, by simp⟩
  | _ => exact hsame (by rw [hsh]) (by simp)

theorem TakenInv.step [DecidableEq ι] {gen : CodeGen} {m : Machine ι} {t : ι} {v : View ι}
    (hi : TakenInv m) (hc : CodeInv m) (hintime : RecordInTime m t)
    (h : ThreadStep gen t (m.view t) v) : TakenInv (m.update t v) := by
  intro d s n hflag hmem
  -- a thread other than `t` that has still to take the list has still to take it afterwards
  have hwaits : m.phase t ≠ .invTake d → (∃ u, m.phase u = .invTake d) →
      ∃ u, (m.update t v).phase u = .invTake d := by
    rintro hne ⟨u, hu⟩
    have hut : u ≠ t := by
      rintro rfl
      exact hne hu
    exact ⟨u, by rw [update_phase_of_ne m v hut]; exact hu⟩
  rcases flag_new hc h hflag with hflag₀ | hphase
  · rcases incoming_step hc h hmem with ⟨hmem₀, hne⟩ | hpush
    · rcases hi d s n hflag₀ hmem₀ with hwait | hsrc
      · exact Or.inl (hwaits hne hwait)
      · exact Or.inr (flag_kept hc h hsrc)
    · rcases hintime s n d hpush with hvalid | hwait | hsrc
      · rw [hvalid] at hflag₀
        cases hflag₀
      · exact Or.inl (hwaits (by rw [hpush]; simp) hwait)
      · exact Or.inr (flag_kept hc h hsrc)
  · exact Or.inl ⟨t, by rw [update_phase_self]; exact hphase⟩

/-- The invariants of a run whose records all come in time. -/
structure RaceInv (m : Machine ι) : Prop where
  code : CodeInv m
  mark : MarkInv m
  track : TrackInv m
  taken : TakenInv m

theorem Run.raceInv [DecidableEq ι] {gen : CodeGen} {sh₀ : Shared} {σ : Nat → Machine ι}
    {N : Nat} (hrun : Run gen (Machine.initial sh₀) σ N) (h₀ : Fresh sh₀)
    (hintime : ∀ k t, k < N → RecordInTime (σ k) t) {k : Nat} (hk : k ≤ N) : RaceInv (σ k) := by
  induction k with
  | zero =>
    have hnone : ∀ i, sh₀.store.get i = none := h₀.get_eq_none
    rw [hrun.start]
    refine ⟨?_, ?_, ⟨?_, ?_, ?_⟩, ?_⟩
    · have hc := (MachineInvariant.Run.codeInv hrun h₀ (Nat.zero_le N)).1
      rw [hrun.start] at hc
      exact hc
    · intro t i h
      cases h
    · intro s n d hflag _
      simp [Machine.initial, flagOf, hnone] at hflag
    · intro s n d off tbd hflag
      simp [Machine.initial, flagOf, hnone] at hflag
    · intro s n off hsite
      simp [Machine.initial, jumpSite, hnone] at hsite
    · intro d s n hflag
      simp [Machine.initial, flagOf, hnone] at hflag
  | succ k ih =>
    have hi := ih (by omega)
    obtain ⟨hc', -⟩ := MachineInvariant.Run.codeInv hrun h₀ hk
    obtain ⟨move, hmove⟩ := hrun.step k (by omega)
    obtain ⟨v, hv, heq⟩ := stepMachine_cases hmove
    have hnow := hintime k move.1 (by omega)
    refine ⟨hc', ?_, ?_, ?_⟩
    · rw [heq]
      exact hi.mark.step hi.code hv
    · rw [heq]
      exact hi.track.of_edgeStep (edgeStep_of_step hi.track hi.code hi.mark hv)
    · rw [heq]
      exact hi.taken.step hi.code hnow hv

/-- The thread has nothing left to do with edges to `d`: it is not about to record one, and it
is not in an `invalidate(d)` call that has still to take or to work through the list. -/
def doneWith (d : Nat) : Phase → Bool
  | .addPush _ _ dst => dst != d
  | .invTake i | .invReset i (_ :: _) | .invClear i _ _ => i != d
  | _ => true

theorem not_jumpTracked {store : TbStore} {p : Phase} {s : Nat} {n : Slot} {d : Nat}
    (hp : doneWith d p = true) (hmem : (s, n) ∉ incoming store d) :
    ¬ JumpTracked store p s n d := by
  rintro (h | rfl | h)
  · exact hmem h
  · simp [doneWith] at hp
  · cases p with
    | invReset i edges =>
      cases edges with
      | nil => simp [toReset] at h
      | cons e l => simp_all [toReset, doneWith]
    | invClear i e l => simp_all [toReset, doneWith]
    | _ => cases h

theorem not_destTracked {store : TbStore} {p : Phase} {s : Nat} {n : Slot} {d : Nat}
    (hp : doneWith d p = true) (hmem : (s, n) ∉ incoming store d) :
    ¬ DestTracked store p s n d := by
  rintro (h | rfl | h)
  · exact hmem h
  · simp [doneWith] at hp
  · cases p with
    | invReset i edges =>
      cases edges with
      | nil => simp [toClear] at h
      | cons e l => simp_all [toClear, doneWith]
    | invClear i e l => simp_all [toClear, doneWith]
    | _ => cases h

/-- For any number of threads and any interleaving in which every edge is recorded in time:
once the calls that invalidate `d` and the calls that link to it are through, no valid block
names `d` and no jump of a valid block leads into its code. -/
theorem no_jump_to_invalid_block [DecidableEq ι] (gen : CodeGen) (sh₀ : Shared) (h₀ : Fresh sh₀)
    (σ : Nat → Machine ι) (N : Nat) (hrun : Run gen (Machine.initial sh₀) σ N)
    (hintime : ∀ k t, k < N → RecordInTime (σ k) t) (k : Nat) (hk : k ≤ N) (d : Nat)
    (tbd : TranslationBlock) (hd : (σ k).shared.store.get d = some tbd)
    (hinvalid : tbd.invalid = true) (hdone : ∀ t, doneWith d ((σ k).phase t) = true) :
    ∀ s tb n, (σ k).shared.store.get s = some tb → tb.invalid = false →
      tb.jmp.jmpDest n ≠ some d ∧
      ∀ off, tb.jmpInsnOffset n = some off → ¬ InCode tbd (jumpTarget (σ k).shared.buf off.toNat) := by
  intro s tb n htb hvalid
  have hi := Run.raceInv hrun h₀ hintime hk
  have hflag : flagOf (σ k).shared.store s = some false := by rw [flagOf_of_get htb, hvalid]
  have hflagd : flagOf (σ k).shared.store d = some true := by rw [flagOf_of_get hd, hinvalid]
  have hne : s ≠ d := by
    rintro rfl
    rw [hflag] at hflagd
    cases hflagd
  have hmem : (s, n) ∉ incoming (σ k).shared.store d := by
    intro hmem
    rcases hi.taken d s n hflagd hmem with ⟨u, hu⟩ | hsrc
    · have := hdone u
      rw [hu] at this
      simp [doneWith] at this
    · rw [hflag] at hsrc
      cases hsrc
  refine ⟨?_, ?_⟩
  · intro hdest
    obtain ⟨t, ht⟩ := hi.track.dest s n d hflag (by rw [destOf_of_get htb]; exact hdest)
    exact not_destTracked (hdone t) hmem ht
  · intro off hoff hin
    have hsite := jumpSite_eq_some.mpr ⟨tb, off, htb, hoff, rfl⟩
    obtain ⟨t, ht⟩ := hi.track.jump s n d off.toNat tbd hflag hne hsite hd hin
    exact not_jumpTracked (hdone t) hmem ht

/-- Thread `true` translates two blocks with a jump each. -/
def translateTwo : List (Bool × Choice) :=
  [(true, .find 0 0), (true, .proceed), (true, .proceed), (true, .proceed), (true, .proceed),
    (true, .proceed), (true, .proceed), (true, .translation ⟨⟨[.gotoTb 0], 0⟩, 4⟩),
    (true, .proceed), (true, .proceed), (true, .proceed),
    (true, .find 4 0), (true, .proceed), (true, .proceed), (true, .proceed), (true, .proceed),
    (true, .proceed), (true, .proceed), (true, .translation ⟨⟨[.gotoTb 0], 0⟩, 4⟩),
    (true, .proceed), (true, .proceed), (true, .proceed)]

/-- Thread `true` links block 0 to block 1 and records the edge after thread `false` has set
the flag of block 1 and before it takes the list. -/
def recordInTime : List (Bool × Choice) :=
  translateTwo ++
    [(true, .addJump 0 0 1), (true, .proceed), (true, .proceed),
      (false, .invalidate 1), (false, .proceed), (true, .proceed),
      (false, .proceed), (false, .proceed), (false, .proceed), (false, .proceed),
      (false, .proceed)]

/-- Thread `true` tests the flag of block 1; thread `false` invalidates block 1; thread `true`
links block 0 to it and records the edge. -/
def recordLate : List (Bool × Choice) :=
  translateTwo ++
    [(true, .addJump 0 0 1), (true, .proceed),
      (false, .invalidate 1), (false, .proceed), (false, .proceed), (false, .proceed),
      (false, .proceed), (true, .proceed), (true, .proceed)]

theorem no_jump_to_invalid_block_in_time :
    ∃ m, runMoves ⟨0, 5⟩ (Machine.initial newEnv) recordInTime = some m ∧
      (m.phase true = .idle ∧ m.phase false = .idle) ∧ flagOf m.shared.store 0 = some false ∧
      ∃ tbd, m.shared.store.get 1 = some tbd ∧ tbd.invalid = true ∧
        ∀ s tb n, m.shared.store.get s = some tb → tb.invalid = false →
          tb.jmp.jmpDest n ≠ some 1 ∧
          ∀ off, tb.jmpInsnOffset n = some off →
            ¬ InCode tbd (jumpTarget m.shared.buf off.toNat) := by
  have hend : (runMoves ⟨0, 5⟩ (Machine.initial newEnv) recordInTime).map
      (fun m => (m.phase true, m.phase false, flagOf m.shared.store 0, flagOf m.shared.store 1)) =
      some (.idle, .idle, some false, some true) := by
    decide
  have hintime : ∀ k, k < recordInTime.length → ∀ t,
      RecordInTime (Library.trace (stepMachine ⟨0, 5⟩) (Machine.initial newEnv) recordInTime k) t := by
    decide
  obtain ⟨m, hm, hobs⟩ := Option.map_eq_some_iff.mp hend
  simp only [Prod.mk.injEq] at hobs
  obtain ⟨hp₁, hp₂, hf₀, hf₁⟩ := hobs
  obtain ⟨hrun, hlast⟩ := run_of_moves hm
  obtain ⟨tbd, htbd, hinvalid⟩ := Option.map_eq_some_iff.mp hf₁
  refine ⟨m, hm, ⟨hp₁, hp₂⟩, hf₀, tbd, htbd, hinvalid, ?_⟩
  have h := no_jump_to_invalid_block ⟨0, 5⟩ newEnv newEnv_fresh _ _ hrun
    (fun k t hk => hintime k hk t) _ le_rfl 1 tbd
  rw [hlast] at h
  refine h htbd hinvalid ?_
  intro t
  cases t with
  | false => rw [hp₂]; rfl
  | true => rw [hp₁]; rfl

/-- All calls have returned; block 1 is invalid, and the valid block 0 names it and jumps to
its code. -/
theorem late_record_leaves_jump :
    ∃ m, runMoves ⟨0, 5⟩ (Machine.initial newEnv) recordLate = some m ∧
      (∀ t, m.phase t = .idle) ∧
      ∃ tb tbd off, m.shared.store.get 0 = some tb ∧ tb.invalid = false ∧
        m.shared.store.get 1 = some tbd ∧ tbd.invalid = true ∧
        tb.jmp.jmpDest 0 = some 1 ∧ tb.jmpInsnOffset 0 = some off ∧
        InCode tbd (jumpTarget m.shared.buf off.toNat) := by
  have hend : (runMoves ⟨0, 5⟩ (Machine.initial newEnv) recordLate).map
      (fun m => (m.phase true, m.phase false, jumpTarget m.shared.buf 67)) =
      some (.idle, .idle, 87) := by
    decide
  have hsrc : (runMoves ⟨0, 5⟩ (Machine.initial newEnv) recordLate).bind (fun m =>
      (m.shared.store.get 0).map (fun tb => (tb.invalid, tb.jmp.jmpDest 0, tb.jmpInsnOffset 0))) =
      some (false, some 1, some 67) := by
    decide
  have hdst : (runMoves ⟨0, 5⟩ (Machine.initial newEnv) recordLate).bind (fun m =>
      (m.shared.store.get 1).map (fun tb => (tb.invalid, tb.hostOffset, decide (0 < tb.hostSize)))) =
      some (true, 87, true) := by
    decide
  obtain ⟨m, hm, hobs⟩ := Option.map_eq_some_iff.mp hend
  rw [hm, Option.bind_some] at hsrc hdst
  simp only [Prod.mk.injEq] at hobs
  obtain ⟨hp₁, hp₂, htgt⟩ := hobs
  obtain ⟨tb, htb, hb⟩ := Option.map_eq_some_iff.mp hsrc
  obtain ⟨tbd, htbd, hbd⟩ := Option.map_eq_some_iff.mp hdst
  simp only [Prod.mk.injEq, decide_eq_true_eq] at hb hbd
  refine ⟨m, hm, ?_, tb, tbd, 67, htb, hb.1, htbd, hbd.1, hb.2.1, hb.2.2, ?_⟩
  · intro t
    cases t with
    | false => exact hp₂
    | true => exact hp₁
  · have hoff : (67 : BitVec 32).toNat = 67 := rfl
    rw [hoff, htgt]
    unfold InCode
    omega

end TcgRs.Analysis.ChainRace
