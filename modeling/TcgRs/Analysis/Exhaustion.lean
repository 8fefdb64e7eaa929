import TcgRs.Analysis.UniqueTranslation
import TcgRs.Analysis.BlockExtent

/-!
# What happens when the store or the code buffer is full

`tb_gen_code` refuses to translate when fewer than `MIN_CODE_BUF_REMAINING` bytes are left; it
tests this before it takes the lock, and it does not test the size of the store or of the
block at all.  So a call that has passed the test fails an assertion exactly when the store is
full at the allocation or the code of the block does not fit at its emission.  Every block
that a call returns is complete.
-/

set_option autoImplicit false

namespace TcgRs.Analysis.Exhaustion

open TcgRs.Model TcgRs.Model.X86 TcgRs.Model.Exec TcgRs.Library
open HashTable CodeLayout ChainSections ThreadSteps MachineInvariant UniqueTranslation BlockExtent

variable {ι : Type}

/-! ## Returned blocks are complete -/

/-- The block has code. -/
def Hosted (s : TbStore) (i : Nat) : Prop := ∃ tb, s.get i = some tb ∧ 0 < tb.hostSize

theorem hosted_step {gen : CodeGen} {m : Machine ι} {t : ι} {v : View ι} (hc : CodeInv m)
    (h : ThreadStep gen t (m.view t) v) {i : Nat} (hi : Hosted m.shared.store i) :
    Hosted v.shared.store i := by
  obtain ⟨tb, htb, hpos⟩ := hi
  rcases code_step h with ⟨hp, -, -, -⟩ | ⟨-, halloc, hv, -⟩ | ⟨hphase, hemit, -⟩
  · obtain ⟨tb', htb', hpl⟩ := hp.symm.get htb
    simp only [placement, Prod.mk.injEq] at hpl
    exact ⟨tb', htb', by rw [← hpl.2.1]; exact hpos⟩
  · have hlt := get_eq_some_lt htb
    refine ⟨tb, ?_, hpos⟩
    rw [hv]
    exact (get_alloc halloc i).trans ((if_neg (Nat.ne_of_lt hlt)).trans htb)
  · next pc flags k tr =>
    have hem := hc.emitted hphase rfl hemit
    by_cases hik : i = k
    · subst hik
      obtain ⟨size, a, b, hfill⟩ := hem.filled tb htb
      exact ⟨_, hfill, Nat.sub_pos_of_lt hem.grows⟩
    · exact ⟨tb, (hem.others i hik).trans htb, hpos⟩

/-- The block that a call has emitted or found. -/
def emittedBy : Phase → Option Nat
  | .genInsert _ _ i | .genUnlock _ _ i | .found _ _ (some i) => some i
  | _ => none

/-- Every block in the table, in a jump cache or in the hands of a call has code. -/
structure CompleteInv (m : Machine ι) : Prop where
  table : ∀ i, InTable m.shared.store i → Hosted m.shared.store i
  cache : ∀ t pc i, (m.cache t).lookup pc = some i → Hosted m.shared.store i
  phase : ∀ t i, emittedBy (m.phase t) = some i → Hosted m.shared.store i

theorem inTable_of_mem_live {s : TbStore} {live : List Nat} (h : TableInv s live) {i : Nat}
    (hi : i ∈ live) : InTable s i := by
  obtain ⟨tb, htb⟩ := get_of_lt (h.exist i hi)
  refine ⟨TranslationBlock.hash tb.pc tb.flags, _, h.linked _, mem_chainOf.mpr ⟨hi, ?_⟩⟩
  simp [bucketOf, htb]

theorem inTable_of_lookup {s : TbStore} {live : List Nat} (h : TableInv s live) {pc : BitVec 64}
    {flags : BitVec 32} {i : Nat} (hl : s.lookup pc flags = some (some i)) : InTable s i := by
  rw [h.lookup, Option.some.injEq] at hl
  exact inTable_of_mem_live h (List.mem_of_find?_eq_some hl)

theorem lookup_of_cacheHit {sh : Shared} {cache : JumpCache} {pc : BitVec 64} {flags : BitVec 32}
    {i : Nat} (h : cacheHit sh cache pc flags = some (some i)) : cache.lookup pc = some i := by
  unfold cacheHit at h
  split at h
  · cases h
  · next j hj =>
    obtain ⟨tb, htb, h⟩ := Option.bind_eq_some_iff.mp h
    split at h
    · simp only [Option.pure_def, Option.some.injEq] at h
      rw [hj, h]
    · cases h

/-- How a call comes by its block: from its cache, from the table, or by emitting it. -/
theorem emittedBy_step {gen : CodeGen} {m : Machine ι} {t : ι} {v : View ι} {live : List Nat}
    (hc : CodeInv m) (htab : TableInv m.shared.store live) (hi : CompleteInv m)
    (h : ThreadStep gen t (m.view t) v) {i : Nat} (he : emittedBy v.phase = some i) :
    Hosted v.shared.store i := by
  have hkeep := fun j => hosted_step (i := j) hc h
  generalize hw : m.view t = w at h
  have hsh : m.shared = w.shared := congrArg View.shared hw
  have hphase : m.phase t = w.phase := congrArg View.phase hw
  have hcache : m.cache t = w.cache := congrArg View.cache hw
  cases h with
  | cacheHit h =>
    injection he with he
    subst he
    exact hkeep _ (hi.cache t _ _ (by rw [hcache]; exact lookup_of_cacheHit h))
  | lookupHit h =>
    injection he with he
    subst he
    exact hkeep _ (hi.table _ (inTable_of_lookup htab (by rw [hsh]; exact h)))
  | doubleCheckHit h =>
    injection he with he
    subst he
    exact hkeep _ (hi.table _ (inTable_of_lookup htab (by rw [hsh]; exact h)))
  | emit h =>
    injection he with he
    subst he
    obtain ⟨tb, htb, -⟩ := hc.emitting t _ _ _ hphase
    have hem := hc.emitted hphase hsh h
    obtain ⟨size, a, b, hfill⟩ := hem.filled tb htb
    exact ⟨_, hfill, Nat.sub_pos_of_lt hem.grows⟩
  | insert h => exact hkeep _ (hi.phase t i (by rw [hphase]; exact he))
  | unlock => exact hkeep _ (hi.phase t i (by rw [hphase]; exact he))
  | _ => cases he

/-- A block that a step puts into the jump cache is the one its call found or emitted. -/
theorem cache_step {gen : CodeGen} {t : ι} {v v' : View ι} (h : ThreadStep gen t v v')
    {pc : BitVec 64} {i : Nat} (hl : v'.cache.lookup pc = some i) :
    v.cache.lookup pc = some i ∨ emittedBy v'.phase = some i := by
  cases h with
  | lookupHit h =>
    rcases JumpCache.lookup_insert hl with rfl | hl
    · exact Or.inr rfl
    · exact Or.inl hl
  | doubleCheckHit h =>
    rcases JumpCache.lookup_insert hl with rfl | hl
    · exact Or.inr rfl
    · exact Or.inl hl
  | unlock =>
    rcases JumpCache.lookup_insert hl with rfl | hl
    · exact Or.inr rfl
    · exact Or.inl hl
  | _ => exact Or.inl hl

variable [DecidableEq ι]

theorem CompleteInv.step {gen : CodeGen} {m : Machine ι} {t : ι} {v : View ι} {live : List Nat}
    (hi : CompleteInv m) (hc : CodeInv m) (hu : UniqueInv m live)
    (h : ThreadStep gen t (m.view t) v) : CompleteInv (m.update t v) := by
  refine ⟨?_, ?_, ?_⟩
  · intro i hmem
    obtain ⟨live', htab', hlive⟩ := hu.live_step hc h
    have hmem' := mem_live_of_inTable htab' hmem
    rcases hlive with hsub | ⟨pc, flags, k, hphase, rfl, -⟩
    · exact hosted_step hc h (hi.table i (inTable_of_mem_live hu.table (hsub i hmem')))
    · rcases List.mem_cons.mp hmem' with rfl | hold
      · exact hosted_step hc h (hi.phase t i (by rw [hphase]; rfl))
      · exact hosted_step hc h (hi.table i (inTable_of_mem_live hu.table hold))
  · intro u pc i hl
    by_cases hut : u = t
    · subst hut
      simp only [Machine.update, Function.update_self] at hl
      rcases cache_step h hl with hl | he
      · exact hosted_step hc h (hi.cache u pc i hl)
      · exact emittedBy_step hc hu.table hi h he
    · simp only [Machine.update, Function.update_of_ne hut] at hl
      exact hosted_step hc h (hi.cache u pc i hl)
  · intro u i he
    by_cases hut : u = t
    · subst hut
      rw [update_phase_self] at he
      exact emittedBy_step hc hu.table hi h he
    · rw [update_phase_of_ne m v hut] at he
      exact hosted_step hc h (hi.phase u i he)

theorem Run.completeInv {gen : CodeGen} {sh₀ : Shared} {σ : Nat → Machine ι} {N : Nat}
    (hrun : Run gen (Machine.initial sh₀) σ N) (h₀ : Fresh sh₀) {k : Nat} (hk : k ≤ N) :
    CompleteInv (σ k) := by
  induction k with
  | zero =>
    rw [hrun.start]
    refine ⟨?_, ?_, ?_⟩
    · rintro i ⟨b, l, hl, hmem⟩
      have hhash : (Machine.initial sh₀ : Machine ι).shared.store.hash b = none := by
        simp [Machine.initial, h₀.store_eq]
      rw [hhash] at hl
      cases l with
      | nil => cases hmem
      | cons j l => simp [Linked] at hl
    · intro t pc i h
      cases h
    · intro t i h
      cases h
  | succ k ih =>
    obtain ⟨hc, -⟩ := MachineInvariant.Run.codeInv hrun h₀ (by omega : k ≤ N)
    obtain ⟨live, hu⟩ := Run.uniqueInv hrun h₀ (by omega : k ≤ N)
    obtain ⟨move, hmove⟩ := hrun.step k (by omega)
    obtain ⟨v, hv, heq⟩ := stepMachine_cases hmove
    rw [heq]
    exact (ih (by omega)).step hc hu hv

/-! ## When a call fails -/

/-- The thread is in `tb_gen_code`. -/
def inGenCode : Phase → Bool
  | .genCheck _ _ | .genLock _ _ | .genLookup _ _ | .genAlloc _ _ | .genEmit _ _ _
  | .genInsert _ _ _ | .genUnlock _ _ _ => true
  | _ => false

/-- The thread waits for another one to release `translate_lock`. -/
def Waits (m : Machine ι) (t : ι) : Prop :=
  (∃ pc flags, m.phase t = .genLock pc flags) ∧ m.lock ≠ none

/-- What the next step of a call needs beside the state, for a block that translates to `tr`. -/
def nextChoice (tr : Translation) : Phase → Choice
  | .genEmit _ _ _ => .translation tr
  | _ => .proceed

/-- There is room for what the next step of a call adds. -/
def HasRoom (sh : Shared) (tr : Translation) : Phase → Prop
  | .genAlloc _ _ => sh.store.tbs.length < TbStore.maxTbs
  | .genEmit _ _ i => blockEnd (BitVec.ofNat 32 i) sh.buf.offset tr.code ≤ sh.buf.size
  | _ => True

theorem alloc_isSome_iff (s : TbStore) (pc : BitVec 64) (flags cflags : BitVec 32) :
    (s.alloc pc flags cflags).isSome ↔ s.tbs.length < TbStore.maxTbs := by
  unfold TbStore.alloc
  split
  · next h => simp [h]
  · next h => simp [h]

theorem emitTb_isSome_iff {gen : CodeGen} {sh : Shared} (hl : Layout sh)
    (hgen : Reachable gen sh.buf.size) (i : Nat) (tr : Translation) :
    (sh.emitTb gen i tr).isSome ↔
      blockEnd (BitVec.ofNat 32 i) sh.buf.offset tr.code ≤ sh.buf.size := by
  rw [← emitBlock_isSome_iff hgen hl.offset_le]
  unfold Shared.emitTb
  cases emitBlock gen (BitVec.ofNat 32 i) tr.code sh.buf with
  | none => rfl
  | some st => rfl

theorem insert_isSome {s : TbStore} {i : Nat} {tb : TranslationBlock} (h : s.get i = some tb) :
    (s.insert i).isSome := by
  simp [TbStore.insert, h]

omit [DecidableEq ι] in
/-- In a `tb_find` call the other calls have no step. -/
theorem stepThread_isSome_of_stepFind [DecidableEq ι] {gen : CodeGen} {t : ι} {c : Choice}
    {v : View ι} (h : inGenCode v.phase = true) :
    (stepThread gen t c v).isSome ↔ (stepFind gen t c v).isSome := by
  obtain ⟨sh, lock, cache, phase⟩ := v
  cases phase with
  | genCheck pc flags => simp [stepThread, stepAdd, stepInvalidate]
  | genLock pc flags => simp [stepThread, stepAdd, stepInvalidate]
  | genLookup pc flags => simp [stepThread, stepAdd, stepInvalidate]
  | genAlloc pc flags => simp [stepThread, stepAdd, stepInvalidate]
  | genEmit pc flags i => simp [stepThread, stepAdd, stepInvalidate]
  | genInsert pc flags i => simp [stepThread, stepAdd, stepInvalidate]
  | genUnlock pc flags i => simp [stepThread, stepAdd, stepInvalidate]
  | _ => cases h

theorem stepFind_isSome_iff {gen : CodeGen} {m : Machine ι} {t : ι} {live : List Nat}
    (hc : CodeInv m) (hu : UniqueInv m live) (hgen : Reachable gen codeBufSize)
    (hphase : inGenCode (m.phase t) = true) (hwait : ¬ Waits m t) (tr : Translation) :
    (stepFind gen t (nextChoice tr (m.phase t)) (m.view t)).isSome ↔
      HasRoom m.shared tr (m.phase t) := by
  have hsize : m.shared.buf.size = codeBufSize := hc.layout.size_eq
  unfold Machine.view
  cases hp : m.phase t with
  | genCheck pc flags =>
    simp only [stepFind, nextChoice, HasRoom, iff_true]
    split
    · rfl
    · rfl
  | genLock pc flags =>
    have hfree : m.lock = none := by
      by_contra hlock
      exact hwait ⟨⟨pc, flags, hp⟩, hlock⟩
    simp [stepFind, nextChoice, HasRoom, hfree]
  | genLookup pc flags =>
    simp only [stepFind, nextChoice, HasRoom, hu.table.lookup, iff_true]
    cases live.find? (answers m.shared.store pc flags) with
    | none => rfl
    | some i => rfl
  | genAlloc pc flags =>
    simp only [stepFind, nextChoice, HasRoom]
    rw [← alloc_isSome_iff m.shared.store pc flags 0]
    cases m.shared.store.alloc pc flags 0 with
    | none => simp
    | some p => simp
  | genEmit pc flags i =>
    simp only [stepFind, nextChoice, HasRoom]
    rw [← emitTb_isSome_iff hc.layout (by rw [hsize]; exact hgen) i tr]
    cases m.shared.emitTb gen i tr with
    | none => simp
    | some sh => simp
  | genInsert pc flags i =>
    obtain ⟨-, tb, htb, -⟩ := hu.fresh t pc flags i (by rw [hp]; rfl)
    obtain ⟨store, hstore⟩ := Option.isSome_iff_exists.mp (insert_isSome htb)
    simp [stepFind, nextChoice, HasRoom, hstore]
  | genUnlock pc flags i => simp [stepFind, nextChoice, HasRoom]
  | _ =>
    rw [hp] at hphase
    cases hphase

/-- For any number of threads and any interleaving: a `tb_gen_code` call that does not wait
for the lock has a next step if and only if there is room for what the step adds, and every
block that a call returns is complete. -/
theorem gen_code_steps_iff_room (gen : CodeGen) (hgen : Reachable gen codeBufSize) (sh₀ : Shared)
    (h₀ : Fresh sh₀) (σ : Nat → Machine ι) (N : Nat)
    (hrun : Run gen (Machine.initial sh₀) σ N) (k : Nat) (hk : k ≤ N) :
    (∀ t tr, inGenCode ((σ k).phase t) = true → ¬ Waits (σ k) t →
      ((stepThread gen t (nextChoice tr ((σ k).phase t)) ((σ k).view t)).isSome ↔
        HasRoom (σ k).shared tr ((σ k).phase t))) ∧
    (∀ t pc flags i, (σ k).phase t = .found pc flags (some i) →
      ∃ tb, (σ k).shared.store.get i = some tb ∧ tb.pc = pc ∧ tb.flags = flags ∧
        0 < tb.hostSize ∧ tb.hostOffset + tb.hostSize ≤ (σ k).shared.buf.offset) := by
  obtain ⟨hc, -⟩ := MachineInvariant.Run.codeInv hrun h₀ hk
  obtain ⟨live, hu⟩ := Run.uniqueInv hrun h₀ hk
  refine ⟨?_, ?_⟩
  · intro t tr hphase hwait
    rw [stepThread_isSome_of_stepFind hphase]
    exact stepFind_isSome_iff hc hu hgen hphase hwait tr
  · intro t pc flags i hfound
    obtain ⟨⟨tb, htb, hpc, hflags⟩, -⟩ :=
      Run.carried_valid hrun h₀ hk t pc flags i (by rw [hfound]; rfl)
    obtain ⟨tb', htb', hpos⟩ := (Run.completeInv hrun h₀ hk).phase t i (by rw [hfound]; rfl)
    rw [htb] at htb'
    injection htb' with htb'
    subst htb'
    exact ⟨tb, htb, hpc, hflags, hpos, (hc.layout.block i tb htb).below⟩

/-! ## A guest with too many blocks -/

/-- The machine of a single vCPU. -/
def single (v : View Unit) : Machine Unit := ⟨v.shared, v.lock, fun _ => v.cache, fun _ => v.phase⟩

/-- The steps of a single vCPU. -/
def runView (gen : CodeGen) (v : View Unit) (cs : List Choice) : Option (View Unit) :=
  cs.foldlM (fun v c => stepThread gen () c v) v

theorem runMoves_single {gen : CodeGen} {v v' : View Unit} {cs : List Choice}
    (h : runView gen v cs = some v') :
    runMoves gen (single v) (cs.map (fun c => ((), c))) = some (single v') := by
  induction cs generalizing v with
  | nil =>
    injection h with h
    rw [h]
    rfl
  | cons c cs ih =>
    unfold runView at h
    rw [List.foldlM_cons] at h
    obtain ⟨v₁, h₁, h⟩ := Option.bind_eq_some_iff.mp h
    have hstep : stepMachine gen (single v) ((), c) = some (single v₁) := by
      have hview : (single v).view () = v := rfl
      unfold stepMachine
      rw [hview, h₁]
      rfl
    rw [List.map_cons, runMoves, List.foldlM_cons, hstep]
    exact ih h

/-- The vCPU looks for a block that does not exist, up to its allocation. -/
def lookupSteps (pc : BitVec 64) (flags : BitVec 32) : List Choice :=
  [.find pc flags, .proceed, .proceed, .proceed, .proceed, .proceed]

/-- The vCPU allocates, emits and inserts the block and returns it. -/
def emitSteps (tr : Translation) : List Choice :=
  [.proceed, .translation tr, .proceed, .proceed, .proceed]

theorem runView_lookup {gen : CodeGen} {sh : Shared} {cache : JumpCache} {pc : BitVec 64}
    {flags : BitVec 32} (hcache : cacheHit sh cache pc flags = some none)
    (hlook : sh.store.lookup pc flags = some none)
    (hroom : minCodeBufRemaining ≤ sh.buf.remaining) :
    runView gen ⟨sh, none, cache, .idle⟩ (lookupSteps pc flags) =
      some ⟨sh, some (), cache, .genAlloc pc flags⟩ := by
  have hnot : ¬ sh.buf.remaining < minCodeBufRemaining := Nat.not_lt.mpr hroom
  have h₁ : stepThread gen () .proceed ⟨sh, none, cache, .findCache pc flags⟩ =
      some ⟨sh, none, cache, .findLookup pc flags⟩ := by
    simp [stepThread, stepFind, hcache]
  have h₂ : stepThread gen () .proceed ⟨sh, none, cache, .findLookup pc flags⟩ =
      some ⟨sh, none, cache, .genCheck pc flags⟩ := by
    simp [stepThread, stepFind, hlook]
  have h₃ : stepThread gen () .proceed ⟨sh, none, cache, .genCheck pc flags⟩ =
      some ⟨sh, none, cache, .genLock pc flags⟩ := by
    simp [stepThread, stepFind, hnot]
  have h₄ : stepThread gen () .proceed ⟨sh, none, cache, .genLock pc flags⟩ =
      some ⟨sh, some (), cache, .genLookup pc flags⟩ := rfl
  have h₅ : stepThread gen () .proceed ⟨sh, some (), cache, .genLookup pc flags⟩ =
      some ⟨sh, some (), cache, .genAlloc pc flags⟩ := by
    simp [stepThread, stepFind, hlook]
  have h₀ : stepThread gen () (.find pc flags) ⟨sh, none, cache, .idle⟩ =
      some ⟨sh, none, cache, .findCache pc flags⟩ := rfl
  simp only [runView, lookupSteps, List.foldlM_cons, List.foldlM_nil, h₀, h₁, h₂, h₃, h₄, h₅,
    Option.bind_eq_bind, Option.bind_some, Option.pure_def]

theorem runView_emit {gen : CodeGen} {sh sh₂ : Shared} {cache : JumpCache} {pc : BitVec 64}
    {flags : BitVec 32} {tr : Translation} {s₁ s₃ : TbStore} {i : Nat}
    (h₁ : sh.store.alloc pc flags 0 = some (s₁, i))
    (h₂ : ({ sh with store := s₁ } : Shared).emitTb gen i tr = some sh₂)
    (h₃ : sh₂.store.insert i = some s₃) :
    runView gen ⟨sh, some (), cache, .genAlloc pc flags⟩ (emitSteps tr) =
      some ⟨{ sh₂ with store := s₃ }, none, cache.insert pc i, .idle⟩ := by
  have hs₁ : stepThread gen () .proceed ⟨sh, some (), cache, .genAlloc pc flags⟩ =
      some ⟨{ sh with store := s₁ }, some (), cache, .genEmit pc flags i⟩ := by
    simp only [stepThread, stepFind, h₁, Option.bind_eq_bind, Option.bind_some, Option.pure_def,
      Option.some_or, View.withStore]
  have hs₂ : stepThread gen () (.translation tr)
      ⟨{ sh with store := s₁ }, some (), cache, .genEmit pc flags i⟩ =
      some ⟨sh₂, some (), cache, .genInsert pc flags i⟩ := by
    simp [stepThread, stepFind, h₂]
  have hs₃ : stepThread gen () .proceed ⟨sh₂, some (), cache, .genInsert pc flags i⟩ =
      some ⟨{ sh₂ with store := s₃ }, some (), cache, .genUnlock pc flags i⟩ := by
    simp [stepThread, stepFind, h₃, View.withStore]
  have hs₄ : stepThread gen () .proceed
      ⟨{ sh₂ with store := s₃ }, some (), cache, .genUnlock pc flags i⟩ =
      some ⟨{ sh₂ with store := s₃ }, none, cache.insert pc i, .found pc flags (some i)⟩ := rfl
  have hs₅ : stepThread gen () .proceed
      ⟨{ sh₂ with store := s₃ }, none, cache.insert pc i, .found pc flags (some i)⟩ =
      some ⟨{ sh₂ with store := s₃ }, none, cache.insert pc i, .idle⟩ := rfl
  simp only [runView, emitSteps, List.foldlM_cons, List.foldlM_nil, hs₁, hs₂, hs₃, hs₄, hs₅,
    Option.bind_eq_bind, Option.bind_some, Option.pure_def]

/-- The translation of a jump to the next instruction: `goto_tb 0; exit_tb 0`. -/
def jumpBlock : Translation := ⟨⟨[.gotoTb 0], 0⟩, 4⟩

/-- The guest runs `n` jumps one after another. -/
def jumpSteps (n : Nat) : List Choice :=
  (List.range n).flatMap (fun j => lookupSteps (BitVec.ofNat 64 (4 * j)) 0 ++ emitSteps jumpBlock)

theorem exitTbSize_le (val : BitVec 64) : exitTbSize val ≤ 20 := by
  have hmov : (emitMovRi true .rax val).length ≤ 15 := by
    unfold emitMovRi
    split
    · decide
    · split
      · rw [List.length_append, length_emitU32]
        decide
      · split
        · rw [List.length_append, length_emitU32]
          decide
        · rw [List.length_append, List.length_append, length_emitU32, length_emitU32]
          decide
  unfold exitTbSize
  split
  · omega
  · omega

theorem blockEnd_jumpBlock_le (tbIdx : BitVec 32) (start : Nat) :
    blockEnd tbIdx start jumpBlock.code ≤ start + 28 := by
  have hexit := exitTbSize_le (encodeTbExit tbIdx ((0 : BitVec 32).setWidth 64))
  have hend : blockEnd tbIdx start jumpBlock.code = start + gotoTbPad start + 5 +
      exitTbSize (encodeTbExit tbIdx ((0 : BitVec 32).setWidth 64)) := rfl
  have hpad : gotoTbPad start ≤ 3 := by
    unfold gotoTbPad
    omega
  omega

/-- The vCPU after `n` jumps: `n` blocks, one for each jump, and room in the code buffer. -/
structure AfterJumps (n : Nat) (v : View Unit) : Prop where
  idle : v.phase = .idle
  free : v.lock = none
  length_eq : v.shared.store.tbs.length = n
  key : ∀ i, i < n → keyOf v.shared.store i = some (BitVec.ofNat 64 (4 * i), 0, false)
  offset_le : v.shared.buf.offset ≤ 64 + 28 * n

/-- No block is for the pc of the next jump. -/
theorem AfterJumps.miss {n : Nat} {v : View Unit} (h : AfterJumps n v) (hn : n ≤ 65536) (i : Nat) :
    answers v.shared.store (BitVec.ofNat 64 (4 * n)) 0 i = false := by
  by_contra ha
  rw [Bool.not_eq_false, answers_iff] at ha
  have hlt : i < n := by
    obtain ⟨tb, htb, -⟩ := Option.map_eq_some_iff.mp ha
    rw [← h.length_eq]
    exact get_eq_some_lt htb
  rw [h.key i hlt] at ha
  simp only [Option.some.injEq, Prod.mk.injEq] at ha
  have hnat := congrArg BitVec.toNat ha.1
  rw [BitVec.toNat_ofNat, BitVec.toNat_ofNat] at hnat
  omega

/-- The vCPU comes to the allocation of the next block. -/
theorem AfterJumps.lookup {n : Nat} {v : View Unit} {live : List Nat} (h : AfterJumps n v)
    (gen : CodeGen) (hn : n ≤ 65536) (hl : Layout v.shared)
    (htab : TableInv v.shared.store live) (hc : CompleteInv (single v)) :
    minCodeBufRemaining ≤ v.shared.buf.remaining ∧
      runView gen v (lookupSteps (BitVec.ofNat 64 (4 * n)) 0) =
        some ⟨v.shared, some (), v.cache, .genAlloc (BitVec.ofNat 64 (4 * n)) 0⟩ := by
  obtain ⟨sh, lock, cache, phase⟩ := v
  obtain ⟨hidle, hfree, hlen, hkey, hoff⟩ := h
  simp only at hidle hfree
  subst hidle hfree
  have hmiss := AfterJumps.miss ⟨rfl, rfl, hlen, hkey, hoff⟩ hn
  have hsize : sh.buf.size = 16777216 := hl.size_eq
  have hroom : minCodeBufRemaining ≤ sh.buf.remaining := by
    simp only at hoff
    unfold CodeBuffer.remaining minCodeBufRemaining
    omega
  refine ⟨hroom, runView_lookup ?_ ?_ hroom⟩
  · unfold cacheHit
    split
    · rfl
    · next i hi =>
      obtain ⟨tb, htb, -⟩ := hc.cache () _ i hi
      have hnot : tb.isFor (BitVec.ofNat 64 (4 * n)) 0 = false := by
        have ha := hmiss i
        unfold answers at ha
        rw [show sh.store.get i = some tb from htb] at ha
        exact ha
      rw [show sh.store.get i = some tb from htb]
      simp only [Option.bind_eq_bind, Option.bind_some, hnot, Bool.false_eq_true, if_false,
        Option.pure_def]
  · rw [htab.lookup, Option.some.injEq, List.find?_eq_none]
    intro i _
    rw [hmiss i]
    exact Bool.false_ne_true

theorem emitTb_offset {gen : CodeGen} {sh sh' : Shared} {i : Nat} {tr : Translation}
    (h : sh.emitTb gen i tr = some sh') :
    sh'.buf.offset = blockEnd (BitVec.ofNat 32 i) sh.buf.offset tr.code := by
  unfold Shared.emitTb at h
  obtain ⟨st, hst, h⟩ := Option.bind_eq_some_iff.mp h
  simp only [Option.pure_def, Option.some.injEq] at h
  rw [← h]
  exact (emitItems_end hst).1

/-- The vCPU translates the next jump. -/
theorem AfterJumps.emit {gen : CodeGen} {n : Nat} {v : View Unit} (h : AfterJumps n v)
    (hn : n < 65536) (hl : Layout v.shared) (hgen : Reachable gen codeBufSize) :
    ∃ v', runView gen ⟨v.shared, some (), v.cache, .genAlloc (BitVec.ofNat 64 (4 * n)) 0⟩
      (emitSteps jumpBlock) = some v' ∧ AfterJumps (n + 1) v' := by
  have hsize : v.shared.buf.size = 16777216 := hl.size_eq
  have hoff := h.offset_le
  have hlen := h.length_eq
  have hmax : TbStore.maxTbs = 65536 := rfl
  obtain ⟨⟨s₁, k⟩, h₁⟩ := Option.isSome_iff_exists.mp
    ((alloc_isSome_iff v.shared.store (BitVec.ofNat 64 (4 * n)) 0 0).mpr (by omega))
  obtain ⟨hk, -, hs₁⟩ := alloc_eq_some h₁
  have hkn : k = n := hk.trans hlen
  have hend := blockEnd_jumpBlock_le (BitVec.ofNat 32 k) v.shared.buf.offset
  have hfits : blockEnd (BitVec.ofNat 32 k) v.shared.buf.offset jumpBlock.code ≤
      v.shared.buf.size := by
    omega
  obtain ⟨sh₂, h₂⟩ := Option.isSome_iff_exists.mp
    ((emitTb_isSome_iff (hl.alloc h₁) (by rw [hl.size_eq]; exact hgen) k jumpBlock).mpr hfits)
  have hem := emitTb_of_alloc hl h₁ h₂
  have hnew : s₁.get k = some (TranslationBlock.new (BitVec.ofNat 64 (4 * n)) 0 0) := by
    rw [get_alloc h₁, if_pos hk]
  obtain ⟨size, a, b, hfill⟩ := hem.filled _ hnew
  obtain ⟨s₃, h₃⟩ := Option.isSome_iff_exists.mp (insert_isSome hfill)
  refine ⟨_, runView_emit h₁ h₂ h₃, rfl, rfl, ?_, ?_, ?_⟩
  · simp only
    rw [(insert_sameCore h₃).length_eq, hem.length_eq, hs₁]
    simp [hlen]
  · intro i hi
    have hkey₂ : keyOf sh₂.store i = keyOf s₁ i := hem.map_get _ (fun _ _ _ _ _ _ => rfl) i
    simp only
    rw [keyOf_of_sameCore (insert_sameCore h₃), hkey₂, keyOf_alloc h₁, hkn]
    split
    · next hin => rw [hin]
    · exact h.key i (by omega)
  · simp only
    rw [emitTb_offset h₂]
    simp only
    omega

/-- The vCPU before the first jump. -/
def beforeJumps : View Unit := ⟨newEnv, none, {}, .idle⟩

theorem runView_append {gen : CodeGen} {v v₁ : View Unit} {l₁ l₂ : List Choice}
    (h : runView gen v l₁ = some v₁) : runView gen v (l₁ ++ l₂) = runView gen v₁ l₂ := by
  unfold runView at h ⊢
  rw [List.foldlM_append, h]
  rfl

/-- The invariants of a run of a single vCPU from the start. -/
theorem single_invariants {gen : CodeGen} {cs : List Choice} {v : View Unit}
    (h : runView gen beforeJumps cs = some v) :
    Layout v.shared ∧ (∃ live, TableInv v.shared.store live) ∧ CompleteInv (single v) := by
  obtain ⟨hrun, hlast⟩ := run_of_moves (runMoves_single h)
  obtain ⟨hc, -⟩ := MachineInvariant.Run.codeInv hrun newEnv_fresh le_rfl
  obtain ⟨live, hu⟩ := Run.uniqueInv hrun newEnv_fresh le_rfl
  have hcomplete := Run.completeInv hrun newEnv_fresh le_rfl
  rw [hlast] at hc hu hcomplete
  exact ⟨hc.layout, ⟨live, hu.table⟩, hcomplete⟩

theorem reachable_default : Reachable ⟨0, 5⟩ codeBufSize := ⟨by decide, by decide, by decide⟩

/-- The guest with `n` jumps gets all of them translated, up to the size of the store. -/
theorem exists_afterJumps (n : Nat) (hn : n ≤ 65536) :
    ∃ v, runView ⟨0, 5⟩ beforeJumps (jumpSteps n) = some v ∧ AfterJumps n v := by
  induction n with
  | zero => exact ⟨beforeJumps, rfl, rfl, rfl, rfl, fun i hi => absurd hi (Nat.not_lt_zero i), le_rfl⟩
  | succ n ih =>
    obtain ⟨v, hv, hj⟩ := ih (by omega)
    obtain ⟨hl, ⟨live, htab⟩, hc⟩ := single_invariants hv
    obtain ⟨-, hlook⟩ := hj.lookup ⟨0, 5⟩ (by omega) hl htab hc
    obtain ⟨v', hemit, hj'⟩ := hj.emit (by omega) hl reachable_default
    have hsteps : jumpSteps (n + 1) = jumpSteps n ++
        (lookupSteps (BitVec.ofNat 64 (4 * n)) 0 ++ emitSteps jumpBlock) := by
      unfold jumpSteps
      rw [List.range_succ, List.flatMap_append, List.flatMap_singleton]
    refine ⟨v', ?_, hj'⟩
    rw [hsteps, runView_append hv, runView_append hlook]
    exact hemit

/-- A guest with 65537 jumps: the call for the last one passes the test of the code buffer and
has no step at its allocation. -/
theorem full_store_fails_allocation :
    ∃ moves m, runMoves ⟨0, 5⟩ (Machine.initial newEnv : Machine Unit) moves = some m ∧
      m.phase () = .genAlloc (BitVec.ofNat 64 (4 * 65536)) 0 ∧
      minCodeBufRemaining ≤ m.shared.buf.remaining ∧
      ∀ c, stepMachine ⟨0, 5⟩ m ((), c) = none := by
  obtain ⟨v, hv, hj⟩ := exists_afterJumps 65536 le_rfl
  obtain ⟨hl, ⟨live, htab⟩, hc⟩ := single_invariants hv
  obtain ⟨hroom, hlook⟩ := hj.lookup ⟨0, 5⟩ le_rfl hl htab hc
  have hall := (runView_append hv).trans hlook
  refine ⟨_, _, runMoves_single hall, rfl, hroom, ?_⟩
  have hfull : ∀ pc flags, v.shared.store.alloc pc flags 0 = none := by
    intro pc flags
    rw [← Option.not_isSome_iff_eq_none, alloc_isSome_iff, hj.length_eq]
    exact Nat.lt_irrefl _
  intro c
  cases c with
  | proceed =>
    simp only [stepMachine, single, Machine.view, stepThread, stepFind, hfull, Option.bind_eq_bind,
      Option.bind_none, Option.none_or, stepAdd, stepInvalidate, Option.map_none]
  | _ => rfl

/-- The first block of a guest has room. -/
theorem gen_code_steps_iff_room_first :
    ∃ m, runMoves ⟨0, 5⟩ (Machine.initial newEnv : Machine Unit)
        ((lookupSteps 0 0).map (fun c => ((), c))) = some m ∧
      m.phase () = .genAlloc 0 0 ∧ (stepThread ⟨0, 5⟩ () .proceed (m.view ())).isSome := by
  have hend : ((runMoves ⟨0, 5⟩ (Machine.initial newEnv : Machine Unit)
      ((lookupSteps 0 0).map (fun c => ((), c)))).map (fun m => (m.phase (), m.shared.store.tbs.length))) =
      some (.genAlloc 0 0, 0) := by
    decide
  obtain ⟨m, hm, hobs⟩ := Option.map_eq_some_iff.mp hend
  obtain ⟨hp, hlen⟩ := Prod.mk.inj hobs
  obtain ⟨hrun, hlast⟩ := run_of_moves hm
  refine ⟨m, hm, hp, ?_⟩
  have h := (gen_code_steps_iff_room ⟨0, 5⟩ reachable_default newEnv newEnv_fresh _ _ hrun _
    le_rfl).1 () jumpBlock
  rw [hlast, hp] at h
  refine (h rfl ?_).mpr ?_
  · rintro ⟨⟨pc, flags, hwait⟩, -⟩
    rw [hp] at hwait
    cases hwait
  · simp only [HasRoom, hlen]
    decide

end TcgRs.Analysis.Exhaustion
